import OpcServer.Lib.SegmentPath
import OpcServer.Lib.TextStream
import Mathlib.Tactic.NormNum

/-! The endpoint URL of the OPC UA server. The host is looked for before the path, the port
after the last colon of the whole text. -/

namespace OpcServer.Adapters

open SegmentPath TextStream

/-- `std::from_chars` for an `unsigned`: digits without a sign, refused out of range. -/
def fromChars (text : Text) : Option (ℕ × Text) :=
  match readDigits text with
  | some (n, rest) => if n < 2 ^ 32 then some (n, rest) else none
  | none => none

def parsePort (text : Text) (fallback : UInt16) : UInt16 :=
  match fromChars text with
  | none => fallback
  | some (port, rest) =>
    if rest ≠ [] ∨ port = 0 ∨ port > 65535 then fallback else UInt16.ofNat port

def parseEndpointPort (url : Text) (fallback : UInt16) : UInt16 :=
  match rfind ':' url with
  | none => fallback
  | some colon => parsePort (url.drop (colon + 1)) fallback

def endpointPrefix : Text := "opc.tcp://".toList

def wildcardHosts : List Text := ["0.0.0.0".toList, "[::]".toList, "::".toList]

def parseEndpointHost (url : Text) : Text :=
  let rest := if endpointPrefix.isPrefixOf url then url.drop endpointPrefix.length else url
  let rest := rest.takeWhile (· ≠ '/')
  let rest := match rfind ':' rest with
    | none => rest
    | some colon => rest.take colon
  if rest = [] ∨ rest ∈ wildcardHosts then "127.0.0.1".toList else rest

def endpointUrl (host : Text) (port : ℕ) (path : Text) : Text :=
  endpointPrefix ++ host ++ ':' :: Nat.toDigits 10 port ++ path

theorem parseEndpointPort_append {after : Text} (h : ':' ∉ after) (before : Text) :
    parseEndpointPort (before ++ ':' :: after) = parsePort after := by
  funext fallback
  have hdrop : (before ++ ':' :: after).drop (before.length + 1) = after := by simp
  rw [parseEndpointPort, rfind_append h]
  simp only [hdrop]

theorem colon_notMem_digits {digits : Text} (h : ∀ c ∈ digits, c.isDigit = true) :
    ':' ∉ digits := fun hmem => absurd (h _ hmem) (by decide)

theorem toDigits_isDigit (n : ℕ) : ∀ c ∈ Nat.toDigits 10 n, c.isDigit = true := fun _ hc =>
  Nat.isDigit_of_mem_toDigits (by decide) (by decide) hc

/-- A text gives the port whatever the fallback, if and only if it is digits that name it. -/
theorem parsePort_eq_iff {port : ℕ} (hlow : 1 ≤ port) (hhigh : port ≤ 65535) (text : Text) :
    (∀ fallback, (parsePort text fallback).toNat = port) ↔ readDigits text = some (port, []) := by
  constructor
  · intro h
    -- zero is not the port, so that the fallback was not taken
    have hzero := h 0
    have hne : (0 : UInt16).toNat ≠ port := by
      rw [UInt16.toNat_zero]
      omega
    unfold parsePort fromChars at hzero
    cases hread : readDigits text with
    | none =>
      rw [hread] at hzero
      exact absurd hzero hne
    | some read =>
      obtain ⟨n, rest⟩ := read
      simp only [hread] at hzero
      split_ifs at hzero with hrange
      · simp only at hzero
        split_ifs at hzero with hbad
        · exact absurd hzero hne
        · push Not at hbad
          obtain ⟨hrest, -, hle⟩ := hbad
          rw [UInt16.toNat_ofNat', Nat.mod_eq_of_lt (by omega)] at hzero
          rw [hzero, hrest]
      · exact absurd hzero hne
  · intro hread fallback
    have hrange : port < 2 ^ 32 := by omega
    have hgood : ¬(([] : Text) ≠ [] ∨ port = 0 ∨ port > 65535) := by
      rintro (h | h | h)
      · exact h rfl
      · omega
      · omega
    rw [parsePort, fromChars, hread]
    simp only [if_pos hrange, if_neg hgood]
    rw [UInt16.toNat_ofNat', Nat.mod_eq_of_lt (by omega)]

/-- The port is read from the port's digits and the path, or from the path alone. -/
theorem parseEndpointPort_url (host : Text) (port : ℕ) (path : Text) :
    parseEndpointPort (endpointUrl host port path) =
      match rfind ':' path with
      | none => parsePort (Nat.toDigits 10 port ++ path)
      | some colon => parsePort (path.drop (colon + 1)) := by
  have hdigits := colon_notMem_digits (toDigits_isDigit port)
  by_cases hcolon : ':' ∈ path
  · obtain ⟨before, after, rfl, hafter⟩ := exists_last_sep hcolon
    rw [rfind_append hafter]
    have hurl : endpointUrl host port (before ++ ':' :: after) =
        (endpointPrefix ++ host ++ ':' :: Nat.toDigits 10 port ++ before) ++ ':' :: after := by
      simp [endpointUrl]
    have hdrop : (before ++ ':' :: after).drop (before.length + 1) = after := by simp
    rw [hurl, parseEndpointPort_append hafter]
    simp only [hdrop]
  · have hurl : endpointUrl host port path =
        (endpointPrefix ++ host) ++ ':' :: (Nat.toDigits 10 port ++ path) := by
      simp [endpointUrl]
    have hnone : ':' ∉ Nat.toDigits 10 port ++ path := by
      rw [List.mem_append]
      rintro (h | h)
      · exact hdigits h
      · exact hcolon h
    rw [rfind_eq_none hcolon, hurl, parseEndpointPort_append hnone]

/-- The host is right whatever the path is. -/
theorem parseEndpointHost_url {host path : Text} (hhost : host ≠ []) (hslash : '/' ∉ host)
    (port : ℕ) (hpath : path = [] ∨ path.head? = some '/') :
    parseEndpointHost (endpointUrl host port path) =
      if host ∈ wildcardHosts then "127.0.0.1".toList else host := by
  have hdigits := toDigits_isDigit port
  have hauthority : ∀ c ∈ host ++ ':' :: Nat.toDigits 10 port, decide (c ≠ '/') = true := by
    intro c hc
    rw [decide_eq_true_iff]
    rintro rfl
    rcases List.mem_append.mp hc with h | h
    · exact hslash h
    · rcases List.mem_cons.mp h with h | h
      · exact absurd h (by decide)
      · exact absurd (hdigits _ h) (by decide)
  have hcut : (host ++ ':' :: Nat.toDigits 10 port ++ path).takeWhile (· ≠ '/') =
      host ++ ':' :: Nat.toDigits 10 port := by
    have hstop : path.takeWhile (· ≠ '/') = [] := by
      cases path with
      | nil => rfl
      | cons c path =>
        obtain rfl : c = '/' := by simpa using hpath
        rfl
    rw [List.takeWhile_append_of_pos hauthority, hstop, List.append_nil]
  have hshape : endpointUrl host port path =
      endpointPrefix ++ (host ++ ':' :: Nat.toDigits 10 port ++ path) := by
    simp [endpointUrl]
  have hstarts : endpointPrefix.isPrefixOf (endpointUrl host port path) = true := by
    rw [hshape, List.isPrefixOf_iff_prefix]
    exact List.prefix_append _ _
  rw [parseEndpointHost, if_pos hstarts, hshape, List.drop_left, hcut,
    rfind_append (colon_notMem_digits hdigits)]
  simp only [List.take_left, hhost, false_or]

/-- The endpoint of a URL is the configured one if and only if the URL has no path, or the
path ends in a colon and digits that name the same port. -/
theorem endpoint_url_used_iff (host path : Text) (port : ℕ) (hhost : host ≠ [])
    (hslash : '/' ∉ host) (hlow : 1 ≤ port) (hhigh : port ≤ 65535)
    (hpath : path = [] ∨ path.head? = some '/') :
    ((∀ fallback, (parseEndpointPort (endpointUrl host port path) fallback).toNat = port) ∧
      parseEndpointHost (endpointUrl host port path) =
        if host ∈ wildcardHosts then "127.0.0.1".toList else host) ↔
    path = [] ∨ ∃ before digits, path = before ++ ':' :: digits ∧ digits ≠ [] ∧
      (∀ c ∈ digits, c.isDigit = true) ∧ Nat.ofDigitChars 10 digits 0 = port := by
  rw [and_iff_left (parseEndpointHost_url hhost hslash port hpath), parseEndpointPort_url]
  by_cases hcolon : ':' ∈ path
  · obtain ⟨before, after, rfl, hafter⟩ := exists_last_sep hcolon
    have hdrop : (before ++ ':' :: after).drop (before.length + 1) = after := by simp
    rw [rfind_append hafter]
    simp only [hdrop]
    rw [parsePort_eq_iff hlow hhigh]
    constructor
    · intro hread
      obtain ⟨hne, hall, hvalue⟩ := readDigits_whole hread
      exact .inr ⟨before, after, rfl, hne, hall, hvalue⟩
    · rintro (hnil | ⟨before', digits, heq, hne, hall, hvalue⟩)
      · simp at hnil
      · have hlast : after = digits := by
          have hrfind := rfind_append hafter before
          have hrfind' := rfind_append (colon_notMem_digits hall) before'
          rw [heq, hrfind'] at hrfind
          have hlen := Option.some.inj hrfind
          exact (List.cons.inj (List.append_inj heq hlen.symm).2).2
        rw [hlast, readDigits_digits hne hall, hvalue]
  · rw [rfind_eq_none hcolon]
    simp only
    rw [parsePort_eq_iff hlow hhigh]
    cases path with
    | nil => exact iff_of_true (readDigits_toDigits port (by simp)) (.inl rfl)
    | cons c path =>
      obtain rfl : c = '/' := by simpa using hpath
      rw [readDigits_toDigits port (by simp)]
      refine iff_of_false (by simp) ?_
      rintro (hnil | ⟨before, digits, heq, -⟩)
      · cases hnil
      · exact hcolon (heq ▸ by simp)

theorem localhost_without_path :
    let url := endpointUrl "localhost".toList 4841 []
    (∀ fallback, (parseEndpointPort url fallback).toNat = 4841) ∧
      parseEndpointHost url = "localhost".toList := by
  intro url
  have h := (endpoint_url_used_iff "localhost".toList [] 4841 (by decide) (by decide) (by decide)
    (by decide) (.inl rfl)).mpr (.inl rfl)
  have hhost : "localhost".toList ∉ wildcardHosts := by decide
  rw [if_neg hhost] at h
  exact h

/-- With a path the server listens on the fallback port. -/
theorem path_hides_port :
    endpointUrl "localhost".toList 4841 "/ua".toList = "opc.tcp://localhost:4841/ua".toList ∧
      parseEndpointPort "opc.tcp://localhost:4841/ua".toList 4840 = 4840 := by
  decide

end OpcServer.Adapters
