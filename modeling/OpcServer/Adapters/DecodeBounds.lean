import OpcServer.Adapters.ModbusProtocol

/-! Which bytes response decoding touches. The register decoder ties the byte count
to the quantity and therefore stays inside the response; the bit decoder compares
the byte count with the length only, so that its loop leaves the response exactly
when the quantity asks for more bytes than arrived. The replay transport carries
copies of both decoders. -/

namespace OpcServer.Adapters

open Domain

def replayErr (code : ErrorCode) (message : String) (retryable : Bool := false) : Error :=
  { code := code, message := message, component := "adapters.frame_replay",
    retryable := retryable }

/-- `decode_registers` of the replay transport. -/
def decodeRegisters : List UInt8 → UInt16 → Option (Result (List UInt16)) :=
  decodeRegistersWith (replayErr .decoding) "short register PDU"

/-- `decode_bits` of the replay transport. -/
def decodeBits : List UInt8 → UInt16 → Option (Result (List Bool)) :=
  decodeBitsWith (replayErr .decoding) "short bit PDU"

/-! ### The loops -/

theorem registerLoop_some (resp : List UInt8) (i n : ℕ) (h : 2 + (i + n) * 2 ≤ resp.length) :
    ∃ vs, registerLoop resp i n = some vs ∧ vs.length = n := by
  induction n generalizing i with
  | zero => exact ⟨[], rfl, rfl⟩
  | succ n ih =>
    obtain ⟨vs, hvs, hlen⟩ := ih (i + 1) (by omega)
    have hhi : 2 + i * 2 < resp.length := by omega
    have hlo : 3 + i * 2 < resp.length := by omega
    refine ⟨word resp[2 + i * 2] resp[3 + i * 2] :: vs, ?_, by simp [hlen]⟩
    simp [registerLoop, List.getElem?_eq_getElem hhi, List.getElem?_eq_getElem hlo, hvs]

theorem bitLoop_some (resp : List UInt8) (i n : ℕ) (h : ∀ k < n, 2 + (i + k) / 8 < resp.length) :
    ∃ vs, bitLoop resp i n = some vs ∧ vs.length = n := by
  induction n generalizing i with
  | zero => exact ⟨[], rfl, rfl⟩
  | succ n ih =>
    obtain ⟨vs, hvs, hlen⟩ := ih (i + 1) (fun k hk => by
      have := h (k + 1) (by omega); rwa [show i + (k + 1) = i + 1 + k by omega] at this)
    have hb : 2 + i / 8 < resp.length := h 0 (by omega)
    refine ⟨(resp[2 + i / 8].toNat / 2 ^ (i % 8) % 2 == 1) :: vs, ?_, by simp [hlen]⟩
    simp [bitLoop, List.getElem?_eq_getElem hb, hvs]

/-- A loop that finishes has found every byte it asked for. -/
theorem lt_of_bitLoop_some {resp : List UInt8} {i n : ℕ} {vs : List Bool}
    (h : bitLoop resp i n = some vs) : ∀ k < n, 2 + (i + k) / 8 < resp.length := by
  induction n generalizing i vs with
  | zero => intro k hk; omega
  | succ n ih =>
    simp only [bitLoop, Option.bind_eq_bind, Option.bind_eq_some_iff] at h
    obtain ⟨byte, hbyte, rest, hrest, _⟩ := h
    have hb : 2 + i / 8 < resp.length := (List.getElem?_eq_some_iff.mp hbyte).1
    intro k hk
    cases k with
    | zero => exact hb
    | succ k =>
      have := ih hrest k (by omega)
      rwa [show i + (k + 1) = i + 1 + k by omega]

/-! ### The decoders -/

/-- The decoder accesses only bytes of the response and, on success, returns
`quantity` values. -/
def StaysInside {α : Type} (outcome : Option (Result (List α))) (quantity : UInt16) : Prop :=
  ∃ r, outcome = some r ∧ ∀ vs, r = .ok vs → vs.length = quantity.toNat

theorem countedValues_inside_iff {α : Type} (err : String → Error) (short mismatch : String)
    (resp : List UInt8) (fits : UInt8 → Prop) [DecidablePred fits] (values : Option (List α))
    (quantity : UInt16) :
    StaysInside (countedValues err short mismatch resp fits values) quantity ↔
      ∀ count, resp[1]? = some count → fits count →
        ∃ vs, values = some vs ∧ vs.length = quantity.toNat := by
  unfold countedValues
  cases resp[1]? with
  | none => simp [StaysInside]
  | some count =>
    simp only [Option.some.injEq, forall_eq']
    by_cases hfits : fits count
    · rw [if_pos hfits]
      cases values <;> simp [StaysInside, hfits]
    · rw [if_neg hfits]
      simp [StaysInside, hfits]

theorem decodeRegistersWith_inside (err : String → Error) (short : String) (resp : List UInt8)
    (quantity : UInt16) : StaysInside (decodeRegistersWith err short resp quantity) quantity := by
  rw [decodeRegistersWith_eq, countedValues_inside_iff]
  rintro count - ⟨hle, hcount⟩
  exact registerLoop_some resp 0 quantity.toNat (by omega)

/-- Every byte the quantity asks for has arrived, whenever the bit decoder's own
checks pass. -/
def BitsArrived (resp : List UInt8) (quantity : UInt16) : Prop :=
  ∀ byteCount, resp[1]? = some byteCount → 2 + byteCount.toNat ≤ resp.length →
    2 + (quantity.toNat + 7) / 8 ≤ resp.length

theorem decodeBitsWith_inside_iff (err : String → Error) (short : String) (resp : List UInt8)
    (quantity : UInt16) :
    StaysInside (decodeBitsWith err short resp quantity) quantity ↔ BitsArrived resp quantity := by
  rw [decodeBitsWith_eq, countedValues_inside_iff]
  refine forall₃_congr fun count _ hfits => ?_
  constructor
  · rintro ⟨vs, hvs, -⟩
    have hk := lt_of_bitLoop_some hvs
    by_cases hq : quantity.toNat = 0
    · omega
    · have := hk (quantity.toNat - 1) (by omega)
      omega
  · intro hle
    exact bitLoop_some resp 0 quantity.toNat (fun k hk => by omega)

/-- A bit decoder that leaves the response does so whatever its error texts are. -/
theorem decodeBitsWith_ne_none_iff (err : String → Error) (short : String) (resp : List UInt8)
    (quantity : UInt16) :
    decodeBitsWith err short resp quantity ≠ none ↔ BitsArrived resp quantity := by
  rw [← decodeBitsWith_inside_iff err short]
  constructor
  · intro h
    obtain ⟨r, hr⟩ := Option.ne_none_iff_exists'.mp h
    refine ⟨r, hr, ?_⟩
    rintro vs rfl
    -- the loop has made one value for each index
    rw [decodeBitsWith_eq, countedValues] at hr
    split at hr
    · cases hr
    · split at hr
      · obtain ⟨vs', hvs, heq⟩ := Option.map_eq_some_iff.mp hr
        obtain ⟨vs'', hvs', hlen⟩ := bitLoop_some resp 0 quantity.toNat (lt_of_bitLoop_some hvs)
        rw [hvs] at hvs'
        rw [← Except.ok.inj heq, Option.some.inj hvs', hlen]
      · cases hr
  · rintro ⟨r, hr, -⟩ hnone
    rw [hr] at hnone
    cases hnone

/-- All four decoders stay inside a response and return `quantity` values. -/
def DecodersStayInside (resp : List UInt8) (quantity : UInt16) : Prop :=
  StaysInside (decodeRegisterResponse resp quantity) quantity ∧
    StaysInside (decodeBitsResponse resp quantity) quantity ∧
    StaysInside (decodeRegisters resp quantity) quantity ∧
    StaysInside (decodeBits resp quantity) quantity

/-- The decoders are memory safe on exactly the responses that carry every byte of
the requested bits. -/
theorem decoders_stay_inside_iff (resp : List UInt8) (quantity : UInt16) :
    DecodersStayInside resp quantity ↔ BitsArrived resp quantity := by
  constructor
  · rintro ⟨_, hbits, _, _⟩
    exact (decodeBitsWith_inside_iff _ _ resp quantity).mp hbits
  · intro h
    exact ⟨decodeRegistersWith_inside _ _ resp quantity,
      (decodeBitsWith_inside_iff _ _ resp quantity).mpr h,
      decodeRegistersWith_inside _ _ resp quantity,
      (decodeBitsWith_inside_iff _ _ resp quantity).mpr h⟩

/-- An FC01 response with byte count zero and no data, read for one coil: the bit
decoder accesses index 2 of two bytes. -/
theorem decodeBitsResponse_leaves_response :
    ¬ DecodersStayInside [0x01, 0x00] 1 := by
  rintro ⟨_, ⟨r, hr, _⟩, _, _⟩
  have : decodeBitsResponse [0x01, 0x00] 1 = none := by decide
  rw [this] at hr
  cases hr

end OpcServer.Adapters
