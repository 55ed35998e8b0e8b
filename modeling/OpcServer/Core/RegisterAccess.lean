import OpcServer.Core.Translator
import OpcServer.Project.LoadText

/-! The registers that decoding looks at. The guard compares the number of registers with
the quantity of the tag, the types read as many as they need: those of two registers
check for them, and a `float64` reads four. -/

namespace OpcServer.Core.Translator

open Domain Project

section Access
variable [Platform]

/-- Registers read of `size` of them, when the guard lets them pass. -/
def accessed (type : TagType) (size : ℕ) : ℕ :=
  match type with
  | .bool | .uint16 | .int16 => 1
  | .uint32 | .int32 | .float32 => if size < 2 then 0 else 2
  | .float64 => 4

/-- Decoding leaves the registers exactly if the guard lets fewer pass than are read, and
else does not depend on what is outside. -/
theorem decode?_eq (tag : Tag) (registers : List UInt16) :
    decode? tag registers =
      if regsFor tag ≤ registers.length ∧
        registers.length < accessed tag.type registers.length then none
      else some (decode tag registers) := by
  unfold decode? decode decodeM
  cases hcount : ensureCount tag registers.length with
  | error e =>
    have hnot : ¬ regsFor tag ≤ registers.length := by
      rw [← ensureCount_eq_ok, hcount]
      exact fun h => nomatch h
    simp [hnot]
  | ok u =>
    have hle : regsFor tag ≤ registers.length := ensureCount_eq_ok.mp hcount
    simp only [hle, true_and]
    cases htype : tag.type with
    | bool | uint16 | int16 =>
      cases registers with
      | nil => simp [accessed]
      | cons r registers => simp [accessed]
    | uint32 | int32 | float32 =>
      rcases registers with _ | ⟨r0, _ | ⟨r1, registers⟩⟩
      · simp [accessed]
      · simp [accessed]
      · have hlen : ¬ registers.length + 1 + 1 < 2 := by omega
        simp [accessed, hlen]
    | float64 =>
      rcases registers with _ | ⟨r0, _ | ⟨r1, _ | ⟨r2, _ | ⟨r3, registers⟩⟩⟩⟩
      · simp [accessed]
      · simp [accessed]
      · simp [accessed]
      · simp [accessed]
      · have hlen : ¬ registers.length + 1 + 1 + 1 + 1 < 4 := by omega
        simp [accessed, hlen]

/-- Of a tag that passes its checks, decoding stays inside the registers, except those of a
`float64` with a quantity of fewer than four that are not more. -/
theorem decode_stays_inside_iff {path : String} {tag : Tag} (htag : NoErrors (validateTag path tag))
    (registers : List UInt16) :
    (decode? tag registers).isSome = true ↔
      ¬ (tag.type = .float64 ∧ ∃ q ∈ tag.quantity, q ≤ registers.length ∧ registers.length < 4) := by
  have hpos := (validateTag_noErrors htag).regsFor_pos
  have hnone : (decode? tag registers).isSome = true ↔ ¬ (regsFor tag ≤ registers.length ∧
      registers.length < accessed tag.type registers.length) := by
    rw [decode?_eq]
    split_ifs with h
    · simp [h]
    · simp [h]
  rw [hnone, not_iff_not]
  cases htype : tag.type with
  | bool | uint16 | int16 =>
    simp only [accessed, reduceCtorEq, false_and, iff_false]
    omega
  | uint32 | int32 | float32 =>
    simp only [accessed, reduceCtorEq, false_and, iff_false]
    split_ifs <;> omega
  | float64 =>
    cases hquantity : tag.quantity with
    | none =>
      simp only [regsFor, hquantity, htype, registerCountFor, accessed]
      simp only [Option.not_mem_none, false_and, exists_false, and_false, iff_false]
      omega
    | some q =>
      simp only [regsFor, hquantity, accessed, Option.mem_some_iff, exists_eq_left', true_and]

end Access

attribute [local instance] exactPlatform

/-- A `float64` of which one register is asked for. -/
def narrowTag : Tag := { name := "flow", type := .float64, quantity := some 1, byteOrder := "ABCD" }

theorem narrowTag_checked (quantity : Option ℤ) (h : ∀ q ∈ quantity, 1 ≤ q) :
    NoErrors (validateTag "" { narrowTag with quantity := quantity }) := by
  have hquantity : quantity.any (· < 1) = false := by
    cases quantity with
    | none => rfl
    | some q => simpa using h q rfl
  simp only [validateTag, noErrors_append, noErrors_check, hquantity]
  exact ⟨⟨⟨rfl, rfl⟩, trivial⟩, rfl⟩

/-- The other three registers are read, too. -/
theorem narrow_float64_leaves_registers :
    NoErrors (validateTag "" narrowTag) ∧ decode? narrowTag [0] = none :=
  ⟨narrowTag_checked (some 1) (by decide), by decide +kernel⟩

/-- Without a quantity the four registers are there. -/
theorem float64_stays_inside :
    (decode? { narrowTag with quantity := none } [0, 0, 0, 0]).isSome = true := by
  have htag := narrowTag_checked none (fun q hq => nomatch hq)
  refine (decode_stays_inside_iff htag [0, 0, 0, 0]).mpr ?_
  rintro ⟨-, q, hq, -⟩
  cases hq

end OpcServer.Core.Translator
