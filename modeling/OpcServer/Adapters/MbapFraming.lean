import OpcServer.Adapters.ResponseMatching
import OpcServer.Adapters.UdpLink

/-! How far `unpack_adu` accepts what `pack_mbap` makes and nothing else. The length field
has to count the bytes after it, so that nothing is missing and nothing trails; the
protocol id is written and never looked at. -/

namespace OpcServer.Adapters

open Domain

/-- The protocol id of an MBAP header. -/
def protocolId (adu : List UInt8) : UInt16 := word (adu.getD 2 0) (adu.getD 3 0)

/-- The length field counts the bytes after it, among them a unit and a function. -/
def Framed (adu : List UInt8) : Prop := 2 ≤ aduLength adu ∧ 6 + aduLength adu = adu.length

instance (adu : List UInt8) : Decidable (Framed adu) := inferInstanceAs (Decidable (_ ∧ _))

instance (adu : List UInt8) : Decidable (ExceptionBit adu) := inferInstanceAs (Decidable (_ ≠ _))

/-- An ordinary frame is taken apart as it is. -/
theorem unpackAdu_ordinary {b0 b1 b2 b3 b4 b5 unit function : UInt8} {data : List UInt8}
    (hframed : Framed (b0 :: b1 :: b2 :: b3 :: b4 :: b5 :: unit :: function :: data))
    (hx : ¬ ExceptionBit (b0 :: b1 :: b2 :: b3 :: b4 :: b5 :: unit :: function :: data)) :
    unpackAdu (b0 :: b1 :: b2 :: b3 :: b4 :: b5 :: unit :: function :: data) =
      some (.ok ⟨word b0 b1, unit, function :: data⟩) := by
  obtain ⟨h2, hlen⟩ := hframed
  rw [aduLength_cons] at h2 hlen
  have hbad : ¬ (word b4 b5 < 2 ∨ 6 + (word b4 b5).toNat ≠
      (b0 :: b1 :: b2 :: b3 :: b4 :: b5 :: unit :: function :: data).length) := by
    simp only [UInt16.lt_iff_toNat_lt, UInt16.reduceToNat]
    omega
  have hx' : ¬ function &&& 0x80 ≠ 0 := hx
  unfold unpackAdu
  rw [if_neg (by omega)]
  simp only [List.getElem?_cons_succ, List.getElem?_cons_zero, Option.bind_eq_bind,
    Option.bind_some, if_neg hbad, if_neg hx', List.drop_succ_cons, List.drop_zero]
  rfl

/-- Such a frame is the one that is made of its parts exactly if its protocol id is zero. -/
theorem eq_packMbap_iff {b0 b1 b2 b3 b4 b5 unit function : UInt8} {data : List UInt8}
    (hframed : Framed (b0 :: b1 :: b2 :: b3 :: b4 :: b5 :: unit :: function :: data)) :
    b0 :: b1 :: b2 :: b3 :: b4 :: b5 :: unit :: function :: data =
        packMbap (word b0 b1) unit (function :: data) ↔ word b2 b3 = 0 := by
  obtain ⟨-, hlen⟩ := hframed
  rw [aduLength_cons] at hlen
  have hcount : UInt16.ofNat (1 + (function :: data).length) = word b4 b5 := by
    rw [← UInt16.ofNat_toNat (x := word b4 b5)]
    congr 1
    simp only [List.length_cons] at hlen ⊢
    omega
  rw [packMbap, hcount, u16Bytes_word, u16Bytes_word, word_eq_iff]
  simp only [List.cons_append, List.nil_append, List.cons.injEq, true_and, and_true, u16Bytes]

/-- `unpack_adu` stays inside the frame, gives back what was packed, and takes nothing but
packed frames exactly if the frame has the protocol id zero, is not framed, or is an
exception. -/
theorem mbap_framing_exact_iff (adu : List UInt8) :
    (∀ (tid : UInt16) (unit : UInt8) (pdu : List UInt8), 1 ≤ pdu.length → pdu.length ≤ 65534 →
      pdu.headD 0 &&& 0x80 = 0 →
        unpackAdu (packMbap tid unit pdu) = some (.ok ⟨tid, unit, pdu⟩)) ∧
    (unpackAdu adu).isSome = true ∧
    ((∀ out, unpackAdu adu = some (.ok out) →
        adu = packMbap out.transactionId out.unit out.pdu) ↔
      protocolId adu = 0 ∨ ¬ Framed adu ∨ ExceptionBit adu) := by
  refine ⟨fun tid unit pdu hne hle hclear => ?_, ?_⟩
  · have hordinary : ¬ IsException pdu := not_not_intro hclear
    rw [unpackAdu_packMbap tid unit hne hle, answerOf, if_neg hordinary]
    rfl
  · by_cases hframed : Framed adu
    · have hlong : 8 ≤ adu.length := by
        have := hframed.1
        have := hframed.2
        omega
      by_cases hx : ExceptionBit adu
      · obtain ⟨e, he, -⟩ := (unpackAdu_framed adu hframed.1 hframed.2).1 hx
        simp [he, hx]
      · obtain ⟨b0, b1, b2, b3, b4, b5, unit, function, data, rfl⟩ := exists_header adu hlong
        have hparts := unpackAdu_ordinary hframed hx
        have hid : protocolId (b0 :: b1 :: b2 :: b3 :: b4 :: b5 :: unit :: function :: data) =
            word b2 b3 := rfl
        refine ⟨by rw [hparts]; rfl, ?_⟩
        rw [hid, or_iff_left (by simp [hframed, hx]), ← eq_packMbap_iff hframed, hparts]
        constructor
        · intro h
          exact h ⟨word b0 b1, unit, function :: data⟩ rfl
        · intro h out hout
          obtain rfl := Except.ok.inj (Option.some.inj hout)
          exact h
    · obtain ⟨e, he, -⟩ := unpackAdu_refused adu hframed
      simp [he, hframed]

/-- The read of a register with the protocol id five. -/
theorem foreign_protocol_accepted :
    unpackAdu [0, 7, 0, 5, 0, 4, 2, 3, 0, 1] = some (.ok ⟨7, 2, [3, 0, 1]⟩) ∧
      [0, 7, 0, 5, 0, 4, 2, 3, 0, 1] ≠ packMbap 7 2 [3, 0, 1] := by
  decide

end OpcServer.Adapters
