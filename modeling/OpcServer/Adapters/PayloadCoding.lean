import OpcServer.Adapters.DecodeBounds
import OpcServer.Adapters.WriteRequests
import Mathlib.Data.List.GetD
import Mathlib.Data.Nat.Init

/-! Payloads on the wire and back. The builder of FC15 sets bits in one loop and the bit
decoder reads them in another; both keep to one packing, which is stated here without
either of them. -/

namespace OpcServer.Adapters

open Domain

/-! ### Packed bits -/

/-- Bits packed from the lowest one of the first byte on, with zeros after the last. -/
def lsbFirst (bits : List Bool) : List UInt8 :=
  (List.range ((bits.length + 7) / 8)).map fun j =>
    UInt8.ofNat (Nat.ofBits fun k : Fin 8 => bits.getD (8 * j + k) false)

theorem length_lsbFirst (bits : List Bool) : (lsbFirst bits).length = (bits.length + 7) / 8 := by
  rw [lsbFirst, List.length_map, List.length_range]

theorem bitAt_lsbFirst (bits : List Bool) (i : ℕ) : bitAt (lsbFirst bits) i = bits.getD i false := by
  have hbit : i % 8 < 8 := Nat.mod_lt _ (by decide)
  unfold bitAt
  by_cases hi : i / 8 < (bits.length + 7) / 8
  · have hlt : i / 8 < (lsbFirst bits).length := by rwa [length_lsbFirst]
    have hbyte : Nat.ofBits (fun k : Fin 8 => bits.getD (8 * (i / 8) + k) false) < 2 ^ 8 :=
      Nat.ofBits_lt_two_pow _
    rw [List.getD_eq_getElem _ _ hlt]
    simp only [lsbFirst, List.getElem_map, List.getElem_range]
    rw [UInt8.toNat_ofNat', Nat.mod_eq_of_lt hbyte, Nat.testBit_ofBits_lt _ _ hbit]
    simp only [Nat.div_add_mod]
  · rw [List.getD_eq_default _ _ (by rw [length_lsbFirst]; omega),
      List.getD_eq_default _ _ (by omega)]
    exact Nat.zero_testBit _

/-- Bytes with the same bits are the same. -/
theorem eq_of_bitAt {xs ys : List UInt8} (hlength : xs.length = ys.length)
    (h : ∀ i, bitAt xs i = bitAt ys i) : xs = ys := by
  apply List.ext_getElem hlength
  intro j hx hy
  apply UInt8.toNat.inj
  apply Nat.eq_of_testBit_eq
  intro k
  by_cases hk : k < 8
  · have hj : (8 * j + k) / 8 = j := by omega
    have hbit : (8 * j + k) % 8 = k := by omega
    have hsame := h (8 * j + k)
    unfold bitAt at hsame
    rwa [hj, hbit, List.getD_eq_getElem _ _ hx, List.getD_eq_getElem _ _ hy] at hsame
  · -- no byte has a bit from place eight on
    have hhigh : ∀ b : UInt8, b.toNat.testBit k = false := by
      intro b
      apply Nat.testBit_lt_two_pow
      calc b.toNat < 2 ^ 8 := b.toNat_lt
        _ ≤ 2 ^ k := Nat.pow_le_pow_right (by decide) (by omega)
    rw [hhigh, hhigh]

/-- The loop of FC15 packs the coils that have a value other than zero. -/
theorem packBits_eq_lsbFirst (values : List UInt8) :
    packBits 0 (List.replicate ((values.length + 7) / 8) 0) values =
      lsbFirst (values.map fun v => decide (v ≠ 0)) := by
  apply eq_of_bitAt
  · rw [length_packBits, List.length_replicate, length_lsbFirst, List.length_map]
  · intro i
    have hfit : 0 + values.length ≤ 8 * (List.replicate ((values.length + 7) / 8) (0 : UInt8)).length := by
      rw [List.length_replicate]
      omega
    rw [bitAt_packBits values 0 hfit, bitAt_replicate, bitAt_lsbFirst]
    by_cases hi : i < values.length
    · simp [hi]
    · simp [Nat.le_of_not_lt hi]

/-! ### Decoding -/

/-- The bit loop reads the bits of the data from its index on. -/
theorem bitLoop_eq (function count : UInt8) (data : List UInt8) (i n : ℕ)
    (h : i + n ≤ 8 * data.length) :
    bitLoop (function :: count :: data) i n = some ((List.range' i n).map (bitAt data)) := by
  induction n generalizing i with
  | zero => rfl
  | succ n ih =>
    have hbyte : i / 8 < data.length := by omega
    have hget : (function :: count :: data)[2 + i / 8]? = some data[i / 8] := by
      rw [Nat.add_comm]
      exact List.getElem?_eq_getElem hbyte
    have hbit : (data[i / 8].toNat / 2 ^ (i % 8) % 2 == 1) = bitAt data i := by
      rw [bitAt, List.getD_eq_getElem _ _ hbyte, Nat.testBit_eq_decide_div_mod_eq]
      rfl
    rw [bitLoop, hget, ih (i + 1) (by omega), List.range'_succ, List.map_cons, ← hbit]
    rfl

/-- Registers behind any bytes that end where the loop starts are read back. -/
theorem registerLoop_eq (before : List UInt8) (values : List UInt16) (i : ℕ)
    (h : before.length = 2 + i * 2) :
    registerLoop (before ++ values.flatMap u16Bytes) i values.length = some values := by
  induction values generalizing before i with
  | nil => rfl
  | cons v rest ih =>
    have hnext : before ++ (v :: rest).flatMap u16Bytes =
        (before ++ u16Bytes v) ++ rest.flatMap u16Bytes := by
      rw [List.flatMap_cons, List.append_assoc]
    have hhi : (before ++ (v :: rest).flatMap u16Bytes)[2 + i * 2]? = some (v >>> 8).toUInt8 := by
      rw [← h, List.getElem?_append_right le_rfl, Nat.sub_self]
      rfl
    have hlo : (before ++ (v :: rest).flatMap u16Bytes)[3 + i * 2]? = some v.toUInt8 := by
      have hindex : 3 + i * 2 = before.length + 1 := by omega
      rw [hindex, List.getElem?_append_right (Nat.le_add_right _ _), Nat.add_sub_cancel_left]
      rfl
    have hrest := ih (before ++ u16Bytes v) (i + 1) (by
      rw [List.length_append, h, u16Bytes, List.length_cons, List.length_singleton]
      omega)
    rw [← hnext] at hrest
    rw [List.length_cons, registerLoop, hhi, hlo, hrest]
    simp

section Decoders
variable (err : String → Error) (short : String) (function count : UInt8) (data : List UInt8)
  (quantity : UInt16)

/-- A bit response with all the bytes that it counts is not refused. -/
theorem decodeBitsWith_counted (h : count.toNat ≤ data.length) :
    decodeBitsWith err short (function :: count :: data) quantity =
      (bitLoop (function :: count :: data) 0 quantity.toNat).map .ok := by
  have hall : 2 + count.toNat ≤ (function :: count :: data).length := by
    rw [List.length_cons, List.length_cons]
    omega
  rw [decodeBitsWith_eq]
  exact if_pos hall

/-- Nor is a register response that also counts two bytes for each register. -/
theorem decodeRegistersWith_counted (h : count.toNat ≤ data.length)
    (hcount : count.toNat = 2 * quantity.toNat) :
    decodeRegistersWith err short (function :: count :: data) quantity =
      (registerLoop (function :: count :: data) 0 quantity.toNat).map .ok := by
  have hall : 2 + count.toNat ≤ (function :: count :: data).length ∧
      count.toNat = quantity.toNat * 2 := by
    rw [List.length_cons, List.length_cons]
    omega
  rw [decodeRegistersWith_eq]
  exact if_pos hall

end Decoders

theorem decodeBitsResponse_lsbFirst (bits : List Bool) (function count : UInt8)
    (hcount : count.toNat = (bits.length + 7) / 8) {quantity : UInt16}
    (hquantity : quantity.toNat = bits.length) :
    decodeBitsResponse (function :: count :: lsbFirst bits) quantity = some (.ok bits) := by
  have hlength := length_lsbFirst bits
  have hread : (List.range' 0 bits.length).map (bitAt (lsbFirst bits)) = bits := by
    apply List.ext_getElem
    · simp
    · intro i h1 h2
      rw [List.getElem_map, List.getElem_range', bitAt_lsbFirst, Nat.zero_add, Nat.one_mul,
        List.getD_eq_getElem _ _ h2]
  rw [decodeBitsResponse, decodeBitsWith_counted _ _ _ _ _ _ (by omega), hquantity,
    bitLoop_eq _ _ _ _ _ (by omega), hread]
  rfl

theorem decodeRegisterResponse_u16Bytes (registers : List UInt16) (function count : UInt8)
    (hcount : count.toNat = 2 * registers.length) {quantity : UInt16}
    (hquantity : quantity.toNat = registers.length) :
    decodeRegisterResponse (function :: count :: registers.flatMap u16Bytes) quantity =
      some (.ok registers) := by
  have hlength := length_flatMap_u16Bytes registers
  have hread := registerLoop_eq [function, count] registers 0 rfl
  rw [decodeRegisterResponse, decodeRegistersWith_counted _ _ _ _ _ _ (by omega) (by omega), hquantity]
  exact congrArg (Option.map Except.ok) hread

/-- The data of an FC15 request is the packing of its coils, which the bit decoder inverts;
the register decoder inverts the bytes of registers; the copies in the replay transport
decode alike whatever passes the test of its byte count. -/
theorem payloads_coded_consistently (address : UInt16) (coils : List UInt8)
    (registers : List UInt16) (function count : UInt8) (data : List UInt8) (quantity : UInt16) :
    let bits := coils.map fun v => decide (v ≠ 0)
    (1 ≤ coils.length → coils.length ≤ 1968 → ∃ packed byteCount,
      makeWriteMultipleCoilsPdu address coils = .ok (0x0F :: u16Bytes address ++
        u16Bytes (UInt16.ofNat coils.length) ++ byteCount :: packed) ∧
      byteCount.toNat = packed.length ∧ packed = lsbFirst bits ∧
      (∀ i, coils.length ≤ i → bitAt packed i = false) ∧
      decodeBitsResponse (function :: byteCount :: packed) (UInt16.ofNat coils.length) =
        some (.ok bits)) ∧
    (1 ≤ registers.length → registers.length ≤ 125 →
      decodeRegisterResponse
        (function :: UInt8.ofNat (2 * registers.length) :: registers.flatMap u16Bytes)
        (UInt16.ofNat registers.length) = some (.ok registers)) ∧
    (count.toNat ≤ data.length →
      decodeBits (function :: count :: data) quantity =
        decodeBitsResponse (function :: count :: data) quantity ∧
      (count.toNat = 2 * quantity.toNat →
        decodeRegisters (function :: count :: data) quantity =
          decodeRegisterResponse (function :: count :: data) quantity)) := by
  intro bits
  refine ⟨fun hpos hmax => ?_, fun _ hmax => ?_, fun hdata => ⟨?_, fun hcount => ?_⟩⟩
  · obtain ⟨hquantity, hcount⟩ := coil_fields hmax
    have hlength : bits.length = coils.length := List.length_map _
    refine ⟨lsbFirst bits, UInt8.ofNat ((coils.length + 7) / 8), ?_, ?_, rfl, fun i hi => ?_, ?_⟩
    · rw [makeWriteMultipleCoilsPdu_eq_ok_iff, packBits_eq_lsbFirst]
      exact ⟨hpos, hmax, rfl⟩
    · rw [hcount, length_lsbFirst, hlength]
    · rw [bitAt_lsbFirst, List.getD_eq_default _ _ (by omega)]
    · exact decodeBitsResponse_lsbFirst bits function _ (by rw [hcount, hlength])
        (by rw [hquantity, hlength])
  · apply decodeRegisterResponse_u16Bytes
    · rw [UInt8.toNat_ofNat']
      omega
    · rw [UInt16.toNat_ofNat']
      omega
  · rw [decodeBits, decodeBitsResponse, decodeBitsWith_counted _ _ _ _ _ _ hdata,
      decodeBitsWith_counted _ _ _ _ _ _ hdata]
  · rw [decodeRegisters, decodeRegisterResponse,
      decodeRegistersWith_counted _ _ _ _ _ _ hdata hcount,
      decodeRegistersWith_counted _ _ _ _ _ _ hdata hcount]

/-- Ten coils take two bytes, of which the second has two bits. -/
theorem ten_coils_coded :
    lsbFirst ([1, 0, 1, 0, 1, 0, 1, 0, 1, 1].map fun v : UInt8 => decide (v ≠ 0)) = [0x55, 0x03] ∧
    (∃ packed byteCount, makeWriteMultipleCoilsPdu 0 [1, 0, 1, 0, 1, 0, 1, 0, 1, 1] =
        .ok (0x0F :: u16Bytes 0 ++ u16Bytes 10 ++ byteCount :: packed) ∧
      decodeBitsResponse (0x01 :: byteCount :: packed) 10 =
        some (.ok [true, false, true, false, true, false, true, false, true, true])) ∧
    decodeRegisterResponse [0x03, 0x02, 0x12, 0x34] 1 = some (.ok [0x1234]) ∧
    decodeBits [0x03, 0x02, 0x12, 0x34] 1 = decodeBitsResponse [0x03, 0x02, 0x12, 0x34] 1 ∧
    decodeRegisters [0x03, 0x02, 0x12, 0x34] 1 =
      decodeRegisterResponse [0x03, 0x02, 0x12, 0x34] 1 := by
  have hcoils := (payloads_coded_consistently 0 [1, 0, 1, 0, 1, 0, 1, 0, 1, 1] [] 0x01 0 [] 0).1
  obtain ⟨-, hregisters, hcopies⟩ :=
    payloads_coded_consistently 0 [] [0x1234] 0x03 0x02 [0x12, 0x34] 1
  obtain ⟨packed, byteCount, hpdu, -, -, -, hdecoded⟩ := hcoils (by decide) (by decide)
  obtain ⟨hbits, hwords⟩ := hcopies (by decide)
  exact ⟨by decide, ⟨packed, byteCount, hpdu, hdecoded⟩, hregisters (by decide) (by decide), hbits,
    hwords rfl⟩

end OpcServer.Adapters
