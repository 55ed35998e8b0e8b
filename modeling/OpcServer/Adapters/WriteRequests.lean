import OpcServer.Adapters.Transact

/-! The requests of FC15 and FC16 against a slave that follows the Modbus specification.
The slave checks the quantity, the byte count and the addresses before it takes the
values. Only the builder of FC15 looks at the number of values; the other one narrows it
to the fields of the PDU. -/

namespace OpcServer.Adapters

open Domain

/-! ### A slave by the specification -/

/-- Bit `i` of packed bytes, from the lowest bit of the first byte on. -/
def bitAt (bytes : List UInt8) (i : ℕ) : Bool := (bytes.getD (i / 8) 0).toNat.testBit (i % 8)

def slaveWords : List UInt8 → List UInt16
  | hi :: lo :: rest => word hi lo :: slaveWords rest
  | _ => []

/-- A write of several values: the first address and the values. The slave refuses a
quantity out of range, a byte count that does not belong to it or to the data, and
addresses past the last one. -/
def slaveWrite {α : Type} (function : UInt8) (limit : ℕ) (dataBytes : ℕ → ℕ)
    (read : ℕ → List UInt8 → List α) (pdu : List UInt8) : Option (ℕ × List α) :=
  match pdu with
  | f :: a1 :: a0 :: q1 :: q0 :: count :: data =>
    let address := (word a1 a0).toNat
    let quantity := (word q1 q0).toNat
    if f = function ∧ 1 ≤ quantity ∧ quantity ≤ limit ∧ count.toNat = dataBytes quantity ∧
        data.length = count.toNat ∧ address + quantity ≤ 65536 then
      some (address, read quantity data)
    else none
  | _ => none

def slaveWriteRegisters : List UInt8 → Option (ℕ × List UInt16) :=
  slaveWrite 0x10 123 (2 * ·) fun _ data => slaveWords data

def slaveWriteCoils : List UInt8 → Option (ℕ × List Bool) :=
  slaveWrite 0x0F 1968 (fun quantity => (quantity + 7) / 8) fun quantity data =>
    (List.range quantity).map (bitAt data)

/-- A PDU of legal size whose fields count the values and the bytes that follow, and which
the slave takes for these values from this address on. -/
structure WellFormed {α : Type} (slave : List UInt8 → Option (ℕ × List α)) (address : UInt16)
    (values : List α) (pdu : List UInt8) : Prop where
  size : pdu.length ≤ 253
  quantity : (word (pdu.getD 3 0) (pdu.getD 4 0)).toNat = values.length
  byteCount : 6 + (pdu.getD 5 0).toNat = pdu.length
  decoded : slave pdu = some (address.toNat, values)

/-! ### What is sent -/

/-- The operation is a transaction with this PDU. -/
def Sends (op : ModbusTransact → UInt8 → Option (Result Unit)) (pdu : List UInt8) : Prop :=
  ∀ tx unit, op tx unit = exchange tx unit (.ok pdu) discard

/-- The operation fails before it asks for a transaction. -/
def SendsNothing (op : ModbusTransact → UInt8 → Option (Result Unit)) : Prop :=
  ∃ e, ∀ tx unit, op tx unit = some (.error e)

/-- An error and nothing sent, or a well-formed request. -/
def RequestsWell {α : Type} (slave : List UInt8 → Option (ℕ × List α)) (address : UInt16)
    (values : List α) (op : ModbusTransact → UInt8 → Option (Result Unit)) : Prop :=
  SendsNothing op ∨ ∃ pdu, Sends op pdu ∧ WellFormed slave address values pdu

theorem Sends.unique {op : ModbusTransact → UInt8 → Option (Result Unit)} {pdu pdu' : List UInt8}
    (h : Sends op pdu) (h' : Sends op pdu') : pdu = pdu' := by
  by_contra hne
  -- a peer that answers one PDU and not the other tells them apart
  let tx : ModbusTransact := fun _ sent => if sent = pdu then some (.ok []) else none
  have hsame := (h tx 0).symm.trans (h' tx 0)
  simp [exchange, tx, Ne.symm hne, discard] at hsame

theorem Sends.not_sendsNothing {op : ModbusTransact → UInt8 → Option (Result Unit)}
    {pdu : List UInt8} (h : Sends op pdu) : ¬ SendsNothing op := by
  rintro ⟨e, he⟩
  have hsame := (h (fun _ _ => some (.ok [])) 0).symm.trans (he _ 0)
  simp [exchange, discard] at hsame

theorem Sends.requestsWell_iff {α : Type} {slave : List UInt8 → Option (ℕ × List α)}
    {address : UInt16} {values : List α} {op : ModbusTransact → UInt8 → Option (Result Unit)}
    {pdu : List UInt8} (h : Sends op pdu) :
    RequestsWell slave address values op ↔ WellFormed slave address values pdu := by
  constructor
  · rintro (hnothing | ⟨pdu', h', hwell⟩)
    · exact absurd hnothing h.not_sendsNothing
    · rwa [h.unique h']
  · intro hwell
    exact .inr ⟨pdu, h, hwell⟩

/-! ### Well-formed PDUs -/

/-- A PDU with the layout of both functions is well formed by its fields and its data. -/
theorem wellFormed_iff {α : Type} {function : UInt8} {limit : ℕ} {dataBytes : ℕ → ℕ}
    {read : ℕ → List UInt8 → List α} {address quantity : UInt16} {count : UInt8}
    {data : List UInt8} {values : List α} :
    WellFormed (slaveWrite function limit dataBytes read) address values
        (function :: u16Bytes address ++ u16Bytes quantity ++ count :: data) ↔
      6 + data.length ≤ 253 ∧ quantity.toNat = values.length ∧ count.toNat = data.length ∧
        (1 ≤ quantity.toNat ∧ quantity.toNat ≤ limit ∧ count.toNat = dataBytes quantity.toNat ∧
          address.toNat + quantity.toNat ≤ 65536) ∧ read quantity.toNat data = values := by
  let pdu := function :: u16Bytes address ++ u16Bytes quantity ++ count :: data
  have hlength : pdu.length = 6 + data.length := by
    simp only [pdu, u16Bytes, List.cons_append, List.nil_append, List.length_cons]
    omega
  have hquantity : word (pdu.getD 3 0) (pdu.getD 4 0) = quantity := word_u16Bytes quantity
  have hcount : pdu.getD 5 0 = count := rfl
  have hslave : slaveWrite function limit dataBytes read pdu = some (address.toNat, values) ↔
      data.length = count.toNat ∧ (1 ≤ quantity.toNat ∧ quantity.toNat ≤ limit ∧
        count.toNat = dataBytes quantity.toNat ∧ address.toNat + quantity.toNat ≤ 65536) ∧
        read quantity.toNat data = values := by
    simp only [pdu, slaveWrite, u16Bytes, List.cons_append, List.nil_append, word_u16Bytes, true_and]
    split_ifs with hchecks
    · simp only [Option.some.injEq, Prod.mk.injEq, true_and]
      tauto
    · simp only [false_iff]
      tauto
  constructor
  · rintro ⟨hsize, hq, hbytes, hdecoded⟩
    rw [hlength] at hsize hbytes
    rw [hquantity] at hq
    rw [hcount] at hbytes
    obtain ⟨hdata, hchecks, hread⟩ := hslave.mp hdecoded
    exact ⟨hsize, hq, hdata.symm, hchecks, hread⟩
  · rintro ⟨hsize, hq, hdata, hchecks, hread⟩
    refine ⟨?_, ?_, ?_, hslave.mpr ⟨hdata.symm, hchecks, hread⟩⟩
    · rwa [hlength]
    · rwa [hquantity]
    · rw [hcount, hlength, hdata]

/-! ### Registers -/

theorem slaveWords_flatMap (values : List UInt16) : slaveWords (values.flatMap u16Bytes) = values := by
  induction values with
  | nil => rfl
  | cons v rest ih =>
    rw [List.flatMap_cons, u16Bytes, List.cons_append, List.cons_append, List.nil_append, slaveWords,
      ih, word_u16Bytes]

theorem length_flatMap_u16Bytes (values : List UInt16) :
    (values.flatMap u16Bytes).length = 2 * values.length := by
  induction values with
  | nil => rfl
  | cons v rest ih =>
    rw [List.flatMap_cons, List.length_append, ih, List.length_cons]
    simp only [u16Bytes, List.length_cons, List.length_nil]
    omega

theorem wellFormed_registers_iff (address : UInt16) (values : List UInt16) :
    WellFormed slaveWriteRegisters address values (makeWriteMultipleRegistersPdu address values) ↔
      1 ≤ values.length ∧ values.length ≤ 123 ∧ address.toNat + values.length ≤ 65536 := by
  unfold slaveWriteRegisters makeWriteMultipleRegistersPdu
  rw [wellFormed_iff, length_flatMap_u16Bytes, slaveWords_flatMap]
  constructor
  · rintro ⟨-, hquantity, -, ⟨hpos, hlimit, -, haddress⟩, -⟩
    rw [hquantity] at hpos hlimit haddress
    exact ⟨hpos, hlimit, haddress⟩
  · rintro ⟨hpos, hlimit, haddress⟩
    have hquantity : (UInt16.ofNat values.length).toNat = values.length := by
      rw [UInt16.toNat_ofNat']
      omega
    have hcount : (UInt8.ofNat (values.length * 2)).toNat = 2 * values.length := by
      rw [UInt8.toNat_ofNat']
      omega
    rw [hquantity, hcount]
    exact ⟨by omega, rfl, rfl, ⟨hpos, hlimit, rfl, haddress⟩, rfl⟩

/-! ### Coils -/

theorem testBit_setBit (b : UInt8) {m j : ℕ} (hm : m < 8) :
    (b ||| (1 <<< UInt8.ofNat m)).toNat.testBit j = (b.toNat.testBit j || decide (m = j)) := by
  have hpower : ∀ m < 8, ((1 : UInt8) <<< UInt8.ofNat m).toNat = 2 ^ m := by decide
  rw [UInt8.toNat_or, Nat.testBit_or, hpower m hm, Nat.testBit_two_pow]

theorem length_setPackedBit (packed : List UInt8) (k : ℕ) :
    (setPackedBit packed k).length = packed.length := List.length_modify ..

theorem bitAt_setPackedBit (packed : List UInt8) {k : ℕ} (hk : k < 8 * packed.length) (i : ℕ) :
    bitAt (setPackedBit packed k) i = (bitAt packed i || decide (k = i)) := by
  unfold bitAt setPackedBit
  rw [List.getD_eq_getElem?_getD, List.getD_eq_getElem?_getD, List.getElem?_modify]
  by_cases hbyte : k / 8 = i / 8
  · have hlt : i / 8 < packed.length := by omega
    have hbit : k % 8 = i % 8 ↔ k = i := by omega
    rw [List.getElem?_eq_getElem hlt]
    simp only [hbyte, ↓reduceIte, Option.map_eq_map, Option.map_some, Option.getD_some]
    rw [testBit_setBit _ (Nat.mod_lt _ (by decide)), decide_eq_decide.mpr hbit]
  · have hne : k ≠ i := fun heq => hbyte (by rw [heq])
    simp [hbyte, hne]

theorem length_packBits (vs : List UInt8) (k : ℕ) (packed : List UInt8) :
    (packBits k packed vs).length = packed.length := by
  induction vs generalizing k packed with
  | nil => rfl
  | cons v rest ih =>
    rw [packBits, ih]
    split_ifs
    · exact length_setPackedBit packed k
    · rfl

/-- The loop sets the bits of the values that are on, from position `k` on. -/
theorem bitAt_packBits (vs : List UInt8) (k : ℕ) {packed : List UInt8}
    (hfit : k + vs.length ≤ 8 * packed.length) (i : ℕ) :
    bitAt (packBits k packed vs) i =
      (bitAt packed i || (decide (k ≤ i) && decide (vs.getD (i - k) 0 ≠ 0))) := by
  induction vs generalizing k packed with
  | nil => simp [packBits]
  | cons v rest ih =>
    rw [List.length_cons] at hfit
    have hnext : bitAt (if v ≠ 0 then setPackedBit packed k else packed) i =
        (bitAt packed i || (decide (k = i) && decide (v ≠ 0))) := by
      split_ifs with hv
      · rw [bitAt_setPackedBit packed (by omega)]
        simp [hv]
      · simp [hv]
    have hlength : (if v ≠ 0 then setPackedBit packed k else packed).length = packed.length := by
      split_ifs
      · exact length_setPackedBit packed k
      · rfl
    rw [packBits, ih (k + 1) (by omega), hnext, Bool.or_assoc]
    congr 1
    rcases Nat.lt_trichotomy i k with hlt | rfl | hgt
    · have h1 : ¬ k ≤ i := by omega
      have h2 : ¬ k + 1 ≤ i := by omega
      have h3 : k ≠ i := by omega
      simp [h1, h2, h3]
    · simp
    · have h1 : k ≤ i := by omega
      have h2 : k + 1 ≤ i := by omega
      have h3 : k ≠ i := by omega
      have hindex : i - k = (i - (k + 1)) + 1 := by omega
      simp [h1, h2, h3, hindex]

theorem bitAt_replicate (n i : ℕ) : bitAt (List.replicate n 0) i = false := by
  unfold bitAt
  rw [List.getD_eq_getElem?_getD, List.getElem?_replicate]
  split_ifs <;> simp

/-- The slave finds every coil on that has a value other than zero. -/
theorem unpack_packBits {values : List UInt8} {n : ℕ} (hfit : values.length ≤ 8 * n) :
    (List.range values.length).map (bitAt (packBits 0 (List.replicate n 0) values)) =
      values.map fun v => decide (v ≠ 0) := by
  apply List.ext_getElem
  · simp
  · intro i h1 h2
    rw [List.length_map] at h2
    rw [List.getElem_map, List.getElem_range, List.getElem_map,
      bitAt_packBits values 0 (by simpa using hfit), bitAt_replicate]
    simp [h2]

/-- The fields of an FC15 request count its coils and its bytes. -/
theorem coil_fields {n : ℕ} (hmax : n ≤ 1968) :
    (UInt16.ofNat n).toNat = n ∧ (UInt8.ofNat ((n + 7) / 8)).toNat = (n + 7) / 8 := by
  rw [UInt16.toNat_ofNat', UInt8.toNat_ofNat']
  omega

theorem makeWriteMultipleCoilsPdu_eq_ok_iff {address : UInt16} {values pdu : List UInt8} :
    makeWriteMultipleCoilsPdu address values = .ok pdu ↔
      1 ≤ values.length ∧ values.length ≤ 1968 ∧
        pdu = 0x0F :: u16Bytes address ++ u16Bytes (UInt16.ofNat values.length) ++
          UInt8.ofNat ((values.length + 7) / 8) ::
            packBits 0 (List.replicate ((values.length + 7) / 8) 0) values := by
  unfold makeWriteMultipleCoilsPdu
  split_ifs with hrange
  · rw [List.isEmpty_iff_length_eq_zero] at hrange
    simp only [false_iff]
    rintro ⟨hpos, hmax, -⟩
    omega
  · rw [List.isEmpty_iff_length_eq_zero] at hrange
    obtain ⟨hquantity, hcount⟩ := coil_fields (show values.length ≤ 1968 by omega)
    simp only [hquantity, hcount, Except.ok.injEq]
    constructor
    · rintro rfl
      exact ⟨by omega, by omega, rfl⟩
    · rintro ⟨-, -, rfl⟩
      rfl

theorem wellFormed_coils_iff {address : UInt16} {values : List UInt8} {pdu : List UInt8}
    (hpdu : makeWriteMultipleCoilsPdu address values = .ok pdu) :
    WellFormed slaveWriteCoils address (values.map fun v => decide (v ≠ 0)) pdu ↔
      address.toNat + values.length ≤ 65536 := by
  obtain ⟨hpos, hmax, rfl⟩ := makeWriteMultipleCoilsPdu_eq_ok_iff.mp hpdu
  obtain ⟨hquantity, hcount⟩ := coil_fields hmax
  have hfit : values.length ≤ 8 * ((values.length + 7) / 8) := by omega
  have hread := unpack_packBits hfit
  unfold slaveWriteCoils
  rw [wellFormed_iff, length_packBits, List.length_replicate, hquantity, hcount, List.length_map]
  constructor
  · rintro ⟨-, -, -, ⟨-, -, -, haddress⟩, -⟩
    exact haddress
  · intro haddress
    exact ⟨by omega, rfl, rfl, ⟨by omega, by omega, rfl, haddress⟩, hread⟩

/-- FC16 asks well for 1 to 123 registers with legal addresses, and for no others. FC15
refuses no coils and more than 1968, and asks well for the others at legal addresses. -/
theorem write_requests_well_formed_iff (address : UInt16) (registers : List UInt16)
    (coils : List UInt8) :
    (RequestsWell slaveWriteRegisters address registers
        (fun tx unit => modbusWriteMultipleRegisters tx unit address registers) ↔
      1 ≤ registers.length ∧ registers.length ≤ 123 ∧
        address.toNat + registers.length ≤ 65536) ∧
    (RequestsWell slaveWriteCoils address (coils.map fun v => decide (v ≠ 0))
        (fun tx unit => modbusWriteMultipleCoils tx unit address coils) ↔
      coils.length = 0 ∨ 1968 < coils.length ∨ address.toNat + coils.length ≤ 65536) := by
  constructor
  · have hsends : Sends (fun tx unit => modbusWriteMultipleRegisters tx unit address registers)
        (makeWriteMultipleRegistersPdu address registers) := fun _ _ => rfl
    rw [hsends.requestsWell_iff, wellFormed_registers_iff]
  · cases hpdu : makeWriteMultipleCoilsPdu address coils with
    | error e =>
      have hnothing : SendsNothing (fun tx unit => modbusWriteMultipleCoils tx unit address coils) := by
        refine ⟨e, fun tx unit => ?_⟩
        simp only [modbusWriteMultipleCoils, hpdu]
        rfl
      unfold makeWriteMultipleCoilsPdu at hpdu
      split_ifs at hpdu with hrange
      rw [List.isEmpty_iff_length_eq_zero] at hrange
      exact ⟨fun _ => by omega, fun _ => .inl hnothing⟩
    | ok pdu =>
      have hsends : Sends (fun tx unit => modbusWriteMultipleCoils tx unit address coils) pdu := by
        intro tx unit
        simp only [modbusWriteMultipleCoils, hpdu]
      obtain ⟨hpos, hmax, -⟩ := makeWriteMultipleCoilsPdu_eq_ok_iff.mp hpdu
      rw [hsends.requestsWell_iff, wellFormed_coils_iff hpdu]
      omega

/-- 128 registers are asked for with a byte count of zero. -/
theorem long_write_malformed :
    ¬ RequestsWell slaveWriteRegisters 0 (List.replicate 128 0)
      (fun tx unit => modbusWriteMultipleRegisters tx unit 0 (List.replicate 128 0)) := by
  have hsends : Sends (fun tx unit => modbusWriteMultipleRegisters tx unit 0 (List.replicate 128 0))
      (makeWriteMultipleRegistersPdu 0 (List.replicate 128 0)) := fun _ _ => rfl
  rw [hsends.requestsWell_iff, wellFormed_registers_iff, List.length_replicate]
  decide

end OpcServer.Adapters
