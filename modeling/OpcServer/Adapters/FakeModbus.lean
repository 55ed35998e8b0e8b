import OpcServer.Core.DeviceContents

/-! The in-memory slave of the component tests. A table that has no entry under a key
answers zero, so a table is a function of unit and address. The faults that tests can
inject are left out. -/

namespace OpcServer.Adapters

open Domain OpcServer.Core

/-- Registers or bits by unit and address. -/
abbrev Table (α : Type) := UInt8 × UInt16 → α

/-- Entries from an address on; the address wraps. -/
def Table.store {α : Type} (unit : UInt8) : UInt16 → List α → Table α → Table α
  | _, [], table => table
  | address, value :: values, table =>
    store unit (address + 1) values (Function.update table (unit, address) value)

def Table.read {α : Type} (table : Table α) (unit : UInt8) (address quantity : UInt16) : List α :=
  (List.range quantity.toNat).map fun i => table (unit, address + UInt16.ofNat i)

section Tables
variable {α : Type} (unit : UInt8)

theorem address_succ (address : UInt16) (i : ℕ) :
    address + UInt16.ofNat (i + 1) = address + 1 + UInt16.ofNat i := by
  rw [UInt16.ofNat_add, UInt16.add_comm (UInt16.ofNat i), ← UInt16.add_assoc]
  rfl

theorem Table.store_of_ne (address : UInt16) (values : List α) (table : Table α)
    {key : UInt8 × UInt16} (h : ∀ i < values.length, key ≠ (unit, address + UInt16.ofNat i)) :
    Table.store unit address values table key = table key := by
  induction values generalizing address table with
  | nil => rfl
  | cons value values ih =>
    rw [Table.store, ih]
    · exact Function.update_of_ne (by simpa using h 0 (by simp)) _ _
    · intro i hi
      rw [← address_succ]
      exact h (i + 1) (by simpa using hi)

/-- Every entry of a store that does not wrap around to its start stays. -/
theorem Table.store_get (address : UInt16) (values : List α) (table : Table α)
    (hlen : values.length ≤ 65536) {i : ℕ} (hi : i < values.length) :
    Table.store unit address values table (unit, address + UInt16.ofNat i) = values[i] := by
  induction values generalizing address table i with
  | nil => cases hi
  | cons value values ih =>
    rw [List.length_cons] at hlen hi
    cases i with
    | zero =>
      rw [Table.store, Table.store_of_ne]
      · simp
      · intro j hj heq
        -- the next address is met again only after 65536 entries
        have haddr := congrArg UInt16.toNat (Prod.mk.inj heq).2
        rw [← address_succ] at haddr
        simp only [UInt16.toNat_add, UInt16.toNat_ofNat'] at haddr
        have ha := address.toNat_lt
        omega
    | succ i =>
      rw [Table.store, address_succ, ih (address + 1) _ (by omega) (by omega)]
      rfl

/-- A read of at least what was stored starts with it. -/
theorem Table.read_store (address quantity : UInt16) (values : List α) (table : Table α)
    (hlen : values.length ≤ quantity.toNat) :
    ∃ more, (Table.store unit address values table).read unit address quantity = values ++ more := by
  have hq := quantity.toNat_lt
  obtain ⟨rest, hrest⟩ := Nat.exists_eq_add_of_le hlen
  have hfirst : ((List.range values.length).map fun i =>
      Table.store unit address values table (unit, address + UInt16.ofNat i)) = values := by
    apply List.ext_getElem
    · simp
    · intro i h₁ h₂
      rw [List.getElem_map, List.getElem_range,
        Table.store_get unit address values table (by omega) h₂]
  rw [Table.read, hrest, List.range_add, List.map_append, hfirst]
  exact ⟨_, rfl⟩

@[simp] theorem Table.read_length (table : Table α) (address quantity : UInt16) :
    (table.read unit address quantity).length = quantity.toNat := by
  simp [Table.read]

end Tables

structure FakeModbusTransport where
  connected : Bool := false
  holding : Table UInt16 := fun _ => 0
  input : Table UInt16 := fun _ => 0
  coils : Table Bool := fun _ => false
  discrete : Table Bool := fun _ => false

namespace FakeModbusTransport

def fakeErr (code : ErrorCode) (message : String) (retryable : Bool) : Error :=
  { code := code, message := message, component := "fake.modbus", retryable := retryable }

def notConnected : Error := fakeErr .connection "not connected" true

def write (request : WriteRequest) (t : FakeModbusTransport) : Result Unit × FakeModbusTransport :=
  if !t.connected then (.error notConnected, t)
  else
    match request with
    | .writeSingleRegister unit address value =>
      (.ok (), { t with holding := Table.store unit address [value] t.holding })
    | .writeMultipleRegisters unit address values =>
      (.ok (), { t with holding := Table.store unit address values t.holding })
    | .writeSingleCoil unit address value =>
      (.ok (), { t with coils := Table.store unit address [value] t.coils })
    | .writeMultipleCoils unit address values =>
      if values.isEmpty then (.error (fakeErr .invalidArgument "empty coil write" false), t)
      else (.ok (), { t with coils := Table.store unit address (values.map (· != 0)) t.coils })

def readRegisters (request : RegisterRead) (t : FakeModbusTransport) :
    Result (List UInt16) × FakeModbusTransport :=
  if !t.connected then (.error notConnected, t)
  else
    match request with
    | .readHoldingRegisters unit address quantity => (.ok (t.holding.read unit address quantity), t)
    | .readInputRegisters unit address quantity => (.ok (t.input.read unit address quantity), t)

def readBits (request : BitRead) (t : FakeModbusTransport) :
    Result (List Bool) × FakeModbusTransport :=
  if !t.connected then (.error notConnected, t)
  else
    match request with
    | .readCoils unit address quantity => (.ok (t.coils.read unit address quantity), t)
    | .readDiscreteInputs unit address quantity => (.ok (t.discrete.read unit address quantity), t)

/-- The slave as the transport of an endpoint. -/
def port : IModbusTransport FakeModbusTransport where
  isConnected t := t.connected
  connect _ _ t := (.ok (), { t with connected := true })
  readRegisters := readRegisters
  readBits := readBits
  write := write

/-- What the slave holds in its coils and holding registers. -/
def memory (t : FakeModbusTransport) : Memory := fun c =>
  if c.address < 65536 then
    match c.space with
    | .holding => t.holding (c.unit, UInt16.ofNat c.address)
    | .coil => if t.coils (c.unit, UInt16.ofNat c.address) then 1 else 0
  else 0

/-! ### Writes -/

/-- Different cells of one space are kept under different keys. -/
theorem key_ne {space : Space} {unit u : UInt8} {address : UInt16} {a : ℕ} (ha : a < 65536)
    (hc : (⟨u, space, a⟩ : Cell) ≠ ⟨unit, space, address.toNat⟩) :
    (u, UInt16.ofNat a) ≠ (unit, address) := by
  intro heq
  obtain ⟨rfl, rfl⟩ := Prod.mk.inj heq
  exact hc (by rw [UInt16.toNat_ofNat_of_lt' ha])

theorem memory_holding (t : FakeModbusTransport) (unit : UInt8) (table : Table UInt16)
    (address value : UInt16) :
    memory { t with holding := Function.update table (unit, address) value } =
      Function.update (memory { t with holding := table }) ⟨unit, .holding, address.toNat⟩ value := by
  funext c
  by_cases hc : c = ⟨unit, .holding, address.toNat⟩
  · subst hc
    simp [memory, address.toNat_lt]
  · rw [Function.update_of_ne hc]
    obtain ⟨u, space, a⟩ := c
    by_cases ha : a < 65536
    · cases space with
      | coil => rfl
      | holding => simp only [memory, if_pos ha, Function.update_of_ne (key_ne ha hc)]
    · simp only [memory, if_neg ha]

theorem memory_coils (t : FakeModbusTransport) (unit : UInt8) (table : Table Bool)
    (address : UInt16) (value : Bool) :
    memory { t with coils := Function.update table (unit, address) value } =
      Function.update (memory { t with coils := table }) ⟨unit, .coil, address.toNat⟩
        (if value then 1 else 0) := by
  funext c
  by_cases hc : c = ⟨unit, .coil, address.toNat⟩
  · subst hc
    simp [memory, address.toNat_lt]
  · rw [Function.update_of_ne hc]
    obtain ⟨u, space, a⟩ := c
    by_cases ha : a < 65536
    · cases space with
      | holding => rfl
      | coil => simp only [memory, if_pos ha, Function.update_of_ne (key_ne ha hc)]
    · simp only [memory, if_neg ha]

/-- Below the end of the address range the addresses of a store are consecutive. -/
theorem toNat_succ (address : UInt16) (h : address.toNat + 1 < 65536) :
    (address + 1).toNat = address.toNat + 1 := by
  rw [UInt16.toNat_add]
  exact Nat.mod_eq_of_lt h

/-- A table whose entries are kept in a space of the memory is stored there entry by
entry. -/
theorem memory_store {α : Type} {space : Space} (keep : Table α → FakeModbusTransport)
    (value : α → UInt16) {unit : UInt8}
    (hkeep : ∀ table address v, memory (keep (Function.update table (unit, address) v)) =
      Function.update (memory (keep table)) ⟨unit, space, address.toNat⟩ (value v))
    (address : UInt16) (values : List α) (table : Table α)
    (h : address.toNat + values.length ≤ 65536) :
    memory (keep (Table.store unit address values table)) =
      (assignFrom unit space address.toNat (values.map value)).foldl
        (fun m cv => Function.update m cv.1 cv.2) (memory (keep table)) := by
  induction values generalizing address table with
  | nil => rfl
  | cons v values ih =>
    rw [List.map_cons, assignFrom, List.foldl_cons, ← hkeep, Table.store]
    cases values with
    | nil => rfl
    | cons next rest =>
      rw [List.length_cons, List.length_cons] at h
      have hnext := toNat_succ address (by omega)
      rw [← hnext]
      exact ih (address + 1) _ (by rw [hnext, List.length_cons]; omega)

theorem memory_store_holding (unit : UInt8) (address : UInt16) (values : List UInt16)
    (t : FakeModbusTransport) (h : address.toNat + values.length ≤ 65536) :
    memory { t with holding := Table.store unit address values t.holding } =
      (assignFrom unit .holding address.toNat values).foldl
        (fun m cv => Function.update m cv.1 cv.2) t.memory := by
  have hstore := memory_store (fun table => { t with holding := table }) id
    (memory_holding t unit) address values t.holding h
  rwa [List.map_id] at hstore

theorem memory_store_coils (unit : UInt8) (address : UInt16) (values : List Bool)
    (t : FakeModbusTransport) (h : address.toNat + values.length ≤ 65536) :
    memory { t with coils := Table.store unit address values t.coils } =
      (assignFrom unit .coil address.toNat (values.map fun v => if v then 1 else 0)).foldl
        (fun m cv => Function.update m cv.1 cv.2) t.memory :=
  memory_store (fun table => { t with coils := table }) _ (memory_coils t unit) address values
    t.coils h

theorem write_registerRequest {t : FakeModbusTransport} (ht : t.connected = true) (unit : UInt8)
    (address : UInt16) (regs : List UInt16) : write (registerRequest unit address regs) t =
      (.ok (), { t with holding := Table.store unit address regs t.holding }) := by
  unfold registerRequest
  split <;> simp [write, ht]

theorem write_coilRequest {t : FakeModbusTransport} (ht : t.connected = true) (unit : UInt8)
    (address : UInt16) {bits : List UInt8} (hne : bits ≠ []) :
    write (coilRequest unit address bits) t =
      (.ok (), { t with coils := Table.store unit address (bits.map (· != 0)) t.coils }) := by
  have hempty : bits.isEmpty = false := by simpa using hne
  unfold coilRequest
  split
  · simp only [write, ht, Bool.not_true, Bool.false_eq_true, if_false, decide_not]
    rfl
  · simp [write, ht, hempty]

/-- The slave accepts and stores every legal request. -/
theorem obeys : Obeys port memory := by
  intro request t hconnected hlegal
  have ht : t.connected = true := hconnected
  cases request with
  | writeSingleRegister unit address value =>
    refine ⟨{ t with holding := Table.store unit address [value] t.holding },
      by simp [port, write, ht], ht, ?_⟩
    exact memory_store_holding unit address [value] t (hlegal.assigned rfl).2
  | writeMultipleRegisters unit address values =>
    refine ⟨{ t with holding := Table.store unit address values t.holding },
      by simp [port, write, ht], ht, ?_⟩
    exact memory_store_holding unit address values t (hlegal.assigned rfl).2
  | writeSingleCoil unit address value =>
    refine ⟨{ t with coils := Table.store unit address [value] t.coils },
      by simp [port, write, ht], ht, ?_⟩
    exact memory_store_coils unit address [value] t (hlegal.assigned rfl).2
  | writeMultipleCoils unit address values =>
    obtain ⟨hne, hrange⟩ := hlegal.assigned rfl
    rw [List.length_map] at hrange
    have hempty : values.isEmpty = false := by simpa using hne
    refine ⟨{ t with coils := Table.store unit address (values.map (· != 0)) t.coils },
      by simp [port, write, ht, hempty], ht, ?_⟩
    have hbits : (values.map (· != 0)).map (fun v : Bool => if v then (1 : UInt16) else 0) =
        values.map bitValue := by
      rw [List.map_map]
      apply List.map_congr_left
      intro bit _
      simp [bitValue]
    rw [memory_store_coils unit address _ t (by rw [List.length_map]; exact hrange), hbits]
    rfl

end FakeModbusTransport

end OpcServer.Adapters
