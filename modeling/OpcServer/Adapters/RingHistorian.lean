import OpcServer.Domain.Types

/-! The hot layer of the historian: a ring of the newest samples in memory. The ring
carries what its index arithmetic relies on, so that no access leaves the buffer. -/

namespace OpcServer.Adapters

open Domain

variable [Platform]

structure HistorianSample where
  id : TagId := 0
  value : TagValue := {}
  deriving DecidableEq

/-- `head` is where the next sample goes, `count` how many slots hold one. -/
structure RingHistorian where
  capacity : ℕ
  buffer : List HistorianSample
  head : ℕ := 0
  count : ℕ := 0
  dropped : ℕ := 0
  length_buffer : buffer.length = capacity
  head_lt : head < capacity
  count_le : count ≤ capacity

namespace RingHistorian

/-- A capacity of zero counts as one. -/
def new (capacity : ℕ) : RingHistorian :=
  let capacity := if capacity = 0 then 1 else capacity
  have hpos : 0 < capacity := by
    show 0 < if _ = 0 then 1 else _
    split <;> omega
  { capacity := capacity
    buffer := List.replicate capacity {}
    length_buffer := List.length_replicate
    head_lt := hpos
    count_le := Nat.zero_le _ }

/-- A full ring overwrites its oldest sample and counts it. -/
def record (ring : RingHistorian) (id : TagId) (value : TagValue) : RingHistorian :=
  { ring with
    buffer := ring.buffer.set ring.head ⟨id, value⟩
    head := (ring.head + 1) % ring.capacity
    count := if ring.count = ring.capacity then ring.count else ring.count + 1
    dropped := if ring.count = ring.capacity then ring.dropped + 1 else ring.dropped
    length_buffer := by rw [List.length_set, ring.length_buffer]
    head_lt := Nat.mod_lt _ (Nat.zero_lt_of_lt ring.head_lt)
    count_le := by
      have := ring.count_le
      split <;> omega }

/-- The newest samples first, at most `max` of them. -/
def recent (ring : RingHistorian) (max : ℕ) : List HistorianSample :=
  (List.range (min max ring.count)).map fun i =>
    ring.buffer.getD ((ring.head + ring.capacity - 1 - i) % ring.capacity) {}

def size (ring : RingHistorian) : ℕ := ring.count

/-- All resident samples, the oldest first. -/
def snapshot (ring : RingHistorian) : List HistorianSample :=
  let oldest := (ring.head + ring.capacity - ring.count) % ring.capacity
  (List.range ring.count).map fun i => ring.buffer.getD ((oldest + i) % ring.capacity) {}

end RingHistorian

end OpcServer.Adapters
