import BlockPool.Payload

/-! Chunks, the units of memory that pools pass around, and the heap that they come from. A chunk
carries the slot of the size class that it belongs to, so it finds its way home without a search. -/

namespace BlockPool

/-- The place of a size class in the table of its pool. -/
abbrev Slot := Nat

structure Chunk where
  /-- The number that the heap gave to the chunk; it stands for an address. -/
  serial : Nat
  owner : Slot
  payload : Payload
  deriving DecidableEq, Inhabited

/-- The source of fresh chunks. Whether it grants one at this moment depends on the size alone. -/
structure Heap where
  grants : Nat → Bool
  /-- How many chunks it has given out, which is the serial of the next one. -/
  issued : Nat := 0

namespace Heap

/-- How many bytes one process can address. -/
def addressable : Nat := 140737488355328

/-- A heap that runs out only at sizes that no process can address. -/
def standard : Heap := { grants := fun size => decide (size < addressable) }

/-- A fresh chunk of zeros, if the heap grants one of this size. -/
def take? (heap : Heap) (owner : Slot) (size : Nat) : Option (Chunk × Heap) :=
  if heap.grants size then
    some ({ serial := heap.issued, owner, payload := .zeros size },
      { heap with issued := heap.issued + 1 })
  else none

theorem take?_eq_none_iff {heap : Heap} {owner : Slot} {size : Nat} :
    heap.take? owner size = none ↔ heap.grants size = false := by
  simp [take?]

end Heap

end BlockPool
