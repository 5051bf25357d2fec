import BlockPool.FreeList
import BlockPool.Receipt

/-! Size classes. All chunks of one exact size belong to one class, and each of them is either in
use or parked on the free list of the class. -/

namespace BlockPool

/-- Where a chunk that is handed out comes from. -/
inductive Origin
  | cached
  | fresh
  deriving DecidableEq, Repr, Inhabited

structure SizeClass where
  /-- The slot that the class lives in, stamped on every chunk it creates. -/
  slot : Slot
  /-- The size of every chunk, exact and not rounded. -/
  capacity : Nat
  inUse : Nat := 0
  cached : FreeList := {}
  deriving DecidableEq, Inhabited

namespace SizeClass

/-- A chunk that was handed out, with the class and the heap as they are afterwards. -/
structure Checkout where
  chunk : Chunk
  origin : Origin
  sizeClass : SizeClass
  heap : Heap

/-- Hands out a chunk: the parked one in front, and a fresh one only if none is parked. -/
def checkout? (c : SizeClass) (heap : Heap) : Option Checkout :=
  match c.cached.pop? with
  | some (chunk, cached) =>
    some { chunk, origin := .cached, sizeClass := { c with inUse := c.inUse + 1, cached }, heap }
  | none =>
    match heap.take? c.slot c.capacity with
    | some (chunk, heap) =>
      some { chunk, origin := .fresh, sizeClass := { c with inUse := c.inUse + 1 }, heap }
    | none => none

/-- Parks a chunk that was in use, its bytes untouched. -/
def checkin (c : SizeClass) (chunk : Chunk) : SizeClass :=
  { c with inUse := c.inUse - 1, cached := c.cached.push chunk }

/-- Gives every parked chunk back to the heap, and answers how many there were. -/
def drain (c : SizeClass) : Nat × SizeClass :=
  let (freed, cached) := c.cached.releaseAll
  (freed, { c with cached })

/-- Whether the class has no chunk at all. -/
def isVacant (c : SizeClass) : Bool := decide (c.inUse = 0) && c.cached.isEmpty

def toLine (c : SizeClass) : Receipt.Line :=
  { capacity := c.capacity, cached := c.cached.len, inUse := c.inUse }

theorem checkout?_eq_none_iff {c : SizeClass} {heap : Heap} :
    c.checkout? heap = none ↔ c.cached.chain = [] ∧ heap.grants c.capacity = false := by
  rw [← FreeList.pop?_eq_none_iff, ← @Heap.take?_eq_none_iff heap c.slot]
  unfold checkout?
  cases c.cached.pop? <;> cases heap.take? c.slot c.capacity <;> simp

@[simp] theorem slot_checkin (c : SizeClass) (chunk : Chunk) : (c.checkin chunk).slot = c.slot :=
  rfl

@[simp] theorem capacity_checkin (c : SizeClass) (chunk : Chunk) :
    (c.checkin chunk).capacity = c.capacity := rfl

end SizeClass

end BlockPool
