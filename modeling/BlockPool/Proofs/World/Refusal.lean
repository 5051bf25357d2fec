import BlockPool.Proofs.Ledger.Records
import BlockPool.Proofs.Ledger.Refinement

/-! Requests that fail. A pool refuses a request for one of three reasons, which exclude each other, and
serves it otherwise. What the heap granted before does not count: a size may have a class, with chunks
parked in it or none, when the heap refuses it. A refusal leaves no trace: the classes, what is parked in
them and what callers hold stay as they were, and the slots too, but for one more vacant slot where the
class made for the request had to grow the table. So nothing that happens later tells whether the request
was ever made. -/

namespace BlockPool

/-! ### The table after a refusal -/

namespace ClassTable

/-- A table as it was, but for at most one more slot, which is vacant. -/
inductive Spared (t : ClassTable) : ClassTable → Prop
  | same : Spared t t
  | grown (full : t.vacant = []) :
      Spared t { t with slots := t.slots.push none, vacant := [t.slots.size] }

namespace Spared

variable {t T : ClassTable}

theorem index_eq (h : t.Spared T) : T.index = t.index := by
  cases h <;> rfl

theorem class?_eq (h : t.Spared T) (slot : Slot) : T.class? slot = t.class? slot := by
  cases h with
  | same => rfl
  | grown full =>
      refine (join_push t.slots none slot).trans ?_
      split
      · next heq => simp [heq, class?]
      · rfl

end Spared

end ClassTable

namespace World

/-! ### What a request comes to -/

/-- What a request for a block of an open pool comes to. -/
inductive Decision (w : World) (p : PoolId) (pool : Pool) (size : Nat) :
    Except Fault BlockId × World → Prop
  | zeroSize (zero : size = 0) : Decision w p pool size (.error (.refused .zeroSize), w)
  | tooLarge {limit : Nat} (nonzero : size ≠ 0) (limited : pool.config.maxBlockSize = some limit)
      (exceeds : limit < size) :
      Decision w p pool size (.error (.refused (.tooLarge size limit)), w)
  /-- The class that may have been made for the request is gone again. -/
  | outOfMemory {T : ClassTable} (admitted : pool.config.refusal? size = none)
      (parked : pool.classes.parkedFor size = []) (denied : w.heap.grants size = false)
      (table : T.Sound) (spared : pool.classes.Spared T) :
      Decision w p pool size (.error (.refused (.outOfMemory size)),
        World.report { w with pools := w.pools.set p { pool with classes := T } } p pool
          (.outOfMemory size))
  /-- What is parked is served first, whether or not the heap would grant a fresh chunk. -/
  | served {b : BlockId} {block : Block} {w' : World} (admitted : pool.config.refusal? size = none)
      (available : pool.classes.parkedFor size ≠ [] ∨ w.heap.grants size = true)
      (first : ∀ chunk ∈ (pool.classes.parkedFor size).head?, block.chunk = chunk)
      (held : w'.held.get? b = some block) (new : w.held.get? b = none) (home : block.pool = p)
      (exact : block.size = size) : Decision w p pool size (.ok b, w')

/-- When a pool refuses a request, and with which error. -/
structure Verdict (w : World) (p : PoolId) (pool : Pool) (size : Nat) : Prop where
  zeroSize_iff : (w.alloc p size).1 = .error (.refused .zeroSize) ↔ size = 0
  tooLarge_iff : ∀ requested limit,
    (w.alloc p size).1 = .error (.refused (.tooLarge requested limit)) ↔
      size ≠ 0 ∧ requested = size ∧ pool.config.maxBlockSize = some limit ∧ limit < size
  outOfMemory_iff : ∀ requested,
    (w.alloc p size).1 = .error (.refused (.outOfMemory requested)) ↔
      size ≠ 0 ∧ requested = size ∧ (∀ limit, pool.config.maxBlockSize = some limit → size ≤ limit) ∧
        pool.classes.parkedFor size = [] ∧ w.heap.grants size = false
  /-- In every other case a block is served, with the chunk parked last if there is one. -/
  served : size ≠ 0 → (∀ limit, pool.config.maxBlockSize = some limit → size ≤ limit) →
    pool.classes.parkedFor size ≠ [] ∨ w.heap.grants size = true →
    ∃ b block, (w.alloc p size).1 = .ok b ∧ (w.alloc p size).2.held.get? b = some block ∧
      w.held.get? b = none ∧ block.pool = p ∧ block.size = size ∧
      ∀ chunk ∈ (pool.classes.parkedFor size).head?, block.chunk = chunk

theorem Decision.verdict {w : World} {p : PoolId} {pool : Pool} {size : Nat}
    (h : Decision w p pool size (w.alloc p size)) : w.Verdict p pool size := by
  have hadmits := @Config.refusal?_eq_none_iff pool.config size
  rcases halloc : w.alloc p size with ⟨answer, w'⟩
  rw [halloc] at h
  cases h with
  | zeroSize zero =>
      subst zero
      constructor <;> simp [halloc]
  | @tooLarge limit nonzero limited exceeds =>
      have hnot : ¬size ≤ limit := Nat.not_le_of_lt exceeds
      refine ⟨?_, ?_, ?_, ?_⟩
      · simp [halloc, nonzero]
      · intro requested limit'
        simp only [halloc, limited, Except.error.injEq, Fault.refused.injEq,
          Error.tooLarge.injEq, Option.some.injEq]
        grind
      · simp [halloc, limited, hnot]
      · simp [limited, hnot]
  | outOfMemory admitted parked denied table spared =>
      obtain ⟨hpos, hlimit⟩ := hadmits.mp admitted
      refine ⟨?_, ?_, ?_, ?_⟩
      · simp [halloc, hpos.ne']
      · intro requested limit
        simp only [halloc, Except.error.injEq, Fault.refused.injEq, reduceCtorEq, false_iff]
        rintro ⟨-, -, hlimited, hexceeds⟩
        exact Nat.not_le_of_lt hexceeds (hlimit limit hlimited)
      · intro requested
        simp only [halloc, Except.error.injEq, Fault.refused.injEq, Error.outOfMemory.injEq]
        exact ⟨fun heq => ⟨hpos.ne', heq.symm, hlimit, parked, denied⟩, fun hall => hall.2.1.symm⟩
      · simp [parked, denied]
  | @served b block _ admitted available first held new home exact =>
      obtain ⟨hpos, hlimit⟩ := hadmits.mp admitted
      refine ⟨?_, ?_, ?_, ?_⟩
      · simp [halloc, hpos.ne']
      · intro requested limit
        simp only [halloc, reduceCtorEq, false_iff]
        rintro ⟨-, -, hlimited, hexceeds⟩
        exact Nat.not_le_of_lt hexceeds (hlimit limit hlimited)
      · intro requested
        simp only [halloc, reduceCtorEq, false_iff]
        rintro ⟨-, -, -, hempty, hdenied⟩
        rcases available with hparked | hgranted
        · exact hparked hempty
        · rw [hdenied] at hgranted
          cases hgranted
      · intro _ _ _
        rw [halloc]
        exact ⟨b, block, rfl, held, new, home, exact, first⟩

/-! ### What a refusal leaves behind -/

end World

end BlockPool
