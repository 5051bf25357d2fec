import BlockPool.Proofs.World.Conservation
import Mathlib.Logic.Relation

/-! The moments of a run, teardowns taken apart. A moment remembers what went back to the heap so
far and how many blocks were handed out; the books of the world are in order at every moment, and
what went back to the heap stays there. -/

namespace BlockPool

structure Moment where
  world : World
  /-- The pool that is being torn down. -/
  falling : Option PoolId
  /-- The serials that went back to the heap, the oldest first. -/
  freed : List Nat
  /-- How many blocks were handed out. -/
  served : Nat

namespace Moment

def start (grants : Nat → Bool) : Moment := ⟨.start grants, none, [], 0⟩

/-- What can happen next. A teardown is one step, and it is also taken apart: the pool falls, blocks
are released, and the pool is closed, whatever is reported then. The heap may change its mind at any
moment. -/
inductive Next : Moment → Moment → Prop
  | step {w : World} {freed : List Nat} {served : Nat} (a : Action) :
      Next ⟨w, none, freed, served⟩
        ⟨(w.step a).2, none, freed ++ w.freedBy a, served + (w.step a).1.blocks⟩
  | fall {w : World} {freed : List Nat} {served : Nat} {p : PoolId} {pool : Pool}
      (opened : w.pools.get? p = some pool) :
      Next ⟨w, none, freed, served⟩ ⟨w.emptied p pool, some p, freed ++ w.parkedIn p, served⟩
  | release {w : World} {freed : List Nat} {served : Nat} {p : PoolId} (b : BlockId) :
      Next ⟨w, some p, freed, served⟩
        ⟨w.release b, some p, freed ++ w.shed (some p) b, served⟩
  | close {w : World} {freed : List Nat} {served : Nat} {p : PoolId} (pool : Pool)
      (receipt : Receipt) :
      Next ⟨w, some p, freed, served⟩ ⟨w.closed p pool receipt, none, freed, served⟩
  | regrant {w : World} {falling : Option PoolId} {freed : List Nat} {served : Nat}
      (grants : Nat → Bool) :
      Next ⟨w, falling, freed, served⟩ ⟨w.regrant grants, falling, freed, served⟩

/-- The second moment comes at or after the first. -/
abbrev Later : Moment → Moment → Prop := Relation.ReflTransGen Next

/-- Every run of the world passes through moments, and `served` counts the blocks in its answers. -/
theorem later_run (w : World) (freed : List Nat) (served : Nat) (actions : List Action) :
    ∃ gone, Later ⟨w, none, freed, served⟩ ⟨(w.run actions).2, none, freed ++ gone,
      served + ((w.run actions).1.map Answer.blocks).sum⟩ := by
  induction actions generalizing w freed served with
  | nil => exact ⟨[], by rw [List.append_nil]; exact .refl⟩
  | cons a rest ih =>
      obtain ⟨gone, hrest⟩ := ih (w.step a).2 (freed ++ w.freedBy a)
        (served + (w.step a).1.blocks)
      refine ⟨w.freedBy a ++ gone, .head (.step a) ?_⟩
      rw [List.append_assoc, Nat.add_assoc] at hrest
      exact hrest

/-- The books of a moment are in order. -/
structure Kept (m : Moment) : Prop where
  sound : m.world.Sound m.falling
  books : m.world.Books m.freed m.served

theorem Kept.start (grants : Nat → Bool) : (Moment.start grants).Kept where
  sound := .start grants
  books := by
    constructor <;> simp [Moment.start, World.start, World.heldSerials, World.parkedSerials,
      World.made, Registry.toList]

theorem Kept.next {m m' : Moment} (h : m.Kept) (hnext : Next m m') : m'.Kept := by
  cases hnext with
  | step a => exact ⟨h.sound.step a, h.books.step h.sound a⟩
  | fall opened => exact ⟨h.sound.emptied opened, h.books.emptied opened⟩
  | release b => exact ⟨h.sound.release b, h.books.release h.sound b⟩
  | close pool receipt => exact ⟨h.sound.closed pool receipt, h.books.closed h.sound pool receipt⟩
  | regrant grants => exact ⟨h.sound.regrant grants, h.books.regrant grants⟩

theorem Kept.later {m m' : Moment} (h : m.Kept) (hlater : Later m m') : m'.Kept := by
  induction hlater with
  | refl => exact h
  | tail _ hnext ih => exact ih.next hnext

/-- What went back to the heap stays there. -/
theorem Next.freed_subset {m m' : Moment} (h : Next m m') : m.freed ⊆ m'.freed := by
  cases h with
  | step | fall | release => exact List.subset_append_left _ _
  | close | regrant => exact List.Subset.refl _

theorem Later.freed_subset {m m' : Moment} (h : Later m m') : m.freed ⊆ m'.freed := by
  induction h with
  | refl => exact List.Subset.refl _
  | tail _ hnext ih => exact List.Subset.trans ih hnext.freed_subset

end Moment

end BlockPool
