import BlockPool.Proofs.World.Reachable
import Mathlib.Logic.Relation

/-! The slot that is stamped on a chunk. Wherever a run has come to, a chunk that is held or parked
finds under its stamp the class that created it, until the teardown of its pool takes the classes
away. The places in the program that would have to deal with a chunk of a strange class, with a
counter below zero or with an entry without a class are therefore never reached. -/

namespace BlockPool

/-- One chunk comes off a free list. -/
def FreeList.Pops (l rest : FreeList) : Prop := ∃ chunk, l.pop? = some (chunk, rest)

theorem FreeList.Counted.of_pops {l rest : FreeList} (h : l.Counted)
    (hpops : Relation.ReflTransGen FreeList.Pops l rest) : rest.Counted := by
  induction hpops with
  | refl => exact h
  | tail _ hpop ih =>
      obtain ⟨chunk, hpop⟩ := hpop
      exact (ih.pop hpop).1

namespace World

/-- How many blocks with this stamp callers hold from this pool. -/
def stampedOut (w : World) (p : PoolId) (slot : Slot) : Nat :=
  w.held.toList.countP fun b => decide (b.pool = p ∧ b.chunk.owner = slot)

/-- No stamp points at a stranger, the pool `falling` apart, which is being torn down. -/
structure Stamped (w : World) (falling : Option PoolId) : Prop where
  /-- The class under the stamp of a held block counts the blocks that bear it. -/
  held_home : ∀ b ∈ w.held.toList, ∀ pool, w.pools.get? b.pool = some pool →
    falling ≠ some b.pool → ∃ c, pool.classes.class? b.chunk.owner = some c ∧
      c.slot = b.chunk.owner ∧ c.capacity = b.size ∧
      c.inUse = w.stampedOut b.pool b.chunk.owner ∧ 1 ≤ c.inUse
  parked_home : ∀ p pool, w.pools.get? p = some pool → ∀ slot c,
    pool.classes.class? slot = some c → c.slot = slot ∧
      ∀ chunk ∈ c.cached.chain, chunk.owner = slot ∧ chunk.payload.size = c.capacity
  /-- A slot that a new class is given is stamped on no chunk of the pool. -/
  slot_fresh : ∀ p pool, w.pools.get? p = some pool → falling ≠ some p → ∀ size slot T,
    pool.classes.ensure size = (slot, true, T) →
      (∀ b ∈ w.held.toList, b.pool = p → b.chunk.owner ≠ slot) ∧
      ∀ other c, pool.classes.class? other = some c → ∀ chunk ∈ c.cached.chain, chunk.owner ≠ slot
  /-- A class that takes a block back is the one stamped on it, and counts it as in use. -/
  checkin_exact : ∀ b ∈ w.held.toList, ∀ pool, w.pools.get? b.pool = some pool → ∀ c,
    pool.classes.class? b.chunk.owner = some c →
      b.chunk.owner = c.slot ∧ 0 < c.inUse ∧ (c.checkin b.chunk).inUse + 1 = c.inUse
  /-- The length of a free list is positive whenever a chunk comes off it. -/
  pop_exact : ∀ p pool, w.pools.get? p = some pool → ∀ slot c,
    pool.classes.class? slot = some c → ∀ l rest,
      Relation.ReflTransGen FreeList.Pops c.cached l → l.Pops rest → l.len = rest.len + 1
  /-- A drain finds the class of every entry when its turn comes. -/
  drain_finds : ∀ p pool, w.pools.get? p = some pool → ∀ eraseVacant e T,
    pool.classes.DrainTurn eraseVacant e T →
      e.2 < T.slots.size ∧ ∃ c, T.class? e.2 = some c ∧ c.capacity = e.1
  /-- A block finds its class missing only after a teardown took all classes of its pool. -/
  homeless : ∀ b ∈ w.held.toList, ∀ pool, w.pools.get? b.pool = some pool →
    pool.classes.checkin? b.chunk = none → falling = some b.pool ∧ pool.classes = {}

namespace Sound

variable {w : World} {falling : Option PoolId} (h : w.Sound falling)

include h

/-- The blocks that bear the stamp of a class are those of its size. -/
theorem stampedOut_eq {p : PoolId} {pool : Pool} (hp : w.pools.get? p = some pool)
    (hf : falling ≠ some p) {slot : Slot} {c : SizeClass}
    (hc : pool.classes.class? slot = some c) : w.stampedOut p slot = w.outOf p c.capacity := by
  refine List.countP_congr fun b hb => ?_
  rw [decide_eq_true_iff, decide_eq_true_iff]
  refine and_congr_right fun hpool => ?_
  subst hpool
  obtain ⟨c', hclass, hcap, hfor⟩ := h.class?_of_held hb hp hf
  constructor
  · intro howner
    rw [howner, hc] at hclass
    cases hclass
    exact hcap.symm
  · intro hsize
    obtain ⟨hserves, hslot⟩ := (h.table _ pool hp).class?_eq_some_iff.mp hc
    rw [hsize, hserves] at hfor
    cases hfor
    exact ((h.table _ pool hp).slot_eq _ c hclass).symm.trans hslot

theorem inUse_eq_stampedOut {p : PoolId} {pool : Pool} (hp : w.pools.get? p = some pool)
    (hf : falling ≠ some p) {slot : Slot} {c : SizeClass}
    (hc : pool.classes.class? slot = some c) : c.inUse = w.stampedOut p slot := by
  rw [h.stampedOut_eq hp hf hc]
  exact h.in_use_of_classFor? hp hf ((h.table p pool hp).class?_eq_some_iff.mp hc).1

/-- A class that is found under the stamp of a block counts this block. -/
theorem pos_of_class? {b : Block} (hb : b ∈ w.held.toList) {pool : Pool}
    (hp : w.pools.get? b.pool = some pool) {c : SizeClass}
    (hc : pool.classes.class? b.chunk.owner = some c) : falling ≠ some b.pool ∧ 0 < c.inUse := by
  have hf : falling ≠ some b.pool := by
    intro hf
    rw [h.fallen _ pool hf hp, ClassTable.class?_empty] at hc
    cases hc
  refine ⟨hf, ?_⟩
  rw [h.inUse_eq_stampedOut hp hf hc, stampedOut, List.countP_pos_iff]
  exact ⟨b, hb, by simp⟩

theorem slot_fresh {p : PoolId} {pool : Pool} (hp : w.pools.get? p = some pool)
    (hf : falling ≠ some p) {size : Nat} {slot : Slot} {T : ClassTable}
    (hensure : pool.classes.ensure size = (slot, true, T)) :
    (∀ b ∈ w.held.toList, b.pool = p → b.chunk.owner ≠ slot) ∧
      ∀ other c, pool.classes.class? other = some c →
        ∀ chunk ∈ c.cached.chain, chunk.owner ≠ slot := by
  have ht := h.table p pool hp
  have hnew : pool.classes.find? size = none := by
    unfold ClassTable.ensure at hensure
    split at hensure
    · cases hensure
    · assumption
  obtain ⟨slot', T', hensure', -, hfree, -, -⟩ := ht.ensure_of_none hnew
  rw [hensure] at hensure'
  cases hensure'
  constructor
  · rintro b hb rfl rfl
    obtain ⟨c, hclass, -, -⟩ := h.class?_of_held hb hp hf
    rw [hfree] at hclass
    cases hclass
  · rintro other c hc chunk hchunk rfl
    have howner := (ht.sound other c hc).owner_eq chunk hchunk
    rw [howner, ht.slot_eq other c hc, hc] at hfree
    cases hfree

theorem drain_finds {p : PoolId} {pool : Pool} (hp : w.pools.get? p = some pool)
    {eraseVacant : Bool} {e : Nat × Slot} {T : ClassTable}
    (hturn : pool.classes.DrainTurn eraseVacant e T) :
    e.2 < T.slots.size ∧ ∃ c, T.class? e.2 = some c ∧ c.capacity = e.1 := by
  have ht := h.table p pool hp
  obtain ⟨c, hc, hcT⟩ := ht.class?_of_turn hturn
  obtain ⟨front, back, hindex, -⟩ := hturn
  have hmem : e ∈ pool.classes.index := hindex ▸ List.mem_append_right front List.mem_cons_self
  obtain ⟨c', hc', hcap⟩ := (ht.mem_index_iff e.1 e.2).mp hmem
  rw [hc] at hc'
  cases hc'
  exact ⟨ClassTable.lt_size_of_class? hcT, c, hcT, hcap⟩

theorem stamped : w.Stamped falling where
  held_home b hb pool hp hf := by
    obtain ⟨c, hc, hcap, -⟩ := h.class?_of_held hb hp hf
    have hpos := (h.pos_of_class? hb hp hc).2
    exact ⟨c, hc, (h.table _ pool hp).slot_eq _ c hc, hcap, h.inUse_eq_stampedOut hp hf hc, hpos⟩
  parked_home p pool hp slot c hc := by
    have hslot := (h.table p pool hp).slot_eq slot c hc
    have hsound := (h.table p pool hp).sound slot c hc
    refine ⟨hslot, fun chunk hchunk => ⟨?_, hsound.size_eq chunk hchunk⟩⟩
    rw [← hslot]
    exact hsound.owner_eq chunk hchunk
  slot_fresh p pool hp hf size slot T hensure := h.slot_fresh hp hf hensure
  checkin_exact b hb pool hp c hc := by
    have hpos := (h.pos_of_class? hb hp hc).2
    refine ⟨((h.table _ pool hp).slot_eq _ c hc).symm, hpos, ?_⟩
    exact Nat.sub_add_cancel hpos
  pop_exact p pool hp slot c hc l rest hl hpop := by
    have hcounted := ((h.table p pool hp).sound slot c hc).counted.of_pops hl
    obtain ⟨chunk, hpop⟩ := hpop
    exact (hcounted.pop hpop).2
  drain_finds p pool hp eraseVacant e T hturn := h.drain_finds hp hturn
  homeless b hb pool hp hcheckin := by
    have hnone : pool.classes.class? b.chunk.owner = none := by
      rw [ClassTable.checkin?, Option.map_eq_none_iff] at hcheckin
      exact hcheckin
    have hf : falling = some b.pool := by
      by_contra hf
      obtain ⟨c, hc, -, -⟩ := h.class?_of_held hb hp hf
      rw [hnone] at hc
      cases hc
    exact ⟨hf, h.fallen _ pool hf hp⟩

end Sound

/-- Wherever a run has come to, in the middle of a teardown too, no stamp points at a stranger. -/
theorem Passed.no_stranger {grants : Nat → Bool} {w : World} {falling : Option PoolId}
    (h : Passed grants w falling) : w.Stamped falling :=
  h.sound.stamped

/-- Two blocks of one pool, of which one was parked and handed out again, then the teardown. -/
theorem no_stranger_in_short_run :
    let w := ((start fun _ => true).run [.openStandard, .alloc ⟨0⟩ 8, .alloc ⟨0⟩ 16, .release ⟨0⟩,
      .alloc ⟨0⟩ 8]).2
    w.held.toList.map (·.chunk.owner) = [1, 0] ∧ w.Stamped none ∧
      ∀ pool, w.pools.get? ⟨0⟩ = some pool → (w.emptied ⟨0⟩ pool).Stamped (some ⟨0⟩) := by
  have hrun : Passed (fun _ => true) _ none := Passed.start.run
    [.openStandard, .alloc ⟨0⟩ 8, .alloc ⟨0⟩ 16, .release ⟨0⟩, .alloc ⟨0⟩ 8]
  exact ⟨by decide, Passed.no_stranger hrun, fun pool hp => Passed.no_stranger (hrun.fall hp)⟩

end World

end BlockPool
