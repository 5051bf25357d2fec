import BlockPool.Proofs.ClassTable.Counts
import BlockPool.Proofs.Registry
import BlockPool.World.Action

/-! When a world is sound, and that every action keeps it so. In a sound world each open pool has a
sound table, counts for every size the blocks of that size that callers hold from it, and has for
every such block the class that the block names. In the middle of a teardown this fails for one
pool, the one that falls: its classes are gone while its handle and its blocks are still there. -/

namespace BlockPool

/-- The number of bytes that a block offers. -/
def Block.size (b : Block) : Nat := b.chunk.payload.size

namespace World

/-- How many blocks of this size callers hold from this pool. -/
def outOf (w : World) (p : PoolId) (size : Nat) : Nat :=
  w.held.toList.countP fun b => decide (b.pool = p ∧ b.size = size)

/-- Every book of the world agrees with what callers hold, the pool `falling` apart, which is being
torn down and has no classes any more. -/
structure Sound (w : World) (falling : Option PoolId) : Prop where
  table : ∀ p pool, w.pools.get? p = some pool → pool.classes.Sound
  in_use : ∀ p pool, w.pools.get? p = some pool → falling ≠ some p →
    ∀ size, pool.classes.inUseFor size = w.outOf p size
  home : ∀ b ∈ w.held.toList, ∀ pool, w.pools.get? b.pool = some pool → falling ≠ some b.pool →
    ∃ c, pool.classes.classFor? b.size = some c ∧ c.slot = b.chunk.owner
  fallen : ∀ p pool, falling = some p → w.pools.get? p = some pool → pool.classes = {}
  known : ∀ b ∈ w.held.toList, b.pool.index < w.pools.entries.size

theorem outOf_eq_zero_iff {w : World} {p : PoolId} {size : Nat} :
    w.outOf p size = 0 ↔ ∀ b ∈ w.held.toList, b.pool = p → b.size ≠ size := by
  simp [outOf, List.countP_eq_zero]

theorem Sound.start (grants : Nat → Bool) : (World.start grants).Sound none where
  table p pool hp := by simp [World.start] at hp
  in_use p pool hp := by simp [World.start] at hp
  home b hb := by simp [World.start, Registry.toList] at hb
  fallen p pool hf := by cases hf
  known b hb := by simp [World.start, Registry.toList] at hb

namespace Sound

variable {w : World} {falling : Option PoolId}

theorem report (h : w.Sound falling) (p : PoolId) (pool : Pool) (event : Event) :
    (w.report p pool event).Sound falling :=
  ⟨h.table, h.in_use, h.home, h.fallen, h.known⟩

/-- A block of an open pool finds its class by the slot that it names. -/
theorem class?_of_held (h : w.Sound falling) {b : Block} (hb : b ∈ w.held.toList) {pool : Pool}
    (hp : w.pools.get? b.pool = some pool) (hf : falling ≠ some b.pool) :
    ∃ c, pool.classes.class? b.chunk.owner = some c ∧ c.capacity = b.size ∧
      pool.classes.classFor? b.size = some c := by
  obtain ⟨c, hc, hslot⟩ := h.home b hb pool hp hf
  obtain ⟨hclass, hcap⟩ := (h.table _ _ hp).classFor?_eq_some_iff.mp hc
  exact ⟨c, hslot ▸ hclass, hcap, hc⟩

theorem in_use_of_classFor? (h : w.Sound falling) {p : PoolId} {pool : Pool}
    (hp : w.pools.get? p = some pool) (hf : falling ≠ some p) {size : Nat} {c : SizeClass}
    (hc : pool.classes.classFor? size = some c) : c.inUse = w.outOf p size := by
  rw [← h.in_use p pool hp hf size, ClassTable.inUseFor_of_classFor? hc]

end Sound

/-! ### Changing one table -/

/-- A pool has a new table, and callers hold other blocks of this pool, but none of other pools. The
world is sound after that if the new table is and agrees with what callers hold from the pool. -/
theorem Sound.setPool {w w' : World} {falling falling' : Option PoolId} {p : PoolId} {pool : Pool}
    {T : ClassTable} (h : w.Sound falling) (hp : w.pools.get? p = some pool)
    (hpools : w'.pools = w.pools.set p { pool with classes := T }) (hT : T.Sound)
    (hfalling : ∀ q ≠ p, falling' = some q ↔ falling = some q)
    (hheld : ∀ b ∈ w'.held.toList, b.pool = p ∨ b ∈ w.held.toList)
    (hothers : ∀ q ≠ p, ∀ size, w'.outOf q size = w.outOf q size)
    (huse : falling' ≠ some p → ∀ size, T.inUseFor size = w'.outOf p size)
    (hhome : falling' ≠ some p → ∀ b ∈ w'.held.toList, b.pool = p →
      ∃ c, T.classFor? b.size = some c ∧ c.slot = b.chunk.owner)
    (hfallen : falling' = some p → T = {}) : w'.Sound falling' := by
  have hget : ∀ q pool', w'.pools.get? q = some pool' →
      (q = p ∧ pool' = { pool with classes := T }) ∨
        (q ≠ p ∧ w.pools.get? q = some pool') := by
    intro q pool' hq
    rw [hpools, Registry.get?_set hp] at hq
    split at hq
    · next heq => exact Or.inl ⟨heq, (Option.some.inj hq).symm⟩
    · next hne => exact Or.inr ⟨hne, hq⟩
  refine ⟨?_, ?_, ?_, ?_, ?_⟩
  · intro q pool' hq
    rcases hget q pool' hq with ⟨-, rfl⟩ | ⟨-, hq⟩
    · exact hT
    · exact h.table q pool' hq
  · intro q pool' hq hf size
    rcases hget q pool' hq with ⟨rfl, rfl⟩ | ⟨hne, hq⟩
    · exact huse hf size
    · rw [hothers q hne]
      exact h.in_use q pool' hq (mt (hfalling q hne).mpr hf) size
  · intro b hb pool' hq hf
    rcases hget b.pool pool' hq with ⟨heq, rfl⟩ | ⟨hne, hq⟩
    · exact hhome (heq ▸ hf) b hb heq
    · exact h.home b ((hheld b hb).resolve_left hne) pool' hq (mt (hfalling _ hne).mpr hf)
  · intro q pool' hf hq
    rcases hget q pool' hq with ⟨rfl, rfl⟩ | ⟨hne, hq⟩
    · exact hfallen hf
    · exact h.fallen q pool' ((hfalling q hne).mp hf) hq
  · intro b hb
    rw [hpools, Registry.set, Array.size_setIfInBounds]
    rcases hheld b hb with heq | hold
    · rw [heq]
      exact Registry.lt_size_of_get? hp
    · exact h.known b hold

/-! ### Opening a pool -/

theorem Sound.enter {w : World} (h : w.Sound none) (config : Config) :
    (w.enter config).2.Sound none := by
  have hget : ∀ p pool, (w.pools.add { config }).2.get? p = some pool →
      (p = (w.pools.add { config }).1 ∧ pool = { config }) ∨ w.pools.get? p = some pool := by
    intro p pool hp
    rw [Registry.get?_add] at hp
    split at hp
    · next heq => exact Or.inl ⟨heq, (Option.some.inj hp).symm⟩
    · exact Or.inr hp
  have hnew : ∀ b ∈ w.held.toList, b.pool ≠ (w.pools.add { config }).1 := by
    intro b hb heq
    have hlt := h.known b hb
    rw [heq] at hlt
    exact Nat.lt_irrefl _ hlt
  refine Sound.report (w := { w with pools := (w.pools.add { config }).2 }) ?_ _ _ _
  refine ⟨?_, ?_, ?_, ?_, ?_⟩
  · intro p pool hp
    rcases hget p pool hp with ⟨-, rfl⟩ | hold
    · exact ClassTable.Sound.empty
    · exact h.table p pool hold
  · intro p pool hp hf size
    rcases hget p pool hp with ⟨rfl, rfl⟩ | hold
    · rw [ClassTable.inUseFor_of_none rfl]
      exact (outOf_eq_zero_iff.mpr fun b hb heq => absurd heq (hnew b hb)).symm
    · exact h.in_use p pool hold hf size
  · intro b hb pool hp hf
    rcases hget _ pool hp with ⟨heq, -⟩ | hold
    · exact absurd heq (hnew b hb)
    · exact h.home b hb pool hold hf
  · intro p pool hf
    cases hf
  · intro b hb
    have hlt := h.known b hb
    simp only [Registry.add, Array.size_push]
    omega

/-! ### Handing out a block -/

section Lend

variable {w : World} {p : PoolId} {pool : Pool} {T : ClassTable}

/-- The world after a pool handed out a chunk. -/
def lend (w : World) (p : PoolId) (pool : Pool) (T : ClassTable) (heap : Heap) (chunk : Chunk) :
    World :=
  { w with
    heap
    pools := w.pools.set p { pool with classes := T }
    held := (w.held.add { chunk, pool := p }).2 }

theorem issue_lend (w : World) (p : PoolId) (pool : Pool) (T : ClassTable) (heap : Heap)
    (chunk : Chunk) (event : Event) :
    ((w.lend p pool T heap chunk).report p pool event).issue (w.held.add { chunk, pool := p }).1 =
      .issued (w.held.add { chunk, pool := p }).1 chunk.serial chunk.payload := by
  have hnew : ((w.lend p pool T heap chunk).report p pool event).held.get?
      (w.held.add { chunk, pool := p }).1 = some { chunk, pool := p } :=
    Registry.get?_add.trans (if_pos rfl)
  rw [issue, hnew]

theorem outOf_lend (w : World) (p : PoolId) (pool : Pool) (T : ClassTable) (heap : Heap)
    (chunk : Chunk) (q : PoolId) (size : Nat) :
    (w.lend p pool T heap chunk).outOf q size =
      w.outOf q size + if p = q ∧ chunk.payload.size = size then 1 else 0 := by
  simp only [outOf, lend, Registry.countP_add, decide_eq_true_eq]
  rfl

theorem Sound.lend (h : w.Sound none) (hp : w.pools.get? p = some pool) (heap : Heap)
    {size : Nat} {c : SizeClass} {chunk : Chunk} (hT : T.Sound)
    (hafter : T.classFor? = Function.update pool.classes.classFor? size (some c))
    (huse : c.inUse = pool.classes.inUseFor size + 1) (hslot : c.slot = chunk.owner)
    (hsize : chunk.payload.size = size)
    (hsame : ∀ old, pool.classes.classFor? size = some old → old.slot = c.slot) :
    (w.lend p pool T heap chunk).Sound none := by
  have hmem : ∀ b ∈ (w.lend p pool T heap chunk).held.toList,
      b ∈ w.held.toList ∨ b = { chunk, pool := p } := by
    intro b hb
    simpa [World.lend] using hb
  apply h.setPool hp rfl hT
  · intro q _
    rfl
  · intro b hb
    rcases hmem b hb with hold | rfl
    · exact Or.inr hold
    · exact Or.inl rfl
  · intro q hne s
    rw [outOf_lend, if_neg fun hand => hne hand.1.symm, Nat.add_zero]
  · intro hf s
    have hold := h.in_use p pool hp hf s
    rw [outOf_lend, hsize, ClassTable.inUseFor_of_update hafter]
    by_cases hs : s = size
    · subst hs
      rw [Function.update_self, if_pos ⟨rfl, rfl⟩, ← hold]
      exact huse
    · rw [Function.update_of_ne hs, if_neg fun hand => hs hand.2.symm]
      exact hold
  · intro hf b hb heq
    rcases hmem b hb with hold | rfl
    · obtain ⟨old, hc, hbslot⟩ := h.home b hold pool (heq ▸ hp) (by simp)
      by_cases hs : b.size = size
      · refine ⟨c, ?_, ?_⟩
        · rw [hafter, hs, Function.update_self]
        · rw [← hsame old (hs ▸ hc)]
          exact hbslot
      · exact ⟨old, by rw [hafter, Function.update_of_ne hs]; exact hc, hbslot⟩
    · refine ⟨c, ?_, hslot⟩
      rw [hafter, Block.size, hsize, Function.update_self]
  · intro hf
    cases hf

/-- Changes to the table of a pool that no class shows keep the world sound. -/
theorem Sound.replaceTable {falling : Option PoolId} (h : w.Sound falling)
    (hp : w.pools.get? p = some pool) (hf : falling ≠ some p) (hT : T.Sound)
    (huse : ∀ size, T.inUseFor size = pool.classes.inUseFor size)
    (hhome : ∀ size c, pool.classes.classFor? size = some c → w.outOf p size ≠ 0 →
      ∃ c', T.classFor? size = some c' ∧ c'.slot = c.slot) (heap : Heap) :
    ({ w with heap, pools := w.pools.set p { pool with classes := T } } : World).Sound
      falling := by
  apply h.setPool hp rfl hT
  · intro q _
    rfl
  · intro b hb
    exact Or.inr hb
  · intro q _ size
    rfl
  · intro _ size
    exact (huse size).trans (h.in_use p pool hp hf size)
  · intro _ b hb heq
    obtain ⟨c, hc, hslot⟩ := h.home b hb pool (heq ▸ hp) (heq ▸ hf)
    have hout : w.outOf p b.size ≠ 0 := fun hzero => outOf_eq_zero_iff.mp hzero b hb heq rfl
    obtain ⟨c', hc', hslot'⟩ := hhome b.size c hc hout
    exact ⟨c', hc', hslot'.trans hslot⟩
  · intro hfalls
    exact absurd hfalls hf

end Lend

/-- What a request for a block comes to. -/
inductive Allocated (w : World) (p : PoolId) (size : Nat) : Except Fault BlockId × World → Prop
  | noPool (closed : w.pools.get? p = none) : Allocated w p size (.error .noSuchPool, w)
  | inadmissible {pool : Pool} {error : Error} (opened : w.pools.get? p = some pool)
      (refusal : pool.config.refusal? size = some error) :
      Allocated w p size (.error (.refused error), w)
  | outOfMemory {pool : Pool} {T : ClassTable} {heap : Heap} (opened : w.pools.get? p = some pool)
      (admitted : pool.config.refusal? size = none) (table : T.Sound)
      (out : pool.classes.CheckedOut w.heap size none T heap) :
      Allocated w p size (.error (.refused (.outOfMemory size)),
        World.report { w with heap, pools := w.pools.set p { pool with classes := T } } p pool
          (.outOfMemory size))
  | served {pool : Pool} {T : ClassTable} {heap : Heap} {chunk : Chunk} {supply : Supply}
      (opened : w.pools.get? p = some pool) (admitted : pool.config.refusal? size = none)
      (table : T.Sound)
      (out : pool.classes.CheckedOut w.heap size (some (chunk, supply)) T heap) :
      Allocated w p size (.ok (w.held.add { chunk, pool := p }).1,
        (w.lend p pool T heap chunk).report p pool (.supplied supply size))

theorem Sound.allocated {w : World} {falling : Option PoolId} (h : w.Sound falling) (p : PoolId)
    (size : Nat) : Allocated w p size (w.alloc p size) := by
  unfold World.alloc
  cases hp : w.pools.get? p with
  | none => exact .noPool hp
  | some pool =>
      cases hr : pool.config.refusal? size with
      | some error => simpa [hr] using Allocated.inadmissible hp hr
      | none =>
          obtain ⟨hT, hout⟩ := (h.table p pool hp).checkout w.heap size
          rcases hcheckout : pool.classes.checkout w.heap size with ⟨out, T, heap⟩
          rw [hcheckout] at hT hout
          cases out with
          | none => simpa [hr, hcheckout] using Allocated.outOfMemory hp hr hT hout
          | some served => simpa [hr, hcheckout, World.lend] using Allocated.served hp hr hT hout

theorem Sound.alloc {w : World} (h : w.Sound none) (p : PoolId) (size : Nat) :
    (w.alloc p size).2.Sound none := by
  have hall := h.allocated p size
  generalize w.alloc p size = result at hall ⊢
  cases hall with
  | noPool closed => exact h
  | inadmissible opened refusal => exact h
  | @outOfMemory pool T heap opened admitted table out =>
      refine Sound.report ?_ _ _ _
      cases out with
      | refused denied parked after =>
          refine h.replaceTable opened (by simp) table ?_ ?_ _
          · intro s
            rw [ClassTable.inUseFor, after]
            rfl
          · intro s c hc hout
            exact ⟨c, by rw [after]; exact hc, rfl⟩
  | served opened admitted table out =>
      obtain ⟨c, hafter, huse, hslot, hsize, hsame⟩ := out.served (h.table _ _ opened)
      exact (h.lend opened _ table hafter huse hslot hsize hsame).report _ _ _

/-! ### Taking a block back -/

/-- The world after a caller let go of a block that has not reached its pool yet. -/
def drop (w : World) (b : BlockId) : World := { w with held := w.held.remove b }

@[simp] theorem pools_drop (w : World) (b : BlockId) : (w.drop b).pools = w.pools := rfl

theorem outOf_drop {w : World} {b : BlockId} {block : Block} (hb : w.held.get? b = some block)
    (p : PoolId) (size : Nat) :
    (w.drop b).outOf p size + (if block.pool = p ∧ block.size = size then 1 else 0) =
      w.outOf p size := by
  have hcount := Registry.countP_remove (fun b => decide (b.pool = p ∧ b.size = size)) hb
  simpa only [outOf, World.drop, decide_eq_true_eq] using hcount

/-- What becomes of a block that a caller lets go of, `falling` being the pool that is being torn
down. -/
inductive Released (falling : Option PoolId) (w : World) (b : BlockId) : World → Prop
  | notHeld (missing : w.held.get? b = none) : Released falling w b w
  /-- The pool is closed: the chunk goes back to the heap and nothing is said. -/
  | homeless {block : Block} (held : w.held.get? b = some block)
      (closed : w.pools.get? block.pool = none) : Released falling w b (w.drop b)
  /-- The pool is falling: the chunk goes back to the heap. -/
  | orphaned {block : Block} {pool : Pool} (held : w.held.get? b = some block)
      (opened : w.pools.get? block.pool = some pool) (falls : falling = some block.pool) :
      Released falling w b ((w.drop b).report block.pool pool .orphaned)
  | parked {block : Block} {pool : Pool} {c : SizeClass} {T : ClassTable}
      (held : w.held.get? b = some block) (opened : w.pools.get? block.pool = some pool)
      (stands : falling ≠ some block.pool)
      (found : pool.classes.classFor? block.size = some c) (owner : c.slot = block.chunk.owner)
      (in_use : c.inUse = (w.drop b).outOf block.pool block.size + 1) (table : T.Sound)
      (after : T.classFor? = Function.update pool.classes.classFor? block.size
        (some (c.checkin block.chunk))) :
      Released falling w b (World.report
        { w.drop b with pools := w.pools.set block.pool { pool with classes := T } }
        block.pool pool (.cached block.size ((w.drop b).outOf block.pool block.size)))

theorem Sound.released {w : World} {falling : Option PoolId} (h : w.Sound falling) (b : BlockId) :
    Released falling w b (w.release b) := by
  unfold World.release
  cases hb : w.held.get? b with
  | none => exact .notHeld hb
  | some block =>
      have hmem := Registry.mem_toList_of_get? hb
      simp only [takeBack]
      cases hp : w.pools.get? block.pool with
      | none => exact .homeless hb hp
      | some pool =>
          by_cases hf : falling = some block.pool
          · have hnone : pool.classes.class? block.chunk.owner = none := by
              rw [h.fallen _ pool hf hp]
              rfl
            simp only [ClassTable.checkin?_of_none hnone]
            exact .orphaned hb hp hf
          · obtain ⟨c, hclass, hcap, hfor⟩ := h.class?_of_held hmem hp hf
            have htable := h.table _ pool hp
            obtain ⟨T, hcheckin, hT, hafter⟩ := htable.checkin?_of_class? hclass hcap.symm
            have hout := outOf_drop hb block.pool block.size
            have huse : c.inUse = (w.drop b).outOf block.pool block.size + 1 := by
              rw [h.in_use_of_classFor? hp hf hfor, ← hout, if_pos ⟨rfl, rfl⟩]
            have hleft : (c.checkin block.chunk).inUse =
                (w.drop b).outOf block.pool block.size := by
              simp [SizeClass.checkin, huse]
            simp only [hcheckin, hleft, SizeClass.capacity_checkin, hcap]
            exact .parked hb hp hf hfor (htable.slot_eq _ c hclass) huse hT (hcap ▸ hafter)

theorem Sound.drop {w : World} {falling : Option PoolId} (h : w.Sound falling) {b : BlockId}
    {block : Block} (hb : w.held.get? b = some block)
    (hgone : w.pools.get? block.pool = none ∨ falling = some block.pool) :
    (w.drop b).Sound falling := by
  refine ⟨?_, ?_, ?_, ?_, ?_⟩
  · exact h.table
  · intro p pool hp hf size
    have hout := outOf_drop hb p size
    rw [if_neg, Nat.add_zero] at hout
    · exact (h.in_use p pool hp hf size).trans hout.symm
    · rintro ⟨rfl, -⟩
      rcases hgone with hclosed | hfalls
      · exact absurd (hp.symm.trans hclosed) (by simp)
      · exact hf hfalls
  · intro b' hb'
    exact h.home b' (Registry.mem_of_mem_remove hb')
  · exact h.fallen
  · intro b' hb'
    exact h.known b' (Registry.mem_of_mem_remove hb')

theorem Sound.park {w : World} {falling : Option PoolId} (h : w.Sound falling) {b : BlockId}
    {block : Block} {pool : Pool} {c : SizeClass} {T : ClassTable}
    (hb : w.held.get? b = some block) (hp : w.pools.get? block.pool = some pool)
    (hf : falling ≠ some block.pool) (hT : T.Sound)
    (hc : pool.classes.classFor? block.size = some c)
    (hafter : T.classFor? = Function.update pool.classes.classFor? block.size
      (some (c.checkin block.chunk))) :
    ({ w.drop b with pools := w.pools.set block.pool { pool with classes := T } } : World).Sound
      falling := by
  apply h.setPool hp rfl hT
  · intro q _
    rfl
  · intro b' hb'
    exact Or.inr (Registry.mem_of_mem_remove hb')
  · intro q hne size
    have hout := outOf_drop hb q size
    rw [if_neg fun hand => hne hand.1.symm, Nat.add_zero] at hout
    exact hout
  · intro _ size
    have hold := h.in_use _ pool hp hf size
    have hout := outOf_drop hb block.pool size
    show _ = (w.drop b).outOf block.pool size
    rw [ClassTable.inUseFor_of_checkin hc hafter]
    by_cases hs : size = block.size
    · subst hs
      rw [if_pos ⟨rfl, rfl⟩] at hout
      rw [Function.update_self]
      omega
    · rw [if_neg fun hand => hs hand.2.symm] at hout
      rw [Function.update_of_ne hs]
      omega
  · intro _ b' hb' heq
    have hmem := Registry.mem_of_mem_remove hb'
    obtain ⟨d, hd, hslot⟩ := h.home b' hmem pool (heq ▸ hp) (heq ▸ hf)
    by_cases hs : b'.size = block.size
    · rw [hs, hc] at hd
      cases hd
      exact ⟨c.checkin block.chunk, by rw [hs, hafter, Function.update_self], hslot⟩
    · exact ⟨d, by rw [hafter, Function.update_of_ne hs]; exact hd, hslot⟩
  · intro hfalls
    exact absurd hfalls hf

theorem Sound.release {w : World} {falling : Option PoolId} (h : w.Sound falling) (b : BlockId) :
    (w.release b).Sound falling := by
  have hall := h.released b
  generalize w.release b = result at hall ⊢
  cases hall with
  | notHeld missing => exact h
  | homeless held closed => exact h.drop held (Or.inl closed)
  | orphaned held opened falls => exact (h.drop held (Or.inr falls)).report _ _ _
  | parked held opened stands found owner in_use table after =>
      exact (h.park held opened stands table found after).report _ _ _

/-! ### Freeing, writing and clearing -/

/-- Freeing a block through a pool lets go of it, whatever the pool says. -/
theorem free_world (w : World) (p : PoolId) (b : BlockId) :
    (w.free p b).2 = w ∨ (∃ pool, w.pools.get? p = some pool ∧
      (w.free p b).2 = (w.report p pool .refused).release b) ∨ (w.free p b).2 = w.release b := by
  unfold World.free
  cases hp : w.pools.get? p with
  | none => exact Or.inl rfl
  | some pool =>
      cases hb : w.held.get? b with
      | none => exact Or.inl rfl
      | some block =>
          by_cases hrefuse : (pool.config.verifyOwner && decide (block.pool ≠ p)) = true
          · exact Or.inr (Or.inl ⟨pool, rfl, by simp only [hrefuse, if_true]⟩)
          · exact Or.inr (Or.inr (by simp only [hrefuse]; rfl))

theorem free_of_own {w : World} {p : PoolId} {pool : Pool} {b : BlockId} {block : Block}
    (hp : w.pools.get? p = some pool) (hb : w.held.get? b = some block) (hown : block.pool = p) :
    w.free p b = (.ok (), w.release b) := by
  simp [World.free, hp, hb, hown]

theorem Sound.free {w : World} {falling : Option PoolId} (h : w.Sound falling) (p : PoolId)
    (b : BlockId) : (w.free p b).2.Sound falling := by
  rcases free_world w p b with heq | ⟨pool, -, heq⟩ | heq
  · rw [heq]
    exact h
  · rw [heq]
    exact (h.report p pool .refused).release b
  · rw [heq]
    exact h.release b

/-- What a write comes to: it replaces bytes of one held block, whose number stays. -/
inductive Written (w : World) (b : BlockId) : World → Prop
  | kept : Written w b w
  | changed {block : Block} {payload : Payload} (held : w.held.get? b = some block)
      (size : payload.size = block.size) :
      Written w b
        { w with held := w.held.set b { block with chunk := { block.chunk with payload } } }

theorem written (w : World) (b : BlockId) (offset : Nat) (data : Payload) :
    Written w b (w.write b offset data).2 := by
  unfold World.write
  cases hb : w.held.get? b with
  | none => exact .kept
  | some block =>
      by_cases hfit : offset + data.size ≤ block.chunk.payload.size
      · simp only [hfit, if_true]
        exact .changed hb (Payload.size_overwrite hfit)
      · simp only [hfit, if_false]
        exact .kept

theorem Sound.write {w : World} {falling : Option PoolId} (h : w.Sound falling) (b : BlockId)
    (offset : Nat) (data : Payload) : (w.write b offset data).2.Sound falling := by
  have hall := written w b offset data
  generalize (w.write b offset data).2 = result at hall ⊢
  cases hall with
  | kept => exact h
  | @changed block payload held size =>
      have hmem : ∀ b' ∈ (w.held.set b
          { block with chunk := { block.chunk with payload } }).toList,
          ∃ old ∈ w.held.toList, b'.pool = old.pool ∧ b'.size = old.size ∧
            b'.chunk.owner = old.chunk.owner := by
        intro b' hb'
        rcases Registry.eq_or_mem_of_mem_set held hb' with rfl | hold
        · exact ⟨block, Registry.mem_toList_of_get? held, rfl, size, rfl⟩
        · exact ⟨b', hold, rfl, rfl, rfl⟩
      refine ⟨?_, ?_, ?_, ?_, ?_⟩
      · exact h.table
      · intro p pool hp hf s
        refine (h.in_use p pool hp hf s).trans (Eq.symm ?_)
        refine Registry.countP_set _ held ?_
        exact congrArg (fun n => decide (block.pool = p ∧ n = s)) size
      · intro b' hb' pool hp hf
        obtain ⟨old, hold, hpool, hsize, howner⟩ := hmem b' hb'
        rw [hpool] at hp hf
        rw [hsize, howner]
        exact h.home old hold pool hp hf
      · exact h.fallen
      · intro b' hb'
        obtain ⟨old, hold, hpool, -, -⟩ := hmem b' hb'
        rw [hpool]
        exact h.known old hold

theorem clear_eq {w : World} {p : PoolId} {pool : Pool} (hp : w.pools.get? p = some pool)
    (eraseVacant : Bool) :
    w.clear p eraseVacant = (.ok (), World.report
      { w with pools := w.pools.set p { pool with classes := (pool.classes.drain eraseVacant).2 } }
      p pool (.cleared (pool.classes.drain eraseVacant).1
        (pool.classes.drain eraseVacant).2.size)) := by
  simp [World.clear, hp]

theorem Sound.clear {w : World} (h : w.Sound none) (p : PoolId) (eraseVacant : Bool) :
    (w.clear p eraseVacant).2.Sound none := by
  unfold World.clear
  cases hp : w.pools.get? p with
  | none => exact h
  | some pool =>
      have ht := h.table p pool hp
      refine Sound.report ?_ _ _ _
      refine h.replaceTable hp (by simp) (ht.drain eraseVacant) ?_ ?_ _
      · exact ht.inUseFor_drain eraseVacant
      · intro size c hc hout
        have huse := h.in_use_of_classFor? hp (by simp) hc
        refine ⟨{ c with cached := {} }, ?_, rfl⟩
        rw [ht.classFor?_drain, hc, Option.bind_some, SizeClass.drained, if_neg]
        rintro ⟨-, hzero⟩
        exact hout (huse.symm.trans hzero)

/-! ### Tearing a pool down -/

/-- The world in which a pool has lost its classes and reported so; its handle and its blocks are
still there. -/
def emptied (w : World) (p : PoolId) (pool : Pool) : World :=
  let receipt : Receipt := { lines := pool.classes.classes.map (·.toLine) }
  World.report { w with pools := w.pools.set p { pool with classes := {} } } p pool
    receipt.events.1

/-- The world after the last reports of a teardown, with the pool closed. -/
def closed (w : World) (p : PoolId) (pool : Pool) (receipt : Receipt) : World :=
  let w := receipt.events.2.foldl (fun w event => w.report p pool event) w
  { w with pools := w.pools.remove p }

/-- A teardown empties the pool, lets the blocks go that are released meanwhile, and closes it. -/
theorem tearDown_eq {w : World} {p : PoolId} {pool : Pool} (hp : w.pools.get? p = some pool)
    {during : List BlockId} (hheld : ∀ b ∈ during, (w.held.get? b).isSome = true) :
    w.tearDown p during =
      (.ok { lines := pool.classes.classes.map (·.toLine) },
        (during.foldl World.release (w.emptied p pool)).closed p pool
          { lines := pool.classes.classes.map (·.toLine) }) := by
  have hall : (during.all fun b => (w.held.get? b).isSome) = true := List.all_eq_true.mpr hheld
  unfold World.tearDown
  simp only [hp, hall, if_true]
  rfl

/-- A teardown is refused without a trace if the pool is closed or a block is not held. -/
theorem tearDown_cases (w : World) (p : PoolId) (during : List BlockId) :
    (∃ fault, w.tearDown p during = (.error fault, w)) ∨
      ∃ pool, w.pools.get? p = some pool ∧ ∀ b ∈ during, (w.held.get? b).isSome = true := by
  unfold World.tearDown
  cases hp : w.pools.get? p with
  | none => exact Or.inl ⟨_, rfl⟩
  | some pool =>
      cases hall : during.all fun b => (w.held.get? b).isSome with
      | true => exact Or.inr ⟨pool, rfl, List.all_eq_true.mp hall⟩
      | false => exact Or.inl ⟨.noSuchBlock, by simp⟩

theorem Sound.emptied {w : World} (h : w.Sound none) {p : PoolId} {pool : Pool}
    (hp : w.pools.get? p = some pool) : (w.emptied p pool).Sound (some p) := by
  refine Sound.report (w := { w with pools := w.pools.set p { pool with classes := {} } }) ?_ _ _ _
  apply h.setPool hp rfl ClassTable.Sound.empty
  · intro q hne
    simpa using Ne.symm hne
  · intro b hb
    exact Or.inr hb
  · intro q _ size
    rfl
  · intro hf
    exact absurd rfl hf
  · intro hf
    exact absurd rfl hf
  · intro _
    rfl

theorem Sound.closed {w : World} {p : PoolId} (h : w.Sound (some p)) (pool : Pool)
    (receipt : Receipt) : (w.closed p pool receipt).Sound none := by
  have hreports : ∀ (events : List Event) (w : World), w.Sound (some p) →
      (events.foldl (fun w event => w.report p pool event) w).Sound (some p) := by
    intro events
    induction events with
    | nil => exact fun w h => h
    | cons event rest ih => exact fun w h => ih _ (h.report p pool event)
  have hfall := hreports receipt.events.2 w h
  unfold World.closed
  generalize receipt.events.2.foldl (fun w event => w.report p pool event) w = w' at hfall
  have hget : ∀ q pool', (w'.pools.remove p).get? q = some pool' →
      q ≠ p ∧ w'.pools.get? q = some pool' := by
    intro q pool' hq
    rw [Registry.get?_remove] at hq
    split at hq
    · cases hq
    · next hne => exact ⟨hne, hq⟩
  refine ⟨?_, ?_, ?_, ?_, ?_⟩
  · intro q pool' hq
    exact hfall.table q pool' (hget q pool' hq).2
  · intro q pool' hq _ size
    obtain ⟨hne, hq⟩ := hget q pool' hq
    exact hfall.in_use q pool' hq (fun heq => hne (Option.some.inj heq).symm) size
  · intro b hb pool' hq _
    obtain ⟨hne, hq⟩ := hget _ pool' hq
    exact hfall.home b hb pool' hq fun heq => hne (Option.some.inj heq).symm
  · intro q pool' hf
    cases hf
  · intro b hb
    have hlt := hfall.known b hb
    simpa [Registry.remove] using hlt

theorem Sound.releases {w : World} {falling : Option PoolId} (h : w.Sound falling)
    (bs : List BlockId) : (bs.foldl World.release w).Sound falling := by
  induction bs generalizing w with
  | nil => exact h
  | cons b rest ih => exact ih (h.release b)

theorem Sound.tearDown {w : World} (h : w.Sound none) (p : PoolId) (during : List BlockId) :
    (w.tearDown p during).2.Sound none := by
  rcases tearDown_cases w p during with ⟨fault, heq⟩ | ⟨pool, hp, hheld⟩
  · exact heq ▸ h
  · rw [tearDown_eq hp hheld]
    exact ((h.emptied hp).releases during).closed pool _

end World

end BlockPool
