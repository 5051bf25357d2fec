import BlockPool.Proofs.World.Moment
import Mathlib.Algebra.BigOperators.Group.Finset.Piecewise
import Mathlib.Algebra.Order.BigOperators.Group.List
import Mathlib.Algebra.Order.Group.Nat

/-! What the books of a moment say of single chunks and of the counters. Each chunk that was made is
held by one block, parked once in the class that it was made for, or gone for good; so no chunk is
in two hands, and what a pool counts as in use or parked is never more than the chunks made for
it. -/

namespace BlockPool

namespace ClassTable

theorem sublist_parkedSerials {t : ClassTable} {c : SizeClass} (hc : c ∈ t.classes) :
    (c.cached.chain.map (·.serial)).Sublist t.parkedSerials :=
  List.sublist_flatten_of_mem
    (List.mem_map_of_mem (f := fun c : SizeClass => c.cached.chain.map (·.serial)) hc)

end ClassTable

namespace World

/-- One block, and no other, holds this chunk, for the pool and the size that it was made for. -/
def HeldOnce (w : World) (n : Nat) (p : PoolId) (size : Nat) : Prop :=
  ∃ b block, w.held.get? b = some block ∧ block.chunk.serial = n ∧ block.pool = p ∧
    block.size = size ∧
    ∀ other block', w.held.get? other = some block' → block'.chunk.serial = n → other = b

/-- This chunk stands once on the free list of the class that it was made for, and nowhere else. -/
def ParkedOnce (w : World) (n : Nat) (p : PoolId) (size : Nat) : Prop :=
  ∃ pool c, w.pools.get? p = some pool ∧ pool.classes.classFor? size = some c ∧
    (c.cached.chain.map (·.serial)).count n = 1 ∧ w.parkedSerials.count n = 1

/-- How many fresh chunks were made for this pool so far. -/
def misses (w : World) (p : PoolId) : Nat := w.made.countP fun origin => decide (origin.1 = p)

/-- Whether a serial is that of a chunk made for this pool. -/
def madeFor (w : World) (p : PoolId) (n : Nat) : Bool :=
  w.made[n]?.any fun origin => decide (origin.1 = p)

variable {w : World} {freed : List Nat} {served : Nat}

theorem sublist_parkedSerials {p : PoolId} {pool : Pool} (hp : w.pools.get? p = some pool) :
    pool.classes.parkedSerials.Sublist w.parkedSerials :=
  List.sublist_flatten_of_mem (List.mem_map_of_mem
    (f := fun pool : Pool => pool.classes.parkedSerials) (Registry.mem_toList_of_get? hp))

theorem mem_parkedSerials_iff {n : Nat} : n ∈ w.parkedSerials ↔
    ∃ p pool, w.pools.get? p = some pool ∧ n ∈ pool.classes.parkedSerials := by
  simp only [parkedSerials, List.mem_flatMap, Registry.mem_toList_iff]
  constructor
  · rintro ⟨pool, ⟨p, hp⟩, hn⟩
    exact ⟨p, pool, hp, hn⟩
  · rintro ⟨p, pool, hp, hn⟩
    exact ⟨pool, ⟨p, hp⟩, hn⟩

theorem Books.heldOnce (h : w.Books freed served) {n : Nat} {p : PoolId} {size : Nat}
    (hmade : w.made[n]? = some (p, size)) (hcount : w.heldSerials.count n = 1) :
    w.HeldOnce n p size := by
  have hmem : n ∈ w.heldSerials := List.count_pos_iff.mp (by omega)
  obtain ⟨block, hblock, rfl⟩ := List.mem_map.mp hmem
  obtain ⟨b, hb⟩ := Registry.mem_toList_iff.mp hblock
  have horigin := h.held_made block hblock
  rw [hmade] at horigin
  obtain ⟨rfl, rfl⟩ := Prod.mk.inj (Option.some.inj horigin)
  refine ⟨b, block, hb, rfl, rfl, rfl, ?_⟩
  intro other block' hother hserial
  by_contra hne
  have hdrop := count_drop hb block.chunk.serial
  rw [if_pos rfl, hcount] at hdrop
  have hleft : (w.drop b).held.get? other = some block' :=
    Registry.get?_remove.trans ((if_neg hne).trans hother)
  have hpos : 0 < (w.drop b).heldSerials.count block.chunk.serial :=
    List.count_pos_iff.mpr (List.mem_map.mpr ⟨block', Registry.mem_toList_of_get? hleft, hserial⟩)
  omega

theorem Books.origin_of_parked (h : w.Books freed served) {falling : Option PoolId}
    (hw : w.Sound falling) {p : PoolId} {pool : Pool} (hp : w.pools.get? p = some pool) {n : Nat}
    (hn : n ∈ pool.classes.parkedSerials) :
    ∃ size c, w.made[n]? = some (p, size) ∧ pool.classes.classFor? size = some c ∧
      n ∈ c.cached.chain.map (·.serial) := by
  obtain ⟨c, hc, hn⟩ := List.mem_flatMap.mp hn
  obtain ⟨chunk, hchunk, rfl⟩ := List.mem_map.mp hn
  have hserves := (hw.table p pool hp).mem_classes_iff.mp hc
  refine ⟨c.capacity, c, ?_, hserves, hn⟩
  apply h.parked_made p pool hp c.capacity chunk
  rw [ClassTable.parkedFor_of_classFor? hserves]
  exact hchunk

theorem Books.parkedOnce (h : w.Books freed served) {falling : Option PoolId}
    (hw : w.Sound falling) {n : Nat} {p : PoolId} {size : Nat}
    (hmade : w.made[n]? = some (p, size)) (hcount : w.parkedSerials.count n = 1) :
    w.ParkedOnce n p size := by
  have hmem : n ∈ w.parkedSerials := List.count_pos_iff.mp (by omega)
  obtain ⟨q, pool, hq, hn⟩ := mem_parkedSerials_iff.mp hmem
  obtain ⟨size', c, horigin, hserves, hchain⟩ := h.origin_of_parked hw hq hn
  rw [hmade] at horigin
  obtain ⟨rfl, rfl⟩ := Prod.mk.inj (Option.some.inj horigin)
  have hc : c ∈ pool.classes.classes := by
    rw [(hw.table p pool hq).mem_classes_iff, ((hw.table p pool hq).classFor?_eq_some_iff.mp
      hserves).2]
    exact hserves
  have hle : (c.cached.chain.map (·.serial)).count n ≤ w.parkedSerials.count n :=
    ((ClassTable.sublist_parkedSerials hc).trans (sublist_parkedSerials hq)).count_le n
  have hpos := List.count_pos_iff.mpr hchain
  refine ⟨pool, c, hq, hserves, ?_, hcount⟩
  omega

/-! ### Counters -/

/-- The positions at which a list has an element with a property are as many as these elements. -/
theorem countP_range_any {α : Type} (l : List α) (q : α → Bool) :
    (List.range l.length).countP (fun n => l[n]?.any q) = l.countP q := by
  induction l using List.reverseRecOn with
  | nil => rfl
  | append_singleton l a ih =>
      have hfront : (List.range l.length).countP (fun n => (l ++ [a])[n]?.any q) =
          (List.range l.length).countP (fun n => l[n]?.any q) := by
        refine List.countP_congr fun n hn => ?_
        rw [List.getElem?_append_left (List.mem_range.mp hn)]
      rw [List.length_append, List.length_singleton, List.range_succ, List.countP_append, hfront,
        ih, List.countP_append]
      simp

/-- The serials that are held, parked or back with the heap are all serials, each of them once. -/
theorem Books.perm (h : w.Books freed served) :
    (w.heldSerials ++ w.parkedSerials ++ freed).Perm (List.range w.made.length) := by
  rw [List.perm_iff_count]
  intro n
  rw [List.count_append, List.count_append, List.count_range]
  exact h.accounted n

/-- What is held or parked of a pool does not exceed what was made for it. -/
theorem Books.length_le_misses (h : w.Books freed served) {falling : Option PoolId}
    (hw : w.Sound falling) {p : PoolId} {pool : Pool} (hp : w.pools.get? p = some pool) :
    w.held.toList.countP (fun b => decide (b.pool = p)) + pool.classes.parkedSerials.length ≤
      w.misses p := by
  have hheld : w.held.toList.countP (fun b => decide (b.pool = p)) ≤
      w.heldSerials.countP (w.madeFor p) := by
    rw [heldSerials, List.countP_map]
    refine List.countP_mono_left fun b hb hpool => ?_
    simp only [madeFor, Function.comp_apply, h.held_made b hb, Option.any_some]
    exact hpool
  have hparked : pool.classes.parkedSerials.length ≤ w.parkedSerials.countP (w.madeFor p) := by
    have hall : pool.classes.parkedSerials.countP (w.madeFor p) =
        pool.classes.parkedSerials.length := by
      rw [List.countP_eq_length]
      intro n hn
      obtain ⟨size, c, hmade, -, -⟩ := h.origin_of_parked hw hp hn
      simp [madeFor, hmade]
    rw [← hall]
    exact (sublist_parkedSerials hp).countP_le
  have htotal : _ = (List.range w.made.length).countP (w.madeFor p) :=
    h.perm.countP_eq (w.madeFor p)
  unfold madeFor at htotal hheld hparked
  rw [countP_range_any, List.countP_append, List.countP_append] at htotal
  unfold misses
  omega

theorem sum_outOf_le (w : World) (p : PoolId) (sizes : Finset Nat) :
    ∑ size ∈ sizes, w.outOf p size ≤ w.held.toList.countP fun b => decide (b.pool = p) := by
  unfold outOf
  induction w.held.toList with
  | nil => simp
  | cons b rest ih =>
      simp only [List.countP_cons, Finset.sum_add_distrib]
      refine Nat.add_le_add ih ?_
      by_cases hp : b.pool = p
      · simp only [hp, true_and, decide_eq_true_eq, Finset.sum_ite_eq]
        split <;> simp
      · simp [hp]

/-- The counters of a pool together count blocks that callers hold from it. -/
theorem Sound.sum_inUse_le {falling : Option PoolId} (hw : w.Sound falling) {p : PoolId}
    {pool : Pool} (hp : w.pools.get? p = some pool) :
    (pool.classes.classes.map (·.inUse)).sum ≤
      w.held.toList.countP fun b => decide (b.pool = p) := by
  by_cases hf : falling = some p
  · rw [hw.fallen p pool hf hp]
    exact Nat.zero_le _
  · have ht := hw.table p pool hp
    have hmap : pool.classes.classes.map (·.inUse) = pool.classes.sizes.map (w.outOf p) := by
      apply ht.map_classes
      intro size c hc
      exact hw.in_use_of_classFor? hp hf hc
    rw [hmap, ← List.sum_toFinset _ ht.sizes_nodup]
    exact sum_outOf_le w p _

/-- The sum of all counters and free lists of a pool is at most the number of its misses. -/
theorem Books.sum_le_misses (h : w.Books freed served) {falling : Option PoolId}
    (hw : w.Sound falling) {p : PoolId} {pool : Pool} (hp : w.pools.get? p = some pool) :
    (pool.classes.classes.map fun c => c.inUse + c.cached.len).sum ≤ w.misses p := by
  have hle := h.length_le_misses hw hp
  have huse := hw.sum_inUse_le hp
  have hlen : pool.classes.parkedSerials.length =
      (pool.classes.classes.map (·.cached.len)).sum := by
    rw [(hw.table p pool hp).map_len_classes, ClassTable.parkedSerials, List.length_flatMap]
    simp only [List.length_map]
  have hsplit : (pool.classes.classes.map fun c => c.inUse + c.cached.len).sum =
      (pool.classes.classes.map (·.inUse)).sum + (pool.classes.classes.map (·.cached.len)).sum :=
    List.sum_map_add
  omega

/-- A request never hands out a chunk that is in use. -/
theorem Books.fresh_of_alloc (h : w.Books freed served) {falling : Option PoolId}
    (hw : w.Sound falling) {p : PoolId} {size : Nat} {b : BlockId} {w' : World}
    (halloc : w.alloc p size = (.ok b, w')) :
    ∃ block, w'.held.get? b = some block ∧ block.chunk.serial ∉ w.heldSerials := by
  have hall := hw.allocated p size
  rw [halloc] at hall
  cases hall with
  | @served pool T heap chunk supply opened admitted table out =>
      refine ⟨{ chunk, pool := p }, Registry.get?_add.trans (if_pos rfl), ?_⟩
      have hafter := h.accounted_lend opened out (hw.table p pool opened) table chunk.serial
      have hlend := count_lend w p pool T heap chunk chunk.serial
      rw [if_pos rfl] at hlend
      show chunk.serial ∉ w.heldSerials
      rw [← List.count_eq_zero]
      generalize List.length _ = total at hafter
      split at hafter <;> omega

end World

/-- What holds of chunks and counters at a moment. -/
structure Moment.Whereabouts (m : Moment) : Prop where
  /-- The log tells of every chunk that the heap gave out. -/
  issued_eq : m.world.heap.issued = m.world.made.length
  /-- A chunk that was made is held once, parked once or gone, and only one of these. -/
  one_place : ∀ n p size, m.world.made[n]? = some (p, size) →
    (m.world.HeldOnce n p size ∧ n ∉ m.world.parkedSerials ∧ n ∉ m.freed) ∨
    (n ∉ m.world.heldSerials ∧ m.world.ParkedOnce n p size ∧ n ∉ m.freed) ∨
    (n ∉ m.world.heldSerials ∧ n ∉ m.world.parkedSerials ∧ m.freed.count n = 1)
  only_made : ∀ n, n ∈ m.world.heldSerials ∨ n ∈ m.world.parkedSerials ∨ n ∈ m.freed →
    n < m.world.made.length
  gone_for_good : ∀ m', m.Later m' → ∀ n ∈ m.freed,
    n ∉ m'.world.heldSerials ∧ n ∉ m'.world.parkedSerials
  unshared : ∀ b b' block block', m.world.held.get? b = some block →
    m.world.held.get? b' = some block' → block.chunk.serial = block'.chunk.serial → b = b'
  alloc_unshared : ∀ p size b w', m.world.alloc p size = (.ok b, w') →
    ∃ block, w'.held.get? b = some block ∧ block.chunk.serial ∉ m.world.heldSerials
  sum_le_misses : ∀ p pool, m.world.pools.get? p = some pool →
    (pool.classes.classes.map fun c => c.inUse + c.cached.len).sum ≤ m.world.misses p
  misses_le_served : ∀ p, m.world.misses p ≤ m.served
  /-- No counter, and no sum of counters, needs more than 64 bits. -/
  no_overflow : m.served < 2 ^ 64 → ∀ p pool, m.world.pools.get? p = some pool →
    (∀ c ∈ pool.classes.classes, c.inUse < 2 ^ 64 ∧ c.cached.len < 2 ^ 64) ∧
    (∀ eraseVacant, (pool.classes.drain eraseVacant).1.chunks < 2 ^ 64) ∧
    pool.classes.toReceipt.totalCached < 2 ^ 64 ∧ pool.classes.toReceipt.totalInUse < 2 ^ 64

namespace Moment.Kept

variable {m : Moment}

theorem no_overflow (h : m.Kept) (hserved : m.served < 2 ^ 64) {p : PoolId} {pool : Pool}
    (hp : m.world.pools.get? p = some pool) :
    (∀ c ∈ pool.classes.classes, c.inUse < 2 ^ 64 ∧ c.cached.len < 2 ^ 64) ∧
    (∀ eraseVacant, (pool.classes.drain eraseVacant).1.chunks < 2 ^ 64) ∧
    pool.classes.toReceipt.totalCached < 2 ^ 64 ∧ pool.classes.toReceipt.totalInUse < 2 ^ 64 := by
  have hsum : (pool.classes.classes.map fun c => c.inUse + c.cached.len).sum < 2 ^ 64 :=
    calc (pool.classes.classes.map fun c => c.inUse + c.cached.len).sum
      _ ≤ m.world.misses p := h.books.sum_le_misses h.sound hp
      _ ≤ m.world.made.length := List.countP_le_length
      _ ≤ m.served := h.books.made_le
      _ < 2 ^ 64 := hserved
  have hsplit : (pool.classes.classes.map fun c => c.inUse + c.cached.len).sum =
      (pool.classes.classes.map (·.inUse)).sum + (pool.classes.classes.map (·.cached.len)).sum :=
    List.sum_map_add
  refine ⟨fun c hc => ?_, fun eraseVacant => ?_, ?_, ?_⟩
  · have hle : c.inUse + c.cached.len ≤ _ :=
      List.le_sum_of_mem (List.mem_map_of_mem (f := fun c => c.inUse + c.cached.len) hc)
    omega
  · have hchunks := (h.sound.table p pool hp).chunks_drain eraseVacant
    rw [← (h.sound.table p pool hp).map_len_classes] at hchunks
    omega
  · have htotal : pool.classes.toReceipt.totalCached =
        (pool.classes.classes.map (·.cached.len)).sum := by
      rw [Receipt.totalCached, ClassTable.toReceipt, List.foldr_map, List.sum_eq_foldr,
        List.foldr_map]
      rfl
    omega
  · have htotal : pool.classes.toReceipt.totalInUse =
        (pool.classes.classes.map (·.inUse)).sum := by
      rw [Receipt.totalInUse, ClassTable.toReceipt, List.foldr_map, List.sum_eq_foldr,
        List.foldr_map]
      rfl
    omega

theorem whereabouts (h : m.Kept) : m.Whereabouts where
  issued_eq := h.books.issued_eq
  one_place n p size hmade := by
    have hacc := h.books.accounted n
    rw [if_pos (List.getElem?_eq_some_iff.mp hmade).1] at hacc
    simp only [← List.count_eq_zero]
    by_cases hheld : m.world.heldSerials.count n = 1
    · exact Or.inl ⟨h.books.heldOnce hmade hheld, by omega, by omega⟩
    · by_cases hparked : m.world.parkedSerials.count n = 1
      · exact Or.inr (Or.inl ⟨by omega, h.books.parkedOnce h.sound hmade hparked, by omega⟩)
      · exact Or.inr (Or.inr ⟨by omega, by omega, by omega⟩)
  only_made n hn := by
    have hacc := h.books.accounted n
    simp only [← List.count_pos_iff] at hn
    by_contra hlt
    rw [if_neg hlt] at hacc
    omega
  gone_for_good m' hlater n hn := by
    have hacc := (h.later hlater).books.accounted n
    have hpos := List.count_pos_iff.mpr (hlater.freed_subset hn)
    simp only [← List.count_eq_zero]
    split at hacc <;> exact ⟨by omega, by omega⟩
  unshared b b' block block' hb hb' hserial := by
    have hmem := Registry.mem_toList_of_get? hb
    have hacc := h.books.accounted block.chunk.serial
    have hpos := List.count_pos_iff.mpr (List.mem_map_of_mem (f := (·.chunk.serial)) hmem)
    change 0 < m.world.heldSerials.count block.chunk.serial at hpos
    have honce : m.world.heldSerials.count block.chunk.serial = 1 := by
      split at hacc <;> omega
    obtain ⟨holder, _, -, -, -, -, honly⟩ :=
      h.books.heldOnce (h.books.held_made block hmem) honce
    rw [honly b block hb rfl, honly b' block' hb' hserial.symm]
  alloc_unshared p size b w' halloc := h.books.fresh_of_alloc h.sound halloc
  sum_le_misses p pool hp := h.books.sum_le_misses h.sound hp
  misses_le_served p := List.countP_le_length.trans h.books.made_le
  no_overflow hserved p pool hp := h.no_overflow hserved hp

end Moment.Kept

/-- At every moment of every run, chunks are neither lost nor in two places, and the counters of a
pool stay within the number of chunks made for it. -/
theorem Moment.Later.chunks_accounted {grants : Nat → Bool} {m : Moment}
    (h : (Moment.start grants).Later m) : m.Whereabouts :=
  ((Moment.Kept.start grants).later h).whereabouts

/-- Two chunks were made; one is parked, and the other is held by a block of a second pool. -/
theorem Moment.chunks_accounted_in_short_run :
    ∃ m : Moment, m.world.made = [(⟨0⟩, 8), (⟨1⟩, 8)] ∧ m.world.parkedSerials = [0] ∧
      m.world.heldSerials = [1] ∧ m.Whereabouts := by
  have hlater : (Moment.start fun _ => true).Later _ :=
    (((((Relation.ReflTransGen.refl.tail (.step .openStandard)).tail (.step .openStandard)).tail
      (.step (.alloc ⟨0⟩ 8))).tail (.step (.alloc ⟨1⟩ 8))).tail (.step (.release ⟨0⟩)))
  exact ⟨_, by decide, by decide, by decide, Moment.Later.chunks_accounted hlater⟩

end BlockPool
