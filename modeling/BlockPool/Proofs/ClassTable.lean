import BlockPool.ClassTable
import BlockPool.Proofs.Lookup
import Mathlib.Data.Finset.Sort
import Mathlib.Logic.Function.Basic

/-! When a class table is sound, and the steps that keep it so. In a sound table the index names
every class once, under its capacity; every class bears the number of its slot, and so does every
chunk parked in it; the vacant list names every slot without a class once. A sound table is then
known from the class that serves each size, `ClassTable.classFor?`, and the operations are described
by what they do to it. -/

namespace BlockPool

namespace FreeList

/-- The length on record is the length of the chain. -/
def Counted (l : FreeList) : Prop := l.len = l.chain.length

theorem Counted.push {l : FreeList} (h : l.Counted) (c : Chunk) : (l.push c).Counted := by
  unfold Counted at h ⊢
  simp [h]

/-- A counted list loses exactly one of its length with each chunk taken. -/
theorem Counted.pop {l rest : FreeList} {c : Chunk} (h : l.Counted)
    (hpop : l.pop? = some (c, rest)) : rest.Counted ∧ l.len = rest.len + 1 := by
  unfold pop? at hpop
  split at hpop
  · cases hpop
  · next c' tail hchain =>
    cases hpop
    have hlen : l.len = tail.length + 1 := by rw [h, hchain]; rfl
    exact ⟨by simp [Counted, hlen], by simp [hlen]⟩

theorem Counted.popAll {l : FreeList} (h : l.Counted) (gone : List Chunk) :
    (l.popAll gone).2 = {} := by
  fun_induction FreeList.popAll l gone with
  | case1 l gone hpop =>
      have hchain := pop?_eq_none_iff.mp hpop
      have hlen : l.len = 0 := by rw [h, hchain]; rfl
      cases l
      simp_all
  | case2 l gone c rest hpop ih => exact ih (h.pop hpop).1

theorem Counted.releaseAll {l : FreeList} (h : l.Counted) :
    l.releaseAll = (l.chain.length, {}) := by
  rw [FreeList.releaseAll, h.popAll]
  exact congrArg (·, _) h

end FreeList

namespace SizeClass

/-- The free list is counted, and all that is parked on it is of this class. -/
structure Sound (c : SizeClass) : Prop where
  counted : c.cached.Counted
  owner_eq : ∀ chunk ∈ c.cached.chain, chunk.owner = c.slot
  size_eq : ∀ chunk ∈ c.cached.chain, chunk.payload.size = c.capacity

theorem Sound.of_empty {c : SizeClass} (h : c.cached = {}) : c.Sound := by
  constructor <;> simp [h, FreeList.Counted]

theorem Sound.checkin {c : SizeClass} (h : c.Sound) {chunk : Chunk}
    (howner : chunk.owner = c.slot) (hsize : chunk.payload.size = c.capacity) :
    (c.checkin chunk).Sound where
  counted := h.counted.push chunk
  owner_eq := by
    intro parked hparked
    rcases List.mem_cons.mp hparked with rfl | hparked
    · exact howner
    · exact h.owner_eq parked hparked
  size_eq := by
    intro parked hparked
    rcases List.mem_cons.mp hparked with rfl | hparked
    · exact hsize
    · exact h.size_eq parked hparked

theorem Sound.drain {c : SizeClass} (h : c.Sound) :
    c.drain = (c.cached.chain.length, { c with cached := {} }) := by
  simp [SizeClass.drain, h.counted.releaseAll]

/-- The class after the chunk in front was handed out. -/
def afterHit (c : SizeClass) (rest : FreeList) : SizeClass :=
  { c with inUse := c.inUse + 1, cached := rest }

/-- The class after a fresh chunk was handed out. -/
def afterMiss (c : SizeClass) : SizeClass := { c with inUse := c.inUse + 1 }

theorem Sound.afterHit {c : SizeClass} (h : c.Sound) {chunk : Chunk} {rest : FreeList}
    (hpop : c.cached.pop? = some (chunk, rest)) : (c.afterHit rest).Sound := by
  have hchain := FreeList.chain_of_pop? hpop
  refine ⟨(h.counted.pop hpop).1, ?_, ?_⟩
  · intro parked hparked
    exact h.owner_eq parked (hchain ▸ List.mem_cons_of_mem _ hparked)
  · intro parked hparked
    exact h.size_eq parked (hchain ▸ List.mem_cons_of_mem _ hparked)

theorem Sound.afterMiss {c : SizeClass} (h : c.Sound) : c.afterMiss.Sound :=
  ⟨h.counted, h.owner_eq, h.size_eq⟩

end SizeClass

namespace ClassTable

/-- The class that serves requests of a size. -/
def classFor? (t : ClassTable) (size : Nat) : Option SizeClass := (t.find? size).bind t.class?

structure Sound (t : ClassTable) : Prop where
  ascending : t.index.Pairwise (·.1 < ·.1)
  mem_index_iff : ∀ size slot, (size, slot) ∈ t.index ↔
    ∃ c, t.class? slot = some c ∧ c.capacity = size
  slot_eq : ∀ slot c, t.class? slot = some c → c.slot = slot
  sound : ∀ slot c, t.class? slot = some c → c.Sound
  vacant_nodup : t.vacant.Nodup
  mem_vacant_iff : ∀ slot, slot ∈ t.vacant ↔ slot < t.slots.size ∧ t.class? slot = none

theorem Sound.empty : ({} : ClassTable).Sound where
  ascending := List.Pairwise.nil
  mem_index_iff := by simp
  slot_eq := by simp
  sound := by simp
  vacant_nodup := List.nodup_nil
  mem_vacant_iff := by simp

/-! ### The index as a map -/

theorem pairwise_insertEntry {entry : Nat × Slot} {index : List (Nat × Slot)}
    (h : index.Pairwise (·.1 < ·.1)) (hnew : entry.1 ∉ index.map (·.1)) :
    (insertEntry entry index).Pairwise (·.1 < ·.1) := by
  induction index with
  | nil => simp [insertEntry]
  | cons e rest ih =>
      rw [List.pairwise_cons] at h
      rw [List.map_cons, List.mem_cons, not_or] at hnew
      unfold insertEntry
      split
      · next hlt =>
        refine List.pairwise_cons.mpr ⟨?_, List.pairwise_cons.mpr h⟩
        intro d hd
        rcases List.mem_cons.mp hd with rfl | hd
        · exact hlt
        · exact hlt.trans (h.1 d hd)
      · next hge =>
        refine List.pairwise_cons.mpr ⟨?_, ih h.2 hnew.2⟩
        intro d hd
        rcases mem_insertEntry.mp hd with rfl | hd
        · exact Nat.lt_of_le_of_ne (Nat.le_of_not_lt hge) (Ne.symm hnew.1)
        · exact h.1 d hd

namespace Sound

variable {t : ClassTable} (h : t.Sound)

include h

theorem sizes_pairwise : t.sizes.Pairwise (· < ·) :=
  List.pairwise_map.mpr h.ascending

theorem sizes_nodup : t.sizes.Nodup :=
  h.sizes_pairwise.imp fun hlt => hlt.ne

theorem find?_eq_some_iff {size : Nat} {slot : Slot} :
    t.find? size = some slot ↔ ∃ c, t.class? slot = some c ∧ c.capacity = size :=
  (lookup_eq_some_iff h.sizes_nodup).trans (h.mem_index_iff size slot)

/-- The class for a size lives in the slot that it bears, and every class serves its capacity. -/
theorem classFor?_eq_some_iff {size : Nat} {c : SizeClass} :
    t.classFor? size = some c ↔ t.class? c.slot = some c ∧ c.capacity = size := by
  unfold classFor?
  rw [Option.bind_eq_some_iff]
  constructor
  · rintro ⟨slot, hfind, hclass⟩
    obtain ⟨c', hclass', hcap⟩ := h.find?_eq_some_iff.mp hfind
    rw [hclass] at hclass'
    cases hclass'
    exact ⟨h.slot_eq slot c hclass ▸ hclass, hcap⟩
  · rintro ⟨hclass, hcap⟩
    exact ⟨c.slot, h.find?_eq_some_iff.mpr ⟨c, hclass, hcap⟩, hclass⟩

theorem class?_eq_some_iff {slot : Slot} {c : SizeClass} :
    t.class? slot = some c ↔ t.classFor? c.capacity = some c ∧ c.slot = slot := by
  rw [h.classFor?_eq_some_iff]
  constructor
  · intro hclass
    have hslot := h.slot_eq slot c hclass
    exact ⟨⟨hslot ▸ hclass, rfl⟩, hslot⟩
  · rintro ⟨⟨hclass, -⟩, rfl⟩
    exact hclass

theorem classFor?_isSome {size : Nat} : (t.classFor? size).isSome = (t.find? size).isSome := by
  unfold classFor?
  cases hfind : t.find? size with
  | none => rfl
  | some slot =>
      obtain ⟨c, hclass, -⟩ := h.find?_eq_some_iff.mp hfind
      simp [hclass]

theorem classFor?_eq_none_iff {size : Nat} : t.classFor? size = none ↔ t.find? size = none := by
  rw [← Option.not_isSome_iff_eq_none, h.classFor?_isSome, Option.not_isSome_iff_eq_none]

theorem mem_sizes_iff {size : Nat} : size ∈ t.sizes ↔ ∃ c, t.classFor? size = some c := by
  rw [← Option.isSome_iff_exists, h.classFor?_isSome, ← Option.ne_none_iff_isSome, find?, Ne,
    lookup_eq_none_iff, not_not, sizes]

/-- The classes in the order of the index, one for every size. -/
theorem classes_eq : t.classes = t.sizes.filterMap t.classFor? := by
  unfold classes sizes
  rw [List.filterMap_map]
  apply List.filterMap_congr
  rintro ⟨size, slot⟩ he
  have hfind : t.find? size = some slot := (lookup_eq_some_iff h.sizes_nodup).mpr he
  simp [classFor?, hfind]

theorem mem_classes_iff {c : SizeClass} : c ∈ t.classes ↔ t.classFor? c.capacity = some c := by
  rw [h.classes_eq, List.mem_filterMap]
  constructor
  · rintro ⟨size, -, hc⟩
    rw [(h.classFor?_eq_some_iff.mp hc).2]
    exact hc
  · intro hc
    exact ⟨c.capacity, h.mem_sizes_iff.mpr ⟨c, hc⟩, hc⟩

theorem of_mem_classes {c : SizeClass} (hc : c ∈ t.classes) : c.Sound :=
  h.sound c.slot c (h.classFor?_eq_some_iff.mp (h.mem_classes_iff.mp hc)).1

/-- The lengths on record are the lengths of the free lists. -/
theorem map_len_classes :
    t.classes.map (·.cached.len) = t.classes.map fun c => c.cached.chain.length :=
  List.map_congr_left fun _ hc => (h.of_mem_classes hc).counted

end Sound

/-! ### Steps that change one slot -/

/-- A table is known from its index, its vacant list, and the slots and what they hold. -/
theorem ext_of_class? {t T : ClassTable} (hindex : T.index = t.index)
    (hsize : T.slots.size = t.slots.size) (hclass : ∀ slot, T.class? slot = t.class? slot)
    (hvacant : T.vacant = t.vacant) : T = t := by
  have hslots : T.slots = t.slots := by
    apply Array.ext hsize
    intro slot hlt hlt'
    have hslot := hclass slot
    rwa [class?, class?, Array.getElem?_eq_getElem hlt, Array.getElem?_eq_getElem hlt',
      Option.join_some, Option.join_some] at hslot
  cases t
  cases T
  simp_all

theorem lt_size_of_class? {t : ClassTable} {slot : Slot} {c : SizeClass}
    (hc : t.class? slot = some c) : slot < t.slots.size := by
  by_contra hge
  simp [class?, Array.getElem?_eq_none (Nat.le_of_not_lt hge)] at hc

/-- What the slots say after one of them was overwritten. -/
theorem join_setIfInBounds {slots : Array (Option SizeClass)} {slot : Slot}
    (hlt : slot < slots.size) (new : Option SizeClass) (other : Slot) :
    (slots.setIfInBounds slot new)[other]?.join =
      if other = slot then new else slots[other]?.join := by
  by_cases ho : other = slot
  · subst ho
    simp [hlt]
  · simp [ho, Array.getElem?_setIfInBounds_ne (Ne.symm ho)]

/-- What the slots say after a new one was added. -/
theorem join_push (slots : Array (Option SizeClass)) (new : Option SizeClass) (other : Slot) :
    (slots.push new)[other]?.join = if other = slots.size then new else slots[other]?.join := by
  rw [Array.getElem?_push]
  split <;> simp

namespace Sound

variable {t T : ClassTable} {size : Nat} {slot : Slot} {c : SizeClass}

/-- The classes by size after one slot took in a class for `size`, if no other slot served it. -/
theorem classFor?_eq_update (h : t.Sound) (hT : T.Sound) (hcap : c.capacity = size)
    (hclass : ∀ other, T.class? other = if other = slot then some c else t.class? other)
    (hold : ∀ old, t.class? slot = some old → old.capacity = size)
    (hhome : ∀ old, t.classFor? size = some old → old.slot = slot) :
    T.classFor? = Function.update t.classFor? size (some c) := by
  have hslot : c.slot = slot := hT.slot_eq slot c (by rw [hclass, if_pos rfl])
  funext s
  by_cases hs : s = size
  · subst hs
    rw [Function.update_self, hT.classFor?_eq_some_iff, hclass, if_pos hslot]
    exact ⟨rfl, hcap⟩
  · rw [Function.update_of_ne hs]
    ext d
    rw [hT.classFor?_eq_some_iff, h.classFor?_eq_some_iff, hclass]
    by_cases hd : d.slot = slot
    · rw [if_pos hd, hd]
      constructor
      · rintro ⟨heq, hds⟩
        cases heq
        exact absurd (hds.symm.trans hcap) hs
      · rintro ⟨hdt, hds⟩
        exact absurd (hds.symm.trans (hold d hdt)) hs
    · rw [if_neg hd]

theorem setClass (h : t.Sound) {old : SizeClass} (hold : t.class? slot = some old)
    (hslot : c.slot = slot) (hcap : c.capacity = old.capacity) (hc : c.Sound) :
    (t.setClass slot c).Sound := by
  have hclass : ∀ other, (t.setClass slot c).class? other =
      if other = slot then some c else t.class? other := fun other => class?_setClass hold
  refine ⟨?_, ?_, ?_, ?_, ?_, ?_⟩
  · exact h.ascending
  · intro size' other
    rw [index_setClass, h.mem_index_iff, hclass]
    by_cases ho : other = slot
    · subst ho
      simp [hold, hcap]
    · simp [ho]
  · intro other d hd
    rw [hclass] at hd
    split at hd
    · next ho =>
      cases hd
      exact hslot.trans ho.symm
    · exact h.slot_eq other d hd
  · intro other d hd
    rw [hclass] at hd
    split at hd
    · cases hd
      exact hc
    · exact h.sound other d hd
  · exact h.vacant_nodup
  · intro other
    have hsize : (t.setClass slot c).slots.size = t.slots.size := by simp [ClassTable.setClass]
    rw [hclass, hsize]
    refine (h.mem_vacant_iff other).trans ?_
    by_cases ho : other = slot
    · subst ho
      simp [hold]
    · simp [ho]

theorem classFor?_setClass (h : t.Sound) {old : SizeClass} (hold : t.class? slot = some old)
    (hslot : c.slot = slot) (hcap : c.capacity = old.capacity) (hc : c.Sound) :
    (t.setClass slot c).classFor? = Function.update t.classFor? old.capacity (some c) := by
  apply h.classFor?_eq_update (h.setClass hold hslot hcap hc) hcap
    (fun other => class?_setClass hold)
  · intro old' hold'
    rw [hold] at hold'
    cases hold'
    rfl
  · intro old' hold'
    have hfind := (h.class?_eq_some_iff.mp hold)
    rw [hfind.1] at hold'
    cases hold'
    exact hfind.2

/-- A new class in a slot that had none keeps the table sound, if the vacant list follows. -/
theorem grow (h : t.Sound) (hfree : t.class? slot = none) (hnew : t.find? size = none)
    (hindex : T.index = insertEntry (size, slot) t.index)
    (hclass : ∀ other, T.class? other =
      if other = slot then some { slot, capacity := size } else t.class? other)
    (hnodup : T.vacant.Nodup)
    (hvacant : ∀ other, other ∈ T.vacant ↔ other < T.slots.size ∧ T.class? other = none) :
    T.Sound := by
  refine ⟨?_, ?_, ?_, ?_, ?_, ?_⟩
  · rw [hindex]
    exact pairwise_insertEntry h.ascending (lookup_eq_none_iff.mp hnew)
  · intro size' other
    rw [hindex, mem_insertEntry, h.mem_index_iff, hclass]
    by_cases ho : other = slot
    · subst ho
      simp [hfree, eq_comm]
    · simp [ho]
  · intro other d hd
    rw [hclass] at hd
    split at hd
    · next ho =>
      cases hd
      exact ho.symm
    · exact h.slot_eq other d hd
  · intro other d hd
    rw [hclass] at hd
    split at hd
    · cases hd
      exact SizeClass.Sound.of_empty rfl
    · exact h.sound other d hd
  · exact hnodup
  · exact hvacant

/-- Making a class takes the slot vacated last, or a new one, and disturbs no other class. -/
theorem ensure_of_none (h : t.Sound) (hnew : t.find? size = none) :
    ∃ slot T, t.ensure size = (slot, true, T) ∧ T.Sound ∧ t.class? slot = none ∧
      T.index = insertEntry (size, slot) t.index ∧
      T.classFor? = Function.update t.classFor? size (some { slot, capacity := size }) := by
  have hhome : ∀ slot old, t.classFor? size = some old → old.slot = slot := by
    intro slot old hold
    rw [h.classFor?_eq_none_iff.mpr hnew] at hold
    cases hold
  have hrest : ∀ slot, t.class? slot = none →
      ∀ old, t.class? slot = some old → old.capacity = size := by
    intro slot hfree old hold
    rw [hfree] at hold
    cases hold
  unfold ensure
  rw [hnew]
  cases hvacant : t.vacant with
  | nil =>
      have hfree : t.class? t.slots.size = none := by simp [class?]
      have hclass : ∀ other, ClassTable.class?
          { t with
            index := insertEntry (size, t.slots.size) t.index
            slots := t.slots.push (some { slot := t.slots.size, capacity := size }) } other =
          if other = t.slots.size then some { slot := t.slots.size, capacity := size }
          else t.class? other := fun other => join_push _ _ _
      have hsound := h.grow hfree hnew rfl hclass h.vacant_nodup (by
        intro other
        have hmem := h.mem_vacant_iff other
        rw [hclass]
        simp only [Array.size_push, hmem]
        by_cases ho : other = t.slots.size
        · simp [ho]
        · rw [if_neg ho]
          constructor
          · rintro ⟨hlt, hnone⟩
            exact ⟨Nat.lt_succ_of_lt hlt, hnone⟩
          · rintro ⟨hlt, hnone⟩
            exact ⟨Nat.lt_of_le_of_ne (Nat.le_of_lt_succ hlt) ho, hnone⟩)
      refine ⟨_, _, by rw [hvacant], hsound, hfree, rfl, ?_⟩
      exact h.classFor?_eq_update hsound rfl hclass (hrest _ hfree) (hhome _)
  | cons slot vacant =>
      obtain ⟨hlt, hfree⟩ := (h.mem_vacant_iff slot).mp (hvacant ▸ List.mem_cons_self)
      have hnodup := h.vacant_nodup
      rw [hvacant, List.nodup_cons] at hnodup
      have hclass : ∀ other, ClassTable.class?
          { index := insertEntry (size, slot) t.index
            slots := t.slots.setIfInBounds slot (some { slot, capacity := size })
            vacant } other =
          if other = slot then some { slot, capacity := size } else t.class? other :=
        fun other => join_setIfInBounds hlt _ _
      have hsound := h.grow hfree hnew rfl hclass hnodup.2 (by
        intro other
        have hmem := h.mem_vacant_iff other
        rw [hvacant, List.mem_cons] at hmem
        rw [hclass]
        simp only [Array.size_setIfInBounds]
        by_cases ho : other = slot
        · subst ho
          simp [hnodup.1]
        · rw [if_neg ho, ← hmem]
          exact ⟨Or.inr, fun hor => hor.resolve_left ho⟩)
      refine ⟨slot, _, rfl, hsound, hfree, rfl, ?_⟩
      exact h.classFor?_eq_update hsound rfl hclass (hrest _ hfree) (hhome _)

/-- What vacating a slot does to a sound table whose index loses the size that the slot served. -/
theorem shrink (h : t.Sound) {old : SizeClass} (hold : t.class? slot = some old)
    (hindex : T.index = t.index.filter (·.1 ≠ old.capacity))
    (hslots : T.slots = t.slots.setIfInBounds slot none) (hvacant : T.vacant = slot :: t.vacant) :
    T.Sound ∧ T.classFor? = Function.update t.classFor? old.capacity none := by
  have hlt := lt_size_of_class? hold
  have hclass : ∀ other, T.class? other = if other = slot then none else t.class? other := by
    intro other
    unfold class?
    rw [hslots]
    exact join_setIfInBounds hlt none other
  have hsound : T.Sound := by
    refine ⟨?_, ?_, ?_, ?_, ?_, ?_⟩
    · rw [hindex]
      exact h.ascending.filter _
    · intro size' other
      rw [hindex, List.mem_filter, h.mem_index_iff, hclass]
      by_cases ho : other = slot
      · subst ho
        constructor
        · rintro ⟨⟨d, hd, hcap⟩, hne⟩
          rw [hold] at hd
          cases hd
          exact absurd hcap.symm (by simpa using hne)
        · rintro ⟨d, hd, -⟩
          simp at hd
      · rw [if_neg ho]
        simp only [ne_eq, decide_not, Bool.not_eq_true', decide_eq_false_iff_not,
          and_iff_left_iff_imp]
        rintro ⟨d, hd, rfl⟩ heq
        have hdf := h.class?_eq_some_iff.mp hd
        have hof := h.class?_eq_some_iff.mp hold
        rw [heq, hof.1] at hdf
        cases hdf.1
        exact ho (hdf.2.symm.trans hof.2)
    · intro other d hd
      rw [hclass] at hd
      split at hd
      · cases hd
      · exact h.slot_eq other d hd
    · intro other d hd
      rw [hclass] at hd
      split at hd
      · cases hd
      · exact h.sound other d hd
    · rw [hvacant, List.nodup_cons, h.mem_vacant_iff]
      exact ⟨by simp [hold], h.vacant_nodup⟩
    · intro other
      rw [hvacant, List.mem_cons, h.mem_vacant_iff, hclass, hslots, Array.size_setIfInBounds]
      by_cases ho : other = slot
      · simp [ho, hlt]
      · simp [ho]
  refine ⟨hsound, ?_⟩
  funext s
  by_cases hs : s = old.capacity
  · subst hs
    rw [Function.update_self, hsound.classFor?_eq_none_iff]
    exact lookup_eq_none_iff.mpr (by simp [hindex])
  · rw [Function.update_of_ne hs]
    ext d
    rw [hsound.classFor?_eq_some_iff, h.classFor?_eq_some_iff, hclass]
    by_cases hd : d.slot = slot
    · rw [if_pos hd, hd, hold]
      simp only [reduceCtorEq, false_and, false_iff, Option.some.injEq, not_and]
      rintro rfl
      exact fun heq => hs heq.symm
    · rw [if_neg hd]

theorem erase_of_class? (h : t.Sound) (hserves : t.classFor? size = some c) :
    (t.erase size).1 = some c ∧ (t.erase size).2.Sound ∧
      (t.erase size).2.classFor? = Function.update t.classFor? size none := by
  obtain ⟨hclass, hcap⟩ := h.classFor?_eq_some_iff.mp hserves
  have hfind : t.find? size = some c.slot := h.find?_eq_some_iff.mpr ⟨c, hclass, hcap⟩
  subst hcap
  have hshrink := h.shrink (T := (t.erase c.capacity).2) hclass
    (by simp [ClassTable.erase, hfind]) (by simp [ClassTable.erase, hfind])
    (by simp [ClassTable.erase, hfind])
  exact ⟨by simp [ClassTable.erase, hfind, hclass], hshrink⟩

end Sound

end ClassTable

end BlockPool
