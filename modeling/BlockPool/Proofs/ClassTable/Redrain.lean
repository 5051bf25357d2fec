import BlockPool.Proofs.ClassTable.Receipt

/-! What a drain leaves of a table, slot by slot, and what a second drain finds to do. Every class that
stays is where it was, with nothing parked; every class that goes leaves its slot on the vacant list,
once. Draining twice is draining once, with classes dropped if either drain drops them: the index, the
slots and the vacant list are then the same, and not just the classes. -/

namespace BlockPool.ClassTable

/-- What a drain leaves, slot by slot. -/
structure Drainage (t : ClassTable) (eraseVacant : Bool) (T : ClassTable) : Prop where
  empty : ∀ slot c, T.class? slot = some c → c.cached = {}
  mem_sizes_iff : ∀ size, size ∈ T.sizes ↔
    size ∈ t.sizes ∧ (eraseVacant = true → 0 < t.inUseFor size)
  slot_kept : ∀ size ∈ T.sizes, T.find? size = t.find? size
  /-- A class that stays loses what is parked in it, and nothing else of it changes. -/
  kept : ∀ slot c, t.class? slot = some c → (eraseVacant = true → 0 < c.inUse) →
    T.class? slot = some { c with cached := {} }
  erased : ∀ slot c, t.class? slot = some c → eraseVacant = true → c.inUse = 0 →
    T.class? slot = none ∧ T.vacant.count slot = 1
  vacant_kept : ∀ slot ∈ t.vacant, T.class? slot = none ∧ T.vacant.count slot = 1
  slots_kept : T.slots.size = t.slots.size

namespace Sound

variable {t : ClassTable} (h : t.Sound)

include h

theorem vacant_of_none {slot : Slot} (hlt : slot < t.slots.size) (hnone : t.class? slot = none) :
    t.vacant.count slot = 1 :=
  List.count_eq_one_of_mem h.vacant_nodup ((h.mem_vacant_iff slot).mpr ⟨hlt, hnone⟩)

theorem find?_drain {eraseVacant : Bool} {size : Nat}
    (hsize : size ∈ (t.drain eraseVacant).2.sizes) :
    (t.drain eraseVacant).2.find? size = t.find? size := by
  have hT := h.drain eraseVacant
  obtain ⟨d, hd⟩ := hT.mem_sizes_iff.mp hsize
  obtain ⟨hslot, hcap⟩ := hT.classFor?_eq_some_iff.mp hd
  have hbefore := hslot
  rw [h.class?_drain, Option.bind_eq_some_iff] at hbefore
  obtain ⟨c, hc, hkept⟩ := hbefore
  have hsame : c.capacity = size := by
    unfold SizeClass.drained at hkept
    split at hkept
    · cases hkept
    · cases hkept
      exact hcap
  rw [hT.find?_eq_some_iff.mpr ⟨d, hslot, hcap⟩, h.find?_eq_some_iff.mpr ⟨c, hc, hsame⟩]

theorem drainage (eraseVacant : Bool) : t.Drainage eraseVacant (t.drain eraseVacant).2 := by
  have hT := h.drain eraseVacant
  have hclass := h.class?_drain eraseVacant
  have hsize := (h.drain_result eraseVacant).size_eq
  refine ⟨?_, ?_, fun size hmem => h.find?_drain hmem, ?_, ?_, ?_, hsize⟩
  · intro slot c hc
    rw [hclass, Option.bind_eq_some_iff] at hc
    obtain ⟨old, -, hkept⟩ := hc
    unfold SizeClass.drained at hkept
    split at hkept
    · cases hkept
    · cases hkept
      rfl
  · intro size
    rw [h.mem_sizes_drain]
    simp only [Nat.pos_iff_ne_zero]
  · intro slot c hc hbusy
    rw [hclass, hc, Option.bind_some, SizeClass.drained, if_neg]
    rintro ⟨herase, hidle⟩
    exact (hbusy herase).ne' hidle
  · intro slot c hc herase hidle
    have hnone : (t.drain eraseVacant).2.class? slot = none := by
      rw [hclass, hc, Option.bind_some, SizeClass.drained, if_pos ⟨herase, hidle⟩]
    exact ⟨hnone, hT.vacant_of_none (hsize ▸ lt_size_of_class? hc) hnone⟩
  · intro slot hvacant
    obtain ⟨hlt, hfree⟩ := (h.mem_vacant_iff slot).mp hvacant
    have hnone : (t.drain eraseVacant).2.class? slot = none := by
      rw [hclass, hfree, Option.bind_none]
    exact ⟨hnone, hT.vacant_of_none (hsize ▸ hlt) hnone⟩

/-! ### The numbers that a drain reports -/

/-- No class is dropped that is not counted, and none is counted twice. -/
theorem size_drain (eraseVacant : Bool) :
    (t.drain eraseVacant).2.size + (t.drain eraseVacant).1.classes = t.size := by
  have hr := h.drain_result eraseVacant
  have hgone : ∀ e ∈ t.index, ((t.class? e.2).bind (SizeClass.drained eraseVacant)).isSome =
      !((t.class? e.2).any fun c => eraseVacant && decide (c.inUse = 0)) := by
    intro e he
    obtain ⟨c, hc⟩ := h.mem_slots_iff.mp (List.mem_map_of_mem (f := (·.2)) he)
    cases eraseVacant <;> by_cases hidle : c.inUse = 0 <;> simp [hc, SizeClass.drained, hidle]
  have hclasses : (t.drain eraseVacant).1.classes =
      t.index.countP fun e => (t.class? e.2).any fun c => eraseVacant && decide (c.inUse = 0) := by
    rw [hr.classes_eq, List.countP_filterMap]
    refine List.countP_congr fun e _ => ?_
    cases t.class? e.2 <;> simp
  rw [size, hr.index_eq, List.filter_congr hgone, hclasses, size, ← List.countP_eq_length_filter,
    Nat.add_comm]
  simpa using (List.length_eq_countP_add_countP (l := t.index)
    fun e => (t.class? e.2).any fun c => eraseVacant && decide (c.inUse = 0)).symm

/-! ### Two drains in a row -/

/-- A drain that drops no class leaves the index and the vacant list alone. -/
theorem drain_false : (t.drain false).2.index = t.index ∧ (t.drain false).2.vacant = t.vacant := by
  have hr := h.drain_result false
  have hkept : ∀ e ∈ t.index, ((t.class? e.2).bind (SizeClass.drained false)).isSome = true := by
    intro e he
    obtain ⟨c, hc⟩ := h.mem_slots_iff.mp (List.mem_map_of_mem (f := (·.2)) he)
    simp [hc, SizeClass.drained]
  constructor
  · rw [hr.index_eq, List.filter_eq_self]
    exact hkept
  · rw [hr.vacant_eq, List.filter_eq_nil_iff.mpr, List.map_nil, List.reverse_nil, List.nil_append]
    intro e he hnone
    have hsome := hkept e he
    rw [Option.isNone_iff_eq_none.mp hnone] at hsome
    cases hsome

/-- What is left after idle classes were dropped is dropped by no further drain. -/
theorem drain_busy (hbusy : ∀ slot c, t.class? slot = some c → c.inUse ≠ 0) (eraseVacant : Bool) :
    (t.drain eraseVacant).2.index = t.index ∧ (t.drain eraseVacant).2.vacant = t.vacant := by
  have hr := h.drain_result eraseVacant
  have hsame : ∀ slot, (t.class? slot).bind (SizeClass.drained eraseVacant) =
      (t.class? slot).bind (SizeClass.drained false) := by
    intro slot
    cases hc : t.class? slot with
    | none => rfl
    | some c => simp [SizeClass.drained, hbusy slot c hc]
  have hindex := hr.index_eq
  have hvacant := hr.vacant_eq
  simp only [hsame] at hindex hvacant
  rw [hindex, hvacant, ← (h.drain_result false).index_eq, ← (h.drain_result false).vacant_eq]
  exact h.drain_false

/-- Draining twice is draining once, with idle classes dropped if either drain drops them. -/
theorem drain_drain (eraseVacant eraseVacant' : Bool) :
    ((t.drain eraseVacant).2.drain eraseVacant').2 = (t.drain (eraseVacant || eraseVacant')).2 := by
  have hT := h.drain eraseVacant
  have hclass : ∀ slot, ((t.drain eraseVacant).2.class? slot).bind (SizeClass.drained eraseVacant') =
      (t.class? slot).bind (SizeClass.drained (eraseVacant || eraseVacant')) := by
    intro slot
    rw [h.class?_drain, Option.bind_assoc]
    exact congrArg _ (funext fun c => c.drained_drained eraseVacant eraseVacant')
  have hlists : ((t.drain eraseVacant).2.drain eraseVacant').2.index =
        (t.drain (eraseVacant || eraseVacant')).2.index ∧
      ((t.drain eraseVacant).2.drain eraseVacant').2.vacant =
        (t.drain (eraseVacant || eraseVacant')).2.vacant := by
    cases eraseVacant with
    | false =>
        obtain ⟨hindex, hvacant⟩ := h.drain_false
        rw [(hT.drain_result eraseVacant').index_eq, (hT.drain_result eraseVacant').vacant_eq]
        simp only [hclass, hindex, hvacant]
        exact ⟨((h.drain_result _).index_eq).symm, ((h.drain_result _).vacant_eq).symm⟩
    | true =>
        apply hT.drain_busy
        intro slot d hd
        rw [h.class?_drain, Option.bind_eq_some_iff] at hd
        obtain ⟨c, -, hd⟩ := hd
        unfold SizeClass.drained at hd
        split at hd
        · cases hd
        · next hbusy =>
          cases hd
          exact fun hidle => hbusy ⟨rfl, hidle⟩
  refine ext_of_class? hlists.1 ?_ (fun slot => ?_) hlists.2
  · rw [(hT.drain_result eraseVacant').size_eq, (h.drain_result eraseVacant).size_eq,
      (h.drain_result _).size_eq]
  · rw [hT.class?_drain, hclass, h.class?_drain]

/-- A second drain finds nothing parked, and idle classes only if the first one let them be. -/
theorem drained_again (eraseVacant : Bool) :
    ((t.drain eraseVacant).2.drain eraseVacant).1 = { chunks := 0, classes := 0 } := by
  have hT := h.drain eraseVacant
  have hparked : ((t.drain eraseVacant).2.drain eraseVacant).1.chunks = 0 :=
    (hT.chunks_drain eraseVacant).trans (hT.parked_eq_zero (h.parkedFor_drain eraseVacant))
  have hgone : ((t.drain eraseVacant).2.drain eraseVacant).1.classes = 0 := by
    have hsize := hT.size_drain eraseVacant
    rw [h.drain_drain, Bool.or_self] at hsize
    omega
  cases hreport : ((t.drain eraseVacant).2.drain eraseVacant).1
  simp_all

end Sound

end BlockPool.ClassTable
