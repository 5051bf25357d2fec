import BlockPool.Proofs.ClassTable.Redrain

/-! A sound table as a finite map from sizes to classes, and the slots that it needs for that. The index
and the vacant list together name every slot once. So there are as many slots as classes and vacant slots,
and making a class adds a slot only when every slot is taken: no step that keeps the slots makes more of
them than there ever were classes. -/

namespace BlockPool.ClassTable

/-- Where the classes of a table are. -/
structure Layout (t : ClassTable) : Prop where
  /-- Each size has a slot of its own, with a class of this capacity in it that bears its number. -/
  placed : ∀ size slot, t.find? size = some slot → slot < t.slots.size ∧
    ∃ c, t.class? slot = some c ∧ c.capacity = size ∧ c.slot = slot
  distinct : ∀ size size' slot, t.find? size = some slot → t.find? size' = some slot → size = size'
  named : ∀ slot c, t.class? slot = some c → ∃! size, t.find? size = some slot
  vacant_nodup : t.vacant.Nodup
  mem_vacant_iff : ∀ slot, slot ∈ t.vacant ↔ slot < t.slots.size ∧ t.class? slot = none

/-- What it is to make sure that a size has a class. -/
structure Ensured (t : ClassTable) (size : Nat) (slot : Slot) (isNew : Bool) (T : ClassTable) :
    Prop where
  new_iff : isNew = true ↔ size ∉ t.sizes
  found : T.find? size = some slot
  same : isNew = false → T = t
  blank : isNew = true → T.classFor? size = some { slot, capacity := size }
  others : ∀ other ≠ size, T.find? other = t.find? other ∧ T.classFor? other = t.classFor? other

/-- What it is to take the class of a size out of a table. -/
structure Erased (t : ClassTable) (size : Nat) (c : Option SizeClass) (T : ClassTable) : Prop where
  taken : c = t.classFor? size
  found_iff : c.isSome = true ↔ size ∈ t.sizes
  gone : T.find? size = none
  same : c = none → T = t
  others : ∀ other ≠ size, T.find? other = t.find? other ∧ T.classFor? other = t.classFor? other

/-- What it is to take all classes out of a table. -/
structure TakenAll (t : ClassTable) (cs : List SizeClass) (T : ClassTable) : Prop where
  sizes : cs.map (·.capacity) = t.sizes
  ascending : cs.Pairwise (·.capacity < ·.capacity)
  all : ∀ slot c, t.class? slot = some c ↔ c ∈ cs ∧ c.slot = slot
  empty : T = {}

/-- A table is used as a finite map from sizes to classes. -/
structure ActsAsMap (t : ClassTable) : Prop where
  size_eq : t.size = t.sizes.length
  ascending : t.sizes.Pairwise (· < ·)
  find_iff : ∀ size, (t.find? size).isSome = true ↔ size ∈ t.sizes
  ensure : ∀ size, t.Ensured size (t.ensure size).1 (t.ensure size).2.1 (t.ensure size).2.2
  erase : ∀ size, t.Erased size (t.erase size).1 (t.erase size).2
  takeAll : t.TakenAll t.takeAll.1 t.takeAll.2

namespace Sound

variable {t T : ClassTable} (h : t.Sound)

include h

/-! ### The slots -/

/-- The index and the vacant list name every slot once between them. -/
theorem perm_slots : (t.index.map (·.2) ++ t.vacant).Perm (List.range t.slots.size) := by
  have hdisjoint : (t.index.map (·.2)).Disjoint t.vacant := by
    intro slot hslot hvacant
    obtain ⟨c, hc⟩ := h.mem_slots_iff.mp hslot
    cases hc.symm.trans ((h.mem_vacant_iff slot).mp hvacant).2
  rw [List.perm_ext_iff_of_nodup (h.slots_nodup.append h.vacant_nodup hdisjoint) List.nodup_range]
  intro slot
  rw [List.mem_append, h.mem_slots_iff, h.mem_vacant_iff, List.mem_range]
  constructor
  · rintro (⟨c, hc⟩ | ⟨hlt, -⟩)
    · exact lt_size_of_class? hc
    · exact hlt
  · intro hlt
    cases hc : t.class? slot with
    | none => exact Or.inr ⟨hlt, rfl⟩
    | some c => exact Or.inl ⟨c, rfl⟩

theorem size_slots : t.slots.size = t.size + t.vacant.length := by
  have hlength := h.perm_slots.length_eq
  rw [List.length_append, List.length_map, List.length_range] at hlength
  exact hlength.symm

theorem size_le_slots : t.size ≤ t.slots.size := by
  rw [h.size_slots]
  exact Nat.le_add_right _ _

theorem layout : t.Layout where
  placed size slot hfind := by
    obtain ⟨c, hc, hcap⟩ := h.find?_eq_some_iff.mp hfind
    exact ⟨lt_size_of_class? hc, c, hc, hcap, h.slot_eq slot c hc⟩
  distinct size size' slot hfind hfind' := by
    obtain ⟨c, hc, rfl⟩ := h.find?_eq_some_iff.mp hfind
    obtain ⟨c', hc', rfl⟩ := h.find?_eq_some_iff.mp hfind'
    cases hc.symm.trans hc'
    rfl
  named slot c hc := by
    refine ⟨c.capacity, h.find?_eq_some_iff.mpr ⟨c, hc, rfl⟩, fun size hfind => ?_⟩
    obtain ⟨c', hc', rfl⟩ := h.find?_eq_some_iff.mp hfind
    cases hc.symm.trans hc'
    rfl
  vacant_nodup := h.vacant_nodup
  mem_vacant_iff := h.mem_vacant_iff

/-! ### The map -/

/-- The index translates a size into the slot of its class. -/
theorem find?_eq (size : Nat) : t.find? size = (t.classFor? size).map (·.slot) := by
  ext slot
  rw [h.find?_eq_some_iff, Option.map_eq_some_iff]
  constructor
  · rintro ⟨c, hc, hcap⟩
    obtain ⟨hfor, hslot⟩ := h.class?_eq_some_iff.mp hc
    exact ⟨c, hcap ▸ hfor, hslot⟩
  · rintro ⟨c, hfor, rfl⟩
    exact ⟨c, h.classFor?_eq_some_iff.mp hfor⟩

theorem mem_sizes_iff_find? (size : Nat) : (t.find? size).isSome = true ↔ size ∈ t.sizes := by
  rw [← h.classFor?_isSome, h.mem_sizes_iff, Option.isSome_iff_exists]

/-- A step that changes the class of one size leaves the others where they are. -/
theorem others_of_update (hT : T.Sound) {size : Nat} {c : Option SizeClass}
    (hafter : T.classFor? = Function.update t.classFor? size c) {other : Nat} (hne : other ≠ size) :
    T.find? other = t.find? other ∧ T.classFor? other = t.classFor? other := by
  have hother : T.classFor? other = t.classFor? other := by
    rw [hafter, Function.update_of_ne hne]
  refine ⟨?_, hother⟩
  rw [hT.find?_eq, h.find?_eq, hother]

theorem sound_ensure (size : Nat) : (t.ensure size).2.2.Sound := by
  cases hfind : t.find? size with
  | some slot =>
      rw [ClassTable.ensure, hfind]
      exact h
  | none =>
      obtain ⟨slot, T, hensure, hT, -⟩ := h.ensure_of_none hfind
      rw [hensure]
      exact hT

theorem ensured (size : Nat) :
    t.Ensured size (t.ensure size).1 (t.ensure size).2.1 (t.ensure size).2.2 := by
  cases hfind : t.find? size with
  | some slot =>
      have hmem : size ∈ t.sizes := (h.mem_sizes_iff_find? size).mp (by rw [hfind]; rfl)
      have hensure : t.ensure size = (slot, false, t) := by rw [ClassTable.ensure, hfind]
      rw [hensure]
      refine ⟨by simp [hmem], hfind, fun _ => rfl, fun hnew => ?_, fun _ _ => ⟨rfl, rfl⟩⟩
      cases hnew
  | none =>
      have hnot : size ∉ t.sizes := by
        rw [← h.mem_sizes_iff_find?, hfind]
        simp
      obtain ⟨slot, T, hensure, hT, -, -, hafter⟩ := h.ensure_of_none hfind
      have hnew : T.classFor? size = some { slot, capacity := size } := by
        rw [hafter, Function.update_self]
      rw [hensure]
      refine ⟨by simp [hnot], ?_, fun hold => ?_, fun _ => hnew, fun other hne => ?_⟩
      · rw [hT.find?_eq, hnew]
        rfl
      · cases hold
      · exact h.others_of_update hT hafter hne

theorem sound_erase (size : Nat) : (t.erase size).2.Sound := by
  cases hc : t.classFor? size with
  | none =>
      rw [ClassTable.erase, h.classFor?_eq_none_iff.mp hc]
      exact h
  | some c => exact (h.erase_of_class? hc).2.1

theorem erased (size : Nat) : t.Erased size (t.erase size).1 (t.erase size).2 := by
  cases hc : t.classFor? size with
  | none =>
      have hfind := h.classFor?_eq_none_iff.mp hc
      have herase : t.erase size = (none, t) := by rw [ClassTable.erase, hfind]
      rw [herase]
      refine ⟨hc.symm, ?_, hfind, fun _ => rfl, fun _ _ => ⟨rfl, rfl⟩⟩
      rw [← h.mem_sizes_iff_find?, hfind]
      rfl
  | some c =>
      obtain ⟨htaken, hT, hafter⟩ := h.erase_of_class? hc
      have hmem : size ∈ t.sizes := h.mem_sizes_iff.mpr ⟨c, hc⟩
      refine ⟨htaken.trans hc.symm, by simp [htaken, hmem], ?_, ?_, fun other hne => ?_⟩
      · rw [hT.find?_eq, hafter, Function.update_self]
        rfl
      · intro hnone
        cases htaken.symm.trans hnone
      · exact h.others_of_update hT hafter hne

theorem takenAll : t.TakenAll t.takeAll.1 t.takeAll.2 := by
  have hascending := h.sizes_pairwise
  rw [← h.map_capacity, List.pairwise_map] at hascending
  refine ⟨h.map_capacity, hascending, fun slot c => ?_, rfl⟩
  show t.class? slot = some c ↔ c ∈ t.classes ∧ c.slot = slot
  rw [h.mem_classes_iff]
  exact h.class?_eq_some_iff

theorem actsAsMap : t.ActsAsMap where
  size_eq := (List.length_map _).symm
  ascending := h.sizes_pairwise
  find_iff := h.mem_sizes_iff_find?
  ensure := h.ensured
  erase := h.erased
  takeAll := h.takenAll

/-! ### How many slots there are -/

/-- A new slot is made only when there are more classes than there were slots. -/
theorem size_slots_ensure (size : Nat) : (t.ensure size).2.2.slots.size =
    max t.slots.size (t.ensure size).2.2.size := by
  have hle := (h.sound_ensure size).size_le_slots
  have hslots := (h.sound_ensure size).size_slots
  revert hle hslots
  unfold ClassTable.ensure
  cases t.find? size with
  | some slot =>
      intro hle _
      exact (max_eq_left hle).symm
  | none =>
      cases hvacant : t.vacant with
      | nil =>
          intro _ hslots
          simp only [List.length_nil, Array.size_push] at hslots ⊢
          omega
      | cons slot vacant =>
          intro hle _
          simp only [Array.size_setIfInBounds] at hle ⊢
          omega

end Sound

theorem size_slots_erase (t : ClassTable) (size : Nat) :
    (t.erase size).2.slots.size = t.slots.size := by
  unfold erase
  cases t.find? size with
  | none => rfl
  | some slot => exact Array.size_setIfInBounds

end BlockPool.ClassTable
