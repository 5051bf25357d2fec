import BlockPool.Proofs.ClassTable
import Mathlib.Algebra.BigOperators.Group.List.Basic
import Mathlib.Algebra.GroupWithZero.Nat

/-! Draining a table, entry by entry. As the entries of a sound table name different slots, each
turn finds the class of its entry as it was before the drain, gives back what is parked in it, and
drops it if that is asked for and nothing of it is in use. -/

namespace BlockPool

/-- What a drain leaves of a class. -/
def SizeClass.drained (eraseVacant : Bool) (c : SizeClass) : Option SizeClass :=
  if eraseVacant = true ∧ c.inUse = 0 then none else some { c with cached := {} }

/-- Two drains in a row leave what one drain leaves that drops the class if either of them does. -/
theorem SizeClass.drained_drained (eraseVacant eraseVacant' : Bool) (c : SizeClass) :
    (c.drained eraseVacant).bind (drained eraseVacant') = c.drained (eraseVacant || eraseVacant') := by
  cases eraseVacant <;> cases eraseVacant' <;> by_cases hidle : c.inUse = 0 <;> simp [drained, hidle]

namespace ClassTable

/-- What draining some entries of a table comes to. -/
structure DrainResult (eraseVacant : Bool) (es : List (Nat × Slot)) (t : ClassTable)
    (d : Drained) (T : ClassTable) : Prop where
  index_eq : T.index =
    es.filter fun e => ((t.class? e.2).bind (SizeClass.drained eraseVacant)).isSome
  class?_eq : ∀ slot, T.class? slot =
    if slot ∈ es.map (·.2) then (t.class? slot).bind (SizeClass.drained eraseVacant)
    else t.class? slot
  size_eq : T.slots.size = t.slots.size
  vacant_eq : T.vacant =
    ((es.filter fun e => ((t.class? e.2).bind (SizeClass.drained eraseVacant)).isNone).map
      (·.2)).reverse ++ t.vacant
  chunks_eq : d.chunks =
    ((es.filterMap fun e => t.class? e.2).map fun c => c.cached.chain.length).sum
  classes_eq : d.classes =
    (es.filterMap fun e => t.class? e.2).countP fun c => eraseVacant && decide (c.inUse = 0)

/-- One turn in front of a drain: it changes the slot of its entry, which no later entry names. -/
theorem DrainResult.cons {eraseVacant : Bool} {slot : Slot} {rest : List (Nat × Slot)}
    {t t' T : ClassTable} {d : Drained} {c : SizeClass} (size : Nat) (d' : Drained)
    (hclass : t.class? slot = some c) (hslot : slot ∉ rest.map (·.2))
    (hturn : ∀ other, t'.class? other =
      if other = slot then c.drained eraseVacant else t.class? other)
    (hsize : t'.slots.size = t.slots.size)
    (hvacant : t'.vacant =
      if (c.drained eraseVacant).isNone then slot :: t.vacant else t.vacant)
    (hr : DrainResult eraseVacant rest t' d T)
    (hchunks : d'.chunks = c.cached.chain.length + d.chunks)
    (hclasses : d'.classes = d.classes + if eraseVacant = true ∧ c.inUse = 0 then 1 else 0) :
    DrainResult eraseVacant ((size, slot) :: rest) t d'
      { T with index :=
          if (c.drained eraseVacant).isSome then (size, slot) :: T.index else T.index } := by
  have hsame : ∀ e ∈ rest, t'.class? e.2 = t.class? e.2 := by
    intro e he
    rw [hturn, if_neg]
    intro heq
    exact hslot (heq ▸ List.mem_map_of_mem (f := (·.2)) he)
  have hfound : rest.filterMap (fun e => t'.class? e.2) = rest.filterMap fun e => t.class? e.2 :=
    List.filterMap_congr hsame
  refine ⟨?_, ?_, ?_, ?_, ?_, ?_⟩
  · simp only [hr.index_eq, List.filter_cons, hclass, Option.bind_some]
    rw [List.filter_congr fun e he => by rw [hsame e he]]
  · intro other
    have hother := hr.class?_eq other
    rw [hturn] at hother
    refine hother.trans ?_
    by_cases ho : other = slot
    · subst ho
      rw [if_neg hslot, if_pos rfl, List.map_cons, if_pos List.mem_cons_self, hclass]
      rfl
    · simp only [ho, if_false, List.map_cons, List.mem_cons, false_or]
  · exact hr.size_eq.trans hsize
  · simp only [hr.vacant_eq, hvacant, List.filter_cons, hclass, Option.bind_some]
    rw [List.filter_congr fun e he => by rw [hsame e he]]
    cases c.drained eraseVacant <;> simp
  · rw [hchunks, hr.chunks_eq, hfound, List.filterMap_cons, hclass]
    rfl
  · rw [hclasses, hr.classes_eq, hfound, List.filterMap_cons, hclass]
    simp [List.countP_cons]

/-- One turn of a drain, followed by the turns of the rest. -/
theorem drainEntries_cons {eraseVacant : Bool} {size : Nat} {slot : Slot}
    {rest : List (Nat × Slot)} {t : ClassTable} {c : SizeClass} (hclass : t.class? slot = some c)
    (hc : c.Sound) :
    drainEntries eraseVacant ((size, slot) :: rest) t =
      if eraseVacant = true ∧ c.inUse = 0 then
        let r := drainEntries eraseVacant rest
          { t with slots := t.slots.setIfInBounds slot none, vacant := slot :: t.vacant }
        ({ chunks := c.cached.chain.length + r.1.chunks, classes := r.1.classes + 1 }, r.2)
      else
        let r := drainEntries eraseVacant rest (t.setClass slot { c with cached := {} })
        ({ chunks := c.cached.chain.length + r.1.chunks, classes := r.1.classes },
          { r.2 with index := (size, slot) :: r.2.index }) := by
  have hvacant : SizeClass.isVacant { c with cached := {} } = decide (c.inUse = 0) := by
    simp [SizeClass.isVacant, FreeList.isEmpty]
  rw [drainEntries, hclass]
  simp only [hc.drain, hvacant, Bool.and_eq_true, decide_eq_true_eq]

theorem drainEntries_result (eraseVacant : Bool) (es : List (Nat × Slot)) (t : ClassTable)
    (hslots : (es.map (·.2)).Nodup) (hfound : ∀ e ∈ es, ∃ c, t.class? e.2 = some c ∧ c.Sound) :
    DrainResult eraseVacant es t (drainEntries eraseVacant es t).1
      (drainEntries eraseVacant es t).2 := by
  induction es generalizing t with
  | nil => constructor <;> simp [drainEntries, class?]
  | cons e rest ih =>
      obtain ⟨size, slot⟩ := e
      obtain ⟨c, hclass, hc⟩ := hfound _ List.mem_cons_self
      rw [List.map_cons, List.nodup_cons] at hslots
      have hrest : ∀ t' : ClassTable,
          (∀ other, t'.class? other =
            if other = slot then c.drained eraseVacant else t.class? other) →
          DrainResult eraseVacant rest t' (drainEntries eraseVacant rest t').1
            (drainEntries eraseVacant rest t').2 := by
        intro t' hturn
        refine ih t' hslots.2 ?_
        intro e he
        rw [hturn, if_neg]
        · exact hfound e (List.mem_cons_of_mem _ he)
        · intro heq
          exact hslots.1 (heq ▸ List.mem_map_of_mem (f := (·.2)) he)
      have hlt := lt_size_of_class? hclass
      rw [drainEntries_cons hclass hc]
      by_cases hgone : eraseVacant = true ∧ c.inUse = 0
      · have hdrained : c.drained eraseVacant = none := if_pos hgone
        have hturn : ∀ other, ClassTable.class?
            { t with slots := t.slots.setIfInBounds slot none, vacant := slot :: t.vacant } other =
            if other = slot then c.drained eraseVacant else t.class? other := by
          intro other
          rw [hdrained]
          exact join_setIfInBounds hlt none other
        rw [if_pos hgone]
        have hresult := DrainResult.cons size { chunks := _, classes := _ } hclass hslots.1 hturn
          (by simp) (by simp [hdrained]) (hrest _ hturn) rfl (by rw [if_pos hgone])
        simpa [hdrained] using hresult
      · have hdrained : c.drained eraseVacant = some { c with cached := {} } := if_neg hgone
        have hturn : ∀ other, (t.setClass slot { c with cached := {} }).class? other =
            if other = slot then c.drained eraseVacant else t.class? other := by
          intro other
          rw [hdrained]
          exact class?_setClass hclass
        rw [if_neg hgone]
        have hresult := DrainResult.cons size { chunks := _, classes := _ } hclass hslots.1 hturn
          (by simp [ClassTable.setClass]) (by simp [hdrained, ClassTable.setClass])
          (hrest _ hturn) rfl (by rw [if_neg hgone, Nat.add_zero])
        simpa [hdrained] using hresult

/-- A drain reads the entries that it is given, not those of the table. -/
theorem drainEntries_index (eraseVacant : Bool) (es : List (Nat × Slot)) (t : ClassTable)
    (index : List (Nat × Slot)) :
    drainEntries eraseVacant es { t with index } = drainEntries eraseVacant es t := by
  induction es generalizing t with
  | nil => rfl
  | cons e rest ih =>
      obtain ⟨size, slot⟩ := e
      have hclass : ClassTable.class? { t with index } slot = t.class? slot := rfl
      simp only [drainEntries, hclass]
      cases t.class? slot with
      | none => exact ih t
      | some c =>
          have hkept := ih (t.setClass slot c.drain.2)
          have hgone := ih
            { t with slots := t.slots.setIfInBounds slot none, vacant := slot :: t.vacant }
          simp only [setClass] at hkept ⊢
          simp only [hkept, hgone]

/-- A drain can be cut at any entry: the entries from there on are drained from the table that those
in front leave. -/
theorem drainEntries_append (eraseVacant : Bool) (front back : List (Nat × Slot)) (t : ClassTable) :
    drainEntries eraseVacant (front ++ back) t =
      let first := drainEntries eraseVacant front t
      let second := drainEntries eraseVacant back first.2
      ({ chunks := first.1.chunks + second.1.chunks
         classes := first.1.classes + second.1.classes },
        { second.2 with index := first.2.index ++ second.2.index }) := by
  induction front generalizing t with
  | nil => simp [drainEntries, drainEntries_index]
  | cons e rest ih =>
      obtain ⟨size, slot⟩ := e
      simp only [List.cons_append, drainEntries]
      cases t.class? slot with
      | none => exact ih t
      | some c =>
          simp only [ih]
          split
          · simp only [Prod.mk.injEq, Drained.mk.injEq, and_true]
            omega
          · have hback := drainEntries_index eraseVacant back
              (drainEntries eraseVacant rest (t.setClass slot c.drain.2)).2
              ((size, slot) :: (drainEntries eraseVacant rest (t.setClass slot c.drain.2)).2.index)
            simp only [hback, Nat.add_assoc, List.cons_append]

/-- The drain of the table comes to the turn of an entry when the table has become `T`. -/
def DrainTurn (t : ClassTable) (eraseVacant : Bool) (e : Nat × Slot) (T : ClassTable) : Prop :=
  ∃ front back, t.index = front ++ e :: back ∧ T = (drainEntries eraseVacant front t).2

/-- What is left to do at the turn of an entry is to drain this entry and those behind it. -/
theorem DrainTurn.drain_eq {t T : ClassTable} {eraseVacant : Bool} {e : Nat × Slot}
    (h : t.DrainTurn eraseVacant e T) :
    ∃ (done : Drained) (kept back : List (Nat × Slot)), t.drain eraseVacant =
      let rest := drainEntries eraseVacant (e :: back) T
      ({ chunks := done.chunks + rest.1.chunks, classes := done.classes + rest.1.classes },
        { rest.2 with index := kept ++ rest.2.index }) := by
  obtain ⟨front, back, hindex, rfl⟩ := h
  refine ⟨(drainEntries eraseVacant front t).1, (drainEntries eraseVacant front t).2.index, back,
    ?_⟩
  rw [drain, hindex, drainEntries_append]

namespace Sound

variable {t : ClassTable} (h : t.Sound)

include h

theorem slots_nodup : (t.index.map (·.2)).Nodup := by
  have hindex : t.index.Nodup := h.ascending.imp fun hlt heq => by simp [heq] at hlt
  refine hindex.map_on ?_
  rintro ⟨size, slot⟩ he ⟨size', slot'⟩ he' heq
  obtain ⟨c, hc, hcap⟩ := (h.mem_index_iff size slot).mp he
  obtain ⟨c', hc', hcap'⟩ := (h.mem_index_iff size' slot').mp he'
  simp only at heq
  subst heq
  rw [hc] at hc'
  cases hc'
  rw [← hcap, ← hcap']

theorem mem_slots_iff {slot : Slot} :
    slot ∈ t.index.map (·.2) ↔ ∃ c, t.class? slot = some c := by
  rw [List.mem_map]
  constructor
  · rintro ⟨⟨size, slot'⟩, he, rfl⟩
    obtain ⟨c, hc, -⟩ := (h.mem_index_iff size slot').mp he
    exact ⟨c, hc⟩
  · rintro ⟨c, hc⟩
    exact ⟨(c.capacity, slot), (h.mem_index_iff _ _).mpr ⟨c, hc, rfl⟩, rfl⟩

theorem drain_result (eraseVacant : Bool) :
    DrainResult eraseVacant t.index t (t.drain eraseVacant).1 (t.drain eraseVacant).2 := by
  refine drainEntries_result eraseVacant t.index t h.slots_nodup ?_
  intro e he
  obtain ⟨c, hc⟩ := h.mem_slots_iff.mp (List.mem_map_of_mem (f := (·.2)) he)
  exact ⟨c, hc, h.sound _ c hc⟩

/-- When the turn of an entry comes, its class is there, as it was before the drain. -/
theorem class?_of_turn {eraseVacant : Bool} {e : Nat × Slot} {T : ClassTable}
    (hturn : t.DrainTurn eraseVacant e T) :
    ∃ c, t.class? e.2 = some c ∧ T.class? e.2 = some c := by
  obtain ⟨front, back, hindex, rfl⟩ := hturn
  have hfound : ∀ d ∈ t.index, ∃ c, t.class? d.2 = some c ∧ c.Sound := by
    intro d hd
    obtain ⟨c, hc⟩ := h.mem_slots_iff.mp (List.mem_map_of_mem (f := (·.2)) hd)
    exact ⟨c, hc, h.sound _ c hc⟩
  have hslots := h.slots_nodup
  rw [hindex] at hfound
  rw [hindex, List.map_append, List.map_cons] at hslots
  have hfront := drainEntries_result eraseVacant front t hslots.of_append_left
    fun d hd => hfound d (List.mem_append_left _ hd)
  obtain ⟨c, hc, -⟩ := hfound e (List.mem_append_right front List.mem_cons_self)
  refine ⟨c, hc, ?_⟩
  rw [hfront.class?_eq, if_neg]
  · exact hc
  · intro hslot
    exact (List.nodup_append.mp hslots).2.2 _ hslot _ List.mem_cons_self rfl

theorem class?_drain (eraseVacant : Bool) (slot : Slot) :
    (t.drain eraseVacant).2.class? slot =
      (t.class? slot).bind (SizeClass.drained eraseVacant) := by
  rw [(h.drain_result eraseVacant).class?_eq]
  split
  · rfl
  · next hslot =>
    rw [h.mem_slots_iff, not_exists] at hslot
    rw [Option.eq_none_iff_forall_ne_some.mpr hslot, Option.bind_none]

theorem drain (eraseVacant : Bool) : (t.drain eraseVacant).2.Sound := by
  have hr := h.drain_result eraseVacant
  have hclass := h.class?_drain eraseVacant
  have hkept : ∀ slot d, (t.drain eraseVacant).2.class? slot = some d →
      ∃ c, t.class? slot = some c ∧ d = { c with cached := {} } := by
    intro slot d hd
    rw [hclass, Option.bind_eq_some_iff] at hd
    obtain ⟨c, hc, hd⟩ := hd
    unfold SizeClass.drained at hd
    split at hd
    · cases hd
    · exact ⟨c, hc, (Option.some.inj hd).symm⟩
  refine ⟨?_, ?_, ?_, ?_, ?_, ?_⟩
  · rw [hr.index_eq]
    exact h.ascending.filter _
  · intro size slot
    rw [hr.index_eq, List.mem_filter, h.mem_index_iff, hclass, Option.isSome_iff_exists]
    constructor
    · rintro ⟨⟨c, hc, hcap⟩, d, hd⟩
      refine ⟨d, hd, ?_⟩
      obtain ⟨c', hc', rfl⟩ := hkept slot d ((hclass slot).trans hd)
      rw [hc] at hc'
      cases hc'
      exact hcap
    · rintro ⟨d, hd, hcap⟩
      obtain ⟨c, hc, rfl⟩ := hkept slot d ((hclass slot).trans hd)
      exact ⟨⟨c, hc, hcap⟩, _, hd⟩
  · intro slot d hd
    obtain ⟨c, hc, rfl⟩ := hkept slot d hd
    exact h.slot_eq slot c hc
  · intro slot d hd
    obtain ⟨c, hc, rfl⟩ := hkept slot d hd
    exact SizeClass.Sound.of_empty rfl
  · rw [hr.vacant_eq]
    refine List.Nodup.append ?_ h.vacant_nodup ?_
    · rw [List.nodup_reverse]
      exact h.slots_nodup.sublist (List.filter_sublist.map _)
    · intro slot hslot hvacant
      rw [List.mem_reverse, List.mem_map] at hslot
      obtain ⟨e, he, rfl⟩ := hslot
      obtain ⟨c, hc⟩ :=
        h.mem_slots_iff.mp (List.mem_map_of_mem (f := (·.2)) (List.mem_of_mem_filter he))
      rw [((h.mem_vacant_iff _).mp hvacant).2] at hc
      cases hc
  · intro slot
    rw [hr.vacant_eq, List.mem_append, List.mem_reverse, h.mem_vacant_iff, hr.size_eq, hclass]
    constructor
    · rintro (hslot | ⟨hlt, hnone⟩)
      · obtain ⟨e, he, rfl⟩ := List.mem_map.mp hslot
        rw [List.mem_filter] at he
        obtain ⟨c, hc⟩ := h.mem_slots_iff.mp (List.mem_map_of_mem (f := (·.2)) he.1)
        exact ⟨lt_size_of_class? hc, Option.isNone_iff_eq_none.mp he.2⟩
      · exact ⟨hlt, by rw [hnone]; rfl⟩
    · rintro ⟨hlt, hnone⟩
      cases hc : t.class? slot with
      | none => exact Or.inr ⟨hlt, rfl⟩
      | some c =>
          left
          obtain ⟨e, he, rfl⟩ := List.mem_map.mp (h.mem_slots_iff.mpr ⟨c, hc⟩)
          exact List.mem_map_of_mem
            (List.mem_filter.mpr ⟨he, Option.isNone_iff_eq_none.mpr hnone⟩)

theorem classFor?_drain (eraseVacant : Bool) (size : Nat) :
    (t.drain eraseVacant).2.classFor? size =
      (t.classFor? size).bind (SizeClass.drained eraseVacant) := by
  ext d
  rw [(h.drain eraseVacant).classFor?_eq_some_iff, h.class?_drain, Option.bind_eq_some_iff,
    Option.bind_eq_some_iff]
  have hfields : ∀ c : SizeClass, c.drained eraseVacant = some d →
      d.slot = c.slot ∧ d.capacity = c.capacity := by
    intro c hd
    unfold SizeClass.drained at hd
    split at hd
    · cases hd
    · cases hd
      exact ⟨rfl, rfl⟩
  constructor
  · rintro ⟨⟨c, hc, hd⟩, hcap⟩
    obtain ⟨-, hcap'⟩ := hfields c hd
    refine ⟨c, ?_, hd⟩
    exact (hcap'.symm.trans hcap) ▸ (h.class?_eq_some_iff.mp hc).1
  · rintro ⟨c, hc, hd⟩
    obtain ⟨hslot, hcap⟩ := hfields c hd
    obtain ⟨hclass, hsize⟩ := h.classFor?_eq_some_iff.mp hc
    exact ⟨⟨c, hslot ▸ hclass, hd⟩, hcap.trans hsize⟩

theorem chunks_drain (eraseVacant : Bool) :
    (t.drain eraseVacant).1.chunks = (t.classes.map fun c => c.cached.chain.length).sum :=
  (h.drain_result eraseVacant).chunks_eq

theorem classes_drain (eraseVacant : Bool) :
    (t.drain eraseVacant).1.classes =
      t.classes.countP fun c => eraseVacant && decide (c.inUse = 0) :=
  (h.drain_result eraseVacant).classes_eq

end Sound

end ClassTable

end BlockPool
