import BlockPool.Registry
import Mathlib.Algebra.BigOperators.Group.List.Basic
import Mathlib.Tactic.Abel

/-! What a registry contains after each operation, in the order in which values were entered.
Replacing or removing a value touches one place of that order and nothing else, so sums and counts
over the values move by what happens at that place. A registry can also be read through a function
on its values; handles then keep their numbers, and every operation commutes with the reading. -/

namespace BlockPool

namespace Handle

variable {α β γ : Type}

/-- The handle with the same number for values of another type. -/
def as (β : Type) (h : Handle α) : Handle β := { index := h.index }

@[simp] theorem as_as (h : Handle α) : (h.as β).as γ = h.as γ := rfl

@[simp] theorem as_self (h : Handle α) : h.as α = h := rfl

theorem as_inj {h k : Handle α} : h.as β = k.as β ↔ h = k := by
  obtain ⟨i⟩ := h
  obtain ⟨j⟩ := k
  simp [as]

end Handle

namespace Registry

variable {α β : Type}

theorem entries_getElem {r : Registry α} {k : Handle α} {old : α} (hk : r.get? k = some old) :
    r.entries.toList[k.index]? = some (some old) := by
  have hjoin : r.entries[k.index]?.join = some old := hk
  rw [Option.join_eq_some_iff] at hjoin
  rw [Array.getElem?_toList]
  exact hjoin

/-- A value stands at one place in the order of entry, all that `set` and `remove` touch. -/
theorem exists_split {r : Registry α} {k : Handle α} {old : α} (hk : r.get? k = some old) :
    ∃ front back, r.toList = front ++ old :: back ∧ (r.remove k).toList = front ++ back ∧
      ∀ a, (r.set k a).toList = front ++ a :: back := by
  have hentry := entries_getElem hk
  obtain ⟨hlt, hval⟩ := List.getElem?_eq_some_iff.mp hentry
  refine ⟨(r.entries.toList.take k.index).filterMap id,
    (r.entries.toList.drop (k.index + 1)).filterMap id, ?_, ?_, ?_⟩
  · have hsplit : r.entries.toList =
        r.entries.toList.take k.index ++ some old :: r.entries.toList.drop (k.index + 1) := by
      rw [← hval, List.cons_getElem_drop_succ, List.take_append_drop]
    unfold toList
    conv_lhs => rw [hsplit]
    simp
  · simp only [toList, remove, Array.toList_setIfInBounds, List.set_eq_take_append_cons_drop,
      if_pos hlt]
    simp
  · intro a
    simp only [toList, set, Array.toList_setIfInBounds, List.set_eq_take_append_cons_drop,
      if_pos hlt]
    simp

/-- Putting back the value that is there changes nothing. -/
theorem set_of_get? {r : Registry α} {k : Handle α} {a : α} (hk : r.get? k = some a) :
    r.set k a = r := by
  have hjoin : r.entries[k.index]?.join = some a := hk
  rw [Option.join_eq_some_iff, Array.getElem?_eq_some_iff] at hjoin
  obtain ⟨hlt, hval⟩ := hjoin
  rw [set, Array.setIfInBounds_def, dif_pos hlt, ← hval, Array.set_getElem_self]

/-- Of two values put in one place the later one stays. -/
theorem set_set (r : Registry α) (k : Handle α) (a b : α) : (r.set k a).set k b = r.set k b := by
  simp [set]

/-- Removing what is not there changes nothing. -/
theorem remove_of_get?_none {r : Registry α} {k : Handle α} (hk : r.get? k = none) :
    r.remove k = r := by
  have hjoin : r.entries[k.index]?.join = none := hk
  rw [remove, Array.setIfInBounds_def]
  split
  · next hlt =>
    rw [Array.getElem?_eq_getElem hlt, Option.join_some] at hjoin
    rw [← hjoin, Array.set_getElem_self]
  · rfl

theorem get?_removes (r : Registry α) (ks : List (Handle α)) (h : Handle α) :
    (ks.foldl remove r).get? h = if h ∈ ks then none else r.get? h := by
  induction ks generalizing r with
  | nil => simp
  | cons k rest ih =>
      rw [List.foldl_cons, ih, get?_remove]
      by_cases hk : h = k <;> simp [hk]

theorem size_removes (r : Registry α) (ks : List (Handle α)) :
    (ks.foldl remove r).entries.size = r.entries.size := by
  induction ks generalizing r with
  | nil => rfl
  | cons k rest ih => exact (ih (r.remove k)).trans Array.size_setIfInBounds

/-- The handle was given out, and its value is there no more. -/
def Gone (r : Registry α) (h : Handle α) : Prop := h.index < r.entries.size ∧ r.get? h = none

theorem Gone.add {r : Registry α} {h : Handle α} (hgone : r.Gone h) (a : α) :
    (r.add a).2.Gone h := by
  have hne : h ≠ (r.add a).1 := by
    rintro rfl
    exact Nat.lt_irrefl _ hgone.1
  refine ⟨?_, get?_add.trans ((if_neg hne).trans hgone.2)⟩
  exact (Nat.lt_succ_of_lt hgone.1).trans_eq (Array.size_push _).symm

theorem Gone.set {r : Registry α} {h k : Handle α} {old : α} (hgone : r.Gone h)
    (hk : r.get? k = some old) (a : α) : (r.set k a).Gone h := by
  have hne : h ≠ k := by
    rintro rfl
    cases hgone.2.symm.trans hk
  exact ⟨hgone.1.trans_eq Array.size_setIfInBounds.symm,
    (get?_set hk).trans ((if_neg hne).trans hgone.2)⟩

theorem Gone.removes {r : Registry α} {h : Handle α} (hgone : r.Gone h) (ks : List (Handle α)) :
    (ks.foldl remove r).Gone h := by
  refine ⟨hgone.1.trans_eq (r.size_removes ks).symm, ?_⟩
  rw [get?_removes, hgone.2, ite_self]

section Sums

variable {M : Type} [AddCommMonoid M] (f : α → M)

theorem sum_add (r : Registry α) (a : α) :
    ((r.add a).2.toList.map f).sum = (r.toList.map f).sum + f a := by
  simp

theorem sum_set {r : Registry α} {k : Handle α} {old : α} (hk : r.get? k = some old) (a : α) :
    ((r.set k a).toList.map f).sum + f old = (r.toList.map f).sum + f a := by
  obtain ⟨front, back, hlist, -, hset⟩ := exists_split hk
  rw [hset, hlist]
  simp only [List.map_append, List.map_cons, List.sum_append, List.sum_cons]
  abel

theorem sum_remove {r : Registry α} {k : Handle α} {old : α} (hk : r.get? k = some old) :
    ((r.remove k).toList.map f).sum + f old = (r.toList.map f).sum := by
  obtain ⟨front, back, hlist, hremove, -⟩ := exists_split hk
  rw [hremove, hlist]
  simp only [List.map_append, List.map_cons, List.sum_append, List.sum_cons]
  abel

end Sums

section Counts

variable (q : α → Bool)

theorem countP_add (r : Registry α) (a : α) :
    (r.add a).2.toList.countP q = r.toList.countP q + if q a then 1 else 0 := by
  simp

theorem countP_set {r : Registry α} {k : Handle α} {old a : α} (hk : r.get? k = some old)
    (hq : q a = q old) : (r.set k a).toList.countP q = r.toList.countP q := by
  obtain ⟨front, back, hlist, -, hset⟩ := exists_split hk
  rw [hset, hlist, List.countP_append, List.countP_append, List.countP_cons, List.countP_cons, hq]

theorem countP_remove {r : Registry α} {k : Handle α} {old : α} (hk : r.get? k = some old) :
    (r.remove k).toList.countP q + (if q old then 1 else 0) = r.toList.countP q := by
  obtain ⟨front, back, hlist, hremove, -⟩ := exists_split hk
  rw [hremove, hlist, List.countP_append, List.countP_append, List.countP_cons]
  omega

end Counts

theorem mem_toList_of_get? {r : Registry α} {k : Handle α} {a : α} (hk : r.get? k = some a) :
    a ∈ r.toList :=
  mem_toList_iff.mpr ⟨k, hk⟩

theorem mem_of_mem_remove {r : Registry α} {k : Handle α} {a : α} (ha : a ∈ (r.remove k).toList) :
    a ∈ r.toList := by
  obtain ⟨h, hh⟩ := mem_toList_iff.mp ha
  rw [get?_remove] at hh
  split at hh
  · cases hh
  · exact mem_toList_of_get? hh

theorem eq_or_mem_of_mem_set {r : Registry α} {k : Handle α} {old a : α} (hk : r.get? k = some old)
    {b : α} (hb : b ∈ (r.set k a).toList) : b = a ∨ b ∈ r.toList := by
  obtain ⟨h, hh⟩ := mem_toList_iff.mp hb
  rw [get?_set hk] at hh
  split at hh
  · exact Or.inl (Option.some.inj hh).symm
  · exact Or.inr (mem_toList_of_get? hh)

/-! ### Registries read through a function -/

section Reading

variable (f : α → β)

/-- The registry of what `f` makes of the values, under the same numbers. -/
def map (r : Registry α) : Registry β := { entries := r.entries.map (Option.map f) }

theorem get?_map (r : Registry α) (h : Handle α) :
    (r.map f).get? (h.as β) = (r.get? h).map f := by
  simp only [get?, map, Handle.as, Array.getElem?_map]
  rcases r.entries[h.index]? with _ | _ | a <;> rfl

theorem map_add (r : Registry α) (a : α) :
    (r.map f).add (f a) = ((r.add a).1.as β, (r.add a).2.map f) := by
  simp [add, map, Handle.as]

theorem map_set (r : Registry α) (h : Handle α) (a : α) :
    (r.map f).set (h.as β) (f a) = (r.set h a).map f := by
  simp [set, map, Handle.as]

theorem map_remove (r : Registry α) (h : Handle α) :
    (r.map f).remove (h.as β) = (r.remove h).map f := by
  simp [remove, map, Handle.as]

theorem toList_map (r : Registry α) : (r.map f).toList = r.toList.map f := by
  simp only [toList, map, Array.toList_map, List.filterMap_map, List.map_filterMap]
  rfl

end Reading

end Registry

end BlockPool
