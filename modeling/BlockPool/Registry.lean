/-! Registries: values that come and go under handles that are never given twice. A handle answers
the value that was entered under it until that value is removed, and nothing from then on. -/

namespace BlockPool

/-- The name under which a registry keeps a value. -/
structure Handle (α : Type) where
  index : Nat
  deriving Inhabited

instance {α : Type} : DecidableEq (Handle α) := fun a b =>
  decidable_of_iff (a.index = b.index) (by cases a; cases b; simp)

structure Registry (α : Type) where
  /-- What was entered, in order; the values that were removed leave a gap. -/
  entries : Array (Option α) := #[]
  deriving Inhabited

namespace Registry

variable {α : Type}

def get? (r : Registry α) (h : Handle α) : Option α := r.entries[h.index]?.join

/-- Enters a value under a handle of its own. -/
def add (r : Registry α) (a : α) : Handle α × Registry α :=
  ({ index := r.entries.size }, { entries := r.entries.push (some a) })

/-- Replaces a value; the handle must have been given out. -/
def set (r : Registry α) (h : Handle α) (a : α) : Registry α :=
  { entries := r.entries.setIfInBounds h.index (some a) }

def remove (r : Registry α) (h : Handle α) : Registry α :=
  { entries := r.entries.setIfInBounds h.index none }

/-- The values that are there, in the order in which they were entered. -/
def toList (r : Registry α) : List α := r.entries.toList.filterMap id

/-- The handles of the values that are there, in the order in which they were given. -/
def handles (r : Registry α) : List (Handle α) :=
  (List.range r.entries.size).filterMap fun index =>
    if (r.get? { index }).isSome then some { index } else none

theorem lt_size_of_get? {r : Registry α} {h : Handle α} {a : α} (ha : r.get? h = some a) :
    h.index < r.entries.size := by
  by_cases hs : h.index < r.entries.size
  · exact hs
  · simp [get?, Array.getElem?_eq_none (Nat.le_of_not_lt hs)] at ha

@[simp] theorem get?_empty (h : Handle α) : ({} : Registry α).get? h = none := rfl

theorem get?_add {r : Registry α} {a : α} {h : Handle α} :
    (r.add a).2.get? h = if h = (r.add a).1 then some a else r.get? h := by
  obtain ⟨i⟩ := h
  simp only [get?, add, Array.getElem?_push, Handle.mk.injEq]
  split <;> simp

@[simp] theorem toList_add (r : Registry α) (a : α) : (r.add a).2.toList = r.toList ++ [a] := by
  simp [toList, add]

theorem mem_toList_iff {r : Registry α} {a : α} : a ∈ r.toList ↔ ∃ h, r.get? h = some a := by
  simp only [toList, List.mem_filterMap, id_eq, exists_eq_right, Array.mem_toList_iff,
    Array.mem_iff_getElem?]
  constructor
  · rintro ⟨i, hi⟩
    exact ⟨⟨i⟩, by simp [get?, hi]⟩
  · rintro ⟨⟨i⟩, hi⟩
    exact ⟨i, by simpa [get?, Option.join_eq_some_iff] using hi⟩

theorem get?_add_self_eq_none {r : Registry α} {a : α} : r.get? (r.add a).1 = none := by
  simp [get?, add]

theorem get?_set {r : Registry α} {h k : Handle α} {a old : α} (hk : r.get? k = some old) :
    (r.set k a).get? h = if h = k then some a else r.get? h := by
  have hs := lt_size_of_get? hk
  obtain ⟨i⟩ := h
  obtain ⟨j⟩ := k
  by_cases hij : i = j
  · subst hij; simp_all [get?, set]
  · simp [get?, set, hij, Array.getElem?_setIfInBounds_ne (Ne.symm hij)]

theorem get?_remove {r : Registry α} {h k : Handle α} :
    (r.remove k).get? h = if h = k then none else r.get? h := by
  obtain ⟨i⟩ := h
  obtain ⟨j⟩ := k
  by_cases hij : i = j
  · subst hij
    by_cases hs : i < r.entries.size <;> simp [get?, remove, hs]
  · simp [get?, remove, hij, Array.getElem?_setIfInBounds_ne (Ne.symm hij)]

end Registry

end BlockPool
