import BlockPool.Proofs.ClassTable.Drain
import BlockPool.Proofs.ClassTable.Service

/-! What the counters of a sound table say after each operation. Handing out a chunk counts one more
in use and one less parked, if any was; taking one back turns that around; a drain parks nothing any
more and leaves the chunks in use alone. -/

namespace BlockPool.ClassTable

/-- How many chunks of this size are parked, by the length on record. -/
def cachedFor (t : ClassTable) (size : Nat) : Nat := ((t.classFor? size).map (·.cached.len)).getD 0

variable {t T : ClassTable} {size : Nat}

theorem Sound.cachedFor_eq (h : t.Sound) (size : Nat) :
    t.cachedFor size = (t.parkedFor size).length := by
  unfold cachedFor parkedFor
  cases hc : t.classFor? size with
  | none => rfl
  | some c =>
      show c.cached.len = c.cached.chain.length
      exact (h.sound _ c (h.classFor?_eq_some_iff.mp hc).1).counted

theorem cachedFor_of_update {c : SizeClass}
    (hafter : T.classFor? = Function.update t.classFor? size (some c)) :
    T.cachedFor = Function.update t.cachedFor size c.cached.len :=
  getD_of_update _ _ hafter

theorem Sound.mem_sizes_of_update (h : t.Sound) (hT : T.Sound) {c : SizeClass}
    (hafter : T.classFor? = Function.update t.classFor? size (some c)) {other : Nat} :
    other ∈ T.sizes ↔ other = size ∨ other ∈ t.sizes := by
  rw [hT.mem_sizes_iff, h.mem_sizes_iff, hafter]
  by_cases ho : other = size
  · subst ho
    simp
  · simp [ho]

/-- A size of which something is in use has a class. -/
theorem Sound.mem_sizes_of_inUseFor (h : t.Sound) (huse : t.inUseFor size ≠ 0) :
    size ∈ t.sizes := by
  rw [h.mem_sizes_iff, ← Option.ne_none_iff_exists']
  exact fun hnone => huse (inUseFor_of_none hnone)

namespace CheckedOut

variable {heap heap' : Heap} {chunk : Chunk} {supply : Supply}

theorem inUseFor_eq (hout : CheckedOut t heap size (some (chunk, supply)) T heap') (h : t.Sound) :
    T.inUseFor = Function.update t.inUseFor size (t.inUseFor size + 1) := by
  obtain ⟨c, hafter, huse, -, -, -⟩ := hout.served h
  rw [inUseFor_of_update hafter, huse]

/-- Whether or not something was parked, truncated subtraction says what is parked afterwards. -/
theorem cachedFor_eq (hout : CheckedOut t heap size (some (chunk, supply)) T heap')
    (h : t.Sound) : T.cachedFor = Function.update t.cachedFor size (t.cachedFor size - 1) := by
  cases hout with
  | @hit c _ rest _ found pop after =>
      have hcounted := (h.sound _ c (h.classFor?_eq_some_iff.mp found).1).counted
      have hlen : t.cachedFor size = rest.len + 1 := by
        rw [cachedFor, found]
        exact (hcounted.pop pop).2
      rw [cachedFor_of_update after, hlen]
      rfl
  | @miss c _ granted parked capacity in_use empty found new after =>
      have hzero : t.cachedFor size = 0 := by
        rw [h.cachedFor_eq, parked]
        rfl
      rw [cachedFor_of_update after, hzero, SizeClass.afterMiss, empty]

theorem grants_eq {out : Option (Chunk × Supply)} (hout : CheckedOut t heap size out T heap') :
    heap'.grants = heap.grants := by
  cases hout with
  | hit | miss | refused => rfl

theorem mem_sizes_iff (hout : CheckedOut t heap size (some (chunk, supply)) T heap')
    (h : t.Sound) (hT : T.Sound) {other : Nat} :
    other ∈ T.sizes ↔ other = size ∨ other ∈ t.sizes := by
  obtain ⟨c, hafter, -, -, -, -⟩ := hout.served h
  exact h.mem_sizes_of_update hT hafter

end CheckedOut

section Checkin

variable {c : SizeClass} {chunk : Chunk} (hc : t.classFor? size = some c)
  (hafter : T.classFor? = Function.update t.classFor? size (some (c.checkin chunk)))

include hc hafter

theorem inUseFor_of_checkin :
    T.inUseFor = Function.update t.inUseFor size (t.inUseFor size - 1) := by
  rw [inUseFor_of_update hafter, inUseFor_of_classFor? hc]
  rfl

theorem cachedFor_of_checkin :
    T.cachedFor = Function.update t.cachedFor size (t.cachedFor size + 1) := by
  rw [cachedFor_of_update hafter, cachedFor, hc]
  rfl

theorem Sound.mem_sizes_of_checkin (h : t.Sound) (hT : T.Sound) {other : Nat} :
    other ∈ T.sizes ↔ other ∈ t.sizes := by
  rw [h.mem_sizes_of_update hT hafter, or_iff_right_iff_imp]
  rintro rfl
  exact h.mem_sizes_iff.mpr ⟨c, hc⟩

end Checkin

namespace Sound

variable (h : t.Sound) (eraseVacant : Bool) (size : Nat)

include h

theorem inUseFor_drain : (t.drain eraseVacant).2.inUseFor size = t.inUseFor size := by
  rw [inUseFor, inUseFor, h.classFor?_drain]
  cases t.classFor? size with
  | none => rfl
  | some c =>
      by_cases hgone : eraseVacant = true ∧ c.inUse = 0
      · simp [SizeClass.drained, hgone]
      · simp [SizeClass.drained, hgone]

theorem parkedFor_drain : (t.drain eraseVacant).2.parkedFor size = [] := by
  rw [parkedFor, h.classFor?_drain]
  cases t.classFor? size with
  | none => rfl
  | some c =>
      by_cases hgone : eraseVacant = true ∧ c.inUse = 0
      · simp [SizeClass.drained, hgone]
      · simp [SizeClass.drained, hgone]

theorem cachedFor_drain : (t.drain eraseVacant).2.cachedFor size = 0 := by
  rw [(h.drain eraseVacant).cachedFor_eq, h.parkedFor_drain]
  rfl

theorem mem_sizes_drain : size ∈ (t.drain eraseVacant).2.sizes ↔
    size ∈ t.sizes ∧ (eraseVacant = true → t.inUseFor size ≠ 0) := by
  rw [(h.drain eraseVacant).mem_sizes_iff, h.mem_sizes_iff, inUseFor, h.classFor?_drain]
  cases t.classFor? size with
  | none => simp
  | some c =>
      by_cases hgone : eraseVacant = true ∧ c.inUse = 0
      · simp [SizeClass.drained, hgone]
      · have hkept : c.drained eraseVacant = some { c with cached := {} } := if_neg hgone
        simpa [hkept] using not_and.mp hgone

end Sound

end BlockPool.ClassTable
