import BlockPool.Proofs.ClassTable.Counts
import BlockPool.Proofs.ClassTable.Total
import BlockPool.Proofs.Receipt

/-! The receipt of a sound table: one line for every class, in ascending order of size. A table that
changes in one class changes in one line of its receipt, and a drain changes the receipt as its numbers
tell, whether or not it was asked to drop classes. -/

namespace BlockPool

namespace ClassTable

/-- How many chunks are parked in all classes together. -/
def parked (t : ClassTable) : Nat := (t.classes.map fun c => c.cached.chain.length).sum

namespace Sound

variable {t T : ClassTable}

/-- A change to one class shows in what is parked by the free list before and after. -/
theorem parked_update (h : t.Sound) (hT : T.Sound) {size : Nat} {c : SizeClass}
    (hafter : T.classFor? = Function.update t.classFor? size (some c)) :
    T.parked + (t.parkedFor size).length = t.parked + c.cached.chain.length := by
  have hshare : t.share (fun c => c.cached.chain.length) size = (t.parkedFor size).length := by
    unfold share parkedFor
    cases t.classFor? size <;> rfl
  rw [← hshare]
  exact h.sum_classes_update _ hT hafter

theorem parked_congr (h : t.Sound) (hT : T.Sound) (hafter : T.classFor? = t.classFor?) :
    T.parked = t.parked :=
  h.sum_classes_congr _ hT hafter

theorem parked_eq_zero (h : t.Sound) (hnone : ∀ size, t.parkedFor size = []) : t.parked = 0 := by
  have hzero : t.classes.map (fun c => c.cached.chain.length) = t.sizes.map fun _ => 0 := by
    apply h.map_classes
    intro size c hc
    rw [← parkedFor_of_classFor? hc, hnone]
    rfl
  rw [parked, hzero]
  simp

/-- A chunk handed out was parked before if it is a hit, and otherwise what is parked stays. -/
theorem parked_checkedOut (h : t.Sound) (hT : T.Sound) {heap heap' : Heap} {size : Nat}
    {chunk : Chunk} {supply : Supply}
    (hout : CheckedOut t heap size (some (chunk, supply)) T heap') :
    T.parked + (if supply = .hit then 1 else 0) = t.parked := by
  cases hout with
  | hit found pop after =>
      have hparked := h.parked_update hT after
      rw [parkedFor_of_classFor? found, FreeList.chain_of_pop? pop, List.length_cons] at hparked
      simp only [SizeClass.afterHit] at hparked
      rw [if_pos rfl]
      omega
  | miss granted parked capacity in_use empty found new after =>
      have hparked := h.parked_update hT after
      rw [parked, SizeClass.afterMiss, empty] at hparked
      simpa using hparked

end Sound

namespace Sound

variable {t : ClassTable} (h : t.Sound)

include h

theorem map_capacity : t.classes.map (·.capacity) = t.sizes := by
  have hmap : t.classes.map (·.capacity) = t.sizes.map id := by
    apply h.map_classes
    intro size c hc
    exact (h.classFor?_eq_some_iff.mp hc).2
  rw [hmap, List.map_id]

/-- The line of a size is that of its class. -/
theorem find?_toReceipt (size : Nat) :
    t.toReceipt.find? size = (t.classFor? size).map SizeClass.toLine := by
  have hfirst : t.toReceipt.find? size =
      (t.classes.find? fun c => decide (c.capacity = size)).map SizeClass.toLine :=
    List.find?_map ..
  rw [hfirst]
  cases hc : t.classFor? size with
  | none =>
      have hnone : t.classes.find? (fun c => decide (c.capacity = size)) = none := by
        rw [List.find?_eq_none]
        rintro c hmem hcap
        rw [← of_decide_eq_true hcap, h.mem_classes_iff.mp hmem] at hc
        cases hc
      rw [hnone]
  | some c =>
      have hcap := (h.classFor?_eq_some_iff.mp hc).2
      have hmem : c ∈ t.classes := h.mem_classes_iff.mpr (hcap ▸ hc)
      cases hfind : t.classes.find? (fun c => decide (c.capacity = size)) with
      | none => exact absurd (decide_eq_true hcap) (List.find?_eq_none.mp hfind c hmem)
      | some d =>
          have hd := h.mem_classes_iff.mp (List.mem_of_find?_eq_some hfind)
          have hdcap : d.capacity = size := by simpa using List.find?_some hfind
          rw [hdcap, hc] at hd
          cases hd
          rfl

theorem contains_eq (size : Nat) : t.contains size = (t.toReceipt.find? size).isSome := by
  rw [h.find?_toReceipt, Option.isSome_map, h.classFor?_isSome, contains]

theorem totalCached_toReceipt : t.toReceipt.totalCached = t.parked := by
  rw [parked, ← h.map_len_classes, Receipt.totalCached, toReceipt, List.foldr_map,
    List.sum_eq_foldr, List.foldr_map]
  rfl

theorem count_toReceipt : t.toReceipt.count = t.size := by
  have hlength := congrArg List.length h.map_capacity
  rw [List.length_map, sizes, List.length_map] at hlength
  rw [Receipt.count, toReceipt, List.length_map]
  exact hlength

theorem ascending_toReceipt : t.toReceipt.Ascending := by
  have hsizes := h.sizes_pairwise
  rw [← h.map_capacity] at hsizes
  exact List.pairwise_map.mpr (List.pairwise_map.mp hsizes)

theorem mem_toReceipt_iff {l : Receipt.Line} :
    l ∈ t.toReceipt.lines ↔ ∃ c, t.classFor? l.capacity = some c ∧ c.toLine = l := by
  rw [toReceipt, List.mem_map]
  constructor
  · rintro ⟨c, hc, rfl⟩
    exact ⟨c, h.mem_classes_iff.mp hc, rfl⟩
  · rintro ⟨c, hc, rfl⟩
    exact ⟨c, h.mem_classes_iff.mpr hc, rfl⟩

/-- The supply of a request, as the receipt foretells it. -/
theorem supply_toReceipt (size : Nat) : t.toReceipt.supply size =
    match t.classFor? size with
    | none => .miss true
    | some c => if 0 < c.cached.len then .hit else .miss false := by
  rw [Receipt.supply, h.find?_toReceipt]
  cases t.classFor? size <;> rfl

end Sound

/-! ### The receipt after a change -/

namespace Sound

variable {t T : ClassTable} {size : Nat} {c old : SizeClass}

theorem toReceipt_congr (h : t.Sound) (hT : T.Sound) (hafter : T.classFor? = t.classFor?) :
    T.toReceipt = t.toReceipt := by
  refine hT.ascending_toReceipt.ext h.ascending_toReceipt fun l => ?_
  rw [hT.mem_toReceipt_iff, h.mem_toReceipt_iff, hafter]

/-- A change to one class changes the line of its size. -/
theorem mem_toReceipt_of_update (h : t.Sound) (hT : T.Sound) (hcap : c.capacity = size)
    (hafter : T.classFor? = Function.update t.classFor? size (some c)) {l : Receipt.Line} :
    l ∈ T.toReceipt.lines ↔ l = c.toLine ∨ l ∈ t.toReceipt.lines ∧ l.capacity ≠ size := by
  rw [hT.mem_toReceipt_iff, h.mem_toReceipt_iff, hafter]
  by_cases hl : l.capacity = size
  · rw [hl, Function.update_self]
    simp [eq_comm]
  · have hne : l ≠ c.toLine := fun heq => hl (heq ▸ hcap)
    rw [Function.update_of_ne hl]
    simp [hne, hl]

theorem toReceipt_amend (h : t.Sound) (hT : T.Sound) {f : Receipt.Line → Receipt.Line}
    (hf : ∀ l, (f l).capacity = l.capacity) (hold : t.classFor? size = some old)
    (hline : c.toLine = f old.toLine)
    (hafter : T.classFor? = Function.update t.classFor? size (some c)) :
    T.toReceipt = t.toReceipt.amend size f := by
  have holdcap : old.toLine.capacity = size := (h.classFor?_eq_some_iff.mp hold).2
  have hcap : c.toLine.capacity = size := by rw [hline, hf, holdcap]
  have holdmem : old.toLine ∈ t.toReceipt.lines :=
    h.mem_toReceipt_iff.mpr ⟨old, by rw [holdcap, hold], rfl⟩
  refine hT.ascending_toReceipt.ext (h.ascending_toReceipt.amend hf) fun l => ?_
  rw [h.mem_toReceipt_of_update hT hcap hafter, Receipt.amend, List.mem_map, hline]
  constructor
  · rintro (rfl | ⟨hmem, hne⟩)
    · exact ⟨old.toLine, holdmem, if_pos holdcap⟩
    · exact ⟨l, hmem, if_neg hne⟩
  · rintro ⟨m, hmem, rfl⟩
    by_cases hm : m.capacity = size
    · rw [if_pos hm, h.ascending_toReceipt.eq_of_mem hmem holdmem (hm.trans holdcap.symm)]
      exact Or.inl rfl
    · rw [if_neg hm]
      exact Or.inr ⟨hmem, hm⟩

theorem toReceipt_enter (h : t.Sound) (hT : T.Sound) (hnone : t.classFor? size = none)
    (hcap : c.capacity = size)
    (hafter : T.classFor? = Function.update t.classFor? size (some c)) :
    T.toReceipt = t.toReceipt.enter c.toLine := by
  have hnew : ∀ l ∈ t.toReceipt.lines, l.capacity ≠ size := by
    rintro l hl rfl
    obtain ⟨d, hd, -⟩ := h.mem_toReceipt_iff.mp hl
    cases hnone.symm.trans hd
  have hascending : (t.toReceipt.enter c.toLine).Ascending :=
    h.ascending_toReceipt.enter fun l hl heq => hnew l hl (heq.trans hcap)
  refine hT.ascending_toReceipt.ext hascending fun l => ?_
  rw [h.mem_toReceipt_of_update hT hcap hafter, Receipt.enter, List.mem_orderedInsert]
  exact or_congr_right (and_iff_left_of_imp fun hmem => hnew l hmem)

/-- A drain that drops no class was not asked to, or finds something of every class in use: either way
its numbers say which lines go. -/
theorem toReceipt_drain (h : t.Sound) (eraseVacant : Bool) : (t.drain eraseVacant).2.toReceipt =
    t.toReceipt.swept (decide (0 < (t.drain eraseVacant).1.classes)) := by
  have hT := h.drain eraseVacant
  have hgone : ∀ size c, t.classFor? size = some c → c.inUse = 0 →
      (eraseVacant = true ↔ 0 < (t.drain eraseVacant).1.classes) := by
    intro size c hc hidle
    rw [h.classes_drain, List.countP_pos_iff]
    constructor
    · rintro rfl
      have hcap := (h.classFor?_eq_some_iff.mp hc).2
      exact ⟨c, h.mem_classes_iff.mpr (hcap ▸ hc), by simp [hidle]⟩
    · rintro ⟨d, -, hd⟩
      exact (Bool.and_eq_true_iff.mp hd).1
  refine hT.ascending_toReceipt.ext (h.ascending_toReceipt.swept _) fun l => ?_
  rw [hT.mem_toReceipt_iff, h.classFor?_drain, Receipt.mem_lines_swept, decide_eq_true_eq]
  constructor
  · rintro ⟨d, hd, rfl⟩
    obtain ⟨c, hc, hdrained⟩ := Option.bind_eq_some_iff.mp hd
    unfold SizeClass.drained at hdrained
    split at hdrained
    · cases hdrained
    · next hkept =>
      cases hdrained
      refine ⟨c.toLine, h.mem_toReceipt_iff.mpr ⟨c, hc, rfl⟩, rfl, fun hpos hidle => ?_⟩
      exact hkept ⟨(hgone _ c hc hidle).mpr hpos, hidle⟩
  · rintro ⟨m, hm, rfl, hkept⟩
    obtain ⟨c, hc, rfl⟩ := h.mem_toReceipt_iff.mp hm
    refine ⟨{ c with cached := {} }, ?_, rfl⟩
    rw [Receipt.Line.emptied, hc, Option.bind_some, SizeClass.drained, if_neg]
    rintro ⟨herase, hidle⟩
    exact hkept ((hgone _ c hc hidle).mp herase) hidle

end Sound

/-! ### What is reported of a change

A pool that reports what the change was says nothing but the truth, and its receipt follows the report. -/

variable {t T : ClassTable} {heap heap' : Heap} {size : Nat} {c : SizeClass} {chunk : Chunk}
  {supply : Supply} (warnings : Nat)

theorem CheckedOut.agrees (h : t.Sound)
    (hout : CheckedOut t heap size (some (chunk, supply)) T heap') :
    (Event.supplied supply size).Agrees t.toReceipt warnings := by
  show supply = t.toReceipt.supply size
  rw [h.supply_toReceipt]
  cases hout with
  | @hit c _ rest _ found pop after =>
      have hcounted := (h.sound _ c (h.classFor?_eq_some_iff.mp found).1).counted
      have hpos : 0 < c.cached.len := (hcounted.pop pop).2 ▸ Nat.succ_pos _
      simp only [found, if_pos hpos]
  | @miss c _ granted parked capacity in_use empty found new after =>
      cases hold : t.classFor? size with
      | none => rfl
      | some old =>
          have hzero : ¬ 0 < old.cached.len := by
            rw [found old hold, empty]
            exact Nat.lt_irrefl 0
          simp only [if_neg hzero]
          rfl

theorem CheckedOut.toReceipt_eq (h : t.Sound) (hT : T.Sound)
    (hout : CheckedOut t heap size (some (chunk, supply)) T heap') :
    T.toReceipt = t.toReceipt.next (.supplied supply size) := by
  cases hout with
  | @hit c _ rest _ found pop after =>
      have hcounted := (h.sound _ c (h.classFor?_eq_some_iff.mp found).1).counted
      have hline : (c.afterHit rest).toLine = c.toLine.reused := by
        simp only [SizeClass.toLine, SizeClass.afterHit, Receipt.Line.reused, (hcounted.pop pop).2,
          Nat.add_sub_cancel]
      exact h.toReceipt_amend hT (fun _ => rfl) found hline after
  | @miss c _ granted parked capacity in_use empty found new after =>
      cases hold : t.classFor? size with
      | none =>
          have hline : c.afterMiss.toLine = { capacity := size, cached := 0, inUse := 1 } := by
            simp only [SizeClass.toLine, SizeClass.afterMiss, capacity, empty, in_use,
              inUseFor_of_none hold]
          rw [h.toReceipt_enter hT (c := c.afterMiss) hold capacity after, hline]
          rfl
      | some old =>
          obtain rfl := found old hold
          exact h.toReceipt_amend hT (f := Receipt.Line.grown) (fun _ => rfl) hold rfl after

theorem CheckedOut.agrees_of_refused (h : t.Sound) (hout : CheckedOut t heap size none T heap') :
    (Event.outOfMemory size).Agrees t.toReceipt warnings := by
  show t.toReceipt.supply size ≠ .hit
  rw [h.supply_toReceipt]
  cases hout with
  | refused denied parked after =>
      cases hc : t.classFor? size with
      | none => simp
      | some c =>
          have hcounted := (h.sound _ c (h.classFor?_eq_some_iff.mp hc).1).counted
          rw [parkedFor_of_classFor? hc] at parked
          have hzero : ¬ 0 < c.cached.len := by
            rw [show c.cached.len = c.cached.chain.length from hcounted, parked]
            exact Nat.lt_irrefl 0
          simp [hzero]

namespace Sound

variable (h : t.Sound)

include h

theorem agrees_of_checkin (hc : t.classFor? size = some c) {left : Nat} (huse : c.inUse = left + 1) :
    (Event.cached size left).Agrees t.toReceipt warnings :=
  ⟨c.toLine, by rw [h.find?_toReceipt, hc]; rfl, huse⟩

theorem toReceipt_checkin (hT : T.Sound) (hc : t.classFor? size = some c) (left : Nat)
    (hafter : T.classFor? = Function.update t.classFor? size (some (c.checkin chunk))) :
    T.toReceipt = t.toReceipt.next (.cached size left) :=
  h.toReceipt_amend hT (f := Receipt.Line.parked) (fun _ => rfl) hc rfl hafter

theorem agrees_of_drain (eraseVacant : Bool) : (Event.cleared (t.drain eraseVacant).1
    (t.drain eraseVacant).2.size).Agrees t.toReceipt warnings := by
  have hcount := t.toReceipt.count_swept (decide (0 < (t.drain eraseVacant).1.classes))
  rw [← h.toReceipt_drain, (h.drain eraseVacant).count_toReceipt] at hcount
  refine ⟨?_, ?_, ?_⟩
  · rw [h.totalCached_toReceipt, h.chunks_drain, ClassTable.parked]
  · by_cases hpos : 0 < (t.drain eraseVacant).1.classes
    · have hidle : (t.drain eraseVacant).1.classes =
          t.toReceipt.lines.countP fun l => decide (l.inUse = 0) := by
        have herase : eraseVacant = true := by
          rw [h.classes_drain, List.countP_pos_iff] at hpos
          obtain ⟨d, -, hd⟩ := hpos
          exact (Bool.and_eq_true_iff.mp hd).1
        subst herase
        rw [h.classes_drain, toReceipt, List.countP_map]
        rfl
      rw [if_pos (decide_eq_true hpos), ← hidle] at hcount
      omega
    · rw [if_neg (by simpa using hpos)] at hcount
      omega
  · show _ = (t.toReceipt.swept _).count
    rw [← h.toReceipt_drain, (h.drain eraseVacant).count_toReceipt]

end Sound

end ClassTable

end BlockPool
