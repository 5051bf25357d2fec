import BlockPool.Proofs.ClassTable

/-! What a sound table does when it hands out a chunk and when it takes one back. Handing out is a
hit on the class of the size, a miss on that class or on a class made for the request, or a refusal
that leaves every class as it was; taking back puts the chunk in front of the free list of the class
that it names. -/

namespace BlockPool

namespace SizeClass

theorem checkout?_of_pop? {c : SizeClass} {heap : Heap} {chunk : Chunk} {rest : FreeList}
    (hpop : c.cached.pop? = some (chunk, rest)) :
    c.checkout? heap =
      some { chunk, origin := .cached, sizeClass := c.afterHit rest, heap } := by
  rw [checkout?, hpop]
  rfl

theorem checkout?_of_grants {c : SizeClass} {heap : Heap} (hempty : c.cached.chain = [])
    (hgrants : heap.grants c.capacity = true) :
    c.checkout? heap =
      some { chunk := { serial := heap.issued, owner := c.slot, payload := .zeros c.capacity }
             origin := .fresh, sizeClass := c.afterMiss
             heap := { heap with issued := heap.issued + 1 } } := by
  rw [checkout?, FreeList.pop?_eq_none_iff.mpr hempty, Heap.take?, if_pos hgrants]
  rfl

/-- The chunk that was just parked, handed out again, leaves the class as it was. -/
theorem afterHit_checkin {c : SizeClass} (h : 0 < c.inUse) (chunk : Chunk) :
    (c.checkin chunk).afterHit c.cached = c := by
  cases c
  simp only [checkin, afterHit, mk.injEq, true_and, and_true]
  exact Nat.sub_add_cancel h

/-- The chunk that was just handed out, parked again, leaves the class as it was. -/
theorem Sound.checkin_afterHit {c : SizeClass} (h : c.Sound) {chunk : Chunk} {rest : FreeList}
    (hpop : c.cached.pop? = some (chunk, rest)) : (c.afterHit rest).checkin chunk = c := by
  have hlist : rest.push chunk = c.cached := by
    have hchain := FreeList.chain_of_pop? hpop
    have hlen := (h.counted.pop hpop).2
    cases hl : c.cached
    simp_all [FreeList.push]
  rw [SizeClass.afterHit, SizeClass.checkin, Nat.add_sub_cancel, hlist]

end SizeClass

namespace ClassTable

/-- The chunks that wait for a request of this size, the last one parked in front. -/
def parkedFor (t : ClassTable) (size : Nat) : List Chunk :=
  ((t.classFor? size).map (·.cached.chain)).getD []

/-- How many chunks of this size are in use, by the counter of their class. -/
def inUseFor (t : ClassTable) (size : Nat) : Nat := ((t.classFor? size).map (·.inUse)).getD 0

theorem parkedFor_of_classFor? {t : ClassTable} {size : Nat} {c : SizeClass}
    (hc : t.classFor? size = some c) : t.parkedFor size = c.cached.chain := by
  simp [parkedFor, hc]

theorem inUseFor_of_classFor? {t : ClassTable} {size : Nat} {c : SizeClass}
    (hc : t.classFor? size = some c) : t.inUseFor size = c.inUse := by
  simp [inUseFor, hc]

theorem parkedFor_of_none {t : ClassTable} {size : Nat} (hc : t.classFor? size = none) :
    t.parkedFor size = [] := by
  simp [parkedFor, hc]

/-- A change to the class of one size changes what is read off the classes for that size. -/
theorem getD_of_update {β : Type} (f : SizeClass → β) (d : β) {t T : ClassTable} {size : Nat}
    {c : SizeClass} (hafter : T.classFor? = Function.update t.classFor? size (some c)) :
    (fun s => ((T.classFor? s).map f).getD d) =
      Function.update (fun s => ((t.classFor? s).map f).getD d) size (f c) := by
  funext other
  by_cases ho : other = size
  · subst ho
    simp [hafter]
  · simp [hafter, ho]

/-- A change to one class shows in what is parked for its size and nowhere else. -/
theorem parkedFor_of_update {t T : ClassTable} {size : Nat} {c : SizeClass}
    (hafter : T.classFor? = Function.update t.classFor? size (some c)) :
    T.parkedFor = Function.update t.parkedFor size c.cached.chain :=
  getD_of_update _ _ hafter

theorem inUseFor_of_update {t T : ClassTable} {size : Nat} {c : SizeClass}
    (hafter : T.classFor? = Function.update t.classFor? size (some c)) :
    T.inUseFor = Function.update t.inUseFor size c.inUse :=
  getD_of_update _ _ hafter

theorem inUseFor_of_none {t : ClassTable} {size : Nat} (hc : t.classFor? size = none) :
    t.inUseFor size = 0 := by
  simp [inUseFor, hc]

/-- What a request for a chunk of some size comes to: the chunk with its supply, the table and the
heap afterwards. -/
inductive CheckedOut (t : ClassTable) (heap : Heap) (size : Nat) :
    Option (Chunk × Supply) → ClassTable → Heap → Prop
  /-- The chunk in front of the free list of the size is handed out. -/
  | hit {c : SizeClass} {chunk : Chunk} {rest : FreeList} {T : ClassTable}
      (found : t.classFor? size = some c) (pop : c.cached.pop? = some (chunk, rest))
      (after : T.classFor? = Function.update t.classFor? size (some (c.afterHit rest))) :
      CheckedOut t heap size (some (chunk, .hit)) T heap
  /-- Nothing of the size is parked, and a fresh chunk is made in its class `c`, which is made too
  if it is not there. -/
  | miss {c : SizeClass} {T : ClassTable} (granted : heap.grants size = true)
      (parked : t.parkedFor size = []) (capacity : c.capacity = size)
      (in_use : c.inUse = t.inUseFor size) (empty : c.cached = {})
      (found : ∀ old, t.classFor? size = some old → old = c)
      (new : t.classFor? size = none → t.class? c.slot = none)
      (after : T.classFor? = Function.update t.classFor? size (some c.afterMiss)) :
      CheckedOut t heap size
        (some ({ serial := heap.issued, owner := c.slot, payload := .zeros size },
          .miss (t.classFor? size).isNone)) T { heap with issued := heap.issued + 1 }
  /-- Nothing of the size is parked and the heap grants none: every class is as before. -/
  | refused {T : ClassTable} (denied : heap.grants size = false) (parked : t.parkedFor size = [])
      (after : T.classFor? = t.classFor?) : CheckedOut t heap size none T heap

/-- A chunk that is handed out is of the class of its size, which has one more in use. -/
theorem CheckedOut.served {t T : ClassTable} {heap heap' : Heap} {size : Nat} {chunk : Chunk}
    {supply : Supply} (h : t.Sound)
    (hout : CheckedOut t heap size (some (chunk, supply)) T heap') :
    ∃ c, T.classFor? = Function.update t.classFor? size (some c) ∧
      c.inUse = t.inUseFor size + 1 ∧ c.slot = chunk.owner ∧ chunk.payload.size = size ∧
      ∀ old, t.classFor? size = some old → old.slot = c.slot := by
  cases hout with
  | @hit c _ rest _ found pop after =>
      obtain ⟨hclass, hcap⟩ := h.classFor?_eq_some_iff.mp found
      have hsound := h.sound _ c hclass
      have hmem : chunk ∈ c.cached.chain :=
        FreeList.chain_of_pop? pop ▸ List.mem_cons_self
      refine ⟨c.afterHit rest, after, ?_, (hsound.owner_eq chunk hmem).symm,
        (hsound.size_eq chunk hmem).trans hcap, ?_⟩
      · rw [inUseFor_of_classFor? found]
        rfl
      · intro old hold
        rw [found] at hold
        cases hold
        rfl
  | @miss c _ granted parked capacity in_use empty found new after =>
      refine ⟨c.afterMiss, after, congrArg (· + 1) in_use, rfl, Payload.size_zeros size, ?_⟩
      intro old hold
      rw [found old hold]
      rfl

namespace Sound

variable {t : ClassTable} (h : t.Sound)

include h

/-- A request for a size of which something is parked. -/
theorem checkout_of_pop? {size : Nat} {c : SizeClass} (hc : t.classFor? size = some c)
    {chunk : Chunk} {rest : FreeList} (hpop : c.cached.pop? = some (chunk, rest)) (heap : Heap) :
    t.checkout heap size =
      (some (chunk, .hit), t.setClass c.slot (c.afterHit rest), heap) := by
  obtain ⟨hclass, rfl⟩ := h.classFor?_eq_some_iff.mp hc
  have hensure : t.ensure c.capacity = (c.slot, false, t) := by
    rw [ensure, h.find?_eq_some_iff.mpr ⟨c, hclass, rfl⟩]
  simp only [ClassTable.checkout, hensure, hclass, Option.bind_some,
    SizeClass.checkout?_of_pop? hpop]
  rfl

/-- A request for a size that has a class. -/
theorem checkout_of_classFor? {size : Nat} {c : SizeClass} (hc : t.classFor? size = some c)
    (heap : Heap) : (t.checkout heap size).2.1.Sound ∧
      CheckedOut t heap size (t.checkout heap size).1 (t.checkout heap size).2.1
        (t.checkout heap size).2.2 := by
  obtain ⟨hclass, rfl⟩ := h.classFor?_eq_some_iff.mp hc
  have hsound := h.sound _ c hclass
  have hensure : t.ensure c.capacity = (c.slot, false, t) := by
    rw [ensure, h.find?_eq_some_iff.mpr ⟨c, hclass, rfl⟩]
  cases hpop : c.cached.pop? with
  | some popped =>
      obtain ⟨chunk, rest⟩ := popped
      rw [h.checkout_of_pop? hc hpop]
      exact ⟨h.setClass hclass rfl rfl (hsound.afterHit hpop),
        .hit hc hpop (h.classFor?_setClass hclass rfl rfl (hsound.afterHit hpop))⟩
  | none =>
      have hempty := FreeList.pop?_eq_none_iff.mp hpop
      have hcached : c.cached = {} := by
        have hlen : c.cached.len = c.cached.chain.length := hsound.counted
        cases hl : c.cached
        simp_all
      have hparked := (parkedFor_of_classFor? hc).trans hempty
      cases hgrants : heap.grants c.capacity with
      | true =>
          have hout : t.checkout heap c.capacity =
              (some ({ serial := heap.issued, owner := c.slot, payload := .zeros c.capacity },
                .miss (t.classFor? c.capacity).isNone),
                t.setClass c.slot c.afterMiss, { heap with issued := heap.issued + 1 }) := by
            simp only [checkout, hensure, hclass, Option.bind_some,
              SizeClass.checkout?_of_grants hempty hgrants, hc]
            rfl
          rw [hout]
          refine ⟨h.setClass hclass rfl rfl hsound.afterMiss, ?_⟩
          refine .miss hgrants hparked rfl (inUseFor_of_classFor? hc).symm hcached ?_ ?_
            (h.classFor?_setClass hclass rfl rfl hsound.afterMiss)
          · intro old hold
            exact Option.some.inj (hold.symm.trans hc)
          · intro hnone
            rw [hc] at hnone
            cases hnone
      | false =>
          have hout : t.checkout heap c.capacity = (none, t, heap) := by
            simp only [checkout, hensure, hclass, Option.bind_some,
              SizeClass.checkout?_eq_none_iff.mpr ⟨hempty, hgrants⟩]
            rfl
          rw [hout]
          exact ⟨h, .refused hgrants hparked rfl⟩

/-- A request for a size without a class makes one, and erases it again if the heap refuses. -/
theorem checkout_of_none {size : Nat} (hc : t.classFor? size = none) (heap : Heap) :
    (t.checkout heap size).2.1.Sound ∧
      CheckedOut t heap size (t.checkout heap size).1 (t.checkout heap size).2.1
        (t.checkout heap size).2.2 := by
  obtain ⟨slot, T, hensure, hT, hfree, -, hafter⟩ :=
    h.ensure_of_none (h.classFor?_eq_none_iff.mp hc)
  have hnew : T.classFor? size = some { slot, capacity := size } := by
    rw [hafter, Function.update_self]
  have hclass := (hT.classFor?_eq_some_iff.mp hnew).1
  have hblank : SizeClass.Sound { slot, capacity := size } := SizeClass.Sound.of_empty rfl
  have hparked := parkedFor_of_none hc
  cases hgrants : heap.grants size with
  | true =>
      have hout : t.checkout heap size =
          (some ({ serial := heap.issued, owner := slot, payload := .zeros size },
            .miss (t.classFor? size).isNone),
            T.setClass slot (SizeClass.afterMiss { slot, capacity := size }),
            { heap with issued := heap.issued + 1 }) := by
        simp only [checkout, hensure, hclass, Option.bind_some,
          SizeClass.checkout?_of_grants (c := { slot, capacity := size }) rfl hgrants, hc]
        rfl
      rw [hout]
      refine ⟨hT.setClass hclass rfl rfl hblank.afterMiss, ?_⟩
      refine .miss (c := { slot, capacity := size }) hgrants hparked rfl (inUseFor_of_none hc).symm
        rfl ?_ (fun _ => hfree) ?_
      · intro old hold
        rw [hc] at hold
        cases hold
      · have hset := hT.classFor?_setClass (c := SizeClass.afterMiss { slot, capacity := size })
          hclass rfl rfl hblank.afterMiss
        rw [hset, hafter, Function.update_idem]
  | false =>
      have hout : t.checkout heap size = (none, (T.erase size).2, heap) := by
        have hnone : SizeClass.checkout? { slot, capacity := size } heap = none :=
          SizeClass.checkout?_eq_none_iff.mpr ⟨rfl, hgrants⟩
        simp only [checkout, hensure, hclass, Option.bind_some, hnone, if_true]
      rw [hout]
      obtain ⟨-, hsound, herased⟩ := hT.erase_of_class? hnew
      refine ⟨hsound, .refused hgrants hparked ?_⟩
      rw [herased, hafter, Function.update_idem, ← hc, Function.update_eq_self]

theorem checkout (heap : Heap) (size : Nat) : (t.checkout heap size).2.1.Sound ∧
    CheckedOut t heap size (t.checkout heap size).1 (t.checkout heap size).2.1
      (t.checkout heap size).2.2 := by
  cases hc : t.classFor? size with
  | none => exact h.checkout_of_none hc heap
  | some c => exact h.checkout_of_classFor? hc heap

/-- A chunk that names a class of its own size goes to the front of the free list of that class. -/
theorem checkin?_of_class? {chunk : Chunk} {c : SizeClass} (hc : t.class? chunk.owner = some c)
    (hsize : chunk.payload.size = c.capacity) :
    ∃ T, t.checkin? chunk = some (c.checkin chunk, T) ∧ T.Sound ∧
      T.classFor? = Function.update t.classFor? c.capacity (some (c.checkin chunk)) := by
  have hslot := h.slot_eq _ c hc
  have hsound := (h.sound _ c hc).checkin hslot.symm hsize
  refine ⟨t.setClass chunk.owner (c.checkin chunk), ?_, ?_, ?_⟩
  · rw [checkin?, hc]
    rfl
  · exact h.setClass hc hslot rfl hsound
  · exact h.classFor?_setClass hc hslot rfl hsound

end Sound

theorem setClass_setClass (t : ClassTable) (slot : Slot) (c c' : SizeClass) :
    (t.setClass slot c).setClass slot c' = t.setClass slot c' := by
  simp [setClass]

theorem setClass_of_class? {t : ClassTable} {slot : Slot} {c : SizeClass}
    (hc : t.class? slot = some c) : t.setClass slot c = t := by
  rw [class?, Option.join_eq_some_iff, Array.getElem?_eq_some_iff] at hc
  obtain ⟨hlt, hval⟩ := hc
  rw [setClass, Array.setIfInBounds_def, dif_pos hlt, ← hval, Array.set_getElem_self]

/-- A parked chunk that is handed out and taken back at once leaves no trace. -/
theorem Sound.checkin?_of_hit {t : ClassTable} (h : t.Sound) {size : Nat} {c : SizeClass}
    (hc : t.classFor? size = some c) {chunk : Chunk} {rest : FreeList}
    (hpop : c.cached.pop? = some (chunk, rest)) :
    (t.setClass c.slot (c.afterHit rest)).checkin? chunk = some (c, t) := by
  have hclass := (h.classFor?_eq_some_iff.mp hc).1
  have hsound := h.sound _ c hclass
  have howner : chunk.owner = c.slot :=
    hsound.owner_eq chunk (FreeList.chain_of_pop? hpop ▸ List.mem_cons_self)
  have hafter : (t.setClass c.slot (c.afterHit rest)).class? c.slot = some (c.afterHit rest) :=
    (class?_setClass hclass).trans (if_pos rfl)
  have hback : (t.setClass c.slot (c.afterHit rest)).setClass c.slot c = t := by
    rw [setClass_setClass, setClass_of_class? hclass]
  simp only [checkin?, hafter, Option.map_some, hsound.checkin_afterHit hpop, howner, hback]

theorem checkin?_of_none {t : ClassTable} {chunk : Chunk} (hc : t.class? chunk.owner = none) :
    t.checkin? chunk = none := by
  rw [checkin?, hc]
  rfl

end ClassTable

end BlockPool
