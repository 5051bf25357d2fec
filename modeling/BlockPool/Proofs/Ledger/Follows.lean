import BlockPool.Proofs.Ledger.Elsewhere
import BlockPool.Proofs.World.Excerpt

/-! A ledger that follows one size of one pool of another ledger. It has this pool alone, with the same
settings; it has parked the same bytes for the size in the same order, and callers hold the same blocks of
it, under other numbers. What does not concern the size happens in the followed ledger alone, and what does
happens in both, is answered alike, and leaves the one following the other. -/

namespace BlockPool

/-! ### The same under other numbers -/

section Rel

variable {α β : Type} {r r' : α → β → Prop} {x : α} {a : Option α} {b : Option β}

theorem rel_some_iff : Option.Rel r (some x) b ↔ ∃ y, b = some y ∧ r x y := by
  constructor
  · intro h
    cases h with
    | some hxy => exact ⟨_, rfl, hxy⟩
  · rintro ⟨y, rfl, hxy⟩
    exact .some hxy

theorem rel_none_iff : Option.Rel r none b ↔ b = none := by
  constructor
  · intro h
    cases h
    rfl
  · rintro rfl
    exact .none

theorem rel_mono (hmono : ∀ x y, r x y → r' x y) (h : Option.Rel r a b) : Option.Rel r' a b := by
  cases h with
  | none => exact .none
  | some hxy => exact .some (hmono _ _ hxy)

end Rel

section Like

variable {serials serials' : List Nat}

theorem Piece.Like.mono (hpre : serials <+: serials') {x y : Piece} (h : x.Like serials y) :
    x.Like serials' y := by
  obtain ⟨later, rfl⟩ := hpre
  have hlt := (List.getElem?_eq_some_iff.mp h.1).1
  exact ⟨(List.getElem?_append_left hlt).trans h.1, h.2⟩

/-- The same settings, and stacks with the same bytes in the same order. -/
def ViewLike (serials : List Nat) (v v' : Config × Option (List Piece)) : Prop :=
  v'.1 = v.1 ∧ Option.Rel (List.Forall₂ (Piece.Like serials)) v.2 v'.2

theorem ViewLike.mono (hpre : serials <+: serials') {v v' : Config × Option (List Piece)}
    (h : ViewLike serials v v') : ViewLike serials' v v' :=
  ⟨h.1, rel_mono (fun _ _ hstacks => hstacks.imp fun _ _ hxy => hxy.mono hpre) h.2⟩

/-- A block of the size from the pool, and the block of the first pool that stands for it. -/
structure Loan.Like (serials : List Nat) (p : Handle Account) (size : Nat) (x y : Loan) : Prop where
  of : x.Of p size
  home : y.pool = ⟨0⟩
  piece : x.piece.Like serials y.piece

theorem Loan.Like.of_right {p : Handle Account} {size : Nat} {x y : Loan}
    (h : x.Like serials p size y) : y.Of ⟨0⟩ size := by
  refine ⟨h.home, ?_⟩
  rw [Loan.size, h.piece.2]
  exact h.of.2

theorem Loan.Like.mono (hpre : serials <+: serials') {p : Handle Account} {size : Nat} {x y : Loan}
    (h : x.Like serials p size y) : x.Like serials' p size y :=
  ⟨h.of, h.home, h.piece.mono hpre⟩

end Like

namespace Ledger

/-- The second ledger follows what the first has of one size of a pool. `blocks` lists the numbers that its
blocks have in the first ledger, and `serials` those of its chunks. -/
structure Follows (p : Handle Account) (size : Nat) (blocks serials : List Nat) (l m : Ledger) :
    Prop where
  ascending : serials.Pairwise (· < ·)
  below : ∀ n ∈ serials, n < l.heap.issued
  grants : m.heap.grants = l.heap.grants
  issued : m.heap.issued = serials.length
  known : m.pools.entries.size = if p.index < l.pools.entries.size then 1 else 0
  view : Option.Rel (ViewLike serials) (l.view p size) (m.view ⟨0⟩ size)
  lent : m.held.entries.size = blocks.length
  once : blocks.Nodup
  old : ∀ i ∈ blocks, i < l.held.entries.size
  loan : ∀ i j, blocks[j]? = some i →
    Option.Rel (Loan.Like serials p size) (l.held.get? ⟨i⟩) (m.held.get? ⟨j⟩)
  own : ∀ b, l.Concerns p size b → b.index ∈ blocks
  outOf : m.outOf ⟨0⟩ size = l.outOf p size

namespace Follows

variable {p : Handle Account} {size : Nat} {blocks serials : List Nat} {l l' m : Ledger}

theorem start (grants : Nat → Bool) (p : Handle Account) (size : Nat) :
    Follows p size [] [] (Ledger.start grants) (Ledger.start grants) where
  ascending := .nil
  below n hn := nomatch hn
  grants := rfl
  issued := rfl
  known := rfl
  view := .none
  lent := rfl
  once := .nil
  old i hi := nomatch hi
  loan i j hij := nomatch hij
  own b hb := by
    obtain ⟨loan, hloan, -⟩ := hb
    cases hloan
  outOf := rfl

/-- What does not concern the size is not followed. -/
theorem elsewhere (h : Follows p size blocks serials l m) (he : Elsewhere p size l l') :
    Follows p size blocks serials l' m where
  ascending := h.ascending
  below n hn := (h.below n hn).trans_le he.issued
  grants := h.grants.trans he.grants.symm
  issued := h.issued
  known := h.known.trans (if_congr he.known.symm rfl rfl)
  view := he.view ▸ h.view
  lent := h.lent
  once := h.once
  old i hi := (h.old i hi).trans_le he.lent
  loan i j hij := by
    have hrel := h.loan i j hij
    rw [he.stays ⟨i⟩ (h.old i (List.mem_of_getElem? hij)) ?_]
    · exact hrel
    · intro loan hloan
      rw [hloan] at hrel
      obtain ⟨_, -, hlike⟩ := rel_some_iff.mp hrel
      exact hlike.of
  own b hb := by
    obtain ⟨loan, hloan, hof⟩ := hb
    exact h.own b ⟨loan, he.old b loan hloan hof, hof⟩
  outOf := h.outOf.trans he.outOf.symm

/-- The pool speaks in both. -/
theorem report (h : Follows p size blocks serials l m) (q q' : Handle Account)
    (account account' : Account) (event event' : Event) :
    Follows p size blocks serials (l.report q account event) (m.report q' account' event') :=
  { h with }

/-- The account of the pool changes in both. -/
theorem set (h : Follows p size blocks serials l m) {account account' new new' : Account}
    (ha : l.pools.get? p = some account) (ha' : m.pools.get? ⟨0⟩ = some account')
    (hnew : ViewLike serials (new.view size) (new'.view size)) :
    Follows p size blocks serials { l with pools := l.pools.set p new }
      { m with pools := m.pools.set ⟨0⟩ new' } := by
  refine { h with known := ?_, view := ?_ }
  · have hknown := h.known
    simpa [Registry.set] using hknown
  · rw [Ledger.view, Ledger.view, Registry.get?_set ha, Registry.get?_set ha', if_pos rfl, if_pos rfl]
    exact .some hnew

/-- The pool is closed in both. -/
theorem remove (h : Follows p size blocks serials l m) :
    Follows p size blocks serials { l with pools := l.pools.remove p }
      { m with pools := m.pools.remove ⟨0⟩ } := by
  refine { h with known := ?_, view := ?_ }
  · have hknown := h.known
    simpa [Registry.remove] using hknown
  · rw [Ledger.view, Ledger.view, Registry.get?_remove, Registry.get?_remove, if_pos rfl, if_pos rfl]
    exact .none

/-- The pool is opened in both. -/
theorem add (h : Follows p size blocks serials l m) {account : Account}
    (hnew : (l.pools.add account).1 = p) (hview : ViewLike serials (account.view size)
      (account.view size)) :
    (m.pools.add account).1 = ⟨0⟩ ∧ Follows p size blocks serials
      { l with pools := (l.pools.add account).2 } { m with pools := (m.pools.add account).2 } := by
  subst hnew
  have hknown : m.pools.entries.size = if l.pools.entries.size < l.pools.entries.size then 1 else 0 :=
    h.known
  rw [if_neg (Nat.lt_irrefl _)] at hknown
  have hfirst : (m.pools.add account).1 = ⟨0⟩ := congrArg Handle.mk hknown
  refine ⟨hfirst, { h with known := ?_, view := ?_ }⟩
  · simp [Registry.add, hknown]
  · rw [Ledger.view, Ledger.view, Registry.get?_add, if_pos rfl, Registry.get?_add, hfirst, if_pos rfl]
    exact .some hview

/-- The heap makes a chunk in both. -/
theorem issue (h : Follows p size blocks serials l m) :
    Follows p size blocks (serials ++ [l.heap.issued])
      { l with heap := { l.heap with issued := l.heap.issued + 1 } }
      { m with heap := { m.heap with issued := m.heap.issued + 1 } } := by
  have hpre : serials <+: serials ++ [l.heap.issued] := List.prefix_append _ _
  refine { h with ascending := ?_, below := ?_, issued := ?_, view := ?_, loan := ?_ }
  · rw [List.pairwise_append]
    refine ⟨h.ascending, List.pairwise_singleton _ _, fun n hn n' hn' => ?_⟩
    rw [List.mem_singleton.mp hn']
    exact h.below n hn
  · intro n hn
    show n < l.heap.issued + 1
    rcases List.mem_append.mp hn with hold | hnew
    · exact (h.below n hold).trans (Nat.lt_succ_self _)
    · rw [List.mem_singleton.mp hnew]
      exact Nat.lt_succ_self _
  · show m.heap.issued + 1 = _
    rw [h.issued, List.length_append, List.length_singleton]
  · exact rel_mono (fun _ _ hv => hv.mono hpre) h.view
  · exact fun i j hij => rel_mono (fun _ _ hl => hl.mono hpre) (h.loan i j hij)

/-- A block is handed out in both. -/
theorem lend (h : Follows p size blocks serials l m) {x y : Loan} (hlike : x.Like serials p size y) :
    Follows p size (blocks ++ [l.held.entries.size]) serials { l with held := (l.held.add x).2 }
      { m with held := (m.held.add y).2 } := by
  have hsize : ∀ {α : Type} (r : Registry α) (a : α), (r.add a).2.entries.size = r.entries.size + 1 :=
    fun r a => Array.size_push _
  refine { h with lent := ?_, once := ?_, old := ?_, loan := ?_, own := ?_, outOf := ?_ }
  · rw [hsize, h.lent, List.length_append, List.length_singleton]
  · rw [List.nodup_append']
    refine ⟨h.once, List.nodup_singleton _, List.disjoint_singleton.mpr fun hmem => ?_⟩
    exact Nat.lt_irrefl _ (h.old _ hmem)
  · intro i hi
    rw [hsize]
    rcases List.mem_append.mp hi with hold | hnew
    · exact (h.old i hold).trans (Nat.lt_succ_self _)
    · rw [List.mem_singleton.mp hnew]
      exact Nat.lt_succ_self _
  · intro i j hij
    rw [Registry.get?_add, Registry.get?_add]
    by_cases hj : j < blocks.length
    · rw [List.getElem?_append_left hj] at hij
      have hi := h.old i (List.mem_of_getElem? hij)
      have hnew : (⟨i⟩ : Handle Loan) ≠ (l.held.add x).1 := fun heq => hi.ne (congrArg Handle.index heq)
      have hnew' : (⟨j⟩ : Handle Loan) ≠ (m.held.add y).1 :=
        fun heq => hj.ne ((congrArg Handle.index heq).trans h.lent)
      rw [if_neg hnew, if_neg hnew']
      exact h.loan i j hij
    · rw [List.getElem?_append_right (Nat.le_of_not_lt hj), List.getElem?_singleton] at hij
      split at hij
      · next hzero =>
        have hnew : (⟨i⟩ : Handle Loan) = (l.held.add x).1 :=
          congrArg Handle.mk (Option.some.inj hij).symm
        have hnew' : (⟨j⟩ : Handle Loan) = (m.held.add y).1 := by
          refine congrArg Handle.mk ?_
          rw [h.lent]
          omega
        rw [if_pos hnew, if_pos hnew']
        exact .some hlike
      · cases hij
  · rintro b ⟨loan, hloan, hof⟩
    rw [Registry.get?_add] at hloan
    split at hloan
    · next heq =>
      rw [heq]
      exact List.mem_append_right _ (List.mem_singleton.mpr rfl)
    · exact List.mem_append_left _ (h.own b ⟨loan, hloan, hof⟩)
  · have hout := outOf_add p size l x
    have hout' := outOf_add ⟨0⟩ size m y
    rw [if_pos hlike.of] at hout
    rw [if_pos hlike.of_right] at hout'
    exact hout'.trans ((congrArg (· + 1) h.outOf).trans hout.symm)

theorem place_of_mem {i : Nat} (hi : i ∈ blocks) : blocks[blocks.idxOf i]? = some i := by
  have hlt := List.idxOf_lt_length_of_mem hi
  rw [List.getElem?_eq_getElem hlt, List.getElem_idxOf]

/-- A block that is followed and held is held in both. -/
theorem stand_of_mem (h : Follows p size blocks serials l m) {b : Handle Loan}
    (hb : b.index ∈ blocks) {x : Loan} (hx : l.held.get? b = some x) :
    ∃ y, m.held.get? ⟨blocks.idxOf b.index⟩ = some y ∧ x.Like serials p size y := by
  have hrel := h.loan b.index _ (place_of_mem hb)
  rw [show l.held.get? ⟨b.index⟩ = some x from hx] at hrel
  exact rel_some_iff.mp hrel

section Own

variable (h : Follows p size blocks serials l m) {b : Handle Loan} {x : Loan}
  (hx : l.held.get? b = some x) (hof : x.Of p size)

include h hx hof

/-- A block of the size is followed. -/
theorem stand : ∃ y, m.held.get? ⟨blocks.idxOf b.index⟩ = some y ∧ x.Like serials p size y :=
  h.stand_of_mem (h.own b ⟨x, hx, hof⟩) hx

/-- The handle of a block that is followed tells it from the others. -/
theorem place_iff {i j : Nat} (hij : blocks[j]? = some i) :
    (⟨j⟩ : Handle Loan) = ⟨blocks.idxOf b.index⟩ ↔ (⟨i⟩ : Handle Loan) = b := by
  have hplace := place_of_mem (h.own b ⟨x, hx, hof⟩)
  obtain ⟨index⟩ := b
  rw [Handle.mk.injEq, Handle.mk.injEq]
  constructor
  · rintro rfl
    exact Option.some.inj (hij.symm.trans hplace)
  · rintro rfl
    exact (List.getElem?_inj (List.getElem?_eq_some_iff.mp hij).1 h.once).mp (hij.trans hplace.symm)

/-- A block of the size is let go of in both. -/
theorem drop : Follows p size blocks serials (l.drop b) (m.drop ⟨blocks.idxOf b.index⟩) := by
  obtain ⟨y, hy, hlike⟩ := h.stand hx hof
  refine { h with lent := ?_, old := ?_, loan := ?_, own := ?_, outOf := ?_ }
  · have hlent := h.lent
    simpa [Ledger.drop, Registry.remove] using hlent
  · intro i hi
    have hold := h.old i hi
    simpa [Ledger.drop, Registry.remove] using hold
  · intro i j hij
    rw [Ledger.drop, Ledger.drop, Registry.get?_remove, Registry.get?_remove]
    by_cases heq : (⟨i⟩ : Handle Loan) = b
    · rw [if_pos heq, if_pos ((h.place_iff hx hof hij).mpr heq)]
      exact .none
    · rw [if_neg heq, if_neg (mt (h.place_iff hx hof hij).mp heq)]
      exact h.loan i j hij
  · rintro c ⟨loan, hloan, hc⟩
    rw [Ledger.drop, Registry.get?_remove] at hloan
    split at hloan
    · cases hloan
    · exact h.own c ⟨loan, hloan, hc⟩
  · have hout := outOf_drop p size hx
    have hout' := outOf_drop ⟨0⟩ size hy
    rw [if_pos hof] at hout
    rw [if_pos hlike.of_right, h.outOf, ← hout] at hout'
    exact Nat.succ.inj hout'

/-- The bytes of a block of the size change in both. -/
theorem overwrite {x' y' : Loan} (hlike : x'.Like serials p size y') :
    Follows p size blocks serials { l with held := l.held.set b x' }
      { m with held := m.held.set ⟨blocks.idxOf b.index⟩ y' } := by
  obtain ⟨y, hy, hold⟩ := h.stand hx hof
  refine { h with lent := ?_, old := ?_, loan := ?_, own := ?_, outOf := ?_ }
  · have hlent := h.lent
    simpa [Registry.set] using hlent
  · intro i hi
    have hlt := h.old i hi
    simpa [Registry.set] using hlt
  · intro i j hij
    rw [Registry.get?_set hx, Registry.get?_set hy]
    by_cases heq : (⟨i⟩ : Handle Loan) = b
    · rw [if_pos heq, if_pos ((h.place_iff hx hof hij).mpr heq)]
      exact .some hlike
    · rw [if_neg heq, if_neg (mt (h.place_iff hx hof hij).mp heq)]
      exact h.loan i j hij
  · rintro c ⟨loan, hloan, hc⟩
    rw [Registry.get?_set hx] at hloan
    split at hloan
    · next heq =>
      rw [heq]
      exact h.own b ⟨x, hx, hof⟩
    · exact h.own c ⟨loan, hloan, hc⟩
  · have hout := outOf_set p size hx (hlike.of.1.trans hof.1.symm) (hlike.of.2.trans hof.2.symm)
    have hout' := outOf_set ⟨0⟩ size hy (hlike.home.trans hold.home.symm)
      (hlike.of_right.2.trans hold.of_right.2.symm)
    exact hout'.trans (h.outOf.trans hout.symm)

end Own

end Follows

/-! ### What is said -/

/-- These are the events about the size that the pool reports between the two ledgers. -/
def Says (p : Handle Account) (size : Nat) (l l' : Ledger) (events : List Event) : Prop :=
  ∃ records : List Record, l'.log.toList = l.log.toList ++ records ∧
    (records.filter fun r => decide (r.pool = p.as Pool) && r.event.about size).map (·.event) = events

namespace Says

variable {p : Handle Account} {size : Nat} {l l' l'' : Ledger} {events events' : List Event}

theorem trans (h : Says p size l l' events) (h' : Says p size l' l'' events') :
    Says p size l l'' (events ++ events') := by
  obtain ⟨records, hlog, hevents⟩ := h
  obtain ⟨records', hlog', hevents'⟩ := h'
  refine ⟨records ++ records', ?_, ?_⟩
  · rw [hlog', hlog, List.append_assoc]
  · rw [List.filter_append, List.map_append, hevents, hevents']

theorem of_log (hlog : l'.log = l.log) : Says p size l l' [] :=
  ⟨[], by rw [hlog, List.append_nil], rfl⟩

/-- The pool speaks of the size. -/
theorem of_report {account : Account} {event : Event}
    (hlog : l'.log = (l.report p account event).log) (hevent : event.about size = true) :
    Says p size l l' [event] := by
  refine ⟨[_], by rw [hlog]; exact Array.toList_push, ?_⟩
  rw [List.filter_singleton]
  simp [hevent]

/-- Another pool speaks, or this one speaks of something else. -/
theorem of_other {q : Handle Account} {account : Account} {event : Event}
    (hlog : l'.log = (l.report q account event).log)
    (hevent : q = p → event.about size = false) : Says p size l l' [] := by
  refine ⟨[_], by rw [hlog]; exact Array.toList_push, ?_⟩
  rw [List.filter_singleton]
  by_cases hq : q = p
  · simp [hevent hq]
  · simp [Handle.as_inj, hq]

theorem reports {account : Account} {events : List Event}
    (hevents : ∀ event ∈ events, event.about size = false) (l : Ledger) :
    Says p size l (events.foldl (fun l event => l.report p account event) l) [] := by
  induction events generalizing l with
  | nil => exact of_log rfl
  | cons event rest ih =>
      have hfirst : Says p size l (l.report p account event) [] :=
        of_other rfl fun _ => hevents event List.mem_cons_self
      exact hfirst.trans (ih (fun _ hmem => hevents _ (List.mem_cons_of_mem _ hmem)) _)

theorem said (h : Says p size l l' events) :
    saidBetween l.log l'.log (p.as Pool) size = events := by
  obtain ⟨records, hlog, hevents⟩ := h
  rw [saidBetween, hlog, ← Array.length_toList, List.drop_left, hevents]

end Says

end Ledger
end BlockPool
