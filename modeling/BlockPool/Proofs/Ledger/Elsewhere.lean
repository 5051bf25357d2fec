import BlockPool.Proofs.Ledger

/-! Steps that do not concern one size of one pool. Whatever is done with other pools, or in this pool with
other sizes, leaves alone what the pool has parked for the size and which blocks of it callers hold. -/

namespace BlockPool

/-- What an account says of one size: its settings, and the stack for the size. -/
def Account.view (size : Nat) (a : Account) : Config × Option (List Piece) :=
  (a.config, a.shelves.stack? size)

theorem Account.view_put (a : Account) (stack : List Piece) {n size : Nat} (hne : n ≠ size) :
    ({ a with shelves := a.shelves.put n stack } : Account).view size = a.view size :=
  congrArg (Prod.mk a.config) (Function.update_of_ne (Ne.symm hne) _ _)

/-- A block of this size from this pool. -/
def Loan.Of (p : Handle Account) (size : Nat) (loan : Loan) : Prop :=
  loan.pool = p ∧ loan.size = size

instance (p : Handle Account) (size : Nat) (loan : Loan) : Decidable (loan.Of p size) :=
  inferInstanceAs (Decidable (_ ∧ _))

namespace Ledger

/-- What the ledger says of one size of a pool, which must be open. -/
def view (l : Ledger) (p : Handle Account) (size : Nat) : Option (Config × Option (List Piece)) :=
  (l.pools.get? p).map (Account.view size)

/-- Whether callers hold this block, and it is one of this size from this pool. -/
def Concerns (l : Ledger) (p : Handle Account) (size : Nat) (b : Handle Loan) : Prop :=
  ∃ loan, l.held.get? b = some loan ∧ loan.Of p size

section Count

variable {l : Ledger} {b : Handle Loan} {loan : Loan} (p : Handle Account) (size : Nat)

theorem outOf_add (l : Ledger) (loan : Loan) :
    outOf { l with held := (l.held.add loan).2 } p size =
      l.outOf p size + if loan.Of p size then 1 else 0 := by
  have hcount := Registry.countP_add (fun loan : Loan => decide (loan.Of p size)) l.held loan
  simp only [decide_eq_true_eq] at hcount
  exact hcount

theorem outOf_drop (hb : l.held.get? b = some loan) :
    (l.drop b).outOf p size + (if loan.Of p size then 1 else 0) = l.outOf p size := by
  have hcount := Registry.countP_remove (fun loan : Loan => decide (loan.Of p size)) hb
  simp only [decide_eq_true_eq] at hcount
  exact hcount

theorem outOf_set (hb : l.held.get? b = some loan) {new : Loan} (hpool : new.pool = loan.pool)
    (hsize : new.size = loan.size) :
    outOf { l with held := l.held.set b new } p size = l.outOf p size := by
  refine Registry.countP_set _ hb ?_
  rw [hpool, hsize]

end Count

/-- All that is parked under a size has that size. -/
def Tidy (l : Ledger) : Prop :=
  ∀ p account, l.pools.get? p = some account →
    ∀ size, ∀ piece ∈ account.shelves.stack size, piece.payload.size = size

/-- The second ledger differs from the first in nothing that concerns this size of this pool. -/
structure Elsewhere (p : Handle Account) (size : Nat) (l l' : Ledger) : Prop where
  grants : l'.heap.grants = l.heap.grants
  issued : l.heap.issued ≤ l'.heap.issued
  known : p.index < l'.pools.entries.size ↔ p.index < l.pools.entries.size
  view : l'.view p size = l.view p size
  lent : l.held.entries.size ≤ l'.held.entries.size
  /-- A block of this size of the pool, or one that is not held any more. -/
  stays : ∀ b, b.index < l.held.entries.size → (∀ loan, l.held.get? b = some loan → loan.Of p size) →
    l'.held.get? b = l.held.get? b
  old : ∀ b loan, l'.held.get? b = some loan → loan.Of p size → l.held.get? b = some loan
  outOf : l'.outOf p size = l.outOf p size

namespace Elsewhere

variable {p : Handle Account} {size : Nat} {l l' l'' : Ledger}

theorem refl (p : Handle Account) (size : Nat) (l : Ledger) : Elsewhere p size l l where
  grants := rfl
  issued := Nat.le_refl _
  known := Iff.rfl
  view := rfl
  lent := Nat.le_refl _
  stays _ _ _ := rfl
  old _ _ hb _ := hb
  outOf := rfl

theorem trans (h : Elsewhere p size l l') (h' : Elsewhere p size l' l'') :
    Elsewhere p size l l'' where
  grants := h'.grants.trans h.grants
  issued := h.issued.trans h'.issued
  known := h'.known.trans h.known
  view := h'.view.trans h.view
  lent := h.lent.trans h'.lent
  stays b hlt hof := by
    have hsame := h.stays b hlt hof
    rw [h'.stays b (hlt.trans_le h.lent) (hsame ▸ hof), hsame]
  old b loan hb hof := h.old b loan (h'.old b loan hb hof) hof
  outOf := h'.outOf.trans h.outOf

/-! ### Accounts -/

theorem report (p : Handle Account) (size : Nat) (l : Ledger) (q : Handle Account)
    (account : Account) (event : Event) : Elsewhere p size l (l.report q account event) :=
  { refl p size l with }

/-- An account changes that is not the one of the pool, or one that says the same of the size. -/
theorem set {q : Handle Account} {account new : Account} (hq : l.pools.get? q = some account)
    (hnew : q = p → new.view size = account.view size) :
    Elsewhere p size l { l with pools := l.pools.set q new } := by
  refine ⟨rfl, Nat.le_refl _, ?_, ?_, Nat.le_refl _, fun _ _ _ => rfl, fun _ _ hb _ => hb, rfl⟩
  · simp [Registry.set]
  · rw [Ledger.view, Ledger.view, Registry.get?_set hq]
    split
    · next heq =>
      subst heq
      rw [hq, Option.map_some, Option.map_some, hnew rfl]
    · rfl

theorem add {account : Account} (hne : (l.pools.add account).1 ≠ p) :
    Elsewhere p size l { l with pools := (l.pools.add account).2 } := by
  refine ⟨rfl, Nat.le_refl _, ?_, ?_, Nat.le_refl _, fun _ _ _ => rfl, fun _ _ hb _ => hb, rfl⟩
  · have hindex : p.index ≠ l.pools.entries.size := fun heq => hne (congrArg Handle.mk heq.symm)
    show p.index < (l.pools.entries.push (some account)).size ↔ _
    rw [Array.size_push]
    omega
  · rw [Ledger.view, Ledger.view, Registry.get?_add, if_neg (Ne.symm hne)]

theorem remove {q : Handle Account} (hne : q ≠ p) :
    Elsewhere p size l { l with pools := l.pools.remove q } := by
  refine ⟨rfl, Nat.le_refl _, ?_, ?_, Nat.le_refl _, fun _ _ _ => rfl, fun _ _ hb _ => hb, rfl⟩
  · simp [Registry.remove]
  · rw [Ledger.view, Ledger.view, Registry.get?_remove, if_neg (Ne.symm hne)]

/-! ### Loans -/

/-- A block is handed out that does not concern the size, and the heap may have made it. -/
theorem lend {loan : Loan} (hof : ¬loan.Of p size) {heap : Heap}
    (hgrants : heap.grants = l.heap.grants) (hissued : l.heap.issued ≤ heap.issued) :
    Elsewhere p size l { l with heap, held := (l.held.add loan).2 } := by
  refine ⟨hgrants, hissued, Iff.rfl, rfl, ?_, ?_, ?_, ?_⟩
  · simp [Registry.add]
  · intro b hlt _
    refine Registry.get?_add.trans (if_neg ?_)
    rintro rfl
    exact Nat.lt_irrefl _ hlt
  · intro b loan' hb hof'
    rw [Registry.get?_add] at hb
    split at hb
    · cases hb
      exact absurd hof' hof
    · exact hb
  · exact (outOf_add p size l loan).trans (by rw [if_neg hof, Nat.add_zero])

theorem drop {b : Handle Loan} (hb : ¬l.Concerns p size b) : Elsewhere p size l (l.drop b) := by
  cases hloan : l.held.get? b with
  | none =>
      rw [Ledger.drop, Registry.remove_of_get?_none hloan]
      exact refl p size l
  | some loan =>
      have hof : ¬loan.Of p size := fun hof => hb ⟨loan, hloan, hof⟩
      refine ⟨rfl, Nat.le_refl _, Iff.rfl, rfl, ?_, ?_, ?_, ?_⟩
      · simp [Ledger.drop, Registry.remove]
      · intro c _ hc
        refine Registry.get?_remove.trans (if_neg ?_)
        rintro rfl
        exact hof (hc loan hloan)
      · intro c loan' hc _
        rw [Ledger.drop, Registry.get?_remove] at hc
        split at hc
        · cases hc
        · exact hc
      · have hout := outOf_drop p size hloan
        rw [if_neg hof, Nat.add_zero] at hout
        exact hout

/-- The bytes of a block change that does not concern the size. -/
theorem overwrite {b : Handle Loan} {loan new : Loan} (hloan : l.held.get? b = some loan)
    (hof : ¬loan.Of p size) (hpool : new.pool = loan.pool) (hsize : new.size = loan.size) :
    Elsewhere p size l { l with held := l.held.set b new } := by
  have hof' : ¬new.Of p size := by
    rw [Loan.Of, hpool, hsize]
    exact hof
  refine ⟨rfl, Nat.le_refl _, Iff.rfl, rfl, ?_, ?_, ?_, ?_⟩
  · simp [Registry.set]
  · intro c _ hc
    refine (Registry.get?_set hloan).trans (if_neg ?_)
    rintro rfl
    exact hof (hc loan hloan)
  · intro c loan' hc hnew
    rw [Registry.get?_set hloan] at hc
    split at hc
    · cases hc
      exact absurd hnew hof'
    · exact hc
  · exact outOf_set p size hloan hpool hsize

/-! ### Actions -/

theorem enter {config : Config} (hne : (l.pools.add { config }).1 ≠ p) :
    Elsewhere p size l (l.enter config).2 :=
  (add hne).trans (report p size _ _ _ _)

theorem alloc {q : Handle Account} {n : Nat} (htidy : l.Tidy) (hother : ¬(q = p ∧ n = size)) :
    Elsewhere p size l (l.alloc q n).2 := by
  have hlend : ∀ {account : Account} {rest : List Piece} {heap : Heap} {piece : Piece}
      {supply : Supply}, l.pools.get? q = some account → piece.payload.size = n →
      heap.grants = l.heap.grants → l.heap.issued ≤ heap.issued →
      Elsewhere p size l (l.lend q account n rest heap piece supply).2 := by
    intro account rest heap piece supply hq hsize hgrants hissued
    have hof : ¬Loan.Of p size { piece, pool := q } := by
      rintro ⟨hpool, hlen⟩
      exact hother ⟨hpool, hsize.symm.trans hlen⟩
    have hset : Elsewhere p size l { l with
        pools := l.pools.set q { account with shelves := account.shelves.put n rest } } :=
      set hq fun heq => account.view_put rest fun hn => hother ⟨heq, hn⟩
    exact (hset.trans (lend hof hgrants hissued)).trans (report p size _ q account _)
  unfold Ledger.alloc
  cases hq : l.pools.get? q with
  | none => exact refl p size l
  | some account =>
      simp only
      cases account.config.refusal? n with
      | some error => exact refl p size l
      | none =>
          simp only
          cases hstack : account.shelves.stack n with
          | cons piece rest =>
              have hsize := htidy q account hq n piece (hstack ▸ List.mem_cons_self)
              exact hlend hq hsize rfl (Nat.le_refl _)
          | nil =>
              simp only
              split
              · exact hlend hq (Payload.size_zeros n) rfl (Nat.le_succ _)
              · exact report p size l q account _

theorem release {b : Handle Loan} (hb : ¬l.Concerns p size b) (falling : Option (Handle Account)) :
    Elsewhere p size l (l.release falling b) := by
  unfold Ledger.release
  cases hloan : l.held.get? b with
  | none => exact refl p size l
  | some loan =>
      simp only
      cases hq : (l.drop b).pools.get? loan.pool with
      | none => exact drop hb
      | some account =>
          simp only
          split
          · exact (drop hb).trans (report p size _ _ account _)
          · refine ((drop hb).trans (set hq fun heq => ?_)).trans (report p size _ _ account _)
            exact account.view_put _ fun hn => hb ⟨loan, hloan, heq, hn⟩

theorem free {b : Handle Loan} (hb : ¬l.Concerns p size b) (q : Handle Account) :
    Elsewhere p size l (l.free q b).2 := by
  unfold Ledger.free
  cases l.pools.get? q with
  | none => exact refl p size l
  | some account =>
      cases l.held.get? b with
      | none => exact refl p size l
      | some loan =>
          simp only
          split
          · exact (report p size l q account .refused).trans
              (release (l := l.report q account .refused) hb none)
          · exact release hb none

theorem write {b : Handle Loan} (hb : ¬l.Concerns p size b) (offset : Nat) (data : Payload) :
    Elsewhere p size l (l.write b offset data).2 := by
  unfold Ledger.write
  cases hloan : l.held.get? b with
  | none => exact refl p size l
  | some loan =>
      simp only
      split
      · next hfit =>
        exact overwrite hloan (fun hof => hb ⟨loan, hloan, hof⟩) rfl (Payload.size_overwrite hfit)
      · exact refl p size l

theorem clear {q : Handle Account} (hne : q ≠ p) (eraseVacant : Bool) :
    Elsewhere p size l (l.clear q eraseVacant).2 := by
  unfold Ledger.clear
  cases hq : l.pools.get? q with
  | none => exact refl p size l
  | some account =>
      exact (set hq fun heq => absurd heq hne).trans (report p size _ q account _)

theorem emptied {q : Handle Account} {account : Account} (hq : l.pools.get? q = some account)
    (hne : q ≠ p) : Elsewhere p size l (l.emptied q account) :=
  (set hq fun heq => absurd heq hne).trans (report p size _ q account _)

theorem reports (p : Handle Account) (size : Nat) (l : Ledger) (q : Handle Account)
    (account : Account) (events : List Event) :
    Elsewhere p size l (events.foldl (fun l event => l.report q account event) l) := by
  induction events generalizing l with
  | nil => exact refl p size l
  | cons event rest ih => exact (report p size l q account event).trans (ih _)

theorem closed {q : Handle Account} (hne : q ≠ p) (l : Ledger) (account : Account)
    (receipt : Receipt) : Elsewhere p size l (l.closed q account receipt) :=
  (reports p size l q account receipt.events.2).trans (remove hne)

end Elsewhere

end Ledger

end BlockPool
