import BlockPool.Proofs.Ledger.Follows

/-! Steps of two ledgers, one of which follows a size of one pool of the other, that are seen alike. Every
action that concerns the size is matched by the same action in the ledger that follows. -/

namespace BlockPool

theorem Receipt.about_events (r : Receipt) (size : Nat) :
    ∀ event ∈ r.events.1 :: r.events.2, event.about size = false := by
  unfold events
  split <;> simp [Event.about]

theorem ViewLike.stack {serials : List Nat} {size : Nat} {a a' : Account}
    (h : ViewLike serials (a.view size) (a'.view size)) :
    List.Forall₂ (Piece.Like serials) (a.shelves.stack size) (a'.shelves.stack size) := by
  have hrel := h.2
  unfold Account.view at hrel
  unfold Shelves.stack
  generalize a.shelves.stack? size = s at hrel
  generalize a'.shelves.stack? size = s' at hrel
  cases hrel with
  | none => exact .nil
  | some hstacks => exact hstacks

theorem ViewLike.put {serials : List Nat} {size : Nat} {a a' : Account}
    (h : ViewLike serials (a.view size) (a'.view size)) {stack stack' : List Piece}
    (hstack : List.Forall₂ (Piece.Like serials) stack stack') :
    ViewLike serials (Account.view size { a with shelves := a.shelves.put size stack })
      (Account.view size { a' with shelves := a'.shelves.put size stack' }) := by
  refine ⟨h.1, ?_⟩
  simp only [Account.view, Shelves.put, Function.update_self]
  exact .some hstack

theorem ViewLike.sweep {serials : List Nat} {size : Nat} {a a' : Account}
    (h : ViewLike serials (a.view size) (a'.view size)) {gone gone' : Nat → Bool}
    (hgone : gone' size = gone size) :
    ViewLike serials (Account.view size { a with shelves := a.shelves.sweep gone })
      (Account.view size { a' with shelves := a'.shelves.sweep gone' }) := by
  refine ⟨h.1, ?_⟩
  have hrel := h.2
  unfold Account.view at hrel
  simp only [Account.view, Shelves.sweep, hgone]
  split
  · exact .none
  · generalize a.shelves.stack? size = s at hrel ⊢
    generalize a'.shelves.stack? size = s' at hrel ⊢
    cases hrel with
    | none => exact .none
    | some hstacks => exact .some .nil

theorem ViewLike.isNone {serials : List Nat} {size : Nat} {a a' : Account}
    (h : ViewLike serials (a.view size) (a'.view size)) :
    (a'.shelves.stack? size).isNone = (a.shelves.stack? size).isNone := by
  have hrel := h.2
  unfold Account.view at hrel
  generalize a.shelves.stack? size = s at hrel ⊢
  generalize a'.shelves.stack? size = s' at hrel ⊢
  cases hrel <;> rfl

namespace Ledger

/-- Each ledger made a step; the one still follows the other, and both steps were seen alike. -/
structure Match (p : Handle Account) (size : Nat) (blocks serials : List Nat) (l l' m m' : Ledger)
    (o o' : Outcome) : Prop where
  follows : Follows p size blocks serials l' m'
  outcome : o.Like serials o'
  said : ∃ events, Says p size l l' events ∧ Says ⟨0⟩ size m m' events

namespace Follows

variable {p : Handle Account} {size : Nat} {blocks serials : List Nat} {l m : Ledger}
  (h : Follows p size blocks serials l m)

include h

/-- A step that changes nothing in either ledger. -/
theorem stand_still {o o' : Outcome} (houtcome : o.Like serials o') :
    Match p size blocks serials l l m m o o' :=
  ⟨h, houtcome, [], .of_log rfl, .of_log rfl⟩

/-- The pool is closed in both ledgers, or open in both with the same to say of the size. -/
theorem accounts : (l.pools.get? p = none ∧ m.pools.get? ⟨0⟩ = none) ∨
    ∃ account account', l.pools.get? p = some account ∧ m.pools.get? ⟨0⟩ = some account' ∧
      ViewLike serials (account.view size) (account'.view size) := by
  have hview := h.view
  unfold Ledger.view at hview
  cases hp : l.pools.get? p with
  | none =>
      rw [hp, Option.map_none, rel_none_iff, Option.map_eq_none_iff] at hview
      exact Or.inl ⟨rfl, hview⟩
  | some account =>
      rw [hp, Option.map_some, rel_some_iff] at hview
      obtain ⟨v, hv, hlike⟩ := hview
      obtain ⟨account', hp', rfl⟩ := Option.map_eq_some_iff.mp hv
      exact Or.inr ⟨account, account', rfl, hp', hlike⟩

theorem enter {config : Config} (hnew : (l.pools.add { config }).1 = p) :
    Match p size blocks serials l (l.enter config).2 m (m.enter config).2 .done .done := by
  obtain ⟨hfirst, hfollows⟩ := h.add hnew ⟨rfl, .none⟩
  have hlog : (l.enter config).2.log = (l.report p { config } .created).log := by
    rw [← hnew]
    rfl
  have hlog' : (m.enter config).2.log = (m.report ⟨0⟩ { config } .created).log := by
    rw [← hfirst]
    rfl
  exact ⟨hfollows.report _ _ _ _ _ _, .done, [.created], .of_report hlog rfl, .of_report hlog' rfl⟩

/-- A piece is handed out in both ledgers. -/
theorem lend_piece {account account' : Account} (hp : l.pools.get? p = some account)
    (hp' : m.pools.get? ⟨0⟩ = some account')
    (hview : ViewLike serials (account.view size) (account'.view size)) {rest rest' : List Piece}
    (hrest : List.Forall₂ (Piece.Like serials) rest rest') {piece piece' : Piece}
    (hpiece : piece.Like serials piece') (hsize : piece.payload.size = size) (supply : Supply) :
    Match p size (blocks ++ [l.held.entries.size]) serials
      l (l.lend p account size rest l.heap piece supply).2
      m (m.lend ⟨0⟩ account' size rest' m.heap piece' supply).2
      (.issued piece) (.issued piece') := by
  have hloan : Loan.Like serials p size { piece, pool := p } { piece := piece', pool := ⟨0⟩ } :=
    ⟨⟨rfl, hsize⟩, rfl, hpiece⟩
  have habout : (Event.supplied supply size).about size = true := decide_eq_true rfl
  refine ⟨((h.set hp hp' (hview.put hrest)).lend hloan).report _ _ _ _ _ _, .issued hpiece,
    [.supplied supply size], .of_report rfl habout, .of_report rfl habout⟩

omit h in
theorem lentBy_lend (account : Account) (rest : List Piece) (heap : Heap) (piece : Piece)
    (supply : Supply) :
    World.lentBy (p.as Pool) size blocks (.alloc (p.as Pool) size)
      (l.lend p account size rest heap piece supply).1 = blocks ++ [l.held.entries.size] :=
  if_pos ⟨rfl, rfl⟩

/-- A request for the size. The blocks that are followed grow by the one that is handed out, and their
chunks by a fresh one. -/
theorem alloc (htidy : l.Tidy) : ∃ serials', serials <+: serials' ∧
    Match p size (World.lentBy (p.as Pool) size blocks (.alloc (p.as Pool) size) (l.alloc p size).1)
      serials' l (l.alloc p size).2 m (m.alloc ⟨0⟩ size).2 ((l.alloc p size).1.outcome size)
      ((m.alloc ⟨0⟩ size).1.outcome size) := by
  unfold Ledger.alloc
  rcases h.accounts with ⟨hp, hp'⟩ | ⟨account, account', hp, hp', hlike⟩
  · simp only [hp, hp']
    exact ⟨serials, List.prefix_rfl, h.stand_still (.fault _)⟩
  · have hconfig : account'.config = account.config := hlike.1
    simp only [hp, hp', hconfig]
    cases account.config.refusal? size with
    | some error => exact ⟨serials, List.prefix_rfl, h.stand_still (.fault _)⟩
    | none =>
        have hstacks := hlike.stack
        have hsizes := htidy p account hp size
        simp only
        generalize account.shelves.stack size = stack at hstacks hsizes ⊢
        generalize account'.shelves.stack size = stack' at hstacks ⊢
        cases hstacks with
        | @cons piece piece' rest rest' hpiece hrest =>
            have hsize := hsizes piece List.mem_cons_self
            have hlend := h.lend_piece hp hp' hlike hrest hpiece hsize .hit
            refine ⟨serials, List.prefix_rfl, ?_⟩
            rw [lentBy_lend]
            exact hlend
        | nil =>
            simp only
            cases hgranted : l.heap.grants size with
            | true =>
                have hgranted' : m.heap.grants size = true := (congrFun h.grants size).trans hgranted
                have hpiece : Piece.Like (serials ++ [l.heap.issued])
                    { serial := l.heap.issued, payload := .zeros size }
                    { serial := m.heap.issued, payload := .zeros size } := by
                  refine ⟨?_, rfl⟩
                  rw [h.issued]
                  exact List.getElem?_concat_length
                have hpre := List.prefix_append serials [l.heap.issued]
                have hlend := h.issue.lend_piece hp hp' (hlike.mono hpre) .nil hpiece
                  (Payload.size_zeros size) (.miss (account.shelves.stack? size).isNone)
                refine ⟨serials ++ [l.heap.issued], hpre, ?_⟩
                rw [if_pos rfl, if_pos hgranted', lentBy_lend, hlike.isNone]
                exact ⟨hlend.follows, hlend.outcome, hlend.said⟩
            | false =>
                have hdenied : ¬m.heap.grants size = true := by
                  rw [h.grants, hgranted]
                  exact Bool.false_ne_true
                have habout : (Event.outOfMemory size).about size = true := decide_eq_true rfl
                refine ⟨serials, List.prefix_rfl, ?_⟩
                rw [if_neg Bool.false_ne_true, if_neg hdenied]
                exact ⟨h.report _ _ _ _ _ _, .fault _, [.outOfMemory size], .of_report rfl habout,
                  .of_report rfl habout⟩

/-- A block of the size is let go of, or was before; the pool falls in both ledgers or in neither. -/
theorem release {b : Handle Loan} (hb : b.index ∈ blocks) {falling falling' : Option (Handle Account)}
    (hfalling : falling' = some ⟨0⟩ ↔ falling = some p) :
    Match p size blocks serials l (l.release falling b)
      m (m.release falling' ⟨blocks.idxOf b.index⟩) .done .done := by
  have hrel : Option.Rel _ (l.held.get? b) _ := h.loan b.index _ (place_of_mem hb)
  unfold Ledger.release
  cases hx : l.held.get? b with
  | none =>
      rw [hx, rel_none_iff] at hrel
      simp only [hrel]
      exact h.stand_still .done
  | some x =>
      rw [hx] at hrel
      obtain ⟨y, hy, hlike⟩ := rel_some_iff.mp hrel
      have hdrop := h.drop hx hlike.of
      rcases h.accounts with ⟨hp, hp'⟩ | ⟨account, account', hp, hp', hview⟩
      · have hclosed : (l.drop b).pools.get? p = none := hp
        have hclosed' : (m.drop ⟨blocks.idxOf b.index⟩).pools.get? ⟨0⟩ = none := hp'
        simp only [hy, hlike.of.1, hlike.home, hclosed, hclosed']
        exact ⟨hdrop, .done, [], .of_log rfl, .of_log rfl⟩
      · have hopen : (l.drop b).pools.get? p = some account := hp
        have hopen' : (m.drop ⟨blocks.idxOf b.index⟩).pools.get? ⟨0⟩ = some account' := hp'
        simp only [hy, hlike.of.1, hlike.home, hlike.of.2, hlike.of_right.2, hopen, hopen', hfalling]
        split
        · refine ⟨hdrop.report _ _ _ _ _ _, .done, [], ?_, ?_⟩
          · exact Says.of_other rfl fun _ => rfl
          · exact Says.of_other rfl fun _ => rfl
        · have hput := hview.put (.cons hlike.piece hview.stack)
          refine ⟨(hdrop.set hopen hopen' hput).report _ _ _ _ _ _, .done,
            [.cached size ((l.drop b).outOf p size)], .of_report rfl (decide_eq_true rfl), ?_⟩
          rw [← hdrop.outOf]
          exact .of_report rfl (decide_eq_true rfl)

theorem release_none {b : Handle Loan} (hb : b.index ∈ blocks) :
    Match p size blocks serials l (l.release none b)
      m (m.release none ⟨blocks.idxOf b.index⟩) .done .done :=
  h.release hb (by simp)

section Own

variable {b : Handle Loan} {x : Loan} (hx : l.held.get? b = some x) (hof : x.Of p size)

include hx hof

/-- A block of the size is freed through its own pool. -/
theorem free_own : Match p size blocks serials l (l.free p b).2
    m (m.free ⟨0⟩ ⟨blocks.idxOf b.index⟩).2 ((l.free p b).1.outcome size)
    ((m.free ⟨0⟩ ⟨blocks.idxOf b.index⟩).1.outcome size) := by
  obtain ⟨y, hy, hlike⟩ := h.stand hx hof
  unfold Ledger.free
  rcases h.accounts with ⟨hp, hp'⟩ | ⟨account, account', hp, hp', hview⟩
  · simp only [hp, hp']
    exact h.stand_still (.fault _)
  · simp only [hp, hp', hx, hy, hof.1, hlike.home, ne_eq, not_true_eq_false, and_false, if_false]
    exact h.release_none (h.own b ⟨x, hx, hof⟩)

/-- A block of the size is freed through another pool, which may refuse it. -/
theorem free_other {q : Handle Account} (hq : (l.pools.get? q).isSome = true) (hne : q ≠ p) :
    Match p size blocks serials l (l.free q b).2
      m (m.release none ⟨blocks.idxOf b.index⟩) .done .done := by
  have hmem := h.own b ⟨x, hx, hof⟩
  obtain ⟨account, haccount⟩ := Option.isSome_iff_exists.mp hq
  unfold Ledger.free
  simp only [haccount, hx]
  split
  · have hreport := h.elsewhere (Elsewhere.report p size l q account .refused)
    have hrelease := hreport.release_none hmem
    obtain ⟨events, hsays, hsays'⟩ := hrelease.said
    have hfirst : Says p size l (l.report q account .refused) [] :=
      .of_other rfl fun heq => absurd heq hne
    exact ⟨hrelease.follows, .done, events, hfirst.trans hsays, hsays'⟩
  · exact h.release_none hmem

theorem write (offset : Nat) (data : Payload) : Match p size blocks serials
    l (l.write b offset data).2 m (m.write ⟨blocks.idxOf b.index⟩ offset data).2
    ((l.write b offset data).1.outcome size)
    ((m.write ⟨blocks.idxOf b.index⟩ offset data).1.outcome size) := by
  obtain ⟨y, hy, hlike⟩ := h.stand hx hof
  unfold Ledger.write
  simp only [hx, hy, hof.2, hlike.of_right.2]
  by_cases hfit : offset + data.size ≤ size
  · rw [if_pos hfit, if_pos hfit, hlike.piece.2]
    refine ⟨h.overwrite hx hof ⟨⟨hof.1, ?_⟩, hlike.home, hlike.piece.1, rfl⟩, .done, [],
      .of_log rfl, .of_log rfl⟩
    exact (Payload.size_overwrite (hfit.trans hof.2.ge)).trans hof.2
  · rw [if_neg hfit, if_neg hfit]
    exact h.stand_still (.fault _)

end Own

theorem clear (eraseVacant : Bool) : Match p size blocks serials l (l.clear p eraseVacant).2
    m (m.clear ⟨0⟩ eraseVacant).2 ((l.clear p eraseVacant).1.outcome size)
    ((m.clear ⟨0⟩ eraseVacant).1.outcome size) := by
  unfold Ledger.clear
  rcases h.accounts with ⟨hp, hp'⟩ | ⟨account, account', hp, hp', hview⟩
  · simp only [hp, hp']
    exact h.stand_still (.fault _)
  · simp only [hp, hp']
    have hgone : (eraseVacant && decide (m.outOf ⟨0⟩ size = 0)) =
        (eraseVacant && decide (l.outOf p size = 0)) := by rw [h.outOf]
    refine ⟨(h.set hp hp' (hview.sweep hgone)).report _ _ _ _ _ _, .done, [], ?_, ?_⟩
    · exact Says.of_other rfl fun _ => rfl
    · exact Says.of_other rfl fun _ => rfl

/-! ### Tearing the pool down -/

omit h in
/-- The line of a size in the receipt says what is parked for it and what callers hold. -/
theorem find?_receipt (l : Ledger) (p : Handle Account) (account : Account) (size : Nat) :
    (l.receipt p account).find? size = (account.shelves.stack? size).map fun stack =>
      { capacity := size, cached := stack.length, inUse := l.outOf p size } := by
  have hmap : (l.receipt p account).find? size =
      (account.shelves.sizes.sort.find? fun n => decide (n = size)).map fun n =>
        { capacity := n, cached := (account.shelves.stack n).length, inUse := l.outOf p n } :=
    List.find?_map ..
  have hmem : size ∈ account.shelves.sizes.sort ↔ (account.shelves.stack? size).isSome = true := by
    rw [Finset.mem_sort, account.shelves.mem_sizes_iff]
  rw [hmap]
  cases hfind : account.shelves.sizes.sort.find? fun n => decide (n = size) with
  | none =>
      have hnone : account.shelves.stack? size = none := by
        rw [← Option.not_isSome_iff_eq_none, ← hmem]
        exact fun hin => absurd (decide_eq_true rfl) (List.find?_eq_none.mp hfind size hin)
      rw [hnone]
      rfl
  | some n =>
      have hn : n = size := by simpa using List.find?_some hfind
      subst hn
      obtain ⟨stack, hstack⟩ := Option.isSome_iff_exists.mp
        (hmem.mp (List.mem_of_find?_eq_some hfind))
      simp [Shelves.stack, hstack]

theorem find?_receipt_eq {account account' : Account}
    (hview : ViewLike serials (account.view size) (account'.view size)) :
    (m.receipt ⟨0⟩ account').find? size = (l.receipt p account).find? size := by
  have hrel := hview.2
  unfold Account.view at hrel
  rw [find?_receipt, find?_receipt, h.outOf]
  generalize account.shelves.stack? size = s at hrel ⊢
  generalize account'.shelves.stack? size = s' at hrel ⊢
  cases hrel with
  | none => rfl
  | some hstacks => rw [Option.map_some, Option.map_some, hstacks.length_eq]

theorem emptied {account account' : Account} (hp : l.pools.get? p = some account)
    (hp' : m.pools.get? ⟨0⟩ = some account')
    (hview : ViewLike serials (account.view size) (account'.view size)) :
    Follows p size blocks serials (l.emptied p account) (m.emptied ⟨0⟩ account') := by
  have hempty : ViewLike serials (Account.view size { account with shelves := .empty })
      (Account.view size { account' with shelves := .empty }) := ⟨hview.1, .none⟩
  exact (h.set hp hp' hempty).report _ _ _ _ _ _

/-- The handles in the ledger that follows of those of these blocks that are followed. -/
def followers (blocks : List Nat) (during : List (Handle Loan)) : List (Handle Loan) :=
  (during.filter fun b => decide (b.index ∈ blocks)).map fun b => ⟨blocks.idxOf b.index⟩

/-- Blocks are released in the middle of the teardown of the pool in both ledgers. -/
theorem releases_falling (during : List (Handle Loan)) :
    Follows p size blocks serials (during.foldl (fun l b => l.release (some p) b) l)
      ((followers blocks during).foldl (fun m b => m.release (some ⟨0⟩) b) m) := by
  induction during generalizing l m with
  | nil => exact h
  | cons b rest ih =>
      by_cases hb : b.index ∈ blocks
      · have hfollowers : followers blocks (b :: rest) =
            ⟨blocks.idxOf b.index⟩ :: followers blocks rest := by
          rw [followers, List.filter_cons, if_pos (decide_eq_true hb)]
          rfl
        rw [hfollowers]
        exact ih (h.release hb (by simp)).follows
      · have hfollowers : followers blocks (b :: rest) = followers blocks rest := by
          rw [followers, List.filter_cons, if_neg (by simpa using hb)]
          rfl
        rw [hfollowers]
        exact ih (h.elsewhere (Elsewhere.release (mt (h.own b) hb) _))

theorem reports_right (account' : Account) (events : List Event) :
    Follows p size blocks serials l (events.foldl (fun m event => m.report ⟨0⟩ account' event) m) := by
  induction events generalizing m with
  | nil => exact h
  | cons event rest ih => exact ih { h with }

theorem closed (account account' : Account) (receipt receipt' : Receipt) :
    Follows p size blocks serials (l.closed p account receipt) (m.closed ⟨0⟩ account' receipt') :=
  ((h.elsewhere (Elsewhere.reports p size l p account receipt.events.2)).reports_right account'
    receipt'.events.2).remove

end Follows

namespace Says

variable {p : Handle Account} {size : Nat}

/-- Nothing that a pool reports of its teardown is about a single size. -/
theorem tearDown (l : Ledger) (account : Account) (during : List (Handle Loan)) :
    Says p size l ((during.foldl (fun l b => l.release (some p) b) (l.emptied p account)).closed p
      account (l.receipt p account)) [] := by
  have habout := (l.receipt p account).about_events size
  have hrelease : ∀ (l : Ledger) (b : Handle Loan), Says p size l (l.release (some p) b) [] := by
    intro l b
    unfold Ledger.release
    cases l.held.get? b with
    | none => exact .of_log rfl
    | some loan =>
        simp only
        cases (l.drop b).pools.get? loan.pool with
        | none => exact .of_log rfl
        | some account =>
            simp only
            split
            · exact Says.of_other rfl fun _ => rfl
            · next hne => exact .of_other rfl fun heq => absurd (congrArg some heq.symm) hne
  have hreleases : ∀ l : Ledger,
      Says p size l (during.foldl (fun l b => l.release (some p) b) l) [] := by
    induction during with
    | nil => exact fun l => .of_log rfl
    | cons b rest ih => exact fun l => (hrelease l b).trans (ih _)
  have hfirst : Says p size l (l.emptied p account) [] :=
    .of_other rfl fun _ => habout _ List.mem_cons_self
  have hlast : ∀ l' : Ledger, Says p size l' (l'.closed p account (l.receipt p account)) [] :=
    fun l' => (Says.reports (fun _ hmem => habout _ (List.mem_cons_of_mem _ hmem)) l').trans
      (.of_log rfl)
  exact (hfirst.trans (hreleases _)).trans (hlast _)

end Says

namespace Follows

variable {p : Handle Account} {size : Nat} {blocks serials : List Nat} {l m : Ledger}

/-- The pool is torn down in both ledgers, or neither has it; the receipts have the same line for the
size. -/
theorem tearDown (h : Follows p size blocks serials l m) {during : List (Handle Loan)}
    (hheld : ∀ b ∈ during, (l.held.get? b).isSome = true) :
    (∃ fault, l.tearDown p during = (.error fault, l) ∧
      m.tearDown ⟨0⟩ (followers blocks during) = (.error fault, m)) ∨
    ∃ receipt receipt' l' m', l.tearDown p during = (.ok receipt, l') ∧
      m.tearDown ⟨0⟩ (followers blocks during) = (.ok receipt', m') ∧
      receipt'.find? size = receipt.find? size ∧
      Match p size blocks serials l l' m m' .done .done := by
  unfold Ledger.tearDown
  rcases h.accounts with ⟨hp, hp'⟩ | ⟨account, account', hp, hp', hview⟩
  · simp only [hp, hp']
    exact Or.inl ⟨_, rfl, rfl⟩
  · have hheld' : ∀ b ∈ followers blocks during, (m.held.get? b).isSome = true := by
      intro b' hb'
      obtain ⟨b, hmem, rfl⟩ := List.mem_map.mp hb'
      obtain ⟨hb, hblock⟩ := List.mem_filter.mp hmem
      obtain ⟨x, hx⟩ := Option.isSome_iff_exists.mp (hheld b hb)
      obtain ⟨y, hy, -⟩ := h.stand_of_mem (of_decide_eq_true hblock) hx
      exact Option.isSome_of_eq_some hy
    simp only [hp, hp', if_pos hheld, if_pos hheld']
    refine Or.inr ⟨_, _, _, _, rfl, rfl, h.find?_receipt_eq hview, ?_, .done, [],
      Says.tearDown l account during, Says.tearDown m account' _⟩
    exact ((h.emptied hp hp' hview).releases_falling during).closed account account' _ _

end Follows
end Ledger
end BlockPool
