import BlockPool.Proofs.Ledger.Match

/-! Sizes and pools do not interfere. The excerpt of a run that concerns one size of one pool is a run in
which every step is seen as in the full run, but for the numbers of the chunks. So whatever is done with
other sizes and other pools cannot be told from what is seen of this size. -/

namespace BlockPool

/-- What is told of a teardown to a caller who wants to know what the pool held. -/
def Answer.ofDestroy : Except Fault Receipt → Answer
  | .ok r => .receipt r
  | .error f => .fault f

/-- What is told of a teardown to a caller who does not. -/
def Answer.ofDiscard : Except Fault Receipt → Answer
  | .ok _ => .done
  | .error f => .fault f

theorem Sight.Like.mono {serials serials' : List Nat} (hpre : serials <+: serials') {x y : Sight}
    (h : x.Like serials y) : x.Like serials' y := by
  refine ⟨?_, h.said, h.contains, h.inUse, h.parked.imp fun _ _ hxy => hxy.mono hpre⟩
  have houtcome := h.outcome
  generalize x.outcome = o at houtcome
  generalize y.outcome = o' at houtcome
  cases houtcome with
  | done => exact .done
  | issued alike => exact .issued (alike.mono hpre)
  | line l => exact .line l
  | fault f => exact .fault f

namespace World

variable {w w' v : World} {p : PoolId} {size : Nat} {blocks blocks' serials serials' : List Nat}

theorem Sound.tidy {falling : Option PoolId} (h : w.Sound falling) : w.ledger.Tidy := by
  intro q account haccount n piece hpiece
  rw [show w.ledger.pools.get? q = _ from account?_ledger w (q.as Pool), Option.map_eq_some_iff]
    at haccount
  obtain ⟨pool, hq, rfl⟩ := haccount
  rw [Pool.stack_account] at hpiece
  obtain ⟨chunk, hchunk, rfl⟩ := List.mem_map.mp hpiece
  have ht := h.table _ pool hq
  cases hc : pool.classes.classFor? n with
  | none =>
      rw [ClassTable.parkedFor_of_none hc] at hchunk
      cases hchunk
  | some c =>
      obtain ⟨hclass, hcap⟩ := ht.classFor?_eq_some_iff.mp hc
      rw [ClassTable.parkedFor_of_classFor? hc] at hchunk
      exact ((ht.sound _ c hclass).size_eq chunk hchunk).trans hcap

theorem concerns_iff (w : World) (p : PoolId) (size : Nat) (b : BlockId) :
    w.concerns p size b = true ↔ w.ledger.Concerns (p.as Account) size (b.as Loan) := by
  unfold concerns Ledger.Concerns
  rw [loan?_ledger]
  cases w.held.get? b with
  | none => simp
  | some block => simp [Loan.Of, Handle.as_inj]

theorem sights_append (p : PoolId) (size : Nat) (w : World) (actions later : List Action) :
    sights p size w (actions ++ later) =
      sights p size w actions ++ sights p size (w.run actions).2 later := by
  induction actions generalizing w with
  | nil => rfl
  | cons a rest ih => exact congrArg (List.cons _) (ih (w.step a).2)

/-! ### Steps seen alike -/

/-- Matching steps of the ledgers are seen alike in the worlds. -/
theorem Sound.sight_like {falling : Option PoolId} (hw' : w'.Sound falling)
    (hfalling : falling ≠ some p) {v' : World} (hv' : v'.Sound none) {o o' : Outcome}
    (h : Ledger.Match (p.as Account) size blocks serials w.ledger w'.ledger v.ledger v'.ledger o o') :
    (w.sight p size w' o).Like serials (v.sight ⟨0⟩ size v' o') := by
  obtain ⟨events, hsays, hsays'⟩ := h.said
  have hsaid : saidBetween v.log v'.log ⟨0⟩ size = saidBetween w.log w'.log p size :=
    hsays'.said.trans hsays.said.symm
  have hout : v'.outOf ⟨0⟩ size = w'.outOf p size := by
    rw [← outOf_ledger, ← outOf_ledger]
    exact h.follows.outOf
  have hget : (w'.pools.get? p).map Pool.account = w'.ledger.pools.get? (p.as Account) :=
    (account?_ledger w' p).symm
  have hget' : (v'.pools.get? ⟨0⟩).map Pool.account = v'.ledger.pools.get? ⟨0⟩ :=
    (account?_ledger v' ⟨0⟩).symm
  rcases h.follows.accounts with ⟨hp, hp'⟩ | ⟨account, account', hp, hp', hview⟩
  · rw [hp, Option.map_eq_none_iff] at hget
    rw [hp', Option.map_eq_none_iff] at hget'
    refine ⟨h.outcome, hsaid, ?_, ?_, ?_⟩
    · simp only [sight, hget, hget', Option.any_none]
    · simp only [sight, hget, hget', Option.elim_none]
    · simp only [sight, hget, hget', Option.elim_none]
      exact .nil
  · rw [hp, Option.map_eq_some_iff] at hget
    rw [hp', Option.map_eq_some_iff] at hget'
    obtain ⟨pool, hpool, rfl⟩ := hget
    obtain ⟨pool', hpool', rfl⟩ := hget'
    have ht := hw'.table p pool hpool
    have ht' := hv'.table ⟨0⟩ pool' hpool'
    refine ⟨h.outcome, hsaid, ?_, ?_, ?_⟩
    · have hnone : ((pool'.classes.classFor? size).map _).isNone =
          ((pool.classes.classFor? size).map _).isNone := hview.isNone
      rw [Option.isNone_map, Option.isNone_map] at hnone
      simp only [sight, hpool, hpool', Option.any_some, ClassTable.contains]
      rw [← ht.classFor?_isSome, ← ht'.classFor?_isSome, ← Option.not_isNone, ← Option.not_isNone,
        hnone]
    · simp only [sight, hpool, hpool', Option.elim_some]
      rw [hw'.in_use p pool hpool hfalling, hv'.in_use ⟨0⟩ pool' hpool' (by simp)]
      exact hout
    · simp only [sight, hpool, hpool', Option.elim_some]
      have hstack := hview.stack
      rw [Pool.stack_account, Pool.stack_account] at hstack
      exact hstack

/-- These steps of an excerpt, made from `v`, are seen as they are in the full run, and lead to a world
that follows `w'`. -/
structure Replays (p : PoolId) (size : Nat) (blocks serials : List Nat) (w' v : World)
    (steps : List (Action × Sight)) : Prop where
  sights : List.Forall₂ (Sight.Like serials) (steps.map (·.2))
    (sights ⟨0⟩ size v (steps.map (·.1)))
  follows : Ledger.Follows (p.as Account) size blocks serials w'.ledger
    (v.run (steps.map (·.1))).2.ledger
  sound : (v.run (steps.map (·.1))).2.Sound none

namespace Replays

variable {steps steps' : List (Action × Sight)}

theorem nil (hv : v.Sound none)
    (h : Ledger.Follows (p.as Account) size blocks serials w'.ledger v.ledger) :
    Replays p size blocks serials w' v [] :=
  ⟨.nil, h, hv⟩

theorem single {falling : Option PoolId} (hw' : w'.Sound falling) (hfalling : falling ≠ some p)
    (hv : v.Sound none) {a : Action} {o : Outcome}
    (h : Ledger.Match (p.as Account) size blocks serials w.ledger w'.ledger v.ledger
      (v.step a).2.ledger o ((v.step a).1.outcome size)) :
    Replays p size blocks serials w' v [(a, w.sight p size w' o)] :=
  ⟨.cons (hw'.sight_like hfalling (hv.step a) h) .nil, h.follows, hv.step a⟩

/-- Actions that match in the ledgers. -/
theorem of_match (hw : w.Sound none) (hv : v.Sound none) {a b : Action}
    (h : Ledger.Match (p.as Account) size blocks serials w.ledger (w.ledger.step a).2 v.ledger
      (v.ledger.step b).2 ((w.ledger.step a).1.outcome size) ((v.ledger.step b).1.outcome size)) :
    Replays p size blocks serials (w.step a).2 v
      [(b, w.sight p size (w.step a).2 ((w.step a).1.outcome size))] := by
  rw [hw.step_ledger a, hv.step_ledger b] at h
  exact single (hw.step a) (by simp) hv h

theorem elsewhere (h : Replays p size blocks serials w v steps)
    (he : Ledger.Elsewhere (p.as Account) size w.ledger w'.ledger) :
    Replays p size blocks serials w' v steps :=
  ⟨h.sights, h.follows.elsewhere he, h.sound⟩

/-- An action that does not concern the size leaves nothing to replay. -/
theorem of_elsewhere (hw : w.Sound none) (hv : v.Sound none) {a : Action}
    (h : Ledger.Follows (p.as Account) size blocks serials w.ledger v.ledger)
    (he : Ledger.Elsewhere (p.as Account) size w.ledger (w.ledger.step a).2) :
    Replays p size blocks serials (w.step a).2 v [] := by
  rw [hw.step_ledger a] at he
  exact nil hv (h.elsewhere he)

theorem append (h : Replays p size blocks serials w v steps) (hpre : serials <+: serials')
    (h' : Replays p size blocks' serials' w' (v.run (steps.map (·.1))).2 steps') :
    Replays p size blocks' serials' w' v (steps ++ steps') := by
  have hrun : (v.run ((steps ++ steps').map (·.1))).2 =
      ((v.run (steps.map (·.1))).2.run (steps'.map (·.1))).2 := by
    rw [List.map_append, run_append]
  refine ⟨?_, hrun ▸ h'.follows, hrun ▸ h'.sound⟩
  rw [List.map_append, List.map_append, sights_append]
  exact List.rel_append (h.sights.imp fun _ _ hxy => hxy.mono hpre) h'.sights

end Replays

/-! ### The steps of an excerpt -/

section Step

variable (hw : w.Sound none) (hv : v.Sound none)
  (h : Ledger.Follows (p.as Account) size blocks serials w.ledger v.ledger)

include hw hv h

theorem replays_alloc (q : PoolId) (n : Nat) : ∃ serials', serials <+: serials' ∧
    Replays p size (lentBy p size blocks (.alloc q n) (w.step (.alloc q n)).1) serials'
      (w.step (.alloc q n)).2 v (excerptStep p size blocks w (.alloc q n)) := by
  by_cases hown : q = p ∧ n = size
  · obtain ⟨rfl, rfl⟩ := hown
    obtain ⟨serials', hpre, hmatch⟩ := h.alloc hw.tidy
    have hanswer : (w.ledger.alloc (q.as Account) n).1 = (w.step (.alloc q n)).1 :=
      congrArg Prod.fst (hw.step_ledger (.alloc q n))
    have hreplays := Replays.of_match hw hv (a := .alloc q n) (b := .alloc ⟨0⟩ n) hmatch
    rw [hanswer] at hreplays
    rw [excerptStep, if_pos ⟨rfl, rfl⟩]
    exact ⟨serials', hpre, hreplays⟩
  · have hblocks : lentBy p size blocks (.alloc q n) (w.step (.alloc q n)).1 = blocks := by
      unfold lentBy
      split
      · next heq _ =>
        cases heq
        exact if_neg hown
      · rfl
    have he : Ledger.Elsewhere (p.as Account) size w.ledger
        (w.ledger.alloc (q.as Account) n).2 := .alloc hw.tidy (by rwa [Handle.as_inj])
    rw [excerptStep, if_neg hown, hblocks]
    exact ⟨serials, List.prefix_rfl, .of_elsewhere hw hv h he⟩

theorem replays_enter {config : Config} {a : Action}
    (ha : ∀ w : World, w.step a = (.opened (w.enter config).1, (w.enter config).2)) :
    Replays p size blocks serials (w.step a).2 v
      (if (w.step a).1 = .opened p then
        [(a, w.sight p size (w.step a).2 ((w.step a).1.outcome size))]
      else []) := by
  have hfull := w.enter_ledger config
  have hpart := v.enter_ledger config
  have hfirst : (w.ledger.pools.add { config }).1.as Pool = (w.enter config).1 :=
    Answer.opened.inj (congrArg Prod.fst hfull)
  rw [ha w]
  split
  · next hopened =>
    have hnew : (w.ledger.pools.add { config }).1 = p.as Account :=
      congrArg (Handle.as Account) (hfirst.trans (Answer.opened.inj hopened))
    have hmatch := h.enter hnew
    rw [hfull, hpart] at hmatch
    refine .single (hw.enter config) (by simp) hv ?_
    rw [ha v]
    exact hmatch
  · next hother =>
    have hne : (w.ledger.pools.add { config }).1 ≠ p.as Account := by
      intro heq
      exact hother (congrArg Answer.opened (hfirst.symm.trans (congrArg (Handle.as Pool) heq)))
    have he : Ledger.Elsewhere (p.as Account) size w.ledger (w.ledger.enter config).2 := .enter hne
    rw [hfull] at he
    exact .nil hv (h.elsewhere he)

theorem replays_openPool (config : Config) :
    Replays p size blocks serials (w.step (.openPool config)).2 v
      (excerptStep p size blocks w (.openPool config)) := by
  cases hproblem : config.problem? with
  | none =>
      have hopen : ∀ w : World, w.step (.openPool config) =
          (.opened (w.enter config).1, (w.enter config).2) := fun w => by
        simp only [step, openPool, Config.check, hproblem]
      exact replays_enter hw hv h hopen
  | some problem =>
      have hstep : w.step (.openPool config) = (.fault (.refused problem.toError), w) := by
        simp only [step, openPool, Config.check, hproblem]
      rw [excerptStep, hstep, if_neg Answer.noConfusion]
      exact .nil hv h

theorem replays_clear (q : PoolId) (eraseVacant : Bool) :
    Replays p size blocks serials (w.step (.clear q eraseVacant)).2 v
      (excerptStep p size blocks w (.clear q eraseVacant)) := by
  rw [excerptStep]
  split
  · next heq =>
    subst heq
    exact .of_match hw hv (h.clear eraseVacant)
  · next hne =>
    exact .of_elsewhere hw hv h (.clear (mt Handle.as_inj.mp hne) eraseVacant)

omit hw in
/-- A block of the size that is let go of, in whatever way, is just released in the excerpt. -/
theorem replays_released {b : BlockId} (hb : w.concerns p size b = true) {falling : Option PoolId}
    {w' : World} (hw' : w'.Sound falling) (hfalling : falling ≠ some p)
    (hmatch : Ledger.Match (p.as Account) size blocks serials w.ledger w'.ledger
      v.ledger (v.ledger.release none ⟨blocks.idxOf b.index⟩) .done .done) :
    Replays p size blocks serials w' v
      [(.release (renamed blocks b), w.sight p size w' .done)] := by
  obtain ⟨x, hx, hof⟩ := (w.concerns_iff p size b).mp hb
  obtain ⟨y, hy, hlike⟩ := h.stand hx hof
  have hpart := hv.step_ledger (.release (renamed blocks b))
  have hheld : v.ledger.held.get? ((renamed blocks b).as Loan) = some y := hy
  simp only [Ledger.step, hheld] at hpart
  obtain ⟨hanswer, hledger⟩ := Prod.mk.inj hpart
  refine .single hw' hfalling hv ?_
  rw [← hanswer, ← hledger]
  exact hmatch

theorem replays_release (b : BlockId) : Replays p size blocks serials (w.step (.release b)).2 v
    (excerptStep p size blocks w (.release b)) := by
  have hrelease : w.ledger.release none (b.as Loan) = (w.step (.release b)).2.ledger := by
    rw [step_world]
    exact hw.release_ledger b
  rw [excerptStep]
  split
  · next hb =>
    have hconcerns := (w.concerns_iff p size b).mp hb
    have hheld : (w.held.get? b).isSome = true := by
      obtain ⟨x, hx, -⟩ := hconcerns
      rw [← Option.isSome_map, ← loan?_ledger, hx, Option.isSome_some]
    have hanswer : (w.step (.release b)).1 = .done := by simp only [step, if_pos hheld]
    have hmatch := h.release_none (h.own _ hconcerns)
    rw [hrelease] at hmatch
    rw [hanswer]
    exact replays_released hv h hb (hw.step _) (by simp) hmatch
  · next hb =>
    have he := Ledger.Elsewhere.release (mt (w.concerns_iff p size b).mpr hb) none
    rw [hrelease] at he
    exact .nil hv (h.elsewhere he)

theorem replays_free (q : PoolId) (b : BlockId) :
    Replays p size blocks serials (w.step (.free q b)).2 v
      (excerptStep p size blocks w (.free q b)) := by
  rw [excerptStep]
  split
  · next hb =>
    obtain ⟨x, hx, hof⟩ := (w.concerns_iff p size b).mp hb
    split
    · next heq =>
      subst heq
      exact .of_match hw hv (h.free_own hx hof)
    · next hne =>
      split
      · next hq =>
        have hfree : w.ledger.free (q.as Account) (b.as Loan) = _ := hw.step_ledger (.free q b)
        have hopen : (w.ledger.pools.get? (q.as Account)).isSome = true := by
          rw [account?_ledger, Option.isSome_map]
          exact hq
        have hmatch := h.free_other hx hof hopen (mt Handle.as_inj.mp hne)
        rw [hfree] at hmatch
        exact replays_released hv h hb (hw.step _) (by simp) hmatch
      · next hq =>
        have hclosed : w.pools.get? q = none := by simpa using hq
        have hstep : w.step (.free q b) = (.fault .noSuchPool, w) := by
          simp only [step, World.free, hclosed]
        rw [hstep]
        exact .nil hv h
  · next hb =>
    exact .of_elsewhere hw hv h (.free (mt (w.concerns_iff p size b).mpr hb) _)

theorem replays_write (b : BlockId) (offset : Nat) (data : Payload) :
    Replays p size blocks serials (w.step (.write b offset data)).2 v
      (excerptStep p size blocks w (.write b offset data)) := by
  rw [excerptStep]
  split
  · next hb =>
    obtain ⟨x, hx, hof⟩ := (w.concerns_iff p size b).mp hb
    exact .of_match hw hv (h.write hx hof offset data)
  · next hb =>
    exact .of_elsewhere hw hv h (.write (mt (w.concerns_iff p size b).mpr hb) offset data)

end Step

/-! ### Teardowns -/

theorem step_destroy (w : World) (p : PoolId) (during : List BlockId) :
    w.step (.destroy p during) =
      (.ofDestroy (w.tearDown p during).1, (w.tearDown p during).2) := by
  rcases htear : w.tearDown p during with ⟨_ | _, _⟩ <;> simp only [step, htear, Answer.ofDestroy]

theorem step_discard (w : World) (p : PoolId) (during : List BlockId) :
    w.step (.discard p during) =
      (.ofDiscard (w.tearDown p during).1, (w.tearDown p during).2) := by
  rcases htear : w.tearDown p during with ⟨_ | _, _⟩ <;> simp only [step, htear, Answer.ofDiscard]

/-- Blocks released in the middle of the teardown of another pool. -/
theorem replays_releases {q : PoolId} (hne : q ≠ p) (during : List BlockId) (hw : w.Sound (some q))
    (hv : v.Sound none)
    (h : Ledger.Follows (p.as Account) size blocks serials w.ledger v.ledger) :
    Replays p size blocks serials (during.foldl World.release w) v
      (excerptReleases p size blocks w during) := by
  have hfalls : (some q : Option PoolId) ≠ some p := fun heq => hne (Option.some.inj heq)
  induction during generalizing w v with
  | nil => exact .nil hv h
  | cons b rest ih =>
      have hrelease : w.ledger.release (some (q.as Account)) (b.as Loan) = (w.release b).ledger :=
        hw.release_ledger b
      unfold excerptReleases
      split
      · next hb =>
        obtain ⟨x, hx, hof⟩ := (w.concerns_iff p size b).mp hb
        have hfalling : (none : Option (Handle Account)) = some ⟨0⟩ ↔
            some (q.as Account) = some (p.as Account) := by
          simp [Handle.as_inj, hne]
        have hmatch := h.release (h.own _ ⟨x, hx, hof⟩) hfalling
        rw [hrelease] at hmatch
        have hfirst := replays_released hv h hb (hw.release b) hfalls hmatch
        exact hfirst.append List.prefix_rfl (ih (hw.release b) hfirst.sound hfirst.follows)
      · next hb =>
        have he := Ledger.Elsewhere.release (mt (w.concerns_iff p size b).mpr hb)
          (some (q.as Account))
        rw [hrelease] at he
        exact ih (hw.release b) hv (h.elsewhere he)

section TearDown

variable (hw : w.Sound none) (hv : v.Sound none)
  (h : Ledger.Follows (p.as Account) size blocks serials w.ledger v.ledger) {during : List BlockId}
  (hheld : ∀ b ∈ during, (w.held.get? b).isSome = true)

include hw hv h hheld

theorem replays_tearDown_other {q : PoolId} (hne : q ≠ p) {pool : Pool}
    (hq : w.pools.get? q = some pool) :
    Replays p size blocks serials (w.tearDown q during).2 v
      (excerptReleases p size blocks (w.emptied q pool) during) := by
  have hne' : q.as Account ≠ p.as Account := mt Handle.as_inj.mp hne
  have hget : w.ledger.pools.get? (q.as Account) = some pool.account := by
    rw [account?_ledger, hq]
    rfl
  have hempty : Ledger.Elsewhere (p.as Account) size w.ledger (w.emptied q pool).ledger := by
    rw [← hw.emptied_ledger hq]
    exact Ledger.Elsewhere.emptied hget hne'
  have hmiddle := replays_releases hne during (hw.emptied hq) hv (h.elsewhere hempty)
  rw [tearDown_eq hq hheld]
  refine hmiddle.elsewhere ?_
  rw [← closed_ledger]
  exact Ledger.Elsewhere.closed hne' _ _ _

omit hw hv in
/-- The blocks in the teardown that concern the size are those that are followed. -/
theorem followers_eq : Ledger.Follows.followers blocks (during.map (Handle.as Loan)) =
    ((during.filter (w.concerns p size)).map (renamed blocks)).map (Handle.as Loan) := by
  have hfilter : during.filter (fun b => decide (b.index ∈ blocks)) =
      during.filter (w.concerns p size) := by
    refine List.filter_congr fun b hb => ?_
    rw [Bool.eq_iff_iff, decide_eq_true_iff, concerns_iff]
    constructor
    · intro hmem
      obtain ⟨block, hblock⟩ := Option.isSome_iff_exists.mp (hheld b hb)
      have hx : w.ledger.held.get? (b.as Loan) = some block.loan := by
        rw [loan?_ledger, hblock]
        rfl
      obtain ⟨y, -, hlike⟩ := h.stand_of_mem hmem hx
      exact ⟨block.loan, hx, hlike.of⟩
    · exact fun hconcerns => h.own (b.as Loan) hconcerns
  rw [← hfilter, Ledger.Follows.followers, List.filter_map, List.map_map, List.map_map]
  rfl

/-- The teardown of the pool itself, whichever action asks for it. -/
theorem replays_tearDown_own {tear : PoolId → List BlockId → Action}
    {tell : Except Fault Receipt → Answer}
    (htear : ∀ (w : World) (q : PoolId) (during : List BlockId), w.step (tear q during) =
      (tell (w.tearDown q during).1, (w.tearDown q during).2))
    (hfault : ∀ fault, tell (.error fault) = .fault fault)
    (htell : ∀ receipt receipt' : Receipt, receipt'.find? size = receipt.find? size →
      ((tell (.ok receipt)).outcome size).Like serials ((tell (.ok receipt')).outcome size)) :
    Replays p size blocks serials (w.step (tear p during)).2 v
      [(tear ⟨0⟩ ((during.filter (w.concerns p size)).map (renamed blocks)),
        w.sight p size (w.step (tear p during)).2 ((w.step (tear p during)).1.outcome size))] := by
  refine .single (hw.step _) (by simp) hv ?_
  have hfull := hw.tearDown_ledger p during
  have hpart : v.ledger.tearDown ⟨0⟩ (((during.filter (w.concerns p size)).map
      (renamed blocks)).map (Handle.as Loan)) = _ := hv.tearDown_ledger ⟨0⟩ _
  have hloans : ∀ b ∈ during.map (Handle.as Loan), (w.ledger.held.get? b).isSome = true := by
    rw [List.forall_mem_map]
    intro b hb
    rw [loan?_ledger, Option.isSome_map]
    exact hheld b hb
  have hmatch := h.tearDown hloans
  rw [followers_eq h hheld, hfull, hpart] at hmatch
  rw [htear, htear]
  rcases hmatch with ⟨fault, hl, hm⟩ | ⟨receipt, receipt', l', m', hl, hm, hline, hmatch⟩
  · obtain ⟨hanswer, hledger⟩ := Prod.mk.inj hl
    obtain ⟨hanswer', hledger'⟩ := Prod.mk.inj hm
    rw [hanswer, hanswer', hledger, hledger', hfault]
    exact h.stand_still (.fault fault)
  · obtain ⟨hanswer, rfl⟩ := Prod.mk.inj hl
    obtain ⟨hanswer', rfl⟩ := Prod.mk.inj hm
    rw [hanswer, hanswer']
    exact ⟨hmatch.follows, htell receipt receipt' hline, hmatch.said⟩

end TearDown

/-- A teardown of whatever pool, whichever action asks for it. -/
theorem replays_tearDown (hw : w.Sound none) (hv : v.Sound none)
    (h : Ledger.Follows (p.as Account) size blocks serials w.ledger v.ledger)
    {tear : PoolId → List BlockId → Action} {tell : Except Fault Receipt → Answer}
    (htear : ∀ (w : World) (q : PoolId) (during : List BlockId), w.step (tear q during) =
      (tell (w.tearDown q during).1, (w.tearDown q during).2))
    (hfault : ∀ fault, tell (.error fault) = .fault fault)
    (htell : ∀ receipt receipt' : Receipt, receipt'.find? size = receipt.find? size →
      ((tell (.ok receipt)).outcome size).Like serials ((tell (.ok receipt')).outcome size))
    (q : PoolId) (during : List BlockId) :
    Replays p size blocks serials (w.step (tear q during)).2 v
      (excerptTearDown p size blocks w q during (tear ⟨0⟩)
        (w.sight p size (w.step (tear q during)).2
          ((w.step (tear q during)).1.outcome size))) := by
  have hworld : (w.step (tear q during)).2 = (w.tearDown q during).2 :=
    congrArg Prod.snd (htear w q during)
  rw [excerptTearDown]
  split
  · next hheld =>
    split
    · next heq =>
      subst heq
      exact replays_tearDown_own hw hv h hheld htear hfault htell
    · next hne =>
      rw [hworld]
      split
      · next hq =>
        rw [show w.tearDown q during = (.error .noSuchPool, w) by simp only [World.tearDown, hq]]
        exact .nil hv h
      · next pool hq => exact replays_tearDown_other hw hv h hheld hne hq
  · next hheld =>
    rw [hworld]
    rcases tearDown_cases w q during with ⟨fault, hsame⟩ | ⟨_, -, hall⟩
    · rw [hsame]
      exact .nil hv h
    · exact absurd hall hheld

/-! ### Runs -/

/-- One step of the full run. -/
theorem replays_step (hw : w.Sound none) (hv : v.Sound none)
    (h : Ledger.Follows (p.as Account) size blocks serials w.ledger v.ledger) (a : Action) :
    ∃ serials', serials <+: serials' ∧
      Replays p size (lentBy p size blocks a (w.step a).1) serials' (w.step a).2 v
        (excerptStep p size blocks w a) := by
  -- only an allocation hands out a block of the size, and only it may number a chunk
  have hsame : lentBy p size blocks a (w.step a).1 = blocks →
      Replays p size blocks serials (w.step a).2 v (excerptStep p size blocks w a) →
      ∃ serials', serials <+: serials' ∧
        Replays p size (lentBy p size blocks a (w.step a).1) serials' (w.step a).2 v
          (excerptStep p size blocks w a) := by
    intro hblocks hreplays
    rw [hblocks]
    exact ⟨serials, List.prefix_rfl, hreplays⟩
  cases a with
  | openPool config => exact hsame rfl (replays_openPool hw hv h config)
  | openStandard => exact hsame rfl (replays_enter hw hv h fun _ => rfl)
  | alloc q n => exact replays_alloc hw hv h q n
  | free q b => exact hsame rfl (replays_free hw hv h q b)
  | release b => exact hsame rfl (replays_release hw hv h b)
  | write b offset data => exact hsame rfl (replays_write hw hv h b offset data)
  | clear q eraseVacant => exact hsame rfl (replays_clear hw hv h q eraseVacant)
  | destroy q during =>
      have hline : ∀ receipt receipt' : Receipt, receipt'.find? size = receipt.find? size →
          ((Answer.ofDestroy (.ok receipt)).outcome size).Like serials
            ((Answer.ofDestroy (.ok receipt')).outcome size) := fun receipt receipt' heq => by
        simp only [Answer.ofDestroy, Answer.outcome, heq]
        exact .line _
      exact hsame rfl (replays_tearDown hw hv h step_destroy (fun _ => rfl) hline q during)
  | discard q during =>
      have hdone : ∀ receipt receipt' : Receipt, receipt'.find? size = receipt.find? size →
          ((Answer.ofDiscard (.ok receipt)).outcome size).Like serials
            ((Answer.ofDiscard (.ok receipt')).outcome size) := fun _ _ _ => .done
      exact hsame rfl (replays_tearDown hw hv h step_discard (fun _ => rfl) hdone q during)
  | sizes | contains | count | read | belongs =>
      refine hsame rfl ?_
      rw [step_world]
      exact .nil hv h

/-- The excerpt of a run can be made by itself, and every step is seen as it was in the full run. -/
theorem replays_run (hw : w.Sound none) (hv : v.Sound none)
    (h : Ledger.Follows (p.as Account) size blocks serials w.ledger v.ledger)
    (actions : List Action) :
    ∃ blocks' serials', serials <+: serials' ∧
      Replays p size blocks' serials' (w.run actions).2 v (w.excerpt p size blocks actions) := by
  induction actions generalizing w v blocks serials with
  | nil => exact ⟨blocks, serials, List.prefix_rfl, .nil hv h⟩
  | cons a rest ih =>
      obtain ⟨serials₁, hpre₁, hfirst⟩ := replays_step hw hv h a
      obtain ⟨blocks₂, serials₂, hpre₂, hrest⟩ := ih (hw.step a) hfirst.sound hfirst.follows
      exact ⟨blocks₂, serials₂, hpre₁.trans hpre₂, hfirst.append hpre₂ hrest⟩

/-- Sizes and pools do not interfere. Whatever is done with other pools and with other sizes of the pool,
what is seen of one size of one pool is what is seen in a run with none of this, but for the numbers of
the chunks. Their order is kept: a chunk made earlier has the smaller number in both runs. -/
theorem sizes_and_pools_do_not_interfere (grants : Nat → Bool) (p : PoolId) (size : Nat)
    (actions : List Action) :
    let excerpt := (start grants).excerpt p size [] actions
    ∃ serials : List Nat, serials.Pairwise (· < ·) ∧
      List.Forall₂ (Sight.Like serials) (excerpt.map (·.2))
        ((start grants).sights ⟨0⟩ size (excerpt.map (·.1))) := by
  intro excerpt
  have hstart : (start grants).ledger = Ledger.start grants := by
    simp [ledger, start, Ledger.start, Registry.map]
  have hfollows : Ledger.Follows (p.as Account) size [] [] (start grants).ledger
      (start grants).ledger := by
    rw [hstart]
    exact Ledger.Follows.start grants (p.as Account) size
  obtain ⟨_, serials, -, hreplays⟩ := replays_run (.start grants) (.start grants) hfollows actions
  exact ⟨serials, hreplays.follows.ascending, hreplays.sights⟩

end World

end BlockPool
