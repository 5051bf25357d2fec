import BlockPool.Proofs.Record
import BlockPool.Proofs.World.Balance
import BlockPool.Proofs.World.Teardown

/-! What the pools tell of themselves. Folding the events of a pool in order rebuilds its receipt, from
the first event on and after every action, and each event agrees with what was rebuilt before it. The pool
that falls is the exception, since it has lost its classes already: its last reports describe the receipt
that the log had added up to. -/

namespace BlockPool.World

/-- The events that one pool reported, the oldest first. -/
def saidBy (w : World) (p : PoolId) : List Event := (w.recordsOf p).map (·.event)

/-- Every pool told the truth, and what an open pool told adds up to its receipt, the pool that falls
apart. No open pool has warned yet that blocks are in use. -/
structure Told (w : World) (falling : Option PoolId) : Prop where
  truthful : ∀ p, Truthful (w.saidBy p)
  chronicle : ∀ p pool, w.pools.get? p = some pool → falling ≠ some p →
    Chronicle (w.saidBy p) pool.classes.toReceipt 0

variable {w w' : World} {falling falling' : Option PoolId} {p q : PoolId} {pool : Pool}

theorem saidBy_congr (hlog : w'.log = w.log) : w'.saidBy = w.saidBy := by
  funext p
  rw [saidBy, saidBy, recordsOf, recordsOf, hlog]

theorem saidBy_report (w : World) (q : PoolId) (pool : Pool) (event : Event) (p : PoolId) :
    (w.report q pool event).saidBy p = w.saidBy p ++ if q = p then [event] else [] := by
  rw [saidBy, recordsOf_report, List.map_append, ← saidBy]
  split <;> rfl

theorem saidBy_report_self (w : World) (p : PoolId) (pool : Pool) (event : Event) :
    (w.report p pool event).saidBy p = w.saidBy p ++ [event] := by
  rw [saidBy_report, if_pos rfl]

theorem saidBy_reports (w : World) (p : PoolId) (pool : Pool) (events : List Event) :
    (events.foldl (fun w event => w.report p pool event) w).saidBy p = w.saidBy p ++ events := by
  have hevents : (events.map (pool.record p)).map (·.event) = events := by
    rw [List.map_map]
    exact List.map_id _
  rw [saidBy, recordsOf_reports, List.map_append, hevents, saidBy]

theorem Beside.saidBy_eq (h : Beside p w w') (hne : q ≠ p) : w'.saidBy q = w.saidBy q := by
  rw [saidBy, saidBy, h.recordsOf_eq hne]

namespace Told

theorem start (grants : Nat → Bool) : (World.start grants).Told none where
  truthful p := Chronicle.nil.truthful
  chronicle p pool hp := by simp [World.start] at hp

/-- The log and the tables are all that this is about. -/
theorem congr (h : w.Told falling) (hpools : w'.pools = w.pools) (hlog : w'.log = w.log) :
    w'.Told falling where
  truthful := saidBy_congr hlog ▸ h.truthful
  chronicle := saidBy_congr hlog ▸ hpools ▸ h.chronicle

theorem report_bare (h : w.Told falling) (p : PoolId) (pool : Pool) {event : Event}
    (hbare : event.Bare) : (w.report p pool event).Told falling where
  truthful q := by
    rw [saidBy_report]
    split
    · exact ((h.truthful q).chronicle.snoc_bare hbare).truthful
    · rw [List.append_nil]
      exact h.truthful q
  chronicle q pool' hq hf := by
    rw [saidBy_report]
    split
    · exact (h.chronicle q pool' hq hf).snoc_bare hbare
    · rw [List.append_nil]
      exact h.chronicle q pool' hq hf

/-- A pool has a new table and reports one event. -/
theorem speak {T : ClassTable} {event : Event} (h : w.Told falling)
    (hp : w.pools.get? p = some pool)
    (hpools : w'.pools = w.pools.set p { pool with classes := T })
    (hlog : w'.log = (w.report p pool event).log)
    (hfalling : ∀ q ≠ p, falling = some q → falling' = some q)
    (htruth : Truthful (w.saidBy p ++ [event]))
    (hself : falling' ≠ some p → Chronicle (w.saidBy p ++ [event]) T.toReceipt 0) :
    w'.Told falling' := by
  have hsaid : ∀ q, w'.saidBy q = w.saidBy q ++ if p = q then [event] else [] := by
    intro q
    rw [saidBy_congr hlog, saidBy_report]
  refine ⟨fun q => ?_, fun q pool' hq hf => ?_⟩
  · rw [hsaid]
    by_cases heq : p = q
    · subst heq
      rw [if_pos rfl]
      exact htruth
    · rw [if_neg heq, List.append_nil]
      exact h.truthful q
  · rw [hpools, Registry.get?_set hp] at hq
    rw [hsaid]
    by_cases heq : q = p
    · subst heq
      rw [if_pos rfl] at hq ⊢
      cases hq
      exact hself hf
    · rw [if_neg heq] at hq
      rw [if_neg (Ne.symm heq), List.append_nil]
      exact h.chronicle q pool' hq (mt (hfalling q heq) hf)

/-- The pool that speaks is open and does not fall: all of its chronicle goes on. -/
theorem speak_on {T : ClassTable} {event : Event} (h : w.Told falling)
    (hp : w.pools.get? p = some pool) (hf : falling ≠ some p)
    (hpools : w'.pools = w.pools.set p { pool with classes := T })
    (hlog : w'.log = (w.report p pool event).log)
    (hagrees : event.Agrees pool.classes.toReceipt 0) (hwarns : event.warns = false)
    (hnext : T.toReceipt = pool.classes.toReceipt.next event) : w'.Told falling := by
  have hself : Chronicle (w.saidBy p ++ [event]) T.toReceipt 0 := by
    have hsnoc := (h.chronicle p pool hp hf).snoc hagrees
    rwa [hwarns, ← hnext] at hsnoc
  exact h.speak hp hpools hlog (fun _ _ hq => hq) hself.truthful fun _ => hself

theorem enter (h : w.Told none) (hbalanced : w.Balanced none) (config : Config) :
    (w.enter config).2.Told none := by
  let new := (w.pools.add { config }).1
  have hsaid : ∀ q, (w.enter config).2.saidBy q =
      w.saidBy q ++ if new = q then [.created] else [] :=
    fun q => saidBy_report { w with pools := (w.pools.add { config }).2 } new { config } .created q
  have hfresh : w.saidBy new = [] := by
    have hnone : w.recordsOf new = [] := by
      rw [recordsOf, List.filter_eq_nil_iff]
      intro r hr heq
      have hlt := hbalanced.logged r hr
      rw [of_decide_eq_true heq] at hlt
      exact Nat.lt_irrefl _ hlt
    rw [saidBy, hnone]
    rfl
  have hcreated : Chronicle [.created] {} 0 := Chronicle.nil.snoc rfl
  refine ⟨fun q => ?_, fun q pool hq _ => ?_⟩
  · rw [hsaid]
    split
    · next heq =>
      rw [← heq, hfresh]
      exact hcreated.truthful
    · rw [List.append_nil]
      exact h.truthful q
  · have hget : (w.pools.add { config }).2.get? q = some pool := hq
    rw [Registry.get?_add] at hget
    rw [hsaid]
    by_cases heq : q = new
    · subst heq
      rw [if_pos rfl] at hget ⊢
      cases hget
      rw [hfresh]
      exact hcreated
    · rw [if_neg heq] at hget
      rw [if_neg (Ne.symm heq), List.append_nil]
      exact h.chronicle q pool hget (by simp)

theorem alloc (h : w.Told none) (hw : w.Sound none) (p : PoolId) (size : Nat) :
    (w.alloc p size).2.Told none := by
  have hall := hw.allocated p size
  generalize w.alloc p size = result at hall ⊢
  cases hall with
  | noPool closed => exact h
  | inadmissible opened refusal => exact h
  | @outOfMemory pool T heap opened admitted table out =>
      have ht := hw.table p pool opened
      refine h.speak_on opened (by simp) rfl rfl (out.agrees_of_refused 0 ht) rfl ?_
      cases out with
      | refused denied parked after => exact ht.toReceipt_congr table after
  | @served pool T heap chunk supply opened admitted table out =>
      have ht := hw.table p pool opened
      exact h.speak_on opened (by simp) rfl rfl (out.agrees 0 ht) rfl (out.toReceipt_eq ht table)

theorem release (h : w.Told falling) (hw : w.Sound falling) (b : BlockId) :
    (w.release b).Told falling := by
  have hall := hw.released b
  generalize w.release b = result at hall ⊢
  have hdrop : (w.drop b).Told falling := h.congr rfl rfl
  cases hall with
  | notHeld missing => exact h
  | homeless held closed => exact hdrop
  | orphaned held opened falls => exact hdrop.report_bare _ _ (Or.inr rfl)
  | @parked block pool c T held opened stands found owner in_use table after =>
      have ht := hw.table _ pool opened
      exact h.speak_on opened stands rfl rfl (ht.agrees_of_checkin 0 found in_use) rfl
        (ht.toReceipt_checkin table found _ after)

theorem releases (h : w.Told falling) (hw : w.Sound falling) (bs : List BlockId) :
    (bs.foldl World.release w).Told falling := by
  induction bs generalizing w with
  | nil => exact h
  | cons b rest ih => exact ih (h.release hw b) (hw.release b)

theorem free (h : w.Told falling) (hw : w.Sound falling) (p : PoolId) (b : BlockId) :
    (w.free p b).2.Told falling := by
  rcases free_world w p b with heq | ⟨pool, -, heq⟩ | heq
  · rw [heq]
    exact h
  · rw [heq]
    exact (h.report_bare p pool (Or.inl rfl)).release (hw.report p pool .refused) b
  · rw [heq]
    exact h.release hw b

theorem write (h : w.Told falling) (b : BlockId) (offset : Nat) (data : Payload) :
    (w.write b offset data).2.Told falling := by
  have hall := written w b offset data
  generalize (w.write b offset data).2 = result at hall ⊢
  cases hall with
  | kept => exact h
  | changed held size => exact h.congr rfl rfl

theorem clear (h : w.Told none) (hw : w.Sound none) (p : PoolId) (eraseVacant : Bool) :
    (w.clear p eraseVacant).2.Told none := by
  cases hp : w.pools.get? p with
  | none =>
      simp only [World.clear, hp]
      exact h
  | some pool =>
      have ht := hw.table p pool hp
      rw [clear_eq hp]
      exact h.speak_on hp (by simp) rfl rfl (ht.agrees_of_drain 0 eraseVacant) rfl
        (ht.toReceipt_drain eraseVacant)

theorem emptied (h : w.Told none) (hp : w.pools.get? p = some pool) :
    (w.emptied p pool).Told (some p) := by
  have hfirst := (h.chronicle p pool hp (by simp)).snoc_first
  exact h.speak hp rfl rfl (fun _ _ hf => nomatch hf) hfirst.truthful fun hf => absurd rfl hf

end Told

/-! ### Teardowns -/

namespace Amid

variable {x : World} {r : Receipt} {warnings : Nat} (h : Amid w p pool x) (hw : w.Sound none)
  (hp : w.pools.get? p = some pool)

include h hw hp

/-- A block released in the middle of a teardown makes the pool report an orphan, or nothing. -/
theorem saidBy_release (b : BlockId) :
    (x.release b).saidBy p = x.saidBy p ∨ (x.release b).saidBy p = x.saidBy p ++ [.orphaned] := by
  rw [saidBy, h.recordsOf_release hw hp, List.map_append, List.map_replicate, ← saidBy]
  have hone : x.owned p [b] ≤ 1 := List.countP_le_length
  rcases Nat.le_one_iff_eq_zero_or_eq_one.mp hone with hzero | hone
  · rw [hzero]
    exact Or.inl (List.append_nil _)
  · rw [hone]
    exact Or.inr rfl

theorem chronicle_releases (hsaid : Chronicle (x.saidBy p) r warnings) (bs : List BlockId) :
    Chronicle ((bs.foldl World.release x).saidBy p) r warnings := by
  induction bs generalizing x with
  | nil => exact hsaid
  | cons b rest ih =>
      refine ih (h.release b) ?_
      rcases h.saidBy_release hw hp b with heq | heq
      · rw [heq]
        exact hsaid
      · rw [heq]
        exact hsaid.snoc_bare (Or.inr rfl)

end Amid

namespace Told

/-- The teardown of a pool, with any blocks released at any point of it. -/
theorem destroy (h : w.Told none) (hw : w.Sound none) (hp : w.pools.get? p = some pool)
    (i : Interlude) : (Owner.destroy { pool := p } w pool i).2.Told none := by
  let r := pool.classes.toReceipt
  have htaken : Amid w p pool (w.taken p pool) := .taken
  have hfirst : Amid w p pool ((i.early.foldl World.release (w.taken p pool)).report p pool r.events.1) :=
    (htaken.releases i.early).report List.mem_cons_self
  have hlater := (hfirst.releases i.between).reports (List.subset_cons_self _ _)
  have hself : Chronicle ((w.dismantle p pool i).2.saidBy p) r (if 0 < r.totalInUse then 1 else 0) := by
    refine hlater.chronicle_releases hw hp ?_ i.late
    rw [saidBy_reports]
    refine (hfirst.chronicle_releases hw hp ?_ i.between).append_later
    rw [saidBy_report_self]
    exact (htaken.chronicle_releases hw hp (h.chronicle p pool hp (by simp)) i.early).snoc_first
  -- to all other pools the blocks were just released
  have hothers := h.releases hw i.blocks
  have hbeside := beside_destroy hp i
  refine ⟨fun q => ?_, fun q pool' hq _ => ?_⟩
  · by_cases hne : q = p
    · subst hne
      exact hself.truthful
    · rw [hbeside.saidBy_eq hne]
      exact hothers.truthful q
  · have hne : q ≠ p := by
      rintro rfl
      cases (silent_destroy hw hp i).1.2.symm.trans hq
    rw [hbeside.pools q hne] at hq
    rw [hbeside.saidBy_eq hne]
    exact hothers.chronicle q pool' hq (by simp)

theorem tearDown (h : w.Told none) (hw : w.Sound none) (p : PoolId) (during : List BlockId) :
    (w.tearDown p during).2.Told none := by
  rcases tearDown_cases w p during with ⟨fault, heq⟩ | ⟨pool, hp, hheld⟩
  · rw [heq]
    exact h
  · rw [tearDown_eq_destroy hp hheld]
    exact h.destroy hw hp { between := during }

theorem step (h : w.Told none) (hw : w.Sound none) (hbalanced : w.Balanced none) (a : Action) :
    (w.step a).2.Told none := by
  rw [step_world]
  cases a with
  | openPool config =>
      rcases openPool_world w config with heq | heq
      · rw [World.after, heq]
        exact h
      · rw [World.after, heq]
        exact h.enter hbalanced config
  | openStandard => exact h.enter hbalanced .standard
  | alloc p size => exact h.alloc hw p size
  | free p b => exact h.free hw p b
  | release b => exact h.release hw b
  | write b offset data => exact h.write b offset data
  | clear p eraseVacant => exact h.clear hw p eraseVacant
  | destroy p during | discard p during => exact h.tearDown hw p during
  | sizes | contains | count | read | belongs => exact h

end Told

theorem Passed.told {grants : Nat → Bool} (h : Passed grants w falling) : w.Told falling := by
  induction h with
  | start => exact .start grants
  | step before a ih => exact ih.step before.sound before.balanced a
  | fall before opened ih => exact ih.emptied opened
  | release before b ih => exact ih.release before.sound b
  | regrant before other ih => exact ih.congr rfl rfl

/-! ### The state from the records -/

/-- What the events of an open pool add up to is its receipt: the sizes that it names when it is asked,
and what is parked and in use of each. -/
structure Rebuilt (w : World) (p : PoolId) (pool : Pool) : Prop where
  receipt : Receipt.rebuilt (w.saidBy p) = pool.classes.toReceipt
  sizes : (w.step (.sizes p)).1 = .sizes ((Receipt.rebuilt (w.saidBy p)).lines.map (·.capacity))
  line : ∀ size, (Receipt.rebuilt (w.saidBy p)).find? size =
    (pool.classes.classFor? size).map fun c =>
      { capacity := size, cached := c.cached.len, inUse := c.inUse }
  /-- The texts of the records tell as much as the records. -/
  texts : ∀ events : List Event, events.map Event.text = (w.saidBy p).map Event.text →
    Receipt.rebuilt events = pool.classes.toReceipt

theorem Told.rebuilt (h : w.Told falling) (hw : w.Sound falling) (hp : w.pools.get? p = some pool)
    (hf : falling ≠ some p) : w.Rebuilt p pool := by
  have hreceipt := (h.chronicle p pool hp hf).rebuilt
  have ht := hw.table p pool hp
  refine ⟨hreceipt, ?_, fun size => ?_, fun events hevents => ?_⟩
  · have hcapacities : pool.classes.toReceipt.lines.map (·.capacity) = pool.sizes := by
      rw [ClassTable.toReceipt, List.map_map]
      exact ht.map_capacity
    simp only [World.step, ask, hp, hreceipt, hcapacities]
  · rw [hreceipt, ht.find?_toReceipt]
    refine Option.map_congr fun c hc => ?_
    rw [SizeClass.toLine, (ht.classFor?_eq_some_iff.mp hc).2]
  · rw [List.map_injective_iff.mpr Event.text_injective hevents, hreceipt]

/-- The reports of a teardown, in terms of what the pool had told before. -/
theorem Told.saidBy_destroy (h : w.Told none) (hw : w.Sound none) (hp : w.pools.get? p = some pool)
    {i : Interlude} (hfits : i.Fits w) : (Owner.destroy { pool := p } w pool i).2.saidBy p =
      w.saidBy p ++ w.obituary p (Receipt.rebuilt (w.saidBy p)) i := by
  have hevents : ∀ events : List Event, (events.map (pool.record p)).map (·.event) = events := by
    intro events
    rw [List.map_map]
    exact List.map_id events
  have hrecords : (Owner.destroy { pool := p } w pool i).2.recordsOf p = _ :=
    recordsOf_dismantle hw hp hfits.once
  rw [saidBy, hrecords, List.map_append, hevents, (h.rebuilt hw hp (by simp)).receipt, saidBy]

/-- Wherever a run has come to, all that the pools reported is true, and the records of an open pool add
up to its state; the reports of a teardown are those of the receipt that the records add up to, whatever
blocks are released meanwhile. -/
theorem Passed.records_tell_state {grants : Nat → Bool} (h : Passed grants w falling) :
    (∀ p, Truthful (w.saidBy p)) ∧
      (∀ p pool, w.pools.get? p = some pool → falling ≠ some p → w.Rebuilt p pool) ∧
      ∀ p pool, w.pools.get? p = some pool → falling = none → ∀ i : Interlude, i.Fits w →
        (∀ q, Truthful ((Owner.destroy { pool := p } w pool i).2.saidBy q)) ∧
          (Owner.destroy { pool := p } w pool i).2.saidBy p =
            w.saidBy p ++ w.obituary p (Receipt.rebuilt (w.saidBy p)) i := by
  refine ⟨h.told.truthful, fun p pool hp hf => h.told.rebuilt h.sound hp hf, ?_⟩
  rintro p pool hp rfl i hfits
  exact ⟨(h.told.destroy h.sound hp i).truthful, h.told.saidBy_destroy h.sound hp hfits⟩

/-- A size comes, goes with a clear that drops idle classes, and comes again; the pool then falls while a
block of its own is released. -/
theorem records_tell_state_in_short_run :
    let w := ((start fun _ => true).run [.openStandard, .alloc ⟨0⟩ 8, .alloc ⟨0⟩ 16, .release ⟨0⟩,
      .clear ⟨0⟩ true, .alloc ⟨0⟩ 8, .release ⟨2⟩, .alloc ⟨0⟩ 8, .clear ⟨0⟩ true]).2
    let i : Interlude := { between := [⟨1⟩] }
    w.saidBy ⟨0⟩ = [.created, .supplied (.miss true) 8, .supplied (.miss true) 16, .cached 8 0,
        .cleared ⟨1, 1⟩ 1, .supplied (.miss true) 8, .cached 8 0, .supplied .hit 8,
        .cleared ⟨0, 0⟩ 2] ∧
      Receipt.rebuilt (w.saidBy ⟨0⟩) = { lines := [⟨8, 0, 1⟩, ⟨16, 0, 1⟩] } ∧
      ∃ pool, w.pools.get? ⟨0⟩ = some pool ∧ w.Rebuilt ⟨0⟩ pool ∧
        Truthful ((Owner.destroy { pool := ⟨0⟩ } w pool i).2.saidBy ⟨0⟩) ∧
        (Owner.destroy { pool := ⟨0⟩ } w pool i).2.saidBy ⟨0⟩ =
          w.saidBy ⟨0⟩ ++ [.abandoned 2, .orphaned, .destroyed 2 0] := by
  intro w i
  have hrun : Passed (fun _ => true) w none := Passed.start.run _
  have hfits : i.Fits w := ⟨by decide +kernel, by decide⟩
  have hopen : (w.pools.get? ⟨0⟩).isSome = true := by decide +kernel
  obtain ⟨pool, hp⟩ := Option.isSome_iff_exists.mp hopen
  obtain ⟨-, hrebuilt, hends⟩ := Passed.records_tell_state hrun
  obtain ⟨htruth, hsaid⟩ := hends ⟨0⟩ pool hp rfl i hfits
  have hobituary : w.obituary ⟨0⟩ (Receipt.rebuilt (w.saidBy ⟨0⟩)) i =
      [.abandoned 2, .orphaned, .destroyed 2 0] := by decide +kernel
  exact ⟨by decide +kernel, by decide +kernel, pool, hp, hrebuilt ⟨0⟩ pool hp (by simp), htruth ⟨0⟩,
    hobituary ▸ hsaid⟩

end BlockPool.World
