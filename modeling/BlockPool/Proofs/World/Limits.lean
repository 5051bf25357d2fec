import BlockPool.Proofs.ClassTable.Receipt
import BlockPool.Proofs.Config
import BlockPool.Proofs.World.Admission
import BlockPool.Proofs.World.Homecoming

/-! The limits of a pool, for good. A pool is opened with fit settings or not at all, and keeps them until it
is closed; a block was once asked for of the pool that it came from, so whatever callers hold, and whatever
has a class or waits on a free list, is of a size that these settings cover. -/

namespace BlockPool

/-- The pool that an action with this answer opened, with the settings that it was opened with. -/
def Action.charter? : Action → Answer → Option (PoolId × Config)
  | .openPool config, .opened p => some (p, config)
  | .openStandard, .opened p => some (p, .standard)
  | _, _ => none

namespace World

/-! ### What an action does to the settings of the open pools -/

/-- The settings of the open pools, under the numbers of the pools. -/
def configs (w : World) : Registry Config := w.pools.map (·.config)

section Configs

variable {w : World} {p : PoolId} {pool : Pool}

theorem get?_configs (w : World) (p : PoolId) :
    w.configs.get? (p.as Config) = (w.pools.get? p).map (·.config) :=
  w.pools.get?_map _ p

theorem get?_configs_of_get? (hp : w.pools.get? p = some pool) :
    w.configs.get? (p.as Config) = some pool.config := by
  rw [get?_configs, hp]
  rfl

theorem size_configs (w : World) : w.configs.entries.size = w.pools.entries.size :=
  Array.size_map

theorem configs_setPool (hp : w.pools.get? p = some pool) (T : ClassTable) :
    (w.pools.set p { pool with classes := T }).map (·.config) = w.configs := by
  have hconfig := get?_configs_of_get? hp
  exact (Registry.map_set _ _ p { pool with classes := T }).symm.trans
    (Registry.set_of_get? hconfig)

theorem configs_enter (w : World) (config : Config) :
    (w.enter config).2.configs = (w.configs.add config).2 :=
  (congrArg Prod.snd (Registry.map_add _ w.pools { config })).symm

theorem configs_alloc (w : World) (p : PoolId) (size : Nat) :
    (w.alloc p size).2.configs = w.configs := by
  unfold alloc
  cases hp : w.pools.get? p with
  | none => rfl
  | some pool =>
      simp only
      cases pool.config.refusal? size with
      | some error => rfl
      | none =>
          simp only
          rcases pool.classes.checkout w.heap size with ⟨_ | _, T, heap⟩
          · exact configs_setPool hp T
          · exact configs_setPool hp T

theorem configs_takeBack (w : World) (block : Block) : (w.takeBack block).configs = w.configs := by
  unfold takeBack
  cases hp : w.pools.get? block.pool with
  | none => rfl
  | some pool =>
      simp only
      cases pool.classes.checkin? block.chunk with
      | none => rfl
      | some out => exact configs_setPool hp out.2

theorem configs_release (w : World) (b : BlockId) : (w.release b).configs = w.configs := by
  unfold release
  cases w.held.get? b with
  | none => rfl
  | some block => exact configs_takeBack (w.drop b) block

theorem configs_releases (w : World) (bs : List BlockId) :
    (bs.foldl World.release w).configs = w.configs := by
  induction bs generalizing w with
  | nil => rfl
  | cons b rest ih => exact (ih (w.release b)).trans (w.configs_release b)

theorem configs_free (w : World) (p : PoolId) (b : BlockId) :
    (w.free p b).2.configs = w.configs := by
  rcases free_world w p b with heq | ⟨pool, -, heq⟩ | heq
  · rw [heq]
  · rw [heq]
    exact (w.report p pool .refused).configs_release b
  · rw [heq]
    exact w.configs_release b

theorem configs_write (w : World) (b : BlockId) (offset : Nat) (data : Payload) :
    (w.write b offset data).2.configs = w.configs := by
  have hall := written w b offset data
  generalize (w.write b offset data).2 = result at hall ⊢
  cases hall <;> rfl

theorem configs_clear (w : World) (p : PoolId) (eraseVacant : Bool) :
    (w.clear p eraseVacant).2.configs = w.configs := by
  cases hp : w.pools.get? p with
  | none => simp only [clear, hp]
  | some pool =>
      rw [clear_eq hp]
      exact configs_setPool hp _

theorem configs_reports (w : World) (p : PoolId) (pool : Pool) (events : List Event) :
    (events.foldl (fun w event => w.report p pool event) w).configs = w.configs := by
  induction events generalizing w with
  | nil => rfl
  | cons event rest ih => exact ih (w.report p pool event)

theorem configs_tearDown (w : World) (p : PoolId) (during : List BlockId) :
    (w.tearDown p during).2.configs = w.configs ∨
      (w.tearDown p during).2.configs = w.configs.remove (p.as Config) := by
  rcases tearDown_cases w p during with ⟨fault, heq⟩ | ⟨pool, hp, hheld⟩
  · rw [heq]
    exact Or.inl rfl
  · refine Or.inr ?_
    rw [tearDown_eq hp hheld]
    refine (Registry.map_remove _ _ p).symm.trans (congrArg (Registry.remove · _) ?_)
    calc (List.foldl _ (during.foldl World.release (w.emptied p pool)) _).configs
        = (during.foldl World.release (w.emptied p pool)).configs := configs_reports _ p pool _
      _ = (w.emptied p pool).configs := configs_releases _ during
      _ = w.configs := configs_setPool hp {}

theorem Amid.configs_eq {x : World} (h : Amid w p pool x) (hp : w.pools.get? p = some pool) :
    x.configs = w.configs := by
  induction h with
  | taken => exact configs_setPool hp {}
  | report before due ih => exact ih
  | @release x before b ih => exact (x.configs_release b).trans ih

end Configs

/-- What an action with this answer makes of the settings of the open pools. -/
inductive Licensed (w : World) (a : Action) (answer : Answer) : Registry Config → Prop
  | kept (charter : a.charter? answer = none) : Licensed w a answer w.configs
  | opened {c : Config} (fit : c.Fit)
      (charter : a.charter? answer = some ((w.configs.add c).1.as Pool, c)) :
      Licensed w a answer (w.configs.add c).2
  | closed (p : PoolId) (charter : a.charter? answer = none) :
      Licensed w a answer (w.configs.remove (p.as Config))

theorem enter_fst (w : World) (config : Config) :
    (w.enter config).1 = (w.configs.add config).1.as Pool :=
  congrArg Handle.mk w.size_configs.symm

theorem openPool_of_fit {c : Config} (h : c.Fit) (w : World) :
    w.openPool c = (.ok (w.enter c).1, (w.enter c).2) := by
  rw [openPool, h.check]

theorem openPool_of_not_fit {c : Config} (h : ¬c.Fit) (w : World) :
    ∃ problem, c.problem? = some problem ∧
      w.openPool c = (.error (.refused problem.toError), w) := by
  obtain ⟨problem, hproblem⟩ := Option.ne_none_iff_exists'.mp (mt Config.fit_iff.mpr h)
  refine ⟨problem, hproblem, ?_⟩
  rw [openPool, Config.check, hproblem]

theorem licensed (w : World) (a : Action) : Licensed w a (w.step a).1 (w.step a).2.configs := by
  cases a with
  | openPool c =>
      by_cases hfit : c.Fit
      · have hstep : w.step (.openPool c) = (.opened (w.enter c).1, (w.enter c).2) := by
          rw [step, openPool_of_fit hfit]
        rw [hstep, configs_enter, enter_fst]
        exact .opened hfit rfl
      · obtain ⟨problem, -, hopen⟩ := openPool_of_not_fit hfit w
        have hstep : w.step (.openPool c) = (.fault (.refused problem.toError), w) := by
          rw [step, hopen]
        rw [hstep]
        exact .kept rfl
  | openStandard =>
      have hstep : w.step .openStandard = (.opened (w.enter .standard).1, (w.enter .standard).2) :=
        rfl
      rw [hstep, configs_enter, enter_fst]
      exact .opened Config.fit_standard rfl
  | alloc p size =>
      rw [step_world, after, configs_alloc]
      exact .kept rfl
  | free p b =>
      rw [step_world, after, configs_free]
      exact .kept rfl
  | release b =>
      rw [step_world, after, configs_release]
      exact .kept rfl
  | write b offset data =>
      rw [step_world, after, configs_write]
      exact .kept rfl
  | clear p eraseVacant =>
      rw [step_world, after, configs_clear]
      exact .kept rfl
  | destroy p during | discard p during =>
      rw [step_world, after]
      rcases configs_tearDown w p during with heq | heq
      · rw [heq]
        exact .kept rfl
      · rw [heq]
        exact .closed p rfl
  | sizes | contains | count | read | belongs =>
      rw [step_world]
      exact .kept rfl

/-! ### The settings that a pool was opened with -/

/-- In these actions a pool was opened with these settings and got this handle. -/
def OpenedAs (grants : Nat → Bool) (past : List Action) (p : PoolId) (c : Config) : Prop :=
  ∃ front a back, past = front ++ a :: back ∧
    a.charter? ((reached grants front).step a).1 = some (p, c)

section Opened

variable {grants : Nat → Bool} {past : List Action} {p : PoolId} {c : Config}

theorem openedAs_snoc_iff {a : Action} : OpenedAs grants (past ++ [a]) p c ↔
    OpenedAs grants past p c ∨ a.charter? ((reached grants past).step a).1 = some (p, c) := by
  constructor
  · rintro ⟨front, a', back, hpast, hcharter⟩
    rcases List.eq_nil_or_concat back with rfl | ⟨mid, last, rfl⟩
    · obtain ⟨rfl, hlast⟩ := List.append_inj' hpast rfl
      cases hlast
      exact Or.inr hcharter
    · rw [List.concat_eq_append, ← List.cons_append, ← List.append_assoc] at hpast
      obtain ⟨rfl, -⟩ := List.append_inj' hpast rfl
      exact Or.inl ⟨front, a', mid, rfl, hcharter⟩
  · rintro (⟨front, a', back, rfl, hcharter⟩ | hcharter)
    · exact ⟨front, a', back ++ [a], by simp, hcharter⟩
    · exact ⟨past, a, [], rfl, hcharter⟩

theorem OpenedAs.append (h : OpenedAs grants past p c) (more : List Action) :
    OpenedAs grants (past ++ more) p c := by
  obtain ⟨front, a, back, rfl, hcharter⟩ := h
  exact ⟨front, a, back ++ more, by simp, hcharter⟩

/-- The settings in force are those that the pools were opened with: fit, and one for each handle. -/
structure Chartered (grants : Nat → Bool) (past : List Action) (settings : Registry Config) :
    Prop where
  opened : ∀ p c, settings.get? (p.as Config) = some c → OpenedAs grants past p c
  fit : ∀ p c, OpenedAs grants past p c → c.Fit
  known : ∀ p c, OpenedAs grants past p c → p.index < settings.entries.size
  one : ∀ p c c', OpenedAs grants past p c → OpenedAs grants past p c' → c = c'

namespace Chartered

variable {settings settings' : Registry Config} {a : Action}

theorem keep (h : Chartered grants past settings)
    (hcharter : a.charter? ((reached grants past).step a).1 = none)
    (hget : ∀ q c, settings'.get? q = some c → settings.get? q = some c)
    (hsize : settings'.entries.size = settings.entries.size) :
    Chartered grants (past ++ [a]) settings' := by
  have hsame : ∀ p c, OpenedAs grants (past ++ [a]) p c → OpenedAs grants past p c := by
    intro p c hopened
    refine (openedAs_snoc_iff.mp hopened).resolve_right fun hnew => ?_
    cases hcharter.symm.trans hnew
  refine ⟨fun p c hp => ?_, fun p c hp => ?_, fun p c hp => ?_, fun p c c' hp hp' => ?_⟩
  · exact (h.opened p c (hget _ c hp)).append [a]
  · exact h.fit p c (hsame p c hp)
  · rw [hsize]
    exact h.known p c (hsame p c hp)
  · exact h.one p c c' (hsame p c hp) (hsame p c' hp')

theorem add {c : Config} (h : Chartered grants past settings) (hfit : c.Fit)
    (hcharter : a.charter? ((reached grants past).step a).1 =
      some ((settings.add c).1.as Pool, c)) :
    Chartered grants (past ++ [a]) (settings.add c).2 := by
  -- the handle is a new one, so what was opened before has another
  have hcases : ∀ p c', OpenedAs grants (past ++ [a]) p c' →
      OpenedAs grants past p c' ∧ p.index < settings.entries.size ∨
        p = (settings.add c).1.as Pool ∧ c' = c := by
    intro p c' hopened
    rcases openedAs_snoc_iff.mp hopened with hold | hnew
    · exact Or.inl ⟨hold, h.known p c' hold⟩
    · cases hcharter.symm.trans hnew
      exact Or.inr ⟨rfl, rfl⟩
  have hsize : (settings.add c).2.entries.size = settings.entries.size + 1 := Array.size_push _
  refine ⟨fun p c' hp => ?_, fun p c' hp => ?_, fun p c' hp => ?_, fun p x y hx hy => ?_⟩
  · rw [Registry.get?_add] at hp
    split at hp
    · next heq =>
      cases hp
      have hhandle : p = (settings.add c).1.as Pool := by
        rw [← heq, Handle.as_as, Handle.as_self]
      rw [hhandle]
      exact openedAs_snoc_iff.mpr (Or.inr hcharter)
    · exact (h.opened p c' hp).append [a]
  · rcases hcases p c' hp with ⟨hold, -⟩ | ⟨-, rfl⟩
    · exact h.fit p c' hold
    · exact hfit
  · rw [hsize]
    rcases hcases p c' hp with ⟨-, hlt⟩ | ⟨rfl, -⟩
    · exact Nat.lt_succ_of_lt hlt
    · exact Nat.lt_succ_self _
  · rcases hcases p x hx with ⟨hxold, hlt⟩ | ⟨rfl, rfl⟩
    · rcases hcases p y hy with ⟨hyold, -⟩ | ⟨rfl, -⟩
      · exact h.one p x y hxold hyold
      · exact absurd hlt (Nat.lt_irrefl _)
    · rcases hcases _ y hy with ⟨-, hlt⟩ | ⟨-, rfl⟩
      · exact absurd hlt (Nat.lt_irrefl _)
      · rfl

theorem step (h : Chartered grants past (reached grants past).configs) :
    Chartered grants (past ++ [a]) (reached grants (past ++ [a])).configs := by
  have hlicensed := (reached grants past).licensed a
  rw [← reached_snoc] at hlicensed
  generalize (reached grants (past ++ [a])).configs = settings at hlicensed ⊢
  cases hlicensed with
  | kept charter => exact h.keep charter (fun _ _ hq => hq) rfl
  | opened fit charter => exact h.add fit charter
  | closed p charter =>
      refine h.keep charter (fun q c hq => ?_) Array.size_setIfInBounds
      rw [Registry.get?_remove] at hq
      split at hq
      · cases hq
      · exact hq

theorem reached (grants : Nat → Bool) (past : List Action) :
    Chartered grants past (World.reached grants past).configs := by
  induction past using List.reverseRecOn with
  | nil =>
      have hnone : ∀ p c, ¬OpenedAs grants [] p c := by
        rintro p c ⟨front, a, back, hpast, -⟩
        simp at hpast
      refine ⟨fun p c hp => ?_, fun p c hp => ?_, fun p c hp => ?_, fun p c c' hp => ?_⟩
      · rw [get?_configs] at hp
        cases hp
      · exact absurd hp (hnone p c)
      · exact absurd hp (hnone p c)
      · exact absurd hp (hnone p c)
  | append_singleton past a ih => exact ih.step

end Chartered

theorem Arrived.chartered {w : World} {falling : Option PoolId}
    (h : Arrived grants past w falling) : Chartered grants past w.configs := by
  cases h with
  | rest => exact .reached grants past
  | amid opened amid =>
      rw [amid.configs_eq opened]
      exact .reached grants past

theorem Arrived.openedAs {w : World} {falling : Option PoolId} {pool : Pool}
    (h : Arrived grants past w falling) (hp : w.pools.get? p = some pool) :
    OpenedAs grants past p pool.config :=
  h.chartered.opened p _ (get?_configs_of_get? hp)

/-- A request that is answered with a block was for a size that the settings of the pool cover, and this is
the size of the block. -/
theorem Sound.covers_of_issued {w : World} {falling : Option PoolId} (h : w.Sound falling)
    {p : PoolId} {size serial : Nat} {b : BlockId} {payload : Payload}
    (hissued : (w.step (.alloc p size)).1 = .issued b serial payload) :
    ∃ pool, w.pools.get? p = some pool ∧ pool.config.Covers size ∧ payload.size = size := by
  have hall := h.allocated p size
  simp only [World.step] at hissued
  generalize w.alloc p size = result at hall hissued
  cases hall with
  | noPool | inadmissible | outOfMemory => cases hissued
  | @served pool T heap chunk supply opened admitted table out =>
      simp only [issue_lend, Answer.issued.injEq] at hissued
      obtain ⟨-, -, rfl⟩ := hissued
      obtain ⟨c, -, -, -, hsize, -⟩ := out.served (h.table p pool opened)
      exact ⟨pool, opened, Config.covers_iff.mpr admitted, hsize⟩

/-- A block that callers hold was asked for when its pool was open, with settings that cover it. -/
theorem covers_of_held {b : BlockId} {block : Block}
    (hb : (reached grants past).held.get? b = some block) :
    ∃ c, OpenedAs grants past block.pool c ∧ c.Covers block.size := by
  induction past using List.reverseRecOn generalizing block with
  | nil => cases hb
  | append_singleton past a ih =>
      have hturn := (reached grants past).turnover a
      rw [← reached_snoc] at hturn
      cases hold : (reached grants past).held.get? b with
      | some old =>
          cases hends : a.endsHold b ((reached grants past).step a).1 with
          | true => cases (hturn.ended hold hends).2.symm.trans hb
          | false =>
              obtain ⟨block', hblock', hedited⟩ := hturn.kept hold hends
              cases hblock'.symm.trans hb
              obtain ⟨c, hopened, hcovers⟩ := ih hold
              rw [hedited.pool, hedited.size]
              exact ⟨c, hopened.append [a], hcovers⟩
      | none =>
          obtain ⟨size, rfl, hanswer⟩ := hturn.issued hold hb
          obtain ⟨pool, hp, hcovers, hsize⟩ :=
            (passed_reached grants past).sound.covers_of_issued hanswer
          rw [Block.size, hsize]
          exact ⟨pool.config, (Arrived.rest.openedAs hp).append _, hcovers⟩

end Opened

/-! ### Which pools can be opened -/

/-- The action opens a pool with these settings, under a handle that no pool has, and the pool says so. -/
def Opens (w : World) (a : Action) (c : Config) : Prop :=
  ∃ p, w.pools.get? p = none ∧ (w.step a).1 = .opened p ∧
    (w.step a).2.pools.get? p = some { config := c } ∧
    (w.step a).2.log = w.log.push (({ config := c } : Pool).record p .created)

/-- A pool is opened with fit settings; others leave no trace. -/
structure OpensFit (w : World) : Prop where
  standard : w.Opens .openStandard .standard
  fit : ∀ c : Config, c.Fit → w.Opens (.openPool c) c
  unfit : ∀ c : Config, ¬c.Fit → ∃ problem, c.problem? = some problem ∧
    w.step (.openPool c) = (.fault (.refused problem.toError), w)
  named : ∀ name, w.Opens (.openPool (.named name)) (.named name) ↔
    ∃ x ∈ name.toList, Text.isBlank x = false
  parsed : ∀ text c, Config.ofToml text = .ok c → w.Opens (.openPool c) c
  filed : ∀ disk path c, Config.ofFile disk path = .ok c → w.Opens (.openPool c) c

theorem opens_of_enter {w : World} {a : Action} {c : Config}
    (hstep : w.step a = (.opened (w.enter c).1, (w.enter c).2)) : w.Opens a c := by
  refine ⟨(w.enter c).1, Registry.get?_add_self_eq_none (a := { config := c }), ?_, ?_, ?_⟩
  · rw [hstep]
  · rw [hstep]
    exact Registry.get?_add.trans (if_pos rfl)
  · rw [hstep]
    rfl

theorem step_openPool_of_not_fit {c : Config} (h : ¬c.Fit) (w : World) :
    ∃ problem, c.problem? = some problem ∧
      w.step (.openPool c) = (.fault (.refused problem.toError), w) := by
  obtain ⟨problem, hproblem, hopen⟩ := openPool_of_not_fit h w
  refine ⟨problem, hproblem, ?_⟩
  rw [step, hopen]

theorem opens_of_fit {c : Config} (h : c.Fit) (w : World) : w.Opens (.openPool c) c := by
  apply opens_of_enter
  rw [step, openPool_of_fit h]

theorem opens_iff_fit {w : World} {c : Config} : w.Opens (.openPool c) c ↔ c.Fit := by
  refine ⟨fun hopens => ?_, fun h => opens_of_fit h w⟩
  by_contra h
  obtain ⟨problem, -, hstep⟩ := step_openPool_of_not_fit h w
  obtain ⟨p, -, hanswer, -, -⟩ := hopens
  rw [hstep] at hanswer
  cases hanswer

theorem opensFit (w : World) : w.OpensFit where
  standard := opens_of_enter rfl
  fit _ h := opens_of_fit h w
  unfit _ h := step_openPool_of_not_fit h w
  named _ := opens_iff_fit.trans Config.fit_named_iff
  parsed _ _ h := opens_of_fit (Config.fit_of_ofToml h) w
  filed _ _ _ h := opens_of_fit (Config.fit_of_ofFile h) w

/-! ### The limits in force -/

/-- An open pool has, hands out and tells of nothing but sizes that its settings cover. -/
structure KeepsTo (w : World) (p : PoolId) (pool : Pool) : Prop where
  classes : ∀ slot c, pool.classes.class? slot = some c → pool.config.Covers c.capacity ∧
    ∀ chunk ∈ c.cached.chain, pool.config.Covers chunk.payload.size
  /-- Nothing but a lack of memory stands in the way of a size that is covered. -/
  covered : ∀ size, pool.config.Covers size → ∀ fault,
    (w.step (.alloc p size)).1 = .fault fault → fault = .refused (.outOfMemory size)
  strange : ∀ size, ¬pool.config.Covers size → ∃ error, pool.config.refusal? size = some error ∧
    w.step (.alloc p size) = (.fault (.refused error), w)
  issued : ∀ size b serial payload, (w.step (.alloc p size)).1 = .issued b serial payload →
    payload.size = size ∧ pool.config.Covers size
  sizes : ∀ ns, (w.step (.sizes p)).1 = .sizes ns → ∀ size ∈ ns, pool.config.Covers size
  contains : ∀ size, (w.step (.contains p size)).1 = .flag true → pool.config.Covers size
  receipt : ∀ during r, (w.step (.destroy p during)).1 = .receipt r → ∀ l ∈ r.lines,
    pool.config.Covers l.capacity

section KeepsTo

variable {w : World} {falling : Option PoolId} {p : PoolId} {pool : Pool}

theorem Amid.admits {x : World} (h : Amid w p pool x) (hw : w.Sound none)
    (hp : w.pools.get? p = some pool) (hadmits : w.Admits) : x.Admits := by
  induction h with
  | taken => exact hadmits.setPool hp rfl nofun
  | report before due ih => exact ih
  | release before b ih => exact ih.release (before.sound hw hp) b

theorem Arrived.admits {grants : Nat → Bool} {past : List Action}
    (h : Arrived grants past w falling) : w.Admits := by
  have hreached := passed_reached grants past
  cases h with
  | rest => exact hreached.admits
  | amid opened amid => exact amid.admits hreached.sound opened hreached.admits

theorem Admits.covers (h : w.Admits) (hp : w.pools.get? p = some pool) {size : Nat}
    {c : SizeClass} (hc : pool.classes.classFor? size = some c) : pool.config.Covers size := by
  refine Config.covers_iff.mpr (h p pool hp size ?_)
  rw [hc]
  rfl

theorem step_alloc_of_not_covers (hp : w.pools.get? p = some pool) {size : Nat}
    (hsize : ¬pool.config.Covers size) : ∃ error, pool.config.refusal? size = some error ∧
      w.step (.alloc p size) = (.fault (.refused error), w) := by
  obtain ⟨error, herror⟩ := Option.ne_none_iff_exists'.mp (mt Config.covers_iff.mpr hsize)
  refine ⟨error, herror, ?_⟩
  simp only [World.step, World.alloc, hp, herror]

theorem Sound.fault_of_covers (h : w.Sound falling) (hp : w.pools.get? p = some pool) {size : Nat}
    (hsize : pool.config.Covers size) {fault : Fault}
    (hfault : (w.step (.alloc p size)).1 = .fault fault) :
    fault = .refused (.outOfMemory size) := by
  have hall := h.allocated p size
  simp only [World.step] at hfault
  generalize w.alloc p size = result at hall hfault
  cases hall with
  | noPool closed => cases hp.symm.trans closed
  | inadmissible opened refusal =>
      cases hp.symm.trans opened
      cases (Config.covers_iff.mp hsize).symm.trans refusal
  | outOfMemory => exact (Answer.fault.inj hfault).symm
  | served opened admitted table out =>
      simp only [issue_lend] at hfault
      cases hfault

theorem Sound.keepsTo (h : w.Sound falling) (hadmits : w.Admits)
    (hp : w.pools.get? p = some pool) : w.KeepsTo p pool := by
  have ht := h.table p pool hp
  have hcovers : ∀ {size c}, pool.classes.classFor? size = some c → pool.config.Covers size :=
    fun hc => hadmits.covers hp hc
  refine ⟨fun slot c hc => ?_, fun size hsize fault => ?_, fun size hsize => ?_, ?_, ?_, ?_, ?_⟩
  · have hfor := (ht.class?_eq_some_iff.mp hc).1
    refine ⟨hcovers hfor, fun chunk hchunk => ?_⟩
    rw [(ht.sound slot c hc).size_eq chunk hchunk]
    exact hcovers hfor
  · exact h.fault_of_covers hp hsize
  · exact step_alloc_of_not_covers hp hsize
  · intro size b serial payload hissued
    obtain ⟨pool', hp', hadmitted, hsize⟩ := h.covers_of_issued hissued
    cases hp.symm.trans hp'
    exact ⟨hsize, hadmitted⟩
  · intro ns hns
    simp only [World.step, World.ask, hp, Answer.sizes.injEq] at hns
    subst hns
    intro size hsize
    obtain ⟨c, hc⟩ := ht.mem_sizes_iff.mp hsize
    exact hcovers hc
  · intro size hflag
    simp only [World.step, World.ask, hp, Answer.flag.injEq] at hflag
    rw [ClassTable.contains, ← ht.classFor?_isSome] at hflag
    obtain ⟨c, hc⟩ := Option.isSome_iff_exists.mp hflag
    exact hcovers hc
  · intro during r hreceipt l hl
    rcases tearDown_cases w p during with ⟨fault, heq⟩ | ⟨pool', hp', hheld⟩
    · simp only [World.step, heq] at hreceipt
      cases hreceipt
    · cases hp.symm.trans hp'
      simp only [World.step, tearDown_eq hp hheld, Answer.receipt.injEq] at hreceipt
      subst hreceipt
      obtain ⟨c, hc, -⟩ := ht.mem_toReceipt_iff.mp hl
      exact hcovers hc

end KeepsTo

/-- What is in force where a run has come to. -/
structure Limited (grants : Nat → Bool) (past : List Action) (w : World) : Prop where
  opened : ∀ p pool, w.pools.get? p = some pool → OpenedAs grants past p pool.config
  fit : ∀ p c, OpenedAs grants past p c → c.Fit
  pools : ∀ p pool, w.pools.get? p = some pool → w.KeepsTo p pool
  /-- A block that outlives its pool keeps to the settings that the pool had. -/
  held : ∀ b block, w.held.get? b = some block →
    ∃ c, OpenedAs grants past block.pool c ∧ c.Covers block.size
  /-- A block of an open pool keeps to the settings of the pool. -/
  at_home : ∀ b block pool, w.held.get? b = some block → w.pools.get? block.pool = some pool →
    pool.config.Covers block.size
  /-- The settings of a pool are the same wherever the run goes on to. -/
  lasting : ∀ more w' falling, Arrived grants (past ++ more) w' falling → ∀ p pool pool',
    w.pools.get? p = some pool → w'.pools.get? p = some pool' → pool'.config = pool.config

section Arrived

variable {grants : Nat → Bool} {past : List Action} {w : World} {falling : Option PoolId}

/-- Wherever a run has come to, pools are opened with fit settings or not at all, and whatever an open pool
has and whatever callers hold keeps to the settings of its pool, which never change. -/
theorem Arrived.limits_hold_for_good (h : Arrived grants past w falling) :
    w.OpensFit ∧ Limited grants past w := by
  have hone := h.chartered.one
  refine ⟨w.opensFit, fun p pool hp => h.openedAs hp, h.chartered.fit, ?_, ?_, ?_, ?_⟩
  · intro p pool hp
    exact h.sound.keepsTo h.admits hp
  · intro b block hb
    exact covers_of_held (h.held_of hb)
  · intro b block pool hb hp
    obtain ⟨c, hopened, hcovers⟩ := covers_of_held (h.held_of hb)
    rw [hone _ _ _ (h.openedAs hp) hopened]
    exact hcovers
  · intro more w' falling' h' p pool pool' hp hp'
    exact h'.chartered.one p _ _ (h'.openedAs hp') ((h.openedAs hp).append more)

/-- A label that can be seen and one that cannot, and requests at the limit, above it and for nothing; then
the pool is torn down, and its block stays within the limit that the pool had. -/
theorem limits_hold_for_good_in_short_run :
    let past : List Action := [.openPool { name := " a", maxBlockSize := some 16 },
      .openPool (.named "\u3000"), .alloc ⟨0⟩ 16, .alloc ⟨0⟩ 17, .alloc ⟨0⟩ 0, .destroy ⟨0⟩ []]
    let w := reached (fun _ => true) past
    ((start fun _ => true).run past).1 = [.opened ⟨0⟩,
        .fault (.refused Config.Problem.blankName.toError), .issued ⟨0⟩ 0 (.zeros 16),
        .fault (.refused (.tooLarge 17 16)), .fault (.refused .zeroSize),
        .receipt { lines := [{ capacity := 16, cached := 0, inUse := 1 }] }] ∧
      w.OpensFit ∧ Limited (fun _ => true) past w ∧ w.pools.get? ⟨0⟩ = none ∧
      ∃ block c, w.held.get? ⟨0⟩ = some block ∧ OpenedAs (fun _ => true) past block.pool c ∧
        c.Covers block.size := by
  intro past w
  have hrun : Arrived (fun _ => true) past w none := .rest
  obtain ⟨hopens, hlimited⟩ := Arrived.limits_hold_for_good hrun
  have hheld : (w.held.get? ⟨0⟩).isSome = true := by decide +kernel
  obtain ⟨block, hblock⟩ := Option.isSome_iff_exists.mp hheld
  obtain ⟨c, hopened, hcovers⟩ := hlimited.held ⟨0⟩ block hblock
  exact ⟨by decide +kernel, hopens, hlimited, by decide +kernel, block, c, hblock, hopened, hcovers⟩

end Arrived

end World

end BlockPool
