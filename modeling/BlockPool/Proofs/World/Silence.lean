import BlockPool.Proofs.World.Moment

/-! What each pool says, and who can make it speak. Every action touches open pools only, so a pool that
was closed stays closed and says nothing more. A teardown is felt by the pool that falls alone: for all
others the world goes on as if the blocks released meanwhile had been released without it. The last word
of a pool is that it was destroyed, and no pool says it twice. -/

namespace BlockPool

/-- The record in which a pool reports an event. -/
def Pool.record (pool : Pool) (p : PoolId) (event : Event) : Record :=
  { pool := p, label := pool.config.name, event }

@[simp] theorem Pool.pool_record (pool : Pool) (p : PoolId) (event : Event) :
    (pool.record p event).pool = p := rfl

/-- Whether a pool reports with this event that it was destroyed. -/
def Event.last : Event → Bool
  | .destroyed _ _ => true
  | _ => false

/-- A receipt is reported with one last event, and nothing else that is one. -/
theorem Receipt.countP_last (r : Receipt) :
    (r.events.1 :: r.events.2).countP Event.last = 1 := by
  unfold events
  split <;> rfl

namespace World

/-- The records of one pool, the oldest first. -/
def recordsOf (w : World) (p : PoolId) : List Record :=
  w.log.toList.filter fun r => decide (r.pool = p)

/-- The records of all pools but one, the oldest first. -/
def recordsBeside (w : World) (p : PoolId) : List Record :=
  w.log.toList.filter fun r => decide (r.pool ≠ p)

/-- How often a pool reported that it was destroyed. -/
def endings (w : World) (p : PoolId) : Nat := (w.recordsOf p).countP (·.event.last)

/-- The pool was open once and is no more. -/
def Closed (w : World) (p : PoolId) : Prop :=
  p.index < w.pools.entries.size ∧ w.pools.get? p = none

instance (w : World) (p : PoolId) : Decidable (w.Closed p) :=
  inferInstanceAs (Decidable (_ ∧ _))

variable {w w' : World} {p q : PoolId}

theorem recordsOf_push {r : Record} (hlog : w'.log = w.log.push r) :
    w'.recordsOf p = w.recordsOf p ++ if r.pool = p then [r] else [] := by
  simp only [recordsOf, hlog, Array.toList_push, List.filter_append, List.filter_singleton]
  by_cases hr : r.pool = p <;> simp [hr]

theorem recordsBeside_push {r : Record} (hlog : w'.log = w.log.push r) :
    w'.recordsBeside p = w.recordsBeside p ++ if r.pool = p then [] else [r] := by
  simp only [recordsBeside, hlog, Array.toList_push, List.filter_append, List.filter_singleton]
  by_cases hr : r.pool = p <;> simp [hr]

theorem recordsOf_report (w : World) (q : PoolId) (pool : Pool) (event : Event) :
    (w.report q pool event).recordsOf p =
      w.recordsOf p ++ if q = p then [pool.record q event] else [] :=
  recordsOf_push (r := pool.record q event) rfl

theorem recordsOf_report_self (w : World) (p : PoolId) (pool : Pool) (event : Event) :
    (w.report p pool event).recordsOf p = w.recordsOf p ++ [pool.record p event] := by
  rw [recordsOf_report, if_pos rfl]

theorem recordsBeside_report (w : World) (q : PoolId) (pool : Pool) (event : Event) :
    (w.report q pool event).recordsBeside p =
      w.recordsBeside p ++ if q = p then [] else [pool.record q event] :=
  recordsBeside_push (r := pool.record q event) rfl

theorem recordsOf_beside (w : World) (hne : q ≠ p) :
    w.recordsOf q = (w.recordsBeside p).filter fun r => decide (r.pool = q) := by
  rw [recordsOf, recordsBeside, List.filter_filter]
  refine List.filter_congr fun r _ => ?_
  by_cases hr : r.pool = q
  · simp [hr, hne]
  · simp [hr]

theorem endings_push {r : Record} (hlog : w'.log = w.log.push r) (hr : r.event.last = false) :
    w'.endings p = w.endings p := by
  rw [endings, recordsOf_push hlog, List.countP_append]
  split <;> simp [hr, endings]

/-! ### Touching a pool -/

/-- What an action does to the pools and to the log, and says nothing of what callers hold: it leaves
them alone, an open pool speaks, its last word excepted, or a pool is opened. -/
inductive Touch (w w' : World) : Prop
  | rests (pools : w'.pools = w.pools) (log : w'.log = w.log)
  | speaks {q : PoolId} {pool new : Pool} {event : Event} (opened : w.pools.get? q = some pool)
      (pools : w'.pools = w.pools.set q new) (log : w'.log = w.log.push (pool.record q event))
      (lasts : event.last = false)
  | opens (pool : Pool) (pools : w'.pools = (w.pools.add pool).2)
      (log : w'.log = w.log.push (pool.record (w.pools.add pool).1 .created))

theorem Touch.closed_iff (h : w.Touch w') (p : PoolId) : w'.Closed p ↔ w.Closed p := by
  unfold Closed
  cases h with
  | rests pools log => rw [pools]
  | @speaks q pool new event opened pools log lasts =>
      have hsize : (w.pools.set q new).entries.size = w.pools.entries.size :=
        Array.size_setIfInBounds
      rw [pools, hsize, Registry.get?_set opened]
      split
      · next heq => simp [heq, opened]
      · rfl
  | opens pool pools log =>
      have hsize : (w.pools.add pool).2.entries.size = w.pools.entries.size + 1 := Array.size_push _
      rw [pools, hsize, Registry.get?_add]
      split
      · next heq =>
        subst heq
        exact iff_of_false (fun h => nomatch h.2) fun h => Nat.lt_irrefl _ h.1
      · next hne =>
        have hindex : p.index ≠ w.pools.entries.size := by
          rintro heq
          exact hne (congrArg Handle.mk heq)
        refine and_congr_left fun _ => ?_
        omega

/-- An open pool stays open. -/
theorem Touch.isSome (h : w.Touch w') (hp : (w.pools.get? p).isSome = true) :
    (w'.pools.get? p).isSome = true := by
  cases h with
  | rests pools log => rwa [pools]
  | speaks opened pools log lasts =>
      rw [pools, Registry.get?_set opened]
      split
      · rfl
      · exact hp
  | opens pool pools log =>
      rw [pools, Registry.get?_add]
      split
      · rfl
      · exact hp

/-- A closed pool says nothing. -/
theorem Touch.recordsOf_eq (h : w.Touch w') (hclosed : w.Closed p) :
    w'.recordsOf p = w.recordsOf p := by
  cases h with
  | rests pools log => rw [recordsOf, log, ← recordsOf]
  | @speaks q pool new event opened pools log lasts =>
      have hne : q ≠ p := by
        rintro rfl
        rw [hclosed.2] at opened
        cases opened
      rw [recordsOf_push log, Pool.pool_record, if_neg hne, List.append_nil]
  | opens pool pools log =>
      have hne : (w.pools.add pool).1 ≠ p := by
        rintro rfl
        exact Nat.lt_irrefl _ hclosed.1
      rw [recordsOf_push log, Pool.pool_record, if_neg hne, List.append_nil]

theorem Touch.endings_eq (h : w.Touch w') (p : PoolId) : w'.endings p = w.endings p := by
  cases h with
  | rests pools log => rw [endings, recordsOf, log, ← recordsOf, ← endings]
  | speaks opened pools log lasts => exact endings_push log lasts
  | opens pool pools log => exact endings_push log rfl

theorem touch_regrant (w : World) (grants : Nat → Bool) : w.Touch (w.regrant grants) :=
  .rests rfl rfl

theorem touch_enter (w : World) (config : Config) : w.Touch (w.enter config).2 :=
  .opens { config } rfl rfl

theorem touch_alloc (w : World) (q : PoolId) (size : Nat) : w.Touch (w.alloc q size).2 := by
  unfold alloc
  cases hq : w.pools.get? q with
  | none => exact .rests rfl rfl
  | some pool =>
      simp only
      cases pool.config.refusal? size with
      | some error => exact .rests rfl rfl
      | none =>
          simp only
          rcases pool.classes.checkout w.heap size with ⟨_ | _, T, heap⟩
          · exact .speaks hq rfl rfl rfl
          · exact .speaks hq rfl rfl rfl

theorem touch_release (w : World) (b : BlockId) : w.Touch (w.release b) := by
  unfold release
  cases w.held.get? b with
  | none => exact .rests rfl rfl
  | some block =>
      simp only [takeBack]
      cases hq : w.pools.get? block.pool with
      | none => exact .rests rfl rfl
      | some pool =>
          simp only
          cases pool.classes.checkin? block.chunk with
          | none => exact .speaks hq (Registry.set_of_get? hq).symm rfl rfl
          | some out => exact .speaks hq rfl rfl rfl

theorem touch_clear (w : World) (q : PoolId) (eraseVacant : Bool) :
    w.Touch (w.clear q eraseVacant).2 := by
  cases hq : w.pools.get? q with
  | none => simpa only [clear, hq] using Touch.rests rfl rfl
  | some pool =>
      rw [clear_eq hq]
      exact .speaks hq rfl rfl rfl

theorem touch_write (w : World) (b : BlockId) (offset : Nat) (data : Payload) :
    w.Touch (w.write b offset data).2 := by
  have hall := written w b offset data
  generalize (w.write b offset data).2 = result at hall ⊢
  cases hall <;> exact .rests rfl rfl

/-- What every touch keeps, the release of blocks keeps. -/
theorem Touch.releases {P : World → Prop} (hkeep : ∀ {w w' : World}, w.Touch w' → P w → P w')
    (h : P w) (bs : List BlockId) : P (bs.foldl World.release w) := by
  induction bs generalizing w with
  | nil => exact h
  | cons b rest ih => exact ih (hkeep (touch_release w b) h)

/-- What every touch and every teardown keeps, every action keeps. -/
theorem Touch.step {P : World → Prop} (hkeep : ∀ {w w' : World}, w.Touch w' → P w → P w')
    (htear : ∀ {w : World}, P w → ∀ p during, P (w.tearDown p during).2) (h : P w) (a : Action) :
    P (w.step a).2 := by
  rw [step_world]
  cases a with
  | openPool config =>
      rcases openPool_world w config with heq | heq
      · rw [World.after, heq]
        exact h
      · rw [World.after, heq]
        exact hkeep (touch_enter w config) h
  | openStandard => exact hkeep (touch_enter w .standard) h
  | alloc q size => exact hkeep (touch_alloc w q size) h
  | free q b =>
      rw [World.after]
      rcases free_world w q b with heq | ⟨pool, hq, heq⟩ | heq
      · rw [heq]
        exact h
      · rw [heq]
        have hreport : w.Touch (w.report q pool .refused) :=
          .speaks hq (Registry.set_of_get? hq).symm rfl rfl
        exact hkeep (touch_release _ b) (hkeep hreport h)
      · rw [heq]
        exact hkeep (touch_release w b) h
  | release b => exact hkeep (touch_release w b) h
  | write b offset data => exact hkeep (touch_write w b offset data) h
  | clear q eraseVacant => exact hkeep (touch_clear w q eraseVacant) h
  | destroy q during | discard q during => exact htear h q during
  | sizes | contains | count | read | belongs => exact h

/-! ### Worlds that agree beside one pool -/

/-- The worlds agree in everything but this pool and what it says. -/
structure Beside (p : PoolId) (w w' : World) : Prop where
  heap : w'.heap = w.heap
  held : w'.held = w.held
  size : w'.pools.entries.size = w.pools.entries.size
  pools : ∀ q ≠ p, w'.pools.get? q = w.pools.get? q
  records : w'.recordsBeside p = w.recordsBeside p

namespace Beside

theorem refl (p : PoolId) (w : World) : Beside p w w := ⟨rfl, rfl, rfl, fun _ _ => rfl, rfl⟩

theorem symm (h : Beside p w w') : Beside p w' w :=
  ⟨h.heap.symm, h.held.symm, h.size.symm, fun q hne => (h.pools q hne).symm, h.records.symm⟩

theorem trans {w'' : World} (h : Beside p w w') (h' : Beside p w' w'') : Beside p w w'' where
  heap := h'.heap.trans h.heap
  held := h'.held.trans h.held
  size := h'.size.trans h.size
  pools q hne := (h'.pools q hne).trans (h.pools q hne)
  records := h'.records.trans h.records

theorem closed_iff (h : Beside q w w') (hne : p ≠ q) : w'.Closed p ↔ w.Closed p := by
  rw [Closed, Closed, h.size, h.pools p hne]

theorem recordsOf_eq (h : Beside q w w') (hne : p ≠ q) : w'.recordsOf p = w.recordsOf p := by
  rw [recordsOf_beside w hne, recordsOf_beside w' hne, h.records]

/-- The pool speaks. -/
theorem report (p : PoolId) (w : World) (pool : Pool) (event : Event) :
    Beside p w (w.report p pool event) := by
  refine ⟨rfl, rfl, rfl, fun _ _ => rfl, ?_⟩
  rw [recordsBeside_report, if_pos rfl, List.append_nil]

/-- The pool has a new table. -/
theorem set {pool : Pool} (hp : w.pools.get? p = some pool) (new : Pool) :
    Beside p w { w with pools := w.pools.set p new } :=
  ⟨rfl, rfl, Array.size_setIfInBounds,
    fun _ hne => (Registry.get?_set hp).trans (if_neg hne), rfl⟩

theorem remove (p : PoolId) (w : World) :
    Beside p w { w with pools := w.pools.remove p } :=
  ⟨rfl, rfl, Array.size_setIfInBounds,
    fun _ hne => Registry.get?_remove.trans (if_neg hne), rfl⟩

theorem reports (p : PoolId) (w : World) (pool : Pool) (events : List Event) :
    Beside p w (events.foldl (fun w event => w.report p pool event) w) := by
  induction events generalizing w with
  | nil => exact refl p w
  | cons event rest ih => exact (report p w pool event).trans (ih _)

theorem emptied {pool : Pool} (hp : w.pools.get? p = some pool) :
    Beside p w (w.emptied p pool) :=
  (set hp _).trans (report p _ pool _)

theorem closed (p : PoolId) (w : World) (pool : Pool) (receipt : Receipt) :
    Beside p w (w.closed p pool receipt) :=
  (reports p w pool receipt.events.2).trans (remove p _)

/-- A pool speaks in both worlds alike. -/
theorem report_both (h : Beside p w w') (q : PoolId) (pool : Pool) (event : Event) :
    Beside p (w.report q pool event) (w'.report q pool event) := by
  refine ⟨h.heap, h.held, h.size, h.pools, ?_⟩
  rw [recordsBeside_report, recordsBeside_report, h.records]

/-- Another pool has a new table in both worlds. -/
theorem set_other (h : Beside p w w') {pool : Pool} (hq : w.pools.get? q = some pool)
    (hne : q ≠ p) (new : Pool) :
    Beside p { w with pools := w.pools.set q new } { w' with pools := w'.pools.set q new } := by
  have hq' : w'.pools.get? q = some pool := (h.pools q hne).trans hq
  refine ⟨h.heap, h.held, ?_, fun r hr => ?_, h.records⟩
  · have hsize := h.size
    simpa [Registry.set] using hsize
  · rw [Registry.get?_set hq, Registry.get?_set hq', h.pools r hr]

/-- A pool that takes back a block is the only one to notice. -/
theorem takeBack_own (w : World) (block : Block) : Beside block.pool w (w.takeBack block) := by
  unfold World.takeBack
  cases hp : w.pools.get? block.pool with
  | none => exact refl _ w
  | some pool =>
      simp only
      cases pool.classes.checkin? block.chunk with
      | none => exact report _ w pool _
      | some out => exact (set hp _).trans (report _ _ pool _)

theorem takeBack_other (h : Beside p w w') {block : Block} (hne : block.pool ≠ p) :
    Beside p (w.takeBack block) (w'.takeBack block) := by
  unfold World.takeBack
  rw [h.pools _ hne]
  cases hq : w.pools.get? block.pool with
  | none => exact h
  | some pool =>
      simp only
      cases pool.classes.checkin? block.chunk with
      | none => exact h.report_both _ pool _
      | some out => exact (h.set_other hq hne _).report_both _ pool _

theorem release (h : Beside p w w') (b : BlockId) : Beside p (w.release b) (w'.release b) := by
  unfold World.release
  rw [h.held]
  cases w.held.get? b with
  | none => exact h
  | some block =>
      have hdrop : Beside p { w with held := w.held.remove b } { w' with held := w.held.remove b } :=
        ⟨h.heap, rfl, h.size, h.pools, h.records⟩
      by_cases hown : block.pool = p
      · subst hown
        exact ((takeBack_own _ block).symm.trans hdrop).trans (takeBack_own _ block)
      · exact hdrop.takeBack_other hown

theorem releases (h : Beside p w w') (bs : List BlockId) :
    Beside p (bs.foldl World.release w) (bs.foldl World.release w') := by
  induction bs generalizing w w' with
  | nil => exact h
  | cons b rest ih => exact ih (h.release b)

/-- For all but the pool that falls, blocks released in the middle of a teardown are just released. -/
theorem tearDown {pool : Pool} (hp : w.pools.get? p = some pool) {during : List BlockId}
    (hheld : ∀ b ∈ during, (w.held.get? b).isSome = true) :
    Beside p (during.foldl World.release w) (w.tearDown p during).2 := by
  rw [tearDown_eq hp hheld]
  exact ((emptied hp).releases during).trans (closed p _ pool _)

end Beside

/-! ### Closed pools -/

/-- The pool is closed, and this is all that it ever said. -/
structure Silent (p : PoolId) (said : List Record) (w : World) : Prop where
  closed : w.Closed p
  records : w.recordsOf p = said

namespace Silent

variable {said : List Record}

theorem touch (htouch : w.Touch w') (h : Silent p said w) : Silent p said w' :=
  ⟨(htouch.closed_iff p).mpr h.closed, (htouch.recordsOf_eq h.closed).trans h.records⟩

theorem beside (h : Silent p said w) (hbeside : Beside q w w') (hne : p ≠ q) : Silent p said w' :=
  ⟨(hbeside.closed_iff hne).mpr h.closed, (hbeside.recordsOf_eq hne).trans h.records⟩

theorem ne_of_opened (h : Silent p said w) {pool : Pool} (hq : w.pools.get? q = some pool) :
    p ≠ q := by
  rintro rfl
  rw [h.closed.2] at hq
  cases hq

theorem releases (h : Silent p said w) (bs : List BlockId) :
    Silent p said (bs.foldl World.release w) :=
  Touch.releases touch h bs

theorem tearDown (h : Silent p said w) (q : PoolId) (during : List BlockId) :
    Silent p said (w.tearDown q during).2 := by
  rcases tearDown_cases w q during with ⟨fault, heq⟩ | ⟨pool, hq, hheld⟩
  · rw [heq]
    exact h
  · exact (h.releases during).beside (Beside.tearDown hq hheld) (h.ne_of_opened hq)

theorem step (h : Silent p said w) (a : Action) : Silent p said (w.step a).2 :=
  Touch.step touch tearDown h a

/-- A closed pool stays silent, also in the middle of the teardowns of other pools. -/
theorem later {m m' : Moment} (hlater : m.Later m') (h : Silent p said m.world)
    (hfalling : m.falling ≠ some p) : Silent p said m'.world ∧ m'.falling ≠ some p := by
  induction hlater with
  | refl => exact ⟨h, hfalling⟩
  | tail _ hnext ih =>
      obtain ⟨hsilent, hfalling⟩ := ih
      cases hnext with
      | step a => exact ⟨hsilent.step a, by simp⟩
      | fall opened =>
          have hne := hsilent.ne_of_opened opened
          exact ⟨hsilent.beside (Beside.emptied opened) hne, fun heq => hne (Option.some.inj heq).symm⟩
      | release b => exact ⟨touch (touch_release _ b) hsilent, hfalling⟩
      | @close w _ _ q pool receipt =>
          have hne : p ≠ q := fun heq => hfalling (congrArg some heq.symm)
          exact ⟨hsilent.beside (Beside.closed q w pool receipt) hne, by simp⟩
      | regrant grants => exact ⟨touch (touch_regrant _ grants) hsilent, hfalling⟩

/-- A block of a closed pool is let go of, and nothing else happens. -/
theorem release_eq (h : Silent p said w) {b : BlockId} {block : Block}
    (hb : w.held.get? b = some block) (hown : block.pool = p) : w.release b = w.drop b := by
  have hclosed : w.pools.get? block.pool = none := hown ▸ h.closed.2
  simp only [release, hb, takeBack, hclosed]
  rfl

end Silent

/-! ### The last word of a pool -/

theorem endings_report (w : World) (p : PoolId) (pool : Pool) (event : Event) :
    (w.report p pool event).endings p = w.endings p + if event.last then 1 else 0 := by
  rw [endings, recordsOf_report_self, List.countP_append, List.countP_singleton]
  rfl

theorem endings_reports (w : World) (p : PoolId) (pool : Pool) (events : List Event) :
    (events.foldl (fun w event => w.report p pool event) w).endings p =
      w.endings p + events.countP Event.last := by
  induction events generalizing w with
  | nil => rfl
  | cons event rest ih =>
      rw [List.foldl_cons, ih, endings_report, List.countP_cons]
      omega

theorem endings_releases (w : World) (p : PoolId) (bs : List BlockId) :
    (bs.foldl World.release w).endings p = w.endings p :=
  Touch.releases (P := fun x => x.endings p = w.endings p)
    (fun htouch h => (htouch.endings_eq p).trans h) rfl bs

theorem isSome_releases {w : World} (hp : (w.pools.get? p).isSome = true) (bs : List BlockId) :
    ((bs.foldl World.release w).pools.get? p).isSome = true :=
  Touch.releases (P := fun x => (x.pools.get? p).isSome = true) Touch.isSome hp bs

theorem endings_emptied (w : World) (p : PoolId) (pool : Pool) :
    (w.emptied p pool).endings p = w.endings p +
      if pool.classes.toReceipt.events.1.last then 1 else 0 :=
  endings_report { w with pools := w.pools.set p { pool with classes := {} } } p pool _

theorem endings_closed (w : World) (p : PoolId) (pool : Pool) (receipt : Receipt) :
    (w.closed p pool receipt).endings p = w.endings p + receipt.events.2.countP Event.last :=
  endings_reports w p pool receipt.events.2

/-- A teardown says once that the pool was destroyed. -/
theorem endings_tearDown {pool : Pool} (hp : w.pools.get? p = some pool) {during : List BlockId}
    (hheld : ∀ b ∈ during, (w.held.get? b).isSome = true) :
    (w.tearDown p during).2.endings p = w.endings p + 1 := by
  have hlast := pool.classes.toReceipt.countP_last
  rw [List.countP_cons] at hlast
  rw [tearDown_eq hp hheld, endings_closed, endings_releases, endings_emptied]
  show _ + List.countP _ pool.classes.toReceipt.events.2 = _
  omega

theorem closed_tearDown {pool : Pool} (hp : w.pools.get? p = some pool) {during : List BlockId}
    (hheld : ∀ b ∈ during, (w.held.get? b).isSome = true) : (w.tearDown p during).2.Closed p := by
  have hemptied : (w.emptied p pool).pools.get? p = some { pool with classes := {} } :=
    (Registry.get?_set hp).trans (if_pos rfl)
  obtain ⟨pool', hpool'⟩ := Option.isSome_iff_exists.mp
    (isSome_releases (Option.isSome_of_eq_some hemptied) during)
  rw [tearDown_eq hp hheld]
  refine ⟨?_, Registry.get?_remove.trans (if_pos rfl)⟩
  rw [(Beside.closed p _ pool _).size]
  exact Registry.lt_size_of_get? hpool'

/-- Every closed pool reported once that it was destroyed, and no other pool did. -/
def EndsOnce (w : World) : Prop := ∀ p, w.endings p = if w.Closed p then 1 else 0

theorem EndsOnce.touch (htouch : w.Touch w') (h : w.EndsOnce) : w'.EndsOnce := by
  intro p
  rw [htouch.endings_eq, h p]
  exact if_congr (htouch.closed_iff p).symm rfl rfl

theorem EndsOnce.releases (h : w.EndsOnce) (bs : List BlockId) :
    (bs.foldl World.release w).EndsOnce :=
  Touch.releases EndsOnce.touch h bs

theorem EndsOnce.tearDown (h : w.EndsOnce) (p : PoolId) (during : List BlockId) :
    (w.tearDown p during).2.EndsOnce := by
  rcases tearDown_cases w p during with ⟨fault, heq⟩ | ⟨pool, hp, hheld⟩
  · rw [heq]
    exact h
  · intro q
    by_cases hq : q = p
    · subst hq
      have hopen : ¬w.Closed q := fun hclosed => nomatch hp.symm.trans hclosed.2
      rw [endings_tearDown hp hheld, h q, if_neg hopen, if_pos (closed_tearDown hp hheld)]
    · have hbeside := Beside.tearDown hp hheld
      rw [endings, hbeside.recordsOf_eq hq, ← endings, h.releases during q]
      exact if_congr (hbeside.closed_iff hq).symm rfl rfl

/-- In no run is a pool torn down twice. -/
theorem Passed.endsOnce {grants : Nat → Bool} {w : World} (h : Passed grants w none) :
    w.EndsOnce := by
  generalize hnone : none = falling at h
  induction h with
  | start =>
      intro p
      have hopen : ¬(World.start grants).Closed p := fun hclosed => Nat.not_lt_zero _ hclosed.1
      rw [if_neg hopen]
      rfl
  | step before a ih => exact Touch.step EndsOnce.touch EndsOnce.tearDown (ih rfl) a
  | fall | release => cases hnone
  | regrant before other ih => exact (ih hnone).touch (touch_regrant _ other)

end World

end BlockPool
