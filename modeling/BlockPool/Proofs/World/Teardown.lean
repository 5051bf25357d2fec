import BlockPool.Proofs.World.Silence

/-! Blocks that are released in the middle of a teardown. The classes of the pool are gone by then, so a
block of its own goes back to the heap and the pool says so; a block of another open pool is parked there
as ever; and a block of a closed pool is let go of without a word. Neither the receipt nor what the pool
reports of its end depends on any of them. A teardown that is asked for and one that comes with the end of
the handle differ only in who gets the receipt. -/

namespace BlockPool

/-- Blocks that are released in the middle of a teardown: before its first report, between its reports,
and after the last one. -/
structure Interlude where
  early : List BlockId := []
  between : List BlockId := []
  late : List BlockId := []

namespace Interlude

def blocks (i : Interlude) : List BlockId := i.early ++ i.between ++ i.late

/-- Callers hold the blocks, and each is released once. -/
structure Fits (i : Interlude) (w : World) : Prop where
  held : ∀ b ∈ i.blocks, (w.held.get? b).isSome = true
  once : i.blocks.Nodup

end Interlude

namespace World

/-- The world in which a pool has lost its classes and has not reported it yet. -/
def taken (w : World) (p : PoolId) (pool : Pool) : World :=
  { w with pools := w.pools.set p { pool with classes := {} } }

/-- A teardown up to the answer, the handle of the pool being there still. -/
def dismantle (w : World) (p : PoolId) (pool : Pool) (i : Interlude) : Receipt × World :=
  let receipt := pool.classes.toReceipt
  let w := i.early.foldl release (w.taken p pool)
  let w := i.between.foldl release (w.report p pool receipt.events.1)
  let w := receipt.events.2.foldl (fun w event => w.report p pool event) w
  (receipt, i.late.foldl release w)

end World

/-- The handle that owns a pool. -/
structure Owner where
  pool : PoolId
  /-- The pool was torn down on request, and is not torn down again at the end of the handle. -/
  destroyed : Bool := false

namespace Owner

/-- The end of the handle, which closes the pool. -/
def drop (o : Owner) (w : World) (pool : Pool) (i : Interlude) : World :=
  let w := if o.destroyed then w else (w.dismantle o.pool pool i).2
  { w with pools := w.pools.remove o.pool }

/-- The teardown on request, and the end of the handle right after it. -/
def destroy (o : Owner) (w : World) (pool : Pool) (i : Interlude) : Receipt × World :=
  let o := { o with destroyed := true }
  let (receipt, w) := w.dismantle o.pool pool i
  (receipt, o.drop w pool {})

/-- The end of a handle does all that a teardown on request does, and never does it again. -/
theorem drop_eq_destroy (p : PoolId) (w : World) (pool : Pool) (i : Interlude) :
    drop { pool := p } w pool i = (destroy { pool := p } w pool i).2 := rfl

end Owner

namespace World

/-- Teardowns release blocks between their reports. -/
theorem tearDown_eq_destroy {w : World} {p : PoolId} {pool : Pool}
    (hp : w.pools.get? p = some pool) {during : List BlockId}
    (hheld : ∀ b ∈ during, (w.held.get? b).isSome = true) :
    w.tearDown p during =
      (.ok (Owner.destroy { pool := p } w pool { between := during }).1,
        (Owner.destroy { pool := p } w pool { between := during }).2) :=
  tearDown_eq hp hheld

/-! ### In the middle of a teardown -/

/-- The worlds in the middle of a teardown: the pool has lost its classes, and since then it reports what
it has to report, and callers release blocks. -/
inductive Amid (w : World) (p : PoolId) (pool : Pool) : World → Prop
  | taken : Amid w p pool (w.taken p pool)
  | report {x : World} (before : Amid w p pool x) {event : Event}
      (due : event ∈ pool.classes.toReceipt.events.1 :: pool.classes.toReceipt.events.2) :
      Amid w p pool (x.report p pool event)
  | release {x : World} (before : Amid w p pool x) (b : BlockId) : Amid w p pool (x.release b)

namespace Amid

variable {w x : World} {p : PoolId} {pool : Pool}

theorem sound (h : Amid w p pool x) (hw : w.Sound none) (hp : w.pools.get? p = some pool) :
    x.Sound (some p) := by
  induction h with
  | taken =>
      have hemptied := hw.emptied hp
      exact ⟨hemptied.table, hemptied.in_use, hemptied.home, hemptied.fallen, hemptied.known⟩
  | report before due ih => exact ih.report p pool _
  | release before b ih => exact ih.release b

theorem releases (h : Amid w p pool x) (bs : List BlockId) :
    Amid w p pool (bs.foldl World.release x) := by
  induction bs generalizing x with
  | nil => exact h
  | cons b rest ih => exact ih (h.release b)

theorem books (h : Amid w p pool x) (hw : w.Sound none) (hp : w.pools.get? p = some pool)
    {freed : List Nat} {served : Nat} (hbooks : w.Books freed served) :
    ∃ freed', x.Books freed' served := by
  induction h with
  | taken => exact ⟨_, hbooks.emptyTable hp ClassTable.Sound.empty (fun _ => rfl) rfl⟩
  | @report x before event due ih =>
      obtain ⟨freed', hx⟩ := ih
      refine ⟨freed', hx.report p pool fun isNew size heq => ?_⟩
      subst heq
      unfold Receipt.events at due
      split at due <;> simp at due
  | @release x before b ih =>
      obtain ⟨freed', hx⟩ := ih
      exact ⟨_, hx.release (before.sound hw hp) b⟩

/-- The classes of the pool are gone, and so they stay. -/
theorem get?_eq (h : Amid w p pool x) (hw : w.Sound none) (hp : w.pools.get? p = some pool) :
    x.pools.get? p = some { pool with classes := {} } := by
  induction h with
  | taken => exact (Registry.get?_set hp).trans (if_pos rfl)
  | report before due ih => exact ih
  | @release x before b ih =>
      have hall := (before.sound hw hp).released b
      generalize x.release b = result at hall ⊢
      cases hall with
      | notHeld | homeless | orphaned => exact ih
      | parked held opened stands found owner in_use table after =>
          have hne : p ≠ _ := fun heq => stands (congrArg some heq)
          exact ((Registry.get?_set opened).trans (if_neg hne)).trans ih

/-- A block of the pool itself finds no class and goes back to the heap. -/
theorem release_own (h : Amid w p pool x) (hw : w.Sound none) (hp : w.pools.get? p = some pool)
    {b : BlockId} {block : Block} (hb : x.held.get? b = some block) (hown : block.pool = p) :
    x.release b = (x.drop b).report p pool .orphaned := by
  subst hown
  have hnone : ({ pool with classes := {} } : Pool).classes.class? block.chunk.owner = none := rfl
  simp only [World.release, hb, takeBack, h.get?_eq hw hp, ClassTable.checkin?_of_none hnone]
  rfl

end Amid

/-- What becomes of blocks that are released in the middle of the teardown of this pool. -/
structure Fates (x : World) (p : PoolId) (pool : Pool) : Prop where
  emptied : x.pools.get? p = some { pool with classes := {} }
  /-- A block of the pool itself: its chunk is nowhere any more, and the pool says so once. -/
  own : ∀ b block, x.held.get? b = some block → block.pool = p →
    x.release b = (x.drop b).report p pool .orphaned ∧
      block.chunk.serial ∉ (x.release b).heldSerials ∧
      block.chunk.serial ∉ (x.release b).parkedSerials
  /-- A block of another open pool: its chunk is parked on top of those of its size. -/
  other : ∀ b block home, x.held.get? b = some block → block.pool ≠ p →
    x.pools.get? block.pool = some home →
    ∃ T, T.parkedFor block.size = block.chunk :: home.classes.parkedFor block.size ∧
      (∀ size ≠ block.size, T.classFor? size = home.classes.classFor? size) ∧
      x.release b = World.report
        { x.drop b with pools := x.pools.set block.pool { home with classes := T } } block.pool home
        (.cached block.size ((x.drop b).outOf block.pool block.size))
  /-- A block of a closed pool. -/
  homeless : ∀ b block, x.held.get? b = some block → x.pools.get? block.pool = none →
    x.release b = x.drop b

theorem Amid.fates {w x : World} {p : PoolId} {pool : Pool} (h : Amid w p pool x)
    (hw : w.Sound none) (hp : w.pools.get? p = some pool) {freed : List Nat} {served : Nat}
    (hbooks : w.Books freed served) : x.Fates p pool := by
  have hx := h.sound hw hp
  obtain ⟨freed', hxbooks⟩ := h.books hw hp hbooks
  refine ⟨h.get?_eq hw hp, ?_, ?_, ?_⟩
  · intro b block hb hown
    refine ⟨h.release_own hw hp hb hown, ?_⟩
    -- what is given back to the heap is counted once, hence neither held nor parked
    have hshed : x.shed (some p) b = [block.chunk.serial] := by simp [shed, hb, hown]
    have haccounted := (hxbooks.release hx b).accounted block.chunk.serial
    rw [hshed, List.count_append, List.count_singleton_self] at haccounted
    rw [← List.count_eq_zero, ← List.count_eq_zero]
    split at haccounted <;> exact ⟨by omega, by omega⟩
  · intro b block home hb hne hopen
    have hall := hx.released b
    generalize x.release b = result at hall ⊢
    cases hall with
    | notHeld missing => cases hb.symm.trans missing
    | homeless held closed =>
        cases hb.symm.trans held
        cases hopen.symm.trans closed
    | orphaned held opened falls =>
        cases hb.symm.trans held
        exact absurd (Option.some.inj falls).symm hne
    | @parked _ _ c T held opened stands found owner in_use table after =>
        cases hb.symm.trans held
        cases hopen.symm.trans opened
        refine ⟨T, ?_, fun size hsize => ?_, rfl⟩
        · rw [ClassTable.parkedFor_of_update after, Function.update_self,
            ClassTable.parkedFor_of_classFor? found]
          rfl
        · rw [after, Function.update_of_ne hsize]
  · intro b block hb hclosed
    simp only [World.release, hb, takeBack, hclosed]
    rfl

/-! ### What the pool reports -/

/-- How many of these blocks callers hold from this pool. -/
def owned (w : World) (p : PoolId) (bs : List BlockId) : Nat :=
  bs.countP fun b => (w.held.get? b).any fun block => decide (block.pool = p)

theorem held_release (w : World) (b : BlockId) : (w.release b).held = w.held.remove b := by
  unfold release
  cases hb : w.held.get? b with
  | none => exact (Registry.remove_of_get?_none hb).symm
  | some block => exact (Beside.takeBack_own _ block).held

theorem held_releases (w : World) (bs : List BlockId) :
    (bs.foldl World.release w).held = bs.foldl Registry.remove w.held := by
  induction bs generalizing w with
  | nil => rfl
  | cons b rest ih => rw [List.foldl_cons, ih, held_release, List.foldl_cons]

theorem held?_releases {w : World} {b : BlockId} {bs : List BlockId} (hb : b ∉ bs) :
    (bs.foldl World.release w).held.get? b = w.held.get? b := by
  rw [held_releases, Registry.get?_removes, if_neg hb]

theorem owned_congr {w x : World} {bs : List BlockId}
    (hheld : ∀ b ∈ bs, x.held.get? b = w.held.get? b) (p : PoolId) : x.owned p bs = w.owned p bs := by
  refine List.countP_congr fun b hb => ?_
  rw [hheld b hb]

theorem recordsOf_reports (w : World) (p : PoolId) (pool : Pool) (events : List Event) :
    (events.foldl (fun w event => w.report p pool event) w).recordsOf p =
      w.recordsOf p ++ events.map (pool.record p) := by
  induction events generalizing w with
  | nil => exact (List.append_nil _).symm
  | cons event rest ih =>
      rw [List.foldl_cons, ih, recordsOf_report_self, List.append_assoc]
      rfl

namespace Amid

variable {w x : World} {p : PoolId} {pool : Pool}

theorem reports (h : Amid w p pool x) {events : List Event}
    (hdue : events ⊆ pool.classes.toReceipt.events.1 :: pool.classes.toReceipt.events.2) :
    Amid w p pool (events.foldl (fun w event => w.report p pool event) x) := by
  induction events generalizing x with
  | nil => exact h
  | cons event rest ih =>
      exact ih (h.report (hdue List.mem_cons_self)) fun _ hmem => hdue (List.mem_cons_of_mem _ hmem)

theorem dismantle (w : World) (p : PoolId) (pool : Pool) (i : Interlude) :
    Amid w p pool (w.dismantle p pool i).2 :=
  ((((Amid.taken.releases i.early).report List.mem_cons_self).releases i.between).reports
    (List.subset_cons_self _ _)).releases i.late

variable (h : Amid w p pool x) (hw : w.Sound none) (hp : w.pools.get? p = some pool)

include h hw hp

theorem recordsOf_release (b : BlockId) : (x.release b).recordsOf p =
    x.recordsOf p ++ List.replicate (x.owned p [b]) (pool.record p .orphaned) := by
  cases hb : x.held.get? b with
  | none =>
      rw [release_of_get?_none hb]
      simp [owned, hb]
  | some block =>
      by_cases hown : block.pool = p
      · have hone : x.owned p [b] = 1 := by simp [owned, hb, hown]
        rw [h.release_own hw hp hb hown, recordsOf_report_self, hone]
        rfl
      · have hzero : x.owned p [b] = 0 := by simp [owned, hb, hown]
        have hbeside := Beside.takeBack_own (x.drop b) block
        have hrelease : x.release b = (x.drop b).takeBack block := by
          simp only [World.release, hb]
          rfl
        rw [hrelease, hbeside.recordsOf_eq (Ne.symm hown), hzero]
        exact (List.append_nil _).symm

theorem recordsOf_releases {bs : List BlockId} (honce : bs.Nodup) :
    (bs.foldl World.release x).recordsOf p =
      x.recordsOf p ++ List.replicate (x.owned p bs) (pool.record p .orphaned) := by
  induction bs generalizing x with
  | nil => exact (List.append_nil _).symm
  | cons b rest ih =>
      obtain ⟨hb, honce⟩ := List.nodup_cons.mp honce
      have hrest : (x.release b).owned p rest = x.owned p rest := by
        refine owned_congr (fun c hc => ?_) p
        rw [held_release, Registry.get?_remove, if_neg]
        rintro rfl
        exact hb hc
      have hsplit : x.owned p (b :: rest) = x.owned p [b] + x.owned p rest := by
        rw [owned, ← List.singleton_append, List.countP_append]
        rfl
      rw [List.foldl_cons, ih (h.release b) honce, h.recordsOf_release hw hp, hrest, hsplit,
        List.append_assoc, ← List.replicate_add]

end Amid

/-- All that a pool reports of its teardown with these blocks released meanwhile: for every block of its
own that it is an orphan, and for the rest what the receipt says. -/
def obituary (w : World) (p : PoolId) (receipt : Receipt) (i : Interlude) : List Event :=
  List.replicate (w.owned p i.early) .orphaned ++ receipt.events.1 ::
    (List.replicate (w.owned p i.between) .orphaned ++ receipt.events.2 ++
      List.replicate (w.owned p i.late) .orphaned)

theorem recordsOf_dismantle {w : World} (hw : w.Sound none) {p : PoolId} {pool : Pool}
    (hp : w.pools.get? p = some pool) {i : Interlude} (honce : i.blocks.Nodup) :
    (w.dismantle p pool i).2.recordsOf p = w.recordsOf p ++
      (w.obituary p pool.classes.toReceipt i).map (pool.record p) := by
  obtain ⟨hfront, hlate, hdisjoint⟩ := List.nodup_append'.mp honce
  obtain ⟨hearly, hbetween, hbetweenEarly⟩ := List.nodup_append'.mp hfront
  obtain ⟨hlateEarly, hlateBetween⟩ := List.disjoint_append_left.mp hdisjoint
  let receipt := pool.classes.toReceipt
  let orphans (n : Nat) : List Record := List.replicate n (pool.record p .orphaned)
  let begun := i.early.foldl World.release (w.taken p pool)
  let first := begun.report p pool receipt.events.1
  let middle := i.between.foldl World.release first
  let later := receipt.events.2.foldl (fun w event => w.report p pool event) middle
  have htaken : Amid w p pool (w.taken p pool) := .taken
  have hfirst : Amid w p pool first := (htaken.releases i.early).report List.mem_cons_self
  have hlater : Amid w p pool later :=
    (hfirst.releases i.between).reports (List.subset_cons_self _ _)
  -- a block is still held when its turn comes
  have hfirstHeld : ∀ b ∉ i.early, first.held.get? b = w.held.get? b :=
    fun b hb => held?_releases (w := w.taken p pool) hb
  have hlaterHeld : ∀ b ∈ i.late, later.held.get? b = w.held.get? b := by
    intro b hb
    rw [(Beside.reports p middle pool receipt.events.2).held,
      held?_releases fun hmem => hlateBetween hmem hb]
    exact hfirstHeld b fun hmem => hlateEarly hmem hb
  have hbegun : begun.recordsOf p = w.recordsOf p ++ orphans (w.owned p i.early) :=
    htaken.recordsOf_releases hw hp hearly
  have hmiddle : middle.recordsOf p = first.recordsOf p ++ orphans (w.owned p i.between) := by
    rw [hfirst.recordsOf_releases hw hp hbetween,
      owned_congr fun b hb => hfirstHeld b fun hmem => hbetweenEarly hmem hb]
  calc
    (i.late.foldl World.release later).recordsOf p
      = later.recordsOf p ++ orphans (w.owned p i.late) := by
        rw [hlater.recordsOf_releases hw hp hlate, owned_congr hlaterHeld]
    _ = middle.recordsOf p ++ receipt.events.2.map (pool.record p) ++
          orphans (w.owned p i.late) := by
        rw [recordsOf_reports]
    _ = begun.recordsOf p ++ [pool.record p receipt.events.1] ++ orphans (w.owned p i.between) ++
          receipt.events.2.map (pool.record p) ++ orphans (w.owned p i.late) := by
        rw [hmiddle, recordsOf_report_self]
    _ = w.recordsOf p ++ (w.obituary p receipt i).map (pool.record p) := by
        simp only [hbegun, orphans, obituary, List.map_append, List.map_cons, List.map_replicate,
          List.append_assoc, List.cons_append, List.nil_append]

/-- What a pool reports besides orphans does not depend on the blocks released meanwhile. -/
theorem filter_obituary (w : World) (p : PoolId) (receipt : Receipt) (i : Interlude) :
    (w.obituary p receipt i).filter (fun event => decide (event ≠ .orphaned)) =
      receipt.events.1 :: receipt.events.2 := by
  unfold Receipt.events
  split <;> simp [obituary, Receipt.events, *]

theorem countP_last_obituary (w : World) (p : PoolId) (receipt : Receipt) (i : Interlude) :
    (w.obituary p receipt i).countP Event.last = 1 := by
  have hlast := receipt.countP_last
  have horphans : ∀ n, (List.replicate n Event.orphaned).countP Event.last = 0 :=
    fun n => by simp [List.countP_replicate, Event.last]
  rw [List.countP_cons] at hlast
  simp only [obituary, List.countP_append, List.countP_cons, horphans]
  omega

theorem beside_destroy {w : World} {p : PoolId} {pool : Pool} (hp : w.pools.get? p = some pool)
    (i : Interlude) :
    Beside p (i.blocks.foldl World.release w) (Owner.destroy { pool := p } w pool i).2 := by
  rw [Interlude.blocks, List.foldl_append, List.foldl_append]
  have hfirst := ((Beside.set hp { pool with classes := {} }).releases i.early).trans
    (Beside.report p _ pool pool.classes.toReceipt.events.1)
  have hlater := (hfirst.releases i.between).trans
    (Beside.reports p _ pool pool.classes.toReceipt.events.2)
  exact (hlater.releases i.late).trans (Beside.remove p _)

theorem silent_destroy {w : World} (hw : w.Sound none) {p : PoolId} {pool : Pool}
    (hp : w.pools.get? p = some pool) (i : Interlude) :
    Silent p ((w.dismantle p pool i).2.recordsOf p) (Owner.destroy { pool := p } w pool i).2 := by
  refine ⟨⟨?_, Registry.get?_remove.trans (if_pos rfl)⟩, rfl⟩
  have hopen := (Amid.dismantle w p pool i).get?_eq hw hp
  exact (Registry.lt_size_of_get? hopen).trans_eq (Beside.remove p _).size.symm

/-! ### Safety -/

/-- The teardown of a pool in the middle of which these blocks are released. -/
structure SafelyTornDown (w : World) (p : PoolId) (pool : Pool) (i : Interlude) : Prop where
  /-- The actions that tear the pool down end in one world, with one receipt. -/
  actions : ∀ during, i = { between := during } →
    w.step (.destroy p during) = (.receipt (Owner.destroy { pool := p } w pool i).1,
      (Owner.destroy { pool := p } w pool i).2) ∧
    w.step (.discard p during) = (.done, (Owner.destroy { pool := p } w pool i).2)
  dropped : Owner.drop { pool := p } w pool i = (Owner.destroy { pool := p } w pool i).2
  receipt : (Owner.destroy { pool := p } w pool i).1 = (Owner.destroy { pool := p } w pool {}).1
  fates : ∀ x, w.Amid p pool x → x.Fates p pool
  /-- The pool reports an orphan for each of its blocks, and its end as if there were none. -/
  records : (Owner.destroy { pool := p } w pool i).2.recordsOf p =
    w.recordsOf p ++ (w.obituary p pool.classes.toReceipt i).map (pool.record p)
  ends : ((Owner.destroy { pool := p } w pool i).2.recordsOf p).filter
      (fun r => decide (r.event ≠ .orphaned)) =
    ((Owner.destroy { pool := p } w pool {}).2.recordsOf p).filter
      fun r => decide (r.event ≠ .orphaned)
  /-- For all other pools the blocks were just released. -/
  beside : Beside p (i.blocks.foldl World.release w) (Owner.destroy { pool := p } w pool i).2
  /-- It was the first teardown of the pool. -/
  once : w.endings p = 0 ∧ (Owner.destroy { pool := p } w pool i).2.endings p = 1
  /-- Whatever follows, the pool stays closed and silent, and its blocks are let go of and nothing else
  happens. -/
  later : ∀ freed served m,
    Moment.Later ⟨(Owner.destroy { pool := p } w pool i).2, none, freed, served⟩ m →
    Silent p ((Owner.destroy { pool := p } w pool i).2.recordsOf p) m.world ∧
      ∀ b block, m.world.held.get? b = some block → block.pool = p →
        m.world.release b = m.world.drop b

theorem Sound.safelyTornDown {w : World} (hw : w.Sound none) {freed : List Nat} {served : Nat}
    (hbooks : w.Books freed served) (hends : w.EndsOnce) {p : PoolId} {pool : Pool}
    (hp : w.pools.get? p = some pool) {i : Interlude} (hfits : i.Fits w) :
    w.SafelyTornDown p pool i := by
  have hrecords : ∀ {i : Interlude}, i.blocks.Nodup →
      (Owner.destroy { pool := p } w pool i).2.recordsOf p = w.recordsOf p ++
        (w.obituary p pool.classes.toReceipt i).map (pool.record p) :=
    fun honce => recordsOf_dismantle hw hp honce
  have hfresh : w.endings p = 0 := by
    rw [hends p, if_neg fun hclosed : w.Closed p => nomatch hp.symm.trans hclosed.2]
  refine ⟨?_, Owner.drop_eq_destroy p w pool i, rfl, fun x hx => hx.fates hw hp hbooks,
    hrecords hfits.once, ?_, beside_destroy hp i, ⟨hfresh, ?_⟩, ?_⟩
  · rintro during rfl
    have hall : ∀ b ∈ during, (w.held.get? b).isSome = true := by
      simpa [Interlude.blocks] using hfits.held
    simp only [World.step, tearDown_eq_destroy hp hall, and_self]
  · have hother : (fun r : Record => decide (r.event ≠ .orphaned)) ∘ pool.record p =
        fun event => decide (event ≠ .orphaned) := rfl
    have hnone : ({} : Interlude).blocks.Nodup := List.nodup_nil
    rw [hrecords hfits.once, hrecords hnone, List.filter_append, List.filter_append,
      List.filter_map, List.filter_map, hother, filter_obituary, filter_obituary]
  · have hlast : (fun r : Record => r.event.last) ∘ pool.record p = Event.last := rfl
    rw [endings, hrecords hfits.once, List.countP_append, List.countP_map, hlast,
      countP_last_obituary, ← endings, hfresh]
  · intro freed served m hlater
    obtain ⟨hsilent, -⟩ := (silent_destroy hw hp i).later hlater (by simp)
    exact ⟨hsilent, fun b block hb hown => hsilent.release_eq hb hown⟩

theorem Passed.books {grants : Nat → Bool} {w : World} {falling : Option PoolId}
    (h : Passed grants w falling) : ∃ freed served, w.Books freed served := by
  induction h with
  | start => exact ⟨_, _, (Moment.Kept.start grants).books⟩
  | step before a ih =>
      obtain ⟨freed, served, hbooks⟩ := ih
      exact ⟨_, _, hbooks.step before.sound a⟩
  | fall before opened ih =>
      obtain ⟨freed, served, hbooks⟩ := ih
      exact ⟨_, _, hbooks.emptied opened⟩
  | release before b ih =>
      obtain ⟨freed, served, hbooks⟩ := ih
      exact ⟨_, _, hbooks.release before.sound b⟩
  | regrant before other ih =>
      obtain ⟨freed, served, hbooks⟩ := ih
      exact ⟨_, _, hbooks.regrant other⟩

/-- Wherever a run has come to, no pool was torn down twice, and any open pool can be torn down with any
blocks released at any point of it. -/
theorem Passed.teardown_meets_releases {grants : Nat → Bool} {w : World}
    (h : Passed grants w none) {p : PoolId} {pool : Pool} (hp : w.pools.get? p = some pool)
    {i : Interlude} (hfits : i.Fits w) : w.EndsOnce ∧ w.SafelyTornDown p pool i := by
  obtain ⟨freed, served, hbooks⟩ := h.books
  exact ⟨h.endsOnce, h.sound.safelyTornDown hbooks h.endsOnce hp hfits⟩

/-- A pool falls while two blocks of its own, one of another open pool and one of a closed pool are
released; it reports two orphans and the end. -/
theorem teardown_meets_releases_in_short_run :
    let w := ((start fun _ => true).run [.openStandard, .openStandard, .openStandard,
      .alloc ⟨0⟩ 8, .alloc ⟨0⟩ 8, .alloc ⟨1⟩ 8, .alloc ⟨2⟩ 8, .destroy ⟨2⟩ []]).2
    let i : Interlude := { early := [⟨1⟩], between := [⟨2⟩, ⟨0⟩], late := [⟨3⟩] }
    ∃ pool, w.pools.get? ⟨0⟩ = some pool ∧
      w.obituary ⟨0⟩ pool.classes.toReceipt i =
        [.orphaned, .abandoned 2, .orphaned, .destroyed 1 0] ∧
      w.EndsOnce ∧ w.SafelyTornDown ⟨0⟩ pool i := by
  intro w i
  have hrun : Passed (fun _ => true) w none := Passed.start.run _
  have hfits : i.Fits w := ⟨by decide, by decide⟩
  exact ⟨_, rfl, rfl, Passed.teardown_meets_releases hrun rfl hfits⟩

end World

end BlockPool
