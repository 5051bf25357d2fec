import BlockPool.Proofs.ClassTable.Receipt
import BlockPool.Proofs.World.Whereabouts

/-! The receipt of a teardown against the whole life of the pool. What a pool has parked, what callers
hold of it and what its clears gave back are together the chunks that were made for it: every action
keeps this balance, and the receipt shows both sides of it. The lines of the receipt stand in ascending
order of size, one for each size on the books, and count what is parked and what is out. -/

namespace BlockPool

/-- How many chunks of this pool a clear gave back, if the record tells of one. -/
def Record.swept (p : PoolId) (r : Record) : Nat :=
  match r.event with
  | .cleared drained _ => if r.pool = p then drained.chunks else 0
  | _ => 0

/-- An event that tells of no fresh chunk and of no clear. -/
def Event.Quiet (event : Event) : Prop :=
  (∀ isNew size, event ≠ .supplied (.miss isNew) size) ∧
    ∀ drained remaining, event ≠ .cleared drained remaining

namespace Registry

variable {α : Type}

/-- The handles whose values have a property are as many as these values. -/
theorem countP_handles (r : Registry α) (q : α → Bool) :
    r.handles.countP (fun h => (r.get? h).any q) = r.toList.countP q := by
  have hall : ∀ n : Nat, (r.get? ⟨n⟩).any q = r.entries.toList[n]?.any (·.any q) := by
    intro n
    rw [get?, Array.getElem?_toList]
    rcases r.entries[n]? with _ | _ | a <;> rfl
  calc
    r.handles.countP (fun h => (r.get? h).any q)
      = (List.range r.entries.size).countP fun n => (r.get? ⟨n⟩).any q := by
        rw [handles, List.countP_filterMap]
        refine List.countP_congr fun n _ => ?_
        cases hn : r.get? ⟨n⟩ <;> simp [hn]
    _ = (List.range r.entries.toList.length).countP
          fun n => r.entries.toList[n]?.any (·.any q) := by
        simp only [hall, Array.length_toList]
    _ = r.entries.toList.countP (·.any q) := World.countP_range_any _ _
    _ = r.toList.countP q := by
        rw [toList, List.countP_filterMap]
        refine List.countP_congr fun entry _ => ?_
        cases entry <;> simp

end Registry

namespace World

/-! ### The balance of a pool -/

/-- How many blocks callers hold from this pool. -/
def out (w : World) (p : PoolId) : Nat := w.held.toList.countP fun b => decide (b.pool = p)

/-- How many chunks the clears of this pool gave back so far, by their records. -/
def swept (w : World) (p : PoolId) : Nat := (w.log.toList.map (Record.swept p)).sum

/-- Every pool but the one that falls has parked, handed out or cleared away what was made for it, and
the log speaks of no pool that is still to come. -/
structure Balanced (w : World) (falling : Option PoolId) : Prop where
  logged : ∀ r ∈ w.log.toList, r.pool.index < w.pools.entries.size
  balance : ∀ p pool, w.pools.get? p = some pool → falling ≠ some p →
    pool.classes.parked + w.out p + w.swept p = w.misses p

theorem swept_report (w : World) (q : PoolId) (pool : Pool) (event : Event) (p : PoolId) :
    (w.report q pool event).swept p =
      w.swept p + Record.swept p { pool := q, label := pool.config.name, event } := by
  simp [swept, report]

theorem misses_report (w : World) (q : PoolId) (pool : Pool) (event : Event) (p : PoolId) :
    (w.report q pool event).misses p = w.misses p +
      (Record.made? { pool := q, label := pool.config.name, event }).toList.countP
        fun origin => decide (origin.1 = p) := by
  rw [misses, made_report, List.countP_append]
  rfl

theorem misses_report_of_quiet {event : Event} (hquiet : event.Quiet) (w : World) (q : PoolId)
    (pool : Pool) (p : PoolId) : (w.report q pool event).misses p = w.misses p := by
  rw [misses_report, Record.made?]
  split
  · next heq => exact absurd heq (hquiet.1 _ _)
  · rfl

theorem swept_report_of_quiet {event : Event} (hquiet : event.Quiet) (w : World) (q : PoolId)
    (pool : Pool) (p : PoolId) : (w.report q pool event).swept p = w.swept p := by
  rw [swept_report, Record.swept]
  split
  · next heq => exact absurd heq (hquiet.2 _ _)
  · rfl

/-- A pool that speaks says nothing about the chunks of another one. -/
theorem misses_report_of_ne {p q : PoolId} (hne : q ≠ p) (w : World) (pool : Pool)
    (event : Event) : (w.report q pool event).misses p = w.misses p := by
  rw [misses_report, Record.made?]
  split <;> simp [hne]

theorem swept_report_of_ne {p q : PoolId} (hne : q ≠ p) (w : World) (pool : Pool)
    (event : Event) : (w.report q pool event).swept p = w.swept p := by
  rw [swept_report, Record.swept]
  split
  · rw [if_neg hne, Nat.add_zero]
  · rfl

/-- A supply is a miss or changes nothing that the log tells of chunks. -/
theorem misses_supplied (w : World) (p : PoolId) (pool : Pool) (supply : Supply) (size : Nat) :
    (w.report p pool (.supplied supply size)).misses p =
      w.misses p + if supply = .hit then 0 else 1 := by
  rw [misses_report]
  cases supply <;> simp [Record.made?]

/-- Letting go of blocks opens and closes no pool. -/
theorem size_release (w : World) (b : BlockId) :
    (w.release b).pools.entries.size = w.pools.entries.size := by
  unfold release
  cases w.held.get? b with
  | none => rfl
  | some block =>
      simp only [takeBack]
      split
      · rfl
      · split
        · rfl
        · exact Array.size_setIfInBounds

theorem size_releases (w : World) (bs : List BlockId) :
    (bs.foldl release w).pools.entries.size = w.pools.entries.size := by
  induction bs generalizing w with
  | nil => rfl
  | cons b rest ih => exact (ih (w.release b)).trans (w.size_release b)

theorem out_drop {w : World} {b : BlockId} {block : Block} (hb : w.held.get? b = some block)
    (p : PoolId) : (w.drop b).out p + (if block.pool = p then 1 else 0) = w.out p := by
  have hcount := Registry.countP_remove (fun b : Block => decide (b.pool = p)) hb
  simpa only [out, World.drop, decide_eq_true_eq] using hcount

theorem out_lend (w : World) (p : PoolId) (pool : Pool) (T : ClassTable) (heap : Heap)
    (chunk : Chunk) (q : PoolId) :
    (w.lend p pool T heap chunk).out q = w.out q + if p = q then 1 else 0 := by
  simp only [out, lend, Registry.countP_add, decide_eq_true_eq]

theorem Balanced.start (grants : Nat → Bool) : (World.start grants).Balanced none where
  logged r hr := by simp [World.start] at hr
  balance p pool hp := by simp [World.start] at hp

namespace Balanced

variable {w : World} {falling : Option PoolId}

theorem report (h : w.Balanced falling) {p : PoolId} (hp : p.index < w.pools.entries.size)
    (pool : Pool) {event : Event} (hquiet : event.Quiet) :
    (w.report p pool event).Balanced falling where
  logged r hr := by
    simp only [World.report, Array.toList_push, List.mem_append, List.mem_singleton] at hr
    rcases hr with hr | rfl
    · exact h.logged r hr
    · exact hp
  balance q pool' hq hf := by
    rw [swept_report_of_quiet hquiet, misses_report_of_quiet hquiet]
    exact h.balance q pool' hq hf

/-- A pool has a new table and speaks once, and callers hold other blocks of this pool, but none of
other pools. The world is balanced after that if this pool is. -/
theorem setPool {w' : World} {falling' : Option PoolId} {p : PoolId} {pool : Pool}
    {T : ClassTable} {event : Event} (h : w.Balanced falling) (hp : w.pools.get? p = some pool)
    (hpools : w'.pools = w.pools.set p { pool with classes := T })
    (hlog : w'.log = (w.report p pool event).log)
    (hfalling : ∀ q ≠ p, falling = some q → falling' = some q)
    (hout : ∀ q ≠ p, w'.out q = w.out q)
    (hself : falling' ≠ some p →
      T.parked + w'.out p + (w.report p pool event).swept p = (w.report p pool event).misses p) :
    w'.Balanced falling' := by
  have hswept : w'.swept = (w.report p pool event).swept := by
    funext q
    rw [swept, swept, hlog]
  have hmisses : w'.misses = (w.report p pool event).misses := by
    funext q
    rw [misses, misses, made, made, hlog]
  refine ⟨fun r hr => ?_, fun q pool' hq hf => ?_⟩
  · rw [hpools, Registry.set, Array.size_setIfInBounds]
    rw [hlog, World.report, Array.toList_push, List.mem_append, List.mem_singleton] at hr
    rcases hr with hr | rfl
    · exact h.logged r hr
    · exact Registry.lt_size_of_get? hp
  · rw [hpools, Registry.get?_set hp] at hq
    rw [hswept, hmisses]
    split at hq
    · next heq =>
      cases hq
      subst heq
      exact hself hf
    · next hne =>
      rw [hout q hne, swept_report_of_ne (Ne.symm hne), misses_report_of_ne (Ne.symm hne)]
      exact h.balance q pool' hq (mt (hfalling q hne) hf)

theorem enter (h : w.Balanced none) (hw : w.Sound none) (config : Config) :
    (w.enter config).2.Balanced none := by
  have hquiet : Event.Quiet .created := by simp [Event.Quiet]
  refine Balanced.report (w := { w with pools := (w.pools.add { config }).2 }) ?_ ?_ _ hquiet
  · have hsize : (w.pools.add { config }).2.entries.size = w.pools.entries.size + 1 := by
      simp [Registry.add]
    refine ⟨fun r hr => ?_, fun p pool hp _ => ?_⟩
    · rw [hsize]
      exact Nat.lt_succ_of_lt (h.logged r hr)
    · rw [Registry.get?_add] at hp
      split at hp
      · next heq =>
        -- nobody has spoken of the new pool yet, and nobody holds a block of it
        cases hp
        have hnew : ∀ q : PoolId, q.index < w.pools.entries.size → q ≠ p := by
          rintro q hlt rfl
          rw [heq] at hlt
          exact Nat.lt_irrefl _ hlt
        have hout : w.out p = 0 := by
          rw [out, List.countP_eq_zero]
          intro b hb
          simpa using hnew _ (hw.known b hb)
        have hswept : w.swept p = 0 := by
          rw [swept, List.sum_eq_zero]
          intro n hn
          obtain ⟨r, hr, rfl⟩ := List.mem_map.mp hn
          rw [Record.swept]
          split
          · exact if_neg (hnew _ (h.logged r hr))
          · rfl
        have hmisses : w.misses p = 0 := by
          rw [misses, List.countP_eq_zero]
          intro origin horigin
          obtain ⟨r, hr, hmade⟩ := List.mem_filterMap.mp horigin
          have hpool : origin.1 = r.pool := by
            unfold Record.made? at hmade
            split at hmade
            · rw [← Option.some.inj hmade]
            · cases hmade
          simpa [hpool] using hnew _ (h.logged r hr)
        show ({} : ClassTable).parked + w.out p + w.swept p = w.misses p
        rw [hout, hswept, hmisses]
        rfl
      · exact h.balance p pool hp (by simp)
  · simp [Registry.add]

theorem alloc (h : w.Balanced none) (hw : w.Sound none) (p : PoolId) (size : Nat) :
    (w.alloc p size).2.Balanced none := by
  have hall := hw.allocated p size
  generalize w.alloc p size = result at hall ⊢
  cases hall with
  | noPool closed => exact h
  | inadmissible opened refusal => exact h
  | @outOfMemory pool T heap opened admitted table out =>
      cases out with
      | refused denied parked after =>
          have hquiet : Event.Quiet (.outOfMemory size) := by simp [Event.Quiet]
          refine h.setPool opened rfl rfl (fun _ _ hf => hf) (fun _ _ => rfl) fun _ => ?_
          rw [swept_report_of_quiet hquiet, misses_report_of_quiet hquiet,
            (hw.table p pool opened).parked_congr table after]
          exact h.balance p pool opened (by simp)
  | @served pool T heap chunk supply opened admitted table out =>
      refine h.setPool opened rfl rfl (fun _ _ hf => hf) (fun q hne => ?_) fun _ => ?_
      · exact (out_lend w p pool T heap chunk q).trans (by rw [if_neg (Ne.symm hne), Nat.add_zero])
      · have hparked := (hw.table p pool opened).parked_checkedOut table out
        have hout : ((w.lend p pool T heap chunk).report p pool (.supplied supply size)).out p = _ :=
          out_lend w p pool T heap chunk p
        have hswept : (w.report p pool (.supplied supply size)).swept p = w.swept p :=
          swept_report w p pool (.supplied supply size) p
        have hbalance := h.balance p pool opened (by simp)
        rw [if_pos rfl] at hout
        rw [misses_supplied, hswept, hout]
        cases supply with
        | hit =>
            rw [if_pos rfl] at hparked ⊢
            omega
        | miss isNew =>
            simp only [reduceCtorEq, if_false] at hparked ⊢
            omega

theorem release (h : w.Balanced falling) (hw : w.Sound falling) (b : BlockId) :
    (w.release b).Balanced falling := by
  have hall := hw.released b
  generalize w.release b = result at hall ⊢
  have hdrop : ∀ {block : Block}, w.held.get? b = some block →
      w.pools.get? block.pool = none ∨ falling = some block.pool →
        (w.drop b).Balanced falling := by
    intro block hb hgone
    refine ⟨h.logged, fun p pool hp hf => ?_⟩
    have hout := out_drop hb p
    rw [if_neg, Nat.add_zero] at hout
    · rw [hout]
      exact h.balance p pool hp hf
    · rintro rfl
      rcases hgone with hclosed | hfalls
      · rw [pools_drop, hclosed] at hp
        cases hp
      · exact hf hfalls
  cases hall with
  | notHeld missing => exact h
  | homeless held closed => exact hdrop held (Or.inl closed)
  | @orphaned block pool held opened falls =>
      have hquiet : Event.Quiet .orphaned := by simp [Event.Quiet]
      exact (hdrop held (Or.inr falls)).report (Registry.lt_size_of_get? opened) pool hquiet
  | @parked block pool c T held opened stands found owner in_use table after =>
      have hquiet : Event.Quiet (.cached block.size ((w.drop b).outOf block.pool block.size)) := by
        simp [Event.Quiet]
      refine h.setPool opened rfl rfl (fun _ _ hf => hf) (fun q hne => ?_) fun _ => ?_
      · have hout := out_drop held q
        rw [if_neg (Ne.symm hne), Nat.add_zero] at hout
        exact hout
      · have hparked := (hw.table _ pool opened).parked_update table after
        have hout := out_drop held block.pool
        have hbalance := h.balance _ pool opened stands
        rw [ClassTable.parkedFor_of_classFor? found, SizeClass.checkin, FreeList.chain_push,
          List.length_cons] at hparked
        rw [if_pos rfl] at hout
        rw [swept_report_of_quiet hquiet, misses_report_of_quiet hquiet]
        show T.parked + (w.drop b).out block.pool + _ = _
        omega

theorem releases (h : w.Balanced falling) (hw : w.Sound falling) (bs : List BlockId) :
    (bs.foldl World.release w).Balanced falling := by
  induction bs generalizing w with
  | nil => exact h
  | cons b rest ih => exact ih (h.release hw b) (hw.release b)

theorem free (h : w.Balanced falling) (hw : w.Sound falling) (p : PoolId) (b : BlockId) :
    (w.free p b).2.Balanced falling := by
  have hquiet : Event.Quiet .refused := by simp [Event.Quiet]
  rcases free_world w p b with heq | ⟨pool, hp, heq⟩ | heq
  · rw [heq]
    exact h
  · rw [heq]
    exact (h.report (Registry.lt_size_of_get? hp) pool hquiet).release (hw.report p pool .refused) b
  · rw [heq]
    exact h.release hw b

theorem write (h : w.Balanced falling) (b : BlockId) (offset : Nat) (data : Payload) :
    (w.write b offset data).2.Balanced falling := by
  have hall := written w b offset data
  generalize (w.write b offset data).2 = result at hall ⊢
  cases hall with
  | kept => exact h
  | @changed block payload held size =>
      refine ⟨h.logged, fun p pool hp hf => ?_⟩
      have hout := Registry.countP_set (fun b : Block => decide (b.pool = p)) held
        (a := { block with chunk := { block.chunk with payload } }) rfl
      exact (congrArg (pool.classes.parked + · + w.swept p) hout).trans (h.balance p pool hp hf)

/-- A clear parks nothing any more, and its record tells of all that was parked. -/
theorem clear (h : w.Balanced none) (hw : w.Sound none) (p : PoolId) (eraseVacant : Bool) :
    (w.clear p eraseVacant).2.Balanced none := by
  cases hp : w.pools.get? p with
  | none =>
      simp only [World.clear, hp]
      exact h
  | some pool =>
      have ht := hw.table p pool hp
      rw [clear_eq hp]
      refine h.setPool hp rfl rfl (fun _ _ hf => hf) (fun _ _ => rfl) fun _ => ?_
      have hparked := (ht.drain eraseVacant).parked_eq_zero (ht.parkedFor_drain eraseVacant)
      have hchunks : (pool.classes.drain eraseVacant).1.chunks = pool.classes.parked :=
        ht.chunks_drain eraseVacant
      have hbalance := h.balance p pool hp (by simp)
      rw [hparked, swept_report, misses_report, Record.swept, Record.made?]
      simp only [if_true, Option.toList_none, List.countP_nil]
      show 0 + w.out p + _ = _
      omega

theorem quiet_events (receipt : Receipt) :
    receipt.events.1.Quiet ∧ ∀ event ∈ receipt.events.2, event.Quiet := by
  unfold Receipt.events
  split <;> simp [Event.Quiet]

theorem emptied (h : w.Balanced none) {p : PoolId} {pool : Pool}
    (hp : w.pools.get? p = some pool) : (w.emptied p pool).Balanced (some p) := by
  refine h.setPool hp rfl rfl ?_ (fun _ _ => rfl) fun hf => absurd rfl hf
  intro q _ hf
  cases hf

theorem closed {p : PoolId} (h : w.Balanced (some p)) (hp : p.index < w.pools.entries.size)
    (pool : Pool) (receipt : Receipt) : (w.closed p pool receipt).Balanced none := by
  have hreports : ∀ (events : List Event) (w : World), (∀ event ∈ events, event.Quiet) →
      p.index < w.pools.entries.size → w.Balanced (some p) →
        (events.foldl (fun w event => w.report p pool event) w).Balanced (some p) := by
    intro events
    induction events with
    | nil => exact fun w _ _ h => h
    | cons event rest ih =>
        intro w hquiet hp h
        rw [List.forall_mem_cons] at hquiet
        exact ih _ hquiet.2 hp (h.report hp pool hquiet.1)
  have hfall := hreports _ w (quiet_events receipt).2 hp h
  unfold World.closed
  generalize receipt.events.2.foldl (fun w event => w.report p pool event) w = w' at hfall
  refine ⟨fun r hr => ?_, fun q pool' hq _ => ?_⟩
  · show r.pool.index < (w'.pools.entries.setIfInBounds p.index none).size
    rw [Array.size_setIfInBounds]
    exact hfall.logged r hr
  · rw [Registry.get?_remove] at hq
    split at hq
    · cases hq
    · next hne => exact hfall.balance q pool' hq fun heq => hne (Option.some.inj heq).symm

theorem tearDown (h : w.Balanced none) (hw : w.Sound none) (p : PoolId)
    (during : List BlockId) : (w.tearDown p during).2.Balanced none := by
  rcases tearDown_cases w p during with ⟨fault, heq⟩ | ⟨pool, hp, hheld⟩
  · rw [heq]
    exact h
  · rw [tearDown_eq hp hheld]
    refine ((h.emptied hp).releases (hw.emptied hp) during).closed ?_ pool _
    rw [size_releases]
    show p.index < (w.pools.set p { pool with classes := {} }).entries.size
    rw [Registry.set, Array.size_setIfInBounds]
    exact Registry.lt_size_of_get? hp

theorem step (h : w.Balanced none) (hw : w.Sound none) (a : Action) :
    (w.step a).2.Balanced none := by
  rw [step_world]
  cases a with
  | openPool config =>
      rcases openPool_world w config with heq | heq
      · rw [World.after, heq]
        exact h
      · rw [World.after, heq]
        exact h.enter hw config
  | openStandard => exact h.enter hw .standard
  | alloc p size => exact h.alloc hw p size
  | free p b => exact h.free hw p b
  | release b => exact h.release hw b
  | write b offset data => exact h.write b offset data
  | clear p eraseVacant => exact h.clear hw p eraseVacant
  | destroy p during | discard p during => exact h.tearDown hw p during
  | sizes | contains | count | read | belongs => exact h

end Balanced

theorem Passed.balanced {grants : Nat → Bool} {w : World} {falling : Option PoolId}
    (h : Passed grants w falling) : w.Balanced falling := by
  induction h with
  | start => exact .start grants
  | step before a ih => exact ih.step before.sound a
  | fall before opened ih => exact ih.emptied opened
  | release before b ih => exact ih.release before.sound b
  | regrant before other ih => exact ⟨ih.logged, ih.balance⟩

/-! ### The receipt -/

/-- What a receipt says of a pool and of the world in which it was torn down. -/
structure Settles (w : World) (p : PoolId) (pool : Pool) (receipt : Receipt) : Prop where
  /-- The lines stand for the sizes that the pool names when it is asked, in the same order. -/
  sizes : (w.step (.sizes p)).1 = .sizes (receipt.lines.map (·.capacity))
  ascending : (receipt.lines.map (·.capacity)).Pairwise (· < ·)
  contains : ∀ size, (w.step (.contains p size)).1 = .flag (receipt.find? size).isSome
  line : ∀ size line, receipt.find? size = some line →
    line = { capacity := size, cached := (pool.classes.parkedFor size).length
             inUse := w.outOf p size } ∧
      ∀ other ∈ receipt.lines, other.capacity = size → other = line
  outstanding : receipt.totalInUse = w.held.handles.countP fun b => w.belongsTo b p
  /-- What was made for the pool is parked, out, or was cleared away. -/
  balance : receipt.totalCached + receipt.totalInUse + w.swept p = w.misses p

section Receipt

variable {w : World} (h : w.Sound none) {p : PoolId} {pool : Pool}
  (hp : w.pools.get? p = some pool)

include h hp

/-- Every block of a pool is of a size on its books, so the blocks of these sizes are all. -/
theorem Sound.sum_outOf : (pool.sizes.map (w.outOf p)).sum = w.out p := by
  have ht := h.table p pool hp
  have hsizes : ∀ b ∈ w.held.toList, b.pool = p → b.size ∈ pool.sizes.toFinset := by
    rintro b hb rfl
    obtain ⟨c, hc, -⟩ := h.home b hb pool hp (by simp)
    exact List.mem_toFinset.mpr (ht.mem_sizes_iff.mpr ⟨c, hc⟩)
  have hsum : (pool.sizes.map (w.outOf p)).sum = ∑ size ∈ pool.sizes.toFinset, w.outOf p size :=
    (List.sum_toFinset _ ht.sizes_nodup).symm
  rw [hsum]
  unfold outOf out
  generalize w.held.toList = blocks at hsizes
  induction blocks with
  | nil => simp
  | cons b rest ih =>
      rw [List.forall_mem_cons] at hsizes
      simp only [List.countP_cons, Finset.sum_add_distrib, ih hsizes.2, decide_eq_true_eq]
      by_cases hb : b.pool = p
      · simp [hb, hsizes.1 hb]
      · simp [hb]

theorem Sound.totalInUse_toReceipt : pool.classes.toReceipt.totalInUse = w.out p := by
  have hmap : pool.classes.classes.map (·.inUse) = pool.sizes.map (w.outOf p) := by
    apply (h.table p pool hp).map_classes
    intro size c hc
    exact h.in_use_of_classFor? hp (by simp) hc
  calc
    pool.classes.toReceipt.totalInUse
      = (pool.classes.classes.map (·.inUse)).sum := by
        rw [Receipt.totalInUse, ClassTable.toReceipt, List.foldr_map, List.sum_eq_foldr,
          List.foldr_map]
        rfl
    _ = (pool.sizes.map (w.outOf p)).sum := by rw [hmap]
    _ = w.out p := h.sum_outOf hp

omit h in
/-- The blocks that belong to an open pool are those that callers hold from it. -/
theorem countP_belongsTo : w.held.handles.countP (fun b => w.belongsTo b p) = w.out p := by
  rw [out, ← Registry.countP_handles]
  refine List.countP_congr fun b _ => ?_
  rw [belongsTo, hp]
  cases w.held.get? b <;> simp

theorem Sound.settles (hbalanced : w.Balanced none) :
    w.Settles p pool pool.classes.toReceipt := by
  have ht := h.table p pool hp
  have hcapacities : pool.classes.toReceipt.lines.map (·.capacity) = pool.sizes := by
    rw [ClassTable.toReceipt, List.map_map]
    exact ht.map_capacity
  have hascending : (pool.classes.toReceipt.lines.map (·.capacity)).Pairwise (· < ·) := by
    rw [hcapacities]
    exact ht.sizes_pairwise
  refine ⟨?_, hascending, ?_, ?_, ?_, ?_⟩
  · simp only [World.step, ask, hp, hcapacities]
  · intro size
    simp only [World.step, ask, hp, ht.contains_eq]
  · intro size line hline
    have hmem := List.mem_of_find?_eq_some hline
    rw [ht.find?_toReceipt, Option.map_eq_some_iff] at hline
    obtain ⟨c, hc, rfl⟩ := hline
    obtain ⟨hclass, hcap⟩ := ht.classFor?_eq_some_iff.mp hc
    constructor
    · have hlen : c.cached.len = c.cached.chain.length := (ht.sound _ c hclass).counted
      rw [ClassTable.parkedFor_of_classFor? hc, ← h.in_use_of_classFor? hp (by simp) hc, ← hcap,
        ← hlen]
      rfl
    · intro other hother hsize
      have hinj := List.inj_on_of_nodup_map (hascending.imp fun hlt => hlt.ne)
      exact hinj hother hmem (hsize.trans hcap.symm)
  · rw [h.totalInUse_toReceipt hp, countP_belongsTo hp]
  · rw [h.totalInUse_toReceipt hp, ht.totalCached_toReceipt]
    exact hbalanced.balance p pool hp (by simp)

end Receipt

/-- Whenever a run destroys a pool, the receipt agrees with the books of the pool, with the blocks that
callers hold, and with all that was ever made for the pool. -/
theorem Passed.receipt_settles {grants : Nat → Bool} {w : World} (h : Passed grants w none)
    {p : PoolId} {pool : Pool} (hp : w.pools.get? p = some pool) {during : List BlockId}
    (hheld : ∀ b ∈ during, (w.held.get? b).isSome = true) :
    ∃ receipt, (w.step (.destroy p during)).1 = .receipt receipt ∧ w.Settles p pool receipt := by
  refine ⟨pool.classes.toReceipt, ?_, h.sound.settles hp h.balanced⟩
  simp only [World.step, tearDown_eq hp hheld]
  rfl

/-- One chunk was cleared away and made again, one is parked, and two are out when the pool goes, of
which one comes back in the middle of the teardown. -/
theorem receipt_settles_in_short_run :
    let w := ((start fun _ => true).run [.openStandard, .alloc ⟨0⟩ 8, .release ⟨0⟩,
      .clear ⟨0⟩ false, .alloc ⟨0⟩ 8, .alloc ⟨0⟩ 16, .alloc ⟨0⟩ 16, .release ⟨3⟩]).2
    let receipt : Receipt := { lines := [⟨8, 0, 1⟩, ⟨16, 1, 1⟩] }
    w.swept ⟨0⟩ = 1 ∧ w.misses ⟨0⟩ = 4 ∧ (w.step (.destroy ⟨0⟩ [⟨2⟩])).1 = .receipt receipt ∧
      ∃ pool, w.pools.get? ⟨0⟩ = some pool ∧ w.Settles ⟨0⟩ pool receipt := by
  intro w receipt
  have hrun : Passed (fun _ => true) w none := Passed.start.run _
  have hopen : (w.pools.get? ⟨0⟩).isSome = true := by decide +kernel
  have hheld : ∀ b ∈ [(⟨2⟩ : BlockId)], (w.held.get? b).isSome = true := by decide +kernel
  have hanswer : (w.step (.destroy ⟨0⟩ [⟨2⟩])).1 = .receipt receipt := by decide +kernel
  obtain ⟨pool, hp⟩ := Option.isSome_iff_exists.mp hopen
  obtain ⟨receipt', hreceipt, hsettles⟩ := Passed.receipt_settles hrun hp hheld
  rw [hanswer] at hreceipt
  cases hreceipt
  exact ⟨by decide +kernel, by decide +kernel, hanswer, pool, hp, hsettles⟩

end World

end BlockPool
