import BlockPool.Proofs.World.Bytes
import BlockPool.Proofs.World.Stamp

/-! The way home of a block. Whether it is freed through its own pool, through another one that looks at
owners or does not, or through no pool at all, the block ends in the same place: parked in front of its
own class if its pool is open, and back with the heap otherwise. A pool that refuses it says so first, and
this is all the difference. A block belongs to the pool that it was handed out by and to no other, and to
none once this pool is closed. -/

namespace BlockPool.World

/-! ### Letting go without a look at the log -/

/-- Taking a block back adds to the log and does not read it. -/
theorem takeBack_said (w : World) (block : Block) :
    ∃ said : Array Record, (w.takeBack block).log = w.log ++ said ∧
      ∀ log, ({ w with log } : World).takeBack block =
        { w.takeBack block with log := log ++ said } := by
  cases hp : w.pools.get? block.pool with
  | none => exact ⟨#[], by simp [takeBack, hp], fun log => by simp [takeBack, hp]⟩
  | some pool =>
      cases hc : pool.classes.checkin? block.chunk with
      | none =>
          refine ⟨#[pool.record block.pool .orphaned], ?_, fun log => ?_⟩
          · simp only [takeBack, hp, hc]
            rfl
          · simp only [takeBack, hp, hc]
            rfl
      | some out =>
          obtain ⟨c, T⟩ := out
          refine ⟨#[pool.record block.pool (.cached c.capacity c.inUse)], ?_, fun log => ?_⟩
          · simp only [takeBack, hp, hc]
            rfl
          · simp only [takeBack, hp, hc]
            rfl

/-- Releasing a block adds to the log and does not read it. -/
theorem release_said (w : World) (b : BlockId) :
    ∃ said : Array Record, (w.release b).log = w.log ++ said ∧
      ∀ log, ({ w with log } : World).release b = { w.release b with log := log ++ said } := by
  cases hb : w.held.get? b with
  | none => exact ⟨#[], by simp [release, hb], fun log => by simp [release, hb]⟩
  | some block =>
      obtain ⟨said, hlog, hsaid⟩ := (w.drop b).takeBack_said block
      refine ⟨said, ?_, fun log => ?_⟩
      · simp only [release, hb]
        exact hlog
      · simp only [release, hb]
        exact hsaid log

/-- Giving a block back through a pool is releasing it, after a warning if the pool refuses it. -/
theorem free_eq {w : World} {q : PoolId} {pool : Pool} (hq : w.pools.get? q = some pool)
    {b : BlockId} {block : Block} (hb : w.held.get? b = some block) :
    w.free q b =
      if pool.config.verifyOwner = true ∧ block.pool ≠ q then
        (.error (.refused .foreignBlock), (w.report q pool .refused).release b)
      else (.ok (), w.release b) := by
  simp only [free, hq, hb, Bool.and_eq_true, decide_eq_true_eq]

/-! ### Where a block was handed out -/

/-- In these actions a request to the pool was answered with the block. -/
def AllocatedFrom (grants : Nat → Bool) (past : List Action) (b : BlockId) (q : PoolId) : Prop :=
  ∃ front size back serial payload, past = front ++ .alloc q size :: back ∧
    ((reached grants front).step (.alloc q size)).1 = .issued b serial payload

section Allocated

variable {grants : Nat → Bool} {past : List Action} {b : BlockId} {block : Block}

theorem AllocatedFrom.snoc {q : PoolId} (h : AllocatedFrom grants past b q) (a : Action) :
    AllocatedFrom grants (past ++ [a]) b q := by
  obtain ⟨front, size, back, serial, payload, rfl, hanswer⟩ := h
  exact ⟨front, size, back ++ [a], serial, payload, by simp, hanswer⟩

/-- A held block was handed out by the pool that it names. -/
theorem allocatedFrom_of_held (hb : (reached grants past).held.get? b = some block) :
    AllocatedFrom grants past b block.pool := by
  induction past using List.reverseRecOn generalizing block with
  | nil => cases hb
  | append_singleton past a ih =>
      have hturn := (reached grants past).turnover a
      rw [← reached_snoc] at hturn
      cases hold : (reached grants past).held.get? b with
      | some old =>
          have hpool : block.pool = old.pool := by
            cases hends : a.endsHold b ((reached grants past).step a).1 with
            | true => cases (hturn.ended hold hends).2.symm.trans hb
            | false =>
                obtain ⟨block', hblock', hedited⟩ := hturn.kept hold hends
                cases hblock'.symm.trans hb
                exact hedited.pool
          rw [hpool]
          exact (ih hold).snoc a
      | none =>
          obtain ⟨size, rfl, hanswer⟩ := hturn.issued hold hb
          exact ⟨past, size, [], _, _, rfl, hanswer⟩

/-- No other pool has handed out a block that is still held. -/
theorem pool_of_allocatedFrom {q : PoolId} (h : AllocatedFrom grants past b q)
    (hb : (reached grants past).held.get? b = some block) : block.pool = q := by
  obtain ⟨front, size, back, serial, payload, rfl, hanswer⟩ := h
  obtain ⟨pool, chunk, -, -, -, -, -, -, -, -, hheld, -⟩ :=
    alloc_of_issued (passed_reached grants front).sound (Prod.ext hanswer rfl : _ = (_, _))
  have hrun : reached grants (front ++ .alloc q size :: back) =
      (((reached grants front).step (.alloc q size)).2.run back).2 :=
    run_append (World.start grants) front (.alloc q size :: back)
  rw [hrun] at hb
  cases hends : ((reached grants front).step (.alloc q size)).2.endsHold b back with
  | true => cases (gone_of_endsHold hheld hends).2.symm.trans hb
  | false =>
      obtain ⟨block', hblock', hedited⟩ := editedBy_run hheld hends
      cases hblock'.symm.trans hb
      exact hedited.pool

theorem allocatedFrom_iff (hb : (reached grants past).held.get? b = some block) {q : PoolId} :
    AllocatedFrom grants past b q ↔ block.pool = q :=
  ⟨fun h => pool_of_allocatedFrom h hb, fun h => h ▸ allocatedFrom_of_held hb⟩

end Allocated

/-- The worlds that a run comes to by these actions, at rest or in the middle of the teardown that
follows them. -/
inductive Arrived (grants : Nat → Bool) (past : List Action) : World → Option PoolId → Prop
  | rest : Arrived grants past (reached grants past) none
  | amid {p : PoolId} {pool : Pool} {x : World}
      (opened : (reached grants past).pools.get? p = some pool)
      (amid : Amid (reached grants past) p pool x) : Arrived grants past x (some p)

section Arrived

variable {grants : Nat → Bool} {past : List Action} {w : World} {falling : Option PoolId}
  {b : BlockId} {block : Block}

theorem Arrived.sound (h : Arrived grants past w falling) : w.Sound falling := by
  cases h with
  | rest => exact (passed_reached grants past).sound
  | amid opened amid => exact amid.sound (passed_reached grants past).sound opened

theorem Arrived.held_of (h : Arrived grants past w falling) (hb : w.held.get? b = some block) :
    (reached grants past).held.get? b = some block := by
  cases h with
  | rest => exact hb
  | amid opened amid => exact amid.held_of hb

/-! ### The way home -/

/-- How a pool answers a block that is freed through it, and how this differs from releasing the block.
`owns` says whether the block was handed out by this pool. -/
structure HandedBack (w : World) (b : BlockId) (q : PoolId) (pool : Pool) (owns : Prop) : Prop where
  refused_iff : (w.step (.free q b)).1 = .fault (.refused .foreignBlock) ↔
    pool.config.verifyOwner = true ∧ ¬owns
  accepted : (w.step (.free q b)).1 ≠ .fault (.refused .foreignBlock) →
    (w.step (.free q b)).1 = .done
  same : (w.step (.free q b)).1 = .done → (w.step (.free q b)).2 = (w.step (.release b)).2
  /-- The warning comes before all that the release says, and nothing else is different. -/
  warned : (w.step (.free q b)).1 = .fault (.refused .foreignBlock) → ∃ said : Array Record,
    (w.step (.release b)).2.log = w.log ++ said ∧ (w.step (.free q b)).2 =
      { (w.step (.release b)).2 with log := w.log.push (pool.record q .refused) ++ said }

/-- Where a block ends that is let go of. -/
structure Lands (w : World) (falling : Option PoolId) (b : BlockId) (block : Block) : Prop where
  /-- In its open pool the block is put in front of the free list of its own class. -/
  parked : ∀ home, w.pools.get? block.pool = some home → falling ≠ some block.pool →
    ∃ c c', home.classes.class? block.chunk.owner = some c ∧ c.capacity = block.size ∧
      c'.slot = c.slot ∧ c'.capacity = c.capacity ∧ c'.inUse + 1 = c.inUse ∧
      c'.cached.chain = block.chunk :: c.cached.chain ∧
      (w.step (.release b)).2.pools.get? block.pool =
        some { home with classes := home.classes.setClass block.chunk.owner c' }
  /-- There is no place to park it once the classes of its pool are gone. -/
  unparked : w.pools.get? block.pool = none ∨ falling = some block.pool →
    (w.step (.release b)).2.pools = w.pools
  others : ∀ p ≠ block.pool, (w.step (.release b)).2.pools.get? p = w.pools.get? p
  blocks : ∀ c, (w.step (.release b)).2.held.get? c = if c = b then none else w.held.get? c

theorem step_release (w : World) (b : BlockId) : (w.step (.release b)).2 = w.release b :=
  step_world w (.release b)

theorem handedBack (hb : w.held.get? b = some block) {q : PoolId} {pool : Pool}
    (hq : w.pools.get? q = some pool) {owns : Prop} (howns : owns ↔ block.pool = q) :
    w.HandedBack b q pool owns := by
  have hfree := free_eq hq hb
  obtain ⟨said, hlog, hsaid⟩ := w.release_said b
  by_cases hrefuse : pool.config.verifyOwner = true ∧ block.pool ≠ q
  · have hstep : w.step (.free q b) =
        (.fault (.refused .foreignBlock), (w.report q pool .refused).release b) := by
      simp only [step, hfree, if_pos hrefuse]
    refine ⟨?_, ?_, ?_, fun _ => ⟨said, ?_, ?_⟩⟩
    · simpa [hstep, howns] using hrefuse
    · simp [hstep]
    · simp [hstep]
    · rw [step_release, hlog]
    · rw [hstep, step_release]
      exact hsaid _
  · have hstep : w.step (.free q b) = (.done, w.release b) := by
      simp only [step, hfree, if_neg hrefuse]
    refine ⟨?_, ?_, fun _ => ?_, ?_⟩
    · simpa [hstep, howns] using hrefuse
    · simp [hstep]
    · rw [hstep, step_release]
    · simp [hstep]

theorem release_of_held (hb : w.held.get? b = some block) :
    w.release b = (w.drop b).takeBack block := by
  simp only [release, hb]
  rfl

theorem Sound.parked_of_release (h : w.Sound falling) (hb : w.held.get? b = some block)
    {home : Pool} (hhome : w.pools.get? block.pool = some home) (hf : falling ≠ some block.pool) :
    ∃ c c', home.classes.class? block.chunk.owner = some c ∧ c.capacity = block.size ∧
      c'.slot = c.slot ∧ c'.capacity = c.capacity ∧ c'.inUse + 1 = c.inUse ∧
      c'.cached.chain = block.chunk :: c.cached.chain ∧
      (w.release b).pools.get? block.pool =
        some { home with classes := home.classes.setClass block.chunk.owner c' } := by
  have hmem := Registry.mem_toList_of_get? hb
  obtain ⟨c, hclass, hcap, -⟩ := h.class?_of_held hmem hhome hf
  obtain ⟨-, hpos⟩ := h.pos_of_class? hmem hhome hclass
  refine ⟨c, c.checkin block.chunk, hclass, hcap, rfl, rfl, Nat.sub_add_cancel hpos, rfl, ?_⟩
  have hcheckin : home.classes.checkin? block.chunk = some (c.checkin block.chunk,
      home.classes.setClass block.chunk.owner (c.checkin block.chunk)) := by
    rw [ClassTable.checkin?, hclass]
    rfl
  rw [release_of_held hb]
  simp only [takeBack, pools_drop, hhome, hcheckin]
  exact (Registry.get?_set hhome).trans (if_pos rfl)

theorem Sound.pools_release (h : w.Sound falling) (hb : w.held.get? b = some block)
    (hgone : w.pools.get? block.pool = none ∨ falling = some block.pool) :
    (w.release b).pools = w.pools := by
  have hall := h.released b
  generalize w.release b = result at hall ⊢
  cases hall with
  | notHeld | homeless | orphaned => rfl
  | parked held opened stands found owner in_use table after =>
      cases hb.symm.trans held
      rcases hgone with hclosed | hfalls
      · cases hclosed.symm.trans opened
      · exact absurd hfalls stands

theorem Sound.lands (h : w.Sound falling) (hb : w.held.get? b = some block) :
    w.Lands falling b block := by
  have hbeside := Beside.takeBack_own (w.drop b) block
  refine ⟨fun home hhome hf => ?_, fun hgone => ?_, fun p hp => ?_, fun c => ?_⟩
  · rw [step_release]
    exact h.parked_of_release hb hhome hf
  · rw [step_release]
    exact h.pools_release hb hgone
  · rw [step_release, release_of_held hb]
    exact hbeside.pools p hp
  · rw [step_release, held_release, Registry.get?_remove]

/-- To which pools a block belongs. -/
structure Belongs (w : World) (falling : Option PoolId) (b : BlockId) (home : PoolId)
    (owns : PoolId → Prop) : Prop where
  belongs_iff : ∀ q, (w.step (.belongs b q)).1 = .flag true ↔
    (w.pools.get? q).isSome = true ∧ owns q
  one : (w.pools.get? home).isSome = true → ∃! q, (w.step (.belongs b q)).1 = .flag true
  none_of_closed : w.pools.get? home = none → ∀ q, (w.step (.belongs b q)).1 = .flag false
  /-- No pool that is opened later takes the place of one that was closed. -/
  closed_for_good : falling = none → w.pools.get? home = none →
    ∀ actions q, ((w.run actions).2.step (.belongs b q)).1 = .flag false

theorem belongsTo_eq (hb : w.held.get? b = some block) (q : PoolId) :
    w.belongsTo b q = decide ((w.pools.get? q).isSome = true ∧ block.pool = q) := by
  unfold belongsTo
  rw [hb]
  cases w.pools.get? q <;> simp

/-- A block of a closed pool belongs to nobody, whatever happens. -/
theorem Sound.not_belongsTo_run (h : w.Sound none) (hb : w.held.get? b = some block)
    (hclosed : w.pools.get? block.pool = none) (actions : List Action) (q : PoolId) :
    (w.run actions).2.belongsTo b q = false := by
  have hsilent : Silent block.pool (w.recordsOf block.pool) w :=
    ⟨⟨h.known block (Registry.mem_toList_of_get? hb), hclosed⟩, rfl⟩
  obtain ⟨gone, hlater⟩ := Moment.later_run w [] 0 actions
  have hgone := (hsilent.later hlater (by simp)).1.closed.2
  cases hends : w.endsHold b actions with
  | true =>
      unfold belongsTo
      rw [(gone_of_endsHold hb hends).2]
  | false =>
      obtain ⟨block', hblock', hedited⟩ := editedBy_run hb hends
      rw [belongsTo_eq hblock', decide_eq_false_iff_not]
      rintro ⟨hopen, rfl⟩
      rw [hedited.pool, hgone] at hopen
      cases hopen

theorem Sound.belongs (h : w.Sound falling) (hb : w.held.get? b = some block)
    {owns : PoolId → Prop} (howns : ∀ {q}, owns q ↔ block.pool = q) :
    w.Belongs falling b block.pool owns := by
  have hanswer : ∀ q, (w.step (.belongs b q)).1 = .flag (w.belongsTo b q) := fun _ => rfl
  refine ⟨fun q => ?_, fun hopen => ⟨block.pool, ?_, fun q hq => ?_⟩, fun hclosed q => ?_, ?_⟩
  · rw [hanswer, belongsTo_eq hb, howns]
    simp
  · simp only [hanswer, belongsTo_eq hb, hopen, and_self, decide_true]
  · simp only [hanswer, belongsTo_eq hb, Answer.flag.injEq, decide_eq_true_eq] at hq
    exact hq.2.symm
  · rw [hanswer, belongsTo_eq hb, Answer.flag.injEq, decide_eq_false_iff_not]
    rintro ⟨hopen, rfl⟩
    rw [hclosed] at hopen
    cases hopen
  · rintro rfl hclosed actions q
    exact congrArg Answer.flag (h.not_belongsTo_run hb hclosed actions q)

/-- Wherever a run has come to, a block that is freed through any pool goes where it goes when it is let
go of, which is its own pool; and it belongs to the open pool that handed it out and to no other. -/
theorem Arrived.freed_block_goes_home (h : Arrived grants past w falling)
    (hb : w.held.get? b = some block) :
    (∀ q pool, w.pools.get? q = some pool →
      w.HandedBack b q pool (AllocatedFrom grants past b q)) ∧
    w.Lands falling b block ∧ w.Belongs falling b block.pool (AllocatedFrom grants past b) := by
  have howns : ∀ {q}, AllocatedFrom grants past b q ↔ block.pool = q :=
    allocatedFrom_iff (h.held_of hb)
  exact ⟨fun q pool hq => handedBack hb hq howns, h.sound.lands hb, h.sound.belongs hb howns⟩

/-- A pool with the settings of a closed one refuses the block of the closed pool and that of another open
one; the second is parked at home all the same. -/
theorem freed_block_goes_home_in_short_run :
    let past : List Action := [.openStandard, .openStandard, .alloc ⟨0⟩ 8, .alloc ⟨1⟩ 8,
      .destroy ⟨1⟩ [], .openStandard]
    let w := reached (fun _ => true) past
    ∃ pool mine theirs, w.pools.get? ⟨2⟩ = some pool ∧ w.held.get? ⟨0⟩ = some mine ∧
      w.held.get? ⟨1⟩ = some theirs ∧ w.pools.get? theirs.pool = none ∧
      (w.step (.free ⟨2⟩ ⟨0⟩)).1 = .fault (.refused .foreignBlock) ∧
      w.HandedBack ⟨0⟩ ⟨2⟩ pool (AllocatedFrom (fun _ => true) past ⟨0⟩ ⟨2⟩) ∧
      w.Lands none ⟨0⟩ mine ∧ w.Lands none ⟨1⟩ theirs ∧
      w.Belongs none ⟨1⟩ theirs.pool (AllocatedFrom (fun _ => true) past ⟨1⟩) := by
  intro past w
  have hrun : Arrived (fun _ => true) past w none := .rest
  have hanswer : (w.step (.free ⟨2⟩ ⟨0⟩)).1 = .fault (.refused .foreignBlock) := by decide +kernel
  obtain ⟨hback, hmine, -⟩ := Arrived.freed_block_goes_home hrun (b := ⟨0⟩) rfl
  obtain ⟨-, htheirs, hbelongs⟩ := Arrived.freed_block_goes_home hrun (b := ⟨1⟩) rfl
  exact ⟨_, _, _, rfl, rfl, rfl, rfl, hanswer, hback ⟨2⟩ _ rfl, hmine, htheirs, hbelongs⟩

end Arrived

end BlockPool.World
