import BlockPool.Proofs.ClassTable.Total
import BlockPool.Proofs.Ledger

/-! The world and its ledger answer alike. The ledger of a world forgets the slots of its chunks and
the counters, slots and vacant lists of its tables. In a sound world every action gives the answer
that the ledger gives, writes the same records, and leads to the ledger after the action; along a
whole run, nothing that callers are told depends on what was forgotten. -/

namespace BlockPool

/-! ### What the ledger keeps of a table -/

def Chunk.piece (c : Chunk) : Piece := { serial := c.serial, payload := c.payload }

namespace ClassTable

/-- The pieces parked in each class, by the size of the class. -/
def shelves (t : ClassTable) : Shelves where
  stack? size := (t.classFor? size).map fun c => c.cached.chain.map Chunk.piece
  sizes := t.sizes.toFinset.filter fun size => (t.classFor? size).isSome = true
  mem_sizes_iff size := by
    rw [Finset.mem_filter, List.mem_toFinset, Option.isSome_map, and_iff_right_iff_imp]
    intro hsome
    by_contra hmem
    rw [classFor?, find?, lookup_eq_none_iff.mpr hmem] at hsome
    cases hsome

theorem stack_shelves (t : ClassTable) (size : Nat) :
    t.shelves.stack size = (t.parkedFor size).map Chunk.piece := by
  simp only [Shelves.stack, shelves, parkedFor]
  cases t.classFor? size <;> rfl

theorem shelves_congr {t T : ClassTable} (h : T.classFor? = t.classFor?) :
    T.shelves = t.shelves :=
  Shelves.ext_stack (by simp only [shelves, h])

theorem shelves_empty : ({} : ClassTable).shelves = .empty :=
  Shelves.ext_stack rfl

/-- A change to one class shows on the shelf of its size. -/
theorem shelves_update {t T : ClassTable} {size : Nat} {c : SizeClass}
    (h : T.classFor? = Function.update t.classFor? size (some c)) :
    T.shelves = t.shelves.put size (c.cached.chain.map Chunk.piece) := by
  apply Shelves.ext_stack
  funext other
  simp only [shelves, Shelves.put, h]
  by_cases ho : other = size
  · subst ho
    simp
  · simp [ho]

namespace Sound

variable {t : ClassTable} (h : t.Sound)

include h

theorem sizes_shelves : t.shelves.sizes = t.sizes.toFinset := by
  simp only [shelves]
  refine Finset.filter_true_of_mem ?_
  intro size hsize
  exact Option.isSome_iff_exists.mpr (h.mem_sizes_iff.mp (List.mem_toFinset.mp hsize))

theorem sort_shelves : t.shelves.sizes.sort = t.sizes := by
  rw [h.sizes_shelves]
  exact (List.toFinset_sort (· ≤ ·) h.sizes_nodup).mpr (h.sizes_pairwise.imp fun hlt => hlt.le)

theorem card_shelves : t.shelves.sizes.card = t.index.length := by
  rw [h.sizes_shelves, List.toFinset_card_of_nodup h.sizes_nodup, sizes, List.length_map]

theorem chunks_drain_shelves (eraseVacant : Bool) :
    (t.drain eraseVacant).1.chunks =
      ∑ size ∈ t.shelves.sizes, (t.shelves.stack size).length := by
  rw [h.chunks_drain, h.sizes_shelves, List.sum_toFinset _ h.sizes_nodup]
  refine congrArg List.sum (h.map_classes ?_)
  intro size c hc
  rw [stack_shelves, parkedFor_of_classFor? hc, List.length_map]

theorem classes_drain_shelves (eraseVacant : Bool) :
    (t.drain eraseVacant).1.classes = (t.shelves.sizes.filter fun size =>
      (eraseVacant && decide (t.inUseFor size = 0)) = true).card := by
  have hmap : t.classes.map (fun c => eraseVacant && decide (c.inUse = 0)) =
      t.sizes.map fun size => eraseVacant && decide (t.inUseFor size = 0) := by
    apply h.map_classes
    intro size c hc
    rw [inUseFor_of_classFor? hc]
  have hcount := congrArg (List.countP id) hmap
  rw [List.countP_map, List.countP_map] at hcount
  rw [h.classes_drain, h.sizes_shelves, ← List.toFinset_filter,
    List.toFinset_card_of_nodup (h.sizes_nodup.filter _), ← List.countP_eq_length_filter]
  exact hcount

theorem drain_shelves (eraseVacant : Bool) :
    (t.drain eraseVacant).2.shelves =
      t.shelves.sweep fun size => eraseVacant && decide (t.inUseFor size = 0) := by
  apply Shelves.ext_stack
  funext size
  simp only [shelves, Shelves.sweep, h.classFor?_drain]
  rcases hc : t.classFor? size with _ | c
  · simp
  · simp only [inUseFor_of_classFor? hc, Option.bind_some, SizeClass.drained, Option.map_some,
      Bool.and_eq_true, decide_eq_true_eq]
    split <;> rfl

end Sound

end ClassTable

/-! ### What the ledger keeps of a world -/

def Pool.account (pool : Pool) : Account :=
  { config := pool.config, shelves := pool.classes.shelves }

theorem Pool.stack_account (pool : Pool) (size : Nat) :
    pool.account.shelves.stack size = (pool.classes.parkedFor size).map Chunk.piece :=
  pool.classes.stack_shelves size

def Block.loan (b : Block) : Loan := { piece := b.chunk.piece, pool := b.pool.as Account }

@[simp] theorem Block.pool_loan (b : Block) : b.loan.pool = b.pool.as Account := rfl

@[simp] theorem Block.size_loan (b : Block) : b.loan.size = b.size := rfl

namespace World

def ledger (w : World) : Ledger where
  heap := w.heap
  pools := w.pools.map Pool.account
  held := w.held.map Block.loan
  log := w.log

theorem account?_ledger (w : World) (p : PoolId) :
    w.ledger.pools.get? (p.as Account) = (w.pools.get? p).map Pool.account :=
  Registry.get?_map Pool.account w.pools p

theorem loan?_ledger (w : World) (b : BlockId) :
    w.ledger.held.get? (b.as Loan) = (w.held.get? b).map Block.loan :=
  Registry.get?_map Block.loan w.held b

theorem outOf_ledger (w : World) (p : PoolId) (size : Nat) :
    w.ledger.outOf (p.as Account) size = w.outOf p size := by
  simp only [Ledger.outOf, ledger, Registry.toList_map, List.countP_map, outOf]
  refine List.countP_congr fun b _ => ?_
  simp only [Function.comp_apply, decide_eq_true_eq, Block.loan, Handle.as_inj]
  rfl

/-- A change to the table of a pool shows on its shelves. -/
theorem setPool_ledger (w : World) (p : PoolId) (pool : Pool) :
    ({ w with pools := w.pools.set p pool } : World).ledger =
      { w.ledger with pools := w.ledger.pools.set (p.as Account) pool.account } := by
  simp only [ledger, Registry.map_set]

theorem setPool_report_ledger (w : World) (p : PoolId) (pool new : Pool) (event : Event) :
    (World.report { w with pools := w.pools.set p new } p pool event).ledger =
      Ledger.report { w.ledger with pools := w.ledger.pools.set (p.as Account) new.account }
        (p.as Account) pool.account event :=
  congrArg (Ledger.report · (p.as Account) pool.account event) (setPool_ledger w p new)

theorem enter_ledger (w : World) (config : Config) :
    w.ledger.enter config = (.opened (w.enter config).1, (w.enter config).2.ledger) := by
  have hnew : ({ config } : Account) = Pool.account { config } := by
    simp only [Pool.account, ClassTable.shelves_empty]
  simp only [Ledger.enter, hnew, ledger, Registry.map_add]
  rfl

/-! ### Handing out -/

theorem lend_ledger (w : World) {p : PoolId} {pool : Pool} {T : ClassTable} {size : Nat}
    {c : SizeClass} (heap : Heap) (chunk : Chunk) (supply : Supply)
    (hafter : T.classFor? = Function.update pool.classes.classFor? size (some c)) :
    w.ledger.lend (p.as Account) pool.account size (c.cached.chain.map Chunk.piece) heap
        chunk.piece supply =
      (.issued (w.held.add { chunk, pool := p }).1 chunk.serial chunk.payload,
        ((w.lend p pool T heap chunk).report p pool (.supplied supply size)).ledger) := by
  have hpool : ({ pool.account with
      shelves := pool.account.shelves.put size (c.cached.chain.map Chunk.piece) } : Account) =
      Pool.account { pool with classes := T } := by
    simp only [Pool.account, ClassTable.shelves_update hafter]
  have hloan : ({ piece := chunk.piece, pool := p.as Account } : Loan) =
      Block.loan { chunk, pool := p } := rfl
  simp only [Ledger.lend, hpool, hloan, ledger, Registry.map_set, Registry.map_add]
  rfl

/-- A refused request leaves no trace but its record. -/
theorem refuse_ledger {w : World} {p : PoolId} {pool : Pool} {T : ClassTable}
    (hp : w.pools.get? p = some pool) (hafter : T.classFor? = pool.classes.classFor?)
    (event : Event) :
    (World.report { w with pools := w.pools.set p { pool with classes := T } } p pool
        event).ledger =
      w.ledger.report (p.as Account) pool.account event := by
  have hsame : Pool.account { pool with classes := T } = pool.account := by
    simp only [Pool.account, ClassTable.shelves_congr hafter]
  have hset : w.ledger.pools.set (p.as Account) pool.account = w.ledger.pools :=
    Registry.set_of_get? (by rw [account?_ledger, hp]; rfl)
  rw [setPool_report_ledger, hsame, hset]

theorem Sound.alloc_ledger {w : World} {falling : Option PoolId} (h : w.Sound falling) (p : PoolId)
    (size : Nat) :
    w.ledger.step (.alloc p size) =
      ((w.step (.alloc p size)).1, (w.step (.alloc p size)).2.ledger) := by
  have hall := h.allocated p size
  simp only [Ledger.step, Ledger.alloc, World.step, account?_ledger]
  generalize w.alloc p size = result at hall ⊢
  cases hall with
  | noPool closed => rw [closed]; rfl
  | inadmissible opened refusal =>
      simp only [opened, Option.map_some, Pool.account, refusal]
  | @outOfMemory pool T heap opened admitted table out =>
      cases out with
      | refused denied parked after =>
          have hstack : pool.account.shelves.stack size = [] := by
            rw [Pool.stack_account, parked, List.map_nil]
          have hdenied : ¬ w.ledger.heap.grants size = true := by
            rw [ledger, denied]
            exact Bool.false_ne_true
          have hadmitted : pool.account.config.refusal? size = none := admitted
          simp only [opened, Option.map_some, hadmitted, hstack, if_neg hdenied]
          rw [← refuse_ledger opened after]
  | @served pool T heap chunk supply opened admitted table out =>
      have hadmitted : pool.account.config.refusal? size = none := admitted
      simp only [opened, Option.map_some, hadmitted, issue_lend]
      cases out with
      | @hit c _ rest _ found pop after =>
          have hstack : pool.account.shelves.stack size =
              chunk.piece :: rest.chain.map Chunk.piece := by
            rw [Pool.stack_account, ClassTable.parkedFor_of_classFor? found,
              FreeList.chain_of_pop? pop, List.map_cons]
          simp only [hstack]
          exact w.lend_ledger w.heap chunk .hit after
      | @miss c _ granted parked capacity in_use empty found new after =>
          have hstack : pool.account.shelves.stack size = [] := by
            rw [Pool.stack_account, parked, List.map_nil]
          have hnew : (pool.account.shelves.stack? size).isNone =
              (pool.classes.classFor? size).isNone := Option.isNone_map
          have hrest : c.afterMiss.cached.chain.map Chunk.piece = [] := by
            rw [SizeClass.afterMiss, empty, List.map_nil]
          have hgranted : w.ledger.heap.grants size = true := granted
          have hlend := w.lend_ledger (p := p) { w.heap with issued := w.heap.issued + 1 }
            { serial := w.heap.issued, owner := c.slot, payload := .zeros size }
            (.miss (pool.classes.classFor? size).isNone) after
          rw [hrest] at hlend
          simp only [hstack, if_pos hgranted, hnew]
          exact hlend

/-! ### Taking back -/

theorem drop_ledger (w : World) (b : BlockId) :
    (w.drop b).ledger = w.ledger.drop (b.as Loan) := by
  simp only [World.drop, Ledger.drop, ledger, Registry.map_remove]

/-- Taking a block back, in the middle of a teardown or not. -/
theorem Sound.release_ledger {w : World} {falling : Option PoolId} (h : w.Sound falling)
    (b : BlockId) :
    w.ledger.release (falling.map (Handle.as Account)) (b.as Loan) = (w.release b).ledger := by
  have hfalls : ∀ p : PoolId, falling.map (Handle.as Account) = some (p.as Account) ↔
      falling = some p := by
    intro p
    cases falling with
    | none => simp
    | some q => simp [Handle.as_inj]
  have hall := h.released b
  generalize w.release b = result at hall ⊢
  unfold Ledger.release
  cases hall with
  | notHeld missing => simp only [loan?_ledger, missing, Option.map_none]
  | @homeless block held closed =>
      simp only [loan?_ledger, held, Option.map_some, ← drop_ledger, Block.pool_loan,
        account?_ledger, pools_drop, closed, Option.map_none]
  | @orphaned block pool held opened falls =>
      simp only [loan?_ledger, held, Option.map_some, ← drop_ledger, Block.pool_loan,
        account?_ledger, pools_drop, opened, if_pos ((hfalls block.pool).mpr falls)]
      rfl
  | @parked block pool c T held opened stands found owner in_use table after =>
      have hstack : pool.account.shelves.stack block.size = c.cached.chain.map Chunk.piece := by
        rw [Pool.stack_account, ClassTable.parkedFor_of_classFor? found]
      have hpool : ({ pool.account with
          shelves := pool.account.shelves.put block.size
            (block.loan.piece :: c.cached.chain.map Chunk.piece) } : Account) =
          Pool.account { pool with classes := T } := by
        simp only [Pool.account, ClassTable.shelves_update after]
        rfl
      simp only [loan?_ledger, held, Option.map_some, ← drop_ledger, Block.pool_loan,
        Block.size_loan, account?_ledger, pools_drop, opened,
        if_neg (mt (hfalls block.pool).mp stands), hstack, hpool, outOf_ledger]
      exact (setPool_report_ledger (w.drop b) block.pool pool { pool with classes := T } _).symm

/-! ### Freeing, writing and clearing -/

theorem Sound.free_ledger {w : World} (h : w.Sound none) (p : PoolId) (b : BlockId) :
    w.ledger.step (.free p b) = ((w.step (.free p b)).1, (w.step (.free p b)).2.ledger) := by
  simp only [Ledger.step, Ledger.free, World.step, World.free, account?_ledger, loan?_ledger]
  cases hp : w.pools.get? p with
  | none => rfl
  | some pool =>
      cases hb : w.held.get? b with
      | none => rfl
      | some block =>
          have hforeign : (pool.account.config.verifyOwner = true ∧
              block.loan.pool ≠ p.as Account) ↔
              (pool.config.verifyOwner && decide (block.pool ≠ p)) = true := by
            rw [Bool.and_eq_true, decide_eq_true_iff, Block.pool_loan, Ne, Handle.as_inj]
            rfl
          simp only [Option.map_some, hforeign]
          split
          · have hreport := (h.report p pool .refused).release_ledger b
            exact congrArg (Answer.fault (.refused .foreignBlock), ·) hreport
          · exact congrArg (Answer.done, ·) (h.release_ledger b)

theorem write_ledger (w : World) (b : BlockId) (offset : Nat) (data : Payload) :
    w.ledger.step (.write b offset data) =
      ((w.step (.write b offset data)).1, (w.step (.write b offset data)).2.ledger) := by
  simp only [Ledger.step, Ledger.write, World.step, World.write, loan?_ledger]
  cases hb : w.held.get? b with
  | none => rfl
  | some block =>
      by_cases hfit : offset + data.size ≤ block.chunk.payload.size
      · have hfits : offset + data.size ≤ block.loan.size := hfit
        simp only [Option.map_some, if_pos hfit, if_pos hfits]
        refine congrArg (Answer.done, ·) ?_
        simp only [ledger, ← Registry.map_set]
        rfl
      · have hlong : ¬ offset + data.size ≤ block.loan.size := hfit
        simp only [Option.map_some, if_neg hfit, if_neg hlong]

theorem Sound.clear_ledger {w : World} (h : w.Sound none) (p : PoolId) (eraseVacant : Bool) :
    w.ledger.step (.clear p eraseVacant) =
      ((w.step (.clear p eraseVacant)).1, (w.step (.clear p eraseVacant)).2.ledger) := by
  simp only [Ledger.step, Ledger.clear, World.step, World.clear, account?_ledger]
  cases hp : w.pools.get? p with
  | none => rfl
  | some pool =>
      have ht := h.table p pool hp
      have huse : ∀ size, w.outOf p size = pool.classes.inUseFor size :=
        fun size => (h.in_use p pool hp (by simp) size).symm
      have hcard := (ht.drain eraseVacant).card_shelves
      simp only [Option.map_some, outOf_ledger, huse, Pool.account,
        ← ht.chunks_drain_shelves eraseVacant, ← ht.classes_drain_shelves, ← ht.drain_shelves,
        hcard]
      exact congrArg (Answer.done, ·) (setPool_report_ledger w p pool
        { pool with classes := (pool.classes.drain eraseVacant).2 }
        (.cleared (pool.classes.drain eraseVacant).1 (pool.classes.drain eraseVacant).2.size)).symm

/-! ### Tearing down -/

theorem Sound.receipt_ledger {w : World} (h : w.Sound none) {p : PoolId} {pool : Pool}
    (hp : w.pools.get? p = some pool) :
    w.ledger.receipt (p.as Account) pool.account =
      { lines := pool.classes.classes.map (·.toLine) } := by
  have ht := h.table p pool hp
  refine congrArg Receipt.mk ?_
  rw [Pool.account, ht.sort_shelves]
  refine (ht.map_classes ?_).symm
  intro size c hc
  obtain ⟨hclass, hcap⟩ := ht.classFor?_eq_some_iff.mp hc
  have hlen : c.cached.len = c.cached.chain.length := (ht.sound _ c hclass).counted
  rw [outOf_ledger, ← h.in_use_of_classFor? hp (by simp) hc, ClassTable.stack_shelves,
    ClassTable.parkedFor_of_classFor? hc, List.length_map, ← hlen, ← hcap]
  rfl

theorem Sound.emptied_ledger {w : World} (h : w.Sound none) {p : PoolId} {pool : Pool}
    (hp : w.pools.get? p = some pool) :
    w.ledger.emptied (p.as Account) pool.account = (w.emptied p pool).ledger := by
  have hempty : ({ pool.account with shelves := .empty } : Account) =
      Pool.account { pool with classes := {} } := by
    simp only [Pool.account, ClassTable.shelves_empty]
  rw [Ledger.emptied, h.receipt_ledger hp, hempty]
  exact (setPool_report_ledger w p pool { pool with classes := {} } _).symm

theorem Sound.releases_ledger {w : World} {p : PoolId} (h : w.Sound (some p))
    (during : List BlockId) :
    (during.map (Handle.as Loan)).foldl (fun l b => l.release (some (p.as Account)) b) w.ledger =
      (during.foldl World.release w).ledger := by
  induction during generalizing w with
  | nil => rfl
  | cons b rest ih =>
      rw [List.map_cons, List.foldl_cons, List.foldl_cons, ← ih (h.release b),
        ← h.release_ledger b]
      rfl

theorem closed_ledger (w : World) (p : PoolId) (pool : Pool) (receipt : Receipt) :
    w.ledger.closed (p.as Account) pool.account receipt = (w.closed p pool receipt).ledger := by
  have hreports : ∀ (events : List Event) (w : World),
      events.foldl (fun l event => l.report (p.as Account) pool.account event) w.ledger =
        (events.foldl (fun w event => w.report p pool event) w).ledger := by
    intro events
    induction events with
    | nil => exact fun w => rfl
    | cons event rest ih => exact fun w => ih (w.report p pool event)
  simp only [Ledger.closed, World.closed, hreports]
  generalize receipt.events.2.foldl (fun w event => w.report p pool event) w = w'
  simp only [ledger, Registry.map_remove]

theorem Sound.tearDown_ledger {w : World} (h : w.Sound none) (p : PoolId)
    (during : List BlockId) :
    w.ledger.tearDown (p.as Account) (during.map (Handle.as Loan)) =
      ((w.tearDown p during).1, (w.tearDown p during).2.ledger) := by
  cases hp : w.pools.get? p with
  | none => simp only [Ledger.tearDown, World.tearDown, account?_ledger, hp, Option.map_none]
  | some pool =>
      have hheld : (∀ b ∈ during.map (Handle.as Loan), (w.ledger.held.get? b).isSome = true) ↔
          ∀ b ∈ during, (w.held.get? b).isSome = true := by
        rw [List.forall_mem_map]
        simp only [loan?_ledger, Option.isSome_map]
      by_cases hall : ∀ b ∈ during, (w.held.get? b).isSome = true
      · simp only [Ledger.tearDown, account?_ledger, hp, Option.map_some,
          if_pos (hheld.mpr hall), tearDown_eq hp hall, h.receipt_ledger hp, h.emptied_ledger hp,
          (h.emptied hp).releases_ledger, closed_ledger]
      · have hnone : w.tearDown p during = (.error .noSuchBlock, w) := by
          simp only [World.tearDown, hp]
          exact if_neg (mt List.all_eq_true.mp hall)
        simp only [Ledger.tearDown, account?_ledger, hp, Option.map_some, if_neg (mt hheld.mp hall),
          hnone]

/-! ### Steps and runs -/

theorem ask_ledger (w : World) (p : PoolId) {f : Shelves → Answer} {g : Pool → Answer}
    (hfg : ∀ pool, w.pools.get? p = some pool → f pool.classes.shelves = g pool) :
    w.ledger.ask (p.as Account) f = w.ask p g := by
  rw [Ledger.ask, World.ask, account?_ledger]
  cases hp : w.pools.get? p with
  | none => rfl
  | some pool => exact hfg pool hp

theorem Sound.step_ledger {w : World} (h : w.Sound none) (a : Action) :
    w.ledger.step a = ((w.step a).1, (w.step a).2.ledger) := by
  cases a with
  | openPool config =>
      simp only [Ledger.step, World.step, World.openPool, Config.check]
      cases hproblem : config.problem? with
      | none => exact enter_ledger w config
      | some problem => rfl
  | openStandard => exact enter_ledger w .standard
  | alloc p size => exact h.alloc_ledger p size
  | free p b => exact h.free_ledger p b
  | release b =>
      simp only [Ledger.step, World.step, loan?_ledger]
      cases hb : w.held.get? b with
      | none => rfl
      | some block => exact congrArg (Answer.done, ·) (h.release_ledger b)
  | write b offset data => exact write_ledger w b offset data
  | clear p eraseVacant => exact h.clear_ledger p eraseVacant
  | destroy p during =>
      simp only [Ledger.step, World.step, h.tearDown_ledger p during]
      rcases w.tearDown p during with ⟨_ | _, _⟩ <;> rfl
  | discard p during =>
      simp only [Ledger.step, World.step, h.tearDown_ledger p during]
      rcases w.tearDown p during with ⟨_ | _, _⟩ <;> rfl
  | sizes p =>
      refine congrArg (·, w.ledger) (ask_ledger w p fun pool hp => ?_)
      rw [(h.table p pool hp).sort_shelves]
      rfl
  | contains p size =>
      refine congrArg (·, w.ledger) (ask_ledger w p fun pool hp => ?_)
      rw [ClassTable.contains, ← (h.table p pool hp).classFor?_isSome]
      refine congrArg Answer.flag (Bool.eq_iff_iff.mpr ?_)
      rw [decide_eq_true_iff, Shelves.mem_sizes_iff]
      exact iff_of_eq (congrArg (· = true) Option.isSome_map)
  | count p =>
      refine congrArg (·, w.ledger) (ask_ledger w p fun pool hp => ?_)
      rw [(h.table p pool hp).card_shelves]
      rfl
  | read b =>
      simp only [Ledger.step, World.step, World.bytes?, loan?_ledger]
      cases hb : w.held.get? b <;> rfl
  | belongs b p =>
      simp only [Ledger.step, World.step, World.belongsTo, loan?_ledger, account?_ledger]
      cases w.held.get? b with
      | none => rfl
      | some block =>
          cases w.pools.get? p with
          | none => rfl
          | some pool =>
              simp only [Option.map_some, Block.pool_loan, Handle.as_inj]

/-- From a sound world on, what is played in the world is played in its ledger. -/
theorem Sound.play_ledger {w : World} (h : w.Sound none) (moves : List Move) :
    w.ledger.play moves = ((w.play moves).1, (w.play moves).2.ledger) := by
  induction moves generalizing w with
  | nil => rfl
  | cons move rest ih =>
      cases move with
      | act a =>
          have hrest := ih (h.step a)
          simp only [Ledger.play, World.play, h.step_ledger a, hrest]
      | regrant grants => exact ih (h.regrant grants)

/-- From a sound world on, a run of the world is a run of its ledger. -/
theorem Sound.run_ledger {w : World} (h : w.Sound none) (actions : List Action) :
    w.ledger.run actions = ((w.run actions).1, (w.run actions).2.ledger) := by
  have hplay := h.play_ledger (actions.map .act)
  rwa [Ledger.play_act, play_act] at hplay

/-- Nothing that callers are told depends on slots, vacant lists or counters: every run gives the
answers and writes the records that the ledger gives and writes, which has none of these. -/
theorem answers_and_records_of_ledger (grants : Nat → Bool) (actions : List Action) :
    ((World.start grants).run actions).1 = ((Ledger.start grants).run actions).1 ∧
      ((World.start grants).run actions).2.log = ((Ledger.start grants).run actions).2.log := by
  have hstart : (World.start grants).ledger = Ledger.start grants := by
    simp [ledger, World.start, Ledger.start, Registry.map]
  have hrun := (Sound.start grants).run_ledger actions
  rw [hstart] at hrun
  rw [hrun]
  exact ⟨rfl, rfl⟩

end World

end BlockPool
