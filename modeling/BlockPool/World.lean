import BlockPool.Record

/-! The world: a heap, the pools that are open, the blocks that callers hold, and the log of all
records. A block that is released goes back to the pool that it came from, whoever releases it;
without that pool its chunk goes back to the heap and nothing is recorded. -/

namespace BlockPool

/-- Why a request was not carried out: it names something that is not there or is taken already,
or the pool refused it. -/
inductive Fault
  | noSuchPool
  | noSuchBlock
  | noSuchGroup
  | poolExists
  | blockExists
  | outOfRange
  | refused (error : Error)
  deriving DecidableEq, Repr, Inhabited

structure World where
  heap : Heap := .standard
  pools : Registry Pool := {}
  /-- The blocks in the hands of callers. -/
  held : Registry Block := {}
  /-- Every record so far, the oldest first. -/
  log : Array Record := #[]

namespace World

/-- Records that something happened to a pool. -/
def report (w : World) (p : PoolId) (pool : Pool) (event : Event) : World :=
  { w with log := w.log.push { pool := p, label := pool.config.name, event } }

/-- Opens a pool with settings that are not looked at. -/
def enter (w : World) (config : Config) : PoolId × World :=
  let pool : Pool := { config }
  let (p, pools) := w.pools.add pool
  (p, { w with pools }.report p pool .created)

/-- Opens a pool, unless its settings are unfit. -/
def openPool (w : World) (config : Config) : Except Fault PoolId × World :=
  match config.check with
  | .error problem => (.error (.refused problem.toError), w)
  | .ok config =>
    let (p, w) := w.enter config
    (.ok p, w)

/-- Hands out a block of exactly this size. -/
def alloc (w : World) (p : PoolId) (size : Nat) : Except Fault BlockId × World :=
  match w.pools.get? p with
  | none => (.error .noSuchPool, w)
  | some pool =>
    match pool.config.refusal? size with
    | some error => (.error (.refused error), w)
    | none =>
      match pool.classes.checkout w.heap size with
      | (none, classes, heap) =>
        let pools := w.pools.set p { pool with classes }
        (.error (.refused (.outOfMemory size)),
          { w with heap, pools }.report p pool (.outOfMemory size))
      | (some (chunk, supply), classes, heap) =>
        let pools := w.pools.set p { pool with classes }
        let (b, held) := w.held.add { chunk, pool := p }
        (.ok b, { w with heap, pools, held }.report p pool (.supplied supply size))

/-- Brings a block that nobody holds any more back to its pool. -/
def takeBack (w : World) (block : Block) : World :=
  match w.pools.get? block.pool with
  | none => w
  | some pool =>
    match pool.classes.checkin? block.chunk with
    | none => w.report block.pool pool .orphaned
    | some (c, classes) =>
      { w with pools := w.pools.set block.pool { pool with classes } }.report block.pool pool
        (.cached c.capacity c.inUse)

/-- Ends the hold on a block, without the help of any pool. -/
def release (w : World) (b : BlockId) : World :=
  match w.held.get? b with
  | none => w
  | some block => { w with held := w.held.remove b }.takeBack block

/-- Ends the hold on a block through a pool. A pool that verifies owners refuses the block of
another one, which is released all the same. -/
def free (w : World) (p : PoolId) (b : BlockId) : Except Fault Unit × World :=
  match w.pools.get? p with
  | none => (.error .noSuchPool, w)
  | some pool =>
    match w.held.get? b with
    | none => (.error .noSuchBlock, w)
    | some block =>
      if pool.config.verifyOwner && decide (block.pool ≠ p) then
        (.error (.refused .foreignBlock), (w.report p pool .refused).release b)
      else (.ok (), w.release b)

/-- Replaces the bytes of a held block from `offset` on. -/
def write (w : World) (b : BlockId) (offset : Nat) (data : Payload) : Except Fault Unit × World :=
  match w.held.get? b with
  | none => (.error .noSuchBlock, w)
  | some block =>
    let chunk := block.chunk
    if offset + data.size ≤ chunk.payload.size then
      let payload := Payload.overwrite chunk.payload offset data
      (.ok (), { w with held := w.held.set b { block with chunk := { chunk with payload } } })
    else (.error .outOfRange, w)

/-- Gives the parked chunks of a pool back to the heap, and with `eraseVacant` also drops the size
classes that are left with none. -/
def clear (w : World) (p : PoolId) (eraseVacant : Bool) : Except Fault Unit × World :=
  match w.pools.get? p with
  | none => (.error .noSuchPool, w)
  | some pool =>
    let (drained, classes) := pool.classes.drain eraseVacant
    (.ok (), { w with pools := w.pools.set p { pool with classes } }.report p pool
      (.cleared drained classes.size))

/-- Tears a pool down and answers what it held. The blocks in `during` are released in order right
after the first report, when the classes of the pool are gone but the pool is still there. -/
def tearDown (w : World) (p : PoolId) (during : List BlockId) : Except Fault Receipt × World :=
  match w.pools.get? p with
  | none => (.error .noSuchPool, w)
  | some pool =>
    if during.all fun b => (w.held.get? b).isSome then
      let (taken, classes) := pool.classes.takeAll
      let receipt : Receipt := { lines := taken.map (·.toLine) }
      let (first, later) := receipt.events
      let w := { w with pools := w.pools.set p { pool with classes } }
      let w := during.foldl release (w.report p pool first)
      let w := later.foldl (fun w event => w.report p pool event) w
      (.ok receipt, { w with pools := w.pools.remove p })
    else (.error .noSuchBlock, w)

/-- The bytes of a held block. -/
def bytes? (w : World) (b : BlockId) : Option Payload :=
  (w.held.get? b).map (·.chunk.payload)

/-- Whether a held block came from this pool, which must still be open. -/
def belongsTo (w : World) (b : BlockId) (p : PoolId) : Bool :=
  match w.held.get? b, w.pools.get? p with
  | some block, some _ => decide (block.pool = p)
  | _, _ => false

end World

end BlockPool
