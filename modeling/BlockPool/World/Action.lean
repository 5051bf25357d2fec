import BlockPool.World

/-! Runs of the world: the things that callers can do, what they are answered, and what a sequence
of them makes of a world. -/

namespace BlockPool

/-- One thing that a caller does. -/
inductive Action
  | openPool (config : Config)
  /-- Opens a pool with the standard settings. -/
  | openStandard
  | alloc (pool : PoolId) (size : Nat)
  | free (pool : PoolId) (block : BlockId)
  | release (block : BlockId)
  | write (block : BlockId) (offset : Nat) (data : Payload)
  | clear (pool : PoolId) (eraseVacant : Bool)
  /-- Tears a pool down and asks for the receipt. -/
  | destroy (pool : PoolId) (during : List BlockId)
  /-- Tears a pool down and asks for nothing. -/
  | discard (pool : PoolId) (during : List BlockId)
  /-- Asks which sizes have a class. -/
  | sizes (pool : PoolId)
  | contains (pool : PoolId) (size : Nat)
  | count (pool : PoolId)
  /-- Asks for the bytes of a block. -/
  | read (block : BlockId)
  /-- Asks whether a block came from a pool. -/
  | belongs (block : BlockId) (pool : PoolId)
  deriving DecidableEq, Inhabited

inductive Answer
  | opened (pool : PoolId)
  /-- A block, with the chunk that backs it. -/
  | issued (block : BlockId) (serial : Nat) (payload : Payload)
  | done
  | receipt (r : Receipt)
  | sizes (ns : List Nat)
  | number (n : Nat)
  | flag (b : Bool)
  | bytes (payload : Payload)
  | fault (f : Fault)
  deriving DecidableEq, Inhabited

namespace World

/-- The answer to a request for a block, read off the world after it. -/
def issue (w : World) (b : BlockId) : Answer :=
  match w.held.get? b with
  | some block => .issued b block.chunk.serial block.chunk.payload
  | none => .fault .noSuchBlock

/-- The answer to a question about a pool. -/
def ask (w : World) (p : PoolId) (f : Pool → Answer) : Answer :=
  match w.pools.get? p with
  | some pool => f pool
  | none => .fault .noSuchPool

/-- The world after one action, and what its caller is answered. -/
def step (w : World) : Action → Answer × World
  | .openPool config =>
    match w.openPool config with
    | (.ok p, w) => (.opened p, w)
    | (.error f, w) => (.fault f, w)
  | .openStandard =>
    let (p, w) := w.enter .standard
    (.opened p, w)
  | .alloc p size =>
    match w.alloc p size with
    | (.ok b, w) => (w.issue b, w)
    | (.error f, w) => (.fault f, w)
  | .free p b =>
    match w.free p b with
    | (.ok (), w) => (.done, w)
    | (.error f, w) => (.fault f, w)
  | .release b => if (w.held.get? b).isSome then (.done, w.release b) else (.fault .noSuchBlock, w)
  | .write b offset data =>
    match w.write b offset data with
    | (.ok (), w) => (.done, w)
    | (.error f, w) => (.fault f, w)
  | .clear p eraseVacant =>
    match w.clear p eraseVacant with
    | (.ok (), w) => (.done, w)
    | (.error f, w) => (.fault f, w)
  | .destroy p during =>
    match w.tearDown p during with
    | (.ok r, w) => (.receipt r, w)
    | (.error f, w) => (.fault f, w)
  | .discard p during =>
    match w.tearDown p during with
    | (.ok _, w) => (.done, w)
    | (.error f, w) => (.fault f, w)
  | .sizes p => (w.ask p fun pool => .sizes pool.sizes, w)
  | .contains p size => (w.ask p fun pool => .flag (pool.classes.contains size), w)
  | .count p => (w.ask p fun pool => .number pool.classes.size, w)
  | .read b =>
    match w.bytes? b with
    | some payload => (.bytes payload, w)
    | none => (.fault .noSuchBlock, w)
  | .belongs b p => (.flag (w.belongsTo b p), w)

/-- The world before anybody did anything, on a heap that grants these sizes. -/
def start (grants : Nat → Bool) : World := { heap := { grants } }

/-- The answers to a sequence of actions, in order, and the world after them. -/
def run (w : World) : List Action → List Answer × World
  | [] => ([], w)
  | a :: rest =>
    let (answer, w) := w.step a
    let (answers, w) := w.run rest
    (answer :: answers, w)

end World

end BlockPool
