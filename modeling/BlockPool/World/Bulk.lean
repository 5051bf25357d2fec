import BlockPool.World

/-! Many requests in one go: batches of blocks of one size, repeated allocation and release of a
single block, and crews of workers that each keep to a size of their own. -/

namespace BlockPool

/-- Blocks obtained in a row, the oldest first, and the fault that ended the row early. -/
structure Batch where
  world : World
  blocks : Array BlockId := #[]
  fault : Option Fault := none

/-- The batch with so many more blocks, or as many as there were before a request failed. -/
def Batch.extend (batch : Batch) (p : PoolId) (size : Nat) : Nat → Batch
  | 0 => batch
  | n + 1 =>
    match batch.world.alloc p size with
    | (.ok b, world) => Batch.extend { batch with world, blocks := batch.blocks.push b } p size n
    | (.error fault, world) => { batch with world, fault := some fault }

/-- An order in which a batch is given back. -/
inductive Order
  | forward
  | reverse
  /-- First the blocks at odd positions, then those at even ones; positions count from zero. -/
  | oddEven
  deriving DecidableEq, Repr, Inhabited

def Order.arrange {α : Type} (o : Order) (xs : List α) : List α :=
  match o with
  | forward => xs
  | reverse => xs.reverse
  | oddEven =>
    let every (parity : Nat) :=
      xs.zipIdx.filterMap fun (x, i) => if i % 2 = parity then some x else none
    every 1 ++ every 0

/-- What a crew does. Worker `t`, counted from zero, works with blocks of `base * (t + 1)` bytes: it
obtains `held` of them, gives them back, and then `rounds` times obtains one and gives it back. -/
structure Crew where
  workers : Nat
  held : Nat
  rounds : Nat
  base : Nat
  deriving DecidableEq, Repr, Inhabited

namespace World

/-- Gives blocks back through a pool, and counts the times that the pool refused. -/
def freeAll (w : World) (p : PoolId) (bs : List BlockId) : Nat × World :=
  bs.foldl (fun (refusals, w) b =>
    match w.free p b with
    | (.ok (), w) => (refusals, w)
    | (.error _, w) => (refusals + 1, w)) (0, w)

/-- Obtains a block and gives it back, so many times over. Answers the serial of the last one, or
`last` if there is none, or the first fault. -/
def churn (w : World) (p : PoolId) (size : Nat) (last : Option Nat) :
    Nat → Except Fault (Option Nat) × World
  | 0 => (.ok last, w)
  | n + 1 =>
    match w.alloc p size with
    | (.error fault, w) => (.error fault, w)
    | (.ok b, w) =>
      let last := (w.held.get? b).map (·.chunk.serial)
      match w.free p b with
      | (.error fault, w) => (.error fault, w)
      | (.ok (), w) => w.churn p size last n

/-- Asks for so many blocks, failures passed over. -/
def obtain (w : World) (p : PoolId) (size : Nat) (blocks : Array BlockId) :
    Nat → Array BlockId × World
  | 0 => (blocks, w)
  | n + 1 =>
    match w.alloc p size with
    | (.ok b, w) => w.obtain p size (blocks.push b) n
    | (.error _, w) => w.obtain p size blocks n

/-- Obtains a block and gives it back, so many times over, failures passed over. -/
def cycle (w : World) (p : PoolId) (size : Nat) : Nat → World
  | 0 => w
  | n + 1 =>
    match w.alloc p size with
    | (.ok b, w) => (w.free p b).2.cycle p size n
    | (.error _, w) => w.cycle p size n

/-- The work of one worker; answers how many requests of its first phase were granted. -/
def employ (w : World) (p : PoolId) (crew : Crew) (t : Nat) : Nat × World :=
  let size := crew.base * (t + 1)
  let (blocks, w) := w.obtain p size #[] crew.held
  let (refusals, w) := w.freeAll p blocks.toList
  (blocks.size + (blocks.size - refusals), w.cycle p size crew.rounds)

/-- The work of a whole crew, one worker after the other. As the workers share no size, the order
of their requests leaves no trace that a caller can see. -/
def employAll (w : World) (p : PoolId) (crew : Crew) : Nat × World :=
  (List.range crew.workers).foldl (fun (total, w) t =>
    let (granted, w) := w.employ p crew t
    (total + granted, w)) (0, w)

end World

end BlockPool
