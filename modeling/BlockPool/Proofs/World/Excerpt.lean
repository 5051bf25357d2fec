import BlockPool.Proofs.Ledger.Refinement

/-! The part of a run that concerns one size of one pool. A step belongs to it if it opens, clears or tears
down the pool, asks the pool for a block of the size, or writes to or lets go of such a block. The excerpt
of a run keeps these steps and drops all others. It is a run of its own, of a world with no other pool, and
says beside each step what was seen of it in the full run. -/

namespace BlockPool

/-- What a step answers to somebody who uses one size of one pool. -/
inductive Outcome
  | done
  | issued (piece : Piece)
  /-- The line of the size in the receipt of the pool. -/
  | line (l : Option Receipt.Line)
  | fault (f : Fault)
  deriving DecidableEq

def Answer.outcome (size : Nat) : Answer → Outcome
  | .issued _ serial payload => .issued { serial, payload }
  | .receipt r => .line (r.find? size)
  | .fault f => .fault f
  | .opened _ | .done | .sizes _ | .number _ | .flag _ | .bytes _ => .done

/-- Whether an event is the opening of a pool or about a block of this size. Reports about all sizes
together are not. -/
def Event.about (size : Nat) : Event → Bool
  | .created => true
  | .supplied _ n | .outOfMemory n | .cached n _ => decide (n = size)
  | .refused | .cleared _ _ | .abandoned _ | .destroyed _ _ | .orphaned => false

/-- What a pool reported about a size between two states of the log. -/
def saidBetween (past log : Array Record) (p : PoolId) (size : Nat) : List Event :=
  ((log.toList.drop past.size).filter fun r => decide (r.pool = p) && r.event.about size).map (·.event)

/-- What is seen of a step by somebody who uses one size of one pool. -/
structure Sight where
  outcome : Outcome
  said : List Event
  /-- Whether the size has a class after the step. -/
  contains : Bool
  /-- How many blocks of the size the pool counts as in use after the step. -/
  inUse : Nat
  /-- What the pool has parked for the size after the step, the piece that is served next in front. -/
  parked : List Piece
  deriving DecidableEq

/-! ### Sights up to the numbering of chunks -/

section Like

variable (serials : List Nat)

/-- The same bytes in a chunk that has one number in the full run and another in the excerpt. -/
def Piece.Like (x y : Piece) : Prop := serials[y.serial]? = some x.serial ∧ y.payload = x.payload

inductive Outcome.Like : Outcome → Outcome → Prop
  | done : Like .done .done
  | issued {x y : Piece} (alike : x.Like serials y) : Like (.issued x) (.issued y)
  | line (l : Option Receipt.Line) : Like (.line l) (.line l)
  | fault (f : Fault) : Like (.fault f) (.fault f)

/-- The same sight but for the numbers of chunks. -/
structure Sight.Like (x y : Sight) : Prop where
  outcome : x.outcome.Like serials y.outcome
  said : y.said = x.said
  contains : y.contains = x.contains
  inUse : y.inUse = x.inUse
  parked : List.Forall₂ (Piece.Like serials) x.parked y.parked

end Like

namespace World

/-- What is seen of a step from `w` to `w'`. -/
def sight (w : World) (p : PoolId) (size : Nat) (w' : World) (outcome : Outcome) : Sight where
  outcome
  said := saidBetween w.log w'.log p size
  contains := (w'.pools.get? p).any fun pool => pool.classes.contains size
  inUse := (w'.pools.get? p).elim 0 fun pool => pool.classes.inUseFor size
  parked := (w'.pools.get? p).elim [] fun pool => (pool.classes.parkedFor size).map Chunk.piece

/-- What is seen of the steps of a run. -/
def sights (p : PoolId) (size : Nat) (w : World) : List Action → List Sight
  | [] => []
  | a :: rest =>
    w.sight p size (w.step a).2 ((w.step a).1.outcome size) :: sights p size (w.step a).2 rest

/-! ### Excerpts

In an excerpt the pool is the only one and has the first handle. Its blocks are numbered in the order in
which they were handed out; `blocks` lists the numbers that they have in the full run. -/

section Excerpt

variable (p : PoolId) (size : Nat)

/-- Whether callers hold this block, and it is one of this size from this pool. -/
def concerns (w : World) (b : BlockId) : Bool :=
  (w.held.get? b).any fun block => decide (block.pool = p ∧ block.size = size)

/-- The handle of a block in the excerpt. -/
def renamed (blocks : List Nat) (b : BlockId) : BlockId := { index := blocks.idxOf b.index }

/-- The releases, of these, that concern the size. -/
def excerptReleases (blocks : List Nat) (w : World) : List BlockId → List (Action × Sight)
  | [] => []
  | b :: rest =>
    (if w.concerns p size b then
      [(.release (renamed blocks b), w.sight p size (w.release b) .done)]
    else []) ++ excerptReleases blocks (w.release b) rest

/-- What a teardown becomes in the excerpt: `tear` of the blocks that concern the size, or just their
releases if it is that of another pool. -/
def excerptTearDown (blocks : List Nat) (w : World) (q : PoolId) (during : List BlockId)
    (tear : List BlockId → Action) (seen : Sight) : List (Action × Sight) :=
  if ∀ b ∈ during, (w.held.get? b).isSome = true then
    if q = p then [(tear ((during.filter (w.concerns p size)).map (renamed blocks)), seen)]
    else
      match w.pools.get? q with
      | none => []
      | some pool => excerptReleases p size blocks (w.emptied q pool) during
  else []

/-- What an action becomes in the excerpt, with what is seen of it in the full run. A block that is let go
of through another pool is just released. -/
def excerptStep (blocks : List Nat) (w : World) (a : Action) : List (Action × Sight) :=
  let seen := w.sight p size (w.step a).2 ((w.step a).1.outcome size)
  match a with
  | .openPool _ | .openStandard => if (w.step a).1 = .opened p then [(a, seen)] else []
  | .alloc q n => if q = p ∧ n = size then [(.alloc ⟨0⟩ size, seen)] else []
  | .free q b =>
    if w.concerns p size b then
      if q = p then [(.free ⟨0⟩ (renamed blocks b), seen)]
      else if (w.pools.get? q).isSome then
        [(.release (renamed blocks b), { seen with outcome := .done })]
      else []
    else []
  | .release b => if w.concerns p size b then [(.release (renamed blocks b), seen)] else []
  | .write b offset data =>
    if w.concerns p size b then [(.write (renamed blocks b) offset data, seen)] else []
  | .clear q eraseVacant => if q = p then [(.clear ⟨0⟩ eraseVacant, seen)] else []
  | .destroy q during => excerptTearDown p size blocks w q during (.destroy ⟨0⟩) seen
  | .discard q during => excerptTearDown p size blocks w q during (.discard ⟨0⟩) seen
  | .sizes _ | .contains _ _ | .count _ | .read _ | .belongs _ _ => []

/-- The numbers of the blocks of the excerpt after a step of the full run that gave this answer. -/
def lentBy (blocks : List Nat) (a : Action) (answer : Answer) : List Nat :=
  match a, answer with
  | .alloc q n, .issued b _ _ => if q = p ∧ n = size then blocks ++ [b.index] else blocks
  | _, _ => blocks

/-- The excerpt of a run. -/
def excerpt (blocks : List Nat) (w : World) : List Action → List (Action × Sight)
  | [] => []
  | a :: rest =>
    excerptStep p size blocks w a ++
      excerpt (lentBy p size blocks a (w.step a).1) (w.step a).2 rest

end Excerpt

/-- A block of another size, one of another pool and a teardown that takes a block back. -/
example : ((start fun _ => true).excerpt ⟨1⟩ 8 [] [.openStandard, .openStandard, .alloc ⟨0⟩ 8,
      .alloc ⟨1⟩ 16, .alloc ⟨1⟩ 8, .write ⟨2⟩ 0 (.zeros 4), .destroy ⟨0⟩ [⟨1⟩, ⟨2⟩],
      .alloc ⟨1⟩ 8]).map (·.1) =
    [.openStandard, .alloc ⟨0⟩ 8, .write ⟨0⟩ 0 (.zeros 4), .release ⟨0⟩, .alloc ⟨0⟩ 8] := by
  decide

end World

end BlockPool
