import BlockPool.Proofs.World.Reachable
import Mathlib.Algebra.BigOperators.Group.Finset.Basic
import Mathlib.Data.Finset.Sort
import Mathlib.Logic.Function.Basic

/-! What callers can know of the world, as a machine of its own. A pool is here a finite map from
sizes to stacks of parked pieces and nothing else: pieces bear no slot, and no counter says how many
are in use, which is counted among the blocks that callers hold whenever it is asked for. -/

namespace BlockPool

/-- A chunk as callers see it. -/
structure Piece where
  /-- The number that the heap gave to it. -/
  serial : Nat
  payload : Payload
  deriving DecidableEq, Inhabited

/-- A finite map from the sizes on the books to the pieces parked under them, the last one parked on
top. -/
structure Shelves where
  stack? : Nat → Option (List Piece)
  sizes : Finset Nat
  mem_sizes_iff : ∀ size, size ∈ sizes ↔ (stack? size).isSome = true

namespace Shelves

theorem ext_stack {s t : Shelves} (h : s.stack? = t.stack?) : s = t := by
  obtain ⟨stack, sizes, hs⟩ := s
  obtain ⟨stack', sizes', ht⟩ := t
  simp only at h
  subst h
  have hsizes : sizes = sizes' := Finset.ext fun size => (hs size).trans (ht size).symm
  subst hsizes
  rfl

def empty : Shelves := { stack? := fun _ => none, sizes := ∅, mem_sizes_iff := by simp }

/-- The pieces parked under a size; none if the size is not on the books. -/
def stack (s : Shelves) (size : Nat) : List Piece := (s.stack? size).getD []

/-- The map with this stack under a size, which is on the books from now on. -/
def put (s : Shelves) (size : Nat) (stack : List Piece) : Shelves where
  stack? := Function.update s.stack? size (some stack)
  sizes := insert size s.sizes
  mem_sizes_iff other := by
    by_cases ho : other = size
    · subst ho
      simp
    · simp [ho, s.mem_sizes_iff]

/-- The map with every stack emptied and without the sizes that are `gone`. -/
def sweep (s : Shelves) (gone : Nat → Bool) : Shelves where
  stack? size := if gone size then none else (s.stack? size).map fun _ => []
  sizes := s.sizes.filter fun size => gone size = false
  mem_sizes_iff size := by
    rw [Finset.mem_filter, s.mem_sizes_iff]
    cases gone size <;> simp

end Shelves

/-- A pool as callers see it. -/
structure Account where
  config : Config
  shelves : Shelves := .empty

/-- A block as callers see it. -/
structure Loan where
  piece : Piece
  pool : Handle Account

def Loan.size (loan : Loan) : Nat := loan.piece.payload.size

structure Ledger where
  heap : Heap
  pools : Registry Account := {}
  held : Registry Loan := {}
  log : Array Record := #[]

namespace Ledger

/-- How many blocks of this size callers hold from this pool. -/
def outOf (l : Ledger) (p : Handle Account) (size : Nat) : Nat :=
  l.held.toList.countP fun loan => decide (loan.pool = p ∧ loan.size = size)

def report (l : Ledger) (p : Handle Account) (account : Account) (event : Event) : Ledger :=
  { l with log := l.log.push { pool := p.as Pool, label := account.config.name, event } }

def enter (l : Ledger) (config : Config) : Answer × Ledger :=
  let account : Account := { config }
  let (p, pools) := l.pools.add account
  (.opened (p.as Pool), { l with pools }.report p account .created)

/-- Hands out a piece for a request of this size, under which the pieces in `rest` stay parked. -/
def lend (l : Ledger) (p : Handle Account) (account : Account) (size : Nat) (rest : List Piece)
    (heap : Heap) (piece : Piece) (supply : Supply) : Answer × Ledger :=
  let pools := l.pools.set p { account with shelves := account.shelves.put size rest }
  let (b, held) := l.held.add { piece, pool := p }
  (.issued (b.as Block) piece.serial piece.payload,
    { l with heap, pools, held }.report p account (.supplied supply size))

/-- Hands out the piece on top of the stack for the size, or a fresh one if there is none. -/
def alloc (l : Ledger) (p : Handle Account) (size : Nat) : Answer × Ledger :=
  match l.pools.get? p with
  | none => (.fault .noSuchPool, l)
  | some account =>
    match account.config.refusal? size with
    | some error => (.fault (.refused error), l)
    | none =>
      match account.shelves.stack size with
      | piece :: rest => l.lend p account size rest l.heap piece .hit
      | [] =>
        if l.heap.grants size then
          l.lend p account size [] { l.heap with issued := l.heap.issued + 1 }
            { serial := l.heap.issued, payload := .zeros size }
            (.miss (account.shelves.stack? size).isNone)
        else
          (.fault (.refused (.outOfMemory size)), l.report p account (.outOfMemory size))

/-- The ledger after a caller let go of a block that has not reached its pool yet. -/
def drop (l : Ledger) (b : Handle Loan) : Ledger := { l with held := l.held.remove b }

/-- Ends the hold on a block, whose piece goes on top of the stack for its length. Nothing takes the
piece in when the pool is closed or `falling`. -/
def release (l : Ledger) (falling : Option (Handle Account)) (b : Handle Loan) : Ledger :=
  match l.held.get? b with
  | none => l
  | some loan =>
    let l := l.drop b
    match l.pools.get? loan.pool with
    | none => l
    | some account =>
      if falling = some loan.pool then l.report loan.pool account .orphaned
      else
        let shelves :=
          account.shelves.put loan.size (loan.piece :: account.shelves.stack loan.size)
        { l with pools := l.pools.set loan.pool { account with shelves } }.report loan.pool account
          (.cached loan.size (l.outOf loan.pool loan.size))

def free (l : Ledger) (p : Handle Account) (b : Handle Loan) : Answer × Ledger :=
  match l.pools.get? p, l.held.get? b with
  | none, _ => (.fault .noSuchPool, l)
  | some _, none => (.fault .noSuchBlock, l)
  | some account, some loan =>
    if account.config.verifyOwner = true ∧ loan.pool ≠ p then
      (.fault (.refused .foreignBlock), (l.report p account .refused).release none b)
    else (.done, l.release none b)

def write (l : Ledger) (b : Handle Loan) (offset : Nat) (data : Payload) : Answer × Ledger :=
  match l.held.get? b with
  | none => (.fault .noSuchBlock, l)
  | some loan =>
    if offset + data.size ≤ loan.size then
      let payload := Payload.overwrite loan.piece.payload offset data
      (.done, { l with held := l.held.set b { loan with piece := { loan.piece with payload } } })
    else (.fault .outOfRange, l)

/-- Empties every stack of a pool. With `eraseVacant` the sizes of which callers hold nothing leave
the books. -/
def clear (l : Ledger) (p : Handle Account) (eraseVacant : Bool) : Answer × Ledger :=
  match l.pools.get? p with
  | none => (.fault .noSuchPool, l)
  | some account =>
    let gone := fun size => eraseVacant && decide (l.outOf p size = 0)
    let shelves := account.shelves.sweep gone
    let drained : Drained :=
      { chunks := ∑ size ∈ account.shelves.sizes, (account.shelves.stack size).length
        classes := (account.shelves.sizes.filter fun size => gone size).card }
    (.done, { l with pools := l.pools.set p { account with shelves } }.report p account
      (.cleared drained shelves.sizes.card))

/-- What a pool has parked and what callers hold of it, for every size on the books. -/
def receipt (l : Ledger) (p : Handle Account) (account : Account) : Receipt :=
  { lines := account.shelves.sizes.sort.map fun size =>
      { capacity := size
        cached := (account.shelves.stack size).length
        inUse := l.outOf p size } }

/-- The ledger after the first report of a teardown. -/
def emptied (l : Ledger) (p : Handle Account) (account : Account) : Ledger :=
  { l with pools := l.pools.set p { account with shelves := .empty } }.report p account
    (l.receipt p account).events.1

/-- The ledger after the last reports of a teardown, with the pool closed. -/
def closed (l : Ledger) (p : Handle Account) (account : Account) (receipt : Receipt) : Ledger :=
  let l := receipt.events.2.foldl (fun l event => l.report p account event) l
  { l with pools := l.pools.remove p }

/-- Empties a pool, lets go of the blocks in `during`, and closes it. -/
def tearDown (l : Ledger) (p : Handle Account) (during : List (Handle Loan)) :
    Except Fault Receipt × Ledger :=
  match l.pools.get? p with
  | none => (.error .noSuchPool, l)
  | some account =>
    if ∀ b ∈ during, (l.held.get? b).isSome = true then
      let receipt := l.receipt p account
      (.ok receipt,
        (during.foldl (fun l b => l.release (some p) b) (l.emptied p account)).closed p account
          receipt)
    else (.error .noSuchBlock, l)

def ask (l : Ledger) (p : Handle Account) (f : Shelves → Answer) : Answer :=
  match l.pools.get? p with
  | some account => f account.shelves
  | none => .fault .noSuchPool

/-- The ledger after one action, and what its caller is answered. -/
def step (l : Ledger) : Action → Answer × Ledger
  | .openPool config =>
    match config.problem? with
    | some problem => (.fault (.refused problem.toError), l)
    | none => l.enter config
  | .openStandard => l.enter .standard
  | .alloc p size => l.alloc (p.as Account) size
  | .free p b => l.free (p.as Account) (b.as Loan)
  | .release b =>
    match l.held.get? (b.as Loan) with
    | some _ => (.done, l.release none (b.as Loan))
    | none => (.fault .noSuchBlock, l)
  | .write b offset data => l.write (b.as Loan) offset data
  | .clear p eraseVacant => l.clear (p.as Account) eraseVacant
  | .destroy p during =>
    match l.tearDown (p.as Account) (during.map (Handle.as Loan)) with
    | (.ok receipt, l) => (.receipt receipt, l)
    | (.error fault, l) => (.fault fault, l)
  | .discard p during =>
    match l.tearDown (p.as Account) (during.map (Handle.as Loan)) with
    | (.ok _, l) => (.done, l)
    | (.error fault, l) => (.fault fault, l)
  | .sizes p => (l.ask (p.as Account) fun s => .sizes s.sizes.sort, l)
  | .contains p size => (l.ask (p.as Account) fun s => .flag (decide (size ∈ s.sizes)), l)
  | .count p => (l.ask (p.as Account) fun s => .number s.sizes.card, l)
  | .read b =>
    match l.held.get? (b.as Loan) with
    | some loan => (.bytes loan.piece.payload, l)
    | none => (.fault .noSuchBlock, l)
  | .belongs b p =>
    match l.held.get? (b.as Loan), l.pools.get? (p.as Account) with
    | some loan, some _ => (.flag (decide (loan.pool = p.as Account)), l)
    | _, _ => (.flag false, l)

/-- The ledger before anybody did anything, on a heap that grants these sizes. -/
def start (grants : Nat → Bool) : Ledger := { heap := { grants } }

/-- The answers to a sequence of actions, in order, and the ledger after them. -/
def run (l : Ledger) : List Action → List Answer × Ledger
  | [] => ([], l)
  | a :: rest =>
    let (answer, l) := l.step a
    let (answers, l) := l.run rest
    (answer :: answers, l)

/-- The ledger on a heap that grants these sizes from now on, and no others. -/
def regrant (l : Ledger) (grants : Nat → Bool) : Ledger := { l with heap := { l.heap with grants } }

/-- The answers to the actions in a sequence of moves, in order, and the ledger after the moves. -/
def play (l : Ledger) : List World.Move → List Answer × Ledger
  | [] => ([], l)
  | .act a :: rest =>
    let (answer, l) := l.step a
    let (answers, l) := l.play rest
    (answer :: answers, l)
  | .regrant grants :: rest => (l.regrant grants).play rest

theorem play_act (l : Ledger) (actions : List Action) : l.play (actions.map .act) = l.run actions := by
  induction actions generalizing l with
  | nil => rfl
  | cons a rest ih => simp only [List.map_cons, play, run, ih]

end Ledger

end BlockPool
