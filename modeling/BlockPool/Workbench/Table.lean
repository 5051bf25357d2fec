import BlockPool.ClassTable

/-! A workbench for one class table, without a pool around it. Chunks that were taken out of the
table go by names that the caller chooses. -/

namespace BlockPool

structure TableBench where
  table : ClassTable := {}
  heap : Heap := .standard
  /-- The chunks that are out. -/
  chunks : List (String × Chunk) := []

namespace TableBench

inductive Request
  /-- Makes sure that a size has a class. -/
  | ensure (size : Nat)
  | find (size : Nat)
  | erase (size : Nat)
  | count
  | look (slot : Slot)
  | checkout (slot : Slot) (chunk : String)
  /-- Replaces the first bytes of a chunk. -/
  | write (chunk : String) (data : Payload)
  | checkin (chunk : String)
  | drainClass (slot : Slot)
  | drain (eraseVacant : Bool)
  | takeAll
  deriving DecidableEq, Inhabited

/-- What becomes of a chunk that is checked in. -/
inductive Return
  | parked
  /-- Its slot is vacant, and the chunk goes back to the heap. -/
  | orphan
  /-- The class in its slot has nothing in use or another size, and the chunk goes back to the
  heap. -/
  | stranger
  deriving DecidableEq, Repr, Inhabited

inductive Reply
  | done
  | ensured (slot : Slot) (isNew : Bool)
  | slot (slot : Option Slot)
  | number (n : Option Nat)
  | sizeClass (c : Option SizeClass)
  | handedOut (chunk : Option (Origin × Chunk))
  | returned (r : Return)
  | drained (d : Drained)
  | classes (cs : List SizeClass)
  deriving DecidableEq, Inhabited

inductive Fault
  | chunkExists
  | noSuchChunk
  | noSuchClass
  | outOfRange
  deriving DecidableEq, Repr, Inhabited

def checkout (b : TableBench) (slot : Slot) (chunk : String) : Except Fault Reply × TableBench :=
  if (b.chunks.lookup chunk).isSome then (.error .chunkExists, b)
  else
    match b.table.class? slot with
    | none => (.error .noSuchClass, b)
    | some c =>
      match c.checkout? b.heap with
      | none => (.ok (.handedOut none), b)
      | some out =>
        (.ok (.handedOut (some (out.origin, out.chunk))),
          { table := b.table.setClass slot out.sizeClass
            heap := out.heap
            chunks := (chunk, out.chunk) :: b.chunks })

def write (b : TableBench) (chunk : String) (data : Payload) : Except Fault Reply × TableBench :=
  match b.chunks.lookup chunk with
  | none => (.error .noSuchChunk, b)
  | some c =>
    if data.size ≤ c.payload.size then
      let c := { c with payload := Payload.overwrite c.payload 0 data }
      (.ok .done, { b with chunks := (chunk, c) :: b.chunks.filter (·.1 ≠ chunk) })
    else (.error .outOfRange, b)

/-- Parks a chunk in the class that lives in its slot, if that class can be its own. -/
def checkin (b : TableBench) (chunk : String) : Except Fault Reply × TableBench :=
  match b.chunks.lookup chunk with
  | none => (.error .noSuchChunk, b)
  | some c =>
    let b := { b with chunks := b.chunks.filter (·.1 ≠ chunk) }
    match b.table.class? c.owner with
    | none => (.ok (.returned .orphan), b)
    | some home =>
      if home.inUse = 0 || home.capacity ≠ c.payload.size then (.ok (.returned .stranger), b)
      else
        (.ok (.returned .parked), { b with table := b.table.setClass c.owner (home.checkin c) })

def perform (b : TableBench) : Request → Except Fault Reply × TableBench
  | .ensure size =>
    let (slot, isNew, table) := b.table.ensure size
    (.ok (.ensured slot isNew), { b with table })
  | .find size => (.ok (.slot (b.table.find? size)), b)
  | .erase size =>
    let (c, table) := b.table.erase size
    (.ok (.sizeClass c), { b with table })
  | .count => (.ok (.number (some b.table.size)), b)
  | .look slot => (.ok (.sizeClass (b.table.class? slot)), b)
  | .checkout slot chunk => b.checkout slot chunk
  | .write chunk data => b.write chunk data
  | .checkin chunk => b.checkin chunk
  | .drainClass slot =>
    match b.table.drainClass? slot with
    | none => (.ok (.number none), b)
    | some (freed, table) => (.ok (.number (some freed)), { b with table })
  | .drain eraseVacant =>
    let (d, table) := b.table.drain eraseVacant
    (.ok (.drained d), { b with table })
  | .takeAll =>
    let (cs, table) := b.table.takeAll
    (.ok (.classes cs), { b with table })

/-- A request carried out: the reply and the classes that are there afterwards, by size. -/
structure Outcome where
  reply : Except Fault Reply
  classes : List (Nat × SizeClass)

/-- The classes with their sizes, ascending. -/
def classes (b : TableBench) : List (Nat × SizeClass) :=
  b.table.index.filterMap fun (size, slot) => (b.table.class? slot).map (size, ·)

def step (b : TableBench) (request : Request) : Outcome × TableBench :=
  let (reply, b) := b.perform request
  ({ reply, classes := b.classes }, b)

def run (b : TableBench) : List Request → List Outcome × TableBench
  | [] => ([], b)
  | request :: rest =>
    let (outcome, b) := b.step request
    let (outcomes, b) := b.run rest
    (outcome :: outcomes, b)

end TableBench

end BlockPool
