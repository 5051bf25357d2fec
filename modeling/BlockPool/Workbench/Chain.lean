import BlockPool.FreeList

/-! A workbench for one free list, without a size class around it. -/

namespace BlockPool

structure ChainBench where
  list : FreeList := {}
  heap : Heap := .standard

namespace ChainBench

inductive Request
  /-- Parks a fresh chunk with these bytes. -/
  | push (owner : Slot) (payload : Payload)
  /-- Parks so many fresh chunks of one zero byte, their owners counted up from zero. -/
  | pushMany (count : Nat)
  | pop
  | releaseAll
  /-- Makes a chunk and gives it back at once. -/
  | make (owner : Slot) (size : Nat)
  deriving DecidableEq, Inhabited

inductive Reply
  | done
  | popped (chunk : Option Chunk)
  | released (n : Nat)
  | made (chunk : Option Chunk)
  deriving DecidableEq, Inhabited

/-- Parks a fresh chunk with these bytes, if the heap grants one. -/
def push (b : ChainBench) (owner : Slot) (payload : Payload) : ChainBench :=
  match b.heap.take? owner payload.size with
  | none => b
  | some (chunk, heap) => { list := b.list.push { chunk with payload }, heap }

def perform (b : ChainBench) : Request → Reply × ChainBench
  | .push owner payload => (.done, b.push owner payload)
  | .pushMany count =>
    (.done, (List.range count).foldl (fun b owner => b.push owner (.zeros 1)) b)
  | .pop =>
    match b.list.pop? with
    | none => (.popped none, b)
    | some (chunk, list) => (.popped (some chunk), { b with list })
  | .releaseAll =>
    let (n, list) := b.list.releaseAll
    (.released n, { b with list })
  | .make owner size =>
    match b.heap.take? owner size with
    | none => (.made none, b)
    | some (chunk, heap) => (.made (some chunk), { b with heap })

/-- A request carried out: the reply, and what the list says of itself afterwards. -/
structure Outcome where
  reply : Reply
  len : Nat
  isEmpty : Bool

def step (b : ChainBench) (request : Request) : Outcome × ChainBench :=
  let (reply, b) := b.perform request
  ({ reply, len := b.list.len, isEmpty := b.list.isEmpty }, b)

def run (b : ChainBench) : List Request → List Outcome × ChainBench
  | [] => ([], b)
  | request :: rest =>
    let (outcome, b) := b.step request
    let (outcomes, b) := b.run rest
    (outcome :: outcomes, b)

end ChainBench

end BlockPool
