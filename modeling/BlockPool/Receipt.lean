/-! The receipt of a teardown: what a pool held of each size when it went, in ascending order of
size. -/

namespace BlockPool

namespace Receipt

/-- The books of one size. -/
structure Line where
  capacity : Nat
  /-- Chunks that were waiting for reuse. -/
  cached : Nat
  /-- Chunks that callers held. -/
  inUse : Nat
  deriving DecidableEq, Repr, Inhabited

def Line.inspect (l : Line) : String :=
  "BucketSnapshot \x7b capacity: " ++ toString l.capacity ++ ", cached: " ++ toString l.cached ++
    ", in_use: " ++ toString l.inUse ++ " \x7d"

end Receipt

structure Receipt where
  lines : List Receipt.Line := []
  deriving DecidableEq, Repr, Inhabited

namespace Receipt

def count (r : Receipt) : Nat := r.lines.length

/-- All chunks that the teardown gave back. -/
def totalCached (r : Receipt) : Nat := r.lines.foldr (fun l n => l.cached + n) 0

/-- All blocks that outlive the pool. -/
def totalInUse (r : Receipt) : Nat := r.lines.foldr (fun l n => l.inUse + n) 0

/-- The first line for this capacity. -/
def find? (r : Receipt) (capacity : Nat) : Option Line :=
  r.lines.find? (·.capacity = capacity)

def inspect (r : Receipt) : String :=
  "TeardownReport \x7b buckets: [" ++ ", ".intercalate (r.lines.map Line.inspect) ++ "] \x7d"

end Receipt

end BlockPool
