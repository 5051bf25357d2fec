import BlockPool.Pool

/-! Records: what pools report about themselves while they work. A record says which pool speaks,
under which label, and what happened; its level and its text follow from that. -/

namespace BlockPool

inductive Level
  | trace
  | debug
  | warn
  deriving DecidableEq, Repr, Inhabited

def Level.text : Level → String
  | trace => "TRACE"
  | debug => "DEBUG"
  | warn => "WARN"

/-- What a pool reports. -/
inductive Event
  | created
  | supplied (supply : Supply) (size : Nat)
  | outOfMemory (size : Nat)
  /-- A block came back; `inUse` more of its size are still out. -/
  | cached (size inUse : Nat)
  /-- A block of another pool was refused. -/
  | refused
  | cleared (drained : Drained) (remaining : Nat)
  /-- The pool goes while blocks of it are in use. -/
  | abandoned (inUse : Nat)
  | destroyed (classes freed : Nat)
  /-- A block came back while its pool was being torn down. -/
  | orphaned
  deriving DecidableEq, Repr, Inhabited

namespace Event

def level : Event → Level
  | created | cleared _ _ | destroyed _ _ => .debug
  | supplied _ _ | cached _ _ | orphaned => .trace
  | outOfMemory _ | refused | abandoned _ => .warn

def text : Event → String
  | created => "pool created"
  | supplied .hit size => "cache hit for " ++ toString size ++ " bytes"
  | supplied (.miss isNew) size =>
    "cache miss for " ++ toString size ++ " bytes" ++ (if isNew then ", new bucket" else "")
  | outOfMemory size => "out of memory allocating " ++ toString size ++ " bytes"
  | cached size inUse =>
    toString size ++ "-byte block cached, " ++ toString inUse ++ " still in use"
  | refused => "refused a block owned by another pool"
  | cleared drained remaining =>
    "cleared " ++ toString drained.chunks ++ " cached blocks, removed " ++
      toString drained.classes ++ " buckets, " ++ toString remaining ++ " remain"
  | abandoned inUse => "destroyed with " ++ toString inUse ++ " blocks still in use"
  | destroyed classes freed =>
    "destroyed " ++ toString classes ++ " buckets, freed " ++ toString freed ++ " cached blocks"
  | orphaned => "released an orphaned block"

end Event

structure Record where
  /-- The pool that speaks. -/
  pool : PoolId
  label : String
  event : Event
  deriving DecidableEq, Inhabited

namespace Record

def level (r : Record) : Level := r.event.level

def text (r : Record) : String := r.label ++ ": " ++ r.event.text

end Record

/-- What a pool reports of its teardown, the first report apart: a warning comes first if blocks are
still in use. -/
def Receipt.events (r : Receipt) : Event × List Event :=
  let last := .destroyed r.count r.totalCached
  if 0 < r.totalInUse then (.abandoned r.totalInUse, [last]) else (last, [])

end BlockPool
