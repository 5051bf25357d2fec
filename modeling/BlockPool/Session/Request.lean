import BlockPool.World.Bulk

/-! The requests and replies of a session, in which pools, blocks and groups of blocks go by names
that the caller chooses. -/

namespace BlockPool

/-- Where the settings of a pool come from. -/
inductive ConfigSource
  | given (config : Config)
  | toml (text : String)
  | named (name : String)
  /-- The standard settings, which need no check. -/
  | standard
  deriving DecidableEq, Inhabited

/-- Kinds of values that a caller may ask a block for. -/
inductive ValueKind
  /-- A value that takes no room. -/
  | nothing
  | emptyArray
  | byte
  | bits16
  | bits32
  | bits64
  | bits128
  | character
  | threeBytes
  /-- A record of several fields. -/
  | demo
  deriving DecidableEq, Repr, Inhabited

/-- The bytes that one value of this kind takes. -/
def ValueKind.size : ValueKind → Nat
  | nothing | emptyArray => 0
  | byte => 1
  | bits16 => 2
  | threeBytes => 3
  | bits32 | character => 4
  | bits64 => 8
  | bits128 => 16
  | demo => 20

inductive Request
  | create (pool : String) (source : ConfigSource)
  | alloc (pool block : String) (size : Nat)
  | allocFor (pool block : String) (kind : ValueKind)
  | free (pool block : String)
  | release (block : String)
  | write (block : String) (offset : Nat) (data : Payload)
  | fill (block : String) (byte : UInt8)
  | read (block : String) (offset len : Nat)
  | info (block : String)
  | clear (pool : String) (eraseVacant : Bool)
  /-- Tears a pool down, with a receipt if one is asked for. -/
  | tearDown (pool : String) (during : List String) (withReceipt : Bool)
  | contains (pool : String) (size : Nat)
  | count (pool : String)
  | inspect (pool : String)
  | allocMany (pool group : String) (size count : Nat)
  | freeMany (pool group : String) (order : Order)
  | churn (pool : String) (size count : Nat)
  | employ (pool : String) (crew : Crew)
  deriving Inhabited

/-- What is known of a held block. -/
structure BlockInfo where
  len : Nat
  isEmpty : Bool
  sum : Nat
  inspect : String
  /-- For every open pool, by name, whether the block came from it. -/
  belongsTo : List (String × Bool)
  deriving DecidableEq, Repr, Inhabited

inductive Reply
  | done
  | opened (config : Config)
  /-- A block: the serial of its chunk where serials are followed, and all its bytes. -/
  | issued (serial : Option Nat) (payload : Payload)
  | bytes (payload : Payload)
  | info (i : BlockInfo)
  | receipt (r : Receipt)
  | flag (b : Bool)
  | number (n : Nat)
  /-- A text on one line and the same on several. -/
  | inspected (line lines : String)
  /-- The serials of a batch: the first, the last and the sum. -/
  | batch (first last : Option Nat) (sum : Nat)
  | refusals (n : Nat)
  | serial (n : Option Nat)
  deriving DecidableEq, Inhabited

end BlockPool
