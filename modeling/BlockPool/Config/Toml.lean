import BlockPool.Config
import BlockPool.Toml.Document
import BlockPool.Toml.Writing

/-! Settings as TOML. Every setting may be missing, and keys that are no setting are passed over.
Writing gives all settings, a limit only if there is one; a limit beyond the integers of TOML cannot
be written. -/

namespace BlockPool.Config

def nameKey : Toml.Key := "name".toList

def limitKey : Toml.Key := "max_block_size".toList

def ownerKey : Toml.Key := "verify_owner".toList

/-- A label, if it is a string. -/
def nameOf? : Option Toml.Item → Option String
  | none => some standard.name
  | some (.string s) => some (String.ofList s)
  | some _ => none

/-- A limit, if it is an integer and not negative. -/
def limitOf? : Option Toml.Item → Option (Option Nat)
  | none => some standard.maxBlockSize
  | some (.integer n) => if 0 ≤ n then some (some n.toNat) else none
  | some _ => none

def ownerOf? : Option Toml.Item → Option Bool
  | none => some standard.verifyOwner
  | some (.boolean b) => some b
  | some _ => none

/-- The settings in a document, the standard ones where it has none; nothing if one of them has the
wrong type. -/
def ofEntries? (es : Toml.Entries) : Option Config := do
  let name ← nameOf? (es.lookup nameKey)
  let maxBlockSize ← limitOf? (es.lookup limitKey)
  let verifyOwner ← ownerOf? (es.lookup ownerKey)
  some { name, maxBlockSize, verifyOwner }

/-- The settings that a text gives, if it is a document and they are fit for a pool. -/
def ofToml (text : String) : Except Problem Config :=
  match (Toml.parse? text.toList).bind ofEntries? with
  | some c => c.check
  | none => .error .malformed

/-- The largest limit that can be written. -/
def maxWritten : Nat := 9223372036854775807

/-- The settings as text, unless the limit is too large. -/
def toToml? (c : Config) : Option String :=
  let name := Toml.writeLine nameKey (Toml.writeString c.name.toList)
  let owner := Toml.writeLine ownerKey (Toml.writeBool c.verifyOwner)
  match c.maxBlockSize with
  | none => some (String.ofList (name ++ owner))
  | some limit =>
    if limit ≤ maxWritten then
      some (String.ofList (name ++ Toml.writeLine limitKey (Toml.writeNat limit) ++ owner))
    else none

/-- Whether reading the text of settings gives them back; nothing if there is no such text. -/
def roundTrips? (c : Config) : Option Bool :=
  c.toToml?.map fun text =>
    match ofToml text with
    | .ok d => d = c
    | .error _ => false

end BlockPool.Config
