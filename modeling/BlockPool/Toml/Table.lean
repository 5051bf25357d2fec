/-! Tables and the rules by which a document builds them. A table may be opened by a header once and
only once. Dotted keys extend the tables that dotted keys made, and no others; a table that was
only named on the way to another one may still be opened. -/

namespace BlockPool.Toml

abbrev Key := List Char

/-- How a table came to be. -/
inductive TableKind
  /-- Opened by a header of its own. -/
  | header
  /-- Named on the way to another header. -/
  | onTheWay
  /-- Made by a dotted key. -/
  | dotted
  /-- Written between braces. -/
  | inline
  deriving DecidableEq, Repr, Inhabited

/-- A value of a document. Of floats, dates and times only the kind is kept. -/
inductive Item
  | string (text : List Char)
  | integer (n : Int)
  | boolean (b : Bool)
  | float
  | moment
  | array (items : List Item)
  | table (kind : TableKind) (entries : List (Key × Item))
  /-- Tables that were opened one after another under the same name. -/
  | tables (elements : List (List (Key × Item)))
  deriving Inhabited

abbrev Entries := List (Key × Item)

/-- A key with the tables that lead to it. -/
structure KeyPath where
  parents : List Key
  name : Key
  deriving DecidableEq, Repr, Inhabited

/-- Whether a path may lead through a table: no path into one between braces, and none of dotted
keys into one that was opened. -/
def TableKind.admits (dotted : Bool) : TableKind → Bool
  | inline => false
  | header => !dotted
  | onTheWay | .dotted => true

namespace Entries

def replace (k : Key) (v : Item) (es : Entries) : Entries :=
  es.map fun e => if e.1 = k then (k, v) else e

/-- A new entry, under a key that is not there yet. -/
def add (k : Key) (v : Item) (es : Entries) : Option Entries :=
  match es.lookup k with
  | none => some (es ++ [(k, v)])
  | some _ => none

/-- Changes the table at the end of a path, of which the tables that are missing are made on the
way. A path leads to the latest of several tables with one name. -/
def under (dotted : Bool) (change : TableKind → Entries → Option Entries) :
    List Key → TableKind → Entries → Option Entries
  | [], kind, es => change kind es
  | k :: path, _, es =>
    match es.lookup k with
    | none => do
      let kind := if dotted then TableKind.dotted else .onTheWay
      let sub ← under dotted change path kind []
      some (es ++ [(k, .table kind sub)])
    | some (.table kind sub) => do
      guard (kind.admits dotted)
      let sub ← under dotted change path kind sub
      some (replace k (.table kind sub) es)
    | some (.tables elements) => do
      let last ← elements.getLast?
      let last ← under dotted change path .header last
      some (replace k (.tables (elements.dropLast ++ [last])) es)
    | some _ => none

/-- Gives a value to a key. The tables that a dotted key leads through must be made by dotted
keys. -/
def assign (path : KeyPath) (v : Item) (es : Entries) : Option Entries :=
  under true
    (fun kind es => if path.parents = [] ∨ kind = .dotted then add path.name v es else none)
    path.parents .header es

/-- Opens a table with a header. -/
def openTable (path : KeyPath) (es : Entries) : Option Entries :=
  under false
    (fun _ es =>
      match es.lookup path.name with
      | none => some (es ++ [(path.name, .table .header [])])
      | some (.table .onTheWay sub) => some (replace path.name (.table .header sub) es)
      | some _ => none)
    path.parents .header es

/-- Opens one more table of those with this name. -/
def openElement (path : KeyPath) (es : Entries) : Option Entries :=
  under false
    (fun _ es =>
      match es.lookup path.name with
      | none => some (es ++ [(path.name, .tables [[]])])
      | some (.tables elements) => some (replace path.name (.tables (elements ++ [[]])) es)
      | some _ => none)
    path.parents .header es

end Entries

end BlockPool.Toml
