import BlockPool.Toml.Form
import BlockPool.Toml.Moment
import BlockPool.Toml.Number
import BlockPool.Toml.Table

/-! Documents. A document is a sequence of lines; each opens a table, gives a value to a key, or
does nothing. Values nest to a fixed depth, and keys have a fixed number of parts at most. -/

namespace BlockPool.Toml

open Reader

/-- How deep arrays and tables between braces may nest. -/
def maxDepth : Nat := 79

/-- How many parts a dotted key may have. -/
def maxParts : Nat := 79

def isBare (c : Char) : Bool :=
  (decide ('a' ≤ c) && decide (c ≤ 'z')) || (decide ('A' ≤ c) && decide (c ≤ 'Z')) || isDigit c ||
    c = '_' || c = '-'

/-- A key without quotes. -/
def bareKey : Reader Key := do
  let c ← one isBare
  let cs ← run isBare
  pure (c :: cs)

/-- One part of a key, with the blanks around it. -/
def keyPart : Reader Key := do
  spaces
  let k ← Form.basic.reader <|> Form.literal.reader <|> bareKey
  spaces
  pure k

/-- A key of one part or of several with dots between them. -/
def keyPath : Reader KeyPath := do
  let first ← keyPart
  let others ← manyUpTo (do char '.'; keyPart) (maxParts - 1)
  pure { parents := (first :: others).dropLast, name := others.getLastD first }

/-- A value that holds no other. -/
def scalar : Reader Item :=
  Item.string <$> quoted <|>
  (do word ['t', 'r', 'u', 'e']; pure (.boolean true)) <|>
  (do word ['f', 'a', 'l', 's', 'e']; pure (.boolean false)) <|>
  (do moment; pure .moment) <|>
  (do float; pure .float) <|>
  Item.integer <$> integer

/-- Items between brackets, with commas between them and perhaps one after the last. -/
def array (item : Reader Item) : Reader Item := do
  char '['
  gap
  (do char ']'; pure (.array [])) <|> do
    let first ← item
    gap
    let others ← many do
      char ','
      gap
      let a ← item
      gap
      pure a
    let _ ← optional (char ',')
    gap
    char ']'
    pure (.array (first :: others))

/-- A key and its value between braces. -/
def pair (item : Reader Item) : Reader (KeyPath × Item) := do
  let path ← keyPath
  char '='
  spaces
  let v ← item
  spaces
  pure (path, v)

/-- Pairs between braces, on one line, with commas between them and none after the last. -/
def inlineTable (item : Reader Item) : Reader Item := do
  char '\x7b'
  let pairs ← (do
    let first ← pair item
    let others ← many do
      char ','
      pair item
    pure (first :: others)) <|> pure []
  spaces
  char '\x7d'
  match pairs.foldlM (fun es (path, v) => Entries.assign path v es) [] with
  | some es => pure (.table .inline es)
  | none => failure

/-- A value in which others nest to the depth given. -/
def value : Nat → Reader Item
  | 0 => scalar
  | depth + 1 => array (value depth) <|> inlineTable (value depth) <|> scalar

/-- A document so far, with the path of the table that was opened last. -/
structure Draft where
  entries : Entries := []
  cursor : List Key := []
  deriving Inhabited

namespace Draft

/-- Gives a value to a key of the table that is open. -/
def assign (d : Draft) (path : KeyPath) (v : Item) : Option Draft := do
  let entries ← Entries.under false (fun _ es => es.assign path v) d.cursor .header d.entries
  some { d with entries }

def openTable (d : Draft) (path : KeyPath) : Option Draft := do
  let entries ← d.entries.openTable path
  some { entries, cursor := path.parents ++ [path.name] }

def openElement (d : Draft) (path : KeyPath) : Option Draft := do
  let entries ← d.entries.openElement path
  some { entries, cursor := path.parents ++ [path.name] }

end Draft

/-- A header, in two brackets for one more table of the same name. -/
def header (d : Draft) : Reader Draft :=
  (do
    word ['[', '[']
    let path ← keyPath
    word [']', ']']
    liftM (d.openElement path)) <|>
  (do
    char '['
    let path ← keyPath
    char ']'
    liftM (d.openTable path))

def assignment (d : Draft) : Reader Draft := do
  let path ← keyPath
  char '='
  spaces
  let v ← value maxDepth
  liftM (d.assign path v)

def line (d : Draft) : Reader Draft := do
  spaces
  let d ← header d <|> assignment d <|> pure d
  lineEnd
  pure d

/-- The rest of a document. A line takes at least one character. -/
def lines : Nat → Draft → Reader Draft
  | 0, d => do
    atEnd
    pure d
  | n + 1, d =>
    (do
      atEnd
      pure d) <|> do
    let d ← line d
    lines n d

/-- The entries of the document that a text is, unless it is none. A byte order mark in front is no
part of the document. -/
def parse? (text : List Char) : Option Entries :=
  let s := match text with
    | '\ufeff' :: rest => rest
    | _ => text
  (lines s.length {} s).map fun (d, _) => d.entries

end BlockPool.Toml
