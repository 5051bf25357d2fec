/-! Readers of TOML text. A reader takes what it understands from the front of the input and leaves
the rest, or declines, and then nothing counts as read. -/

namespace BlockPool.Toml

abbrev Reader := StateT (List Char) Option

namespace Reader

variable {α : Type}

/-- One character with a property. -/
def one (p : Char → Bool) : Reader Char := fun s =>
  match s with
  | [] => none
  | c :: rest => if p c then some (c, rest) else none

/-- Exactly these characters. -/
def word (w : List Char) : Reader Unit := fun s =>
  if w.isPrefixOf s then some ((), s.drop w.length) else none

def char (c : Char) : Reader Unit := word [c]

/-- The longest run of characters with a property; it may be empty. -/
def run (p : Char → Bool) : Reader (List Char) := fun s => some (s.takeWhile p, s.dropWhile p)

/-- Exactly `n` characters with a property. -/
def exactly (n : Nat) (p : Char → Bool) : Reader (List Char) := fun s =>
  let front := s.take n
  if front.length = n && front.all p then some (front, s.drop n) else none

/-- The end of the input. -/
def atEnd : Reader Unit := fun s =>
  match s with
  | [] => some ((), [])
  | _ :: _ => none

/-- At most so many items in a row, up to the first place where the reader declines. -/
def manyUpTo (item : Reader α) : Nat → Reader (List α)
  | 0 => pure []
  | n + 1 =>
    (do
      let a ← item
      let as ← manyUpTo item n
      pure (a :: as)) <|> pure []

/-- As many items in a row as there are. An item takes at least one character, so the length of the
input bounds their number. -/
def many (item : Reader α) : Reader (List α) := fun s => manyUpTo item s.length s

end Reader

/-- The blanks inside a line. -/
def isSpace (c : Char) : Bool := c = ' ' || c = '\t'

/-- Characters that stand for themselves in comments and strings: all but the controls, of which
only the tab is allowed. -/
def isPlain (c : Char) : Bool := c = '\t' || (decide (' ' ≤ c) && c ≠ '\x7f')

def isDigit (c : Char) : Bool := decide ('0' ≤ c) && decide (c ≤ '9')

def isHexDigit (c : Char) : Bool :=
  isDigit c || (decide ('a' ≤ c) && decide (c ≤ 'f')) || (decide ('A' ≤ c) && decide (c ≤ 'F'))

/-- The value of a digit of any base up to sixteen. -/
def digitValue (c : Char) : Nat :=
  if isDigit c then c.toNat - '0'.toNat
  else if 'a' ≤ c then c.toNat - 'a'.toNat + 10
  else c.toNat - 'A'.toNat + 10

/-- The number that digits denote, the most significant one in front. -/
def numeral (base : Nat) (digits : List Char) : Nat :=
  digits.foldl (fun n d => n * base + digitValue d) 0

open Reader

def spaces : Reader Unit := do
  let _ ← run isSpace

/-- A line break in either of its two forms. A carriage return alone is none. -/
def newline : Reader Unit := char '\n' <|> word ['\r', '\n']

def comment : Reader Unit := do
  char '#'
  let _ ← run isPlain

/-- What may stand between the end of an expression and the next line. -/
def lineEnd : Reader Unit := do
  spaces
  let _ ← optional comment
  newline <|> atEnd

/-- Blanks, line breaks and comments between the elements of an array. -/
def gap : Reader Unit := do
  let _ ← many ((do let _ ← one isSpace) <|> newline <|> comment)

end BlockPool.Toml
