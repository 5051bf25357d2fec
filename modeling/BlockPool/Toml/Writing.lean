import BlockPool.Toml.Form

/-! Writing strings, booleans and numbers. Every text can be written; of the four forms the first
one is chosen that needs no escape, or else a basic one. -/

namespace BlockPool.Toml

/-- The controls that no form without escapes can hold. -/
def isControl (c : Char) : Bool := (decide (c < ' ') && c ≠ '\t' && c ≠ '\n') || c = '\x7f'

/-- The length of the longest run of a character, of which `run` stand in front already. -/
def longestRun (x : Char) (run : Nat) : List Char → Nat
  | [] => run
  | c :: rest => if c = x then longestRun x (run + 1) rest else max run (longestRun x 0 rest)

/-- The form in which a text is written. -/
def Form.of (s : List Char) : Form :=
  let control := s.any isControl
  let backslash := s.contains '\\'
  let broken := s.contains '\n'
  let doubles := longestRun '"' 0 s
  let singles := longestRun '\'' 0 s
  if !control && !backslash && doubles = 0 && !broken then .basic
  else if !control && singles = 0 && !broken then .literal
  else if !control && !backslash && doubles ≤ 2 then .basicLines
  else if !control && singles ≤ 2 then .literalLines
  else if broken then .basicLines
  else .basic

/-- Two hexadecimal digits in upper case. -/
def hexPair (n : Nat) : List Char :=
  [(Nat.digitChar (n / 16)).toUpper, (Nat.digitChar (n % 16)).toUpper]

/-- A character of a basic form, the quote and the line break apart. -/
def escapeChar (c : Char) : List Char :=
  if c = '\x08' then ['\\', 'b']
  else if c = '\t' then ['\\', 't']
  else if c = '\x0c' then ['\\', 'f']
  else if c = '\r' then ['\\', 'r']
  else if c = '\\' then ['\\', '\\']
  else if isControl c then ['\\', 'u', '0', '0'] ++ hexPair c.toNat
  else [c]

/-- The text of a basic string. -/
def writeBasic (s : List Char) : List Char :=
  s.flatMap fun c =>
    if c = '"' then ['\\', '"'] else if c = '\n' then ['\\', 'n'] else escapeChar c

/-- The text of a basic string of several lines, `run` quotes being written in front of it. The
third quote in a row is escaped. -/
def writeBasicLines (run : Nat) : List Char → List Char
  | [] => []
  | c :: rest =>
    if c = '"' then
      if run = 2 then ['\\', '"'] ++ writeBasicLines 0 rest
      else '"' :: writeBasicLines (run + 1) rest
    else if c = '\n' then '\n' :: writeBasicLines 0 rest
    else escapeChar c ++ writeBasicLines 0 rest

/-- A text between the marks of a form. -/
def Form.write (f : Form) (s : List Char) : List Char :=
  f.delimiter ++ (if f.multiline && s.contains '\n' then ['\n'] else []) ++
    (match f with
      | basic => writeBasic s
      | basicLines => writeBasicLines 0 s
      | literal | literalLines => s) ++
    f.delimiter

def writeString (s : List Char) : List Char := (Form.of s).write s

def writeNat (n : Nat) : List Char := Nat.toDigits 10 n

def writeBool (b : Bool) : List Char :=
  if b then ['t', 'r', 'u', 'e'] else ['f', 'a', 'l', 's', 'e']

/-- A line that gives a value, as it is written, to a key. -/
def writeLine (key value : List Char) : List Char := key ++ [' ', '=', ' '] ++ value ++ ['\n']

end BlockPool.Toml
