import BlockPool.Toml.Reader

/-! The written forms of strings. A string stands between marks, one or three at each end; with
three it may run over several lines. Between double quotes a backslash opens an escape, between
single quotes every character stands for itself. -/

namespace BlockPool.Toml

inductive Form
  | basic
  | literal
  | basicLines
  | literalLines
  deriving DecidableEq, Repr, Inhabited

namespace Form

def mark : Form → Char
  | basic | basicLines => '"'
  | literal | literalLines => '\''

/-- Whether a backslash opens an escape. -/
def escapes : Form → Bool
  | basic | basicLines => true
  | literal | literalLines => false

/-- Whether the string may run over several lines. -/
def multiline : Form → Bool
  | basic | literal => false
  | basicLines | literalLines => true

/-- What opens and closes the string. -/
def delimiter (f : Form) : List Char := List.replicate (if f.multiline then 3 else 1) f.mark

end Form

/-- The character that the first `n` hexadecimal digits name, and how many characters spell it
together with the letter in front of them. -/
def codePoint? (n : Nat) (s : List Char) : Option (Char × Nat) :=
  let digits := s.take n
  let value := numeral 16 digits
  if digits.length = n && digits.all isHexDigit && decide value.isValidChar then
    some (Char.ofNat value, n + 1)
  else none

/-- The character that an escape names, given what follows the backslash, and how many characters
after the backslash spell it. -/
def escape? : List Char → Option (Char × Nat)
  | 'b' :: _ => some ('\x08', 1)
  | 't' :: _ => some ('\t', 1)
  | 'n' :: _ => some ('\n', 1)
  | 'f' :: _ => some ('\x0c', 1)
  | 'r' :: _ => some ('\r', 1)
  | '"' :: _ => some ('"', 1)
  | '\\' :: _ => some ('\\', 1)
  | 'u' :: rest => codePoint? 4 rest
  | 'U' :: rest => codePoint? 8 rest
  | _ => none

/-- The input without the blanks and line breaks in front. -/
def skipBreaks : List Char → List Char
  | [] => []
  | '\r' :: '\n' :: rest => skipBreaks rest
  | c :: rest => if isSpace c || c = '\n' then skipBreaks rest else c :: rest

theorem length_skipBreaks_le (s : List Char) : (skipBreaks s).length ≤ s.length := by
  fun_induction skipBreaks s <;> grind

/-- What follows a backslash at the end of a line, from the next text on. -/
def afterLine? (s : List Char) : Option (List Char) :=
  match s.dropWhile isSpace with
  | '\n' :: rest => some (skipBreaks rest)
  | '\r' :: '\n' :: rest => some (skipBreaks rest)
  | _ => none

theorem length_dropWhile_le {p : Char → Bool} (s : List Char) :
    (s.dropWhile p).length ≤ s.length := (List.dropWhile_sublist p).length_le

theorem length_afterLine?_le {s rest : List Char} (h : afterLine? s = some rest) :
    rest.length ≤ s.length := by
  have hd := length_dropWhile_le (p := isSpace) s
  unfold afterLine? at h
  split at h
  · next r hr => have := length_skipBreaks_le r; grind
  · next r hr => have := length_skipBreaks_le r; grind
  · simp at h

/-- A character in front of what was read. -/
def prepend (c : Char) : List Char × List Char → List Char × List Char
  | (s, rest) => (c :: s, rest)

/-- The text of a string after its opening marks, and what follows its closing ones. In the forms
with three marks, up to two marks in a row are text; of a longer run the last three close the
string, and at most two stand before them. -/
def body (f : Form) : List Char → Option (List Char × List Char)
  | [] => none
  | c :: rest =>
    if c = f.mark then
      if f.multiline then
        let marks := (rest.takeWhile (· = f.mark)).length + 1
        if 3 ≤ marks then
          some (List.replicate (min (marks - 3) 2) f.mark, (c :: rest).drop (min marks 5))
        else (body f rest).map (prepend c)
      else some ([], rest)
    else if c = '\\' && f.escapes then
      match _h : if f.multiline then afterLine? rest else none with
      | some rest => body f rest
      | none =>
        match escape? rest with
        | some (d, n) => (body f (rest.drop n)).map (prepend d)
        | none => none
    else if c = '\r' && f.multiline && rest.head? = some '\n' then body f rest
    else if isPlain c || (c = '\n' && f.multiline) then (body f rest).map (prepend c)
    else none
termination_by s => s.length
decreasing_by
  all_goals simp only [List.length_cons, List.length_drop]
  · omega
  · split at _h
    · have := length_afterLine?_le _h; omega
    · simp at _h
  all_goals omega

namespace Form

/-- A string in this form. A line break right after three opening marks is no part of it. -/
def reader (f : Form) : Reader (List Char) := do
  Reader.word f.delimiter
  if f.multiline then
    let _ ← optional newline
  fun s => body f s

end Form

/-- A string in any form; three marks are tried before one. -/
def quoted : Reader (List Char) :=
  Form.basicLines.reader <|> Form.literalLines.reader <|> Form.basic.reader <|> Form.literal.reader

end BlockPool.Toml
