import BlockPool.Toml.Reader

/-! Numbers. Digits may be set apart by single underscores. Integers have 64 bits and a sign; only
decimal ones may be written with the sign. A float has a fraction or an exponent or both, or is one
of the words for infinity and for no number at all. -/

namespace BlockPool.Toml

open Reader

/-- The digits at the front of the input, without the single underscores between them, and the
rest. -/
def digitRun (p : Char → Bool) : List Char → List Char × List Char
  | [] => ([], [])
  | c :: rest =>
    if p c then
      let (ds, rest) := digitRun p rest
      (c :: ds, rest)
    else if c = '_' && rest.head?.any p then digitRun p rest
    else ([], c :: rest)

/-- At least one digit, with any number of zeros in front. -/
def digits (p : Char → Bool) : Reader (List Char) := do
  let d ← one p
  let ds ← fun s => some (digitRun p s)
  pure (d :: ds)

/-- Decimal digits without needless zeros in front: a zero is followed by no other digit. -/
def wholeDigits : Reader (List Char) := do
  let d ← one isDigit
  if d = '0' then pure [d]
  else
    let ds ← fun s => some (digitRun isDigit s)
    pure (d :: ds)

/-- An optional sign; answers whether it is a minus. -/
def sign : Reader Bool := (do char '-'; pure true) <|> (do let _ ← optional (char '+'); pure false)

/-- Whether an integer fits 64 bits with a sign. -/
def fits (n : Int) : Bool :=
  decide (-9223372036854775808 ≤ n) && decide (n ≤ 9223372036854775807)

/-- An integer in another base, after its mark. -/
def based (mark : List Char) (base : Nat) (p : Char → Bool) : Reader Int := do
  word mark
  let ds ← digits p
  let n : Int := numeral base ds
  guard (fits n)
  pure n

def decimal : Reader Int := do
  let negative ← sign
  let ds ← wholeDigits
  let n : Int := if negative then -numeral 10 ds else numeral 10 ds
  guard (fits n)
  pure n

def integer : Reader Int :=
  based ['0', 'x'] 16 isHexDigit <|>
  based ['0', 'o'] 8 (fun c => decide ('0' ≤ c) && decide (c ≤ '7')) <|>
  based ['0', 'b'] 2 (fun c => c = '0' || c = '1') <|>
  decimal

/-- Whether a decimal number is too large for a float of 64 bits: it is at least halfway between the
largest one and the next power of two. The digits are `ds`, with the point after them moved to the
right by `shift` places. -/
def overflows (ds : List Char) (shift : Int) : Bool :=
  let ds := ds.dropWhile (· = '0')
  let places := ds.length + shift
  let bound := Nat.pow 2 1024 - Nat.pow 2 970
  if ds.isEmpty || decide (places < 309) then false
  else if 309 < places then true
  else if 0 ≤ shift then decide (bound ≤ numeral 10 ds * Nat.pow 10 shift.toNat)
  else decide (bound * Nat.pow 10 (-shift).toNat ≤ numeral 10 ds)

def fraction : Reader (List Char) := do
  char '.'
  digits isDigit

def exponent : Reader Int := do
  let _ ← one fun c => c = 'e' || c = 'E'
  let negative ← sign
  let ds ← digits isDigit
  pure (if negative then -numeral 10 ds else numeral 10 ds)

/-- A float. Its value is not kept; one beyond the largest positive number is declined. -/
def float : Reader Unit := do
  let negative ← sign
  word ['i', 'n', 'f'] <|> word ['n', 'a', 'n'] <|> do
    let whole ← wholeDigits
    let frac ← optional fraction
    let exp ← optional exponent
    guard (frac.isSome || exp.isSome)
    let places := frac.getD []
    guard (negative || !overflows (whole ++ places) (exp.getD 0 - places.length))

end BlockPool.Toml
