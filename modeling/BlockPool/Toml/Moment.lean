import BlockPool.Toml.Reader

/-! Dates and times: a date, a time of day, or both, and then perhaps with the offset from universal
time. Only what exists on the calendar and on the clock is read, a leap second included. -/

namespace BlockPool.Toml

open Reader

def isLeapYear (y : Nat) : Bool := y % 4 = 0 && (y % 100 ≠ 0 || y % 400 = 0)

def daysInMonth (y m : Nat) : Nat :=
  if m = 2 then if isLeapYear y then 29 else 28
  else if m = 4 || m = 6 || m = 9 || m = 11 then 30
  else 31

/-- A number of exactly `n` digits. -/
def fixed (n : Nat) : Reader Nat := do
  let ds ← exactly n isDigit
  pure (numeral 10 ds)

def date : Reader Unit := do
  let y ← fixed 4
  char '-'
  let m ← fixed 2
  char '-'
  let d ← fixed 2
  guard (1 ≤ m && m ≤ 12 && 1 ≤ d && d ≤ daysInMonth y m)

def hourMinute : Reader Unit := do
  let h ← fixed 2
  char ':'
  let m ← fixed 2
  guard (h ≤ 23 && m ≤ 59)

def time : Reader Unit := do
  hourMinute
  char ':'
  let s ← fixed 2
  guard (s ≤ 60)
  let _ ← optional do
    char '.'
    let _ ← one isDigit
    run isDigit

def offset : Reader Unit :=
  char 'Z' <|> char 'z' <|> do
    let _ ← one fun c => c = '+' || c = '-'
    hourMinute

/-- A date, a time, or both. What they say is not kept. -/
def moment : Reader Unit :=
  (do
    date
    let _ ← optional do
      let _ ← one fun c => c = 'T' || c = 't' || c = ' '
      time
      let _ ← optional offset) <|> time

end BlockPool.Toml
