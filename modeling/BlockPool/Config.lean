import BlockPool.Error
import BlockPool.Text.Blank

/-! The settings of a pool. A pool has a label, an optional limit on the size of its blocks and a
switch that makes it refuse the blocks of other pools. No pool works with a blank label or with a
limit of zero, so `Config.check` refuses both, the label first. -/

namespace BlockPool

structure Config where
  /-- The label that stands in front of every record of the pool. -/
  name : String := "memcache"
  /-- The largest size that the pool hands out; none for no limit. -/
  maxBlockSize : Option Nat := none
  /-- Refuse blocks of other pools. -/
  verifyOwner : Bool := true
  deriving DecidableEq, Repr, Inhabited

namespace Config

/-- The settings where nothing was asked for. -/
def standard : Config := {}

def named (name : String) : Config := { name }

/-- What can be wrong with settings or with the text that they come from. -/
inductive Problem
  /-- The text is no TOML document, or a setting in it has the wrong type. -/
  | malformed
  | blankName
  | zeroLimit
  /-- The file at `path` could not be read, for the reason given. -/
  | unreadable (path reason : String)
  deriving DecidableEq, Repr, Inhabited

def Problem.text : Problem → String
  | malformed => "<toml>"
  | blankName => "name must not be empty"
  | zeroLimit => "max_block_size must be greater than zero"
  | unreadable path reason => path ++ ": " ++ reason

def Problem.toError (p : Problem) : Error := .invalidConfig p.text

/-- The first thing that makes settings unfit for any pool. -/
def problem? (c : Config) : Option Problem :=
  if Text.trim c.name.toList = [] then some .blankName
  else if c.maxBlockSize = some 0 then some .zeroLimit
  else none

/-- Settings that a pool can work with, or what is wrong with them. -/
def check (c : Config) : Except Problem Config :=
  match c.problem? with
  | some p => .error p
  | none => .ok c

/-- Why a pool with these settings never hands out a block of this size. -/
def refusal? (c : Config) (size : Nat) : Option Error :=
  if size = 0 then some .zeroSize
  else
    match c.maxBlockSize with
    | some limit => if limit < size then some (.tooLarge size limit) else none
    | none => none

def inspect (c : Config) : String :=
  "MemCacheConfig \x7b name: " ++ Text.quote c.name ++ ", max_block_size: " ++
    (match c.maxBlockSize with
      | some limit => "Some(" ++ toString limit ++ ")"
      | none => "None") ++
    ", verify_owner: " ++ (if c.verifyOwner then "true" else "false") ++ " \x7d"

theorem check_eq_ok_iff {c d : Config} : c.check = .ok d ↔ c.problem? = none ∧ d = c := by
  unfold check
  cases c.problem? <;> simp [eq_comm]

theorem refusal?_eq_none_iff {c : Config} {size : Nat} :
    c.refusal? size = none ↔ 0 < size ∧ ∀ limit, c.maxBlockSize = some limit → size ≤ limit := by
  unfold refusal?
  split
  · simp_all
  · split <;> simp_all <;> omega

end Config

end BlockPool
