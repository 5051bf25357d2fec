import BlockPool.Chunk

/-! Free lists: chunks that wait for the next request, the last one parked being the first one
taken. The length is kept beside the chain, so that it can be asked for without walking. -/

namespace BlockPool

structure FreeList where
  /-- The parked chunks, the last one parked in front. -/
  chain : List Chunk := []
  len : Nat := 0
  deriving DecidableEq, Inhabited

namespace FreeList

/-- Whether the chain is empty; the length is not looked at. -/
def isEmpty (l : FreeList) : Bool := l.chain.isEmpty

def push (l : FreeList) (c : Chunk) : FreeList := { chain := c :: l.chain, len := l.len + 1 }

/-- The chunk in front and the list without it. -/
def pop? (l : FreeList) : Option (Chunk × FreeList) :=
  match l.chain with
  | [] => none
  | c :: rest => some (c, { chain := rest, len := l.len - 1 })

theorem pop?_eq_none_iff {l : FreeList} : l.pop? = none ↔ l.chain = [] := by
  unfold pop?
  split <;> simp_all

theorem chain_of_pop? {l rest : FreeList} {c : Chunk} (h : l.pop? = some (c, rest)) :
    l.chain = c :: rest.chain := by
  unfold pop? at h
  split at h <;> grind

/-- Takes chunks off one at a time until none is left. Answers them in the order in which they came
off, after those in `gone`, with the list that remains. -/
def popAll (l : FreeList) (gone : List Chunk) : List Chunk × FreeList :=
  match _h : l.pop? with
  | none => (gone.reverse, l)
  | some (c, rest) => rest.popAll (c :: gone)
termination_by l.chain.length
decreasing_by simp [chain_of_pop? _h]

/-- Gives every chunk back to the heap. Answers how many there were by the length on record. -/
def releaseAll (l : FreeList) : Nat × FreeList := (l.len, (l.popAll []).2)

@[simp] theorem chain_push (l : FreeList) (c : Chunk) : (l.push c).chain = c :: l.chain := rfl

@[simp] theorem len_push (l : FreeList) (c : Chunk) : (l.push c).len = l.len + 1 := rfl

@[simp] theorem pop?_push (l : FreeList) (c : Chunk) : (l.push c).pop? = some (c, l) := rfl

theorem popAll_fst (l : FreeList) (gone : List Chunk) :
    (l.popAll gone).1 = gone.reverse ++ l.chain := by
  fun_induction popAll l gone with
  | case1 l gone h => simp [pop?_eq_none_iff.mp h]
  | case2 l gone c rest h ih => simp [ih, chain_of_pop? h]

theorem chain_popAll (l : FreeList) (gone : List Chunk) : (l.popAll gone).2.chain = [] := by
  fun_induction popAll l gone with
  | case1 l gone h => exact pop?_eq_none_iff.mp h
  | case2 l gone c rest h ih => exact ih

end FreeList

end BlockPool
