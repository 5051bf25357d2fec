import BlockPool.Proofs.ClassTable

/-! Free lists as they lie in memory: every parked chunk carries a link to the one that was parked before it,
and the list knows the first of them. Such a list does what the list of its chunks does, and a chunk that
comes off it has no link any more. -/

namespace BlockPool

namespace FreeList

variable {l rest : FreeList} {c : Chunk} {gone : List Chunk}

theorem popAll_eq_of_none (h : l.pop? = none) : l.popAll gone = (gone.reverse, l) := by
  rw [popAll]
  split
  · rfl
  · next hpop => cases h.symm.trans hpop

theorem popAll_eq_of_some (h : l.pop? = some (c, rest)) :
    l.popAll gone = rest.popAll (c :: gone) := by
  rw [popAll]
  split
  · next hpop => cases h.symm.trans hpop
  · next hpop =>
    cases h.symm.trans hpop
    rfl

end FreeList

/-- A chunk with its link. -/
structure Node where
  chunk : Chunk
  /-- The node that was parked before this one; none while the chunk is in use. -/
  next : Option Node := none

mutual

/-- The chunk of a node and those that its links lead to. -/
def Node.chunks : Node → List Chunk
  | ⟨chunk, next⟩ => chunk :: chained next

/-- The chunks that a link leads to. -/
def chained : Option Node → List Chunk
  | none => []
  | some node => node.chunks

end

@[simp] theorem chained_none : chained none = [] := rfl

@[simp] theorem chained_some (node : Node) :
    chained (some node) = node.chunk :: chained node.next := by
  cases node
  rfl

/-- A free list that is held together by links. -/
structure NodeList where
  head : Option Node := none
  len : Nat := 0

namespace NodeList

/-- Whether there is no first node; the length is not looked at. -/
def isEmpty (l : NodeList) : Bool := l.head.isNone

/-- Parks a node in front. -/
def push (l : NodeList) (node : Node) : NodeList :=
  { head := some { node with next := l.head }, len := l.len + 1 }

/-- Takes off the node in front, and its link from it. -/
def pop? (l : NodeList) : Option (Node × NodeList) :=
  match l.head with
  | none => none
  | some node => some ({ node with next := none }, { head := node.next, len := l.len - 1 })

/-- The list without its links. -/
def toFreeList (l : NodeList) : FreeList := { chain := chained l.head, len := l.len }

theorem pop?_toFreeList (l : NodeList) :
    l.toFreeList.pop? = l.pop?.map fun out => (out.1.chunk, out.2.toFreeList) := by
  obtain ⟨_ | ⟨chunk, next⟩, len⟩ := l <;> rfl

theorem pop?_toFreeList_of_some {l rest : NodeList} {node : Node} (h : l.pop? = some (node, rest)) :
    l.toFreeList.pop? = some (node.chunk, rest.toFreeList) := by
  rw [pop?_toFreeList, h]
  rfl

theorem chained_of_pop? {l rest : NodeList} {node : Node} (h : l.pop? = some (node, rest)) :
    chained l.head = node.chunk :: chained rest.head :=
  FreeList.chain_of_pop? (pop?_toFreeList_of_some h)

theorem next_of_pop? {l rest : NodeList} {node : Node} (h : l.pop? = some (node, rest)) :
    node.next = none := by
  unfold pop? at h
  split at h
  · cases h
  · cases h
    rfl

/-- Takes nodes off one at a time until none is left. Answers them in the order in which they came off, after
those in `gone`, with the list that remains. -/
def popAll (l : NodeList) (gone : List Node) : List Node × NodeList :=
  match _h : l.pop? with
  | none => (gone.reverse, l)
  | some (node, rest) => rest.popAll (node :: gone)
termination_by (chained l.head).length
decreasing_by simp [chained_of_pop? _h]

/-- Frees every node. Answers how many there were by the length on record, which is read before the first
one goes. -/
def releaseAll (l : NodeList) : Nat × NodeList := (l.len, (l.popAll []).2)

theorem toFreeList_push (l : NodeList) (node : Node) :
    (l.push node).toFreeList = l.toFreeList.push node.chunk :=
  congrArg (FreeList.mk · _) (chained_some _)

theorem isEmpty_toFreeList (l : NodeList) : l.toFreeList.isEmpty = l.isEmpty := by
  obtain ⟨_ | ⟨chunk, next⟩, len⟩ := l <;> rfl

theorem popAll_toFreeList (l : NodeList) (gone : List Node) :
    l.toFreeList.popAll (gone.map (·.chunk)) =
      ((l.popAll gone).1.map (·.chunk), (l.popAll gone).2.toFreeList) := by
  fun_induction popAll l gone with
  | case1 l gone h =>
      have hpop : l.toFreeList.pop? = none := by
        rw [pop?_toFreeList, h]
        rfl
      rw [FreeList.popAll_eq_of_none hpop, List.map_reverse]
  | case2 l gone node rest h ih =>
      rw [← ih, FreeList.popAll_eq_of_some (pop?_toFreeList_of_some h)]
      rfl

theorem releaseAll_toFreeList (l : NodeList) :
    l.toFreeList.releaseAll = (l.releaseAll.1, l.releaseAll.2.toFreeList) :=
  congrArg (fun out => (l.len, out.2)) (l.popAll_toFreeList [])

theorem next_of_mem_popAll (l : NodeList) (gone : List Node) (hgone : ∀ node ∈ gone, node.next = none) :
    ∀ node ∈ (l.popAll gone).1, node.next = none := by
  fun_induction popAll l gone with
  | case1 l gone h => simpa using hgone
  | case2 l gone node rest h ih =>
      refine ih fun other hother => ?_
      rcases List.mem_cons.mp hother with rfl | hold
      · exact next_of_pop? h
      · exact hgone other hold

/-- Nothing is left of a list that lost its last node. -/
theorem eq_empty_of_toFreeList {l : NodeList} (h : l.toFreeList = {}) : l = {} := by
  obtain ⟨_ | node, len⟩ := l
  · cases congrArg FreeList.len h
    rfl
  · have hchain := congrArg FreeList.chain h
    rw [toFreeList, chained_some] at hchain
    cases hchain

/-- Chunks can be linked up. -/
theorem exists_toFreeList (l : FreeList) : ∃ linked : NodeList, linked.toFreeList = l := by
  obtain ⟨chain, len⟩ := l
  suffices h : ∃ head, chained head = chain by
    obtain ⟨head, rfl⟩ := h
    exact ⟨{ head, len }, rfl⟩
  induction chain with
  | nil => exact ⟨none, rfl⟩
  | cons chunk rest ih =>
      obtain ⟨next, rfl⟩ := ih
      exact ⟨some { chunk, next }, chained_some _⟩

/-- The list keeps the books of its nodes, does what the list of its chunks does, and gives its nodes back
one by one, without their links. -/
structure Exact (l : NodeList) : Prop where
  len_eq : l.len = (chained l.head).length
  isEmpty_iff : l.isEmpty = true ↔ l.len = 0
  push : ∀ node, (l.push node).toFreeList = l.toFreeList.push node.chunk ∧
    (l.push node).pop? = some ({ node with next := none }, l)
  pop : l.toFreeList.pop? = l.pop?.map fun out => (out.1.chunk, out.2.toFreeList)
  unlinked : ∀ node rest, l.pop? = some (node, rest) → node.next = none ∧ l.len = rest.len + 1
  popAll : (l.popAll []).1.map (·.chunk) = chained l.head ∧
    ∀ node ∈ (l.popAll []).1, node.next = none
  releaseAll : l.releaseAll = ((chained l.head).length, {})

theorem exact {l : NodeList} (h : l.toFreeList.Counted) : l.Exact := by
  have hlen : l.len = (chained l.head).length := h
  refine ⟨hlen, ?_, fun node => ⟨l.toFreeList_push node, rfl⟩, l.pop?_toFreeList,
    fun node rest hpop => ?_, ⟨?_, ?_⟩, ?_⟩
  · rw [hlen, ← isEmpty_toFreeList, FreeList.isEmpty, List.isEmpty_iff, List.length_eq_zero_iff]
    rfl
  · exact ⟨next_of_pop? hpop, (h.pop (pop?_toFreeList_of_some hpop)).2⟩
  · have hall := congrArg Prod.fst (l.popAll_toFreeList [])
    exact hall.symm.trans (l.toFreeList.popAll_fst [])
  · exact l.next_of_mem_popAll [] (by simp)
  · have hrelease := l.releaseAll_toFreeList
    rw [h.releaseAll] at hrelease
    exact Prod.ext hlen (eq_empty_of_toFreeList (congrArg Prod.snd hrelease).symm)

end NodeList

end BlockPool
