import BlockPool.SizeClass

/-! The table of the size classes of one pool. The classes live in numbered slots, so a chunk can
name its class by a plain number; the index, ascending in size, only translates sizes into slots.
A slot whose class was erased is vacant, and the slot vacated last is the first to be used again. -/

namespace BlockPool

/-- How a chunk was found for a request. -/
inductive Supply
  | hit
  /-- None was parked; `isNew` when the size had no class either. -/
  | miss (isNew : Bool)
  deriving DecidableEq, Repr, Inhabited

/-- A parked chunk is a hit, whether or not its class is new. -/
def Supply.of (origin : Origin) (isNew : Bool) : Supply :=
  match origin with
  | .cached => .hit
  | .fresh => .miss isNew

/-- What emptying the free lists of a table did. -/
structure Drained where
  chunks : Nat := 0
  classes : Nat := 0
  deriving DecidableEq, Repr, Inhabited

structure ClassTable where
  /-- The slot of every size that has a class, ascending in size. -/
  index : List (Nat × Slot) := []
  slots : Array (Option SizeClass) := #[]
  /-- The slots without a class, the one vacated last in front. -/
  vacant : List Slot := []
  deriving DecidableEq, Inhabited

namespace ClassTable

def size (t : ClassTable) : Nat := t.index.length

/-- The sizes that have a class, ascending. -/
def sizes (t : ClassTable) : List Nat := t.index.map (·.1)

def find? (t : ClassTable) (size : Nat) : Option Slot := t.index.lookup size

def contains (t : ClassTable) (size : Nat) : Bool := (t.find? size).isSome

/-- The class that lives in a slot. -/
def class? (t : ClassTable) (slot : Slot) : Option SizeClass := t.slots[slot]?.join

/-- The table with a class in a slot that it already has. -/
def setClass (t : ClassTable) (slot : Slot) (c : SizeClass) : ClassTable :=
  { t with slots := t.slots.setIfInBounds slot (some c) }

/-- The index with an entry put where its size belongs. -/
def insertEntry (entry : Nat × Slot) : List (Nat × Slot) → List (Nat × Slot)
  | [] => [entry]
  | e :: rest => if entry.1 < e.1 then entry :: e :: rest else e :: insertEntry entry rest

/-- The slot of the class for a size, made now if there is none; the flag says whether it was. -/
def ensure (t : ClassTable) (size : Nat) : Slot × Bool × ClassTable :=
  match t.find? size with
  | some slot => (slot, false, t)
  | none =>
    match t.vacant with
    | slot :: vacant =>
      (slot, true,
        { index := insertEntry (size, slot) t.index
          slots := t.slots.setIfInBounds slot (some { slot, capacity := size })
          vacant })
    | [] =>
      let slot := t.slots.size
      (slot, true,
        { t with
          index := insertEntry (size, slot) t.index
          slots := t.slots.push (some { slot, capacity := size }) })

/-- Takes the class for a size out of the table, whatever it holds, and vacates its slot. -/
def erase (t : ClassTable) (size : Nat) : Option SizeClass × ClassTable :=
  match t.find? size with
  | none => (none, t)
  | some slot =>
    (t.class? slot,
      { index := t.index.filter (·.1 ≠ size)
        slots := t.slots.setIfInBounds slot none
        vacant := slot :: t.vacant })

/-- Hands out a chunk of this size from its class, which is made if need be. When the heap refuses,
a class made for this request is erased again. -/
def checkout (t : ClassTable) (heap : Heap) (size : Nat) :
    Option (Chunk × Supply) × ClassTable × Heap :=
  let (slot, isNew, t) := t.ensure size
  match (t.class? slot).bind (·.checkout? heap) with
  | some out =>
    (some (out.chunk, .of out.origin isNew), t.setClass slot out.sizeClass, out.heap)
  | none => (none, if isNew then (t.erase size).2 else t, heap)

/-- Parks a chunk in the class that it names, if that class is there; answers the class as it is
afterwards. -/
def checkin? (t : ClassTable) (chunk : Chunk) : Option (SizeClass × ClassTable) :=
  (t.class? chunk.owner).map fun c =>
    let c := c.checkin chunk
    (c, t.setClass chunk.owner c)

/-- Gives the parked chunks of one class back to the heap, and answers how many there were. -/
def drainClass? (t : ClassTable) (slot : Slot) : Option (Nat × ClassTable) :=
  (t.class? slot).map fun c =>
    let (freed, c) := c.drain
    (freed, t.setClass slot c)

/-- Drains the classes of these entries in turn and erases those left with no chunk, if
`eraseVacant` is set. The entries that stay become the index of the table. -/
def drainEntries (eraseVacant : Bool) :
    List (Nat × Slot) → ClassTable → Drained × ClassTable
  | [], t => ({}, { t with index := [] })
  | (size, slot) :: rest, t =>
    match t.class? slot with
    | none => drainEntries eraseVacant rest t
    | some c =>
      let (freed, c) := c.drain
      if eraseVacant && c.isVacant then
        let (d, t) := drainEntries eraseVacant rest
          { t with slots := t.slots.setIfInBounds slot none, vacant := slot :: t.vacant }
        ({ chunks := freed + d.chunks, classes := d.classes + 1 }, t)
      else
        let (d, t) := drainEntries eraseVacant rest (t.setClass slot c)
        ({ d with chunks := freed + d.chunks }, { t with index := (size, slot) :: t.index })

/-- Gives every parked chunk back to the heap, in ascending order of size. -/
def drain (t : ClassTable) (eraseVacant : Bool) : Drained × ClassTable :=
  drainEntries eraseVacant t.index t

/-- The classes in ascending order of size. -/
def classes (t : ClassTable) : List SizeClass :=
  t.index.filterMap fun (_, slot) => t.class? slot

/-- Takes every class out, in ascending order of size. What stays is a table without slots. -/
def takeAll (t : ClassTable) : List SizeClass × ClassTable := (t.classes, {})

/-- The books of all classes, in ascending order of size. -/
def toReceipt (t : ClassTable) : Receipt := { lines := t.classes.map (·.toLine) }

@[simp] theorem class?_empty (slot : Slot) : ({} : ClassTable).class? slot = none := rfl

@[simp] theorem index_setClass (t : ClassTable) (slot : Slot) (c : SizeClass) :
    (t.setClass slot c).index = t.index := rfl

theorem class?_setClass {t : ClassTable} {slot other : Slot} {c old : SizeClass}
    (h : t.class? slot = some old) :
    (t.setClass slot c).class? other = if other = slot then some c else t.class? other := by
  have hs : slot < t.slots.size := by
    by_cases hs : slot < t.slots.size
    · exact hs
    · simp [class?, Array.getElem?_eq_none (Nat.le_of_not_lt hs)] at h
  by_cases ho : other = slot
  · subst ho; simp [class?, setClass, hs]
  · simp [class?, setClass, ho, Array.getElem?_setIfInBounds_ne (Ne.symm ho)]

theorem mem_insertEntry {e entry : Nat × Slot} {index : List (Nat × Slot)} :
    e ∈ insertEntry entry index ↔ e = entry ∨ e ∈ index := by
  induction index with
  | nil => simp [insertEntry]
  | cons d rest ih =>
    by_cases h : entry.1 < d.1
    · simp [insertEntry, h]
    · simp only [insertEntry, h, if_false, List.mem_cons, ih]
      exact or_left_comm

end ClassTable

end BlockPool
