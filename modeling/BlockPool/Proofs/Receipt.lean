import BlockPool.Record
import Mathlib.Data.List.Sort
import Mathlib.Order.Basic

/-! The running receipt of a pool: what it has parked and what is in use of each size, as its own events
tell. An event is believed only in what it names, the size and the kind of supply; every number that it
gives besides can be checked against the receipt so far. The events of a pool are truthful if all of them
pass this check. -/

namespace BlockPool

namespace Receipt

/-! ### Lines -/

namespace Line

/-- A parked chunk was handed out. -/
def reused (l : Line) : Line := { l with cached := l.cached - 1, inUse := l.inUse + 1 }

/-- A fresh chunk was handed out. -/
def grown (l : Line) : Line := { l with inUse := l.inUse + 1 }

/-- A chunk came back and was parked. -/
def parked (l : Line) : Line := { l with cached := l.cached + 1, inUse := l.inUse - 1 }

/-- All parked chunks were given back. -/
def emptied (l : Line) : Line := { l with cached := 0 }

end Line

/-- The receipt with a line put where its size belongs. -/
def enter (r : Receipt) (line : Line) : Receipt :=
  { lines := r.lines.orderedInsert (fun l m => l.capacity ≤ m.capacity) line }

/-- The receipt with another line for one size. -/
def amend (r : Receipt) (size : Nat) (f : Line → Line) : Receipt :=
  { lines := r.lines.map fun l => if l.capacity = size then f l else l }

/-- The receipt with nothing parked, and without the sizes of which nothing is in use if they went. -/
def swept (r : Receipt) (idleGone : Bool) : Receipt :=
  let lines := r.lines.map Line.emptied
  { lines := if idleGone then lines.filter fun l => decide (l.inUse ≠ 0) else lines }

/-- How the next request for a size is supplied, if the heap grants it. -/
def supply (r : Receipt) (size : Nat) : Supply :=
  match r.find? size with
  | none => .miss true
  | some line => if 0 < line.cached then .hit else .miss false

/-! ### Events -/

/-- The receipt after an event. An event that tells of a clear does not say which kind of clear it was,
but classes are gone only if it was the kind that drops all idle ones. -/
def next (r : Receipt) : Event → Receipt
  | .supplied .hit size => r.amend size Line.reused
  | .supplied (.miss true) size => r.enter { capacity := size, cached := 0, inUse := 1 }
  | .supplied (.miss false) size => r.amend size Line.grown
  | .cached size _ => r.amend size Line.parked
  | .cleared drained _ => r.swept (decide (0 < drained.classes))
  | .created | .outOfMemory _ | .refused | .abandoned _ | .destroyed _ _ | .orphaned => r

/-- What the events of a pool add up to. -/
def rebuilt (events : List Event) : Receipt := events.foldl next {}

end Receipt

namespace Event

/-- A warning that blocks are in use. -/
def warns : Event → Bool
  | .abandoned _ => true
  | _ => false

/-- Every word and number of an event is right by the receipt up to it, after so many warnings that blocks
are in use. -/
def Agrees (r : Receipt) (warnings : Nat) : Event → Prop
  | .created => r = {}
  | .supplied supply size => supply = r.supply size
  | .outOfMemory size => r.supply size ≠ .hit
  | .cached size inUse => ∃ line, r.find? size = some line ∧ line.inUse = inUse + 1
  | .cleared drained remaining =>
    drained.chunks = r.totalCached ∧ drained.classes + remaining = r.count ∧
      remaining = (r.next (.cleared drained remaining)).count
  | .abandoned inUse => inUse = r.totalInUse ∧ 0 < inUse
  | .destroyed classes freed =>
    classes = r.count ∧ freed = r.totalCached ∧ warnings = if 0 < r.totalInUse then 1 else 0
  | .refused | .orphaned => True

/-- An event that changes no receipt and gives no number. -/
def Bare (event : Event) : Prop := event = .refused ∨ event = .orphaned

end Event

/-- Every event agrees with what the events before it add up to. -/
def Truthful (events : List Event) : Prop :=
  ∀ said event later, events = said ++ event :: later →
    event.Agrees (Receipt.rebuilt said) (said.countP Event.warns)

/-- What a pool said so far is true and adds up to this receipt, and so much of it warns of blocks in
use. -/
structure Chronicle (said : List Event) (r : Receipt) (warnings : Nat) : Prop where
  truthful : Truthful said
  rebuilt : Receipt.rebuilt said = r
  warnings : said.countP Event.warns = warnings

theorem Truthful.chronicle {said : List Event} (h : Truthful said) :
    Chronicle said (Receipt.rebuilt said) (said.countP Event.warns) :=
  ⟨h, rfl, rfl⟩

namespace Chronicle

variable {said : List Event} {r : Receipt} {warnings : Nat}

theorem nil : Chronicle [] {} 0 where
  truthful said event later heq := by simp at heq
  rebuilt := rfl
  warnings := rfl

theorem snoc (h : Chronicle said r warnings) {event : Event} (hagrees : event.Agrees r warnings) :
    Chronicle (said ++ [event]) (r.next event) (warnings + if event.warns then 1 else 0) where
  truthful front e later heq := by
    rcases later.eq_nil_or_concat with rfl | ⟨rest, e', rfl⟩
    · obtain ⟨rfl, hlast⟩ := List.append_inj' heq rfl
      cases hlast
      rw [h.rebuilt, h.warnings]
      exact hagrees
    · have hsplit : said ++ [event] = (front ++ e :: rest) ++ [e'] := by
        rw [heq, List.concat_eq_append, List.append_assoc, List.cons_append]
      exact h.truthful front e rest (List.append_inj' hsplit rfl).1
  rebuilt := by
    rw [Receipt.rebuilt, List.foldl_append, ← Receipt.rebuilt, h.rebuilt]
    rfl
  warnings := by rw [List.countP_append, h.warnings, List.countP_singleton]

theorem snoc_bare (h : Chronicle said r warnings) {event : Event} (hbare : event.Bare) :
    Chronicle (said ++ [event]) r warnings := by
  rcases hbare with rfl | rfl <;> exact h.snoc trivial

/-- The first report of a teardown. -/
theorem snoc_first (h : Chronicle said r 0) :
    Chronicle (said ++ [r.events.1]) r (if 0 < r.totalInUse then 1 else 0) := by
  by_cases huse : 0 < r.totalInUse
  · rw [Receipt.events, if_pos huse, if_pos huse]
    exact h.snoc ⟨rfl, huse⟩
  · rw [Receipt.events, if_neg huse, if_neg huse]
    exact h.snoc ⟨rfl, rfl, (if_neg huse).symm⟩

/-- The reports of a teardown after the first one. -/
theorem append_later (h : Chronicle said r (if 0 < r.totalInUse then 1 else 0)) :
    Chronicle (said ++ r.events.2) r (if 0 < r.totalInUse then 1 else 0) := by
  by_cases huse : 0 < r.totalInUse
  · have hlast : r.events.2 = [.destroyed r.count r.totalCached] := by
      rw [Receipt.events, if_pos huse]
    rw [hlast]
    exact h.snoc ⟨rfl, rfl, rfl⟩
  · have hnone : r.events.2 = [] := by rw [Receipt.events, if_neg huse]
    rw [hnone, List.append_nil]
    exact h

end Chronicle

/-! ### Receipts in ascending order -/

namespace Receipt

/-- One line for every size, in ascending order. -/
def Ascending (r : Receipt) : Prop := r.lines.Pairwise fun l m => l.capacity < m.capacity

theorem mem_lines_swept {r : Receipt} {idleGone : Bool} {l : Line} :
    l ∈ (r.swept idleGone).lines ↔
      ∃ m ∈ r.lines, m.emptied = l ∧ (idleGone = true → m.inUse ≠ 0) := by
  cases idleGone with
  | false => simp [swept]
  | true =>
      rw [swept, if_pos rfl, List.mem_filter, List.mem_map]
      constructor
      · rintro ⟨⟨m, hm, rfl⟩, huse⟩
        exact ⟨m, hm, rfl, fun _ => of_decide_eq_true huse⟩
      · rintro ⟨m, hm, rfl, huse⟩
        exact ⟨⟨m, hm, rfl⟩, decide_eq_true (huse rfl)⟩

theorem count_swept (r : Receipt) (idleGone : Bool) :
    (r.swept idleGone).count + (if idleGone then r.lines.countP fun l => decide (l.inUse = 0) else 0) =
      r.count := by
  cases idleGone with
  | false => simp [swept, count]
  | true =>
      obtain ⟨lines⟩ := r
      simp only [swept, count, if_true]
      induction lines with
      | nil => rfl
      | cons l rest ih =>
          by_cases hidle : l.inUse = 0
          · simp [Line.emptied, hidle] at ih ⊢
            omega
          · simp [Line.emptied, hidle] at ih ⊢
            omega

namespace Ascending

variable {r r' : Receipt}

theorem eq_of_mem (h : r.Ascending) {l m : Line} (hl : l ∈ r.lines) (hm : m ∈ r.lines)
    (hsize : l.capacity = m.capacity) : l = m :=
  List.inj_on_of_nodup_map (List.pairwise_map.mpr (h.imp fun hlt => hlt.ne)) hl hm hsize

/-- A receipt is known from the lines in it. -/
theorem ext (h : r.Ascending) (h' : r'.Ascending) (hmem : ∀ l, l ∈ r.lines ↔ l ∈ r'.lines) :
    r = r' := by
  have hne : ∀ l m : Line, l.capacity < m.capacity → l ≠ m := fun l m hlt heq => hlt.ne (heq ▸ rfl)
  have hperm : r.lines.Perm r'.lines :=
    (List.perm_ext_iff_of_nodup (h.imp (hne _ _)) (h'.imp (hne _ _))).mpr hmem
  have hlines : r.lines = r'.lines :=
    hperm.eq_of_pairwise (fun _ _ _ _ hlt hgt => absurd hlt (Nat.lt_asymm hgt)) h h'
  cases r
  cases r'
  exact congrArg Receipt.mk hlines

theorem enter (h : r.Ascending) {line : Line} (hnew : ∀ l ∈ r.lines, l.capacity ≠ line.capacity) :
    (r.enter line).Ascending := by
  have hmap : (r.enter line).lines.map (·.capacity) =
      (r.lines.map (·.capacity)).orderedInsert (· ≤ ·) line.capacity :=
    List.map_orderedInsert (fun l m : Line => l.capacity ≤ m.capacity) (· ≤ ·) _ _ _
      (fun _ _ => Iff.rfl) fun _ _ => Iff.rfl
  have hlines : (r.lines.map (·.capacity)).Pairwise (· < ·) := List.pairwise_map.mpr h
  have hperm := List.perm_orderedInsert (· ≤ ·) line.capacity (r.lines.map (·.capacity))
  have hnodup : ((r.enter line).lines.map (·.capacity)).Nodup := by
    rw [hmap, hperm.nodup_iff, List.nodup_cons]
    refine ⟨fun hmem => ?_, hlines.imp fun hlt => hlt.ne⟩
    obtain ⟨l, hl, hsize⟩ := List.mem_map.mp hmem
    exact hnew l hl hsize
  have hsorted : ((r.enter line).lines.map (·.capacity)).Pairwise (· ≤ ·) := by
    rw [hmap]
    exact (hlines.imp Nat.le_of_lt).orderedInsert _ _
  exact List.pairwise_map.mp
    ((hsorted.and hnodup).imp fun hand => Nat.lt_of_le_of_ne hand.1 hand.2)

theorem amend (h : r.Ascending) {size : Nat} {f : Line → Line}
    (hf : ∀ l, (f l).capacity = l.capacity) : (r.amend size f).Ascending := by
  have hkeep : ∀ l, (if l.capacity = size then f l else l).capacity = l.capacity := by
    intro l
    split
    · exact hf l
    · rfl
  exact List.pairwise_map.mpr (h.imp fun hlt => by rwa [hkeep, hkeep])

theorem swept (h : r.Ascending) (idleGone : Bool) : (r.swept idleGone).Ascending := by
  have hall : (r.lines.map Line.emptied).Pairwise fun l m => l.capacity < m.capacity :=
    List.pairwise_map.mpr h
  cases idleGone with
  | false => exact hall
  | true => exact hall.filter _

end Ascending

end Receipt

end BlockPool
