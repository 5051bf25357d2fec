import BlockPool.World.Bulk
import Mathlib.Algebra.BigOperators.Group.Finset.Basic
import Mathlib.Algebra.Order.BigOperators.Group.Finset
import Mathlib.Algebra.Order.Group.Nat
import Mathlib.Data.Fintype.Basic
import Mathlib.Logic.Function.Basic

/-! Threads that share one pool. A thread runs a program of requests, each of which obtains a block
or gives back one that the thread obtained before; the pool serves one request at a time, so what
happens is some interleaving of the programs. The peak of a thread is told by its own program, that
of all threads together by the interleaving, and the joint peak lies between the highest of the
single peaks and their sum. -/

namespace BlockPool.Threads

/-- One request of a thread. -/
inductive Call
  | obtain (size : Nat)
  /-- Gives back the block that the thread obtained in its turn `k`, counted from zero. -/
  | giveBack (k : Nat)
  deriving DecidableEq, Inhabited

/-- What a thread obtained, in order; what it gave back leaves a gap. -/
abbrev Hand (α : Type) := List (Option α)

namespace Call

/-- The sizes in the hand of a thread after a request. -/
def after (hand : Hand Nat) : Call → Hand Nat
  | obtain size => hand ++ [some size]
  | giveBack k => hand.set k none

/-- A thread gives back only what it has. -/
def Fits (hand : Hand Nat) : Call → Prop
  | obtain _ => True
  | giveBack k => ∃ size, hand[k]? = some (some size)

end Call

/-- A program that gives back only what the thread has, and everything in the end. -/
def Proper (hand : Hand Nat) : List Call → Prop
  | [] => ∀ entry ∈ hand, entry = none
  | call :: rest => call.Fits hand ∧ Proper (call.after hand) rest

theorem Proper.empty {hand : Hand Nat} {calls : List Call} (h : Proper hand calls) :
    ∀ entry ∈ calls.foldl Call.after hand, entry = none := by
  induction calls generalizing hand with
  | nil => exact h
  | cons call rest ih => exact ih h.2

def inHand (size : Nat) (hand : Hand Nat) : Nat := hand.count (some size)

/-- The most blocks of a size that a thread holds at once from now on. -/
def peak (size : Nat) (hand : Hand Nat) : List Call → Nat
  | [] => inHand size hand
  | call :: rest => max (inHand size hand) (peak size (call.after hand) rest)

theorem inHand_le_peak (size : Nat) (hand : Hand Nat) (calls : List Call) :
    inHand size hand ≤ peak size hand calls := by
  cases calls with
  | nil => exact Nat.le_refl _
  | cons call rest => exact Nat.le_max_left _ _

theorem inHand_obtain (size other : Nat) (hand : Hand Nat) :
    inHand size (Call.after hand (.obtain other)) =
      inHand size hand + if other = size then 1 else 0 := by
  simp only [inHand, Call.after, List.count_append, List.count_singleton, beq_iff_eq,
    Option.some.injEq]

theorem inHand_giveBack {size other k : Nat} {hand : Hand Nat} (hk : hand[k]? = some (some other)) :
    inHand size (Call.after hand (.giveBack k)) + (if other = size then 1 else 0) =
      inHand size hand := by
  obtain ⟨hlt, hval⟩ := List.getElem?_eq_some_iff.mp hk
  have hcount := List.count_set (a := (none : Option Nat)) (b := some size) hlt
  have hpos : other = size → 0 < hand.count (some size) := by
    rintro rfl
    exact List.count_pos_iff.mpr (hval ▸ List.getElem_mem hlt)
  rw [hval] at hcount
  simp only [inHand, Call.after, hcount, beq_iff_eq, Option.some.injEq, reduceCtorEq, if_false,
    Nat.add_zero]
  split
  · next heq =>
    have hpos := hpos heq
    omega
  · rfl

/-- A thread that never asks for a size never holds a block of it. -/
theorem peak_eq_zero {size : Nat} {hand : Hand Nat} {calls : List Call}
    (hhand : inHand size hand = 0) (hcalls : Call.obtain size ∉ calls) :
    peak size hand calls = 0 := by
  induction calls generalizing hand with
  | nil => exact hhand
  | cons call rest ih =>
      rw [List.mem_cons, not_or] at hcalls
      have hafter : inHand size (call.after hand) = 0 := by
        cases call with
        | obtain other =>
            rw [inHand_obtain, hhand, if_neg]
            rintro rfl
            exact hcalls.1 rfl
        | giveBack k =>
            rw [inHand, List.count_eq_zero] at hhand ⊢
            intro hmem
            rcases List.mem_or_eq_of_mem_set hmem with hold | hnone
            · exact hhand hold
            · cases hnone
      rw [peak, hhand, ih hafter hcalls.2]
      rfl

/-! ### Interleavings -/

/-- One turn of the pool. -/
inductive Turn (ι : Type)
  | call (thread : ι) (call : Call)
  /-- Somebody clears the pool meanwhile. -/
  | clear (eraseVacant : Bool)

section Interleaving

variable {ι : Type} [DecidableEq ι]

/-- The request of a thread that is served in this turn, if it is one of its own. -/
def Turn.callOf? (i : ι) : Turn ι → Option Call
  | call j c => if j = i then some c else none
  | clear _ => none

/-- The requests of one thread that a schedule serves, in order. -/
def own (i : ι) (schedule : List (Turn ι)) : List Call := schedule.filterMap (Turn.callOf? i)

/-- A schedule that serves every program in its own order, and nothing else but clears. -/
def Interleaves (programs : ι → List Call) (schedule : List (Turn ι)) : Prop :=
  ∀ i, own i schedule = programs i

instance [Fintype ι] (programs : ι → List Call) (schedule : List (Turn ι)) :
    Decidable (Interleaves programs schedule) :=
  inferInstanceAs (Decidable (∀ i, own i schedule = programs i))

/-- The sizes in the hands of all threads after a turn. -/
def Turn.after (hands : ι → Hand Nat) : Turn ι → ι → Hand Nat
  | call i c => Function.update hands i (c.after (hands i))
  | clear _ => hands

theorem own_call_self (i : ι) (c : Call) (rest : List (Turn ι)) :
    own i (.call i c :: rest) = c :: own i rest := by
  simp [own, Turn.callOf?]

theorem own_call_of_ne {i j : ι} (h : j ≠ i) (c : Call) (rest : List (Turn ι)) :
    own i (.call j c :: rest) = own i rest := by
  simp [own, Turn.callOf?, h]

theorem own_clear (i : ι) (eraseVacant : Bool) (rest : List (Turn ι)) :
    own i (.clear eraseVacant :: rest) = own i rest :=
  List.filterMap_cons_none rfl

theorem mem_own_iff {i : ι} {c : Call} {schedule : List (Turn ι)} :
    c ∈ own i schedule ↔ Turn.call i c ∈ schedule := by
  rw [own, List.mem_filterMap]
  constructor
  · rintro ⟨t, ht, hc⟩
    cases t with
    | clear eraseVacant => cases hc
    | call j d =>
        rw [Turn.callOf?, Option.ite_none_right_eq_some] at hc
        obtain ⟨rfl, hd⟩ := hc
        exact Option.some.inj hd ▸ ht
  · intro ht
    exact ⟨_, ht, if_pos rfl⟩

/-- What a thread has in hand after a schedule depends on its own requests alone. -/
theorem foldl_after (hands : ι → Hand Nat) (schedule : List (Turn ι)) (i : ι) :
    schedule.foldl Turn.after hands i = (own i schedule).foldl Call.after (hands i) := by
  induction schedule generalizing hands with
  | nil => rfl
  | cons t rest ih =>
      rw [List.foldl_cons, ih]
      cases t with
      | clear eraseVacant => rw [own_clear, Turn.after]
      | call j c =>
          by_cases hj : j = i
          · subst hj
            rw [own_call_self, List.foldl_cons, Turn.after, Function.update_self]
          · rw [own_call_of_ne hj, Turn.after, Function.update_of_ne (Ne.symm hj)]

/-- The next request of a schedule fits if the programs are proper, and what remains is proper. -/
theorem proper_next {hands : ι → Hand Nat} {i : ι} {c : Call} {rest : List (Turn ι)}
    (h : ∀ j, Proper (hands j) (own j (.call i c :: rest))) :
    c.Fits (hands i) ∧ ∀ j, Proper (Turn.after hands (.call i c) j) (own j rest) := by
  have hi := h i
  rw [own_call_self] at hi
  refine ⟨hi.1, fun j => ?_⟩
  by_cases hj : i = j
  · subst hj
    rw [Turn.after, Function.update_self]
    exact hi.2
  · have hother := h j
    rw [own_call_of_ne hj] at hother
    rwa [Turn.after, Function.update_of_ne (Ne.symm hj)]

variable [Fintype ι]

/-- How many blocks of a size all threads hold together. -/
def inHands (size : Nat) (hands : ι → Hand Nat) : Nat := ∑ i, inHand size (hands i)

/-- The most blocks of a size that all threads hold at once from now on. -/
def jointPeak (size : Nat) (hands : ι → Hand Nat) : List (Turn ι) → Nat
  | [] => inHands size hands
  | t :: rest => max (inHands size hands) (jointPeak size (t.after hands) rest)

theorem inHands_le_jointPeak (size : Nat) (hands : ι → Hand Nat) (schedule : List (Turn ι)) :
    inHands size hands ≤ jointPeak size hands schedule := by
  cases schedule with
  | nil => exact Nat.le_refl _
  | cons t rest => exact Nat.le_max_left _ _

/-- A change to one hand shows in what all threads hold. -/
theorem inHands_update (size : Nat) (hands : ι → Hand Nat) (i : ι) (hand : Hand Nat) :
    inHands size (Function.update hands i hand) + inHand size (hands i) =
      inHands size hands + inHand size hand := by
  have hrest : ∑ j ∈ Finset.univ.erase i, inHand size (Function.update hands i hand j) =
      ∑ j ∈ Finset.univ.erase i, inHand size (hands j) :=
    Finset.sum_congr rfl fun j hj => by rw [Function.update_of_ne (Finset.ne_of_mem_erase hj)]
  unfold inHands
  rw [← Finset.add_sum_erase _ _ (Finset.mem_univ i),
    ← Finset.add_sum_erase _ _ (Finset.mem_univ i), Function.update_self, hrest]
  omega

theorem inHands_obtain (size other : Nat) (hands : ι → Hand Nat) (i : ι) :
    inHands size (Turn.after hands (.call i (.obtain other))) =
      inHands size hands + if other = size then 1 else 0 := by
  have hupdate := inHands_update size hands i (Call.after (hands i) (.obtain other))
  rw [inHand_obtain] at hupdate
  rw [Turn.after]
  omega

theorem inHands_giveBack (size : Nat) {other k : Nat} {hands : ι → Hand Nat} {i : ι}
    (hk : (hands i)[k]? = some (some other)) :
    inHands size (Turn.after hands (.call i (.giveBack k))) + (if other = size then 1 else 0) =
      inHands size hands := by
  have hupdate := inHands_update size hands i (Call.after (hands i) (.giveBack k))
  have hback := @inHand_giveBack size _ _ _ hk
  rw [Turn.after]
  omega

/-- After proper programs nobody has anything in hand. -/
theorem inHands_eq_zero (size : Nat) {hands : ι → Hand Nat} {schedule : List (Turn ι)}
    (h : ∀ i, Proper (hands i) (own i schedule)) :
    inHands size (schedule.foldl Turn.after hands) = 0 := by
  apply Finset.sum_eq_zero
  intro i _
  rw [foldl_after, inHand, List.count_eq_zero]
  intro hmem
  cases (h i).empty _ hmem

/-- No thread holds more by itself than all of them together. -/
theorem peak_le_jointPeak (size : Nat) (hands : ι → Hand Nat) (schedule : List (Turn ι)) (i : ι) :
    peak size (hands i) (own i schedule) ≤ jointPeak size hands schedule := by
  have hle : ∀ hands : ι → Hand Nat, inHand size (hands i) ≤ inHands size hands :=
    fun hands => Finset.single_le_sum (f := fun i => inHand size (hands i))
      (fun _ _ => Nat.zero_le _) (Finset.mem_univ i)
  induction schedule generalizing hands with
  | nil => exact hle hands
  | cons t rest ih =>
      have hrest := ih (t.after hands)
      cases t with
      | clear eraseVacant =>
          rw [own_clear]
          exact hrest.trans (Nat.le_max_right _ _)
      | call j c =>
          by_cases hj : j = i
          · subst hj
            rw [own_call_self, peak, jointPeak]
            rw [Turn.after, Function.update_self] at hrest
            exact max_le_max (hle hands) hrest
          · rw [own_call_of_ne hj]
            rw [Turn.after, Function.update_of_ne (Ne.symm hj)] at hrest
            exact hrest.trans (Nat.le_max_right _ _)

/-- All threads together hold no more than their peaks allow. -/
theorem jointPeak_le_sum (size : Nat) (hands : ι → Hand Nat) (schedule : List (Turn ι)) :
    jointPeak size hands schedule ≤ ∑ i, peak size (hands i) (own i schedule) := by
  induction schedule generalizing hands with
  | nil => exact Nat.le_refl _
  | cons t rest ih =>
      rw [jointPeak]
      refine max_le (Finset.sum_le_sum fun i _ => inHand_le_peak _ _ _) ?_
      refine (ih (t.after hands)).trans (Finset.sum_le_sum fun i _ => ?_)
      cases t with
      | clear eraseVacant =>
          rw [own_clear]
          exact Nat.le_refl _
      | call j c =>
          by_cases hj : j = i
          · subst hj
            rw [own_call_self, Turn.after, Function.update_self]
            exact Nat.le_max_right _ _
          · rw [own_call_of_ne hj, Turn.after, Function.update_of_ne (Ne.symm hj)]

end Interleaving

/-! ### Workers -/

/-- Obtains a block and gives it back, `rounds` times over, the next block being number `turn`. -/
def cycleCalls (size : Nat) (turn : Nat) : Nat → List Call
  | 0 => []
  | rounds + 1 => .obtain size :: .giveBack turn :: cycleCalls size (turn + 1) rounds

/-- The program of a worker: it obtains `held` blocks of one size, gives them back, and then obtains
and gives back one block `rounds` times. -/
def workerCalls (size held rounds : Nat) : List Call :=
  List.replicate held (.obtain size) ++ (List.range held).map .giveBack ++
    cycleCalls size held rounds

/-- What worker `t` of a crew does. -/
def crewCalls (crew : Crew) (t : Nat) : List Call :=
  workerCalls (crew.base * (t + 1)) crew.held crew.rounds

theorem peak_append (size : Nat) (hand : Hand Nat) (first second : List Call) :
    peak size hand (first ++ second) =
      max (peak size hand first) (peak size (first.foldl Call.after hand) second) := by
  induction first generalizing hand with
  | nil => exact (Nat.max_eq_right (inHand_le_peak _ _ _)).symm
  | cons call rest ih =>
      rw [List.cons_append, peak, peak, ih, List.foldl_cons, Nat.max_assoc]

theorem foldl_obtain (size held : Nat) (hand : Hand Nat) :
    (List.replicate held (Call.obtain size)).foldl Call.after hand =
      hand ++ List.replicate held (some size) := by
  induction held generalizing hand with
  | zero => simp
  | succ n ih =>
      rw [List.replicate_succ, List.foldl_cons, ih, List.replicate_succ, Call.after,
        List.append_assoc]
      rfl

theorem peak_obtain (size held : Nat) (hand : Hand Nat) :
    peak size hand (List.replicate held (.obtain size)) = inHand size hand + held := by
  induction held generalizing hand with
  | zero => rfl
  | succ n ih =>
      rw [List.replicate_succ, peak, ih, inHand_obtain, if_pos rfl]
      omega

/-- Giving back never adds to what a thread holds. -/
theorem peak_giveBack (size : Nat) (hand : Hand Nat) (ks : List Nat) :
    peak size hand (ks.map .giveBack) = inHand size hand := by
  induction ks generalizing hand with
  | nil => rfl
  | cons k rest ih =>
      have hle : inHand size (Call.after hand (.giveBack k)) ≤ inHand size hand := by
        by_cases hk : k < hand.length
        · have hcount := List.count_set (a := (none : Option Nat)) (b := some size) hk
          simp only [reduceCtorEq, beq_iff_eq, if_false, Nat.add_zero] at hcount
          rw [inHand, Call.after, hcount]
          exact Nat.sub_le _ _
        · rw [Call.after, List.set_eq_of_length_le (Nat.le_of_not_lt hk)]
      rw [List.map_cons, peak, ih]
      exact Nat.max_eq_left hle

/-- The hand of a worker that gave back its first `n` blocks and holds `m` more, after the next
one is given back. -/
theorem after_giveBack (size n m : Nat) :
    Call.after (List.replicate n none ++ List.replicate (m + 1) (some size)) (.giveBack n) =
      List.replicate (n + 1) none ++ List.replicate m (some size) := by
  rw [Call.after, List.set_append_right _ _ (by simp), List.length_replicate, Nat.sub_self,
    List.replicate_succ, List.set_cons_zero, List.replicate_succ', List.append_assoc]
  rfl

theorem foldl_giveBack (size n m : Nat) :
    ((List.range' n m).map Call.giveBack).foldl Call.after
        (List.replicate n none ++ List.replicate m (some size)) =
      List.replicate (n + m) none := by
  induction m generalizing n with
  | zero => simp
  | succ m ih =>
      rw [List.range'_succ, List.map_cons, List.foldl_cons, after_giveBack, ih]
      congr 1
      omega

/-- A block that is given back at once leaves a gap at the end. -/
theorem after_cycle (size : Nat) (hand : Hand Nat) :
    Call.after (Call.after hand (.obtain size)) (.giveBack hand.length) = hand ++ [none] := by
  simp [Call.after]

theorem peak_cycle {size : Nat} {hand : Hand Nat} (hempty : inHand size hand = 0) (rounds : Nat) :
    peak size hand (cycleCalls size hand.length rounds) = min rounds 1 := by
  induction rounds generalizing hand with
  | zero => exact hempty
  | succ n ih =>
      have hobtain : inHand size (Call.after hand (.obtain size)) = 1 := by
        rw [inHand_obtain, hempty, if_pos rfl]
      have hnone : inHand size (hand ++ [none]) = 0 := by
        simpa [inHand] using hempty
      have hrest := ih hnone
      rw [List.length_append, List.length_singleton] at hrest
      rw [cycleCalls, peak, peak, after_cycle, hempty, hobtain, hrest]
      omega

/-- The peak of a worker in its own size. -/
theorem peak_workerCalls (size held rounds : Nat) :
    peak size [] (workerCalls size held rounds) = max held (min rounds 1) := by
  have hobtained : (List.replicate held (Call.obtain size)).foldl Call.after [] =
      List.replicate 0 none ++ List.replicate held (some size) := by
    rw [foldl_obtain]
    rfl
  have hback := foldl_giveBack size 0 held
  have hnone : inHand size (List.replicate (0 + held) none) = 0 := by
    simp [inHand, List.count_replicate]
  have hcycle := peak_cycle hnone rounds
  rw [List.length_replicate, Nat.zero_add] at hcycle
  rw [workerCalls, List.append_assoc, peak_append, peak_obtain, hobtained, peak_append,
    peak_giveBack, List.range_eq_range', hback, Nat.zero_add, hcycle]
  simp [inHand]

theorem proper_obtain {size m : Nat} {hand : Hand Nat} {rest : List Call}
    (h : Proper (hand ++ List.replicate m (some size)) rest) :
    Proper hand (List.replicate m (.obtain size) ++ rest) := by
  induction m generalizing hand with
  | zero => simpa using h
  | succ n ih =>
      refine ⟨trivial, ih ?_⟩
      rw [List.replicate_succ] at h
      rw [Call.after, List.append_assoc]
      exact h

theorem proper_giveBack {size n m : Nat} {rest : List Call}
    (h : Proper (List.replicate (n + m) none) rest) :
    Proper (List.replicate n none ++ List.replicate m (some size))
      ((List.range' n m).map .giveBack ++ rest) := by
  induction m generalizing n with
  | zero => simpa using h
  | succ m ih =>
      rw [List.range'_succ]
      refine ⟨⟨size, ?_⟩, ?_⟩
      · rw [List.getElem?_append_right (by simp), List.length_replicate, Nat.sub_self,
          List.replicate_succ, List.getElem?_cons_zero]
      · rw [after_giveBack]
        apply ih
        have hlen : n + 1 + m = n + (m + 1) := by omega
        rw [hlen]
        exact h

theorem proper_cycle {size : Nat} {hand : Hand Nat} (hempty : ∀ entry ∈ hand, entry = none)
    (rounds : Nat) : Proper hand (cycleCalls size hand.length rounds) := by
  induction rounds generalizing hand with
  | zero => exact hempty
  | succ n ih =>
      have hnone : ∀ entry ∈ hand ++ [none], entry = none := by
        intro entry hentry
        rcases List.mem_append.mp hentry with hold | hnew
        · exact hempty entry hold
        · exact List.mem_singleton.mp hnew
      have hrest := ih hnone
      rw [List.length_append, List.length_singleton] at hrest
      refine ⟨trivial, ⟨size, by simp [Call.after]⟩, ?_⟩
      rw [after_cycle]
      exact hrest

theorem proper_workerCalls (size held rounds : Nat) : Proper [] (workerCalls size held rounds) := by
  have hempty : ∀ entry ∈ (List.replicate (0 + held) none : Hand Nat), entry = none :=
    fun entry hentry => List.eq_of_mem_replicate hentry
  have hcycle := @proper_cycle size _ hempty rounds
  rw [List.length_replicate, Nat.zero_add held] at hcycle
  rw [workerCalls, List.append_assoc, List.range_eq_range']
  apply proper_obtain
  apply @proper_giveBack size 0 held
  rw [Nat.zero_add]
  exact hcycle

theorem mem_cycleCalls {size turn rounds other : Nat}
    (hmem : .obtain other ∈ cycleCalls size turn rounds) : other = size := by
  induction rounds generalizing turn with
  | zero => cases hmem
  | succ n ih =>
      rcases List.mem_cons.mp hmem with heq | hmem
      · exact Call.obtain.inj heq
      · rcases List.mem_cons.mp hmem with heq | hrest
        · cases heq
        · exact ih hrest

/-- A worker asks for no size but its own. -/
theorem mem_workerCalls {size held rounds other : Nat}
    (hmem : .obtain other ∈ workerCalls size held rounds) : other = size := by
  rw [workerCalls, List.mem_append, List.mem_append] at hmem
  rcases hmem with (hobtain | hback) | hcycle
  · exact Call.obtain.inj (List.eq_of_mem_replicate hobtain)
  · obtain ⟨k, -, heq⟩ := List.mem_map.mp hback
    cases heq
  · exact mem_cycleCalls hcycle

end BlockPool.Threads
