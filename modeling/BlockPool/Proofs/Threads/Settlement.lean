import BlockPool.Proofs.Threads.Traffic
import Mathlib.Data.Finset.Lattice.Fold
import Mathlib.Order.Lattice.Nat

/-! What threads leave behind that gave back all they obtained. However their requests interleave,
as much is in use as before, and what is parked for a size lies between the highest peak of a single
thread and the sum of their peaks, unless more was parked from the start. -/

namespace BlockPool.Threads

variable {ι : Type} [DecidableEq ι] [Fintype ι]

/-- The books of a pool before and after these programs, whoever cleared it meanwhile. -/
structure Settled (programs : ι → List Call) (before after : Pool) : Prop where
  config : after.config = before.config
  in_use : ∀ size, after.classes.inUseFor size = before.classes.inUseFor size
  cached_le : ∀ size, after.classes.cachedFor size ≤
    max (before.classes.cachedFor size) (∑ i, peak size [] (programs i))
  mem_sizes : ∀ size ∈ after.sizes, size ∈ before.sizes ∨ ∃ i, .obtain size ∈ programs i
  sizes_in_use : ∀ size, before.classes.inUseFor size ≠ 0 → size ∈ after.sizes

/-- The books of a pool before and after these programs, if nobody cleared it meanwhile. -/
structure Exact (programs : ι → List Call) (before after : Pool) : Prop where
  mem_sizes_iff : ∀ size, size ∈ after.sizes ↔
    size ∈ before.sizes ∨ ∃ i, .obtain size ∈ programs i
  le_cached : ∀ size, max (before.classes.cachedFor size)
    (Finset.univ.sup fun i => peak size [] (programs i)) ≤ after.classes.cachedFor size
  /-- Only one thread asks for the size. -/
  cached_alone : ∀ size i, (∀ j ≠ i, .obtain size ∉ programs j) →
    after.classes.cachedFor size = max (before.classes.cachedFor size) (peak size [] (programs i))
  /-- The threads are the workers of a crew. -/
  cached_crew : ∀ (crew : Crew) (number : ι → Nat), Function.Injective number →
    (∀ i, programs i = crewCalls crew (number i)) → ∀ i,
      after.classes.cachedFor (crew.base * (number i + 1)) =
        max (before.classes.cachedFor (crew.base * (number i + 1)))
          (max crew.held (min crew.rounds 1))

/-- The books of a pool before these programs and after a clear of all that is vacant. -/
structure Swept (before after : Pool) : Prop where
  in_use : ∀ size, after.classes.inUseFor size = before.classes.inUseFor size
  cached : ∀ size, after.classes.cachedFor size = 0
  mem_sizes_iff : ∀ size, size ∈ after.sizes ↔ before.classes.inUseFor size ≠ 0

theorem Swept.drain {before after : Pool} (hafter : after.classes.Sound)
    (huse : ∀ size, after.classes.inUseFor size = before.classes.inUseFor size) :
    Swept before { after with classes := (after.classes.drain true).2 } where
  in_use size := (hafter.inUseFor_drain true size).trans (huse size)
  cached := hafter.cachedFor_drain true
  mem_sizes_iff size := by
    refine (hafter.mem_sizes_drain true size).trans ?_
    rw [huse]
    constructor
    · rintro ⟨-, hsize⟩
      exact hsize rfl
    · intro hsize
      exact ⟨hafter.mem_sizes_of_inUseFor (huse size ▸ hsize), fun _ => hsize⟩

omit [DecidableEq ι] in
theorem level_of_empty (size : Nat) (pool : Pool) {hands : ι → Hand Nat}
    (hempty : inHands size hands = 0) : level size pool hands = pool.classes.cachedFor size := by
  rw [level, hempty, Nat.add_zero]

section Course

variable {programs : ι → List Call} {schedule : List (Turn ι)} {before after : Pool}
  (hcourse : Course schedule (fun _ => []) before after) (hproper : ∀ i, Proper [] (programs i))
  (hschedule : Interleaves programs schedule)

include hschedule

omit [Fintype ι] in
theorem asked_iff {size : Nat} : Asked size schedule ↔ ∃ i, .obtain size ∈ programs i :=
  exists_congr fun i => by rw [← hschedule i, mem_own_iff]

theorem jointPeak_le (size : Nat) :
    jointPeak size (fun _ => []) schedule ≤ ∑ i, peak size [] (programs i) := by
  have hsum := jointPeak_le_sum size (fun _ => []) schedule
  simpa only [hschedule _] using hsum

theorem le_jointPeak (size : Nat) (i : ι) :
    peak size [] (programs i) ≤ jointPeak size (fun _ => []) schedule := by
  have hpeak := peak_le_jointPeak size (fun _ => []) schedule i
  rwa [hschedule i] at hpeak

/-- A size that a single thread asks for has no peak but that of this thread. -/
theorem jointPeak_alone {size : Nat} {i : ι} (halone : ∀ j ≠ i, .obtain size ∉ programs j) :
    jointPeak size (fun _ => []) schedule = peak size [] (programs i) := by
  apply Nat.le_antisymm
  · calc jointPeak size (fun _ => []) schedule
        ≤ ∑ j, peak size [] (programs j) := jointPeak_le hschedule size
      _ = peak size [] (programs i) := by
          refine Finset.sum_eq_single i (fun j _ hj => ?_) fun hi => ?_
          · exact peak_eq_zero rfl (halone j hj)
          · exact absurd (Finset.mem_univ i) hi
  · exact le_jointPeak hschedule size i

include hproper

theorem inHands_after (size : Nat) :
    inHands size (schedule.foldl Turn.after fun _ => []) = 0 := by
  apply inHands_eq_zero
  intro i
  rw [hschedule i]
  exact hproper i

include hcourse

theorem Course.cached_le (size : Nat) : after.classes.cachedFor size ≤
    max (before.classes.cachedFor size) (jointPeak size (fun _ => []) schedule) := by
  have hlevel := hcourse.level_le size
  have hstart : inHands size (fun _ : ι => []) = 0 := Finset.sum_const_zero
  rwa [level_of_empty size after (inHands_after hproper hschedule size),
    level_of_empty size before hstart] at hlevel

theorem Course.cached_eq (hcalm : Calm schedule) (size : Nat) : after.classes.cachedFor size =
    max (before.classes.cachedFor size) (jointPeak size (fun _ => []) schedule) := by
  have hlevel := hcourse.level_eq hcalm size
  have hstart : inHands size (fun _ : ι => []) = 0 := Finset.sum_const_zero
  rwa [level_of_empty size after (inHands_after hproper hschedule size),
    level_of_empty size before hstart] at hlevel

theorem Course.settled (hafter : after.classes.Sound)
    (huse : ∀ size, after.classes.inUseFor size = before.classes.inUseFor size) :
    Settled programs before after where
  config := hcourse.config
  in_use := huse
  cached_le size := (hcourse.cached_le hproper hschedule size).trans
    (max_le_max_left _ (jointPeak_le hschedule size))
  mem_sizes size hsize := by
    rw [← asked_iff hschedule]
    exact hcourse.mem_sizes size hsize
  sizes_in_use size hsize := hafter.mem_sizes_of_inUseFor (huse size ▸ hsize)

theorem Course.exact (hcalm : Calm schedule) (hzero : ∀ i, .obtain 0 ∉ programs i) :
    Exact programs before after := by
  have hcached := hcourse.cached_eq hproper hschedule hcalm
  have halone : ∀ size i, (∀ j ≠ i, .obtain size ∉ programs j) →
      after.classes.cachedFor size =
        max (before.classes.cachedFor size) (peak size [] (programs i)) := by
    intro size i hothers
    rw [hcached, jointPeak_alone hschedule hothers]
  refine ⟨?_, ?_, ?_, ?_⟩
  · intro size
    rw [← asked_iff hschedule]
    exact ⟨hcourse.mem_sizes size, hcourse.sizes_mem hcalm size⟩
  · intro size
    rw [hcached]
    exact max_le_max_left _ (Finset.sup_le fun i _ => le_jointPeak hschedule size i)
  · exact halone
  · intro crew number hnumber hcrew i
    rw [halone, hcrew i, crewCalls, peak_workerCalls]
    intro j hj hmem
    -- two workers that share a size have the same number, unless the size is zero
    have hsize := mem_workerCalls (hcrew j ▸ hmem)
    rcases Nat.eq_zero_or_pos crew.base with hbase | hbase
    · rw [hbase, Nat.zero_mul] at hmem
      exact hzero j hmem
    · have hsame := Nat.eq_of_mul_eq_mul_left hbase hsize
      exact hj (hnumber (Nat.succ.inj hsame)).symm

end Course

namespace Traffic

/-- Threads that obtain and give back blocks of a pool are all served, if the heap grants the sizes
that they ask for; and when they are done the books of the pool are settled, whatever the
schedule. -/
theorem served_and_settled {grants : Nat → Bool} {w : World} {p : PoolId} {pool : Pool}
    {programs : ι → List Call} {schedule : List (Turn ι)} (hpassed : World.Passed grants w none)
    (hopen : w.pools.get? p = some pool) (hproper : ∀ i, Proper [] (programs i))
    (hschedule : Interleaves programs schedule)
    (hadmitted : ∀ i size, .obtain size ∈ programs i → pool.config.refusal? size = none) :
    ((∀ i size, .obtain size ∈ programs i → w.heap.grants size = true) →
      ∃ x, (start w).serve p schedule = some x) ∧
    ∀ x, (start w).serve p schedule = some x → ∃ after,
      x.world.pools.get? p = some after ∧ (∀ i k, x.ticket? i k = none) ∧
      Settled programs pool after ∧ (Calm schedule → Exact programs pool after) ∧
      ∃ swept, (x.world.clear p true).2.pools.get? p = some swept ∧ Swept pool swept := by
  have hkept : (start w : Traffic ι).Kept p w.heap.grants pool.classes.inUseFor pool :=
    .start hpassed.sound hopen
  have hstart : (start w : Traffic ι).sizes = fun _ => [] := rfl
  constructor
  · intro hgranted
    refine hkept.serve_isSome (fun i => ?_) fun size hasked => ?_
    · rw [hschedule i]
      exact hproper i
    · obtain ⟨i, hi⟩ := (asked_iff hschedule).mp hasked
      exact ⟨hadmitted i size hi, hgranted i size hi⟩
  · intro x hserve
    obtain ⟨after, hafter, hcourse, hsizes⟩ := hkept.serve hserve
    rw [hstart] at hcourse hsizes
    have htable := hafter.sound.table p after hafter.opened
    have huse : ∀ size, after.classes.inUseFor size = pool.classes.inUseFor size := by
      intro size
      rw [hafter.in_use, hsizes, inHands_after hproper hschedule, Nat.add_zero]
    refine ⟨after, hafter.opened, ?_, hcourse.settled hproper hschedule htable huse, ?_, ?_⟩
    · intro i k
      rw [Option.eq_none_iff_forall_ne_some]
      intro ticket hticket
      have hmem := List.mem_of_getElem? (sizes_of_ticket? hticket)
      rw [hsizes, foldl_after, hschedule i] at hmem
      cases (hproper i).empty _ hmem
    · intro hcalm
      refine hcourse.exact hproper hschedule hcalm fun i hzero => ?_
      exact absurd rfl (Config.refusal?_eq_none_iff.mp (hadmitted i 0 hzero)).1.ne
    · rw [World.clear_eq hafter.opened]
      exact ⟨_, (Registry.get?_set hafter.opened).trans (if_pos rfl), .drain htable huse⟩

/-- Two workers of one round each, the second a step behind the first. -/
theorem two_workers_settle :
    let w := ((World.start fun _ => true).step .openStandard).2
    let crew : Crew := { workers := 2, held := 1, rounds := 1, base := 8 }
    let schedule : List (Turn (Fin 2)) :=
      [.call 0 (.obtain 8), .call 1 (.obtain 16), .call 0 (.giveBack 0), .call 0 (.obtain 8),
        .call 1 (.giveBack 0), .call 0 (.giveBack 1), .call 1 (.obtain 16), .call 1 (.giveBack 1)]
    ∃ x after, (start w).serve ⟨0⟩ schedule = some x ∧ x.world.pools.get? ⟨0⟩ = some after ∧
      ∀ t : Fin 2, after.classes.cachedFor (crew.base * (t + 1)) = 1 := by
  intro w crew schedule
  have hpassed : World.Passed (fun _ => true) w none := World.Passed.start.step .openStandard
  have hopen : w.pools.get? ⟨0⟩ = some { config := .standard } := rfl
  have hschedule : Interleaves (fun t : Fin 2 => crewCalls crew t) schedule := by decide
  have hcalm : Calm schedule := by simp [Calm, schedule]
  have hsizes : ∀ t : Fin 2, Config.standard.refusal? (crew.base * (t + 1)) = none := by decide
  have hproper : ∀ t : Fin 2, Proper [] (crewCalls crew t) := fun t => proper_workerCalls _ _ _
  obtain ⟨hserved, hsettled⟩ := served_and_settled hpassed hopen hproper hschedule
    fun t size hmem => mem_workerCalls hmem ▸ hsizes t
  obtain ⟨x, hx⟩ := hserved fun _ _ _ => rfl
  obtain ⟨after, hafter, -, -, hexact, -⟩ := hsettled x hx
  refine ⟨x, after, hx, hafter, fun t => ?_⟩
  exact (hexact hcalm).cached_crew crew Fin.val Fin.val_injective (fun _ => rfl) t

end Traffic

end BlockPool.Threads
