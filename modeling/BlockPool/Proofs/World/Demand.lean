import BlockPool.Proofs.World.Cycle
import Mathlib.Order.Bounds.Basic

/-! How much a pool keeps. The chunks of a size, in use or parked, are as many as were in use at once when
most were, counted since the size got its class or the pool was cleared last; for a fresh chunk is made only
when nothing is parked, and then everything that the class has is in use. -/

namespace BlockPool

/-- How many chunks a class has, in use or parked. -/
def SizeClass.chunks (c : SizeClass) : Nat := c.inUse + c.cached.len

section Dealt

variable {size : Nat} {before : Option SizeClass} {old c : SizeClass} {d : Dealing}

/-- A dealing other than a clear adds a chunk only when more are in use then than the class had. -/
theorem Dealt.chunks_eq (h : Dealt size before d (some c)) (hclear : ∀ flag, d ≠ .cleared flag) :
    c.chunks = max (before.elim 0 SizeClass.chunks) c.inUse := by
  generalize hafter : some c = after at h
  cases h with
  | @parked old b chunk in_use =>
      cases hafter
      simp only [Option.elim_some, SizeClass.chunks, SizeClass.checkin, FreeList.len_push]
      omega
  | strayed => cases hafter
  | @hit old b chunk rest sound pop =>
      cases hafter
      have hlen := (sound.counted.pop pop).2
      simp only [Option.elim_some, SizeClass.chunks, SizeClass.afterHit]
      omega
  | @miss old before b serial found empty =>
      cases hafter
      rcases found with rfl | rfl
      · simp only [Option.elim_none, SizeClass.chunks, SizeClass.afterMiss, empty]
        omega
      · simp only [Option.elim_some, SizeClass.chunks, SizeClass.afterMiss, empty]
        omega
  | refused parked same =>
      cases hafter.trans same
      simp only [Option.elim_some, SizeClass.chunks]
      omega
  | cleared => exact absurd rfl (hclear _)
  | closed => cases hafter

/-- Blocks that come back go from one side to the other. -/
theorem Deals.chunks_of_returned {ds : List Dealing} (h : Deals size before ds (some c))
    (hds : ∀ d ∈ ds, ∃ b chunk, d = .returned b chunk) :
    ∃ old, before = some old ∧ c.chunks = old.chunks ∧ c.inUse ≤ old.inUse := by
  generalize hafter : some c = after at h
  induction h with
  | nil => exact ⟨c, hafter.symm, rfl, Nat.le_refl _⟩
  | @cons _ _ _ d rest first later ih =>
      obtain ⟨hd, hrest⟩ := List.forall_mem_cons.mp hds
      obtain ⟨mid, rfl, hchunks, hle⟩ := ih hrest hafter
      obtain ⟨b, chunk, rfl⟩ := hd
      cases first with
      | @parked old _ _ in_use =>
          refine ⟨old, rfl, hchunks.trans ?_, hle.trans (Nat.sub_le _ _)⟩
          simp only [SizeClass.chunks, SizeClass.checkin, FreeList.len_push]
          omega

end Dealt

namespace World

variable {grants : Nat → Bool} {w : World} {p q : PoolId} {size : Nat} {c : SizeClass}

/-! ### One action -/

theorem chunks_of_returns {before : Option SizeClass} {held : Registry Block} {bs : List BlockId}
    (h : Deals size before (returns p size held bs) (some c)) :
    ∃ old, before = some old ∧ c.chunks = old.chunks ∧ c.inUse ≤ old.inUse := by
  refine h.chunks_of_returned fun d hd => ?_
  obtain ⟨b, block, hd, -⟩ := held_of_mem_returns hd
  exact ⟨b, block.chunk, hd⟩

theorem Passed.chunks_step (h : Passed grants w none) {a : Action}
    (hclear : ∀ flag, a ≠ .clear p flag) (hc : (w.step a).2.serving? p size = some c) :
    c.chunks = max ((w.serving? p size).elim 0 SizeClass.chunks) c.inUse := by
  have hdeals := h.sound.deals_step h.admits p size a
  rw [hc] at hdeals
  rcases dealing_cases p size w a with ⟨bs, heq⟩ | ⟨d, heq, -, hkeeps⟩
  · rw [heq] at hdeals
    obtain ⟨old, hold, hchunks, hle⟩ := chunks_of_returns hdeals
    rw [hold, Option.elim_some, hchunks]
    exact (max_eq_left (hle.trans (Nat.le_add_right _ _))).symm
  · rw [heq] at hdeals
    cases hdeals with
    | cons first later =>
        cases later
        exact first.chunks_eq fun flag hd => hclear flag (hkeeps flag hd)

/-- A clear leaves what is in use. -/
theorem Sound.chunks_clear (h : w.Sound none) {eraseVacant : Bool}
    (hc : (w.step (.clear p eraseVacant)).2.serving? p size = some c) : c.chunks = c.inUse := by
  rw [step_world, World.after, h.serving?_clear, if_pos rfl] at hc
  obtain ⟨old, -, hold⟩ := Option.bind_eq_some_iff.mp hc
  rw [SizeClass.drained] at hold
  split at hold
  · cases hold
  · cases hold
    rfl

/-- In the middle of a teardown the class has as many chunks as before it, and no more in use. -/
theorem Amid.chunks_eq {x : World} {pool : Pool} (h : Amid w q pool x) (hw : w.Sound none)
    (hq : w.pools.get? q = some pool) (hc : x.serving? p size = some c) :
    ∃ old, w.serving? p size = some old ∧ c.chunks = old.chunks ∧ c.inUse ≤ old.inUse := by
  have hne : q ≠ p := by
    rintro rfl
    rw [serving?_of_get? (h.get?_eq hw hq)] at hc
    cases hc
  induction h generalizing c with
  | taken =>
      refine ⟨c, ?_, rfl, Nat.le_refl _⟩
      exact (serving?_congr ((Registry.get?_set hq).trans (if_neg hne.symm))).symm.trans hc
  | report before due ih => exact ih hc
  | @release x before b ih =>
      have hstands : some q ≠ some p := fun heq => hne (Option.some.inj heq)
      have hdeals := (before.sound hw hq).deals_release hstands size b
      rw [hc] at hdeals
      obtain ⟨mid, hmid, hchunks, hle⟩ := chunks_of_returns hdeals
      obtain ⟨old, hold, hchunks', hle'⟩ := ih hmid
      exact ⟨old, hold, hchunks.trans hchunks', hle.trans hle'⟩

/-! ### Since the class was made or the pool was cleared -/

section History

variable (grants p size)

/-- From the end of the first actions to the end of the second, the size had a class all the while and
nobody cleared the pool. -/
inductive Since (front : List Action) : List Action → Prop
  | now (present : ((reached grants front).serving? p size).isSome = true) : Since front front
  | later {past : List Action} {a : Action} (since : Since front past)
      (uncleared : ∀ eraseVacant, a ≠ .clear p eraseVacant)
      (present : ((reached grants (past ++ [a])).serving? p size).isSome = true) :
      Since front (past ++ [a])

/-- How many blocks of the size were in use at once, at every moment since. -/
def demands (past : List Action) : Set Nat :=
  {n | ∃ front c, Since grants p size front past ∧
    (reached grants front).serving? p size = some c ∧ c.inUse = n}

end History

theorem Since.snoc_iff {front past : List Action} {a : Action} :
    Since grants p size front (past ++ [a]) ↔
      ((reached grants (past ++ [a])).serving? p size).isSome = true ∧
        (front = past ++ [a] ∨
          Since grants p size front past ∧ ∀ eraseVacant, a ≠ .clear p eraseVacant) := by
  constructor
  · intro h
    generalize hnow : past ++ [a] = now at h
    cases h with
    | now present => exact ⟨present, Or.inl rfl⟩
    | later since uncleared present =>
        obtain ⟨rfl, hlast⟩ := List.append_inj' hnow rfl
        cases hlast
        exact ⟨present, Or.inr ⟨since, uncleared⟩⟩
  · rintro ⟨present, rfl | ⟨since, uncleared⟩⟩
    · exact .now present
    · exact .later since uncleared present

theorem Since.present {front past : List Action} (h : Since grants p size front past) :
    ((reached grants past).serving? p size).isSome = true := by
  cases h with
  | now present => exact present
  | later since uncleared present => exact present

section Snoc

variable {past : List Action} {a : Action}
  (hnow : (reached grants (past ++ [a])).serving? p size = some c)

include hnow

theorem demands_fresh
    (hcut : (∃ eraseVacant, a = .clear p eraseVacant) ∨ (reached grants past).serving? p size = none) :
    demands grants p size (past ++ [a]) = {c.inUse} := by
  ext n
  rw [Set.mem_singleton_iff]
  constructor
  · rintro ⟨front, d, hsince, hd, rfl⟩
    rcases (Since.snoc_iff.mp hsince).2 with rfl | ⟨hsince, huncleared⟩
    · cases hnow.symm.trans hd
      rfl
    · rcases hcut with ⟨eraseVacant, rfl⟩ | hnone
      · exact absurd rfl (huncleared eraseVacant)
      · have hpresent := hsince.present
        rw [hnone] at hpresent
        cases hpresent
  · rintro rfl
    exact ⟨_, c, .now (Option.isSome_of_eq_some hnow), hnow, rfl⟩

theorem demands_snoc (huncleared : ∀ eraseVacant, a ≠ .clear p eraseVacant) :
    demands grants p size (past ++ [a]) = insert c.inUse (demands grants p size past) := by
  have hpresent := Option.isSome_of_eq_some hnow
  ext n
  rw [Set.mem_insert_iff]
  constructor
  · rintro ⟨front, d, hsince, hd, rfl⟩
    rcases (Since.snoc_iff.mp hsince).2 with rfl | ⟨hsince, -⟩
    · cases hnow.symm.trans hd
      exact Or.inl rfl
    · exact Or.inr ⟨front, d, hsince, hd, rfl⟩
  · rintro (rfl | ⟨front, d, hsince, hd, rfl⟩)
    · exact ⟨_, c, .now hpresent, hnow, rfl⟩
    · exact ⟨front, d, .later hsince huncleared hpresent, hd, rfl⟩

end Snoc

/-- A class has as many chunks as were in use when most were. -/
theorem isGreatest_demands {past : List Action}
    (hc : (reached grants past).serving? p size = some c) :
    IsGreatest (demands grants p size past) c.chunks := by
  induction past using List.reverseRecOn generalizing c with
  | nil => cases hc
  | append_singleton past a ih =>
      have hpassed := passed_reached grants past
      have hstep : ((reached grants past).step a).2.serving? p size = some c := by
        rw [← reached_snoc]
        exact hc
      by_cases hclear : ∃ eraseVacant, a = .clear p eraseVacant
      · obtain ⟨eraseVacant, rfl⟩ := hclear
        rw [demands_fresh hc (Or.inl ⟨eraseVacant, rfl⟩), hpassed.sound.chunks_clear hstep]
        exact isGreatest_singleton
      · have huncleared := not_exists.mp hclear
        have hchunks := hpassed.chunks_step huncleared hstep
        cases hold : (reached grants past).serving? p size with
        | none =>
            rw [hold, Option.elim_none, Nat.zero_max] at hchunks
            rw [demands_fresh hc (Or.inr hold), hchunks]
            exact isGreatest_singleton
        | some old =>
            rw [hold, Option.elim_some, max_comm] at hchunks
            rw [demands_snoc hc huncleared, hchunks]
            exact (ih hold).insert _

/-! ### Requests that reach the heap -/

/-- A request for a block of the size is not served from the free list: the heap is asked, and it grants a
chunk or runs out. -/
def AsksHeap (w : World) (p : PoolId) (size : Nat) : Prop :=
  (w.step (.alloc p size)).2.heap.issued = w.heap.issued + 1 ∨
    (w.step (.alloc p size)).1 = .fault (.refused (.outOfMemory size))

theorem Sound.asksHeap_iff (h : w.Sound none) {pool : Pool} (hp : w.pools.get? p = some pool)
    (hadmitted : pool.config.refusal? size = none) :
    w.AsksHeap p size ↔ pool.classes.parkedFor size = [] := by
  have hall := h.allocated p size
  simp only [AsksHeap, World.step]
  generalize w.alloc p size = result at hall ⊢
  cases hall with
  | noPool closed => cases hp.symm.trans closed
  | inadmissible opened refusal =>
      cases hp.symm.trans opened
      cases hadmitted.symm.trans refusal
  | outOfMemory opened admitted table out =>
      cases hp.symm.trans opened
      cases out with
      | refused denied parked after => exact iff_of_true (Or.inr rfl) parked
  | @served pool T heap chunk supply opened admitted table out =>
      cases hp.symm.trans opened
      simp only [issue_lend]
      cases out with
      | hit found pop after =>
          rw [ClassTable.parkedFor_of_classFor? found, FreeList.chain_of_pop? pop]
          refine iff_of_false ?_ (List.cons_ne_nil _ _)
          rintro (hissued | hanswer)
          · exact (Nat.succ_ne_self _ hissued.symm).elim
          · cases hanswer
      | miss granted parked => exact iff_of_true (Or.inl rfl) parked

/-- The heap is asked just when one more block of the size is out than ever were. -/
theorem asksHeap_iff_demands {past : List Action} {pool : Pool}
    (hp : (reached grants past).pools.get? p = some pool)
    (hadmitted : pool.config.refusal? size = none) :
    (reached grants past).AsksHeap p size ↔
      ∀ n ∈ demands grants p size past, n < (reached grants past).outOf p size + 1 := by
  have hsound := (passed_reached grants past).sound
  rw [hsound.asksHeap_iff hp hadmitted]
  cases hc : pool.classes.classFor? size with
  | none =>
      refine iff_of_true (ClassTable.parkedFor_of_none hc) ?_
      rintro n ⟨front, c, hsince, -, -⟩
      have hpresent := hsince.present
      rw [serving?_of_get? hp, hc] at hpresent
      cases hpresent
  | some c =>
      have hgreatest : IsGreatest (demands grants p size past) (c.inUse + c.cached.len) :=
        isGreatest_demands ((serving?_of_get? hp).trans hc)
      have hclass := ((hsound.table p pool hp).classFor?_eq_some_iff.mp hc).1
      have hcounted : c.cached.len = c.cached.chain.length :=
        ((hsound.table p pool hp).sound _ c hclass).counted
      rw [ClassTable.parkedFor_of_classFor? hc, ← hsound.in_use_of_classFor? hp nofun hc,
        ← List.length_eq_zero_iff, ← hcounted]
      constructor
      · intro hnone n hn
        have hle := hgreatest.2 hn
        omega
      · intro hbelow
        have hlt := hbelow _ hgreatest.1
        omega

/-! ### The bound -/

/-- How what a pool keeps of a size compares with what was demanded. -/
structure KeepsNoMore (grants : Nat → Bool) (p : PoolId) (size : Nat) (past : List Action) : Prop where
  /-- Wherever the run is, in the middle of a teardown too, the class has as many chunks as were in use when
  most were. -/
  kept : ∀ {x falling c}, Arrived grants past x falling → x.serving? p size = some c →
    IsGreatest (demands grants p size past) (c.inUse + c.cached.len)
  /-- In the middle of a teardown there were never more in use than before it. -/
  amid : ∀ {front x falling c}, Since grants p size front past → Arrived grants front x falling →
    x.serving? p size = some c → ∃ n ∈ demands grants p size past, c.inUse ≤ n
  heap_iff : ∀ {pool}, (reached grants past).pools.get? p = some pool →
    pool.config.refusal? size = none → ((reached grants past).AsksHeap p size ↔
      ∀ n ∈ demands grants p size past, n < (reached grants past).outOf p size + 1)
  cycled : ∀ {serials x}, Cycles p size (reached grants past) serials x →
    Cycled p size (reached grants past) serials x

/-- After any run, a pool has no more chunks of a size than were demanded at once since it was cleared last,
goes to the heap only when more are, and serves blocks that are given back at once with one chunk. -/
theorem keeps_no_more_than_demanded (grants : Nat → Bool) (p : PoolId) (size : Nat)
    (past : List Action) : KeepsNoMore grants p size past where
  kept harrived hc := by
    cases harrived with
    | rest => exact isGreatest_demands hc
    | amid opened amid =>
        obtain ⟨old, hold, hchunks, -⟩ :=
          amid.chunks_eq (passed_reached grants past).sound opened hc
        have hgreatest := isGreatest_demands hold
        rw [← hchunks] at hgreatest
        exact hgreatest
  amid {front x falling c} hsince harrived hc := by
    have hold : ∃ old, (reached grants front).serving? p size = some old ∧ c.inUse ≤ old.inUse := by
      cases harrived with
      | rest => exact ⟨c, hc, Nat.le_refl _⟩
      | amid opened amid =>
          obtain ⟨old, hold, -, hle⟩ :=
            amid.chunks_eq (passed_reached grants front).sound opened hc
          exact ⟨old, hold, hle⟩
    obtain ⟨old, hold, hle⟩ := hold
    exact ⟨old.inUse, ⟨front, old, hsince, hold, rfl⟩, hle⟩
  heap_iff hp hadmitted := asksHeap_iff_demands hp hadmitted
  cycled hcycles := (passed_reached grants past).cycled hcycles

/-- Three blocks are out at once, all come back, and one of their chunks is out again. -/
example : (((start fun _ => true).run [.openStandard, .alloc ⟨0⟩ 8, .alloc ⟨0⟩ 8, .alloc ⟨0⟩ 8,
      .release ⟨1⟩, .release ⟨0⟩, .release ⟨2⟩, .alloc ⟨0⟩ 8]).2.serving? ⟨0⟩ 8).map
        (fun c => (c.inUse, c.cached.len)) = some (1, 2) := by
  decide

end World

end BlockPool
