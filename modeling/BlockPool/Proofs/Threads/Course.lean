import BlockPool.Pool
import BlockPool.Proofs.ClassTable.Counts
import BlockPool.Proofs.Threads

/-! How a pool comes through a schedule. What is parked for a size, taken together with what the
threads hold of it, is the level of the size. It only rises, and only when the threads hold more of
the size than ever; a clear lets it fall to what they hold. So the level after a calm schedule is
the level before or the joint peak, whichever is higher. -/

namespace BlockPool.Threads

variable {ι : Type}

/-- Nobody clears the pool meanwhile. -/
def Calm (schedule : List (Turn ι)) : Prop := ∀ eraseVacant, Turn.clear eraseVacant ∉ schedule

/-- Some thread asks for the size. -/
def Asked (size : Nat) (schedule : List (Turn ι)) : Prop :=
  ∃ i, Turn.call i (.obtain size) ∈ schedule

theorem Calm.of_cons {t : Turn ι} {rest : List (Turn ι)} (h : Calm (t :: rest)) :
    Calm [t] ∧ Calm rest := by
  constructor
  · intro eraseVacant hmem
    rw [List.mem_singleton] at hmem
    exact h eraseVacant (hmem ▸ List.mem_cons_self)
  · intro eraseVacant hmem
    exact h eraseVacant (List.mem_cons_of_mem t hmem)

theorem asked_cons {size : Nat} {t : Turn ι} {rest : List (Turn ι)} :
    Asked size (t :: rest) ↔ Asked size [t] ∨ Asked size rest := by
  simp only [Asked, List.mem_cons, List.not_mem_nil, or_false]
  exact exists_or

variable [Fintype ι]

/-- What is parked for a size, together with what the threads hold of it. -/
def level (size : Nat) (pool : Pool) (hands : ι → Hand Nat) : Nat :=
  pool.classes.cachedFor size + inHands size hands

theorem inHands_le_level (size : Nat) (pool : Pool) (hands : ι → Hand Nat) :
    inHands size hands ≤ level size pool hands :=
  Nat.le_add_left _ _

variable [DecidableEq ι]

/-- How a pool comes through a schedule, with these sizes in the hands of the threads before it. -/
structure Course (schedule : List (Turn ι)) (hands : ι → Hand Nat) (before after : Pool) :
    Prop where
  config : after.config = before.config
  level_le : ∀ size, level size after (schedule.foldl Turn.after hands) ≤
    max (level size before hands) (jointPeak size hands schedule)
  level_eq : Calm schedule → ∀ size, level size after (schedule.foldl Turn.after hands) =
    max (level size before hands) (jointPeak size hands schedule)
  mem_sizes : ∀ size ∈ after.sizes, size ∈ before.sizes ∨ Asked size schedule
  sizes_mem : Calm schedule → ∀ size, size ∈ before.sizes ∨ Asked size schedule →
    size ∈ after.sizes

theorem Course.nil (hands : ι → Hand Nat) (pool : Pool) : Course [] hands pool pool where
  config := rfl
  level_le _ := Nat.le_max_left _ _
  level_eq _ size := (Nat.max_eq_left (inHands_le_level size pool hands)).symm
  mem_sizes _ hsize := Or.inl hsize
  sizes_mem _ _ hsize := hsize.resolve_right fun ⟨_, hmem⟩ => List.not_mem_nil hmem

/-- The course of one turn, told by what happens to the level of each size. -/
theorem Course.single {t : Turn ι} {hands : ι → Hand Nat} {before after : Pool}
    (hconfig : after.config = before.config)
    (hle : ∀ size, level size after (t.after hands) ≤
      max (level size before hands) (inHands size (t.after hands)))
    (heq : Calm [t] → ∀ size, level size after (t.after hands) =
      max (level size before hands) (inHands size (t.after hands)))
    (hmem : ∀ size ∈ after.sizes, size ∈ before.sizes ∨ Asked size [t])
    (hsizes : Calm [t] → ∀ size, size ∈ before.sizes ∨ Asked size [t] → size ∈ after.sizes) :
    Course [t] hands before after := by
  have hpeak : ∀ size, max (level size before hands) (jointPeak size hands [t]) =
      max (level size before hands) (inHands size (t.after hands)) := by
    intro size
    have hbefore := inHands_le_level size before hands
    show max _ (max (inHands size hands) (inHands size (t.after hands))) = _
    omega
  refine ⟨hconfig, fun size => ?_, fun hcalm size => ?_, hmem, hsizes⟩
  · rw [hpeak]
    exact hle size
  · rw [hpeak]
    exact heq hcalm size

theorem Course.cons {t : Turn ι} {rest : List (Turn ι)} {hands : ι → Hand Nat}
    {before between after : Pool} (hfirst : Course [t] hands before between)
    (hrest : Course rest (t.after hands) between after) :
    Course (t :: rest) hands before after := by
  have hpeak : ∀ size, max (max (level size before hands) (jointPeak size hands [t]))
      (jointPeak size (t.after hands) rest) =
        max (level size before hands) (jointPeak size hands (t :: rest)) := by
    intro size
    have hafter := inHands_le_jointPeak size (t.after hands) rest
    show max (max _ (max (inHands size hands) (inHands size (t.after hands)))) _ =
      max _ (max (inHands size hands) _)
    omega
  refine ⟨hrest.config.trans hfirst.config, ?_, ?_, ?_, ?_⟩
  · intro size
    calc level size after (rest.foldl Turn.after (t.after hands))
        ≤ max (level size between (t.after hands)) (jointPeak size (t.after hands) rest) :=
          hrest.level_le size
      _ ≤ max (max (level size before hands) (jointPeak size hands [t]))
          (jointPeak size (t.after hands) rest) := max_le_max_right _ (hfirst.level_le size)
      _ = max (level size before hands) (jointPeak size hands (t :: rest)) := hpeak size
  · intro hcalm size
    obtain ⟨hcalm_first, hcalm_rest⟩ := hcalm.of_cons
    have hbetween : level size between (t.after hands) = _ := hfirst.level_eq hcalm_first size
    calc level size after (rest.foldl Turn.after (t.after hands))
        = max (level size between (t.after hands)) (jointPeak size (t.after hands) rest) :=
          hrest.level_eq hcalm_rest size
      _ = max (max (level size before hands) (jointPeak size hands [t]))
          (jointPeak size (t.after hands) rest) := by rw [hbetween]
      _ = max (level size before hands) (jointPeak size hands (t :: rest)) := hpeak size
  · intro size hsize
    rw [asked_cons, ← or_assoc]
    exact (hrest.mem_sizes size hsize).imp_left (hfirst.mem_sizes size)
  · intro hcalm size hsize
    obtain ⟨hcalm_first, hcalm_rest⟩ := hcalm.of_cons
    rw [asked_cons, ← or_assoc] at hsize
    exact hrest.sizes_mem hcalm_rest size (hsize.imp_left (hfirst.sizes_mem hcalm_first size))

/-! ### The course of one turn -/

section Turn

variable (hands : ι → Hand Nat) (i : ι) {pool : Pool} {T : ClassTable} {size : Nat}
  (hpool : pool.classes.Sound) (hT : T.Sound)

include hpool hT

/-- Handing out a block raises the level of its size just when none was parked. -/
theorem Course.obtain {heap heap' : Heap} {chunk : Chunk} {supply : Supply}
    (hout : pool.classes.CheckedOut heap size (some (chunk, supply)) T heap') :
    Course [.call i (.obtain size)] hands pool { pool with classes := T } := by
  have hlevel : ∀ other, level other { pool with classes := T }
      (Turn.after hands (.call i (.obtain size))) = max (level other pool hands)
        (inHands other (Turn.after hands (.call i (.obtain size)))) := by
    intro other
    rw [level, hout.cachedFor_eq hpool, inHands_obtain, level]
    by_cases ho : other = size
    · subst ho
      rw [Function.update_self, if_pos rfl]
      omega
    · rw [Function.update_of_ne ho, if_neg (Ne.symm ho), Nat.add_zero]
      omega
  have hasked : ∀ other, Asked other [Turn.call i (.obtain size)] ↔ other = size := by
    intro other
    simp [Asked, eq_comm]
  have hsizes : ∀ other, other ∈ Pool.sizes { pool with classes := T } ↔
      other ∈ pool.sizes ∨ Asked other [Turn.call i (.obtain size)] := by
    intro other
    rw [hasked, or_comm]
    exact hout.mem_sizes_iff hpool hT
  exact .single rfl (fun other => (hlevel other).le) (fun _ => hlevel)
    (fun other => (hsizes other).mp) fun _ other => (hsizes other).mpr

/-- A block that comes back keeps the level of its size. -/
theorem Course.giveBack {k : Nat} {c : SizeClass} {chunk : Chunk}
    (hk : (hands i)[k]? = some (some size)) (hc : pool.classes.classFor? size = some c)
    (hafter : T.classFor? =
      Function.update pool.classes.classFor? size (some (c.checkin chunk))) :
    Course [.call i (.giveBack k)] hands pool { pool with classes := T } := by
  have hlevel : ∀ other, level other { pool with classes := T }
      (Turn.after hands (.call i (.giveBack k))) = max (level other pool hands)
        (inHands other (Turn.after hands (.call i (.giveBack k)))) := by
    intro other
    have hheld := inHands_giveBack other hk
    rw [level, ClassTable.cachedFor_of_checkin hc hafter, level]
    by_cases ho : other = size
    · subst ho
      rw [if_pos rfl] at hheld
      rw [Function.update_self]
      omega
    · rw [if_neg (Ne.symm ho)] at hheld
      rw [Function.update_of_ne ho]
      omega
  have hsizes : ∀ other, other ∈ Pool.sizes { pool with classes := T } ↔ other ∈ pool.sizes :=
    fun other => hpool.mem_sizes_of_checkin hc hafter hT
  have hnever : ∀ other, ¬Asked other [Turn.call i (.giveBack k)] := by
    intro other hasked
    simp [Asked] at hasked
  exact .single rfl (fun other => (hlevel other).le) (fun _ => hlevel)
    (fun other hother => Or.inl ((hsizes other).mp hother))
    fun _ other hother => (hsizes other).mpr (hother.resolve_right (hnever other))

omit hT in
/-- A clear lets the level of every size fall to what the threads hold. -/
theorem Course.clear (eraseVacant : Bool) : Course [.clear eraseVacant] hands pool
    { pool with classes := (pool.classes.drain eraseVacant).2 } := by
  have hnot : ¬Calm [(Turn.clear eraseVacant : Turn ι)] :=
    fun hcalm => hcalm eraseVacant List.mem_cons_self
  refine .single rfl ?_ (fun hcalm => absurd hcalm hnot) ?_ fun hcalm => absurd hcalm hnot
  · intro other
    rw [level, hpool.cachedFor_drain, Nat.zero_add]
    exact Nat.le_max_right _ _
  · intro other hother
    exact Or.inl ((hpool.mem_sizes_drain eraseVacant other).mp hother).1

end Turn

end BlockPool.Threads
