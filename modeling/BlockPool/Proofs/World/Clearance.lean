import BlockPool.Proofs.ClassTable.Redrain
import BlockPool.Proofs.World.Silence

/-! What a clear does, in the report that it writes and in the world that it leaves. The numbers of the
report are those of the table before it; the classes that stay lose what was parked and nothing else, and
callers and other pools do not notice. Clears absorb each other: to the pools it makes no difference that a
clear was made before one that drops idle classes, or after it. -/

namespace BlockPool.World

/-- What a clear of an open pool comes to. -/
structure Clearance (w : World) (p : PoolId) (pool : Pool) (eraseVacant : Bool) : Prop where
  answer : (w.step (.clear p eraseVacant)).1 = .done
  report : ∃ drained remaining, (w.step (.clear p eraseVacant)).2.log =
      w.log.push (pool.record p (.cleared drained remaining)) ∧
    drained.chunks = (pool.classes.classes.map (·.cached.len)).sum ∧
    drained.classes =
      (if eraseVacant then pool.classes.classes.countP fun c => decide (c.inUse = 0) else 0) ∧
    remaining + drained.classes = pool.classes.size
  table : ∃ T, (w.step (.clear p eraseVacant)).2.pools.get? p = some { pool with classes := T } ∧
    pool.classes.Drainage eraseVacant T
  others : ∀ q ≠ p, (w.step (.clear p eraseVacant)).2.pools.get? q = w.pools.get? q
  held : (w.step (.clear p eraseVacant)).2.held = w.held
  /-- The same clear once more finds nothing to do, and says so. -/
  again : ((w.step (.clear p eraseVacant)).2.step (.clear p eraseVacant)).2.pools =
      (w.step (.clear p eraseVacant)).2.pools ∧
    ∀ left, (w.step (.clear p eraseVacant)).2.pools.get? p = some left →
      ((w.step (.clear p eraseVacant)).2.step (.clear p eraseVacant)).2.log =
        (w.step (.clear p eraseVacant)).2.log.push
          (left.record p (.cleared ⟨0, 0⟩ left.classes.size))

/-- Two clears of which one drops idle classes leave the pools as this one leaves them. -/
structure ClearsAbsorb (w : World) (p : PoolId) : Prop where
  keep_drop : ((w.step (.clear p false)).2.step (.clear p true)).2.pools =
    (w.step (.clear p true)).2.pools
  drop_keep : ((w.step (.clear p true)).2.step (.clear p false)).2.pools =
    (w.step (.clear p true)).2.pools

section Clear

variable {w : World} {falling : Option PoolId} {p : PoolId} {pool : Pool}

theorem step_clear (hp : w.pools.get? p = some pool) (eraseVacant : Bool) :
    w.step (.clear p eraseVacant) = (.done, World.report
      { w with pools := w.pools.set p { pool with classes := (pool.classes.drain eraseVacant).2 } }
      p pool (.cleared (pool.classes.drain eraseVacant).1 (pool.classes.drain eraseVacant).2.size)) := by
  simp only [step, clear_eq hp]

theorem get?_step_clear (hp : w.pools.get? p = some pool) (eraseVacant : Bool) :
    (w.step (.clear p eraseVacant)).2.pools.get? p =
      some { pool with classes := (pool.classes.drain eraseVacant).2 } := by
  rw [step_clear hp]
  exact (Registry.get?_set hp).trans (if_pos rfl)

/-- Of two clears in a row the pools show one, which drops idle classes if one of the two does. -/
theorem Sound.pools_clear_clear (h : w.Sound falling) (hp : w.pools.get? p = some pool)
    (eraseVacant eraseVacant' : Bool) :
    ((w.step (.clear p eraseVacant)).2.step (.clear p eraseVacant')).2.pools =
      (w.step (.clear p (eraseVacant || eraseVacant'))).2.pools := by
  calc ((w.step (.clear p eraseVacant)).2.step (.clear p eraseVacant')).2.pools
      = (w.step (.clear p eraseVacant)).2.pools.set p
          { pool with classes := ((pool.classes.drain eraseVacant).2.drain eraseVacant').2 } := by
        rw [step_clear (get?_step_clear hp eraseVacant)]
        rfl
    _ = w.pools.set p
          { pool with classes := ((pool.classes.drain eraseVacant).2.drain eraseVacant').2 } := by
        rw [step_clear hp]
        exact Registry.set_set _ _ _ _
    _ = w.pools.set p
          { pool with classes := (pool.classes.drain (eraseVacant || eraseVacant')).2 } := by
        rw [(h.table p pool hp).drain_drain]
    _ = (w.step (.clear p (eraseVacant || eraseVacant'))).2.pools := by
        rw [step_clear hp]
        rfl

theorem Sound.clearsAbsorb (h : w.Sound falling) (hp : w.pools.get? p = some pool) :
    w.ClearsAbsorb p :=
  ⟨h.pools_clear_clear hp false true, h.pools_clear_clear hp true false⟩

theorem Sound.clearance (h : w.Sound falling) (hp : w.pools.get? p = some pool)
    (eraseVacant : Bool) : w.Clearance p pool eraseVacant := by
  have ht := h.table p pool hp
  have hstep := step_clear hp eraseVacant
  refine ⟨?_, ?_, ?_, ?_, ?_, ?_, ?_⟩
  · rw [hstep]
  · refine ⟨_, _, by rw [hstep]; rfl, ?_, ?_, ht.size_drain eraseVacant⟩
    · rw [ht.chunks_drain, ht.map_len_classes]
    · rw [ht.classes_drain]
      cases eraseVacant <;> simp
  · exact ⟨_, get?_step_clear hp eraseVacant, ht.drainage eraseVacant⟩
  · intro q hne
    rw [hstep]
    exact (Registry.get?_set hp).trans (if_neg hne)
  · rw [hstep]
    rfl
  · have hpools := h.pools_clear_clear hp eraseVacant eraseVacant
    rwa [Bool.or_self] at hpools
  · intro left hleft
    cases hleft.symm.trans (get?_step_clear hp eraseVacant)
    rw [step_clear (get?_step_clear hp eraseVacant)]
    show (w.step (.clear p eraseVacant)).2.log.push _ = _
    rw [ht.drained_again, ht.drain_drain, Bool.or_self]
    rfl

end Clear

/-- Wherever a run has come to, in the middle of a teardown too, a clear of an open pool does what it
reports, and clears absorb each other. -/
theorem Passed.clears_exact {grants : Nat → Bool} {w : World} {falling : Option PoolId}
    (h : Passed grants w falling) {p : PoolId} {pool : Pool} (hp : w.pools.get? p = some pool) :
    (∀ eraseVacant, w.Clearance p pool eraseVacant) ∧ w.ClearsAbsorb p :=
  ⟨fun eraseVacant => h.sound.clearance hp eraseVacant, h.sound.clearsAbsorb hp⟩

/-- Of three classes one is idle, one has a block out and one has both; the clear drops the first, whose
slot is vacated beside one that a refused request had left. -/
theorem clears_exact_in_short_run :
    let w := ((start fun size => decide (size ≤ 64)).run [.openStandard, .alloc ⟨0⟩ 8, .alloc ⟨0⟩ 16,
      .alloc ⟨0⟩ 32, .alloc ⟨0⟩ 32, .alloc ⟨0⟩ 128, .release ⟨0⟩, .release ⟨2⟩]).2
    let w' := (w.step (.clear ⟨0⟩ true)).2
    ∃ pool, w.pools.get? ⟨0⟩ = some pool ∧ pool.classes.vacant = [3] ∧
      (w'.log.back?.map (·.event)) = some (.cleared ⟨2, 1⟩ 2) ∧
      (w'.pools.get? ⟨0⟩).map (fun pool => (pool.sizes, pool.classes.vacant)) =
        some ([16, 32], [0, 3]) ∧
      (∀ eraseVacant, w.Clearance ⟨0⟩ pool eraseVacant) ∧ w.ClearsAbsorb ⟨0⟩ := by
  intro w w'
  have hrun : Passed (fun size => decide (size ≤ 64)) w none := Passed.start.run _
  have hopen : (w.pools.get? ⟨0⟩).isSome = true := by decide +kernel
  have hvacant : (w.pools.get? ⟨0⟩).map (·.classes.vacant) = some [3] := by decide +kernel
  obtain ⟨pool, hp⟩ := Option.isSome_iff_exists.mp hopen
  rw [hp] at hvacant
  obtain ⟨hclears, habsorb⟩ := Passed.clears_exact hrun hp
  exact ⟨pool, hp, Option.some.inj hvacant, by decide +kernel, by decide +kernel, hclears, habsorb⟩

end BlockPool.World
