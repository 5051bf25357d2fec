import BlockPool.Proofs.World.Silence

/-! What pools admit. A pool makes classes only for sizes that its settings admit, and nobody changes the
settings of a pool that is open; so a size that has a class is one of which the pool hands out blocks. -/

namespace BlockPool.World

/-- Every class of an open pool is of a size that the settings of the pool admit. -/
def Admits (w : World) : Prop :=
  ∀ p pool, w.pools.get? p = some pool → ∀ size, (pool.classes.classFor? size).isSome = true →
    pool.config.refusal? size = none

theorem Admits.start (grants : Nat → Bool) : (World.start grants).Admits := by
  intro p pool hp
  cases hp

section Step

variable {w w' : World} (h : w.Admits) {p : PoolId} {pool : Pool}

include h

/-- Pools may close. -/
theorem Admits.of_pools
    (hpools : ∀ p pool, w'.pools.get? p = some pool → w.pools.get? p = some pool) : w'.Admits :=
  fun p pool hp => h p pool (hpools p pool hp)

/-- A pool may lose classes, and get classes for sizes that it admits. -/
theorem Admits.setPool (hp : w.pools.get? p = some pool) {T : ClassTable}
    (hpools : w'.pools = w.pools.set p { pool with classes := T })
    (hT : ∀ size, (T.classFor? size).isSome = true →
      (pool.classes.classFor? size).isSome = true ∨ pool.config.refusal? size = none) :
    w'.Admits := by
  intro q pool' hq size hsize
  rw [hpools, Registry.get?_set hp] at hq
  split at hq
  · cases hq
    rcases hT size hsize with hold | hadmits
    · exact h p pool hp size hold
    · exact hadmits
  · exact h q pool' hq size hsize

theorem Admits.enter (config : Config) : (w.enter config).2.Admits := by
  intro q pool hq size hsize
  have hget : (w.pools.add { config }).2.get? q = some pool := hq
  rw [Registry.get?_add] at hget
  split at hget
  · cases hget
    cases hsize
  · exact h q pool hget size hsize

theorem Admits.alloc (hw : w.Sound none) (p : PoolId) (size : Nat) : (w.alloc p size).2.Admits := by
  have hall := hw.allocated p size
  generalize w.alloc p size = result at hall ⊢
  cases hall with
  | noPool closed => exact h
  | inadmissible opened refusal => exact h
  | outOfMemory opened admitted table out =>
      cases out with
      | refused denied parked after =>
          exact h.setPool opened rfl fun s hs => Or.inl (after ▸ hs)
  | served opened admitted table out =>
      obtain ⟨c, hafter, -⟩ := out.served (hw.table _ _ opened)
      refine h.setPool opened rfl fun s hs => ?_
      by_cases hne : s = size
      · exact Or.inr (hne ▸ admitted)
      · rw [hafter, Function.update_of_ne hne] at hs
        exact Or.inl hs

theorem Admits.release {falling : Option PoolId} (hw : w.Sound falling) (b : BlockId) :
    (w.release b).Admits := by
  have hall := hw.released b
  generalize w.release b = result at hall ⊢
  cases hall with
  | notHeld | homeless | orphaned => exact h
  | @parked block pool c T held opened stands found owner in_use table after =>
      refine h.setPool opened rfl fun s hs => Or.inl ?_
      by_cases hne : s = block.size
      · rw [hne, found]
        rfl
      · rwa [after, Function.update_of_ne hne] at hs

theorem Admits.releases {falling : Option PoolId} (hw : w.Sound falling) (bs : List BlockId) :
    (bs.foldl World.release w).Admits := by
  induction bs generalizing w with
  | nil => exact h
  | cons b rest ih => exact ih (h.release hw b) (hw.release b)

theorem Admits.clear (hw : w.Sound none) (p : PoolId) (eraseVacant : Bool) :
    (w.clear p eraseVacant).2.Admits := by
  cases hp : w.pools.get? p with
  | none => simpa only [World.clear, hp] using h
  | some pool =>
      rw [clear_eq hp]
      refine h.setPool hp rfl fun s hs => Or.inl ?_
      rw [(hw.table p pool hp).classFor?_drain] at hs
      exact Option.isSome_of_isSome_bind hs

theorem Admits.emptied (hp : w.pools.get? p = some pool) : (w.emptied p pool).Admits :=
  h.setPool hp rfl nofun

theorem Admits.tearDown (hw : w.Sound none) (p : PoolId) (during : List BlockId) :
    (w.tearDown p during).2.Admits := by
  rcases tearDown_cases w p during with ⟨fault, heq⟩ | ⟨pool, hp, hheld⟩
  · rw [heq]
    exact h
  · refine (h.releases hw during).of_pools fun q pool' hq => ?_
    by_cases hne : q = p
    · rw [hne, (closed_tearDown hp hheld).2] at hq
      cases hq
    · exact ((Beside.tearDown hp hheld).pools q hne).symm.trans hq

theorem Admits.step (hw : w.Sound none) (a : Action) : (w.step a).2.Admits := by
  rw [step_world]
  cases a with
  | openPool config =>
      rw [World.after]
      rcases openPool_world w config with heq | heq
      · rw [heq]
        exact h
      · rw [heq]
        exact h.enter config
  | openStandard => exact h.enter .standard
  | alloc p size => exact h.alloc hw p size
  | free p b =>
      rw [World.after]
      rcases free_world w p b with heq | ⟨pool, -, heq⟩ | heq
      · rw [heq]
        exact h
      · have hreport : (w.report p pool .refused).Admits := h
        rw [heq]
        exact hreport.release (hw.report p pool .refused) b
      · rw [heq]
        exact h.release hw b
  | release b => exact h.release hw b
  | write b offset data =>
      have hall := written w b offset data
      rw [World.after]
      generalize (w.write b offset data).2 = result at hall ⊢
      cases hall <;> exact h
  | clear p eraseVacant => exact h.clear hw p eraseVacant
  | destroy p during | discard p during => exact h.tearDown hw p during
  | sizes | contains | count | read | belongs => exact h

end Step

/-- In every world that a run passes through, every class is of a size that its pool admits. -/
theorem Passed.admits {grants : Nat → Bool} {w : World} {falling : Option PoolId}
    (h : Passed grants w falling) : w.Admits := by
  induction h with
  | start => exact Admits.start grants
  | step before a ih => exact ih.step before.sound a
  | fall before opened ih => exact ih.emptied opened
  | release before b ih => exact ih.release before.sound b
  | regrant before other ih => exact ih.of_pools fun _ _ hp => hp

end BlockPool.World
