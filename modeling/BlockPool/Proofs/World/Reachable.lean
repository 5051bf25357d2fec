import BlockPool.Proofs.World.Sound

/-! The worlds that runs pass through: the world after every action, and in the middle of a teardown
also the world right after the pool lost its classes and after each block released from then on. The
heap may change its mind at any of these points: what it granted once it may refuse later, while
chunks of that size are out, parked or cleared away. All these worlds are sound. -/

namespace BlockPool.World

/-- The world after an action, without the answer. -/
def after (w : World) : Action → World
  | .openPool config => (w.openPool config).2
  | .openStandard => (w.enter .standard).2
  | .alloc p size => (w.alloc p size).2
  | .free p b => (w.free p b).2
  | .release b => w.release b
  | .write b offset data => (w.write b offset data).2
  | .clear p eraseVacant => (w.clear p eraseVacant).2
  | .destroy p during | .discard p during => (w.tearDown p during).2
  | .sizes _ | .contains _ _ | .count _ | .read _ | .belongs _ _ => w

theorem release_of_get?_none {w : World} {b : BlockId} (hb : w.held.get? b = none) :
    w.release b = w := by
  simp [release, hb]

theorem step_world (w : World) (a : Action) : (w.step a).2 = w.after a := by
  cases a with
  | release b =>
      cases hb : w.held.get? b with
      | none => simp [step, after, hb, release_of_get?_none hb]
      | some block => simp [step, after, hb]
  | read b =>
      cases hb : w.bytes? b <;> simp [step, after, hb]
  | openStandard | sizes | contains | count | belongs => rfl
  | openPool config =>
      rcases hresult : w.openPool config with ⟨_ | _, _⟩ <;> simp [step, after, hresult]
  | alloc p size =>
      rcases hresult : w.alloc p size with ⟨_ | _, _⟩ <;> simp [step, after, hresult]
  | free p b =>
      rcases hresult : w.free p b with ⟨_ | _, _⟩ <;> simp [step, after, hresult]
  | write b offset data =>
      rcases hresult : w.write b offset data with ⟨_ | _, _⟩ <;> simp [step, after, hresult]
  | clear p eraseVacant =>
      rcases hresult : w.clear p eraseVacant with ⟨_ | _, _⟩ <;> simp [step, after, hresult]
  | destroy p during | discard p during =>
      rcases hresult : w.tearDown p during with ⟨_ | _, _⟩ <;> simp [step, after, hresult]

theorem run_append (w : World) (actions later : List Action) :
    (w.run (actions ++ later)).2 = ((w.run actions).2.run later).2 := by
  induction actions generalizing w with
  | nil => rfl
  | cons a rest ih => exact ih (w.step a).2

theorem openPool_world (w : World) (config : Config) :
    (w.openPool config).2 = w ∨ (w.openPool config).2 = (w.enter config).2 := by
  unfold openPool
  cases hcheck : config.check with
  | error problem => exact Or.inl rfl
  | ok config' =>
      obtain ⟨-, rfl⟩ := Config.check_eq_ok_iff.mp hcheck
      exact Or.inr rfl

theorem Sound.step {w : World} (h : w.Sound none) (a : Action) : (w.step a).2.Sound none := by
  rw [step_world]
  cases a with
  | openPool config =>
      rcases openPool_world w config with heq | heq
      · rw [World.after, heq]
        exact h
      · rw [World.after, heq]
        exact h.enter config
  | openStandard => exact h.enter .standard
  | alloc p size => exact h.alloc p size
  | free p b => exact h.free p b
  | release b => exact h.release b
  | write b offset data => exact h.write b offset data
  | clear p eraseVacant => exact h.clear p eraseVacant
  | destroy p during | discard p during => exact h.tearDown p during
  | sizes | contains | count | read | belongs => exact h

/-! ### A heap that changes its mind -/

/-- The world on a heap that grants these sizes from now on, and no others. -/
def regrant (w : World) (grants : Nat → Bool) : World := { w with heap := { w.heap with grants } }

theorem Sound.regrant {w : World} {falling : Option PoolId} (h : w.Sound falling)
    (grants : Nat → Bool) : (w.regrant grants).Sound falling :=
  ⟨h.table, h.in_use, h.home, h.fallen, h.known⟩

/-- What can happen next: a caller does something, or the heap grants other sizes from now on. -/
inductive Move
  | act (a : Action)
  | regrant (grants : Nat → Bool)

/-- The answers to the actions in a sequence of moves, in order, and the world after the moves. -/
def play (w : World) : List Move → List Answer × World
  | [] => ([], w)
  | .act a :: rest =>
    let (answer, w) := w.step a
    let (answers, w) := w.play rest
    (answer :: answers, w)
  | .regrant grants :: rest => (w.regrant grants).play rest

/-- Runs are the plays in which the heap never changes its mind. -/
theorem play_act (w : World) (actions : List Action) : w.play (actions.map .act) = w.run actions := by
  induction actions generalizing w with
  | nil => rfl
  | cons a rest ih => simp only [List.map_cons, play, run, ih]

/-! ### Every world on the way -/

/-- The worlds that a run passes through, on a heap that grants these sizes at first. The pool that is
being torn down at that moment, if there is one, stands beside the world. -/
inductive Passed (grants : Nat → Bool) : World → Option PoolId → Prop
  | start : Passed grants (World.start grants) none
  | step {w : World} (before : Passed grants w none) (a : Action) :
      Passed grants (w.step a).2 none
  | fall {w : World} (before : Passed grants w none) {p : PoolId} {pool : Pool}
      (opened : w.pools.get? p = some pool) : Passed grants (w.emptied p pool) (some p)
  | release {w : World} {p : PoolId} (before : Passed grants w (some p)) (b : BlockId) :
      Passed grants (w.release b) (some p)
  /-- The heap changes its mind, in the middle of a teardown too. -/
  | regrant {w : World} {falling : Option PoolId} (before : Passed grants w falling)
      (other : Nat → Bool) : Passed grants (w.regrant other) falling

theorem Passed.sound {grants : Nat → Bool} {w : World} {falling : Option PoolId}
    (h : Passed grants w falling) : w.Sound falling := by
  induction h with
  | start => exact Sound.start grants
  | step before a ih => exact ih.step a
  | fall before opened ih => exact ih.emptied opened
  | release before b ih => exact ih.release b
  | regrant before other ih => exact ih.regrant other

theorem Passed.play {grants : Nat → Bool} {w : World} (h : Passed grants w none)
    (moves : List Move) : Passed grants (w.play moves).2 none := by
  induction moves generalizing w with
  | nil => exact h
  | cons move rest ih =>
      cases move with
      | act a => exact ih (h.step a)
      | regrant other => exact ih (h.regrant other)

theorem Passed.run {grants : Nat → Bool} {w : World} (h : Passed grants w none)
    (actions : List Action) : Passed grants (w.run actions).2 none :=
  play_act w actions ▸ h.play (actions.map .act)

end BlockPool.World
