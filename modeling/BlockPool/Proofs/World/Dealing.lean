import BlockPool.Proofs.World.Admission
import BlockPool.Proofs.World.Excerpt
import BlockPool.Proofs.World.Homecoming

/-! What happens to one size of one pool in a run. Blocks of the size come back, also in the middle of the
teardown of another pool, the pool is asked for blocks of the size, it is cleared, and it is torn down. The
class that serves the size follows these dealings and notices nothing else. -/

namespace BlockPool

/-- One thing that happens to a size of a pool. -/
inductive Dealing
  /-- A block of the size comes back, with this chunk in it. -/
  | returned (b : BlockId) (chunk : Chunk)
  /-- Somebody asks for a block of the size: the answer, and what the pool says of the size meanwhile. -/
  | asked (answer : Answer) (said : List Event)
  | cleared (eraseVacant : Bool)
  | closed
  deriving DecidableEq

/-- What a dealing makes of the class that serves the size, which is not there if the size has none or the
pool is closed. -/
inductive Dealt (size : Nat) : Option SizeClass → Dealing → Option SizeClass → Prop
  | parked {c : SizeClass} {b : BlockId} {chunk : Chunk} (in_use : 0 < c.inUse) :
      Dealt size (some c) (.returned b chunk) (some (c.checkin chunk))
  | strayed {b : BlockId} {chunk : Chunk} : Dealt size none (.returned b chunk) none
  | hit {c : SizeClass} {b : BlockId} {chunk : Chunk} {rest : FreeList} (sound : c.Sound)
      (pop : c.cached.pop? = some (chunk, rest)) :
      Dealt size (some c) (.asked (.issued b chunk.serial chunk.payload) [.supplied .hit size])
        (some (c.afterHit rest))
  | miss {c : SizeClass} {before : Option SizeClass} {b : BlockId} {serial : Nat}
      (found : before = none ∨ before = some c) (empty : c.cached = {}) :
      Dealt size before
        (.asked (.issued b serial (.zeros size)) [.supplied (.miss before.isNone) size])
        (some c.afterMiss)
  | refused {before after : Option SizeClass} {answer : Answer} {said : List Event}
      (parked : ∀ c, before = some c → c.cached.chain = []) (same : after = before) :
      Dealt size before (.asked answer said) after
  | cleared {before : Option SizeClass} {eraseVacant : Bool} :
      Dealt size before (.cleared eraseVacant) (before.bind fun c => c.drained eraseVacant)
  | closed {before : Option SizeClass} : Dealt size before .closed none

/-- What some dealings, one after another, make of the class. -/
inductive Deals (size : Nat) : Option SizeClass → List Dealing → Option SizeClass → Prop
  | nil (c : Option SizeClass) : Deals size c [] c
  | cons {c c' c'' : Option SizeClass} {d : Dealing} {rest : List Dealing}
      (first : Dealt size c d c') (later : Deals size c' rest c'') : Deals size c (d :: rest) c''

namespace Deals

variable {size : Nat} {c c' c'' : Option SizeClass} {ds es : List Dealing}

theorem of_eq (h : c' = c) : Deals size c [] c' := by
  rw [h]
  exact .nil c

theorem eq_of_nil (h : Deals size c [] c') : c' = c := by
  cases h
  rfl

theorem single {d : Dealing} (h : Dealt size c d c') : Deals size c [d] c' := .cons h (.nil c')

theorem append (h : Deals size c ds c') (h' : Deals size c' es c'') : Deals size c (ds ++ es) c'' := by
  induction h with
  | nil c => exact h'
  | cons first later ih => exact .cons first (ih h')

theorem of_append (h : Deals size c (ds ++ es) c'') :
    ∃ c', Deals size c ds c' ∧ Deals size c' es c'' := by
  induction ds generalizing c with
  | nil => exact ⟨c, .nil c, h⟩
  | cons d rest ih =>
      cases h with
      | cons first later =>
          obtain ⟨c', hfront, hback⟩ := ih later
          exact ⟨c', .cons first hfront, hback⟩

end Deals

namespace World

variable {w w' : World} {falling : Option PoolId} {p q : PoolId} {pool : Pool} {size : Nat}

/-- The class from which a pool serves a size. -/
def serving? (w : World) (p : PoolId) (size : Nat) : Option SizeClass :=
  (w.pools.get? p).bind fun pool => pool.classes.classFor? size

section Dealings

variable (p : PoolId) (size : Nat)

/-- The blocks of the size among those that are released here one after another. -/
def returns (held : Registry Block) : List BlockId → List Dealing
  | [] => []
  | b :: rest =>
    (match held.get? b with
      | some block =>
        if block.pool = p ∧ block.size = size then [.returned b block.chunk] else []
      | none => []) ++ returns (held.remove b) rest

/-- What an action has to do with the size. -/
def dealing (w : World) : Action → List Dealing
  | .alloc q n =>
    if q = p ∧ n = size then
      [.asked (w.step (.alloc q n)).1 (saidBetween w.log (w.step (.alloc q n)).2.log p size)]
    else []
  | .free q b => if (w.pools.get? q).isSome then returns p size w.held [b] else []
  | .release b => returns p size w.held [b]
  | .clear q eraseVacant => if q = p then [.cleared eraseVacant] else []
  | .destroy q during | .discard q during =>
    if (w.pools.get? q).isSome ∧ ∀ b ∈ during, (w.held.get? b).isSome = true then
      if q = p then [.closed] else returns p size w.held during
    else []
  | .openPool _ | .openStandard | .write _ _ _ | .sizes _ | .contains _ _ | .count _ | .read _
  | .belongs _ _ => []

/-- What a run has to do with the size. -/
def dealings (w : World) : List Action → List Dealing
  | [] => []
  | a :: rest => dealing p size w a ++ dealings (w.step a).2 rest

end Dealings

/-! ### The class that serves a size -/

theorem serving?_of_get? (hp : w.pools.get? p = some pool) :
    w.serving? p size = pool.classes.classFor? size := by
  rw [serving?, hp]
  rfl

theorem serving?_of_closed (hp : w.pools.get? p = none) : w.serving? p size = none := by
  rw [serving?, hp]
  rfl

theorem serving?_eq_some_iff {c : SizeClass} : w.serving? p size = some c ↔
    ∃ pool, w.pools.get? p = some pool ∧ pool.classes.classFor? size = some c :=
  Option.bind_eq_some_iff

theorem serving?_congr (hpools : w'.pools.get? p = w.pools.get? p) :
    w'.serving? p size = w.serving? p size := by
  rw [serving?, serving?, hpools]

theorem serving?_set (hq : w.pools.get? q = some pool) {T : ClassTable}
    (hpools : w'.pools = w.pools.set q { pool with classes := T }) :
    w'.serving? p size = if q = p then T.classFor? size else w.serving? p size := by
  have hget : w'.pools.get? p =
      if p = q then some { pool with classes := T } else w.pools.get? p := by
    rw [hpools]
    exact Registry.get?_set hq
  split
  · next heq => exact serving?_of_get? (hget.trans (if_pos heq.symm))
  · next hne => exact serving?_congr (hget.trans (if_neg (Ne.symm hne)))

/-- A pool gets another table, in which the class of one size is another one. -/
theorem serving?_update (hq : w.pools.get? q = some pool) {T : ClassTable}
    (hpools : w'.pools = w.pools.set q { pool with classes := T }) {n : Nat} {c : Option SizeClass}
    (hT : T.classFor? = Function.update pool.classes.classFor? n c) :
    w'.serving? p size = if q = p ∧ n = size then c else w.serving? p size := by
  rw [serving?_set hq hpools, hT, Function.update_apply]
  by_cases hp : q = p
  · subst hp
    rw [serving?_of_get? hq]
    simp only [true_and, if_true, eq_comm]
  · rw [if_neg hp, if_neg fun hand => hp hand.1]

theorem serving?_enter (w : World) (config : Config) :
    (w.enter config).2.serving? p size = w.serving? p size := by
  have hget : (w.enter config).2.pools.get? p =
      if p = (w.pools.add { config }).1 then some { config } else w.pools.get? p := Registry.get?_add
  by_cases hnew : p = (w.pools.add { config }).1
  · rw [if_pos hnew] at hget
    rw [serving?_of_get? hget, hnew, serving?_of_closed Registry.get?_add_self_eq_none]
    rfl
  · rw [if_neg hnew] at hget
    exact serving?_congr hget

/-! ### Blocks that come back -/

theorem returns_cons (held : Registry Block) (b : BlockId) (rest : List BlockId) :
    returns p size held (b :: rest) =
      returns p size held [b] ++ returns p size (held.remove b) rest := by
  simp [returns]

theorem returns_of_not (held : Registry Block) {b : BlockId}
    (hnot : ∀ block, held.get? b = some block → ¬(block.pool = p ∧ block.size = size)) :
    returns p size held [b] = [] := by
  simp only [returns, List.append_nil]
  cases hb : held.get? b with
  | none => rfl
  | some block => simp only [if_neg (hnot block hb)]

theorem returns_of_held {held : Registry Block} {b : BlockId} {block : Block}
    (hb : held.get? b = some block) (hown : block.pool = p ∧ block.size = size) :
    returns p size held [b] = [.returned b block.chunk] := by
  simp only [returns, hb, if_pos hown, List.append_nil]

theorem held_of_mem_returns {held : Registry Block} {bs : List BlockId} {d : Dealing}
    (h : d ∈ returns p size held bs) : ∃ b block, d = .returned b block.chunk ∧
      held.get? b = some block ∧ block.pool = p ∧ block.size = size := by
  induction bs generalizing held with
  | nil => cases h
  | cons b rest ih =>
      rw [returns, List.mem_append] at h
      rcases h with h | h
      · cases hb : held.get? b with
        | none =>
            rw [hb] at h
            cases h
        | some block =>
            simp only [hb] at h
            split at h
            · next hown => exact ⟨b, block, List.mem_singleton.mp h, hb, hown⟩
            · cases h
      · obtain ⟨c, block, hd, hc, hown⟩ := ih h
        rw [Registry.get?_remove] at hc
        split at hc
        · cases hc
        · exact ⟨c, block, hd, hc, hown⟩

theorem Sound.deals_release (h : w.Sound falling) (hf : falling ≠ some p) (size : Nat)
    (b : BlockId) :
    Deals size (w.serving? p size) (returns p size w.held [b]) ((w.release b).serving? p size) := by
  have hall := h.released b
  generalize w.release b = result at hall ⊢
  cases hall with
  | notHeld missing =>
      rw [returns_of_not _ (by simp [missing])]
      exact .nil _
  | @homeless block held closed =>
      by_cases hown : block.pool = p ∧ block.size = size
      · have hnone : w.serving? p size = none := serving?_of_closed (hown.1 ▸ closed)
        have hafter : (w.drop b).serving? p size = none := hnone
        rw [returns_of_held held hown, hnone, hafter]
        exact .single .strayed
      · rw [returns_of_not _ fun other hb => by cases hb.symm.trans held; exact hown]
        exact .nil _
  | @orphaned block pool held opened falls =>
      have hne : ¬(block.pool = p ∧ block.size = size) := fun hown => hf (hown.1 ▸ falls)
      rw [returns_of_not _ fun other hb => by cases hb.symm.trans held; exact hne]
      exact .nil _
  | @parked block pool c T held opened stands found owner in_use table after =>
      by_cases hown : block.pool = p ∧ block.size = size
      · obtain ⟨rfl, rfl⟩ := hown
        rw [returns_of_held held ⟨rfl, rfl⟩, serving?_of_get? opened, found,
          serving?_update opened rfl after, if_pos ⟨rfl, rfl⟩]
        exact .single (.parked (in_use ▸ Nat.succ_pos _))
      · rw [returns_of_not _ fun other hb => by cases hb.symm.trans held; exact hown]
        exact .of_eq ((serving?_update opened rfl after).trans (if_neg hown))

theorem Sound.deals_releases (h : w.Sound falling) (hf : falling ≠ some p) (bs : List BlockId) :
    Deals size (w.serving? p size) (returns p size w.held bs)
      ((bs.foldl World.release w).serving? p size) := by
  induction bs generalizing w with
  | nil => exact .nil _
  | cons b rest ih =>
      have hrest := ih (h.release b)
      rw [held_release] at hrest
      rw [returns_cons]
      exact (h.deals_release hf size b).append hrest

/-! ### Actions -/

/-- An action makes blocks come back or does one other thing, and it is only a clear that clears. -/
theorem dealing_cases (p : PoolId) (size : Nat) (w : World) (a : Action) :
    (∃ bs, dealing p size w a = returns p size w.held bs) ∨
      ∃ d, dealing p size w a = [d] ∧ (∀ b chunk, d ≠ .returned b chunk) ∧
        ∀ eraseVacant, d = .cleared eraseVacant → a = .clear p eraseVacant := by
  cases a with
  | alloc q n =>
      by_cases hown : q = p ∧ n = size
      · exact Or.inr ⟨_, if_pos hown, nofun, nofun⟩
      · exact Or.inl ⟨[], if_neg hown⟩
  | free q b =>
      by_cases hopen : (w.pools.get? q).isSome
      · exact Or.inl ⟨[b], if_pos hopen⟩
      · exact Or.inl ⟨[], if_neg hopen⟩
  | release b => exact Or.inl ⟨[b], rfl⟩
  | clear q eraseVacant =>
      by_cases hown : q = p
      · subst hown
        refine Or.inr ⟨_, if_pos rfl, nofun, fun flag heq => ?_⟩
        cases heq
        rfl
      · exact Or.inl ⟨[], if_neg hown⟩
  | destroy q during | discard q during =>
      by_cases hgoes : (w.pools.get? q).isSome ∧ ∀ b ∈ during, (w.held.get? b).isSome = true
      · by_cases hown : q = p
        · exact Or.inr ⟨_, (if_pos hgoes).trans (if_pos hown), nofun, nofun⟩
        · exact Or.inl ⟨during, (if_pos hgoes).trans (if_neg hown)⟩
      · exact Or.inl ⟨[], if_neg hgoes⟩
  | openPool | openStandard | write | sizes | contains | count | read | belongs =>
      exact Or.inl ⟨[], rfl⟩

theorem saidBetween_push (log : Array Record) (pool : Pool) (p : PoolId) (event : Event) (size : Nat) :
    saidBetween log (log.push (pool.record p event)) p size =
      if event.about size then [event] else [] := by
  have hdrop : (log.push (pool.record p event)).toList.drop log.size = [pool.record p event] := by
    rw [Array.toList_push, ← Array.length_toList, List.drop_left]
  rw [saidBetween, hdrop, List.filter_singleton]
  cases hevent : event.about size <;> simp [Pool.record, hevent]

/-- What a request for a block of the size makes of the class. -/
theorem Sound.dealt_alloc (h : w.Sound none) (hadmits : w.Admits) (p : PoolId) (size : Nat) :
    Dealt size (w.serving? p size)
      (.asked (w.step (.alloc p size)).1 (saidBetween w.log (w.step (.alloc p size)).2.log p size))
      ((w.step (.alloc p size)).2.serving? p size) := by
  have hall := h.allocated p size
  simp only [World.step]
  generalize w.alloc p size = result at hall ⊢
  cases hall with
  | noPool closed =>
      refine .refused (fun c hc => ?_) rfl
      cases (serving?_of_closed closed).symm.trans hc
  | inadmissible opened refusal =>
      refine .refused (fun c hc => ?_) rfl
      rw [serving?_of_get? opened] at hc
      cases (hadmits p _ opened size (Option.isSome_of_eq_some hc)).symm.trans refusal
  | outOfMemory opened admitted table out =>
      cases out with
      | refused denied parked after =>
          refine .refused (fun c hc => ?_) ?_
          · rw [serving?_of_get? opened] at hc
            exact (ClassTable.parkedFor_of_classFor? hc).symm.trans parked
          · rw [serving?_of_get? opened, ← after]
            exact (World.serving?_set opened rfl).trans (if_pos rfl)
  | @served pool T heap chunk supply opened admitted table out =>
      have hsaid : saidBetween w.log ((w.lend p pool T heap chunk).report p pool
          (.supplied supply size)).log p size = [.supplied supply size] :=
        (saidBetween_push w.log pool p (.supplied supply size) size).trans
          (if_pos (decide_eq_true rfl))
      simp only [hsaid, issue_lend]
      cases out with
      | @hit c _ rest _ found pop after =>
          rw [serving?_of_get? opened, found, serving?_update opened rfl after, if_pos ⟨rfl, rfl⟩]
          have hclass := ((h.table p pool opened).classFor?_eq_some_iff.mp found).1
          exact .hit ((h.table p pool opened).sound _ c hclass) pop
      | @miss c _ granted parked capacity in_use empty found new after =>
          rw [serving?_of_get? opened, serving?_update opened rfl after, if_pos ⟨rfl, rfl⟩]
          refine .miss ?_ empty
          cases hc : pool.classes.classFor? size with
          | none => exact Or.inl rfl
          | some old => exact Or.inr (congrArg some (found old hc))

theorem Sound.serving?_alloc_other (h : w.Sound none) {n : Nat} (hne : ¬(q = p ∧ n = size)) :
    (w.alloc q n).2.serving? p size = w.serving? p size := by
  have hall := h.allocated q n
  generalize w.alloc q n = result at hall ⊢
  cases hall with
  | noPool | inadmissible => rfl
  | outOfMemory opened admitted table out =>
      cases out with
      | refused denied parked after =>
          exact (serving?_update opened rfl (after.trans (Function.update_eq_self n _).symm)).trans
            (if_neg hne)
  | served opened admitted table out =>
      obtain ⟨c, hafter, -⟩ := out.served (h.table _ _ opened)
      exact (serving?_update opened rfl hafter).trans (if_neg hne)

theorem Sound.serving?_clear (h : w.Sound none) (q : PoolId) (eraseVacant : Bool) :
    (w.clear q eraseVacant).2.serving? p size = if q = p then
      (w.serving? p size).bind fun c => c.drained eraseVacant else w.serving? p size := by
  cases hq : w.pools.get? q with
  | none =>
      simp only [World.clear, hq]
      split
      · next heq =>
        rw [serving?_of_closed (heq ▸ hq)]
        rfl
      · rfl
  | some pool =>
      rw [clear_eq hq]
      refine (serving?_set hq rfl).trans ?_
      split
      · next heq =>
        rw [← heq, serving?_of_get? hq]
        exact (h.table q pool hq).classFor?_drain eraseVacant size
      · rfl

theorem Sound.deals_tearDown (h : w.Sound none) (q : PoolId) (during : List BlockId) :
    Deals size (w.serving? p size)
      (if (w.pools.get? q).isSome ∧ ∀ b ∈ during, (w.held.get? b).isSome = true then
        if q = p then [.closed] else returns p size w.held during
      else []) ((w.tearDown q during).2.serving? p size) := by
  by_cases hgoes : (w.pools.get? q).isSome ∧ ∀ b ∈ during, (w.held.get? b).isSome = true
  · obtain ⟨pool, hq⟩ := Option.isSome_iff_exists.mp hgoes.1
    rw [if_pos hgoes]
    split
    · next hown =>
      subst hown
      rw [serving?_of_closed (closed_tearDown hq hgoes.2).2]
      exact .single .closed
    · next hne =>
      rw [serving?_congr ((Beside.tearDown hq hgoes.2).pools p (Ne.symm hne))]
      exact h.deals_releases nofun during
  · rw [if_neg hgoes]
    rcases tearDown_cases w q during with ⟨fault, heq⟩ | ⟨pool, hq, hheld⟩
    · rw [heq]
      exact .nil _
    · exact absurd ⟨Option.isSome_of_eq_some hq, hheld⟩ hgoes

theorem Sound.deals_step (h : w.Sound none) (hadmits : w.Admits) (p : PoolId) (size : Nat)
    (a : Action) :
    Deals size (w.serving? p size) (dealing p size w a) ((w.step a).2.serving? p size) := by
  have hstands : none ≠ some p := by simp
  cases a with
  | alloc q n =>
      by_cases hown : q = p ∧ n = size
      · obtain ⟨rfl, rfl⟩ := hown
        rw [dealing, if_pos ⟨rfl, rfl⟩]
        exact .single (h.dealt_alloc hadmits q n)
      · rw [dealing, if_neg hown, step_world, World.after, h.serving?_alloc_other hown]
        exact .nil _
  | free q b =>
      rw [dealing, step_world, World.after]
      cases hq : w.pools.get? q with
      | none =>
          simp only [World.free, hq]
          exact .nil _
      | some pool =>
          cases hb : w.held.get? b with
          | none =>
              have hnone : returns p size w.held [b] = [] := returns_of_not _ (by simp [hb])
              simp only [World.free, hq, hb, hnone, ite_self]
              exact .nil _
          | some block =>
              rw [Option.isSome_some, if_pos rfl, free_eq hq hb]
              split
              · exact (h.report q pool .refused).deals_release hstands size b
              · exact h.deals_release hstands size b
  | release b =>
      rw [step_release]
      exact h.deals_release hstands size b
  | clear q eraseVacant =>
      rw [dealing, step_world, World.after, h.serving?_clear]
      split
      · exact .single .cleared
      · exact .nil _
  | destroy q during | discard q during =>
      rw [dealing, step_world]
      exact h.deals_tearDown q during
  | openPool config =>
      have hsame : (w.step (.openPool config)).2.serving? p size = w.serving? p size := by
        rw [step_world, World.after]
        rcases openPool_world w config with heq | heq
        · rw [heq]
        · rw [heq, serving?_enter]
      rw [hsame]
      exact .nil _
  | openStandard =>
      have hsame : (w.step .openStandard).2.serving? p size = w.serving? p size :=
        serving?_enter w .standard
      rw [hsame]
      exact .nil _
  | write b offset data =>
      have hsame : (w.step (.write b offset data)).2.serving? p size = w.serving? p size := by
        have hall := written w b offset data
        rw [step_world, World.after]
        generalize (w.write b offset data).2 = result at hall ⊢
        cases hall <;> rfl
      rw [hsame]
      exact .nil _
  | sizes | contains | count | read | belongs =>
      rw [step_world]
      exact .nil _

theorem Passed.deals_run {grants : Nat → Bool} (h : Passed grants w none) (p : PoolId) (size : Nat)
    (actions : List Action) :
    Deals size (w.serving? p size) (dealings p size w actions)
      ((w.run actions).2.serving? p size) := by
  induction actions generalizing w with
  | nil => exact .nil _
  | cons a rest ih => exact (h.sound.deals_step h.admits p size a).append (ih (h.step a))

end World

end BlockPool
