import BlockPool.Proofs.World.Teardown
import BlockPool.Proofs.World.Whereabouts

/-! The bytes of a block over whole runs. A block begins with zeros if its chunk is fresh, and with what
the last holder of the chunk left in it if it is not; while a caller holds it, its bytes change by the
writes through this very block and by nothing else that anybody does to this or another pool. -/

namespace BlockPool

namespace Payload

/-- Bytes that replace those of a block from a position on. -/
structure Edit where
  offset : Nat
  data : Payload
  deriving DecidableEq

/-- Whether an edit replaces the byte at this position. -/
def Edit.Covers (e : Edit) (i : Nat) : Prop := e.offset ≤ i ∧ i < e.offset + e.data.size

instance (e : Edit) (i : Nat) : Decidable (e.Covers i) := inferInstanceAs (Decidable (_ ∧ _))

/-- The byte at a position after some edits: that of the last edit which covers the position. -/
def byteAfter (b : Payload) (i : Nat) (edits : List Edit) : Option UInt8 :=
  edits.foldl (fun byte e => if e.Covers i then e.data.data[i - e.offset]? else byte) b.data[i]?

theorem getElem?_overwrite {b : Payload} {e : Edit} (hfit : e.offset + e.data.size ≤ b.size)
    (i : Nat) : (overwrite b e.offset e.data).data[i]? =
      if e.Covers i then e.data.data[i - e.offset]? else b.data[i]? := by
  have hfront : (b.data.extract 0 e.offset).size = e.offset := by
    simp only [ByteArray.size] at hfit
    simp only [Array.size_extract]
    omega
  simp only [overwrite, ByteArray.data_append, ByteArray.data_extract, Array.getElem?_append,
    Array.getElem?_extract, Array.size_append, hfront, Edit.Covers]
  simp only [ByteArray.size] at hfit ⊢
  grind

end Payload

open Payload (Edit)

/-- The block with some of its bytes replaced. -/
def Block.edit (block : Block) (e : Edit) : Block :=
  { block with
    chunk := { block.chunk with payload := block.chunk.payload.overwrite e.offset e.data } }

/-- The second block is the first one after these edits. -/
structure Block.EditedBy (block : Block) (edits : List Edit) (block' : Block) : Prop where
  pool : block'.pool = block.pool
  serial : block'.chunk.serial = block.chunk.serial
  size : block'.size = block.size
  bytes : ∀ i, block'.chunk.payload.data[i]? = block.chunk.payload.byteAfter i edits

namespace Block.EditedBy

theorem refl (block : Block) : block.EditedBy [] block := ⟨rfl, rfl, rfl, fun _ => rfl⟩

theorem edit {block : Block} {e : Edit} (hfits : e.offset + e.data.size ≤ block.size) :
    block.EditedBy [e] (block.edit e) :=
  ⟨rfl, rfl, Payload.size_overwrite hfits, Payload.getElem?_overwrite hfits⟩

theorem trans {block x y : Block} {es fs : List Edit} (h : block.EditedBy es x)
    (h' : x.EditedBy fs y) : block.EditedBy (es ++ fs) y := by
  refine ⟨h'.pool.trans h.pool, h'.serial.trans h.serial, h'.size.trans h.size, fun i => ?_⟩
  rw [h'.bytes, Payload.byteAfter, h.bytes, Payload.byteAfter, Payload.byteAfter, List.foldl_append]

end Block.EditedBy

/-- Whether an action with this answer ended the hold on a block. -/
def Action.endsHold (b : BlockId) : Action → Answer → Bool
  | .release c, .done => decide (c = b)
  | .free _ c, .done => decide (c = b)
  | .free _ c, .fault (.refused _) => decide (c = b)
  | .destroy _ during, .receipt _ => decide (b ∈ during)
  | .discard _ during, .done => decide (b ∈ during)
  | _, _ => false

/-- The edit that an action with this answer made through a block. -/
def Action.edit? (b : BlockId) : Action → Answer → Option Edit
  | .write c offset data, .done => if c = b then some { offset, data } else none
  | _, _ => none

theorem ClassTable.Sound.serial_mem {t : ClassTable} (h : t.Sound) {size : Nat} {chunk : Chunk}
    (hchunk : chunk ∈ t.parkedFor size) : chunk.serial ∈ t.parkedSerials := by
  cases hc : t.classFor? size with
  | none =>
      rw [parkedFor_of_none hc] at hchunk
      cases hchunk
  | some c =>
      rw [parkedFor_of_classFor? hc] at hchunk
      have hmem : c ∈ t.classes :=
        h.mem_classes_iff.mpr ((h.classFor?_eq_some_iff.mp hc).2 ▸ hc)
      exact (sublist_parkedSerials hmem).subset (List.mem_map_of_mem hchunk)

namespace World

/-- The actions of a run, each with its answer. -/
def transcript (w : World) (actions : List Action) : List (Action × Answer) :=
  actions.zip (w.run actions).1

/-- The edits that a run makes through a block, the earliest first. -/
def edits (w : World) (b : BlockId) (actions : List Action) : List Edit :=
  (w.transcript actions).filterMap fun e => e.1.edit? b e.2

/-- Whether the hold on a block ends in a run. -/
def endsHold (w : World) (b : BlockId) (actions : List Action) : Bool :=
  (w.transcript actions).any fun e => e.1.endsHold b e.2

/-! ### What an action does to the blocks in the hands of callers -/

/-- What an action with this answer makes of the blocks that callers hold. -/
inductive Turnover (w : World) (a : Action) (answer : Answer) : Registry Block → Prop
  | idle (ends : ∀ b, a.endsHold b answer = false) (edit : ∀ b, a.edit? b answer = none) :
      Turnover w a answer w.held
  | lent (block : Block) {size : Nat} (alloc : a = .alloc block.pool size)
      (issued : answer =
        .issued (w.held.add block).1 block.chunk.serial block.chunk.payload) :
      Turnover w a answer (w.held.add block).2
  | returned (bs : List BlockId) (ends : ∀ b, a.endsHold b answer = decide (b ∈ bs))
      (edit : ∀ b, a.edit? b answer = none) : Turnover w a answer (bs.foldl Registry.remove w.held)
  | edited {c : BlockId} {block : Block} (e : Edit) (held : w.held.get? c = some block)
      (fits : e.offset + e.data.size ≤ block.size) (ends : ∀ b, a.endsHold b answer = false)
      (edit : ∀ b, a.edit? b answer = if c = b then some e else none) :
      Turnover w a answer (w.held.set c (block.edit e))

theorem held_tearDown {w : World} {p : PoolId} {pool : Pool} (hp : w.pools.get? p = some pool)
    {during : List BlockId} (hheld : ∀ b ∈ during, (w.held.get? b).isSome = true) :
    (w.tearDown p during).2.held = during.foldl Registry.remove w.held := by
  rw [(Beside.tearDown hp hheld).held, held_releases]

theorem turnover_alloc (w : World) (p : PoolId) (size : Nat) :
    Turnover w (.alloc p size) (w.step (.alloc p size)).1 (w.step (.alloc p size)).2.held := by
  simp only [step, alloc]
  cases w.pools.get? p with
  | none => exact .idle (fun _ => rfl) fun _ => rfl
  | some pool =>
      simp only
      cases pool.config.refusal? size with
      | some error => exact .idle (fun _ => rfl) fun _ => rfl
      | none =>
          simp only
          rcases pool.classes.checkout w.heap size with ⟨_ | ⟨chunk, supply⟩, T, heap⟩
          · exact .idle (fun _ => rfl) fun _ => rfl
          · exact .lent { chunk, pool := p } rfl
              (issue_lend w p pool T heap chunk (.supplied supply size))

theorem turnover_free (w : World) (p : PoolId) (b : BlockId) :
    Turnover w (.free p b) (w.step (.free p b)).1 (w.step (.free p b)).2.held := by
  simp only [step, free]
  cases w.pools.get? p with
  | none => exact .idle (fun _ => rfl) fun _ => rfl
  | some pool =>
      cases hb : w.held.get? b with
      | none => exact .idle (fun _ => rfl) fun _ => rfl
      | some block =>
          have hends : ∀ c, decide (b = c) = decide (c ∈ [b]) := by
            intro c
            simp [eq_comm]
          by_cases hrefuse : (pool.config.verifyOwner && decide (block.pool ≠ p)) = true
          · simp only [hrefuse, if_true, held_release]
            exact .returned [b] hends fun _ => rfl
          · simp only [hrefuse, Bool.false_eq_true, if_false, held_release]
            exact .returned [b] hends fun _ => rfl

theorem turnover_write (w : World) (c : BlockId) (offset : Nat) (data : Payload) :
    Turnover w (.write c offset data) (w.step (.write c offset data)).1
      (w.step (.write c offset data)).2.held := by
  simp only [step, write]
  cases hc : w.held.get? c with
  | none => exact .idle (fun _ => rfl) fun _ => rfl
  | some block =>
      by_cases hfit : offset + data.size ≤ block.chunk.payload.size
      · simp only [hfit, if_true]
        exact .edited { offset, data } hc hfit (fun _ => rfl) fun _ => rfl
      · simp only [hfit, if_false]
        exact .idle (fun _ => rfl) fun _ => rfl

theorem turnover (w : World) (a : Action) : Turnover w a (w.step a).1 (w.step a).2.held := by
  cases a with
  | openPool config =>
      have hidle : ∀ answer : Answer, Turnover w (.openPool config) answer w.held :=
        fun _ => .idle (fun _ => rfl) fun _ => rfl
      rw [step_world, after]
      rcases openPool_world w config with heq | heq <;> rw [heq] <;> exact hidle _
  | openStandard => exact .idle (fun _ => rfl) fun _ => rfl
  | alloc p size => exact turnover_alloc w p size
  | free p b => exact turnover_free w p b
  | release b =>
      cases hb : w.held.get? b with
      | none =>
          simp only [step, hb]
          exact .idle (fun _ => rfl) fun _ => rfl
      | some block =>
          simp only [step, hb, Option.isSome_some, if_true, held_release]
          exact .returned [b] (fun c => by simp [Action.endsHold, eq_comm]) fun _ => rfl
  | write b offset data => exact turnover_write w b offset data
  | clear p eraseVacant =>
      have hheld : (w.clear p eraseVacant).2.held = w.held := by
        unfold clear
        cases w.pools.get? p <;> rfl
      rw [step_world, after, hheld]
      exact .idle (fun _ => rfl) fun _ => rfl
  | destroy p during | discard p during =>
      rcases tearDown_cases w p during with ⟨fault, heq⟩ | ⟨pool, hp, hall⟩
      · simp only [step, heq]
        exact .idle (fun _ => rfl) fun _ => rfl
      · rw [step_world, after, held_tearDown hp hall]
        simp only [step, tearDown_eq hp hall]
        exact .returned during (fun _ => rfl) fun _ => rfl
  | sizes | contains | count | belongs => exact .idle (fun _ => rfl) fun _ => rfl
  | read b =>
      have hheld : (w.step (.read b)).2.held = w.held := by
        rw [step_world]
        rfl
      rw [hheld]
      exact .idle (fun _ => rfl) fun _ => rfl

namespace Turnover

variable {w : World} {a : Action} {answer : Answer} {r : Registry Block} {b : BlockId}

/-- A block whose hold does not end has been edited through its own handle at most. -/
theorem kept (h : Turnover w a answer r) {block : Block} (hb : w.held.get? b = some block)
    (hends : a.endsHold b answer = false) :
    ∃ block', r.get? b = some block' ∧ block.EditedBy (a.edit? b answer).toList block' := by
  cases h with
  | idle ends edit =>
      rw [edit b]
      exact ⟨block, hb, .refl block⟩
  | @lent new size alloc issued =>
      have hne : b ≠ (w.held.add new).1 := by
        rintro rfl
        cases Registry.get?_add_self_eq_none.symm.trans hb
      subst alloc issued
      exact ⟨block, Registry.get?_add.trans ((if_neg hne).trans hb), .refl block⟩
  | returned bs ends edit =>
      have hnot : b ∉ bs := of_decide_eq_false ((ends b).symm.trans hends)
      rw [edit b]
      exact ⟨block, (w.held.get?_removes _ b).trans ((if_neg hnot).trans hb), .refl block⟩
  | @edited c old e held fits ends edit =>
      rw [edit b, Registry.get?_set held]
      by_cases hc : c = b
      · subst hc
        cases hb.symm.trans held
        rw [if_pos rfl, if_pos rfl]
        exact ⟨_, rfl, .edit fits⟩
      · rw [if_neg hc, if_neg (Ne.symm hc)]
        exact ⟨block, hb, .refl block⟩

theorem ended (h : Turnover w a answer r) {block : Block} (hb : w.held.get? b = some block)
    (hends : a.endsHold b answer = true) : r.Gone b := by
  have hlt := Registry.lt_size_of_get? hb
  cases h with
  | idle ends edit => cases (ends b).symm.trans hends
  | lent new alloc issued =>
      subst alloc issued
      cases hends
  | returned bs ends edit =>
      have hmem : b ∈ bs := of_decide_eq_true ((ends b).symm.trans hends)
      exact ⟨hlt.trans_eq (w.held.size_removes _).symm,
        (w.held.get?_removes _ b).trans (if_pos hmem)⟩
  | edited e held fits ends edit => cases (ends b).symm.trans hends

theorem gone (h : Turnover w a answer r) (hb : w.held.Gone b) : r.Gone b := by
  cases h with
  | idle => exact hb
  | lent => exact hb.add _
  | returned => exact hb.removes _
  | edited e held => exact hb.set held _

/-- A block that nobody held before has been handed out. -/
theorem issued (h : Turnover w a answer r) (hold : w.held.get? b = none) {block : Block}
    (hb : r.get? b = some block) : ∃ size, a = .alloc block.pool size ∧
      answer = .issued b block.chunk.serial block.chunk.payload := by
  cases h with
  | idle => cases hold.symm.trans hb
  | @lent new size alloc issued =>
      rw [Registry.get?_add] at hb
      split at hb
      · next heq =>
        cases hb
        exact ⟨size, alloc, heq ▸ issued⟩
      · cases hold.symm.trans hb
  | returned bs ends edit =>
      rw [Registry.get?_removes, hold, ite_self] at hb
      cases hb
  | edited e held fits ends edit =>
      rw [Registry.get?_set held] at hb
      split at hb
      · next heq => cases (heq ▸ hold).symm.trans held
      · cases hold.symm.trans hb

end Turnover

/-! ### A block in the hands of its caller -/

section Held

variable {w : World} {b : BlockId} {block : Block}

theorem edits_cons (w : World) (b : BlockId) (a : Action) (rest : List Action) :
    w.edits b (a :: rest) = (a.edit? b (w.step a).1).toList ++ (w.step a).2.edits b rest := by
  have hcons : w.transcript (a :: rest) = (a, (w.step a).1) :: (w.step a).2.transcript rest := rfl
  rw [edits, hcons, List.filterMap_cons, edits]
  cases a.edit? b (w.step a).1 <;> rfl

theorem endsHold_cons (w : World) (b : BlockId) (a : Action) (rest : List Action) :
    w.endsHold b (a :: rest) = (a.endsHold b (w.step a).1 || (w.step a).2.endsHold b rest) := rfl

theorem gone_run (hb : w.held.Gone b) (actions : List Action) : (w.run actions).2.held.Gone b := by
  induction actions generalizing w with
  | nil => exact hb
  | cons a rest ih => exact ih ((w.turnover a).gone hb)

theorem editedBy_run (hb : w.held.get? b = some block) {actions : List Action}
    (hends : w.endsHold b actions = false) : ∃ block',
      (w.run actions).2.held.get? b = some block' ∧ block.EditedBy (w.edits b actions) block' := by
  induction actions generalizing w block with
  | nil => exact ⟨block, hb, .refl block⟩
  | cons a rest ih =>
      rw [endsHold_cons, Bool.or_eq_false_iff] at hends
      obtain ⟨x, hx, hfirst⟩ := (w.turnover a).kept hb hends.1
      obtain ⟨block', hblock', hrest⟩ := ih hx hends.2
      rw [edits_cons]
      exact ⟨block', hblock', hfirst.trans hrest⟩

theorem gone_of_endsHold (hb : w.held.get? b = some block) {actions : List Action}
    (hends : w.endsHold b actions = true) : (w.run actions).2.held.Gone b := by
  induction actions generalizing w block with
  | nil => cases hends
  | cons a rest ih =>
      cases hfirst : a.endsHold b (w.step a).1 with
      | true => exact gone_run ((w.turnover a).ended hb hfirst) rest
      | false =>
          rw [endsHold_cons, hfirst, Bool.false_or] at hends
          obtain ⟨x, hx, -⟩ := (w.turnover a).kept hb hfirst
          exact ih hx hends

/-- In the middle of a teardown a block is as it was before, or is held no more. -/
theorem Amid.held_of {x : World} {p : PoolId} {pool : Pool} (h : Amid w p pool x)
    (hb : x.held.get? b = some block) : w.held.get? b = some block := by
  induction h with
  | taken => exact hb
  | report before due ih => exact ih hb
  | release before c ih =>
      rw [held_release, Registry.get?_remove] at hb
      split at hb
      · cases hb
      · exact ih hb

end Held

/-! ### Parked chunks -/

/-- The chunk, with these bytes, waits in some pool for a request. -/
def Parks (w : World) (chunk : Chunk) : Prop :=
  ∃ p pool size, w.pools.get? p = some pool ∧ chunk ∈ pool.classes.parkedFor size

section Parked

variable {w w' : World} {chunk : Chunk}

theorem parks_of_set {p : PoolId} {pool : Pool} {T : ClassTable} (hp : w.pools.get? p = some pool)
    (hpools : w'.pools = w.pools.set p { pool with classes := T }) (h : w'.Parks chunk) :
    (∃ size, chunk ∈ T.parkedFor size) ∨ w.Parks chunk := by
  obtain ⟨q, pool', size, hq, hchunk⟩ := h
  rw [hpools, Registry.get?_set hp] at hq
  split at hq
  · cases hq
    exact Or.inl ⟨size, hchunk⟩
  · exact Or.inr ⟨q, pool', size, hq, hchunk⟩

theorem parks_enter {config : Config} (h : (w.enter config).2.Parks chunk) : w.Parks chunk := by
  obtain ⟨q, pool, size, hq, hchunk⟩ := h
  have hget : (w.pools.add { config }).2.get? q = some pool := hq
  rw [Registry.get?_add] at hget
  split at hget
  · cases hget
    cases hchunk
  · exact ⟨q, pool, size, hget, hchunk⟩

theorem parks_alloc (hw : w.Sound none) {p : PoolId} {size : Nat}
    (h : (w.alloc p size).2.Parks chunk) : w.Parks chunk := by
  have hall := hw.allocated p size
  generalize w.alloc p size = result at hall h
  cases hall with
  | noPool | inadmissible => exact h
  | @outOfMemory pool T heap opened admitted table out =>
      cases out with
      | refused denied parked after =>
          refine (parks_of_set opened rfl h).elim (fun ⟨s, hs⟩ => ?_) id
          rw [ClassTable.parkedFor, after] at hs
          exact ⟨p, pool, s, opened, hs⟩
  | @served pool T heap lent supply opened admitted table out =>
      refine (parks_of_set opened rfl h).elim (fun ⟨s, hs⟩ => ?_) id
      exact ⟨p, pool, s, opened, out.parked_subset s hs⟩

/-- What is parked after a block was let go of was parked before, or is the chunk of this block. -/
theorem parks_release {falling : Option PoolId} (hw : w.Sound falling) {b : BlockId}
    (h : (w.release b).Parks chunk) :
    w.Parks chunk ∨ ∃ block, w.held.get? b = some block ∧ block.chunk = chunk := by
  have hall := hw.released b
  generalize w.release b = result at hall h
  cases hall with
  | notHeld | homeless | orphaned => exact Or.inl h
  | @parked block pool c T held opened stands found owner in_use table after =>
      refine (parks_of_set opened rfl h).elim (fun ⟨s, hs⟩ => ?_) Or.inl
      rw [ClassTable.parkedFor_of_update after] at hs
      by_cases hsize : s = block.size
      · subst hsize
        rw [Function.update_self] at hs
        rcases List.mem_cons.mp hs with rfl | hs
        · exact Or.inr ⟨block, held, rfl⟩
        · refine Or.inl ⟨block.pool, pool, block.size, opened, ?_⟩
          rwa [ClassTable.parkedFor_of_classFor? found]
      · rw [Function.update_of_ne hsize] at hs
        exact Or.inl ⟨block.pool, pool, s, opened, hs⟩

theorem parks_releases {falling : Option PoolId} (hw : w.Sound falling) {bs : List BlockId}
    (h : (bs.foldl World.release w).Parks chunk) :
    w.Parks chunk ∨ ∃ b ∈ bs, ∃ block, w.held.get? b = some block ∧ block.chunk = chunk := by
  induction bs generalizing w with
  | nil => exact Or.inl h
  | cons c rest ih =>
      rcases ih (hw.release c) h with hparks | ⟨b, hmem, block, hb, hchunk⟩
      · exact (parks_release hw hparks).imp_right fun hc => ⟨c, List.mem_cons_self, hc⟩
      · rw [held_release, Registry.get?_remove] at hb
        split at hb
        · cases hb
        · exact Or.inr ⟨b, List.mem_cons_of_mem _ hmem, block, hb, hchunk⟩

theorem parks_free (hw : w.Sound none) {p : PoolId} {b : BlockId}
    (h : (w.free p b).2.Parks chunk) :
    w.Parks chunk ∨ ∃ block, w.held.get? b = some block ∧ block.chunk = chunk := by
  rcases free_world w p b with heq | ⟨pool, -, heq⟩ | heq
  · exact Or.inl (heq ▸ h)
  · exact parks_release (hw.report p pool .refused) (heq ▸ h)
  · exact parks_release hw (heq ▸ h)

/-- A pool that is asked to free a block ends the hold on it, whatever it answers. -/
theorem endsHold_free {p : PoolId} {pool : Pool} {b : BlockId} {block : Block}
    (hp : w.pools.get? p = some pool) (hb : w.held.get? b = some block) :
    (Action.free p b).endsHold b (w.step (.free p b)).1 = true := by
  by_cases hrefuse : (pool.config.verifyOwner && decide (block.pool ≠ p)) = true
  · simp only [step, free, hp, hb, hrefuse, if_true, Action.endsHold, decide_true]
  · simp only [step, free, hp, hb, hrefuse, Bool.false_eq_true, if_false, Action.endsHold,
      decide_true]

theorem parks_clear (hw : w.Sound none) {p : PoolId} {eraseVacant : Bool}
    (h : (w.clear p eraseVacant).2.Parks chunk) : w.Parks chunk := by
  cases hp : w.pools.get? p with
  | none =>
      simp only [clear, hp] at h
      exact h
  | some pool =>
      rw [clear_eq hp] at h
      rcases parks_of_set hp rfl h with ⟨s, hs⟩ | hold
      · rw [(hw.table p pool hp).parkedFor_drain] at hs
        cases hs
      · exact hold

/-- A teardown parks nothing but the chunks of blocks that are released in the middle of it. -/
theorem parks_tearDown (hw : w.Sound none) {p : PoolId} {pool : Pool}
    (hp : w.pools.get? p = some pool) {during : List BlockId}
    (hall : ∀ b ∈ during, (w.held.get? b).isSome = true)
    (h : (w.tearDown p during).2.Parks chunk) :
    w.Parks chunk ∨ ∃ b ∈ during, ∃ block, w.held.get? b = some block ∧ block.chunk = chunk := by
  have hbeside := Beside.tearDown hp hall
  have hclosed := closed_tearDown hp hall
  obtain ⟨q, home, size, hq, hchunk⟩ := h
  have hne : q ≠ p := by
    rintro rfl
    cases hclosed.2.symm.trans hq
  rw [hbeside.pools q hne] at hq
  exact parks_releases hw ⟨q, home, size, hq, hchunk⟩

/-- Every chunk that is parked after an action was parked before, or the action took it from a block. -/
theorem parks_step (hw : w.Sound none) {a : Action} (h : (w.step a).2.Parks chunk) :
    w.Parks chunk ∨ ∃ b block, w.held.get? b = some block ∧ block.chunk = chunk ∧
      a.endsHold b (w.step a).1 = true := by
  rw [step_world] at h
  cases a with
  | openPool config =>
      rw [after] at h
      rcases openPool_world w config with heq | heq
      · exact Or.inl (heq ▸ h)
      · exact Or.inl (parks_enter (heq ▸ h))
  | openStandard => exact Or.inl (parks_enter h)
  | alloc p size => exact Or.inl (parks_alloc hw h)
  | free p b =>
      rw [after] at h
      cases hp : w.pools.get? p with
      | none =>
          simp only [free, hp] at h
          exact Or.inl h
      | some pool =>
          rcases parks_free hw h with hold | ⟨block, hb, hchunk⟩
          · exact Or.inl hold
          · exact Or.inr ⟨b, block, hb, hchunk, endsHold_free hp hb⟩
  | release b =>
      rcases parks_release hw h with hold | ⟨block, hb, hchunk⟩
      · exact Or.inl hold
      · refine Or.inr ⟨b, block, hb, hchunk, ?_⟩
        simp [step, hb, Action.endsHold]
  | write b offset data =>
      have hall := written w b offset data
      rw [after] at h
      generalize (w.write b offset data).2 = result at hall h
      cases hall <;> exact Or.inl h
  | clear p eraseVacant => exact Or.inl (parks_clear hw h)
  | destroy p during | discard p during =>
      rw [after] at h
      rcases tearDown_cases w p during with ⟨fault, heq⟩ | ⟨pool, hp, hall⟩
      · rw [heq] at h
        exact Or.inl h
      · rcases parks_tearDown hw hp hall h with hold | ⟨b, hmem, block, hb, hchunk⟩
        · exact Or.inl hold
        · refine Or.inr ⟨b, block, hb, hchunk, ?_⟩
          simpa [step, tearDown_eq hp hall, Action.endsHold] using hmem
  | sizes | contains | count | read | belongs => exact Or.inl h

end Parked

/-! ### Fresh chunks and reused ones -/

theorem heap_release (w : World) (b : BlockId) : (w.release b).heap = w.heap := by
  unfold release
  cases w.held.get? b with
  | none => rfl
  | some block => exact (Beside.takeBack_own _ block).heap

theorem heap_releases (w : World) (bs : List BlockId) :
    (bs.foldl World.release w).heap = w.heap := by
  induction bs generalizing w with
  | nil => rfl
  | cons b rest ih => exact (ih (w.release b)).trans (w.heap_release b)

theorem issued_le_alloc {w : World} (hw : w.Sound none) (p : PoolId) (size : Nat) :
    w.heap.issued ≤ (w.alloc p size).2.heap.issued := by
  have hall := hw.allocated p size
  generalize w.alloc p size = result at hall ⊢
  cases hall with
  | noPool | inadmissible => exact Nat.le_refl _
  | outOfMemory opened admitted table out => cases out with | refused => exact Nat.le_refl _
  | served opened admitted table out =>
      cases out with
      | hit => exact Nat.le_refl _
      | miss => exact Nat.le_succ _

/-- The heap never takes a number back. -/
theorem issued_le_step {w : World} (hw : w.Sound none) (a : Action) :
    w.heap.issued ≤ (w.step a).2.heap.issued := by
  rw [step_world]
  cases a with
  | openPool config =>
      rw [after]
      rcases openPool_world w config with heq | heq
      · rw [heq]
      · rw [heq]
        exact Nat.le_refl _
  | alloc p size => exact issued_le_alloc hw p size
  | free p b =>
      rw [after]
      rcases free_world w p b with heq | ⟨pool, -, heq⟩ | heq
      · rw [heq]
      · rw [heq, heap_release]
        rfl
      · rw [heq, heap_release]
  | release b => rw [after, heap_release]
  | write b offset data =>
      have hall := written w b offset data
      rw [after]
      generalize (w.write b offset data).2 = result at hall ⊢
      cases hall <;> exact Nat.le_refl _
  | clear p eraseVacant =>
      rw [after]
      cases hp : w.pools.get? p with
      | none => simp only [clear, hp, Nat.le_refl]
      | some pool =>
          rw [clear_eq hp]
          exact Nat.le_refl _
  | destroy p during | discard p during =>
      rw [after]
      rcases tearDown_cases w p during with ⟨fault, heq⟩ | ⟨pool, hp, hall⟩
      · rw [heq]
      · rw [(Beside.tearDown hp hall).heap, heap_releases]
  | openStandard | sizes | contains | count | read | belongs => exact Nat.le_refl _

theorem issued_le_run {w : World} (hw : w.Sound none) (actions : List Action) :
    w.heap.issued ≤ (w.run actions).2.heap.issued := by
  induction actions generalizing w with
  | nil => exact Nat.le_refl _
  | cons a rest ih => exact (issued_le_step hw a).trans (ih (hw.step a))

section Origins

variable (grants : Nat → Bool)

/-- The world after these actions, on a heap that grants these sizes. -/
def reached (actions : List Action) : World := ((World.start grants).run actions).2

/-- In these actions the chunk was let go of, with these bytes in it, and nobody has held it since. -/
inductive LeftBehind : List Action → Nat → Payload → Prop
  | mk {front back : List Action} {a : Action} {b : BlockId} {block : Block}
      (held : (reached grants front).held.get? b = some block)
      (ends : a.endsHold b ((reached grants front).step a).1 = true)
      (unheld : ∀ later, later <+: back →
        block.chunk.serial ∉ (reached grants (front ++ a :: later)).heldSerials) :
      LeftBehind (front ++ a :: back) block.chunk.serial block.chunk.payload

/-- How the chunk of a block was supplied after these actions, and the bytes that it came with. -/
inductive Provenance (past : List Action) (size serial : Nat) : Supply → Payload → Prop
  /-- Nobody has ever held the chunk, and its bytes are zeros. -/
  | fresh (isNew : Bool)
      (unseen : ∀ front, front <+: past → serial ∉ (reached grants front).heldSerials) :
      Provenance past size serial (.miss isNew) (.zeros size)
  /-- The bytes are those that the last holder of the chunk left in it. -/
  | reused {payload : Payload} (left : LeftBehind grants past serial payload) :
      Provenance past size serial .hit payload

end Origins

variable {grants : Nat → Bool}

theorem passed_reached (grants : Nat → Bool) (actions : List Action) :
    Passed grants (reached grants actions) none :=
  Passed.start.run actions

theorem reached_snoc (past : List Action) (a : Action) :
    reached grants (past ++ [a]) = ((reached grants past).step a).2 :=
  run_append (World.start grants) past [a]

/-- A parked chunk is in nobody's hands. -/
theorem Passed.not_held_of_parks {w : World} (h : Passed grants w none) {chunk : Chunk}
    (hparks : w.Parks chunk) : chunk.serial ∉ w.heldSerials := by
  obtain ⟨freed, served, hbooks⟩ := h.books
  obtain ⟨p, pool, size, hp, hchunk⟩ := hparks
  have hparked : chunk.serial ∈ w.parkedSerials :=
    (sublist_parkedSerials hp).subset ((h.sound.table p pool hp).serial_mem hchunk)
  have haccounted := hbooks.accounted chunk.serial
  have hpos := List.count_pos_iff.mpr hparked
  rw [← List.count_eq_zero]
  split at haccounted <;> omega

/-- A chunk that nobody takes up lies as it was left. -/
theorem LeftBehind.later {past : List Action} {serial : Nat} {payload : Payload}
    (h : LeftBehind grants past serial payload) {a : Action}
    (hunheld : serial ∉ (reached grants (past ++ [a])).heldSerials) :
    LeftBehind grants (past ++ [a]) serial payload := by
  cases h with
  | mk held ends unheld =>
      rw [List.append_assoc, List.cons_append] at hunheld ⊢
      refine .mk held ends fun later hlater => ?_
      rcases List.prefix_concat_iff.mp hlater with rfl | hlater
      · exact hunheld
      · exact unheld later hlater

/-- What is parked was left behind by the last caller that held it. -/
theorem leftBehind_of_parks {past : List Action} {chunk : Chunk}
    (hparks : (reached grants past).Parks chunk) :
    LeftBehind grants past chunk.serial chunk.payload := by
  induction past using List.reverseRecOn with
  | nil =>
      obtain ⟨p, pool, size, hp, -⟩ := hparks
      cases hp
  | append_singleton past a ih =>
      have hunheld := (passed_reached grants (past ++ [a])).not_held_of_parks hparks
      rw [reached_snoc] at hparks
      rcases parks_step (passed_reached grants past).sound hparks with hold | ⟨b, block, hb, rfl, hends⟩
      · exact (ih hold).later hunheld
      · refine .mk hb hends fun later hlater => ?_
        rw [List.prefix_nil.mp hlater]
        exact hunheld

/-- A number that the heap has not given out yet was never on a chunk that somebody held. -/
theorem issued_not_held {past front : List Action} (hfront : front <+: past) :
    (reached grants past).heap.issued ∉ (reached grants front).heldSerials := by
  obtain ⟨rest, rfl⟩ := hfront
  obtain ⟨freed, served, hbooks⟩ := (passed_reached grants front).books
  intro hheld
  obtain ⟨block, hblock, hserial⟩ := List.mem_map.mp hheld
  have hmade := (List.getElem?_eq_some_iff.mp (hbooks.held_made block hblock)).1
  have hle := issued_le_run (passed_reached grants front).sound rest
  have hrun : reached grants (front ++ rest) = ((reached grants front).run rest).2 :=
    run_append (World.start grants) front rest
  rw [← hrun] at hle
  rw [hserial, ← hbooks.issued_eq] at hmade
  omega

/-- What a request that was answered with a block did. -/
theorem alloc_of_issued {w w' : World} (hw : w.Sound none) {p : PoolId} {size serial : Nat}
    {b : BlockId} {payload : Payload}
    (h : w.step (.alloc p size) = (.issued b serial payload, w')) :
    ∃ pool chunk supply T heap, w.pools.get? p = some pool ∧
      pool.classes.CheckedOut w.heap size (some (chunk, supply)) T heap ∧
      chunk.serial = serial ∧ chunk.payload = payload ∧ payload.size = size ∧
      w'.held.get? b = some { chunk, pool := p } ∧
      w'.log = w.log.push (pool.record p (.supplied supply size)) := by
  have hall := hw.allocated p size
  simp only [step] at h
  generalize w.alloc p size = result at hall h
  cases hall with
  | noPool closed => cases h
  | inadmissible opened refusal => cases h
  | outOfMemory opened admitted table out => cases h
  | @served pool T heap chunk supply opened admitted table out =>
      simp only [issue_lend, Prod.mk.injEq, Answer.issued.injEq] at h
      obtain ⟨⟨rfl, rfl, rfl⟩, rfl⟩ := h
      obtain ⟨c, -, -, -, hsize, -⟩ := out.served (hw.table p pool opened)
      exact ⟨pool, chunk, supply, T, heap, opened, out, rfl, rfl, hsize,
        Registry.get?_add.trans (if_pos rfl), rfl⟩

theorem provenance_of_checkedOut {past : List Action} {p : PoolId} {pool : Pool} {size : Nat}
    {chunk : Chunk} {supply : Supply} {T : ClassTable} {heap : Heap}
    (hp : (reached grants past).pools.get? p = some pool)
    (hout : pool.classes.CheckedOut (reached grants past).heap size (some (chunk, supply)) T heap) :
    Provenance grants past size chunk.serial supply chunk.payload := by
  cases hout with
  | hit found pop after =>
      refine .reused (leftBehind_of_parks ⟨p, pool, size, hp, ?_⟩)
      rw [ClassTable.parkedFor_of_classFor? found, FreeList.chain_of_pop? pop]
      exact List.mem_cons_self
  | miss granted parked capacity in_use empty found new after =>
      exact .fresh _ fun front hfront => issued_not_held hfront

/-- How a block that a caller has been handed fares in what follows. -/
structure Entrusted (w : World) (b : BlockId) (block : Block) : Prop where
  /-- As long as the hold lasts, the block is what it was, with the edits that were made through it. -/
  kept : ∀ actions, w.endsHold b actions = false → ∃ block',
    (w.run actions).2.held.get? b = some block' ∧ block.EditedBy (w.edits b actions) block'
  ended : ∀ actions, w.endsHold b actions = true → (w.run actions).2.held.get? b = none
  /-- In the middle of any teardown that follows, it is as it was before this teardown. -/
  amid : ∀ actions q pool x, (w.run actions).2.pools.get? q = some pool →
    Amid (w.run actions).2 q pool x → ∀ block', x.held.get? b = some block' →
      (w.run actions).2.held.get? b = some block'

/-- Whenever a run is answered with a block, the bytes of the block are zeros or what the last holder of its
chunk left there, and from then on they are the caller's alone. -/
theorem bytes_private_and_kept {past : List Action} {p : PoolId} {size serial : Nat} {b : BlockId}
    {payload : Payload} {w : World}
    (hissued : (reached grants past).step (.alloc p size) = (.issued b serial payload, w)) :
    ∃ (pool : Pool) (supply : Supply) (block : Block),
      (reached grants past).pools.get? p = some pool ∧
      w.log = (reached grants past).log.push (pool.record p (.supplied supply size)) ∧
      w.held.get? b = some block ∧ block.pool = p ∧ block.chunk.serial = serial ∧
      block.chunk.payload = payload ∧ block.size = size ∧
      Provenance grants past size serial supply payload ∧ w.Entrusted b block := by
  obtain ⟨pool, chunk, supply, T, heap, hp, hout, rfl, rfl, hsize, hheld, hlog⟩ :=
    alloc_of_issued (passed_reached grants past).sound hissued
  refine ⟨pool, supply, { chunk, pool := p }, hp, hlog, hheld, rfl, rfl, rfl, hsize,
    provenance_of_checkedOut hp hout, ?_, ?_, ?_⟩
  · exact fun actions hends => editedBy_run hheld hends
  · exact fun actions hends => (gone_of_endsHold hheld hends).2
  · exact fun actions q home x _ hamid block' hblock' => hamid.held_of hblock'

/-- A chunk is written to, released and handed out again; it comes with the byte that was left in it, and
keeps the byte that is written next after its pool is gone. -/
theorem bytes_private_and_kept_in_short_run :
    let past : List Action := [.openStandard, .alloc ⟨0⟩ 4, .write ⟨0⟩ 1 ⟨#[7]⟩, .release ⟨0⟩]
    let x := reached (fun _ => true) past
    let w := (x.step (.alloc ⟨0⟩ 4)).2
    let rest : List Action := [.write ⟨1⟩ 0 ⟨#[5]⟩, .destroy ⟨0⟩ []]
    (x.step (.alloc ⟨0⟩ 4)).1 = .issued ⟨1⟩ 0 ⟨#[0, 7, 0, 0]⟩ ∧
      Provenance (fun _ => true) past 4 0 .hit ⟨#[0, 7, 0, 0]⟩ ∧
      ∃ block block', w.held.get? ⟨1⟩ = some block ∧ w.Entrusted ⟨1⟩ block ∧
        (w.run rest).2.held.get? ⟨1⟩ = some block' ∧
        block.EditedBy [{ offset := 0, data := ⟨#[5]⟩ }] block' := by
  intro past x w rest
  have hanswer : (x.step (.alloc ⟨0⟩ 4)).1 = .issued ⟨1⟩ 0 ⟨#[0, 7, 0, 0]⟩ := by decide +kernel
  have hissued : (reached (fun _ => true) past).step (.alloc ⟨0⟩ 4) =
      (.issued ⟨1⟩ 0 ⟨#[0, 7, 0, 0]⟩, w) := Prod.ext hanswer rfl
  obtain ⟨pool, supply, block, -, hlog, hheld, -, -, -, -, hprovenance, hentrusted⟩ :=
    bytes_private_and_kept hissued
  have hhit : supply = .hit := by
    have hlast : w.log.back?.map (·.event) = some (.supplied .hit 4) := by decide +kernel
    rw [hlog, Array.back?_push] at hlast
    simpa [Pool.record] using hlast
  have hends : w.endsHold ⟨1⟩ rest = false := by decide +kernel
  have hedits : w.edits ⟨1⟩ rest = [{ offset := 0, data := ⟨#[5]⟩ }] := by decide +kernel
  obtain ⟨block', hblock', hedited⟩ := hentrusted.kept rest hends
  subst hhit
  exact ⟨hanswer, hprovenance, block, block', hheld, hentrusted, hblock', hedits ▸ hedited⟩

end World

end BlockPool
