import BlockPool.Proofs.World.Dealing

/-! Reuse in the opposite order of return. Blocks of one size that come back to a pool lie on each other like
plates, and requests take them off again, each with the bytes that were left in it; when as many were asked
for as came back, the class is what it was. Nothing that is done meanwhile with other sizes or other pools
makes a difference. -/

namespace BlockPool

/-- The request was served with the chunk of this returned block, which was parked. -/
def Reused (size : Nat) (r : BlockId × Chunk) (a : Answer × List Event) : Prop :=
  ∃ b, a = (.issued b r.2.serial r.2.payload, [.supplied .hit size])

section Lifo

variable {size : Nat} {c : SizeClass} {after : Option SizeClass}

/-- A request finds the chunk that came back last, and leaves the class as it was before that. -/
theorem Dealt.undo {chunk : Chunk} {answer : Answer} {said : List Event} (huse : 0 < c.inUse)
    (h : Dealt size (some (c.checkin chunk)) (.asked answer said) after) :
    (∃ b, answer = .issued b chunk.serial chunk.payload) ∧ said = [.supplied .hit size] ∧
      after = some c := by
  cases h with
  | @hit _ b _ rest sound pop =>
      have hpop : (c.checkin chunk).cached.pop? = some (chunk, c.cached) := FreeList.pop?_push _ _
      cases hpop.symm.trans pop
      exact ⟨⟨b, rfl⟩, rfl, congrArg some (SizeClass.afterHit_checkin huse chunk)⟩
  | miss found empty =>
      rcases found with hnone | hsome
      · cases hnone
      · cases hsome
        cases congrArg FreeList.chain empty
  | refused parked same => cases parked _ rfl

/-- Returns followed by as many requests undo themselves, from the inside out. -/
theorem Deals.undo {returned : List (BlockId × Chunk)} {asked : List (Answer × List Event)}
    (h : Deals size (some c) (returned.map (Function.uncurry .returned) ++
      asked.map (Function.uncurry .asked)) after) (hcount : asked.length = returned.length) :
    List.Forall₂ (Reused size) returned.reverse asked ∧ after = some c := by
  induction returned generalizing c asked after with
  | nil =>
      cases List.length_eq_zero_iff.mp hcount
      cases h
      exact ⟨.nil, rfl⟩
  | cons r rest ih =>
      obtain ⟨front, last, rfl⟩ : ∃ front last, asked = front ++ [last] := by
        rcases List.eq_nil_or_concat asked with rfl | ⟨front, last, heq⟩
        · cases hcount
        · exact ⟨front, last, heq.trans List.concat_eq_append⟩
      rw [List.length_append, List.length_singleton, List.length_cons] at hcount
      rw [List.map_cons, List.map_append, List.cons_append, ← List.append_assoc] at h
      cases h with
      | cons first later =>
          cases first with
          | parked huse =>
              obtain ⟨between, hinner, hlast⟩ := later.of_append
              obtain ⟨hserved, rfl⟩ := ih hinner (Nat.succ.inj hcount)
              cases hlast with
              | cons dealt done =>
                  cases done
                  obtain ⟨⟨b, hanswer⟩, hsaid, hafter⟩ := dealt.undo huse
                  rw [List.reverse_cons]
                  refine ⟨List.rel_append hserved (.cons ⟨b, ?_⟩ .nil), hafter⟩
                  exact Prod.ext hanswer hsaid

end Lifo

namespace World

variable {w : World} {p : PoolId} {size : Nat}

/-- Callers hold this block of the size from the pool, with the chunk that is in it when it comes back, if
perhaps not with the same bytes yet. -/
def Out (w : World) (p : PoolId) (size : Nat) (r : BlockId × Chunk) : Prop :=
  ∃ block, w.held.get? r.1 = some block ∧ block.pool = p ∧ block.size = size ∧
    block.chunk.serial = r.2.serial

/-! ### Where the blocks come from that are returned -/

theorem out_of_mem_dealing {a : Action} {r : BlockId × Chunk}
    (h : Function.uncurry .returned r ∈ dealing p size w a) : w.Out p size r := by
  rcases dealing_cases p size w a with ⟨bs, heq⟩ | ⟨d, heq, hother, -⟩
  · obtain ⟨b, block, hr, hb, hpool, hsize⟩ := held_of_mem_returns (heq ▸ h)
    cases r
    cases hr
    exact ⟨block, hb, hpool, hsize, rfl⟩
  · rw [heq] at h
    exact absurd (List.mem_singleton.mp h).symm (hother _ _)

/-- A block that somebody holds after an action is held before it, or the action asked for it. -/
theorem held_before_step (hw : w.Sound none) {a : Action} {b : BlockId} {block : Block}
    (hb : (w.step a).2.held.get? b = some block) :
    (∃ old, w.held.get? b = some old ∧ old.pool = block.pool ∧ old.size = block.size ∧
      old.chunk.serial = block.chunk.serial) ∨ a = .alloc block.pool block.size := by
  have hturn := w.turnover a
  cases hold : w.held.get? b with
  | some old =>
      cases hends : a.endsHold b (w.step a).1 with
      | true => cases (hturn.ended hold hends).2.symm.trans hb
      | false =>
          obtain ⟨block', hblock', hedited⟩ := hturn.kept hold hends
          cases hblock'.symm.trans hb
          exact Or.inl ⟨old, rfl, hedited.pool.symm, hedited.size.symm, hedited.serial.symm⟩
  | none =>
      obtain ⟨n, rfl, hanswer⟩ := hturn.issued hold hb
      obtain ⟨pool, chunk, supply, T, heap, -, -, -, hpayload, hsize, -, -⟩ :=
        alloc_of_issued hw (Prod.ext hanswer rfl : _ = (_, _))
      exact Or.inr (congrArg _ hsize.symm)

/-- What comes back before anybody asks for the size was out from the beginning. -/
theorem Passed.out_of_returned {grants : Nat → Bool} (h : Passed grants w none)
    {actions : List Action} {returned : List (BlockId × Chunk)} {later : List Dealing}
    (hdealings : dealings p size w actions =
      returned.map (Function.uncurry .returned) ++ later) {r : BlockId × Chunk}
    (hr : r ∈ returned) : w.Out p size r := by
  induction actions generalizing w returned with
  | nil =>
      obtain ⟨hnone, -⟩ := List.append_eq_nil_iff.mp hdealings.symm
      rw [List.map_eq_nil_iff.mp hnone] at hr
      cases hr
  | cons a rest ih =>
      rcases List.append_eq_append_iff.mp hdealings with ⟨back, hall, hrest⟩ | ⟨back, hfirst, -⟩
      · obtain ⟨front, back, rfl, hfront, rfl⟩ := List.map_eq_append_iff.mp hall
        rcases List.mem_append.mp hr with hr | hr
        · exact out_of_mem_dealing (hfront ▸ List.mem_map_of_mem hr)
        · obtain ⟨block, hb, rfl, rfl, hserial⟩ := ih (h.step a) hrest hr
          rcases held_before_step h.sound hb with ⟨old, hold, hpool, hsize, hsame⟩ | rfl
          · exact ⟨old, hold, hpool, hsize, hsame.trans hserial⟩
          · -- this request would stand in front of the return
            rw [dealing, if_pos ⟨rfl, rfl⟩] at hfront
            cases front with
            | nil => cases hfront
            | cons first others => cases (List.cons.inj hfront).1
      · exact out_of_mem_dealing (hfirst ▸ List.mem_append_left _ (List.mem_map_of_mem hr))

/-! ### Runs -/

/-- Blocks of a size come back to an open pool, and then as many are asked for, whatever else goes on: every
request finds a parked chunk, that of the block which came back last among those not yet asked for, with the
bytes that the block had then, and at the end the free list and the counter of the size are as before. -/
theorem Passed.reused_in_reverse {grants : Nat → Bool} (h : Passed grants w none) {pool : Pool}
    (hp : w.pools.get? p = some pool) {actions : List Action} {returned : List (BlockId × Chunk)}
    {asked : List (Answer × List Event)}
    (hdealings : dealings p size w actions =
      returned.map (Function.uncurry .returned) ++ asked.map (Function.uncurry .asked))
    (hcount : asked.length = returned.length) :
    (∀ r ∈ returned, w.Out p size r) ∧ List.Forall₂ (Reused size) returned.reverse asked ∧
      (w.run actions).2.serving? p size = w.serving? p size := by
  have hout : ∀ r ∈ returned, w.Out p size r := fun r hr => h.out_of_returned hdealings hr
  have hdeals := h.deals_run p size actions
  rw [hdealings] at hdeals
  cases returned with
  | nil =>
      cases List.length_eq_zero_iff.mp hcount
      exact ⟨hout, .nil, hdeals.eq_of_nil⟩
  | cons r rest =>
      obtain ⟨block, hb, rfl, rfl, -⟩ := hout r List.mem_cons_self
      obtain ⟨c, hc, -⟩ := h.sound.home block (Registry.mem_toList_of_get? hb) pool hp nofun
      rw [serving?_of_get? hp, hc] at hdeals ⊢
      exact ⟨hout, hdeals.undo hcount⟩

/-- One block comes back through a pool that refuses it, another one, written to, in the middle of the teardown
of that pool; requests for other sizes make no difference. -/
theorem reused_in_reverse_in_short_run :
    let w := ((start fun _ => true).run [.openStandard, .openStandard, .alloc ⟨0⟩ 2, .alloc ⟨0⟩ 2,
      .alloc ⟨0⟩ 16, .alloc ⟨1⟩ 2]).2
    let actions : List Action := [.free ⟨1⟩ ⟨0⟩, .alloc ⟨0⟩ 16, .write ⟨1⟩ 1 ⟨#[7]⟩,
      .destroy ⟨1⟩ [⟨3⟩, ⟨1⟩], .clear ⟨1⟩ true, .alloc ⟨0⟩ 2, .alloc ⟨0⟩ 0, .alloc ⟨0⟩ 2]
    let returned : List (BlockId × Chunk) :=
      [(⟨0⟩, { serial := 0, owner := 0, payload := ⟨#[0, 0]⟩ }),
        (⟨1⟩, { serial := 1, owner := 0, payload := ⟨#[0, 7]⟩ })]
    let asked : List (Answer × List Event) :=
      [(.issued ⟨5⟩ 1 ⟨#[0, 7]⟩, [.supplied .hit 2]), (.issued ⟨6⟩ 0 ⟨#[0, 0]⟩, [.supplied .hit 2])]
    dealings ⟨0⟩ 2 w actions =
        returned.map (Function.uncurry .returned) ++ asked.map (Function.uncurry .asked) ∧
      (∀ r ∈ returned, w.Out ⟨0⟩ 2 r) ∧ List.Forall₂ (Reused 2) returned.reverse asked ∧
      (w.run actions).2.serving? ⟨0⟩ 2 = w.serving? ⟨0⟩ 2 := by
  intro w actions returned asked
  have hrun : Passed (fun _ => true) w none := Passed.start.run _
  have hopen : (w.pools.get? ⟨0⟩).isSome = true := by decide +kernel
  obtain ⟨pool, hp⟩ := Option.isSome_iff_exists.mp hopen
  have hdealings : dealings ⟨0⟩ 2 w actions =
      returned.map (Function.uncurry .returned) ++ asked.map (Function.uncurry .asked) := by
    decide +kernel
  exact ⟨hdealings, Passed.reused_in_reverse hrun hp hdealings rfl⟩

end World

end BlockPool
