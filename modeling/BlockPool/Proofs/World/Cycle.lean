import BlockPool.Proofs.World.Dealing

/-! Blocks that are given back as soon as they come. After the first of them its chunk lies in front of the
free list, and from then on it is always the same chunk that comes and goes: the pools are in the end what
they were after the first time, and the heap is asked once at most. -/

namespace BlockPool.World

/-- The caller gives the block back, through a pool or not. -/
def GivesBack (back : Action) (b : BlockId) : Prop := back = .release b ∨ ∃ q, back = .free q b

/-- Requests for blocks of one size, each served with a block that is given back at once, whatever the pool
through which it is freed says to it; `serials` are the chunks that came. -/
inductive Cycles (p : PoolId) (size : Nat) : World → List Nat → World → Prop
  | nil (w : World) : Cycles p size w [] w
  | cons {w x : World} {b : BlockId} {serial : Nat} {payload : Payload} {back : Action}
      {serials : List Nat} (issued : (w.step (.alloc p size)).1 = .issued b serial payload)
      (gives : GivesBack back b)
      (ends : back.endsHold b ((w.step (.alloc p size)).2.step back).1 = true)
      (later : Cycles p size ((w.step (.alloc p size)).2.step back).2 serials x) :
      Cycles p size w (serial :: serials) x

/-- What some cycles come to. -/
structure Cycled (p : PoolId) (size : Nat) (w : World) (serials : List Nat) (x : World) : Prop where
  same : ∃ serial, serials = List.replicate serials.length serial
  fresh : x.heap.issued ≤ w.heap.issued + 1
  /-- The pools are as they would be after one cycle. -/
  settled : serials ≠ [] → ∀ {serial y}, Cycles p size w [serial] y → x.pools = y.pools

section Once

variable {grants : Nat → Bool} {w : World} {p : PoolId} {size : Nat} {b : BlockId} {block : Block}
  {back : Action}

/-- Giving a block back does to the pools and to the heap what releasing it does. -/
theorem GivesBack.release (h : GivesBack back b) (hb : w.held.get? b = some block)
    (hends : back.endsHold b (w.step back).1 = true) :
    (w.step back).2.pools = (w.release b).pools ∧ (w.step back).2.heap = w.heap := by
  rcases h with rfl | ⟨q, rfl⟩
  · rw [step_release]
    exact ⟨rfl, heap_release w b⟩
  · cases hq : w.pools.get? q with
    | none =>
        simp only [step, free, hq] at hends
        cases hends
    | some pool =>
        rw [step_world, after, free_eq hq hb]
        split
        · obtain ⟨said, -, hsaid⟩ := w.release_said b
          have hpools := congrArg World.pools (hsaid (w.log.push (pool.record q .refused)))
          exact ⟨hpools, heap_release _ b⟩
        · exact ⟨rfl, heap_release w b⟩

theorem Sound.issued_alloc_le (h : w.Sound none) (p : PoolId) (size : Nat) :
    (w.step (.alloc p size)).2.heap.issued ≤ w.heap.issued + 1 := by
  have hall := h.allocated p size
  rw [step_world, after]
  generalize w.alloc p size = result at hall ⊢
  cases hall with
  | noPool | inadmissible => exact Nat.le_succ _
  | outOfMemory opened admitted table out => cases out with | refused => exact Nat.le_succ _
  | served opened admitted table out =>
      cases out with
      | hit => exact Nat.le_succ _
      | miss => exact Nat.le_refl _

/-- A block of an open pool that is given back lies in front. -/
theorem Sound.parked_in_front (h : w.Sound none) (hb : w.held.get? b = some block) {pool : Pool}
    (hp : w.pools.get? block.pool = some pool) :
    ∃ c rest, (w.release b).serving? block.pool block.size = some c ∧
      c.cached.pop? = some (block.chunk, rest) := by
  obtain ⟨c, hc, -⟩ := h.home block (Registry.mem_toList_of_get? hb) pool hp nofun
  have hdeals := h.deals_release (p := block.pool) nofun block.size b
  rw [returns_of_held hb ⟨rfl, rfl⟩, serving?_of_get? hp, hc] at hdeals
  cases hdeals with
  | cons first later =>
      cases first
      exact ⟨_, c.cached, later.eq_of_nil, FreeList.pop?_push _ _⟩

/-- A request finds the chunk in front. -/
theorem Sound.alloc_of_parked (h : w.Sound none) (hadmits : w.Admits) {pool : Pool}
    (hp : w.pools.get? p = some pool) {c : SizeClass} (hc : pool.classes.classFor? size = some c)
    {chunk : Chunk} {rest : FreeList} (hpop : c.cached.pop? = some (chunk, rest)) :
    w.alloc p size = (.ok (w.held.add { chunk, pool := p }).1,
      (w.lend p pool (pool.classes.setClass c.slot (c.afterHit rest)) w.heap chunk).report p pool
        (.supplied .hit size)) := by
  have hadmitted := hadmits p pool hp size (Option.isSome_of_eq_some hc)
  have hcheckout := (h.table p pool hp).checkout_of_pop? hc hpop w.heap
  simp only [World.alloc, hp, hadmitted, hcheckout]
  rfl

/-- A table that takes a chunk back and is what it was before the chunk was lent makes the pools what they
were. -/
theorem pools_release_lend {pool : Pool} (hp : w.pools.get? p = some pool) {T : ClassTable}
    {c : SizeClass} {chunk : Chunk} (hback : T.checkin? chunk = some (c, pool.classes)) (heap : Heap)
    (event : Event) :
    (((w.lend p pool T heap chunk).report p pool event).release
      (w.held.add { chunk, pool := p }).1).pools = w.pools := by
  have hlent : ((w.lend p pool T heap chunk).report p pool event).pools.get? p =
      some { pool with classes := T } := (Registry.get?_set hp).trans (if_pos rfl)
  have hnew : ((w.lend p pool T heap chunk).report p pool event).held.get?
      (w.held.add { chunk, pool := p }).1 = some { chunk, pool := p } :=
    Registry.get?_add.trans (if_pos rfl)
  rw [release_of_held hnew]
  simp only [takeBack, pools_drop, hlent, hback]
  calc (w.pools.set p { pool with classes := T }).set p pool
      = w.pools.set p pool := Registry.set_set _ _ _ _
    _ = w.pools := Registry.set_of_get? hp

/-- A request is served with the chunk in front, and when that is given back nothing has changed. -/
theorem Sound.cycle_of_parked (h : w.Sound none) (hadmits : w.Admits) {c : SizeClass} {chunk : Chunk}
    {rest : FreeList} (hc : w.serving? p size = some c) (hpop : c.cached.pop? = some (chunk, rest))
    {serial : Nat} {payload : Payload}
    (hissued : (w.step (.alloc p size)).1 = .issued b serial payload) (hgives : GivesBack back b)
    (hends : back.endsHold b ((w.step (.alloc p size)).2.step back).1 = true) :
    serial = chunk.serial ∧ ((w.step (.alloc p size)).2.step back).2.pools = w.pools ∧
      ((w.step (.alloc p size)).2.step back).2.heap = w.heap := by
  obtain ⟨pool, hp, hfor⟩ := serving?_eq_some_iff.mp hc
  have halloc := h.alloc_of_parked hadmits hp hfor hpop
  simp only [World.step, halloc, issue_lend] at hissued hends ⊢
  cases hissued
  obtain ⟨hpools, hheap⟩ := hgives.release (Registry.get?_add.trans (if_pos rfl)) hends
  refine ⟨rfl, ?_, hheap⟩
  exact hpools.trans (pools_release_lend hp ((h.table p pool hp).checkin?_of_hit hfor hpop) _ _)

end Once

section Often

variable {grants : Nat → Bool} {w x : World} {p : PoolId} {size : Nat} {serials : List Nat}

/-- Once the chunk lies in front, cycles change nothing. -/
theorem Cycles.of_parked (hcycles : Cycles p size w serials x) (h : Passed grants w none)
    {c : SizeClass} {chunk : Chunk} {rest : FreeList} (hc : w.serving? p size = some c)
    (hpop : c.cached.pop? = some (chunk, rest)) :
    serials = List.replicate serials.length chunk.serial ∧ x.pools = w.pools ∧ x.heap = w.heap := by
  induction hcycles with
  | nil w => exact ⟨rfl, rfl, rfl⟩
  | cons issued gives ends later ih =>
      obtain ⟨hserial, hpools, hheap⟩ :=
        h.sound.cycle_of_parked h.admits hc hpop issued gives ends
      obtain ⟨hserials, hpools', hheap'⟩ := ih ((h.step _).step _)
        ((serving?_congr (congrArg (·.get? p) hpools)).trans hc)
      refine ⟨?_, hpools'.trans hpools, hheap'.trans hheap⟩
      rw [List.length_cons, List.replicate_succ, hserial, ← hserials]

theorem Passed.cycled (h : Passed grants w none) (hcycles : Cycles p size w serials x) :
    Cycled p size w serials x := by
  cases hcycles with
  | nil w => exact ⟨⟨0, rfl⟩, Nat.le_succ _, fun hne => absurd rfl hne⟩
  | @cons _ _ b serial payload back _ issued gives ends later =>
      obtain ⟨pool, chunk, supply, T, heap, hp, -, rfl, rfl, rfl, hb, -⟩ :=
        alloc_of_issued h.sound (Prod.ext issued rfl : _ = (_, _))
      have hopen : ((w.step (.alloc p chunk.payload.size)).2.pools.get? p).isSome = true := by
        rw [step_world]
        exact (touch_alloc w p _).isSome (Option.isSome_of_eq_some hp)
      obtain ⟨home, hhome⟩ := Option.isSome_iff_exists.mp hopen
      obtain ⟨c, rest, hc, hpop⟩ := (h.step _).sound.parked_in_front hb hhome
      obtain ⟨hpools, hheap⟩ := gives.release hb ends
      obtain ⟨hserials, hpools', hheap'⟩ := later.of_parked ((h.step _).step _)
        ((serving?_congr (congrArg (·.get? p) hpools)).trans hc) hpop
      refine ⟨⟨chunk.serial, ?_⟩, ?_, fun _ {serial y} honce => ?_⟩
      · rw [List.length_cons, List.replicate_succ, ← hserials]
      · rw [hheap', hheap]
        exact h.sound.issued_alloc_le p _
      · rw [hpools', hpools]
        cases honce with
        | cons issued' gives' ends' done =>
            cases issued.symm.trans issued'
            cases done
            exact (gives'.release hb ends').1.symm

end Often

end BlockPool.World
