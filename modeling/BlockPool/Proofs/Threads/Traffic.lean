import BlockPool.Proofs.Threads.Course
import BlockPool.Proofs.World.Reachable

/-! Threads at work on one pool of the world. Every block in the hand of a thread is held from the
pool, no two are the same, and the pool counts them on top of what was in use before; so every turn
takes its course. -/

namespace BlockPool.Threads

/-- A block in the hand of a thread, and the size that the thread asked for. -/
structure Ticket where
  block : BlockId
  size : Nat
  deriving DecidableEq, Inhabited

structure Traffic (ι : Type) where
  world : World
  hands : ι → Hand Ticket

namespace Traffic

variable {ι : Type}

/-- No thread has anything in hand. -/
def start (w : World) : Traffic ι := { world := w, hands := fun _ => [] }

/-- The sizes in the hands of the threads. -/
def sizes (x : Traffic ι) (i : ι) : Hand Nat := (x.hands i).map (Option.map Ticket.size)

/-- What thread `i` obtained in its turn `k`, if it still has it. -/
def ticket? (x : Traffic ι) (i : ι) (k : Nat) : Option Ticket := (x.hands i)[k]?.join

theorem sizes_of_ticket? {x : Traffic ι} {i : ι} {k : Nat} {ticket : Ticket}
    (hticket : x.ticket? i k = some ticket) : (x.sizes i)[k]? = some (some ticket.size) := by
  rw [ticket?, Option.join_eq_some_iff] at hticket
  rw [sizes, List.getElem?_map, hticket]
  rfl

theorem ticket?_of_sizes {x : Traffic ι} {i : ι} {k size : Nat}
    (hsize : (x.sizes i)[k]? = some (some size)) : ∃ ticket, x.ticket? i k = some ticket := by
  rw [sizes, List.getElem?_map, Option.map_eq_some_iff] at hsize
  obtain ⟨entry, hentry, hmap⟩ := hsize
  obtain ⟨ticket, rfl, -⟩ := Option.map_eq_some_iff.mp hmap
  exact ⟨ticket, Option.join_eq_some_iff.mpr hentry⟩

variable [DecidableEq ι]

/-- The traffic with one more block in the hand of a thread. -/
def gain (x : Traffic ι) (world : World) (i : ι) (ticket : Ticket) : Traffic ι :=
  { world, hands := Function.update x.hands i (x.hands i ++ [some ticket]) }

/-- The traffic with one block less in the hand of a thread. -/
def lose (x : Traffic ι) (world : World) (i : ι) (k : Nat) : Traffic ι :=
  { world, hands := Function.update x.hands i ((x.hands i).set k none) }

/-- Serves one turn through a pool; none if the request fails. -/
def turn (p : PoolId) (x : Traffic ι) : Turn ι → Option (Traffic ι)
  | .call i (.obtain size) =>
    match x.world.alloc p size with
    | (.ok block, world) => some (x.gain world i { block, size })
    | (.error _, _) => none
  | .call i (.giveBack k) =>
    match x.ticket? i k with
    | none => none
    | some ticket =>
      match x.world.free p ticket.block with
      | (.ok (), world) => some (x.lose world i k)
      | (.error _, _) => none
  | .clear eraseVacant =>
    match x.world.clear p eraseVacant with
    | (.ok (), world) => some { x with world }
    | (.error _, _) => none

/-- Serves a schedule; none if a request fails. -/
def serve (p : PoolId) (x : Traffic ι) : List (Turn ι) → Option (Traffic ι)
  | [] => some x
  | t :: rest => (x.turn p t).bind fun y => serve p y rest

variable (x : Traffic ι) (world : World) (i j : ι) (k l : Nat) (ticket : Ticket)

theorem sizes_gain : (x.gain world i ticket).sizes =
    Turn.after x.sizes (.call i (.obtain ticket.size)) := by
  funext j
  by_cases hj : j = i
  · subst hj
    simp [sizes, gain, Turn.after, Call.after]
  · simp [sizes, gain, Turn.after, hj]

theorem sizes_lose : (x.lose world i k).sizes = Turn.after x.sizes (.call i (.giveBack k)) := by
  funext j
  by_cases hj : j = i
  · subst hj
    simp [sizes, lose, Turn.after, Call.after, List.map_set]
  · simp [sizes, lose, Turn.after, hj]

theorem ticket?_gain : (x.gain world i ticket).ticket? j k =
    if j = i ∧ k = (x.hands i).length then some ticket else x.ticket? j k := by
  by_cases hj : j = i
  · subst hj
    have hself : (x.gain world j ticket).hands j = x.hands j ++ [some ticket] :=
      Function.update_self ..
    rw [ticket?, hself, ticket?]
    rcases Nat.lt_trichotomy k (x.hands j).length with hlt | heq | hgt
    · rw [List.getElem?_append_left hlt, if_neg fun hand => hlt.ne hand.2]
    · rw [heq, List.getElem?_concat_length, if_pos ⟨rfl, rfl⟩]
      rfl
    · have hbeyond : (x.hands j ++ [some ticket]).length ≤ k := by
        rw [List.length_append]
        exact hgt
      rw [if_neg fun hand => hgt.ne hand.2.symm, List.getElem?_eq_none hbeyond,
        List.getElem?_eq_none hgt.le]
  · have hother : (x.gain world i ticket).hands j = x.hands j := Function.update_of_ne hj ..
    rw [ticket?, hother, if_neg fun hand => hj hand.1]
    rfl

theorem ticket?_lose : (x.lose world i k).ticket? j l =
    if j = i ∧ l = k then none else x.ticket? j l := by
  by_cases hj : j = i
  · subst hj
    have hself : (x.lose world j k).hands j = (x.hands j).set k none := Function.update_self ..
    rw [ticket?, hself, ticket?]
    by_cases hl : l = k
    · subst hl
      rw [if_pos ⟨rfl, rfl⟩, List.getElem?_set_self']
      rcases (x.hands j)[l]? with _ | _ <;> rfl
    · rw [if_neg fun hand => hl hand.2, List.getElem?_set_ne (Ne.symm hl)]
  · have hother : (x.lose world i k).hands j = x.hands j := Function.update_of_ne hj ..
    rw [ticket?, hother, if_neg fun hand => hj hand.1]
    rfl

/-! ### Every turn takes its course -/

variable [Fintype ι]

/-- The books of a pool while threads are at work on it, `base` being what was in use before, on a
heap that grants these sizes. -/
structure Kept (p : PoolId) (grants : Nat → Bool) (base : Nat → Nat) (pool : Pool)
    (x : Traffic ι) : Prop where
  sound : x.world.Sound none
  granted : x.world.heap.grants = grants
  opened : x.world.pools.get? p = some pool
  in_use : ∀ size, pool.classes.inUseFor size = base size + inHands size x.sizes
  held : ∀ i k ticket, x.ticket? i k = some ticket → ∃ block,
    x.world.held.get? ticket.block = some block ∧ block.pool = p ∧ block.size = ticket.size
  apart : ∀ i k j l ticket other, x.ticket? i k = some ticket → x.ticket? j l = some other →
    ticket.block = other.block → i = j ∧ k = l

namespace Kept

variable {p : PoolId} {grants : Nat → Bool} {base : Nat → Nat} {pool : Pool} {x x' : Traffic ι}

omit [DecidableEq ι] in
theorem start {w : World} (hw : w.Sound none) (hp : w.pools.get? p = some pool) :
    (Traffic.start w : Traffic ι).Kept p w.heap.grants pool.classes.inUseFor pool where
  sound := hw
  granted := rfl
  opened := hp
  in_use size := by simp [inHands, inHand, sizes, Traffic.start]
  held i k ticket hticket := by simp [ticket?, Traffic.start] at hticket
  apart i k j l ticket other hticket := by simp [ticket?, Traffic.start] at hticket

theorem obtain (h : x.Kept p grants base pool) {i : ι} {size : Nat}
    (hturn : x.turn p (.call i (.obtain size)) = some x') :
    ∃ after, x'.Kept p grants base after ∧ Course [.call i (.obtain size)] x.sizes pool after ∧
      x'.sizes = Turn.after x.sizes (.call i (.obtain size)) := by
  have hall := h.sound.allocated p size
  have hsound := h.sound.alloc p size
  rw [turn] at hturn
  generalize x.world.alloc p size = result at hall hsound hturn
  cases hall with
  | noPool | inadmissible | outOfMemory => cases hturn
  | @served pool' T heap chunk supply opened admitted table out =>
      have hpool : pool' = pool := Option.some.inj (opened.symm.trans h.opened)
      subst hpool
      obtain rfl := Option.some.inj hturn
      have htable := h.sound.table p pool' opened
      obtain ⟨c, -, -, -, hsize, -⟩ := out.served htable
      have hget : ∀ b, (x.world.held.add { chunk, pool := p }).2.get? b = _ :=
        fun b => Registry.get?_add
      have hold : ∀ j k ticket, x.ticket? j k = some ticket →
          ticket.block ≠ (x.world.held.add { chunk, pool := p }).1 := by
        intro j k ticket hticket heq
        obtain ⟨block, hblock, -⟩ := h.held j k ticket hticket
        rw [heq, Registry.get?_add_self_eq_none] at hblock
        cases hblock
      refine ⟨{ pool' with classes := T },
        ⟨hsound, out.grants_eq.trans h.granted, ?_, ?_, ?_, ?_⟩,
        .obtain x.sizes i htable table out, sizes_gain ..⟩
      · exact (Registry.get?_set opened).trans (if_pos rfl)
      · intro other
        rw [sizes_gain, inHands_obtain, out.inUseFor_eq htable]
        by_cases ho : other = size
        · subst ho
          rw [Function.update_self, if_pos rfl, h.in_use, Nat.add_assoc]
        · rw [Function.update_of_ne ho, if_neg (Ne.symm ho), h.in_use, Nat.add_zero]
      · intro j k ticket hticket
        rw [ticket?_gain] at hticket
        split at hticket
        · cases hticket
          exact ⟨_, (hget _).trans (if_pos rfl), rfl, hsize⟩
        · obtain ⟨block, hblock, hrest⟩ := h.held j k ticket hticket
          have hne := hold j k ticket hticket
          exact ⟨block, ((hget _).trans (if_neg hne)).trans hblock, hrest⟩
      · intro j k j' l ticket other hticket hother heq
        rw [ticket?_gain] at hticket hother
        split at hticket
        · next hnew =>
          cases hticket
          split at hother
          · next hnew' => exact ⟨hnew.1.trans hnew'.1.symm, hnew.2.trans hnew'.2.symm⟩
          · exact absurd heq.symm (hold _ _ _ hother)
        · split at hother
          · cases hother
            exact absurd heq (hold _ _ _ hticket)
          · exact h.apart _ _ _ _ _ _ hticket hother heq

theorem giveBack (h : x.Kept p grants base pool) {i : ι} {k : Nat}
    (hturn : x.turn p (.call i (.giveBack k)) = some x') :
    ∃ after, x'.Kept p grants base after ∧ Course [.call i (.giveBack k)] x.sizes pool after ∧
      x'.sizes = Turn.after x.sizes (.call i (.giveBack k)) := by
  rw [turn] at hturn
  cases hticket : x.ticket? i k with
  | none =>
      rw [hticket] at hturn
      cases hturn
  | some ticket =>
      obtain ⟨block, hblock, hown, hsize⟩ := h.held i k ticket hticket
      have hk : (x.sizes i)[k]? = some (some block.size) := hsize ▸ sizes_of_ticket? hticket
      simp only [hticket, World.free_of_own h.opened hblock hown] at hturn
      obtain rfl := Option.some.inj hturn
      have hall := h.sound.released ticket.block
      have hsound := h.sound.release ticket.block
      generalize x.world.release ticket.block = result at hall hsound
      cases hall with
      | notHeld missing => cases missing.symm.trans hblock
      | homeless held closed =>
          cases held.symm.trans hblock
          cases closed.symm.trans (hown ▸ h.opened)
      | orphaned held opened falls => cases falls
      | @parked block' pool' c T held opened stands found owner in_use table after =>
          cases held.symm.trans hblock
          subst hown
          cases opened.symm.trans h.opened
          have htable := h.sound.table _ pool opened
          have hget : ∀ b, (x.world.held.remove ticket.block).get? b = _ :=
            fun b => Registry.get?_remove
          refine ⟨{ pool with classes := T }, ⟨hsound, h.granted, ?_, ?_, ?_, ?_⟩,
            .giveBack x.sizes i htable table hk found after, sizes_lose ..⟩
          · exact (Registry.get?_set opened).trans (if_pos rfl)
          · intro other
            have hheld := inHands_giveBack other hk
            rw [sizes_lose, ClassTable.inUseFor_of_checkin found after]
            by_cases ho : other = block.size
            · subst ho
              rw [if_pos rfl] at hheld
              rw [Function.update_self, h.in_use]
              omega
            · rw [if_neg (Ne.symm ho)] at hheld
              rw [Function.update_of_ne ho, h.in_use]
              omega
          · intro j l other hother
            rw [ticket?_lose] at hother
            split at hother
            · cases hother
            · next hne =>
              obtain ⟨block', hblock', hrest⟩ := h.held j l other hother
              refine ⟨block', ((hget _).trans (if_neg fun heq => hne ?_)).trans hblock', hrest⟩
              exact h.apart j l i k other ticket hother hticket heq
          · intro j l j' l' one other hone hother
            rw [ticket?_lose] at hone hother
            split at hone
            · cases hone
            · split at hother
              · cases hother
              · exact h.apart j l j' l' one other hone hother

theorem clear (h : x.Kept p grants base pool) {eraseVacant : Bool}
    (hturn : x.turn p (.clear eraseVacant) = some x') :
    ∃ after, x'.Kept p grants base after ∧ Course [.clear eraseVacant] x.sizes pool after ∧
      x'.sizes = Turn.after x.sizes (.clear eraseVacant) := by
  have htable := h.sound.table p pool h.opened
  have hsound := h.sound.clear p eraseVacant
  rw [World.clear_eq h.opened] at hsound
  rw [turn, World.clear_eq h.opened] at hturn
  obtain rfl := Option.some.inj hturn
  refine ⟨_, ⟨hsound, h.granted, ?_, ?_, h.held, h.apart⟩, .clear x.sizes htable eraseVacant, rfl⟩
  · exact (Registry.get?_set h.opened).trans (if_pos rfl)
  · intro size
    exact (htable.inUseFor_drain eraseVacant size).trans (h.in_use size)

theorem turn (h : x.Kept p grants base pool) {t : Turn ι} (hturn : x.turn p t = some x') :
    ∃ after, x'.Kept p grants base after ∧ Course [t] x.sizes pool after ∧
      x'.sizes = t.after x.sizes := by
  cases t with
  | call i c =>
      cases c with
      | obtain size => exact h.obtain hturn
      | giveBack k => exact h.giveBack hturn
  | clear eraseVacant => exact h.clear hturn

/-- A turn is served if it asks for a size that the pool hands out and the heap grants, or gives
back what the thread has. -/
theorem turn_isSome (h : x.Kept p grants base pool) {t : Turn ι}
    (hfits : ∀ i c, t = .call i c → c.Fits (x.sizes i))
    (hadmitted : ∀ i size, t = .call i (.obtain size) →
      pool.config.refusal? size = none ∧ grants size = true) : ∃ x', x.turn p t = some x' := by
  cases t with
  | clear eraseVacant =>
      refine ⟨{ x with world := (x.world.clear p eraseVacant).2 }, ?_⟩
      rw [Traffic.turn, World.clear_eq h.opened]
  | call i c =>
      cases c with
      | obtain size =>
          obtain ⟨hadmitted, hgranted⟩ := hadmitted i size rfl
          have hall := h.sound.allocated p size
          rw [Traffic.turn]
          generalize x.world.alloc p size = result at hall
          cases hall with
          | noPool closed => cases closed.symm.trans h.opened
          | inadmissible opened refusal =>
              cases opened.symm.trans h.opened
              cases refusal.symm.trans hadmitted
          | outOfMemory opened admitted table out =>
              cases out with
              | refused denied parked after =>
                  rw [h.granted, hgranted] at denied
                  cases denied
          | served opened admitted table out => exact ⟨_, rfl⟩
      | giveBack k =>
          obtain ⟨size, hsize⟩ := hfits i _ rfl
          obtain ⟨ticket, hticket⟩ := ticket?_of_sizes hsize
          obtain ⟨block, hblock, hown, -⟩ := h.held i k ticket hticket
          refine ⟨x.lose (x.world.release ticket.block) i k, ?_⟩
          simp only [Traffic.turn, hticket, World.free_of_own h.opened hblock hown]

theorem serve (h : x.Kept p grants base pool) {schedule : List (Turn ι)}
    (hserve : x.serve p schedule = some x') :
    ∃ after, x'.Kept p grants base after ∧ Course schedule x.sizes pool after ∧
      x'.sizes = schedule.foldl Turn.after x.sizes := by
  induction schedule generalizing x pool with
  | nil =>
      obtain rfl := Option.some.inj hserve
      exact ⟨pool, h, .nil x.sizes pool, rfl⟩
  | cons t rest ih =>
      obtain ⟨y, hturn, hrest⟩ := Option.bind_eq_some_iff.mp hserve
      obtain ⟨between, hy, hfirst, hsizes⟩ := h.turn hturn
      obtain ⟨after, hafter, hcourse, hend⟩ := ih hy hrest
      rw [hsizes] at hcourse hend
      exact ⟨after, hafter, hfirst.cons hcourse, hend⟩

theorem serve_isSome (h : x.Kept p grants base pool) {schedule : List (Turn ι)}
    (hproper : ∀ i, Proper (x.sizes i) (own i schedule))
    (hadmitted : ∀ size, Asked size schedule →
      pool.config.refusal? size = none ∧ grants size = true) :
    ∃ x', x.serve p schedule = some x' := by
  induction schedule generalizing x pool with
  | nil => exact ⟨x, rfl⟩
  | cons t rest ih =>
      have hnext : (∀ i c, t = .call i c → c.Fits (x.sizes i)) ∧
          ∀ j, Proper (t.after x.sizes j) (own j rest) := by
        cases t with
        | clear eraseVacant =>
            constructor
            · intro i c heq
              cases heq
            · intro j
              rw [← own_clear j eraseVacant]
              exact hproper j
        | call i c =>
            obtain ⟨hfits, hrest⟩ := proper_next hproper
            refine ⟨?_, hrest⟩
            rintro j d heq
            cases heq
            exact hfits
      obtain ⟨y, hturn⟩ := h.turn_isSome hnext.1 fun i size heq =>
        hadmitted size ⟨i, heq ▸ List.mem_cons_self⟩
      obtain ⟨between, hy, hcourse, hsizes⟩ := h.turn hturn
      have hproper_rest : ∀ j, Proper (y.sizes j) (own j rest) := by
        rw [hsizes]
        exact hnext.2
      obtain ⟨x', hx'⟩ := ih hy hproper_rest fun size hasked => by
        rw [hcourse.config]
        exact hadmitted size (asked_cons.mpr (Or.inr hasked))
      exact ⟨x', Option.bind_eq_some_iff.mpr ⟨y, hturn, hx'⟩⟩

end Kept

end Traffic

end BlockPool.Threads
