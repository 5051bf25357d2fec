import BlockPool.Proofs.ClassTable.Service
import BlockPool.Proofs.FreeList

/-! A size class at work: chunks go out over a desk and come back in any order, and the free list is drained
from time to time. The two counters of the class are the numbers of chunks that are out and that are parked
whatever is asked for, and the parked ones lie on each other like plates. -/

namespace BlockPool

/-- A class, and the chunks that were checked out of it and not checked in again. -/
structure Desk where
  sizeClass : SizeClass
  /-- The chunk that went out last stands in front. -/
  out : List Chunk := []
  /-- How many chunks the heap has given out. -/
  issued : Nat := 0

namespace Desk

inductive Request
  /-- Asks for a chunk at a moment when the heap grants these sizes. -/
  | checkout (grants : Nat → Bool)
  /-- Puts other bytes into the chunk at this place, as many as there are. -/
  | write (place : Nat) (payload : Payload)
  | checkin (place : Nat)
  | drain

inductive Reply
  | served (chunk : Chunk) (origin : Origin)
  | refused
  | written
  | parked (chunk : Chunk)
  | drained (n : Nat)
  /-- Nothing is out at this place, or it has another size. -/
  | mistaken
  deriving DecidableEq

/-- A new class. -/
def start (slot : Slot) (capacity : Nat) : Desk := { sizeClass := { slot, capacity } }

def step (d : Desk) : Request → Reply × Desk
  | .checkout grants =>
    match d.sizeClass.checkout? { grants, issued := d.issued } with
    | some served =>
      (.served served.chunk served.origin,
        { sizeClass := served.sizeClass, out := served.chunk :: d.out, issued := served.heap.issued })
    | none => (.refused, d)
  | .write place payload =>
    match d.out[place]? with
    | some chunk =>
      if payload.size = chunk.payload.size then
        (.written, { d with out := d.out.set place { chunk with payload } })
      else (.mistaken, d)
    | none => (.mistaken, d)
  | .checkin place =>
    match d.out[place]? with
    | some chunk =>
      (.parked chunk, { d with sizeClass := d.sizeClass.checkin chunk, out := d.out.eraseIdx place })
    | none => (.mistaken, d)
  | .drain =>
    let (n, sizeClass) := d.sizeClass.drain
    (.drained n, { d with sizeClass })

/-- The replies to a sequence of requests, in order, and the desk after them. -/
def run (d : Desk) : List Request → List Reply × Desk
  | [] => ([], d)
  | request :: rest =>
    let (reply, d) := d.step request
    let (replies, d) := d.run rest
    (reply :: replies, d)

/-- The next chunk that the heap makes for the class. -/
def make (d : Desk) : Chunk :=
  { serial := d.issued, owner := d.sizeClass.slot, payload := .zeros d.sizeClass.capacity }

/-- What a request comes to. -/
inductive Turn (d : Desk) : Request → Reply → Desk → Prop
  | hit (grants : Nat → Bool) {chunk : Chunk} {rest : FreeList}
      (pop : d.sizeClass.cached.pop? = some (chunk, rest)) :
      Turn d (.checkout grants) (.served chunk .cached)
        { d with sizeClass := d.sizeClass.afterHit rest, out := chunk :: d.out }
  | fresh {grants : Nat → Bool} (empty : d.sizeClass.cached.chain = [])
      (granted : grants d.sizeClass.capacity = true) :
      Turn d (.checkout grants) (.served d.make .fresh)
        { sizeClass := d.sizeClass.afterMiss, out := d.make :: d.out, issued := d.issued + 1 }
  | refused {grants : Nat → Bool} (empty : d.sizeClass.cached.chain = [])
      (denied : grants d.sizeClass.capacity = false) : Turn d (.checkout grants) .refused d
  | written {place : Nat} {chunk : Chunk} {payload : Payload} (found : d.out[place]? = some chunk)
      (size : payload.size = chunk.payload.size) :
      Turn d (.write place payload) .written
        { d with out := d.out.set place { chunk with payload } }
  | parked {place : Nat} {chunk : Chunk} (found : d.out[place]? = some chunk) :
      Turn d (.checkin place) (.parked chunk)
        { d with sizeClass := d.sizeClass.checkin chunk, out := d.out.eraseIdx place }
  | drained : Turn d .drain (.drained d.sizeClass.cached.len)
      { d with sizeClass := { d.sizeClass with cached := d.sizeClass.cached.releaseAll.2 } }
  | mistaken (request : Request) : Turn d request .mistaken d

theorem turn (d : Desk) (request : Request) :
    Turn d request (d.step request).1 (d.step request).2 := by
  cases request with
  | checkout grants =>
      cases hpop : d.sizeClass.cached.pop? with
      | some popped =>
          obtain ⟨chunk, rest⟩ := popped
          simp only [step, SizeClass.checkout?_of_pop? hpop]
          exact .hit grants hpop
      | none =>
          have hempty := FreeList.pop?_eq_none_iff.mp hpop
          cases hgrants : grants d.sizeClass.capacity with
          | true =>
              have hsome := @SizeClass.checkout?_of_grants _ { grants, issued := d.issued }
                hempty hgrants
              simp only [step, hsome]
              exact .fresh hempty hgrants
          | false =>
              have hnone : d.sizeClass.checkout? { grants, issued := d.issued } = none :=
                SizeClass.checkout?_eq_none_iff.mpr ⟨hempty, hgrants⟩
              simp only [step, hnone]
              exact .refused hempty hgrants
  | write place payload =>
      cases hfound : d.out[place]? with
      | some chunk =>
          by_cases hsize : payload.size = chunk.payload.size
          · simp only [step, hfound, if_pos hsize]
            exact .written hfound hsize
          · simp only [step, hfound, if_neg hsize]
            exact .mistaken _
      | none =>
          simp only [step, hfound]
          exact .mistaken _
  | checkin place =>
      cases hfound : d.out[place]? with
      | some chunk =>
          simp only [step, hfound]
          exact .parked hfound
      | none =>
          simp only [step, hfound]
          exact .mistaken _
  | drain => exact .drained

/-! ### Counters -/

/-- The numbers of all chunks of the class, first of those that are out and then of those that are parked. -/
def serials (d : Desk) : List Nat := (d.out ++ d.sizeClass.cached.chain).map (·.serial)

/-- No chunk is in two places, and the heap has made them all. -/
structure Numbered (d : Desk) : Prop where
  nodup : d.serials.Nodup
  made : ∀ serial ∈ d.serials, serial < d.issued

/-- The class counts what is parked and what is out, and all of it bears the stamp and the size of the
class. -/
structure Sound (d : Desk) : Prop where
  sizeClass : d.sizeClass.Sound
  in_use : d.sizeClass.inUse = d.out.length
  owner_eq : ∀ chunk ∈ d.out, chunk.owner = d.sizeClass.slot
  size_eq : ∀ chunk ∈ d.out, chunk.payload.size = d.sizeClass.capacity

theorem Numbered.start (slot : Slot) (capacity : Nat) : (start slot capacity).Numbered where
  nodup := List.nodup_nil
  made := nofun

theorem Sound.start (slot : Slot) (capacity : Nat) : (start slot capacity).Sound where
  sizeClass := .of_empty rfl
  in_use := rfl
  owner_eq := nofun
  size_eq := nofun

section Step

variable {d d' : Desk} {request : Request} {reply : Reply}

/-- A chunk changes its place, is made or is given back to the heap. -/
theorem Turn.serials (hturn : Turn d request reply d') :
    d'.issued = d.issued ∧ d'.serials.Subperm d.serials ∨
      d'.issued = d.issued + 1 ∧ d'.serials = d.issued :: d.serials := by
  cases hturn with
  | @hit grants chunk rest pop =>
      refine Or.inl ⟨rfl, List.Perm.subperm (List.Perm.map _ ?_)⟩
      rw [FreeList.chain_of_pop? pop]
      exact List.perm_middle.symm
  | fresh => exact Or.inr ⟨rfl, rfl⟩
  | refused | mistaken => exact Or.inl ⟨rfl, List.Subperm.refl _⟩
  | @written place chunk payload found size =>
      have hserial : (d.out.map (·.serial))[place]? = some chunk.serial := by
        rw [List.getElem?_map, found]
        rfl
      have hsame : (d.out.set place { chunk with payload }).map (·.serial) =
          d.out.map (·.serial) := by
        obtain ⟨hlt, hval⟩ := List.getElem?_eq_some_iff.mp hserial
        rw [List.map_set]
        exact (congrArg _ hval.symm).trans (List.set_getElem_self hlt)
      refine Or.inl ⟨rfl, ?_⟩
      rw [Desk.serials, List.map_append, hsame, ← List.map_append, ← Desk.serials]
  | @parked place chunk found =>
      refine Or.inl ⟨rfl, List.Perm.subperm (List.Perm.map _ ?_)⟩
      obtain ⟨hlt, rfl⟩ := List.getElem?_eq_some_iff.mp found
      exact List.perm_middle.trans ((List.getElem_cons_eraseIdx_perm hlt).append_right _)
  | drained =>
      have hempty : (d.sizeClass.cached.releaseAll.2).chain = [] :=
        FreeList.chain_popAll d.sizeClass.cached []
      refine Or.inl ⟨rfl, List.Sublist.subperm (List.Sublist.map _ ?_)⟩
      show (d.out ++ (d.sizeClass.cached.releaseAll.2).chain).Sublist _
      rw [hempty]
      exact (List.nil_sublist _).append_left _

theorem Turn.numbered (hturn : Turn d request reply d') (h : d.Numbered) : d'.Numbered := by
  rcases hturn.serials with ⟨hissued, l, hperm, hl⟩ | ⟨hissued, hnew⟩
  · refine ⟨hperm.nodup_iff.mp (hl.nodup h.nodup), fun serial hserial => ?_⟩
    rw [hissued]
    exact h.made serial (hl.subset (hperm.mem_iff.mpr hserial))
  · have hunused : d.issued ∉ d.serials := fun hmem => Nat.lt_irrefl _ (h.made _ hmem)
    refine ⟨hnew ▸ List.nodup_cons.mpr ⟨hunused, h.nodup⟩, ?_⟩
    rw [hissued, hnew]
    exact List.forall_mem_cons.mpr
      ⟨Nat.lt_succ_self _, fun serial hserial => Nat.lt_succ_of_lt (h.made serial hserial)⟩

theorem Turn.sound (hturn : Turn d request reply d') (h : d.Sound) : d'.Sound := by
  cases hturn with
  | @hit grants chunk rest pop =>
      have hparked : chunk ∈ d.sizeClass.cached.chain :=
        FreeList.chain_of_pop? pop ▸ List.mem_cons_self
      refine ⟨h.sizeClass.afterHit pop, congrArg (· + 1) h.in_use, ?_, ?_⟩
      · exact List.forall_mem_cons.mpr ⟨h.sizeClass.owner_eq chunk hparked, h.owner_eq⟩
      · exact List.forall_mem_cons.mpr ⟨h.sizeClass.size_eq chunk hparked, h.size_eq⟩
  | fresh empty granted =>
      refine ⟨h.sizeClass.afterMiss, congrArg (· + 1) h.in_use, ?_, ?_⟩
      · exact List.forall_mem_cons.mpr ⟨rfl, h.owner_eq⟩
      · exact List.forall_mem_cons.mpr ⟨Payload.size_zeros _, h.size_eq⟩
  | refused | mistaken => exact h
  | @written place chunk payload found size =>
      have hout := List.mem_of_getElem? found
      refine ⟨h.sizeClass, h.in_use.trans List.length_set.symm, fun c hc => ?_, fun c hc => ?_⟩
      · rcases List.mem_or_eq_of_mem_set hc with hold | rfl
        · exact h.owner_eq c hold
        · exact h.owner_eq chunk hout
      · rcases List.mem_or_eq_of_mem_set hc with hold | rfl
        · exact h.size_eq c hold
        · exact size.trans (h.size_eq chunk hout)
  | @parked place chunk found =>
      have hout := List.mem_of_getElem? found
      have hlt := (List.getElem?_eq_some_iff.mp found).1
      refine ⟨h.sizeClass.checkin (h.owner_eq chunk hout) (h.size_eq chunk hout), ?_, ?_, ?_⟩
      · rw [List.length_eraseIdx_of_lt hlt, ← h.in_use]
        rfl
      · exact fun c hc => h.owner_eq c (List.mem_of_mem_eraseIdx hc)
      · exact fun c hc => h.size_eq c (List.mem_of_mem_eraseIdx hc)
  | drained =>
      have hempty : d.sizeClass.cached.releaseAll.2 = {} :=
        congrArg Prod.snd h.sizeClass.counted.releaseAll
      exact ⟨.of_empty hempty, h.in_use, h.owner_eq, h.size_eq⟩

end Step

theorem run_cons (d : Desk) (request : Request) (rest : List Request) :
    d.run (request :: rest) = ((d.step request).1 :: ((d.step request).2.run rest).1,
      ((d.step request).2.run rest).2) := rfl

theorem run_append (d : Desk) (requests more : List Request) :
    d.run (requests ++ more) =
      ((d.run requests).1 ++ ((d.run requests).2.run more).1, ((d.run requests).2.run more).2) := by
  induction requests generalizing d with
  | nil => rfl
  | cons request rest ih => simp only [List.cons_append, run_cons, ih]

/-- What every request keeps, a sequence of requests keeps. -/
theorem Turn.run {P : Desk → Prop}
    (hkeep : ∀ {d d' request reply}, Turn d request reply d' → P d → P d') {d : Desk} (h : P d)
    (requests : List Request) : P (d.run requests).2 := by
  induction requests generalizing d with
  | nil => exact h
  | cons request rest ih => exact ih (hkeep (d.turn request) h)

theorem Sound.run {d : Desk} (h : d.Sound) (requests : List Request) : (d.run requests).2.Sound :=
  Turn.run Turn.sound h requests

theorem Numbered.run {d : Desk} (h : d.Numbered) (requests : List Request) :
    (d.run requests).2.Numbered :=
  Turn.run Turn.numbered h requests

/-- The class stays in its slot and keeps its capacity. -/
def Serves (slot : Slot) (capacity : Nat) (d : Desk) : Prop :=
  d.sizeClass.slot = slot ∧ d.sizeClass.capacity = capacity

theorem Serves.run {slot : Slot} {capacity : Nat} {d : Desk} (h : d.Serves slot capacity)
    (requests : List Request) : (d.run requests).2.Serves slot capacity := by
  refine Turn.run (fun hturn hserves => ?_) h requests
  cases hturn <;> exact hserves

/-! ### Last in, first out -/

/-- How many chunks are parked, by the length on record. -/
def height (d : Desk) : Nat := d.sizeClass.cached.len

/-- The free list is never shorter than this while the requests are served. -/
def StaysAbove (d : Desk) (n : Nat) (requests : List Request) : Prop :=
  ∀ front, front <+: requests → n ≤ (d.run front).2.height

/-- What lies at the bottom stays there as long as nothing is taken from it. -/
theorem Turn.bottom {d d' : Desk} {request : Request} {reply : Reply} {bottom : List Chunk}
    (hturn : Turn d request reply d') (h : d.Sound) (hbottom : bottom <:+ d.sizeClass.cached.chain)
    (habove : bottom.length ≤ d'.height) : bottom <:+ d'.sizeClass.cached.chain := by
  have hheight : d'.height = d'.sizeClass.cached.chain.length := (hturn.sound h).sizeClass.counted
  cases hturn with
  | @hit grants chunk rest pop =>
      rw [FreeList.chain_of_pop? pop, List.suffix_cons_iff] at hbottom
      rcases hbottom with rfl | hrest
      · -- the plate that was taken belongs to the bottom, and the rest is too short
        rw [hheight] at habove
        exact absurd habove (Nat.not_succ_le_self _)
      · exact hrest
  | fresh | refused | written | mistaken => exact hbottom
  | parked found => exact hbottom.trans (List.suffix_cons _ _)
  | drained =>
      have hempty : (d.sizeClass.cached.releaseAll.2).chain = [] :=
        FreeList.chain_popAll d.sizeClass.cached []
      rw [hheight] at habove
      simp only [hempty, List.length_nil, Nat.le_zero_eq, List.length_eq_zero_iff] at habove
      rw [habove]
      exact List.nil_suffix

theorem Sound.bottom_run {d : Desk} (h : d.Sound) {bottom : List Chunk}
    (hbottom : bottom <:+ d.sizeClass.cached.chain) {requests : List Request}
    (habove : d.StaysAbove bottom.length requests) :
    bottom <:+ (d.run requests).2.sizeClass.cached.chain := by
  induction requests generalizing d with
  | nil => exact hbottom
  | cons request rest ih =>
      have hturn := d.turn request
      have hfirst : bottom.length ≤ (d.step request).2.height := habove [request] (by simp)
      refine ih (hturn.sound h) (hturn.bottom h hbottom hfirst) fun front hfront => ?_
      exact habove (request :: front) (List.prefix_cons_inj request |>.mpr hfront)

theorem step_checkout_of_pop? {d : Desk} {chunk : Chunk} {rest : FreeList}
    (hpop : d.sizeClass.cached.pop? = some (chunk, rest)) (grants : Nat → Bool) :
    d.step (.checkout grants) = (.served chunk .cached,
      { d with sizeClass := d.sizeClass.afterHit rest, out := chunk :: d.out }) := by
  simp only [step, SizeClass.checkout?_of_pop? hpop]

theorem run_checkout_of_pop? {d : Desk} {chunk : Chunk} {rest : FreeList}
    (hpop : d.sizeClass.cached.pop? = some (chunk, rest)) (grants : Nat → Bool) :
    d.run [.checkout grants] = ([.served chunk .cached],
      { d with sizeClass := d.sizeClass.afterHit rest, out := chunk :: d.out }) := by
  rw [run_cons, step_checkout_of_pop? hpop]
  rfl

section Lifo

variable {d : Desk} (h : d.Sound)

include h

theorem Sound.height_eq : d.height = d.sizeClass.cached.chain.length := h.sizeClass.counted

/-- A chunk that was parked is the next to go out, as it is, when the list has come down to it again. -/
theorem Sound.served_again {place : Nat} {chunk : Chunk} (hfound : d.out[place]? = some chunk)
    {requests : List Request}
    (habove : (d.step (.checkin place)).2.StaysAbove (d.height + 1) requests)
    (hheight : ((d.step (.checkin place)).2.run requests).2.height = d.height + 1) (grants : Nat → Bool) :
    (((d.step (.checkin place)).2.run requests).2.step (.checkout grants)).1 =
      .served chunk .cached := by
  have hparked : (d.step (.checkin place)).2.sizeClass = d.sizeClass.checkin chunk := by
    simp only [step, hfound]
  have hsound := (d.turn (.checkin place)).sound h
  generalize (d.step (.checkin place)).2 = d' at hparked hsound habove hheight ⊢
  have hchain : d'.sizeClass.cached.chain = chunk :: d.sizeClass.cached.chain := by
    rw [hparked]
    rfl
  have hlength : d.height + 1 = d'.sizeClass.cached.chain.length := by
    rw [hchain, List.length_cons, h.height_eq]
  rw [hlength] at habove hheight
  have hbottom := hsound.bottom_run List.suffix_rfl habove
  rw [(hsound.run requests).height_eq] at hheight
  have hsame := (hbottom.eq_of_length hheight.symm).symm.trans hchain
  cases hpop : (d'.run requests).2.sizeClass.cached.pop? with
  | none =>
      rw [FreeList.pop?_eq_none_iff.mp hpop] at hsame
      cases hsame
  | some popped =>
      obtain ⟨chunk', rest⟩ := popped
      rw [FreeList.chain_of_pop? hpop] at hsame
      rw [step_checkout_of_pop? hpop, (List.cons.inj hsame).1]

theorem Sound.of_parked {place : Nat} {chunk : Chunk}
    (hparked : (d.step (.checkin place)).1 = .parked chunk) :
    (d.step (.checkin place)).2.sizeClass = d.sizeClass.checkin chunk ∧ 0 < d.sizeClass.inUse := by
  have hturn := d.turn (.checkin place)
  rw [hparked] at hturn
  generalize (d.step (.checkin place)).2 = d' at hturn ⊢
  cases hturn with
  | parked found =>
      rw [h.in_use]
      exact ⟨rfl, Nat.zero_lt_of_lt (List.getElem?_eq_some_iff.mp found).1⟩

/-- Chunks that are parked one after the other go out again in the opposite order, and leave the class as it
was. -/
theorem Sound.served_in_reverse {places : List Nat} {chunks : List Chunk} {moments : List (Nat → Bool)}
    (hparked : (d.run (places.map .checkin)).1 = chunks.map .parked)
    (hcount : moments.length = places.length) :
    ((d.run (places.map .checkin)).2.run (moments.map .checkout)).1 =
        chunks.reverse.map (.served · .cached) ∧
      ((d.run (places.map .checkin)).2.run (moments.map .checkout)).2.sizeClass = d.sizeClass := by
  induction places generalizing d chunks moments with
  | nil =>
      cases List.length_eq_zero_iff.mp hcount
      cases List.map_eq_nil_iff.mp hparked.symm
      exact ⟨rfl, rfl⟩
  | cons place rest ih =>
      obtain ⟨front, last, rfl⟩ : ∃ front last, moments = front ++ [last] := by
        rcases List.eq_nil_or_concat moments with rfl | ⟨front, last, heq⟩
        · cases hcount
        · exact ⟨front, last, heq.trans List.concat_eq_append⟩
      rw [List.length_append, List.length_singleton, List.length_cons] at hcount
      rw [List.map_cons, run_cons] at hparked ⊢
      obtain ⟨chunk, others, rfl, hfirst, hrest⟩ := List.map_eq_cons_iff.mp hparked.symm
      obtain ⟨hclass, hpos⟩ := h.of_parked hfirst.symm
      obtain ⟨hserved, hback⟩ :=
        ih ((d.turn (.checkin place)).sound h) hrest.symm (Nat.succ.inj hcount)
      -- the first chunk that was parked lies below the others, and goes out last
      have hpop : ((d.sizeClass.checkin chunk).cached).pop? = some (chunk, d.sizeClass.cached) :=
        FreeList.pop?_push _ _
      rw [hclass] at hback
      rw [← hback] at hpop
      rw [List.map_append, run_append, List.map_singleton, run_checkout_of_pop? hpop, hserved,
        hback, List.reverse_cons, List.map_append]
      exact ⟨rfl, SizeClass.afterHit_checkin hpos chunk⟩

end Lifo

/-! ### What can be relied on -/

/-- What can be relied on at the desk of a class with this slot and this capacity. -/
structure Exact (slot : Slot) (capacity : Nat) (d : Desk) : Prop where
  len_eq : d.sizeClass.cached.len = d.sizeClass.cached.chain.length
  isEmpty_iff : d.sizeClass.cached.isEmpty = true ↔ d.sizeClass.cached.len = 0
  /-- The free list can be laid out in memory, and any such layout keeps the same books. -/
  linked : (∃ l : NodeList, l.toFreeList = d.sizeClass.cached) ∧
    ∀ l : NodeList, l.toFreeList = d.sizeClass.cached → l.Exact
  in_use_eq : d.sizeClass.inUse = d.out.length
  isVacant_iff : d.sizeClass.isVacant = true ↔
    d.sizeClass.inUse = 0 ∧ d.sizeClass.cached.len = 0
  stamped : ∀ chunk ∈ d.out ++ d.sizeClass.cached.chain,
    chunk.owner = slot ∧ chunk.payload.size = capacity
  /-- No chunk is in two places. -/
  serials_nodup : d.serials.Nodup
  refused_iff : ∀ grants, (d.step (.checkout grants)).1 = .refused ↔
    d.sizeClass.cached.chain = [] ∧ grants capacity = false
  refused_same : ∀ grants, (d.step (.checkout grants)).1 = .refused →
    (d.step (.checkout grants)).2 = d
  /-- A parked chunk waits, whatever happens above it, and goes out again as it came in. -/
  served_again : ∀ place chunk, d.out[place]? = some chunk → ∀ requests,
    (d.step (.checkin place)).2.StaysAbove (d.height + 1) requests →
    ((d.step (.checkin place)).2.run requests).2.height = d.height + 1 → ∀ grants,
      (((d.step (.checkin place)).2.run requests).2.step (.checkout grants)).1 =
        .served chunk .cached
  served_in_reverse : ∀ (places : List Nat) (chunks : List Chunk) (moments : List (Nat → Bool)),
    (d.run (places.map .checkin)).1 = chunks.map .parked → moments.length = places.length →
      ((d.run (places.map .checkin)).2.run (moments.map .checkout)).1 =
        chunks.reverse.map (.served · .cached)
  drained : (d.sizeClass.cached.popAll []).1 = d.sizeClass.cached.chain ∧
    d.step .drain = (.drained d.sizeClass.cached.chain.length,
      { d with sizeClass := { d.sizeClass with cached := {} } })

theorem refused_iff (d : Desk) (grants : Nat → Bool) : (d.step (.checkout grants)).1 = .refused ↔
    d.sizeClass.cached.chain = [] ∧ grants d.sizeClass.capacity = false := by
  rw [← @SizeClass.checkout?_eq_none_iff _ { grants, issued := d.issued }, step]
  cases d.sizeClass.checkout? { grants, issued := d.issued } <;> simp

theorem step_of_refused {d : Desk} {grants : Nat → Bool} (h : (d.step (.checkout grants)).1 = .refused) :
    (d.step (.checkout grants)).2 = d := by
  have hturn := d.turn (.checkout grants)
  rw [h] at hturn
  generalize (d.step (.checkout grants)).2 = d' at hturn ⊢
  cases hturn
  rfl

theorem Sound.exact {d : Desk} (h : d.Sound) (hnumbered : d.Numbered) :
    d.Exact d.sizeClass.slot d.sizeClass.capacity := by
  have hcounted := h.sizeClass.counted
  have hempty : d.sizeClass.cached.isEmpty = true ↔ d.sizeClass.cached.len = 0 := by
    rw [hcounted, List.length_eq_zero_iff]
    exact List.isEmpty_iff
  refine ⟨hcounted, hempty, ⟨NodeList.exists_toFreeList _, fun l hl => ?_⟩, h.in_use, ?_, ?_,
    hnumbered.nodup, d.refused_iff, fun grants => step_of_refused, ?_, ?_, ⟨?_, ?_⟩⟩
  · exact NodeList.exact (hl ▸ hcounted)
  · rw [SizeClass.isVacant, Bool.and_eq_true, decide_eq_true_eq, hempty]
  · intro chunk hchunk
    rcases List.mem_append.mp hchunk with hout | hparked
    · exact ⟨h.owner_eq chunk hout, h.size_eq chunk hout⟩
    · exact ⟨h.sizeClass.owner_eq chunk hparked, h.sizeClass.size_eq chunk hparked⟩
  · exact fun place chunk hfound requests => h.served_again hfound
  · exact fun places chunks moments hparked hcount => (h.served_in_reverse hparked hcount).1
  · exact d.sizeClass.cached.popAll_fst []
  · rw [step, h.sizeClass.drain]

/-- Whatever is asked for at the desk of a new class, its counters are the numbers of chunks that are out and
that are parked, and the parked ones go out again in the opposite order, as they came in. -/
theorem counters_meet_chains (slot : Slot) (capacity : Nat) (requests : List Request) :
    ((start slot capacity).run requests).2.Exact slot capacity := by
  have hexact := ((Sound.start slot capacity).run requests).exact
    ((Numbered.start slot capacity).run requests)
  have hstart : (start slot capacity).Serves slot capacity := ⟨rfl, rfl⟩
  obtain ⟨hslot, hcapacity⟩ := hstart.run requests
  rwa [hslot, hcapacity] at hexact

/-- Two chunks change places on their way, and the bytes that were written stay with theirs. -/
example : ((start 0 2).run [.checkout fun _ => true, .checkout fun _ => true, .write 0 ⟨#[1, 2]⟩,
      .checkin 0, .checkin 0, .checkout fun _ => false, .checkout fun _ => false]).1.drop 5 =
    [.served { serial := 0, owner := 0, payload := ⟨#[0, 0]⟩ } .cached,
      .served { serial := 1, owner := 0, payload := ⟨#[1, 2]⟩ } .cached] := by
  decide +kernel

end Desk

end BlockPool
