import BlockPool.Proofs.ClassTable.Total
import BlockPool.Proofs.World.Reachable

/-! Where the chunks are. Every chunk that was ever made is held by a block, parked in a class or
back with the heap, and in one of these places only once; while it is held or parked it is with the
pool and the size that it was made for. The log tells which chunks were made, and what an action
gives back to the heap is said for each action on its own. -/

namespace BlockPool

/-- The serials of the parked chunks, in the order in which a drain gives them back. -/
def ClassTable.parkedSerials (t : ClassTable) : List Nat :=
  t.classes.flatMap fun c => c.cached.chain.map (·.serial)

/-- The pool and the size that a chunk was made for, if the record tells of a fresh chunk. -/
def Record.made? (r : Record) : Option (PoolId × Nat) :=
  match r.event with
  | .supplied (.miss _) size => some (r.pool, size)
  | _ => none

/-- How many blocks an answer hands out. -/
def Answer.blocks : Answer → Nat
  | .issued _ _ _ => 1
  | _ => 0

namespace World

def heldSerials (w : World) : List Nat := w.held.toList.map (·.chunk.serial)

def parkedSerials (w : World) : List Nat :=
  w.pools.toList.flatMap fun pool => pool.classes.parkedSerials

/-- The pool and the size of every chunk that was ever made, in the order of the serials. -/
def made (w : World) : List (PoolId × Nat) := w.log.toList.filterMap Record.made?

/-! ### What goes back to the heap -/

/-- What goes back when a caller lets go of a block: its chunk, if no pool takes it in. -/
def shed (w : World) (falling : Option PoolId) (b : BlockId) : List Nat :=
  match w.held.get? b with
  | none => []
  | some block =>
    if w.pools.get? block.pool = none ∨ falling = some block.pool then [block.chunk.serial] else []

/-- What goes back when callers let go of blocks, one after the other. -/
def shedAll (w : World) (falling : Option PoolId) : List BlockId → List Nat
  | [] => []
  | b :: rest => w.shed falling b ++ (w.release b).shedAll falling rest

/-- What goes back when the free lists of a pool are emptied. -/
def parkedIn (w : World) (p : PoolId) : List Nat :=
  match w.pools.get? p with
  | none => []
  | some pool => pool.classes.parkedSerials

/-- What an action gives back to the heap. -/
def freedBy (w : World) : Action → List Nat
  | .free p b => if (w.pools.get? p).isSome then w.shed none b else []
  | .release b => w.shed none b
  | .clear p _ => w.parkedIn p
  | .destroy p during | .discard p during =>
    match w.pools.get? p with
    | none => []
    | some pool =>
      if ∀ b ∈ during, (w.held.get? b).isSome = true then
        w.parkedIn p ++ (w.emptied p pool).shedAll (some p) during
      else []
  | .openPool _ | .openStandard | .alloc _ _ | .write _ _ _ | .sizes _ | .contains _ _ | .count _
  | .read _ | .belongs _ _ => []

/-- Every chunk ever made is accounted for once, `freed` being those back with the heap and `served`
the number of blocks handed out so far. -/
structure Books (w : World) (freed : List Nat) (served : Nat) : Prop where
  accounted : ∀ n, w.heldSerials.count n + w.parkedSerials.count n + freed.count n =
    if n < w.made.length then 1 else 0
  issued_eq : w.heap.issued = w.made.length
  made_le : w.made.length ≤ served
  held_made : ∀ b ∈ w.held.toList, w.made[b.chunk.serial]? = some (b.pool, b.size)
  parked_made : ∀ p pool, w.pools.get? p = some pool → ∀ size,
    ∀ chunk ∈ pool.classes.parkedFor size, w.made[chunk.serial]? = some (p, size)

end World

/-! ### Counting serials -/

namespace ClassTable

variable {t T : ClassTable}

theorem count_parkedSerials (t : ClassTable) (n : Nat) : t.parkedSerials.count n =
    (t.classes.map fun c => (c.cached.chain.map (·.serial)).count n).sum :=
  List.count_flatMap

/-- A change to one class shows in what is parked by the free list before and after. -/
theorem Sound.count_update (h : t.Sound) (hT : T.Sound) {size : Nat} {c : SizeClass}
    (hafter : T.classFor? = Function.update t.classFor? size (some c)) (n : Nat) :
    T.parkedSerials.count n + ((t.parkedFor size).map (·.serial)).count n =
      t.parkedSerials.count n + (c.cached.chain.map (·.serial)).count n := by
  have hshare : t.share (fun c => (c.cached.chain.map (·.serial)).count n) size =
      ((t.parkedFor size).map (·.serial)).count n := by
    unfold share parkedFor
    cases t.classFor? size <;> rfl
  rw [count_parkedSerials, count_parkedSerials, ← hshare]
  exact h.sum_classes_update _ hT hafter

theorem Sound.count_congr (h : t.Sound) (hT : T.Sound) (hafter : T.classFor? = t.classFor?)
    (n : Nat) : T.parkedSerials.count n = t.parkedSerials.count n := by
  rw [count_parkedSerials, count_parkedSerials]
  exact h.sum_classes_congr _ hT hafter

/-- A table with nothing parked for any size has nothing parked. -/
theorem Sound.parkedSerials_eq_nil (h : t.Sound) (hnone : ∀ size, t.parkedFor size = []) :
    t.parkedSerials = [] := by
  rw [parkedSerials, List.flatMap_eq_nil_iff, h.classes_eq]
  intro c hc
  obtain ⟨size, -, hserves⟩ := List.mem_filterMap.mp hc
  rw [← parkedFor_of_classFor? hserves, hnone]
  rfl

section Service

variable {heap heap' : Heap} {size : Nat} {chunk : Chunk} {supply : Supply}

/-- A chunk handed out was parked before if it is a hit, and otherwise what is parked stays. -/
theorem CheckedOut.count (h : t.Sound) (hT : T.Sound)
    (hout : CheckedOut t heap size (some (chunk, supply)) T heap') (n : Nat) :
    T.parkedSerials.count n + (if supply = .hit ∧ chunk.serial = n then 1 else 0) =
      t.parkedSerials.count n := by
  cases hout with
  | @hit c _ rest _ found pop after =>
      have hcount := h.count_update hT after n
      rw [parkedFor_of_classFor? found, FreeList.chain_of_pop? pop, List.map_cons, List.count_cons,
        SizeClass.afterHit] at hcount
      simp only [beq_iff_eq] at hcount
      simp only [true_and]
      omega
  | @miss c _ granted parked capacity in_use empty found new after =>
      have hcount := h.count_update hT after n
      rw [parked, SizeClass.afterMiss, empty] at hcount
      simpa using hcount

theorem CheckedOut.parked_subset
    (hout : CheckedOut t heap size (some (chunk, supply)) T heap') (s : Nat) :
    T.parkedFor s ⊆ t.parkedFor s := by
  intro parked hparked
  cases hout with
  | @hit c _ rest _ found pop after =>
      rw [parkedFor_of_update after] at hparked
      by_cases hs : s = size
      · subst hs
        rw [Function.update_self] at hparked
        rw [parkedFor_of_classFor? found, FreeList.chain_of_pop? pop]
        exact List.mem_cons_of_mem _ hparked
      · rwa [Function.update_of_ne hs] at hparked
  | @miss c _ granted _ capacity in_use empty found new after =>
      rw [parkedFor_of_update after] at hparked
      by_cases hs : s = size
      · subst hs
        rw [Function.update_self, SizeClass.afterMiss, empty] at hparked
        cases hparked
      · rwa [Function.update_of_ne hs] at hparked

/-- A chunk that is a hit was parked for its size. -/
theorem CheckedOut.mem_parkedFor
    (hout : CheckedOut t heap size (some (chunk, .hit)) T heap') :
    chunk ∈ t.parkedFor size ∧ heap' = heap := by
  cases hout with
  | hit found pop after =>
      rw [parkedFor_of_classFor? found, FreeList.chain_of_pop? pop]
      exact ⟨List.mem_cons_self, rfl⟩

/-- A chunk that is no hit bears the next serial of the heap. -/
theorem CheckedOut.serial_eq {isNew : Bool}
    (hout : CheckedOut t heap size (some (chunk, .miss isNew)) T heap') :
    chunk.serial = heap.issued ∧ heap'.issued = heap.issued + 1 := by
  cases hout with
  | miss granted parked capacity in_use empty found new after => exact ⟨rfl, rfl⟩

end Service

end ClassTable

namespace World

variable {w : World} {freed : List Nat} {served : Nat}

theorem count_parkedSerials (w : World) (n : Nat) : w.parkedSerials.count n =
    (w.pools.toList.map fun pool => pool.classes.parkedSerials.count n).sum :=
  List.count_flatMap

theorem made_report (w : World) (p : PoolId) (pool : Pool) (event : Event) :
    (w.report p pool event).made =
      w.made ++ (Record.made? { pool := p, label := pool.config.name, event }).toList := by
  unfold made report
  rw [Array.toList_push, List.filterMap_append]
  rfl

/-- The books do not say what the heap would grant. -/
theorem Books.regrant (h : w.Books freed served) (grants : Nat → Bool) :
    (w.regrant grants).Books freed served :=
  ⟨h.accounted, h.issued_eq, h.made_le, h.held_made, h.parked_made⟩

/-- A record that tells of no fresh chunk changes no books. -/
theorem Books.report (h : w.Books freed served) (p : PoolId) (pool : Pool) {event : Event}
    (hevent : ∀ isNew size, event ≠ .supplied (.miss isNew) size) :
    (w.report p pool event).Books freed served := by
  have hmade : (w.report p pool event).made = w.made := by
    rw [made_report, Record.made?]
    split
    · next heq => exact absurd heq (hevent _ _)
    · exact List.append_nil _
  refine ⟨?_, ?_, ?_, ?_, ?_⟩
  · rw [hmade]
    exact h.accounted
  · rw [hmade]
    exact h.issued_eq
  · rw [hmade]
    exact h.made_le
  · rw [hmade]
    exact h.held_made
  · rw [hmade]
    exact h.parked_made

section Tables

variable {w' : World} {p : PoolId} {pool : Pool} {T : ClassTable}

/-- A change to one table shows in what is parked by that table before and after. -/
theorem count_setPool (hp : w.pools.get? p = some pool)
    (hpools : w'.pools = w.pools.set p { pool with classes := T }) (n : Nat) :
    w'.parkedSerials.count n + pool.classes.parkedSerials.count n =
      w.parkedSerials.count n + T.parkedSerials.count n := by
  rw [count_parkedSerials, count_parkedSerials, hpools]
  exact Registry.sum_set (fun pool : Pool => pool.classes.parkedSerials.count n) hp
    { pool with classes := T }

/-- A table that parks less than before, the difference having gone back to the heap. -/
theorem Books.replaceTable (h : w.Books freed served) (hp : w.pools.get? p = some pool)
    (hw' : w' = { w with pools := w.pools.set p { pool with classes := T } }) {freed' : List Nat}
    (hcount : ∀ n, T.parkedSerials.count n + freed'.count n =
      pool.classes.parkedSerials.count n + freed.count n)
    (hsub : ∀ size, T.parkedFor size ⊆ pool.classes.parkedFor size) :
    w'.Books freed' served := by
  have hpools : w'.pools = w.pools.set p { pool with classes := T } := by rw [hw']
  have hheld : w'.held = w.held := by rw [hw']
  have hmade : w'.made = w.made := by rw [hw']; rfl
  refine ⟨?_, ?_, ?_, ?_, ?_⟩
  · intro n
    have hset := count_setPool hp hpools n
    have hacc := h.accounted n
    have hn := hcount n
    rw [heldSerials, hheld, ← heldSerials, hmade]
    omega
  · rw [hw']
    exact h.issued_eq
  · rw [hmade]
    exact h.made_le
  · rw [hheld, hmade]
    exact h.held_made
  · intro q pool' hq size chunk hchunk
    rw [hpools, Registry.get?_set hp] at hq
    rw [hmade]
    split at hq
    · next heq =>
      cases hq
      rw [heq]
      exact h.parked_made p pool hp size chunk (hsub size hchunk)
    · exact h.parked_made q pool' hq size chunk hchunk

end Tables

/-! ### Letting go -/

section Drop

variable {b : BlockId} {block : Block}

theorem count_drop (hb : w.held.get? b = some block) (n : Nat) :
    (w.drop b).heldSerials.count n + (if block.chunk.serial = n then 1 else 0) =
      w.heldSerials.count n := by
  have hcount := Registry.countP_remove (fun b : Block => b.chunk.serial == n) hb
  simp only [beq_iff_eq] at hcount
  rw [heldSerials, heldSerials, List.count_eq_countP, List.count_eq_countP, List.countP_map,
    List.countP_map]
  exact hcount

/-- The chunk of a block that no pool takes in goes back to the heap. -/
theorem Books.drop (h : w.Books freed served) (hb : w.held.get? b = some block) :
    (w.drop b).Books (freed ++ [block.chunk.serial]) served := by
  refine ⟨?_, ?_, ?_, ?_, ?_⟩
  · intro n
    have hdrop := count_drop hb n
    have hacc := h.accounted n
    rw [List.count_append, List.count_singleton]
    simp only [beq_iff_eq]
    show _ + w.parkedSerials.count n + _ = if n < w.made.length then 1 else 0
    omega
  · exact h.issued_eq
  · exact h.made_le
  · intro b' hb'
    exact h.held_made b' (Registry.mem_of_mem_remove hb')
  · exact h.parked_made

/-- The chunk of a block that its pool takes in is parked for its size. -/
theorem Books.park (h : w.Books freed served) (hb : w.held.get? b = some block) {pool : Pool}
    (hp : w.pools.get? block.pool = some pool) (ht : pool.classes.Sound) {T : ClassTable}
    (hT : T.Sound) {c : SizeClass} (hc : pool.classes.classFor? block.size = some c)
    (hafter : T.classFor? = Function.update pool.classes.classFor? block.size
      (some (c.checkin block.chunk))) {w' : World}
    (hw' : w' = { w.drop b with pools := w.pools.set block.pool { pool with classes := T } }) :
    w'.Books freed served := by
  have hpools : w'.pools = w.pools.set block.pool { pool with classes := T } := by rw [hw']
  have hheld : w'.held = (w.drop b).held := by rw [hw']
  have hmade : w'.made = w.made := by rw [hw']; rfl
  have hold := ClassTable.parkedFor_of_classFor? hc
  refine ⟨?_, ?_, ?_, ?_, ?_⟩
  · intro n
    have hdrop := count_drop hb n
    have hset := count_setPool hp hpools n
    have htable := ht.count_update hT hafter n
    have hacc := h.accounted n
    rw [hold, SizeClass.checkin, FreeList.chain_push, List.map_cons, List.count_cons] at htable
    simp only [beq_iff_eq] at htable
    rw [heldSerials, hheld, ← heldSerials, hmade]
    omega
  · rw [hw']
    exact h.issued_eq
  · rw [hmade]
    exact h.made_le
  · intro b' hb'
    rw [hheld] at hb'
    rw [hmade]
    exact h.held_made b' (Registry.mem_of_mem_remove hb')
  · intro q pool' hq size chunk hchunk
    rw [hpools, Registry.get?_set hp] at hq
    rw [hmade]
    split at hq
    · next heq =>
      cases hq
      subst heq
      rw [ClassTable.parkedFor_of_update hafter] at hchunk
      by_cases hs : size = block.size
      · subst hs
        rw [Function.update_self] at hchunk
        rcases List.mem_cons.mp hchunk with rfl | hchunk
        · exact h.held_made block (Registry.mem_toList_of_get? hb)
        · exact h.parked_made _ pool hp _ chunk (hold ▸ hchunk)
      · rw [Function.update_of_ne hs] at hchunk
        exact h.parked_made _ pool hp size chunk hchunk
    · exact h.parked_made q pool' hq size chunk hchunk

end Drop

/-- What a released block leaves with the heap is what `shed` says. -/
theorem Books.release (h : w.Books freed served) {falling : Option PoolId}
    (hw : w.Sound falling) (b : BlockId) :
    (w.release b).Books (freed ++ w.shed falling b) served := by
  have hall := hw.released b
  generalize w.release b = result at hall ⊢
  unfold shed
  cases hall with
  | notHeld missing =>
      rw [missing, List.append_nil]
      exact h
  | @homeless block held closed =>
      rw [held]
      simp only [closed, true_or, if_true]
      exact h.drop held
  | @orphaned block pool held opened falls =>
      rw [held]
      simp only [falls, or_true, if_true]
      exact (h.drop held).report _ _ (by simp)
  | @parked block pool c T held opened stands found owner in_use table after =>
      rw [held]
      simp only [opened, stands, reduceCtorEq, or_self, if_false, List.append_nil]
      refine Books.report ?_ _ _ (by simp)
      exact h.park held opened (hw.table _ _ opened) table found after rfl

theorem Books.releases (h : w.Books freed served) {falling : Option PoolId}
    (hw : w.Sound falling) (bs : List BlockId) :
    (bs.foldl World.release w).Books (freed ++ w.shedAll falling bs) served := by
  induction bs generalizing w freed with
  | nil =>
      rw [shedAll, List.append_nil]
      exact h
  | cons b rest ih =>
      rw [shedAll, ← List.append_assoc]
      exact ih (h.release hw b) (hw.release b)

/-! ### Handing out -/

section Lend

variable {p : PoolId} {pool : Pool} {size : Nat} {T : ClassTable} {heap : Heap} {chunk : Chunk}
  {supply : Supply}

theorem count_lend (w : World) (p : PoolId) (pool : Pool) (T : ClassTable) (heap : Heap)
    (chunk : Chunk) (n : Nat) :
    (w.lend p pool T heap chunk).heldSerials.count n =
      w.heldSerials.count n + if chunk.serial = n then 1 else 0 := by
  have hserials : (w.lend p pool T heap chunk).heldSerials = w.heldSerials ++ [chunk.serial] := by
    rw [heldSerials, lend, Registry.toList_add, List.map_append]
    rfl
  rw [hserials, List.count_append, List.count_singleton]
  simp only [beq_iff_eq]

/-- What was made before and after a supply is reported: a miss makes one chunk more. -/
theorem made_supplied (w : World) (p : PoolId) (pool : Pool) (supply : Supply) (size : Nat) :
    (w.report p pool (.supplied supply size)).made =
      w.made ++ if supply = .hit then [] else [(p, size)] := by
  rw [made_report]
  cases supply <;> rfl

section Served

variable (h : w.Books freed served) (hp : w.pools.get? p = some pool)
  (hout : pool.classes.CheckedOut w.heap size (some (chunk, supply)) T heap)

include h hp hout

/-- The chunk that is handed out was made for this pool and size, at the latest by this request. -/
theorem Books.made_chunk :
    (w.made ++ if supply = .hit then [] else [(p, size)])[chunk.serial]? = some (p, size) := by
  cases supply with
  | hit =>
      rw [if_pos rfl, List.append_nil]
      exact h.parked_made p pool hp size chunk hout.mem_parkedFor.1
  | miss isNew => simp [hout.serial_eq.1, h.issued_eq]

/-- The chunk that is handed out leaves its free list, or its serial is the next one. -/
theorem Books.accounted_lend (ht : pool.classes.Sound) (hT : T.Sound) (n : Nat) :
    (w.lend p pool T heap chunk).heldSerials.count n +
      (w.lend p pool T heap chunk).parkedSerials.count n + freed.count n =
    if n < (w.made ++ if supply = .hit then [] else [(p, size)]).length then 1 else 0 := by
  have hlend := count_lend w p pool T heap chunk n
  have hset : (w.lend p pool T heap chunk).parkedSerials.count n + _ = _ :=
    count_setPool hp rfl n
  have htable := hout.count ht hT n
  have hacc := h.accounted n
  rw [List.length_append]
  cases supply with
  | hit =>
      simp only [true_and, if_true, List.length_nil, Nat.add_zero] at htable ⊢
      omega
  | miss isNew =>
      have hissued := hout.serial_eq.1.trans h.issued_eq
      simp only [reduceCtorEq, false_and, if_false, List.length_singleton] at htable ⊢
      split at hacc <;> split at hlend <;> split <;> omega

omit hp in
theorem Books.issued_lend :
    heap.issued = (w.made ++ if supply = .hit then [] else [(p, size)]).length := by
  rw [List.length_append]
  cases supply with
  | hit =>
      rw [hout.mem_parkedFor.2]
      exact h.issued_eq
  | miss isNew =>
      rw [hout.serial_eq.2, h.issued_eq]
      rfl

/-- A chunk handed out comes from the free list of its size, or it is made and the log says so. -/
theorem Books.lend (ht : pool.classes.Sound) (hT : T.Sound) :
    ((w.lend p pool T heap chunk).report p pool (.supplied supply size)).Books freed
      (served + 1) := by
  obtain ⟨c, -, -, -, hsize, -⟩ := hout.served ht
  have hmade : ((w.lend p pool T heap chunk).report p pool (.supplied supply size)).made =
      w.made ++ if supply = .hit then [] else [(p, size)] :=
    made_supplied (w.lend p pool T heap chunk) p pool supply size
  have hkept : ∀ {n : Nat} {origin : PoolId × Nat}, w.made[n]? = some origin →
      (w.made ++ if supply = .hit then [] else [(p, size)])[n]? = some origin := by
    intro n origin hn
    rw [List.getElem?_append_left (List.getElem?_eq_some_iff.mp hn).1]
    exact hn
  refine ⟨?_, ?_, ?_, ?_, ?_⟩
  · intro n
    rw [hmade]
    exact h.accounted_lend hp hout ht hT n
  · rw [hmade]
    exact h.issued_lend hout
  · have hle := h.made_le
    rw [hmade, List.length_append]
    split <;> simp <;> omega
  · intro b hb
    rw [hmade]
    have hmem : b ∈ w.held.toList ∨ b = { chunk, pool := p } := by
      simpa [World.report, World.lend] using hb
    rcases hmem with hold | rfl
    · exact hkept (h.held_made b hold)
    · rw [h.made_chunk hp hout, Block.size, hsize]
  · intro q pool' hq s chunk' hchunk'
    rw [hmade]
    have hget : (w.lend p pool T heap chunk).pools.get? q =
        if q = p then some { pool with classes := T } else w.pools.get? q := Registry.get?_set hp
    rw [show ((w.lend p pool T heap chunk).report p pool (.supplied supply size)).pools.get? q = _
      from hget] at hq
    split at hq
    · next heq =>
      cases hq
      subst heq
      exact hkept (h.parked_made q pool hp s chunk' (hout.parked_subset s hchunk'))
    · exact hkept (h.parked_made q pool' hq s chunk' hchunk')

end Served

end Lend

theorem Books.alloc (h : w.Books freed served) (hw : w.Sound none) (p : PoolId) (size : Nat) :
    (w.step (.alloc p size)).2.Books freed (served + (w.step (.alloc p size)).1.blocks) := by
  have hall := hw.allocated p size
  simp only [step]
  generalize w.alloc p size = result at hall ⊢
  cases hall with
  | noPool closed => exact h
  | inadmissible opened refusal => exact h
  | @outOfMemory pool T heap opened admitted table out =>
      cases out with
      | refused denied parked after =>
          have hsame : T.parkedFor = pool.classes.parkedFor := by
            funext s
            rw [ClassTable.parkedFor, after]
            rfl
          show (World.report { w with pools := w.pools.set p { pool with classes := T } } p pool
            (.outOfMemory size)).Books freed served
          refine Books.report ?_ _ _ (by simp)
          refine h.replaceTable opened rfl (fun n => ?_) (fun s => ?_)
          · rw [(hw.table p pool opened).count_congr table after]
          · rw [hsame]
            exact List.Subset.refl _
  | served opened admitted table out =>
      simp only [issue_lend]
      exact h.lend opened out (hw.table _ _ opened) table

/-! ### Opening, writing, clearing and tearing down -/

theorem Books.enter (h : w.Books freed served) (config : Config) :
    (w.enter config).2.Books freed served := by
  refine Books.report (w := { w with pools := (w.pools.add { config }).2 }) ?_ _ _ (by simp)
  refine ⟨?_, ?_, ?_, ?_, ?_⟩
  · intro n
    have hadd := Registry.sum_add (fun pool : Pool => pool.classes.parkedSerials.count n) w.pools
      { config }
    rw [count_parkedSerials, hadd, ← count_parkedSerials]
    exact h.accounted n
  · exact h.issued_eq
  · exact h.made_le
  · exact h.held_made
  · intro p pool hp size chunk hchunk
    rw [Registry.get?_add] at hp
    split at hp
    · cases hp
      cases hchunk
    · exact h.parked_made p pool hp size chunk hchunk

theorem Books.write (h : w.Books freed served) (b : BlockId) (offset : Nat) (data : Payload) :
    (w.write b offset data).2.Books freed served := by
  have hall := written w b offset data
  generalize (w.write b offset data).2 = result at hall ⊢
  cases hall with
  | kept => exact h
  | @changed block payload held size =>
      refine ⟨?_, ?_, ?_, ?_, ?_⟩
      · intro n
        have hcount := Registry.countP_set (fun b : Block => b.chunk.serial == n) held
          (a := { block with chunk := { block.chunk with payload } }) rfl
        have hacc := h.accounted n
        rw [heldSerials, List.count_eq_countP, List.countP_map] at hacc ⊢
        exact (congrArg (· + w.parkedSerials.count n + freed.count n) hcount).trans hacc
      · exact h.issued_eq
      · exact h.made_le
      · intro b' hb'
        rcases Registry.eq_or_mem_of_mem_set held hb' with rfl | hold
        · rw [Block.size, size]
          exact h.held_made block (Registry.mem_toList_of_get? held)
        · exact h.held_made b' hold
      · exact h.parked_made

/-- With its free lists emptied a pool parks nothing, and all that it parked is back. -/
theorem Books.emptyTable (h : w.Books freed served) {p : PoolId} {pool : Pool} {T : ClassTable}
    (hp : w.pools.get? p = some pool) (hT : T.Sound) (hnone : ∀ size, T.parkedFor size = [])
    {w' : World} (hw' : w' = { w with pools := w.pools.set p { pool with classes := T } }) :
    w'.Books (freed ++ w.parkedIn p) served := by
  have hgone : w.parkedIn p = pool.classes.parkedSerials := by rw [parkedIn, hp]
  refine h.replaceTable hp hw' (fun n => ?_) (fun size => ?_)
  · rw [hT.parkedSerials_eq_nil hnone, hgone, List.count_append, List.count_nil]
    omega
  · rw [hnone]
    exact List.nil_subset _

theorem Books.clear (h : w.Books freed served) (hw : w.Sound none) (p : PoolId)
    (eraseVacant : Bool) : (w.clear p eraseVacant).2.Books (freed ++ w.parkedIn p) served := by
  unfold World.clear
  cases hp : w.pools.get? p with
  | none =>
      rw [parkedIn, hp, List.append_nil]
      exact h
  | some pool =>
      have ht := hw.table p pool hp
      refine Books.report ?_ _ _ (by simp)
      exact h.emptyTable hp (ht.drain eraseVacant) (ht.parkedFor_drain eraseVacant) rfl

theorem Books.emptied (h : w.Books freed served) {p : PoolId} {pool : Pool}
    (hp : w.pools.get? p = some pool) :
    (w.emptied p pool).Books (freed ++ w.parkedIn p) served := by
  unfold World.emptied
  refine Books.report ?_ _ _ ?_
  · exact h.emptyTable hp ClassTable.Sound.empty (fun _ => rfl) rfl
  · intro isNew size
    unfold Receipt.events
    split <;> simp

/-- Closing a pool that has no classes any more gives nothing back. -/
theorem Books.remove (h : w.Books freed served) {p : PoolId}
    (hempty : ∀ pool, w.pools.get? p = some pool → pool.classes = {}) :
    ({ w with pools := w.pools.remove p } : World).Books freed served := by
  cases hp : w.pools.get? p with
  | none =>
      rw [Registry.remove_of_get?_none hp]
      exact h
  | some pool =>
      refine ⟨?_, ?_, ?_, ?_, ?_⟩
      · intro n
        have hremove := Registry.sum_remove
          (fun pool : Pool => pool.classes.parkedSerials.count n) hp
        have hnil : pool.classes.parkedSerials.count n = 0 := by
          rw [hempty pool hp]
          rfl
        rw [hnil, Nat.add_zero, ← count_parkedSerials] at hremove
        rw [count_parkedSerials, hremove]
        exact h.accounted n
      · exact h.issued_eq
      · exact h.made_le
      · exact h.held_made
      · intro q pool' hq size chunk hchunk
        rw [Registry.get?_remove] at hq
        split at hq
        · cases hq
        · exact h.parked_made q pool' hq size chunk hchunk

theorem Books.closed (h : w.Books freed served) {p : PoolId} (hw : w.Sound (some p)) (pool : Pool)
    (receipt : Receipt) : (w.closed p pool receipt).Books freed served := by
  unfold World.closed Receipt.events
  split
  · exact (h.report p pool (by simp)).remove fun pool' hp => hw.fallen p pool' rfl hp
  · exact h.remove fun pool' hp => hw.fallen p pool' rfl hp

theorem Books.tearDown (h : w.Books freed served) (hw : w.Sound none) (p : PoolId)
    (during : List BlockId) :
    (w.tearDown p during).2.Books (freed ++ w.freedBy (.destroy p during)) served := by
  unfold freedBy
  cases hp : w.pools.get? p with
  | none =>
      simp only [World.tearDown, hp, List.append_nil]
      exact h
  | some pool =>
      by_cases hheld : ∀ b ∈ during, (w.held.get? b).isSome = true
      · have hbooks := (h.emptied hp).releases (hw.emptied hp) during
        simp only [hp, if_pos hheld, tearDown_eq hp hheld]
        rw [← List.append_assoc]
        exact hbooks.closed ((hw.emptied hp).releases during) pool _
      · have hnone : w.tearDown p during = (.error .noSuchBlock, w) := by
          simp only [World.tearDown, hp]
          exact if_neg (mt List.all_eq_true.mp hheld)
        simp only [hp, if_neg hheld, hnone, List.append_nil]
        exact h

/-! ### Steps -/

theorem Books.free (h : w.Books freed served) (hw : w.Sound none) (p : PoolId) (b : BlockId) :
    (w.free p b).2.Books (freed ++ w.freedBy (.free p b)) served := by
  cases hp : w.pools.get? p with
  | none =>
      simp only [freedBy, World.free, hp, Option.isSome_none, Bool.false_eq_true, if_false,
        List.append_nil]
      exact h
  | some pool =>
      simp only [freedBy, hp, Option.isSome_some, if_true]
      cases hb : w.held.get? b with
      | none =>
          simp only [World.free, hp, hb, shed, List.append_nil]
          exact h
      | some block =>
          simp only [World.free, hp, hb]
          split
          · exact (h.report p pool (by simp)).release (hw.report p pool .refused) b
          · exact h.release hw b

/-- Every step keeps the books, `freed` growing by what the action gives back and `served` by the
blocks that its answer hands out. -/
theorem Books.step (h : w.Books freed served) (hw : w.Sound none) (a : Action) :
    (w.step a).2.Books (freed ++ w.freedBy a) (served + (w.step a).1.blocks) := by
  have hkeep : ∀ {w' : World} {freed' : List Nat} (answer : Answer), w'.Books freed' served →
      w'.Books freed' (served + answer.blocks) :=
    fun answer h' => { h' with made_le := h'.made_le.trans (Nat.le_add_right _ _) }
  cases a with
  | alloc p size =>
      rw [freedBy, List.append_nil]
      exact h.alloc hw p size
  | openPool config =>
      rw [freedBy, List.append_nil, step_world]
      refine hkeep _ ?_
      rcases openPool_world w config with heq | heq
      · rw [after, heq]
        exact h
      · rw [after, heq]
        exact h.enter config
  | openStandard =>
      rw [freedBy, List.append_nil]
      exact h.enter .standard
  | free p b =>
      rw [step_world]
      exact hkeep _ (h.free hw p b)
  | release b =>
      rw [step_world]
      exact hkeep _ (h.release hw b)
  | write b offset data =>
      rw [freedBy, List.append_nil, step_world]
      exact hkeep _ (h.write b offset data)
  | clear p eraseVacant =>
      rw [step_world]
      exact hkeep _ (h.clear hw p eraseVacant)
  | destroy p during | discard p during =>
      rw [step_world]
      exact hkeep _ (h.tearDown hw p during)
  | sizes | contains | count | read | belongs =>
      rw [freedBy, List.append_nil, step_world]
      exact hkeep _ h

end World

end BlockPool
