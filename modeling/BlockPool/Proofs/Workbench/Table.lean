import BlockPool.Proofs.ClassTable.Slots
import BlockPool.Workbench.Table
import Mathlib.Order.Bounds.Basic

/-! Sequences of requests to one table, in any order: classes are made, erased with chunks in use, drained
and all taken out, and chunks are taken from classes and given back to them. The table stays sound through
all of it, so it is always a finite map from sizes to classes, laid out in slots of which none is lost and
none used twice. It never has more slots than it had classes at once since all were taken out last. -/

namespace BlockPool.TableBench

/-- The bench after these requests, on a heap that grants these sizes. -/
def reached (grants : Nat → Bool) (requests : List Request) : TableBench :=
  (run { heap := { grants } } requests).2

/-- The numbers of classes that the table had since the start, or since all were taken out last. -/
def sizesHad (grants : Nat → Bool) (requests : List Request) : Set Nat :=
  {n | ∃ front rest, requests = front ++ rest ∧ Request.takeAll ∉ rest ∧
    (reached grants front).table.size = n}

/-- What a request makes of the table. -/
inductive Worked (t : ClassTable) : Request → ClassTable → Prop
  | kept {request : Request} (keeps : request ≠ .takeAll) : Worked t request t
  | ensured (size : Nat) : Worked t (.ensure size) (t.ensure size).2.2
  | erased (size : Nat) : Worked t (.erase size) (t.erase size).2
  /-- A class hands out a chunk, takes one back or is drained. -/
  | replaced {request : Request} {slot : Slot} {old c : SizeClass} (keeps : request ≠ .takeAll)
      (found : t.class? slot = some old) (slot_eq : c.slot = slot)
      (capacity_eq : c.capacity = old.capacity) (sound : c.Sound) :
      Worked t request (t.setClass slot c)
  | drained (eraseVacant : Bool) : Worked t (.drain eraseVacant) (t.drain eraseVacant).2
  | taken : Worked t .takeAll {}

section Step

variable {b : TableBench} (h : b.table.Sound)

include h

theorem worked_checkout (slot : Slot) (chunk : String) :
    Worked b.table (.checkout slot chunk) (b.checkout slot chunk).2.table := by
  unfold checkout
  split
  · exact .kept nofun
  · cases hc : b.table.class? slot with
    | none => exact .kept nofun
    | some c =>
        have hslot := h.slot_eq slot c hc
        have hsound := h.sound slot c hc
        cases hpop : c.cached.pop? with
        | some popped =>
            obtain ⟨taken, rest⟩ := popped
            simp only [SizeClass.checkout?_of_pop? hpop]
            exact .replaced nofun hc hslot rfl (hsound.afterHit hpop)
        | none =>
            have hempty := FreeList.pop?_eq_none_iff.mp hpop
            cases hgrants : b.heap.grants c.capacity with
            | true =>
                simp only [SizeClass.checkout?_of_grants hempty hgrants]
                exact .replaced nofun hc hslot rfl hsound.afterMiss
            | false =>
                simp only [SizeClass.checkout?_eq_none_iff.mpr ⟨hempty, hgrants⟩]
                exact .kept nofun

/-- A chunk is parked only where a class of its size is, and the class bears the number stamped on it. -/
theorem worked_checkin (chunk : String) :
    Worked b.table (.checkin chunk) (b.checkin chunk).2.table := by
  unfold checkin
  cases b.chunks.lookup chunk with
  | none => exact .kept nofun
  | some c =>
      simp only
      cases hhome : b.table.class? c.owner with
      | none => exact .kept nofun
      | some home =>
          have hslot := h.slot_eq c.owner home hhome
          by_cases hstrange : home.inUse = 0 ∨ home.capacity ≠ c.payload.size
          · have hkept : Worked b.table (.checkin chunk) b.table := .kept nofun
            simpa [hstrange] using hkept
          · have hsize : home.capacity = c.payload.size := by
              by_contra hne
              exact hstrange (Or.inr hne)
            have hparked : Worked b.table (.checkin chunk)
                (b.table.setClass c.owner (home.checkin c)) :=
              .replaced nofun hhome hslot rfl
                ((h.sound c.owner home hhome).checkin hslot.symm hsize.symm)
            simpa [hstrange] using hparked

theorem worked (request : Request) : Worked b.table request (b.step request).2.table := by
  cases request with
  | ensure size => exact .ensured size
  | erase size => exact .erased size
  | checkout slot chunk => exact worked_checkout h slot chunk
  | write chunk data =>
      have hkept : (b.write chunk data).2.table = b.table := by
        unfold write
        split
        · rfl
        · split <;> rfl
      simp only [step, perform, hkept]
      exact .kept nofun
  | checkin chunk => exact worked_checkin h chunk
  | drainClass slot =>
      simp only [step, perform, ClassTable.drainClass?]
      cases hc : b.table.class? slot with
      | none => exact .kept nofun
      | some c =>
          have hsound := h.sound slot c hc
          simp only [Option.map_some, hsound.drain]
          exact .replaced nofun hc (h.slot_eq slot c hc) rfl (SizeClass.Sound.of_empty rfl)
  | drain eraseVacant => exact .drained eraseVacant
  | takeAll => exact .taken
  | find | count | look => exact .kept nofun

end Step

section Worked

variable {t T : ClassTable} {request : Request}

theorem Worked.sound (h : t.Sound) (hw : Worked t request T) : T.Sound := by
  cases hw with
  | kept keeps => exact h
  | ensured size => exact h.sound_ensure size
  | erased size => exact h.sound_erase size
  | replaced keeps found slot_eq capacity_eq sound =>
      exact h.setClass found slot_eq capacity_eq sound
  | drained eraseVacant => exact h.drain eraseVacant
  | taken => exact ClassTable.Sound.empty

/-- A request that does not take all classes out makes a slot only when no number of classes so far was as
high. -/
theorem Worked.size_slots (h : t.Sound) (hw : Worked t request T) (hkeeps : request ≠ .takeAll) :
    T.slots.size = max t.slots.size T.size := by
  have hle := (hw.sound h).size_le_slots
  have hmax : T.slots.size = t.slots.size → T.slots.size = max t.slots.size T.size := by
    omega
  cases hw with
  | kept keeps => exact hmax rfl
  | ensured size => exact h.size_slots_ensure size
  | erased size => exact hmax (t.size_slots_erase size)
  | replaced keeps found slot_eq capacity_eq sound => exact hmax Array.size_setIfInBounds
  | drained eraseVacant => exact hmax (h.drain_result eraseVacant).size_eq
  | taken => exact absurd rfl hkeeps

end Worked

/-! ### Runs -/

variable {grants : Nat → Bool}

theorem reached_snoc (grants : Nat → Bool) (past : List Request) (request : Request) :
    reached grants (past ++ [request]) = ((reached grants past).step request).2 := by
  have hrun : ∀ (b : TableBench) (past : List Request),
      (b.run (past ++ [request])).2 = ((b.run past).2.step request).2 := by
    intro b past
    induction past generalizing b with
    | nil => rfl
    | cons first rest ih => exact ih (b.step first).2
  exact hrun _ past

theorem sound_reached (grants : Nat → Bool) (requests : List Request) :
    (reached grants requests).table.Sound := by
  induction requests using List.reverseRecOn with
  | nil => exact ClassTable.Sound.empty
  | append_singleton past request ih =>
      rw [reached_snoc]
      exact (worked ih request).sound ih

theorem sizesHad_takeAll (past : List Request) : sizesHad grants (past ++ [.takeAll]) = {0} := by
  have hzero : (reached grants (past ++ [.takeAll])).table.size = 0 := by
    rw [reached_snoc]
    rfl
  ext n
  rw [Set.mem_singleton_iff]
  constructor
  · rintro ⟨front, rest, hsplit, hkeeps, rfl⟩
    rcases List.eq_nil_or_concat rest with rfl | ⟨rest, last, rfl⟩
    · rw [List.append_nil] at hsplit
      rw [← hsplit, hzero]
    · rw [List.concat_eq_append, ← List.append_assoc] at hsplit
      obtain ⟨-, hlast⟩ := List.append_inj' hsplit rfl
      cases hlast
      exact absurd (by simp) hkeeps
  · rintro rfl
    exact ⟨_, [], (List.append_nil _).symm, List.not_mem_nil, hzero⟩

theorem sizesHad_snoc (past : List Request) {request : Request} (hkeeps : request ≠ .takeAll) :
    sizesHad grants (past ++ [request]) =
      insert (reached grants (past ++ [request])).table.size (sizesHad grants past) := by
  ext n
  rw [Set.mem_insert_iff]
  constructor
  · rintro ⟨front, rest, hsplit, hrest, rfl⟩
    rcases List.eq_nil_or_concat rest with rfl | ⟨rest, last, rfl⟩
    · rw [List.append_nil] at hsplit
      exact Or.inl (by rw [hsplit])
    · rw [List.concat_eq_append, ← List.append_assoc] at hsplit
      obtain ⟨hpast, -⟩ := List.append_inj' hsplit rfl
      exact Or.inr ⟨front, rest, hpast, fun hmem => hrest (by simp [hmem]), rfl⟩
  · rintro (rfl | ⟨front, rest, rfl, hrest, rfl⟩)
    · exact ⟨_, [], (List.append_nil _).symm, List.not_mem_nil, rfl⟩
    · refine ⟨front, rest ++ [request], List.append_assoc .., ?_, rfl⟩
      rw [List.mem_append, List.mem_singleton, not_or]
      exact ⟨hrest, hkeeps.symm⟩

/-- There are as many slots as there were classes when there were most of them. -/
theorem isGreatest_slots (requests : List Request) :
    IsGreatest (sizesHad grants requests) (reached grants requests).table.slots.size := by
  induction requests using List.reverseRecOn with
  | nil =>
      refine ⟨⟨[], [], rfl, List.not_mem_nil, rfl⟩, ?_⟩
      rintro n ⟨front, rest, hsplit, -, rfl⟩
      rw [(List.append_eq_nil_iff.mp hsplit.symm).1]
      exact Nat.le_refl _
  | append_singleton past request ih =>
      by_cases htakes : request = .takeAll
      · subst htakes
        rw [sizesHad_takeAll, reached_snoc]
        exact isGreatest_singleton
      · have hslots := (worked (sound_reached grants past) request).size_slots
          (sound_reached grants past) htakes
        rw [← reached_snoc] at hslots
        rw [sizesHad_snoc past htakes, hslots, max_comm]
        exact ih.insert _

/-- After any requests the table is a finite map from sizes to classes, every slot has its one class or
waits once on the vacant list, and there are no more slots than were ever needed at once. -/
theorem slots_serve_map (grants : Nat → Bool) (requests : List Request) :
    (reached grants requests).table.Layout ∧ (reached grants requests).table.ActsAsMap ∧
      IsGreatest (sizesHad grants requests) (reached grants requests).table.slots.size :=
  ⟨(sound_reached grants requests).layout, (sound_reached grants requests).actsAsMap,
    isGreatest_slots requests⟩

end BlockPool.TableBench
