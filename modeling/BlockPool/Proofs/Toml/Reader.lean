import BlockPool.Toml.Reader
import Mathlib.Data.Option.Basic

/-! How readers work together: what a reader makes of an input follows from what its parts make of it.
The laws come in two kinds, for a part that reads on and for a part that declines. A property of all that
a reader can answer is kept by the same combinations. -/

namespace BlockPool.Toml

/-- The input does not go on with a character of this kind. -/
def Stops (p : Char → Bool) (s : List Char) : Prop := ∀ c ∈ s.head?, p c = false

theorem Stops.cons {p : Char → Bool} {c : Char} {s : List Char} (h : p c = false) :
    Stops p (c :: s) := by
  rintro d hd
  cases hd
  exact h

theorem Stops.nil (p : Char → Bool) : Stops p [] := by
  rintro c hc
  cases hc

theorem Stops.append {p : Char → Bool} {w s : List Char} (hw : ∀ c ∈ w, p c = false)
    (hs : Stops p s) : Stops p (w ++ s) := by
  cases w with
  | nil => exact hs
  | cons c rest => exact Stops.cons (hw c List.mem_cons_self)

theorem takeWhile_append_of_stops {p : Char → Bool} {w s : List Char} (hw : ∀ c ∈ w, p c = true)
    (hs : Stops p s) : (w ++ s).takeWhile p = w ∧ (w ++ s).dropWhile p = s := by
  induction w with
  | nil =>
      cases s with
      | nil => exact ⟨rfl, rfl⟩
      | cons c rest =>
          have hc : p c = false := hs c rfl
          simp [hc]
  | cons c rest ih =>
      obtain ⟨htake, hdrop⟩ := ih fun d hd => hw d (List.mem_cons_of_mem _ hd)
      simp [hw c List.mem_cons_self, htake, hdrop]

/-- A text is cut in one way only where a run of characters of a kind ends. -/
theorem append_inj_of_stops {p : Char → Bool} {w v s t : List Char} (hw : ∀ c ∈ w, p c = true)
    (hv : ∀ c ∈ v, p c = true) (hs : Stops p s) (ht : Stops p t) (h : w ++ s = v ++ t) :
    w = v ∧ s = t := by
  obtain ⟨hfront, hrest⟩ := takeWhile_append_of_stops hw hs
  obtain ⟨hfront', hrest'⟩ := takeWhile_append_of_stops hv ht
  rw [h] at hfront hrest
  exact ⟨hfront.symm.trans hfront', hrest.symm.trans hrest'⟩

/-- Characters of different kinds are different. -/
theorem ne_of_kind {p : Char → Bool} {c d : Char} (hc : p c = true) (hd : p d = false) : c ≠ d := by
  rintro rfl
  rw [hc] at hd
  cases hd

namespace Reader

variable {α β : Type} {r r' : Reader α} {f : α → Reader β} {s s' : List Char} {a : α}

/-! ### Combinations -/

theorem pure_apply (a : α) (s : List Char) : (pure a : Reader α) s = some (a, s) := rfl

theorem bind_of_some (h : r s = some (a, s')) : (r >>= f) s = f a s' := by
  show (r s).bind (fun x => f x.1 x.2) = _
  rw [h]
  rfl

theorem bind_of_none (h : r s = none) : (r >>= f) s = none := by
  show (r s).bind (fun x => f x.1 x.2) = _
  rw [h]
  rfl

theorem map_of_some (g : α → β) (h : r s = some (a, s')) : (g <$> r) s = some (g a, s') := by
  show (r s).bind (fun x => some (g x.1, x.2)) = _
  rw [h]
  rfl

theorem map_of_none (g : α → β) (h : r s = none) : (g <$> r) s = none := by
  show (r s).bind (fun x => some (g x.1, x.2)) = _
  rw [h]
  rfl

theorem orElse_of_some {x : α × List Char} (h : r s = some x) : (r <|> r') s = some x := by
  show (r s).orElse (fun _ => r' s) = _
  rw [h]
  rfl

theorem orElse_of_none (h : r s = none) : (r <|> r') s = r' s := by
  show (r s).orElse (fun _ => r' s) = _
  rw [h]
  rfl

theorem optional_of_some (h : r s = some (a, s')) : (optional r) s = some (some a, s') :=
  orElse_of_some (map_of_some some h)

theorem optional_of_none (h : r s = none) : (optional r) s = some (none, s) :=
  orElse_of_none (map_of_none some h)

theorem manyUpTo_of_none (h : r s = none) (n : Nat) : manyUpTo r n s = some ([], s) := by
  cases n with
  | zero => rfl
  | succ n => exact orElse_of_none (bind_of_none h)

theorem liftM_apply (o : Option α) (s : List Char) :
    (liftM o : Reader α) s = o.map fun a => (a, s) := by
  cases o <;> rfl

/-! ### Characters -/

theorem one_cons {p : Char → Bool} {c : Char} (h : p c = true) (s : List Char) :
    one p (c :: s) = some (c, s) :=
  if_pos h

theorem one_of_stops {p : Char → Bool} (h : Stops p s) : one p s = none := by
  cases s with
  | nil => rfl
  | cons c rest => exact if_neg (by simp [h c rfl])

theorem run_append {p : Char → Bool} {w : List Char} (hw : ∀ c ∈ w, p c = true) (hs : Stops p s) :
    run p (w ++ s) = some (w, s) := by
  obtain ⟨htake, hdrop⟩ := takeWhile_append_of_stops hw hs
  rw [run, htake, hdrop]

theorem word_append (w s : List Char) : word w (w ++ s) = some ((), s) := by
  rw [word, if_pos (List.isPrefixOf_iff_prefix.mpr (List.prefix_append w s)), List.drop_left]

theorem word_of_mismatch {w : List Char} (h : ¬ w <+: s) : word w s = none :=
  if_neg fun hw => h (List.isPrefixOf_iff_prefix.mp hw)

/-- A word that begins with another character is not there. -/
theorem word_of_stops {c : Char} {w : List Char} (h : Stops (· = c) s) : word (c :: w) s = none := by
  refine word_of_mismatch ?_
  rintro ⟨t, ht⟩
  have hc := h c (by rw [← ht]; rfl)
  simp at hc

theorem char_cons (c : Char) (s : List Char) : char c (c :: s) = some ((), s) := word_append [c] s

theorem char_of_stops {c : Char} (h : Stops (· = c) s) : char c s = none := word_of_stops h

theorem char_cons_of_ne {c d : Char} (h : d ≠ c) (s : List Char) : char c (d :: s) = none :=
  char_of_stops (Stops.cons (decide_eq_false h))

/-! ### What a reader can answer -/

/-- All that the reader ever answers has a property. -/
def Ensures (r : Reader α) (P : α → Prop) : Prop := ∀ s a s', r s = some (a, s') → P a

section Ensures

variable {P : α → Prop} {Q : β → Prop}

theorem ensures_pure (h : P a) : Ensures (pure a) P := by
  intro s b s' hb
  cases hb
  exact h

/-- What the first part ensures helps the second one. -/
theorem ensures_bind (hr : Ensures r P) (h : ∀ a, P a → Ensures (f a) Q) :
    Ensures (r >>= f) Q := by
  intro s b s' hb
  obtain ⟨x, hx, hfx⟩ := Option.bind_eq_some_iff.mp hb
  exact h x.1 (hr s x.1 x.2 hx) x.2 b s' hfx

theorem ensures_trivial (r : Reader α) : Ensures r fun _ => True := fun _ _ _ _ => trivial

theorem ensures_after (h : ∀ a, Ensures (f a) Q) : Ensures (r >>= f) Q :=
  ensures_bind (ensures_trivial r) fun a _ => h a

theorem ensures_map {g : α → β} (hr : Ensures r P) (h : ∀ a, P a → Q (g a)) :
    Ensures (g <$> r) Q := by
  intro s b s' hb
  obtain ⟨x, hx, hgx⟩ := Option.bind_eq_some_iff.mp hb
  cases hgx
  exact h x.1 (hr s x.1 x.2 hx)

theorem ensures_orElse (h : Ensures r P) (h' : Ensures r' P) : Ensures (r <|> r') P := by
  intro s a s' ha
  cases hr : r s with
  | none =>
      rw [orElse_of_none hr] at ha
      exact h' s a s' ha
  | some x =>
      rw [orElse_of_some hr] at ha
      exact h s a s' (hr.trans ha)

theorem ensures_guard (p : Prop) [Decidable p] : Ensures (guard p) fun _ => p := by
  intro s a s' ha
  by_cases hp : p
  · exact hp
  · have hguard : (guard p : Reader Unit) s = none := congrFun (if_neg hp) s
    cases hguard.symm.trans ha

theorem ensures_failure : Ensures (failure : Reader α) P := by
  intro s a s' ha
  cases ha

theorem ensures_liftM {o : Option α} (h : ∀ a, o = some a → P a) :
    Ensures (liftM o) P := by
  intro s a s' ha
  rw [liftM_apply, Option.map_eq_some_iff] at ha
  obtain ⟨b, hb, heq⟩ := ha
  cases heq
  exact h _ hb

end Ensures

end Reader

end BlockPool.Toml
