import BlockPool.Proofs.Toml.Reader
import BlockPool.Toml.Moment
import BlockPool.Toml.Number
import BlockPool.Toml.Writing

/-! Integers are read back as they were written. A number in decimal digits begins like a date, a time of day
or a float, so each of these readers has to decline before the integer is read. -/

namespace BlockPool.Toml

open Reader

/-- What can stand behind a value: a blank, a line break or a comment. -/
def enders : List Char := [' ', '\t', '\n', '\r', '#']

/-- A value is over: the input is, or something that can stand behind a value follows. -/
def EndsValue (s : List Char) : Prop := ∀ c ∈ s.head?, c ∈ enders

theorem EndsValue.stops {s : List Char} (h : EndsValue s) {p : Char → Bool}
    (hp : enders.any p = false) : Stops p s := by
  intro c hc
  have hnot := List.any_eq_false.mp hp c (h c hc)
  exact eq_false_of_ne_true hnot

/-! ### Digits -/

theorem isDigit_of_mem_writeNat {n : Nat} {c : Char} (hc : c ∈ writeNat n) : isDigit c = true :=
  Nat.isDigit_of_mem_toDigits (by decide) (by decide) hc

theorem numeral_eq {ds : List Char} (hds : ∀ c ∈ ds, isDigit c = true) :
    numeral 10 ds = Nat.ofDigitChars 10 ds 0 := by
  unfold numeral Nat.ofDigitChars
  generalize 0 = start
  induction ds generalizing start with
  | nil => rfl
  | cons c rest ih =>
      rw [List.forall_mem_cons] at hds
      rw [List.foldl_cons, List.foldl_cons, digitValue, if_pos hds.1, Nat.mul_comm]
      exact ih hds.2 _

theorem numeral_writeNat (n : Nat) : numeral 10 (writeNat n) = n := by
  rw [numeral_eq fun _ => isDigit_of_mem_writeNat]
  exact Nat.ofDigitChars_ten_toDigits

/-- Only zero begins with a zero. -/
theorem head_writeNat (n : Nat) : ∃ c rest, writeNat n = c :: rest ∧ (c = '0' → rest = []) := by
  induction n using Nat.strongRecOn with
  | ind n ih =>
      rw [writeNat, Nat.toDigits_eq_if (by decide)]
      split
      · exact ⟨_, [], rfl, fun _ => rfl⟩
      · next hlarge =>
        have hpos : 0 < n / 10 := Nat.div_pos (Nat.le_of_not_lt hlarge) (by decide)
        obtain ⟨c, rest, heq, hzero⟩ := ih (n / 10) (Nat.div_lt_self (by omega) (by decide))
        refine ⟨c, rest ++ [(n % 10).digitChar], ?_, ?_⟩
        · rw [← List.cons_append, ← heq]
          rfl
        · intro hc
          have hvalue := numeral_writeNat (n / 10)
          rw [heq, hc, hzero hc] at hvalue
          exact absurd hvalue (Nat.ne_of_lt hpos)

theorem digitRun_append {p : Char → Bool} {ds s : List Char} (hds : ∀ c ∈ ds, p c = true)
    (hs : Stops (fun c => p c || c = '_') s) : digitRun p (ds ++ s) = (ds, s) := by
  induction ds with
  | nil =>
      cases s with
      | nil => rfl
      | cons c rest =>
          have hboth := hs c rfl
          rw [Bool.or_eq_false_iff] at hboth
          simp [digitRun, hboth.1, hboth.2]
  | cons c rest ih =>
      rw [List.forall_mem_cons] at hds
      simp [digitRun, hds.1, ih hds.2]

section Digits

variable {ds s : List Char} (hds : ∀ c ∈ ds, isDigit c = true)

include hds

theorem wholeDigits_writeNat {n : Nat} (hn : ds = writeNat n)
    (hs : Stops (fun c => isDigit c || c = '_') s) : wholeDigits (ds ++ s) = some (ds, s) := by
  obtain ⟨c, rest, heq, hzero⟩ := head_writeNat n
  rw [hn, heq] at hds
  rw [List.forall_mem_cons] at hds
  rw [hn, heq, wholeDigits, List.cons_append, bind_of_some (one_cons hds.1 _)]
  split
  · next hc => rw [hzero hc, List.nil_append, pure_apply]
  · have hrun : (fun s => some (digitRun isDigit s) : Reader _) (rest ++ s) = some (rest, s) :=
      congrArg some (digitRun_append hds.2 hs)
    rw [bind_of_some hrun, pure_apply]

theorem exactly_append (hs : Stops isDigit s) (n : Nat) : exactly n isDigit (ds ++ s) =
    if n ≤ ds.length then some (ds.take n, ds.drop n ++ s) else none := by
  unfold exactly
  by_cases hn : n ≤ ds.length
  · have hall : ∀ c ∈ ds.take n, isDigit c = true := fun c hc => hds c (List.mem_of_mem_take hc)
    rw [if_pos hn, List.take_append_of_le_length hn, List.drop_append_of_le_length hn, if_pos]
    rw [Bool.and_eq_true, decide_eq_true_eq, List.length_take, List.all_eq_true]
    exact ⟨Nat.min_eq_left hn, hall⟩
  · rw [if_neg hn, if_neg]
    rw [Bool.and_eq_true, decide_eq_true_eq, List.all_eq_true]
    rintro ⟨hlength, hall⟩
    -- the character behind the digits would have to be one more
    cases s with
    | nil => simp only [List.append_nil, List.length_take] at hlength; omega
    | cons c rest =>
        obtain ⟨k, hk⟩ : ∃ k, n = ds.length + (k + 1) := ⟨n - ds.length - 1, by omega⟩
        have hmem : c ∈ (ds ++ c :: rest).take n := by
          rw [hk, List.take_length_add_append, List.take_succ_cons]
          simp
        have hc := hs c rfl
        rw [hall c hmem] at hc
        cases hc

/-- Digits and the end of a value hold no mark of another kind. -/
theorem stops_of_mark (hs : EndsValue s) {c : Char} (hc : isDigit c = false)
    (hend : c ∉ enders) : Stops (· = c) (ds ++ s) := by
  refine Stops.append (fun d hd => decide_eq_false (ne_of_kind (hds d hd) hc)) fun d hd => ?_
  exact decide_eq_false fun heq => hend (heq ▸ hs d hd)

/-- Behind so many digits at the front stands another digit or the end of the value, and not the mark that
the reader goes on with. -/
theorem fixed_declines {α : Type} (hs : EndsValue s) (n : Nat) {c : Char} {f : Nat → Reader α}
    (hf : ∀ m t, Stops (· = c) t → f m t = none) (hc : isDigit c = false)
    (hend : c ∉ enders) : (fixed n >>= f) (ds ++ s) = none := by
  have hexactly := exactly_append hds (hs.stops (p := isDigit) (by decide)) n
  by_cases hn : n ≤ ds.length
  · rw [if_pos hn] at hexactly
    have hfixed : fixed n (ds ++ s) = some (numeral 10 (ds.take n), ds.drop n ++ s) :=
      bind_of_some hexactly
    rw [bind_of_some hfixed]
    exact hf _ _ (stops_of_mark (fun d hd => hds d (List.mem_of_mem_drop hd)) hs hc hend)
  · rw [if_neg hn] at hexactly
    exact bind_of_none (bind_of_none hexactly)

theorem moment_declines (hs : EndsValue s) : moment (ds ++ s) = none := by
  have hmark : ∀ {c : Char} {α β : Type} (f : Unit → Reader β) (m : α) (t : List Char),
      Stops (· = c) t → (char c >>= f) t = none :=
    fun f m t ht => bind_of_none (char_of_stops ht)
  have hdate : date (ds ++ s) = none :=
    fixed_declines hds hs 4 (fun m t ht => hmark _ m t ht) (by decide) (by decide)
  have htime : time (ds ++ s) = none :=
    bind_of_none (fixed_declines hds hs 2 (fun m t ht => hmark _ m t ht) (by decide) (by decide))
  rw [moment, orElse_of_none (bind_of_none hdate)]
  exact htime

/-- A number in another base has a letter behind its first zero. -/
theorem based_declines (hs : EndsValue s) {m : Char} (hm : isDigit m = false)
    (hend : m ∉ enders) (base : Nat) (p : Char → Bool) :
    based ['0', m] base p (ds ++ s) = none := by
  refine bind_of_none (word_of_mismatch ?_)
  rintro ⟨t, ht⟩
  cases ds with
  | nil =>
      have hzero : '0' ∈ enders := hs '0' (by
        rw [← List.nil_append s, ← ht]
        rfl)
      exact absurd hzero (by decide)
  | cons d rest =>
      rw [List.forall_mem_cons] at hds
      have hsecond : m :: t = rest ++ s := (List.cons.inj ht).2
      have hstops := stops_of_mark hds.2 hs hm hend m (by rw [← hsecond]; rfl)
      simp at hstops

end Digits

/-! ### Integers -/

/-- An integer in decimal digits, with a sign if it is negative. -/
def writeInt : Int → List Char
  | .ofNat n => writeNat n
  | .negSucc n => '-' :: writeNat (n + 1)

theorem exists_writeInt_eq (z : Int) : ∃ (negative : Bool) (n : Nat),
    writeInt z = (if negative then ['-'] else []) ++ writeNat n ∧
      z = if negative then -(n : Int) else n := by
  cases z with
  | ofNat n => exact ⟨false, n, rfl, rfl⟩
  | negSucc n => exact ⟨true, n + 1, rfl, rfl⟩

/-- The first character of an integer. -/
theorem exists_writeInt_cons (z : Int) :
    ∃ c rest, writeInt z = c :: rest ∧ (isDigit c = true ∨ c = '-') := by
  obtain ⟨negative, n, heq, -⟩ := exists_writeInt_eq z
  cases negative with
  | true => exact ⟨'-', _, heq, Or.inr rfl⟩
  | false =>
      obtain ⟨c, rest, hcons, -⟩ := head_writeNat n
      have hdigit : isDigit c = true := isDigit_of_mem_writeNat (hcons ▸ List.mem_cons_self)
      exact ⟨c, rest, heq.trans hcons, Or.inl hdigit⟩

theorem writeInt_stops (z : Int) {d : Char} (hdigit : isDigit d = false) (hminus : '-' ≠ d)
    (s : List Char) : Stops (· = d) (writeInt z ++ s) := by
  obtain ⟨c, rest, heq, hc⟩ := exists_writeInt_cons z
  rw [heq]
  refine Stops.cons (decide_eq_false ?_)
  rcases hc with hc | rfl
  · exact ne_of_kind hc hdigit
  · exact hminus

theorem sign_append (negative : Bool) (n : Nat) (s : List Char) :
    sign ((if negative then ['-'] else []) ++ (writeNat n ++ s)) = some (negative, writeNat n ++ s) := by
  cases negative with
  | true => exact orElse_of_some (bind_of_some (char_cons '-' _))
  | false =>
      obtain ⟨c, rest, heq, -⟩ := head_writeNat n
      have hdigit : isDigit c = true := isDigit_of_mem_writeNat (heq ▸ List.mem_cons_self)
      have hplus : char '+' (writeNat n ++ s) = none := by
        rw [heq]
        exact char_cons_of_ne (ne_of_kind hdigit rfl) _
      have hminus : char '-' (writeNat n ++ s) = none := by
        rw [heq]
        exact char_cons_of_ne (ne_of_kind hdigit rfl) _
      exact (orElse_of_none (bind_of_none hminus)).trans (bind_of_some (optional_of_none hplus))

section Integers

variable {s : List Char} (hs : EndsValue s)

include hs

theorem float_writeInt (z : Int) : float (writeInt z ++ s) = none := by
  obtain ⟨negative, n, heq, -⟩ := exists_writeInt_eq z
  have hmark : ∀ {c : Char}, isDigit c = false → c ∉ enders →
      Stops (· = c) (writeNat n ++ s) := fun hc hend =>
    stops_of_mark (fun _ => isDigit_of_mem_writeNat) hs hc hend
  have hwhole : wholeDigits (writeNat n ++ s) = some (writeNat n, s) :=
    wholeDigits_writeNat (fun _ => isDigit_of_mem_writeNat) rfl (hs.stops (by decide))
  have hfraction : fraction s = none := bind_of_none (char_of_stops (hs.stops (by decide)))
  have hexponent : exponent s = none := bind_of_none (one_of_stops (hs.stops (by decide)))
  rw [heq, List.append_assoc, float, bind_of_some (sign_append negative n s),
    orElse_of_none (word_of_stops (hmark rfl (by decide))),
    orElse_of_none (word_of_stops (hmark rfl (by decide))), bind_of_some hwhole,
    bind_of_some (optional_of_none hfraction), bind_of_some (optional_of_none hexponent)]
  rfl

theorem moment_writeInt (z : Int) : moment (writeInt z ++ s) = none := by
  obtain ⟨negative, n, heq, -⟩ := exists_writeInt_eq z
  rw [heq]
  cases negative with
  | true =>
      have hfixed : ∀ m, fixed (m + 1) ('-' :: (writeNat n ++ s)) = none := by
        intro m
        have hstops : Stops isDigit ('-' :: (writeNat n ++ s)) := Stops.cons rfl
        have hnone : exactly (m + 1) isDigit ([] ++ '-' :: (writeNat n ++ s)) = none :=
          exactly_append (fun _ hc => absurd hc List.not_mem_nil) hstops (m + 1)
        exact bind_of_none hnone
      have hdate : date ('-' :: (writeNat n ++ s)) = none := bind_of_none (hfixed 3)
      have htime : time ('-' :: (writeNat n ++ s)) = none := bind_of_none (bind_of_none (hfixed 1))
      exact (orElse_of_none (bind_of_none hdate)).trans htime
  | false => exact moment_declines (fun _ => isDigit_of_mem_writeNat) hs

theorem decimal_writeInt {z : Int} (hz : fits z = true) :
    decimal (writeInt z ++ s) = some (z, s) := by
  obtain ⟨negative, n, heq, hvalue⟩ := exists_writeInt_eq z
  have hwhole : wholeDigits (writeNat n ++ s) = some (writeNat n, s) :=
    wholeDigits_writeNat (fun _ => isDigit_of_mem_writeNat) rfl (hs.stops (by decide))
  have hguard : (guard (fits z = true) : Reader Unit) s = some ((), s) := congrFun (if_pos hz) s
  rw [heq, List.append_assoc, decimal, bind_of_some (sign_append negative n s), bind_of_some hwhole,
    numeral_writeNat, ← hvalue, bind_of_some hguard, pure_apply]

theorem integer_writeInt {z : Int} (hz : fits z = true) :
    integer (writeInt z ++ s) = some (z, s) := by
  have hbased : ∀ {m : Char}, isDigit m = false → m ∉ enders →
      ∀ base p, based ['0', m] base p (writeInt z ++ s) = none := by
    intro m hm hend base p
    obtain ⟨negative, n, heq, -⟩ := exists_writeInt_eq z
    rw [heq]
    cases negative with
    | true => exact bind_of_none (word_of_stops (Stops.cons (by decide)))
    | false => exact based_declines (fun _ => isDigit_of_mem_writeNat) hs hm hend base p
  rw [integer, orElse_of_none (hbased rfl (by decide) 16 _),
    orElse_of_none (hbased rfl (by decide) 8 _), orElse_of_none (hbased rfl (by decide) 2 _)]
  exact decimal_writeInt hs hz

end Integers

/-- An integer that is read fits, in whatever base it was written. -/
theorem ensures_integer : Ensures integer fun z => fits z = true := by
  have hbased : ∀ mark base p, Ensures (based mark base p) fun z => fits z = true := fun _ _ _ =>
    ensures_after fun _ => ensures_after fun _ => ensures_bind (ensures_guard _) fun _ hfits =>
      ensures_pure hfits
  have hdecimal : Ensures decimal fun z => fits z = true :=
    ensures_after fun _ => ensures_after fun _ => ensures_bind (ensures_guard _) fun _ hfits =>
      ensures_pure hfits
  exact ensures_orElse (hbased _ _ _) (ensures_orElse (hbased _ _ _)
    (ensures_orElse (hbased _ _ _) hdecimal))

end BlockPool.Toml
