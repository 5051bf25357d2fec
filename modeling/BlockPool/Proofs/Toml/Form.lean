import BlockPool.Proofs.Toml.Reader
import BlockPool.Toml.Writing

/-! Strings are read back as they were written. Between the marks a text is spelled in pieces, each of which
stands for one character whatever follows it. A quote that is written as it is, in a form with three marks,
is no such piece: whether it closes the string depends on the quotes around it, so the text written so far
counts the quotes in front. -/

namespace BlockPool.Toml

open Reader

/-! ### Pieces -/

/-- The piece stands for this character in a string of the form, and does not begin with the mark. -/
structure Spells (f : Form) (piece : List Char) (c : Char) : Prop where
  head : ∃ d rest, piece = d :: rest ∧ d ≠ f.mark
  read : ∀ s, body f (piece ++ s) = (body f s).map (prepend c)

variable {f : Form} {c : Char}

theorem Spells.stops {piece : List Char} (h : Spells f piece c) (s : List Char) :
    Stops (· = f.mark) (piece ++ s) := by
  obtain ⟨d, rest, rfl, hd⟩ := h.head
  exact Stops.cons (decide_eq_false hd)

theorem mark_ne_backslash (f : Form) : '\\' ≠ f.mark := by cases f <;> decide

/-- A character that stands for itself. -/
theorem spells_self (hmark : c ≠ f.mark) (hslash : c = '\\' → f.escapes = false)
    (hplain : isPlain c = true ∨ c = '\n' ∧ f.multiline = true) : Spells f [c] c := by
  refine ⟨⟨c, [], rfl, hmark⟩, fun s => ?_⟩
  have hreturn : c ≠ '\r' := by
    rintro rfl
    rcases hplain with hplain | ⟨hc, -⟩
    · exact absurd hplain (by decide)
    · exact absurd hc (by decide)
  have hescape : ¬ (decide (c = '\\') && f.escapes) = true := by
    rw [Bool.and_eq_true, decide_eq_true_eq]
    rintro ⟨hc, hf⟩
    rw [hslash hc] at hf
    cases hf
  have hread : (isPlain c || decide (c = '\n') && f.multiline) = true := by
    simpa only [Bool.or_eq_true, Bool.and_eq_true, decide_eq_true_eq] using hplain
  rw [List.singleton_append, body, if_neg hmark, if_neg hescape, if_neg (by simp [hreturn]),
    if_pos hread]

/-- An escape does not begin with a blank or a line break, so it is not taken for the end of a line. -/
theorem afterLine?_of_escape {d : Char} (hd : isSpace d = false) (hbreak : d ≠ '\n' ∧ d ≠ '\r')
    (s : List Char) : afterLine? (d :: s) = none := by
  unfold afterLine?
  rw [List.dropWhile_cons, hd]
  split
  · next heq => exact absurd (List.cons.inj heq).1 hbreak.1
  · next heq => exact absurd (List.cons.inj heq).1 hbreak.2
  · rfl

theorem spells_escape (hf : f.escapes = true) {d : Char} {e : List Char} (hd : isSpace d = false)
    (hbreak : d ≠ '\n' ∧ d ≠ '\r')
    (hread : ∀ s, escape? (d :: e ++ s) = some (c, (d :: e).length)) :
    Spells f ('\\' :: d :: e) c := by
  refine ⟨⟨'\\', d :: e, rfl, mark_ne_backslash f⟩, fun s => ?_⟩
  rw [List.cons_append, body, if_neg (mark_ne_backslash f), if_pos (by simp [hf])]
  split
  · next heq =>
    split at heq
    · rw [List.cons_append, afterLine?_of_escape hd hbreak] at heq
      cases heq
    · cases heq
  · simp only [hread, List.drop_left]

theorem lt_of_isControl (hc : isControl c = true) : c.toNat < 128 := by
  simp only [isControl, Bool.or_eq_true, Bool.and_eq_true, decide_eq_true_eq] at hc
  rcases hc with ⟨⟨hlt, -⟩, -⟩ | rfl
  · have hval : c.toNat < ' '.toNat := hlt
    exact Nat.lt_trans hval (by decide)
  · decide

/-- The controls that have no letter of their own are spelled by their number. -/
theorem escape?_hexPair (hc : isControl c = true) (s : List Char) :
    escape? ('u' :: (['0', '0'] ++ hexPair c.toNat) ++ s) = some (c, 5) := by
  have hdigits : ∀ n < 128, numeral 16 (['0', '0'] ++ hexPair n) = n ∧
      (['0', '0'] ++ hexPair n).all isHexDigit = true ∧ n.isValidChar := by decide +kernel
  obtain ⟨hvalue, hall, hvalid⟩ := hdigits c.toNat (lt_of_isControl hc)
  have htake : (['0', '0'] ++ hexPair c.toNat ++ s).take 4 = ['0', '0'] ++ hexPair c.toNat := rfl
  show codePoint? 4 (['0', '0'] ++ hexPair c.toNat ++ s) = _
  rw [codePoint?, htake]
  simp only [hvalue, hall, hvalid, decide_true, Bool.and_true, Char.ofNat_toNat]
  rfl

theorem isPlain_of_not_isControl (hc : isControl c = false) (hbreak : c ≠ '\n') :
    isPlain c = true := by
  by_cases htab : c = '\t'
  · rw [htab]
    rfl
  · simp only [isControl, Bool.or_eq_false_iff, Bool.and_eq_false_iff, decide_eq_false_iff_not,
      ne_eq, htab, hbreak, not_true, or_false, not_false_eq_true] at hc
    simp only [isPlain, Bool.or_eq_true, Bool.and_eq_true, decide_eq_true_eq, ne_eq]
    exact Or.inr ⟨Char.not_lt.mp hc.1, hc.2⟩

theorem spells_escapeChar (hf : f.escapes = true) (hquote : c ≠ '"') (hbreak : c ≠ '\n') :
    Spells f (escapeChar c) c := by
  have hmark : f.mark = '"' := by cases f <;> first | rfl | cases hf
  by_cases hletter : c ∈ ['\x08', '\t', '\x0c', '\r', '\\']
  · simp only [List.mem_cons, List.not_mem_nil, or_false] at hletter
    rcases hletter with rfl | rfl | rfl | rfl | rfl <;>
      exact spells_escape hf (by decide) (by decide) fun _ => rfl
  · simp only [List.mem_cons, List.not_mem_nil, or_false, not_or] at hletter
    obtain ⟨hback, htab, hfeed, hreturn, hslash⟩ := hletter
    rw [escapeChar, if_neg hback, if_neg htab, if_neg hfeed, if_neg hreturn, if_neg hslash]
    split
    · next hcontrol => exact spells_escape hf (by decide) (by decide) (escape?_hexPair hcontrol)
    · next hcontrol =>
      exact spells_self (hmark ▸ hquote) (fun h => absurd h hslash)
        (Or.inl (isPlain_of_not_isControl (by simpa using hcontrol) hbreak))

/-! ### Marks -/

/-- One mark closes a string on one line. -/
theorem body_close (hf : f.multiline = false) (s : List Char) : body f (f.mark :: s) = some ([], s) := by
  rw [body, if_pos rfl, if_neg (by simp [hf])]

theorem takeWhile_marks {m : Char} (n : Nat) {s : List Char} (hs : Stops (· = m) s) :
    ((List.replicate n m ++ s).takeWhile (· = m)).length = n := by
  obtain ⟨htake, -⟩ := takeWhile_append_of_stops (p := (· = m)) (w := List.replicate n m)
    (fun c hc => decide_eq_true (List.eq_of_mem_replicate hc)) hs
  rw [htake, List.length_replicate]

/-- Up to two marks belong to the text of a string that goes on behind them. -/
theorem body_marks (hf : f.multiline = true) {s : List Char} (hs : Stops (· = f.mark) s) {run : Nat}
    (hrun : run ≤ 2) : body f (List.replicate run f.mark ++ s) =
      (body f s).map fun x => (List.replicate run f.mark ++ x.1, x.2) := by
  induction run with
  | zero => cases h : body f s <;> simp [h]
  | succ run ih =>
      have hmarks : ¬ 3 ≤ run + 1 := by omega
      rw [List.replicate_succ, List.cons_append, body, if_pos rfl, if_pos hf]
      simp only [takeWhile_marks run hs, hmarks, if_false]
      rw [ih (by omega), Option.map_map]
      rfl

/-- Behind three closing marks the string is over; up to two marks in front of them belong to it. -/
theorem body_closing_marks (hf : f.multiline = true) {s : List Char} (hs : Stops (· = f.mark) s)
    {run : Nat} (hrun : run ≤ 2) : body f (List.replicate run f.mark ++ (f.delimiter ++ s)) =
      some (List.replicate run f.mark, s) := by
  have hdelimiter : f.delimiter = List.replicate 3 f.mark := by rw [Form.delimiter, if_pos hf]
  have hall : List.replicate run f.mark ++ (f.delimiter ++ s) =
      f.mark :: (List.replicate (run + 2) f.mark ++ s) := by
    rw [hdelimiter, ← List.append_assoc, List.replicate_append_replicate, List.replicate_succ]
    rfl
  have hmarks : 3 ≤ run + 2 + 1 := by omega
  have hkept : min (run + 2 + 1 - 3) 2 = run := by omega
  have hgone : min (run + 2 + 1) 5 = (List.replicate (run + 3) f.mark).length := by
    rw [List.length_replicate]
    omega
  have hagain : f.mark :: (List.replicate (run + 2) f.mark ++ s) =
      List.replicate (run + 3) f.mark ++ s := by
    rw [List.replicate_succ (n := run + 2), List.cons_append]
  rw [hall, body, if_pos rfl, if_pos hf]
  simp only [takeWhile_marks (run + 2) hs, hmarks, if_true, hkept]
  rw [hgone, hagain, List.drop_left]

/-- What is written of a text in a form with three marks when `run` marks stand in front of it. -/
inductive Spelled (f : Form) : Nat → List Char → List Char → Prop
  | nil {run : Nat} (few : run ≤ 2) : Spelled f run [] []
  | mark {run : Nat} {w s : List Char} (rest : Spelled f (run + 1) w s) :
      Spelled f run (f.mark :: w) (f.mark :: s)
  | piece {run : Nat} {piece w s : List Char} {c : Char} (few : run ≤ 2) (spells : Spells f piece c)
      (rest : Spelled f 0 w s) : Spelled f run (piece ++ w) (c :: s)

theorem Spelled.body_eq (hf : f.multiline = true) {run : Nat} {w s rest : List Char}
    (h : Spelled f run w s) (hrest : Stops (· = f.mark) rest) :
    body f (List.replicate run f.mark ++ (w ++ (f.delimiter ++ rest))) =
      some (List.replicate run f.mark ++ s, rest) := by
  induction h with
  | nil few =>
      rw [List.nil_append, body_closing_marks hf hrest few, List.append_nil]
  | @mark run w s _ ih =>
      -- the mark joins those in front of it
      have hjoin : ∀ t, List.replicate run f.mark ++ f.mark :: t =
          List.replicate (run + 1) f.mark ++ t := by
        intro t
        rw [List.replicate_succ', List.append_assoc]
        rfl
      rw [List.cons_append, hjoin, ih, hjoin]
  | @piece run piece w s c few spells _ ih =>
      rw [List.append_assoc, body_marks hf (spells.stops _) few, spells.read]
      rw [List.replicate_zero, List.nil_append] at ih
      rw [ih]
      rfl

/-! ### Writing -/

theorem spelled_basicLines (s : List Char) {run : Nat} (hrun : run ≤ 2) :
    Spelled .basicLines run (writeBasicLines run s) s := by
  induction s generalizing run with
  | nil => exact .nil hrun
  | cons c rest ih =>
      unfold writeBasicLines
      split
      · next hquote =>
        subst hquote
        split
        · have hspells : Spells .basicLines ['\\', '"'] '"' :=
            spells_escape rfl (by decide) (by decide) fun _ => rfl
          exact .piece hrun hspells (ih (Nat.zero_le 2))
        · exact .mark (ih (by omega))
      · next hquote =>
        split
        · next hbreak =>
          subst hbreak
          have hspells : Spells .basicLines ['\n'] '\n' :=
            spells_self (by decide) (fun h => absurd h (by decide)) (Or.inr ⟨rfl, rfl⟩)
          exact .piece hrun hspells (ih (Nat.zero_le 2))
        · next hbreak =>
          exact .piece hrun (spells_escapeChar rfl hquote hbreak) (ih (Nat.zero_le 2))

theorem spelled_literalLines {s : List Char} (hs : ∀ c ∈ s, isControl c = false) {run : Nat}
    (hrun : longestRun '\'' run s ≤ 2) : Spelled .literalLines run s s := by
  induction s generalizing run with
  | nil => exact .nil hrun
  | cons c rest ih =>
      rw [List.forall_mem_cons] at hs
      unfold longestRun at hrun
      split at hrun
      · next hquote =>
        subst hquote
        exact .mark (ih hs.2 hrun)
      · next hquote =>
        rw [Nat.max_le] at hrun
        have hspells : Spells .literalLines [c] c := by
          refine spells_self hquote (fun _ => rfl) ?_
          by_cases hbreak : c = '\n'
          · exact Or.inr ⟨hbreak, rfl⟩
          · exact Or.inl (isPlain_of_not_isControl hs.1 hbreak)
        show Spelled .literalLines run ([c] ++ rest) (c :: rest)
        exact .piece hrun.1 hspells (ih hs.2 hrun.2)

/-- A string on one line, each character of it spelled on its own. -/
theorem body_flatMap (hf : f.multiline = false) {spell : Char → List Char} {s : List Char}
    (hs : ∀ c ∈ s, Spells f (spell c) c) (rest : List Char) :
    body f (s.flatMap spell ++ (f.delimiter ++ rest)) = some (s, rest) := by
  have hdelimiter : f.delimiter = [f.mark] := by
    rw [Form.delimiter, hf]
    rfl
  induction s with
  | nil => rw [hdelimiter, List.flatMap_nil, List.nil_append, List.singleton_append, body_close hf]
  | cons c cs ih =>
      rw [List.forall_mem_cons] at hs
      rw [List.flatMap_cons, List.append_assoc, hs.1.read, ih hs.2]
      rfl

namespace Form

/-- The text can be written in this form. The forms with escapes take any text; without them a text of one
line must be free of the mark, and a text of several lines of three marks in a row. -/
def Holds : Form → List Char → Prop
  | basic, _ | basicLines, _ => True
  | literal, s => ∀ c ∈ s, isPlain c = true ∧ c ≠ '\''
  | literalLines, s => (∀ c ∈ s, isControl c = false) ∧ longestRun '\'' 0 s ≤ 2

/-- The marks and the line break after them left out, this is what is written of a text. -/
def content : Form → List Char → List Char
  | basic, s => writeBasic s
  | basicLines, s => writeBasicLines 0 s
  | literal, s | literalLines, s => s

theorem write_eq (f : Form) (s : List Char) : f.write s = f.delimiter ++
    ((if f.multiline && s.contains '\n' then ['\n'] else []) ++ (f.content s ++ f.delimiter)) := by
  cases f <;> simp [write, content]

theorem exists_write_eq (f : Form) (s : List Char) : ∃ t, f.write s = f.mark :: t := by
  have hdelimiter : ∃ t, f.delimiter = f.mark :: t := by cases f <;> exact ⟨_, rfl⟩
  obtain ⟨t, ht⟩ := hdelimiter
  rw [write_eq, ht]
  exact ⟨_, rfl⟩

/-- On one line every character is spelled on its own. -/
theorem content_spelled {f : Form} {s : List Char} (h : f.Holds s) (hf : f.multiline = false) :
    ∃ spell : Char → List Char, f.content s = s.flatMap spell ∧ ∀ c ∈ s, Spells f (spell c) c := by
  cases f with
  | basic =>
      refine ⟨_, rfl, fun c _ => ?_⟩
      split
      · next hquote =>
        subst hquote
        exact spells_escape rfl (by decide) (by decide) fun _ => rfl
      · next hquote =>
        split
        · next hbreak =>
          subst hbreak
          exact spells_escape rfl (by decide) (by decide) fun _ => rfl
        · next hbreak => exact spells_escapeChar rfl hquote hbreak
  | literal =>
      refine ⟨fun c => [c], (List.flatMap_singleton' s).symm, fun c hc => ?_⟩
      exact spells_self (h c hc).2 (fun _ => rfl) (Or.inl (h c hc).1)
  | basicLines | literalLines => cases hf

theorem body_content {f : Form} {s rest : List Char} (h : f.Holds s)
    (hrest : Stops (· = f.mark) rest) :
    body f (f.content s ++ (f.delimiter ++ rest)) = some (s, rest) := by
  cases hf : f.multiline with
  | false =>
      obtain ⟨spell, hcontent, hspell⟩ := content_spelled h hf
      rw [hcontent]
      exact body_flatMap hf hspell rest
  | true =>
      have hspelled : Spelled f 0 (f.content s) s := by
        cases f with
        | basic | literal => cases hf
        | basicLines => exact spelled_basicLines s (Nat.zero_le 2)
        | literalLines => exact spelled_literalLines h.1 h.2
      exact hspelled.body_eq hf hrest

theorem head_escapeChar {c : Char} (hc : c ≠ '\n') :
    ∃ d w, escapeChar c = d :: w ∧ d ≠ '\n' ∧ d ≠ '\r' := by
  unfold escapeChar
  repeat' split
  all_goals first
    | exact ⟨'\\', _, rfl, by decide, by decide⟩
    | exact ⟨c, [], rfl, hc, by assumption⟩

/-- What is written of a text without a line break does not begin with one. -/
theorem content_stops {f : Form} {s : List Char} (h : f.Holds s) (hf : f.multiline = true)
    (hs : '\n' ∉ s) (t : List Char) :
    Stops (fun c => c = '\n' || c = '\r') (f.content s ++ (f.delimiter ++ t)) := by
  cases s with
  | nil =>
      cases f with
      | basic | literal => cases hf
      | basicLines => exact Stops.cons (c := '"') rfl
      | literalLines => exact Stops.cons (c := '\'') rfl
  | cons c rest =>
      have hc : c ≠ '\n' := fun heq => hs (heq ▸ List.mem_cons_self)
      cases f with
      | basic | literal => cases hf
      | basicLines =>
          by_cases hquote : c = '"'
          · subst hquote
            exact Stops.cons rfl
          · obtain ⟨d, w, hd, hbreak, hreturn⟩ := head_escapeChar hc
            rw [content, writeBasicLines, if_neg hquote, if_neg hc, hd]
            exact Stops.cons (by simp [hbreak, hreturn])
      | literalLines =>
          have hreturn : c ≠ '\r' := by
            rintro rfl
            exact absurd (h.1 '\r' List.mem_cons_self) (by decide)
          exact Stops.cons (by simp [hc, hreturn])

theorem newline_of_stops {s : List Char} (hs : Stops (fun c => c = '\n' || c = '\r') s) :
    newline s = none := by
  have hboth : ∀ c ∈ s.head?, decide (c = '\n') = false ∧ decide (c = '\r') = false := by
    intro c hc
    simpa using hs c hc
  rw [newline, orElse_of_none (char_of_stops fun c hc => (hboth c hc).1)]
  exact word_of_stops fun c hc => (hboth c hc).2

theorem reader_write {f : Form} {s rest : List Char} (h : f.Holds s)
    (hrest : Stops (· = f.mark) rest) : f.reader (f.write s ++ rest) = some (s, rest) := by
  have hbody := body_content h hrest
  rw [write_eq, List.append_assoc, reader, bind_of_some (word_append _ _)]
  cases hf : f.multiline with
  | false => simpa using hbody
  | true =>
      by_cases hs : '\n' ∈ s
      · have hbreak : newline ('\n' :: (f.content s ++ (f.delimiter ++ rest))) =
            some ((), f.content s ++ (f.delimiter ++ rest)) :=
          orElse_of_some (char_cons _ _)
        simp only [if_true, List.contains_iff_mem.mpr hs, Bool.and_self, List.cons_append,
          List.nil_append, List.append_assoc]
        rw [bind_of_some (optional_of_some hbreak)]
        exact hbody
      · have hnone : newline (f.content s ++ (f.delimiter ++ rest)) = none :=
          newline_of_stops (content_stops h hf hs rest)
        have hcontains : s.contains '\n' = false := by simpa using hs
        simp only [if_true, hcontains, Bool.and_false, Bool.false_eq_true, if_false,
          List.append_assoc, List.nil_append]
        rw [bind_of_some (optional_of_none hnone)]
        exact hbody

/-- Without the mark in front there is no string of this form. -/
theorem reader_of_stops {f : Form} {s : List Char} (hs : Stops (· = f.mark) s) :
    f.reader s = none := by
  have hword : word f.delimiter s = none := by
    unfold delimiter
    split <;> exact word_of_stops hs
  exact bind_of_none hword

/-- A string on one line is not taken for one between three marks: what follows its first mark is no mark, or
it is the closing one with no mark behind it. -/
theorem reader_of_single {f g : Form} {s rest : List Char} (h : f.Holds s) (hf : f.multiline = false)
    (hg : g.multiline = true) (hrest : Stops (· = f.mark) rest) :
    g.reader (f.write s ++ rest) = none := by
  obtain ⟨spell, hcontent, hspell⟩ := content_spelled h hf
  have hwrite : f.write s ++ rest = f.mark :: (s.flatMap spell ++ f.mark :: rest) := by
    rw [write_eq, hcontent, delimiter, hf]
    simp
  rw [hwrite]
  by_cases hmark : f.mark = g.mark
  · have hdelimiter : g.delimiter = [f.mark, f.mark, f.mark] := by
      rw [delimiter, if_pos hg, ← hmark]
      rfl
    refine bind_of_none (word_of_mismatch ?_)
    rw [hdelimiter, List.cons_prefix_cons]
    rintro ⟨-, t, ht⟩
    cases s with
    | nil =>
        have hthird := congrArg List.tail ht
        have hnone := hrest f.mark (by rw [← show _ = rest from hthird]; rfl)
        simp at hnone
    | cons c cs =>
        rw [List.flatMap_cons, List.append_assoc] at ht
        have hnone := (hspell c List.mem_cons_self).stops (cs.flatMap spell ++ f.mark :: rest) f.mark
          (by rw [← ht]; rfl)
        simp at hnone
  · exact reader_of_stops (Stops.cons (decide_eq_false hmark))

theorem le_longestRun (x : Char) (run : Nat) (s : List Char) : run ≤ longestRun x run s := by
  induction s generalizing run with
  | nil => exact Nat.le_refl run
  | cons c rest ih =>
      unfold longestRun
      split
      · exact Nat.le_of_succ_le (ih (run + 1))
      · exact Nat.le_max_left _ _

theorem not_mem_of_longestRun {x : Char} {s : List Char} (h : longestRun x 0 s = 0) : x ∉ s := by
  induction s with
  | nil => simp
  | cons c rest ih =>
      unfold longestRun at h
      split at h
      · have hle := le_longestRun x (0 + 1) rest
        omega
      · next hc =>
        rw [List.mem_cons, not_or]
        exact ⟨fun heq => hc heq.symm, ih (by omega)⟩

/-- The form that is chosen for a text can hold it. -/
theorem of_holds (s : List Char) : (Form.of s).Holds s := by
  unfold Form.of
  simp only
  split
  · trivial
  split
  · next _ hliteral =>
    simp only [Bool.and_eq_true, Bool.not_eq_true', decide_eq_true_eq, List.any_eq_false,
      Bool.not_eq_true] at hliteral
    obtain ⟨⟨hcontrol, hsingles⟩, hbroken⟩ := hliteral
    intro c hc
    have hbreak : c ≠ '\n' := by
      rintro rfl
      rw [List.contains_iff_mem.mpr hc] at hbroken
      cases hbroken
    exact ⟨isPlain_of_not_isControl (hcontrol c hc) hbreak,
      fun heq => not_mem_of_longestRun hsingles (heq ▸ hc)⟩
  split
  · trivial
  split
  · next _ _ _ hlines =>
    simp only [Bool.and_eq_true, Bool.not_eq_true', decide_eq_true_eq, List.any_eq_false,
      Bool.not_eq_true] at hlines
    exact hlines
  · split <;> trivial

end Form

theorem Stops.mark {s : List Char} (hs : Stops (fun c => c = '"' || c = '\'') s) (f : Form) :
    Stops (· = f.mark) s := by
  intro c hc
  have hboth := hs c hc
  rw [Bool.or_eq_false_iff] at hboth
  cases f with
  | basic | basicLines => exact hboth.1
  | literal | literalLines => exact hboth.2

theorem quoted_of_stops {s : List Char} (hs : Stops (fun c => c = '"' || c = '\'') s) :
    quoted s = none := by
  have hform : ∀ f : Form, f.reader s = none := fun f => Form.reader_of_stops (hs.mark f)
  rw [quoted, orElse_of_none (hform _), orElse_of_none (hform _), orElse_of_none (hform _)]
  exact hform _

/-- A text is read back in the form that it was written in. -/
theorem quoted_write {f : Form} {s rest : List Char} (h : f.Holds s)
    (hrest : Stops (fun c => c = '"' || c = '\'') rest) :
    quoted (f.write s ++ rest) = some (s, rest) := by
  have hmark : Stops (· = f.mark) rest := hrest.mark f
  have hread : f.reader (f.write s ++ rest) = some (s, rest) := f.reader_write h hmark
  have hother : ∀ g : Form, g.mark ≠ f.mark → g.reader (f.write s ++ rest) = none := by
    intro g hne
    obtain ⟨t, ht⟩ := f.exists_write_eq s
    rw [ht]
    exact Form.reader_of_stops (Stops.cons (decide_eq_false (Ne.symm hne)))
  cases f with
  | basicLines => exact orElse_of_some hread
  | literalLines =>
      rw [quoted, orElse_of_none (hother .basicLines (by decide))]
      exact orElse_of_some hread
  | basic =>
      rw [quoted, orElse_of_none (Form.reader_of_single h rfl rfl hmark),
        orElse_of_none (hother .literalLines (by decide))]
      exact orElse_of_some hread
  | literal =>
      rw [quoted, orElse_of_none (hother .basicLines (by decide)),
        orElse_of_none (Form.reader_of_single h rfl rfl hmark),
        orElse_of_none (hother .basic (by decide))]
      exact hread

end BlockPool.Toml
