import BlockPool.Proofs.Toml.Reader
import BlockPool.Record
import Mathlib.Logic.Function.Basic

/-! Records can be read. The text of an event is made of words without digits and of numbers between them,
so it falls into these pieces in one way only, and the pieces tell which event it was. -/

namespace BlockPool

/-- A text in pieces: words in front, and then numbers with words behind each of them. -/
structure Phrase where
  front : String
  numbers : List (Nat × String)

namespace Phrase

open Toml

def spellNumbers : List (Nat × String) → String
  | [] => ""
  | (n, words) :: rest => toString n ++ (words ++ spellNumbers rest)

def spell (s : Phrase) : String := s.front ++ spellNumbers s.numbers

def isWord (c : Char) : Bool := !c.isDigit

/-- Words that can stand between two numbers. -/
def isWords (w : String) : Bool := !w.toList.isEmpty && w.toList.all isWord

/-- There is no digit in any of the words, and no number without words behind it. -/
structure Plain (s : Phrase) : Prop where
  front : s.front.toList.all isWord = true
  behind : (s.numbers.map (·.2)).all isWords = true

theorem toList_spellNumbers_cons (n : Nat) (words : String) (rest : List (Nat × String)) :
    (spellNumbers ((n, words) :: rest)).toList =
      Nat.toDigits 10 n ++ (words.toList ++ (spellNumbers rest).toList) := by
  rw [spellNumbers, String.toList_append, String.toList_append, Nat.toString_eq_repr, Nat.toList_repr]

theorem isDigit_of_mem {n : Nat} {c : Char} (hc : c ∈ Nat.toDigits 10 n) : c.isDigit = true :=
  Nat.isDigit_of_mem_toDigits (by decide) (by decide) hc

/-- Numbers begin with a digit. -/
theorem stops_spellNumbers (numbers : List (Nat × String)) :
    Stops isWord (spellNumbers numbers).toList := by
  cases numbers with
  | nil => exact Stops.nil _
  | cons x rest =>
      obtain ⟨d, ds, heq⟩ := List.exists_cons_of_ne_nil (Nat.toDigits_ne_nil (n := x.1) (b := 10))
      have hdigit : d.isDigit = true := isDigit_of_mem (heq ▸ List.mem_cons_self)
      rw [toList_spellNumbers_cons, heq]
      exact Stops.cons (by rw [isWord, hdigit]; rfl)

theorem isWord_of_isWords {words : String} (h : isWords words = true) :
    ∀ c ∈ words.toList, isWord c = true :=
  List.all_eq_true.mp (Bool.and_eq_true_iff.mp h).2

/-- Words behind a number do not begin with a digit. -/
theorem stops_of_isWords {words : String} (h : isWords words = true) (s : List Char) :
    Stops Char.isDigit (words.toList ++ s) := by
  cases hlist : words.toList with
  | nil =>
      rw [isWords, hlist] at h
      cases h
  | cons c cs =>
      have hc : isWord c = true := isWord_of_isWords h c (hlist ▸ List.mem_cons_self)
      exact Stops.cons (Bool.not_inj (hc.trans rfl))

theorem eq_of_spellNumbers_eq {numbers numbers' : List (Nat × String)}
    (h : (numbers.map (·.2)).all isWords = true) (h' : (numbers'.map (·.2)).all isWords = true)
    (heq : (spellNumbers numbers).toList = (spellNumbers numbers').toList) : numbers = numbers' := by
  induction numbers generalizing numbers' with
  | nil =>
      cases numbers' with
      | nil => rfl
      | cons y ys =>
          rw [toList_spellNumbers_cons] at heq
          exact absurd (List.append_eq_nil_iff.mp heq.symm).1 Nat.toDigits_ne_nil
  | cons x xs ih =>
      cases numbers' with
      | nil =>
          rw [toList_spellNumbers_cons] at heq
          exact absurd (List.append_eq_nil_iff.mp heq).1 Nat.toDigits_ne_nil
      | cons y ys =>
          obtain ⟨n, words⟩ := x
          obtain ⟨m, words'⟩ := y
          rw [List.map_cons, List.all_cons, Bool.and_eq_true] at h h'
          rw [toList_spellNumbers_cons, toList_spellNumbers_cons] at heq
          obtain ⟨hdigits, hrest⟩ := append_inj_of_stops (fun _ => isDigit_of_mem)
            (fun _ => isDigit_of_mem) (stops_of_isWords h.1 _) (stops_of_isWords h'.1 _) heq
          obtain ⟨hwords, hlater⟩ := append_inj_of_stops (isWord_of_isWords h.1)
            (isWord_of_isWords h'.1) (stops_spellNumbers xs) (stops_spellNumbers ys) hrest
          have hn : n = m := by
            calc
              n = Nat.ofDigitChars 10 (Nat.toDigits 10 n) 0 := Nat.ofDigitChars_ten_toDigits.symm
              _ = Nat.ofDigitChars 10 (Nat.toDigits 10 m) 0 := by rw [hdigits]
              _ = m := Nat.ofDigitChars_ten_toDigits
          have hwords' : words = words' := String.toList_inj.mp hwords
          rw [hn, hwords', ih h.2 h'.2 hlater]

theorem eq_of_spell_eq {s t : Phrase} (hs : s.Plain) (ht : t.Plain) (h : s.spell = t.spell) :
    s = t := by
  rw [← String.toList_inj, spell, spell, String.toList_append, String.toList_append] at h
  obtain ⟨hfront, hnumbers⟩ := append_inj_of_stops (List.all_eq_true.mp hs.front)
    (List.all_eq_true.mp ht.front) (stops_spellNumbers _) (stops_spellNumbers _) h
  cases s
  cases t
  exact congrArg₂ Phrase.mk (String.toList_inj.mp hfront)
    (eq_of_spellNumbers_eq hs.behind ht.behind hnumbers)

end Phrase

namespace Event

/-- The pieces of the text of an event. -/
def phrase : Event → Phrase
  | created => ⟨"pool created", []⟩
  | supplied .hit size => ⟨"cache hit for ", [(size, " bytes")]⟩
  | supplied (.miss false) size => ⟨"cache miss for ", [(size, " bytes")]⟩
  | supplied (.miss true) size => ⟨"cache miss for ", [(size, " bytes" ++ ", new bucket")]⟩
  | outOfMemory size => ⟨"out of memory allocating ", [(size, " bytes")]⟩
  | cached size inUse => ⟨"", [(size, "-byte block cached, "), (inUse, " still in use")]⟩
  | refused => ⟨"refused a block owned by another pool", []⟩
  | cleared drained remaining =>
    ⟨"cleared ", [(drained.chunks, " cached blocks, removed "), (drained.classes, " buckets, "),
      (remaining, " remain")]⟩
  | abandoned inUse => ⟨"destroyed with ", [(inUse, " blocks still in use")]⟩
  | destroyed classes freed =>
    ⟨"destroyed ", [(classes, " buckets, freed "), (freed, " cached blocks")]⟩
  | orphaned => ⟨"released an orphaned block", []⟩

theorem text_eq_spell (e : Event) : e.text = e.phrase.spell := by
  unfold text
  fun_cases phrase e <;> simp only [Phrase.spell, Phrase.spellNumbers, String.append_assoc,
    String.append_empty, String.empty_append, Bool.false_eq_true, if_true, if_false]

theorem plain_phrase (e : Event) : e.phrase.Plain := by
  -- the numbers go with the map, and what is left has no variables
  fun_cases phrase e <;> constructor <;> simp only [List.map_cons, List.map_nil] <;> decide +kernel

/-- The event that a phrase tells of. -/
def ofPhrase? (s : Phrase) : Option Event :=
  match s.numbers with
  | [] =>
    if s.front = "pool created" then some .created
    else if s.front = "released an orphaned block" then some .orphaned
    else some .refused
  | [(n, words)] =>
    if s.front = "cache hit for " then some (.supplied .hit n)
    else if s.front = "cache miss for " then some (.supplied (.miss (decide (words ≠ " bytes"))) n)
    else if s.front = "destroyed with " then some (.abandoned n)
    else some (.outOfMemory n)
  | [(n, _), (m, _)] => if s.front = "" then some (.cached n m) else some (.destroyed n m)
  | [(chunks, _), (classes, _), (remaining, _)] => some (.cleared { chunks, classes } remaining)
  | _ => none

theorem ofPhrase?_phrase (e : Event) : ofPhrase? e.phrase = some e := by
  fun_cases phrase e <;> simp [ofPhrase?]

/-- No two events have the same text. -/
theorem text_injective : Function.Injective text := by
  intro e e' h
  have hspell : e.phrase.spell = e'.phrase.spell := by rw [← text_eq_spell, ← text_eq_spell, h]
  have hphrase := Phrase.eq_of_spell_eq e.plain_phrase e'.plain_phrase hspell
  have hsome := e.ofPhrase?_phrase
  rw [hphrase, ofPhrase?_phrase] at hsome
  exact (Option.some.inj hsome).symm

end Event

end BlockPool
