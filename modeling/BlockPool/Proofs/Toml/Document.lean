import BlockPool.Proofs.Lookup
import BlockPool.Proofs.Toml.Form
import BlockPool.Proofs.Toml.Number
import BlockPool.Toml.Document

/-! Documents whose lines give written values to bare keys, with blanks, comments and empty lines wherever they
may stand. They are read as these keys and values, in the order of the lines, if no key is given twice; and
with a key that is given twice such a text is no document. -/

namespace BlockPool.Toml

open Reader

/-! ### Values -/

/-- The text is what is written of the value. -/
inductive Writes : Item → List Char → Prop
  | string (s : List Char) : Writes (.string s) (writeString s)
  | boolean (b : Bool) : Writes (.boolean b) (writeBool b)
  | integer {z : Int} (hz : fits z = true) : Writes (.integer z) (writeInt z)

/-- What can stand in front of a written value. -/
def isOpening (c : Char) : Bool := c = '"' || c = '\'' || c = 't' || c = 'f' || isDigit c || c = '-'

theorem Writes.exists_eq {v : Item} {w : List Char} (h : Writes v w) :
    ∃ c rest, w = c :: rest ∧ isOpening c = true := by
  cases h with
  | string s =>
      obtain ⟨t, ht⟩ := (Form.of s).exists_write_eq s
      refine ⟨_, t, ht, ?_⟩
      cases Form.of s <;> rfl
  | boolean b => cases b <;> exact ⟨_, _, rfl, rfl⟩
  | @integer z hz =>
      obtain ⟨c, rest, heq, hc⟩ := exists_writeInt_cons z
      refine ⟨c, rest, heq, ?_⟩
      rcases hc with hc | rfl
      · simp [isOpening, hc]
      · rfl

theorem Writes.stops {v : Item} {w : List Char} (h : Writes v w) {p : Char → Bool}
    (hp : ∀ c, isOpening c = true → p c = false) (s : List Char) : Stops p (w ++ s) := by
  obtain ⟨c, rest, rfl, hc⟩ := h.exists_eq
  exact Stops.cons (hp c hc)

theorem scalar_of_writes {v : Item} {w s : List Char} (h : Writes v w) (hs : EndsValue s) :
    scalar (w ++ s) = some (v, s) := by
  cases h with
  | string t =>
      have hquoted := quoted_write (Form.of_holds t) (hs.stops (by decide))
      exact orElse_of_some (map_of_some _ hquoted)
  | boolean b =>
      cases b with
      | true =>
          have hquoted : quoted (writeBool true ++ s) = none := quoted_of_stops (Stops.cons rfl)
          rw [scalar, orElse_of_none (map_of_none _ hquoted)]
          exact orElse_of_some (bind_of_some (word_append _ s))
      | false =>
          have hquoted : quoted (writeBool false ++ s) = none := quoted_of_stops (Stops.cons rfl)
          have htrue : word ['t', 'r', 'u', 'e'] (writeBool false ++ s) = none :=
            word_of_stops (Stops.cons rfl)
          rw [scalar, orElse_of_none (map_of_none _ hquoted), orElse_of_none (bind_of_none htrue)]
          exact orElse_of_some (bind_of_some (word_append _ s))
  | @integer z hz =>
      have hquoted : quoted (writeInt z ++ s) = none := quoted_of_stops fun c hc =>
        Bool.or_eq_false_iff.mpr ⟨writeInt_stops z rfl (by decide) s c hc,
          writeInt_stops z rfl (by decide) s c hc⟩
      have htrue : word ['t', 'r', 'u', 'e'] (writeInt z ++ s) = none :=
        word_of_stops (writeInt_stops z rfl (by decide) s)
      have hfalse : word ['f', 'a', 'l', 's', 'e'] (writeInt z ++ s) = none :=
        word_of_stops (writeInt_stops z rfl (by decide) s)
      rw [scalar, orElse_of_none (map_of_none _ hquoted), orElse_of_none (bind_of_none htrue),
        orElse_of_none (bind_of_none hfalse), orElse_of_none (bind_of_none (moment_writeInt hs z)),
        orElse_of_none (bind_of_none (float_writeInt hs z))]
      exact map_of_some _ (integer_writeInt hs hz)

theorem value_of_writes {v : Item} {w s : List Char} (h : Writes v w) (hs : EndsValue s)
    (depth : Nat) : value depth (w ++ s) = some (v, s) := by
  have hbracket : ∀ c, isOpening c = false → Stops (· = c) (w ++ s) := fun c hc =>
    h.stops (fun d hd => decide_eq_false (ne_of_kind hd hc)) s
  cases depth with
  | zero => exact scalar_of_writes h hs
  | succ depth =>
      have harray : array (value depth) (w ++ s) = none :=
        bind_of_none (char_of_stops (hbracket _ rfl))
      have htable : inlineTable (value depth) (w ++ s) = none :=
        bind_of_none (char_of_stops (hbracket _ rfl))
      rw [value, orElse_of_none harray, orElse_of_none htable]
      exact scalar_of_writes h hs

/-! ### Keys -/

/-- A key that needs no quotes. -/
structure IsBareKey (k : Key) : Prop where
  nonempty : k ≠ []
  bare : ∀ c ∈ k, isBare c = true

theorem IsBareKey.exists_eq {k : Key} (h : IsBareKey k) :
    ∃ c rest, k = c :: rest ∧ isBare c = true ∧ ∀ d ∈ rest, isBare d = true := by
  obtain ⟨c, rest, rfl⟩ := List.exists_cons_of_ne_nil h.nonempty
  exact ⟨c, rest, rfl, List.forall_mem_cons.mp h.bare⟩

theorem IsBareKey.stops {k : Key} (h : IsBareKey k) {p : Char → Bool}
    (hp : ∀ c, isBare c = true → p c = false) (s : List Char) : Stops p (k ++ s) := by
  obtain ⟨c, rest, rfl, hc, -⟩ := h.exists_eq
  exact Stops.cons (hp c hc)

theorem IsBareKey.stops_char {k : Key} (h : IsBareKey k) {d : Char} (hd : isBare d = false)
    (s : List Char) : Stops (· = d) (k ++ s) :=
  h.stops (fun _ hc => decide_eq_false (ne_of_kind hc hd)) s

theorem spaces_of_stops {s : List Char} (hs : Stops isSpace s) : spaces s = some ((), s) :=
  bind_of_some (run_append (fun _ hc => absurd hc List.not_mem_nil) hs)

theorem IsBareKey.stops_space {k : Key} (h : IsBareKey k) (s : List Char) :
    Stops isSpace (k ++ s) :=
  h.stops (fun _ hc => Bool.or_eq_false_iff.mpr
    ⟨decide_eq_false (ne_of_kind hc rfl), decide_eq_false (ne_of_kind hc rfl)⟩) s

/-- Blanks inside a line, perhaps none. -/
abbrev Blanks := {s : List Char // ∀ c ∈ s, isSpace c = true}

def Blanks.empty : Blanks := ⟨[], fun _ hc => absurd hc List.not_mem_nil⟩

def Blanks.single : Blanks := ⟨[' '], List.forall_mem_singleton.mpr rfl⟩

theorem Blanks.stops (b : Blanks) {p : Char → Bool} (hspace : p ' ' = false) (htab : p '\t' = false)
    {s : List Char} (hs : Stops p s) : Stops p (b.1 ++ s) := by
  refine Stops.append (fun c hc => ?_) hs
  have hblank := b.2 c hc
  simp only [isSpace, Bool.or_eq_true, decide_eq_true_eq] at hblank
  rcases hblank with rfl | rfl
  · exact hspace
  · exact htab

theorem Blanks.spaces (b : Blanks) {s : List Char} (hs : Stops isSpace s) :
    spaces (b.1 ++ s) = some ((), s) :=
  bind_of_some (run_append b.2 hs)

theorem keyPath_bare {k : Key} (h : IsBareKey k) (b : Blanks) (s : List Char) :
    keyPath (k ++ (b.1 ++ '=' :: s)) = some ({ parents := [], name := k }, '=' :: s) := by
  have hspaces := spaces_of_stops (h.stops_space (b.1 ++ '=' :: s))
  have hbare : bareKey (k ++ (b.1 ++ '=' :: s)) = some (k, b.1 ++ '=' :: s) := by
    obtain ⟨c, rest, rfl, hc, hrest⟩ := h.exists_eq
    rw [List.cons_append, bareKey, bind_of_some (one_cons hc _),
      bind_of_some (run_append hrest (b.stops (by decide) (by decide) (Stops.cons (by decide)))),
      pure_apply]
  have hpart : keyPart (k ++ (b.1 ++ '=' :: s)) = some (k, '=' :: s) := by
    have hbasic : Form.basic.reader (k ++ (b.1 ++ '=' :: s)) = none :=
      Form.reader_of_stops (h.stops_char (by decide) _)
    have hliteral : Form.literal.reader (k ++ (b.1 ++ '=' :: s)) = none :=
      Form.reader_of_stops (h.stops_char (by decide) _)
    rw [keyPart, bind_of_some hspaces]
    rw [bind_of_some ((orElse_of_none hbasic).trans ((orElse_of_none hliteral).trans hbare)),
      bind_of_some (b.spaces (Stops.cons rfl)), pure_apply]
  have hdot : (char '.' >>= fun _ => keyPart) ('=' :: s) = none :=
    bind_of_none (char_cons_of_ne (by decide) s)
  rw [keyPath, bind_of_some hpart, bind_of_some (manyUpTo_of_none hdot _)]
  rfl

/-- Where no key and no quote stands there is no key path. -/
theorem keyPath_of_stops {s : List Char} (hspace : Stops isSpace s) (hbare : Stops isBare s)
    (hquote : Stops (fun c => c = '"' || c = '\'') s) : keyPath s = none := by
  have hreader : ∀ f : Form, f.reader s = none := fun f => Form.reader_of_stops (hquote.mark f)
  have hpart : keyPart s = none := by
    rw [keyPart, bind_of_some (spaces_of_stops hspace)]
    refine bind_of_none ?_
    rw [orElse_of_none (hreader .basic), orElse_of_none (hreader .literal)]
    exact bind_of_none (one_of_stops hbare)
  exact bind_of_none hpart

theorem assign_bare {d : Draft} (hcursor : d.cursor = []) (k : Key) (v : Item) :
    d.assign { parents := [], name := k } v =
      (d.entries.add k v).map fun entries => { d with entries } := by
  have hunder : Entries.under false (fun _ es => Entries.assign { parents := [], name := k } v es)
      d.cursor .header d.entries = Entries.add k v d.entries := by
    rw [hcursor, Entries.under, Entries.assign, Entries.under, if_pos (Or.inl rfl)]
  rw [Draft.assign, hunder]
  cases Entries.add k v d.entries <;> rfl

/-! ### The end of a line -/

/-- The text of a comment behind its mark. -/
abbrev Remark := {s : List Char // ∀ c ∈ s, isPlain c = true}

/-- A comment, if there is one. -/
def remarkText : Option Remark → List Char
  | none => []
  | some remark => '#' :: remark.1

/-- A line break, in one of its two forms. -/
inductive Break
  | feed
  | returnFeed

def Break.text : Break → List Char
  | feed => ['\n']
  | returnFeed => ['\r', '\n']

/-- A line is over here, by a break or by the end of the document, and then the rest follows. -/
inductive Ended : List Char → List Char → Prop
  | broken (b : Break) (rest : List Char) : Ended (b.text ++ rest) rest
  | last : Ended [] []

section Ended

variable {s rest : List Char} (h : Ended s rest)

include h

theorem Ended.stops {p : Char → Bool} (hfeed : p '\n' = false) (hreturn : p '\r' = false) :
    Stops p s := by
  cases h with
  | broken b => cases b with
    | feed => exact Stops.cons hfeed
    | returnFeed => exact Stops.cons hreturn
  | last => exact Stops.nil p

theorem Ended.read : (newline <|> atEnd) s = some ((), rest) := by
  cases h with
  | broken b => cases b with
    | feed => exact orElse_of_some (orElse_of_some (char_cons '\n' rest))
    | returnFeed =>
        have hfeed : char '\n' ('\r' :: '\n' :: rest) = none := char_cons_of_ne (by decide) _
        exact orElse_of_some ((orElse_of_none hfeed).trans (word_append ['\r', '\n'] rest))
  | last => rfl

/-- What can stand in front of a comment and the end of a line. -/
theorem Ended.stops_remark {p : Char → Bool} (hfeed : p '\n' = false) (hreturn : p '\r' = false)
    (hmark : p '#' = false) (remark : Option Remark) : Stops p (remarkText remark ++ s) := by
  cases remark with
  | none => exact h.stops hfeed hreturn
  | some remark => exact Stops.cons hmark

theorem Ended.lineEnd (b : Blanks) (remark : Option Remark) :
    lineEnd (b.1 ++ (remarkText remark ++ s)) = some ((), rest) := by
  have hspaces := b.spaces (h.stops_remark (p := isSpace) (by decide) (by decide) (by decide) remark)
  rw [Toml.lineEnd, bind_of_some hspaces]
  cases remark with
  | none =>
      have hcomment : comment s = none := bind_of_none (char_of_stops (h.stops (by decide) (by decide)))
      rw [remarkText, List.nil_append, bind_of_some (optional_of_none hcomment)]
      exact h.read
  | some remark =>
      have hrun := run_append remark.2 (h.stops (p := isPlain) (by decide) (by decide))
      have hcomment : comment ('#' :: (remark.1 ++ s)) = some ((), s) :=
        (bind_of_some (char_cons '#' _)).trans (bind_of_some hrun)
      rw [remarkText, List.cons_append, bind_of_some (optional_of_some hcomment)]
      exact h.read

end Ended

/-- A key is no end of a line. -/
theorem lineEnd_bare {k : Key} (h : IsBareKey k) (s : List Char) : lineEnd (k ++ s) = none := by
  have hcomment : comment (k ++ s) = none := bind_of_none (char_of_stops (h.stops_char (by decide) s))
  have hnewline : newline (k ++ s) = none :=
    (orElse_of_none (char_of_stops (h.stops_char (by decide) s))).trans
      (word_of_stops (h.stops_char (by decide) s))
  have hend : atEnd (k ++ s) = none := by
    obtain ⟨c, rest, rfl, -⟩ := h.exists_eq
    rfl
  rw [lineEnd, bind_of_some (spaces_of_stops (h.stops_space s)),
    bind_of_some (optional_of_none hcomment), orElse_of_none hnewline]
  exact hend

/-! ### Rows -/

/-- A bare key with its value, as they stand on a line. -/
structure Assignment where
  key : Key
  value : Item
  written : List Char
  isBareKey : IsBareKey key
  writes : Writes value written
  /-- The blanks between the key and the equals sign. -/
  before : Blanks
  /-- The blanks between the equals sign and the value. -/
  after : Blanks
  /-- The blanks behind the value. -/
  behind : Blanks

def Assignment.text (a : Assignment) : List Char :=
  a.key ++ (a.before.1 ++ '=' :: (a.after.1 ++ (a.written ++ a.behind.1)))

/-- A line of a document: perhaps an assignment, and perhaps a comment behind it. -/
structure Row where
  indent : Blanks
  assignment : Option Assignment
  remark : Option Remark

namespace Row

def text (r : Row) : List Char :=
  r.indent.1 ++ ((r.assignment.map Assignment.text).getD [] ++ remarkText r.remark)

/-- What the line gives, at most one key with its value. -/
def entries (r : Row) : Entries := r.assignment.toList.map fun a => (a.key, a.value)

end Row

/-- The entries with more of them, if all their keys are new. -/
def Entries.addAll (es more : Entries) : Option Entries := more.foldlM (fun es e => es.add e.1 e.2) es

theorem header_of_stops {s : List Char} (hs : Stops (· = '[') s) (d : Draft) : header d s = none := by
  rw [header, orElse_of_none (bind_of_none (word_of_stops hs))]
  exact bind_of_none (char_of_stops hs)

section Row

variable {d : Draft} (hcursor : d.cursor = []) {s rest : List Char} (hs : Ended s rest)

include hcursor hs

theorem assignment_text (a : Assignment) (remark : Option Remark) :
    assignment d (a.text ++ (remarkText remark ++ s)) =
      (d.entries.add a.key a.value).map fun entries =>
        ({ d with entries }, a.behind.1 ++ (remarkText remark ++ s)) := by
  have htext : a.text ++ (remarkText remark ++ s) = a.key ++ (a.before.1 ++ '=' ::
      (a.after.1 ++ (a.written ++ (a.behind.1 ++ (remarkText remark ++ s))))) := by
    simp [Assignment.text]
  have hstops : Stops isSpace (a.written ++ (a.behind.1 ++ (remarkText remark ++ s))) :=
    a.writes.stops (fun c hc => Bool.or_eq_false_iff.mpr ⟨decide_eq_false (ne_of_kind hc rfl),
      decide_eq_false (ne_of_kind hc rfl)⟩) _
  have hends : EndsValue (a.behind.1 ++ (remarkText remark ++ s)) := by
    have hnone : Stops (fun c => !enders.contains c) (a.behind.1 ++ (remarkText remark ++ s)) :=
      a.behind.stops rfl rfl (hs.stops_remark rfl rfl rfl remark)
    intro c hc
    simpa using hnone c hc
  rw [htext, assignment, bind_of_some (keyPath_bare a.isBareKey _ _), bind_of_some (char_cons '=' _),
    bind_of_some (a.after.spaces hstops), bind_of_some (value_of_writes a.writes hends _), liftM_apply,
    assign_bare hcursor, Option.map_map]
  rfl

/-- A line gives what stands on it, unless the key has a value already: then it is no line. -/
theorem line_row (r : Row) : line d (r.text ++ s) =
    (d.entries.addAll r.entries).map fun entries => ({ d with entries }, rest) := by
  obtain ⟨indent, assignment?, remark⟩ := r
  have hremark : ∀ {p : Char → Bool}, p '\n' = false → p '\r' = false → p '#' = false →
      Stops p (remarkText remark ++ s) := fun hfeed hreturn hmark =>
    hs.stops_remark hfeed hreturn hmark remark
  cases assignment? with
  | none =>
      have htext : Row.text ⟨indent, none, remark⟩ ++ s = indent.1 ++ (remarkText remark ++ s) := by
        simp [Row.text]
      have hassignment : assignment d (remarkText remark ++ s) = none :=
        bind_of_none (keyPath_of_stops (hremark rfl rfl rfl) (hremark rfl rfl rfl)
          (hremark rfl rfl rfl))
      have hnothing := (orElse_of_none (header_of_stops (hremark rfl rfl rfl) d)).trans
        ((orElse_of_none hassignment).trans (pure_apply d _))
      have hend : lineEnd (remarkText remark ++ s) = some ((), rest) := hs.lineEnd .empty remark
      rw [htext, line, bind_of_some (indent.spaces (hremark rfl rfl rfl)), bind_of_some hnothing,
        bind_of_some hend]
      rfl
  | some a =>
      have htext : Row.text ⟨indent, some a, remark⟩ ++ s =
          indent.1 ++ (a.text ++ (remarkText remark ++ s)) := by
        simp [Row.text]
      have hkey : a.text ++ (remarkText remark ++ s) = a.key ++ (a.before.1 ++ '=' ::
          (a.after.1 ++ (a.written ++ a.behind.1)) ++ (remarkText remark ++ s)) := by
        simp [Assignment.text]
      have hassignment := assignment_text hcursor hs a remark
      have hheader : header d (a.text ++ (remarkText remark ++ s)) = none := by
        rw [hkey]
        exact header_of_stops (a.isBareKey.stops_char (by decide) _) d
      have hspaces : spaces (indent.1 ++ (a.text ++ (remarkText remark ++ s))) =
          some ((), a.text ++ (remarkText remark ++ s)) := by
        rw [hkey]
        exact indent.spaces (a.isBareKey.stops_space _)
      have hadd : d.entries.addAll (Row.entries ⟨indent, some a, remark⟩) =
          d.entries.add a.key a.value := by
        simp [Row.entries, Entries.addAll]
      rw [htext, line, bind_of_some hspaces, hadd]
      cases hentries : d.entries.add a.key a.value with
      | none =>
          rw [hentries] at hassignment
          have hnothing := (orElse_of_none hheader).trans ((orElse_of_none hassignment).trans
            (pure_apply d _))
          rw [bind_of_some hnothing, hkey]
          exact bind_of_none (lineEnd_bare a.isBareKey _)
      | some entries =>
          rw [hentries] at hassignment
          rw [bind_of_some ((orElse_of_none hheader).trans (orElse_of_some hassignment)),
            bind_of_some (hs.lineEnd a.behind remark)]
          rfl

end Row

/-! ### Sheets -/

/-- A document of rows, with breaks between them. The last row may be an empty one. -/
inductive Sheet
  | last (row : Row)
  | more (row : Row) (b : Break) (rest : Sheet)

namespace Sheet

def text : Sheet → List Char
  | last row => row.text
  | more row b rest => row.text ++ (b.text ++ rest.text)

/-- The keys with their values, in the order of the rows. -/
def entries : Sheet → Entries
  | last row => row.entries
  | more row _ rest => row.entries ++ rest.entries

def keys (sheet : Sheet) : List Key := sheet.entries.map (·.1)

end Sheet

namespace Entries

variable {k : Key} {es : Entries}

theorem add_eq (k : Key) (v : Item) (es : Entries) :
    es.add k v = if k ∈ es.map (·.1) then none else some (es ++ [(k, v)]) := by
  unfold add
  cases hlookup : es.lookup k with
  | none => rw [if_neg (lookup_eq_none_iff.mp hlookup)]
  | some old =>
      have hmem : k ∈ es.map (·.1) := List.mem_map_of_mem (mem_of_lookup hlookup)
      rw [if_pos hmem]

/-- Entries are added all or not at all: only one key that is there already is too many. -/
theorem addAll_eq (hes : (es.map (·.1)).Nodup) (more : Entries) :
    es.addAll more = if ((es ++ more).map (·.1)).Nodup then some (es ++ more) else none := by
  induction more generalizing es with
  | nil => simp [addAll, hes]
  | cons e more ih =>
      have happend : es ++ e :: more = es ++ [e] ++ more := by simp
      have hfirst : es.addAll (e :: more) = (es.add e.1 e.2).bind (addAll · more) := rfl
      rw [hfirst, add_eq]
      split
      · next hmem =>
        rw [Option.bind_none, if_neg]
        rw [List.map_append, List.map_cons, List.nodup_append]
        rintro ⟨-, -, hdisjoint⟩
        exact hdisjoint e.1 hmem e.1 List.mem_cons_self rfl
      · next hnew =>
        have hnodup : ((es ++ [e]).map (·.1)).Nodup := by
          rw [List.map_append, List.nodup_append]
          refine ⟨hes, List.pairwise_singleton _ _, ?_⟩
          rintro k hk k' hk' rfl
          rw [List.mem_singleton.mp hk'] at hk
          exact hnew hk
        rw [Option.bind_some, ih hnodup, happend]

end Entries

theorem lines_nil (n : Nat) (d : Draft) : lines n d [] = some (d, []) := by
  cases n <;> rfl

/-- A line is read, and then the rest. -/
theorem lines_cons (n : Nat) (d : Draft) (c : Char) (s : List Char) :
    lines (n + 1) d (c :: s) = (line d (c :: s)).bind fun x => lines n x.1 x.2 := by
  have hend : (atEnd >>= fun _ => (pure d : Reader Draft)) (c :: s) = none := bind_of_none rfl
  rw [lines, orElse_of_none hend]
  rfl

theorem Sheet.read (sheet : Sheet) {d : Draft} (hcursor : d.cursor = []) {n : Nat}
    (hn : sheet.text.length ≤ n) : lines n d sheet.text =
      (d.entries.addAll sheet.entries).map fun entries => ({ d with entries }, []) := by
  induction sheet generalizing d n with
  | last row =>
      have hline := line_row hcursor .last row
      rw [List.append_nil] at hline
      rw [Sheet.text] at hn ⊢
      cases htext : row.text with
      | nil =>
          have hnothing : row.assignment = none := by
            cases hassignment : row.assignment with
            | none => rfl
            | some a =>
                obtain ⟨c, rest, hkey, -⟩ := a.isBareKey.exists_eq
                simp [Row.text, hassignment, Assignment.text, hkey] at htext
          rw [lines_nil, Sheet.entries, Row.entries, hnothing]
          rfl
      | cons c s =>
          rw [htext] at hn hline
          obtain ⟨m, rfl⟩ : ∃ m, n = m + 1 := ⟨n - 1, by rw [List.length_cons] at hn; omega⟩
          rw [lines_cons, hline, Sheet.entries]
          cases d.entries.addAll row.entries with
          | none => rfl
          | some entries => exact lines_nil m _
  | more row b rest ih =>
      have hline := line_row hcursor (.broken b rest.text) row
      have hlong : rest.text.length + 1 ≤ (row.text ++ (b.text ++ rest.text)).length := by
        have hbreak : 1 ≤ b.text.length := by cases b <;> decide
        rw [List.length_append, List.length_append]
        omega
      rw [Sheet.text] at hn ⊢
      have hsplit : d.entries.addAll (row.entries ++ rest.entries) =
          (d.entries.addAll row.entries).bind fun es => es.addAll rest.entries :=
        List.foldlM_append
      obtain ⟨m, rfl⟩ : ∃ m, n = m + 1 := ⟨n - 1, by omega⟩
      obtain ⟨c, s, htext⟩ := List.exists_cons_of_length_pos (Nat.lt_of_lt_of_le (Nat.succ_pos _) hlong)
      rw [htext] at hline hn hlong ⊢
      rw [lines_cons, hline, Sheet.entries, hsplit]
      cases d.entries.addAll row.entries with
      | none => rfl
      | some entries => exact ih (d := { d with entries }) hcursor (by omega)

theorem Row.stops_mark (r : Row) {s rest : List Char} (hs : Ended s rest) :
    Stops (· = '\ufeff') (r.text ++ s) := by
  rw [Row.text, List.append_assoc, List.append_assoc]
  refine r.indent.stops (by decide) (by decide) ?_
  cases r.assignment with
  | none => exact hs.stops_remark (by decide) (by decide) (by decide) r.remark
  | some a =>
      rw [Option.map_some, Option.getD_some, Assignment.text, List.append_assoc]
      exact a.isBareKey.stops_char (by decide) _

/-- A sheet is a document if it gives no key twice, and otherwise it is none. -/
theorem Sheet.parse (sheet : Sheet) :
    parse? sheet.text = if sheet.keys.Nodup then some sheet.entries else none := by
  have hmark : Stops (· = '\ufeff') sheet.text := by
    cases sheet with
    | last row =>
        have hrow := row.stops_mark .last
        rwa [List.append_nil] at hrow
    | more row b rest => exact row.stops_mark (.broken b rest.text)
  have hread := sheet.read (d := {}) rfl (Nat.le_refl sheet.text.length)
  have hempty : (({} : Draft).entries.map (·.1)).Nodup := List.nodup_nil
  have hall := Entries.addAll_eq hempty sheet.entries
  rw [List.nil_append] at hall
  unfold parse?
  simp only
  split
  · next rest htext =>
    have hnone := hmark '\ufeff' (by rw [htext]; rfl)
    simp at hnone
  · rw [hread, hall, Sheet.keys]
    split <;> rfl

/-! ### Written lines -/

/-- The text consists of lines that give these values to these keys. -/
inductive Lines : Entries → List Char → Prop
  | nil : Lines [] []
  | cons {k : Key} {v : Item} {w text : List Char} {es : Entries} (key : IsBareKey k)
      (value : Writes v w) (rest : Lines es text) : Lines ((k, v) :: es) (writeLine k w ++ text)

/-- Written lines are a sheet, with one blank on either side of each equals sign and nothing on the last row. -/
theorem Lines.exists_sheet {es : Entries} {text : List Char} (h : Lines es text) :
    ∃ sheet : Sheet, sheet.text = text ∧ sheet.entries = es := by
  induction h with
  | nil => exact ⟨.last ⟨.empty, none, none⟩, rfl, rfl⟩
  | @cons k v w text es key value _ ih =>
      obtain ⟨rest, htext, hentries⟩ := ih
      let a : Assignment := ⟨k, v, w, key, value, .single, .single, .empty⟩
      refine ⟨.more ⟨.empty, some a, none⟩ .feed rest, ?_, ?_⟩
      · simp [Sheet.text, Row.text, Assignment.text, remarkText, Break.text, Blanks.empty,
          Blanks.single, writeLine, htext, a]
      · simp [Sheet.entries, Row.entries, hentries, a]

/-- The lines are a document. -/
theorem Lines.parse {es : Entries} {text : List Char} (h : Lines es text)
    (hkeys : (es.map (·.1)).Nodup) : parse? text = some es := by
  obtain ⟨sheet, rfl, rfl⟩ := h.exists_sheet
  exact sheet.parse.trans (if_pos hkeys)

end BlockPool.Toml
