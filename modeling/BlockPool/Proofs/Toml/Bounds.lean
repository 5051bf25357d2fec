import BlockPool.Proofs.Toml.Number
import BlockPool.Toml.Document

/-! The integers of a document. Every reader of integers checks that they fit, and tables are changed by
entries that were read and by other tables only; so every integer at the top of a document fits. -/

namespace BlockPool.Toml

open Reader

/-- An integer fits; nothing is asked of any other value. -/
def Item.Within : Item → Prop
  | .integer z => fits z = true
  | _ => True

/-- The integers among the values fit, those in tables left aside. -/
def Entries.Within (es : Entries) : Prop := ∀ e ∈ es, e.2.Within

namespace Entries

variable {es es' : Entries} {k : Key} {v : Item}

theorem Within.snoc (h : es.Within) (hv : v.Within) : Entries.Within (es ++ [(k, v)]) := by
  intro e he
  rcases List.mem_append.mp he with he | he
  · exact h e he
  · rw [List.mem_singleton.mp he]
    exact hv

theorem Within.replace (h : es.Within) (hv : v.Within) : (es.replace k v).Within := by
  intro e he
  obtain ⟨e', he', rfl⟩ := List.mem_map.mp he
  split
  · exact hv
  · exact h e' he'

theorem Within.add (h : es.Within) (hv : v.Within) (hadd : es.add k v = some es') :
    es'.Within := by
  unfold Entries.add at hadd
  split at hadd
  · cases hadd
    exact h.snoc hv
  · cases hadd

/-- A change further down replaces tables by tables. -/
theorem Within.under {dotted : Bool} {change : TableKind → Entries → Option Entries}
    (hchange : ∀ kind es es', Entries.Within es → change kind es = some es' → Entries.Within es')
    {path : List Key} {kind : TableKind} (h : es.Within)
    (hunder : Entries.under dotted change path kind es = some es') : es'.Within := by
  cases path with
  | nil => exact hchange kind es es' h hunder
  | cons k path =>
      unfold Entries.under at hunder
      split at hunder
      · obtain ⟨sub, -, heq⟩ := Option.bind_eq_some_iff.mp hunder
        cases heq
        exact h.snoc trivial
      · obtain ⟨_, -, hrest⟩ := Option.bind_eq_some_iff.mp hunder
        obtain ⟨sub, -, heq⟩ := Option.bind_eq_some_iff.mp hrest
        cases heq
        exact h.replace trivial
      · obtain ⟨_, -, hrest⟩ := Option.bind_eq_some_iff.mp hunder
        obtain ⟨sub, -, heq⟩ := Option.bind_eq_some_iff.mp hrest
        cases heq
        exact h.replace trivial
      · cases hunder

theorem Within.assign (h : es.Within) (hv : v.Within) {path : KeyPath}
    (hassign : es.assign path v = some es') : es'.Within := by
  refine h.under (fun kind es es' h heq => ?_) hassign
  split at heq
  · exact h.add hv heq
  · cases heq

theorem Within.openTable (h : es.Within) {path : KeyPath} (hopen : es.openTable path = some es') :
    es'.Within := by
  refine h.under (fun kind es es' h heq => ?_) hopen
  split at heq
  · cases heq
    exact h.snoc trivial
  · cases heq
    exact h.replace trivial
  · cases heq

theorem Within.openElement (h : es.Within) {path : KeyPath}
    (hopen : es.openElement path = some es') : es'.Within := by
  refine h.under (fun kind es es' h heq => ?_) hopen
  split at heq
  · cases heq
    exact h.snoc trivial
  · cases heq
    exact h.replace trivial
  · cases heq

end Entries

theorem ensures_value (depth : Nat) : Ensures (value depth) Item.Within := by
  have hscalar : Ensures scalar Item.Within := by
    refine ensures_orElse (ensures_map (ensures_trivial _) fun _ _ => trivial) ?_
    refine ensures_orElse (ensures_after fun _ => ensures_pure trivial) ?_
    refine ensures_orElse (ensures_after fun _ => ensures_pure trivial) ?_
    refine ensures_orElse (ensures_after fun _ => ensures_pure trivial) ?_
    refine ensures_orElse (ensures_after fun _ => ensures_pure trivial) ?_
    exact ensures_map ensures_integer fun _ hz => hz
  cases depth with
  | zero => exact hscalar
  | succ depth =>
      have harray : Ensures (array (value depth)) Item.Within := by
        refine ensures_after fun _ => ensures_after fun _ => ensures_orElse ?_ ?_
        · exact ensures_after fun _ => ensures_pure trivial
        · exact ensures_after fun _ => ensures_after fun _ => ensures_after fun _ =>
            ensures_after fun _ => ensures_after fun _ => ensures_after fun _ => ensures_pure trivial
      have htable : Ensures (inlineTable (value depth)) Item.Within := by
        refine ensures_after fun _ => ensures_after fun pairs => ensures_after fun _ =>
          ensures_after fun _ => ?_
        split
        · exact ensures_pure trivial
        · exact ensures_failure
      exact ensures_orElse harray (ensures_orElse htable hscalar)

section Drafts

variable {d : Draft} (h : d.entries.Within)

include h

theorem ensures_header : Ensures (header d) fun d' => d'.entries.Within := by
  refine ensures_orElse ?_ ?_
  · refine ensures_after fun _ => ensures_after fun path => ensures_after fun _ => ?_
    refine ensures_liftM fun d' hd' => ?_
    obtain ⟨entries, hentries, heq⟩ := Option.bind_eq_some_iff.mp hd'
    cases heq
    exact h.openElement hentries
  · refine ensures_after fun _ => ensures_after fun path => ensures_after fun _ => ?_
    refine ensures_liftM fun d' hd' => ?_
    obtain ⟨entries, hentries, heq⟩ := Option.bind_eq_some_iff.mp hd'
    cases heq
    exact h.openTable hentries

theorem ensures_assignment : Ensures (assignment d) fun d' => d'.entries.Within := by
  refine ensures_after fun path => ensures_after fun _ => ensures_after fun _ => ?_
  refine ensures_bind (ensures_value maxDepth) fun v hv => ensures_liftM fun d' hd' => ?_
  obtain ⟨entries, hentries, heq⟩ := Option.bind_eq_some_iff.mp hd'
  cases heq
  exact h.under (fun _ es es' h hassign => h.assign hv hassign) hentries

theorem ensures_line : Ensures (line d) fun d' => d'.entries.Within := by
  refine ensures_after fun _ => ensures_bind ?_ fun d' hd' => ensures_after fun _ => ensures_pure hd'
  exact ensures_orElse (ensures_header h) (ensures_orElse (ensures_assignment h) (ensures_pure h))

theorem ensures_lines (n : Nat) : Ensures (lines n d) fun d' => d'.entries.Within := by
  induction n generalizing d with
  | zero => exact ensures_after fun _ => ensures_pure h
  | succ n ih =>
      refine ensures_orElse (ensures_after fun _ => ensures_pure h) ?_
      exact ensures_bind (ensures_line h) fun d' hd' => ih hd'

end Drafts

/-- Every integer at the top of a document fits. -/
theorem within_of_parse {text : List Char} {es : Entries} (h : parse? text = some es) :
    es.Within := by
  obtain ⟨⟨d, rest⟩, hread, rfl⟩ := Option.map_eq_some_iff.mp h
  have hempty : ({} : Draft).entries.Within := by simp [Entries.Within]
  exact ensures_lines hempty _ _ _ _ hread

end BlockPool.Toml
