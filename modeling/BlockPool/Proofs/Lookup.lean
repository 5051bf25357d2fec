import Mathlib.Data.List.Nodup

/-! Lists of keys with values, read as maps: the index of a class table, and the table that a document
stands for. The first entry under a key counts. -/

namespace BlockPool

variable {κ β : Type} [BEq κ] [LawfulBEq κ] {entries : List (κ × β)} {k : κ} {v : β}

theorem lookup_eq_none_iff : entries.lookup k = none ↔ k ∉ entries.map (·.1) := by
  rw [List.lookup_eq_none_iff, List.mem_map]
  simp only [bne_iff_ne, ne_eq, not_exists, not_and]
  exact ⟨fun h e he heq => h e he heq.symm, fun h e he heq => h e he heq.symm⟩

theorem mem_of_lookup (h : entries.lookup k = some v) : (k, v) ∈ entries := by
  obtain ⟨front, back, rfl, -⟩ := List.lookup_eq_some_iff.mp h
  exact List.mem_append_right front List.mem_cons_self

/-- Under a key that is given one value only, this value is found. -/
theorem lookup_of_mem (hvalue : ∀ u, (k, u) ∈ entries → u = v) (hk : k ∈ entries.map (·.1)) :
    entries.lookup k = some v := by
  cases hlookup : entries.lookup k with
  | none => exact absurd hk (lookup_eq_none_iff.mp hlookup)
  | some u => rw [hvalue u (mem_of_lookup hlookup)]

/-- Where every key is named once, to be found is to be an entry. -/
theorem lookup_eq_some_iff (hkeys : (entries.map (·.1)).Nodup) :
    entries.lookup k = some v ↔ (k, v) ∈ entries := by
  refine ⟨mem_of_lookup, fun hmem => lookup_of_mem (fun u hu => ?_) (List.mem_map_of_mem hmem)⟩
  have hsame := List.inj_on_of_nodup_map hkeys hu hmem rfl
  exact congrArg Prod.snd hsame

end BlockPool
