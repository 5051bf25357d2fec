import BlockPool.Proofs.Config.Toml

/-! Settings from documents that somebody wrote by hand. The assignments of some settings, or of all, stand in
any order, with blank lines, comments and other keys between them. Such a document gives the values that it
has and the standard ones for what it leaves out, and then the check has the last word. With a key that is
given twice it is no document. -/

namespace BlockPool.Config

def settingKeys : List Toml.Key := [nameKey, limitKey, ownerKey]

/-- The settings that keep their values under these keys and have the standard ones elsewhere. -/
def given (c : Config) (keys : List Toml.Key) : Config where
  name := if nameKey ∈ keys then c.name else standard.name
  maxBlockSize := if limitKey ∈ keys then c.maxBlockSize else standard.maxBlockSize
  verifyOwner := if ownerKey ∈ keys then c.verifyOwner else standard.verifyOwner

theorem mem_toEntries_iff {c : Config} {k : Toml.Key} {v : Toml.Item} : (k, v) ∈ c.toEntries ↔
    (k = nameKey ∧ v = .string c.name.toList) ∨
      (k = limitKey ∧ ∃ limit : Nat, c.maxBlockSize = some limit ∧ v = .integer limit) ∨
      (k = ownerKey ∧ v = .boolean c.verifyOwner) := by
  unfold toEntries
  cases c.maxBlockSize with
  | none => simp
  | some limit => simp

section Given

variable {c : Config} {es : Toml.Entries}

variable (h : ∀ e ∈ es, e ∈ c.toEntries ∨ e.1 ∉ settingKeys)

include h

theorem mem_toEntries_of_setting {k : Toml.Key} {v : Toml.Item} (hk : k ∈ settingKeys)
    (hmem : (k, v) ∈ es) : (k, v) ∈ c.toEntries :=
  (h _ hmem).resolve_right fun hother => hother hk

theorem nameOf?_of_given :
    nameOf? (es.lookup nameKey) = some (c.given (es.map (·.1))).name := by
  have hvalue : ∀ u, (nameKey, u) ∈ es → u = .string c.name.toList := by
    intro u hu
    rcases mem_toEntries_iff.mp (mem_toEntries_of_setting h (by decide) hu) with
      ⟨-, hu⟩ | ⟨hkey, -⟩ | ⟨hkey, -⟩
    · exact hu
    · exact absurd hkey (by decide)
    · exact absurd hkey (by decide)
  by_cases hname : nameKey ∈ es.map (·.1)
  · rw [lookup_of_mem hvalue hname, given, if_pos hname, nameOf?, String.ofList_toList]
  · rw [lookup_eq_none_iff.mpr hname, given, if_neg hname, nameOf?]

theorem limitOf?_of_given :
    limitOf? (es.lookup limitKey) = some (c.given (es.map (·.1))).maxBlockSize := by
  have hvalue : ∀ u, (limitKey, u) ∈ es →
      ∃ limit : Nat, c.maxBlockSize = some limit ∧ u = .integer limit := by
    intro u hu
    rcases mem_toEntries_iff.mp (mem_toEntries_of_setting h (by decide) hu) with
      ⟨hkey, -⟩ | ⟨-, hu⟩ | ⟨hkey, -⟩
    · exact absurd hkey (by decide)
    · exact hu
    · exact absurd hkey (by decide)
  by_cases hlimit : limitKey ∈ es.map (·.1)
  · obtain ⟨⟨k, u⟩, hu, rfl⟩ := List.mem_map.mp hlimit
    obtain ⟨limit, hmax, rfl⟩ := hvalue u hu
    have hone : ∀ u, (limitKey, u) ∈ es → u = .integer limit := by
      intro u hu
      obtain ⟨limit', hmax', rfl⟩ := hvalue u hu
      rw [hmax] at hmax'
      cases hmax'
      rfl
    rw [lookup_of_mem hone hlimit, given, if_pos hlimit, hmax, limitOf?,
      if_pos (Int.natCast_nonneg limit), Int.toNat_natCast]
  · rw [lookup_eq_none_iff.mpr hlimit, given, if_neg hlimit, limitOf?]

theorem ownerOf?_of_given :
    ownerOf? (es.lookup ownerKey) = some (c.given (es.map (·.1))).verifyOwner := by
  have hvalue : ∀ u, (ownerKey, u) ∈ es → u = .boolean c.verifyOwner := by
    intro u hu
    rcases mem_toEntries_iff.mp (mem_toEntries_of_setting h (by decide) hu) with
      ⟨hkey, -⟩ | ⟨hkey, -⟩ | ⟨-, hu⟩
    · exact absurd hkey (by decide)
    · exact absurd hkey (by decide)
    · exact hu
  by_cases howner : ownerKey ∈ es.map (·.1)
  · rw [lookup_of_mem hvalue howner, given, if_pos howner, ownerOf?]
  · rw [lookup_eq_none_iff.mpr howner, given, if_neg howner, ownerOf?]

theorem ofEntries?_of_given : ofEntries? es = some (c.given (es.map (·.1))) := by
  rw [ofEntries?, nameOf?_of_given h, limitOf?_of_given h, ownerOf?_of_given h]
  rfl

end Given

/-- Settings in any arrangement. The text of settings is a sheet of their assignments. A sheet of any of these,
in any order and with whatever else between them, gives what the check says of the settings that have the
values given and the standard ones elsewhere; a sheet in which a key stands twice is malformed. -/
theorem arranged_text_gives_settings (c : Config) :
    (∀ text, c.toToml? = some text →
      ∃ sheet : Toml.Sheet, sheet.text = text.toList ∧ sheet.entries = c.toEntries) ∧
    ∀ sheet : Toml.Sheet, (∀ e ∈ sheet.entries, e ∈ c.toEntries ∨ e.1 ∉ settingKeys) →
      (sheet.keys.Nodup → ofToml (String.ofList sheet.text) = (c.given sheet.keys).check) ∧
        (¬sheet.keys.Nodup → ofToml (String.ofList sheet.text) = .error .malformed) := by
  refine ⟨fun text h => (lines_of_toToml? h).exists_sheet, fun sheet hentries => ⟨?_, ?_⟩⟩
  · intro hkeys
    rw [ofToml, String.toList_ofList, sheet.parse, if_pos hkeys, Option.bind_some,
      ofEntries?_of_given hentries]
    rfl
  · intro hkeys
    rw [ofToml, String.toList_ofList, sheet.parse, if_neg hkeys]
    rfl

/-- A label of two lines and a switch, the other way round and without the limit, with a comment, an empty
line and a key that is no setting in front of the label; and the same switch twice. -/
theorem arranged_text_gives_settings_of_label_and_switch :
    let document := "# pool\r\n\nverify_owner = false\n\tx-1=-5 # other\nname = \"\"\"\na\nb\"\"\""
    ofToml document = .ok { name := "a\nb", maxBlockSize := none, verifyOwner := false } ∧
      ofToml "verify_owner = false\nverify_owner = false\n" = .error .malformed := by
  intro document
  let c : Config := { name := "a\nb", maxBlockSize := some 7, verifyOwner := false }
  let name : Toml.Assignment := ⟨nameKey, .string c.name.toList, _, isBareKey_nameKey, .string _,
    .single, .single, .empty⟩
  let owner : Toml.Assignment := ⟨ownerKey, .boolean c.verifyOwner, _, isBareKey_ownerKey, .boolean _,
    .single, .single, .empty⟩
  let other : Toml.Assignment := ⟨['x', '-', '1'], .integer (-5), _,
    ⟨by decide, List.all_eq_true.mp rfl⟩, .integer rfl, .empty, .empty, .single⟩
  let tab : Toml.Blanks := ⟨['\t'], List.forall_mem_singleton.mpr rfl⟩
  let first : Toml.Remark := ⟨" pool".toList, List.all_eq_true.mp rfl⟩
  let second : Toml.Remark := ⟨" other".toList, List.all_eq_true.mp rfl⟩
  let sheet : Toml.Sheet := .more ⟨.empty, none, some first⟩ .returnFeed <|
    .more ⟨.empty, none, none⟩ .feed <| .more ⟨.empty, some owner, none⟩ .feed <|
    .more ⟨tab, some other, some second⟩ .feed <| .last ⟨.empty, some name, none⟩
  let twice : Toml.Sheet := .more ⟨.empty, some owner, none⟩ .feed <|
    .more ⟨.empty, some owner, none⟩ .feed <| .last ⟨.empty, none, none⟩
  have hname : (nameKey, .string c.name.toList) ∈ c.toEntries := mem_toEntries_iff.mpr (Or.inl ⟨rfl, rfl⟩)
  have howner : (ownerKey, .boolean c.verifyOwner) ∈ c.toEntries :=
    mem_toEntries_iff.mpr (Or.inr (Or.inr ⟨rfl, rfl⟩))
  have hother : ['x', '-', '1'] ∉ settingKeys := by decide
  obtain ⟨-, harranged⟩ := arranged_text_gives_settings c
  constructor
  · have hentries : ∀ e ∈ sheet.entries, e ∈ c.toEntries ∨ e.1 ∉ settingKeys :=
      List.forall_mem_cons.mpr ⟨Or.inl howner, List.forall_mem_cons.mpr ⟨Or.inr hother,
        List.forall_mem_singleton.mpr (Or.inl hname)⟩⟩
    have hread := (harranged sheet hentries).1 (by decide)
    have htext : sheet.text = document.toList := by decide +kernel
    have hcheck : (c.given sheet.keys).check = .ok { c with maxBlockSize := none } :=
      check_eq_ok_iff.mpr ⟨by decide, by decide⟩
    rwa [htext, String.ofList_toList, hcheck] at hread
  · have hentries : ∀ e ∈ twice.entries, e ∈ c.toEntries ∨ e.1 ∉ settingKeys :=
      List.forall_mem_cons.mpr ⟨Or.inl howner, List.forall_mem_singleton.mpr (Or.inl howner)⟩
    exact (harranged twice hentries).2 (by decide)

end BlockPool.Config
