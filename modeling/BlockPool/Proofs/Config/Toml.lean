import BlockPool.Config.Toml
import BlockPool.Proofs.Toml.Bounds
import BlockPool.Proofs.Toml.Document

/-! Settings as text and back. All settings that have a text are read from it as they were, so what the text
gives is what the check says of them. Settings that were read from any text can be written: their limit is
an integer of TOML. -/

namespace BlockPool.Config

/-- The keys and values that stand for settings. -/
def toEntries (c : Config) : Toml.Entries :=
  let name : Toml.Key × Toml.Item := (nameKey, .string c.name.toList)
  let owner : Toml.Key × Toml.Item := (ownerKey, .boolean c.verifyOwner)
  match c.maxBlockSize with
  | none => [name, owner]
  | some limit => [name, (limitKey, .integer limit), owner]

theorem ofEntries?_toEntries (c : Config) : ofEntries? c.toEntries = some c := by
  obtain ⟨name, maxBlockSize, verifyOwner⟩ := c
  have hname : nameOf? (some (.string name.toList)) = some name := by
    rw [nameOf?, String.ofList_toList]
  cases maxBlockSize with
  | none =>
      show (nameOf? (some (.string name.toList)) >>= _) = _
      rw [hname]
      rfl
  | some limit =>
      have hlimit : limitOf? (some (.integer limit)) = some (some limit) := by
        rw [limitOf?, if_pos (Int.natCast_nonneg limit), Int.toNat_natCast]
      show (nameOf? (some (.string name.toList)) >>= fun _ => limitOf? (some (.integer limit)) >>= _) = _
      rw [hname, hlimit]
      rfl

theorem nodup_toEntries (c : Config) : (c.toEntries.map (·.1)).Nodup := by
  unfold toEntries
  cases c.maxBlockSize with
  | none => exact (by decide : [nameKey, ownerKey].Nodup)
  | some limit => exact (by decide : [nameKey, limitKey, ownerKey].Nodup)

theorem isBareKey_nameKey : Toml.IsBareKey nameKey := ⟨by decide, List.all_eq_true.mp rfl⟩

theorem isBareKey_limitKey : Toml.IsBareKey limitKey := ⟨by decide, List.all_eq_true.mp rfl⟩

theorem isBareKey_ownerKey : Toml.IsBareKey ownerKey := ⟨by decide, List.all_eq_true.mp rfl⟩

theorem fits_natCast {n : Nat} : Toml.fits n = true ↔ n ≤ maxWritten := by
  simp only [Toml.fits, Bool.and_eq_true, decide_eq_true_eq, maxWritten]
  omega

theorem toToml?_eq_none_iff {c : Config} :
    c.toToml? = none ↔ ∃ limit, c.maxBlockSize = some limit ∧ maxWritten < limit := by
  unfold toToml?
  cases c.maxBlockSize with
  | none => simp
  | some limit => simp

/-- The text of settings has one line for each of them. -/
theorem lines_of_toToml? {c : Config} {text : String} (h : c.toToml? = some text) :
    Toml.Lines c.toEntries text.toList := by
  have hname : Toml.Writes (.string c.name.toList) (Toml.writeString c.name.toList) := .string _
  have howner : Toml.Lines [(ownerKey, .boolean c.verifyOwner)]
      (Toml.writeLine ownerKey (Toml.writeBool c.verifyOwner) ++ []) :=
    .cons isBareKey_ownerKey (.boolean _) .nil
  unfold toToml? at h
  unfold toEntries
  cases hmax : c.maxBlockSize with
  | none =>
      rw [hmax] at h
      rw [← Option.some.inj h, String.toList_ofList, ← List.append_nil (Toml.writeLine ownerKey _)]
      exact .cons isBareKey_nameKey hname howner
  | some limit =>
      simp only [hmax, Option.ite_none_right_eq_some, Option.some.injEq] at h
      obtain ⟨hle, rfl⟩ := h
      have hlimit : Toml.Writes (.integer limit) (Toml.writeNat limit) :=
        .integer (fits_natCast.mpr hle)
      rw [String.toList_ofList, List.append_assoc, ← List.append_nil (Toml.writeLine ownerKey _)]
      exact .cons isBareKey_nameKey hname (.cons isBareKey_limitKey hlimit howner)

/-- The text of settings gives what the check says of them. -/
theorem ofToml_toToml? {c : Config} {text : String} (h : c.toToml? = some text) :
    ofToml text = c.check := by
  rw [ofToml, (lines_of_toToml? h).parse (nodup_toEntries c), Option.bind_some,
    ofEntries?_toEntries]

/-- A limit that was read can be written. -/
theorem limit_le_of_ofEntries? {es : Toml.Entries} (hes : es.Within) {c : Config}
    (h : ofEntries? es = some c) {limit : Nat} (hlimit : c.maxBlockSize = some limit) :
    limit ≤ maxWritten := by
  obtain ⟨name, -, hrest⟩ := Option.bind_eq_some_iff.mp h
  obtain ⟨max, hmax, hrest⟩ := Option.bind_eq_some_iff.mp hrest
  obtain ⟨owner, -, heq⟩ := Option.bind_eq_some_iff.mp hrest
  cases heq
  cases hlimit
  unfold limitOf? at hmax
  split at hmax
  · cases hmax
  · next z hlookup =>
    split at hmax
    · next hnonneg =>
      cases hmax
      have hfits : Toml.fits z = true := hes (limitKey, .integer z) (mem_of_lookup hlookup)
      rw [← Int.toNat_of_nonneg hnonneg] at hfits
      exact fits_natCast.mp hfits
    · cases hmax
  · cases hmax

/-- Settings and their text. Those with a limit beyond the integers of TOML have none; the text of all
others gives them back if they are fit for a pool, and otherwise what is wrong with them. What any text gives
is fit for a pool, and its own text gives it back. -/
theorem text_gives_settings_back :
    (∀ c : Config, c.toToml? = none ↔ ∃ limit, c.maxBlockSize = some limit ∧ maxWritten < limit) ∧
      (∀ (c : Config) text, c.toToml? = some text → ofToml text = c.check) ∧
      ∀ text c, ofToml text = .ok c → c.check = .ok c ∧
        ∃ written, c.toToml? = some written ∧ ofToml written = .ok c := by
  refine ⟨fun c => toToml?_eq_none_iff, fun c text h => ofToml_toToml? h, fun text c h => ?_⟩
  unfold ofToml at h
  split at h
  · next d hd =>
    obtain ⟨es, hes, hsettings⟩ := Option.bind_eq_some_iff.mp hd
    obtain ⟨hproblem, rfl⟩ := check_eq_ok_iff.mp h
    have hcheck : c.check = .ok c := check_eq_ok_iff.mpr ⟨hproblem, rfl⟩
    refine ⟨hcheck, ?_⟩
    cases hwritten : c.toToml? with
    | none =>
        obtain ⟨limit, hlimit, hlarge⟩ := toToml?_eq_none_iff.mp hwritten
        have hle := limit_le_of_ofEntries? (Toml.within_of_parse hes) hsettings hlimit
        exact absurd hle (Nat.not_le_of_lt hlarge)
    | some written => exact ⟨written, rfl, (ofToml_toToml? hwritten).trans hcheck⟩
  · cases h

/-- A label with quotes of both kinds, a backslash and two breaks gives a text that is read back; a document
with a label in another form, a limit in another base and a table gives settings that have a text of their
own. -/
theorem text_gives_settings_back_of_label_and_document :
    let c : Config := { name := "\"\"'a\\\n'''\r\"\"\"", maxBlockSize := some 7, verifyOwner := false }
    let document := "# pool\r\n\"name\" = '''\r\na\"b'''\nmax_block_size = 0x1_0\n[x]\ny=[1,2.5]"
    let d : Config := { name := "a\"b", maxBlockSize := some 16 }
    (∃ text, c.toToml? = some text ∧ ofToml text = .ok c) ∧
      ofToml document = .ok d ∧ ∃ written, d.toToml? = some written ∧ ofToml written = .ok d := by
  intro c document d
  have hread : ofToml document = .ok d := by
    have hsome : (ofToml document).toOption = some d := by decide +kernel
    cases hdocument : ofToml document with
    | error problem =>
        rw [hdocument] at hsome
        cases hsome
    | ok settings =>
        rw [hdocument] at hsome
        cases hsome
        rfl
  have hcheck : c.check = .ok c := check_eq_ok_iff.mpr ⟨by decide, rfl⟩
  obtain ⟨hnone, htext, hback⟩ := text_gives_settings_back
  refine ⟨?_, hread, (hback document d hread).2⟩
  cases hc : c.toToml? with
  | none =>
      obtain ⟨limit, hlimit, hlarge⟩ := (hnone c).mp hc
      cases hlimit
      exact absurd hlarge (by decide)
  | some text => exact ⟨text, rfl, (htext c text hc).trans hcheck⟩

end BlockPool.Config
