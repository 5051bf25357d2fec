import BlockPool.Config.File
import Mathlib.Data.List.TakeWhile

/-! When settings are fit for a pool, and which sizes they cover. Every way to get settings from outside
checks them, so what a text or a file gives is fit. -/

namespace BlockPool

/-- Trimming leaves nothing exactly when there is nothing but blanks. -/
theorem Text.trim_eq_nil_iff {s : List Char} : trim s = [] ↔ ∀ c ∈ s, isBlank c = true := by
  simp only [trim, List.reverse_eq_nil_iff, List.dropWhile_eq_nil_iff, List.mem_reverse]
  constructor
  · intro h
    cases hs : s.dropWhile isBlank with
    | nil => exact List.dropWhile_eq_nil_iff.mp hs
    | cons c rest =>
        -- what is left starts with no blank
        have hblank : isBlank c = true := h c (hs ▸ List.mem_cons_self)
        have hnot := List.head?_dropWhile_not isBlank s
        simp [hs, hblank] at hnot
  · exact fun h c hc => h c ((List.dropWhile_sublist isBlank).subset hc)

namespace Config

/-- A pool can work with the settings: their label can be seen, and their limit leaves room for a block. -/
structure Fit (c : Config) : Prop where
  shown : ∃ x ∈ c.name.toList, Text.isBlank x = false
  roomy : c.maxBlockSize ≠ some 0

/-- A pool with the settings hands out blocks of this size. -/
structure Covers (c : Config) (size : Nat) : Prop where
  pos : 1 ≤ size
  le : ∀ limit, c.maxBlockSize = some limit → size ≤ limit

variable {c : Config}

/-- The check finds a problem exactly with the settings that are not fit. -/
theorem fit_iff : c.Fit ↔ c.problem? = none := by
  have hshown : (∃ x ∈ c.name.toList, Text.isBlank x = false) ↔ Text.trim c.name.toList ≠ [] := by
    simp [Text.trim_eq_nil_iff]
  unfold problem?
  split
  · next hblank => exact iff_of_false (fun h => hshown.mp h.shown hblank) nofun
  · next hnonblank =>
    split
    · next hzero => exact iff_of_false (fun h => h.roomy hzero) nofun
    · next hroomy => exact iff_of_true ⟨hshown.mpr hnonblank, hroomy⟩ rfl

theorem covers_iff {size : Nat} : c.Covers size ↔ c.refusal? size = none :=
  ⟨fun h => refusal?_eq_none_iff.mpr ⟨h.pos, h.le⟩,
    fun h => ⟨(refusal?_eq_none_iff.mp h).1, (refusal?_eq_none_iff.mp h).2⟩⟩

instance (c : Config) : Decidable c.Fit := decidable_of_iff' _ fit_iff

instance (c : Config) (size : Nat) : Decidable (c.Covers size) := decidable_of_iff' _ covers_iff

theorem Fit.check (h : c.Fit) : c.check = .ok c :=
  check_eq_ok_iff.mpr ⟨fit_iff.mp h, rfl⟩

theorem fit_standard : Config.standard.Fit := by
  decide

theorem fit_named_iff {name : String} :
    (named name).Fit ↔ ∃ x ∈ name.toList, Text.isBlank x = false :=
  ⟨fun h => h.shown, fun h => ⟨h, fun hlimit => nomatch hlimit⟩⟩

/-- What is read from a text has been checked. -/
theorem fit_of_ofToml {text : String} (h : ofToml text = .ok c) : c.Fit := by
  unfold ofToml at h
  split at h
  · obtain ⟨hproblem, rfl⟩ := check_eq_ok_iff.mp h
    exact fit_iff.mpr hproblem
  · cases h

theorem fit_of_ofFile {disk : Disk} {path : String} (h : ofFile disk path = .ok c) : c.Fit := by
  unfold ofFile at h
  split at h
  · cases h
  · split at h
    · cases h
    · exact fit_of_ofToml h

end Config

end BlockPool
