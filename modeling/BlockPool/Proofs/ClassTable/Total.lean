import BlockPool.Proofs.ClassTable
import Mathlib.Algebra.BigOperators.Group.Finset.Basic
import Mathlib.Tactic.Abel

/-! Totals over the classes of a table. A sound table has one class for every size of its index, so
a total over its classes is a sum over the sizes, and a step that changes the class of one size
changes the total by what that class contributes. -/

namespace BlockPool.ClassTable

/-- What the class for a size contributes to a total; nothing if there is none. -/
def share {M : Type} [Zero M] (t : ClassTable) (f : SizeClass → M) (size : Nat) : M :=
  ((t.classFor? size).map f).getD 0

namespace Sound

variable {t T : ClassTable}

/-- What is read off the classes in their order is read off the sizes in theirs. -/
theorem map_classes (h : t.Sound) {β : Type} {f : SizeClass → β} {g : Nat → β}
    (hfg : ∀ size c, t.classFor? size = some c → f c = g size) :
    t.classes.map f = t.sizes.map g := by
  have hall : ∀ size ∈ t.sizes, ∃ c, t.classFor? size = some c :=
    fun size hsize => h.mem_sizes_iff.mp hsize
  rw [h.classes_eq]
  generalize t.sizes = sizes at hall
  induction sizes with
  | nil => rfl
  | cons size rest ih =>
      obtain ⟨c, hc⟩ := hall size List.mem_cons_self
      rw [List.filterMap_cons, hc, List.map_cons, List.map_cons, hfg size c hc,
        ih fun n hn => hall n (List.mem_cons_of_mem _ hn)]

section Totals

variable {M : Type} [AddCommMonoid M] (f : SizeClass → M)

/-- The total over the classes is the sum over any sizes that include theirs. -/
theorem sum_classes (h : t.Sound) {sizes : Finset Nat} (hsizes : t.sizes.toFinset ⊆ sizes) :
    (t.classes.map f).sum = ∑ size ∈ sizes, t.share f size := by
  have hmap : t.classes.map f = t.sizes.map (t.share f) := by
    apply h.map_classes
    intro size c hc
    rw [share, hc]
    rfl
  rw [hmap, ← List.sum_toFinset _ h.sizes_nodup]
  refine Finset.sum_subset hsizes ?_
  intro size _ hsize
  have hnone : t.classFor? size = none := by
    rw [Option.eq_none_iff_forall_ne_some]
    intro c hc
    exact hsize (List.mem_toFinset.mpr (h.mem_sizes_iff.mpr ⟨c, hc⟩))
  rw [share, hnone]
  rfl

/-- A step that changes the class for one size changes the total by the share of that class. -/
theorem sum_classes_update (h : t.Sound) (hT : T.Sound) {size : Nat} {c : SizeClass}
    (hafter : T.classFor? = Function.update t.classFor? size (some c)) :
    (T.classes.map f).sum + t.share f size = (t.classes.map f).sum + f c := by
  have hsize : size ∈ T.sizes.toFinset ∪ t.sizes.toFinset := by
    refine Finset.mem_union_left _ (List.mem_toFinset.mpr (hT.mem_sizes_iff.mpr ⟨c, ?_⟩))
    rw [hafter, Function.update_self]
  have hself : T.share f size = f c := by
    rw [share, hafter, Function.update_self]
    rfl
  have hother : ∀ other ∈ (T.sizes.toFinset ∪ t.sizes.toFinset).erase size,
      T.share f other = t.share f other := by
    intro other ho
    rw [share, hafter, Function.update_of_ne (Finset.ne_of_mem_erase ho)]
    rfl
  rw [hT.sum_classes f Finset.subset_union_left, h.sum_classes f Finset.subset_union_right,
    ← Finset.add_sum_erase _ _ hsize, ← Finset.add_sum_erase _ _ hsize, hself,
    Finset.sum_congr rfl hother]
  abel

/-- A step that changes no class changes no total. -/
theorem sum_classes_congr (h : t.Sound) (hT : T.Sound) (hafter : T.classFor? = t.classFor?) :
    (T.classes.map f).sum = (t.classes.map f).sum := by
  have hshare : T.share f = t.share f := by
    funext size
    rw [share, hafter]
    rfl
  have hsizes : t.sizes.toFinset ⊆ T.sizes.toFinset ∪ t.sizes.toFinset :=
    Finset.subset_union_right
  rw [hT.sum_classes f Finset.subset_union_left, h.sum_classes f hsizes, hshare]

end Totals

end Sound

end BlockPool.ClassTable
