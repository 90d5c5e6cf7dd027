import Mathlib.Data.List.Basic

/-!
# Searches in a stably sorted list

A stable sort keeps the order of the elements that are equal for it, so that a
search for one kind of them gives the same in the list and in the sorted list;
and the first element that a search finds in the sorted list is a least one.
-/

namespace MirrorMirage.StableSort

variable {A : Type*} {le : A → A → Bool} {values : List A}
variable {good : A → Bool} {value other : A}

section Order

variable (htrans : ∀ a b c, le a b → le b c → le a c)
variable (htotal : ∀ a b, le a b || le b a)
include htrans htotal

/-- Elements that are equal for the sort keep their order. -/
theorem filter_mergeSort (hequal : ∀ a b, good a → good b → le a b) :
    (values.mergeSort le).filter good = values.filter good := by
  have hsorted : (values.filter good).Pairwise fun a b => le a b := by
    apply List.Pairwise.imp_of_mem _ (List.pairwise_of_forall fun _ _ => trivial)
    intro a b ha hb _
    exact hequal a b (List.mem_filter.mp ha).2 (List.mem_filter.mp hb).2
  have hsublist : (values.filter good).Sublist
      ((values.mergeSort le).filter good) := by
    have h := (List.sublist_mergeSort htrans htotal hsorted
      List.filter_sublist).filter good
    simpa only [List.filter_filter, Bool.and_self] using h
  apply (hsublist.eq_of_length _).symm
  exact ((List.mergeSort_perm values le).filter good).length_eq.symm

theorem find?_mergeSort (hequal : ∀ a b, good a → good b → le a b) :
    (values.mergeSort le).find? good = values.find? good := by
  rw [← List.head?_filter, filter_mergeSort htrans htotal hequal,
    List.head?_filter]

theorem le_of_find?_mergeSort
    (hfind : (values.mergeSort le).find? good = some value)
    (hmem : other ∈ values) (hgood : good other) : le value other := by
  obtain ⟨-, before, later, hsplit, hbefore⟩ :=
    List.find?_eq_some_iff_append.mp hfind
  have hsorted := List.pairwise_mergeSort htrans htotal values
  have hother : other ∈ values.mergeSort le := List.mem_mergeSort.mpr hmem
  rw [hsplit] at hsorted hother
  rcases List.mem_append.mp hother with hother | hother
  · have hnot := hbefore other hother
    simp [hgood] at hnot
  · rcases List.mem_cons.mp hother with rfl | hother
    · simpa using htotal other other
    · exact (List.pairwise_cons.mp (List.pairwise_append.mp hsorted).2.1).1 _
        hother

end Order

/-- The first good element is the first of any narrower kind that it is of. -/
theorem find?_of_imp (narrow : A → Bool)
    (hfind : values.find? good = some value) (hnarrow : narrow value)
    (himp : ∀ a, narrow a → good a) : values.find? narrow = some value := by
  obtain ⟨-, before, later, hsplit, hbefore⟩ :=
    List.find?_eq_some_iff_append.mp hfind
  refine List.find?_eq_some_iff_append.mpr
    ⟨hnarrow, before, later, hsplit, fun a ha => ?_⟩
  have hnot := hbefore a ha
  rw [Bool.not_eq_true'] at hnot ⊢
  apply Bool.eq_false_iff.mpr
  intro hnarrow
  simp [himp a hnarrow] at hnot

end MirrorMirage.StableSort
