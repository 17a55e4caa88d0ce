import Mathlib.Order.Lattice

/-!
# Lists of entries in the order of their keys

Where a key belongs in a sorted list, and what `List.lookup` gives after an entry was put
there or was changed.
-/

set_option autoImplicit false

namespace Libsysve.SortedEntries

universe u v

/-- A sorted list falls in the part below a key and the part from it on. -/
theorem exists_split {α : Type u} {K : Type v} [LinearOrder K] {key : α → K} {l : List α}
    (sorted : l.Pairwise fun x y => key x < key y) (k : K) :
    ∃ pre post, l = pre ++ post ∧ (∀ x ∈ pre, key x < k) ∧ ∀ x ∈ post, k ≤ key x := by
  induction l with
  | nil => exact ⟨[], [], rfl, by simp, by simp⟩
  | cons x l ih =>
    obtain ⟨first, rest⟩ := List.pairwise_cons.mp sorted
    rcases lt_or_ge (key x) k with below | above
    · obtain ⟨pre, post, rfl, low, high⟩ := ih rest
      exact ⟨x :: pre, post, rfl, List.forall_mem_cons.mpr ⟨below, low⟩, high⟩
    · refine ⟨[], x :: l, rfl, by simp, List.forall_mem_cons.mpr ⟨above, ?_⟩⟩
      exact fun y member => le_trans above (le_of_lt (first y member))

theorem sorted_middle {K : Type u} {V : Type v} [Preorder K] {pre post : List (K × V)} {k : K}
    {d : V} : (pre ++ (k, d) :: post).Pairwise (fun x y => x.1 < y.1) ↔
      (pre ++ post).Pairwise (fun x y => x.1 < y.1) ∧ (∀ x ∈ pre, x.1 < k) ∧
        ∀ x ∈ post, k < x.1 := by
  simp only [List.pairwise_append, List.pairwise_cons, List.mem_cons, forall_eq_or_imp]
  constructor
  · rintro ⟨front, ⟨above, back⟩, cross⟩
    exact ⟨⟨front, back, fun x member => (cross x member).2⟩, fun x member => (cross x member).1,
      above⟩
  · rintro ⟨⟨front, back, cross⟩, below, above⟩
    exact ⟨front, ⟨above, back⟩, fun x member => ⟨below x member, cross x member⟩⟩

section
variable {K : Type u} {V : Type v} [BEq K] [LawfulBEq K] {pre post : List (K × V)} {i k : K}

theorem lookup_none {l : List (K × V)} (other : ∀ x ∈ l, x.1 ≠ k) : l.lookup k = none := by
  refine List.lookup_eq_none_iff.mpr (fun x member => ?_)
  exact bne_iff_ne.mpr (other x member).symm

theorem lookup_middle [DecidableEq K] {d : V} (other : ∀ x ∈ pre, x.1 ≠ k) :
    (pre ++ (k, d) :: post).lookup i = if i = k then some d else (pre ++ post).lookup i := by
  rw [List.lookup_append, List.lookup_append, List.lookup_cons]
  by_cases here : i = k
  · subst here
    simp [lookup_none other]
  · have differs : (i == k) = false := beq_eq_false_iff_ne.mpr here
    rw [differs, if_neg here]

end

end Libsysve.SortedEntries
