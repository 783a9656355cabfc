import Mathlib.Data.Finset.Sort

/-!
# Latest: the end of a set

`latest n S` is what `ORDER BY .. DESC LIMIT n` selects of a set of keys, put in
ascending order again.
-/

namespace HashModel

variable {α : Type} [LinearOrder α]

/-- The `n` greatest elements, ascending. -/
def latest (n : ℕ) (S : Finset α) : List α := ((S.sort (· ≥ ·)).take n).reverse

variable {n : ℕ} {S : Finset α}

theorem latest_sorted (n : ℕ) (S : Finset α) : (latest n S).Pairwise (· < ·) := by
  rw [latest, List.pairwise_reverse]
  exact (List.sortedGT_iff_pairwise.mp S.sortedGT_sort).sublist (List.take_sublist n _)

theorem latest_length (n : ℕ) (S : Finset α) : (latest n S).length ≤ n := by
  rw [latest, List.length_reverse, List.length_take]
  exact min_le_left _ _

theorem mem_of_latest {x : α} (h : x ∈ latest n S) : x ∈ S := by
  rw [latest, List.mem_reverse] at h
  exact (Finset.mem_sort _).mp (List.mem_of_mem_take h)

/-- **What is left out** is before all that is not, and there are `n` of these. -/
theorem latest_or {x : α} (h : x ∈ S) :
    x ∈ latest n S ∨ (latest n S).length = n ∧ ∀ y ∈ latest n S, x < y := by
  have hsorted := List.sortedGT_iff_pairwise.mp S.sortedGT_sort
  have hx : x ∈ S.sort (· ≥ ·) := (Finset.mem_sort _).mpr h
  rw [← List.take_append_drop n (S.sort (· ≥ ·))] at hsorted hx
  rcases List.mem_append.mp hx with hin | hout
  · exact .inl (List.mem_reverse.mpr hin)
  · have hpos := List.length_pos_of_mem hout
    rw [List.length_drop] at hpos
    refine .inr ⟨?_, fun y hy => ?_⟩
    · rw [latest, List.length_reverse, List.length_take]
      omega
    · exact (List.pairwise_append.mp hsorted).2.2 y (List.mem_reverse.mp hy) x hout

end HashModel
