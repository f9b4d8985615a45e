import Mathlib.Algebra.Ring.Nat
import Mathlib.Data.List.Basic
import Mathlib.Data.Finset.Card
import Mathlib.Algebra.BigOperators.Group.Finset.Piecewise
/-!
# Counting a set in slices

A set of ids too long for one statement is probed in slices of `n`, and the
counts of the slices are added. An element that occurs in several slices is
counted once for each of them, so the sum is the size of the set plus, for
every element, the number of further slices it occurs in (`count_slices`).
-/
namespace GlanceVault.Core

section Slices
variable {α : Type}

/-- The consecutive slices of `n` elements. -/
def slices (n : Nat) (xs : List α) : List (List α) :=
  (List.range ((xs.length + n - 1) / n)).map fun k => (xs.drop (n * k)).take n

/-- Every element is in one of the slices. -/
theorem exists_slice {n : Nat} (hn : 0 < n) {xs : List α} {x : α} (h : x ∈ xs) :
    ∃ s ∈ slices n xs, x ∈ s := by
  obtain ⟨i, hi, rfl⟩ := List.getElem_of_mem h
  have hk : i / n < (xs.length + n - 1) / n := by
    rw [Nat.lt_iff_add_one_le, Nat.le_div_iff_mul_le hn]
    have := Nat.div_mul_le_self i n
    rw [Nat.add_mul]; omega
  have hmod := Nat.mod_lt i hn
  have hdm := Nat.div_add_mod i n
  refine ⟨_, List.mem_map.2 ⟨i / n, List.mem_range.2 hk, rfl⟩, ?_⟩
  refine List.mem_iff_getElem.2 ⟨i % n, ?_, ?_⟩
  · rw [List.length_take, List.length_drop]; omega
  · rw [List.getElem_take, List.getElem_drop]
    congr 1

theorem mem_of_slice {n : Nat} {xs s : List α} (hs : s ∈ slices n xs) {x : α} (h : x ∈ s) :
    x ∈ xs := by
  obtain ⟨k, -, rfl⟩ := List.mem_map.1 hs
  exact List.mem_of_mem_drop (List.mem_of_mem_take h)

variable [DecidableEq α]

/-- The number of slices an element occurs in. -/
def sliceCount (n : Nat) (xs : List α) (x : α) : Nat := ((slices n xs).filter fun s => x ∈ s).length

theorem sliceCount_pos {n : Nat} (hn : 0 < n) {xs : List α} {x : α} (h : x ∈ xs) :
    1 ≤ sliceCount n xs x := by
  obtain ⟨s, hs, hx⟩ := exists_slice hn h
  exact List.length_pos_of_mem (List.mem_filter.2 ⟨hs, by simpa using hx⟩)

/-- Exchange of the two sums: over the slices, or over the elements. -/
theorem sum_filter_swap (ls : List (List α)) (A : Finset α) :
    (ls.map fun s => (A.filter fun x => x ∈ s).card).sum =
      ∑ x ∈ A, (ls.filter fun s => decide (x ∈ s)).length := by
  induction ls with
  | nil => simp
  | cons s ls ih =>
    rw [List.map_cons, List.sum_cons, ih, Finset.card_filter, ← Finset.sum_add_distrib]
    apply Finset.sum_congr rfl
    intro x _
    rw [List.filter_cons]
    by_cases h : x ∈ s
    · simp [h]; omega
    · simp [h]

/-- How often the elements of `A` in the list are counted again. -/
def recount (n : Nat) (xs : List α) (A : Finset α) : Nat :=
  ∑ x ∈ A.filter fun x => x ∈ xs, (sliceCount n xs x - 1)

/-- **The sum of the slices.** -/
theorem count_slices {n : Nat} (hn : 0 < n) (xs : List α) (A : Finset α) :
    ((slices n xs).map fun s => (A.filter fun x => x ∈ s).card).sum =
      (A.filter fun x => x ∈ xs).card + recount n xs A := by
  rw [sum_filter_swap, recount, Finset.card_eq_sum_ones, ← Finset.sum_add_distrib,
    ← Finset.sum_filter_add_sum_filter_not A fun x => x ∈ xs]
  have h0 :
      (∑ x ∈ A.filter fun x => ¬ x ∈ xs, ((slices n xs).filter fun s => decide (x ∈ s)).length) =
        0 := by
    apply Finset.sum_eq_zero
    intro x hx
    rw [List.length_eq_zero_iff, List.filter_eq_nil_iff]
    intro s hs hxs
    exact (Finset.mem_filter.1 hx).2 (mem_of_slice hs (of_decide_eq_true hxs))
  rw [h0, Nat.add_zero]
  apply Finset.sum_congr rfl
  intro x hx
  have := sliceCount_pos hn (Finset.mem_filter.1 hx).2
  unfold sliceCount at this ⊢
  omega

/-- Within one slice nothing is counted again. -/
theorem recount_short {n : Nat} (hn : 0 < n) {xs : List α} (h : xs.length ≤ n) (A : Finset α) :
    recount n xs A = 0 := by
  apply Finset.sum_eq_zero
  intro x _
  have hlen : (slices n xs).length ≤ 1 := by
    unfold slices
    rw [List.length_map, List.length_range]
    have : (xs.length + n - 1) / n ≤ (n + n - 1) / n := Nat.div_le_div_right (by omega)
    have : (n + n - 1) / n ≤ 1 := by
      rw [Nat.div_le_iff_le_mul_add_pred hn]; omega
    omega
  have : sliceCount n xs x ≤ (slices n xs).length := List.length_filter_le _ _
  omega

end Slices
end GlanceVault.Core
