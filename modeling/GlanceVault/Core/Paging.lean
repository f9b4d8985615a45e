import Mathlib.Data.List.Sort
/-!
# Pages over a sequence

A page is `SELECT .. WHERE seq > since ORDER BY seq LIMIT limit + 1`: the row
past the limit is not returned, it only tells that there is more.

* `page_mem`: a returned row is a row after the cursor.
* `page_complete`: without more to come, every row after the cursor is
  returned.
* `page_below`: a row after the cursor and at or below a returned one is
  returned.
* `page_sorted`: the page is in ascending order, so the last row of a page is
  its highest.
* `page_ne_nil`: when there is more, a page with room for a row has one.
* `page_last`: without more to come, every row is at or below the last one.
-/
namespace GlanceVault.Core

section Page
variable {ρ : Type} (seq : ρ → Nat)

/-- The rows after the cursor, in order. -/
def after (rows : List ρ) (since : Nat) : List ρ :=
  (rows.filter fun r => since < seq r).insertionSort fun x y => seq x ≤ seq y

structure Page (ρ : Type) where
  rows : List ρ
  hasMore : Bool

def page (rows : List ρ) (since limit : Nat) : Page ρ :=
  let hit := (after seq rows since).take (limit + 1)
  if limit < hit.length then ⟨hit.take limit, true⟩ else ⟨hit, false⟩

variable {seq} {rows : List ρ} {since limit : Nat}

theorem mem_after {r : ρ} : r ∈ after seq rows since ↔ r ∈ rows ∧ since < seq r := by
  unfold after
  rw [List.mem_insertionSort, List.mem_filter]
  simp

theorem after_sorted (seq : ρ → Nat) (rows : List ρ) (since : Nat) :
    (after seq rows since).Pairwise fun x y => seq x ≤ seq y :=
  haveI : Std.Total (fun x y : ρ => seq x ≤ seq y) := ⟨fun _ _ => Nat.le_total _ _⟩
  haveI : IsTrans ρ fun x y => seq x ≤ seq y := ⟨fun _ _ _ => Nat.le_trans⟩
  List.pairwise_insertionSort _ _

theorem page_rows (seq : ρ → Nat) (rows : List ρ) (since limit : Nat) :
    (page seq rows since limit).rows = (after seq rows since).take limit ∨
    ((page seq rows since limit).rows = after seq rows since ∧
      (page seq rows since limit).hasMore = false) := by
  unfold page
  dsimp only
  split
  · left
    rw [List.take_take, Nat.min_eq_left (Nat.le_succ _)]
  · rename_i h
    right
    rw [List.length_take] at h
    exact ⟨List.take_of_length_le (by omega), rfl⟩

theorem page_initial (seq : ρ → Nat) (rows : List ρ) (since limit : Nat) :
    (page seq rows since limit).rows <+: after seq rows since := by
  rcases page_rows seq rows since limit with h | ⟨h, -⟩
  · simpa only [h] using List.take_prefix _ _
  · simpa only [h] using List.prefix_rfl

theorem page_mem {r : ρ} (h : r ∈ (page seq rows since limit).rows) : r ∈ rows ∧ since < seq r :=
  mem_after.1 ((page_initial seq rows since limit).subset h)

theorem page_complete (h : (page seq rows since limit).hasMore = false) {r : ρ} (hr : r ∈ rows)
    (hs : since < seq r) : r ∈ (page seq rows since limit).rows := by
  have hm := mem_after.2 ⟨hr, hs⟩
  unfold page at h ⊢
  dsimp only at h ⊢
  split at h
  · cases h
  · rename_i hl
    rw [if_neg hl]
    rw [List.length_take] at hl
    rw [List.take_of_length_le (by omega)]
    exact hm

theorem page_sorted (seq : ρ → Nat) (rows : List ρ) (since limit : Nat) :
    (page seq rows since limit).rows.Pairwise fun x y => seq x ≤ seq y :=
  (after_sorted seq rows since).sublist (page_initial seq rows since limit).sublist

theorem page_below {r s : ρ} (hr : r ∈ (page seq rows since limit).rows) (hs : s ∈ rows)
    (h1 : since < seq s) (h2 : seq s < seq r) : s ∈ (page seq rows since limit).rows := by
  obtain ⟨rest, e⟩ := page_initial seq rows since limit
  have hm : s ∈ after seq rows since := mem_after.2 ⟨hs, h1⟩
  have hsort := after_sorted seq rows since
  rw [← e] at hm hsort
  rcases List.mem_append.1 hm with h | h
  · exact h
  · have := (List.pairwise_append.1 hsort).2.2 r hr s h
    omega

theorem page_ne_nil (h : (page seq rows since limit).hasMore = true) (hl : 1 ≤ limit) :
    (page seq rows since limit).rows ≠ [] := by
  unfold page at h ⊢
  dsimp only at h ⊢
  split at h
  · rename_i hlen
    rw [if_pos hlen]
    intro e
    have := congrArg List.length e
    rw [List.length_take] at this
    simp only [List.length_nil] at this
    omega
  · cases h

/-- Without more to come, no row is left above the last one of the page. -/
theorem page_last (h : (page seq rows since limit).hasMore = false) {r : ρ} (hr : r ∈ rows) :
    seq r ≤ (page seq rows since limit).rows.getLast?.elim since seq := by
  have hsort := page_sorted seq rows since limit
  cases hl : (page seq rows since limit).rows.getLast? with
  | none =>
    by_contra hlt
    have hin := page_complete h hr (show since < seq r by simpa using hlt)
    rw [List.getLast?_eq_none_iff.1 hl] at hin
    cases hin
  | some y =>
    obtain ⟨l, hl⟩ := List.getLast?_eq_some_iff.1 hl
    have hy : since < seq y :=
      (page_mem (show y ∈ (page seq rows since limit).rows by rw [hl]; simp)).2
    by_cases hs : since < seq r
    · have hin := page_complete h hr hs
      rw [hl] at hin hsort
      rcases List.mem_append.1 hin with hin | hin
      · exact (List.pairwise_append.1 hsort).2.2 r hin y List.mem_cons_self
      · rw [List.mem_singleton.1 hin]
        exact Nat.le_refl _
    · show seq r ≤ seq y
      omega

/-- Nothing is listed after a cursor no row lies above. -/
theorem page_nil (h : ∀ r ∈ rows, seq r ≤ since) : (page seq rows since limit).rows = [] := by
  rw [List.eq_nil_iff_forall_not_mem]
  intro r hr
  obtain ⟨hm, hs⟩ := page_mem hr
  have := h r hm
  omega

end Page

end GlanceVault.Core
