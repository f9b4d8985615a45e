import GlanceVault.Core.Table
import Mathlib.Data.List.Dedup
import Mathlib.Data.List.Sort
/-!
# Sums by groups

A column added up group by group is the sum over all rows, when every row is in
the group of exactly one of the names.

* `distinct`: the names, each once, in order.
* `sum_groups`, `Table.total_groups`: the groups partition the rows.
* `sum_named_le`: values named by rows are at most the rows'.
* `Table.rows_foldl_upsert`: rows with new and different keys are appended.
-/
namespace GlanceVault.Core

section Names
variable {κ : Type} [DecidableEq κ] (le : κ → κ → Prop) [DecidableRel le]

/-- `SELECT DISTINCT .. ORDER BY ..` -/
def distinct (names : List κ) : List κ := names.dedup.insertionSort le

theorem nodup_distinct (names : List κ) : (distinct le names).Nodup :=
  (List.perm_insertionSort le _).nodup_iff.2 names.nodup_dedup

@[simp] theorem mem_distinct {names : List κ} {a : κ} : a ∈ distinct le names ↔ a ∈ names := by
  unfold distinct
  rw [(List.perm_insertionSort le _).mem_iff, List.mem_dedup]

end Names

section Groups
variable {ρ κ : Type} [DecidableEq κ]

theorem sum_single {a : κ} (n : Nat) : ∀ {names : List κ}, names.Nodup → a ∈ names →
    (names.map fun b => if b = a then n else 0).sum = n
  | [], _, ha => (List.not_mem_nil ha).elim
  | b :: names, hn, ha => by
    rw [List.nodup_cons] at hn
    rw [List.map_cons, List.sum_cons]
    by_cases hb : b = a
    · have hrest : (names.map fun c => if c = a then n else 0).sum = 0 := by
        refine List.sum_eq_zero fun x hx => ?_
        obtain ⟨c, hc, rfl⟩ := List.mem_map.1 hx
        exact if_neg fun e => hn.1 (by rwa [hb, ← e])
      rw [if_pos hb, hrest, Nat.add_zero]
    · rw [if_neg hb, Nat.zero_add]
      exact sum_single n hn.2 ((List.mem_cons.1 ha).resolve_left (Ne.symm hb))

theorem sum_toNat {α : Type} (p : α → Bool) (l : List α) :
    (l.map fun r => (p r).toNat).sum = (l.filter p).length := by
  induction l with
  | nil => rfl
  | cons r l ih =>
    rw [List.map_cons, List.sum_cons, ih, List.filter_cons]
    cases p r
    · exact Nat.zero_add _
    · exact Nat.add_comm _ _

/-- **The groups partition the rows.** -/
theorem sum_groups {names : List κ} (hn : names.Nodup) {p : κ → ρ → Bool} (f : ρ → Nat) :
    ∀ {rows : List ρ},
    (∀ r ∈ rows, ∃ a ∈ names, ∀ b, p b r = decide (b = a)) →
      (names.map fun a => ((rows.filter (p a)).map f).sum).sum = (rows.map f).sum
  | [], _ => by simp
  | r :: rows, h => by
    obtain ⟨a, ha, hp⟩ := h r List.mem_cons_self
    have hsplit : ∀ b, (((r :: rows).filter (p b)).map f).sum =
        (if b = a then f r else 0) + ((rows.filter (p b)).map f).sum := by
      intro b
      by_cases hb : b = a
      · rw [List.filter_cons_of_pos (by rw [hp, decide_eq_true hb]), if_pos hb,
          List.map_cons, List.sum_cons]
      · rw [List.filter_cons_of_neg (by rw [hp, decide_eq_false hb]; exact Bool.false_ne_true),
          if_neg hb, Nat.zero_add]
    rw [List.map_congr_left fun b _ => hsplit b, List.sum_map_add, sum_single (f r) hn ha,
      sum_groups hn f fun x hx => h x (List.mem_cons_of_mem _ hx), List.map_cons, List.sum_cons]

/-- Values of which each is named by a row and is at most the row's. -/
theorem sum_named_le {ι : Type} [DecidableEq ι] {f : ι → Nat} {g : ρ → Nat} {name : ρ → ι} :
    ∀ (rs : List ρ) {ps : List ι}, ps.Nodup → (∀ p ∈ ps, f p ≠ 0 → ∃ r ∈ rs, name r = p) →
    (∀ r ∈ rs, name r ∈ ps → f (name r) ≤ g r) → (ps.map f).sum ≤ (rs.map g).sum
  | [], ps, _, hall, _ => by
    have hzero : (ps.map f).sum = 0 := by
      refine List.sum_eq_zero fun x hx => ?_
      obtain ⟨p, hp, rfl⟩ := List.mem_map.1 hx
      by_contra hne
      obtain ⟨r, hr, -⟩ := hall p hp hne
      cases hr
    omega
  | r :: rs, ps, hn, hall, hle => by
    have ih : ((ps.erase (name r)).map f).sum ≤ (rs.map g).sum := by
      refine sum_named_le rs (hn.erase _) (fun p hp hne => ?_) fun x hx hp =>
        hle x (List.mem_cons_of_mem _ hx) (List.mem_of_mem_erase hp)
      obtain ⟨hne', hp⟩ := hn.mem_erase_iff.1 hp
      obtain ⟨x, hx, rfl⟩ := hall p hp hne
      rcases List.mem_cons.1 hx with rfl | hx
      · exact absurd rfl hne'
      · exact ⟨x, hx, rfl⟩
    rw [List.map_cons, List.sum_cons]
    by_cases hr : name r ∈ ps
    · have hsum := List.sum_map_erase f hr
      have := hle r List.mem_cons_self hr
      omega
    · rw [List.erase_of_not_mem hr] at ih
      omega

namespace Table

variable {ν : Type} {key : ρ → ν} {t : Table key} {names : List κ} {p : κ → ρ → Bool}

theorem total_groups (hn : names.Nodup)
    (h : ∀ r ∈ t.rows, ∃ a ∈ names, ∀ b, p b r = decide (b = a)) (f : ρ → Nat) :
    (names.map fun a => t.total (p a) f).sum = (t.rows.map f).sum := sum_groups hn f h

theorem count_groups (hn : names.Nodup)
    (h : ∀ r ∈ t.rows, ∃ a ∈ names, ∀ b, p b r = decide (b = a)) :
    (names.map fun a => t.count (p a)).sum = t.rows.length := by
  simp only [Table.count_eq_total]
  rw [total_groups hn h]
  simp

omit [DecidableEq κ] in
theorem total_ite (t : Table key) (p q : ρ → Bool) (f : ρ → Nat) :
    t.total p (fun r => if q r then f r else 0) = t.total (fun r => p r && q r) f := by
  unfold total
  induction t.rows with
  | nil => rfl
  | cons r rows ih =>
    rw [List.filter_cons, List.filter_cons]
    cases p r
    · exact ih
    · cases hq : q r
      · simpa [hq] using ih
      · simpa [hq] using ih

theorem filter_key [DecidableEq ν] (t : Table key) (k : ν) :
    (t.rows.filter fun r => decide (key r = k)) = (t.find k).toList := by
  obtain ⟨rows, hn⟩ := t
  induction rows with
  | nil => rfl
  | cons r rows ih =>
    rw [List.map_cons, List.nodup_cons] at hn
    by_cases hr : key r = k
    · have hrest : (rows.filter fun x => decide (key x = k)) = [] := by
        refine List.filter_eq_nil_iff.2 fun x hx hk => hn.1 ?_
        rw [hr, ← of_decide_eq_true hk]
        exact List.mem_map_of_mem hx
      rw [List.filter_cons_of_pos (by simpa using hr), hrest]
      unfold find
      rw [List.find?_cons_of_pos (by simpa using hr)]
      rfl
    · rw [List.filter_cons_of_neg (by simpa using hr), ih hn.2]
      unfold find
      rw [List.find?_cons_of_neg (by simpa using hr)]

theorem rows_foldl_upsert [DecidableEq ν] : ∀ (rs : List ρ) (t : Table key), (rs.map key).Nodup →
    (∀ r ∈ rs, t.find (key r) = none) → (rs.foldl upsert t).rows = t.rows ++ rs
  | [], t, _, _ => (List.append_nil _).symm
  | r :: rs, t, hn, hnew => by
    rw [List.map_cons, List.nodup_cons] at hn
    have hr := has_eq_false.2 (hnew r List.mem_cons_self)
    have hrest : ∀ x ∈ rs, (t.upsert r).find (key x) = none := by
      intro x hx
      rw [find_upsert, if_neg fun e => hn.1 (by rw [e]; exact List.mem_map_of_mem hx)]
      exact hnew x (List.mem_cons_of_mem _ hx)
    rw [List.foldl_cons, rows_foldl_upsert rs _ hn.2 hrest, rows_upsert, hr,
      if_neg Bool.false_ne_true,
      List.append_assoc, List.singleton_append]

end Table

end Groups

end GlanceVault.Core
