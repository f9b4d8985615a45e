import Mathlib.Algebra.Order.BigOperators.Group.List
import Mathlib.Algebra.Order.Ring.Nat
/-!
# Tables with a primary key

A table is a list of rows in insertion order of which no two have the same
key; the type carries the uniqueness, so an operation that could break a
primary key cannot be written. `find` is a point read, `upsert` is
`INSERT .. ON CONFLICT DO UPDATE` (in place when the key exists),
`insertNew` is a plain `INSERT` (`none` on a primary-key conflict), `update`
is `UPDATE .. WHERE` with a key-preserving assignment, `keep` is the
restriction of a table to the rows satisfying a predicate, so `DELETE ..
WHERE p` is `keep (! p)`.

* `find_upsert`, `find_keep`, `find_update`: what each write does to a point
  read.
* `mem_upsert`, `mem_update`, `mem_keep`: the same for the rows.
* `total_upsert_old`, `total_upsert_new`, `total_keep_le`: sums of a column
  over the rows that satisfy a predicate.
* `keep_upsert`, `keep_comm`, `keep_keep_of`: a restriction by a predicate on
  the key commutes with the writes, which is what makes one tenant's part of
  a table independent of the others.
-/
namespace GlanceVault.Core

structure Table {ρ κ : Type} (key : ρ → κ) where
  rows : List ρ
  unique : (rows.map key).Nodup

namespace Table

variable {ρ κ : Type} {key : ρ → κ}

theorem ext' {t u : Table key} (h : t.rows = u.rows) : t = u := by
  cases t; cases u; cases h; rfl

instance [DecidableEq ρ] : DecidableEq (Table key) := fun t u =>
  if h : t.rows = u.rows then isTrue (ext' h) else isFalse (fun e => h (e ▸ rfl))

def empty : Table key := ⟨[], List.nodup_nil⟩

@[simp] theorem rows_empty : (empty : Table key).rows = [] := rfl

/-- The rows satisfying `p`, as a table. -/
def keep (t : Table key) (p : ρ → Bool) : Table key :=
  ⟨t.rows.filter p, (List.Sublist.map key List.filter_sublist).nodup t.unique⟩

/-- `UPDATE .. SET f WHERE p`; the assignment leaves the key alone. -/
def update (t : Table key) (p : ρ → Bool) (f : ρ → ρ) (hf : ∀ r, key (f r) = key r) : Table key :=
  ⟨t.rows.map fun r => if p r then f r else r, by
    have h : (t.rows.map fun r => if p r then f r else r).map key = t.rows.map key := by
      rw [List.map_map]
      apply List.map_congr_left
      intro r _
      simp only [Function.comp]
      split
      · exact hf r
      · rfl
    rw [h]; exact t.unique⟩

section Keyed
variable [DecidableEq κ]

def find (t : Table key) (k : κ) : Option ρ := t.rows.find? fun r => decide (key r = k)

def has (t : Table key) (k : κ) : Bool := (t.find k).isSome

/-- Sum of the column `f` over the rows satisfying `p`. -/
def total (t : Table key) (p : ρ → Bool) (f : ρ → Nat) : Nat := ((t.rows.filter p).map f).sum

/-- Number of rows satisfying `p`. -/
def count (t : Table key) (p : ρ → Bool) : Nat := (t.rows.filter p).length

theorem find_some {t : Table key} {k : κ} {r : ρ} : t.find k = some r ↔ r ∈ t.rows ∧ key r = k := by
  constructor
  · intro h
    exact ⟨List.mem_of_find?_eq_some h, by simpa using List.find?_some h⟩
  · rintro ⟨hm, rfl⟩
    obtain ⟨l, hu⟩ := t
    simp only [find] at hm ⊢
    induction l with
    | nil => cases hm
    | cons a l ih =>
      simp only [List.map_cons, List.nodup_cons, List.mem_map, not_exists, not_and] at hu
      rcases List.mem_cons.1 hm with rfl | hm
      · simp
      · have hne : key a ≠ key r := fun e => hu.1 r hm e.symm
        rw [List.find?_cons_of_neg (by simpa using hne)]
        exact ih hu.2 hm

theorem find_none {t : Table key} {k : κ} : t.find k = none ↔ ∀ r ∈ t.rows, key r ≠ k := by
  simp [find, List.find?_eq_none]

theorem has_iff {t : Table key} {k : κ} : t.has k = true ↔ ∃ r ∈ t.rows, key r = k := by
  unfold has
  cases h : t.find k with
  | none =>
    simp only [Option.isSome_none, Bool.false_eq_true, false_iff, not_exists, not_and]
    exact find_none.1 h
  | some r => simpa using ⟨r, find_some.1 h⟩

theorem eq_of_mem {t : Table key} {r s : ρ} (hr : r ∈ t.rows) (hs : s ∈ t.rows)
    (h : key r = key s) : r = s := by
  have h1 := find_some.2 ⟨hr, h⟩
  have h2 := find_some.2 ⟨hs, rfl⟩
  rw [h1] at h2; exact Option.some.inj h2

/-- Append a row whose key is new. -/
def append (t : Table key) (r : ρ) (h : t.has (key r) = false) : Table key :=
  ⟨t.rows ++ [r], by
    rw [List.map_append, List.nodup_append]
    refine ⟨t.unique, by simp, ?_⟩
    intro a ha b hb e
    simp only [List.map_cons, List.map_nil, List.mem_singleton] at hb
    obtain ⟨x, hx, rfl⟩ := List.mem_map.1 ha
    rw [has_iff.2 ⟨x, hx, e.trans hb⟩] at h
    cases h⟩

/-- `INSERT`; `none` is the primary-key conflict. -/
def insertNew (t : Table key) (r : ρ) : Option (Table key) :=
  if h : t.has (key r) = false then some (t.append r h) else none

/-- Put `r` in the place of the row with its key. -/
def replace (t : Table key) (r : ρ) : Table key :=
  ⟨t.rows.map fun x => if key x = key r then r else x, by
    have h : (t.rows.map fun x => if key x = key r then r else x).map key = t.rows.map key := by
      rw [List.map_map]
      apply List.map_congr_left
      intro x _
      simp only [Function.comp]
      split
      · rename_i e; exact e.symm
      · rfl
    rw [h]; exact t.unique⟩

/-- `INSERT .. ON CONFLICT DO UPDATE`. -/
def upsert (t : Table key) (r : ρ) : Table key :=
  if h : t.has (key r) = false then t.append r h else t.replace r

theorem rows_upsert (t : Table key) (r : ρ) : (t.upsert r).rows =
    if t.has (key r) then t.rows.map (fun x => if key x = key r then r else x)
    else t.rows ++ [r] := by
  unfold upsert
  split
  · rename_i h; rw [h]; rfl
  · rename_i h; rw [Bool.not_eq_false] at h; rw [h]; rfl

theorem insertNew_some {t u : Table key} {r : ρ} (h : t.insertNew r = some u) :
    t.has (key r) = false ∧ u = t.upsert r := by
  unfold insertNew at h
  split at h
  · rename_i hn
    cases h
    refine ⟨hn, ext' ?_⟩
    rw [rows_upsert, hn]; rfl
  · cases h

theorem insertNew_of_fresh {t : Table key} {r : ρ} (h : t.has (key r) = false) :
    t.insertNew r = some (t.upsert r) := by
  unfold insertNew
  rw [dif_pos h]
  congr 1
  apply ext'
  rw [rows_upsert, h]; rfl

/-! ## Membership -/

theorem mem_upsert {t : Table key} {r x : ρ} :
    x ∈ (t.upsert r).rows ↔ x = r ∨ (x ∈ t.rows ∧ key x ≠ key r) := by
  rw [rows_upsert]
  cases h : t.has (key r)
  · simp only [Bool.false_eq_true, if_false, List.mem_append, List.mem_singleton]
    constructor
    · rintro (hx | hx)
      · refine .inr ⟨hx, fun e => ?_⟩
        rw [has_iff.2 ⟨x, hx, e⟩] at h; cases h
      · exact .inl hx
    · rintro (hx | ⟨hx, -⟩)
      · exact .inr hx
      · exact .inl hx
  · simp only [if_true, List.mem_map]
    constructor
    · rintro ⟨y, hy, rfl⟩
      split
      · exact .inl rfl
      · rename_i hne; exact .inr ⟨hy, hne⟩
    · rintro (rfl | ⟨hx, hne⟩)
      · obtain ⟨y, hy, he⟩ := has_iff.1 h
        exact ⟨y, hy, by simp [he]⟩
      · exact ⟨x, hx, by simp [hne]⟩

omit [DecidableEq κ] in
theorem mem_keep {t : Table key} {p : ρ → Bool} {x : ρ} :
    x ∈ (t.keep p).rows ↔ x ∈ t.rows ∧ p x = true := by
  simp [keep, List.mem_filter]

omit [DecidableEq κ] in
theorem mem_update {t : Table key} {p : ρ → Bool} {f : ρ → ρ} {hf : ∀ r, key (f r) = key r}
    {x : ρ} :
    x ∈ (t.update p f hf).rows ↔ ∃ y ∈ t.rows, x = if p y then f y else y := by
  simp only [update, List.mem_map]
  exact ⟨fun ⟨y, h1, h2⟩ => ⟨y, h1, h2.symm⟩, fun ⟨y, h1, h2⟩ => ⟨y, h1, h2.symm⟩⟩

/-! ## Point reads -/

@[simp] theorem find_empty (k : κ) : (empty : Table key).find k = none := rfl

theorem find_upsert (t : Table key) (r : ρ) (k : κ) :
    (t.upsert r).find k = if key r = k then some r else t.find k := by
  split
  · rename_i h
    exact find_some.2 ⟨mem_upsert.2 (.inl rfl), h⟩
  · rename_i h
    cases hf : t.find k with
    | none =>
      rw [find_none] at hf ⊢
      intro x hx
      rcases mem_upsert.1 hx with rfl | ⟨hx, -⟩
      · exact h
      · exact hf x hx
    | some y =>
      rw [find_some] at hf ⊢
      exact ⟨mem_upsert.2 (.inr ⟨hf.1, fun e => h (e ▸ hf.2)⟩), hf.2⟩

@[simp] theorem find_upsert_self (t : Table key) (r : ρ) : (t.upsert r).find (key r) = some r := by
  rw [find_upsert, if_pos rfl]

theorem find_keep (t : Table key) (p : ρ → Bool) (k : κ) :
    (t.keep p).find k = (t.find k).filter p := by
  cases hf : t.find k with
  | none =>
    rw [find_none] at hf
    simp only [Option.filter_none]
    exact find_none.2 fun r hr => hf r (mem_keep.1 hr).1
  | some r =>
    rw [find_some] at hf
    simp only [Option.filter]
    split
    · rename_i hp; exact find_some.2 ⟨mem_keep.2 ⟨hf.1, hp⟩, hf.2⟩
    · rename_i hp
      refine find_none.2 fun x hx e => hp ?_
      have := mem_keep.1 hx
      rw [← eq_of_mem this.1 hf.1 (e.trans hf.2.symm)]; exact this.2

theorem find_update (t : Table key) (p : ρ → Bool) (f : ρ → ρ) (hf : ∀ r, key (f r) = key r)
    (k : κ) :
    (t.update p f hf).find k = (t.find k).map fun r => if p r then f r else r := by
  cases h : t.find k with
  | none =>
    rw [find_none] at h
    refine find_none.2 fun x hx => ?_
    obtain ⟨y, hy, rfl⟩ := mem_update.1 hx
    split
    · rw [hf]; exact h y hy
    · exact h y hy
  | some r =>
    rw [find_some] at h
    refine find_some.2 ⟨mem_update.2 ⟨r, h.1, rfl⟩, ?_⟩
    show key (if p r then f r else r) = k
    split
    · rw [hf]; exact h.2
    · exact h.2

theorem has_eq_false {t : Table key} {k : κ} : t.has k = false ↔ t.find k = none := by
  unfold has; cases t.find k <;> simp

theorem find_mem {t : Table key} {k : κ} {r : ρ} (h : t.find k = some r) : r ∈ t.rows :=
  (find_some.1 h).1

theorem find_key {t : Table key} {k : κ} {r : ρ} (h : t.find k = some r) : key r = k :=
  (find_some.1 h).2

/-! ## Sums over a column -/

private theorem sum_filter_map_replace (l : List ρ) (p : ρ → Bool) (f : ρ → Nat) (r old : ρ)
    (hu : (l.map key).Nodup) (ho : old ∈ l) (hk : key old = key r) :
    (((l.map fun x => if key x = key r then r else x).filter p).map f).sum +
    (if p old then f old else 0)
      = ((l.filter p).map f).sum + (if p r then f r else 0) := by
  induction l with
  | nil => cases ho
  | cons a l ih =>
    simp only [List.map_cons, List.nodup_cons, List.mem_map, not_exists, not_and] at hu
    rcases List.mem_cons.1 ho with rfl | ho
    · have hl : l.map (fun x => if key x = key r then r else x) = l := by
        conv => rhs; rw [← List.map_id l]
        apply List.map_congr_left
        intro x hx
        rw [if_neg (fun e => hu.1 x hx (e.trans hk.symm))]; rfl
      rw [List.map_cons, if_pos hk, hl]
      simp only [List.filter_cons]
      cases p old <;> cases p r <;> simp <;> omega
    · have hne : key a ≠ key r := fun e => hu.1 old ho (hk.trans e.symm)
      have ih := ih hu.2 ho
      rw [List.map_cons, if_neg hne]
      simp only [List.filter_cons]
      cases p a <;> simp <;> omega

/-- Replacing a row moves a sum by the difference of the two rows. -/
theorem total_upsert_old {t : Table key} {r old : ρ} (h : t.find (key r) = some old) (p : ρ → Bool)
    (f : ρ → Nat) : (t.upsert r).total p f + (if p old then f old else 0)
      = t.total p f + (if p r then f r else 0) := by
  obtain ⟨hm, hk⟩ := find_some.1 h
  unfold total
  rw [rows_upsert, if_pos (has_iff.2 ⟨old, hm, hk⟩)]
  exact sum_filter_map_replace t.rows p f r old t.unique hm hk

theorem total_upsert_new {t : Table key} {r : ρ} (h : t.find (key r) = none) (p : ρ → Bool)
    (f : ρ → Nat) : (t.upsert r).total p f = t.total p f + (if p r then f r else 0) := by
  unfold total
  rw [rows_upsert, has_eq_false.2 h]
  simp only [Bool.false_eq_true, if_false, List.filter_append, List.map_append, List.sum_append,
    List.filter_cons, List.filter_nil]
  cases p r <;> simp

omit [DecidableEq κ] in
theorem total_keep_le (t : Table key) (q p : ρ → Bool) (f : ρ → Nat) :
    (t.keep q).total p f ≤ t.total p f := by
  unfold total keep
  simp only [List.filter_filter]
  induction t.rows with
  | nil => simp
  | cons a l ih =>
    simp only [List.filter_cons]
    cases p a <;> cases q a <;>
      simp only [Bool.and_true, Bool.and_false, Bool.false_eq_true, if_true,
        if_false, List.map_cons,
        List.sum_cons] <;> omega

/-- Dropping the one row with a key takes its value off the sum. -/
theorem total_keep_key {t : Table key} {r : ρ} (h : r ∈ t.rows) (q p : ρ → Bool) (f : ρ → Nat)
    (hq : ∀ x, q x = decide (key x ≠ key r)) :
    (t.keep q).total p f + (if p r then f r else 0) = t.total p f := by
  obtain ⟨l, hu⟩ := t
  unfold total keep
  simp only at h ⊢
  induction l with
  | nil => cases h
  | cons a l ih =>
    simp only [List.map_cons, List.nodup_cons, List.mem_map, not_exists, not_and] at hu
    rcases List.mem_cons.1 h with rfl | h
    · have hl : l.filter q = l := List.filter_eq_self.2 fun x hx => by
        rw [hq]; simpa using hu.1 x hx
      rw [List.filter_cons, if_neg (by simp [hq]), hl, List.filter_cons]
      cases p r <;> simp only [Bool.false_eq_true, if_true, if_false, List.map_cons,
        List.sum_cons] <;> omega
    · have hne : key a ≠ key r := fun e => hu.1 r h e.symm
      have ih := ih hu.2 h
      rw [List.filter_cons, if_pos (by rw [hq]; simpa using hne)]
      simp only [List.filter_cons]
      cases p a <;> simp only [Bool.false_eq_true, if_true, if_false, List.map_cons,
        List.sum_cons] <;> omega

omit [DecidableEq κ] in
theorem le_total {t : Table key} {r : ρ} (h : r ∈ t.rows) {p : ρ → Bool} (hp : p r = true)
    (f : ρ → Nat) :
    f r ≤ t.total p f := by
  have hm : f r ∈ (t.rows.filter p).map f := List.mem_map_of_mem (List.mem_filter.2 ⟨h, hp⟩)
  exact List.le_sum_of_mem hm

omit [DecidableEq κ] in
/-- A table with fewer rows has a smaller sum. -/
theorem total_sublist {t u : Table key} (h : u.rows.Sublist t.rows) (p : ρ → Bool) (f : ρ → Nat) :
    u.total p f ≤ t.total p f :=
  ((h.filter p).map f).sum_le_sum fun _ _ => Nat.zero_le _

omit [DecidableEq κ] in
theorem count_eq_total (t : Table key) (p : ρ → Bool) : t.count p = t.total p fun _ => 1 := by
  unfold count total
  induction t.rows.filter p with
  | nil => rfl
  | cons a l ih => simp only [List.length_cons, List.map_cons, List.sum_cons, ← ih]; omega

end Keyed

/-! ## Restrictions -/

@[simp] theorem keep_empty (p : ρ → Bool) : (empty : Table key).keep p = empty := rfl

theorem keep_comm (t : Table key) (p q : ρ → Bool) : (t.keep p).keep q = (t.keep q).keep p := by
  apply ext'
  simp only [keep, List.filter_filter]
  congr 1; funext r; exact Bool.and_comm _ _

theorem keep_eq_self {t : Table key} {p : ρ → Bool} (h : ∀ r ∈ t.rows, p r = true) : t.keep p = t :=
  ext' (List.filter_eq_self.2 h)

/-- Dropping rows outside a restriction is invisible inside it. -/
theorem keep_keep_of {t : Table key} {p q : ρ → Bool} (h : ∀ r ∈ t.rows, p r = true → q r = true) :
    (t.keep q).keep p = t.keep p := by
  apply ext'
  simp only [keep, List.filter_filter]
  apply List.filter_congr
  intro r hr
  cases hp : p r
  · rfl
  · rw [h r hr hp]; rfl

section KeyedRestrict
variable [DecidableEq κ]

/-- A restriction that cannot tell the row `r` from the one it replaces sees
an `upsert` exactly when it has `r`. -/
theorem keep_upsert (t : Table key) (p : ρ → Bool) (r : ρ)
    (hp : ∀ x ∈ t.rows, key x = key r → p x = p r) :
    (t.upsert r).keep p = if p r then (t.keep p).upsert r else t.keep p := by
  apply ext'
  have hhas : p r = true → (t.keep p).has (key r) = t.has (key r) := by
    intro h
    unfold has
    rw [find_keep]
    cases hf : t.find (key r) with
    | none => rfl
    | some y =>
      have hy := find_some.1 hf
      simp [Option.filter, hp y hy.1 hy.2, h]
  have hmap : ∀ l : List ρ, (∀ x ∈ l, key x = key r → p x = p r) →
      (l.map fun x => if key x = key r then r else x).filter p
        = (l.filter p).map fun x => if key x = key r then r else x := by
    intro l hl
    induction l with
    | nil => rfl
    | cons a l ih =>
      have ih := ih fun x hx => hl x (List.mem_cons_of_mem _ hx)
      have h1 : p (if key a = key r then r else a) = p a := by
        split
        · rename_i e; exact (hl a List.mem_cons_self e).symm
        · rfl
      simp only [List.map_cons, List.filter_cons, h1]
      cases p a
      · simpa using ih
      · simp [ih]
  cases h : p r
  · simp only [Bool.false_eq_true, if_false]
    show (t.upsert r).rows.filter p = t.rows.filter p
    rw [rows_upsert]
    split
    · rw [hmap _ hp]
      conv => rhs; rw [← List.map_id (t.rows.filter p)]
      apply List.map_congr_left
      intro x hx
      rw [if_neg]; · rfl
      intro e
      have hx := List.mem_filter.1 hx
      rw [hp x hx.1 e, h] at hx; cases hx.2
    · simp [List.filter_append, h]
  · simp only [if_true]
    rw [rows_upsert, hhas h]
    show (t.upsert r).rows.filter p = _
    rw [rows_upsert]
    split
    · exact hmap t.rows hp
    · simp [List.filter_append, h, keep]

/-- A point read inside a restriction. -/
theorem find_keep_of {t : Table key} {p : ρ → Bool} {k : κ}
    (hp : ∀ r ∈ t.rows, key r = k → p r = true) :
    (t.keep p).find k = t.find k := by
  rw [find_keep]
  cases hf : t.find k with
  | none => rfl
  | some r =>
    have := find_some.1 hf
    simp [Option.filter, hp r this.1 this.2]

omit [DecidableEq κ] in
theorem total_keep_of {t : Table key} {p q : ρ → Bool} {f : ρ → Nat}
    (h : ∀ r ∈ t.rows, p r = true → q r = true) : (t.keep q).total p f = t.total p f := by
  unfold total
  congr 2
  exact congrArg Table.rows (keep_keep_of h)

end KeyedRestrict

end Table
end GlanceVault.Core
