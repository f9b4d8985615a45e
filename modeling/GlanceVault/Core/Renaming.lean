import GlanceVault.Core.Paging
import GlanceVault.Core.Prog
import GlanceVault.Core.Table
import GlanceVault.Core.Tx
/-!
# Renamings

A renaming `f` of a state changes some of the data in it and no more. A program
`m'` is `m` with its data renamed when it runs on the renamed states just as `m`
runs on the original ones: its result is that of `m` with the data in it
renamed, and so is every state it leaves behind, at its end or when it is
stopped on the way. A program that does not look at the data is its own
renaming.

* `Table.relabel`: the rows of a table renamed, their keys kept. The point reads
  and the writes commute with it (`find_relabel`, `upsert_relabel`, ..).
* `page_relabel`: so do the pages.
* `Tx.Renames`, `Prog.Renames`: transactions and programs with their data
  renamed, composed by `bind`; `Prog.Renames.stopAfter` is the renaming of a stop.
-/
namespace GlanceVault.Core

/-! ## Tables -/

namespace Table
variable {ρ κ : Type} {key : ρ → κ} {f : ρ → ρ}

/-- Every row renamed, its key kept. -/
def relabel (t : Table key) (f : ρ → ρ) (hf : ∀ r, key (f r) = key r) : Table key :=
  ⟨t.rows.map f, by
    have h : (t.rows.map f).map key = t.rows.map key := by
      rw [List.map_map]
      exact List.map_congr_left fun r _ => hf r
    rw [h]
    exact t.unique⟩

variable (t : Table key) (hf : ∀ r, key (f r) = key r)

theorem keep_relabel {p : ρ → Bool} (hp : ∀ r, p (f r) = p r) :
    (t.relabel f hf).keep p = (t.keep p).relabel f hf := by
  refine ext' ?_
  show (t.rows.map f).filter p = (t.rows.filter p).map f
  rw [List.filter_map]
  congr 2
  exact funext hp

theorem update_relabel {p : ρ → Bool} {g : ρ → ρ} (hg : ∀ r, key (g r) = key r)
    (hp : ∀ r, p (f r) = p r)
    (hc : ∀ r, g (f r) = f (g r)) :
    (t.relabel f hf).update p g hg = (t.update p g hg).relabel f hf := by
  refine ext' ?_
  show (t.rows.map f).map _ = (t.rows.map _).map f
  rw [List.map_map, List.map_map]
  refine List.map_congr_left fun r _ => ?_
  simp only [Function.comp, hp, hc]
  split <;> rfl

theorem count_relabel {p : ρ → Bool} (hp : ∀ r, p (f r) = p r) :
    (t.relabel f hf).count p = t.count p := by
  show ((t.relabel f hf).keep p).rows.length = (t.keep p).rows.length
  rw [keep_relabel t hf hp]
  exact List.length_map f

theorem total_relabel {p : ρ → Bool} {g : ρ → Nat} (hp : ∀ r, p (f r) = p r)
    (hg : ∀ r, g (f r) = g r) :
    (t.relabel f hf).total p g = t.total p g := by
  show ((((t.relabel f hf).keep p).rows).map g).sum = ((t.keep p).rows.map g).sum
  rw [keep_relabel t hf hp]
  show (((t.keep p).rows.map f).map g).sum = _
  rw [List.map_map]
  exact congrArg List.sum (List.map_congr_left fun r _ => hg r)

section Keyed
variable [DecidableEq κ]

theorem find_relabel (k : κ) : (t.relabel f hf).find k = (t.find k).map f := by
  show (t.rows.map f).find? _ = _
  rw [List.find?_map]
  congr 2
  funext r
  simp only [Function.comp, hf]

theorem has_relabel (k : κ) : (t.relabel f hf).has k = t.has k := by
  unfold has
  rw [find_relabel, Option.isSome_map]

theorem upsert_relabel (r : ρ) : (t.relabel f hf).upsert (f r) = (t.upsert r).relabel f hf := by
  refine ext' ?_
  show _ = (t.upsert r).rows.map f
  rw [rows_upsert, rows_upsert, hf, has_relabel]
  split
  · show (t.rows.map f).map _ = _
    rw [List.map_map, List.map_map]
    refine List.map_congr_left fun x _ => ?_
    simp only [Function.comp, hf]
    split <;> rfl
  · show t.rows.map f ++ [f r] = _
    rw [List.map_append, List.map_singleton]

theorem insertNew_relabel (r : ρ) :
    (t.relabel f hf).insertNew (f r) = (t.insertNew r).map fun u => u.relabel f hf := by
  cases h : t.has (key r) with
  | false =>
    have h' : (t.relabel f hf).has (key (f r)) = false := by rw [hf, has_relabel]; exact h
    rw [insertNew_of_fresh h, insertNew_of_fresh h', upsert_relabel, Option.map_some]
  | true =>
    have h' : (t.relabel f hf).has (key (f r)) = true := by rw [hf, has_relabel]; exact h
    unfold insertNew
    rw [dif_neg (by simp [h']), dif_neg (by simp [h]), Option.map_none]

end Keyed
end Table

/-! ## Pages -/

section Pages
variable {ρ : Type} (seq : ρ → Nat) (f : ρ → ρ)

def Page.relabel (p : Page ρ) (f : ρ → ρ) : Page ρ := ⟨p.rows.map f, p.hasMore⟩

theorem after_relabel (h : ∀ r, seq (f r) = seq r) (rows : List ρ) (since : Nat) :
    after seq (rows.map f) since = (after seq rows since).map f := by
  unfold after
  rw [List.filter_map,
    List.map_insertionSort _ (fun x y => seq x ≤ seq y) f _ fun x _ y _ => by rw [h, h]]
  congr 3
  funext r
  simp only [Function.comp, h]

/-- Rows are paged by their numbers alone. -/
theorem page_relabel (h : ∀ r, seq (f r) = seq r) (rows : List ρ) (since limit : Nat) :
    page seq (rows.map f) since limit = (page seq rows since limit).relabel f := by
  unfold page
  rw [after_relabel seq f h, ← List.map_take]
  dsimp only
  rw [List.length_map]
  split
  · rw [← List.map_take]
    rfl
  · rfl

end Pages

/-! ## Transactions -/

namespace Tx
variable {σ ε α β γ δ : Type} {f : σ → σ} {g : α → β} {k : γ → δ}

/-- `m'` is `m` with its data renamed. -/
def Renames (f : σ → σ) (g : α → β) (m : Tx σ ε α) (m' : Tx σ ε β) : Prop :=
  ∀ db, m'.eval (f db) = (m.eval db).map fun r => (g r.1, f r.2)

theorem Renames.pure {a : α} {b : β} (h : b = g a) :
    Renames f g (Pure.pure a : Tx σ ε α) (Pure.pure b) :=
  fun _ => by simp [h, Except.map]

theorem Renames.read {u : σ → α} {v : σ → β} (h : ∀ db, v (f db) = g (u db)) :
    Renames f g (read u : Tx σ ε α) (read v) :=
  fun db => by simp [h db, Except.map]

theorem Renames.write {u : σ → α × σ} {v : σ → β × σ}
    (h : ∀ db, v (f db) = (g (u db).1, f (u db).2)) :
    Renames f g (write u : Tx σ ε α) (write v) :=
  fun db => by simp [h db, Except.map]

theorem Renames.bind {m : Tx σ ε α} {m' : Tx σ ε β} {n : α → Tx σ ε γ} {n' : β → Tx σ ε δ}
    (hm : Renames f g m m') (hn : ∀ a, Renames f k (n a) (n' (g a))) :
    Renames f k (m >>= n) (m' >>= n') := by
  intro db
  rw [eval_bind, eval_bind, hm db]
  cases h : m.eval db with
  | error e => rfl
  | ok r =>
    obtain ⟨a, d⟩ := r
    exact hn a d

theorem Renames.ite {p q : Prop} [Decidable p] [Decidable q] {m n : Tx σ ε α} {m' n' : Tx σ ε β}
    (hpq : q ↔ p)
    (hm : Renames f g m m') (hn : Renames f g n n') :
    Renames f g (if p then m else n) (if q then m' else n') := by
  by_cases h : p
  · rw [if_pos h, if_pos (hpq.2 h)]
    exact hm
  · rw [if_neg h, if_neg (mt hpq.1 h)]
    exact hn

theorem Renames.when {b : Bool} {m : Tx σ ε α} {m' : Tx σ ε β} {a : α} {a' : β}
    (hm : Renames f g m m') (ha : a' = g a) :
    Renames f g (when b m a) (when b m' a') := by
  cases b
  · exact .pure ha
  · exact hm

/-- A transaction that is its own renaming. -/
theorem Renames.of_local {m : Tx σ ε α} (h : Local f m) : Renames f id m m := h

end Tx

/-! ## Programs -/

/-- The outcome with the data in it renamed. -/
def Outcome.rename {σ ε α β : Type} (f : σ → σ) (g : α → β) (o : Outcome σ ε α) : Outcome σ ε β :=
  ⟨o.result.map g, f o.state, o.trace.map f⟩

namespace Prog
variable {σ ε α β γ δ : Type} {f : σ → σ} {g : α → β} {k : γ → δ}

/-- `m'` is `m` with its data renamed. -/
def Renames (f : σ → σ) (g : α → β) (m : Prog σ ε α) (m' : Prog σ ε β) : Prop :=
  ∀ s, m' (f s) = (m s).rename f g

/-- A program that does not look at what is renamed. -/
abbrev Blind (f : σ → σ) (m : Prog σ ε α) : Prop := Renames f id m m

theorem Renames.pure {a : α} {b : β} (h : b = g a) :
    Renames f g (Pure.pure a : Prog σ ε α) (Pure.pure b) :=
  fun _ => by rw [h]; rfl

theorem Renames.raise (e : ε) : Renames f g (Prog.raise e : Prog σ ε α) (Prog.raise e) :=
  fun _ => rfl

theorem Renames.get {u : σ → α} {v : σ → β} (h : ∀ s, v (f s) = g (u s)) :
    Renames f g (Prog.get u : Prog σ ε α) (Prog.get v) :=
  fun s => by rw [get_run, h]; rfl

theorem Blind.poke {u : σ → σ} (h : ∀ s, u (f s) = f (u s)) :
    Blind f (Prog.poke u : Prog σ ε Unit) :=
  fun s => by rw [poke_run, h]; rfl

theorem Renames.step {u : σ → Except ε (α × σ)} {v : σ → Except ε (β × σ)}
    (h : ∀ s, v (f s) = (u s).map fun r => (g r.1, f r.2)) :
    Renames f g (Prog.step u) (Prog.step v) := by
  intro s
  unfold Prog.step
  rw [h]
  cases u s <;> rfl

theorem Renames.bind {m : Prog σ ε α} {m' : Prog σ ε β} {n : α → Prog σ ε γ} {n' : β → Prog σ ε δ}
    (hm : Renames f g m m') (hn : ∀ a, Renames f k (n a) (n' (g a))) :
    Renames f k (m >>= n) (m' >>= n') := by
  intro s
  rw [bind_run, bind_run, hm s]
  match m s with
  | ⟨.error e, s', t⟩ => rfl
  | ⟨.ok a, s', t⟩ =>
    show (⟨(n' (g a) (f s')).result, (n' (g a) (f s')).state, t.map f ++
      (n' (g a) (f s')).trace⟩ : Outcome σ ε δ) = _
    rw [hn a s']
    simp only [Outcome.rename, List.map_append]

/-- The first part does not look at the data. -/
theorem Renames.seq {m : Prog σ ε α} {n : α → Prog σ ε γ} {n' : α → Prog σ ε δ} (hm : Blind f m)
    (hn : ∀ a, Renames f k (n a) (n' a)) : Renames f k (m >>= n) (m >>= n') := .bind hm hn

theorem Renames.ite {p : Prop} [Decidable p] {m n : Prog σ ε α} {m' n' : Prog σ ε β}
    (hm : Renames f g m m')
    (hn : Renames f g n n') : Renames f g (if p then m else n) (if p then m' else n') := by
  split
  · exact hm
  · exact hn

theorem Renames.found {o : Option α} (e : ε) :
    Renames f g (Prog.found o e : Prog σ ε α) (Prog.found (o.map g) e) := by
  cases o with
  | none => exact .raise e
  | some a => exact .pure rfl

theorem Blind.found (o : Option α) (e : ε) : Blind f (Prog.found o e : Prog σ ε α) := by
  cases o with
  | none => exact .raise e
  | some a => exact .pure rfl

theorem Blind.require (b : Bool) (e : ε) : Blind f (Prog.require b e : Prog σ ε Unit) := by
  cases b with
  | false => exact .raise e
  | true => exact .pure rfl

theorem Blind.ofExcept (x : Except ε α) : Blind f (Prog.ofExcept x : Prog σ ε α) := by
  cases x with
  | ok a => exact .pure rfl
  | error e => exact .raise e

theorem Blind.each {u : β → Prog σ ε Unit} (h : ∀ x, Blind f (u x)) : ∀ xs, Blind f (Prog.each u xs)
  | [] => .pure rfl
  | x :: xs => .seq (h x) fun _ => Blind.each h xs

/-- **A stopped program leaves the renamed state behind.** -/
theorem Renames.stopAfter {m : Prog σ ε α} {m' : Prog σ ε β} (h : Renames f g m m') (n : Nat)
    (s : σ) :
    m'.stopAfter n (f s) = f (m.stopAfter n s) := by
  cases n with
  | zero => rfl
  | succ n =>
    simp only [Prog.stopAfter, h s, Outcome.rename, List.getElem?_map]
    cases (m s).trace[n]? <;> rfl

end Prog
end GlanceVault.Core
