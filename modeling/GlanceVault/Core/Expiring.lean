import Mathlib.Order.Defs.LinearOrder
import GlanceVault.Core.Table
/-!
# Tables whose rows expire

A row is due at a time of its own; who reads the table treats a row that is
due as absent (`peek`). Dropping due rows is then invisible from that time
on, so a table that is swept now and then and one that is never swept are the
same table to their readers. Time is any linear order.

* `peek_later`: what is read later is read from what is there now.
* `Alike.sweep`, `Alike.upsert`: a sweep does not show, and a write keeps two
  tables alike.
-/
namespace GlanceVault.Core.Expiring

variable {ρ κ T : Type} {key : ρ → κ} [DecidableEq κ] [LinearOrder T] {due : ρ → T}

/-- The row of a key that is not due at `t`. -/
def peek (due : ρ → T) (t : T) (tab : Table key) (k : κ) : Option ρ :=
  (tab.find k).filter fun r => decide (t < due r)

/-- `DELETE .. WHERE due <= t` -/
def sweep (due : ρ → T) (t : T) (tab : Table key) : Table key :=
  tab.keep fun r => decide (t < due r)

/-- From `t` on no reader can tell the two tables apart. -/
def Alike (due : ρ → T) (t : T) (a b : Table key) : Prop := ∀ k, peek due t a k = peek due t b k

theorem peek_later {t s : T} (h : t ≤ s) (tab : Table key) (k : κ) :
    peek due s tab k = (peek due t tab k).filter fun r => decide (s < due r) := by
  unfold peek
  rw [Option.filter_filter]
  congr 1
  funext r
  by_cases hr : s < due r
  · simp [hr, lt_of_le_of_lt h hr]
  · simp [hr]

theorem peek_sweep (t : T) (tab : Table key) (k : κ) :
    peek due t (sweep due t tab) k = peek due t tab k := by
  unfold peek sweep
  rw [Table.find_keep, Option.filter_filter]
  simp only [Bool.and_self]

theorem peek_upsert (t : T) (tab : Table key) (r : ρ) (k : κ) :
    peek due t (tab.upsert r) k = if key r = k then (some r).filter fun r => decide (t < due r)
      else peek due t tab k := by
  unfold peek
  rw [Table.find_upsert]
  split <;> rfl

namespace Alike

theorem refl (t : T) (a : Table key) : Alike due t a a := fun _ => rfl

theorem trans {t : T} {a b c : Table key} (h : Alike due t a b) (h' : Alike due t b c) :
    Alike due t a c :=
  fun k => (h k).trans (h' k)

theorem later {t s : T} {a b : Table key} (h : Alike due t a b) (hs : t ≤ s) :
    Alike due s a b := fun k => by
  rw [peek_later hs, peek_later hs, h k]

theorem sweep (t : T) (a : Table key) : Alike due t (sweep due t a) a := fun k => peek_sweep t a k

theorem upsert {t : T} {a b : Table key} (h : Alike due t a b) (r : ρ) :
    Alike due t (a.upsert r) (b.upsert r) := fun k => by
  rw [peek_upsert, peek_upsert, h k]

end Alike
end GlanceVault.Core.Expiring
