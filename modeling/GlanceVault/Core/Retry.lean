/-!
# A batch of guarded writes, sent twice

A write to a register that may be empty either fills it when it is empty, or
writes over whatever is there, or writes over what is not of its own kind. What
a sequence of them does to a value is again one of the three, and each of the
three does nothing more the second time.

* `Effect.apply_seq`, `Effect.apply_again`: two in a row, and one twice.
* `Guarded.retry`: a batch that follows itself leaves what it left before.
-/
namespace GlanceVault.Core

/-- What becomes of a value: it stays, it is replaced, or it is replaced unless
it is of the new one's kind. -/
inductive Effect (α : Type)
  | pass
  | put (c : α)
  | settle (c : α)

/-- When a write takes place. -/
inductive Guard
  | whenEmpty
  | always
  | unlessAlike
  deriving DecidableEq

structure Guarded (α : Type) where
  guard : Guard
  value : α

section
variable {α κ : Type} [DecidableEq κ] (kind : α → κ)

def Effect.apply : Effect α → α → α
  | .pass, t => t
  | .put c, _ => c
  | .settle c, t => if kind t = kind c then t else c

/-- The one, then the other. -/
def Effect.seq : Effect α → Effect α → Effect α
  | f, .pass => f
  | _, .put c => .put c
  | .pass, .settle c => .settle c
  | .put b, .settle c => .put (if kind b = kind c then b else c)
  | .settle b, .settle c => if kind b = kind c then .settle b else .put c

theorem Effect.apply_seq (f g : Effect α) (t : α) :
    (f.seq kind g).apply kind t = g.apply kind (f.apply kind t) := by
  cases g with
  | pass => cases f <;> rfl
  | put c => cases f <;> rfl
  | settle c =>
    cases f with
    | pass => rfl
    | put b => rfl
    | settle b =>
      simp only [seq, apply]
      by_cases hbc : kind b = kind c
      · rw [if_pos hbc]
        by_cases ht : kind t = kind b
        · simp only [if_pos ht, if_pos (ht.trans hbc)]
        · simp only [if_neg ht, if_pos hbc]
      · rw [if_neg hbc]
        by_cases ht : kind t = kind b
        · have htc : ¬ kind t = kind c := fun e => hbc (ht.symm.trans e)
          simp only [if_pos ht, if_neg htc]
        · simp only [if_neg ht, if_neg hbc]

theorem Effect.apply_again (f : Effect α) (t : α) :
    f.apply kind (f.apply kind t) = f.apply kind t := by
  cases f with
  | pass => rfl
  | put c => rfl
  | settle c =>
    simp only [apply]
    by_cases ht : kind t = kind c
    · simp only [if_pos ht]
    · simp only [if_neg ht, if_true]

namespace Guarded

def effect (w : Guarded α) : Effect α :=
  match w.guard with
  | .whenEmpty => .pass
  | .always => .put w.value
  | .unlessAlike => .settle w.value

def step (o : Option α) (w : Guarded α) : Option α :=
  match o with
  | none => some w.value
  | some t => some (w.effect.apply kind t)

/-- What a batch does to a value. -/
def total (ws : List (Guarded α)) : Effect α := ws.foldl (fun f w => f.seq kind w.effect) .pass

/-- It stays, or becomes the write's own. -/
theorem apply_effect (w : Guarded α) (t : α) :
    w.effect.apply kind t = t ∨ w.effect.apply kind t = w.value := by
  unfold effect
  cases w.guard with
  | whenEmpty => exact .inl rfl
  | always => exact .inr rfl
  | unlessAlike =>
    simp only [Effect.apply]
    split
    · exact .inl rfl
    · exact .inr rfl

theorem foldl_some (ws : List (Guarded α)) (f : Effect α) (t : α) :
    ws.foldl (step kind) (some (f.apply kind t)) =
      some ((ws.foldl (fun f w => f.seq kind w.effect) f).apply kind t) := by
  induction ws generalizing f with
  | nil => rfl
  | cons w ws ih =>
    rw [List.foldl_cons, List.foldl_cons, ← ih]
    unfold step
    rw [Effect.apply_seq]

theorem steps_some (ws : List (Guarded α)) (t : α) :
    ws.foldl (step kind) (some t) = some ((total kind ws).apply kind t) :=
  foldl_some kind ws .pass t

/-- **A batch that follows itself.** -/
theorem retry (ws : List (Guarded α)) (o : Option α) :
    ws.foldl (step kind) (ws.foldl (step kind) o) = ws.foldl (step kind) o := by
  have hagain : ∀ (ws : List (Guarded α)) (t : α),
      ws.foldl (step kind) (ws.foldl (step kind) (some t)) = ws.foldl (step kind) (some t) := by
    intro ws t
    rw [steps_some, steps_some, Effect.apply_again]
  cases o with
  | some t => exact hagain ws t
  | none =>
    cases ws with
    | nil => rfl
    | cons w ws =>
      -- the first write fills the register; met again, it passes or writes the same
      rw [List.foldl_cons, List.foldl_cons]
      show ws.foldl (step kind) (step kind (ws.foldl (step kind) (some w.value)) w) =
        ws.foldl (step kind) (some w.value)
      have hend := steps_some kind ws w.value
      rw [hend]
      show ws.foldl (step kind) (some (w.effect.apply kind ((total kind ws).apply kind w.value))) =
        _
      rcases apply_effect kind w ((total kind ws).apply kind w.value) with e | e
      · rw [e, ← hend]
        exact hagain ws w.value
      · rw [e, hend]

end Guarded

end

end GlanceVault.Core
