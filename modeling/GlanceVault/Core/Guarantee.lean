import Mathlib.Logic.Relation
import GlanceVault.Core.Prog
/-!
# What a program's storage steps can do

`Follows π R P m Q`: from a state satisfying `P`, every storage step of `m`
leaves the part `π` of the state alone or is an `R`-step of it, and a normal
end satisfies `Q`. `R` says once what a step can do; every property it
preserves is then preserved by the program, also when the process stops
between two steps (`Follows.inv`, `Follows.stopAfter`).
-/
namespace GlanceVault.Core.Prog

variable {σ ε α β γ : Type}

def Follows (π : σ → γ) (R : γ → γ → Prop) (P : σ → Prop) (m : Prog σ ε α)
    (Q : α → σ → Prop) : Prop :=
  ∀ x, Triple (fun t => Relation.ReflTransGen R x (π t))
    (fun s => Relation.ReflTransGen R x (π s) ∧ P s) m
    (fun a s => Relation.ReflTransGen R x (π s) ∧ Q a s) fun s => Relation.ReflTransGen R x (π s)

section Rules
variable {π : σ → γ} {R : γ → γ → Prop} {P P' : σ → Prop} {Q Q' : α → σ → Prop} {S : β → σ → Prop}

theorem Follows.pure {a : α} (h : ∀ s, P s → Q a s) : Follows π R P (Pure.pure a : Prog σ ε α) Q :=
  fun _ => Triple.pure fun s hs => ⟨hs.1, h s hs.2⟩

theorem Follows.raise (e : ε) : Follows π R P (Prog.raise e : Prog σ ε α) Q :=
  fun _ => Triple.raise fun _ hs => hs.1

theorem Follows.get {f : σ → α} (h : ∀ s, P s → Q (f s) s) :
    Follows π R P (Prog.get f : Prog σ ε α) Q :=
  fun _ => Triple.get fun s hs => ⟨hs.1, h s hs.2⟩

theorem Follows.require {b : Bool} {e : ε} {Q : Unit → σ → Prop}
    (h : b = true → ∀ s, P s → Q () s) :
    Follows π R P (Prog.require b e : Prog σ ε Unit) Q :=
  fun _ => Triple.require (fun hb s hs => ⟨hs.1, h hb s hs.2⟩) fun _ hs => hs.1

/-- A check keeps what is known. -/
theorem Follows.guard (b : Bool) (e : ε) :
    Follows π R P (Prog.require b e : Prog σ ε Unit) fun _ => P :=
  .require fun _ _ hs => hs

/-- So does a read whose value is not looked at. -/
theorem Follows.fetch (f : σ → α) : Follows π R P (Prog.get f : Prog σ ε α) fun _ => P :=
  .get fun _ hs => hs

theorem Follows.found {o : Option α} {e : ε} (h : ∀ a, o = some a → ∀ s, P s → Q a s) :
    Follows π R P (Prog.found o e : Prog σ ε α) Q :=
  fun _ => Triple.found (fun a ha s hs => ⟨hs.1, h a ha s hs.2⟩) fun _ hs => hs.1

theorem Follows.ofExcept {x : Except ε α} (h : ∀ a, x = .ok a → ∀ s, P s → Q a s) :
    Follows π R P (Prog.ofExcept x : Prog σ ε α) Q :=
  fun _ => Triple.ofExcept (fun a s ha hs => ⟨hs.1, h a ha s hs.2⟩) fun _ hs => hs.1

theorem Follows.poke {f : σ → σ} {Q : Unit → σ → Prop} (hp : ∀ s, π (f s) = π s)
    (h : ∀ s, P s → Q () (f s)) :
    Follows π R P (Prog.poke f : Prog σ ε Unit) Q :=
  fun _ => Triple.poke fun s hs => ⟨by rw [hp]; exact hs.1, h s hs.2⟩

/-- One storage step. -/
theorem Follows.step {f : σ → Except ε (α × σ)}
    (h : ∀ s a s', P s → f s = .ok (a, s') → (π s' = π s ∨ R (π s) (π s')) ∧ Q a s') :
    Follows π R P (Prog.step f) Q := by
  intro x
  refine Triple.step (fun s a s' hs he => ?_) fun s hs => hs.1
  obtain ⟨hm, hq⟩ := h s a s' hs.2 he
  have hr : Relation.ReflTransGen R x (π s') := by
    rcases hm with e | hr
    · rw [e]; exact hs.1
    · exact hs.1.tail hr
  exact ⟨hr, hr, hq⟩

theorem Follows.bind {m : Prog σ ε α} {f : α → Prog σ ε β} (hm : Follows π R P m Q)
    (hf : ∀ a, Follows π R (Q a) (f a) S) : Follows π R P (m >>= f) S :=
  fun x => (hm x).bind fun a => hf a x

theorem Follows.conseq {m : Prog σ ε α} (h : Follows π R P m Q) (hp : ∀ s, P' s → P s)
    (hq : ∀ a s, Q a s → Q' a s) : Follows π R P' m Q' :=
  fun x => (h x).conseq (fun s hs => ⟨hs.1, hp s hs.2⟩) fun a s hs => ⟨hs.1, hq a s hs.2⟩

/-- Steps of a part are steps of what is seen of it. -/
theorem Follows.map {δ : Type} (f : γ → δ) {R' : δ → δ → Prop} {m : Prog σ ε α}
    (h : Follows π R P m Q)
    (hR : ∀ x y, R x y → R' (f x) (f y)) : Follows (fun s => f (π s)) R' P m Q := by
  have hlift : ∀ {x y : γ}, Relation.ReflTransGen R x y → Relation.ReflTransGen R' (f x) (f y) :=
    fun h => h.lift f hR
  intro x s hs
  obtain ⟨h1, h2⟩ := h (π s) s ⟨.refl, hs.2⟩
  refine ⟨fun t ht => hs.1.trans (hlift (h1 t ht)), ?_⟩
  cases hr : (m s).result with
  | ok a =>
    rw [hr] at h2
    exact ⟨hs.1.trans (hlift h2.1), h2.2⟩
  | error e =>
    rw [hr] at h2
    exact hs.1.trans (hlift h2)

theorem Follows.mono {R' : γ → γ → Prop} {m : Prog σ ε α} (h : Follows π R P m Q)
    (hR : ∀ x y, R x y → R' x y) :
    Follows π R' P m Q := h.map id hR

theorem Follows.pre {m : Prog σ ε α} (h : Follows π R P m Q) (hp : ∀ s, P' s → P s) :
    Follows π R P' m Q :=
  h.conseq hp fun _ _ hq => hq

theorem Follows.ite {p : Prop} [Decidable p] {m n : Prog σ ε α} (hm : p → Follows π R P m Q)
    (hn : ¬ p → Follows π R P n Q) : Follows π R P (if p then m else n) Q := by
  by_cases h : p
  · rw [if_pos h]; exact hm h
  · rw [if_neg h]; exact hn h

/-- A loop: `I done` holds when the elements of `done` have been treated. -/
theorem Follows.each {f : β → Prog σ ε Unit} {xs : List β} {I : List β → σ → Prop}
    (h : ∀ done x rest, xs = done ++ x :: rest →
      Follows π R (I done) (f x) fun _ => I (done ++ [x])) :
    Follows π R (I []) (Prog.each f xs) fun _ => I xs :=
  fun x => Triple.each (I := fun done s => Relation.ReflTransGen R x (π s) ∧ I done s)
    fun done y rest e => h done y rest e x

/-- A program that leaves the part alone, and what is known of the part. -/
theorem Keeps.follows {m : Prog σ ε α} (h : Keeps π m) (I : γ → Prop) :
    Follows π R (fun s => I (π s)) m fun _ s => I (π s) := by
  intro x s hs
  obtain ⟨h1, h2⟩ := h s
  refine ⟨fun t ht => by show Relation.ReflTransGen R x (π t); rw [h2 t ht]; exact hs.1, ?_⟩
  cases (m s).result with
  | ok a => dsimp only; rw [h1]; exact hs
  | error e => dsimp only; rw [h1]; exact hs.1

/-- A program that leaves the part alone. -/
theorem Keeps.followsAny {m : Prog σ ε α} (h : Keeps π m) : Follows π R P m fun _ _ => True :=
  (h.follows fun _ => True).conseq (fun _ _ => trivial) fun _ _ _ => trivial

/-- A program that leaves a part alone takes any step that is one between
states with the same part. -/
theorem Keeps.followsOf {δ : Type} {ρ : σ → δ} {m : Prog σ ε α} (h : Keeps ρ m)
    (hR : ∀ s t, ρ t = ρ s → R (π s) (π t)) : Follows π R P m fun _ _ => True := by
  intro x s hs
  obtain ⟨h1, h2⟩ := h s
  have hend := hs.1.tail (hR s (m s).state h1)
  refine ⟨fun t ht => hs.1.tail (hR s t (h2 t ht)), ?_⟩
  cases (m s).result with
  | ok a => exact ⟨hend, trivial⟩
  | error e => exact hend

end Rules

section Use
variable {π : σ → γ} {R : γ → γ → Prop} {P : σ → Prop} {Q : α → σ → Prop}

theorem reach_inv {I : γ → Prop} (hI : ∀ x y, R x y → I x → I y) {x y : γ}
    (h : Relation.ReflTransGen R x y) (hx : I x) : I y := by
  induction h with
  | refl => exact hx
  | tail _ hr ih => exact hI _ _ hr ih

theorem Follows.state {m : Prog σ ε α} (h : Follows π R P m Q) {s : σ} (hs : P s) :
    Relation.ReflTransGen R (π s) (π (m s).state) := by
  obtain ⟨-, h2⟩ := h (π s) s ⟨.refl, hs⟩
  cases hr : (m s).result with
  | ok a => rw [hr] at h2; exact h2.1
  | error e => rw [hr] at h2; exact h2

/-- What every step preserves holds at the end, normal or not. -/
theorem Follows.lands {I : γ → Prop} (hI : ∀ x y, R x y → I x → I y) {m : Prog σ ε α}
    (h : Follows π R P m Q) :
    Lands (fun s => I (π s) ∧ P s) m (fun a s => I (π s) ∧ Q a s) fun s => I (π s) := by
  intro s hs
  obtain ⟨-, h2⟩ := h (π s) s ⟨.refl, hs.2⟩
  refine ⟨fun _ _ => trivial, ?_⟩
  cases hr : (m s).result with
  | ok a =>
    rw [hr] at h2
    exact ⟨reach_inv hI h2.1 hs.1, h2.2⟩
  | error e =>
    rw [hr] at h2
    exact reach_inv hI h2 hs.1

theorem Follows.stopAfter {m : Prog σ ε α} (h : Follows π R P m Q) {s : σ} (hs : P s) (n : Nat) :
    Relation.ReflTransGen R (π s) (π (m.stopAfter n s)) := by
  rcases m.stopAfter_cases n s with e | e | e
  · rw [e]
  · exact (h (π s) s ⟨.refl, hs⟩).1 _ e
  · rw [e]; exact h.state hs

end Use

end GlanceVault.Core.Prog
