import Mathlib.Logic.Relation
/-!
# Sequence lines

A line hands out the numbers 1, 2, 3, .. and stamps holders with them. A
holder has at most one stamp; it gets a new one only as the next number of
the line, and may lose the one it has; a number may go to nobody. That is all that is asked of the
operations on a line (`Step`), and it is enough for what a cursor over the
line relies on:

* `Sound.reaches`: stamps stay positive, at most the counter, and no two
  holders ever share one.
* `counter_le`: the counter never goes back.
-/
namespace GlanceVault.Core

structure Line (H : Type) where
  counter : Nat
  stamp : H → Option Nat

namespace Line

variable {H : Type}

structure Sound (l : Line H) : Prop where
  pos : ∀ h s, l.stamp h = some s → 1 ≤ s
  le : ∀ h s, l.stamp h = some s → s ≤ l.counter
  distinct : ∀ h k s, l.stamp h = some s → l.stamp k = some s → h = k

inductive Step (l l' : Line H) : Prop
  /-- the next number goes to the holder `h` -/
  | assign (h : H) (hc : l'.counter = l.counter + 1) (hs : l'.stamp h = some l'.counter)
      (ho : ∀ k, k ≠ h → l'.stamp k = l.stamp k)
  /-- some holders lose their stamps, some numbers go to nobody -/
  | forget (hc : l.counter ≤ l'.counter) (hs : ∀ k, l'.stamp k = l.stamp k ∨ l'.stamp k = none)

abbrev Reaches : Line H → Line H → Prop := Relation.ReflTransGen Step

theorem Sound.step {l l' : Line H} (hl : l.Sound) (h : Step l l') : l'.Sound := by
  cases h with
  | forget hc hs =>
    have old : ∀ k s, l'.stamp k = some s → l.stamp k = some s := by
      intro k s e
      rcases hs k with h | h
      · rw [← h]; exact e
      · rw [h] at e; cases e
    exact ⟨fun k s e => hl.pos k s (old k s e), fun k s e => by
        have := hl.le k s (old k s e); omega,
      fun k j s e e' => hl.distinct k j s (old k s e) (old j s e')⟩
  | assign h hc hs ho =>
    have key : ∀ k s, l'.stamp k = some s → (k = h ∧ s = l.counter + 1) ∨
        (k ≠ h ∧ l.stamp k = some s) := by
      intro k s e
      by_cases hk : k = h
      · subst hk
        rw [hs] at e; cases e
        exact .inl ⟨rfl, hc⟩
      · exact .inr ⟨hk, by rw [← ho k hk]; exact e⟩
    refine ⟨?_, ?_, ?_⟩
    · intro k s e
      rcases key k s e with ⟨-, h1⟩ | ⟨-, h1⟩
      · omega
      · exact hl.pos k s h1
    · intro k s e
      rcases key k s e with ⟨-, h1⟩ | ⟨-, h1⟩
      · omega
      · have := hl.le k s h1; omega
    · intro k j s e e'
      rcases key k s e with ⟨hk, h1⟩ | ⟨-, h1⟩
      · rcases key j s e' with ⟨hj, -⟩ | ⟨-, h2⟩
        · rw [hk, hj]
        · have := hl.le j s h2; omega
      · rcases key j s e' with ⟨-, h2⟩ | ⟨-, h2⟩
        · have := hl.le k s h1; omega
        · exact hl.distinct k j s h1 h2

theorem Sound.reaches {l l' : Line H} (hl : l.Sound) (h : Reaches l l') : l'.Sound := by
  induction h with
  | refl => exact hl
  | tail _ hs ih => exact ih.step hs

theorem Step.counter_le {l l' : Line H} (h : Step l l') : l.counter ≤ l'.counter := by
  cases h with
  | forget hc _ => omega
  | assign _ hc _ _ => omega

theorem counter_le {l l' : Line H} (h : Reaches l l') : l.counter ≤ l'.counter := by
  induction h with
  | refl => exact Nat.le_refl _
  | tail _ hs ih => have := hs.counter_le; omega

end Line
end GlanceVault.Core
