import Mathlib.Data.List.Nodup
import Mathlib.Data.List.Count
/-!
# Feeds of a growing counter

Every key has a counter that does not go back. A listener that joins a key is
told the counter as it is; an announcement on a key is a message with the
number the counter has just moved to, and it drops the listeners it does not
reach (`Step`). That is enough for a listener never to miss what it was too
early or too late for (`Kept`):

* `Kept.order`: what a listener is told grows strictly.
* `Kept.caught`: who still listens has been told a number as high as every
  announcement on its key, before or after it joined.
* `Kept.own`: an announcement is told to listeners of its key only.
* `Kept.step`: one step of a feed keeps all of it.
-/
namespace GlanceVault.Core

/-- A listener, the key it joined, and the counter it was told then. -/
structure Member (K S : Type) where
  key : K
  listener : S
  start : Nat

structure Feed (K S M : Type) where
  latest : K → Nat
  live : K → List S
  joined : List (Member K S)
  announced : List (K × M)
  told : List (S × M)

namespace Feed

variable {K S M : Type} [DecidableEq S]

/-- What a member was told, in order. -/
def heard (num : M → Nat) (told : List (S × M)) (p : Member K S) : List Nat :=
  p.start :: (told.filter fun t => decide (t.1 = p.listener)).map fun t => num t.2

inductive Step (num : M → Nat) (f f' : Feed K S M) : Prop
  /-- counters may move, listeners may leave -/
  | idle (hl : ∀ k, f.latest k ≤ f'.latest k) (hlive : ∀ k, (f'.live k).Sublist (f.live k))
      (hj : f'.joined = f.joined) (ha : f'.announced = f.announced) (ht : f'.told = f.told)
  /-- a new listener joins `k` -/
  | join (k : K) (s : S) (new : ∀ p ∈ f.joined, p.listener ≠ s) (hl : ∀ j, f'.latest j = f.latest j)
      (hlive : ∀ j, f'.live j = f.live j ∨ j = k ∧ f'.live j = f.live j ++ [s])
      (hj : f'.joined = f.joined ++ [⟨k, s, f.latest k⟩]) (ha : f'.announced = f.announced)
      (ht : f'.told = f.told)
  /-- the counter of `k` has moved to the number of `m` -/
  | announce (k : K) (m : M) (reached : S → Bool) (hk : f.latest k < num m)
    (hm : f'.latest k = num m)
      (hl : ∀ j, f.latest j ≤ f'.latest j)
      (hlive : ∀ j, f'.live j = f.live j ∧ j ≠ k ∨ j = k ∧ f'.live j = (f.live j).filter reached)
      (hj : f'.joined = f.joined) (ha : f'.announced = f.announced ++ [(k, m)])
      (ht : f'.told = f.told ++ ((f.live k).filter reached).map fun s => (s, m))

/-- What every step of a feed keeps. -/
structure Kept (num : M → Nat) (f : Feed K S M) : Prop where
  nodup : ∀ k, (f.live k).Nodup
  member : ∀ k, ∀ s ∈ f.live k, ∃ p ∈ f.joined, p.key = k ∧ p.listener = s
  single : ∀ p ∈ f.joined, ∀ q ∈ f.joined, p.listener = q.listener → p = q
  reached : ∀ a ∈ f.announced, num a.2 ≤ f.latest a.1
  order : ∀ p ∈ f.joined, (heard num f.told p).Pairwise (· < ·)
  below : ∀ p ∈ f.joined, ∀ n ∈ heard num f.told p, n ≤ f.latest p.key
  caught : ∀ p ∈ f.joined, p.listener ∈ f.live p.key → ∀ a ∈ f.announced, a.1 = p.key →
    ∃ n ∈ heard num f.told p, num a.2 ≤ n
  own : ∀ t ∈ f.told, ∃ p ∈ f.joined, p.listener = t.1 ∧ (p.key, t.2) ∈ f.announced

variable {num : M → Nat} {f f' : Feed K S M}

/-- A message that goes out to a list of listeners reaches each of them once. -/
theorem heard_broadcast {subs : List S} (h : subs.Nodup) (told : List (S × M)) (m : M)
    (p : Member K S) :
    heard num (told ++ subs.map fun s => (s, m)) p =
      if p.listener ∈ subs then heard num told p ++ [num m] else heard num told p := by
  have hmap : (subs.map fun s => (s, m)).filter (fun t => decide (t.1 = p.listener)) =
      (subs.filter fun s => decide (s = p.listener)).map fun s => (s, m) := by
    rw [List.filter_map]
    rfl
  have honce : subs.filter (fun s => decide (s = p.listener)) =
      if p.listener ∈ subs then [p.listener] else [] := by
    rw [List.filter_eq, h.count]
    split <;> rfl
  unfold heard
  rw [List.filter_append, hmap, honce]
  by_cases hp : p.listener ∈ subs
  · simp [hp]
  · simp [hp]

/-- A listener that never joined was told nothing. -/
theorem Kept.heard_new (h : Kept num f) {k : K} {s : S} {n : Nat}
    (new : ∀ p ∈ f.joined, p.listener ≠ s) :
    heard num f.told ⟨k, s, n⟩ = [n] := by
  have hnone : f.told.filter (fun t => decide (t.1 = s)) = [] := by
    refine List.filter_eq_nil_iff.2 fun t ht e => ?_
    obtain ⟨p, hp, hs, -⟩ := h.own t ht
    exact new p hp (hs.trans (of_decide_eq_true e))
  unfold heard
  rw [hnone]
  rfl

theorem Kept.init {latest : K → Nat} :
    Kept num (⟨latest, fun _ => [], [], [], []⟩ : Feed K S M) where
  nodup _ := List.nodup_nil
  member _ _ h := nomatch h
  single _ h := nomatch h
  reached _ h := nomatch h
  order _ h := nomatch h
  below _ h := nomatch h
  caught _ h := nomatch h
  own _ h := nomatch h

theorem Kept.idle (h : Kept num f) (hl : ∀ k, f.latest k ≤ f'.latest k)
    (hlive : ∀ k, (f'.live k).Sublist (f.live k))
    (hj : f'.joined = f.joined) (ha : f'.announced = f.announced) (ht : f'.told = f.told) :
    Kept num f' where
  nodup k := (hlive k).nodup (h.nodup k)
  member k s hs := by rw [hj]; exact h.member k s ((hlive k).subset hs)
  single := by rw [hj]; exact h.single
  reached a hm := by
    rw [ha] at hm
    exact Nat.le_trans (h.reached a hm) (hl a.1)
  order := by rw [hj, ht]; exact h.order
  below p hp n hn := by
    rw [hj] at hp
    rw [ht] at hn
    exact Nat.le_trans (h.below p hp n hn) (hl p.key)
  caught p hp hs := by
    rw [hj] at hp
    rw [ha, ht]
    exact h.caught p hp ((hlive p.key).subset hs)
  own := by rw [hj, ht, ha]; exact h.own

theorem Kept.join (h : Kept num f) {k : K} {s : S} (new : ∀ p ∈ f.joined, p.listener ≠ s)
    (hl : ∀ j, f'.latest j = f.latest j)
    (hlive : ∀ j, f'.live j = f.live j ∨ j = k ∧ f'.live j = f.live j ++ [s])
    (hj : f'.joined = f.joined ++ [⟨k, s, f.latest k⟩]) (ha : f'.announced = f.announced)
    (ht : f'.told = f.told) :
    Kept num f' := by
  have hnew : ∀ j, s ∉ f.live j := fun j hs => by
    obtain ⟨p, hp, -, e⟩ := h.member j s hs
    exact new p hp e
  have hmem : ∀ p ∈ f'.joined, p ∈ f.joined ∨ p = ⟨k, s, f.latest k⟩ := fun p hp => by
    rw [hj] at hp
    simpa using hp
  have hfirst : heard num f'.told ⟨k, s, f.latest k⟩ = [f.latest k] := by
    rw [ht]; exact h.heard_new new
  refine ⟨fun j => ?_, fun j x hx => ?_, fun p hp q hq e => ?_, fun a hm => ?_, fun p hp => ?_,
    fun p hp n hn => ?_,
    fun p hp hs a hm e => ?_, fun t htold => ?_⟩
  · rcases hlive j with e | ⟨-, e⟩
    · rw [e]; exact h.nodup j
    · rw [e]
      exact List.nodup_append.2 ⟨h.nodup j, List.nodup_singleton s, fun x hx y hy e => by
        rw [List.mem_singleton] at hy
        exact hnew j (hy ▸ e ▸ hx)⟩
  · rw [hj]
    have hold : x ∈ f.live j → ∃ p ∈ f.joined ++ [⟨k, s, f.latest k⟩], p.key = j ∧
        p.listener = x := fun hx => by
      obtain ⟨p, hp, e⟩ := h.member j x hx
      exact ⟨p, List.mem_append_left _ hp, e⟩
    rcases hlive j with e | ⟨hk, e⟩
    · exact hold (e ▸ hx)
    · rw [e] at hx
      rcases List.mem_append.1 hx with hx | hx
      · exact hold hx
      · rw [List.mem_singleton] at hx
        exact ⟨_, List.mem_append_right _ (List.mem_singleton.2 rfl), hk.symm, hx.symm⟩
  · rcases hmem p hp with hp | rfl
    · rcases hmem q hq with hq | rfl
      · exact h.single p hp q hq e
      · exact absurd e (new p hp)
    · rcases hmem q hq with hq | rfl
      · exact absurd e.symm (new q hq)
      · rfl
  · rw [ha] at hm
    rw [hl]
    exact h.reached a hm
  · rcases hmem p hp with hp | rfl
    · rw [ht]; exact h.order p hp
    · rw [hfirst]; exact List.pairwise_singleton _ _
  · rw [hl]
    rcases hmem p hp with hp | rfl
    · rw [ht] at hn
      exact h.below p hp n hn
    · rw [hfirst, List.mem_singleton] at hn
      exact Nat.le_of_eq hn
  · rw [ha] at hm
    rcases hmem p hp with hp | rfl
    · -- an old member's listener is not the new one
      have hold : p.listener ∈ f.live p.key := by
        rcases hlive p.key with e | ⟨-, e⟩
        · exact e ▸ hs
        · rw [e] at hs
          rcases List.mem_append.1 hs with hs | hs
          · exact hs
          · exact absurd (List.mem_singleton.1 hs) (new p hp)
      rw [ht]
      exact h.caught p hp hold a hm e
    · refine ⟨f.latest k, by rw [hfirst]; exact List.mem_singleton.2 rfl, ?_⟩
      rw [← show a.1 = k from e]
      exact h.reached a hm
  · rw [ht] at htold
    rw [hj, ha]
    obtain ⟨p, hp, hown⟩ := h.own t htold
    exact ⟨p, List.mem_append_left _ hp, hown⟩

theorem Kept.announce (h : Kept num f) {k : K} {m : M} {reached : S → Bool}
    (hk : f.latest k < num m) (hm : f'.latest k = num m) (hl : ∀ j, f.latest j ≤ f'.latest j)
    (hlive : ∀ j, f'.live j = f.live j ∧ j ≠ k ∨ j = k ∧ f'.live j = (f.live j).filter reached)
    (hj : f'.joined = f.joined) (ha : f'.announced = f.announced ++ [(k, m)])
    (ht : f'.told = f.told ++ ((f.live k).filter reached).map fun s => (s, m)) : Kept num f' := by
  have hsub : ∀ j, (f'.live j).Sublist (f.live j) := fun j => by
    rcases hlive j with ⟨e, -⟩ | ⟨-, e⟩
    · rw [e]
    · rw [e]; exact List.filter_sublist
  -- a member that is told the message is one of the key
  have hkey : ∀ p ∈ f.joined, p.listener ∈ (f.live k).filter reached →
      p.key = k := fun p hp hs => by
    obtain ⟨q, hq, hqk, hql⟩ := h.member k _ (List.mem_filter.1 hs).1
    rw [h.single p hp q hq hql.symm]
    exact hqk
  have hheard : ∀ p : Member K S, heard num f'.told p =
      if p.listener ∈ (f.live k).filter reached then heard num f.told p ++ [num m]
      else heard num f.told p :=
    fun p => by rw [ht]; exact heard_broadcast ((h.nodup k).filter _) f.told m p
  refine ⟨fun j => (hsub j).nodup (h.nodup j), fun j s hs => ?_,
    by rw [hj]; exact h.single, fun a hmem => ?_,
    fun p hp => ?_, fun p hp n hn => ?_, fun p hp hs a hmem e => ?_, fun t htold => ?_⟩
  · rw [hj]
    exact h.member j s ((hsub j).subset hs)
  · rw [ha] at hmem
    rcases List.mem_append.1 hmem with hmem | hmem
    · exact Nat.le_trans (h.reached a hmem) (hl a.1)
    · rw [List.mem_singleton.1 hmem]
      exact Nat.le_of_eq hm.symm
  · rw [hj] at hp
    rw [hheard]
    by_cases hs : p.listener ∈ (f.live k).filter reached
    · rw [if_pos hs]
      refine List.pairwise_append.2 ⟨h.order p hp, List.pairwise_singleton _ _, fun x hx y hy => ?_⟩
      rw [List.mem_singleton.1 hy]
      have := h.below p hp x hx
      rw [hkey p hp hs] at this
      omega
    · rw [if_neg hs]
      exact h.order p hp
  · rw [hj] at hp
    rw [hheard] at hn
    by_cases hs : p.listener ∈ (f.live k).filter reached
    · rw [if_pos hs] at hn
      rcases List.mem_append.1 hn with hn | hn
      · exact Nat.le_trans (h.below p hp n hn) (hl p.key)
      · rw [List.mem_singleton.1 hn, hkey p hp hs]
        exact Nat.le_of_eq hm.symm
    · rw [if_neg hs] at hn
      exact Nat.le_trans (h.below p hp n hn) (hl p.key)
  · rw [hj] at hp
    rw [hheard]
    have hold : a ∈ f.announced → ∃ n ∈ heard num f.told p, num a.2 ≤ n := fun hmem =>
      h.caught p hp ((hsub p.key).subset hs) a hmem e
    rcases hlive p.key with ⟨-, hne⟩ | ⟨hpk, hfil⟩
    · -- the announcement is on another key
      have hmem : a ∈ f.announced := by
        rw [ha] at hmem
        rcases List.mem_append.1 hmem with hmem | hmem
        · exact hmem
        · rw [List.mem_singleton.1 hmem] at e
          exact absurd e.symm hne
      obtain ⟨n, hn, hle⟩ := hold hmem
      refine ⟨n, ?_, hle⟩
      split
      · exact List.mem_append_left _ hn
      · exact hn
    · have hin : p.listener ∈ (f.live k).filter reached := by
        rw [hfil] at hs
        rw [← hpk]
        exact hs
      rw [if_pos hin]
      rw [ha] at hmem
      rcases List.mem_append.1 hmem with hmem | hmem
      · obtain ⟨n, hn, hle⟩ := hold hmem
        exact ⟨n, List.mem_append_left _ hn, hle⟩
      · refine ⟨num m, List.mem_append_right _ (List.mem_singleton.2 rfl), ?_⟩
        exact Nat.le_of_eq (congrArg (fun x => num x.2) (List.mem_singleton.1 hmem))
  · rw [hj, ha]
    rw [ht] at htold
    rcases List.mem_append.1 htold with htold | htold
    · obtain ⟨p, hp, hs, hin⟩ := h.own t htold
      exact ⟨p, hp, hs, List.mem_append_left _ hin⟩
    · obtain ⟨s, hs, rfl⟩ := List.mem_map.1 htold
      obtain ⟨p, hp, hpk, hps⟩ := h.member k s (List.mem_filter.1 hs).1
      exact ⟨p, hp, hps, List.mem_append_right _ (by rw [hpk]; exact List.mem_singleton.2 rfl)⟩

theorem Kept.step (h : Kept num f) (hs : Step num f f') : Kept num f' := by
  cases hs with
  | idle hl hlive hj ha ht => exact h.idle hl hlive hj ha ht
  | join k s new hl hlive hj ha ht => exact h.join new hl hlive hj ha ht
  | announce k m reached hk hm hl hlive hj ha ht => exact h.announce hk hm hl hlive hj ha ht

end Feed
end GlanceVault.Core
