import Mathlib.Data.List.Nodup
import GlanceVault.Core.Table
/-!
# Real-time hub (`realtime/hub.ts`)

The in-process registry of live event streams: an account's set of
subscribers, and a running total. A nudge carries the account's latest seq
and the namespace that was written. A delivery that throws evicts its
subscriber; `dead` says which ones throw.

* `set_subscribe`, `set_unsubscribe`, `set_publish`, `set_disconnect`: who is
  registered after each operation; the first three touch one account.
* `mem_publish`: after a fan-out exactly the subscribers that were reached are
  left.
* `Counted`: every operation keeps the total equal to the members of all sets.
-/
namespace GlanceVault.L3
open GlanceVault.Core

structure Nudge where
  seq : Nat
  app : Option String
  deriving DecidableEq

structure Subscriber where
  id : Nat
  credentialId : Option String
  deriving DecidableEq

/-- mirrors src/realtime/hub.ts:110-123 (`InProcessAccountHub`) -/
structure Hub where
  byAccount : Table (Prod.fst : String × List Subscriber → String)
  total : Nat

namespace Hub

def empty : Hub := ⟨.empty, 0⟩

/-- The subscribers of an account. -/
def set (hub : Hub) (a : String) : List Subscriber := ((hub.byAccount.find a).map Prod.snd).getD []

/-- mirrors src/realtime/hub.ts:124-145 (`subscribe`) -/
def subscribe (maxPerAccount maxTotal : Nat) (hub : Hub) (a : String)
    (sub : Subscriber) : Bool × Hub :=
  if maxTotal ≤ hub.total then (false, hub)
  else if maxPerAccount ≤ (hub.set a).length then
    if (hub.set a).length = 0 then
      (false, { hub with byAccount := hub.byAccount.keep fun r => !decide (r.1 = a) })
    else (false, hub)
  else (true,
    { byAccount :=
        hub.byAccount.upsert (a, if sub ∈ hub.set a then hub.set a else hub.set a ++ [sub])
      total := hub.total + 1 })

/-- mirrors src/realtime/hub.ts:147-162 (`unsubscribe`) -/
def unsubscribe (hub : Hub) (a : String) (sub : Subscriber) : Hub :=
  match hub.byAccount.find a with
  | none => hub
  | some (_, subs) =>
    let rest := subs.filter fun x => !decide (x = sub)
    { byAccount := if rest = [] then hub.byAccount.keep fun r => !decide (r.1 = a)
        else hub.byAccount.upsert (a, rest)
      total := if sub ∈ subs then hub.total - 1 else hub.total }

def publishTo (dead : Subscriber → Bool) (a : String) : List Subscriber → Hub → Hub
  | [], hub => hub
  | sub :: subs, hub => publishTo dead a subs (if dead sub then hub.unsubscribe a sub else hub)

/-- mirrors src/realtime/hub.ts:164-179 (`publish`) -/
def publish (dead : Subscriber → Bool) (hub : Hub) (a : String) : Hub :=
  publishTo dead a (hub.set a) hub

def disconnectFrom (credentialId : String) (a : String) : List Subscriber → Hub → Hub
  | [], hub => hub
  | sub :: subs, hub =>
    disconnectFrom credentialId a subs
      (if sub.credentialId = some credentialId then hub.unsubscribe a sub else hub)

def disconnectAll (credentialId : String) : List (String × List Subscriber) → Hub → Hub
  | [], hub => hub
  | (a, subs) :: rows, hub =>
    disconnectAll credentialId rows (disconnectFrom credentialId a subs hub)

/-- mirrors src/realtime/hub.ts:181-202 (`disconnectCredential`) -/
def disconnectCredential (hub : Hub) (credentialId : String) : Hub :=
  disconnectAll credentialId hub.byAccount.rows hub

/-! ## The sets after each operation -/

theorem set_keep (hub : Hub) (a b : String) (n : Nat) :
    Hub.set ⟨hub.byAccount.keep fun r => !decide (r.1 = a), n⟩ b = if b =
      a then [] else hub.set b := by
  unfold set
  rw [Table.find_keep]
  cases hf : hub.byAccount.find b with
  | none => simp
  | some r =>
    have hk : r.1 = b := Table.find_key hf
    by_cases h : b = a
    · simp [Option.filter, hk, h]
    · simp [Option.filter, hk, h]

theorem set_upsert (hub : Hub) (a b : String) (subs : List Subscriber) (n : Nat) :
    Hub.set ⟨hub.byAccount.upsert (a, subs), n⟩ b = if a = b then subs else hub.set b := by
  unfold set
  rw [Table.find_upsert]
  by_cases h : a = b
  · simp [h]
  · simp [h]

theorem set_unsubscribe (hub : Hub) (a b : String) (sub : Subscriber) :
    (hub.unsubscribe a sub).set b =
    if a = b then (hub.set b).filter fun x => !decide (x = sub) else hub.set b := by
  unfold unsubscribe
  cases hf : hub.byAccount.find a with
  | none =>
    by_cases h : a = b
    · subst h; simp [set, hf]
    · simp [h]
  | some r =>
    obtain ⟨k, subs⟩ := r
    have hs : hub.set a = subs := by simp [set, hf]
    by_cases hr : (subs.filter fun x => !decide (x = sub)) = []
    · simp only [hr, if_true]
      rw [set_keep]
      by_cases h : a = b
      · subst h; rw [if_pos rfl, if_pos rfl, hs, hr]
      · rw [if_neg (Ne.symm h), if_neg h]
    · simp only [hr, if_false]
      rw [set_upsert]
      by_cases h : a = b
      · subst h; rw [if_pos rfl, if_pos rfl, hs]
      · rw [if_neg h, if_neg h]

theorem set_publishTo (dead : Subscriber → Bool) (a b : String) :
    ∀ (subs : List Subscriber) (hub : Hub),
    (publishTo dead a subs hub).set b =
      if a = b then (hub.set b).filter fun x => !(decide (x ∈ subs) && dead x) else hub.set b
  | [], hub => by
    have hall :
        (hub.set b).filter (fun x => !(decide (x ∈ ([] : List Subscriber)) && dead x)) =
          hub.set b :=
      List.filter_eq_self.2 fun x _ => by simp
    rw [hall]
    split <;> rfl
  | sub :: subs, hub => by
    rw [publishTo, set_publishTo dead a b subs]
    by_cases h : a = b
    · subst h
      simp only [if_true]
      by_cases hd : dead sub = true
      · rw [if_pos hd, set_unsubscribe, if_pos rfl, List.filter_filter]
        apply List.filter_congr
        intro x _
        by_cases hx : x = sub
        · simp [hx, hd]
        · simp [hx]
      · rw [if_neg hd]
        apply List.filter_congr
        intro x _
        by_cases hx : x = sub
        · simp [hx, hd]
        · simp [hx]
    · simp only [h, if_false]
      split
      · rw [set_unsubscribe, if_neg h]
      · rfl

theorem set_publish (dead : Subscriber → Bool) (hub : Hub) (a b : String) :
    (hub.publish dead a).set b =
    if a = b then (hub.set b).filter fun x => !dead x else hub.set b := by
  unfold publish
  rw [set_publishTo]
  by_cases hab : a = b
  · subst hab
    rw [if_pos rfl, if_pos rfl]
    exact List.filter_congr fun x hx => by simp [hx]
  · rw [if_neg hab, if_neg hab]

/-- The fan-out leaves the subscribers it reached. -/
theorem mem_publish (dead : Subscriber → Bool) (hub : Hub) (a : String) (sub : Subscriber) :
    sub ∈ (hub.publish dead a).set a ↔ sub ∈ hub.set a ∧ dead sub = false := by
  rw [set_publish, if_pos rfl, List.mem_filter]
  simp

theorem set_subscribe (maxPerAccount maxTotal : Nat) (hub : Hub) (a b : String) (sub : Subscriber) :
    (subscribe maxPerAccount maxTotal hub a sub).2.set b =
      if (subscribe maxPerAccount maxTotal hub a sub).1 = true ∧ b = a then
        if sub ∈ hub.set a then hub.set a else hub.set a ++ [sub]
      else hub.set b := by
  unfold subscribe
  by_cases htotal : maxTotal ≤ hub.total
  · rw [if_pos htotal]
    simp
  · rw [if_neg htotal]
    by_cases hfull : maxPerAccount ≤ (hub.set a).length
    · rw [if_pos hfull]
      by_cases hnone : (hub.set a).length = 0
      · rw [if_pos hnone]
        dsimp only
        rw [set_keep]
        by_cases hb : b = a
        · simp [hb, List.eq_nil_of_length_eq_zero hnone]
        · simp [hb]
      · rw [if_neg hnone]
        simp
    · rw [if_neg hfull]
      dsimp only
      rw [set_upsert]
      by_cases hb : b = a
      · simp [hb]
      · simp [hb, Ne.symm hb]

theorem disconnectFrom_eq (id a : String) : ∀ (subs : List Subscriber) (hub : Hub),
    disconnectFrom id a subs hub = publishTo (fun x => decide (x.credentialId = some id)) a subs hub
  | [], _ => rfl
  | sub :: subs, hub => by
    rw [disconnectFrom, publishTo, disconnectFrom_eq]
    simp only [decide_eq_true_eq]

theorem set_disconnectAll (id b : String) : ∀ (rows : List (String × List Subscriber)) (hub : Hub),
    (disconnectAll id rows hub).set b = (hub.set b).filter fun x =>
      !(decide (x.credentialId = some id) && rows.any fun r => decide (r.1 = b) && decide (x ∈ r.2))
  | [], hub => by
    rw [disconnectAll, List.filter_eq_self.2 fun x _ => by simp]
  | (a, subs) :: rows, hub => by
    rw [disconnectAll, set_disconnectAll id b rows, disconnectFrom_eq, set_publishTo]
    by_cases hab : a = b
    · rw [if_pos hab, List.filter_filter]
      refine List.filter_congr fun x _ => ?_
      cases h1 : decide (x.credentialId = some id) <;>
        cases h2 : decide (x ∈ subs) <;> simp [hab, h2]
    · rw [if_neg hab]
      refine List.filter_congr fun x _ => ?_
      simp [hab]

/-- Exactly the streams of the credential are ended. -/
theorem set_disconnect (hub : Hub) (id b : String) :
    (hub.disconnectCredential id).set b = (hub.set b).filter fun x => !decide
    (x.credentialId = some id) := by
  unfold disconnectCredential
  rw [set_disconnectAll]
  refine List.filter_congr fun x hx => ?_
  have hrow : (hub.byAccount.rows.any fun r => decide (r.1 = b) && decide (x ∈ r.2)) = true := by
    unfold set at hx
    cases hf : hub.byAccount.find b with
    | none => rw [hf] at hx; cases hx
    | some r =>
      rw [hf] at hx
      obtain ⟨hm, hk⟩ := Table.find_some.1 hf
      exact List.any_eq_true.2 ⟨r, hm, by simpa [show r.1 = b from hk] using hx⟩
  rw [hrow, Bool.and_true]

/-! ## The counts -/

/-- Every subscriber has one slot: no set holds one twice, and the total is the
number of members of all sets. -/
structure Counted (hub : Hub) : Prop where
  nodup : ∀ r ∈ hub.byAccount.rows, r.2.Nodup
  total : hub.total = hub.byAccount.total (fun _ => true) fun r => r.2.length

theorem counted_empty : Counted .empty := ⟨nofun, rfl⟩

theorem Counted.set_nodup {hub : Hub} (h : hub.Counted) (a : String) : (hub.set a).Nodup := by
  unfold set
  cases hf : hub.byAccount.find a with
  | none => exact List.nodup_nil
  | some r => exact h.nodup r (Table.find_mem hf)

/-- Taking a subscriber out of a list frees one place, if it has one. -/
theorem length_without {subs : List Subscriber} (h : subs.Nodup) (sub : Subscriber) :
    (subs.filter fun x => !decide (x = sub)).length +
    (if sub ∈ subs then 1 else 0) = subs.length := by
  have hsame : (subs.filter fun x => !decide (x = sub)) = subs.erase sub := by
    rw [h.erase_eq_filter]
    exact List.filter_congr fun x _ => by simp [bne, BEq.beq]
  rw [hsame, List.length_erase]
  split
  · rename_i hm
    have := List.length_pos_of_mem hm
    omega
  · omega

theorem Counted.unsubscribe {hub : Hub} (h : hub.Counted) (a : String) (sub : Subscriber) :
    (hub.unsubscribe a sub).Counted := by
  unfold Hub.unsubscribe
  cases hf : hub.byAccount.find a with
  | none => exact h
  | some r =>
    obtain ⟨k, subs⟩ := r
    obtain ⟨hm, hk⟩ := Table.find_some.1 hf
    have hk : k = a := hk
    subst hk
    have hlen := length_without (h.nodup _ hm) sub
    dsimp only at hlen ⊢
    by_cases hrest : (subs.filter fun x => !decide (x = sub)) = []
    · -- the account's last subscriber
      rw [if_pos hrest]
      refine ⟨fun r hr => h.nodup r (Table.mem_keep.1 hr).1, ?_⟩
      have hsum := Table.total_keep_key hm (fun r => !decide (r.1 = k)) (fun _ => true)
        (fun r => r.2.length)
        fun x => by simp
      rw [hrest] at hlen
      simp only [if_true, List.length_nil] at hsum hlen ⊢
      rw [h.total]
      split <;> rename_i hmem
      · rw [if_pos hmem] at hlen; omega
      · rw [if_neg hmem] at hlen; omega
    · rw [if_neg hrest]
      refine ⟨fun r hr => ?_, ?_⟩
      · rcases Table.mem_upsert.1 hr with rfl | ⟨hr, -⟩
        · exact (h.nodup _ hm).filter _
        · exact h.nodup r hr
      · have hsum := Table.total_upsert_old (t := hub.byAccount)
          (r := (k, subs.filter fun x => !decide (x = sub))) hf
          (fun _ => true) fun r => r.2.length
        simp only [if_true] at hsum
        dsimp only
        rw [h.total]
        split <;> rename_i hmem
        · rw [if_pos hmem] at hlen; omega
        · rw [if_neg hmem] at hlen; omega

theorem Counted.publishTo {dead : Subscriber → Bool} {a : String} :
    ∀ {subs : List Subscriber} {hub : Hub},
    hub.Counted → (Hub.publishTo dead a subs hub).Counted
  | [], _, h => h
  | sub :: subs, hub, h => by
    rw [Hub.publishTo]
    split
    · exact (h.unsubscribe a sub).publishTo
    · exact h.publishTo

theorem Counted.publish {hub : Hub} (h : hub.Counted) (dead : Subscriber → Bool) (a : String) :
    (hub.publish dead a).Counted := h.publishTo

theorem Counted.disconnectAll {id : String} :
    ∀ {rows : List (String × List Subscriber)} {hub : Hub},
    hub.Counted → (Hub.disconnectAll id rows hub).Counted
  | [], _, h => h
  | (a, subs) :: rows, hub, h => by
    rw [Hub.disconnectAll, disconnectFrom_eq]
    exact (Counted.publishTo h).disconnectAll

theorem Counted.disconnectCredential {hub : Hub} (h : hub.Counted) (id : String) :
    (hub.disconnectCredential id).Counted := h.disconnectAll

/-- A new subscriber takes one slot, if it gets in. -/
theorem Counted.subscribe {hub : Hub} (h : hub.Counted) (maxPerAccount maxTotal : Nat) (a : String)
    {sub : Subscriber}
    (new : sub ∉ hub.set a) : (subscribe maxPerAccount maxTotal hub a sub).2.Counted := by
  unfold Hub.subscribe
  by_cases htotal : maxTotal ≤ hub.total
  · rw [if_pos htotal]
    exact h
  · rw [if_neg htotal]
    by_cases hfull : maxPerAccount ≤ (hub.set a).length
    · rw [if_pos hfull]
      by_cases hnone : (hub.set a).length = 0
      · rw [if_pos hnone]
        refine ⟨fun r hr => h.nodup r (Table.mem_keep.1 hr).1, ?_⟩
        dsimp only
        rw [h.total]
        -- the fresh key held nobody
        cases hf : hub.byAccount.find a with
        | none =>
          have hall :=
            Table.keep_eq_self (t := hub.byAccount) (p := fun r => !decide (r.1 = a)) fun r hr => by
            simpa using Table.find_none.1 hf r hr
          rw [hall]
        | some r =>
          obtain ⟨hm, hk⟩ := Table.find_some.1 hf
          have hsum := Table.total_keep_key hm (fun r => !decide (r.1 = a)) (fun _ => true)
            (fun r => r.2.length)
            fun x => by rw [hk]; simp
          have hlen : r.2.length = 0 := by
            unfold set at hnone
            rw [hf] at hnone
            exact hnone
          rw [if_pos rfl, hlen] at hsum
          exact hsum.symm
      · rw [if_neg hnone]
        exact h
    · rw [if_neg hfull]
      rw [if_neg new]
      refine ⟨fun r hr => ?_, ?_⟩
      · rcases Table.mem_upsert.1 hr with rfl | ⟨hr, -⟩
        · refine List.nodup_append.2
            ⟨h.set_nodup a, List.nodup_singleton sub, fun x hx y hy e => ?_⟩
          rw [List.mem_singleton] at hy
          exact new (hy ▸ e ▸ hx)
        · exact h.nodup r hr
      · dsimp only
        rw [h.total]
        cases hf : hub.byAccount.find a with
        | none =>
          have hsum := Table.total_upsert_new (t := hub.byAccount)
            (r := (a, hub.set a ++ [sub])) hf (fun _ => true)
            fun r => r.2.length
          have hset : hub.set a = [] := by unfold set; rw [hf]; rfl
          rw [hset] at hsum ⊢
          exact hsum.symm
        | some r =>
          have hsum := Table.total_upsert_old (t := hub.byAccount)
            (r := (a, hub.set a ++ [sub])) hf (fun _ => true)
            fun r => r.2.length
          have hset : hub.set a = r.2 := by unfold set; rw [hf]; rfl
          simp only [if_true, List.length_append, List.length_singleton] at hsum
          rw [hset] at hsum ⊢
          omega

end Hub
end GlanceVault.L3
