import GlanceVault.Core.Run
import GlanceVault.L3Http.Hub
/-!
# The registry of the hub over a run of calls

The four calls of `InProcessAccountHub` with the callbacks they make:
`deliver` and `close` are functions that may throw on any subscriber, and a
result says which of them were called, in order, and what the call returned.
A subscriber is one object, subscribed once.

* `publishCalls_eq`, `disconnectCalls_eq`: no exception gets out, and which
  callbacks are made.
* `Orderly`: the invariant, kept by each call (`Orderly.unsubscribe`,
  `Orderly.subscribe`, `Orderly.publishTo`, `Orderly.disconnectAll`).
* `perform_does`: what each call does, in a registry that is in order.
* `hub_registry`: both, at every point of a run.
-/
namespace GlanceVault.L3
open GlanceVault.Core

/-! ## Calls and their callbacks -/

/-- `sub.deliver(nudge)` or `sub.close()` -/
abbrev Callback : Type := Subscriber → Except String Unit

def Callback.throws (f : Callback) (sub : Subscriber) : Bool :=
  match f sub with
  | .ok _ => false
  | .error _ => true

namespace Hub

/-- The loop of `publish`, with the subscribers whose `deliver` it called.
mirrors src/realtime/hub.ts:172-178 -/
def publishCalls (deliver : Callback) (a : String) :
    List Subscriber → Hub → Except String (List Subscriber × Hub)
  | [], hub => .ok ([], hub)
  | sub :: subs, hub => do
    let hub ← tryCatch (do deliver sub; pure hub) fun _ => pure (hub.unsubscribe a sub)
    let (calls, hub) ← publishCalls deliver a subs hub
    pure (sub :: calls, hub)

/-- The inner loop of `disconnectCredential`, with the subscribers whose
`close` it called and how often it counted. mirrors src/realtime/hub.ts:186-199 -/
def closeCalls (close : Callback) (credentialId a : String) : List Subscriber → Hub →
    Except String (List Subscriber × Nat × Hub)
  | [], hub => .ok ([], 0, hub)
  | sub :: subs, hub =>
    if sub.credentialId = some credentialId then do
      let hub := hub.unsubscribe a sub
      tryCatch (close sub) fun _ => pure ()
      let (calls, closed, hub) ← closeCalls close credentialId a subs hub
      pure (sub :: calls, closed + 1, hub)
    else closeCalls close credentialId a subs hub

/-- mirrors src/realtime/hub.ts:181-202 (`disconnectCredential`) -/
def disconnectCalls (close : Callback) (credentialId : String) :
    List (String × List Subscriber) → Hub →
    Except String (List Subscriber × Nat × Hub)
  | [], hub => .ok ([], 0, hub)
  | (a, subs) :: rows, hub => do
    let (calls, closed, hub) ← closeCalls close credentialId a subs hub
    let (calls', closed', hub) ← disconnectCalls close credentialId rows hub
    pure (calls ++ calls', closed + closed', hub)

end Hub

inductive HubCall
  | subscribe (a : String) (sub : Subscriber)
  | unsubscribe (a : String) (sub : Subscriber)
  | publish (a : String) (nudge : Nudge) (deliver : Callback)
  | disconnectCredential (credentialId : String) (close : Callback)

inductive Reply
  | admitted (b : Bool)
  | done
  | closed (n : Nat)
  deriving DecidableEq

/-- What a call returns, the callbacks it made in order, and the hub it leaves. -/
structure HubResult where
  reply : Reply
  delivered : List (Subscriber × Nudge)
  closed : List Subscriber
  hub : Hub

def HubCall.perform (maxPerAccount maxTotal : Nat) (hub : Hub) : HubCall → Except String HubResult
  | .subscribe a sub =>
    let r := hub.subscribe maxPerAccount maxTotal a sub
    .ok ⟨.admitted r.1, [], [], r.2⟩
  | .unsubscribe a sub => .ok ⟨.done, [], [], hub.unsubscribe a sub⟩
  | .publish a nudge deliver => do
    let (calls, hub) ← hub.publishCalls deliver a (hub.set a)
    pure ⟨.done, calls.map fun x => (x, nudge), [], hub⟩
  | .disconnectCredential credentialId close => do
    let (calls, closed, hub) ← hub.disconnectCalls close credentialId hub.byAccount.rows
    pure ⟨.closed closed, [], calls, hub⟩

/-- The hub after a call; a call that threw would leave it as it was. -/
def HubCall.next (maxPerAccount maxTotal : Nat) (hub : Hub) (c : HubCall) : Hub :=
  match c.perform maxPerAccount maxTotal hub with
  | .ok r => r.hub
  | .error _ => hub

def Hub.after (maxPerAccount maxTotal : Nat) (calls : List HubCall) : Hub :=
  run (HubCall.next maxPerAccount maxTotal) .empty calls

/-- The subscribers that were handed to `subscribe`. -/
def subscribed (calls : List HubCall) : List Subscriber := calls.filterMap fun
  | .subscribe _ sub => some sub
  | _ => none

/-! ## What the loops amount to -/

namespace Hub

theorem publishCalls_eq (deliver : Callback) (a : String) : ∀ (subs : List Subscriber) (hub : Hub),
    publishCalls deliver a subs hub = .ok (subs, publishTo deliver.throws a subs hub)
  | [], _ => rfl
  | sub :: subs, hub => by
    rw [publishCalls, publishTo, Callback.throws]
    cases deliver sub with
    | ok _ =>
      show (do let (calls, hub) ← publishCalls deliver a subs hub; pure (sub :: calls, hub)) = _
      rw [publishCalls_eq deliver a subs hub]
      rfl
    | error _ =>
      show (do
        let (calls, hub) ← publishCalls deliver a subs (hub.unsubscribe a sub)
        pure (sub :: calls, hub)) = _
      rw [publishCalls_eq deliver a subs (hub.unsubscribe a sub)]
      rfl

/-- The subscribers of a set that carry the credential. -/
def carrying (credentialId : String) (subs : List Subscriber) : List Subscriber :=
  subs.filter fun x => decide (x.credentialId = some credentialId)

theorem closeCalls_eq (close : Callback) (credentialId a : String) :
    ∀ (subs : List Subscriber) (hub : Hub),
    closeCalls close credentialId a subs hub
      = .ok (carrying credentialId subs, (carrying credentialId subs).length,
        disconnectFrom credentialId a subs hub)
  | [], _ => rfl
  | sub :: subs, hub => by
    rw [closeCalls, disconnectFrom, carrying]
    by_cases h : sub.credentialId = some credentialId
    · rw [if_pos h, if_pos h, List.filter_cons_of_pos (by simpa using h)]
      have hclose : (tryCatch (close sub) fun _ => pure ()) = Except.ok () := by
        cases close sub with
        | ok _ => rfl
        | error _ => rfl
      simp only [hclose, closeCalls_eq close credentialId a subs (hub.unsubscribe a sub)]
      rfl
    · rw [if_neg h, if_neg h, List.filter_cons_of_neg (by simpa using h)]
      exact closeCalls_eq close credentialId a subs hub

theorem disconnectCalls_eq (close : Callback) (credentialId : String) :
    ∀ (rows : List (String × List Subscriber)) (hub : Hub),
      disconnectCalls close credentialId rows hub
      = .ok (rows.flatMap fun r => carrying credentialId r.2,
          (rows.flatMap fun r => carrying credentialId r.2).length,
          disconnectAll credentialId rows hub)
  | [], _ => rfl
  | (a, subs) :: rows, hub => by
    rw [disconnectCalls, closeCalls_eq, disconnectAll]
    show (do
      let (calls', closed', hub) ← disconnectCalls close credentialId rows
          (disconnectFrom credentialId a subs hub)
      pure (carrying credentialId subs ++ calls',
        (carrying credentialId subs).length + closed', hub)) = _
    rw [disconnectCalls_eq close credentialId rows, List.flatMap_cons, List.length_append]
    rfl

/-! ## The invariant -/

/-- The registry in order: a slot for each subscriber, the ceilings, no empty
set, and every subscriber in one account, which was handed to `subscribe`. -/
structure Orderly (maxPerAccount maxTotal : Nat) (known : List Subscriber) (hub : Hub) : Prop where
  counted : hub.Counted
  ceiling : hub.total ≤ maxTotal
  cap : ∀ a, (hub.set a).length ≤ maxPerAccount
  nonempty : ∀ r ∈ hub.byAccount.rows, r.2 ≠ []
  known : ∀ a, ∀ x ∈ hub.set a, x ∈ known
  apart : ∀ a b x, x ∈ hub.set a → x ∈ hub.set b → a = b

variable {maxPerAccount maxTotal : Nat} {known : List Subscriber} {hub : Hub}

theorem orderly_empty : Orderly maxPerAccount maxTotal [] .empty :=
  ⟨counted_empty, Nat.zero_le _, fun _ => Nat.zero_le _, nofun,
    fun _ _ h => (List.not_mem_nil h).elim,
    fun _ _ _ h => (List.not_mem_nil h).elim⟩

theorem set_row {r : String × List Subscriber} (h : r ∈ hub.byAccount.rows) :
    hub.set r.1 = r.2 := by
  unfold set
  rw [Table.find_some.2 ⟨h, rfl⟩]
  rfl

theorem total_unsubscribe (hub : Hub) (a : String) (sub : Subscriber) :
    (hub.unsubscribe a sub).total ≤ hub.total := by
  unfold Hub.unsubscribe
  split
  · exact Nat.le_refl _
  · dsimp only
    split
    · omega
    · exact Nat.le_refl _

theorem nonempty_unsubscribe (h : ∀ r ∈ hub.byAccount.rows, r.2 ≠ []) (a : String)
    (sub : Subscriber) :
    ∀ r ∈ (hub.unsubscribe a sub).byAccount.rows, r.2 ≠ [] := by
  unfold Hub.unsubscribe
  split
  · exact h
  · dsimp only
    split
    · exact fun r hr => h r (Table.mem_keep.1 hr).1
    · rename_i hrest
      intro r hr
      rcases Table.mem_upsert.1 hr with rfl | ⟨hr, -⟩
      · exact hrest
      · exact h r hr

theorem set_unsubscribe_sublist (hub : Hub) (a b : String) (sub : Subscriber) :
    ((hub.unsubscribe a sub).set b).Sublist (hub.set b) := by
  rw [set_unsubscribe]
  split
  · exact List.filter_sublist
  · exact List.Sublist.refl _

namespace Orderly

theorem unsubscribe (h : Orderly maxPerAccount maxTotal known hub) (a : String) (sub : Subscriber) :
    Orderly maxPerAccount maxTotal known (hub.unsubscribe a sub) :=
  have hsub := fun b => set_unsubscribe_sublist hub a b sub
  { counted := h.counted.unsubscribe a sub
    ceiling := (total_unsubscribe hub a sub).trans h.ceiling
    cap := fun b => (hsub b).length_le.trans (h.cap b)
    nonempty := nonempty_unsubscribe h.nonempty a sub
    known := fun b x hx => h.known b x ((hsub b).subset hx)
    apart := fun b c x hb hc => h.apart b c x ((hsub b).subset hb) ((hsub c).subset hc) }

theorem publishTo {dead : Subscriber → Bool} {a : String} : ∀ {subs : List Subscriber} {hub : Hub},
    Orderly maxPerAccount maxTotal known hub →
    Orderly maxPerAccount maxTotal known (Hub.publishTo dead a subs hub)
  | [], _, h => h
  | sub :: subs, hub, h => by
    rw [Hub.publishTo]
    split
    · exact (h.unsubscribe a sub).publishTo
    · exact h.publishTo

theorem disconnectAll {id : String} : ∀ {rows : List (String × List Subscriber)} {hub : Hub},
    Orderly maxPerAccount maxTotal known hub →
    Orderly maxPerAccount maxTotal known (Hub.disconnectAll id rows hub)
  | [], _, h => h
  | (a, subs) :: rows, hub, h => by
    rw [Hub.disconnectAll, disconnectFrom_eq]
    exact h.publishTo.disconnectAll

end Orderly

/-- Whether `subscribe` admits. -/
theorem subscribe_admits (hub : Hub) (a : String) (sub : Subscriber) :
    (hub.subscribe maxPerAccount maxTotal a sub).1 = decide
    (hub.total < maxTotal ∧ (hub.set a).length < maxPerAccount) := by
  unfold Hub.subscribe
  by_cases htotal : maxTotal ≤ hub.total
  · rw [if_pos htotal, decide_eq_false (by omega)]
  · rw [if_neg htotal]
    by_cases hfull : maxPerAccount ≤ (hub.set a).length
    · rw [if_pos hfull, decide_eq_false (by omega)]
      split
      · rfl
      · rfl
    · rw [if_neg hfull, decide_eq_true (by omega)]

/-- A refused subscription changes nothing: a set without members has no key. -/
theorem subscribe_refused (hne : ∀ r ∈ hub.byAccount.rows, r.2 ≠ []) {a : String} {sub : Subscriber}
    (h : (hub.subscribe maxPerAccount maxTotal a sub).1 = false) :
    (hub.subscribe maxPerAccount maxTotal a sub).2 = hub := by
  unfold Hub.subscribe at h ⊢
  split
  · rfl
  · rename_i htotal
    rw [if_neg htotal] at h
    split
    · split
      · rename_i hnone
        have hkeep : (hub.byAccount.keep fun r => !decide (r.1 = a)) = hub.byAccount := by
          refine Table.keep_eq_self fun r hr => ?_
          have hset : r.1 ≠ a :=
            fun e => hne r hr (List.length_eq_zero_iff.1 (by rw [← set_row hr, e]; exact hnone))
          simpa using hset
        rw [hkeep]
      · rfl
    · rename_i hfull
      rw [if_neg hfull] at h
      cases h

theorem Orderly.subscribe (h : Orderly maxPerAccount maxTotal known hub) (a : String)
    {sub : Subscriber} (new : sub ∉ known) :
    Orderly maxPerAccount maxTotal (known ++ [sub])
      (hub.subscribe maxPerAccount maxTotal a sub).2 := by
  have hmore : ∀ b, ∀ x ∈ hub.set b, x ∈ known ++ [sub] :=
    fun b x hx => List.mem_append_left _ (h.known b x hx)
  have hnew : sub ∉ hub.set a := fun hm => new (h.known a sub hm)
  cases hadm : (hub.subscribe maxPerAccount maxTotal a sub).1 with
  | false =>
    rw [subscribe_refused h.nonempty hadm]
    exact { h with known := hmore }
  | true =>
    have hroom : hub.total < maxTotal ∧ (hub.set a).length < maxPerAccount := by
      rw [subscribe_admits] at hadm
      exact of_decide_eq_true hadm
    have hset : ∀ b, (hub.subscribe maxPerAccount maxTotal a sub).2.set b
        = if b = a then hub.set a ++ [sub] else hub.set b := by
      intro b
      rw [set_subscribe, hadm, if_neg hnew]
      simp only [true_and]
    refine ⟨h.counted.subscribe maxPerAccount maxTotal a hnew, ?_, fun b => ?_, ?_,
      fun b x hx => ?_, fun b c x hb hc => ?_⟩
    · unfold Hub.subscribe
      rw [if_neg (by omega), if_neg (by omega)]
      exact hroom.1
    · rw [hset]
      split
      · rw [List.length_append, List.length_singleton]
        exact hroom.2
      · exact h.cap b
    · unfold Hub.subscribe
      rw [if_neg (by omega), if_neg (by omega), if_neg hnew]
      intro r hr
      rcases Table.mem_upsert.1 hr with rfl | ⟨hr, -⟩
      · simp
      · exact h.nonempty r hr
    · rw [hset] at hx
      split at hx
      · rcases List.mem_append.1 hx with hx | hx
        · exact hmore a x hx
        · exact List.mem_append_right _ hx
      · exact hmore b x hx
    · -- the new subscriber is in no other set
      have hother : ∀ d, d ≠ a → x ∈ hub.set d → x ≠ sub := fun d _ hd e => new (e ▸ h.known d x hd)
      rw [hset] at hb hc
      by_cases h1 : b = a <;> by_cases h2 : c = a
      · rw [h1, h2]
      · rw [if_pos h1] at hb
        rw [if_neg h2] at hc
        rcases List.mem_append.1 hb with hb | hb
        · rw [h1]; exact h.apart a c x hb hc
        · exact absurd (List.mem_singleton.1 hb) (hother c h2 hc)
      · rw [if_neg h1] at hb
        rw [if_pos h2] at hc
        rcases List.mem_append.1 hc with hc | hc
        · rw [h2]; exact h.apart b a x hb hc
        · exact absurd (List.mem_singleton.1 hc) (hother b h1 hb)
      · rw [if_neg h1] at hb
        rw [if_neg h2] at hc
        exact h.apart b c x hb hc

/-! ## Who is disconnected -/

theorem mem_carrying {id : String} {x : Subscriber} :
    x ∈ hub.byAccount.rows.flatMap (fun r => carrying id r.2) ↔ x.credentialId = some id ∧
    ∃ a, x ∈ hub.set a := by
  rw [List.mem_flatMap]
  constructor
  · rintro ⟨r, hr, hx⟩
    obtain ⟨hx, hid⟩ := List.mem_filter.1 hx
    exact ⟨of_decide_eq_true hid, r.1, by rwa [set_row hr]⟩
  · rintro ⟨hid, a, hx⟩
    cases hf : hub.byAccount.find a with
    | none =>
      unfold set at hx
      rw [hf] at hx
      exact (List.not_mem_nil hx).elim
    | some r =>
      obtain ⟨hr, hk⟩ := Table.find_some.1 hf
      have hk : r.1 = a := hk
      rw [← hk, set_row hr] at hx
      exact ⟨r, hr, List.mem_filter.2 ⟨hx, by simpa using hid⟩⟩

theorem Orderly.carrying_nodup (h : Orderly maxPerAccount maxTotal known hub) (id : String) :
    (hub.byAccount.rows.flatMap fun r => carrying id r.2).Nodup := by
  rw [List.nodup_flatMap]
  refine ⟨fun r hr => (h.counted.nodup r hr).filter _, ?_⟩
  have hkeys := List.pairwise_map.1 hub.byAccount.unique
  refine hkeys.imp_of_mem fun {r s} hr hs hne => ?_
  intro x hx hy
  refine hne (h.apart r.1 s.1 x ?_ ?_)
  · rw [set_row hr]; exact (List.mem_filter.1 hx).1
  · rw [set_row hs]; exact (List.mem_filter.1 hy).1

end Hub

/-! ## What each call does -/

/-- The result of a call on `hub`. -/
def HubCall.Does (maxPerAccount maxTotal : Nat) (hub : Hub) (r : HubResult) : HubCall → Prop
  | .subscribe a sub => r.delivered = [] ∧ r.closed = [] ∧
      r.reply = .admitted (decide (hub.total < maxTotal ∧ (hub.set a).length < maxPerAccount)) ∧
      (r.reply = .admitted true →
        ∀ b, r.hub.set b = if b = a then hub.set a ++ [sub] else hub.set b) ∧
      (r.reply = .admitted false → r.hub = hub)
  | .unsubscribe a sub => r.reply = .done ∧ r.delivered = [] ∧ r.closed = [] ∧
      ∀ b, r.hub.set b = if a = b then (hub.set b).filter fun x => !decide (x = sub) else hub.set b
  | .publish a nudge deliver => r.reply = .done ∧ r.closed = [] ∧
      (hub.set a).Nodup ∧ r.delivered = (hub.set a).map (fun x => (x, nudge)) ∧
      ∀ b, r.hub.set b = if a = b then (hub.set b).filter fun x => !deliver.throws x else hub.set b
  | .disconnectCredential id _ => r.reply = .closed r.closed.length ∧ r.delivered = [] ∧
      r.closed.Nodup ∧ (∀ x, x ∈ r.closed ↔ x.credentialId = some id ∧ ∃ a, x ∈ hub.set a) ∧
      ∀ b, r.hub.set b = (hub.set b).filter fun x => !decide (x.credentialId = some id)

variable {maxPerAccount maxTotal : Nat} {known : List Subscriber} {hub : Hub}

theorem perform_does (h : hub.Orderly maxPerAccount maxTotal known) (c : HubCall)
    (new : ∀ sub ∈ subscribed [c], sub ∉ known) :
    ∃ r, c.perform maxPerAccount maxTotal hub = .ok r ∧ c.Does maxPerAccount maxTotal hub r ∧
      r.hub.Orderly maxPerAccount maxTotal (known ++ subscribed [c]) := by
  cases c with
  | subscribe a sub =>
    have hnew : sub ∉ known := new sub (List.mem_singleton.2 rfl)
    have hout : sub ∉ hub.set a := fun hm => hnew (h.known a sub hm)
    refine ⟨_, rfl, ⟨rfl, rfl, congrArg Reply.admitted (Hub.subscribe_admits hub a sub),
      fun hr b => ?_, fun hr => ?_⟩,
      h.subscribe a hnew⟩
    · have hadm : (hub.subscribe maxPerAccount maxTotal a sub).1 = true := Reply.admitted.inj hr
      show (hub.subscribe maxPerAccount maxTotal a sub).2.set b = _
      rw [Hub.set_subscribe, hadm, if_neg hout]
      simp only [true_and]
    · exact Hub.subscribe_refused h.nonempty (Reply.admitted.inj hr)
  | unsubscribe a sub =>
    refine ⟨_, rfl, ⟨rfl, rfl, rfl, fun b => Hub.set_unsubscribe hub a b sub⟩, ?_⟩
    rw [show subscribed [HubCall.unsubscribe a sub] = [] from rfl, List.append_nil]
    exact h.unsubscribe a sub
  | publish a nudge deliver =>
    refine ⟨⟨.done, (hub.set a).map fun x => (x, nudge), [], hub.publish deliver.throws a⟩, ?_,
      ⟨rfl, rfl, h.counted.set_nodup a, rfl, fun b => Hub.set_publish deliver.throws hub a b⟩, ?_⟩
    · rw [HubCall.perform, Hub.publishCalls_eq]
      rfl
    · rw [show subscribed [HubCall.publish a nudge deliver] = [] from rfl, List.append_nil]
      exact h.publishTo
  | disconnectCredential id close =>
    refine ⟨⟨.closed (hub.byAccount.rows.flatMap fun r => Hub.carrying id r.2).length, [],
        hub.byAccount.rows.flatMap fun r => Hub.carrying id r.2, hub.disconnectCredential id⟩, ?_,
      ⟨rfl, rfl, h.carrying_nodup id, fun x => Hub.mem_carrying,
        fun b => Hub.set_disconnect hub id b⟩, ?_⟩
    · rw [HubCall.perform, Hub.disconnectCalls_eq]
      rfl
    · rw [show subscribed [HubCall.disconnectCredential id close] = [] from rfl, List.append_nil]
      exact h.disconnectAll

/-! ## Runs -/

theorem subscribed_append (cs ds : List HubCall) :
    subscribed (cs ++ ds) = subscribed cs ++ subscribed ds :=
  List.filterMap_append ..

theorem after_orderly {calls : List HubCall} (once : (subscribed calls).Nodup) :
    (Hub.after maxPerAccount maxTotal calls).Orderly maxPerAccount maxTotal (subscribed calls) := by
  induction calls using List.reverseRecOn with
  | nil => exact Hub.orderly_empty
  | append_singleton calls c ih =>
    rw [subscribed_append] at once ⊢
    obtain ⟨hbefore, -, hapart⟩ := List.nodup_append.1 once
    obtain ⟨r, hr, -, hord⟩ := perform_does (ih hbefore) c fun sub hs hk => hapart sub hk sub hs rfl
    have hafter : Hub.after maxPerAccount maxTotal (calls ++ [c]) = r.hub := by
      unfold Hub.after at hr ⊢
      rw [run_append, run_cons, run_nil, HubCall.next, hr]
    rw [hafter]
    exact hord

/-- **The registry is in order at every point of a run, and every call does
what it is for.** -/
theorem hub_registry (maxPerAccount maxTotal : Nat) (calls : List HubCall)
    (once : (subscribed calls).Nodup) :
    (∀ cs ds, calls = cs ++ ds →
      let hub := Hub.after maxPerAccount maxTotal cs
      hub.total = hub.byAccount.total (fun _ => true) (fun r => r.2.length) ∧ hub.total ≤ maxTotal ∧
        ∀ r ∈ hub.byAccount.rows, r.2 ≠ [] ∧ r.2.length ≤ maxPerAccount) ∧
    (∀ cs c ds, calls = cs ++ c :: ds → ∃ r,
      c.perform maxPerAccount maxTotal (Hub.after maxPerAccount maxTotal cs) = .ok r ∧
        c.Does maxPerAccount maxTotal (Hub.after maxPerAccount maxTotal cs) r) := by
  refine ⟨fun cs ds e => ?_, fun cs c ds e => ?_⟩
  · rw [e, subscribed_append] at once
    have h : (Hub.after maxPerAccount maxTotal cs).Orderly maxPerAccount maxTotal (subscribed cs) :=
      after_orderly (List.nodup_append.1 once).1
    exact ⟨h.counted.total, h.ceiling, fun r hr => ⟨h.nonempty r hr, Hub.set_row hr ▸ h.cap r.1⟩⟩
  · have hsplit : cs ++ c :: ds = cs ++ [c] ++ ds := by simp
    rw [e, hsplit, subscribed_append, subscribed_append] at once
    have once := (List.nodup_append.1 once).1
    obtain ⟨hbefore, -, hapart⟩ := List.nodup_append.1 once
    have h : (Hub.after maxPerAccount maxTotal cs).Orderly maxPerAccount maxTotal (subscribed cs) :=
      after_orderly hbefore
    obtain ⟨r, hr, hdoes, -⟩ := perform_does h c fun sub hs hk => hapart sub hk sub hs rfl
    exact ⟨r, hr, hdoes⟩

/-- Two subscribers of one account, a dead one in another, and a third that
finds its account full. -/
def sampleCalls : List HubCall :=
  [.subscribe "a" ⟨0, some "k"⟩, .subscribe "b" ⟨1, none⟩, .subscribe "a" ⟨2, some "k"⟩,
    .subscribe "a" ⟨3, none⟩,
    .publish "b" ⟨1, none⟩ fun _ => .error "EPIPE", .unsubscribe "b" ⟨1, none⟩,
      .disconnectCredential "k" fun _ => .error "gone"]

theorem hub_registry_sample : (Hub.after 2 3 sampleCalls).total ≤ 3 ∧ ∃ r,
    (HubCall.disconnectCredential "k" fun _ => .error "gone").perform 2 3
      (Hub.after 2 3 (sampleCalls.take 6)) = .ok r ∧
      r.reply = .closed r.closed.length := by
  obtain ⟨hall, hcalls⟩ := hub_registry 2 3 sampleCalls (by decide)
  obtain ⟨r, hr, hdoes⟩ := hcalls (sampleCalls.take 6) _ [] rfl
  exact ⟨(hall sampleCalls [] (List.append_nil _).symm).2.1, r, hr, hdoes.1⟩

end GlanceVault.L3
