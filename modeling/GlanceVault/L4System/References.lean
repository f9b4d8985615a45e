import Mathlib.Data.Finset.Card
import GlanceVault.L3Http.RefCounts
import GlanceVault.L4System.Survival
/-!
# References and retries

The clients number their references. A reference is added by a request that
may be delivered any number of times, and released by another. The server's
count is anonymous: it cannot tell a second delivery from a second reference.

* `Ledger`: a run together with the references acknowledged and released.
* `covered_act`: the count stays at or above the number of references held
  while each release is handled at most once.
* `references_survive`: so a held reference keeps its blob out of every sweep.
* `repeated_release_underruns`: a release handled twice takes the count from
  under another client's reference.
-/
namespace GlanceVault.L4
open GlanceVault.Core GlanceVault.L1 GlanceVault.L2 GlanceVault.L3

structure Reference where
  id : Nat
  accountId : String
  blobHash : String
  deriving DecidableEq

def Reference.key (r : Reference) : String × String := (r.accountId, r.blobHash)

inductive Change
  | add (r : Reference)
  | release (r : Reference)

/-- The change of the references an action asks for; `ref` says which
reference a request is about. -/
def State.change (host : Host) (ref : Nat → Nat) (s : State) : Action → Option Change
  | .handle id _ =>
    match s.waiting id with
    | none => none
    | some w =>
      match accept s.cfg host w.credential w.route with
      | .ok (a, .refAdd h) => some (.add ⟨ref id, a, h⟩)
      | .ok (a, .refRelease h) => some (.release ⟨ref id, a, h⟩)
      | _ => none
  | _ => none

/-- `acked`: the references whose add was answered with success; `released`:
the references whose release was handled. -/
structure Ledger where
  state : State
  acked : Finset Reference
  released : Finset Reference

namespace Ledger
variable (host : Host) (ref : Nat → Nat) (l : Ledger)

def init (cfg : Config) : Ledger := ⟨State.init cfg, ∅, ∅⟩

def act (a : Action) : Ledger where
  state := l.state.act host a
  acked :=
    match l.state.change host ref a with
    | some (.add r) =>
      if (l.state.answer host a).any fun x => x.status = 200 then insert r l.acked else l.acked
    | _ => l.acked
  released :=
    match l.state.change host ref a with
    | some (.release r) => insert r l.released
    | _ => l.released

/-- The references to a blob that are acknowledged and not released. -/
def held (k : String × String) : Finset Reference :=
  (l.acked \ l.released).filter fun r => r.key = k

/-- A client releases only what was acknowledged to it. -/
def earned (a : Action) : Bool :=
  match l.state.change host ref a with
  | some (.release r) => decide (r ∈ l.acked)
  | _ => true

/-- A release is not delivered again. -/
def once (a : Action) : Bool :=
  match l.state.change host ref a with
  | some (.release r) => decide (r ∉ l.released)
  | _ => true

end Ledger

/-- Every count is at least the number of references held. -/
def Covered (l : Ledger) : Prop := ∀ k, ((l.held k).card : Int) ≤ refs l.state.server.blobs k

section Step
variable {host : Host} {ref : Nat → Nat} {l : Ledger}

/-- An action that asks for no change lowers no count. -/
theorem upward_act {a : Action} (hc : l.state.change host ref a = none)
    (hd : a.deletesAccount = false) :
    Upward l.state.server.blobs (l.state.act host a).server.blobs := by
  have hrun : Prog.Follows Server.blobs Upward (fun _ => True) (l.state.work host a) fun _ _ =>
      True := by
    cases a with
    | arrive id req => exact .pure fun _ _ => trivial
    | handle id env =>
      rcases work_cases host l.state id env with ⟨w, b, call, hw, ha, hwork⟩ |
        ⟨-, hwork | ⟨e, hwork⟩⟩
      · rw [hwork]
        refine ignore_follows (perform_counts l.state.cfg host w.credential env b
          (fun h e => ?_) fun h e => ?_)
        · subst e; simp [State.change, hw, ha] at hc
        · subst e; simp [State.change, hw, ha] at hc
      · rw [hwork]
        exact .pure fun _ _ => trivial
      · rw [hwork]
        exact .raise e
    | drop id => exact .pure fun _ _ => trivial
    | admin authorization route env =>
      refine ignore_follows (handleAdmin_frame blobs_volatile
        (blobs_ignores (by simp)) l.state.cfg host env authorization
        fun b body e => ?_).followsAny
      subst e
      cases hd
    | reclaim policy nowMs => exact ignore_follows (reclaimSweep_counts policy nowMs)
    | reap ttlMs nowMs =>
      exact ignore_follows (reapUploadSessions_frame (blobs_ignores (by simp))
        (blobs_ignores (by simp)) ttlMs nowMs).followsAny
    | close a sub => exact .poke (fun _ => rfl) fun _ _ => trivial
    | heartbeat a sub =>
      refine .poke (fun v => ?_) fun _ _ => trivial
      rw [heartbeat_hub]
      rfl
  exact Prog.reach_inv (I := Upward l.state.server.blobs)
    (fun x y hxy hx k => Int.le_trans (hx k) (hxy k))
    (hrun.state trivial) (upward_refl _)

theorem change_add {a : Action} {r : Reference} (hc : l.state.change host ref a = some (.add r)) :
    ∃ env, (l.state.act host a).server = (refAdd env r.accountId r.blobHash l.state.server).state ∧
      l.state.answer host a = some (finish (refAdd env r.accountId r.blobHash l.state.server)) := by
  unfold State.change at hc
  split at hc
  · rename_i id env
    split at hc
    · cases hc
    · rename_i w hw
      split at hc <;> cases hc
      rename_i ha
      exact ⟨env, act_handle hw ha⟩
  · cases hc

theorem change_release {a : Action} {r : Reference}
    (hc : l.state.change host ref a = some (.release r)) :
    ∃ env, (l.state.act host a).server =
      (refRelease env r.accountId r.blobHash l.state.server).state := by
  unfold State.change at hc
  split at hc
  · rename_i id env
    split at hc
    · cases hc
    · rename_i w hw
      split at hc <;> cases hc
      rename_i ha
      exact ⟨env, (act_handle hw ha).1⟩
  · cases hc

/-- One more acknowledged reference. -/
theorem card_acked (A B : Finset Reference) (r : Reference) (k : String × String) :
    ((insert r A \ B).filter fun x => x.key = k).card ≤
      ((A \ B).filter fun x => x.key = k).card + if k = r.key then 1 else 0 := by
  have hsub : (insert r A \ B).filter (fun x => x.key = k) ⊆ insert r
      ((A \ B).filter fun x => x.key = k) := by
    intro x hx
    simp only [Finset.mem_filter, Finset.mem_sdiff, Finset.mem_insert] at hx ⊢
    tauto
  by_cases hk : k = r.key
  · rw [if_pos hk]
    exact (Finset.card_le_card hsub).trans (Finset.card_insert_le _ _)
  · rw [if_neg hk]
    refine Finset.card_le_card fun x hx => ?_
    rcases Finset.mem_insert.1 (hsub hx) with rfl | h
    · exact absurd (Finset.mem_filter.1 hx).2.symm hk
    · exact h

/-- One reference less. -/
theorem card_released {A B : Finset Reference} {r : Reference} (hA : r ∈ A) (hB : r ∉ B)
    (k : String × String) :
    ((A \ insert r B).filter fun x => x.key = k).card + (if k = r.key then 1 else 0) =
      ((A \ B).filter fun x => x.key = k).card := by
  have herase : (A \ insert r B).filter (fun x => x.key = k) =
      ((A \ B).filter fun x => x.key = k).erase r := by
    ext x
    simp only [Finset.mem_filter, Finset.mem_sdiff, Finset.mem_insert, Finset.mem_erase]
    tauto
  rw [herase]
  by_cases hk : k = r.key
  · have hm : r ∈ (A \ B).filter fun x => x.key = k := by simp [hA, hB, hk]
    rw [if_pos hk]
    exact Finset.card_erase_add_one hm
  · have hm : r ∉ (A \ B).filter fun x => x.key = k := by simp [Ne.symm hk]
    rw [if_neg hk, Finset.erase_eq_of_notMem hm, Nat.add_zero]

/-- **One action.** -/
theorem covered_act {a : Action} (he : l.earned host ref a = true) (ho : l.once host ref a = true)
    (hd : a.deletesAccount = false) (h : Covered l) : Covered (l.act host ref a) := by
  intro k
  have hk := h k
  unfold Ledger.held at hk ⊢
  unfold Ledger.earned at he
  unfold Ledger.once at ho
  cases hc : l.state.change host ref a with
  | none =>
    simp only [Ledger.act, hc]
    exact hk.trans (upward_act hc hd k)
  | some c =>
    cases c with
    | add r =>
      obtain ⟨env, hs, hans⟩ := change_add hc
      simp only [Ledger.act, hc, hans, hs, refAdd_count, Option.any_some, decide_eq_true_eq]
      by_cases hok : (finish (refAdd env r.accountId r.blobHash l.state.server)).status = 200
      · have hcard := card_acked l.acked l.released r k
        rw [if_pos hok]
        simp only [hok, true_and]
        have hkey : (r.accountId, r.blobHash) = r.key := rfl
        rw [hkey]
        by_cases hkr : k = r.key
        · rw [if_pos hkr] at hcard ⊢
          omega
        · rw [if_neg hkr] at hcard ⊢
          omega
      · rw [if_neg hok]
        simp only [hok, false_and, if_false]
        omega
    | release r =>
      obtain ⟨env, hs⟩ := change_release hc
      rw [hc] at he ho
      simp only [decide_eq_true_eq] at he ho
      simp only [Ledger.act, hc, hs]
      have hkey : (r.accountId, r.blobHash) = r.key := rfl
      have hcount := refRelease_count env r.accountId r.blobHash l.state.server k
      rw [hkey] at hcount
      have hcard := card_released he ho k
      by_cases hkr : k = r.key
      · rw [if_pos hkr] at hcard hcount
        omega
      · rw [if_neg hkr] at hcard hcount
        omega

end Step

/-- Every reference held keeps its blob at a positive count, out of reach of the sweeps. -/
def Kept (l : Ledger) : Prop := ∀ r ∈ l.acked, r ∉ l.released →
  ∃ b, l.state.server.db.blobs.find r.key = some b ∧
    (l.held r.key).card ≤ b.refCount ∧ 1 ≤ b.refCount ∧
    ∀ graceCutoff deadCutoff, b ∉ listReclaimableBlobs graceCutoff deadCutoff l.state.server.db

theorem kept_of_covered {l : Ledger} (h : Covered l) : Kept l := by
  intro r ha hr
  have hm : r ∈ l.held r.key := by simp [Ledger.held, ha, hr]
  have hpos : 1 ≤ (l.held r.key).card := Finset.card_pos.2 ⟨r, hm⟩
  have hle : ((l.held r.key).card : Int) ≤ refs l.state.server.db.blobs r.key := h r.key
  cases hf : l.state.server.db.blobs.find r.key with
  | none =>
    rw [refs_none hf] at hle
    omega
  | some b =>
    rw [refs_some hf] at hle
    refine ⟨b, rfl, hle, by omega, fun g d hb => ?_⟩
    have hzero := (reclaimable_zero hb).2
    omega

/-- **References survive retries of their adds.** In a run where a client
releases only what was acknowledged to it and no release is handled twice,
whatever else is delivered again and whenever the sweeps run, a reference that
is acknowledged and not released keeps its blob at a positive count, and no
sweep lists it. Account deletes are left out. -/
theorem references_survive (host : Host) (ref : Nat → Nat) (cfg : Config) {as : List Action}
    (h : AllSteps (Ledger.act host ref)
      (fun l a => l.earned host ref a = true ∧ l.once host ref a = true ∧
        a.deletesAccount = false) (Ledger.init cfg) as) :
    Kept (run (Ledger.act host ref) (Ledger.init cfg) as) :=
  kept_of_covered
    (run_inv_of (fun _ _ hok hI => covered_act hok.1 hok.2.1 hok.2.2 hI) as _ h fun k => by
    simp [Ledger.init, Ledger.held, refs, State.init, Server.fresh, Server.blobs, Db.empty])

/-- A request of client `n` about the empty blob of account `a`. -/
def refRequest (n : Nat) (add : Bool) (now : String) : List Action :=
  let body : Body := .json (.obj [("accountId", .str "a")])
  [.arrive n ⟨some "Bearer token",
    if add then .refAdd emptyHash body else .refRelease emptyHash body⟩,
    .handle n (sampleEnv "-" now)]

/-- The request `n` is about the reference `n % 10`. -/
def sampleRef (n : Nat) : Nat := n % 10

/-- Two clients hold a reference. The release of the first is delivered twice:
the count is zero, and a sweep may take the blob from the second. -/
theorem repeated_release_underruns :
    let as :=
      uploadEmpty "a" "u" "2025-01-01T00:00:00.000Z" ++
      refRequest 1 true "2025-01-02T00:00:00.000Z" ++
      refRequest 2 true "2025-01-02T00:00:01.000Z" ++
      refRequest 11 false "2025-01-03T00:00:00.000Z" ++
      refRequest 21 false "2025-01-03T00:00:05.000Z"
    AllSteps (Ledger.act sampleHost sampleRef)
        (fun l a => l.earned sampleHost sampleRef a = true ∧ a.deletesAccount = false)
          (Ledger.init sampleConfig) as ∧
      ¬ Kept (run (Ledger.act sampleHost sampleRef) (Ledger.init sampleConfig) as) := by
  intro as
  refine ⟨by decide +kernel, fun h => ?_⟩
  obtain ⟨b, hb, -, hpos, -⟩ := h ⟨2, "a", emptyHash⟩ (by decide +kernel) (by decide +kernel)
  have hcounts :
      ((run (Ledger.act sampleHost sampleRef)
        (Ledger.init sampleConfig) as).state.server.db.blobs.find
      ("a", emptyHash)).map (·.refCount) = some 0 := by decide +kernel
  have hb :
      (run (Ledger.act sampleHost sampleRef)
        (Ledger.init sampleConfig) as).state.server.db.blobs.find
      ("a", emptyHash) = some b := hb
  rw [hb] at hcounts
  simp only [Option.map_some, Option.some.injEq] at hcounts
  omega

/-- With the add delivered twice instead, the second client's blob is safe. -/
theorem references_survive_repeated_add :
    let as :=
      uploadEmpty "a" "u" "2025-01-01T00:00:00.000Z" ++
      refRequest 1 true "2025-01-02T00:00:00.000Z" ++
      refRequest 11 true "2025-01-02T00:00:05.000Z" ++
      refRequest 2 true "2025-01-02T00:00:06.000Z" ++
      refRequest 21 false "2025-01-03T00:00:00.000Z" ++ [marchSweep]
    Kept (run (Ledger.act sampleHost sampleRef) (Ledger.init sampleConfig) as) :=
  references_survive sampleHost sampleRef sampleConfig (by decide +kernel)

end GlanceVault.L4
