import GlanceVault.L2Storage.Parts
import GlanceVault.L3Http.Frames
/-!
# The operations a handler runs

Whatever a handler does to the database it does by the operations of the store,
one transaction after the other. So what every operation of some kind does to
the database, every handler that runs no others does.

* `perform_ops`, `perform_runs`: an account-scoped call runs no operation on the
  registry and deletes no account, and the batch it runs is its own.
* `handleAdmin_runs`: an operator's request runs operations on the registry, or
  deletes an account.
* `Runs.inv`: what the operations preserve, the handler preserves.
-/
namespace GlanceVault.L3
open GlanceVault.Core GlanceVault.L1 GlanceVault.L1.Js GlanceVault.L2

/-- One operation of the kind `p`, committed. -/
def OpStep (p : StoreOp → Prop) (d d' : Db) : Prop := ∃ o, p o ∧ o.tx.eval d = .ok ((), d')

/-- Every storage step of the handler on the database is an operation of the
kind `p`. -/
def Runs (p : StoreOp → Prop) {α : Type} (m : Handler α) : Prop :=
  Prog.Follows Server.db (OpStep p) (fun _ => True) m fun _ _ => True

section Rules
variable {p q : StoreOp → Prop} {α β : Type}

theorem Runs.keeps {m : Handler α} (h : Prog.Keeps Server.db m) : Runs p m := h.followsAny

theorem Runs.bind {m : Handler α} {f : α → Handler β} (hm : Runs p m) (hf : ∀ a, Runs p (f a)) :
    Runs p (m >>= f) :=
  Prog.Follows.bind hm hf

theorem Runs.pure (a : α) : Runs p (Pure.pure a : Handler α) := .keeps (.pure a)

theorem Runs.raise (e : Abort) : Runs p (Prog.raise e : Handler α) := .keeps (.raise e)

theorem Runs.each {f : β → Handler Unit} (h : ∀ x, Runs p (f x)) (xs : List β) :
    Runs p (Prog.each f xs) := by
  induction xs with
  | nil => exact .pure ()
  | cons x xs ih => exact .bind (h x) fun _ => ih

theorem Runs.mono {m : Handler α} (h : Runs p m) (hpq : ∀ o, p o → q o) : Runs q m :=
  Prog.Follows.mono h fun _ _ ⟨o, ho, e⟩ => ⟨o, hpq o ho, e⟩

/-- A transaction that is an operation of the store. -/
theorem Runs.exec {m : DbTx α} (o : StoreOp) (ho : p o) (hm : o.tx = m.void) : Runs p (exec m) := by
  refine .step fun s a s' _ e => ⟨.inr ⟨o, ho, ?_⟩, trivial⟩
  cases he : m.eval s.db with
  | error x => rw [he] at e; cases e
  | ok r =>
    rw [he] at e
    cases e
    rw [hm]
    unfold Tx.void
    rw [Tx.eval_bind, he]
    rfl

theorem Runs.inv {m : Handler α} (h : Runs p m) {I : Db → Prop}
    (hI : ∀ o d d', p o → o.tx.eval d = .ok ((), d') → I d → I d') {s : Server} (hs : I s.db) :
    I (m s).state.db :=
  Prog.reach_inv (fun _ _ ⟨o, ho, e⟩ => hI o _ _ ho e) (Prog.Follows.state h trivial) hs

end Rules

/-- An operation of the account-scoped routes. -/
def Scoped (o : StoreOp) : Prop := o.part ≠ .registry ∧ o.part ≠ .account

/-- An operation of a call: it is scoped, and a batch is the call's. -/
def Call.Op (a : String) (call : Call) (o : StoreOp) : Prop :=
  Scoped o ∧ ∀ app b rows now, o = .batchUpsert app b rows now → b = a ∧
  ∃ notify, call = .batch app rows notify

/-- An operation of the upload routes and the sweeps. -/
def Uploads (o : StoreOp) : Prop := o.part = .uploads ∨ o.part = .blobs

theorem Uploads.scoped {o : StoreOp} (h : Uploads o) : Scoped o := by
  rcases h with h | h <;> unfold Scoped <;> rw [h] <;> exact ⟨nofun, nofun⟩

theorem Uploads.op {a : String} {call : Call} {o : StoreOp} (h : Uploads o) : call.Op a o := by
  refine ⟨h.scoped, fun app b rows now e => ?_⟩
  rw [e] at h
  rcases h with h | h <;> cases h

section Calls

theorem db_volatile : Volatile fun s : Server => s.db := fun _ _ _ _ _ => rfl

theorem discardUploadSession_runs (a u : String) : Runs Uploads (discardUploadSession a u) := by
  unfold discardUploadSession
  refine .bind (.keeps (readDb_keeps _)) fun session => ?_
  cases session with
  | none => exact .pure _
  | some s =>
    refine .bind (.keeps (discardSession_frame (fun _ _ => rfl) u)) fun _ => ?_
    exact .exec (.deleteUploadSessionFor a u) (.inl rfl) rfl

theorem finalizeGate_runs (cfg : Config) (a u : String) (size : Nat) :
    Runs Uploads (finalizeGate cfg a u size) := by
  unfold finalizeGate
  split
  · exact .pure _
  · refine .bind (.keeps (readDb_keeps _)) fun rejected => ?_
    cases rejected with
    | none => exact .pure _
    | some v => exact .bind (discardUploadSession_runs a u) fun _ => .raise _

theorem finalize_runs (cfg : Config) (host : Host) (env : Env) (a u : String) :
    Runs Uploads (finalize cfg host env a u) := by
  unfold finalize
  refine .bind (.keeps (readDb_keeps _)) fun _ => .bind (.keeps (.found _ _)) fun session => ?_
  refine .bind (.keeps (readDb_keeps _)) fun owned => ?_
  cases owned with
  | some b => exact .bind (discardUploadSession_runs a _) fun _ => .pure _
  | none =>
    unfold storeUpload
    refine .bind (.keeps (assembleUpload_frame a _)) fun bytes =>
      .bind (.keeps (.require _ _)) fun _ => ?_
    split
    · exact .bind (discardUploadSession_runs a _) fun _ => .raise _
    · refine .bind (finalizeGate_runs cfg a _ _) fun _ =>
        .bind (.keeps (put_frame (fun _ _ => rfl) _ _)) fun _ => ?_
      refine .bind (.exec (.insertBlobIfAbsent a _ _ _) (.inr rfl) rfl) fun _ => ?_
      exact .bind (discardUploadSession_runs a _) fun _ => .pure _

/-- **What a call runs.** -/
theorem perform_ops (cfg : Config) (host : Host) (credential : Option Credential) (env : Env)
    (a : String) (call : Call) : Runs (call.Op a) (perform cfg host credential env a call) := by
  have hread : (∀ area ∈ call.writes, Ignores (fun s : Server => s.db) area) →
      Runs (call.Op a) (perform cfg host credential env a call) := fun h =>
    .keeps (perform_frame db_volatile cfg host credential env a call h)
  have hemit : ∀ {c : Call} {nudge : Nudge} {r : Response},
      Runs (c.Op a) (do emit env a nudge; pure r) :=
    fun {c nudge r} => .keeps (.bind (emit_frame db_volatile env a nudge) fun _ => .pure r)
  have huploads : ∀ {c : Call} {α : Type} {m : Handler α}, Runs Uploads m → Runs (c.Op a) m :=
    fun h => h.mono fun _ ho => ho.op
  cases call with
  | batch app rows notify =>
    refine .bind (.keeps (gated_keeps cfg _)) fun _ => ?_
    refine .bind (.exec (.batchUpsert app a rows env.clock) ⟨⟨nofun, nofun⟩,
      fun _ _ _ _ e => ?_⟩ rfl) fun r => ?_
    · cases e
      exact ⟨rfl, notify, rfl⟩
    · split
      · exact hemit
      · exact .pure _
  | device d n =>
    exact .bind (.exec (.updateDeviceCursor a d n _) ⟨⟨nofun, nofun⟩, nofun⟩ rfl) fun _ => .pure _
  | deleteEntity app e t =>
    refine .bind (.exec (.softDeleteRow app a e _ _) ⟨⟨nofun, nofun⟩, nofun⟩ rfl) fun r => ?_
    refine .bind (.keeps (.found _ _)) fun r => ?_
    split
    · exact .pure _
    · exact hemit
  | intents events =>
    refine .bind (.keeps (gated_keeps cfg _)) fun _ => ?_
    refine .bind (.exec (.insertIntents a events env.clock) ⟨⟨nofun, nofun⟩, nofun⟩ rfl) fun r => ?_
    split
    · exact hemit
    · exact .pure _
  | putSalt salt =>
    exact .bind (.exec (.putSaltIfAbsent a salt _) ⟨⟨nofun, nofun⟩, nofun⟩ rfl) fun _ => .pure _
  | initiate hash valid size =>
    refine .bind (.keeps (readDb_keeps _)) fun owned => ?_
    cases owned with
    | some b => exact .pure _
    | none =>
      refine .bind (.keeps (gated_keeps cfg _)) fun _ => ?_
      exact huploads
        (.bind (.exec (.createUploadSession a env.uuid hash size _)
          (.inl rfl) rfl) fun _ => .pure _)
  | putPart u index bytes =>
    refine .bind (.keeps (readDb_keeps _)) fun _ => .bind (.keeps (.found _ _)) fun session => ?_
    refine .bind (.keeps (.found _ _)) fun i => .bind (.keeps (readDb_keeps _)) fun parts => ?_
    refine .bind (.keeps (.require _ _)) fun _ => .bind ?_ fun _ =>
      .bind (.keeps (readDb_keeps _)) fun _ => .pure _
    refine .bind (.keeps (readDb_keeps _)) fun _ => .bind (.keeps (.require _ _)) fun _ => ?_
    refine .bind (.keeps (writePart_frame (fun _ _ => rfl) _ _ _)) fun _ => ?_
    exact huploads (.exec (.recordUploadPart a session.uploadId i bytes.length _) (.inl rfl) rfl)
  | finalize u => exact huploads (finalize_runs cfg host env a u)
  | cancel u =>
    refine .bind (.keeps (readDb_keeps _)) fun _ => .bind (.keeps (.found _ _)) fun session => ?_
    exact huploads (.bind (discardUploadSession_runs a _) fun _ => .pure _)
  | refAdd hash =>
    exact huploads (.bind (.exec (.addBlobReference a hash _) (.inr rfl) rfl) fun _ =>
      .keeps (.bind (.found _ _) fun _ => .pure _))
  | refRelease hash =>
    exact huploads (.bind (.exec (.releaseBlobReference a hash _) (.inr rfl) rfl) fun _ =>
      .keeps (.bind (.found _ _) fun _ => .pure _))
  | _ => exact hread (by simp [Call.writes])

/-- **An account-scoped call runs scoped operations only.** -/
theorem perform_runs (cfg : Config) (host : Host) (credential : Option Credential) (env : Env)
    (a : String) (call : Call) : Runs Scoped (perform cfg host credential env a call) :=
  (perform_ops cfg host credential env a call).mono fun _ ho => ho.1

end Calls

/-! ## The operator and the sweeps -/

theorem reclaimSweep_runs (policy : ReclaimPolicy) (nowMs : Int) :
    Runs Uploads (reclaimSweep policy nowMs) := by
  unfold reclaimSweep
  split
  · refine .bind (.keeps (.ofExcept _)) fun _ => .bind (.keeps (.ofExcept _)) fun _ => ?_
    refine .bind (.keeps (readDb_keeps _)) fun E => .bind (.each (fun b => ?_) E) fun _ => .pure _
    refine .bind (.keeps (deleteBytes_frame (fun _ _ => rfl) _)) fun _ => ?_
    exact .bind (.exec (.deleteBlob b.accountId b.blobHash) (.inr rfl) rfl) fun _ => .pure _
  · exact .pure _

theorem reapUploadSessions_runs (ttlMs nowMs : Int) :
    Runs Uploads (reapUploadSessions ttlMs nowMs) := by
  unfold reapUploadSessions
  refine .bind (.keeps (.ofExcept _)) fun _ => .bind (.keeps (readDb_keeps _)) fun stale => ?_
  refine .bind (.each (fun s => ?_) stale) fun _ => .pure _
  refine .bind (.keeps (discardSession_frame (fun _ _ => rfl) _)) fun _ => ?_
  exact .exec (.deleteUploadSession s.uploadId) (.inl rfl) rfl

/-- What an operator's request may run. -/
def AdminRoute.Op : AdminRoute → StoreOp → Prop
  | .deleteAccount a _, o => o = .deleteAccount a
  | _, o => o.part = .registry

theorem onRevoked_runs {p : StoreOp → Prop} (id : String) : Runs p (onRevoked id) :=
  .keeps (onRevoked_frame db_volatile id)

/-- **An operator's request runs operations on the registry, or one delete.** -/
theorem handleAdmin_runs (cfg : Config) (host : Host) (env : Env) (header : Option String)
    (route : AdminRoute) :
    Runs route.Op (handleAdmin cfg host env header route) := by
  unfold handleAdmin
  split
  · refine .bind (.keeps (.ofExcept _)) fun _ => ?_
    cases route with
    | enroll body =>
      refine .bind (.keeps (.ofExcept _)) fun body => .bind (.keeps (readDb_keeps _)) fun d => ?_
      refine .bind (.keeps (.ofExcept _)) fun a => .bind (.keeps (.ofExcept _)) fun dev => ?_
      exact .bind (.exec (.issueCredential _ _ _ _ _) rfl rfl) fun _ => .pure _
    | revoke id =>
      refine .bind (.exec (.revokeCredential _ _) rfl rfl) fun n =>
        .bind (.keeps (readDb_keeps _)) fun r => ?_
      refine .bind (.keeps (.found _ _)) fun r => ?_
      split
      · exact .bind (onRevoked_runs _) fun _ => .pure _
      · exact .pure _
    | createAccount body =>
      refine .bind (.keeps (.ofExcept _)) fun body => .bind (.keeps (.ofExcept _)) fun label => ?_
      refine .bind (.keeps (.ofExcept _)) fun a =>
        .bind (.exec (.createAccount _ _ _ _ _) rfl rfl) fun r => ?_
      split
      · exact .raise _
      · exact .raise _
      · exact .pure _
    | rotateKey a body =>
      refine .bind (.keeps (.ofExcept _)) fun body => .bind (.keeps (.ofExcept _)) fun b => ?_
      refine .bind (.exec (.rotateAccountKey _ _ _ _) rfl rfl) fun r =>
        .bind (.keeps (.found _ _)) fun r => ?_
      exact .bind (.each (fun id => onRevoked_runs id) _) fun _ => .pure _
    | deleteAccount a body =>
      refine .bind (.keeps (.ofExcept _)) fun body => .bind (.keeps (.ofExcept _)) fun confirm => ?_
      refine .bind (.keeps (.require _ _)) fun _ =>
        .bind (.exec (.deleteAccount a) rfl rfl) fun r => ?_
      refine .bind (.keeps (.found _ _)) fun r =>
        .bind (.each (fun id => onRevoked_runs id) _) fun _ => ?_
      refine .bind (.each (fun u => .keeps (discardSession_frame (fun _ _ => rfl) u)) _) fun _ => ?_
      exact .bind (.each (fun h => .keeps (deleteBytes_frame (fun _ _ => rfl) h)) _) fun _ =>
        .pure _
  · exact .bind (.keeps (.ofExcept _)) fun _ => .keeps (unmounted_frame cfg host header)

end GlanceVault.L3
