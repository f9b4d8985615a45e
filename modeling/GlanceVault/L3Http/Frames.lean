import GlanceVault.Core.Guarantee
import GlanceVault.L2Storage.Media
import GlanceVault.L3Http.Router
import GlanceVault.L3Http.Sweeps
/-!
# What a handler leaves alone

For each handler, a part `π` of the server that does not see what the handler
writes is unchanged by it, at its end and at every storage step. `π` is given
by what it ignores: the hub and the logs (`Volatile`), the files, and the
tables outside one group.

* `perform_frame`: a call keeps every part that ignores what it may write
  (`Call.writes`).
* `handleAdmin_steps`: an operator's request changes the registry, or deletes
  an account's rows.
-/
namespace GlanceVault.L3
open GlanceVault.Core GlanceVault.L1 GlanceVault.L1.Js GlanceVault.L2

/-- The groups of tables a call may write, and the files. -/
inductive Area
  | sync
  | intents
  | devices
  | salts
  | blobs
  | uploads
  | files
  | registry
  deriving DecidableEq

/-- What a call may write. -/
def Call.writes : Call → List Area
  | .batch .. => [.sync]
  | .device .. => [.devices]
  | .deleteEntity .. => [.sync]
  | .intents _ => [.intents]
  | .putSalt _ => [.salts]
  | .initiate .. => [.uploads]
  | .putPart .. => [.uploads, .files]
  | .finalize _ => [.uploads, .blobs, .files]
  | .cancel _ => [.uploads, .files]
  | .refAdd _ => [.blobs]
  | .refRelease _ => [.blobs]
  | _ => []

/-- The calls that reach the hub of live streams. -/
def Call.talks : Call → Bool
  | .batch .. => true
  | .deleteEntity .. => true
  | .intents _ => true
  | .connect => true
  | _ => false

section
variable {γ : Type}

/-- `π` ignores the hub, the logs and the stream counter. -/
def Volatile (π : Server → γ) : Prop :=
  ∀ (s : Server) hub n p q, π ⟨s.db, s.disk, hub, n, p, q⟩ = π s

/-- `π` ignores an area. -/
def Ignores (π : Server → γ) : Area → Prop
  | .sync => ∀ (s : Server) db, db.outsideSync = s.db.outsideSync → π { s with db := db } = π s
  | .intents =>
    ∀ (s : Server) db, db.outsideIntents = s.db.outsideIntents → π { s with db := db } = π s
  | .devices => ∀ (s : Server) db, { db with devices := .empty } = { s.db with devices := .empty } →
      π { s with db := db } = π s
  | .salts =>
    ∀ (s : Server) db, { db with accountSalts := .empty } = { s.db with accountSalts := .empty } →
      π { s with db := db } = π s
  | .blobs => ∀ (s : Server) db, db.outsideBlobs = s.db.outsideBlobs → π { s with db := db } = π s
  | .uploads =>
    ∀ (s : Server) db, db.outsideUploads = s.db.outsideUploads → π { s with db := db } = π s
  | .files => ∀ (s : Server) d, π { s with disk := d } = π s
  | .registry =>
    ∀ (s : Server) db, db.outsideRegistry = s.db.outsideRegistry → π { s with db := db } = π s

variable {π : Server → γ}

/-- What is computed from a part that ignores an area ignores it. -/
theorem Ignores.map {δ : Type} (g : γ → δ) {area : Area} (h : Ignores π area) :
    Ignores (fun s => g (π s)) area := by
  cases area with
  | files => exact fun s d => congrArg g (h s d)
  | _ => exact fun s db e => congrArg g (h s db e)

/-- A part that does not see what `f` takes out of the database. -/
theorem ignores_of {f : Db → Db} (hf : ∀ s : Server, π { s with db := f s.db } = π s) (s : Server)
    (db : Db)
    (e : f db = f s.db) : π { s with db := db } = π s := by
  have h := hf { s with db := db }
  simp only [e] at h
  rw [← h, ← hf s]

theorem emit_frame (hv : Volatile π) (env : Env) (a : String) (nudge : Nudge) :
    Prog.Keeps π (emit env a nudge) :=
  emit_keeps fun s hub p q => hv s hub s.nextId p q

theorem batch_frame (hv : Volatile π) (hs : Ignores π .sync) (cfg : Config) (env : Env)
    (a app : String)
    (rows : List SyncRowInput) (notify : Bool) :
    Prog.Keeps π (batch cfg env a app rows notify) := by
  unfold batch
  refine .bind (gated_keeps cfg _) fun _ =>
    .bind (exec_keeps (batchUpsert_frame app a rows env.clock) hs) fun r => ?_
  refine .ite ?_ (.pure _)
  exact .bind (emit_frame hv env a _) fun _ => .pure _

theorem deleteEntity_frame (hv : Volatile π) (hs : Ignores π .sync) (env : Env) (a app e : String)
    (deletedAt : Option Nat) : Prog.Keeps π (deleteEntity env a app e deletedAt) := by
  unfold deleteEntity
  refine .bind (exec_keeps (softDeleteRow_frame app a e _ _) hs) fun r =>
    .bind (.found _ _) fun r => ?_
  refine .ite (.pure _) ?_
  exact .bind (emit_frame hv env a _) fun _ => .pure _

theorem intentsBatch_frame (hv : Volatile π) (hi : Ignores π .intents) (cfg : Config) (env : Env)
    (a : String)
    (events : List IntentEventInput) : Prog.Keeps π (intentsBatch cfg env a events) := by
  unfold intentsBatch
  refine .bind (gated_keeps cfg _) fun _ =>
    .bind (exec_keeps (insertIntents_frame a events env.clock) hi) fun r => ?_
  refine .ite ?_ (.pure _)
  exact .bind (emit_frame hv env a _) fun _ => .pure _

theorem discardSession_frame (hf : Ignores π .files) (u : String) :
    Prog.Keeps π (discardSession u) :=
  .bind (assert_keeps _) fun _ => file_keeps fun s => hf s _

theorem writePart_frame (hf : Ignores π .files) (u : String) (i : Nat) (bytes : Bytes) :
    Prog.Keeps π (writePart u i bytes) :=
  .bind (assert_keeps _) fun _ => .bind (file_keeps fun s => hf s _) fun _ =>
    file_keeps fun s => hf s _

theorem put_frame (hf : Ignores π .files) (hash : String) (bytes : Bytes) :
    Prog.Keeps π (put hash bytes) := by
  unfold put
  refine .bind (assert_keeps _) fun _ => .bind (.get _) fun present => .ite (.pure _) ?_
  exact .bind (file_keeps fun s => hf s _) fun _ => file_keeps fun s => hf s _

theorem deleteBytes_frame (hf : Ignores π .files) (hash : String) :
    Prog.Keeps π (deleteBytes hash) :=
  .bind (assert_keeps _) fun _ => file_keeps fun s => hf s _

theorem discardUploadSession_frame (hu : Ignores π .uploads) (hf : Ignores π .files)
    (a u : String) :
    Prog.Keeps π (discardUploadSession a u) := by
  unfold discardUploadSession
  refine .bind (readDb_keeps _) fun session => ?_
  cases session with
  | none => exact .pure _
  | some s =>
    exact .bind (discardSession_frame hf u) fun _ =>
      exec_keeps (deleteUploadSessionFor_frame a u) hu

theorem initiate_frame (hu : Ignores π .uploads) (cfg : Config) (env : Env) (a h : String)
    (size : Nat) :
    Prog.Keeps π (initiate cfg env a h size) := by
  unfold initiate
  refine .bind (readDb_keeps _) fun owned => ?_
  cases owned with
  | some b => exact .pure _
  | none =>
    refine .bind (gated_keeps cfg _) fun _ => .bind (exec_keeps ?_ hu) fun _ => .pure _
    exact createUploadSession_frame a env.uuid h size _

theorem putPart_frame (hu : Ignores π .uploads) (hf : Ignores π .files) (env : Env)
    (a u index : String) (bytes : Bytes) : Prog.Keeps π (putPart env a u index bytes) := by
  unfold putPart stageUploadPart
  refine .bind (readDb_keeps _) fun _ => .bind (.found _ _) fun session =>
    .bind (.found _ _) fun i => ?_
  refine .bind (readDb_keeps _) fun parts => .bind (.require _ _) fun _ => .bind ?_ fun _ => ?_
  · refine .bind (readDb_keeps _) fun _ => .bind (.require _ _) fun _ =>
      .bind (writePart_frame hf _ _ _) fun _ => ?_
    exact exec_keeps (recordUploadPart_frame a session.uploadId i bytes.length _) hu
  · exact .bind (readDb_keeps _) fun _ => .pure _

theorem cancel_frame (hu : Ignores π .uploads) (hf : Ignores π .files) (a u : String) :
    Prog.Keeps π (cancel a u) := by
  unfold cancel
  refine .bind (readDb_keeps _) fun _ => .bind (.found _ _) fun session => ?_
  exact .bind (discardUploadSession_frame hu hf a _) fun _ => .pure _

theorem assembleUpload_frame (a u : String) : Prog.Keeps π (assembleUpload a u) :=
  .bind (readDb_keeps _) fun _ => .bind (.require _ _) fun _ =>
    .bind (readDb_keeps _) fun _ => readDisk_keeps _

theorem finalizeGate_frame (hu : Ignores π .uploads) (hf : Ignores π .files) (cfg : Config)
    (a u : String) (size : Nat) : Prog.Keeps π (finalizeGate cfg a u size) := by
  unfold finalizeGate
  split
  · exact .pure _
  · refine .bind (readDb_keeps _) fun rejected => ?_
    cases rejected with
    | none => exact .pure _
    | some v => exact .bind (discardUploadSession_frame hu hf a u) fun _ => .raise _

theorem finalize_frame (hu : Ignores π .uploads) (hb : Ignores π .blobs) (hf : Ignores π .files)
    (cfg : Config)
    (host : Host) (env : Env) (a u : String) : Prog.Keeps π (finalize cfg host env a u) := by
  unfold finalize
  refine .bind (readDb_keeps _) fun _ => .bind (.found _ _) fun session =>
    .bind (readDb_keeps _) fun owned => ?_
  cases owned with
  | some b => exact .bind (discardUploadSession_frame hu hf a _) fun _ => .pure _
  | none =>
    unfold storeUpload
    refine .bind (assembleUpload_frame a _) fun bytes => .bind (.require _ _) fun _ => .ite ?_ ?_
    · exact .bind (discardUploadSession_frame hu hf a _) fun _ => .raise _
    · refine .bind (finalizeGate_frame hu hf cfg a _ _) fun _ =>
        .bind (put_frame hf _ _) fun _ => ?_
      refine .bind (exec_keeps (insertBlobIfAbsent_frame a session.blobHash _ _) hb) fun _ => ?_
      exact .bind (discardUploadSession_frame hu hf a _) fun _ => .pure _

theorem changeRef_frame {change : DbTx (Option Blob)} (h : change.Keeps Db.outsideBlobs)
    (hb : Ignores π .blobs) :
    Prog.Keeps π (changeRef change) :=
  .bind (exec_keeps h hb) fun _ => .bind (.found _ _) fun _ => .pure _

theorem statBlobBytes_frame (a h : String) : Prog.Keeps π (statBlobBytes a h) := by
  unfold statBlobBytes
  refine .bind (readDb_keeps _) fun r => ?_
  cases r with
  | none => exact .pure _
  | some b => exact readDisk_keeps _

theorem readBlobRange_frame (a h : String) (i j : Nat) : Prog.Keeps π (readBlobRange a h i j) :=
  .bind (readDb_keeps _) fun _ => .bind (.require _ _) fun _ => readDisk_keeps _

theorem download_frame (a h : String) (range : Option String) :
    Prog.Keeps π (download a h range) := by
  unfold download
  refine .bind (statBlobBytes_frame a h) fun stat => .bind (.found _ _) fun size => ?_
  split
  · exact .pure _
  · refine .ite (.pure _) ?_
    exact .bind (readBlobRange_frame a h _ _) fun _ => .pure _
  · exact .bind (readBlobRange_frame a h _ _) fun _ => .pure _

theorem connect_frame (hv : Volatile π) (cfg : Config) (credential : Option Credential)
    (a : String) :
    Prog.Keeps π (connect cfg credential a) := by
  unfold connect
  refine .bind (.get _) fun id => .bind (.get _) fun subscribed =>
    .bind (.poke fun s => ?_) fun _ => ?_
  · exact hv s _ _ s.published s.delivered
  · exact .bind (.require _ _) fun _ => .bind (readDb_keeps _) fun _ => .pure _

/-- **What a call does not write, it keeps**, and what the hub and the logs
say unless it talks to them. -/
theorem perform_frame_of (cfg : Config) (host : Host) (credential : Option Credential) (env : Env)
    (a : String) (call : Call) (hv : call.talks = true → Volatile π)
    (h : ∀ area ∈ call.writes, Ignores π area) :
    Prog.Keeps π (perform cfg host credential env a call) := by
  cases call with
  | batch app rows notify =>
    exact batch_frame (hv rfl) (h .sync (by simp [Call.writes])) cfg env a app rows notify
  | device d n =>
    refine .bind (exec_keeps (updateDeviceCursor_frame a d n _) ?_) fun _ => .pure _
    exact h .devices (by simp [Call.writes])
  | list app since limit => exact .bind (readDb_keeps _) fun _ => .pure _
  | getEntity app e => exact .bind (readDb_keeps _) fun _ => .bind (.found _ _) fun _ => .pure _
  | deleteEntity app e t =>
    exact deleteEntity_frame (hv rfl) (h .sync (by simp [Call.writes])) env a app e t
  | intents events =>
    exact intentsBatch_frame (hv rfl) (h .intents (by simp [Call.writes])) cfg env a events
  | listIntents since limit => exact .bind (readDb_keeps _) fun _ => .pure _
  | getSalt => exact .bind (readDb_keeps _) fun _ => .bind (.found _ _) fun _ => .pure _
  | putSalt salt =>
    refine .bind (exec_keeps (putSaltIfAbsent_frame a salt _) ?_) fun _ => .pure _
    exact h .salts (by simp [Call.writes])
  | initiate hash valid size =>
    exact initiate_frame (h .uploads (by simp [Call.writes])) cfg env a hash size
  | uploadStatus u =>
    exact .bind (readDb_keeps _) fun _ => .bind (.found _ _) fun _ =>
      .bind (readDb_keeps _) fun _ => .pure _
  | putPart u index bytes =>
    exact putPart_frame (h .uploads (by simp [Call.writes]))
      (h .files (by simp [Call.writes])) env a u index bytes
  | finalize u =>
    exact finalize_frame (h .uploads (by simp [Call.writes])) (h .blobs (by simp [Call.writes]))
      (h .files (by simp [Call.writes])) cfg host env a u
  | cancel u =>
    exact cancel_frame (h .uploads (by simp [Call.writes])) (h .files (by simp [Call.writes])) a u
  | refAdd hash =>
    exact changeRef_frame (addBlobReference_frame a hash _) (h .blobs (by simp [Call.writes]))
  | refRelease hash =>
    exact changeRef_frame (releaseBlobReference_frame a hash _) (h .blobs (by simp [Call.writes]))
  | head hash => exact .bind (readDb_keeps _) fun _ => .bind (.found _ _) fun _ => .pure _
  | download hash range => exact download_frame a hash range
  | connect => exact connect_frame (hv rfl) cfg credential a

theorem perform_frame (hv : Volatile π) (cfg : Config) (host : Host)
    (credential : Option Credential) (env : Env)
    (a : String) (call : Call) (h : ∀ area ∈ call.writes, Ignores π area) :
    Prog.Keeps π (perform cfg host credential env a call) :=
  perform_frame_of cfg host credential env a call (fun _ => hv) h

/-! ## Sweeps -/

theorem reclaimSweep_frame (hb : Ignores π .blobs) (hf : Ignores π .files) (policy : ReclaimPolicy)
    (nowMs : Int) :
    Prog.Keeps π (reclaimSweep policy nowMs) := by
  unfold reclaimSweep
  refine .ite (.bind (.ofExcept _) fun g => .bind (.ofExcept _) fun d => .bind
    (readDb_keeps _) fun E => ?_) (.pure _)
  refine .bind (.each (fun b => .bind (deleteBytes_frame hf _) fun _ => ?_) E) fun _ => .pure _
  exact .bind (exec_keeps (deleteBlob_frame b.accountId b.blobHash) hb) fun _ => .pure _

theorem reapUploadSessions_frame (hu : Ignores π .uploads) (hf : Ignores π .files)
    (ttlMs nowMs : Int) :
    Prog.Keeps π (reapUploadSessions ttlMs nowMs) := by
  unfold reapUploadSessions
  refine .bind (.ofExcept _) fun cutoff => .bind (readDb_keeps _) fun stale => ?_
  refine .bind (.each (fun s => .bind (discardSession_frame hf _) fun _ => ?_) stale) fun _ =>
    .pure _
  exact exec_keeps (deleteUploadSession_frame s.uploadId) hu

/-! ## Administration -/

theorem enroll_frame (hr : Ignores π .registry) (cfg : Config) (host : Host) (env : Env)
    (body : Body) :
    Prog.Keeps π (enroll cfg host env body) := by
  unfold enroll
  refine .bind (.ofExcept _) fun body => .bind (readDb_keeps _) fun d =>
    .bind (.ofExcept _) fun a => ?_
  exact .bind (.ofExcept _) fun dev =>
    .bind (exec_keeps (issueCredential_frame _ _ _ _ _) hr) fun _ => .pure _

theorem onRevoked_frame (hv : Volatile π) (id : String) : Prog.Keeps π (onRevoked id) :=
  .poke fun s => hv s _ s.nextId s.published s.delivered

theorem revokeCredential_frame (hv : Volatile π) (hr : Ignores π .registry) (env : Env)
    (id : String) :
    Prog.Keeps π (revokeCredential env id) := by
  unfold revokeCredential
  refine .bind (exec_keeps (stampRevoked_frame _ _) hr) fun n => .bind (readDb_keeps _) fun r => ?_
  refine .bind (.found _ _) fun r => .ite ?_ (.pure _)
  exact .bind (onRevoked_frame hv _) fun _ => .pure _

theorem createAccountRoute_frame (hr : Ignores π .registry) (cfg : Config) (host : Host)
    (env : Env) (body : Body) :
    Prog.Keeps π (createAccountRoute cfg host env body) := by
  unfold createAccountRoute
  refine .bind (.ofExcept _) fun body => .bind (.ofExcept _) fun label =>
    .bind (.ofExcept _) fun a => ?_
  refine .bind (exec_keeps (createAccount_frame _ _ _ _ _) hr) fun r => ?_
  split
  · exact .raise _
  · exact .raise _
  · exact .pure _

theorem rotateKeyRoute_frame (hv : Volatile π) (hr : Ignores π .registry) (host : Host) (env : Env)
    (a : String) (body : Body) : Prog.Keeps π (rotateKeyRoute host env a body) := by
  unfold rotateKeyRoute
  refine .bind (.ofExcept _) fun body => .bind (.ofExcept _) fun b => ?_
  refine .bind (exec_keeps (rotateAccountKey_frame _ _ _ _) hr) fun r =>
    .bind (.found _ _) fun r => ?_
  exact .bind (.each (fun id => onRevoked_frame hv id) _) fun _ => .pure _

theorem unmounted_frame (cfg : Config) (host : Host) (header : Option String) :
    Prog.Keeps π (unmounted cfg host header) := by
  refine .bind (readDb_keeps _) fun r => ?_
  cases r with
  | ok c => exact .pure _
  | error r => exact .pure _

/-- An operator's request that deletes no account writes the registry only. -/
theorem handleAdmin_frame (hv : Volatile π) (hr : Ignores π .registry) (cfg : Config) (host : Host)
    (env : Env)
    (header : Option String) {route : AdminRoute} (h : ∀ a body, route ≠ .deleteAccount a body) :
    Prog.Keeps π (handleAdmin cfg host env header route) := by
  unfold handleAdmin
  refine .ite (.bind (.ofExcept _) fun _ => ?_)
    (.bind (.ofExcept _) fun _ => unmounted_frame cfg host header)
  cases route with
  | enroll body => exact enroll_frame hr cfg host env body
  | revoke id => exact revokeCredential_frame hv hr env id
  | createAccount body => exact createAccountRoute_frame hr cfg host env body
  | rotateKey a body => exact rotateKeyRoute_frame hv hr host env a body
  | deleteAccount a body => exact absurd rfl (h a body)

end

/-- What an operator's request can do to the database in one storage step. -/
inductive AdminStep : Db → Db → Prop
  | registry {db db' : Db} (h : db'.outsideRegistry = db.outsideRegistry) : AdminStep db db'
  | delete (db : Db) (a : String) : AdminStep db (db.without a)

theorem deleteAccountRoute_steps {P : Server → Prop} (a : String) (body : Body) :
    Prog.Follows Server.db (fun d d' => d' = d.without a) P (deleteAccountRoute a body) fun _ _ =>
      True := by
  have hfile : ∀ (r : Except String Unit) (f : Disk → Disk),
      Prog.Keeps Server.db (do assert r; file f) :=
    fun r f => .bind (assert_keeps r) fun _ => file_keeps fun _ => rfl
  unfold deleteAccountRoute
  refine Prog.Follows.bind (Q := fun _ _ => True) (.ofExcept fun _ _ _ _ => trivial) fun body => ?_
  refine Prog.Follows.bind (Q := fun _ _ => True) (.ofExcept fun _ _ _ _ => trivial) fun confirm =>
    ?_
  refine .bind (.guard _ _) fun _ => ?_
  refine Prog.Follows.bind (Q := fun _ _ => True) (.step fun s o s' _ e => ⟨?_, trivial⟩) fun r =>
    ?_
  · rw [deleteAccount_eval] at e
    cases hf : s.db.accounts.find a with
    | none => rw [hf] at e; cases e; exact .inl rfl
    | some record => rw [hf] at e; cases e; exact .inr rfl
  · refine Prog.Keeps.followsAny (.bind (.found _ _) fun r => ?_)
    refine .bind (.each (fun id => onRevoked_frame (fun _ _ _ _ _ => rfl) id) _) fun _ => ?_
    refine .bind (.each (fun u => hfile _ _) _) fun _ =>
      .bind (.each (fun h => hfile _ _) _) fun _ => ?_
    exact .pure _

theorem handleAdmin_steps {P : Server → Prop} (cfg : Config) (host : Host) (env : Env)
    (header : Option String)
    (route : AdminRoute) : Prog.Follows Server.db AdminStep P
      (handleAdmin cfg host env header route) fun _ _ => True := by
  have hr : Ignores (fun s : Server => s.db.outsideRegistry) .registry := fun _ _ e => e
  have hstep : (∀ a body, route ≠ .deleteAccount a body) →
      Prog.Follows Server.db AdminStep P (handleAdmin cfg host env header route) fun _ _ =>
        True := fun h =>
    (handleAdmin_frame (fun _ _ _ _ _ => rfl) hr cfg host env header h).followsOf fun _ _ e =>
      .registry e
  cases route with
  | deleteAccount a body =>
    unfold handleAdmin
    refine .ite (fun _ => ?_) fun _ => ?_
    · refine Prog.Follows.bind (Q := fun _ => P) (.ofExcept fun _ _ _ hs => hs) fun _ => ?_
      exact (deleteAccountRoute_steps a body).mono fun d d' e => e ▸ .delete d a
    · refine Prog.Follows.bind (Q := fun _ => P) (.ofExcept fun _ _ _ hs => hs) fun _ => ?_
      exact (unmounted_frame cfg host header).followsAny
  | _ => exact hstep fun _ _ e => nomatch e

end GlanceVault.L3
