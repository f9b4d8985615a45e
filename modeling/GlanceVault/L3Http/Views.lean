import GlanceVault.Core.Views
import GlanceVault.L2Storage.Apart
import GlanceVault.L3Http.Frames
/-!
# What an answer depends on

`Server.part ρ` shows the part `ρ` of the database, and the files. A call other
than a connect depends on what the account-scoped tables and the files hold, and
on nothing else: not on the registry, the credential it came with, the open
streams or the deliveries that fail.

* `perform_matches`: a call, with `ρ` everything but the registry;
  `perform_stored`: with the whole database.
* `reclaimSweep_matches`, `reapUploadSessions_matches`: the sweeps, likewise.
* `handleAdmin_stored`: an operator's request depends on the whole database and
  the files, not on the streams.
-/
namespace GlanceVault.L3
open GlanceVault.Core GlanceVault.L1 GlanceVault.L1.Js GlanceVault.L2

/-- What a handler that reads the database through `ρ` can see. -/
def Server.part (ρ : Db → Db) (s : Server) : Db × Disk := (ρ s.db, s.disk)

section Steps
variable {ρ : Db → Db}

theorem part_db {s t : Server} (h : s.part ρ = t.part ρ) : ρ s.db = ρ t.db := congrArg Prod.fst h

theorem part_disk {s t : Server} (h : s.part ρ = t.part ρ) : s.disk = t.disk := congrArg Prod.snd h

/-- A transaction that is local to `ρ` is answered alike on two servers that agree
on it. -/
theorem exec_matches {α : Type} {m : DbTx α} (hm : m.Local ρ) :
    Prog.Matches (Server.part ρ) (exec m) (exec m) := by
  refine .step fun s t h => ?_
  have hagree := hm.agree (part_db h)
  have hdisk := part_disk h
  cases hs : m.eval s.db with
  | error e =>
    cases ht : m.eval t.db with
    | error e' => rw [hs, ht] at hagree; cases hagree; rfl
    | ok r => rw [hs, ht] at hagree; cases hagree
  | ok r =>
    cases ht : m.eval t.db with
    | error e' => rw [hs, ht] at hagree; cases hagree
    | ok r' =>
      obtain ⟨x, d⟩ := r
      obtain ⟨y, d'⟩ := r'
      rw [hs, ht] at hagree
      simp only [Except.map, Except.ok.injEq, Prod.mk.injEq] at hagree
      simp [Except.map, Server.part, hagree.1, hagree.2, hdisk]

theorem readDb_matches {α : Type} {f : Db → α} (hf : ∀ db, f (ρ db) = f db) :
    Prog.Matches (Server.part ρ) (readDb f) (readDb f) :=
  .get fun s t h => by rw [← hf s.db, part_db h, hf t.db]

theorem file_matches (f : Disk → Disk) : Prog.Matches (Server.part ρ) (file f) (file f) := by
  refine .step fun s t h => ?_
  simp [Except.map, Server.part, part_db h, part_disk h]

theorem readDisk_matches {α : Type} (f : Disk → Except String α) :
    Prog.Matches (Server.part ρ) (readDisk f) (readDisk f) := by
  refine .bind (.get fun s t h => by rw [part_disk h]) fun r => ?_
  cases r with
  | ok a => exact .pure a
  | error e => exact .raise _

theorem assert_matches (r : Except String Unit) :
    Prog.Matches (Server.part ρ) (assert r) (assert r) := by
  cases r with
  | ok u => exact .pure ()
  | error e => exact .raise _

/-- A quota rule reads through `ρ` as its counts do. -/
theorem gated_matches (cfg : Config) {rule : QuotaPolicy → Db → Option QuotaVerdict}
    (hrule : ∀ gate db, rule gate (ρ db) = rule gate db) :
    Prog.Matches (Server.part ρ) (gated cfg rule) (gated cfg rule) := by
  unfold gated
  cases makeQuotaGate cfg.quotas with
  | none => exact .pure ()
  | some gate =>
    refine .bind (readDb_matches (hrule gate)) fun rejected => ?_
    cases rejected with
    | none => exact .pure ()
    | some v => exact .raise _

/-- A nudge is seen on the streams only, whichever of them fail. -/
theorem emit_matches (env env' : Env) (a : String) (nudge : Nudge) :
    Prog.Matches (Server.part ρ) (emit env a nudge) (emit env' a nudge) := .poke fun _ _ h => h

theorem discardSession_matches (u : String) :
    Prog.Matches (Server.part ρ) (discardSession u) (discardSession u) :=
  .bind (assert_matches _) fun _ => file_matches _

theorem writePart_matches (u : String) (i : Nat) (bytes : Bytes) :
    Prog.Matches (Server.part ρ) (writePart u i bytes) (writePart u i bytes) :=
  .bind (assert_matches _) fun _ => .bind (file_matches _) fun _ => file_matches _

theorem deleteBytes_matches (hash : String) :
    Prog.Matches (Server.part ρ) (deleteBytes hash) (deleteBytes hash) :=
  .bind (assert_matches _) fun _ => file_matches _

/-- Bytes are written whatever the database holds. -/
theorem put_matches (hash : String) (bytes : Bytes) :
    Prog.Matches (Server.part ρ) (put hash bytes) (put hash bytes) := by
  refine .bind (assert_matches _) fun _ =>
    .bind (.get fun s t h => by rw [part_disk h]) fun present => .ite (.pure ()) ?_
  exact .bind (file_matches _) fun _ => file_matches _

end Steps

/-! ## Calls -/

/-- What the account-scoped tables and the files hold. -/
abbrev Server.data (s : Server) : Db × Disk := s.part Db.outsideRegistry

section Calls
variable {a : String}

theorem discardUploadSession_matches (u : String) :
    Prog.Matches Server.data (discardUploadSession a u) (discardUploadSession a u) := by
  refine .bind (readDb_matches fun _ => rfl) fun session => ?_
  cases session with
  | none => exact .pure ()
  | some x =>
    exact .bind (discardSession_matches u) fun _ => exec_matches deleteUploadSessionFor_apart

theorem assembleUpload_matches (u : String) :
    Prog.Matches Server.data (assembleUpload a u) (assembleUpload a u) :=
  .bind (readDb_matches fun _ => rfl) fun _ => .bind (.require _ _) fun _ =>
    .bind (readDb_matches fun _ => rfl) fun _ => readDisk_matches _

theorem finalizeGate_matches (cfg : Config) (u : String) (size : Nat) :
    Prog.Matches Server.data (finalizeGate cfg a u size) (finalizeGate cfg a u size) := by
  unfold finalizeGate
  cases makeQuotaGate cfg.quotas with
  | none => exact .pure ()
  | some gate =>
    refine .bind (readDb_matches fun _ => rfl) fun rejected => ?_
    cases rejected with
    | none => exact .pure ()
    | some v => exact .bind (discardUploadSession_matches u) fun _ => .raise _

/-- A finalize reads parts and files, and no account. -/
theorem finalize_matches (cfg : Config) (host : Host) (env : Env) (u : String) :
    Prog.Matches Server.data (finalize cfg host env a u) (finalize cfg host env a u) := by
  refine .bind (readDb_matches fun _ => rfl) fun _ => .bind (.found _ _) fun session =>
    .bind (readDb_matches fun _ => rfl) fun owned => ?_
  cases owned with
  | some b => exact .bind (discardUploadSession_matches _) fun _ => .pure _
  | none =>
    refine .bind (assembleUpload_matches _) fun bytes => .bind (.require _ _) fun _ => .ite ?_ ?_
    · exact .bind (discardUploadSession_matches _) fun _ => .raise _
    · refine .bind (finalizeGate_matches cfg _ _) fun _ => .bind (put_matches _ _) fun _ => ?_
      exact .bind (exec_matches (insertBlobIfAbsent_apart _)) fun _ =>
        .bind (discardUploadSession_matches _) fun _ => .pure _

/-- So does a download. -/
theorem download_matches (hash : String) (range : Option String) :
    Prog.Matches Server.data (download a hash range) (download a hash range) := by
  have hstat : Prog.Matches Server.data (statBlobBytes a hash) (statBlobBytes a hash) := by
    refine .bind (readDb_matches fun _ => rfl) fun owned => ?_
    cases owned with
    | none => exact .pure _
    | some b => exact readDisk_matches _
  have hread : ∀ i j, Prog.Matches Server.data (readBlobRange a hash i j)
      (readBlobRange a hash i j) := fun i j =>
    .bind (readDb_matches fun _ => rfl) fun _ => .bind (.require _ _) fun _ => readDisk_matches _
  unfold download
  refine .bind hstat fun stat => .bind (.found _ _) fun size => ?_
  split
  · exact .pure _
  · exact .ite (.pure _) (.bind (hread _ _) fun _ => .pure _)
  · exact .bind (hread _ _) fun _ => .pure _

/-- **A call depends on the data alone.** -/
theorem perform_matches (cfg : Config) (host : Host) (credential credential' : Option Credential)
    (env : Env) (dead : Subscriber → Bool) (a : String) {call : Call} (hcall : call ≠ .connect) :
    Prog.Matches Server.data (perform cfg host credential env a call)
      (perform cfg host credential' { env with dead := dead } a call) := by
  cases call with
  | batch app rows notify =>
    refine .bind (gated_matches cfg fun _ _ => rfl) fun _ =>
      .bind (exec_matches (batchUpsert_apart app rows _)) fun r => ?_
    exact .ite (.bind (emit_matches _ _ _ _) fun _ => .pure _) (.pure _)
  | device d n => exact .bind (exec_matches (updateDeviceCursor_apart d n)) fun _ => .pure _
  | list app since limit => exact .bind (readDb_matches fun _ => rfl) fun _ => .pure _
  | getEntity app e =>
    exact .bind (readDb_matches fun _ => rfl) fun _ => .bind (.found _ _) fun _ => .pure _
  | deleteEntity app e t =>
    refine .bind (exec_matches (softDeleteRow_apart app e _ _)) fun r => .bind (.found _ _) fun r =>
      .ite (.pure _) ?_
    exact .bind (emit_matches _ _ _ _) fun _ => .pure _
  | intents events =>
    refine .bind (gated_matches cfg fun _ _ => rfl) fun _ =>
      .bind (exec_matches (insertIntents_apart events _)) fun r => ?_
    exact .ite (.bind (emit_matches _ _ _ _) fun _ => .pure _) (.pure _)
  | listIntents since limit => exact .bind (readDb_matches fun _ => rfl) fun _ => .pure _
  | getSalt =>
    exact .bind (readDb_matches fun _ => rfl) fun _ => .bind (.found _ _) fun _ => .pure _
  | putSalt salt => exact .bind (exec_matches (putSaltIfAbsent_apart salt)) fun _ => .pure _
  | initiate hash valid size =>
    refine .bind (readDb_matches fun _ => rfl) fun owned => ?_
    cases owned with
    | some b => exact .pure _
    | none =>
      exact .bind (gated_matches cfg fun _ _ => rfl) fun _ =>
        .bind (exec_matches (createUploadSession_apart size)) fun _ => .pure _
  | uploadStatus u =>
    exact .bind (readDb_matches fun _ => rfl) fun _ => .bind (.found _ _) fun _ =>
      .bind (readDb_matches fun _ => rfl) fun _ => .pure _
  | putPart u index bytes =>
    refine .bind (readDb_matches fun _ => rfl) fun _ => .bind (.found _ _) fun session =>
      .bind (.found _ _) fun i => ?_
    refine .bind (readDb_matches fun _ => rfl) fun parts => .bind (.require _ _) fun _ =>
      .bind ?_ fun _ => ?_
    · refine .bind (readDb_matches fun _ => rfl) fun _ => .bind (.require _ _) fun _ =>
        .bind (writePart_matches _ _ _) fun _ => ?_
      exact exec_matches (recordUploadPart_apart _ _)
    · exact .bind (readDb_matches fun _ => rfl) fun acked => .pure _
  | finalize u => exact finalize_matches cfg host env u
  | cancel u =>
    refine .bind (readDb_matches fun _ => rfl) fun _ => .bind (.found _ _) fun session => ?_
    exact .bind (discardUploadSession_matches _) fun _ => .pure _
  | refAdd hash =>
    exact .bind (exec_matches addBlobReference_apart) fun _ => .bind (.found _ _) fun _ => .pure _
  | refRelease hash =>
    exact .bind (exec_matches releaseBlobReference_apart) fun _ => .bind (.found _ _) fun _ =>
      .pure _
  | head hash =>
    exact .bind (readDb_matches fun _ => rfl) fun _ => .bind (.found _ _) fun _ => .pure _
  | download hash range => exact download_matches hash range
  | connect => exact absurd rfl hcall

end Calls

/-! ## Sweeps -/

/-- The sweep reads blob rows and devices. -/
theorem reclaimSweep_matches (policy : ReclaimPolicy) (nowMs : Int) :
    Prog.Matches Server.data (reclaimSweep policy nowMs) (reclaimSweep policy nowMs) := by
  have hblob : ∀ b, Prog.Matches Server.data (reclaimBlob b) (reclaimBlob b) := fun b =>
    .bind (deleteBytes_matches _) fun _ => .bind (exec_matches deleteBlob_apart) fun _ => .pure _
  refine .ite ?_ (.pure _)
  refine .bind (.ofExcept _) fun _ => .bind (.ofExcept _) fun _ =>
    .bind (readDb_matches fun _ => rfl) fun eligible => ?_
  exact .bind (.each hblob _) fun _ => .pure _

theorem reapUploadSessions_matches (ttlMs nowMs : Int) :
    Prog.Matches Server.data (reapUploadSessions ttlMs nowMs) (reapUploadSessions ttlMs nowMs) := by
  have hsession : ∀ s, Prog.Matches Server.data (reapSession s) (reapSession s) := fun s =>
    .bind (discardSession_matches _) fun _ => exec_matches deleteUploadSession_apart
  exact .bind (.ofExcept _) fun _ => .bind (readDb_matches fun _ => rfl) fun stale =>
    .bind (.each hsession _) fun _ => .pure _

/-! ## With the registry -/

section Stored

/-- The database and the files. -/
abbrev Server.stored (s : Server) : Db × Disk := s.part id

/-- Who is registered, and with which credentials. -/
def Db.registry (db : Db) : Table Credential.credentialId × Table Account.accountId :=
  (db.deviceCredentials, db.accounts)

/-- A transaction is local to the whole database. -/
theorem local_id {α : Type} (m : DbTx α) : m.Local id := fun db => by
  show m.eval db = (m.eval db).map id
  rw [Except.map_id]
  rfl

theorem exec_stored {α : Type} (m : DbTx α) : Prog.Matches Server.stored (exec m) (exec m) :=
  exec_matches (local_id m)

theorem readDb_stored {α : Type} (f : Db → α) : Prog.Matches Server.stored (readDb f) (readDb f) :=
  readDb_matches fun _ => rfl

/-- What matches on the data and leaves the registry alone matches on all. -/
theorem stored_matches {α : Type} {m m' : Handler α} (h : Prog.Matches Server.data m m')
    (hm : Prog.Keeps (fun s : Server => Db.registry s.db) m)
    (hm' : Prog.Keeps (fun s : Server => Db.registry s.db) m') :
    Prog.Matches Server.stored m m' := by
  -- the data and the registry together are the whole database
  let whole (x : (Db × Disk) × Table Credential.credentialId × Table Account.accountId) :
      Db × Disk :=
    ({ x.1.1 with deviceCredentials := x.2.1, accounts := x.2.2 }, x.1.2)
  refine (h.beside hm hm').map whole fun s t e => ?_
  have hdb : s.db = t.db := congrArg Prod.fst e
  have hdisk : s.disk = t.disk := congrArg Prod.snd e
  simp only [Server.data, Server.part, hdb, hdisk]

theorem registry_ignores (area : Area) (h : area ≠ .registry) :
    Ignores (fun s : Server => Db.registry s.db) area := by
  have hsame : ∀ {db db' : Db} (f : Db → Db), (∀ d, Db.registry (f d) = Db.registry d) →
      f db = f db' → Db.registry db = Db.registry db' := by
    intro db db' f hf e
    rw [← hf db, e, hf]
  cases area with
  | registry => exact absurd rfl h
  | files => exact fun _ _ => rfl
  | sync => exact fun s db => hsame Db.outsideSync fun _ => rfl
  | intents => exact fun s db => hsame Db.outsideIntents fun _ => rfl
  | devices => exact fun s db => hsame (fun d => { d with devices := .empty }) fun _ => rfl
  | salts => exact fun s db => hsame (fun d => { d with accountSalts := .empty }) fun _ => rfl
  | blobs => exact fun s db => hsame Db.outsideBlobs fun _ => rfl
  | uploads => exact fun s db => hsame Db.outsideUploads fun _ => rfl

/-- No call of an account writes the registry. -/
theorem writes_scoped {call : Call} {area : Area} (h : area ∈ call.writes) : area ≠ .registry := by
  cases call <;> simp [Call.writes] at h <;> grind

/-- **A call depends on the stores alone**, and leaves the registry as it is. -/
theorem perform_stored (cfg : Config) (host : Host) (credential : Option Credential) (env : Env)
    (dead : Subscriber → Bool) (a : String) {call : Call} (hcall : call ≠ .connect) :
    Prog.Matches Server.stored (perform cfg host credential env a call)
      (perform cfg host credential { env with dead := dead } a call) := by
  have hkeep : ∀ env, Prog.Keeps (fun s : Server => Db.registry s.db)
      (perform cfg host credential env a call) := fun env =>
    perform_frame (fun _ _ _ _ _ => rfl) cfg host credential env a call fun area ha =>
      registry_ignores area (writes_scoped ha)
  exact stored_matches (perform_matches cfg host credential credential env dead a hcall) (hkeep _)
    (hkeep _)

theorem reclaimSweep_stored (policy : ReclaimPolicy) (nowMs : Int) :
    Prog.Matches Server.stored (reclaimSweep policy nowMs) (reclaimSweep policy nowMs) := by
  have hkeep := reclaimSweep_frame (registry_ignores .blobs (by simp))
    (registry_ignores .files (by simp)) policy nowMs
  exact stored_matches (reclaimSweep_matches policy nowMs) hkeep hkeep

theorem reapUploadSessions_stored (ttlMs nowMs : Int) :
    Prog.Matches Server.stored (reapUploadSessions ttlMs nowMs)
      (reapUploadSessions ttlMs nowMs) := by
  have hkeep := reapUploadSessions_frame (registry_ignores .uploads (by simp))
    (registry_ignores .files (by simp)) ttlMs nowMs
  exact stored_matches (reapUploadSessions_matches ttlMs nowMs) hkeep hkeep

end Stored

/-! ## Administration -/

section Admin
variable {host : Host} {env : Env}

theorem onRevoked_stored (id : String) : Prog.Matches Server.stored (onRevoked id) (onRevoked id) :=
  .poke fun _ _ h => h

/-- An enrollment reads and writes the registry, and no stream. -/
theorem enroll_stored (cfg : Config) (body : Body) :
    Prog.Matches Server.stored (enroll cfg host env body) (enroll cfg host env body) :=
  .bind (.ofExcept _) fun _ => .bind (readDb_stored _) fun _ => .bind (.ofExcept _) fun _ =>
    .bind (.ofExcept _) fun _ => .bind (exec_stored _) fun _ => .pure _

theorem revokeCredential_stored (id : String) :
    Prog.Matches Server.stored (revokeCredential env id) (revokeCredential env id) :=
  .bind (exec_stored _) fun _ => .bind (readDb_stored _) fun _ => .bind (.found _ _) fun _ =>
    .ite (.bind (onRevoked_stored _) fun _ => .pure _) (.pure _)

theorem createAccountRoute_stored (cfg : Config) (body : Body) :
    Prog.Matches Server.stored (createAccountRoute cfg host env body)
      (createAccountRoute cfg host env body) := by
  refine .bind (.ofExcept _) fun body => .bind (.ofExcept _) fun label =>
    .bind (.ofExcept _) fun a => .bind (exec_stored _) fun result => ?_
  match result with
  | .error .exists => exact .raise _
  | .error .limit => exact .raise _
  | .ok r => exact .pure _

theorem rotateKeyRoute_stored (a : String) (body : Body) :
    Prog.Matches Server.stored (rotateKeyRoute host env a body) (rotateKeyRoute host env a body) :=
  .bind (.ofExcept _) fun _ => .bind (.ofExcept _) fun _ => .bind (exec_stored _) fun _ =>
    .bind (.found _ _) fun _ => .bind (.each onRevoked_stored _) fun _ => .pure _

theorem deleteAccountRoute_stored (a : String) (body : Body) :
    Prog.Matches Server.stored (deleteAccountRoute a body) (deleteAccountRoute a body) := by
  refine .bind (.ofExcept _) fun body => .bind (.ofExcept _) fun confirm =>
    .bind (.require _ _) fun _ => ?_
  refine .bind (exec_stored _) fun result => .bind (.found _ _) fun r =>
    .bind (.each onRevoked_stored _) fun _ => ?_
  exact .bind (.each discardSession_matches _) fun _ => .bind (.each deleteBytes_matches _) fun _ =>
    .pure _

/-- **An operator's request depends on the stores alone.** -/
theorem handleAdmin_stored (cfg : Config) (host : Host) (env : Env) (header : Option String)
    (route : AdminRoute) :
    Prog.Matches Server.stored (handleAdmin cfg host env header route)
      (handleAdmin cfg host env header route) := by
  have hroute : Prog.Matches Server.stored (route.perform cfg host env)
      (route.perform cfg host env) := by
    cases route with
    | enroll body => exact enroll_stored cfg body
    | revoke id => exact revokeCredential_stored id
    | createAccount body => exact createAccountRoute_stored cfg body
    | rotateKey a body => exact rotateKeyRoute_stored a body
    | deleteAccount a body => exact deleteAccountRoute_stored a body
  refine .ite (.bind (.ofExcept _) fun _ => hroute)
    (.bind (.ofExcept _) fun _ => .bind (readDb_stored _) fun r => ?_)
  cases r with
  | ok c => exact .pure _
  | error r => exact .pure _

end Admin

end GlanceVault.L3
