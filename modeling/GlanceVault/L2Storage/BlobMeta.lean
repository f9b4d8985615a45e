import GlanceVault.L2Storage.SyncStore
/-!
# Blob metadata (`storage/sqlite.ts`, the blob statements)

The metadata row of a stored blob, its reference count, the upload sessions
with the parts they acked, and the query of the rows a reclaim sweep may
delete. A blob enters at zero references with a zero point drawn from the
account's sequence; only the step from one reference to none draws another.
Deleting a session cascades to its parts.

* `insertBlobIfAbsent_eval`, `addBlobReference_eval`,
  `releaseBlobReference_eval`: the three writes of a blob row.
* `find_dropSessions`, `mem_dropSessions_parts`: what a session delete
  leaves.
* `*_frame`, `*_local`, `*_keeps`, `*_tenant`, `*_other`: which tables
  change, and whose rows.
-/
namespace GlanceVault.L2
open GlanceVault.Core GlanceVault.L1

/-! ## Blob rows -/

/-- mirrors src/storage/sqlite.ts:545-554 (`getBlob`) -/
def getBlob (a h : String) (db : Db) : Option Blob := db.blobs.find (a, h)

def Db.putBlob (db : Db) (r : Blob) : Db := { db with blobs := db.blobs.upsert r }

/-- A freshly stored blob: at zero references from its creation on. -/
def Blob.fresh (a h : String) (size seq : Nat) (now : String) : Blob :=
  ⟨a, h, size, 0, some seq, now, now⟩

/-- mirrors src/storage/sqlite.ts:565-588 (`insertBlobIfAbsent`) -/
def insertBlobIfAbsent (a h : String) (size : Nat) (now : String) : DbTx (Option Blob × Bool) := do
  let existing ← Tx.read (getBlob a h)
  match existing with
  | some b => pure (some b, false)
  | none => do
    let seq ← nextSeq a
    Tx.stmt fun db =>
      match db.blobs.insertNew (.fresh a h size seq now) with
      | some t => .ok ((), { db with blobs := t })
      | none => .error (.constraint "blobs")
    let record ← Tx.read (getBlob a h)
    pure (record, true)

theorem insertBlobIfAbsent_eval (a h : String) (size : Nat) (now : String) (db : Db) :
    (insertBlobIfAbsent a h size now).eval db =
      match db.blobs.find (a, h) with
      | some b => .ok ((some b, false), db)
      | none => .ok ((some (.fresh a h size (latestSeq db a + 1) now), true),
          (db.bump a).putBlob (.fresh a h size (latestSeq db a + 1) now)) := by
  unfold insertBlobIfAbsent getBlob
  rw [Tx.eval_bind, Tx.eval_read]
  cases hf : db.blobs.find (a, h) with
  | some b => rfl
  | none =>
    have hn : (db.bump a).blobs.has (Blob.fresh a h size (latestSeq db a + 1) now).key = false :=
      Table.has_eq_false.2 hf
    have hs := Table.find_upsert_self (db.bump a).blobs
      (Blob.fresh a h size (latestSeq db a + 1) now)
    simp only [Tx.eval_bind, nextSeq_eval, Tx.eval_stmt, Table.insertNew_of_fresh hn, Tx.eval_read,
      Tx.eval_pure, Db.putBlob]
    exact congrArg (fun o => Except.ok ((o, true), (_ : Db))) hs

def Blob.referenced (b : Blob) (now : String) : Blob :=
  { b with refCount := b.refCount + 1, zeroRefSeq := none, lastReferenceActivityAt := now }

def Blob.touched (b : Blob) (now : String) : Blob := { b with lastReferenceActivityAt := now }

def Blob.released (b : Blob) (zero : Option Nat) (now : String) : Blob :=
  { b with refCount := b.refCount - 1, zeroRefSeq := zero, lastReferenceActivityAt := now }

theorem Blob.referenced_key (b : Blob) (now : String) : (b.referenced now).key = b.key := rfl

theorem Blob.touched_key (b : Blob) (now : String) : (b.touched now).key = b.key := rfl

theorem Blob.released_key (b : Blob) (zero : Option Nat) (now : String) :
    (b.released zero now).key = b.key :=
  rfl

/-- `UPDATE blobs SET f WHERE account_id = ? AND blob_hash = ?` -/
def updateBlob (a h : String) (f : Blob → Blob) (hf : ∀ b, (f b).key = b.key) :
    DbTx Unit := .write fun db =>
  ((), { db with blobs := db.blobs.update (fun b => b.key = (a, h)) f hf })

theorem updateBlob_eval {a h : String} {db : Db} {b : Blob} (hb : db.blobs.find (a, h) = some b)
    (f : Blob → Blob) (hf : ∀ b, (f b).key = b.key) :
    (updateBlob a h f hf).eval db = .ok ((), db.putBlob (f b)) := by
  obtain ⟨hm, hk⟩ := Table.find_some.1 hb
  have hu := update_key hm f hf
  rw [hk] at hu
  unfold updateBlob Db.putBlob
  rw [Tx.eval_write, hu]

theorem getBlob_putBlob {a h : String} (db : Db) {b : Blob} (hb : b.key = (a, h)) :
    getBlob a h (db.putBlob b) = some b := by
  unfold getBlob Db.putBlob
  rw [← hb]
  exact Table.find_upsert_self _ _

/-- mirrors src/storage/sqlite.ts:594-611 (`addBlobReference`) -/
def addBlobReference (a h now : String) : DbTx (Option Blob) := do
  let existing ← Tx.read (getBlob a h)
  match existing with
  | none => pure none
  | some _ => do
    updateBlob a h (fun b => b.referenced now) fun b => b.referenced_key now
    Tx.read (getBlob a h)

theorem addBlobReference_eval (a h now : String) (db : Db) : (addBlobReference a h now).eval db =
    match db.blobs.find (a, h) with
    | none => .ok (none, db)
    | some b => .ok (some (b.referenced now), db.putBlob (b.referenced now)) := by
  unfold addBlobReference
  rw [Tx.eval_bind, Tx.eval_read]
  cases hf : db.blobs.find (a, h) with
  | none => simp only [getBlob, hf, Tx.eval_pure]
  | some b =>
    have hg : getBlob a h db = some b := hf
    rw [hg]
    have hk : b.key = (a, h) := Table.find_key hf
    simp only [Tx.eval_bind, updateBlob_eval hf, Tx.eval_read]
    rw [getBlob_putBlob (b := b.referenced now) _ hk]

/-- mirrors src/storage/sqlite.ts:620-649 (`releaseBlobReference`) -/
def releaseBlobReference (a h now : String) : DbTx (Option Blob) := do
  let existing ← Tx.read (getBlob a h)
  match existing with
  | none => pure none
  | some b =>
    if b.refCount ≤ 0 then do
      updateBlob a h (fun b => b.touched now) fun b => b.touched_key now
      Tx.read (getBlob a h)
    else if b.refCount - 1 = 0 then do
      let seq ← nextSeq a
      updateBlob a h (fun b => b.released (some seq) now) fun b => b.released_key _ now
      Tx.read (getBlob a h)
    else do
      updateBlob a h (fun x => x.released b.zeroRefSeq now) fun x => x.released_key _ now
      Tx.read (getBlob a h)

theorem releaseBlobReference_eval (a h now : String) (db : Db) :
    (releaseBlobReference a h now).eval db =
    match db.blobs.find (a, h) with
    | none => .ok (none, db)
    | some b =>
      if b.refCount ≤ 0 then .ok (some (b.touched now), db.putBlob (b.touched now))
      else if b.refCount - 1 = 0 then
        .ok (some (b.released (some (latestSeq db a + 1)) now),
          (db.bump a).putBlob (b.released (some (latestSeq db a + 1)) now))
      else .ok (some (b.released b.zeroRefSeq now), db.putBlob (b.released b.zeroRefSeq now)) := by
  unfold releaseBlobReference
  rw [Tx.eval_bind, Tx.eval_read]
  cases hf : db.blobs.find (a, h) with
  | none => simp only [getBlob, hf, Tx.eval_pure]
  | some b =>
    have hg : getBlob a h db = some b := hf
    have hk : b.key = (a, h) := Table.find_key hf
    rw [hg]
    simp only [Tx.eval_ite]
    split
    · simp only [Tx.eval_bind, updateBlob_eval hf, Tx.eval_read]
      rw [getBlob_putBlob (b := b.touched now) _ hk]
    · split
      · have hf2 : (db.bump a).blobs.find (a, h) = some b := hf
        simp only [Tx.eval_bind, nextSeq_eval, updateBlob_eval hf2, Tx.eval_read]
        rw [getBlob_putBlob (b := b.released _ now) _ hk]
      · simp only [Tx.eval_bind, updateBlob_eval hf, Tx.eval_read]
        rw [getBlob_putBlob (b := b.released _ now) _ hk]

/-- mirrors src/storage/sqlite.ts:802-807 (`deleteBlob`) -/
def deleteBlob (a h : String) : DbTx Bool := .write fun db =>
  (db.blobs.has (a, h), { db with blobs := db.blobs.keep fun b => !decide (b.key = (a, h)) })

/-! ## Upload sessions -/

def Db.putSession (db : Db) (s : UploadSession) : Db :=
  { db with uploadSessions := db.uploadSessions.upsert s }

/-- mirrors src/storage/sqlite.ts:653-666 (`createUploadSession`) -/
def createUploadSession (a u h : String) (declaredSize : Nat) (now : String) :
    DbTx Unit := .stmt fun db =>
  match db.uploadSessions.insertNew ⟨u, a, h, declaredSize, now⟩ with
  | some t => .ok ((), { db with uploadSessions := t })
  | none => .error (.constraint "blob_upload_sessions")

theorem createUploadSession_eval (a u h : String) (n : Nat) (now : String) (db : Db) :
    (createUploadSession a u h n now).eval db =
      if db.uploadSessions.has u then .error (.constraint "blob_upload_sessions")
      else .ok ((), db.putSession ⟨u, a, h, n, now⟩) := by
  unfold createUploadSession
  rw [Tx.eval_stmt]
  cases hu : db.uploadSessions.has u
  · rw [Table.insertNew_of_fresh (r := (⟨u, a, h, n, now⟩ : UploadSession)) hu]; rfl
  · have : db.uploadSessions.insertNew ⟨u, a, h, n, now⟩ = none := by
      unfold Table.insertNew
      rw [dif_neg (by simp [hu])]
    rw [this]; rfl

/-- mirrors src/storage/sqlite.ts:668-693 (`getUploadSession`) -/
def getUploadSession (a u : String) (db : Db) : Option UploadSession :=
  (db.uploadSessions.find u).filter fun s => s.accountId = a

theorem getUploadSession_some {a u : String} {db : Db} {s : UploadSession} :
    getUploadSession a u db = some s ↔ db.uploadSessions.find u = some s ∧ s.accountId = a := by
  unfold getUploadSession
  cases db.uploadSessions.find u with
  | none => simp
  | some t =>
    simp only [Option.filter, Option.some.injEq]
    by_cases h : t.accountId = a
    · simp only [h, decide_true, if_true, Option.some.injEq]
      constructor
      · rintro rfl; exact ⟨rfl, h⟩
      · exact fun e => e.1
    · simp only [h, decide_false, Bool.false_eq_true, if_false, reduceCtorEq, false_iff]
      rintro ⟨rfl, e⟩; exact h e

theorem owns_of_session {a u : String} {db : Db} {s : UploadSession}
    (h : getUploadSession a u db = some s) :
    db.ownsUpload a u = true := Db.ownsUpload_iff.2 ⟨s, getUploadSession_some.1 h⟩

def Db.putPart (db : Db) (p : UploadPart) : Db := { db with uploadParts := db.uploadParts.upsert p }

/-- `INSERT .. SELECT` from the account's own session: no row when the session
is another account's. mirrors src/storage/sqlite.ts:702-725 (`recordUploadPart`) -/
def recordUploadPart (a u : String) (index size : Nat) (now : String) :
    DbTx Unit := .write fun db =>
  ((), if db.ownsUpload a u then db.putPart ⟨u, index, size, now⟩ else db)

/-- mirrors src/storage/sqlite.ts:729-740 (`listUploadParts`) -/
def listUploadParts (a u : String) (db : Db) : List UploadPart :=
  (db.uploadParts.rows.filter fun p => p.uploadId = u ∧ db.ownsUpload a u).insertionSort
    fun p q => p.partIndex ≤ q.partIndex

/-- `DELETE FROM blob_upload_sessions WHERE p`, with the cascade to the parts. -/
def Db.dropSessions (db : Db) (p : UploadSession → Bool) : Db :=
  { db with
    uploadSessions := db.uploadSessions.keep fun s => !p s
    uploadParts := db.uploadParts.keep fun r => !(db.uploadSessions.find r.uploadId).any p }

/-- The handler-side form. mirrors src/storage/sqlite.ts:745-749 -/
def deleteUploadSessionFor (a u : String) : DbTx Unit := .write fun db =>
  ((), db.dropSessions fun s => s.uploadId = u ∧ s.accountId = a)

/-- The reaper's form. mirrors src/storage/sqlite.ts:755-757 -/
def deleteUploadSession (u : String) : DbTx Unit := .write fun db =>
  ((), db.dropSessions fun s => s.uploadId = u)

/-- mirrors src/storage/sqlite.ts:761-768 (`listStaleUploadSessions`) -/
def listStaleUploadSessions (cutoff : String) (db : Db) : List UploadSession :=
  db.uploadSessions.rows.filter fun s => !decide (cutoff < s.createdAt)

theorem find_dropSessions (db : Db) (p : UploadSession → Bool) (u : String) :
    (db.dropSessions p).uploadSessions.find u = (db.uploadSessions.find u).filter fun s => !p s :=
  Table.find_keep _ _ _

theorem mem_dropSessions_parts {db : Db} {p : UploadSession → Bool} {r : UploadPart} :
    r ∈ (db.dropSessions p).uploadParts.rows ↔
      r ∈ db.uploadParts.rows ∧ ∀ s, db.uploadSessions.find r.uploadId = some s → p s = false := by
  unfold Db.dropSessions
  rw [Table.mem_keep]
  cases db.uploadSessions.find r.uploadId <;> simp

/-- A listed part belongs to a session of the account, and is in the table. -/
theorem mem_listUploadParts {a u : String} {db : Db} {p : UploadPart} :
    p ∈ listUploadParts a u db ↔ p ∈ db.uploadParts.rows ∧ p.uploadId = u ∧
    db.ownsUpload a u = true := by
  unfold listUploadParts
  rw [List.mem_insertionSort, List.mem_filter]
  simp

/-! ## Reclaim -/

/-- The three conditions of the reclaim query, for one row.
mirrors src/storage/sqlite.ts:782-791 -/
def reclaimable (graceCutoff deadCutoff : String) (db : Db) (b : Blob) : Bool :=
  match b.zeroRefSeq with
  | none => false
  | some z => decide (b.refCount = 0) && !decide (graceCutoff < b.lastReferenceActivityAt) &&
      db.devices.rows.all fun d =>
        !(decide (d.accountId = b.accountId) && decide (deadCutoff < d.lastActive) && decide
          (d.lastSeenSeq < z))

/-- mirrors src/storage/sqlite.ts:777-795 (`listReclaimableBlobs`) -/
def listReclaimableBlobs (graceCutoff deadCutoff : String) (db : Db) : List Blob :=
  db.blobs.rows.filter (reclaimable graceCutoff deadCutoff db)

/-! ## What changes, and for whom -/

/-- Everything but the blob rows and the counters. -/
def Db.outsideBlobs (db : Db) : Db := { db with blobs := .empty, accountSeq := .empty }

/-- Everything but the upload sessions and their parts. -/
def Db.outsideUploads (db : Db) : Db := { db with uploadSessions := .empty, uploadParts := .empty }

theorem insertBlobIfAbsent_frame (a h : String) (size : Nat) (now : String) :
    (insertBlobIfAbsent a h size now).Keeps Db.outsideBlobs := by
  intro db o db' e
  rw [insertBlobIfAbsent_eval] at e
  split at e <;> cases e <;> rfl

theorem addBlobReference_frame (a h now : String) :
    (addBlobReference a h now).Keeps Db.outsideBlobs := by
  intro db o db' e
  rw [addBlobReference_eval] at e
  split at e <;> cases e <;> rfl

theorem releaseBlobReference_frame (a h now : String) :
    (releaseBlobReference a h now).Keeps Db.outsideBlobs := by
  intro db o db' e
  rw [releaseBlobReference_eval] at e
  split at e
  · cases e; rfl
  · split at e
    · cases e; rfl
    · split at e <;> cases e <;> rfl

theorem deleteBlob_frame (a h : String) : (deleteBlob a h).Keeps Db.outsideBlobs :=
  .write fun _ => rfl

theorem createUploadSession_frame (a u h : String) (n : Nat) (now : String) :
    (createUploadSession a u h n now).Keeps Db.outsideUploads := by
  intro db o db' e
  rw [createUploadSession_eval] at e
  split at e <;> cases e
  rfl

theorem recordUploadPart_frame (a u : String) (i n : Nat) (now : String) :
    (recordUploadPart a u i n now).Keeps Db.outsideUploads := .write fun db => by
  split <;> rfl

theorem deleteUploadSessionFor_frame (a u : String) :
    (deleteUploadSessionFor a u).Keeps Db.outsideUploads := .write fun _ => rfl

theorem deleteUploadSession_frame (u : String) : (deleteUploadSession u).Keeps Db.outsideUploads :=
  .write fun _ => rfl

section Tenancy
variable {a b : String}

theorem putBlob_tenant {r : Blob} (h : r.accountId = a) (db : Db) :
    (db.putBlob r).tenant a = (db.tenant a).putBlob r := by
  have hk :=
    Table.keep_upsert db.blobs (fun x => x.accountId = a) r fun x _ hx => by
      rw [Blob.same_account hx]
  unfold Db.tenant Db.putBlob at *
  simp only [h, decide_true, if_true] at hk
  simp only [hk]
  rfl

theorem putBlob_other {r : Blob} (h : r.accountId ≠ b) (db : Db) :
    (db.putBlob r).tenant b = db.tenant b := by
  have hk :=
    Table.keep_upsert db.blobs (fun x => x.accountId = b) r fun x _ hx => by
      rw [Blob.same_account hx]
  unfold Db.tenant Db.putBlob at *
  simp only [h, decide_false, Bool.false_eq_true, if_false] at hk
  simp only [hk]
  rfl

theorem find_account {db : Db} {h : String} {r : Blob} (e : db.blobs.find (a, h) = some r) :
    r.accountId = a :=
  congrArg Prod.fst (Table.find_key e)

theorem insertBlobIfAbsent_keeps (hab : a ≠ b) (h : String) (size : Nat) (now : String) :
    (insertBlobIfAbsent a h size now).Keeps (Db.tenant b) := by
  intro db o db' e
  rw [insertBlobIfAbsent_eval] at e
  split at e <;> cases e
  · rfl
  · rw [putBlob_other (by exact hab), bump_other hab]

theorem addBlobReference_local (h now : String) :
    (addBlobReference a h now).Local (Db.tenant a) := by
  intro db
  rw [addBlobReference_eval, addBlobReference_eval, tenant_blob]
  split
  · rfl
  · rename_i r hr
    have ha := find_account hr
    rw [← putBlob_tenant (by exact ha)]; rfl

theorem addBlobReference_keeps (hab : a ≠ b) (h now : String) :
    (addBlobReference a h now).Keeps (Db.tenant b) := by
  intro db o db' e
  rw [addBlobReference_eval] at e
  split at e
  · cases e; rfl
  · rename_i r hr
    cases e
    have ha := find_account hr
    rw [putBlob_other (by rw [← ha] at hab; exact hab)]

theorem releaseBlobReference_local (h now : String) :
    (releaseBlobReference a h now).Local (Db.tenant a) := by
  intro db
  rw [releaseBlobReference_eval, releaseBlobReference_eval, tenant_blob]
  split
  · rfl
  · rename_i r hr
    have ha := find_account hr
    split
    · rw [← putBlob_tenant (by exact ha)]; rfl
    · split
      · rw [latestSeq_tenant, ← bump_tenant, ← putBlob_tenant (by exact ha)]; rfl
      · rw [← putBlob_tenant (by exact ha)]; rfl

theorem releaseBlobReference_keeps (hab : a ≠ b) (h now : String) :
    (releaseBlobReference a h now).Keeps (Db.tenant b) := by
  intro db o db' e
  rw [releaseBlobReference_eval] at e
  split at e
  · cases e; rfl
  · rename_i r hr
    have ha := find_account hr
    have hb : r.accountId ≠ b := by rw [ha]; exact hab
    split at e
    · cases e; rw [putBlob_other (by exact hb)]
    · split at e
      · cases e; rw [putBlob_other (by exact hb), bump_other hab]
      · cases e; rw [putBlob_other (by exact hb)]

theorem getUploadSession_tenant (u : String) (db : Db) :
    getUploadSession a u (db.tenant a) = getUploadSession a u db := by
  unfold getUploadSession
  rw [tenant_session]
  cases db.uploadSessions.find u with
  | none => rfl
  | some s => by_cases h : s.accountId = a <;> simp [Option.filter, h]

theorem listUploadParts_tenant (u : String) (db : Db) :
    listUploadParts a u (db.tenant a) = listUploadParts a u db := by
  unfold listUploadParts
  congr 1
  rw [tenant_owns]
  show (db.uploadParts.rows.filter _).filter _ = _
  rw [List.filter_filter]
  apply List.filter_congr
  intro p _
  by_cases h : p.uploadId = u
  · subst h; cases db.ownsUpload a p.uploadId <;> simp
  · simp [h]

/-- Every staged part belongs to a session. -/
def Db.Attached (db : Db) : Prop :=
  ∀ p ∈ db.uploadParts.rows, db.uploadSessions.find p.uploadId ≠ none

theorem owns_putSession {db : Db} {s : UploadSession} (c u : String) (hu : u ≠ s.uploadId) :
    (db.putSession s).ownsUpload c u = db.ownsUpload c u := by
  unfold Db.ownsUpload Db.putSession
  rw [Table.find_upsert, if_neg (Ne.symm hu)]

theorem putSession_keep {db : Db} {s : UploadSession}
    (hn : db.uploadSessions.find s.uploadId = none)
    (c : String) : (db.uploadSessions.upsert s).keep (fun x => decide (x.accountId = c)) =
      if s.accountId = c then (db.uploadSessions.keep fun x => decide (x.accountId = c)).upsert s
      else db.uploadSessions.keep fun x => decide (x.accountId = c) := by
  have h := Table.keep_upsert db.uploadSessions (fun x => decide (x.accountId = c)) s
    fun x hx e => absurd e (Table.find_none.1 hn x hx)
  simpa only [decide_eq_true_eq] using h

/-- The parts a tenant sees are the same after a session with a new id. -/
theorem putSession_parts {db : Db} {s : UploadSession}
    (hp : ∀ p ∈ db.uploadParts.rows, p.uploadId ≠ s.uploadId) (c : String) :
    (db.uploadParts.keep fun r => (db.putSession s).ownsUpload c r.uploadId) =
      db.uploadParts.keep fun r => db.ownsUpload c r.uploadId := by
  apply Table.ext'
  exact List.filter_congr fun r hr => owns_putSession c r.uploadId (hp r hr)

theorem putSession_tenant {db : Db} {s : UploadSession} (hs : s.accountId = a)
    (hn : db.uploadSessions.find s.uploadId = none)
    (hp : ∀ p ∈ db.uploadParts.rows, p.uploadId ≠ s.uploadId) :
    (db.putSession s).tenant a = (db.tenant a).putSession s := by
  have h1 := putSession_keep hn a
  rw [if_pos hs] at h1
  exact Db.ext rfl rfl rfl rfl rfl rfl h1 (putSession_parts hp a) rfl rfl

theorem putSession_other {db : Db} {s : UploadSession} (hs : s.accountId ≠ b)
    (hn : db.uploadSessions.find s.uploadId = none)
    (hp : ∀ p ∈ db.uploadParts.rows, p.uploadId ≠ s.uploadId) :
    (db.putSession s).tenant b = db.tenant b := by
  have h1 := putSession_keep hn b
  rw [if_neg hs] at h1
  exact Db.ext rfl rfl rfl rfl rfl rfl h1 (putSession_parts hp b) rfl rfl

theorem owns_of_key {db : Db} {x r : UploadPart} (h : x.key = r.key) (c : String) :
    db.ownsUpload c x.uploadId = db.ownsUpload c r.uploadId := by
  rw [show x.uploadId = r.uploadId from congrArg Prod.fst h]

theorem recordUploadPart_local (u : String) (i n : Nat) (now : String) :
    (recordUploadPart a u i n now).Local (Db.tenant a) := .write fun db => by
  rw [tenant_owns]
  refine Prod.ext rfl ?_
  cases ho : db.ownsUpload a u
  · rfl
  · have hk := Table.keep_upsert db.uploadParts (fun x => db.ownsUpload a x.uploadId) ⟨u, i, n, now⟩
      fun x _ hx => owns_of_key hx a
    simp only [ho, if_true] at hk ⊢
    unfold Db.tenant Db.putPart
    exact (congrArg (fun t => ({ db.tenant a with uploadParts := t } : Db)) hk).symm

theorem recordUploadPart_keeps (hab : a ≠ b) (u : String) (i n : Nat) (now : String) :
    (recordUploadPart a u i n now).Keeps (Db.tenant b) := .write fun db => by
  cases ho : db.ownsUpload a u
  · rfl
  · have hk := Table.keep_upsert db.uploadParts (fun x => db.ownsUpload b x.uploadId) ⟨u, i, n, now⟩
      fun x _ hx => owns_of_key hx b
    simp only [Db.ownsUpload_other hab ho, Bool.false_eq_true, if_false] at hk
    simp only [if_true]
    unfold Db.tenant Db.putPart
    exact congrArg (fun t => ({ db.tenant b with uploadParts := t } : Db)) hk

theorem owns_dropSessions (db : Db) (p : UploadSession → Bool) (c u : String) :
    (db.dropSessions p).ownsUpload c u =
    (db.ownsUpload c u && !(db.uploadSessions.find u).any p) := by
  unfold Db.ownsUpload
  rw [find_dropSessions]
  cases db.uploadSessions.find u with
  | none => rfl
  | some s => cases h : p s <;> simp [Option.filter, h]

/-- A session delete inside a tenant and outside it. -/
theorem dropSessions_tenant (db : Db) (p : UploadSession → Bool) :
    (db.dropSessions p).tenant a = (db.tenant a).dropSessions p := by
  have hs : (db.uploadSessions.keep fun s => !p s).keep (fun s => decide (s.accountId = a)) =
      (db.uploadSessions.keep fun s => decide (s.accountId = a)).keep fun s =>
        !p s := Table.keep_comm _ _ _
  have hp : ((db.dropSessions p).tenant a).uploadParts =
      ((db.tenant a).dropSessions p).uploadParts := by
    apply Table.ext'
    show (db.uploadParts.rows.filter _).filter _ = (db.uploadParts.rows.filter _).filter _
    rw [List.filter_filter, List.filter_filter]
    apply List.filter_congr
    intro r _
    rw [owns_dropSessions, tenant_session]
    unfold Db.ownsUpload
    cases db.uploadSessions.find r.uploadId with
    | none => simp
    | some s => by_cases h : s.accountId = a <;> cases p s <;> simp [Option.filter, h]
  exact Db.ext rfl rfl rfl rfl rfl rfl hs hp rfl rfl

theorem dropSessions_other {db : Db} {p : UploadSession → Bool}
    (hp : ∀ s ∈ db.uploadSessions.rows, s.accountId = b → p s = false) :
    (db.dropSessions p).tenant b = db.tenant b := by
  rw [dropSessions_tenant]
  have hsub : ∀ s ∈ (db.tenant b).uploadSessions.rows, p s = false := by
    intro s hs
    obtain ⟨h1, h2⟩ := Table.mem_keep.1 hs
    exact hp s h1 (by simpa using h2)
  have h1 : (db.tenant b).uploadSessions.keep (fun s => !p s) = (db.tenant b).uploadSessions :=
    Table.keep_eq_self fun s hs => by simp [hsub s hs]
  have h2 : (db.tenant b).uploadParts.keep
      (fun r => !((db.tenant b).uploadSessions.find r.uploadId).any p) =
        (db.tenant b).uploadParts :=
    Table.keep_eq_self fun r _ => by
      cases hf : (db.tenant b).uploadSessions.find r.uploadId with
      | none => rfl
      | some s => simp [hsub s (Table.find_mem hf)]
  exact Db.ext rfl rfl rfl rfl rfl rfl h1 h2 rfl rfl

theorem deleteUploadSessionFor_local (u : String) :
    (deleteUploadSessionFor a u).Local (Db.tenant a) :=
  .write fun db => by rw [dropSessions_tenant]

theorem deleteUploadSessionFor_keeps (hab : a ≠ b) (u : String) :
    (deleteUploadSessionFor a u).Keeps (Db.tenant b) := .write fun db => by
  refine dropSessions_other fun s _ hs => ?_
  simp [hs, Ne.symm hab]

end Tenancy

end GlanceVault.L2
