import GlanceVault.Core.Table
import GlanceVault.Core.Tx
import GlanceVault.L1Encoding.Base64
/-!
# The database schema (`storage/migrations.ts`)

One `Table` per table of the schema, keyed by its primary key, with the
columns the modelled statements read or write. A database is the record of
the ten tables.

`Db.tenant a` is one account's part of a database: the rows that carry the
account, and the parts of the upload sessions that do. It is the boundary the
account-scoped statements respect (`Tx.Local (Db.tenant a)`, `Tx.Keeps
(Db.tenant b)`).

* `tenant_owns`: an account's part knows the sessions of the account.
* `same_account`: two rows with the same primary key have the same account.
-/
namespace GlanceVault.L2
open GlanceVault.Core GlanceVault.L1

/-- `sync_rows` -/
structure SyncRow where
  accountId : String
  app : String
  entityId : String
  seq : Nat
  envelope : Bytes
  deleted : Bool
  serverMtime : String
  deletedAt : Option Rat
  deriving DecidableEq

def SyncRow.key (r : SyncRow) : String × String × String := (r.accountId, r.app, r.entityId)

/-- `intent_events` -/
structure IntentEvent where
  accountId : String
  eventId : String
  seq : Nat
  envelope : Bytes
  expiresAt : String
  serverMtime : String
  deriving DecidableEq

def IntentEvent.key (r : IntentEvent) : String × String := (r.accountId, r.eventId)

/-- `devices`: the sync cursors. -/
structure Device where
  accountId : String
  deviceId : String
  lastSeenSeq : Nat
  lastActive : String
  deriving DecidableEq

def Device.key (r : Device) : String × String := (r.accountId, r.deviceId)

/-- `account_seq`: the per-account sequence source. -/
structure AccountSeq where
  accountId : String
  value : Nat
  deriving DecidableEq

/-- `account_salts` -/
structure AccountSalt where
  accountId : String
  salt : String
  createdAt : String
  deriving DecidableEq

/-- `blobs`; `zeroRefSeq` is NULL while the blob is referenced. -/
structure Blob where
  accountId : String
  blobHash : String
  size : Nat
  refCount : Int
  zeroRefSeq : Option Nat
  createdAt : String
  lastReferenceActivityAt : String
  deriving DecidableEq

def Blob.key (r : Blob) : String × String := (r.accountId, r.blobHash)

/-- `blob_upload_sessions` -/
structure UploadSession where
  uploadId : String
  accountId : String
  blobHash : String
  declaredSize : Nat
  createdAt : String
  deriving DecidableEq

/-- `blob_upload_parts` -/
structure UploadPart where
  uploadId : String
  partIndex : Nat
  size : Nat
  receivedAt : String
  deriving DecidableEq

def UploadPart.key (r : UploadPart) : String × Nat := (r.uploadId, r.partIndex)

/-- `device_credentials`; `revokedAt` is NULL while the credential is active. -/
structure Credential where
  credentialId : String
  accountId : String
  deviceId : String
  credentialHash : String
  createdAt : String
  revokedAt : Option String
  deriving DecidableEq

/-- `accounts`: the registry of the account-key enrollment mode. -/
structure Account where
  accountId : String
  label : Option String
  keyHash : String
  createdAt : String
  keyRotatedAt : Option String
  deriving DecidableEq

/-- mirrors src/storage/migrations.ts:28-276 -/
@[ext] structure Db where
  syncRows : Table SyncRow.key
  intentEvents : Table IntentEvent.key
  devices : Table Device.key
  accountSeq : Table AccountSeq.accountId
  accountSalts : Table AccountSalt.accountId
  blobs : Table Blob.key
  uploadSessions : Table UploadSession.uploadId
  uploadParts : Table UploadPart.key
  deviceCredentials : Table Credential.credentialId
  accounts : Table Account.accountId
  deriving DecidableEq

def Db.empty : Db :=
  ⟨.empty, .empty, .empty, .empty, .empty, .empty, .empty, .empty, .empty, .empty⟩

/-- What a statement raises: a constraint of the schema, or the engine
(`SQLITE_BUSY`, `SQLITE_FULL`, an I/O error). -/
inductive StoreError
  | constraint (name : String)
  | engine (code : String)
  deriving DecidableEq

abbrev DbTx (α : Type) : Type := Tx Db StoreError α

/-! ## One account's part -/

/-- The upload session `u` is one of account `a`. -/
def Db.ownsUpload (db : Db) (a u : String) : Bool :=
  (db.uploadSessions.find u).any fun s => s.accountId = a

def Db.tenant (a : String) (db : Db) : Db where
  syncRows := db.syncRows.keep fun r => r.accountId = a
  intentEvents := db.intentEvents.keep fun r => r.accountId = a
  devices := db.devices.keep fun r => r.accountId = a
  accountSeq := db.accountSeq.keep fun r => r.accountId = a
  accountSalts := db.accountSalts.keep fun r => r.accountId = a
  blobs := db.blobs.keep fun r => r.accountId = a
  uploadSessions := db.uploadSessions.keep fun r => r.accountId = a
  uploadParts := db.uploadParts.keep fun r => db.ownsUpload a r.uploadId
  deviceCredentials := db.deviceCredentials.keep fun r => r.accountId = a
  accounts := db.accounts.keep fun r => r.accountId = a

theorem Db.ownsUpload_iff {db : Db} {a u : String} :
    db.ownsUpload a u = true ↔ ∃ s, db.uploadSessions.find u = some s ∧ s.accountId = a := by
  unfold ownsUpload
  cases db.uploadSessions.find u <;> simp

theorem Db.ownsUpload_other {db : Db} {a b u : String} (hab : a ≠ b)
    (h : db.ownsUpload a u = true) :
    db.ownsUpload b u = false := by
  obtain ⟨s, hs, ha⟩ := Db.ownsUpload_iff.1 h
  unfold ownsUpload
  rw [hs]
  simpa [ha] using hab

/-! ### Primary keys carry the account -/

section SameAccount

theorem SyncRow.same_account {x r : SyncRow} (h : x.key = r.key) : x.accountId = r.accountId :=
  congrArg Prod.fst h

theorem IntentEvent.same_account {x r : IntentEvent} (h : x.key = r.key) :
    x.accountId = r.accountId :=
  congrArg Prod.fst h

theorem Device.same_account {x r : Device} (h : x.key = r.key) : x.accountId = r.accountId :=
  congrArg Prod.fst h

theorem Blob.same_account {x r : Blob} (h : x.key = r.key) : x.accountId = r.accountId :=
  congrArg Prod.fst h

end SameAccount

/-! ### Point reads inside a tenant -/

section TenantReads
variable (a : String) (db : Db)

@[simp] theorem tenant_syncRow (app e : String) :
    (db.tenant a).syncRows.find (a, app, e) = db.syncRows.find (a, app, e) :=
  Table.find_keep_of fun r _ h => by
    have : r.accountId = a := congrArg Prod.fst h
    simpa using this

@[simp] theorem tenant_intentEvent (e : String) :
    (db.tenant a).intentEvents.find (a, e) = db.intentEvents.find (a, e) :=
  Table.find_keep_of fun r _ h => by
    have : r.accountId = a := congrArg Prod.fst h
    simpa using this

@[simp] theorem tenant_device (d : String) :
    (db.tenant a).devices.find (a, d) = db.devices.find (a, d) :=
  Table.find_keep_of fun r _ h => by
    have : r.accountId = a := congrArg Prod.fst h
    simpa using this

@[simp] theorem tenant_blob (h : String) :
    (db.tenant a).blobs.find (a, h) = db.blobs.find (a, h) :=
  Table.find_keep_of fun r _ e => by
    have : r.accountId = a := congrArg Prod.fst e
    simpa using this

@[simp] theorem tenant_seq : (db.tenant a).accountSeq.find a = db.accountSeq.find a :=
  Table.find_keep_of fun r _ h => by simpa using h

@[simp] theorem tenant_salt : (db.tenant a).accountSalts.find a = db.accountSalts.find a :=
  Table.find_keep_of fun r _ h => by simpa using h

/-- A tenant's sessions are found under their id, another account's are not. -/
theorem tenant_session (u : String) : (db.tenant a).uploadSessions.find u =
    (db.uploadSessions.find u).filter fun s => s.accountId = a :=
  Table.find_keep _ _ _

@[simp] theorem tenant_owns (u : String) : (db.tenant a).ownsUpload a u = db.ownsUpload a u := by
  unfold Db.ownsUpload
  rw [tenant_session]
  cases db.uploadSessions.find u with
  | none => rfl
  | some s => by_cases h : s.accountId = a <;> simp [Option.filter, h]

end TenantReads

end GlanceVault.L2
