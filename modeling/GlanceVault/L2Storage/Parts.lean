import GlanceVault.L2Storage.SeqLine
/-!
# Which tables an operation writes

Every operation of the store writes the tables of one part of the schema and
leaves the rest of the database alone; the deletion of an account writes
everywhere.

* `StoreOp.keeps`: what does not depend on an operation's part is kept by it.
* `rows_all`: what holds of each row that is written holds of all rows.
-/
namespace GlanceVault.L2
open GlanceVault.Core GlanceVault.L1

/-- The parts of the schema; the counters go with the writes that draw numbers. -/
inductive Part
  | line
  | sync
  | intents
  | salts
  | devices
  | blobs
  | uploads
  | registry
  | account
  deriving DecidableEq

def StoreOp.part : StoreOp → Part
  | .nextSeq _ => .line
  | .batchUpsert _ _ _ _ => .sync
  | .softDeleteRow _ _ _ _ _ => .sync
  | .insertIntents _ _ _ => .intents
  | .pruneExpiredIntents _ => .intents
  | .putSaltIfAbsent _ _ _ => .salts
  | .updateDeviceCursor _ _ _ _ => .devices
  | .insertBlobIfAbsent _ _ _ _ => .blobs
  | .addBlobReference _ _ _ => .blobs
  | .releaseBlobReference _ _ _ => .blobs
  | .deleteBlob _ _ => .blobs
  | .createUploadSession _ _ _ _ _ => .uploads
  | .recordUploadPart _ _ _ _ _ => .uploads
  | .deleteUploadSessionFor _ _ => .uploads
  | .deleteUploadSession _ => .uploads
  | .issueCredential _ _ _ _ _ => .registry
  | .revokeCredential _ _ => .registry
  | .createAccount _ _ _ _ _ => .registry
  | .rotateAccountKey _ _ _ _ => .registry
  | .deleteAccount _ => .account

/-- The database outside a part. -/
def Db.outside (db : Db) : Part → Db
  | .line => { db with accountSeq := .empty }
  | .sync => db.outsideSync
  | .intents => db.outsideIntents
  | .salts => { db with accountSalts := .empty }
  | .devices => { db with devices := .empty }
  | .blobs => db.outsideBlobs
  | .uploads => db.outsideUploads
  | .registry => db.outsideRegistry
  | .account => .empty

theorem keeps_void {α γ : Type} {π : Db → γ} {m : DbTx α} (h : m.Keeps π) : m.void.Keeps π :=
  .bind h fun _ => .pure _

/-- **An operation leaves the database outside its part alone.** -/
theorem StoreOp.frame (o : StoreOp) : o.tx.Keeps fun db => db.outside o.part := by
  cases o with
  | nextSeq a =>
    refine keeps_void fun db r db' e => ?_
    rw [nextSeq_eval] at e
    cases e
    rfl
  | batchUpsert app a rows now => exact keeps_void (batchUpsert_frame app a rows now)
  | softDeleteRow app a e t now => exact keeps_void (softDeleteRow_frame app a e t now)
  | insertIntents a evs now => exact keeps_void (insertIntents_frame a evs now)
  | pruneExpiredIntents now => exact keeps_void (.write fun _ => rfl)
  | putSaltIfAbsent a salt now => exact keeps_void (putSaltIfAbsent_frame a salt now)
  | updateDeviceCursor a d n now => exact keeps_void (updateDeviceCursor_frame a d n now)
  | insertBlobIfAbsent a h size now => exact keeps_void (insertBlobIfAbsent_frame a h size now)
  | addBlobReference a h now => exact keeps_void (addBlobReference_frame a h now)
  | releaseBlobReference a h now => exact keeps_void (releaseBlobReference_frame a h now)
  | deleteBlob a h => exact keeps_void (deleteBlob_frame a h)
  | createUploadSession a u h n now => exact keeps_void (createUploadSession_frame a u h n now)
  | recordUploadPart a u i n now => exact keeps_void (recordUploadPart_frame a u i n now)
  | deleteUploadSessionFor a u => exact keeps_void (deleteUploadSessionFor_frame a u)
  | deleteUploadSession u => exact keeps_void (deleteUploadSession_frame u)
  | issueCredential id a d hash now => exact keeps_void (issueCredential_frame id a d hash now)
  | revokeCredential id now => exact keeps_void (stampRevoked_frame id now)
  | createAccount a label keyHash cap now =>
    exact keeps_void (createAccount_frame a label keyHash cap now)
  | rotateAccountKey a keyHash b now => exact keeps_void (rotateAccountKey_frame a keyHash b now)
  | deleteAccount a => exact fun _ _ _ _ => rfl

/-- What the database outside the operation's part determines is kept. -/
theorem StoreOp.keeps {γ : Type} {π : Db → γ} (o : StoreOp)
    (h : ∀ db : Db, π (db.outside o.part) = π db) :
    o.tx.Keeps π := o.frame.of π h

/-- Rows come from batches, and change when they are deleted. -/
theorem rows_all {P : SyncRow → Prop} {o : StoreOp}
    (hbatch : ∀ app a rows now, o = .batchUpsert app a rows now →
      ∀ row ∈ rows, ∀ seq t, P (row.stored app a seq t))
    (hdelete : ∀ r, P r → ∀ seq t deletedAt, P (r.tombstoned seq t deletedAt)) :
    o.tx.Moves fun db db' => (∀ r ∈ db.syncRows.rows, P r) → ∀ r ∈ db'.syncRows.rows, P r := by
  have hput : ∀ {db : Db} {r : SyncRow}, P r → (∀ x ∈ db.syncRows.rows, P x) →
      ∀ x ∈ (db.putSyncRow r).syncRows.rows, P x := by
    intro db r hr h x hx
    rcases Table.mem_upsert.1 hx with rfl | ⟨hx, -⟩
    · exact hr
    · exact h x hx
  have hkeep : o.tx.Keeps Db.syncRows → o.tx.Moves fun db db' => (∀ r ∈ db.syncRows.rows, P r) →
      ∀ r ∈ db'.syncRows.rows, P r := by
    intro hk db u db' e h
    have hsame : db'.syncRows = db.syncRows := hk db u db' e
    rw [hsame]
    exact h
  cases o with
  | batchUpsert app a rows now =>
    exact Tx.Moves.void (fun _ => id) (fun h h' hx => h' (h hx))
      (batchUpsert_moves rows now (fun _ => id)
      (fun h h' hx => h' (h hx)) fun db row hrow t _ h =>
        @hput (db.bump a) _ (hbatch app a rows now rfl row hrow _ t) h)
  | softDeleteRow app a e t now =>
    exact Tx.Moves.void (fun _ => id) (fun h h' hx => h' (h hx)) (softDeleteRow_moves (fun _ => id)
      (fun db r t n hr _ _ h => @hput (db.bump r.accountId) _ (hdelete r (h r hr) _ n t) h) e t now)
  | deleteAccount a =>
    refine Tx.Moves.void (fun _ => id) (fun h h' hx => h' (h hx)) fun db r db' e h => ?_
    rw [deleteAccount_eval] at e
    split at e <;> cases e
    · exact h
    · exact fun x hx => h x (Table.mem_keep.1 hx).1
  | _ => exact hkeep (StoreOp.keeps _ fun _ => rfl)

end GlanceVault.L2
