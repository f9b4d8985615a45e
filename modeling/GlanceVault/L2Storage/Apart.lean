import GlanceVault.L2Storage.Aggregates
import GlanceVault.L2Storage.IntentStore
import GlanceVault.L2Storage.Registry
/-!
# The data apart from the registry

The transactions of the account-scoped routes and of the sweeps neither read nor
write the registry: each runs on the database without it
(`Db.outsideRegistry`) just as it runs on the whole one. So the data of two
databases with different registries develop alike.

* `batchUpsert_apart`, `insertIntents_apart`, ..: one for each transaction.
-/
namespace GlanceVault.L2
open GlanceVault.Core GlanceVault.L1

variable {a h u now : String}

/-- The counters are not part of the registry. -/
theorem nextSeq_apart (a : String) : (nextSeq a).Local Db.outsideRegistry := .write fun _ => rfl

/-! ## Rows and intents -/

section Rows
variable (app : String)

/-- Both reads of a row, its number and its upsert are on tables of the data. -/
theorem batchRow_apart (row : SyncRowInput) (now : String) :
    (batchRow app a row now).Local Db.outsideRegistry := by
  have hknown : (insertOnlyHit app a row).Local Db.outsideRegistry :=
    .ite (.read fun _ => rfl) (.pure _)
  have hprior : (priorTombstone app a row).Local Db.outsideRegistry :=
    .ite (.read fun _ => rfl) (.pure _)
  refine .bind hknown fun known => .ite (.pure _) (.bind hprior fun prior => .ite (.pure _) ?_)
  exact .bind (nextSeq_apart a) fun seq => .bind (.write fun _ => rfl) fun _ => .pure _

theorem batchLoop_apart (now : Nat → String) :
    ∀ rows acc, (batchLoop app a now rows acc).Local Db.outsideRegistry
  | [], acc => .pure _
  | row :: rows, acc => by
    rw [batchLoop]
    refine .bind (batchRow_apart app row _) fun seq? => ?_
    cases seq? with
    | none => exact batchLoop_apart now rows acc
    | some seq => exact batchLoop_apart now rows _

/-- **A batch of rows runs as it does without the registry.** -/
theorem batchUpsert_apart (rows : List SyncRowInput) (now : Nat → String) :
    (batchUpsert app a rows now).Local Db.outsideRegistry := batchLoop_apart app now rows _

theorem softDeleteRow_apart (e : String) (deletedAt : Option Js.JsNumber) (now : String) :
    (softDeleteRow app a e deletedAt now).Local Db.outsideRegistry := by
  refine .bind (.read fun _ => rfl) fun existing => ?_
  cases existing with
  | none => exact .pure _
  | some r =>
    exact .ite (.pure _)
      (.bind (nextSeq_apart a) fun seq => .bind (.write fun _ => rfl) fun _ => .pure _)

theorem insertIntent_apart (ev : IntentEventInput) (now : String) :
    (insertIntent a ev now).Local Db.outsideRegistry :=
  .bind (.read fun _ => rfl) fun _ => .ite (.pure _)
    (.bind (nextSeq_apart a) fun _ => .bind (.write fun _ => rfl) fun _ => .pure _)

theorem intentLoop_apart (now : Nat → String) :
    ∀ evs acc, (intentLoop a now evs acc).Local Db.outsideRegistry
  | [], acc => .pure _
  | ev :: evs, acc => by
    rw [intentLoop]
    refine .bind (insertIntent_apart ev _) fun seq? => ?_
    cases seq? with
    | none => exact intentLoop_apart now evs acc
    | some seq => exact intentLoop_apart now evs _

/-- **So does a batch of intents**, with the prune at its end. -/
theorem insertIntents_apart (evs : List IntentEventInput) (now : Nat → String) :
    (insertIntents a evs now).Local Db.outsideRegistry :=
  .bind (intentLoop_apart now evs _) fun _ => .bind (.write fun _ => rfl) fun _ => .pure _

end Rows

/-! ## Devices and salts -/

theorem updateDeviceCursor_apart (d : String) (n : Nat) :
    (updateDeviceCursor a d n now).Local Db.outsideRegistry :=
  .write fun _ => rfl

/-- The salt that is there decides, whoever is registered. -/
theorem putSaltIfAbsent_apart (salt : String) :
    (putSaltIfAbsent a salt now).Local Db.outsideRegistry := by
  refine .bind (.write fun db => ?_) fun _ => .bind (.read fun _ => rfl) fun _ => .pure _
  have hsalts : db.outsideRegistry.accountSalts = db.accountSalts := rfl
  simp only [hsalts]
  cases db.accountSalts.insertNew ⟨a, salt, now⟩ <;> rfl

/-! ## Blobs and uploads -/

/-- An update of a blob row, whichever of its fields it changes. -/
theorem updateBlob_apart (f : Blob → Blob) (hf : ∀ b, (f b).key = b.key) :
    (updateBlob a h f hf).Local Db.outsideRegistry :=
  .write fun _ => rfl

theorem insertBlobIfAbsent_apart (size : Nat) :
    (insertBlobIfAbsent a h size now).Local Db.outsideRegistry := by
  refine .bind (.read fun _ => rfl) fun existing => ?_
  cases existing with
  | some b => exact .pure _
  | none =>
    refine .bind (nextSeq_apart a) fun seq => .bind (.stmt fun db => ?_) fun _ =>
      .bind (.read fun _ => rfl) fun _ => .pure _
    have hblobs : db.outsideRegistry.blobs = db.blobs := rfl
    simp only [hblobs]
    cases db.blobs.insertNew (.fresh a h size seq now) <;> rfl

theorem addBlobReference_apart : (addBlobReference a h now).Local Db.outsideRegistry := by
  refine .bind (.read fun _ => rfl) fun existing => ?_
  cases existing with
  | none => exact .pure _
  | some b => exact .bind (updateBlob_apart _ _) fun _ => .read fun _ => rfl

/-- All three branches of a release read the row they then update. -/
theorem releaseBlobReference_apart : (releaseBlobReference a h now).Local Db.outsideRegistry := by
  refine .bind (.read fun _ => rfl) fun existing => ?_
  cases existing with
  | none => exact .pure _
  | some b =>
    have hupdate : ∀ f hf, (do
        updateBlob a h f hf
        Tx.read (getBlob a h) : DbTx (Option Blob)).Local Db.outsideRegistry := fun f hf =>
      .bind (updateBlob_apart f hf) fun _ => .read fun _ => rfl
    exact .ite (hupdate _ _) (.ite (.bind (nextSeq_apart a) fun seq => hupdate _ _) (hupdate _ _))

theorem deleteBlob_apart : (deleteBlob a h).Local Db.outsideRegistry := .write fun _ => rfl

theorem createUploadSession_apart (size : Nat) :
    (createUploadSession a u h size now).Local Db.outsideRegistry := by
  refine .stmt fun db => ?_
  have hsessions : db.outsideRegistry.uploadSessions = db.uploadSessions := rfl
  simp only [hsessions]
  cases db.uploadSessions.insertNew ⟨u, a, h, size, now⟩ <;> rfl

/-- The part is recorded when its session is the account's. -/
theorem recordUploadPart_apart (i n : Nat) :
    (recordUploadPart a u i n now).Local Db.outsideRegistry := by
  refine .write fun db => ?_
  have howns : db.outsideRegistry.ownsUpload a u = db.ownsUpload a u := rfl
  simp only [howns]
  cases db.ownsUpload a u <;> rfl

theorem deleteUploadSessionFor_apart : (deleteUploadSessionFor a u).Local Db.outsideRegistry :=
  .write fun _ => rfl

theorem deleteUploadSession_apart : (deleteUploadSession u).Local Db.outsideRegistry :=
  .write fun _ => rfl

end GlanceVault.L2
