import GlanceVault.Core.Renaming
import GlanceVault.L2Storage.Aggregates
import GlanceVault.L2Storage.IntentStore
import GlanceVault.L2Storage.Registry
import GlanceVault.L2Storage.Usage
/-!
# Other envelopes

`Db.reseal` puts another envelope in the place of every stored one. No statement
looks into an envelope: a batch compares whole ones, so it tells them apart
exactly if the new ones differ where the old ones do, and the usage report adds
up their lengths.

* `batchUpsert_reseals`, `insertIntents_reseals`: a batch of other envelopes
  writes the same rows and events with other envelopes.
* `listRows_reseals`, `listIntents_reseals`: the pages show the same rows and
  events with other envelopes.
* `usageForAccount_reseals`: the report is the same for envelopes as long as the
  old ones.
-/
namespace GlanceVault.L2
open GlanceVault.Core GlanceVault.L1

section Reseal
variable (ρ : Bytes → Bytes)

def SyncRow.reseal (r : SyncRow) : SyncRow := { r with envelope := ρ r.envelope }

def IntentEvent.reseal (r : IntentEvent) : IntentEvent := { r with envelope := ρ r.envelope }

def SyncRowInput.reseal (row : SyncRowInput) : SyncRowInput :=
  { row with envelope := ρ row.envelope }

def IntentEventInput.reseal (ev : IntentEventInput) : IntentEventInput :=
  { ev with envelope := ρ ev.envelope }

/-- A row is addressed by its ids, which are not sealed. -/
theorem SyncRow.reseal_key (r : SyncRow) : (r.reseal ρ).key = r.key := rfl

theorem IntentEvent.reseal_key (r : IntentEvent) : (r.reseal ρ).key = r.key := rfl

/-- The same database with other envelopes. -/
def Db.reseal (db : Db) : Db := { db with
  syncRows := db.syncRows.relabel (SyncRow.reseal ρ) (SyncRow.reseal_key ρ)
  intentEvents := db.intentEvents.relabel (IntentEvent.reseal ρ) (IntentEvent.reseal_key ρ) }

end Reseal

variable {ρ : Bytes → Bytes} {a : String}

/-! ## Batches -/

/-- The next number does not depend on envelopes. -/
theorem nextSeq_reseals (a : String) : (nextSeq a).Local (Db.reseal ρ) := .write fun _ => rfl

section Batch
variable (app : String)

/-- The tombstone of an entity shows its envelope sealed anew. -/
theorem tombstone_reseals (e : String) (db : Db) :
    tombstone (db.reseal ρ) app a e = (tombstone db app a e).map ρ := by
  have hfind : (db.reseal ρ).syncRows.find (a, app, e) =
      (db.syncRows.find (a, app, e)).map (SyncRow.reseal ρ) :=
    Table.find_relabel db.syncRows (SyncRow.reseal_key ρ) _
  unfold tombstone
  rw [hfind]
  cases db.syncRows.find (a, app, e) with
  | none => rfl
  | some r =>
    cases h : r.deleted <;> simp [SyncRow.reseal, h]

theorem putSyncRow_reseals (r : SyncRow) (db : Db) :
    (db.reseal ρ).putSyncRow (r.reseal ρ) = (db.putSyncRow r).reseal ρ :=
  congrArg (fun t => { db.reseal ρ with syncRows := t })
    (Table.upsert_relabel db.syncRows (SyncRow.reseal_key ρ) r)

/-- A row is kept or skipped alike: whether it repeats a tombstone is seen on the
new envelopes as on the old ones, as no two of them became one. -/
theorem batchRow_reseals (hρ : Function.Injective ρ) (row : SyncRowInput) (now : String) :
    Tx.Renames (Db.reseal ρ) id (batchRow app a row now) (batchRow app a (row.reseal ρ) now) := by
  have hknown : Tx.Renames (Db.reseal ρ) id (insertOnlyHit app a row)
      (insertOnlyHit app a (row.reseal ρ)) :=
    .when (.read fun db => Table.has_relabel db.syncRows (SyncRow.reseal_key ρ) _) rfl
  have hprior : Tx.Renames (Db.reseal ρ) (Option.map ρ) (priorTombstone app a row)
      (priorTombstone app a (row.reseal ρ)) :=
    .when (.read fun db => tombstone_reseals app row.entityId db) rfl
  refine .bind hknown fun known =>
    .ite Iff.rfl (.pure rfl) (.bind hprior fun prior => .ite ?_ (.pure rfl) ?_)
  · -- the envelopes are equal just when the old ones are
    show prior.map ρ = (some row.envelope).map ρ ↔ _
    exact (Option.map_injective hρ).eq_iff
  · refine .bind (.of_local (nextSeq_reseals a)) fun seq =>
      .bind (g := id) (.write fun db => ?_) fun _ => .pure rfl
    exact congrArg (Prod.mk ()) (putSyncRow_reseals (row.stored app a seq now) db)

theorem batchLoop_reseals (hρ : Function.Injective ρ) (now : Nat → String) : ∀ rows acc,
    Tx.Renames (Db.reseal ρ) id (batchLoop app a now rows acc)
      (batchLoop app a now (rows.map (SyncRowInput.reseal ρ)) acc)
  | [], acc => .pure rfl
  | row :: rows, acc => by
    rw [List.map_cons, batchLoop, batchLoop]
    refine .bind (batchRow_reseals app hρ row _) fun seq? => ?_
    cases seq? with
    | none => exact batchLoop_reseals hρ now rows acc
    | some seq => exact batchLoop_reseals hρ now rows _

/-- **A batch of other envelopes writes the same rows with other envelopes.** -/
theorem batchUpsert_reseals (hρ : Function.Injective ρ) (rows : List SyncRowInput)
    (now : Nat → String) :
    Tx.Renames (Db.reseal ρ) id (batchUpsert app a rows now)
      (batchUpsert app a (rows.map (SyncRowInput.reseal ρ)) now) :=
  batchLoop_reseals app hρ now rows _

theorem getRow_reseals (e : String) (db : Db) :
    getRow app a e (db.reseal ρ) = (getRow app a e db).map (SyncRow.reseal ρ) :=
  Table.find_relabel db.syncRows (SyncRow.reseal_key ρ) _

/-- A deletion keeps the envelope that is there. -/
theorem softDeleteRow_reseals (e : String) (deletedAt : Option Js.JsNumber) (now : String) :
    (softDeleteRow app a e deletedAt now).Local (Db.reseal ρ) := by
  show Tx.Renames (Db.reseal ρ) id (softDeleteRow app a e deletedAt now)
    (softDeleteRow app a e deletedAt now)
  refine .bind (g := Option.map (SyncRow.reseal ρ))
    (.read fun db => getRow_reseals app e db) fun existing => ?_
  cases existing with
  | none => exact Tx.Local.pure _
  | some r =>
    refine Tx.Local.ite (Tx.Local.pure _)
      (.bind (nextSeq_reseals a) fun seq => .bind (.write fun db => ?_) fun _ => .pure _)
    have hupdate := Table.update_relabel (p := fun x => decide (x.key = (a, app, e)))
      (g := fun x => x.tombstoned seq now deletedAt)
      db.syncRows (SyncRow.reseal_key ρ) (fun _ => rfl) (fun _ => rfl) fun _ => rfl
    exact congrArg (fun t => ((), { db.reseal ρ with syncRows := t })) hupdate

/-- **A page shows the same rows with other envelopes.** -/
theorem listRows_reseals (since limit : Nat) (db : Db) :
    listRows app a since limit (db.reseal ρ) =
      (listRows app a since limit db).relabel (SyncRow.reseal ρ) := by
  have hkeep :=
    Table.keep_relabel (p := fun r => decide (r.accountId = a ∧ r.app = app)) db.syncRows
      (SyncRow.reseal_key ρ)
    fun _ => rfl
  exact (congrArg (fun t : Table SyncRow.key => page SyncRow.seq t.rows since limit) hkeep).trans
    (page_relabel SyncRow.seq (SyncRow.reseal ρ) (fun _ => rfl) _ since limit)

end Batch

/-! ## Intents -/

section Intents

theorem insertIntentRow_reseals (r : IntentEvent) (db : Db) :
    (db.reseal ρ).insertIntentRow (r.reseal ρ) = (db.insertIntentRow r).reseal ρ := by
  refine congrArg (fun t => { db.reseal ρ with intentEvents := t }) ?_
  have hinsert := Table.insertNew_relabel db.intentEvents (IntentEvent.reseal_key ρ) r
  exact (congrArg (fun o => o.getD (db.reseal ρ).intentEvents) hinsert).trans
    (Option.getD_map _ _ _)

/-- An event is a duplicate by its id alone. -/
theorem insertIntent_reseals (ev : IntentEventInput) (now : String) :
    Tx.Renames (Db.reseal ρ) id (insertIntent a ev now) (insertIntent a (ev.reseal ρ) now) := by
  refine .bind (.read (g := id) fun db => Table.has_relabel db.intentEvents
    (IntentEvent.reseal_key ρ) _) fun known => .ite Iff.rfl (.pure rfl) ?_
  refine .bind (.of_local (nextSeq_reseals a)) fun seq =>
    .bind (g := id) (.write fun db => ?_) fun _ => .pure rfl
  exact congrArg (Prod.mk ()) (insertIntentRow_reseals (ev.stored a seq now) db)

theorem intentLoop_reseals (now : Nat → String) : ∀ evs acc,
    Tx.Renames (Db.reseal ρ) id (intentLoop a now evs acc)
      (intentLoop a now (evs.map (IntentEventInput.reseal ρ)) acc)
  | [], acc => .pure rfl
  | ev :: evs, acc => by
    rw [List.map_cons, intentLoop, intentLoop]
    refine .bind (insertIntent_reseals ev _) fun seq? => ?_
    cases seq? with
    | none => exact intentLoop_reseals now evs acc
    | some seq => exact intentLoop_reseals now evs _

theorem pruneIntents_reseals (now : String) (db : Db) :
    (db.reseal ρ).pruneIntents a now = (db.pruneIntents a now).reseal ρ :=
  congrArg (fun t => { db.reseal ρ with intentEvents := t })
    (Table.keep_relabel db.intentEvents (IntentEvent.reseal_key ρ) fun _ => rfl)

/-- **A batch of other envelopes writes the same events with other envelopes.** -/
theorem insertIntents_reseals (evs : List IntentEventInput) (now : Nat → String) :
    Tx.Renames (Db.reseal ρ) id (insertIntents a evs now)
      (insertIntents a (evs.map (IntentEventInput.reseal ρ)) now) := by
  refine .bind (intentLoop_reseals now evs _) fun acc =>
    .bind (.write (g := id) fun db => ?_) fun _ => .pure rfl
  rw [pruneIntents_reseals]
  exact congrArg (fun n => (n, (db.pruneIntents a (now acc.written)).reseal ρ))
    (Table.count_relabel db.intentEvents (IntentEvent.reseal_key ρ) fun _ => rfl)

/-- **A page shows the same events with other envelopes.** -/
theorem listIntents_reseals (since limit : Nat) (now : String) (db : Db) :
    listIntents a since limit now (db.reseal ρ) =
      (listIntents a since limit now db).relabel (IntentEvent.reseal ρ) := by
  have hkeep :=
    Table.keep_relabel (p := fun r => decide (r.accountId = a ∧ now < r.expiresAt)) db.intentEvents
      (IntentEvent.reseal_key ρ) fun _ => rfl
  exact (congrArg (fun t : Table IntentEvent.key =>
    page IntentEvent.seq t.rows since limit) hkeep).trans
    (page_relabel IntentEvent.seq (IntentEvent.reseal ρ) (fun _ => rfl) _ since limit)

end Intents

/-! ## Blobs, uploads, salts and devices -/

section Others
variable {h u now : String}

theorem updateBlob_reseals (f : Blob → Blob) (hf : ∀ b, (f b).key = b.key) :
    (updateBlob a h f hf).Local (Db.reseal ρ) :=
  .write fun _ => rfl

/-- Blob rows hold no envelope. -/
theorem insertBlobIfAbsent_reseals (size : Nat) :
    (insertBlobIfAbsent a h size now).Local (Db.reseal ρ) := by
  refine .bind (.read fun _ => rfl) fun existing => ?_
  cases existing with
  | some b => exact .pure _
  | none =>
    refine .bind (nextSeq_reseals a) fun seq => .bind (.stmt fun db => ?_) fun _ =>
      .bind (.read fun _ => rfl) fun _ => .pure _
    have hblobs : (db.reseal ρ).blobs = db.blobs := rfl
    simp only [hblobs]
    cases db.blobs.insertNew (.fresh a h size seq now) <;> rfl

theorem addBlobReference_reseals : (addBlobReference a h now).Local (Db.reseal ρ) := by
  refine .bind (.read fun _ => rfl) fun existing => ?_
  cases existing with
  | none => exact .pure _
  | some b => exact .bind (updateBlob_reseals _ _) fun _ => .read fun _ => rfl

theorem releaseBlobReference_reseals : (releaseBlobReference a h now).Local (Db.reseal ρ) := by
  refine .bind (.read fun _ => rfl) fun existing => ?_
  cases existing with
  | none => exact .pure _
  | some b =>
    have hupdate :
        ∀ f hf, (do updateBlob a h f hf; Tx.read (getBlob a h) : DbTx
          (Option Blob)).Local (Db.reseal ρ) :=
      fun f hf => .bind (updateBlob_reseals f hf) fun _ => .read fun _ => rfl
    exact .ite (hupdate _ _) (.ite (.bind (nextSeq_reseals a) fun seq => hupdate _ _) (hupdate _ _))

theorem createUploadSession_reseals (size : Nat) :
    (createUploadSession a u h size now).Local (Db.reseal ρ) := by
  refine .stmt fun db => ?_
  have hsessions : (db.reseal ρ).uploadSessions = db.uploadSessions := rfl
  simp only [hsessions]
  cases db.uploadSessions.insertNew ⟨u, a, h, size, now⟩ <;> rfl

theorem recordUploadPart_reseals (i n : Nat) :
    (recordUploadPart a u i n now).Local (Db.reseal ρ) := by
  refine .write fun db => ?_
  have howns : (db.reseal ρ).ownsUpload a u = db.ownsUpload a u := rfl
  simp only [howns]
  cases db.ownsUpload a u <;> rfl

/-- Nor do salts. -/
theorem putSaltIfAbsent_reseals (salt : String) :
    (putSaltIfAbsent a salt now).Local (Db.reseal ρ) := by
  refine .bind (.write fun db => ?_) fun _ => .bind (.read fun _ => rfl) fun _ => .pure _
  have hsalts : (db.reseal ρ).accountSalts = db.accountSalts := rfl
  simp only [hsalts]
  cases db.accountSalts.insertNew ⟨a, salt, now⟩ <;> rfl

end Others

/-! ## The registry -/

section Registry
variable {id now : String}

theorem insertCredential_reseals (c : Credential) : (insertCredential c).Local (Db.reseal ρ) := by
  refine .stmt fun db => ?_
  have hrows : (db.reseal ρ).deviceCredentials = db.deviceCredentials := rfl
  rw [hrows]
  split
  · rfl
  · cases db.deviceCredentials.insertNew c <;> rfl

theorem issueCredential_reseals (d hash : String) :
    (issueCredential id a d hash now).Local (Db.reseal ρ) :=
  .bind (.write fun _ => rfl) fun _ => .bind (insertCredential_reseals _) fun _ => .pure _

theorem insertAccount_reseals (r : Account) : (insertAccount r).Local (Db.reseal ρ) := by
  refine .stmt fun db => ?_
  have hrows : (db.reseal ρ).accounts = db.accounts := rfl
  rw [hrows]
  split
  · rfl
  · cases db.accounts.insertNew r <;> rfl

theorem createAccount_reseals (label : Option String) (keyHash : String) (cap : Option Nat) :
    (createAccount a label keyHash cap now).Local (Db.reseal ρ) := by
  refine .bind (.read fun _ => rfl) fun existing =>
    .ite (.pure _) (.bind (.read fun _ => rfl) fun n => .ite (.pure _) ?_)
  exact .bind (insertAccount_reseals _) fun _ => .pure _

theorem rekeyAccount_reseals (keyHash : String) :
    (rekeyAccount a keyHash now).Local (Db.reseal ρ) := by
  refine .stmt fun db => ?_
  have hrows : (db.reseal ρ).accounts = db.accounts := rfl
  rw [hrows]
  split <;> rfl

theorem rotateAccountKey_reseals (keyHash : String) (revoke : Bool) :
    (rotateAccountKey a keyHash revoke now).Local (Db.reseal ρ) := by
  have hrevoke : (revokeDevicesOf a now).Local (Db.reseal ρ) :=
    .bind (.read fun _ => rfl) fun _ => .bind (.write fun _ => rfl) fun _ => .pure _
  refine .bind (rekeyAccount_reseals keyHash) fun changes =>
    .ite (.pure _) (.bind ?_ fun ids => .bind (.read fun _ => rfl) fun row => .pure _)
  cases revoke
  · exact .pure _
  · exact hrevoke

/-- The rows of an account go from a table whatever they hold. -/
theorem deleteFrom_reseals (t : AccountTable) (db : Db) :
    (db.reseal ρ).deleteFrom a t = (db.deleteFrom a t).reseal ρ := by
  cases t with
  | intentEvents =>
    have hkeep := Table.keep_relabel (p := fun r => !decide (r.accountId = a)) db.intentEvents
      (IntentEvent.reseal_key ρ) fun _ => rfl
    exact congrArg (fun t => { db.reseal ρ with intentEvents := t }) hkeep
  | _ => rfl

theorem deleteTables_reseals : ∀ ts : List AccountTable, (deleteTables a ts).Local (Db.reseal ρ)
  | [] => .pure _
  | t :: ts =>
    .bind (.write fun db => congrArg (Prod.mk ()) (deleteFrom_reseals t db)) fun _ =>
      deleteTables_reseals ts

/-- **The deletion of an account counts the same and leaves the same.** -/
theorem deleteAccount_reseals : (deleteAccount a).Local (Db.reseal ρ) := by
  refine .bind (.read fun _ => rfl) fun row => ?_
  cases row with
  | none => exact .pure _
  | some record =>
    refine .bind (.read fun _ => rfl) fun _ => .bind (.read fun _ => rfl) fun _ =>
      .bind (.read fun _ => rfl) fun _ => ?_
    refine .bind (.write fun db => ?_) fun _ => .bind (deleteTables_reseals _) fun _ =>
      .bind (.read fun _ => rfl) fun _ => .pure _
    have hcount := Table.count_relabel (p := fun r => decide (r.accountId = a)) db.syncRows
      (SyncRow.reseal_key ρ) fun _ => rfl
    have hkeep := Table.keep_relabel (p := fun r => !decide (r.accountId = a)) db.syncRows
      (SyncRow.reseal_key ρ) fun _ => rfl
    exact congrArg₂ (fun n t => (n, { db.reseal ρ with syncRows := t })) hcount hkeep

end Registry

/-! ## Aggregates -/

section Aggregates
variable (db : Db)

theorem syncRowCount_reseals : syncRowCount a (db.reseal ρ) = syncRowCount a db :=
  Table.count_relabel db.syncRows (SyncRow.reseal_key ρ) fun _ => rfl

/-- The recount behind the row cap looks for ids. -/
theorem countExistingEntities_reseals (app : String) (ids : List String) :
    countExistingEntities app a ids (db.reseal ρ) = countExistingEntities app a ids db := by
  unfold countExistingEntities
  exact congrArg List.sum (List.map_congr_left fun chunk _ => Table.count_relabel db.syncRows
    (SyncRow.reseal_key ρ) fun _ => rfl)

theorem countExistingIntentEvents_reseals (ids : List String) :
    countExistingIntentEvents a ids (db.reseal ρ) = countExistingIntentEvents a ids db := by
  unfold countExistingIntentEvents
  exact congrArg List.sum
    (List.map_congr_left fun chunk _ => Table.count_relabel db.intentEvents
      (IntentEvent.reseal_key ρ) fun _ => rfl)

theorem intentCount_reseals (now : String) :
    intentCount a now (db.reseal ρ) = intentCount a now db :=
  Table.count_relabel db.intentEvents (IntentEvent.reseal_key ρ) fun _ => rfl

theorem accountNames_reseals : accountNames (db.reseal ρ) = accountNames db := by
  have hrows : (db.reseal ρ).syncRows.rows.map (·.accountId) = db.syncRows.rows.map (·.accountId) :=
    List.map_map
  have hevents : (db.reseal ρ).intentEvents.rows.map (·.accountId) =
      db.intentEvents.rows.map (·.accountId) :=
    List.map_map
  unfold accountNames
  rw [hrows, hevents]
  rfl

variable {db} (hlen : ∀ b, (ρ b).length = b.length)
include hlen

/-- The sizes are those of the columns, which an envelope of another length would
change: here the length is kept. -/
theorem appRows_reseals : appRows a (db.reseal ρ) = appRows a db := by
  have hkeep := Table.keep_relabel (p := fun r => decide (r.accountId = a)) db.syncRows
    (SyncRow.reseal_key ρ) fun _ => rfl
  have happs : ((db.reseal ρ).syncRows.rows.filter fun r => decide (r.accountId = a)).map (·.app) =
      (db.syncRows.rows.filter fun r => decide (r.accountId = a)).map (·.app) :=
    (congrArg (fun t : Table SyncRow.key => t.rows.map (·.app)) hkeep).trans List.map_map
  unfold appRows
  rw [happs]
  refine List.map_congr_left fun app _ => ?_
  let p := fun r : SyncRow => decide (r.accountId = a) && decide (r.app = app)
  have hp : ∀ r : SyncRow, p (r.reseal ρ) = p r := fun _ => rfl
  have hbytes := Table.total_relabel (g := (·.envelope.length)) db.syncRows
    (SyncRow.reseal_key ρ) hp fun r => hlen r.envelope
  have hcount := Table.count_relabel db.syncRows (SyncRow.reseal_key ρ) hp
  have hdeleted := Table.total_relabel (g := fun r => r.deleted.toNat) db.syncRows
    (SyncRow.reseal_key ρ) hp fun _ => rfl
  exact (congr (congrArg₂ (AppRow.mk app) hbytes hcount) hdeleted)

/-- **The report counts bytes, not what they say.** -/
theorem usageForAccount_reseals (now : String) :
    usageForAccount a now (db.reseal ρ) = usageForAccount a now db := by
  have hevents := Table.total_relabel (p := fun r => decide (r.accountId = a))
    (g := (·.envelope.length)) db.intentEvents
    (IntentEvent.reseal_key ρ) (fun _ => rfl) fun r => hlen r.envelope
  have hsum : (db.reseal ρ).intentEvents.total (fun r => decide (r.accountId = a))
      (·.envelope.length) =
      db.intentEvents.total (fun r => decide (r.accountId = a)) (·.envelope.length) := hevents
  unfold usageForAccount
  rw [appRows_reseals hlen, intentCount_reseals, hsum]
  rfl

theorem listUsage_reseals (now : String → String) :
    listUsage now (db.reseal ρ) = listUsage now db := by
  unfold listUsage
  rw [accountNames_reseals]
  exact List.map_congr_left fun a _ => usageForAccount_reseals hlen (now a)

end Aggregates

end GlanceVault.L2
