import GlanceVault.Core.Line
import GlanceVault.Core.Run
import GlanceVault.L2Storage.IntentStore
import GlanceVault.L2Storage.Registry
/-!
# One sequence line for every writer

Sync rows of every app, intents and the zero points of blobs are stamped from
one counter per account. `Db.line a` reads the account's line off the
database, and every store operation moves it by the steps of
`GlanceVault.Core.Line` (`line_reaches`); only the deletion of the account
itself starts the line anew.

* `sound_run`: in every reachable state the stamps of an account are distinct
  and lie in `1..counter`.
* `batchUpsert_assigns`, `insertIntents_assigns`: a batch that reports `k`
  rows assigned the next `k` numbers, in its order.
* `seq_line`: the two, with the rollback of a transaction that fails.
-/
namespace GlanceVault.L2
open GlanceVault.Core GlanceVault.L1 GlanceVault.L1.Js

/-! ## The line of an account -/

/-- What carries a number: a row of an app, an intent, the zero point of a
blob. -/
inductive Holder
  | row (app entityId : String)
  | event (eventId : String)
  | zero (blobHash : String)
  deriving DecidableEq

def Db.stampOf (db : Db) (a : String) : Holder → Option Nat
  | .row app e => (db.syncRows.find (a, app, e)).map (·.seq)
  | .event e => (db.intentEvents.find (a, e)).map (·.seq)
  | .zero h => (db.blobs.find (a, h)).bind (·.zeroRefSeq)

def Db.line (a : String) (db : Db) : Line Holder := ⟨latestSeq db a, db.stampOf a⟩

theorem line_tenant (a : String) (db : Db) : (db.tenant a).line a = db.line a := by
  unfold Db.line
  rw [latestSeq_tenant]
  congr 1
  funext k
  cases k <;> simp [Db.stampOf]

/-- A transaction that leaves an account's part alone leaves its line alone. -/
theorem line_keeps {α : Type} {a : String} {m : DbTx α} (h : m.Keeps (Db.tenant a)) :
    m.Keeps (Db.line a) := by
  intro db r db' e
  rw [← line_tenant, ← line_tenant a db, h db r db' e]

/-- The numbers in use in an account: of its rows in every app, its intents
and the zero points of its blobs. -/
def stamps (a : String) (db : Db) : List Nat :=
  (db.syncRows.rows.filter fun r => r.accountId = a).map (·.seq) ++
    ((db.intentEvents.rows.filter fun r => r.accountId = a).map (·.seq) ++
      (db.blobs.rows.filter fun r => r.accountId = a).filterMap (·.zeroRefSeq))

theorem stamp_row {a : String} {db : Db} {r : SyncRow} (hr : r ∈ db.syncRows.rows)
    (ha : r.accountId = a) :
    db.stampOf a (.row r.app r.entityId) = some r.seq := by
  have : db.syncRows.find (a, r.app, r.entityId) = some r :=
    Table.find_some.2 ⟨hr, by rw [← ha]; rfl⟩
  simp [Db.stampOf, this]

theorem stamp_event {a : String} {db : Db} {r : IntentEvent} (hr : r ∈ db.intentEvents.rows)
    (ha : r.accountId = a) : db.stampOf a (.event r.eventId) = some r.seq := by
  have : db.intentEvents.find (a, r.eventId) = some r := Table.find_some.2 ⟨hr, by rw [← ha]; rfl⟩
  simp [Db.stampOf, this]

theorem stamp_zero {a : String} {db : Db} {r : Blob} {z : Nat} (hr : r ∈ db.blobs.rows)
    (ha : r.accountId = a)
    (hz : r.zeroRefSeq = some z) : db.stampOf a (.zero r.blobHash) = some z := by
  have : db.blobs.find (a, r.blobHash) = some r := Table.find_some.2 ⟨hr, by rw [← ha]; rfl⟩
  simp [Db.stampOf, this, hz]

/-- The stamped rows of one table of a sound line hold different numbers. -/
theorem stamps_nodup {ρ κ : Type} {key : ρ → κ} [DecidableEq κ] {a : String} {db : Db}
    (hl : (db.line a).Sound) {t : Table key} {p : ρ → Bool} {f : ρ → Option Nat} {H : ρ → Holder}
    (hst : ∀ r ∈ t.rows, p r = true → ∀ z, f r = some z → db.stampOf a (H r) = some z)
    (hinj : ∀ r s, p r = true → p s = true → H r = H s → key r = key s) :
    ((t.rows.filter p).filterMap f).Nodup := by
  have hrows : t.rows.Nodup := List.Nodup.of_map _ t.unique
  rw [List.Nodup, List.pairwise_filterMap]
  refine List.Pairwise.imp_of_mem ?_ (hrows.filter p)
  intro r s hr hs hne z hz w hw e
  obtain ⟨hr1, hr2⟩ := List.mem_filter.1 hr
  obtain ⟨hs1, hs2⟩ := List.mem_filter.1 hs
  subst e
  have he : H r = H s := hl.distinct _ _ z (hst r hr1 hr2 z hz) (hst s hs1 hs2 z hw)
  exact hne (Table.eq_of_mem hr1 hs1 (hinj r s hr2 hs2 he))

/-- A sound line, read as a statement about the three tables. -/
theorem stamps_of_sound {a : String} {db : Db} (h : (db.line a).Sound) :
    (stamps a db).Nodup ∧ ∀ s ∈ stamps a db, 1 ≤ s ∧ s ≤ latestSeq db a := by
  have hd : ∀ j k s, db.stampOf a j = some s → db.stampOf a k = some s → j = k := h.distinct
  -- the holder of each number tells its table, so no number is in two tables
  have hrow : ∀ s ∈ (db.syncRows.rows.filter fun r => decide (r.accountId = a)).map (·.seq),
      ∃ app e, db.stampOf a (.row app e) = some s := by
    intro s hm
    simp only [List.mem_map, List.mem_filter, decide_eq_true_eq] at hm
    obtain ⟨r, ⟨hr, ha⟩, rfl⟩ := hm
    exact ⟨_, _, stamp_row hr ha⟩
  have hevent : ∀ s ∈ (db.intentEvents.rows.filter fun r => decide (r.accountId = a)).map (·.seq),
      ∃ e, db.stampOf a (.event e) = some s := by
    intro s hm
    simp only [List.mem_map, List.mem_filter, decide_eq_true_eq] at hm
    obtain ⟨r, ⟨hr, ha⟩, rfl⟩ := hm
    exact ⟨_, stamp_event hr ha⟩
  have hzero :
      ∀ s ∈ (db.blobs.rows.filter fun r => decide (r.accountId = a)).filterMap (·.zeroRefSeq),
      ∃ e, db.stampOf a (.zero e) = some s := by
    intro s hm
    simp only [List.mem_filterMap, List.mem_filter, decide_eq_true_eq] at hm
    obtain ⟨r, ⟨hr, ha⟩, hz⟩ := hm
    exact ⟨_, stamp_zero hr ha hz⟩
  constructor
  · have n1 : ((db.syncRows.rows.filter fun r => decide (r.accountId = a)).map (·.seq)).Nodup := by
      rw [← List.filterMap_eq_map]
      refine stamps_nodup h (H := fun r : SyncRow => .row r.app r.entityId)
        (fun r hr ha z hz => by cases hz; exact stamp_row hr (of_decide_eq_true ha)) ?_
      intro r s ha hb e
      cases r; cases s; cases e
      exact congrArg (·, _, _) ((of_decide_eq_true ha).trans (of_decide_eq_true hb).symm)
    have n2 :
        ((db.intentEvents.rows.filter fun r => decide (r.accountId = a)).map (·.seq)).Nodup := by
      rw [← List.filterMap_eq_map]
      refine stamps_nodup h (H := fun r : IntentEvent => .event r.eventId)
        (fun r hr ha z hz => by cases hz; exact stamp_event hr (of_decide_eq_true ha)) ?_
      intro r s ha hb e
      cases r; cases s; cases e
      exact congrArg (·, _) ((of_decide_eq_true ha).trans (of_decide_eq_true hb).symm)
    have n3 :
        ((db.blobs.rows.filter fun r => decide (r.accountId = a)).filterMap
          (·.zeroRefSeq)).Nodup := by
      refine stamps_nodup h (H := fun r : Blob => .zero r.blobHash)
        (fun r hr ha z hz => stamp_zero hr (of_decide_eq_true ha) hz) ?_
      intro r s ha hb e
      cases r; cases s; cases e
      exact congrArg (·, _) ((of_decide_eq_true ha).trans (of_decide_eq_true hb).symm)
    refine List.nodup_append.2 ⟨n1, List.nodup_append.2 ⟨n2, n3, ?_⟩, ?_⟩
    · intro s hs w hw e
      subst e
      obtain ⟨e1, h1⟩ := hevent s hs
      obtain ⟨e2, h2⟩ := hzero s hw
      cases hd _ _ s h1 h2
    · intro s hs w hw e
      subst e
      obtain ⟨app, e1, h1⟩ := hrow s hs
      rcases List.mem_append.1 hw with hw | hw
      · obtain ⟨e2, h2⟩ := hevent s hw
        cases hd _ _ s h1 h2
      · obtain ⟨e2, h2⟩ := hzero s hw
        cases hd _ _ s h1 h2
  · intro s hm
    have hk : ∃ k, db.stampOf a k = some s := by
      rcases List.mem_append.1 hm with hm | hm
      · obtain ⟨app, e, h1⟩ := hrow s hm; exact ⟨_, h1⟩
      · rcases List.mem_append.1 hm with hm | hm
        · obtain ⟨e, h1⟩ := hevent s hm; exact ⟨_, h1⟩
        · obtain ⟨e, h1⟩ := hzero s hm; exact ⟨_, h1⟩
    obtain ⟨k, hk⟩ := hk
    exact ⟨h.pos k s hk, h.le k s hk⟩

/-! ## The operations of the store -/

/-- A write of the store, with the clock it reads. -/
inductive StoreOp
  | nextSeq (a : String)
  | batchUpsert (app a : String) (rows : List SyncRowInput) (now : Nat → String)
  | softDeleteRow (app a entityId : String) (deletedAt : Option JsNumber) (now : String)
  | insertIntents (a : String) (events : List IntentEventInput) (now : Nat → String)
  | pruneExpiredIntents (now : String)
  | putSaltIfAbsent (a salt now : String)
  | updateDeviceCursor (a deviceId : String) (lastSeenSeq : Nat) (now : String)
  | insertBlobIfAbsent (a blobHash : String) (size : Nat) (now : String)
  | addBlobReference (a blobHash now : String)
  | releaseBlobReference (a blobHash now : String)
  | deleteBlob (a blobHash : String)
  | createUploadSession (a uploadId blobHash : String) (declaredSize : Nat) (now : String)
  | recordUploadPart (a uploadId : String) (partIndex size : Nat) (now : String)
  | deleteUploadSessionFor (a uploadId : String)
  | deleteUploadSession (uploadId : String)
  | issueCredential (credentialId a deviceId credentialHash now : String)
  | revokeCredential (credentialId now : String)
  | createAccount (a : String) (label : Option String) (keyHash : String)
    (maxAccounts : Option Nat) (now : String)
  | rotateAccountKey (a keyHash : String) (revokeDevices : Bool) (now : String)
  | deleteAccount (a : String)

def StoreOp.tx : StoreOp → DbTx Unit
  | .nextSeq a => (L2.nextSeq a).void
  | .batchUpsert app a rows now => (L2.batchUpsert app a rows now).void
  | .softDeleteRow app a e t now => (L2.softDeleteRow app a e t now).void
  | .insertIntents a evs now => (L2.insertIntents a evs now).void
  | .pruneExpiredIntents now => (L2.pruneExpiredIntents now).void
  | .putSaltIfAbsent a salt now => (L2.putSaltIfAbsent a salt now).void
  | .updateDeviceCursor a d n now => (L2.updateDeviceCursor a d n now).void
  | .insertBlobIfAbsent a h size now => (L2.insertBlobIfAbsent a h size now).void
  | .addBlobReference a h now => (L2.addBlobReference a h now).void
  | .releaseBlobReference a h now => (L2.releaseBlobReference a h now).void
  | .deleteBlob a h => (L2.deleteBlob a h).void
  | .createUploadSession a u h n now => (L2.createUploadSession a u h n now).void
  | .recordUploadPart a u i n now => (L2.recordUploadPart a u i n now).void
  | .deleteUploadSessionFor a u => (L2.deleteUploadSessionFor a u).void
  | .deleteUploadSession u => (L2.deleteUploadSession u).void
  | .issueCredential id a d hash now => (L2.issueCredential id a d hash now).void
  | .revokeCredential id now => (stampRevoked id now).void
  | .createAccount a label keyHash cap now => (L2.createAccount a label keyHash cap now).void
  | .rotateAccountKey a keyHash b now => (L2.rotateAccountKey a keyHash b now).void
  | .deleteAccount a => (L2.deleteAccount a).void

/-- The statement at which the engine fails the transaction, if any. -/
abbrev Fault : Type := Option (Nat × StoreError)

/-- One transaction of some client or process, committed or rolled back. -/
def StoreOp.commit (o : StoreOp × Fault) (db : Db) : Except StoreError Unit × Db :=
  o.1.tx.commit o.2 db

/-- A run of transactions, in the order in which they took the write lock. -/
def runOps (db : Db) (ops : List (StoreOp × Fault)) : Db :=
  run (fun d o => (StoreOp.commit o d).2) db ops

/-! ## One step of the line for each operation -/

abbrev LineReaches (a : String) (d d' : Db) : Prop := Line.Reaches (d.line a) (d'.line a)

section Steps
variable {a : String}

theorem reaches_of_eq {d d' : Db} (h : d'.line a = d.line a) : LineReaches a d d' := by
  unfold LineReaches; rw [h]

theorem reaches_keeps {α : Type} {m : DbTx α} (h : m.Keeps (Db.line a)) : m.Moves (LineReaches a) :=
  fun db r db' e => reaches_of_eq (h db r db' e)

theorem bump_stamp (db : Db) (k : Holder) : (db.bump a).stampOf a k = db.stampOf a k := by
  cases k <;> rfl

theorem reaches_bump (db : Db) : LineReaches a db (db.bump a) := by
  refine .single (.forget ?_ fun k => .inl (bump_stamp db k))
  show latestSeq db a ≤ latestSeq (db.bump a) a
  rw [latestSeq_bump_self]; omega

/-- A row of the account stamped with the next number. -/
theorem reaches_putSyncRow (db : Db) (r : SyncRow) (ha : r.accountId = a)
    (hs : r.seq = latestSeq db a + 1) :
    LineReaches a db ((db.bump a).putSyncRow r) := by
  have hc : latestSeq ((db.bump a).putSyncRow r) a = latestSeq db a + 1 := latestSeq_bump_self db a
  have hkey : r.key = (a, r.app, r.entityId) := by rw [← ha]; rfl
  refine .single (.assign (.row r.app r.entityId) hc ?_ ?_)
  · show ((db.syncRows.upsert r).find (a, r.app, r.entityId)).map _ =
      some (latestSeq ((db.bump a).putSyncRow r) a)
    rw [hc, ← hkey, Table.find_upsert_self, ← hs]
    rfl
  · intro k hk
    cases k with
    | row app e =>
      show ((db.syncRows.upsert r).find (a, app, e)).map _ = _
      rw [Table.find_upsert, if_neg]
      · rfl
      · intro e'
        rw [hkey] at e'
        cases e'
        exact hk rfl
    | event e => rfl
    | zero h => rfl

theorem reaches_putIntent (db : Db) (r : IntentEvent) (ha : r.accountId = a)
    (hs : r.seq = latestSeq db a + 1) :
    LineReaches a db ((db.bump a).putIntent r) := by
  have hc : latestSeq ((db.bump a).putIntent r) a = latestSeq db a + 1 := latestSeq_bump_self db a
  have hkey : r.key = (a, r.eventId) := by rw [← ha]; rfl
  refine .single (.assign (.event r.eventId) hc ?_ ?_)
  · show ((db.intentEvents.upsert r).find (a, r.eventId)).map _ =
      some (latestSeq ((db.bump a).putIntent r) a)
    rw [hc, ← hkey, Table.find_upsert_self, ← hs]
    rfl
  · intro k hk
    cases k with
    | event e =>
      show ((db.intentEvents.upsert r).find (a, e)).map _ = _
      rw [Table.find_upsert, if_neg]
      · rfl
      · intro e'
        rw [hkey] at e'
        cases e'
        exact hk rfl
    | row app e => rfl
    | zero h => rfl

theorem find_putBlob (db : Db) (r : Blob) (ha : r.accountId = a) (h : String) :
    (db.putBlob r).blobs.find (a, h) = if h = r.blobHash then some r else db.blobs.find (a, h) := by
  unfold Db.putBlob
  rw [Table.find_upsert]
  have : r.key = (a, h) ↔ h = r.blobHash := by
    rw [← ha]
    exact ⟨fun e => (congrArg Prod.snd e).symm, fun e => by rw [e]; rfl⟩
  simp only [this]

/-- A blob row whose zero point is the next number. -/
theorem reaches_putBlob_next (db : Db) (r : Blob) (ha : r.accountId = a)
    (hs : r.zeroRefSeq = some (latestSeq db a + 1)) : LineReaches a db ((db.bump a).putBlob r) := by
  have hc : latestSeq ((db.bump a).putBlob r) a = latestSeq db a + 1 := latestSeq_bump_self db a
  refine .single (.assign (.zero r.blobHash) hc ?_ ?_)
  · show (((db.bump a).putBlob r).blobs.find (a, r.blobHash)).bind _ =
      some (latestSeq ((db.bump a).putBlob r) a)
    rw [hc, find_putBlob _ _ ha, if_pos rfl]
    exact hs
  · intro k hk
    cases k with
    | zero h =>
      show (((db.bump a).putBlob r).blobs.find (a, h)).bind _ = _
      rw [find_putBlob _ _ ha, if_neg fun e => hk (by rw [e])]
      rfl
    | row app e => rfl
    | event e => rfl

/-- A blob row that keeps its zero point or has none. -/
theorem reaches_putBlob_same (db : Db) (r b : Blob) (hb : db.blobs.find (a, r.blobHash) = some b)
    (ha : r.accountId = a) (hs : r.zeroRefSeq = b.zeroRefSeq ∨ r.zeroRefSeq = none) :
    LineReaches a db (db.putBlob r) := by
  refine .single (.forget (Nat.le_refl _) fun k => ?_)
  cases k with
  | row app e => exact .inl rfl
  | event e => exact .inl rfl
  | zero h =>
    show ((db.putBlob r).blobs.find (a, h)).bind _ = (db.blobs.find (a, h)).bind _ ∨
      ((db.putBlob r).blobs.find (a, h)).bind _ = none
    rw [find_putBlob _ _ ha]
    by_cases hh : h = r.blobHash
    · rw [if_pos hh, hh, hb]
      exact hs
    · rw [if_neg hh]
      exact .inl rfl

theorem batchUpsert_line (app : String) (rows : List SyncRowInput) (now : Nat → String) :
    (batchUpsert app a rows now).Moves (LineReaches a) :=
  batchUpsert_moves rows now (fun _ => .refl) (fun h1 h2 => h1.trans h2)
    fun db _ _ _ _ => reaches_putSyncRow db _ rfl rfl

theorem softDeleteRow_line (app e : String) (t : Option JsNumber) (now : String) :
    (softDeleteRow app a e t now).Moves (LineReaches a) :=
  softDeleteRow_moves (fun _ => .refl)
    (fun db r t n _ ha _ => by
      unfold Db.tombstoneRow
      rw [ha]
      exact reaches_putSyncRow db _ ha rfl) e t now

/-- Losing intents loses their numbers. -/
theorem reaches_keepIntents (db : Db) (p : IntentEvent → Bool) :
    LineReaches a db { db with intentEvents := db.intentEvents.keep p } := by
  refine .single (.forget (Nat.le_refl _) fun k => ?_)
  cases k with
  | row app e => exact .inl rfl
  | zero h => exact .inl rfl
  | event e =>
    show ((db.intentEvents.keep p).find (a, e)).map _ = (db.intentEvents.find (a, e)).map _ ∨
      ((db.intentEvents.keep p).find (a, e)).map _ = none
    rw [Table.find_keep]
    cases db.intentEvents.find (a, e) with
    | none => exact .inl rfl
    | some r => cases h : p r <;> simp [Option.filter, h]

theorem insertIntents_line (evs : List IntentEventInput) (now : Nat → String) :
    (insertIntents a evs now).Moves (LineReaches a) :=
  insertIntents_moves (fun _ => .refl) (fun h1 h2 => h1.trans h2)
    (fun db _ _ _ => reaches_putIntent db _ rfl rfl) (fun db _ => reaches_keepIntents db _) evs now

theorem insertBlobIfAbsent_line (h : String) (size : Nat) (now : String) :
    (insertBlobIfAbsent a h size now).Moves (LineReaches a) := by
  intro db r db' e
  rw [insertBlobIfAbsent_eval] at e
  split at e <;> cases e
  · exact .refl
  · exact reaches_putBlob_next db _ rfl rfl

theorem addBlobReference_line (h now : String) :
    (addBlobReference a h now).Moves (LineReaches a) := by
  intro db r db' e
  rw [addBlobReference_eval] at e
  split at e
  · cases e; exact .refl
  · rename_i b hb
    cases e
    have hk := Table.find_key hb
    cases hk
    exact reaches_putBlob_same db _ b hb rfl (.inr rfl)

theorem releaseBlobReference_line (h now : String) :
    (releaseBlobReference a h now).Moves (LineReaches a) := by
  intro db r db' e
  rw [releaseBlobReference_eval] at e
  split at e
  · cases e; exact .refl
  · rename_i b hb
    have hk := Table.find_key hb
    cases hk
    split at e
    · cases e; exact reaches_putBlob_same db _ b hb rfl (.inl rfl)
    · split at e
      · cases e; exact reaches_putBlob_next db _ rfl rfl
      · cases e; exact reaches_putBlob_same db _ b hb rfl (.inl rfl)

theorem deleteBlob_line (b h : String) : (deleteBlob b h).Moves (LineReaches a) := by
  intro db r db' e
  unfold deleteBlob at e
  rw [Tx.eval_write] at e
  cases e
  refine .single (.forget (Nat.le_refl _) fun k => ?_)
  cases k with
  | row app e => exact .inl rfl
  | event e => exact .inl rfl
  | zero g =>
    show ((db.blobs.keep _).find (a, g)).bind _ = (db.blobs.find (a, g)).bind _ ∨
      ((db.blobs.keep _).find (a, g)).bind _ = none
    rw [Table.find_keep]
    cases hf : db.blobs.find (a, g) with
    | none => exact .inl rfl
    | some r => by_cases hk : r.key = (b, h) <;> simp [Option.filter, hk]

end Steps

/-! ## Runs -/

section Runs
variable {a : String}

/-- An operation made for account `b`: its own line, or nobody else's. -/
theorem moves_of_account {α : Type} {b : String} {m : DbTx α}
    (hown : b = a → m.Moves (LineReaches a))
    (hother : b ≠ a → m.Keeps (Db.tenant a)) : m.Moves (LineReaches a) := by
  by_cases h : b = a
  · exact hown h
  · exact reaches_keeps (line_keeps (hother h))

theorem moves_outside {α : Type} {m : DbTx α} {π : Db → Db} (hm : m.Keeps π)
    (hl : ∀ d, (π d).line a = d.line a) :
    m.Moves (LineReaches a) := by
  refine reaches_keeps fun db r db' e => ?_
  show db'.line a = db.line a
  rw [← hl, ← hl db, hm db r db' e]

/-- **Only the account's own deletion restarts its line.** -/
theorem line_reaches (o : StoreOp) (ho : o ≠ .deleteAccount a) : o.tx.Moves (LineReaches a) := by
  have hv : ∀ {α : Type} {m : DbTx α}, m.Moves (LineReaches a) → m.void.Moves (LineReaches a) :=
    fun h => h.void (fun _ => .refl) fun h1 h2 => h1.trans h2
  cases o with
  | nextSeq b =>
    refine hv (moves_of_account ?_ nextSeq_keeps)
    rintro rfl db r db' e
    rw [nextSeq_eval] at e
    cases e; exact reaches_bump db
  | batchUpsert app b rows now =>
    exact hv (moves_of_account (fun h => by subst h; exact batchUpsert_line app rows now)
      fun h => batchUpsert_keeps h app rows now)
  | softDeleteRow app b e t now =>
    exact hv (moves_of_account (fun h => by subst h; exact softDeleteRow_line app e t now)
      fun h => softDeleteRow_keeps h app e t now)
  | insertIntents b evs now =>
    exact hv (moves_of_account (fun h => by subst h; exact insertIntents_line evs now)
      fun h => insertIntents_keeps h evs now)
  | pruneExpiredIntents now =>
    refine hv fun db r db' e => ?_
    unfold L2.pruneExpiredIntents at e
    rw [Tx.eval_write] at e
    cases e; exact reaches_keepIntents db _
  | putSaltIfAbsent b salt now =>
    exact hv (moves_outside (putSaltIfAbsent_frame b salt now) fun _ => rfl)
  | updateDeviceCursor b d n now =>
    exact hv (moves_outside (updateDeviceCursor_frame b d n now) fun _ => rfl)
  | insertBlobIfAbsent b h size now =>
    exact hv (moves_of_account (fun e => by subst e; exact insertBlobIfAbsent_line h size now)
      fun e => insertBlobIfAbsent_keeps e h size now)
  | addBlobReference b h now =>
    exact hv (moves_of_account (fun e => by subst e; exact addBlobReference_line h now)
      fun e => addBlobReference_keeps e h now)
  | releaseBlobReference b h now =>
    exact hv (moves_of_account (fun e => by subst e; exact releaseBlobReference_line h now)
      fun e => releaseBlobReference_keeps e h now)
  | deleteBlob b h => exact hv (deleteBlob_line b h)
  | createUploadSession b u h n now =>
    exact hv (moves_outside (createUploadSession_frame b u h n now) fun _ => rfl)
  | recordUploadPart b u i n now =>
    exact hv (moves_outside (recordUploadPart_frame b u i n now) fun _ => rfl)
  | deleteUploadSessionFor b u =>
    exact hv (moves_outside (deleteUploadSessionFor_frame b u) fun _ => rfl)
  | deleteUploadSession u => exact hv (moves_outside (deleteUploadSession_frame u) fun _ => rfl)
  | issueCredential id b d hash now =>
    exact hv (moves_outside (issueCredential_frame id b d hash now) fun _ => rfl)
  | revokeCredential id now => exact hv (moves_outside (stampRevoked_frame id now) fun _ => rfl)
  | createAccount b label keyHash cap now =>
    exact hv (moves_outside (createAccount_frame b label keyHash cap now) fun _ => rfl)
  | rotateAccountKey b keyHash revoke now =>
    exact hv (moves_outside (rotateAccountKey_frame b keyHash revoke now) fun _ => rfl)
  | deleteAccount b =>
    have hb : b ≠ a := fun e => ho (by rw [e])
    refine hv fun db r db' e => reaches_of_eq ?_
    rw [deleteAccount_eval] at e
    split at e <;> cases e
    · rfl
    · rw [← line_tenant, without_other hb, line_tenant]

theorem line_empty : Db.empty.line a = ⟨0, fun _ => none⟩ := by
  unfold Db.line
  congr 1
  funext k
  cases k <;> rfl

/-- After its deletion an account's line is empty. -/
theorem line_without (db : Db) : (db.without a).line a = ⟨0, fun _ => none⟩ := by
  rw [← line_tenant, without_self, line_empty]

theorem sound_empty : (⟨0, fun _ => none⟩ : Line Holder).Sound :=
  ⟨fun _ _ h => (nomatch h), fun _ _ h => (nomatch h), fun _ _ _ h => (nomatch h)⟩

theorem sound_step (o : StoreOp × Fault) (db : Db) (h : (db.line a).Sound) :
    ((StoreOp.commit o db).2.line a).Sound := by
  obtain ⟨o, fault⟩ := o
  by_cases ho : o = .deleteAccount a
  · subst ho
    have hm : (StoreOp.deleteAccount a).tx.Moves fun d d' => d' = d ∨ d' = d.without a := by
      intro d r d' e
      simp only [StoreOp.tx, Tx.void] at e
      obtain ⟨x, d1, e1, e2⟩ := Tx.eval_bind_ok e
      cases e2
      rw [deleteAccount_eval] at e1
      split at e1 <;> cases e1
      · exact .inl rfl
      · exact .inr rfl
    unfold StoreOp.commit
    rcases hm.commit (fun _ => .inl rfl) fault db with e | e
    · rw [e]; exact h
    · rw [e, line_without]; exact sound_empty
  · exact h.reaches ((line_reaches o ho).commit (fun _ => .refl) fault db)

theorem sound_run (ops : List (StoreOp × Fault)) : ((runOps .empty ops).line a).Sound :=
  run_inv (fun db o h => sound_step o db h) ops .empty (by rw [line_empty]; exact sound_empty)

theorem reaches_run {ops : List (StoreOp × Fault)} (h : ∀ o ∈ ops, o.1 ≠ .deleteAccount a)
    (db : Db) :
    LineReaches a db (runOps db ops) := by
  induction ops generalizing db with
  | nil => exact .refl
  | cons o ops ih =>
    have h1 := (line_reaches o.1 (h o List.mem_cons_self)).commit (fun _ => .refl) o.2 db
    exact h1.trans (ih (fun x hx => h x (List.mem_cons_of_mem _ hx)) _)

end Runs

/-! ## The numbers a batch assigns -/

section Assigns
variable (app a : String)

/-- `ws` upserted in order under the numbers from `n` on. -/
def stampRows : Nat → List (SyncRowInput × String) → Table SyncRow.key → Table SyncRow.key
  | _, [], t => t
  | n, w :: ws, t => stampRows (n + 1) ws (t.upsert (w.1.stored app a n w.2))

/-- `ws` inserted in order under the numbers from `n` on. -/
def stampEvents : Nat → List (IntentEventInput × String) → Table IntentEvent.key →
    Table IntentEvent.key
  | _, [], t => t
  | n, w :: ws, t => stampEvents (n + 1) ws (t.upsert (w.1.stored a n w.2))

variable {app a}

theorem batchLoop_assigns {now : Nat → String} {res : BatchResult} : ∀ {rows : List SyncRowInput}
    {acc : BatchResult} {db db' : Db}, acc.maxSeq ≤ latestSeq db a →
    (batchLoop app a now rows acc).eval db = .ok (res, db') →
    ∃ ws, (ws.map Prod.fst).Sublist rows ∧ res.written = acc.written + ws.length ∧
      res.maxSeq = (if ws.length = 0 then acc.maxSeq else latestSeq db a + ws.length) ∧
      latestSeq db' a = latestSeq db a + ws.length ∧
      db'.syncRows = stampRows app a (latestSeq db a + 1) ws db.syncRows
  | [], acc, db, db', _, h => by
    cases h
    exact ⟨[], List.Sublist.refl _, rfl, rfl, rfl, rfl⟩
  | row :: rows, acc, db, db', hacc, h => by
    rw [batchLoop] at h
    obtain ⟨o, d, h1, h2⟩ := Tx.eval_bind_ok h
    rw [batchRow_eval] at h1
    split at h1
    · cases h1
      obtain ⟨ws, hs, hrest⟩ := batchLoop_assigns hacc h2
      exact ⟨ws, hs.cons _, hrest⟩
    · cases h1
      have hl : latestSeq (db.writeRow app a row (now acc.written)) a = latestSeq db a + 1 :=
        latestSeq_bump_self db a
      have hmax : (if acc.maxSeq < latestSeq db a + 1 then latestSeq db a + 1 else acc.maxSeq)
          = latestSeq db a + 1 := if_pos (by omega)
      simp only [hmax] at h2
      obtain ⟨ws, hs, hw, hm, hc, ht⟩ := batchLoop_assigns (by rw [hl]) h2
      refine ⟨(row, now acc.written) :: ws, hs.cons_cons _, ?_, ?_, ?_, ?_⟩
      · rw [hw, List.length_cons]; simp only; omega
      · rw [hm, List.length_cons, hl, if_neg (Nat.succ_ne_zero _)]
        split
        · rename_i h0; rw [h0]
        · omega
      · rw [hc, hl, List.length_cons]; omega
      · rw [ht, hl]; rfl

theorem intentLoop_assigns {now : Nat → String} {res : BatchResult} :
    ∀ {evs : List IntentEventInput}
    {acc : BatchResult} {db db' : Db}, acc.maxSeq ≤ latestSeq db a →
    (intentLoop a now evs acc).eval db = .ok (res, db') →
    ∃ ws, (ws.map Prod.fst).Sublist evs ∧ res.written = acc.written + ws.length ∧
      res.maxSeq = (if ws.length = 0 then acc.maxSeq else latestSeq db a + ws.length) ∧
      latestSeq db' a = latestSeq db a + ws.length ∧
      db'.intentEvents = stampEvents a (latestSeq db a + 1) ws db.intentEvents
  | [], acc, db, db', _, h => by
    cases h
    exact ⟨[], List.Sublist.refl _, rfl, rfl, rfl, rfl⟩
  | ev :: evs, acc, db, db', hacc, h => by
    rw [intentLoop] at h
    obtain ⟨o, d, h1, h2⟩ := Tx.eval_bind_ok h
    rw [insertIntent_eval] at h1
    split at h1
    · cases h1
      obtain ⟨ws, hs, hrest⟩ := intentLoop_assigns hacc h2
      exact ⟨ws, hs.cons _, hrest⟩
    · cases h1
      have hl : latestSeq (db.writeIntent a ev (now acc.written)) a = latestSeq db a + 1 :=
        latestSeq_bump_self db a
      have hmax : (if acc.maxSeq < latestSeq db a + 1 then latestSeq db a + 1 else acc.maxSeq)
          = latestSeq db a + 1 := if_pos (by omega)
      simp only [hmax] at h2
      obtain ⟨ws, hs, hw, hm, hc, ht⟩ := intentLoop_assigns (by rw [hl]) h2
      refine ⟨(ev, now acc.written) :: ws, hs.cons_cons _, ?_, ?_, ?_, ?_⟩
      · rw [hw, List.length_cons]; simp only; omega
      · rw [hm, List.length_cons, hl, if_neg (Nat.succ_ne_zero _)]
        split
        · rename_i h0; rw [h0]
        · omega
      · rw [hc, hl, List.length_cons]; omega
      · rw [ht, hl]; rfl

/-- **A batch that reports `k` rows assigned the next `k` numbers.** -/
theorem batchUpsert_assigns {rows : List SyncRowInput} {now : Nat → String} {fault : Fault}
    {db db' : Db}
    {res : BatchResult} (h : (batchUpsert app a rows now).commit fault db = (.ok res, db')) :
    ∃ ws, (ws.map Prod.fst).Sublist rows ∧ ws.length = res.written ∧
      db'.syncRows = stampRows app a (latestSeq db a + 1) ws db.syncRows ∧
      latestSeq db' a = latestSeq db a + res.written ∧
      res.maxSeq = if res.written = 0 then 0 else latestSeq db a + res.written := by
  obtain ⟨ws, hs, hw, hm, hc, ht⟩ := batchLoop_assigns (Nat.zero_le _) (Tx.commit_ok h)
  have hk : ws.length = res.written := by simp only [Nat.zero_add] at hw; exact hw.symm
  exact ⟨ws, hs, hk, ht, by rw [hc, hk], by rw [hm, hk]⟩

/-- **The same for intents, before the prune of the same transaction.** -/
theorem insertIntents_assigns {evs : List IntentEventInput} {now : Nat → String} {fault : Fault}
    {db db' : Db}
    {res : BatchResult} (h : (insertIntents a evs now).commit fault db = (.ok res, db')) :
    ∃ ws, (ws.map Prod.fst).Sublist evs ∧ ws.length = res.written ∧
      db'.intentEvents = (stampEvents a (latestSeq db a + 1) ws db.intentEvents).keep
        (fun r => !(decide (r.accountId = a) && !decide (now res.written < r.expiresAt))) ∧
      latestSeq db' a = latestSeq db a + res.written ∧
      res.maxSeq = if res.written = 0 then 0 else latestSeq db a + res.written := by
  obtain ⟨acc, d, h1, h2⟩ := insertIntents_eval a evs now db
  have he := Tx.commit_ok h
  rw [h2] at he
  cases he
  obtain ⟨ws, hs, hw, hm, hc, ht⟩ := intentLoop_assigns (Nat.zero_le _) h1
  have hk : ws.length = res.written := by simp only [Nat.zero_add] at hw; exact hw.symm
  refine ⟨ws, hs, hk, ?_, ?_, by rw [hm, hk]⟩
  · rw [← ht]; rfl
  · rw [← hk, ← hc]; rfl

end Assigns

/-- **One sequence line per account.** In every state a run of transactions
reaches: the numbers in use are distinct and between 1 and the counter; until
the account is deleted the counter does not go back; a batch assigns the next
numbers, in order, and reports the last one; a transaction that fails changes
nothing. -/
theorem seq_line (ops : List (StoreOp × Fault)) (a : String) :
    let db := runOps .empty ops
    ((stamps a db).Nodup ∧ ∀ s ∈ stamps a db, 1 ≤ s ∧ s ≤ latestSeq db a) ∧
    (∀ more : List (StoreOp × Fault), (∀ o ∈ more, o.1 ≠ .deleteAccount a) →
      latestSeq db a ≤ latestSeq (runOps db more) a) ∧
    (∀ app rows now fault res db', (batchUpsert app a rows now).commit fault db = (.ok res, db') →
      ∃ ws, (ws.map Prod.fst).Sublist rows ∧ ws.length = res.written ∧
        db'.syncRows = stampRows app a (latestSeq db a + 1) ws db.syncRows ∧
        latestSeq db' a = latestSeq db a + res.written ∧
        res.maxSeq = if res.written = 0 then 0 else latestSeq db a + res.written) ∧
    (∀ evs now fault res db', (insertIntents a evs now).commit fault db = (.ok res, db') →
      ∃ ws, (ws.map Prod.fst).Sublist evs ∧ ws.length = res.written ∧
        db'.intentEvents = (stampEvents a (latestSeq db a + 1) ws db.intentEvents).keep
          (fun r => !(decide (r.accountId = a) && !decide (now res.written < r.expiresAt))) ∧
        latestSeq db' a = latestSeq db a + res.written ∧
        res.maxSeq = if res.written = 0 then 0 else latestSeq db a + res.written) ∧
    (∀ o e db', StoreOp.commit o db = (.error e, db') → db' = db) := by
  intro db
  refine ⟨stamps_of_sound (sound_run ops), fun more h => Line.counter_le (reaches_run h db),
    fun _ _ _ _ _ _ h => batchUpsert_assigns h, fun _ _ _ _ _ h => insertIntents_assigns h,
    fun _ _ _ h => Tx.commit_error h⟩

end GlanceVault.L2
