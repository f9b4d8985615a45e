import GlanceVault.L2Storage.SyncStore
/-!
# Intents, salt and device cursors (`storage/sqlite.ts`)

`insertIntents` is a batch like `batchUpsert`, but insert-only, and prunes
the account's expired events in the same transaction. Timestamps are compared
as text, as SQLite does. The salt is written once; a device cursor only moves
forward.

* `insertIntent_eval`, `insertIntents_eval`: one event, and the whole
  transaction with its prune.
* `putSaltIfAbsent_eval`: the salt answered is the salt stored.
* `updateDeviceCursor_forward`: a cursor never goes back.
* `*_frame`, `*_local`, `*_keeps`: which tables change, and whose rows.
-/
namespace GlanceVault.L2
open GlanceVault.Core GlanceVault.L1

/-! ## Intents -/

structure IntentEventInput where
  eventId : String
  envelope : Bytes
  expiresAt : String
  deriving DecidableEq

def IntentEventInput.stored (ev : IntentEventInput) (a : String) (seq : Nat)
    (now : String) : IntentEvent where
  accountId := a
  eventId := ev.eventId
  seq := seq
  envelope := ev.envelope
  expiresAt := ev.expiresAt
  serverMtime := now

/-- `INSERT .. ON CONFLICT DO NOTHING` -/
def Db.insertIntentRow (db : Db) (r : IntentEvent) : Db :=
  { db with intentEvents := (db.intentEvents.insertNew r).getD db.intentEvents }

/-- `DELETE FROM intent_events WHERE account_id = ? AND expires_at <= ?` -/
def Db.pruneIntents (db : Db) (a now : String) : Db :=
  { db with
    intentEvents := db.intentEvents.keep fun r =>
      !(decide (r.accountId = a) && !decide (now < r.expiresAt)) }

/-- mirrors src/storage/sqlite.ts:487-493 (`pruneExpiredIntentsFor`) -/
def pruneExpiredIntentsFor (a now : String) : DbTx Nat := .write fun db =>
  (db.intentEvents.count fun r => decide (r.accountId = a) && !decide (now < r.expiresAt),
    db.pruneIntents a now)

/-- The sweep over all accounts. mirrors src/storage/sqlite.ts:478-482 -/
def pruneExpiredIntents (now : String) : DbTx Nat := .write fun db =>
  (db.intentEvents.count fun r => !decide (now < r.expiresAt),
    { db with intentEvents := db.intentEvents.keep fun r => decide (now < r.expiresAt) })

/-- One event of a batch; the number it was stamped with, if it was new.
mirrors src/storage/sqlite.ts:427-447 -/
def insertIntent (a : String) (ev : IntentEventInput) (now : String) : DbTx (Option Nat) := do
  let known ← Tx.read fun db => db.intentEvents.has (a, ev.eventId)
  if known then pure none else do
    let seq ← nextSeq a
    Tx.write fun db => ((), db.insertIntentRow (ev.stored a seq now))
    pure (some seq)

def intentLoop (a : String) (now : Nat → String) :
    List IntentEventInput → BatchResult → DbTx BatchResult
  | [], acc => pure acc
  | ev :: evs, acc => do
    let seq? ← insertIntent a ev (now acc.written)
    match seq? with
    | none => intentLoop a now evs acc
    | some seq =>
      intentLoop a now evs ⟨acc.written + 1, if acc.maxSeq < seq then seq else acc.maxSeq⟩

/-- mirrors src/storage/sqlite.ts:414-451 (`insertIntents`) -/
def insertIntents (a : String) (events : List IntentEventInput) (now : Nat → String) :
    DbTx BatchResult := do
  let acc ← intentLoop a now events ⟨0, 0⟩
  let _ ← pruneExpiredIntentsFor a (now acc.written)
  pure acc

/-- mirrors src/storage/sqlite.ts:457-472 (`listIntents`) -/
def listIntents (a : String) (since limit : Nat) (now : String) (db : Db) : Page IntentEvent :=
  page IntentEvent.seq (db.intentEvents.rows.filter fun r => r.accountId = a ∧
    now < r.expiresAt) since limit

def Db.putIntent (db : Db) (r : IntentEvent) : Db :=
  { db with intentEvents := db.intentEvents.upsert r }

/-- The effect of an event that is new. -/
def Db.writeIntent (db : Db) (a : String) (ev : IntentEventInput) (now : String) : Db :=
  (db.bump a).putIntent (ev.stored a (latestSeq db a + 1) now)

theorem insertIntent_eval (a : String) (ev : IntentEventInput) (now : String) (db : Db) :
    (insertIntent a ev now).eval db =
      if db.intentEvents.has (a, ev.eventId) then .ok (none, db)
      else .ok (some (latestSeq db a + 1), db.writeIntent a ev now) := by
  unfold insertIntent
  rw [Tx.eval_bind, Tx.eval_read]
  simp only [Tx.eval_ite, Tx.eval_bind, nextSeq_eval, Tx.eval_write, Tx.eval_pure]
  split
  · rfl
  · rename_i h
    have hn : (db.bump a).intentEvents.has (ev.stored a (latestSeq db a + 1) now).key = false :=
      Bool.eq_false_iff.2 h
    unfold Db.insertIntentRow
    rw [Table.insertNew_of_fresh hn]
    rfl

theorem intentLoop_ok (a : String) (now : Nat → String) :
    ∀ (evs : List IntentEventInput) (acc : BatchResult)
    (db : Db), ∃ r, (intentLoop a now evs acc).eval db = .ok r
  | [], acc, db => ⟨(acc, db), rfl⟩
  | ev :: evs, acc, db => by
    rw [intentLoop, Tx.eval_bind, insertIntent_eval]
    split
    · rename_i h
      split at h
      · cases h; exact intentLoop_ok a now evs _ _
      · cases h; exact intentLoop_ok a now evs _ _
    · rename_i h; split at h <;> cases h

/-- The batch, then the prune. -/
theorem insertIntents_eval (a : String) (evs : List IntentEventInput) (now : Nat → String)
    (db : Db) :
    ∃ acc d, (intentLoop a now evs ⟨0, 0⟩).eval db = .ok (acc, d) ∧
      (insertIntents a evs now).eval db = .ok (acc, d.pruneIntents a (now acc.written)) := by
  obtain ⟨⟨acc, d⟩, h⟩ := intentLoop_ok a now evs ⟨0, 0⟩ db
  refine ⟨acc, d, h, ?_⟩
  unfold insertIntents pruneExpiredIntentsFor
  simp [Tx.eval_bind, h]

theorem intentLoop_moves {a : String} {R : Db → Db → Prop} (hr : ∀ d, R d d)
    (ht : ∀ {x y z}, R x y → R y z → R x z)
    (hw : ∀ db ev now, db.intentEvents.has (a, ev.eventId) = false → R db (db.writeIntent a ev now))
    (now : Nat → String) : ∀ evs acc, (intentLoop a now evs acc).Moves R := by
  have hev : ∀ ev t, (insertIntent a ev t).Moves R := by
    intro ev t db o db' h
    rw [insertIntent_eval] at h
    split at h
    · cases h; exact hr _
    · rename_i hs; cases h; exact hw db ev t (by simpa using hs)
  intro evs
  induction evs with
  | nil => intro acc; exact .pure hr acc
  | cons ev evs ih =>
    intro acc
    refine .bind ht (hev ev _) fun o => ?_
    cases o with
    | none => exact ih acc
    | some seq => exact ih _

theorem insertIntents_moves {a : String} {R : Db → Db → Prop} (hr : ∀ d, R d d)
    (ht : ∀ {x y z}, R x y → R y z → R x z)
    (hw : ∀ db ev now, db.intentEvents.has (a, ev.eventId) = false → R db (db.writeIntent a ev now))
    (hp : ∀ db now, R db (db.pruneIntents a now)) (evs : List IntentEventInput)
    (now : Nat → String) :
    (insertIntents a evs now).Moves R := by
  unfold insertIntents
  refine .bind ht (intentLoop_moves hr ht hw now evs _) fun acc => ?_
  have hprune : (pruneExpiredIntentsFor a (now acc.written)).Moves R := by
    intro db n db' h
    unfold pruneExpiredIntentsFor at h
    rw [Tx.eval_write] at h
    cases h; exact hp db _
  exact .bind ht hprune fun _ => .pure hr _

/-! ## Salt -/

/-- mirrors src/storage/sqlite.ts:495-503 (`getSalt`) -/
def getSalt (a : String) (db : Db) : Option AccountSalt := db.accountSalts.find a

structure SaltResult where
  record : Option AccountSalt
  created : Bool
  deriving DecidableEq

/-- mirrors src/storage/sqlite.ts:511-525 (`putSaltIfAbsent`) -/
def putSaltIfAbsent (a salt now : String) : DbTx SaltResult := do
  let changes ← Tx.write fun db =>
    match db.accountSalts.insertNew ⟨a, salt, now⟩ with
    | some t => (1, { db with accountSalts := t })
    | none => (0, db)
  let stored ← Tx.read fun db => getSalt a db
  pure ⟨stored, decide (0 < changes)⟩

theorem putSaltIfAbsent_eval (a salt now : String) (db : Db) :
    (putSaltIfAbsent a salt now).eval db =
    match db.accountSalts.find a with
    | some r => .ok (⟨some r, false⟩, db)
    | none => .ok (⟨some ⟨a, salt, now⟩, true⟩,
        { db with accountSalts := db.accountSalts.upsert ⟨a, salt, now⟩ }) := by
  unfold putSaltIfAbsent getSalt
  simp only [Tx.eval_bind, Tx.eval_write, Tx.eval_read, Tx.eval_pure]
  cases h : db.accountSalts.find a with
  | none =>
    have hn : db.accountSalts.has (⟨a, salt, now⟩ : AccountSalt).accountId = false :=
      Table.has_eq_false.2 h
    have hf := Table.find_upsert_self db.accountSalts ⟨a, salt, now⟩
    simp only [Table.insertNew_of_fresh hn, hf]
    rfl
  | some r =>
    have hn : db.accountSalts.insertNew ⟨a, salt, now⟩ = none := by
      unfold Table.insertNew
      rw [dif_neg]
      simp [Table.has, h]
    simp only [hn, h]
    rfl

/-! ## Device cursors -/

/-- mirrors src/storage/sqlite.ts:531-541 (`updateDeviceCursor`) -/
def updateDeviceCursor (a deviceId : String) (lastSeenSeq : Nat) (now : String) :
    DbTx Unit := .write fun db =>
  let prior :=
    (db.devices.find (a, deviceId)).elim lastSeenSeq fun d => max d.lastSeenSeq lastSeenSeq
  ((), { db with devices := db.devices.upsert ⟨a, deviceId, prior, now⟩ })

theorem updateDeviceCursor_forward (a d : String) (n : Nat) (now : String) (db : Db) :
    ∃ db', (updateDeviceCursor a d n now).eval db = .ok ((), db') ∧
      ∀ b e x, db.devices.find (b, e) = some x →
        ∃ y, db'.devices.find (b, e) = some y ∧ x.lastSeenSeq ≤ y.lastSeenSeq := by
  unfold updateDeviceCursor
  refine ⟨_, by rw [Tx.eval_write], ?_⟩
  intro b e x hx
  simp only [Table.find_upsert]
  split
  · rename_i h
    cases h
    refine ⟨_, rfl, ?_⟩
    simp only [hx, Option.elim]
    exact Nat.le_max_left _ _
  · exact ⟨x, hx, Nat.le_refl _⟩

/-! ## What changes, and for whom -/

/-- Everything but the intents and the counters. -/
def Db.outsideIntents (db : Db) : Db := { db with intentEvents := .empty, accountSeq := .empty }

theorem insertIntents_frame (a : String) (evs : List IntentEventInput) (now : Nat → String) :
    (insertIntents a evs now).Keeps Db.outsideIntents :=
  insertIntents_moves (R := fun d d' => d'.outsideIntents = d.outsideIntents) (fun _ => rfl)
    (fun h1 h2 => h2.trans h1) (fun _ _ _ _ => rfl) (fun _ _ => rfl) evs now

theorem putSaltIfAbsent_frame (a salt now : String) :
    (putSaltIfAbsent a salt now).Keeps fun db => { db with accountSalts := .empty } := by
  intro db o db' h
  rw [putSaltIfAbsent_eval] at h
  split at h <;> cases h <;> rfl

theorem updateDeviceCursor_frame (a d : String) (n : Nat) (now : String) :
    (updateDeviceCursor a d n now).Keeps fun db => { db with devices := .empty } :=
  .write fun _ => rfl

section Tenancy
variable {a b : String}

theorem putIntent_tenant {r : IntentEvent} (h : r.accountId = a) (db : Db) :
    (db.putIntent r).tenant a = (db.tenant a).putIntent r := by
  have hk := Table.keep_upsert db.intentEvents (fun x => x.accountId = a) r
    fun x _ hx => by rw [IntentEvent.same_account hx]
  unfold Db.tenant Db.putIntent at *
  simp only [h, decide_true, if_true] at hk
  simp only [hk]
  rfl

theorem putIntent_other {r : IntentEvent} (h : r.accountId ≠ b) (db : Db) :
    (db.putIntent r).tenant b = db.tenant b := by
  have hk := Table.keep_upsert db.intentEvents (fun x => x.accountId = b) r
    fun x _ hx => by rw [IntentEvent.same_account hx]
  unfold Db.tenant Db.putIntent at *
  simp only [h, decide_false, Bool.false_eq_true, if_false] at hk
  simp only [hk]
  rfl

theorem writeIntent_other (hab : a ≠ b) (db : Db) (ev : IntentEventInput) (now : String) :
    (db.writeIntent a ev now).tenant b = db.tenant b := by
  unfold Db.writeIntent
  rw [putIntent_other (by exact hab), bump_other hab]

theorem pruneIntents_tenant (db : Db) (now : String) :
    (db.pruneIntents a now).tenant a = (db.tenant a).pruneIntents a now := by
  unfold Db.pruneIntents Db.tenant
  simp only [Table.keep_comm db.intentEvents]
  rfl

theorem pruneIntents_other (hab : a ≠ b) (db : Db) (now : String) :
    (db.pruneIntents a now).tenant b = db.tenant b := by
  unfold Db.pruneIntents Db.tenant
  simp only
  rw [Table.keep_keep_of]
  · rfl
  · intro r _ hr
    have : r.accountId = b := by simpa using hr
    simp [this, Ne.symm hab]

theorem insertIntents_local (evs : List IntentEventInput) (now : Nat → String) :
    (insertIntents a evs now).Local (Db.tenant a) := by
  have hev : ∀ ev t, (insertIntent a ev t).Local (Db.tenant a) := by
    intro ev t db
    have hh : (db.tenant a).intentEvents.has (a, ev.eventId) =
        db.intentEvents.has (a, ev.eventId) := by
      unfold Table.has; rw [tenant_intentEvent]
    rw [insertIntent_eval, insertIntent_eval, hh]
    split
    · rfl
    · unfold Db.writeIntent
      rw [latestSeq_tenant, ← bump_tenant, ← putIntent_tenant (by rfl)]
      rfl
  have go : ∀ evs acc, (intentLoop a now evs acc).Local (Db.tenant a) := by
    intro evs
    induction evs with
    | nil => intro acc; exact .pure acc
    | cons ev evs ih =>
      intro acc
      refine .bind (hev ev _) fun o => ?_
      cases o with
      | none => exact ih acc
      | some seq => exact ih _
  unfold insertIntents
  refine .bind (go evs _) fun acc => .bind (.write fun db => ?_) fun _ => .pure acc
  refine Prod.ext ?_ (pruneIntents_tenant db _).symm
  show ((db.tenant a).intentEvents.count _) = db.intentEvents.count _
  simp only [Table.count_eq_total]
  exact Table.total_keep_of fun r _ h => by
    simp only [Bool.and_eq_true] at h; exact h.1

theorem insertIntents_keeps (hab : a ≠ b) (evs : List IntentEventInput) (now : Nat → String) :
    (insertIntents a evs now).Keeps (Db.tenant b) :=
  insertIntents_moves (R := fun d d' => d'.tenant b = d.tenant b) (fun _ => rfl)
    (fun h1 h2 => h2.trans h1)
    (fun db ev t _ => writeIntent_other hab db ev t)
      (fun db t => pruneIntents_other hab db t) evs now

theorem listIntents_tenant (since limit : Nat) (now : String) (db : Db) :
    listIntents a since limit now (db.tenant a) = listIntents a since limit now db := by
  unfold listIntents Db.tenant Table.keep
  congr 1
  simp only [List.filter_filter]
  apply List.filter_congr
  intro r _
  by_cases h : r.accountId = a <;> simp [h]

theorem putSaltIfAbsent_local (salt now : String) :
    (putSaltIfAbsent a salt now).Local (Db.tenant a) := by
  intro db
  have hk := Table.keep_upsert db.accountSalts (fun x => x.accountId = a)
    ⟨a, salt, now⟩ fun x _ hx => by rw [hx]
  rw [putSaltIfAbsent_eval, putSaltIfAbsent_eval, tenant_salt]
  split
  · rfl
  · unfold Db.tenant
    simp only [decide_true, if_true] at hk
    simp only [Except.map, hk]
    rfl

theorem putSaltIfAbsent_keeps (hab : a ≠ b) (salt now : String) :
    (putSaltIfAbsent a salt now).Keeps (Db.tenant b) := by
  intro db o db' h
  have hk := Table.keep_upsert db.accountSalts (fun x => x.accountId = b)
    ⟨a, salt, now⟩ fun x _ hx => by rw [hx]
  rw [putSaltIfAbsent_eval] at h
  split at h
  · cases h; rfl
  · cases h
    unfold Db.tenant
    simp only [hab, decide_false, Bool.false_eq_true, if_false] at hk
    simp only [hk]
    rfl

theorem updateDeviceCursor_local (d : String) (n : Nat) (now : String) :
    (updateDeviceCursor a d n now).Local (Db.tenant a) := .write fun db => by
  rw [tenant_device]
  refine Prod.ext rfl ?_
  have hk := fun m => Table.keep_upsert db.devices (fun x => x.accountId = a) ⟨a, d, m, now⟩
    fun x _ hx => by rw [Device.same_account hx]
  unfold Db.tenant
  simp only [decide_true, if_true] at hk
  simp only [hk]
  rfl

theorem updateDeviceCursor_keeps (hab : a ≠ b) (d : String) (n : Nat) (now : String) :
    (updateDeviceCursor a d n now).Keeps (Db.tenant b) := .write fun db => by
  have hk := fun m => Table.keep_upsert db.devices (fun x => x.accountId = b) ⟨a, d, m, now⟩
    fun x _ hx => by rw [Device.same_account hx]
  unfold Db.tenant
  simp only [hab, decide_false, Bool.false_eq_true, if_false] at hk
  simp only [hk]
  rfl

end Tenancy

end GlanceVault.L2
