import GlanceVault.Core.Paging
import GlanceVault.L1Encoding.Js
import GlanceVault.L2Storage.Schema
/-!
# Sync rows (`storage/sqlite.ts`, the sync statements)

`batchUpsert`, `softDeleteRow`, `listRows` and `getRow`, with the sequence
source every write of an account draws from. A batch is the loop of the
source over its rows, the accumulator being the `BatchResult` it returns; the
`k`-th reading of the clock is `now k`.

* `batchRow_eval`: what one row of a batch does: nothing when it is skipped
  (`batchSkips`), else the next number and one upserted row.
* `softDeleteRow_eval`: the same for a row delete.
* `batchUpsert_eval`: a batch without a failing statement always commits.
* `batchUpsert_frame`, `softDeleteRow_frame`: only `sync_rows` and
  `account_seq` change.
* `batchUpsert_local`, `batchUpsert_keeps` and their like: both are functions
  of the account's own part of the database and change no other account's.
-/
namespace GlanceVault.L2
open GlanceVault.Core GlanceVault.L1 GlanceVault.L1.Js

/-! ## The sequence source -/

/-- mirrors src/storage/sqlite.ts:212-217 (`latestSeq`) -/
def latestSeq (db : Db) (a : String) : Nat := (db.accountSeq.find a).elim 0 (·.value)

/-- The counter of `a` moved to its next value. -/
def Db.bump (db : Db) (a : String) : Db :=
  { db with accountSeq := db.accountSeq.upsert ⟨a, latestSeq db a + 1⟩ }

/-- mirrors src/storage/sqlite.ts:197-207 (`nextSeq`) -/
def nextSeq (a : String) : DbTx Nat := .write fun db => (latestSeq db a + 1, db.bump a)

@[simp] theorem nextSeq_eval (a : String) (db : Db) :
    (nextSeq a).eval db = .ok (latestSeq db a + 1, db.bump a) := by simp [nextSeq]

theorem latestSeq_bump (db : Db) (a b : String) :
    latestSeq (db.bump a) b = if a = b then latestSeq db a + 1 else latestSeq db b := by
  unfold latestSeq Db.bump
  rw [Table.find_upsert]
  split <;> rfl

@[simp] theorem latestSeq_bump_self (db : Db) (a : String) :
    latestSeq (db.bump a) a = latestSeq db a + 1 := by
  rw [latestSeq_bump, if_pos rfl]

@[simp] theorem latestSeq_tenant (db : Db) (a : String) :
    latestSeq (db.tenant a) a = latestSeq db a := by
  unfold latestSeq; rw [tenant_seq]

theorem bump_tenant (db : Db) (a : String) : (db.bump a).tenant a = (db.tenant a).bump a := by
  have h := Table.keep_upsert db.accountSeq (fun r => r.accountId = a) ⟨a, latestSeq db a + 1⟩
    fun x _ hx => by rw [hx]
  unfold Db.tenant Db.bump at *
  simp only [decide_true, if_true] at h
  simp only [h]
  congr 2
  exact congrArg (fun n => (⟨a, n + 1⟩ : AccountSeq)) (latestSeq_tenant db a).symm

theorem bump_other {a b : String} (hab : a ≠ b) (db : Db) : (db.bump a).tenant b = db.tenant b := by
  have h := Table.keep_upsert db.accountSeq (fun r => r.accountId = b) ⟨a, latestSeq db a + 1⟩
    fun x _ hx => by rw [hx]
  unfold Db.tenant Db.bump at *
  simp only [hab, decide_false, Bool.false_eq_true, if_false] at h
  simp only [h]
  rfl

theorem nextSeq_keeps {a b : String} (hab : a ≠ b) : (nextSeq a).Keeps (Db.tenant b) :=
  .write fun db => bump_other hab db

/-! ## Batches -/

/-- A decoded row of a batch, `SyncRowInput`. -/
structure SyncRowInput where
  entityId : String
  envelope : Bytes
  deleted : Bool
  insertOnly : Bool
  deletedAt : Option JsNumber

structure BatchResult where
  written : Nat
  maxSeq : Nat
  deriving DecidableEq

/-- The row an upsert writes; only a tombstone carries `deletedAt`, and only a
finite one. -/
def SyncRowInput.stored (row : SyncRowInput) (app a : String) (seq : Nat)
    (now : String) : SyncRow where
  accountId := a
  app := app
  entityId := row.entityId
  seq := seq
  envelope := row.envelope
  deleted := row.deleted
  serverMtime := now
  deletedAt := if row.deleted then row.deletedAt.bind JsNumber.finite? else none

def Db.putSyncRow (db : Db) (r : SyncRow) : Db := { db with syncRows := db.syncRows.upsert r }

/-- The envelope of the row of an entity that is already a tombstone. -/
def tombstone (db : Db) (app a e : String) : Option Bytes :=
  (db.syncRows.find (a, app, e)).bind fun r => if r.deleted then some r.envelope else none

/-- The existence probe, made for an insert-only row alone. -/
def insertOnlyHit (app a : String) (row : SyncRowInput) : DbTx Bool :=
  .when row.insertOnly (.read fun db => db.syncRows.has (a, app, row.entityId)) false

/-- The tombstone probe, made for a deleted row alone. -/
def priorTombstone (app a : String) (row : SyncRowInput) : DbTx (Option Bytes) :=
  .when row.deleted (.read fun db => tombstone db app a row.entityId) none

/-- One row of a batch; the number it was stamped with, if any.
mirrors src/storage/sqlite.ts:272-320 -/
def batchRow (app a : String) (row : SyncRowInput) (now : String) : DbTx (Option Nat) := do
  let known ← insertOnlyHit app a row
  if known then pure none else do
    let prior ← priorTombstone app a row
    if prior = some row.envelope then pure none else do
      let seq ← nextSeq a
      Tx.write fun db => ((), db.putSyncRow (row.stored app a seq now))
      pure (some seq)

def batchLoop (app a : String) (now : Nat → String) :
    List SyncRowInput → BatchResult → DbTx BatchResult
  | [], acc => pure acc
  | row :: rows, acc => do
    let seq? ← batchRow app a row (now acc.written)
    match seq? with
    | none => batchLoop app a now rows acc
    | some seq =>
      batchLoop app a now rows ⟨acc.written + 1, if acc.maxSeq < seq then seq else acc.maxSeq⟩

/-- mirrors src/storage/sqlite.ts:233-326 (`batchUpsert`) -/
def batchUpsert (app a : String) (rows : List SyncRowInput) (now : Nat → String) :
    DbTx BatchResult :=
  batchLoop app a now rows ⟨0, 0⟩

/-- A row that a batch leaves alone: insert-only over any stored row, or a
tombstone over the same tombstone. -/
def batchSkips (db : Db) (app a : String) (row : SyncRowInput) : Bool :=
  (row.insertOnly && db.syncRows.has (a, app, row.entityId)) ||
    (row.deleted && decide (tombstone db app a row.entityId = some row.envelope))

/-- The effect of a row that is not skipped. -/
def Db.writeRow (db : Db) (app a : String) (row : SyncRowInput) (now : String) : Db :=
  (db.bump a).putSyncRow (row.stored app a (latestSeq db a + 1) now)

theorem insertOnlyHit_eval (app a : String) (row : SyncRowInput) (db : Db) :
    (insertOnlyHit app a row).eval db = .ok
    (row.insertOnly && db.syncRows.has (a, app, row.entityId), db) := by
  unfold insertOnlyHit Tx.when
  cases row.insertOnly <;> simp

theorem priorTombstone_eval (app a : String) (row : SyncRowInput) (db : Db) :
    (priorTombstone app a row).eval db =
      .ok (if row.deleted then tombstone db app a row.entityId else none, db) := by
  unfold priorTombstone Tx.when
  cases row.deleted <;> simp

theorem batchRow_eval (app a : String) (row : SyncRowInput) (now : String) (db : Db) :
    (batchRow app a row now).eval db =
      if batchSkips db app a row then .ok (none, db)
      else .ok (some (latestSeq db a + 1), db.writeRow app a row now) := by
  unfold batchRow batchSkips
  rw [Tx.eval_bind, insertOnlyHit_eval]
  cases hk : row.insertOnly && db.syncRows.has (a, app, row.entityId)
  · simp only [Bool.false_eq_true, if_false, Bool.false_or, Bool.and_eq_true, decide_eq_true_eq]
    rw [Tx.eval_bind, priorTombstone_eval]
    simp only [Tx.eval_ite, Tx.eval_pure, Tx.eval_bind, nextSeq_eval, Tx.eval_write, Db.writeRow]
    cases row.deleted <;> simp
  · rfl

theorem batchLoop_ok (app a : String) (now : Nat → String) :
    ∀ (rows : List SyncRowInput) (acc : BatchResult)
    (db : Db), ∃ r, (batchLoop app a now rows acc).eval db = .ok r
  | [], acc, db => ⟨(acc, db), rfl⟩
  | row :: rows, acc, db => by
    rw [batchLoop, Tx.eval_bind, batchRow_eval]
    split
    · rename_i h
      split at h
      · cases h; exact batchLoop_ok app a now rows _ _
      · cases h; exact batchLoop_ok app a now rows _ _
    · rename_i h; split at h <;> cases h

/-- A batch raises nothing of its own. -/
theorem batchUpsert_eval (app a : String) (rows : List SyncRowInput) (now : Nat → String)
    (db : Db) :
    ∃ r, (batchUpsert app a rows now).eval db = .ok r := batchLoop_ok app a now rows _ db

/-- An effect that every written row has, a whole batch has. -/
theorem batchUpsert_moves {app a : String} {R : Db → Db → Prop} (rows : List SyncRowInput)
    (now : Nat → String) (hr : ∀ d, R d d) (ht : ∀ {x y z}, R x y → R y z → R x z)
    (hw : ∀ db, ∀ row ∈ rows, ∀ t, batchSkips db app a row = false →
      R db (db.writeRow app a row t)) :
    (batchUpsert app a rows now).Moves R := by
  have hrow : ∀ row ∈ rows, ∀ t, (batchRow app a row t).Moves R := by
    intro row hmem t db o db' h
    rw [batchRow_eval] at h
    split at h
    · cases h; exact hr _
    · rename_i hs; cases h; exact hw db row hmem t (by simpa using hs)
  have go : ∀ (xs : List SyncRowInput) (acc : BatchResult), (∀ row ∈ xs, row ∈ rows) →
      (batchLoop app a now xs acc).Moves R := by
    intro xs
    induction xs with
    | nil => exact fun acc _ => .pure hr acc
    | cons row xs ih =>
      intro acc hsub
      refine .bind ht (hrow row (hsub row List.mem_cons_self) _) fun o => ?_
      cases o with
      | none => exact ih acc fun x hx => hsub x (List.mem_cons_of_mem _ hx)
      | some seq => exact ih _ fun x hx => hsub x (List.mem_cons_of_mem _ hx)
  exact go rows _ fun _ h => h

/-! ## Row delete -/

structure SoftDeleteResult where
  seq : Nat
  alreadyDeleted : Bool
  deriving DecidableEq

def SyncRow.tombstoned (r : SyncRow) (seq : Nat) (now : String)
    (deletedAt : Option JsNumber) : SyncRow :=
  { r with
    deleted := true, seq := seq, serverMtime := now,
    deletedAt := deletedAt.bind JsNumber.finite? }

/-- mirrors src/storage/sqlite.ts:361-402 (`softDeleteRow`) -/
def softDeleteRow (app a entityId : String) (deletedAt : Option JsNumber) (now : String) :
    DbTx (Option SoftDeleteResult) := do
  let existing ← Tx.read fun db => db.syncRows.find (a, app, entityId)
  match existing with
  | none => pure none
  | some r =>
    if r.deleted then pure (some ⟨r.seq, true⟩) else do
      let seq ← nextSeq a
      Tx.write fun db => ((), { db with
        syncRows := db.syncRows.update (fun x => x.key = (a, app, entityId))
          (fun x => x.tombstoned seq now deletedAt) fun _ => rfl })
      pure (some ⟨seq, false⟩)

/-- The effect of deleting the live row `r`. -/
def Db.tombstoneRow (db : Db) (r : SyncRow) (deletedAt : Option JsNumber) (now : String) : Db :=
  (db.bump r.accountId).putSyncRow (r.tombstoned (latestSeq db r.accountId + 1) now deletedAt)

/-- An `UPDATE` of the row with a known key is an upsert of the new row. -/
theorem update_key {ρ κ : Type} {key : ρ → κ} [DecidableEq κ] {t : Table key} {r : ρ}
    (h : r ∈ t.rows) (f : ρ → ρ) (hf : ∀ x, key (f x) = key x) :
    t.update (fun x => key x = key r) f hf = t.upsert (f r) := by
  apply Table.ext'
  rw [Table.rows_upsert, hf, if_pos (Table.has_iff.2 ⟨r, h, rfl⟩)]
  simp only [Table.update]
  apply List.map_congr_left
  intro x hx
  by_cases hk : key x = key r
  · simp [Table.eq_of_mem hx h hk]
  · simp [hk]

theorem softDeleteRow_eval (app a e : String) (deletedAt : Option JsNumber) (now : String)
    (db : Db) :
    (softDeleteRow app a e deletedAt now).eval db =
      match db.syncRows.find (a, app, e) with
      | none => .ok (none, db)
      | some r => if r.deleted then .ok (some ⟨r.seq, true⟩, db)
        else .ok (some ⟨latestSeq db a + 1, false⟩, db.tombstoneRow r deletedAt now) := by
  unfold softDeleteRow
  rw [Tx.eval_bind, Tx.eval_read]
  cases hf : db.syncRows.find (a, app, e) with
  | none => rfl
  | some r =>
    obtain ⟨hm, hk⟩ := Table.find_some.1 hf
    simp only
    rw [Tx.eval_ite]
    split
    · rfl
    · have ha : r.accountId = a := congrArg Prod.fst hk
      have hu := update_key (t := db.syncRows) hm
        (fun x => x.tombstoned (latestSeq db a + 1) now deletedAt) fun _ => rfl
      rw [hk] at hu
      simp only [Tx.eval_bind, nextSeq_eval, Tx.eval_write, Tx.eval_pure, Db.tombstoneRow, ha]
      unfold Db.putSyncRow
      exact congrArg (fun t => Except.ok (some (⟨latestSeq db a + 1, false⟩ : SoftDeleteResult),
        ({ db.bump a with syncRows := t } : Db))) hu

theorem softDeleteRow_moves {app a : String} {R : Db → Db → Prop} (hr : ∀ d, R d d)
    (hw : ∀ db r deletedAt now, r ∈ db.syncRows.rows → r.accountId = a → r.deleted = false →
      R db (db.tombstoneRow r deletedAt now)) (e : String) (deletedAt :
        Option JsNumber) (now : String) :
    (softDeleteRow app a e deletedAt now).Moves R := by
  intro db o db' h
  rw [softDeleteRow_eval] at h
  split at h
  · cases h; exact hr _
  · rename_i r hf
    obtain ⟨hm, hk⟩ := Table.find_some.1 hf
    split at h
    · cases h; exact hr _
    · rename_i hd
      cases h
      exact hw db r deletedAt now hm (congrArg Prod.fst hk) (by simpa using hd)

/-! ## Reads -/

/-- mirrors src/storage/sqlite.ts:330-344 (`listRows`) -/
def listRows (app a : String) (since limit : Nat) (db : Db) : Page SyncRow :=
  page SyncRow.seq (db.syncRows.rows.filter fun r => r.accountId = a ∧ r.app = app) since limit

/-- mirrors src/storage/sqlite.ts:346-355 (`getRow`) -/
def getRow (app a e : String) (db : Db) : Option SyncRow := db.syncRows.find (a, app, e)

/-! ## What changes, and for whom -/

/-- Everything but the sync rows and the counters. -/
def Db.outsideSync (db : Db) : Db := { db with syncRows := .empty, accountSeq := .empty }

theorem batchUpsert_frame (app a : String) (rows : List SyncRowInput) (now : Nat → String) :
    (batchUpsert app a rows now).Keeps Db.outsideSync :=
  batchUpsert_moves (R := fun d d' => d'.outsideSync = d.outsideSync) rows now (fun _ => rfl)
    (fun h1 h2 => h2.trans h1) fun _ _ _ _ _ => rfl

theorem softDeleteRow_frame (app a e : String) (deletedAt : Option JsNumber) (now : String) :
    (softDeleteRow app a e deletedAt now).Keeps Db.outsideSync :=
  softDeleteRow_moves (R := fun d d' => d'.outsideSync = d.outsideSync) (fun _ => rfl)
    (fun _ _ _ _ _ _ _ => rfl) e deletedAt now

theorem putSyncRow_tenant {a : String} {r : SyncRow} (h : r.accountId = a) (db : Db) :
    (db.putSyncRow r).tenant a = (db.tenant a).putSyncRow r := by
  have hk := Table.keep_upsert db.syncRows (fun x => x.accountId = a) r
    fun x _ hx => by rw [SyncRow.same_account hx]
  unfold Db.tenant Db.putSyncRow at *
  simp only [h, decide_true, if_true] at hk
  simp only [hk]
  rfl

theorem putSyncRow_other {b : String} {r : SyncRow} (h : r.accountId ≠ b) (db : Db) :
    (db.putSyncRow r).tenant b = db.tenant b := by
  have hk := Table.keep_upsert db.syncRows (fun x => x.accountId = b) r
    fun x _ hx => by rw [SyncRow.same_account hx]
  unfold Db.tenant Db.putSyncRow at *
  simp only [h, decide_false, Bool.false_eq_true, if_false] at hk
  simp only [hk]
  rfl

theorem batchRow_local (app a : String) (row : SyncRowInput) (now : String) :
    (batchRow app a row now).Local (Db.tenant a) := by
  intro db
  have hs : batchSkips (db.tenant a) app a row = batchSkips db app a row := by
    unfold batchSkips tombstone Table.has
    rw [tenant_syncRow]
  rw [batchRow_eval, batchRow_eval, hs]
  split
  · rfl
  · unfold Db.writeRow
    rw [latestSeq_tenant, ← bump_tenant, ← putSyncRow_tenant (by rfl)]
    rfl

theorem batchUpsert_local (app a : String) (rows : List SyncRowInput) (now : Nat → String) :
    (batchUpsert app a rows now).Local (Db.tenant a) := by
  have go : ∀ rows acc, (batchLoop app a now rows acc).Local (Db.tenant a) := by
    intro rows
    induction rows with
    | nil => intro acc; exact .pure acc
    | cons row rows ih =>
      intro acc
      refine .bind (batchRow_local app a row _) fun o => ?_
      cases o with
      | none => exact ih acc
      | some seq => exact ih _
  exact go rows _

theorem batchUpsert_keeps {a b : String} (hab : a ≠ b) (app : String) (rows : List SyncRowInput)
    (now : Nat → String) : (batchUpsert app a rows now).Keeps (Db.tenant b) :=
  batchUpsert_moves (R := fun d d' => d'.tenant b = d.tenant b) rows now (fun _ => rfl)
    (fun h1 h2 => h2.trans h1)
    fun db row _ t _ => by
      unfold Db.writeRow
      rw [putSyncRow_other (by exact hab), bump_other hab]

theorem softDeleteRow_local (app a e : String) (deletedAt : Option JsNumber) (now : String) :
    (softDeleteRow app a e deletedAt now).Local (Db.tenant a) := by
  intro db
  rw [softDeleteRow_eval, softDeleteRow_eval, tenant_syncRow]
  cases hf : db.syncRows.find (a, app, e) with
  | none => rfl
  | some r =>
    have ha : r.accountId = a := congrArg Prod.fst (Table.find_key hf)
    simp only
    split
    · rfl
    · unfold Db.tombstoneRow
      rw [ha, latestSeq_tenant, ← bump_tenant, ← putSyncRow_tenant (by exact ha)]
      rfl

theorem softDeleteRow_keeps {a b : String} (hab : a ≠ b) (app e : String)
    (deletedAt : Option JsNumber)
    (now : String) : (softDeleteRow app a e deletedAt now).Keeps (Db.tenant b) :=
  softDeleteRow_moves (R := fun d d' => d'.tenant b = d.tenant b) (fun _ => rfl)
    (fun db r t n _ ha _ => by
      unfold Db.tombstoneRow
      rw [putSyncRow_other (by rw [← ha] at hab; exact hab), ha, bump_other hab]) e deletedAt now

theorem listRows_tenant (app a : String) (since limit : Nat) (db : Db) :
    listRows app a since limit (db.tenant a) = listRows app a since limit db := by
  unfold listRows Db.tenant Table.keep
  congr 1
  simp only [List.filter_filter]
  apply List.filter_congr
  intro r _
  by_cases h : r.accountId = a <;> simp [h]

theorem getRow_tenant (app a e : String) (db : Db) :
    getRow app a e (db.tenant a) = getRow app a e db :=
  tenant_syncRow a db app e

end GlanceVault.L2
