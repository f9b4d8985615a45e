import GlanceVault.Core.Retry
import GlanceVault.L2Storage.Drain
import GlanceVault.L2Storage.Parts
/-!
# A batch may be sent again

To an entity a batch is a sequence of guarded writes: an insert-only row fills
a place that is empty, a live row is written over anything, a tombstone over
anything but its like. The rules of `Guarded` then say what a second pass does.

* `batch_content`: a batch as the guarded writes of each entity.
* `batch_append`: two batches in a row are one, but for the clock.
* `batch_retry`: content, frame and numbers of a batch that is sent twice.
-/
namespace GlanceVault.L2
open GlanceVault.Core GlanceVault.L1 GlanceVault.L1.Js

/-- What a row says. -/
structure Content where
  envelope : Bytes
  deleted : Bool
  deletedAt : Option Rat
  deriving DecidableEq

/-- Tombstones of one envelope are alike, whenever they were deleted. -/
def Content.kind (c : Content) : Option Bytes := if c.deleted then some c.envelope else none

def SyncRow.content (r : SyncRow) : Content := ⟨r.envelope, r.deleted, r.deletedAt⟩

def Db.contentAt (db : Db) (key : String × String × String) : Option Content :=
  (db.syncRows.find key).map SyncRow.content

/-- The number of a row, and what it says. -/
def Db.placedAt (db : Db) (key : String × String × String) : Option (Nat × Content) :=
  (db.syncRows.find key).map fun r => (r.seq, r.content)

def SyncRowInput.guarded (row : SyncRowInput) : Guarded Content where
  guard := if row.insertOnly then .whenEmpty else if row.deleted then .unlessAlike else .always
  value := ⟨row.envelope, row.deleted,
    if row.deleted then row.deletedAt.bind JsNumber.finite? else none⟩

/-- What a batch writes to one entity, in order. -/
def writesTo (e : String) (rows : List SyncRowInput) : List (Guarded Content) :=
  (rows.filter fun row => decide (row.entityId = e)).map SyncRowInput.guarded

/-- The database after a batch. -/
def Db.batch (db : Db) (app a : String) (rows : List SyncRowInput) (now : Nat → String) : Db :=
  (StoreOp.commit (.batchUpsert app a rows now, none) db).2

section Content
variable {app a : String} {db : Db}

theorem batch_evals (app a : String) (rows : List SyncRowInput) (now : Nat → String) (db : Db) :
    ∃ r, (batchUpsert app a rows now).eval db = .ok (r, db.batch app a rows now) := by
  obtain ⟨⟨r, d⟩, h⟩ := batchUpsert_eval app a rows now db
  have hvoid : (StoreOp.batchUpsert app a rows now).tx.eval db = .ok ((), d) := by
    show ((batchUpsert app a rows now).void).eval db = _
    rw [Tx.void, Tx.eval_bind, h]
    rfl
  have hbatch : db.batch app a rows now = d := congrArg Prod.snd (Tx.commit_none hvoid)
  exact ⟨r, hbatch ▸ h⟩

theorem find_writeRow (db : Db) (row : SyncRowInput) (t : String) (key : String × String × String) :
    (db.writeRow app a row t).syncRows.find key =
      if (a, app, row.entityId) =
        key then some (row.stored app a (latestSeq db a + 1) t) else db.syncRows.find key :=
  Table.find_upsert db.syncRows (row.stored app a (latestSeq db a + 1) t) key

theorem guarded_insertOnly {row : SyncRowInput} (hi : row.insertOnly = true) :
    row.guarded.effect = .pass := by
  unfold SyncRowInput.guarded Guarded.effect
  rw [hi]
  rfl

theorem guarded_deleted {row : SyncRowInput} (hi : row.insertOnly = false)
    (hd : row.deleted = true) :
    row.guarded.effect = .settle row.guarded.value ∧
    row.guarded.value.kind = some row.envelope := by
  unfold SyncRowInput.guarded Guarded.effect Content.kind
  rw [hi, hd]
  exact ⟨rfl, rfl⟩

theorem guarded_live {row : SyncRowInput} (hi : row.insertOnly = false) (hd : row.deleted = false) :
    row.guarded.effect = .put row.guarded.value := by
  unfold SyncRowInput.guarded Guarded.effect
  rw [hi, hd]
  rfl

/-- A row that is skipped would write nothing. -/
theorem skips_content {row : SyncRowInput} (h : batchSkips db app a row = true) :
    row.guarded.step Content.kind (db.contentAt (a, app, row.entityId)) =
      db.contentAt (a, app, row.entityId) := by
  unfold batchSkips tombstone at h
  unfold Db.contentAt
  cases hf : db.syncRows.find (a, app, row.entityId) with
  | none =>
    rw [hf, Table.has_eq_false.2 hf] at h
    simp at h
  | some r =>
    rw [hf] at h
    show some (row.guarded.effect.apply Content.kind r.content) = some r.content
    cases hi : row.insertOnly with
    | true => rw [guarded_insertOnly hi]; rfl
    | false =>
      rw [hi, Bool.false_and, Bool.false_or, Bool.and_eq_true, decide_eq_true_eq] at h
      obtain ⟨hd, hsame⟩ := h
      obtain ⟨he, hk⟩ := guarded_deleted hi hd
      have hkind : r.content.kind = some row.envelope := hsame
      rw [he]
      exact congrArg some (if_pos (hkind.trans hk.symm))

/-- A row that is not writes what it says. -/
theorem writes_content {row : SyncRowInput} (h : batchSkips db app a row = false) :
    row.guarded.step Content.kind (db.contentAt (a, app, row.entityId)) =
      some row.guarded.value := by
  unfold batchSkips tombstone at h
  unfold Db.contentAt
  cases hf : db.syncRows.find (a, app, row.entityId) with
  | none => rfl
  | some r =>
    have hhas : db.syncRows.has (a, app, row.entityId) = true :=
      Table.has_iff.2 ⟨r, Table.find_some.1 hf⟩
    rw [hf, hhas, Bool.and_true, Bool.or_eq_false_iff] at h
    obtain ⟨hi, h⟩ := h
    show some (row.guarded.effect.apply Content.kind r.content) = some row.guarded.value
    cases hd : row.deleted with
    | false => rw [guarded_live hi hd]; rfl
    | true =>
      rw [hd, Bool.true_and, decide_eq_false_iff_not] at h
      obtain ⟨he, hk⟩ := guarded_deleted hi hd
      have hkind : ¬ r.content.kind = some row.envelope := h
      rw [he]
      exact congrArg some (if_neg fun e => hkind (e.trans hk))

theorem row_key_iff {row : SyncRowInput} {e : String} :
    (a, app, row.entityId) = (a, app, e) ↔ row.entityId = e :=
  ⟨fun h => congrArg (fun k : String × String × String => k.2.2) h, fun h => by rw [h]⟩

/-- One row of a batch, as a guarded write. -/
theorem batchRow_content {row : SyncRowInput} {now : String} {o : Option Nat} {d : Db}
    (h : (batchRow app a row now).eval db = .ok (o, d)) (e : String) :
    d.contentAt (a, app, e) = (writesTo e [row]).foldl (Guarded.step Content.kind)
      (db.contentAt (a, app, e)) := by
  rw [batchRow_eval] at h
  unfold writesTo
  by_cases he : row.entityId = e
  · subst he
    rw [List.filter_cons_of_pos (by simp)]
    show _ = row.guarded.step Content.kind (db.contentAt (a, app, row.entityId))
    split at h
    · rename_i hs
      cases h
      exact (skips_content hs).symm
    · rename_i hs
      cases h
      rw [writes_content (by simpa using hs)]
      unfold Db.contentAt
      rw [find_writeRow, if_pos rfl]
      rfl
  · rw [List.filter_cons_of_neg (by simpa using he)]
    show d.contentAt (a, app, e) = db.contentAt (a, app, e)
    split at h
    · cases h
      rfl
    · cases h
      unfold Db.contentAt
      rw [find_writeRow, if_neg fun hk => he (row_key_iff.1 hk)]

theorem writesTo_cons (e : String) (row : SyncRowInput) (rows : List SyncRowInput) :
    writesTo e (row :: rows) = writesTo e [row] ++ writesTo e rows := by
  unfold writesTo
  rw [← List.map_append, ← List.filter_append, List.singleton_append]

theorem batchLoop_content {now : Nat → String} {e : String} :
    ∀ {rows : List SyncRowInput} {acc r : BatchResult} {db d : Db},
    (batchLoop app a now rows acc).eval db = .ok (r, d) →
      d.contentAt (a, app, e) =
        (writesTo e rows).foldl (Guarded.step Content.kind) (db.contentAt (a, app, e))
  | [], acc, r, db, d, h => by
    cases h
    rfl
  | row :: rows, acc, r, db, d, h => by
    rw [batchLoop] at h
    obtain ⟨o, x, h1, h2⟩ := Tx.eval_bind_ok h
    rw [writesTo_cons, List.foldl_append, ← batchRow_content h1]
    cases o with
    | none => exact batchLoop_content h2
    | some seq => exact batchLoop_content h2

/-- **A batch as guarded writes.** -/
theorem batch_content (rows : List SyncRowInput) (now : Nat → String) (e : String) (db : Db) :
    (db.batch app a rows now).contentAt (a, app, e) = (writesTo e rows).foldl
    (Guarded.step Content.kind) (db.contentAt (a, app, e)) := by
  obtain ⟨r, h⟩ := batch_evals app a rows now db
  exact batchLoop_content h

/-- What a batch does not name it leaves. -/
theorem batch_others {rows : List SyncRowInput} {key : String × String × String}
    (h : ∀ row ∈ rows, key ≠ (a, app, row.entityId))
    (now : Nat → String) (db : Db) :
    (db.batch app a rows now).syncRows.find key = db.syncRows.find key := by
  obtain ⟨r, he⟩ := batch_evals app a rows now db
  refine batchUpsert_moves (R := fun d d' => d'.syncRows.find key = d.syncRows.find key) rows now
    (fun _ => rfl)
    (fun h1 h2 => h2.trans h1) (fun d row hrow t _ => ?_) db r _ he
  show (d.writeRow app a row t).syncRows.find key = _
  rw [find_writeRow, if_neg fun hk => h row hrow hk.symm]

/-- **The content after a batch is the content after two.** -/
theorem batch_again (rows : List SyncRowInput) (now now' : Nat → String)
    (key : String × String × String) (db : Db) :
    ((db.batch app a rows now).batch app a rows now').contentAt key =
    (db.batch app a rows now).contentAt key := by
  by_cases hkey : ∃ e, key = (a, app, e)
  · obtain ⟨e, rfl⟩ := hkey
    rw [batch_content, batch_content]
    exact Guarded.retry Content.kind _ _
  · unfold Db.contentAt
    rw [batch_others fun row _ e => hkey ⟨_, e⟩]

end Content

/-! ## Two batches in a row -/

/-- The same rows under the same numbers, at whatever times they were written. -/
structure SameRows (d d' : Db) : Prop where
  counter : ∀ b, latestSeq d b = latestSeq d' b
  rows : ∀ key, d.placedAt key = d'.placedAt key

section Append
variable {app a : String}

theorem SameRows.refl (d : Db) : SameRows d d := ⟨fun _ => rfl, fun _ => rfl⟩

/-- What a batch asks of the rows that are there. -/
theorem skips_placed (db : Db) (row : SyncRowInput) : batchSkips db app a row =
    ((row.insertOnly && (db.placedAt (a, app, row.entityId)).isSome) ||
      (row.deleted && decide ((db.placedAt (a, app, row.entityId)).bind (·.2.kind) =
        some row.envelope))) := by
  unfold batchSkips tombstone Db.placedAt
  cases hf : db.syncRows.find (a, app, row.entityId) with
  | none => rw [Table.has_eq_false.2 hf]; rfl
  | some r => rw [Table.has_iff.2 (by exact ⟨r, Table.find_some.1 hf⟩)]; rfl

theorem SameRows.skips {d d' : Db} (h : SameRows d d') (row : SyncRowInput) :
    batchSkips d app a row = batchSkips d' app a row := by
  rw [skips_placed, skips_placed, h.rows]

theorem SameRows.writeRow {d d' : Db} (h : SameRows d d') (row : SyncRowInput) (t t' : String) :
    SameRows (d.writeRow app a row t) (d'.writeRow app a row t') where
  counter b := by
    show latestSeq (d.bump a) b = latestSeq (d'.bump a) b
    rw [latestSeq_bump, latestSeq_bump, h.counter, h.counter]
  rows key := by
    unfold Db.placedAt
    rw [find_writeRow, find_writeRow, h.counter]
    by_cases hk : (a, app, row.entityId) = key
    · rw [if_pos hk, if_pos hk]
      rfl
    · rw [if_neg hk, if_neg hk]
      exact h.rows key

/-- The clock and what was written before do not show. -/
theorem batchLoop_alike {now now' : Nat → String} :
    ∀ {rows : List SyncRowInput} {acc acc' r r' : BatchResult} {d d' x x' : Db}, SameRows d d' →
    (batchLoop app a now rows acc).eval d = .ok (r, x) →
    (batchLoop app a now' rows acc').eval d' = .ok (r', x') → SameRows x x'
  | [], _, _, _, _, _, _, _, _, h, e, e' => by
    cases e
    cases e'
    exact h
  | row :: rows, _, _, _, _, _, _, _, _, h, e, e' => by
    rw [batchLoop] at e e'
    obtain ⟨o, y, e1, e2⟩ := Tx.eval_bind_ok e
    obtain ⟨o', y', e1', e2'⟩ := Tx.eval_bind_ok e'
    rw [batchRow_eval] at e1 e1'
    rw [← h.skips row] at e1'
    split at e1
    · rename_i hs
      rw [if_pos hs] at e1'
      cases e1
      cases e1'
      exact batchLoop_alike h e2 e2'
    · rename_i hs
      rw [if_neg hs] at e1'
      cases e1
      cases e1'
      exact batchLoop_alike (h.writeRow row _ _) e2 e2'

theorem batchLoop_append {now : Nat → String} (more : List SyncRowInput) :
    ∀ {rows : List SyncRowInput} {acc r : BatchResult} {db d : Db},
    (batchLoop app a now rows acc).eval db = .ok (r, d) →
      (batchLoop app a now (rows ++ more) acc).eval db = (batchLoop app a now more r).eval d
  | [], _, _, _, _, h => by
    cases h
    rfl
  | row :: rows, _, _, _, _, h => by
    rw [batchLoop] at h
    obtain ⟨o, x, h1, h2⟩ := Tx.eval_bind_ok h
    rw [List.cons_append, batchLoop, Tx.eval_bind, h1]
    cases o with
    | none => exact batchLoop_append more h2
    | some seq => exact batchLoop_append more h2

/-- **Two batches in a row are one**, but for the times. -/
theorem batch_append (rows more : List SyncRowInput) (now now₁ now₂ : Nat → String) (db : Db) :
    SameRows (db.batch app a (rows ++ more) now)
      ((db.batch app a rows now₁).batch app a more now₂) := by
  obtain ⟨r, hall⟩ := batch_evals app a (rows ++ more) now db
  obtain ⟨r₀, hfirst⟩ := batch_evals app a rows now db
  obtain ⟨r₁, hfirst₁⟩ := batch_evals app a rows now₁ db
  obtain ⟨r₂, hsecond⟩ := batch_evals app a more now₂ (db.batch app a rows now₁)
  have hmid : SameRows (db.batch app a rows now) (db.batch app a rows now₁) :=
    batchLoop_alike (.refl db) hfirst hfirst₁
  have hlast : (batchLoop app a now more r₀).eval (db.batch app a rows now) =
      .ok (r, db.batch app a (rows ++ more) now) :=
    (batchLoop_append more hfirst).symm.trans hall
  exact batchLoop_alike hmid hlast hsecond

end Append

/-! ## Numbers -/

/-- Every row is still there, under its number or a later one. -/
def RowsRise (d d' : Db) : Prop :=
  ∀ key r, d.syncRows.find key = some r → ∃ r', d'.syncRows.find key = some r' ∧ r.seq ≤ r'.seq

section Numbers
variable {app a : String} {db : Db}

theorem batch_rises (hs : (db.line a).Sound) (rows : List SyncRowInput) (now : Nat → String) :
    RowsRise db (db.batch app a rows now) := by
  intro ⟨b, app', e⟩ r hr
  by_cases hb : b = a
  · subst hb
    obtain ⟨res, he⟩ := batch_evals app b rows now db
    have hmoves : RowsMove b db (db.batch app b rows now) :=
      batchUpsert_moves rows now .refl .trans
        (fun d row _ t _ => rowsMove_put d (row.stored app b (latestSeq d b + 1) t) rfl) db res _ he
    rcases hmoves.row app' e with h | ⟨r', h, hlt⟩
    · exact ⟨r, h.trans hr, Nat.le_refl _⟩
    · have hle : r.seq ≤ latestSeq db b :=
        hs.le (.row app' e) r.seq (congrArg (Option.map SyncRow.seq) hr)
      exact ⟨r', h, by omega⟩
  · refine ⟨r, ?_, Nat.le_refl _⟩
    rw [batch_others fun row _ e => hb (congrArg Prod.fst e)]
    exact hr

/-- A live row has no time of deletion. -/
def LiveClear (db : Db) : Prop := ∀ r ∈ db.syncRows.rows, r.deleted = false → r.deletedAt = none

theorem liveClear_run (ops : List (StoreOp × Fault)) : LiveClear (runOps .empty ops) := by
  refine run_inv (I := LiveClear) (fun db o h => ?_) ops .empty nofun
  have hmoves := rows_all (P := fun r => r.deleted = false → r.deletedAt = none) (o := o.1)
    (fun app a rows now _ row _ seq t (hd : row.deleted = false) => by
      show (if row.deleted then _ else none) = none
      rw [hd]
      rfl)
    fun r _ seq t deletedAt hd => nomatch hd
  exact hmoves.commit (fun _ => id) o.2 db h

end Numbers

/-! ## A retry -/

/-- **What a batch that is sent twice does.** -/
structure Retried (app a : String) (rows : List SyncRowInput) (db : Db) : Prop where
  content : ∀ now now' key,
    ((db.batch app a rows now).batch app a rows now').contentAt key =
      (db.batch app a rows now).contentAt key
  frame : ∀ now now' key, (∀ row ∈ rows, key ≠ (a, app, row.entityId)) →
    (db.batch app a rows now).syncRows.find key = db.syncRows.find key ∧
      ((db.batch app a rows now).batch app a rows now').syncRows.find key = db.syncRows.find key
  joined : ∀ more now now₁ now₂,
    SameRows (db.batch app a (rows ++ more) now) ((db.batch app a rows now₁).batch app a more now₂)

theorem batch_retry (app a : String) (rows : List SyncRowInput) :
    (∀ db, Retried app a rows db) ∧ ∀ ops, let db := runOps .empty ops
      LiveClear db ∧ ∀ now now', RowsRise db (db.batch app a rows now) ∧
        RowsRise (db.batch app a rows now) ((db.batch app a rows now).batch app a rows now') := by
  refine ⟨fun db => ⟨fun now now' key => batch_again rows now now' key db, fun now now' key h => ?_,
    fun more now now₁ now₂ => batch_append rows more now now₁ now₂ db⟩, fun ops =>
      ⟨liveClear_run ops, fun now now' => ?_⟩⟩
  · exact ⟨batch_others h now db, (batch_others h now' _).trans (batch_others h now db)⟩
  · have hsound := sound_run (a := a) ops
    exact ⟨batch_rises hsound rows now,
      batch_rises (sound_step (.batchUpsert app a rows now, none) _ hsound) rows now'⟩

end GlanceVault.L2
