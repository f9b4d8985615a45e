import Mathlib.Data.Finset.Image
import GlanceVault.Core.Slices
import GlanceVault.L2Storage.SyncStore
import GlanceVault.L2Storage.IntentStore
import GlanceVault.L2Storage.BlobMeta
/-!
# Quota aggregates (`storage/sqlite.ts`, the `QuotaReader` reads)

Select-only sums over one account's rows. The existence probes are issued in
slices of `inChunk` ids and the counts of the slices are added.

* `*_tenant`: every aggregate is one of the account's own rows.
* `countExistingEntities_eq`, `countExistingIntentEvents_eq`: the probe is the
  number of named ids that are stored, plus one for every further slice such an
  id occurs in.
* `batchUpsert_rows`: a batch raises the row count by exactly the number of
  distinct entities it names that were not stored, and stores them all.
* `intentLoop_written`: an intents batch writes as many events as it names new
  ids.
-/
namespace GlanceVault.L2
open GlanceVault.Core GlanceVault.L1

structure BlobFootprint where
  blobBytes : Nat
  sessionCount : Nat
  declaredBytes : Nat
  deriving DecidableEq

/-- mirrors src/storage/sqlite.ts:1157-1168 (`blobFootprint`) -/
def blobFootprint (a : String) (db : Db) : BlobFootprint where
  blobBytes := db.blobs.total (fun b => decide (b.accountId = a)) (·.size)
  sessionCount := db.uploadSessions.count fun s => decide (s.accountId = a)
  declaredBytes := db.uploadSessions.total (fun s => decide (s.accountId = a)) (·.declaredSize)

/-- mirrors src/storage/sqlite.ts:1170-1176 (`syncRowCount`) -/
def syncRowCount (a : String) (db : Db) : Nat := db.syncRows.count fun r => decide (r.accountId = a)

/-- Bound variables of one probe. mirrors src/storage/sqlite.ts:1185 (`IN_CHUNK`) -/
def inChunk : Nat := 900

/-- mirrors src/storage/sqlite.ts:1187-1202 (`countExistingEntities`) -/
def countExistingEntities (app a : String) (entityIds : List String) (db : Db) : Nat :=
  ((slices inChunk entityIds).map fun chunk => db.syncRows.count fun r =>
    decide (r.accountId = a) && decide (r.app = app) && decide (r.entityId ∈ chunk)).sum

/-- mirrors src/storage/sqlite.ts:1204-1219 (`countExistingIntentEvents`) -/
def countExistingIntentEvents (a : String) (eventIds : List String) (db : Db) : Nat :=
  ((slices inChunk eventIds).map fun chunk => db.intentEvents.count fun r =>
    decide (r.accountId = a) && decide (r.eventId ∈ chunk)).sum

/-- mirrors src/storage/sqlite.ts:1221-1227 (`intentCount`) -/
def intentCount (a now : String) (db : Db) : Nat :=
  db.intentEvents.count fun r => decide (r.accountId = a) && decide (now < r.expiresAt)

/-! ## The aggregates of a tenant -/

section Tenancy
variable (a : String) (db : Db)

theorem blobFootprint_tenant : blobFootprint a (db.tenant a) = blobFootprint a db := by
  unfold blobFootprint
  rw [Table.count_eq_total, Table.count_eq_total]
  have hblobs := Table.total_keep_of (t := db.blobs) (p := fun b => decide (b.accountId = a))
    (q := fun b => decide (b.accountId = a)) (f := (·.size)) fun r _ h => h
  have hsessions := fun f => Table.total_keep_of (t := db.uploadSessions)
    (p := fun s => decide (s.accountId = a))
    (q := fun s => decide (s.accountId = a)) (f := f) fun r _ h => h
  unfold Db.tenant
  simp only [hblobs, hsessions]

theorem syncRowCount_tenant : syncRowCount a (db.tenant a) = syncRowCount a db := by
  unfold syncRowCount
  rw [Table.count_eq_total, Table.count_eq_total]
  exact Table.total_keep_of fun r _ h => h

theorem countExistingEntities_tenant (app : String) (ids : List String) :
    countExistingEntities app a ids (db.tenant a) = countExistingEntities app a ids db := by
  unfold countExistingEntities
  congr 2
  funext chunk
  rw [Table.count_eq_total, Table.count_eq_total]
  exact Table.total_keep_of fun r _ h => by
    simp only [Bool.and_eq_true] at h; exact h.1.1

theorem countExistingIntentEvents_tenant (ids : List String) :
    countExistingIntentEvents a ids (db.tenant a) = countExistingIntentEvents a ids db := by
  unfold countExistingIntentEvents
  congr 2
  funext chunk
  rw [Table.count_eq_total, Table.count_eq_total]
  exact Table.total_keep_of fun r _ h => by
    simp only [Bool.and_eq_true] at h; exact h.1

theorem intentCount_tenant (now : String) :
    intentCount a now (db.tenant a) = intentCount a now db := by
  unfold intentCount
  rw [Table.count_eq_total, Table.count_eq_total]
  exact Table.total_keep_of fun r _ h => by
    simp only [Bool.and_eq_true] at h; exact h.1

end Tenancy

/-! ## The probe and the stored entities -/

/-- Rows with different ids are as many as their ids. -/
theorem count_card {ρ κ : Type} {key : ρ → κ} (t : Table key) (p : ρ → Bool) (f : ρ → String)
    (g : String → κ)
    (hg : ∀ r, p r = true → key r = g (f r)) :
    t.count p = ((t.rows.filter p).map f).toFinset.card := by
  have hnodup : ((t.rows.filter p).map f).Nodup := by
    have hk : ((t.rows.filter p).map key).Nodup :=
      (List.Sublist.map key List.filter_sublist).nodup t.unique
    refine List.Nodup.of_map g ?_
    rw [List.map_map]
    exact (List.map_congr_left fun r hr => hg r (List.mem_filter.1 hr).2) ▸ hk
  rw [List.toFinset_card_of_nodup hnodup, List.length_map]
  rfl

/-- A probe counts the ids of its chunk that are stored, when the rows it
selects have different ids. -/
theorem count_ids {ρ κ : Type} {key : ρ → κ} (t : Table key) (p : ρ → Bool) (f : ρ → String)
    (g : String → κ) (hg : ∀ r, p r = true → key r = g (f r)) (chunk : List String) :
    t.count (fun r => p r && decide (f r ∈ chunk)) =
      (((t.rows.filter p).map f).toFinset.filter fun e => e ∈ chunk).card := by
  have hset : ((t.rows.filter p).map f).toFinset.filter (fun e => e ∈ chunk) =
      ((t.rows.filter fun r => p r && decide (f r ∈ chunk)).map f).toFinset := by
    ext e
    simp only [Finset.mem_filter, List.mem_toFinset, List.mem_map, List.mem_filter,
      Bool.and_eq_true, decide_eq_true_eq]
    constructor
    · intro ⟨⟨r, ⟨hm, ha⟩, he⟩, hc⟩
      exact ⟨r, ⟨hm, ha, he ▸ hc⟩, he⟩
    · intro ⟨r, ⟨hm, ha, hc⟩, he⟩
      exact ⟨⟨r, ⟨hm, ha⟩, he⟩, he ▸ hc⟩
  rw [hset]
  refine count_card t _ f g fun r hr => hg r ?_
  rw [Bool.and_eq_true] at hr
  exact hr.1

/-- The distinct ids of a list are those in a set and the others. -/
theorem card_distinct (ids : List String) (stored : Finset String) :
    ids.toFinset.card = (ids.toFinset \ stored).card + (stored.filter fun e => e ∈ ids).card := by
  have hinter : stored.filter (fun e => e ∈ ids) = ids.toFinset ∩ stored := by
    ext e
    simp [and_comm]
  rw [hinter, Finset.card_sdiff_add_card_inter]

/-- The entities stored under an account and app. -/
def storedEntities (app a : String) (db : Db) : Finset String :=
  ((db.syncRows.rows.filter fun r => decide (r.accountId = a) && decide (r.app = app)).map
    (·.entityId)).toFinset

theorem mem_storedEntities {app a e : String} {db : Db} :
    e ∈ storedEntities app a db ↔ db.syncRows.has (a, app, e) = true := by
  rw [Table.has_iff]
  simp only [storedEntities, List.mem_toFinset, List.mem_map, List.mem_filter, Bool.and_eq_true,
    decide_eq_true_eq, SyncRow.key, Prod.mk.injEq]
  constructor
  · intro ⟨r, ⟨hm, ha, hp⟩, he⟩
    exact ⟨r, hm, ha, hp, he⟩
  · intro ⟨r, hm, ha, hp, he⟩
    exact ⟨r, ⟨hm, ha, hp⟩, he⟩

/-- The entity id identifies a row of one account and app. -/
theorem count_chunk (app a : String) (chunk : List String) (db : Db) :
    (db.syncRows.count fun r =>
      decide (r.accountId = a) && decide (r.app = app) && decide (r.entityId ∈ chunk)) =
      ((storedEntities app a db).filter fun e => e ∈ chunk).card :=
  count_ids db.syncRows _ _ (fun e => (a, app, e)) (fun r hp => by
    simp only [Bool.and_eq_true, decide_eq_true_eq] at hp
    rw [SyncRow.key, hp.1, hp.2]) chunk

/-- How often the stored ones of the named entities are counted again. -/
def entityRecount (app a : String) (entityIds : List String) (db : Db) : Nat :=
  recount inChunk entityIds (storedEntities app a db)

/-- The entities a batch names and the account has not stored. -/
def newEntities (app a : String) (entityIds : List String) (db : Db) : Finset String :=
  entityIds.toFinset \ storedEntities app a db

theorem countExistingEntities_eq (app a : String) (entityIds : List String) (db : Db) :
    countExistingEntities app a entityIds db =
      ((storedEntities app a db).filter fun e => e ∈ entityIds).card +
        entityRecount app a entityIds db := by
  unfold countExistingEntities entityRecount
  simp only [count_chunk]
  exact count_slices (by decide) entityIds (storedEntities app a db)

/-- The events stored under an account. -/
def storedEvents (a : String) (db : Db) : Finset String :=
  ((db.intentEvents.rows.filter fun r => decide (r.accountId = a)).map (·.eventId)).toFinset

theorem mem_storedEvents {a e : String} {db : Db} :
    e ∈ storedEvents a db ↔ db.intentEvents.has (a, e) = true := by
  rw [Table.has_iff]
  simp only [storedEvents, List.mem_toFinset, List.mem_map, List.mem_filter,
    decide_eq_true_eq, IntentEvent.key,
    Prod.mk.injEq, and_assoc]

/-- How often the stored ones of the named events are counted again. -/
def eventRecount (a : String) (eventIds : List String) (db : Db) : Nat :=
  recount inChunk eventIds (storedEvents a db)

/-- The events a batch names and the account has not stored. -/
def newEvents (a : String) (eventIds : List String) (db : Db) : Finset String :=
  eventIds.toFinset \ storedEvents a db

theorem countExistingIntentEvents_eq (a : String) (eventIds : List String) (db : Db) :
    countExistingIntentEvents a eventIds db =
      ((storedEvents a db).filter fun e => e ∈ eventIds).card + eventRecount a eventIds db := by
  have hchunk :
      ∀ chunk, (db.intentEvents.count fun r => decide (r.accountId = a) && decide
        (r.eventId ∈ chunk)) =
      ((storedEvents a db).filter fun e => e ∈ chunk).card :=
    count_ids db.intentEvents _ _ (fun e => (a, e)) fun r hp => by
      rw [IntentEvent.key, of_decide_eq_true hp]
  unfold countExistingIntentEvents
  simp only [hchunk]
  exact count_slices (by decide) eventIds (storedEvents a db)

/-! ## What a batch inserts -/

theorem has_writeRow (db : Db) (app a : String) (row : SyncRowInput) (now : String)
    (k : String × String × String) :
    (db.writeRow app a row now).syncRows.has k =
    (decide ((a, app, row.entityId) = k) || db.syncRows.has k) := by
  unfold Table.has Db.writeRow Db.putSyncRow
  rw [Table.find_upsert]
  show Option.isSome (if (a, app, row.entityId) = k then _ else _) = _
  by_cases h : (a, app, row.entityId) = k
  · simp [h]
  · rw [if_neg h]
    simp only [h, decide_false, Bool.false_or]
    rfl

theorem count_writeRow (db : Db) (app a : String) (row : SyncRowInput) (now : String) :
    syncRowCount a (db.writeRow app a row now) =
      syncRowCount a db + if db.syncRows.has (a, app, row.entityId) then 0 else 1 := by
  unfold syncRowCount
  rw [Table.count_eq_total, Table.count_eq_total]
  have hkey : (row.stored app a (latestSeq db a + 1) now).key = (a, app, row.entityId) := rfl
  cases hf : db.syncRows.find (a, app, row.entityId) with
  | some old =>
    have ha : old.accountId = a := congrArg Prod.fst (Table.find_key hf)
    have h := Table.total_upsert_old (t := db.syncRows)
      (r := row.stored app a (latestSeq db a + 1) now)
      (by rw [hkey]; exact hf) (fun r => decide (r.accountId = a)) fun _ => 1
    have hs : (row.stored app a (latestSeq db a + 1) now).accountId = a := rfl
    simp only [ha, hs, decide_true, if_true] at h
    have hh : db.syncRows.has (a, app, row.entityId) = true := by unfold Table.has; rw [hf]; rfl
    rw [hh, if_pos rfl]
    unfold Db.writeRow Db.putSyncRow
    exact Nat.add_right_cancel h
  | none =>
    have h := Table.total_upsert_new (t := db.syncRows)
      (r := row.stored app a (latestSeq db a + 1) now)
      (by rw [hkey]; exact hf) (fun r => decide (r.accountId = a)) fun _ => 1
    have hs : (row.stored app a (latestSeq db a + 1) now).accountId = a := rfl
    simp only [hs, decide_true, if_true] at h
    rw [Table.has_eq_false.2 hf]
    unfold Db.writeRow Db.putSyncRow
    exact h

/-- A skipped row is one of a stored entity. -/
theorem has_of_skips {db : Db} {app a : String} {row : SyncRowInput}
    (h : batchSkips db app a row = true) :
    db.syncRows.has (a, app, row.entityId) = true := by
  unfold batchSkips tombstone at h
  simp only [Bool.or_eq_true, Bool.and_eq_true, decide_eq_true_eq] at h
  rcases h with h | h
  · exact h.2
  · unfold Table.has
    cases hf : db.syncRows.find (a, app, row.entityId) with
    | some r => rfl
    | none => rw [hf] at h; cases h.2

/-- A named entity is new at its first occurrence only. -/
theorem card_insert_sdiff (e : String) (s t : Finset String) :
    (insert e s \ t).card = (s \ insert e t).card + if e ∈ t then 0 else 1 := by
  by_cases h : e ∈ t
  · rw [if_pos h, Finset.insert_sdiff_of_mem _ h, Finset.insert_eq_self.2 h, Nat.add_zero]
  · have hset : insert e s \ t = insert e (s \ insert e t) := by
      ext x
      simp only [Finset.mem_sdiff, Finset.mem_insert]
      by_cases hx : x = e
      · simp [hx, h]
      · simp [hx]
    rw [if_neg h, hset, Finset.card_insert_of_notMem (by simp)]

theorem batchLoop_rows (app a : String) (now : Nat → String) :
    ∀ (rows : List SyncRowInput) (acc : BatchResult) (db : Db) (res : BatchResult) (db' : Db),
      (batchLoop app a now rows acc).eval db = .ok (res, db') →
      syncRowCount a db' = syncRowCount a db + (newEntities app a (rows.map (·.entityId)) db).card ∧
        storedEntities app a db' = storedEntities app a db ∪ (rows.map (·.entityId)).toFinset := by
  intro rows
  induction rows with
  | nil =>
    intro acc db res db' h
    cases h
    exact ⟨by simp [newEntities], by simp⟩
  | cons row rows ih =>
    intro acc db res db' h
    rw [batchLoop] at h
    obtain ⟨seq?, d, h1, h2⟩ := Tx.eval_bind_ok h
    have h2 : ∃ acc', (batchLoop app a now rows acc').eval d = .ok (res, db') := by
      cases seq? with
      | none => exact ⟨_, h2⟩
      | some seq => exact ⟨_, h2⟩
    obtain ⟨acc', h2⟩ := h2
    obtain ⟨hcount, hstored⟩ := ih acc' d res db' h2
    rw [batchRow_eval] at h1
    by_cases hs : batchSkips db app a row = true
    · rw [if_pos hs] at h1
      cases h1
      have hmem : row.entityId ∈ storedEntities app a db := mem_storedEntities.2 (has_of_skips hs)
      have hnew : newEntities app a ((row :: rows).map (·.entityId)) db =
          newEntities app a (rows.map (·.entityId)) db := by
        unfold newEntities
        rw [List.map_cons, List.toFinset_cons, Finset.insert_sdiff_of_mem _ hmem]
      refine ⟨by rw [hnew]; exact hcount, ?_⟩
      rw [hstored, List.map_cons, List.toFinset_cons, Finset.union_insert,
        Finset.insert_eq_self.2 (Finset.mem_union_left _ hmem)]
    · rw [if_neg hs] at h1
      cases h1
      have hst : storedEntities app a (db.writeRow app a row (now acc.written)) =
          insert row.entityId (storedEntities app a db) := by
        ext e
        rw [mem_storedEntities, has_writeRow, Finset.mem_insert, mem_storedEntities]
        by_cases he : e = row.entityId
        · simp [he]
        · simp [he, Ne.symm he]
      refine ⟨?_, ?_⟩
      · rw [hcount, count_writeRow]
        unfold newEntities
        rw [hst, List.map_cons, List.toFinset_cons, card_insert_sdiff]
        simp only [mem_storedEntities]
        omega
      · rw [hstored, hst, List.map_cons, List.toFinset_cons, Finset.union_insert,
          Finset.insert_union]

/-- **What a batch inserts.** -/
theorem batchUpsert_rows {app a : String} {rows : List SyncRowInput} {now : Nat → String}
    {db db' : Db} {res : BatchResult} (h : (batchUpsert app a rows now).eval db = .ok (res, db')) :
    syncRowCount a db' = syncRowCount a db + (newEntities app a (rows.map (·.entityId)) db).card ∧
      storedEntities app a db' = storedEntities app a db ∪ (rows.map (·.entityId)).toFinset :=
  batchLoop_rows app a now rows _ db res db' h

/-- **What an intents batch counts as written**, before its prune. -/
theorem intentLoop_written (a : String) (now : Nat → String) :
    ∀ (evs : List IntentEventInput) (acc res : BatchResult)
    (db d : Db), (intentLoop a now evs acc).eval db = .ok (res, d) →
      res.written = acc.written + (newEvents a (evs.map (·.eventId)) db).card
  | [], acc, res, db, d, h => by
    cases h
    simp [newEvents]
  | ev :: evs, acc, res, db, d, h => by
    rw [intentLoop, Tx.eval_bind, insertIntent_eval] at h
    by_cases hhas : db.intentEvents.has (a, ev.eventId) = true
    · rw [if_pos hhas] at h
      rw [intentLoop_written a now evs acc res db d h]
      unfold newEvents
      rw [List.map_cons, List.toFinset_cons, Finset.insert_sdiff_of_mem _ (mem_storedEvents.2 hhas)]
    · rw [if_neg hhas] at h
      have hwritten := intentLoop_written a now evs _ res _ d h
      have hstored : storedEvents a (db.writeIntent a ev (now acc.written)) =
          insert ev.eventId (storedEvents a db) := by
        ext e
        rw [mem_storedEvents, Finset.mem_insert, mem_storedEvents]
        show (db.intentEvents.upsert (ev.stored a (latestSeq db a + 1) (now acc.written))).has (a,
          e) = true ↔ _
        unfold Table.has
        rw [Table.find_upsert]
        by_cases he : e = ev.eventId
        · simp [he, IntentEventInput.stored, IntentEvent.key]
        · simp [he, Ne.symm he, IntentEventInput.stored, IntentEvent.key]
      rw [hwritten]
      unfold newEvents
      rw [hstored, List.map_cons, List.toFinset_cons, card_insert_sdiff,
        if_neg (mt mem_storedEvents.1 hhas)]
      dsimp only
      omega

end GlanceVault.L2
