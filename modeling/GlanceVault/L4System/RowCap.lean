import GlanceVault.L2Storage.Aggregates
import GlanceVault.L4System.System
/-!
# The row cap

The check before a batch compares the distinct ids of the batch with an
existence probe that counts a stored entity once for every slice of ids it
occurs in. Its verdict is the right one as long as these further counts
(`entityRecount`) do not exceed what is left over; they are zero for batches of
up to `inChunk` rows and for batches without repetitions.

* `capDecides_iff`: when the check agrees with what the batch does.
* `row_cap_decides`: this, and the cap over whole runs.
-/
namespace GlanceVault.L4
open GlanceVault.Core GlanceVault.L1 GlanceVault.L2 GlanceVault.L3

/-! ## One batch -/

/-- From `db` to `db'` an entity was added, and the account has more than `n` rows. -/
def Overfills (n : Nat) (app a : String) (db db' : Db) : Prop :=
  (∃ e ∈ storedEntities app a db', e ∉ storedEntities app a db) ∧ n < syncRowCount a db'

/-- The check with the row cap `n` rejects exactly the batches that would add
an entity and leave more than `n` rows, and counts no negative number of new
rows. -/
def CapDecides (policy : QuotaPolicy) (n : Nat) (app a : String) (rows : List SyncRowInput)
    (now : Nat → String)
    (db : Db) : Prop :=
  ∃ res db', (batchUpsert app a rows now).eval db = .ok (res, db') ∧
    (admitSyncBatch { policy with rows := some n } a app (rows.map (·.entityId)) db ≠ none ↔
      Overfills n app a db db') ∧
    (n < syncRowCount a db + rows.length → 0 ≤ netNewRows app a (rows.map (·.entityId)) db)

/-- What is counted again is small enough: at most the new entities, and, when
these exceed the cap, less than the excess. -/
def Tallied (n : Nat) (app a : String) (entityIds : List String) (db : Db) : Prop :=
  (n < syncRowCount a db + entityIds.length →
    entityRecount app a entityIds db ≤ (newEntities app a entityIds db).card) ∧
  (0 < (newEntities app a entityIds db).card ∧
    n < syncRowCount a db + (newEntities app a entityIds db).card →
    entityRecount app a entityIds db < (newEntities app a entityIds db).card ∧
      n + entityRecount app a entityIds db < syncRowCount a db +
        (newEntities app a entityIds db).card)

instance (n : Nat) (app a : String) (entityIds : List String) (db : Db) :
    Decidable (Tallied n app a entityIds db) :=
  inferInstanceAs (Decidable (_ ∧ _))

theorem newEntities_le (app a : String) (entityIds : List String) (db : Db) :
    (newEntities app a entityIds db).card ≤ entityIds.length :=
  (Finset.card_le_card Finset.sdiff_subset).trans (List.toFinset_card_le entityIds)

/-- An entity is added exactly if the batch names a new one. -/
theorem adds_iff {app a : String} {rows : List SyncRowInput} {now : Nat → String} {db db' : Db}
    {res : BatchResult} (h : (batchUpsert app a rows now).eval db = .ok (res, db')) :
    (∃ e ∈ storedEntities app a db', e ∉ storedEntities app a db) ↔
      0 < (newEntities app a (rows.map (·.entityId)) db).card := by
  rw [(batchUpsert_rows h).2, Finset.card_pos]
  constructor
  · intro ⟨e, he, hn⟩
    rcases Finset.mem_union.1 he with he | he
    · exact absurd he hn
    · exact ⟨e, Finset.mem_sdiff.2 ⟨he, hn⟩⟩
  · intro ⟨e, he⟩
    obtain ⟨h1, h2⟩ := Finset.mem_sdiff.1 he
    exact ⟨e, Finset.mem_union_right _ h1, h2⟩

theorem capDecides_iff (policy : QuotaPolicy) (n : Nat) (app a : String) (rows : List SyncRowInput)
    (now : Nat → String) (db : Db) :
    CapDecides policy n app a rows now db ↔ Tallied n app a (rows.map (·.entityId)) db := by
  obtain ⟨⟨res, db'⟩, heval⟩ := batchUpsert_eval app a rows now db
  have hcount := (batchUpsert_rows heval).1
  have hle := newEntities_le app a (rows.map (·.entityId)) db
  have hnet := netNewRows_eq app a (rows.map (·.entityId)) db
  have hrej : admitSyncBatch { policy with rows := some n } a app
    (rows.map (·.entityId)) db ≠ none ↔
      0 < netNewRows app a (rows.map (·.entityId)) db ∧
        (n : Int) < syncRowCount a db + netNewRows app a (rows.map (·.entityId)) db := by
    rw [admitSyncBatch_some]
    simp
  have hover : Overfills n app a db db' ↔ 0 < (newEntities app a (rows.map (·.entityId)) db).card ∧
      n < syncRowCount a db + (newEntities app a (rows.map (·.entityId)) db).card := by
    unfold Overfills
    rw [adds_iff heval, hcount]
  have hcap : CapDecides policy n app a rows now db ↔
      (admitSyncBatch { policy with rows := some n } a app (rows.map (·.entityId)) db ≠ none ↔
        Overfills n app a db db') ∧
      (n < syncRowCount a db + rows.length → 0 ≤ netNewRows app a (rows.map (·.entityId)) db) := by
    constructor
    · intro ⟨res2, db2, h2, h3⟩
      rw [heval] at h2
      cases h2
      exact h3
    · intro h
      exact ⟨res, db', heval, h⟩
  rw [hcap, hrej, hover]
  unfold Tallied
  rw [hnet]
  simp only [List.length_map] at hle ⊢
  generalize (newEntities app a (rows.map (·.entityId)) db).card = new at hle ⊢
  generalize entityRecount app a (rows.map (·.entityId)) db = again
  constructor
  · intro ⟨h1, h2⟩
    refine ⟨fun h => by have := h2 h; omega, fun h => ?_⟩
    have := h1.2 h
    omega
  · intro ⟨h1, h2⟩
    refine ⟨⟨fun h => by omega, fun h => ?_⟩, fun h => by have := h1 h; omega⟩
    have := h2 h
    omega

/-! ## The rows of an account over a run -/

theorem syncRowCount_tombstone {db : Db} {r : SyncRow} (hr : r ∈ db.syncRows.rows) (b : String)
    (deletedAt : Option Js.JsNumber) (now : String) :
    syncRowCount b (db.tombstoneRow r deletedAt now) = syncRowCount b db := by
  unfold syncRowCount
  rw [Table.count_eq_total, Table.count_eq_total]
  have hf : db.syncRows.find r.key = some r := Table.find_some.2 ⟨hr, rfl⟩
  exact Nat.add_right_cancel (Table.total_upsert_old (t := db.syncRows)
    (r := r.tombstoned (latestSeq db r.accountId + 1) now deletedAt) hf
      (fun x => decide (x.accountId = b)) fun _ => 1)

theorem syncRowCount_without (a b : String) (db : Db) :
    syncRowCount b (db.without a) ≤ syncRowCount b db := by
  unfold syncRowCount
  rw [Table.count_eq_total, Table.count_eq_total]
  exact Table.total_keep_le _ _ _ _

def syncTable (s : Server) : Table SyncRow.key := s.db.syncRows

theorem syncTable_volatile : Volatile syncTable := fun _ _ _ _ _ => rfl

theorem syncTable_ignores {area : Area} (h : area ≠ .sync) : Ignores syncTable area := by
  cases area with
  | sync => exact absurd rfl h
  | intents => exact ignores_of fun _ => rfl
  | devices => exact ignores_of (f := fun db => { db with devices := .empty }) fun _ => rfl
  | salts => exact ignores_of (f := fun db => { db with accountSalts := .empty }) fun _ => rfl
  | blobs => exact ignores_of fun _ => rfl
  | uploads => exact ignores_of fun _ => rfl
  | files => exact fun _ _ => rfl
  | registry => exact ignores_of fun _ => rfl

/-- The rows of every account stay within its bound. -/
def Within (bound : String → Nat) (db : Db) : Prop := ∀ b, syncRowCount b db ≤ bound b

theorem within_of_rows {bound : String → Nat} {db db' : Db} (e : db'.syncRows = db.syncRows)
    (h : Within bound db) :
    Within bound db' := by
  intro b
  unfold syncRowCount
  rw [e]
  exact h b

/-- **A batch that is admitted stays within the cap**, if the check counted
right. -/
theorem batch_within {cfg : Config} {env : Env} {app a : String} {rows : List SyncRowInput}
    {notify : Bool} {n : Nat}
    {bound : String → Nat} (hcfg : cfg.quotas.rows = some n) (hn : ∀ b, n ≤ bound b) :
    Prog.Triple (fun _ => True)
      (fun s => Tallied n app a (rows.map (·.entityId)) s.db ∧ Within bound s.db)
    (batch cfg env a app rows notify)
      (fun _ s => Within bound s.db) fun s => Within bound s.db := by
  have hgate : makeQuotaGate cfg.quotas = some cfg.quotas :=
    makeQuotaGate_some fun e => by rw [e] at hcfg; cases hcfg
  unfold batch
  refine Prog.Triple.bind (Q := fun _ s => admitSyncBatch cfg.quotas a app
    (rows.map (·.entityId)) s.db = none ∧
    Tallied n app a (rows.map (·.entityId)) s.db ∧ Within bound s.db) (gated_triple
      (fun s hs hadm => ?_)
      fun s hs => hs.2) fun _ => ?_
  · exact ⟨hadm cfg.quotas hgate, hs⟩
  refine Prog.Triple.bind (Q := fun _ s => Within bound s.db)
    (exec_triple (fun s res db hs he => ⟨trivial, ?_⟩)
    fun s hs => hs.2.2) fun res => ?_
  · intro b
    by_cases hb : a = b
    · subst hb
      have hcount := (batchUpsert_rows he).1
      have hdecides := (capDecides_iff cfg.quotas n app a rows env.clock s.db).2 hs.2.1
      obtain ⟨res', db', he', hiff, -⟩ := hdecides
      rw [he] at he'
      cases he'
      have hpolicy : ({ cfg.quotas with rows := some n } : QuotaPolicy) = cfg.quotas := by
        rw [← hcfg]
      rw [hpolicy, hs.1] at hiff
      -- admitted: nothing new, or within the cap
      by_cases hnew : 0 < (newEntities app a (rows.map (·.entityId)) s.db).card
      · have hcap : ¬ n < syncRowCount a db := fun hlt => (hiff.2 ⟨(adds_iff he).2 hnew, hlt⟩) rfl
        have := hn a
        show syncRowCount a db ≤ bound a
        omega
      · have := hs.2.2 a
        show syncRowCount a db ≤ bound a
        omega
    · show syncRowCount b db ≤ bound b
      rw [← syncRowCount_tenant, batchUpsert_keeps hb app rows env.clock s.db res db he,
        syncRowCount_tenant]
      exact hs.2.2 b
  · have hemit : ∀ nudge, Prog.Keeps Server.db (emit env a nudge) :=
      fun nudge => emit_keeps fun _ _ _ _ => rfl
    refine .ite (fun _ => ?_) fun _ => .pure fun _ hs => hs
    refine .bind (Q := fun _ s => Within bound s.db) ?_ fun _ => .pure fun _ hs => hs
    intro s hs
    exact ⟨fun _ _ => trivial, ((hemit _).triple (Within bound) s hs).2⟩

theorem deleteEntity_within {env : Env} {app a e : String} {deletedAt : Option Nat}
    {bound : String → Nat} :
    Prog.Triple (fun _ => True) (fun s => Within bound s.db) (deleteEntity env a app e deletedAt)
      (fun _ s => Within bound s.db) fun s => Within bound s.db := by
  have hsame :
      ∀ db o db',
        (softDeleteRow app a e (deletedAt.map .ofNat) (env.clock 0)).eval db = .ok (o, db') →
      ∀ b, syncRowCount b db' = syncRowCount b db :=
    softDeleteRow_moves (R := fun d d' => ∀ b, syncRowCount b d' = syncRowCount b d)
      (fun _ _ => rfl)
      (fun db r t now hr _ _ b => syncRowCount_tombstone hr b t now) e _ _
  unfold deleteEntity
  refine Prog.Triple.bind (Q := fun _ s => Within bound s.db)
    (exec_triple (fun s o db hs he => ⟨trivial, ?_⟩)
    fun s hs => hs) fun o => ?_
  · intro b
    show syncRowCount b db ≤ bound b
    rw [hsame s.db o db he b]
    exact hs b
  refine Prog.Triple.bind (Q := fun _ s => Within bound s.db)
    (.found (fun _ _ _ hs => hs) fun _ hs => hs) fun r => ?_
  refine .ite (fun _ => .pure fun _ hs => hs) fun _ => ?_
  refine .bind (Q := fun _ s => Within bound s.db) (.poke fun _ hs => hs) fun _ =>
    .pure fun _ hs => hs

/-- An admitted call keeps every account within its bound. -/
theorem perform_within {cfg : Config} {host : Host} {credential : Option Credential} {env : Env}
    {a : String}
    {call : Call} {n : Nat} {bound : String → Nat} {s : Server} (hcfg : cfg.quotas.rows = some n)
    (hn : ∀ b, n ≤ bound b)
    (ht : ∀ app rows notify, call = .batch app rows notify →
      Tallied n app a (rows.map (·.entityId)) s.db)
    (h : Within bound s.db) : Within bound (perform cfg host credential env a call s).state.db := by
  have hframe : Area.sync ∉ call.writes →
      Within bound (perform cfg host credential env a call s).state.db := by
    intro hw
    have hkeep := perform_frame syncTable_volatile cfg host credential env a call fun area harea =>
      syncTable_ignores fun e => hw (e ▸ harea)
    exact within_of_rows (hkeep s).1 h
  cases call with
  | batch app rows notify =>
    exact (batch_within hcfg hn).state (I := fun v : Server => Within bound v.db)
      ⟨ht app rows notify rfl, h⟩
  | deleteEntity app e t =>
    exact deleteEntity_within.state (I := fun v : Server => Within bound v.db) h
  | _ => exact hframe (by simp [Call.writes])

/-- The batch an action runs is tallied. -/
def State.tallied (host : Host) (n : Nat) (s : State) : Action → Prop
  | .handle id _ =>
    match s.waiting id with
    | none => True
    | some w =>
      match accept s.cfg host w.credential w.route with
      | .ok (a, .batch app rows _) => Tallied n app a (rows.map (·.entityId)) s.server.db
      | _ => True
  | _ => True

/-- The account, the app and the rows of the batch an action runs. -/
def State.batched (host : Host) (s : State) (act : Action) :
    Option (String × String × List SyncRowInput) :=
  (s.handled host act).bind fun x =>
    match x.2.2 with
    | .batch app rows _ => some (x.2.1, app, rows)
    | _ => none

theorem tallied_iff {host : Host} {n : Nat} {s : State} {act : Action} : s.tallied host n act ↔
    ∀ b ∈ s.batched host act, Tallied n b.2.1 b.1 (b.2.2.map (·.entityId)) s.server.db := by
  cases act with
  | handle id env =>
    simp only [State.tallied, State.batched, State.handled]
    cases hw : s.waiting id with
    | none => simp
    | some w =>
      cases ha : accept s.cfg host w.credential w.route with
      | error e => simp [ha]
      | ok r =>
        obtain ⟨a, call⟩ := r
        cases call <;> simp [ha]
  | _ => simp [State.tallied, State.batched, State.handled]

instance (host : Host) (n : Nat) (s : State) (a : Action) : Decidable (s.tallied host n a) :=
  decidable_of_iff _ tallied_iff.symm

theorem within_act {host : Host} {s : State} {n : Nat} {bound : String → Nat}
    (hcfg : s.cfg.quotas.rows = some n)
    (hn : ∀ b, n ≤ bound b) {a : Action} (ht : s.tallied host n a) (h : Within bound s.server.db) :
    Within bound (s.act host a).server.db := by
  show Within bound (s.work host a s.server).state.db
  cases a with
  | arrive id req => exact h
  | handle id env =>
    rcases work_cases host s id env with ⟨w, b, call, hw, ha, hwork⟩ | ⟨-, hwork | ⟨e, hwork⟩⟩
    · rw [hwork, Prog.state_bind_pure]
      refine perform_within hcfg hn (fun app rows notify e => ?_) h
      subst e
      simpa only [State.tallied, hw, ha] using ht
    · rw [hwork]
      exact h
    · rw [hwork]
      exact h
  | drop id => exact h
  | admin authorization route env =>
    have hsteps : Relation.ReflTransGen AdminStep s.server.db
        (s.work host (.admin authorization route env) s.server).state.db :=
      (ignore_follows (handleAdmin_steps s.cfg host env authorization route)).state
        (P := fun _ => True) trivial
    refine Prog.reach_inv (fun db db' hs hd => ?_) hsteps h
    cases hs with
    | registry e =>
      exact within_of_rows (congrArg Db.syncRows e : db'.outsideRegistry.syncRows =
        db.outsideRegistry.syncRows) hd
    | delete a => exact fun b => (syncRowCount_without a b db).trans (hd b)
  | reclaim policy nowMs =>
    have hkeep := reclaimSweep_frame (π := syncTable) (syncTable_ignores (by decide))
      (syncTable_ignores (by decide))
      policy nowMs
    exact within_of_rows ((hkeep.bind fun _ => .pure ()) s.server).1 h
  | reap ttlMs nowMs =>
    have hkeep := reapUploadSessions_frame (π := syncTable) (syncTable_ignores (by decide))
      (syncTable_ignores (by decide))
      ttlMs nowMs
    exact within_of_rows ((hkeep.bind fun _ => .pure ()) s.server).1 h
  | close a sub => exact h
  | heartbeat a sub =>
    refine within_of_rows ?_ h
    show (s.server.heartbeat s.cfg a sub).db.syncRows = _
    rw [heartbeat_hub]

/-- **The row cap.** The check decides exactly when the batch is tallied; it
never rejects a batch of stored entities; and over a run of one process whose
batches are tallied no account's rows exceed the cap or, if that is more, what
the account had. -/
theorem row_cap_decides (n : Nat) :
    (∀ policy app a rows now db, CapDecides policy n app a rows now db ↔
      Tallied n app a (rows.map (·.entityId)) db) ∧
    (∀ policy app a entityIds db, newEntities app a entityIds db = ∅ →
      admitSyncBatch policy a app entityIds db = none) ∧
    ∀ (host : Host) (s : State) (as : List Action), s.cfg.quotas.rows = some n →
      AllSteps (State.act host) (State.tallied host n) s as →
      ∀ a, syncRowCount a (run (State.act host) s as).server.db ≤ max n
        (syncRowCount a s.server.db) := by
  refine ⟨fun policy app a rows now db => capDecides_iff policy n app a rows now db,
    fun policy app a entityIds db h => admit_stored h, fun host s as hcfg hs => ?_⟩
  let I : State → Prop := fun t => t.cfg.quotas.rows = some n ∧
    Within (fun b => max n (syncRowCount b s.server.db)) t.server.db
  have hstart : I s := ⟨hcfg, fun b => Nat.le_max_right _ _⟩
  have hstep : ∀ t act, t.tallied host n act → I t → I (t.act host act) := fun t act hok hI =>
    ⟨hI.1, within_act hI.1 (fun _ => Nat.le_max_left _ _) hok hI.2⟩
  exact (run_inv_of hstep as s hs hstart).2

/-- A live row of the sample app. -/
def sampleRow (e : String) : SyncRowInput := ⟨e, [], false, false, none⟩

/-- A store with the entity `a`, and a batch that names it 901 times before the
new entity `b`: the probe counts `a` in both slices, and with the cap at one
row the batch is admitted. -/
theorem row_cap_recount :
    ¬ CapDecides ⟨none, none, none, none⟩ 1 "dayglance" "house"
      (List.replicate 901 (sampleRow "a") ++ [sampleRow "b"]) (fun _ => "t")
      (Db.empty.writeRow "dayglance" "house" (sampleRow "a") "t") := by
  rw [capDecides_iff]
  decide +kernel

/-- A server with the given row cap. -/
def cappedConfig (n : Nat) : Config := { sampleConfig with quotas := ⟨none, some n, none, none⟩ }

/-- Two new rows, and a rewrite of the first, under a cap of one. -/
theorem row_cap_one :
    syncRowCount "house" (run (State.act sampleHost) (State.init (cappedConfig 1))
      (writeOne "a" ++ writeOne "b" ++ writeOne "a")).server.db ≤ 1 ∧
    admitSyncBatch (cappedConfig 1).quotas "house" "dayglance" ["a", "a"]
      (Db.empty.writeRow "dayglance" "house" (sampleRow "a") "t") = none :=
  ⟨(row_cap_decides 1).2.2 sampleHost (State.init (cappedConfig 1)) _ rfl
    (by decide +kernel) "house",
    (row_cap_decides 1).2.1 _ _ _ _ _ (by decide +kernel)⟩

end GlanceVault.L4
