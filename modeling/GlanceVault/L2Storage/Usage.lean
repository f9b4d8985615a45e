import GlanceVault.Core.Groups
import GlanceVault.L1Encoding.Js
import GlanceVault.L2Storage.Aggregates
import GlanceVault.L2Storage.Parts
/-!
# Usage (`storage/sqlite.ts`, the `UsageReporter` reads)

Each figure of an account is an aggregate of one table over the rows of the
account: directly, through the groups of its apps, or through the upload
session a part belongs to. The accounts are a union over seven tables.

* `usageForAccount_rows`, `usageForAccount_parts`: the loop over the apps adds
  up to the account's rows, and the report to its parts.
* `Db.Owned`: every staged part has its session, over every run.
* `usage_conserves`: over any accounts that include all of the database, the
  figures add up to those of the tables.
-/
namespace GlanceVault.L2
open GlanceVault.Core GlanceVault.L1

/-! ## The report of an account -/

/-- One group of the first statement. -/
structure AppRow where
  app : String
  bytes : Nat
  rows : Nat
  tombstones : Nat
  deriving DecidableEq

/-- The variables of the loop over the groups. -/
structure AppSums where
  envelopesByApp : List (String × Nat)
  envelopes : Nat
  rows : Nat
  tombstones : Nat
  deriving DecidableEq

structure StoredBytes where
  envelopesByApp : List (String × Nat)
  envelopes : Nat
  intents : Nat
  blobs : Nat
  total : Nat
  deriving DecidableEq

structure UsageCounts where
  rows : Nat
  liveRows : Nat
  tombstones : Nat
  blobs : Nat
  deriving DecidableEq

structure UploadUsage where
  sessions : Nat
  stagedBytes : Nat
  deriving DecidableEq

/-- `currentIntents` is `intents.current`.
mirrors src/storage/types.ts:474-499 (`AccountUsage`) -/
structure AccountUsage where
  accountId : String
  storedBytes : StoredBytes
  counts : UsageCounts
  currentIntents : Nat
  uploads : UploadUsage
  deriving DecidableEq

/-- The names in use among `names`, and the group of one of them.
mirrors src/storage/sqlite.ts:1061-1070 -/
def appRows (a : String) (db : Db) : List AppRow :=
  (distinct (· ≤ ·) ((db.syncRows.rows.filter fun r => decide (r.accountId = a)).map
    (·.app))).map fun app =>
    let group := fun r : SyncRow => decide (r.accountId = a) && decide (r.app = app)
    ⟨app, db.syncRows.total group (·.envelope.length), db.syncRows.count group,
      db.syncRows.total group fun r => r.deleted.toNat⟩

/-- mirrors src/storage/sqlite.ts:1076-1081 -/
def AppSums.add (t : AppSums) (r : AppRow) : AppSums :=
  ⟨Js.setProperty t.envelopesByApp r.app r.bytes, t.envelopes + r.bytes, t.rows + r.rows,
    t.tombstones + r.tombstones⟩

/-- mirrors src/storage/sqlite.ts:1057-1128 (`usageForAccount`) -/
def usageForAccount (a now : String) (db : Db) : AccountUsage :=
  let sums := (appRows a db).foldl AppSums.add ⟨[], 0, 0, 0⟩
  let intents := db.intentEvents.total (fun r => decide (r.accountId = a)) (·.envelope.length)
  let blobs := db.blobs.total (fun b => decide (b.accountId = a)) (·.size)
  { accountId := a
    storedBytes :=
      ⟨sums.envelopesByApp, sums.envelopes, intents, blobs, sums.envelopes + intents + blobs⟩
    counts := ⟨sums.rows, sums.rows - sums.tombstones, sums.tombstones,
      db.blobs.count fun b => decide (b.accountId = a)⟩
    currentIntents := intentCount a now db
    uploads := ⟨db.uploadSessions.count fun s => decide (s.accountId = a),
      db.uploadParts.total (fun p => db.ownsUpload a p.uploadId) (·.size)⟩ }

/-- mirrors src/storage/sqlite.ts:1131-1143 -/
def accountNames (db : Db) : List String :=
  distinct (· ≤ ·) (db.syncRows.rows.map (·.accountId) ++ db.intentEvents.rows.map (·.accountId) ++
    db.blobs.rows.map (·.accountId) ++ db.uploadSessions.rows.map (·.accountId) ++
    db.accountSalts.rows.map (·.accountId) ++ db.devices.rows.map (·.accountId) ++
    db.accountSeq.rows.map (·.accountId))

/-- `now` is the clock as each account's report reads it.
mirrors src/storage/sqlite.ts:1130-1147 (`listUsage`) -/
def listUsage (now : String → String) (db : Db) : List AccountUsage :=
  (accountNames db).map fun a => usageForAccount a (now a) db

/-! ## The loop over the apps -/

section Loop
variable {a now : String} {db : Db}

theorem foldl_add : ∀ (groups : List AppRow) (t : AppSums), groups.foldl AppSums.add t =
    ⟨(groups.map fun r => (r.app, r.bytes)).foldl
      (fun o p => Js.setProperty o p.1 p.2) t.envelopesByApp,
      t.envelopes + (groups.map (·.bytes)).sum, t.rows + (groups.map (·.rows)).sum,
      t.tombstones + (groups.map (·.tombstones)).sum⟩
  | [], t => by simp
  | r :: groups, t => by
    rw [List.foldl_cons, foldl_add groups]
    simp only [AppSums.add, List.map_cons, List.sum_cons, List.foldl_cons, Nat.add_assoc]

/-- The groups of an account's apps partition its rows. -/
theorem appRows_sum (a : String) (db : Db) (f : SyncRow → Nat) :
    ((distinct (· ≤ ·)
        ((db.syncRows.rows.filter fun r => decide (r.accountId = a)).map (·.app))).map fun app =>
      db.syncRows.total (fun r => decide (r.accountId = a) && decide (r.app = app)) f).sum
        = db.syncRows.total (fun r => decide (r.accountId = a)) f := by
  have hgroup :
      ∀ app, db.syncRows.total (fun r => decide (r.accountId = a) && decide (r.app = app)) f =
      (((db.syncRows.rows.filter fun r => decide (r.accountId = a)).filter fun r => decide
        (r.app = app)).map f).sum := by
    intro app
    unfold Table.total
    rw [List.filter_filter]
    simp only [Bool.and_comm]
  rw [List.map_congr_left fun app _ => hgroup app]
  refine sum_groups (nodup_distinct _ _) f fun r hr =>
    ⟨r.app, ?_, fun app => by simp only [eq_comm]⟩
  exact (mem_distinct _).2 (List.mem_map_of_mem hr)

theorem sums_eq : (appRows a db).foldl AppSums.add ⟨[], 0, 0, 0⟩ =
    ⟨((appRows a db).map fun r => (r.app, r.bytes)).foldl (fun o p => Js.setProperty o p.1 p.2) [],
      db.syncRows.total (fun r => decide (r.accountId = a)) (·.envelope.length),
      db.syncRows.count (fun r => decide (r.accountId = a)),
      db.syncRows.total (fun r => decide (r.accountId = a)) fun r => r.deleted.toNat⟩ := by
  have hbytes := appRows_sum a db (·.envelope.length)
  have hrows := appRows_sum a db fun _ => 1
  have htombstones := appRows_sum a db fun r => r.deleted.toNat
  simp only [← Table.count_eq_total] at hrows
  rw [foldl_add, ← hbytes, ← hrows, ← htombstones]
  simp only [appRows, List.map_map, Nat.zero_add, Function.comp_def]

/-- What the record of an account's apps cannot hold. -/
def unnamedBytes (a : String) (db : Db) : Nat :=
  db.syncRows.total (fun r => decide (r.accountId = a) && decide (r.app = "__proto__"))
    (·.envelope.length)

/-- The figures of a report are the sums of their parts. -/
structure AddsUp (db : Db) (u : AccountUsage) : Prop where
  apps : (u.storedBytes.envelopesByApp.map Prod.snd).sum + unnamedBytes u.accountId db =
    u.storedBytes.envelopes
  kinds : u.storedBytes.total =
    u.storedBytes.envelopes + u.storedBytes.intents + u.storedBytes.blobs
  rows : u.counts.rows = u.counts.liveRows + u.counts.tombstones

theorem record_sum : ((((appRows a db).map fun r => (r.app, r.bytes)).foldl
    (fun o p => Js.setProperty o p.1 p.2) []).map Prod.snd).sum + unnamedBytes a db =
      db.syncRows.total (fun r => decide (r.accountId = a)) (·.envelope.length) := by
  have hnames : ((appRows a db).map fun r => (r.app, r.bytes)).map Prod.fst =
      distinct (· ≤ ·)
        ((db.syncRows.rows.filter fun r => decide (r.accountId = a)).map (·.app)) := by
    unfold appRows
    rw [List.map_map, List.map_map]
    exact List.map_id' _
  have hall := Js.sum_setProperty ((appRows a db).map fun r => (r.app, r.bytes)) []
    (hnames ▸ nodup_distinct _ _) fun _ _ => List.not_mem_nil
  have hbytes := appRows_sum a db (·.envelope.length)
  have hmissing := appRows_sum a db fun r => if r.app = "__proto__" then r.envelope.length else 0
  have hunnamed :
      ∀ p, db.syncRows.total p (fun r => if r.app = "__proto__" then r.envelope.length else 0) =
      db.syncRows.total (fun r => p r && decide (r.app = "__proto__")) (·.envelope.length) := by
    intro p
    rw [← Table.total_ite]
    simp only [decide_eq_true_eq]
  have hgroup : ∀ app, db.syncRows.total (fun r => decide (r.accountId = a) && decide (r.app = app))
      (fun r => if r.app = "__proto__" then r.envelope.length else 0) =
        if app = "__proto__" then
          db.syncRows.total (fun r => decide (r.accountId = a) && decide (r.app = app))
            (·.envelope.length)
        else 0 := by
    intro app
    rw [hunnamed]
    split
    · rename_i happ
      simp only [happ, Bool.and_assoc, Bool.and_self]
    · rename_i happ
      have hnone : ∀ r ∈ db.syncRows.rows, ¬ ((decide (r.accountId = a) && decide (r.app = app)) &&
          decide (r.app = "__proto__")) = true := by
        intro r _ h
        simp only [Bool.and_eq_true, decide_eq_true_eq] at h
        exact happ (h.1.2.symm.trans h.2)
      unfold Table.total
      rw [List.filter_eq_nil_iff.2 hnone]
      rfl
  rw [List.map_congr_left fun app _ => hgroup app, hunnamed] at hmissing
  unfold unnamedBytes
  rw [← hmissing, ← hbytes]
  simpa only [appRows, List.map_map, Function.comp_def, List.map_nil, List.sum_nil,
    Nat.zero_add] using hall

theorem usageForAccount_addsUp : AddsUp db (usageForAccount a now db) where
  apps := by
    simp only [usageForAccount, sums_eq]
    exact record_sum
  kinds := rfl
  rows := by
    have hle : db.syncRows.total (fun r => decide (r.accountId = a)) (fun r => r.deleted.toNat) ≤
        db.syncRows.count fun r => decide (r.accountId = a) := by
      rw [Table.count_eq_total]
      exact List.sum_le_sum fun r _ => Bool.toNat_le r.deleted
    simp only [usageForAccount, sums_eq]
    omega

end Loop

/-! ## Every part has its session -/

def Db.Owned (db : Db) : Prop :=
  ∀ p ∈ db.uploadParts.rows, ∃ s, db.uploadSessions.find p.uploadId = some s

theorem owned_dropSessions {db : Db} (h : db.Owned) (p : UploadSession → Bool) :
    (db.dropSessions p).Owned := by
  intro r hr
  obtain ⟨hr, hp⟩ := mem_dropSessions_parts.1 hr
  obtain ⟨s, hs⟩ := h r hr
  refine ⟨s, ?_⟩
  rw [find_dropSessions, hs, Option.filter, if_pos (by rw [hp s hs]; rfl)]

theorem owned_without {db : Db} (h : db.Owned) (a : String) : (db.without a).Owned := by
  intro r hr
  obtain ⟨hr, hp⟩ := Table.mem_keep.1 hr
  obtain ⟨s, hs⟩ := h r hr
  have hother : s.accountId ≠ a := fun e => by
    rw [Db.ownsUpload_iff.2 ⟨s, hs, e⟩] at hp
    cases hp
  refine ⟨s, ?_⟩
  show (db.uploadSessions.keep fun s => !decide (s.accountId = a)).find r.uploadId = some s
  rw [Table.find_keep, hs, Option.filter, if_pos (by simpa using hother)]

theorem owned_step (o : StoreOp) : o.tx.Moves fun db db' => db.Owned → db'.Owned := by
  have hvoid : ∀ {α : Type} {m : DbTx α}, m.Moves (fun db db' => db.Owned → db'.Owned) →
      m.void.Moves fun db db' =>
        db.Owned → db'.Owned := Tx.Moves.void (fun _ => id) fun h h' hx => h' (h hx)
  have hkeep : o.tx.Keeps (fun db => (db.uploadSessions, db.uploadParts)) →
      o.tx.Moves fun db db' => db.Owned → db'.Owned := by
    intro hk db u db' e h
    have hsame : (db'.uploadSessions, db'.uploadParts) = (db.uploadSessions, db.uploadParts) :=
      hk db u db' e
    obtain ⟨hsessions, hparts⟩ := Prod.mk.inj hsame
    unfold Db.Owned
    rw [hsessions, hparts]
    exact h
  cases o with
  | createUploadSession a u h n now =>
    refine hvoid fun db r db' e ho => ?_
    rw [createUploadSession_eval] at e
    split at e <;> cases e
    intro p hp
    obtain ⟨s, hs⟩ := ho p hp
    show ∃ s, (db.uploadSessions.upsert _).find p.uploadId = some s
    rw [Table.find_upsert]
    split
    · exact ⟨_, rfl⟩
    · exact ⟨s, hs⟩
  | recordUploadPart a u i n now =>
    refine hvoid fun db r db' e ho => ?_
    rw [recordUploadPart, Tx.eval_write] at e
    cases e
    split
    · rename_i hown
      intro p hp
      rcases Table.mem_upsert.1 hp with rfl | ⟨hp, -⟩
      · obtain ⟨s, hs, -⟩ := Db.ownsUpload_iff.1 hown
        exact ⟨s, hs⟩
      · exact ho p hp
    · exact ho
  | deleteUploadSessionFor a u =>
    refine hvoid fun db r db' e ho => ?_
    rw [L2.deleteUploadSessionFor, Tx.eval_write] at e
    cases e
    exact owned_dropSessions ho _
  | deleteUploadSession u =>
    refine hvoid fun db r db' e ho => ?_
    rw [L2.deleteUploadSession, Tx.eval_write] at e
    cases e
    exact owned_dropSessions ho _
  | deleteAccount a =>
    refine hvoid fun db r db' e ho => ?_
    rw [deleteAccount_eval] at e
    split at e <;> cases e
    · exact ho
    · exact owned_without ho a
  | _ => exact hkeep (StoreOp.keeps _ fun _ => rfl)

theorem owned_run (ops : List (StoreOp × Fault)) : (runOps .empty ops).Owned :=
  run_inv (fun db o h => (owned_step o.1).commit (fun _ => id) o.2 db h) ops .empty nofun

/-! ## The accounts -/

/-- The account has a row in a data table. -/
def Db.Footprint (db : Db) (a : String) : Prop :=
  (∃ r ∈ db.syncRows.rows, r.accountId = a) ∨ (∃ r ∈ db.intentEvents.rows, r.accountId = a) ∨
    (∃ r ∈ db.blobs.rows, r.accountId = a) ∨ (∃ r ∈ db.uploadSessions.rows, r.accountId = a) ∨
    (∃ r ∈ db.accountSalts.rows, r.accountId = a) ∨ (∃ r ∈ db.devices.rows, r.accountId = a) ∨
    ∃ r ∈ db.accountSeq.rows, r.accountId = a

theorem mem_accountNames {a : String} {db : Db} : a ∈ accountNames db ↔ db.Footprint a := by
  unfold accountNames Db.Footprint
  simp only [mem_distinct, List.mem_append, List.mem_map, or_assoc]

theorem listUsage_names (now : String → String) (db : Db) :
    (listUsage now db).map (·.accountId) = accountNames db := by
  unfold listUsage
  rw [List.map_map]
  exact List.map_id' _

/-- The report of an account without data. -/
def AccountUsage.zero (a : String) : AccountUsage := ⟨a, ⟨[], 0, 0, 0, 0⟩, ⟨0, 0, 0, 0⟩, 0, ⟨0, 0⟩⟩

theorem usage_zero {a now : String} {db : Db} (h : ¬ db.Footprint a) :
    usageForAccount a now db = .zero a := by
  simp only [Db.Footprint, not_or, not_exists, not_and] at h
  obtain ⟨hrows, hintents, hblobs, hsessions, -⟩ := h
  have hnone : ∀ {α : Type} {l : List α} {acct : α → String}, (∀ r ∈ l, acct r ≠ a) →
      (l.filter fun r => decide (acct r = a)) = [] :=
        fun h => List.filter_eq_nil_iff.2 fun r hr => by simpa using h r hr
  have happs : appRows a db = [] := by
    unfold appRows
    rw [hnone hrows]
    rfl
  have hcurrent : intentCount a now db = 0 := by
    unfold intentCount Table.count
    rw [List.length_eq_zero_iff, List.filter_eq_nil_iff]
    intro r hr
    simp [hintents r hr]
  have hparts : (db.uploadParts.rows.filter fun p => db.ownsUpload a p.uploadId) = [] := by
    refine List.filter_eq_nil_iff.2 fun p _ hown => ?_
    obtain ⟨s, hs, ha⟩ := Db.ownsUpload_iff.1 hown
    exact hsessions s (Table.find_mem hs) ha
  unfold usageForAccount Table.total Table.count
  rw [happs, hcurrent, hparts, hnone hintents, hnone hblobs, hnone hsessions]
  rfl

/-! ## Conservation -/

/-- The reports `us` account for everything in the tables. -/
structure Conserves (db : Db) (us : List AccountUsage) : Prop where
  envelopes : (us.map (·.storedBytes.envelopes)).sum =
    (db.syncRows.rows.map (·.envelope.length)).sum
  intents : (us.map (·.storedBytes.intents)).sum =
    (db.intentEvents.rows.map (·.envelope.length)).sum
  blobBytes : (us.map (·.storedBytes.blobs)).sum = (db.blobs.rows.map (·.size)).sum
  rows : (us.map (·.counts.rows)).sum = db.syncRows.rows.length
  tombstones : (us.map (·.counts.tombstones)).sum = (db.syncRows.rows.filter (·.deleted)).length
  blobs : (us.map (·.counts.blobs)).sum = db.blobs.rows.length
  sessions : (us.map (·.uploads.sessions)).sum = db.uploadSessions.rows.length
  stagedBytes : (us.map (·.uploads.stagedBytes)).sum = (db.uploadParts.rows.map (·.size)).sum

theorem usage_conserves {db : Db} (ho : db.Owned) {names : List String} (hn : names.Nodup)
    (hall : ∀ a, db.Footprint a → a ∈ names) (now : String → String) :
    Conserves db (names.map fun a => usageForAccount a (now a) db) := by
  have hown : ∀ {α : Type} (acct : α → String) {r : α}, acct r ∈ names →
      ∃ a ∈ names, ∀ b, decide (acct r = b) = decide (b = a) := fun acct r h =>
        ⟨acct r, h, fun b => by simp only [eq_comm]⟩
  have hrow : ∀ r ∈ db.syncRows.rows, r.accountId ∈ names := fun r hr => hall _ (.inl ⟨r, hr, rfl⟩)
  have hintent : ∀ r ∈ db.intentEvents.rows, r.accountId ∈ names :=
    fun r hr => hall _ (.inr (.inl ⟨r, hr, rfl⟩))
  have hblob : ∀ r ∈ db.blobs.rows, r.accountId ∈ names :=
    fun r hr => hall _ (.inr (.inr (.inl ⟨r, hr, rfl⟩)))
  have hsession : ∀ s ∈ db.uploadSessions.rows, s.accountId ∈ names :=
    fun s hs => hall _ (.inr (.inr (.inr (.inl ⟨s, hs, rfl⟩))))
  constructor <;> simp only [List.map_map, Function.comp_def, usageForAccount, sums_eq]
  case envelopes => exact Table.total_groups hn (fun r hr => hown _ (hrow r hr)) _
  case intents => exact Table.total_groups hn (fun r hr => hown _ (hintent r hr)) _
  case blobBytes => exact Table.total_groups hn (fun r hr => hown _ (hblob r hr)) _
  case rows => exact Table.count_groups hn fun r hr => hown _ (hrow r hr)
  case tombstones =>
    rw [Table.total_groups hn fun r hr => hown _ (hrow r hr)]
    exact sum_toNat _ _
  case blobs => exact Table.count_groups hn fun r hr => hown _ (hblob r hr)
  case sessions => exact Table.count_groups hn fun s hs => hown _ (hsession s hs)
  case stagedBytes =>
    refine Table.total_groups hn (fun p hp => ?_) _
    obtain ⟨s, hs⟩ := ho p hp
    refine ⟨s.accountId, hsession s (Table.find_mem hs), fun b => ?_⟩
    unfold Db.ownsUpload
    rw [hs, Option.any_some]
    simp only [eq_comm]

/-- Unless a batch was written to it, no bytes are in the app the record
cannot name. -/
theorem unnamedBytes_run {ops : List (StoreOp × Fault)}
    (h : ∀ o ∈ ops, ∀ app a rows now, o.1 = .batchUpsert app a rows now → app ≠ "__proto__")
    (a : String) :
    unnamedBytes a (runOps .empty ops) = 0 := by
  have hstep : ∀ (db : Db) (o : StoreOp × Fault),
      (∀ app a rows now, o.1 = .batchUpsert app a rows now → app ≠ "__proto__") →
        (∀ r ∈ db.syncRows.rows, r.app ≠ "__proto__") →
        ∀ r ∈ (StoreOp.commit o db).2.syncRows.rows, r.app ≠ "__proto__" :=
    fun db o ho hdb =>
      (rows_all (fun app a rows now e row _ _ _ => ho app a rows now e) fun _ hr _ _ _ => hr).commit
      (fun _ => id) o.2 db hdb
  have happs := run_inv_of hstep ops .empty (allSteps_mem ops _ fun o ho _ => h o ho) nofun
  unfold unnamedBytes Table.total
  rw [List.filter_eq_nil_iff.2 fun r hr => by simp [happs r hr]]
  rfl

end GlanceVault.L2
