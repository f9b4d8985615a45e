import GlanceVault.L2Storage.Usage
import GlanceVault.L3Http.HubRegistry
/-!
# The usage report (`routes/admin.ts`, `GET /usage`)

The operator's report: an entry for every account with data, one for every
account that has only a connection, and the totals over the entries.

* `mem_reportNames`: whose entries there are.
* `sum_connections`: the connections of the entries are all of the hub's.
* `Accounts`: the totals of a report are those of the database and the hub.
* `report_offline`: without streams it is the same but for the connections.
* `usage_report`: at every state of the store and the hub.
-/
namespace GlanceVault.L3
open GlanceVault.Core GlanceVault.L1 GlanceVault.L2

/-! ## The route -/

structure ConnectionCount where
  accountId : String
  connections : Nat
  deriving DecidableEq

/-- mirrors src/realtime/hub.ts:208-212 (`connectionCounts`) -/
def Hub.connectionCounts (hub : Hub) : List ConnectionCount :=
  (hub.byAccount.rows.map fun r => ⟨r.1, r.2.length⟩).insertionSort fun x y =>
    Js.le16 x.accountId y.accountId

/-- `{ ...u, sse: { connections } }` -/
structure AccountEntry where
  usage : AccountUsage
  connections : Nat
  deriving DecidableEq

structure UsageTotals where
  storedBytes : Nat
  blobBytes : Nat
  envelopeBytes : Nat
  rows : Nat
  blobs : Nat
  uploadSessions : Nat
  stagedBytes : Nat
  sseConnections : Nat
  deriving DecidableEq

structure UsageReport where
  accounts : List AccountEntry
  totals : UsageTotals
  deriving DecidableEq

/-- mirrors src/routes/admin.ts:160-169 -/
def UsageTotals.add (t : UsageTotals) (e : AccountEntry) : UsageTotals where
  storedBytes := t.storedBytes + e.usage.storedBytes.total
  blobBytes := t.blobBytes + e.usage.storedBytes.blobs
  envelopeBytes := t.envelopeBytes + e.usage.storedBytes.envelopes + e.usage.storedBytes.intents
  rows := t.rows + e.usage.counts.rows
  blobs := t.blobs + e.usage.counts.blobs
  uploadSessions := t.uploadSessions + e.usage.uploads.sessions
  stagedBytes := t.stagedBytes + e.usage.uploads.stagedBytes
  sseConnections := t.sseConnections + e.connections

/-- `new Map(sseCounts().map(..))`. mirrors src/routes/admin.ts:144 -/
def Hub.sse (hub : Hub) : Table ConnectionCount.accountId :=
  hub.connectionCounts.foldl .upsert .empty

/-- The accounts with data, and after them those with a connection alone.
mirrors src/routes/admin.ts:147-152 -/
def byAccount (now : String → String) (db : Db) (hub : Hub) : Table AccountUsage.accountId :=
  hub.sse.rows.foldl (fun t c => if t.has c.accountId then t else t.upsert
    (usageForAccount c.accountId (now c.accountId) db))
    ((listUsage now db).foldl .upsert .empty)

/-- `now` is the clock as each account's statements read it.
mirrors src/routes/admin.ts:142-182 (`GET /usage`) -/
def adminUsage (now : String → String) (db : Db) (hub : Hub) : UsageReport :=
  let accounts :=
    (((byAccount now db hub).rows.map (·.accountId)).insertionSort Js.le16).filterMap fun a =>
    ((byAccount now db hub).find a).map fun u =>
      (⟨u, ((hub.sse.find a).map (·.connections)).getD 0⟩ : AccountEntry)
  ⟨accounts, accounts.foldl .add ⟨0, 0, 0, 0, 0, 0, 0, 0⟩⟩

/-! ## The entries -/

section Entries
variable {now : String → String} {db : Db} {hub : Hub}

theorem rows_sse : hub.sse.rows = hub.connectionCounts := by
  have hkeys : (hub.connectionCounts.map (·.accountId)).Nodup := by
    have hperm : hub.connectionCounts.Perm (hub.byAccount.rows.map fun r => ⟨r.1, r.2.length⟩) :=
      List.perm_insertionSort _ _
    rw [(hperm.map _).nodup_iff, List.map_map]
    exact hub.byAccount.unique
  unfold Hub.sse
  rw [Table.rows_foldl_upsert _ _ hkeys fun _ _ => rfl, Table.rows_empty, List.nil_append]

/-- The connections of an account, as the report looks them up. -/
theorem connections_eq (a : String) :
    ((hub.sse.find a).map (·.connections)).getD 0 = (hub.set a).length := by
  have hmem : ∀ {c : ConnectionCount}, c ∈ hub.sse.rows ↔
      ∃ r ∈ hub.byAccount.rows, ⟨r.1, r.2.length⟩ = c := by
    intro c
    rw [rows_sse, Hub.connectionCounts, List.mem_insertionSort, List.mem_map]
  cases hf : hub.byAccount.find a with
  | none =>
    have hnone : hub.sse.find a = none := by
      refine Table.find_none.2 fun c hc => ?_
      obtain ⟨r, hr, rfl⟩ := hmem.1 hc
      exact Table.find_none.1 hf r hr
    unfold Hub.set
    rw [hnone, hf]
    rfl
  | some r =>
    obtain ⟨hr, hk⟩ := Table.find_some.1 hf
    have hsome : hub.sse.find a = some ⟨r.1, r.2.length⟩ :=
      Table.find_some.2 ⟨hmem.2 ⟨r, hr, rfl⟩, hk⟩
    unfold Hub.set
    rw [hsome, hf]
    rfl

theorem mem_sse {a : String} :
    a ∈ hub.sse.rows.map (·.accountId) ↔ ∃ r ∈ hub.byAccount.rows, r.1 = a := by
  rw [rows_sse, Hub.connectionCounts]
  simp only [List.mem_map, List.mem_insertionSort, exists_exists_and_eq_and]

/-- The accounts of the report, before they are sorted. -/
def reportNames (db : Db) (hub : Hub) : List String :=
  accountNames db ++ (hub.sse.rows.map (·.accountId)).filter fun a => !decide (a ∈ accountNames db)

/-- The second loop adds the accounts that have no report yet. -/
theorem rows_merge : ∀ (cs : List ConnectionCount) (names : List String)
    (t : Table AccountUsage.accountId),
    (cs.map (·.accountId)).Nodup → t.rows = names.map (fun a => usageForAccount a (now a) db) →
      (cs.foldl (fun t c => if t.has c.accountId then t else
        t.upsert (usageForAccount c.accountId (now c.accountId) db)) t).rows =
          (names ++ (cs.map (·.accountId)).filter fun a => !decide (a ∈ names)).map fun a =>
            usageForAccount a (now a) db
  | [], names, t, _, ht => by simpa using ht
  | c :: cs, names, t, hn, ht => by
    rw [List.map_cons, List.nodup_cons] at hn
    have hhas : t.has c.accountId = decide (c.accountId ∈ names) := by
      rw [Bool.eq_iff_iff, Table.has_iff, decide_eq_true_eq, ht]
      simp only [List.mem_map, exists_exists_and_eq_and]
      constructor
      · rintro ⟨a, ha, e⟩
        exact e ▸ ha
      · intro h
        exact ⟨_, h, rfl⟩
    rw [List.foldl_cons, List.map_cons]
    by_cases hc : c.accountId ∈ names
    · rw [hhas, decide_eq_true hc, if_pos rfl, rows_merge cs names t hn.2 ht,
        List.filter_cons_of_neg (by simpa using hc)]
    · have hrows : (t.upsert (usageForAccount c.accountId (now c.accountId) db)).rows =
          (names ++ [c.accountId]).map fun a => usageForAccount a (now a) db := by
        have hnew : t.has (usageForAccount c.accountId (now c.accountId) db).accountId = false := by
          rw [← decide_eq_false hc]
          exact hhas
        rw [Table.rows_upsert, hnew, if_neg Bool.false_ne_true, ht, List.map_append]
        rfl
      have hfilter : ((cs.map (·.accountId)).filter fun a => !decide (a ∈ names ++ [c.accountId])) =
          (cs.map (·.accountId)).filter fun a => !decide (a ∈ names) := by
        refine List.filter_congr fun a ha => ?_
        have hne : a ≠ c.accountId := fun e => hn.1 (e ▸ ha)
        simp [hne]
      rw [hhas, decide_eq_false hc, if_neg Bool.false_ne_true,
        rows_merge cs _ _ hn.2 hrows, hfilter,
        List.filter_cons_of_pos (by simpa using hc), List.append_assoc, List.singleton_append]

theorem rows_byAccount : (byAccount now db hub).rows = (reportNames db hub).map fun a =>
    usageForAccount a (now a) db := by
  have hlisted :
      ((listUsage now db).foldl Table.upsert (.empty : Table AccountUsage.accountId)).rows =
      (accountNames db).map fun a => usageForAccount a (now a) db := by
    rw [Table.rows_foldl_upsert _ _
      (by rw [listUsage_names]; exact nodup_distinct _ _) fun _ _ => rfl]
    rfl
  exact rows_merge _ _ _ hub.sse.unique hlisted

theorem byAccount_names (now : String → String) (db : Db) (hub : Hub) :
    (byAccount now db hub).rows.map (·.accountId) = reportNames db hub := by
  rw [rows_byAccount, List.map_map]
  exact List.map_id' _

theorem nodup_reportNames : (reportNames db hub).Nodup :=
  byAccount_names (fun _ => "") db hub ▸ (byAccount (fun _ => "") db hub).unique

/-- **There is an entry for every account with data or a connection.** -/
theorem mem_reportNames {a : String} :
    a ∈ reportNames db hub ↔ db.Footprint a ∨ ∃ r ∈ hub.byAccount.rows, r.1 = a := by
  unfold reportNames
  rw [List.mem_append, mem_accountNames, List.mem_filter, mem_sse]
  simp only [Bool.not_eq_true', decide_eq_false_iff_not, mem_accountNames]
  by_cases h : db.Footprint a
  · simp [h]
  · simp [h]

def entry (now : String → String) (db : Db) (hub : Hub) (a : String) : AccountEntry :=
  ⟨usageForAccount a (now a) db, (hub.set a).length⟩

theorem accounts_eq :
    (adminUsage now db hub).accounts = ((reportNames db hub).insertionSort Js.le16).map
    (entry now db hub) := by
  unfold adminUsage
  rw [byAccount_names]
  have hfind : ∀ a ∈ (reportNames db hub).insertionSort Js.le16, (byAccount now db hub).find a =
      some (usageForAccount a (now a) db) := by
    intro a ha
    rw [List.mem_insertionSort] at ha
    refine Table.find_some.2 ⟨?_, rfl⟩
    rw [rows_byAccount]
    exact List.mem_map_of_mem ha
  rw [← List.filterMap_eq_map]
  refine List.filterMap_congr fun a ha => ?_
  rw [hfind a ha, connections_eq]
  rfl

end Entries

/-! ## The totals -/

/-- The report accounts for the database and the hub. -/
structure Accounts (db : Db) (hub : Hub) (r : UsageReport) : Prop where
  storedBytes : r.totals.storedBytes = (db.syncRows.rows.map (·.envelope.length)).sum +
    (db.intentEvents.rows.map (·.envelope.length)).sum + (db.blobs.rows.map (·.size)).sum
  blobBytes : r.totals.blobBytes = (db.blobs.rows.map (·.size)).sum
  envelopeBytes : r.totals.envelopeBytes = (db.syncRows.rows.map (·.envelope.length)).sum +
    (db.intentEvents.rows.map (·.envelope.length)).sum
  rows : r.totals.rows = db.syncRows.rows.length
  liveRows : (r.accounts.map (·.usage.counts.liveRows)).sum +
    (r.accounts.map (·.usage.counts.tombstones)).sum =
    db.syncRows.rows.length
  blobs : r.totals.blobs = db.blobs.rows.length
  uploadSessions : r.totals.uploadSessions = db.uploadSessions.rows.length
  stagedBytes : r.totals.stagedBytes = (db.uploadParts.rows.map (·.size)).sum
  sseConnections : r.totals.sseConnections = hub.total

section Totals
variable {now : String → String} {db : Db} {hub : Hub}

theorem foldl_totals : ∀ (es : List AccountEntry) (t : UsageTotals), es.foldl .add t =
    ⟨t.storedBytes + (es.map (·.usage.storedBytes.total)).sum,
      t.blobBytes + (es.map (·.usage.storedBytes.blobs)).sum,
      t.envelopeBytes + ((es.map (·.usage.storedBytes.envelopes)).sum +
        (es.map (·.usage.storedBytes.intents)).sum),
      t.rows + (es.map (·.usage.counts.rows)).sum,
      t.blobs + (es.map (·.usage.counts.blobs)).sum,
      t.uploadSessions + (es.map (·.usage.uploads.sessions)).sum,
      t.stagedBytes + (es.map (·.usage.uploads.stagedBytes)).sum,
      t.sseConnections + (es.map (·.connections)).sum⟩
  | [], t => by simp
  | e :: es, t => by
    rw [List.foldl_cons, foldl_totals es]
    simp only [UsageTotals.add, List.map_cons, List.sum_cons, UsageTotals.mk.injEq]
    omega

/-- **The connections of the entries are all of the hub's.** -/
theorem sum_connections (hcount : hub.Counted) {names : List String} (hn : names.Nodup)
    (hall : ∀ r ∈ hub.byAccount.rows, r.1 ∈ names) :
    (names.map fun a => (hub.set a).length).sum = hub.total := by
  have hset : ∀ a, (hub.set a).length =
      hub.byAccount.total (fun r => decide (r.1 = a)) fun r => r.2.length := by
    intro a
    unfold Table.total
    rw [Table.filter_key, Hub.set]
    cases hub.byAccount.find a with
    | none => rfl
    | some r => exact (Nat.add_zero _).symm
  rw [hcount.total, List.map_congr_left fun a _ => hset a, Table.total_groups hn]
  · unfold Table.total
    rw [List.filter_eq_self.2 fun _ _ => rfl]
  · exact fun r hr => ⟨r.1, hall r hr, fun b => by simp only [eq_comm]⟩

/-- The totals of a report are the database's, and the connections of its entries. -/
theorem report_totals (ho : db.Owned) : (adminUsage now db hub).totals =
    ⟨(db.syncRows.rows.map (·.envelope.length)).sum +
      (db.intentEvents.rows.map (·.envelope.length)).sum +
        (db.blobs.rows.map (·.size)).sum,
      (db.blobs.rows.map (·.size)).sum,
      (db.syncRows.rows.map (·.envelope.length)).sum +
    (db.intentEvents.rows.map (·.envelope.length)).sum,
      db.syncRows.rows.length, db.blobs.rows.length, db.uploadSessions.rows.length,
      (db.uploadParts.rows.map (·.size)).sum,
    ((adminUsage now db hub).accounts.map (·.connections)).sum⟩ := by
  have hn : ((reportNames db hub).insertionSort Js.le16).Nodup :=
    (List.perm_insertionSort _ _).nodup_iff.2 nodup_reportNames
  have hdb :=
    usage_conserves ho hn (fun a ha => (List.mem_insertionSort _).2
      (mem_reportNames.2 (.inl ha))) now
  have htotals : (adminUsage now db hub).totals =
      (adminUsage now db hub).accounts.foldl .add ⟨0, 0, 0, 0, 0, 0, 0, 0⟩ :=
    rfl
  obtain ⟨henvelopes, hintents, hbytes, hrows, -, hblobs, hsessions, hstaged⟩ := hdb
  simp only [List.map_map,
    Function.comp_def] at henvelopes hintents hbytes hrows hblobs hsessions hstaged
  have hkinds : ∀ a ∈ (reportNames db hub).insertionSort Js.le16,
      (usageForAccount a (now a) db).storedBytes.total =
      (usageForAccount a (now a) db).storedBytes.envelopes +
        (usageForAccount a (now a) db).storedBytes.intents +
        (usageForAccount a (now a) db).storedBytes.blobs := fun a _ => usageForAccount_addsUp.kinds
  have hstored := congrArg List.sum (List.map_congr_left hkinds)
  rw [List.sum_map_add, List.sum_map_add, henvelopes, hintents, hbytes] at hstored
  simp only [htotals, foldl_totals, accounts_eq, List.map_map, Function.comp_def, entry,
    Nat.zero_add, hstored,
    henvelopes, hintents, hbytes, hrows, hblobs, hsessions, hstaged]

theorem report_accounts (ho : db.Owned) (hcount : hub.Counted) :
    Accounts db hub (adminUsage now db hub) := by
  have hn : ((reportNames db hub).insertionSort Js.le16).Nodup :=
    (List.perm_insertionSort _ _).nodup_iff.2 nodup_reportNames
  have hall : ∀ a, db.Footprint a ∨ (∃ r ∈ hub.byAccount.rows, r.1 = a) →
      a ∈ (reportNames db hub).insertionSort Js.le16 := by
    intro a ha
    rw [List.mem_insertionSort]
    exact mem_reportNames.2 ha
  have hhub := sum_connections hcount hn fun r hr => hall r.1 (.inr ⟨r, hr, rfl⟩)
  have hrows := (usage_conserves ho hn (fun a ha => hall a (.inl ha)) now).rows
  constructor <;> try rw [report_totals ho]
  case liveRows =>
    have hlive : ∀ a ∈ (reportNames db hub).insertionSort Js.le16,
        (usageForAccount a (now a) db).counts.rows =
        (usageForAccount a (now a) db).counts.liveRows +
          (usageForAccount a (now a) db).counts.tombstones :=
      fun a _ => usageForAccount_addsUp.rows
    simp only [List.map_map, Function.comp_def] at hrows
    simp only [accounts_eq, List.map_map, Function.comp_def, entry]
    rw [← List.sum_map_add, ← List.map_congr_left hlive]
    exact hrows
  case sseConnections =>
    simp only [accounts_eq, List.map_map, Function.comp_def, entry]
    exact hhub

/-- A report without its connections: there is no entry for an account that has
nothing but a connection. -/
def UsageReport.offline (db : Db) (r : UsageReport) : UsageReport :=
  ⟨(r.accounts.filter fun e => decide (e.usage.accountId ∈ accountNames db)).map
      fun e => { e with connections := 0 },
    { r.totals with sseConnections := 0 }⟩

/-- The accounts with data come in one order, whoever is connected. -/
theorem sorted_names (db : Db) (hub : Hub) :
    ((reportNames db hub).insertionSort Js.le16).filter (fun a => decide (a ∈ accountNames db)) =
      (accountNames db).insertionSort Js.le16 := by
  have hnames : (reportNames db hub).filter (fun a => decide (a ∈ accountNames db)) =
      accountNames db := by
    unfold reportNames
    rw [List.filter_append, List.filter_eq_self.2 fun a ha => decide_eq_true ha, List.filter_filter,
      List.filter_eq_nil_iff.2 fun a _ => by simp, List.append_nil]
  have hperm := (List.perm_insertionSort Js.le16 (reportNames db hub)).filter fun a => decide
    (a ∈ accountNames db)
  rw [hnames] at hperm
  exact (hperm.trans (List.perm_insertionSort Js.le16 (accountNames db)).symm).eq_of_pairwise'
    ((List.pairwise_insertionSort Js.le16 _).filter _) (List.pairwise_insertionSort Js.le16 _)

/-- **A report of a process without streams** is one without its connections. -/
theorem report_offline (ho : db.Owned) :
    adminUsage now db .empty = (adminUsage now db hub).offline db := by
  have hnone : reportNames db .empty = accountNames db := List.append_nil _
  have haccounts : (adminUsage now db .empty).accounts =
      ((adminUsage now db hub).offline db).accounts := by
    unfold UsageReport.offline
    rw [accounts_eq, accounts_eq, hnone, List.filter_map, List.map_map, ← sorted_names db hub]
    rfl
  have hzero : ((adminUsage now db .empty).accounts.map (·.connections)).sum = 0 := by
    rw [accounts_eq, List.map_map]
    exact List.sum_eq_zero fun n hn => by
      obtain ⟨a, -, rfl⟩ := List.mem_map.1 hn
      rfl
  have htotals : (adminUsage now db .empty).totals =
      ((adminUsage now db hub).offline db).totals := by
    show _ = { (adminUsage now db hub).totals with sseConnections := 0 }
    rw [report_totals ho, report_totals ho, hzero]
  exact UsageReport.mk.injEq .. |>.mpr ⟨haccounts, htotals⟩

/-- A report tells every account with data or a connection once, and truly. -/
structure UsageReport.Faithful (db : Db) (hub : Hub) (r : UsageReport) : Prop where
  accounts : Accounts db hub r
  once : (r.accounts.map (·.usage.accountId)).Nodup
  named : ∀ a, a ∈ r.accounts.map (·.usage.accountId) ↔ db.Footprint a ∨ hub.set a ≠ []
  addsUp : ∀ e ∈ r.accounts, AddsUp db e.usage
  connections : ∀ e ∈ r.accounts, e.connections = (hub.set e.usage.accountId).length
  idle : ∀ e ∈ r.accounts, ¬ db.Footprint e.usage.accountId → e.usage = .zero e.usage.accountId

theorem report_faithful (ho : db.Owned) (hcount : hub.Counted)
    (hne : ∀ r ∈ hub.byAccount.rows, r.2 ≠ []) :
    (adminUsage now db hub).Faithful db hub := by
  have hnames : (adminUsage now db hub).accounts.map (·.usage.accountId) =
      (reportNames db hub).insertionSort Js.le16 := by
    rw [accounts_eq, List.map_map]
    exact List.map_id' _
  have hentry : ∀ e ∈ (adminUsage now db hub).accounts, ∃ a, e = entry now db hub a := by
    intro e he
    rw [accounts_eq] at he
    obtain ⟨a, -, rfl⟩ := List.mem_map.1 he
    exact ⟨a, rfl⟩
  have hconnected : ∀ a, (∃ r ∈ hub.byAccount.rows, r.1 = a) ↔ hub.set a ≠ [] := by
    intro a
    constructor
    · rintro ⟨r, hr, rfl⟩
      rw [Hub.set_row hr]
      exact hne r hr
    · intro h
      unfold Hub.set at h
      cases hf : hub.byAccount.find a with
      | none =>
        rw [hf] at h
        exact (h rfl).elim
      | some r => exact ⟨r, Table.find_some.1 hf⟩
  refine ⟨report_accounts ho hcount, ?_, fun a => ?_, fun e he => ?_, fun e he => ?_,
    fun e he hnot => ?_⟩
  · rw [hnames]
    exact (List.perm_insertionSort _ _).nodup_iff.2 nodup_reportNames
  · rw [hnames, List.mem_insertionSort, mem_reportNames, hconnected]
  · obtain ⟨a, rfl⟩ := hentry e he
    exact usageForAccount_addsUp
  · obtain ⟨a, rfl⟩ := hentry e he
    rfl
  · obtain ⟨a, rfl⟩ := hentry e he
    exact usage_zero hnot

end Totals

/-! ## Every state -/

/-- **Every report conserves what is stored and who is connected**, and the
connections change none of the storage totals. -/
theorem usage_report (ops : List (StoreOp × Fault)) (maxPerAccount maxTotal : Nat)
    (calls : List HubCall)
    (once : (subscribed calls).Nodup) (now : String → String) :
    let db := runOps .empty ops
    let hub := Hub.after maxPerAccount maxTotal calls
    ((listUsage now db).map (·.accountId)).Nodup ∧
    (∀ a, a ∈ (listUsage now db).map (·.accountId) ↔ db.Footprint a) ∧
    (adminUsage now db hub).Faithful db hub ∧
    (adminUsage now db hub).totals =
      { (adminUsage now db .empty).totals with sseConnections := hub.total } ∧
    ((∀ o ∈ ops, ∀ app a rows now, o.1 = .batchUpsert app a rows now → app ≠ "__proto__") →
      ∀ e ∈ (adminUsage now db hub).accounts,
        (e.usage.storedBytes.envelopesByApp.map Prod.snd).sum = e.usage.storedBytes.envelopes) := by
  intro db hub
  have hord : hub.Orderly maxPerAccount maxTotal (subscribed calls) := after_orderly once
  have hfaithful : (adminUsage now db hub).Faithful db hub :=
    report_faithful (owned_run ops) hord.counted hord.nonempty
  refine ⟨?_, fun a => ?_, hfaithful, ?_, fun happs e he => ?_⟩
  · rw [listUsage_names]
    exact nodup_distinct _ _
  · rw [listUsage_names]
    exact mem_accountNames
  · have hwith := hfaithful.accounts
    have hwithout : Accounts db .empty (adminUsage now db .empty) :=
      report_accounts (owned_run ops) Hub.counted_empty
    rw [UsageTotals.mk.injEq]
    exact ⟨hwith.storedBytes.trans hwithout.storedBytes.symm,
      hwith.blobBytes.trans hwithout.blobBytes.symm,
      hwith.envelopeBytes.trans hwithout.envelopeBytes.symm, hwith.rows.trans hwithout.rows.symm,
      hwith.blobs.trans hwithout.blobs.symm,
      hwith.uploadSessions.trans hwithout.uploadSessions.symm,
      hwith.stagedBytes.trans hwithout.stagedBytes.symm, hwith.sseConnections⟩
  · have h := (hfaithful.addsUp e he).apps
    rw [unnamedBytes_run happs] at h
    exact h

/-- A row, a tombstone, an intent, a blob and a staged part of one account, and
the salt of another. -/
def sampleStore : List (StoreOp × Fault) :=
  [(.batchUpsert "dayglance" "a" [⟨"e", [1, 2, 3], false, false, none⟩,
    ⟨"f", [4], true, false, none⟩] fun _ => "2026-01-01", none),
    (.insertIntents "a" [⟨"i", [5, 6], "2026-02-01"⟩] fun _ => "2026-01-01", none),
    (.insertBlobIfAbsent "a" "h" 7 "2026-01-01", none),
    (.createUploadSession "a" "u" "k" 9 "2026-01-01", none),
    (.recordUploadPart "a" "u" 0 8 "2026-01-01", none),
    (.putSaltIfAbsent "z" "salt" "2026-01-01", none)]

theorem usage_report_sample :
    (adminUsage (fun _ => "2026-01-02") (runOps .empty sampleStore)
      (Hub.after 2 3 (sampleCalls.take 2))).totals =
        ⟨13, 7, 6, 2, 1, 1, 8, 2⟩ ∧
      ∀ e ∈ (adminUsage (fun _ => "2026-01-02") (runOps .empty sampleStore)
        (Hub.after 2 3 (sampleCalls.take 2))).accounts,
        (e.usage.storedBytes.envelopesByApp.map Prod.snd).sum = e.usage.storedBytes.envelopes := by
  have h := usage_report sampleStore 2 3 (sampleCalls.take 2) (by decide) fun _ => "2026-01-02"
  refine ⟨by decide +kernel, h.2.2.2.2 fun o ho app a rows now e => ?_⟩
  simp only [sampleStore, List.mem_cons, List.not_mem_nil, or_false] at ho
  rcases ho with rfl | rfl | rfl | rfl | rfl | rfl <;> cases e
  decide

/-- A batch in an app that the record cannot name. -/
theorem app_unnamed : ¬ ∀ (ops : List (StoreOp × Fault)) (now : String → String),
    ∀ u ∈ listUsage now (runOps .empty ops),
      (u.storedBytes.envelopesByApp.map Prod.snd).sum = u.storedBytes.envelopes := by
  intro h
  have hbatch :=
    h [(.batchUpsert "__proto__" "a" [⟨"e", [1], false, false, none⟩] fun _ => "2026-01-01",
      none)] fun _ => "2026-01-02"
  revert hbatch
  decide +kernel

end GlanceVault.L3
