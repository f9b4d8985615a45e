import Mathlib.Data.List.Range
import GlanceVault.Core.Prog
/-!
# Migrations (`storage/migrations.ts`)

The definitions of the tables and indexes, and the migrations that make them.
`CREATE` fails on a name that is taken, `ADD COLUMN` on a column that is there.

* `exec_again`: a schema that has what a statement makes refuses it.
* `schemaOf_again`: a migration is refused once it has been applied.
* `schemaOf_next`: the next one is accepted.
* `runMigrations_built`: a run that nobody disturbs.
-/
namespace GlanceVault.L2
open GlanceVault.Core

structure Column where
  name : String
  decl : String
  deriving DecidableEq

structure TableDef where
  name : String
  columns : List Column
  constraints : List String
  deriving DecidableEq

structure IndexDef where
  name : String
  unique : Bool
  table : String
  columns : List String
  deriving DecidableEq

structure Schema where
  tables : List TableDef
  indexes : List IndexDef
  deriving DecidableEq

inductive Ddl
  | createTable (t : TableDef)
  | createIndex (i : IndexDef)
  | addColumn (table : String) (c : Column)
  deriving DecidableEq

namespace Schema

def empty : Schema := ⟨[], []⟩

/-- A table or an index has the name. -/
def taken (s : Schema) (name : String) : Bool :=
  s.tables.any (fun t => decide (t.name = name)) || s.indexes.any fun i => decide (i.name = name)

def table (s : Schema) (name : String) : Option TableDef :=
  s.tables.find? fun t => decide (t.name = name)

end Schema

def TableDef.has (t : TableDef) (column : String) : Bool :=
  t.columns.any fun c => decide (c.name = column)

/-- The schema with a column added to the tables of a name. -/
def Schema.withColumn (s : Schema) (table : String) (c : Column) : Schema :=
  { s with
    tables := s.tables.map fun x =>
      if x.name = table then { x with columns := x.columns ++ [c] } else x }

/-- What a statement makes of a schema, if it is accepted. -/
def Schema.exec (s : Schema) : Ddl → Option Schema
  | .createTable t => if s.taken t.name then none else some { s with tables := s.tables ++ [t] }
  | .createIndex i =>
    if s.taken i.name then none
    else if (s.table i.table).any fun t => i.columns.all t.has then
      some { s with indexes := s.indexes ++ [i] }
    else none
  | .addColumn table c =>
    match s.table table with
    | none => none
    | some t =>
      if t.has c.name then none else some (s.withColumn table c)

/-- `db.exec(sql)` -/
def Schema.execAll (s : Schema) : List Ddl → Option Schema
  | [] => some s
  | d :: ds => (s.exec d).bind fun s => s.execAll ds

structure Migration where
  version : Nat
  sql : List Ddl
  deriving DecidableEq

/-- mirrors src/storage/migrations.ts:25-281 (`MIGRATIONS`) -/
def migrations : List Migration := [
  ⟨1, [
    .createTable ⟨"sync_rows",
      [⟨"account_id", "TEXT NOT NULL"⟩, ⟨"app", "TEXT NOT NULL"⟩, ⟨"entity_id", "TEXT NOT NULL"⟩,
        ⟨"seq", "INTEGER NOT NULL"⟩, ⟨"envelope", "BLOB NOT NULL"⟩,
        ⟨"deleted", "INTEGER NOT NULL DEFAULT 0"⟩,
        ⟨"server_mtime", "TEXT NOT NULL"⟩],
      ["PRIMARY KEY (account_id, app, entity_id)"]⟩,
    .createIndex ⟨"idx_sync_cursor", false, "sync_rows", ["account_id", "app", "seq"]⟩,
    .createTable ⟨"intent_events",
      [⟨"account_id", "TEXT NOT NULL"⟩, ⟨"event_id", "TEXT NOT NULL"⟩, ⟨"seq", "INTEGER NOT NULL"⟩,
        ⟨"envelope", "BLOB NOT NULL"⟩, ⟨"expires_at", "TEXT NOT NULL"⟩,
          ⟨"server_mtime", "TEXT NOT NULL"⟩],
      ["PRIMARY KEY (account_id, event_id)"]⟩,
    .createIndex ⟨"idx_intent_cursor", false, "intent_events", ["account_id", "seq"]⟩,
    .createTable ⟨"devices",
      [⟨"account_id", "TEXT NOT NULL"⟩, ⟨"device_id", "TEXT NOT NULL"⟩,
        ⟨"last_seen_seq", "INTEGER NOT NULL DEFAULT 0"⟩, ⟨"last_active", "TEXT NOT NULL"⟩],
      ["PRIMARY KEY (account_id, device_id)"]⟩,
    .createTable ⟨"account_seq",
      [⟨"account_id", "TEXT NOT NULL PRIMARY KEY"⟩, ⟨"value", "INTEGER NOT NULL DEFAULT 0"⟩], []⟩]⟩,
  ⟨2, [
    .createTable ⟨"account_salts",
      [⟨"account_id", "TEXT NOT NULL PRIMARY KEY"⟩, ⟨"salt", "TEXT NOT NULL"⟩,
        ⟨"created_at", "TEXT NOT NULL"⟩], []⟩]⟩,
  ⟨3, [
    .createTable ⟨"blobs",
      [⟨"account_id", "TEXT NOT NULL"⟩, ⟨"blob_hash", "TEXT NOT NULL"⟩,
        ⟨"size", "INTEGER NOT NULL"⟩,
        ⟨"ref_count", "INTEGER NOT NULL DEFAULT 0"⟩, ⟨"zero_ref_seq", "INTEGER"⟩,
        ⟨"created_at", "TEXT NOT NULL"⟩,
        ⟨"last_reference_activity_at", "TEXT NOT NULL"⟩],
      ["PRIMARY KEY (account_id, blob_hash)"]⟩,
    .createIndex ⟨"idx_blobs_account", false, "blobs", ["account_id"]⟩,
    .createTable ⟨"blob_upload_sessions",
      [⟨"upload_id", "TEXT NOT NULL PRIMARY KEY"⟩, ⟨"account_id", "TEXT NOT NULL"⟩,
        ⟨"blob_hash", "TEXT NOT NULL"⟩,
        ⟨"declared_size", "INTEGER NOT NULL"⟩, ⟨"created_at", "TEXT NOT NULL"⟩], []⟩,
    .createIndex ⟨"idx_blob_sessions_account", false, "blob_upload_sessions", ["account_id"]⟩,
    .createTable ⟨"blob_upload_parts",
      [⟨"upload_id", "TEXT NOT NULL"⟩, ⟨"part_index", "INTEGER NOT NULL"⟩,
        ⟨"size", "INTEGER NOT NULL"⟩,
        ⟨"received_at", "TEXT NOT NULL"⟩],
      ["PRIMARY KEY (upload_id, part_index)",
        "FOREIGN KEY (upload_id) REFERENCES blob_upload_sessions (upload_id) ON DELETE CASCADE"]⟩]⟩,
  ⟨4, [.addColumn "sync_rows" ⟨"deleted_at", "INTEGER"⟩]⟩,
  ⟨5, [
    .createTable ⟨"device_credentials",
      [⟨"credential_id", "TEXT NOT NULL PRIMARY KEY"⟩, ⟨"account_id", "TEXT NOT NULL"⟩,
        ⟨"device_id", "TEXT NOT NULL"⟩, ⟨"credential_hash", "TEXT NOT NULL"⟩,
          ⟨"created_at", "TEXT NOT NULL"⟩], []⟩,
    .createIndex ⟨"idx_credentials_hash", true, "device_credentials", ["credential_hash"]⟩,
    .createIndex ⟨"idx_credentials_account", false, "device_credentials",
      ["account_id", "device_id"]⟩]⟩,
  ⟨6, [.addColumn "device_credentials" ⟨"revoked_at", "TEXT"⟩]⟩,
  ⟨7, [
    .createTable ⟨"accounts",
      [⟨"account_id", "TEXT NOT NULL PRIMARY KEY"⟩, ⟨"label", "TEXT"⟩,
        ⟨"key_hash", "TEXT NOT NULL"⟩,
        ⟨"created_at", "TEXT NOT NULL"⟩, ⟨"key_rotated_at", "TEXT"⟩], []⟩,
    .createIndex ⟨"idx_accounts_key_hash", true, "accounts", ["key_hash"]⟩]⟩]

/-- mirrors src/storage/migrations.ts:285 (`TARGET_SCHEMA_VERSION`) -/
def targetSchemaVersion : Nat := migrations.length

/-- The database file, as far as the migrations are concerned. -/
structure Catalog where
  schema : Schema
  userVersion : Nat
  deriving DecidableEq

/-- One migration, in its own transaction. -/
def Catalog.apply (d : Catalog) (m : Migration) : Option Catalog :=
  (d.schema.execAll m.sql).map fun s => ⟨s, m.version⟩

/-- The loop of `runMigrations`. -/
def applyFrom (start : Nat) : List Migration → Prog Catalog Unit Unit :=
  Prog.each fun m =>
    if m.version ≤ start then pure ()
    else .step fun d =>
      match d.apply m with
      | some d' => .ok ((), d')
      | none => .error ()

/-- mirrors src/storage/migrations.ts:295-309 (`runMigrations`) -/
def runMigrations : Prog Catalog Unit Unit := do
  let start ← Prog.get fun d => d.userVersion
  applyFrom start migrations

/-! ## Statements -/

section Statements
variable {s s' : Schema} {d e : Ddl}

/-- The schema has what the statement makes. -/
def Schema.made (s : Schema) : Ddl → Bool
  | .createTable t => s.taken t.name
  | .createIndex i => s.taken i.name
  | .addColumn table c => (s.table table).any fun t => t.has c.name

theorem exec_again (h : s.made d = true) : s.exec d = none := by
  cases d with
  | createTable t => exact if_pos h
  | createIndex i => exact if_pos h
  | addColumn table c =>
    obtain ⟨t, ht, hc⟩ := (Option.any_eq_true _ _).1 h
    simp only [Schema.exec, ht, hc, if_true]

theorem table_withColumn (s : Schema) (table name : String) (c : Column) :
    (s.withColumn table c).table name =
    (s.table name).map fun x => if x.name = table then
    { x with columns := x.columns ++ [c] } else x := by
  unfold Schema.table Schema.withColumn
  rw [List.find?_map]
  congr 2
  funext x
  show decide ((if x.name = table then _ else x : TableDef).name = name) = _
  split <;> rfl

/-- A statement that is accepted, and what it leaves. -/
inductive Schema.Executes (s : Schema) : Ddl → Schema → Prop
  | createTable (t : TableDef) : s.Executes (.createTable t) { s with tables := s.tables ++ [t] }
  | createIndex (i : IndexDef) : s.Executes (.createIndex i) { s with indexes := s.indexes ++ [i] }
  | addColumn {t : TableDef} {table : String} (c : Column) (found : s.table table = some t) :
      s.Executes (.addColumn table c) (s.withColumn table c)

theorem exec_executes (h : s.exec d = some s') : s.Executes d s' := by
  cases d with
  | createTable t =>
    simp only [Schema.exec] at h
    split at h
    · cases h
    · cases h
      exact .createTable t
  | createIndex i =>
    simp only [Schema.exec] at h
    split at h
    · cases h
    · split at h
      · cases h
        exact .createIndex i
      · cases h
  | addColumn table c =>
    simp only [Schema.exec] at h
    split at h
    · cases h
    · rename_i t ht
      split at h
      · cases h
      · cases h
        exact .addColumn c ht

theorem exec_made (h : s.exec d = some s') : s'.made d = true := by
  cases exec_executes h with
  | createTable t => simp [Schema.made, Schema.taken]
  | createIndex i => simp [Schema.made, Schema.taken]
  | @addColumn t table c found =>
    have hname : t.name = table := by
      unfold Schema.table at found
      simpa using List.find?_some found
    simp [Schema.made, table_withColumn, found, hname, TableDef.has]

/-- What was made stays. -/
theorem exec_keeps (h : s.exec e = some s') (hd : s.made d = true) : s'.made d = true := by
  have htaken : ∀ name, s.taken name = true → s'.taken name = true := by
    intro name hn
    unfold Schema.taken at hn ⊢
    cases exec_executes h with
    | createTable t =>
      rw [List.any_append, Bool.or_right_comm, hn]
      rfl
    | createIndex i =>
      rw [List.any_append, ← Bool.or_assoc, hn]
      rfl
    | @addColumn t table c found =>
      unfold Schema.withColumn
      rw [List.any_map]
      convert hn using 3
      funext x
      show decide ((if x.name = table then _ else x : TableDef).name = name) = _
      split <;> rfl
  have htable : ∀ name column, ((s.table name).any fun t => t.has column) = true →
      ((s'.table name).any fun t => t.has column) = true := by
    intro name column hn
    obtain ⟨t, ht, hc⟩ := (Option.any_eq_true _ _).1 hn
    cases exec_executes h with
    | createTable u =>
      unfold Schema.table at ht ⊢
      rw [List.find?_append, ht]
      exact hc
    | createIndex i =>
      unfold Schema.table at ht ⊢
      rw [ht]
      exact hc
    | @addColumn u table c found =>
      rw [table_withColumn, ht]
      show TableDef.has (if t.name = table then _ else t) column = true
      split
      · unfold TableDef.has at hc ⊢
        rw [List.any_append, hc]
        rfl
      · exact hc
  cases d with
  | createTable t => exact htaken _ hd
  | createIndex i => exact htaken _ hd
  | addColumn table c => exact htable _ _ hd

theorem execAll_keeps : ∀ {ds : List Ddl} {s s' : Schema},
    s.execAll ds = some s' → s.made d = true → s'.made d = true
  | [], _, _, h, hd => by
    cases h
    exact hd
  | _ :: ds, _, _, h, hd => by
    obtain ⟨t, ht, h⟩ := Option.bind_eq_some_iff.1 h
    exact execAll_keeps h (exec_keeps ht hd)

theorem execAll_made : ∀ {ds : List Ddl} {s s' : Schema},
    s.execAll ds = some s' → ∀ d ∈ ds, s'.made d = true
  | [], _, _, _, _, hd => nomatch hd
  | e :: ds, _, _, h, d, hd => by
    obtain ⟨t, ht, h⟩ := Option.bind_eq_some_iff.1 h
    rcases List.mem_cons.1 hd with e | hd
    · rw [e]
      exact execAll_keeps h (exec_made ht)
    · exact execAll_made h d hd

theorem execAll_again {ds : List Ddl} (hne : ds.isEmpty = false) (h : ∀ d ∈ ds, s.made d = true) :
    s.execAll ds = none := by
  cases ds with
  | nil => cases hne
  | cons d ds =>
    unfold Schema.execAll
    rw [exec_again (h d List.mem_cons_self)]
    rfl

end Statements

/-! ## The versions of the schema -/

/-- The schema that the first `n` migrations make. -/
def schemaOf : Nat → Option Schema
  | 0 => some .empty
  | n + 1 => (schemaOf n).bind fun s => migrations[n]?.bind fun m => s.execAll m.sql

/-- The file is at the version that it says. -/
def Catalog.Built (d : Catalog) : Prop := schemaOf d.userVersion = some d.schema

section Versions
variable {n k : Nat} {m : Migration} {s : Schema}

theorem version_eq (h : migrations[n]? = some m) : m.version = n + 1 := by
  have hall : ∀ i : Fin migrations.length, (migrations.get i).version = i.val + 1 := by decide
  obtain ⟨hn, e⟩ := List.getElem?_eq_some_iff.1 h
  have := hall ⟨n, hn⟩
  rw [← e]
  exact this

theorem schemaOf_le (h : schemaOf n = some s) : n ≤ targetSchemaVersion := by
  cases n with
  | zero => exact Nat.zero_le _
  | succ n =>
    obtain ⟨t, ht, h⟩ := Option.bind_eq_some_iff.1 h
    obtain ⟨m, hm, -⟩ := Option.bind_eq_some_iff.1 h
    exact (List.getElem?_eq_some_iff.1 hm).1

theorem schemaOf_defined (h : n ≤ targetSchemaVersion) : ∃ s, schemaOf n = some s := by
  have hall : ∀ i : Fin (targetSchemaVersion + 1), (schemaOf i).isSome = true := by decide +kernel
  exact Option.isSome_iff_exists.1 (hall ⟨n, by omega⟩)

/-- The schema has what its migrations make. -/
theorem schemaOf_made : ∀ {n : Nat} {s : Schema}, schemaOf n = some s → k < n →
    migrations[k]? = some m →
    ∀ d ∈ m.sql, s.made d = true
  | 0, _, _, hk, _ => absurd hk (Nat.not_lt_zero k)
  | n + 1, s, h, hk, hm => fun d hd => by
    obtain ⟨t, ht, h⟩ := Option.bind_eq_some_iff.1 h
    obtain ⟨x, hx, h⟩ := Option.bind_eq_some_iff.1 h
    by_cases he : k = n
    · subst he
      cases hx.symm.trans hm
      exact execAll_made h d hd
    · exact execAll_keeps h (schemaOf_made ht (by omega) hm d hd)

/-- **A migration is refused once it has been applied.** -/
theorem built_again {d : Catalog} (h : d.Built) (hk : k < d.userVersion)
    (hm : migrations[k]? = some m) :
    d.apply m = none := by
  have hsome : ∀ m ∈ migrations, m.sql.isEmpty = false := by decide
  unfold Catalog.apply
  rw [execAll_again (hsome m (List.mem_of_getElem? hm)) (schemaOf_made h hk hm)]
  rfl

/-- **The next migration is accepted.** -/
theorem built_next {d : Catalog} (h : d.Built) (hm : migrations[d.userVersion]? = some m) :
    ∃ d', d.apply m = some d' ∧ d'.Built ∧ d'.userVersion = d.userVersion + 1 := by
  obtain ⟨s, hs⟩ := schemaOf_defined (n := d.userVersion + 1) (List.getElem?_eq_some_iff.1 hm).1
  have hexec : d.schema.execAll m.sql = some s := by
    obtain ⟨t, ht, hn⟩ := Option.bind_eq_some_iff.1 hs
    obtain ⟨x, hx, hn⟩ := Option.bind_eq_some_iff.1 hn
    cases hx.symm.trans hm
    cases ht.symm.trans h
    exact hn
  refine ⟨⟨s, m.version⟩, ?_, ?_, version_eq hm⟩
  · unfold Catalog.apply
    rw [hexec]
    rfl
  · show schemaOf m.version = some s
    rw [version_eq hm]
    exact hs

theorem built_target {d d' : Catalog} (h : d.Built) (h' : d'.Built)
    (e : d.userVersion = d'.userVersion) : d = d' := by
  obtain ⟨s, n⟩ := d
  obtain ⟨s', n'⟩ := d'
  have e : n = n' := e
  subst e
  cases h.symm.trans h'
  rfl

end Versions

/-! ## A run that nobody disturbs -/

/-- The migrations up to the version read are skipped. -/
theorem take_skipped {start : Nat} : ∀ m ∈ migrations.take start, m.version ≤ start := by
  intro m hm
  obtain ⟨i, hi, e⟩ := List.mem_iff_getElem.1 hm
  rw [List.getElem_take] at e
  rw [List.length_take] at hi
  have hlt : i < migrations.length := by omega
  rw [version_eq (n := i) (by rw [List.getElem?_eq_getElem hlt, e])]
  omega

theorem applyFrom_skip {start : Nat} {rest : List Migration} : ∀ {pre : List Migration},
    (∀ m ∈ pre, m.version ≤ start) → applyFrom start (pre ++ rest) = applyFrom start rest
  | [], _ => rfl
  | m :: pre, h => by
    have ih : applyFrom start (pre ++ rest) = applyFrom start rest :=
      applyFrom_skip fun x hx => h x (List.mem_cons_of_mem m hx)
    unfold applyFrom at ih ⊢
    rw [List.cons_append, Prog.each, if_pos (h m List.mem_cons_self), Prog.pure_bind]
    exact ih

theorem applyFrom_built {start : Nat} :
    ∀ {rest : List Migration} {d : Catalog}, d.Built → start ≤ d.userVersion →
    migrations.drop d.userVersion = rest → (applyFrom start rest d).result = .ok () ∧
      (applyFrom start rest d).state.Built ∧
    (applyFrom start rest d).state.userVersion = targetSchemaVersion
  | [], d, h, _, hrest => ⟨rfl, h, Nat.le_antisymm (schemaOf_le h) (List.drop_eq_nil_iff.1 hrest)⟩
  | m :: rest, d, h, hstart, hrest => by
    have hm : migrations[d.userVersion]? = some m := by
      rw [← List.head?_drop, hrest]
      rfl
    obtain ⟨d', hd', hb, hv⟩ := built_next h hm
    have hrest' : migrations.drop d'.userVersion = rest := by
      rw [hv, ← List.tail_drop, hrest]
      rfl
    have hgo := applyFrom_built hb (Nat.le_trans hstart (by omega)) hrest'
    unfold applyFrom at hgo ⊢
    have hstep : ¬ m.version ≤ start := by
      rw [version_eq hm]
      omega
    rw [Prog.each, if_neg hstep, Prog.bind_run]
    simp only [Prog.step, hd']
    exact hgo

/-- **A run that nobody disturbs ends at the target.** -/
theorem runMigrations_built {d : Catalog} (h : d.Built) : (runMigrations d).result = .ok () ∧
    (runMigrations d).state.Built ∧ (runMigrations d).state.userVersion = targetSchemaVersion := by
  unfold runMigrations
  rw [Prog.get_bind, ← List.take_append_drop d.userVersion migrations, applyFrom_skip take_skipped]
  exact applyFrom_built h (Nat.le_refl _) rfl

end GlanceVault.L2
