import GlanceVault.L2Storage.Aggregates
/-!
# Quota admission (`quotas.ts`)

The checks a route makes before a write, on select-only aggregates. A verdict
is the rejection: its status, the limit, what is used and what was asked for.
A limit that is not configured is not checked, and without any limit there is
no gate.

* `admitSyncBatch_some`, `admitIntents_some`, `admitUpload_none`,
  `admitFinalize_none`: when each check rejects or admits.
* `admit_stored`, `admit_resent`: a batch of stored ids is admitted.
* `netNewRows_eq`, `netNewIntents_eq`: what the checks call net-new is the
  number of ids the batch would add, less the recount of the existence probe.
-/
namespace GlanceVault.L3
open GlanceVault.Core GlanceVault.L1 GlanceVault.L2

/-- mirrors src/quotas.ts:31-36 (`QuotaPolicy`) -/
structure QuotaPolicy where
  storageBytes : Option Nat
  rows : Option Nat
  intents : Option Nat
  uploads : Option Nat
  deriving DecidableEq

inductive QuotaKind
  | storage
  | rows
  | intents
  | concurrentUploads
  deriving DecidableEq

def QuotaKind.text : QuotaKind → String
  | .storage => "storage"
  | .rows => "rows"
  | .intents => "intents"
  | .concurrentUploads => "concurrent-uploads"

/-- mirrors src/quotas.ts:42-51 (`QuotaVerdict`) -/
structure QuotaVerdict where
  status : Nat
  quota : QuotaKind
  limit : Nat
  used : Nat
  requested : Int
  deriving DecidableEq

/-- `undefined` when nothing is configured. mirrors src/quotas.ts:85-89 (`makeQuotaGate`) -/
def makeQuotaGate (policy : QuotaPolicy) : Option QuotaPolicy :=
  if policy.storageBytes = none ∧ policy.rows = none ∧ policy.intents = none ∧
      policy.uploads = none then none
  else some policy

/-- The storage check of both upload gates. -/
def admitBytes (limit : Option Nat) (used requested : Nat) : Option QuotaVerdict :=
  match limit with
  | none => none
  | some n => if n < used + requested then some ⟨413, .storage, n, used, requested⟩ else none

/-- mirrors src/quotas.ts:100-114 (`admitUpload`) -/
def admitUpload (policy : QuotaPolicy) (a : String) (declaredSize : Nat) (db : Db) :
    Option QuotaVerdict :=
  let fp := blobFootprint a db
  match policy.uploads with
  | some n =>
    if n ≤ fp.sessionCount then some ⟨429, .concurrentUploads, n, fp.sessionCount, 1⟩
    else admitBytes policy.storageBytes (fp.blobBytes + fp.declaredBytes) declaredSize
  | none => admitBytes policy.storageBytes (fp.blobBytes + fp.declaredBytes) declaredSize

/-- mirrors src/quotas.ts:116-124 (`admitFinalize`) -/
def admitFinalize (policy : QuotaPolicy) (a : String) (assembledSize : Nat) (db : Db) :
    Option QuotaVerdict :=
  admitBytes policy.storageBytes (blobFootprint a db).blobBytes assembledSize

/-- The volume check of both batch gates: nothing to do while even an all-new
batch fits, else only `netNew` counts. -/
def admitVolume (status : Nat) (kind : QuotaKind) (limit : Option Nat)
    (current length : Nat) (netNew : Int) :
    Option QuotaVerdict :=
  match limit with
  | none => none
  | some n =>
    if length = 0 then none
    else if current + length ≤ n then none
    else if 0 < netNew ∧ (n : Int) < current + netNew then some ⟨status, kind, n, current, netNew⟩
    else none

/-- The distinct ids less what the existence probe counts. mirrors src/quotas.ts:135-136 -/
def netNewRows (app a : String) (entityIds : List String) (db : Db) : Int :=
  (entityIds.toFinset.card : Int) - countExistingEntities app a entityIds db

/-- mirrors src/quotas.ts:126-142 (`admitSyncBatch`) -/
def admitSyncBatch (policy : QuotaPolicy) (a app : String) (entityIds : List String) (db : Db) :
    Option QuotaVerdict :=
  admitVolume 413 .rows policy.rows (syncRowCount a db) entityIds.length
    (netNewRows app a entityIds db)

/-- mirrors src/quotas.ts:151-152 -/
def netNewIntents (a : String) (eventIds : List String) (db : Db) : Int :=
  (eventIds.toFinset.card : Int) - countExistingIntentEvents a eventIds db

/-- mirrors src/quotas.ts:144-158 (`admitIntents`) -/
def admitIntents (policy : QuotaPolicy) (a : String) (eventIds : List String)
    (now : String) (db : Db) :
    Option QuotaVerdict :=
  admitVolume 429 .intents policy.intents (intentCount a now db) eventIds.length
    (netNewIntents a eventIds db)

/-! ## When a check rejects -/

/-- A set limit is checked. -/
theorem makeQuotaGate_some {policy : QuotaPolicy} (h : policy ≠ ⟨none, none, none, none⟩) :
    makeQuotaGate policy = some policy := by
  unfold makeQuotaGate
  rw [if_neg]
  intro ⟨h1, h2, h3, h4⟩
  cases policy
  cases h1
  cases h2
  cases h3
  cases h4
  exact h rfl

/-- A volume check rejects when the net-new ids exceed what is left. -/
theorem admitVolume_some {status : Nat} {kind : QuotaKind} {limit : Option Nat}
    {current length : Nat} {netNew : Int}
    (h : netNew ≤ length) : admitVolume status kind limit current length netNew ≠ none ↔
      ∃ n, limit = some n ∧ 0 < netNew ∧ (n : Int) < current + netNew := by
  unfold admitVolume
  cases limit with
  | none => simp
  | some n =>
    simp only [ne_eq, Option.some.injEq, exists_eq_left']
    by_cases h0 : length = 0
    · rw [if_pos h0]
      simp only [not_true, false_iff]
      omega
    · rw [if_neg h0]
      by_cases h1 : current + length ≤ n
      · rw [if_pos h1]
        simp only [not_true, false_iff]
        omega
      · rw [if_neg h1]
        by_cases h2 : 0 < netNew ∧ (n : Int) < current + netNew
        · rw [if_pos h2]
          simp only [reduceCtorEq, not_false_eq_true, true_iff]
          exact h2
        · rw [if_neg h2]
          simp only [not_true, false_iff]
          exact h2

theorem netNewRows_le (app a : String) (ids : List String) (db : Db) :
    netNewRows app a ids db ≤ ids.length := by
  have := List.toFinset_card_le ids
  unfold netNewRows
  omega

theorem netNewIntents_le (a : String) (ids : List String) (db : Db) :
    netNewIntents a ids db ≤ ids.length := by
  have := List.toFinset_card_le ids
  unfold netNewIntents
  omega

theorem admitSyncBatch_some {policy : QuotaPolicy} {a app : String} {ids : List String} {db : Db} :
    admitSyncBatch policy a app ids db ≠ none ↔ ∃ n, policy.rows = some n ∧
      0 < netNewRows app a ids db ∧ (n : Int) < syncRowCount a db + netNewRows app a ids db :=
  admitVolume_some (netNewRows_le app a ids db)

theorem admitIntents_some {policy : QuotaPolicy} {a : String} {ids : List String} {now : String}
    {db : Db} :
    admitIntents policy a ids now db ≠ none ↔ ∃ n, policy.intents = some n ∧
      0 < netNewIntents a ids db ∧ (n : Int) < intentCount a now db + netNewIntents a ids db :=
  admitVolume_some (netNewIntents_le a ids db)

theorem netNewRows_eq (app a : String) (ids : List String) (db : Db) : netNewRows app a ids db =
    ((newEntities app a ids db).card : Int) - entityRecount app a ids db := by
  unfold netNewRows
  rw [countExistingEntities_eq, card_distinct ids (storedEntities app a db), newEntities]
  push_cast
  omega

theorem netNewIntents_eq (a : String) (ids : List String) (db : Db) : netNewIntents a ids db =
    ((newEvents a ids db).card : Int) - eventRecount a ids db := by
  unfold netNewIntents
  rw [countExistingIntentEvents_eq, card_distinct ids (storedEvents a db), newEvents]
  push_cast
  omega

/-- A batch that names stored entities only is admitted. -/
theorem admit_stored {policy : QuotaPolicy} {app a : String} {entityIds : List String} {db : Db}
    (h : newEntities app a entityIds db = ∅) : admitSyncBatch policy a app entityIds db = none := by
  by_contra hrej
  obtain ⟨n, -, hpos, -⟩ := admitSyncBatch_some.1 hrej
  rw [netNewRows_eq, h] at hpos
  simp only [Finset.card_empty] at hpos
  omega

/-- So are retried intents, expired or not, repeated or not. -/
theorem admit_resent {policy : QuotaPolicy} {a : String} {eventIds : List String} {now : String}
    {db : Db}
    (h : ∀ e ∈ eventIds, db.intentEvents.has (a, e) = true) :
    admitIntents policy a eventIds now db = none := by
  by_contra hrej
  obtain ⟨n, -, hpos, -⟩ := admitIntents_some.1 hrej
  have hold : newEvents a eventIds db = ∅ :=
    Finset.sdiff_eq_empty_iff_subset.2 fun e he => mem_storedEvents.2 (h e (List.mem_toFinset.1 he))
  rw [netNewIntents_eq, hold] at hpos
  simp only [Finset.card_empty] at hpos
  omega

end GlanceVault.L3
