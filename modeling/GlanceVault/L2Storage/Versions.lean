import GlanceVault.L2Storage.Delivery
import GlanceVault.L2Storage.Drain
/-!
# Versions

The rows of every app and the intents of an account are numbered by one
counter. A write gives the object a number above the counter and replaces
what it was; so a number, once given, names one version of one object until
the account is deleted.

* `versions_move`: an operation keeps a version or stores one with a new number.
* `version_final`: a number is not given again.
* `version_forward`: an object is not seen with a smaller number than before.
-/
namespace GlanceVault.L2
open GlanceVault.Core GlanceVault.L1

/-- What an account has stored under a number. -/
inductive Version
  | row (r : SyncRow)
  | event (r : IntentEvent)

def Version.seq : Version → Nat
  | .row r => r.seq
  | .event r => r.seq

/-- The object a version is one of. -/
def Version.holder : Version → Holder
  | .row r => .row r.app r.entityId
  | .event r => .event r.eventId

/-- The database stores the version for the account. -/
def Db.holds (db : Db) (a : String) : Version → Prop
  | .row r => r ∈ db.syncRows.rows ∧ r.accountId = a
  | .event r => r ∈ db.intentEvents.rows ∧ r.accountId = a

section Versions
variable {a : String} {db d d' : Db} {v w : Version}

theorem holds_stamp (h : db.holds a v) : db.stampOf a v.holder = some v.seq := by
  cases v with
  | row r => exact stamp_row h.1 h.2
  | event r => exact stamp_event h.1 h.2

/-- An object has one version at a time. -/
theorem holds_unique (hv : db.holds a v) (hw : db.holds a w) (h : v.holder = w.holder) : v = w := by
  cases v with
  | row r =>
    cases w with
    | row x =>
      cases x
      cases h
      exact congrArg Version.row
        (Table.eq_of_mem hv.1 hw.1 (by unfold SyncRow.key; rw [hv.2, ← hw.2]))
    | event x => cases h
  | event r =>
    cases w with
    | row x => cases h
    | event x =>
      cases x
      cases h
      exact congrArg Version.event
        (Table.eq_of_mem hv.1 hw.1 (by unfold IntentEvent.key; rw [hv.2, ← hw.2]))

/-- The counter moves on, and every version was there before or has a number
above it. -/
structure VersionsMove (a : String) (d d' : Db) : Prop where
  counter : latestSeq d a ≤ latestSeq d' a
  version : ∀ v, d'.holds a v → d.holds a v ∨ latestSeq d a < v.seq

theorem VersionsMove.refl (d : Db) : VersionsMove a d d := ⟨Nat.le_refl _, fun _ h => .inl h⟩

theorem VersionsMove.trans {x y z : Db} (h1 : VersionsMove a x y) (h2 : VersionsMove a y z) :
    VersionsMove a x z := by
  refine ⟨Nat.le_trans h1.counter h2.counter, fun v hv => ?_⟩
  rcases h2.version v hv with h | h
  · exact h1.version v h
  · exact .inr (Nat.lt_of_le_of_lt h1.counter h)

/-- **What any operation but the account's deletion does to its versions.** -/
theorem versions_move (o : StoreOp) (ho : o ≠ .deleteAccount a) : o.tx.Moves (VersionsMove a) := by
  intro d u d' e
  have hrows := rows_move o ho d u d' e
  have hevents := events_move o ho d u d' e
  refine ⟨hrows.counter, fun v hv => ?_⟩
  cases v with
  | row r =>
    obtain ⟨hr, rfl⟩ := hv
    have hfind : d'.syncRows.find (r.accountId, r.app, r.entityId) = some r :=
      Table.find_some.2 ⟨hr, rfl⟩
    rcases hrows.row r.app r.entityId with h | ⟨x, h, hx⟩
    · rw [h] at hfind
      exact .inl ⟨Table.find_mem hfind, rfl⟩
    · rw [h] at hfind
      cases hfind
      exact .inr hx
  | event r =>
    obtain ⟨hr, ha⟩ := hv
    rcases hevents.event r hr ha with h | h
    · exact .inl ⟨h, ha⟩
    · exact .inr h

/-- **A number is not given again.** -/
theorem version_final (hs : (d.line a).Sound) (h : VersionsMove a d d') (hv : d.holds a v)
    (hw : d'.holds a w) (e : v.seq = w.seq) : v = w := by
  have hle : v.seq ≤ latestSeq d a := hs.le v.holder v.seq (holds_stamp hv)
  rcases h.version w hw with hold | hnew
  · have hstamp : d.stampOf a w.holder = some v.seq := by rw [e]; exact holds_stamp hold
    exact holds_unique hv hold (hs.distinct _ _ _ (holds_stamp hv) hstamp)
  · omega

/-- **An object is not seen with a smaller number than before.** -/
theorem version_forward (hs : (d.line a).Sound) (h : VersionsMove a d d') (hv : d.holds a v)
    (hw : d'.holds a w) (e : v.holder = w.holder) : v.seq ≤ w.seq := by
  have hle : v.seq ≤ latestSeq d a := hs.le v.holder v.seq (holds_stamp hv)
  rcases h.version w hw with hold | hnew
  · rw [holds_unique hv hold e]
  · omega

end Versions

end GlanceVault.L2
