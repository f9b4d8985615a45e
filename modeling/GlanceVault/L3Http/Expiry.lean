import GlanceVault.L1Encoding.IsoOrder
import GlanceVault.L2Storage.Aggregates
import GlanceVault.L3Http.IntentRoutes
/-!
# When an intent expires

A client names the instant its intent expires, the route stores the text of
that instant, and four statements compare the text with the text of the clock:
the listing, the count behind the quota, and the two prunes.

* `checkEvent_expires`: what an accepted event carries.
* `kept_iff`: all four statements ask the one question, is the clock's text
  before the event's.
* `expiry_follows_time`: that is the question whether the clock is before the
  instant, exactly for the instants before the year 10000.
-/
namespace GlanceVault.L3
open GlanceVault.Core GlanceVault.L1 GlanceVault.L1.Js GlanceVault.L2

/-- `new Date(expiresAt).getTime()` -/
def expiryInstant (host : Host) : Option Json → Option Int
  | some (.str s) => host.dateParse s
  | some (.num n) => timeOfNumber n
  | _ => none

theorem normalizeExpiresAt_eq (host : Host) (value : Option Json) :
    normalizeExpiresAt host value =
      ((expiryInstant host value).filter Iso.inRange).map Iso.isoText := by
  cases value with
  | none => rfl
  | some j => cases j <;> rfl

/-- An accepted event carries the text of the instant its `expiresAt` names. -/
theorem checkEvent_expires {host : Host} {i : Nat} {raw : Json} {ev : IntentEventInput}
    (h : checkEvent host i raw = .ok ev) : ∃ value expiry, field raw "expiresAt" = .ok value ∧
      expiryInstant host value = some expiry ∧ Iso.inRange expiry = true ∧
      ev.expiresAt = Iso.isoText expiry := by
  unfold checkEvent at h
  obtain ⟨_, -, h⟩ := bind_ok h
  obtain ⟨eventId, -, h⟩ := bind_ok h
  obtain ⟨_, -, h⟩ := bind_ok h
  obtain ⟨envelope, -, h⟩ := bind_ok h
  obtain ⟨value, hv, h⟩ := bind_ok h
  cases hn : normalizeExpiresAt host value with
  | none =>
    rw [hn] at h
    cases h
  | some text =>
    rw [hn] at h
    cases h
    rw [normalizeExpiresAt_eq, Option.map_eq_some_iff] at hn
    obtain ⟨expiry, he, rfl⟩ := hn
    obtain ⟨he, hr⟩ := Option.filter_eq_some_iff.1 he
    exact ⟨value, expiry, hv, he, hr, rfl⟩

/-! ## The four statements -/

/-- The stored event `r` is treated as unexpired, or as expired, by every
statement that looks at its expiry. -/
structure Kept (db : Db) (r : IntentEvent) (now : String) (kept : Prop) : Prop where
  listed : kept → ∀ since limit, since < r.seq → db.intentEvents.rows.length ≤ limit →
    r ∈ (listIntents r.accountId since limit now db).rows
  hidden : ¬ kept → ∀ since limit, r ∉ (listIntents r.accountId since limit now db).rows
  counted : kept → intentCount r.accountId now db =
    intentCount r.accountId now
      { db with intentEvents := db.intentEvents.keep fun x => decide (x.key ≠ r.key) } + 1
  ignored : ¬ kept → intentCount r.accountId now db =
    intentCount r.accountId now
      { db with intentEvents := db.intentEvents.keep fun x => decide (x.key ≠ r.key) }
  spared : ∀ n db', (pruneExpiredIntentsFor r.accountId now).eval db = .ok (n, db') →
    (r ∈ db'.intentEvents.rows ↔ kept)
  swept : ∀ n db', (pruneExpiredIntents now).eval db = .ok (n, db') →
    (r ∈ db'.intentEvents.rows ↔ kept)

/-- **One question.** Every statement keeps the event while the clock's text is
before the event's, and only then. -/
theorem kept_iff {db : Db} {r : IntentEvent} (hr : r ∈ db.intentEvents.rows) {now : String}
    {kept : Prop} :
    Kept db r now kept ↔ (now < r.expiresAt ↔ kept) := by
  have hspared : ∀ n db', (pruneExpiredIntents now).eval db = .ok (n, db') →
      (r ∈ db'.intentEvents.rows ↔ now < r.expiresAt) := by
    intro n db' e
    unfold pruneExpiredIntents at e
    rw [Tx.eval_write] at e
    cases e
    simp [Table.mem_keep, hr]
  have hsparedFor : ∀ n db', (pruneExpiredIntentsFor r.accountId now).eval db = .ok (n, db') →
      (r ∈ db'.intentEvents.rows ↔ now < r.expiresAt) := by
    intro n db' e
    unfold pruneExpiredIntentsFor at e
    rw [Tx.eval_write] at e
    cases e
    simp [Db.pruneIntents, Table.mem_keep, hr]
  have hmem : ∀ {since limit}, r ∈ (listIntents r.accountId since limit now db).rows →
      now < r.expiresAt := by
    intro since limit h
    have hin := (List.mem_filter.1 (page_mem h).1).2
    exact (of_decide_eq_true hin).2
  have hcount := Table.total_keep_key hr (fun x => decide (x.key ≠ r.key))
    (fun x => decide (x.accountId = r.accountId) && decide (now < x.expiresAt))
      (fun _ => 1) (fun _ => rfl)
  rw [← Table.count_eq_total, ← Table.count_eq_total] at hcount
  constructor
  · intro h
    have hp := h.swept _ _ (by unfold pruneExpiredIntents; rw [Tx.eval_write])
    rw [← hp, hspared _ _ (by unfold pruneExpiredIntents; rw [Tx.eval_write])]
  · intro h
    refine ⟨fun hk since limit hs hl => ?_, fun hk since limit hin => hk (h.1 (hmem hin)),
      fun hk => ?_, fun hk => ?_,
      fun n db' e => (hsparedFor n db' e).trans h, fun n db' e => (hspared n db' e).trans h⟩
    · refine page_complete ?_ (List.mem_filter.2 ⟨hr, by simpa using h.2 hk⟩) hs
      -- a page as long as the table has room for every row
      have hlen :=
        List.length_filter_le
          (fun x : IntentEvent => decide (x.accountId = r.accountId ∧ now < x.expiresAt))
        db.intentEvents.rows
      have hafter : (after IntentEvent.seq (db.intentEvents.rows.filter fun x =>
        decide (x.accountId = r.accountId ∧ now < x.expiresAt)) since).length ≤ limit := by
        unfold after
        rw [List.length_insertionSort]
        have := List.length_filter_le (fun x : IntentEvent => decide (since < x.seq))
          (db.intentEvents.rows.filter fun x =>
            decide (x.accountId = r.accountId ∧ now < x.expiresAt))
        omega
      unfold page
      dsimp only
      rw [if_neg (by rw [List.length_take]; omega)]
    · have hlt := h.2 hk
      rw [if_pos (by simpa using hlt)] at hcount
      exact hcount.symm
    · have hge := mt h.1 hk
      rw [if_neg (by simpa using hge), Nat.add_zero] at hcount
      exact hcount.symm

/-! ## Time -/

/-- **Expiry follows time up to the year 9999.** For every event a batch
accepts, wherever its row is stored, and every clock with a four-digit year:
the statements keep it exactly while the clock is before the instant its
`expiresAt` names, if and only if that instant is before the year 10000. -/
theorem expiry_follows_time (host : Host) {i : Nat} {raw : Json} {ev : IntentEventInput}
    (hev : checkEvent host i raw = .ok ev) : ∃ value expiry, field raw "expiresAt" = .ok value ∧
      expiryInstant host value = some expiry ∧
      ∀ a seq mtime db now, ev.stored a seq mtime ∈ db.intentEvents.rows → Iso.FourDigit now →
        (Kept db (ev.stored a seq mtime) (Iso.isoText now) (now < expiry) ↔
          expiry < Iso.yearTenThousand) := by
  obtain ⟨value, expiry, hf, hv, -, ht⟩ := checkEvent_expires hev
  refine ⟨value, expiry, hf, hv, fun a seq mtime db now hr hnow => ?_⟩
  rw [kept_iff hr, show (ev.stored a seq mtime).expiresAt = Iso.isoText expiry from ht]
  exact Iso.text_follows_time hnow

/-- An event with an empty envelope. -/
def sampleEvent (id : String) (expiresAt : Nat) : Json :=
  .obj [("eventId", .str id), ("envelope", .str ""), ("expiresAt", .nat expiresAt)]

/-- A host that parses no date strings. -/
def noDates : Host := ⟨fun _ => "", fun _ => none⟩

/-- Midnight of 2025-01-01 -/
def newYear : Nat := 1735689600000

/-- An intent that expires a second after the clock is kept by every statement. -/
theorem expiry_follows_time_soon :
    let ev : IntentEventInput := ⟨"x", [], "2025-01-01T00:00:01.000Z"⟩
    let db : Db := { Db.empty with intentEvents := Table.empty.upsert (ev.stored "a" 1 "t") }
    Kept db (ev.stored "a" 1 "t") (Iso.isoText newYear) ((newYear : Int) < newYear + 1000) := by
  intro ev db
  have hev : checkEvent noDates 0 (sampleEvent "x" (newYear + 1000)) = .ok ev := by rfl
  obtain ⟨value, expiry, hf, hv, h⟩ := expiry_follows_time noDates hev
  have he : expiry = (newYear : Int) + 1000 := by
    cases hf
    exact (Option.some.inj hv).symm
  subst he
  exact (h "a" 1 "t" db newYear (by decide +kernel) (by decide)).2 (by decide)

/-- An intent that expires in the year 10000 is accepted, counted as written,
and gone before the answer. -/
theorem far_expiry_dropped :
    let ev : IntentEventInput := ⟨"x", [], "+010000-01-01T00:00:00.000Z"⟩
    let db : Db := { Db.empty with intentEvents := Table.empty.upsert (ev.stored "a" 1 "t") }
    checkEvent noDates 0 (sampleEvent "x" 253402300800000) = .ok ev ∧
      expiryInstant noDates (some (.nat 253402300800000)) = some 253402300800000 ∧
      Iso.FourDigit newYear ∧ ((newYear : Int) < 253402300800000) ∧
      ev.stored "a" 1 "t" ∈ db.intentEvents.rows ∧
      ¬ Kept db (ev.stored "a" 1 "t") (Iso.isoText newYear) ((newYear : Int) < 253402300800000) ∧
      ((insertIntents "a" [ev] fun _ => Iso.isoText newYear).eval .empty).toOption.map
        (fun r => (r.1.written, r.2.intentEvents.rows)) = some (1, []) := by
  intro ev db
  have hr : ev.stored "a" 1 "t" ∈ db.intentEvents.rows := by decide +kernel
  refine ⟨rfl, rfl, by decide, by decide, hr, fun h => ?_, by decide +kernel⟩
  exact absurd ((kept_iff hr).1 h) (by decide +kernel)

end GlanceVault.L3
