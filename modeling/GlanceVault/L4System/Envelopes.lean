import GlanceVault.L3Http.Envelopes
import GlanceVault.L4System.System
/-!
# Envelopes that are kept

* `envelopes_kept`: a text is returned for what it says or refused, whatever the
  request and the server, only if it is base64.
* `truncated_envelope`: one that is not, and what is stored of it.
-/
namespace GlanceVault.L4
open GlanceVault.Core GlanceVault.L1 GlanceVault.L1.Js GlanceVault.L2 GlanceVault.L3

/-- A batch of one row with the text as its envelope. -/
def rowOf (s : String) : Body :=
  .json (.obj [("accountId", .str "a"),
    ("rows", .arr [.obj [("entityId", .str "e"), ("envelope", .str s)]])])

/-- A batch of one intent with the text as its envelope. -/
def intentOf (s : String) : Body :=
  .json (.obj [("accountId", .str "a"),
    ("events", .arr [.obj [("eventId", .str "e"), ("envelope", .str s), ("expiresAt", .nat 0)]])])

/-- A batch is not refused for its envelopes. -/
theorem base64_of_syncKeeps {s : String} (h : SyncKeeps s) : Base64.isBase64 s = true := by
  by_contra hno
  have hrefused :=
    (h sampleConfig sampleHost none (sampleEnv "" "t") "dayglance" (rowOf s) Server.fresh 0 _
      ⟨_, _, rfl, rfl, rfl⟩ rfl).2 hno
  have hanswer :
      (finish (handle sampleConfig sampleHost none (sampleEnv "" "t")
        (.syncBatch "dayglance" (rowOf s)) Server.fresh)).status = 200 := by
    rfl
  rw [hrefused.1] at hanswer
  cases hanswer

theorem base64_of_intentKeeps {s : String} (h : IntentKeeps s) : Base64.isBase64 s = true := by
  by_contra hno
  have hrefused :=
    (h sampleConfig sampleHost none (sampleEnv "" "t") (intentOf s) Server.fresh 0 _
      ⟨_, _, rfl, rfl, rfl⟩ rfl).2 hno
  have hanswer :
      (finish (handle sampleConfig sampleHost none (sampleEnv "" "t")
        (.intentsBatch (intentOf s)) Server.fresh)).status = 200 := by
    rfl
  rw [hrefused.1] at hanswer
  cases hanswer

/-- **Base64 texts, and no others, are kept.** -/
theorem envelopes_kept (s : String) :
    (SyncKeeps s ↔ Base64.isBase64 s = true) ∧ (IntentKeeps s ↔ Base64.isBase64 s = true) :=
  ⟨⟨base64_of_syncKeeps, syncKeeps_of⟩, ⟨base64_of_intentKeeps, intentKeeps_of⟩⟩

/-- Two texts in a row: the batch is answered 200, and the row comes back with
the first of them only. -/
theorem truncated_envelope :
    let o := handle sampleConfig sampleHost none (sampleEnv "" "t")
      (.syncBatch "dayglance" (rowOf "aGVsbG8=d29ybGQ=")) Server.fresh
    (finish o).status = 200 ∧ (∃ j, SyncReads o.state "a" "dayglance" "e" j ∧
      ShowsEnvelope j "aGVsbG8=") ∧
      ¬ SyncKeeps "aGVsbG8=d29ybGQ=" ∧ ¬ IntentKeeps "aGVsbG8=d29ybGQ=" := by
  intro o
  have hno : ¬ Base64.isBase64 "aGVsbG8=d29ybGQ=" = true := by decide +kernel
  refine ⟨by rfl, ?_, fun h => hno (base64_of_syncKeeps h), fun h => hno (base64_of_intentKeeps h)⟩
  have hstored : (o.state.db.syncRows.find ("a", "dayglance", "e")).map
      (fun r => (r.entityId, Base64.encode r.envelope)) =
      some ("e", "aGVsbG8=") := by decide +kernel
  cases hr : o.state.db.syncRows.find ("a", "dayglance", "e") with
  | none => rw [hr] at hstored; cases hstored
  | some r =>
    rw [hr, Option.map_some, Option.some.injEq, Prod.mk.injEq] at hstored
    obtain ⟨hid, henv⟩ := hstored
    refine ⟨serializeRow r, ?_, ?_⟩
    · have hreads : SyncReads o.state "a" "dayglance" r.entityId (serializeRow r) :=
        syncReads_some (by rw [hid]; exact hr)
      rw [hid] at hreads
      exact hreads
    · rw [← henv]
      rfl

end GlanceVault.L4
