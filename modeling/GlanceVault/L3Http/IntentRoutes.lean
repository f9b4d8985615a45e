import GlanceVault.L3Http.SyncRoutes
/-!
# Intents and salt routes (`routes/intents.ts`, `routes/salt.ts`)

The cross-app channel, an insert-only batch whose events carry the time they
expire, and the key-derivation salt of the account named in the path.

* `normalizeExpiresAt_inRange`: an accepted expiry is the text of an instant a
  `Date` can hold.
-/
namespace GlanceVault.L3
open GlanceVault.Core GlanceVault.L1 GlanceVault.L1.Js GlanceVault.L2

/-- mirrors src/routes/intents.ts:13-21 (`serializeIntent`) -/
def serializeIntent (row : IntentEvent) : Json := .obj
  [("eventId", .str row.eventId), ("envelope", .str (Base64.encode row.envelope)),
    ("seq", .nat row.seq),
    ("expiresAt", .str row.expiresAt), ("serverMtime", .str row.serverMtime)]

/-- `new Date(n).getTime()` for a number; `none` is NaN. -/
def timeOfNumber : JsNumber → Option Int
  | .finite q =>
    if -(Iso.maxTime : Rat) ≤ q ∧ q ≤ Iso.maxTime then some (q.num.tdiv q.den) else none
  | _ => none

/-- mirrors src/routes/intents.ts:39-48 (`normalizeExpiresAt`) -/
def normalizeExpiresAt (host : Host) (value : Option Json) : Option String :=
  let ms := match value with
    | some (.str s) => host.dateParse s
    | some (.num n) => timeOfNumber n
    | _ => none
  (ms.filter Iso.inRange).map Iso.isoText

/-! ## Batch -/

/-- One element of `events`. mirrors src/routes/intents.ts:92-117 -/
def checkEvent (host : Host) (i : Nat) (raw : Json) : Except Abort IntentEventInput := do
  let eventId ← requiredText (← field raw "eventId") s!"events[{i}].eventId is required"
  let envelope ← requiredString
      (← field raw "envelope") s!"events[{i}].envelope must be a base64 string"
  match normalizeExpiresAt host (← field raw "expiresAt") with
  | some expiresAt => pure ⟨eventId, Base64.decode envelope, expiresAt⟩
  | none => .error (.error 400 s!"events[{i}].expiresAt must be a valid timestamp")

def checkEvents (host : Host) (i : Nat) : List Json → Except Abort (List IntentEventInput)
  | [] => pure []
  | raw :: raws => do
    let event ← checkEvent host i raw
    let events ← checkEvents host (i + 1) raws
    pure (event :: events)

structure IntentsCall where
  accountId : String
  events : List IntentEventInput

/-- mirrors src/routes/intents.ts:79-117 (`POST /batch`, the checks) -/
def checkIntents (host : Host) (body : Body) : Except Abort IntentsCall := do
  let body ← jsonBody body
  let accountId ← requiredText (← field body "accountId") "accountId is required"
  let raws ← requiredArray (← field body "events") "events must be an array"
  let events ← checkEvents host 0 raws
  pure ⟨accountId, events⟩

/-- mirrors src/routes/intents.ts:118-145 (`POST /batch`) -/
def intentsBatch (cfg : Config) (env : Env) (a : String) (events : List IntentEventInput) :
    Handler Response := do
  gated cfg fun gate => admitIntents gate a (events.map (·.eventId)) env.quotaNow
  let result ← exec (insertIntents a events env.clock)
  if 0 < result.maxSeq then do
    emit env a ⟨result.maxSeq, some "intents"⟩
    pure (BatchResult.json result)
  else pure (BatchResult.json result)

/-- mirrors src/routes/intents.ts:178-183 (`GET /list`) -/
def intentsList (env : Env) (a : String) (since limit : Nat) : Handler Response := do
  let result ← readDb (listIntents a since limit (env.clock 0))
  pure (.json 200 [("rows", .arr (result.rows.map serializeIntent)),
    ("hasMore", .bool result.hasMore)])

/-! ## Salt -/

/-- The `accountId` parameter. mirrors src/routes/salt.ts:17-23 -/
def checkAccountParam (a : String) : Except Abort Unit :=
  if isBlank a then .error (.error 400 "accountId is required") else .ok ()

/-- mirrors src/routes/salt.ts:39-44 (`PUT /:accountId`, the checks) -/
def checkSalt (a : String) (body : Body) : Except Abort String := do
  checkAccountParam a
  let body ← jsonBody body
  requiredText (← field body "salt") "salt must be a non-empty base64 string"

def saltFields (record : AccountSalt) : List (String × Json) :=
  [("accountId", .str record.accountId), ("salt", .str record.salt),
    ("createdAt", .str record.createdAt)]

/-- mirrors src/routes/salt.ts:26-33 (`GET /:accountId`) -/
def saltGet (a : String) : Handler Response := do
  let record ← readDb (getSalt a)
  let record ← Prog.found record (.error 404 "not found")
  pure (.json 200 (saltFields record))

/-- mirrors src/routes/salt.ts:45-47 (`PUT /:accountId`) -/
def saltPut (env : Env) (a salt : String) : Handler Response := do
  let result ← exec (putSaltIfAbsent a salt (env.clock 0))
  pure (.json 200 ((result.record.map saltFields).getD [] ++ [("created", .bool result.created)]))

theorem normalizeExpiresAt_inRange {host : Host} {value : Option Json} {t : String}
    (h : normalizeExpiresAt host value = some t) :
    ∃ ms, Iso.inRange ms = true ∧ t = Iso.isoText ms := by
  unfold normalizeExpiresAt at h
  simp only [Option.map_eq_some_iff, Option.filter_eq_some_iff] at h
  obtain ⟨ms, ⟨-, hr⟩, rfl⟩ := h
  exact ⟨ms, hr, rfl⟩

end GlanceVault.L3
