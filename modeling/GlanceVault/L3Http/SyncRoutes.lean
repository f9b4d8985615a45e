import GlanceVault.L3Http.Fields
/-!
# Sync routes (`routes/sync.ts`)

Each handler in two parts: the checks before `resolve`, which yield the
account the request claims and the decoded arguments, and what is done for
the account the scope is bound to.

* `checkRows_length`, `checkBatch_ok`: a decoded batch has as many rows as the
  body, and neither its account nor an entity id in it is blank.
-/
namespace GlanceVault.L3
open GlanceVault.Core GlanceVault.L1 GlanceVault.L1.Js GlanceVault.L2

/-- mirrors src/routes/sync.ts:13-24 (`serializeRow`) -/
def serializeRow (row : SyncRow) : Json := .obj
  [("entityId", .str row.entityId), ("envelope", .str (Base64.encode row.envelope)),
    ("seq", .nat row.seq),
    ("deleted", .bool row.deleted), ("serverMtime", .str row.serverMtime),
    ("deletedAt", (row.deletedAt.map fun q => Json.num (.finite q)).getD .null)]

/-- The `app` parameter of every sync route. mirrors src/routes/sync.ts:70-76 -/
def checkApp (cfg : Config) (app : String) : Except Abort Unit :=
  if app ∈ cfg.allowedApps then .ok ()
  else
    .error (.respond (.json 400 [("error", .str "unknown app"),
      ("allowed", .arr (cfg.allowedApps.eraseDups.map Json.str))]))

/-! ## Batch -/

/-- One element of `rows`. mirrors src/routes/sync.ts:107-147 -/
def checkRow (i : Nat) (raw : Json) : Except Abort SyncRowInput := do
  let entityId ← requiredText (← field raw "entityId") s!"rows[{i}].entityId is required"
  let envelope ← requiredString
      (← field raw "envelope") s!"rows[{i}].envelope must be a base64 string"
  let deleted ← optionalFlag (← field raw "deleted") s!"rows[{i}].deleted must be a boolean"
  let insertOnly ← optionalFlag
      (← field raw "insertOnly") s!"rows[{i}].insertOnly must be a boolean"
  let deletedAt ← optionalNatural
      (← field raw "deletedAt") s!"rows[{i}].deletedAt must be a non-negative integer"
  pure ⟨entityId, Base64.decode envelope, deleted = some true, insertOnly = some true,
    deletedAt.map .ofNat⟩

def checkRows (i : Nat) : List Json → Except Abort (List SyncRowInput)
  | [] => pure []
  | raw :: raws => do
    let row ← checkRow i raw
    let rows ← checkRows (i + 1) raws
    pure (row :: rows)

structure BatchCall where
  accountId : String
  rows : List SyncRowInput
  notify : Bool

/-- mirrors src/routes/sync.ts:85-147 (`POST /:app/batch`, the checks) -/
def checkBatch (cfg : Config) (app : String) (body : Body) : Except Abort BatchCall := do
  checkApp cfg app
  let body ← jsonBody body
  let accountId ← requiredText (← field body "accountId") "accountId is required"
  let raws ← requiredArray (← field body "rows") "rows must be an array"
  let notify ← optionalFlag (← field body "notify") "notify must be a boolean"
  let rows ← checkRows 0 raws
  pure ⟨accountId, rows, notify ≠ some false⟩

def BatchResult.json (r : BatchResult) : Response :=
  .json 200 [("written", .nat r.written), ("maxSeq", .nat r.maxSeq)]

/-- mirrors src/routes/sync.ts:149-185 (`POST /:app/batch`) -/
def batch (cfg : Config) (env : Env) (a app : String) (rows : List SyncRowInput) (notify : Bool) :
    Handler Response := do
  gated cfg fun gate => admitSyncBatch gate a app (rows.map (·.entityId))
  let result ← exec (batchUpsert app a rows env.clock)
  if notify && 0 < result.maxSeq then do
    emit env a ⟨result.maxSeq, some app⟩
    pure (BatchResult.json result)
  else pure (BatchResult.json result)

/-! ## Device cursor -/

structure DeviceCall where
  accountId : String
  deviceId : String
  lastSeenSeq : Nat

/-- mirrors src/routes/sync.ts:200-217 (`POST /:app/device`, the checks) -/
def checkDevice (cfg : Config) (app : String) (body : Body) : Except Abort DeviceCall := do
  checkApp cfg app
  let body ← jsonBody body
  let accountId ← requiredText (← field body "accountId") "accountId is required"
  let deviceId ← requiredText (← field body "deviceId") "deviceId is required"
  let lastSeenSeq ← requiredNatural
      (← field body "lastSeenSeq") "lastSeenSeq must be a non-negative integer"
  pure ⟨accountId, deviceId, lastSeenSeq⟩

/-- mirrors src/routes/sync.ts:218-220 (`POST /:app/device`) -/
def device (env : Env) (a deviceId : String) (lastSeenSeq : Nat) : Handler Response := do
  exec (updateDeviceCursor a deviceId lastSeenSeq (env.clock 0))
  pure (.json 200 [("updated", .bool true)])

/-! ## Reads -/

structure ListCall where
  accountId : String
  since : Nat
  limit : Nat

/-- mirrors src/routes/sync.ts:224-251, src/routes/intents.ts:150-176 -/
def checkList (query : Query) : Except Abort ListCall := do
  let accountId ← requiredAccountId query
  let since ← sinceParam query
  let limit ← limitParam query
  pure ⟨accountId, since, limit⟩

/-- mirrors src/routes/sync.ts:253-258 (`GET /:app/list`) -/
def list (a app : String) (since limit : Nat) : Handler Response := do
  let result ← readDb (listRows app a since limit)
  pure (.json 200 [("rows", .arr (result.rows.map serializeRow)),
    ("hasMore", .bool result.hasMore)])

/-- mirrors src/routes/sync.ts:271-277 (`GET /:app/:entityId`) -/
def getEntity (a app entityId : String) : Handler Response := do
  let row ← readDb (getRow app a entityId)
  let row ← Prog.found row (.error 404 "not found")
  pure ⟨200, [], .json (serializeRow row)⟩

/-! ## Row delete -/

structure DeleteCall where
  accountId : String
  deletedAt : Option Nat

/-- mirrors src/routes/sync.ts:286-300 (`DELETE /:app/:entityId`, the checks) -/
def checkDelete (cfg : Config) (app : String) (query : Query) : Except Abort DeleteCall := do
  checkApp cfg app
  let accountId ← requiredAccountId query
  let deletedAt ← queryNatural query "deletedAt" "deletedAt must be a non-negative integer"
  pure ⟨accountId, deletedAt⟩

/-- mirrors src/routes/sync.ts:301-320 (`DELETE /:app/:entityId`) -/
def deleteEntity (env : Env) (a app entityId : String) (deletedAt : Option Nat) :
    Handler Response := do
  let result ← exec (softDeleteRow app a entityId (deletedAt.map .ofNat) (env.clock 0))
  let result ← Prog.found result (.error 404 "not found")
  if result.alreadyDeleted then pure (.json 200 [("seq", .nat result.seq)])
  else do
    emit env a ⟨result.seq, some app⟩
    pure (.json 200 [("seq", .nat result.seq)])

/-! ## Decoded batches -/

theorem checkRow_ok {i : Nat} {raw : Json} {row : SyncRowInput} (h : checkRow i raw = .ok row) :
    field raw "entityId" = .ok (some (.str row.entityId)) ∧ isBlank row.entityId = false := by
  unfold checkRow at h
  obtain ⟨v, hv, h⟩ := bind_ok h
  obtain ⟨entityId, ht, h⟩ := bind_ok h
  obtain ⟨hid, hb⟩ := requiredText_ok.1 ht
  -- the remaining checks do not touch the entity id
  obtain ⟨_, -, h⟩ := bind_ok h
  obtain ⟨envelope, -, h⟩ := bind_ok h
  obtain ⟨_, -, h⟩ := bind_ok h
  obtain ⟨deleted, -, h⟩ := bind_ok h
  obtain ⟨_, -, h⟩ := bind_ok h
  obtain ⟨insertOnly, -, h⟩ := bind_ok h
  obtain ⟨_, -, h⟩ := bind_ok h
  obtain ⟨deletedAt, -, h⟩ := bind_ok h
  cases h
  exact ⟨by rw [hv, hid], hb⟩

/-- What holds of every row that passes its check holds of a checked batch. -/
theorem checkRows_forall {P : SyncRowInput → Prop}
    (hP : ∀ {i raw row}, checkRow i raw = .ok row → P row) :
    ∀ {raws : List Json} {i : Nat} {rows : List SyncRowInput}, checkRows i raws = .ok rows →
    ∀ row ∈ rows, P row
  | [], _, _, h => by cases h; simp
  | raw :: raws, i, rows, h => by
    obtain ⟨row, hrow, h⟩ := bind_ok h
    obtain ⟨rest, hrest, h⟩ := bind_ok h
    cases h
    intro x hx
    rcases List.mem_cons.1 hx with rfl | hx
    · exact hP hrow
    · exact checkRows_forall hP hrest x hx

theorem checkRows_length : ∀ {raws : List Json} {i : Nat} {rows : List SyncRowInput},
    checkRows i raws = .ok rows → rows.length = raws.length
  | [], _, _, h => by cases h; rfl
  | raw :: raws, i, rows, h => by
    obtain ⟨row, -, h⟩ := bind_ok h
    obtain ⟨rest, hrest, h⟩ := bind_ok h
    cases h
    rw [List.length_cons, checkRows_length hrest, List.length_cons]

theorem checkRows_entityId {raws : List Json} {i : Nat} {rows : List SyncRowInput}
    (h : checkRows i raws = .ok rows) :
    ∀ row ∈ rows, isBlank row.entityId = false :=
  checkRows_forall (fun hrow => (checkRow_ok hrow).2) h

/-- The account and the rows of a checked batch are named. -/
theorem checkBatch_ok {cfg : Config} {app : String} {body : Body} {c : BatchCall}
    (h : checkBatch cfg app body = .ok c) :
    isBlank c.accountId = false ∧ ∀ row ∈ c.rows, isBlank row.entityId = false := by
  unfold checkBatch at h
  obtain ⟨_, -, h⟩ := bind_ok h
  obtain ⟨j, -, h⟩ := bind_ok h
  obtain ⟨_, -, h⟩ := bind_ok h
  obtain ⟨a, ha, h⟩ := bind_ok h
  obtain ⟨_, -, h⟩ := bind_ok h
  obtain ⟨raws, -, h⟩ := bind_ok h
  obtain ⟨_, -, h⟩ := bind_ok h
  obtain ⟨notify, -, h⟩ := bind_ok h
  obtain ⟨rows, hrows, h⟩ := bind_ok h
  cases h
  exact ⟨(requiredText_ok.1 ha).2, checkRows_entityId hrows⟩

end GlanceVault.L3
