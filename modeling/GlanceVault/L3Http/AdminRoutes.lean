import GlanceVault.L3Http.Fields
import GlanceVault.L3Http.Scope
/-!
# Enrollment and administration (`routes/enroll.ts`, `routes/admin.ts`)

The routes that authenticate themselves: a device exchanges a proof for its
own credential, the operator revokes credentials and creates, rekeys and
deletes accounts. An enrollment proof is either the operator's secret with a
claimed account, or an account key, which alone decides the account.

* `enrollmentAccount_key`: with an account key the account is the one the
  registry has bound to the key's hash.
-/
namespace GlanceVault.L3
open GlanceVault.Core GlanceVault.L1 GlanceVault.L1.Js GlanceVault.L2

/-- `req.body ?? {}` -/
def orEmpty : Json → Json
  | .null => .obj []
  | j => j

/-! ## Enrollment -/

/-- mirrors src/routes/enroll.ts:69-82 (`bootstrapSecretValidator`) -/
def bootstrapAccount (configuredSecret : String) (body : Json) : Except Abort String := do
  let secret ← requiredText (← field body "enrollmentSecret") "enrollmentSecret is required"
  let accountId ← requiredText (← field body "accountId") "accountId is required"
  if secret = configuredSecret then pure accountId
  else .error (.error 401 "invalid enrollment secret")

/-- mirrors src/routes/enroll.ts:88-104 (`accountKeyValidator`) -/
def accountKeyAccount (host : Host) (db : Db) (body : Json) : Except Abort String := do
  let accountKey ← requiredText (← field body "accountKey") "accountKey is required"
  match getAccountByKeyHash (host.hashText accountKey) db with
  | none => .error (.error 401 "invalid account key")
  | some account =>
    match (← field body "accountId") with
    | none => pure account.accountId
    | some (.str claimed) =>
      if claimed = account.accountId then pure account.accountId
      else .error (.error 403 "accountId does not match the account key")
    | some _ => .error (.error 403 "accountId does not match the account key")

/-- The account an enrollment proof is good for. -/
def enrollmentAccount (cfg : Config) (host : Host) (db : Db) (body : Json) : Except Abort String :=
  match cfg.enrollmentMode with
  | .bootstrap => bootstrapAccount cfg.enrollmentSecret body
  | .accountKey => accountKeyAccount host db body

/-- mirrors src/routes/enroll.ts:118-155 (`POST /enroll`) -/
def enroll (cfg : Config) (host : Host) (env : Env) (body : Body) : Handler Response := do
  let body ← Prog.ofExcept ((jsonBody body).map orEmpty)
  let decision ← readDb fun db => enrollmentAccount cfg host db body
  let accountId ← Prog.ofExcept decision
  let deviceId ← Prog.ofExcept (do requiredText (← field body "deviceId") "deviceId is required")
  let issued ← exec (issueCredential env.uuid accountId deviceId
      (host.hashText ("gvc_" ++ env.secret)) (env.clock 0))
  pure (.json 201 [("credentialId", .str issued.record.credentialId),
    ("credential", .str ("gvc_" ++ env.secret)),
    ("accountId", .str issued.record.accountId), ("deviceId", .str issued.record.deviceId),
    ("createdAt", .str issued.record.createdAt)])

/-! ## Credentials -/

/-- mirrors src/routes/admin.ts:42-55 (`adminAuth`) -/
def adminAuth (cfg : Config) (header : Option String) : Except Abort Unit :=
  match bearer header with
  | none => .error (.error 401 "missing or malformed Authorization header")
  | some secret =>
    if secret = cfg.enrollmentSecret then .ok ()
    else .error (.error 401 "invalid enrollment secret")

/-- The hub ends the streams of a credential. mirrors src/server.ts:134, 152 (`onRevoked`) -/
def onRevoked (credentialId : String) : Handler Unit := .poke fun s =>
  { s with hub := s.hub.disconnectCredential credentialId }

/-- mirrors src/routes/admin.ts:61-75 (`serializeCredential`) -/
def credentialFields (c : Credential) : List (String × Json) :=
  [("credentialId", .str c.credentialId), ("accountId", .str c.accountId),
    ("deviceId", .str c.deviceId),
    ("createdAt", .str c.createdAt), ("revokedAt", .optStr c.revokedAt)]

/-- mirrors src/routes/admin.ts:111-127 (`POST /credentials/:credentialId/revoke`) -/
def revokeCredential (env : Env) (credentialId : String) : Handler Response := do
  let changes ← exec (stampRevoked credentialId (env.clock 0))
  let record ← readDb (getCredentialById credentialId)
  let record ← Prog.found record (.error 404 "unknown credential")
  if 0 < changes then do
    onRevoked record.credentialId
    pure (.json 200 (credentialFields record ++ [("revokedNow", .bool true)]))
  else pure (.json 200 (credentialFields record ++ [("revokedNow", .bool false)]))

/-! ## Accounts -/

/-- mirrors src/routes/admin.ts:202-209 (`serializeAccount`) -/
def accountFields (r : Account) : List (String × Json) :=
  [("accountId", .str r.accountId), ("label", .optStr r.label), ("createdAt", .str r.createdAt),
    ("keyRotatedAt", .optStr r.keyRotatedAt)]

def maxAccountIdLength : Nat := 128

def maxLabelLength : Nat := 200

/-- mirrors src/routes/admin.ts:232-239 -/
def checkLabel (v : Option Json) : Except Abort (Option String) :=
  match v with
  | none => .ok none
  | some .null => .ok none
  | some (.str s) =>
    if maxLabelLength < length16 s then
      .error (.error 400 "label must be a string of at most 200 characters")
    else .ok (some s)
  | some _ => .error (.error 400 "label must be a string of at most 200 characters")

/-- mirrors src/routes/admin.ts:241-256 -/
def checkNewAccountId (v : Option Json) (fresh : String) : Except Abort String :=
  match v with
  | none => .ok fresh
  | some (.str s) =>
    if isBlank s || maxAccountIdLength < length16 s then
      .error (.error 400 "accountId must be a non-empty string of at most 128 characters")
    else .ok s
  | some _ => .error (.error 400 "accountId must be a non-empty string of at most 128 characters")

/-- mirrors src/routes/admin.ts:229-269 (`POST /admin/accounts`) -/
def createAccountRoute (cfg : Config) (host : Host) (env : Env) (body : Body) :
    Handler Response := do
  let body ← Prog.ofExcept ((jsonBody body).map orEmpty)
  let label ← Prog.ofExcept (do checkLabel (← field body "label"))
  let accountId ← Prog.ofExcept
      (do checkNewAccountId (← field body "accountId") ("acct_" ++ env.uuid))
  let result ← exec (createAccount accountId label
      (host.hashText ("gvk_" ++ env.secret)) cfg.maxAccounts (env.clock 0))
  match result with
  | .error .exists => .raise (.error 409 "account already exists")
  | .error .limit => .raise (.respond
      (.json 409 [("error", .str "account limit reached"),
        ("maxAccounts", .optNat cfg.maxAccounts)]))
  | .ok r => pure (.json 201 (accountFields r ++ [("accountKey", .str ("gvk_" ++ env.secret))]))

/-- mirrors src/routes/admin.ts:286-306 (`POST /:accountId/rotate-key`) -/
def rotateKeyRoute (host : Host) (env : Env) (a : String) (body : Body) : Handler Response := do
  let body ← Prog.ofExcept ((jsonBody body).map orEmpty)
  let revokeDevices ← Prog.ofExcept (do
    optionalFlag (← field body "revokeDevices") "revokeDevices must be a boolean")
  let result ← exec (rotateAccountKey a (host.hashText ("gvk_" ++ env.secret))
      (revokeDevices = some true) (env.clock 0))
  let result ← Prog.found result (.error 404 "unknown account")
  Prog.each onRevoked result.revokedCredentialIds
  pure (.json 200 (accountFields result.record ++ [("accountKey", .str ("gvk_" ++ env.secret)),
    ("revokedCredentials", .nat result.revokedCredentialIds.length)]))

/-- `body.confirm !== accountId` -/
def confirms (v : Option Json) (a : String) : Bool :=
  match v with
  | some (.str s) => decide (s = a)
  | _ => false

/-- mirrors src/routes/admin.ts:314-343 (`DELETE /:accountId`) -/
def deleteAccountRoute (a : String) (body : Body) : Handler Response := do
  let body ← Prog.ofExcept ((jsonBody body).map orEmpty)
  let confirm ← Prog.ofExcept (field body "confirm")
  Prog.require (confirms confirm a) (.error 400 "confirm must repeat the accountId being deleted")
  let result ← exec (deleteAccount a)
  let result ← Prog.found result (.error 404 "unknown account")
  Prog.each onRevoked result.credentialIds
  Prog.each discardSession result.uploadIds
  Prog.each deleteBytes result.blobHashes
  pure (.json 200 (accountFields result.record ++ [("deletedRows", .nat result.deletedRows),
    ("revokedCredentials", .nat result.credentialIds.length),
    ("deletedBlobs", .nat result.blobHashes.length)]))

theorem enrollmentAccount_key {host : Host} {db : Db} {body : Json} {a : String}
    (h : accountKeyAccount host db body = .ok a) :
    ∃ key r, body.field "accountKey" = .ok (some (.str key)) ∧
      getAccountByKeyHash (host.hashText key) db = some r ∧ r.accountId = a := by
  unfold accountKeyAccount field at h
  cases hf : body.field "accountKey" with
  | error e => rw [hf] at h; cases h
  | ok v =>
    rw [hf] at h
    simp only [bind, Except.bind] at h
    cases ht : requiredText v "accountKey is required" with
    | error e => rw [ht] at h; cases h
    | ok key =>
      rw [ht] at h
      obtain ⟨rfl, -⟩ := requiredText_ok.1 ht
      simp only at h
      cases hr : getAccountByKeyHash (host.hashText key) db with
      | none => rw [hr] at h; cases h
      | some r =>
        rw [hr] at h
        simp only at h
        refine ⟨key, r, rfl, hr, ?_⟩
        split at h
        · cases h
        · split at h
          · cases h; rfl
          · split at h
            · cases h; rfl
            · cases h
          · cases h

end GlanceVault.L3
