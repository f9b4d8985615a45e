import GlanceVault.L3Http.Http
/-!
# Authentication and the account scope (`middleware/*-auth.ts`, `scope.ts`)

Who a request is from, which account it may act for, and the operations on
blob bytes that check the account's own rows first. An account scope is the
account id it is bound to; its metadata methods are the statements of
`L2Storage`.

* `credentialAuth_active`: in per-account mode a request passes only with a
  credential that is active at that moment.
* `resolveScope_bound`: the account acted for is the credential's, and the one
  claimed.
-/
namespace GlanceVault.L3
open GlanceVault.Core GlanceVault.L1 GlanceVault.L1.Js GlanceVault.L2

/-- The token of a `Bearer` authorization header. -/
def bearer (header : Option String) : Option String :=
  header.bind fun h => (stripPrefix "Bearer ".toList h.toList).map String.ofList

/-- mirrors src/middleware/auth.ts:22-37 (`deviceTokenAuth`) -/
def deviceTokenAuth (validToken : String) (header : Option String) :
    Except Response (Option Credential) :=
  match bearer header with
  | none => .error (.error 401 "missing or malformed Authorization header")
  | some token =>
    if token = validToken then .ok none else .error (.error 401 "invalid device token")

/-- mirrors src/middleware/credential-auth.ts:41-86 (`credentialAuth`) -/
def credentialAuth (host : Host) (db : Db) (header : Option String) :
    Except Response (Option Credential) :=
  match bearer header with
  | none => .error (.error 401 "missing or malformed Authorization header")
  | some token =>
    match getCredentialByHash (host.hashText token) db with
    | none => .error (.error 401 "invalid credential")
    | some record =>
      if record.active then .ok (some record) else .error (.error 401 "invalid credential")

/-- The middleware `buildApp` mounts. mirrors src/server.ts:166-170 -/
def authenticate (cfg : Config) (host : Host) (db : Db) (header : Option String) :
    Except Response (Option Credential) :=
  match cfg.authMode with
  | .shared => deviceTokenAuth cfg.deviceToken header
  | .perAccount => credentialAuth host db header

theorem credentialAuth_active {host : Host} {db : Db} {header : Option String}
    {c : Option Credential} (h : credentialAuth host db header = .ok c) :
    ∃ r, c = some r ∧ r ∈ db.deviceCredentials.rows ∧ r.active = true := by
  unfold credentialAuth at h
  split at h
  · cases h
  · split at h
    · cases h
    · rename_i r hr
      split at h
      · rename_i ha
        cases h
        exact ⟨r, rfl, List.mem_of_find?_eq_some hr, ha⟩
      · cases h

/-- The account a request acts for. mirrors src/scope.ts:181-211 (`makeScopeResolver`) -/
def resolveScope (mode : AuthMode) (credential : Option Credential) (claimedAccountId : String) :
    Except ScopeError String :=
  match mode with
  | .shared => .ok claimedAccountId
  | .perAccount =>
    match credential with
    | none => .error ⟨401, "no authenticated credential"⟩
    | some c =>
      if c.accountId ≠ claimedAccountId then .error ⟨403, "credential is not bound to this account"⟩
      else .ok c.accountId

theorem resolveScope_bound {credential : Option Credential} {claimed a : String}
    (h : resolveScope .perAccount credential claimed = .ok a) :
    a = claimed ∧ ∃ c, credential = some c ∧ c.accountId = a := by
  unfold resolveScope at h
  cases credential with
  | none => cases h
  | some c =>
    simp only at h
    by_cases hc : c.accountId = claimed
    · rw [if_neg (by simpa using hc)] at h
      cases h
      exact ⟨hc, c, rfl, rfl⟩
    · rw [if_pos hc] at h; cases h

/-- No request acts for another account than the one it claims. -/
theorem resolveScope_claimed {mode : AuthMode} {credential : Option Credential} {claimed a : String}
    (h : resolveScope mode credential claimed = .ok a) : a = claimed := by
  cases mode with
  | shared => cases h; rfl
  | perAccount => exact (resolveScope_bound h).1

/-- A claim of another account is refused, whatever the request. -/
theorem resolveScope_mismatch {c : Credential} {claimed : String} (h : c.accountId ≠ claimed) :
    resolveScope .perAccount (some c) claimed =
      .error ⟨403, "credential is not bound to this account"⟩ := by
  unfold resolveScope
  simp only
  rw [if_pos h]

theorem resolveScope_status {mode : AuthMode} {credential : Option Credential} {claimed : String}
    {e : ScopeError}
    (h : resolveScope mode credential claimed = .error e) : e.status = 401 ∨ e.status = 403 := by
  unfold resolveScope at h
  cases mode with
  | shared => cases h
  | perAccount =>
    cases credential with
    | none => cases h; exact .inl rfl
    | some c =>
      simp only at h
      split at h
      · cases h; exact .inr rfl
      · cases h

/-! ## Blob bytes, checked against the account's rows -/

def notOwned (a u : String) : Abort := .raise s!"upload session {u} is not owned by account {a}"

/-- mirrors src/scope.ts:124-133 (`stageUploadPart`) -/
def stageUploadPart (a u : String) (i : Nat) (bytes : Bytes) (now : String) : Handler Unit := do
  let session ← readDb (getUploadSession a u)
  Prog.require session.isSome (notOwned a u)
  writePart u i bytes
  exec (recordUploadPart a u i bytes.length now)

/-- mirrors src/scope.ts:135-144 (`assembleUpload`) -/
def assembleUpload (a u : String) : Handler Bytes := do
  let session ← readDb (getUploadSession a u)
  Prog.require session.isSome (notOwned a u)
  let parts ← readDb (listUploadParts a u)
  readDisk fun d => d.assemble u (parts.map (·.partIndex))

/-- mirrors src/scope.ts:146-156 (`discardUploadSession`) -/
def discardUploadSession (a u : String) : Handler Unit := do
  let session ← readDb (getUploadSession a u)
  match session with
  | none => pure ()
  | some _ => do
    discardSession u
    exec (deleteUploadSessionFor a u)

/-- mirrors src/scope.ts:158-160 (`putBlobBytes`) -/
def putBlobBytes (blobHash : String) (bytes : Bytes) : Handler Unit := put blobHash bytes

/-- mirrors src/scope.ts:162-167 (`statBlobBytes`) -/
def statBlobBytes (a blobHash : String) : Handler (Option Nat) := do
  let rec? ← readDb (getBlob a blobHash)
  match rec? with
  | none => pure none
  | some _ => readDisk fun d => d.stat blobHash

/-- mirrors src/scope.ts:169-174 (`readBlobRange`) -/
def readBlobRange (a blobHash : String) (start stop : Nat) : Handler Bytes := do
  let rec? ← readDb (getBlob a blobHash)
  Prog.require rec?.isSome (.raise s!"blob {blobHash} is not owned by account {a}")
  readDisk fun d => d.readRange blobHash start stop

end GlanceVault.L3
