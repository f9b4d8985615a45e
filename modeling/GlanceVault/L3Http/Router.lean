import GlanceVault.L3Http.AdminRoutes
import GlanceVault.L3Http.BlobRoutes
import GlanceVault.L3Http.EventRoutes
import GlanceVault.L3Http.IntentRoutes
/-!
# The application (`server.ts`)

Every account-scoped route is `check`, the checks on path, query and body
that yield the claimed account and a validated `Call`, then the scope
resolver, then `perform` for the account the scope is bound to. No other part
of a handler reaches the server.

* `handle_mismatch`: a request that claims another account than its
  credential's gets past neither; it is answered by its own checks or 403, and
  changes nothing.
-/
namespace GlanceVault.L3
open GlanceVault.Core GlanceVault.L1 GlanceVault.L1.Js GlanceVault.L2

/-- The account-scoped routes, with the path parameters, query and body of a
request. mirrors src/server.ts:203-235 -/
inductive Route
  | syncBatch (app : String) (body : Body)
  | syncDevice (app : String) (body : Body)
  | syncList (app : String) (query : Query)
  | syncGet (app entityId : String) (query : Query)
  | syncDelete (app entityId : String) (query : Query)
  | intentsBatch (body : Body)
  | intentsList (query : Query)
  | saltGet (accountId : String)
  | saltPut (accountId : String) (body : Body)
  | uploadInitiate (body : Body)
  | uploadStatus (uploadId : String) (query : Query)
  | uploadPart (uploadId index : String) (query : Query) (body : Body)
  | uploadFinalize (uploadId : String) (body : Body)
  | uploadCancel (uploadId : String) (query : Query)
  | refAdd (hash : String) (body : Body)
  | refRelease (hash : String) (body : Body)
  | blobHead (hash : String) (query : Query)
  | blobGet (hash : String) (query : Query) (range : Option String)
  | events (query : Query)

/-- A request after its checks. -/
inductive Call
  | batch (app : String) (rows : List SyncRowInput) (notify : Bool)
  | device (deviceId : String) (lastSeenSeq : Nat)
  | list (app : String) (since limit : Nat)
  | getEntity (app entityId : String)
  | deleteEntity (app entityId : String) (deletedAt : Option Nat)
  | intents (events : List IntentEventInput)
  | listIntents (since limit : Nat)
  | getSalt
  | putSalt (salt : String)
  | initiate (blobHash : String) (valid : isHash blobHash = true) (size : Nat)
  | uploadStatus (uploadId : String)
  | putPart (uploadId index : String) (bytes : Bytes)
  | finalize (uploadId : String)
  | cancel (uploadId : String)
  | refAdd (hash : String)
  | refRelease (hash : String)
  | head (hash : String)
  | download (hash : String) (range : Option String)
  | connect

/-- What each handler does before it resolves the scope: the claimed account
and the call. -/
def check (cfg : Config) (host : Host) : Route → Except Abort (String × Call)
  | .syncBatch app body => do
    let c ← checkBatch cfg app body
    pure (c.accountId, .batch app c.rows c.notify)
  | .syncDevice app body => do
    let c ← checkDevice cfg app body
    pure (c.accountId, .device c.deviceId c.lastSeenSeq)
  | .syncList app query => do
    checkApp cfg app
    let c ← checkList query
    pure (c.accountId, .list app c.since c.limit)
  | .syncGet app entityId query => do
    checkApp cfg app
    let a ← requiredAccountId query
    pure (a, .getEntity app entityId)
  | .syncDelete app entityId query => do
    let c ← checkDelete cfg app query
    pure (c.accountId, .deleteEntity app entityId c.deletedAt)
  | .intentsBatch body => do
    let c ← checkIntents host body
    pure (c.accountId, .intents c.events)
  | .intentsList query => do
    let c ← checkList query
    pure (c.accountId, .listIntents c.since c.limit)
  | .saltGet a => do
    checkAccountParam a
    pure (a, .getSalt)
  | .saltPut a body => do
    let salt ← checkSalt a body
    pure (a, .putSalt salt)
  | .uploadInitiate body => do
    let c ← checkInitiate cfg body
    pure (c.accountId, .initiate c.blobHash c.valid c.size)
  | .uploadStatus u query => do
    let a ← requiredAccountId query
    pure (a, .uploadStatus u)
  | .uploadPart u index query body => do
    let c ← checkPart cfg query body
    pure (c.accountId, .putPart u index c.bytes)
  | .uploadFinalize u body => do
    let a ← checkFinalize body
    pure (a, .finalize u)
  | .uploadCancel u query => do
    let a ← requiredAccountId query
    pure (a, .cancel u)
  | .refAdd hash body => do
    let a ← checkRef hash body
    pure (a, .refAdd hash)
  | .refRelease hash body => do
    let a ← checkRef hash body
    pure (a, .refRelease hash)
  | .blobHead hash query => do
    let a ← checkHead hash query
    pure (a, .head hash)
  | .blobGet hash query range => do
    let a ← checkGet hash query
    pure (a, .download hash range)
  | .events query => do
    let a ← requiredAccountId query
    pure (a, .connect)

/-- What each handler does for the account its scope is bound to. -/
def perform (cfg : Config) (host : Host) (credential : Option Credential) (env : Env) (a : String) :
    Call → Handler Response
  | .batch app rows notify => batch cfg env a app rows notify
  | .device deviceId lastSeenSeq => device env a deviceId lastSeenSeq
  | .list app since limit => list a app since limit
  | .getEntity app entityId => getEntity a app entityId
  | .deleteEntity app entityId deletedAt => deleteEntity env a app entityId deletedAt
  | .intents events => intentsBatch cfg env a events
  | .listIntents since limit => intentsList env a since limit
  | .getSalt => saltGet a
  | .putSalt salt => saltPut env a salt
  | .initiate blobHash _ size => initiate cfg env a blobHash size
  | .uploadStatus u => uploadStatus a u
  | .putPart u index bytes => putPart env a u index bytes
  | .finalize u => finalize cfg host env a u
  | .cancel u => cancel a u
  | .refAdd hash => refAdd env a hash
  | .refRelease hash => refRelease env a hash
  | .head hash => head a hash
  | .download hash range => download a hash range
  | .connect => connect cfg credential a

theorem perform_connect (cfg : Config) (host : Host) (credential : Option Credential) (env : Env)
    (a : String) (v : Server) :
    (perform cfg host credential env a .connect v).state = { v with
      nextId := v.nextId + 1
      hub := (v.hub.subscribe cfg.maxSseConnectionsPerAccount cfg.maxSseConnections a
        ⟨v.nextId, credential.map (·.credentialId)⟩).2 } :=
  congrArg Outcome.state (connect_run v cfg credential a)

/-- The scope resolver as part of a handler. -/
def resolve (cfg : Config) (credential : Option Credential) (claimed : String) :
    Except Abort String :=
  match resolveScope cfg.authMode credential claimed with
  | .ok a => .ok a
  | .error e => .error (.scope e)

/-- Checks and scope: the account bound to the request, and its call. -/
def accept (cfg : Config) (host : Host) (credential : Option Credential) (route : Route) :
    Except Abort (String × Call) := do
  let (claimed, call) ← check cfg host route
  let a ← resolve cfg credential claimed
  pure (a, call)

/-- The handler of a request that is past authentication. -/
def handle (cfg : Config) (host : Host) (credential : Option Credential)
    (env : Env) (route : Route) :
    Handler Response := do
  let (a, call) ← Prog.ofExcept (accept cfg host credential route)
  perform cfg host credential env a call

/-! ## Administration -/

inductive AdminRoute
  | enroll (body : Body)
  | revoke (credentialId : String)
  | createAccount (body : Body)
  | rotateKey (accountId : String) (body : Body)
  | deleteAccount (accountId : String) (body : Body)

/-- The routes of the account registry are mounted in account-key mode only. -/
def AdminRoute.mounted (cfg : Config) : AdminRoute → Bool
  | .enroll _ => decide (cfg.authMode = .perAccount)
  | .revoke _ => decide (cfg.authMode = .perAccount)
  | _ => decide (cfg.authMode = .perAccount) && decide (cfg.enrollmentMode = .accountKey)

/-- The handler behind the guard. -/
def AdminRoute.perform (cfg : Config) (host : Host) (env : Env) : AdminRoute → Handler Response
  | .enroll body => L3.enroll cfg host env body
  | .revoke credentialId => revokeCredential env credentialId
  | .createAccount body => createAccountRoute cfg host env body
  | .rotateKey a body => rotateKeyRoute host env a body
  | .deleteAccount a body => deleteAccountRoute a body

/-- Enrollment carries its proof in the body; the others need the operator's
secret. mirrors src/server.ts:113-156 -/
def AdminRoute.guard (cfg : Config) (header : Option String) : AdminRoute → Except Abort Unit
  | .enroll _ => .ok ()
  | _ => adminAuth cfg header

/-- A route that is not mounted falls through to the authentication of the
account-scoped routes, and is unknown there. -/
def unmounted (cfg : Config) (host : Host) (header : Option String) : Handler Response := do
  let r ← readDb fun db => authenticate cfg host db header
  match r with
  | .ok _ => pure ⟨404, [], .errorPage⟩
  | .error r => pure r

/-- In per-account mode the guard of `/admin` answers for every path below it. -/
def handleAdmin (cfg : Config) (host : Host) (env : Env) (header : Option String)
    (route : AdminRoute) :
    Handler Response :=
  if route.mounted cfg then do
    Prog.ofExcept (route.guard cfg header)
    route.perform cfg host env
  else do
    Prog.ofExcept (if cfg.authMode = .perAccount then route.guard cfg header else .ok ())
    unmounted cfg host header

/-! ## Requests that claim another account -/

theorem accept_ok {cfg : Config} {host : Host} {credential : Option Credential} {route : Route}
    {a : String} {call : Call} (h : accept cfg host credential route = .ok (a, call)) :
    ∃ claimed, check cfg host route = .ok (claimed, call) ∧
    resolveScope cfg.authMode credential claimed = .ok a := by
  unfold accept at h
  cases hc : check cfg host route with
  | error e => rw [hc] at h; cases h
  | ok r =>
    obtain ⟨claimed, c⟩ := r
    rw [hc] at h
    simp only [bind, Except.bind, resolve] at h
    cases hr : resolveScope cfg.authMode credential claimed with
    | error e => rw [hr] at h; cases h
    | ok b => rw [hr] at h; cases h; exact ⟨claimed, rfl, hr⟩

/-- A request is refused by its own checks or by the scope resolver. -/
theorem accept_error {cfg : Config} {host : Host} {credential : Option Credential} {route : Route}
    {e : Abort} (h : accept cfg host credential route = .error e) :
    check cfg host route = .error e ∨ ∃ x, e = .scope x ∧ (x.status = 401 ∨ x.status = 403) := by
  unfold accept at h
  cases hc : check cfg host route with
  | error x => rw [hc] at h; cases h; exact .inl rfl
  | ok r =>
    obtain ⟨claimed, call⟩ := r
    rw [hc] at h
    simp only [bind, Except.bind, resolve] at h
    cases hr : resolveScope cfg.authMode credential claimed with
    | ok a => rw [hr] at h; cases h
    | error x => rw [hr] at h; cases h; exact .inr ⟨x, rfl, resolveScope_status hr⟩

/-- In per-account mode the account acted for is the credential's. -/
theorem accept_bound {cfg : Config} {host : Host} {credential : Option Credential} {route : Route}
    {a : String}
    {call : Call} (hm : cfg.authMode = .perAccount)
    (h : accept cfg host credential route = .ok (a, call)) :
    ∃ c, credential = some c ∧ c.accountId = a := by
  obtain ⟨claimed, -, hr⟩ := accept_ok h
  rw [hm] at hr
  exact (resolveScope_bound hr).2

theorem handle_admitted {cfg : Config} {host : Host} {credential : Option Credential}
    {route : Route} {a : String}
    {call : Call} (h : accept cfg host credential route = .ok (a, call)) (env : Env) :
    handle cfg host credential env route = perform cfg host credential env a call := by
  unfold handle
  rw [h]
  rfl

theorem handle_refused {cfg : Config} {host : Host} {credential : Option Credential}
    {route : Route} {e : Abort} (h : accept cfg host credential route = .error e) (env : Env) :
    handle cfg host credential env route = Prog.raise e := by
  unfold handle
  rw [h]
  rfl

theorem handle_mismatch {cfg : Config} {host : Host} {c : Credential} {route : Route}
    {claimed : String} {call : Call}
    (hm : cfg.authMode = .perAccount) (hc : check cfg host route = .ok (claimed, call))
    (hne : c.accountId ≠ claimed) (env : Env) :
    handle cfg host (some c) env route =
      Prog.raise (.scope ⟨403, "credential is not bound to this account"⟩) := by
  refine handle_refused ?_ env
  unfold accept resolve
  rw [hc, hm]
  simp only [bind, Except.bind, resolveScope_mismatch hne]

/-! ## Samples -/

def oneApp : Config :=
  ⟨.shared, "token", .bootstrap, "", none, ["dayglance"], 1000, ⟨none, none, none, none⟩, 1, 1⟩

def plainHost : Host := ⟨fun _ => "", fun _ => none⟩

def idle : Env := ⟨fun _ => "", "", "", "", fun _ => false⟩

def household : Query := fun k => if k = "accountId" then some (.str "house") else none

end GlanceVault.L3
