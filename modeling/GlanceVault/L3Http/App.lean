import GlanceVault.L3Http.Endpoints
import GlanceVault.L3Http.RateLimit
import GlanceVault.L3Http.UsageRoute
/-!
# The application behind its middleware (`server.ts`, `buildApp`)

What becomes of a request as Express receives it: a method, a path, headers.
The middleware runs in the order of `buildApp`: CORS, which answers a
preflight, the rate limiter, the health check, the routes that authenticate
themselves, the authentication of everything else, the account-scoped routes,
and Express's own 404. `buildApp` is the verdict on a request, up to the
handler it reaches; the request log writes only to the log and is left out.

* `Unproven`, `buildApp_unproven`: a request that presents nothing the server
  knows is answered as on an empty volume.
-/
namespace GlanceVault.L3
open GlanceVault.Core GlanceVault.Core.Routing GlanceVault.L1 GlanceVault.L1.Js GlanceVault.L2

/-! ## Requests -/

/-- `req.method`; `other` is a method no route is registered for. -/
inductive Verb
  | method (m : Method)
  | options
  | other
  deriving DecidableEq

structure HttpRequest where
  verb : Verb
  path : String
  query : Query
  origin : Option String
  authorization : Option String
  range : Option String
  body : Body
  ip : Option String

/-- The settings of the middleware, beside those of the routes; `rateLimit` is
`none` when the limiter is off. -/
structure AppConfig where
  cfg : Config
  allowedOrigins : List String
  rateLimit : Option RateLimitOptions
  schemaVersion : Nat

abbrev Headers : Type := List (String × String)

/-- The headers `cors` sets on whatever is answered.
mirrors src/middleware/cors.ts:15-40 -/
def cors (allowedOrigins : List String) (origin : Option String) : Headers :=
  match origin with
  | none => []
  | some origin =>
    if allowedOrigins.contains "*" || allowedOrigins.contains origin then
      (if allowedOrigins.contains "*" then [("Access-Control-Allow-Origin", "*")]
        else [("Access-Control-Allow-Origin", origin), ("Vary", "Origin")]) ++
      [("Access-Control-Allow-Methods", "GET, POST, PUT, DELETE, OPTIONS"),
        ("Access-Control-Allow-Headers", "Authorization, Content-Type"),
        ("Access-Control-Max-Age", "86400")]
    else []

/-- A client's address as the limiter keys it. -/
def HttpRequest.key (req : HttpRequest) : String := req.ip.getD "unknown"

/-- What the limiter reads of a request at `now`. A preflight does not reach it. -/
def HttpRequest.arrival (req : HttpRequest) (now : Rat) : Option Arrival :=
  if req.verb = .options then none else some ⟨req.path, req.ip, now⟩

def AuthMode.text : AuthMode → String
  | .shared => "shared"
  | .perAccount => "per-account"

/-- mirrors src/routes/health.ts:38-46 (`GET /healthz`) -/
def health (app : AppConfig) : Response :=
  .json 200 [("status", .str "ok"), ("version", .str "0.1.0"),
    ("schemaVersion", .nat app.schemaVersion),
    ("authMode", .str app.cfg.authMode.text), ("allowedApps", .arr (app.cfg.allowedApps.map .str))]

/-! ## Route tables -/

/-- Whether a route registered for `registered` answers the request. -/
def Verb.answered (v : Verb) (registered : Method) : Bool :=
  match v with
  | .method m => registered.answers m
  | _ => false

/-- The table a request is looked up in, by its path and its method. -/
def Verb.dispatch {ε : Type} (v : Verb) (segments : List String)
    (table : List (Entry Method ε)) : Found ε :=
  Routing.dispatch sameLetters Uri.decode
    (fun registered _ => v.answered registered) .get segments table

def healthRouter : List (Entry Method Unit) := [⟨.get, [.lit "healthz"], ()⟩]

def enrollRouter : List (Entry Method Unit) := [⟨.post, [.lit "enroll"], ()⟩]

inductive AdminEndpoint
  | createAccount
  | listAccounts
  | rotateKey
  | deleteAccount
  | listCredentials
  | revoke
  | usage
  deriving DecidableEq

/-- mirrors src/routes/admin.ts:229-343 (`accountsAdminRouter`) -/
def accountsAdminRouter : List (Entry Method AdminEndpoint) :=
  [⟨.post, [.lit "admin", .lit "accounts"], .createAccount⟩,
   ⟨.get, [.lit "admin", .lit "accounts"], .listAccounts⟩,
   ⟨.post, [.lit "admin", .lit "accounts", .param "accountId", .lit "rotate-key"], .rotateKey⟩,
   ⟨.delete, [.lit "admin", .lit "accounts", .param "accountId"], .deleteAccount⟩]

/-- mirrors src/routes/admin.ts:103-183 (`adminRouter`) -/
def adminRouter : List (Entry Method AdminEndpoint) :=
  [⟨.get, [.lit "admin", .lit "credentials"], .listCredentials⟩,
   ⟨.post, [.lit "admin", .lit "credentials", .param "credentialId", .lit "revoke"], .revoke⟩,
   ⟨.get, [.lit "admin", .lit "usage"], .usage⟩]

/-- What is mounted at `/admin/accounts` and at `/admin` in per-account mode,
behind one guard. mirrors src/server.ts:123-156 -/
def dispatchAdmin (cfg : Config) (v : Verb) (segments : List String) : Found AdminEndpoint :=
  match cfg.enrollmentMode with
  | .bootstrap => v.dispatch (behindMount 1 segments) adminRouter
  | .accountKey =>
    match v.dispatch (behindMount 2 segments) accountsAdminRouter with
    | .unknown => v.dispatch (behindMount 1 segments) adminRouter
    | found => found

/-- The path is `/admin` or below it. -/
def underAdmin (segments : List String) : Bool := segments.head?.any (sameLetters "admin")

/-- The reads of the operator. -/
inductive AdminReport
  | credentials
  | accounts
  | usage

/-- An administration route with the parameters of its path, or a read. -/
def AdminEndpoint.route (params : List String) (body : Body) :
    AdminEndpoint → Option (AdminRoute ⊕ AdminReport)
  | .createAccount => some (.inl (.createAccount body))
  | .listAccounts => some (.inr .accounts)
  | .rotateKey => match params with | [a] => some (.inl (.rotateKey a body)) | _ => none
  | .deleteAccount => match params with | [a] => some (.inl (.deleteAccount a body)) | _ => none
  | .listCredentials => some (.inr .credentials)
  | .revoke => match params with | [id] => some (.inl (.revoke id)) | _ => none
  | .usage => some (.inr .usage)

/-! ## The pipeline -/

/-- What becomes of a request: an answer of the middleware, the handler of an
administration route, a read of the operator, or an account-scoped route. -/
inductive Passage
  | answered (r : Response)
  | admin (route : AdminRoute)
  | report (r : AdminReport)
  | scoped (route : Route)

/-- Express's answer when no route is left. -/
def unknownPath : Response := ⟨404, [], .errorPage⟩

/-- Express's answer to a parameter that does not decode. -/
def badParameter : Response := ⟨400, [], .errorPage⟩

/-- From the authentication on. mirrors src/server.ts:166-255 -/
def scopedPassage (app : AppConfig) (host : Host) (db : Db) (req : HttpRequest) : Passage :=
  match authenticate app.cfg host db req.authorization with
  | .error r => .answered r
  | .ok _ =>
    match req.verb.dispatch (behindMount 1 (pathSegments req.path)) endpoints with
    | .target e params =>
      match e.route params req.query req.body req.range with
      | some route => .scoped route
      | none => .answered unknownPath
    | .badParam => .answered badParameter
    | .unknown => .answered unknownPath

/-- From the guard of `/admin` on. mirrors src/routes/admin.ts:42-55, 103, 227 -/
def adminPassage (app : AppConfig) (host : Host) (db : Db) (req : HttpRequest) : Passage :=
  match adminAuth app.cfg req.authorization with
  | .error e => .answered e.response
  | .ok () =>
    match dispatchAdmin app.cfg req.verb (pathSegments req.path) with
    | .target e params =>
      match e.route params req.body with
      | some (.inl route) => .admin route
      | some (.inr report) => .report report
      | none => .answered unknownPath
    | .badParam => .answered badParameter
    | .unknown => scopedPassage app host db req

/-- `limited` is the answer of the rate limiter, if it does not let the request
through. mirrors src/server.ts:49-255 (`buildApp`) -/
def buildApp (app : AppConfig) (host : Host) (db : Db) (limited : Option Response)
    (req : HttpRequest) : Passage :=
  if req.verb = .options then .answered ⟨204, [], .empty⟩ else
  match limited with
  | some r => .answered r
  | none =>
    match req.verb.dispatch (pathSegments req.path) healthRouter with
    | .target _ _ => .answered (health app)
    | _ =>
      match app.cfg.authMode with
      | .shared => scopedPassage app host db req
      | .perAccount =>
        match req.verb.dispatch (behindMount 1 (pathSegments req.path)) enrollRouter with
        | .target _ _ => .admin (.enroll req.body)
        | _ =>
          if underAdmin (pathSegments req.path) then adminPassage app host db req
          else scopedPassage app host db req

/-! ## Reads of the operator -/

/-- mirrors src/routes/admin.ts:108-110 (`GET /credentials`) -/
def credentialsReport (db : Db) : Response :=
  .json 200 [("credentials", .arr ((listCredentials db).map fun c => .obj (credentialFields c)))]

/-- mirrors src/routes/admin.ts:273-278 (`GET /admin/accounts`) -/
def accountsReport (cfg : Config) (db : Db) : Response :=
  .json 200 [("accounts", .arr ((listAccounts db).map fun a => .obj (accountFields a))),
    ("maxAccounts", .optNat cfg.maxAccounts)]

/-! ## Requests that prove nothing -/

/-- The enrollment proof in the body is one the server knows: the operator's
secret, or the key of an account. -/
def EnrollmentProven (cfg : Config) (host : Host) (db : Db) (body : Body) : Prop :=
  ∃ j, jsonBody body = .ok j ∧
    match cfg.enrollmentMode with
    | .bootstrap => (orEmpty j).field "enrollmentSecret" = .ok (some (.str cfg.enrollmentSecret))
    | .accountKey => ∃ key, (orEmpty j).field "accountKey" = .ok (some (.str key)) ∧
        (getAccountByKeyHash (host.hashText key) db).isSome

/-- Neither a token nor a proof that the server knows. -/
structure Unproven (app : AppConfig) (host : Host) (db : Db) (req : HttpRequest) : Prop where
  token : ∀ c, authenticate app.cfg host db req.authorization ≠ .ok c
  operator : app.cfg.authMode = .perAccount →
    bearer req.authorization ≠ some app.cfg.enrollmentSecret
  proof : app.cfg.authMode = .perAccount → ¬ EnrollmentProven app.cfg host db req.body

theorem deviceTokenAuth_ok {token : String} {header : Option String} {c : Option Credential}
    (h : deviceTokenAuth token header = .ok c) : bearer header = some token := by
  unfold deviceTokenAuth at h
  split at h
  · cases h
  · rename_i presented hb
    split at h
    · rename_i he
      rw [hb, he]
    · cases h

theorem authenticate_unproven {cfg : Config} {host : Host} {db : Db} {header : Option String}
    (h : ∀ c, authenticate cfg host db header ≠ .ok c) :
    ∃ r, authenticate cfg host db header = .error r ∧
    authenticate cfg host .empty header = .error r := by
  unfold authenticate at h ⊢
  cases hm : cfg.authMode with
  | shared =>
    rw [hm] at h
    cases hd : deviceTokenAuth cfg.deviceToken header with
    | ok c => exact absurd hd (h c)
    | error r => exact ⟨r, rfl, rfl⟩
  | perAccount =>
    rw [hm] at h
    dsimp only at h ⊢
    unfold credentialAuth at h ⊢
    cases hb : bearer header with
    | none => exact ⟨_, rfl, rfl⟩
    | some token =>
      rw [hb] at h
      dsimp only at h ⊢
      have hempty : getCredentialByHash (host.hashText token) .empty = none := rfl
      rw [hempty]
      cases hg : getCredentialByHash (host.hashText token) db with
      | none => exact ⟨_, rfl, rfl⟩
      | some record =>
        rw [hg] at h
        dsimp only at h ⊢
        cases hactive : record.active with
        | true =>
          rw [if_pos hactive] at h
          exact absurd rfl (h _)
        | false => exact ⟨_, rfl, rfl⟩

theorem adminAuth_unproven {cfg : Config} {header : Option String}
    (h : bearer header ≠ some cfg.enrollmentSecret) :
    ∃ e, adminAuth cfg header = .error e := by
  unfold adminAuth
  cases hb : bearer header with
  | none => exact ⟨_, rfl⟩
  | some secret =>
    dsimp only
    rw [if_neg fun e => h (by rw [hb, e])]
    exact ⟨_, rfl⟩

theorem scopedPassage_unproven {app : AppConfig} {host : Host} {db : Db} {req : HttpRequest}
    (h : Unproven app host db req) :
    ∃ r, scopedPassage app host db req = .answered r ∧
    scopedPassage app host .empty req = .answered r := by
  obtain ⟨r, h1, h2⟩ := authenticate_unproven h.token
  unfold scopedPassage
  rw [h1, h2]
  exact ⟨r, rfl, rfl⟩

/-- **Without a token or a proof a request gets no further than on an empty
volume**: to an answer, or to the enrollment. -/
theorem buildApp_unproven {app : AppConfig} {host : Host} {db : Db} {req : HttpRequest}
    (h : Unproven app host db req)
    (limited : Option Response) :
    buildApp app host db limited req = buildApp app host .empty limited req ∧
      ((∃ r, buildApp app host db limited req = .answered r) ∨
        app.cfg.authMode = .perAccount ∧
        buildApp app host db limited req = .admin (.enroll req.body)) := by
  obtain ⟨r, h1, h2⟩ := scopedPassage_unproven h
  unfold buildApp
  split
  · exact ⟨rfl, .inl ⟨_, rfl⟩⟩
  · cases limited with
    | some r => exact ⟨rfl, .inl ⟨_, rfl⟩⟩
    | none =>
      dsimp only
      split
      · exact ⟨rfl, .inl ⟨_, rfl⟩⟩
      · cases hm : app.cfg.authMode with
        | shared =>
          dsimp only
          rw [h1, h2]
          exact ⟨rfl, .inl ⟨_, rfl⟩⟩
        | perAccount =>
          dsimp only
          split
          · exact ⟨rfl, .inr ⟨rfl, rfl⟩⟩
          · split
            · obtain ⟨e, he⟩ := adminAuth_unproven (h.operator hm)
              unfold adminPassage
              rw [he]
              exact ⟨rfl, .inl ⟨_, rfl⟩⟩
            · rw [h1, h2]
              exact ⟨rfl, .inl ⟨_, rfl⟩⟩

theorem bootstrapAccount_secret {secret : String} {body : Json} {a : String}
    (h : bootstrapAccount secret body = .ok a) :
    body.field "enrollmentSecret" = .ok (some (.str secret)) := by
  unfold bootstrapAccount at h
  obtain ⟨v, hv, h⟩ := bind_ok h
  obtain ⟨presented, hp, h⟩ := bind_ok h
  obtain ⟨w, -, h⟩ := bind_ok h
  obtain ⟨a', -, h⟩ := bind_ok h
  split at h
  · rename_i he
    rw [ok_field hv, (requiredText_ok.1 hp).1, he]
  · cases h

/-- An account key that no account has is refused as on an empty volume. -/
theorem accountKeyAccount_unknown {host : Host} {db : Db} {body : Json}
    (h : ∀ key, body.field "accountKey" = .ok (some (.str key)) →
      getAccountByKeyHash (host.hashText key) db = none) :
    ∃ e, accountKeyAccount host db body = .error e ∧
    accountKeyAccount host .empty body = .error e := by
  unfold accountKeyAccount
  cases hf : field body "accountKey" with
  | error e => exact ⟨e, rfl, rfl⟩
  | ok v =>
    cases ht : requiredText v "accountKey is required" with
    | error e =>
      simp only [bind, Except.bind, ht]
      exact ⟨e, rfl, rfl⟩
    | ok key =>
      have hnone : getAccountByKeyHash (host.hashText key) db = none := by
        refine h key ?_
        rw [ok_field hf, (requiredText_ok.1 ht).1]
      have hempty : getAccountByKeyHash (host.hashText key) .empty = none := rfl
      simp only [bind, Except.bind, ht, hnone, hempty]
      exact ⟨_, rfl, rfl⟩

/-- An enrollment without a proof is refused as it is on an empty volume. -/
theorem enrollmentAccount_unproven {cfg : Config} {host : Host} {db : Db} {body : Body} {j : Json}
    (h : ¬ EnrollmentProven cfg host db body) (hj : jsonBody body = .ok j) :
    ∃ e, enrollmentAccount cfg host db (orEmpty j) = .error e ∧
    enrollmentAccount cfg host .empty (orEmpty j) = .error e := by
  unfold enrollmentAccount
  cases hm : cfg.enrollmentMode with
  | bootstrap =>
    dsimp only
    cases hb : bootstrapAccount cfg.enrollmentSecret (orEmpty j) with
    | error e => exact ⟨e, rfl, rfl⟩
    | ok a =>
      refine absurd ⟨j, hj, ?_⟩ h
      rw [hm]
      exact bootstrapAccount_secret hb
  | accountKey =>
    refine accountKeyAccount_unknown fun key hkey => ?_
    cases hg : getAccountByKeyHash (host.hashText key) db with
    | none => rfl
    | some account =>
      refine absurd ⟨j, hj, ?_⟩ h
      rw [hm]
      exact ⟨key, hkey, by rw [hg]; rfl⟩

/-- The handler of such an enrollment changes nothing and answers as on an
empty volume. -/
theorem enroll_unproven {cfg : Config} {host : Host} {env : Env} {v : Server} {body : Body}
    (header : Option String)
    (hm : cfg.authMode = .perAccount) (h : ¬ EnrollmentProven cfg host v.db body) :
    (handleAdmin cfg host env header (.enroll body) v).state = v ∧
      finish (handleAdmin cfg host env header (.enroll body) v) =
        finish (handleAdmin cfg host env header (.enroll body) .fresh) := by
  have hmounted : (AdminRoute.enroll body).mounted cfg = true := decide_eq_true hm
  have hhandler : handleAdmin cfg host env header (.enroll body) = enroll cfg host env body := by
    unfold handleAdmin
    rw [if_pos hmounted]
    rfl
  rw [hhandler]
  unfold enroll
  cases hj : jsonBody body with
  | error e => exact ⟨rfl, rfl⟩
  | ok j =>
    obtain ⟨e, h1, h2⟩ := enrollmentAccount_unproven h hj
    have hrefused : ∀ (w : Server) (rest : String → Handler Response),
        enrollmentAccount cfg host w.db (orEmpty j) = .error e →
        (do
          let decision ← readDb fun db => enrollmentAccount cfg host db (orEmpty j)
          let accountId ← Prog.ofExcept decision
          rest accountId) w = ⟨.error e, w, []⟩ := by
      intro w rest hw
      unfold readDb
      rw [Prog.get_bind]
      dsimp only
      rw [hw]
      rfl
    constructor
    · exact congrArg Outcome.state (hrefused v _ h1)
    · exact (congrArg finish (hrefused v _ h1)).trans (congrArg finish (hrefused .fresh _ h2)).symm

end GlanceVault.L3
