import GlanceVault.Core.Prog
import GlanceVault.L1Encoding.Iso
import GlanceVault.L2Storage.Registry
import GlanceVault.L2Storage.DiskBlobStore
import GlanceVault.L3Http.Hub
import GlanceVault.L3Http.Quotas
/-!
# Requests, responses and the server a handler runs on

A handler is a program over the server: the database, the files, the hub of
live streams. Its storage steps are the transactions (`exec`) and the file
operations (`file`); everything else happens in memory. It ends with a
response, or aborts with one (an early `return`), with a `ScopeError`, or
with an exception, which Express answers 500; `finish` is that last mapping.

`Host` stands for what Node provides, `Env` for what the process reads from
the outside while it runs one handler.
-/
namespace GlanceVault.L3
open GlanceVault.Core GlanceVault.L1 GlanceVault.L1.Js GlanceVault.L2

/-! ## Responses -/

/-- The body of a response; `stream` is an event stream left open after its
`ready` frame, `errorPage` what Express's own error handler sends. -/
inductive Payload
  | empty
  | json (j : Json)
  | bytes (b : Bytes)
  | stream (ready : Json)
  | errorPage

structure Response where
  status : Nat
  headers : List (String × String)
  payload : Payload

/-- `res.status(status).json(j)` -/
def Response.json (status : Nat) (fields : List (String × Json)) : Response :=
  ⟨status, [], .json (.obj fields)⟩

/-- `res.status(status).json({ error: message })` -/
def Response.error (status : Nat) (message : String) : Response :=
  .json status [("error", .str message)]

/-- mirrors src/scope.ts:22-29 (`ScopeError`) -/
structure ScopeError where
  status : Nat
  message : String
  deriving DecidableEq

inductive Abort
  | respond (r : Response)
  | scope (e : ScopeError)
  | store (e : StoreError)
  | raise (message : String)

/-- `res.status(status).json({ error: message }); return` -/
def Abort.error (status : Nat) (message : String) : Abort := .respond (.error status message)

/-- The error-mapping middleware at the tail of `buildApp`, and Express's
handler behind it. mirrors src/server.ts:246-252 -/
def Abort.response : Abort → Response
  | .respond r => r
  | .scope e => .error e.status e.message
  | .store _ => ⟨500, [], .errorPage⟩
  | .raise _ => ⟨500, [], .errorPage⟩

/-! ## Configuration and surroundings -/

inductive AuthMode
  | shared
  | perAccount
  deriving DecidableEq

inductive EnrollmentMode
  | bootstrap
  | accountKey
  deriving DecidableEq

/-- The settings `buildApp` reads. mirrors src/config.ts:22-142 (`Config`) -/
structure Config where
  authMode : AuthMode
  deviceToken : String
  enrollmentMode : EnrollmentMode
  enrollmentSecret : String
  maxAccounts : Option Nat
  allowedApps : List String
  maxBlobSize : Nat
  quotas : QuotaPolicy
  maxSseConnectionsPerAccount : Nat
  maxSseConnections : Nat
  deriving DecidableEq

/-- `createHash("sha256").update(bytes).digest("hex")` and
`new Date(text).getTime()`, where `none` is NaN. -/
structure Host where
  sha256Hex : Bytes → String
  dateParse : String → Option Int

/-- The SHA-256 of a string's UTF-8 bytes.
mirrors src/credentials.ts:44-46, src/account-keys.ts:30-32 -/
def Host.hashText (host : Host) (s : String) : String := host.sha256Hex s.toUTF8.data.toList

/-- What one handler reads from outside: the clock at its `k`-th write and at
its quota check, a fresh UUID, 64 random hex digits, and which event streams
are dead. -/
structure Env where
  clock : Nat → String
  quotaNow : String
  uuid : String
  secret : String
  dead : Subscriber → Bool

/-! ## The server -/

/-- `published` and `delivered` log what `emit` was called with and what the
live streams were sent; no handler reads them. -/
structure Server where
  db : Db
  disk : Disk
  hub : Hub
  nextId : Nat
  published : List (String × Nudge)
  delivered : List (Subscriber × Nudge)

/-- A server on an empty volume. -/
def Server.fresh : Server := ⟨.empty, .empty, .empty, 1, [], []⟩

/-- A new process on the same volume. -/
def Server.restart (s : Server) : Server := ⟨s.db, s.disk, .empty, 1, [], []⟩

abbrev Handler (α : Type) : Type := Prog Server Abort α

/-- A transaction. -/
def exec {α : Type} (m : DbTx α) : Handler α := .step fun s =>
  match m.eval s.db with
  | .ok (a, db) => .ok (a, { s with db := db })
  | .error e => .error (.store e)

/-- A `SELECT` outside a transaction. -/
def readDb {α : Type} (f : Db → α) : Handler α := .get fun s => f s.db

/-- One change of the files. -/
def file (f : Disk → Disk) : Handler Unit := .step fun s => .ok ((), { s with disk := f s.disk })

/-- A read of the files, which may throw. -/
def readDisk {α : Type} (f : Disk → Except String α) : Handler α := do
  let r ← Prog.get fun s => f s.disk
  match r with
  | .ok a => pure a
  | .error e => .raise (.raise e)

/-- A check of a path component, which throws. -/
def assert (r : Except String Unit) : Handler Unit :=
  match r with
  | .ok _ => pure ()
  | .error e => .raise (.raise e)

/-- mirrors src/server.ts:175 (`emit`) -/
def emit (env : Env) (a : String) (nudge : Nudge) : Handler Unit := .poke fun s =>
  { s with
    hub := s.hub.publish env.dead a
    published := s.published ++ [(a, nudge)]
    delivered :=
      s.delivered ++ ((s.hub.set a).filter fun x => !env.dead x).map fun x => (x, nudge) }

/-- The response of a handler that ended or aborted. -/
def finish (o : Outcome Server Abort Response) : Response :=
  match o.result with
  | .ok r => r
  | .error e => e.response

/-- A rejection of the quota gate. mirrors src/quotas.ts:91-97 (`verdict`) -/
def QuotaVerdict.abort (v : QuotaVerdict) : Abort := .respond <| .json v.status
  [("error", .str "quota exceeded"), ("quota", .str v.quota.text), ("limit", .nat v.limit),
    ("used", .nat v.used), ("requested", .int v.requested)]

/-- `if (gate) { .. }` -/
def gated (cfg : Config) (rule : QuotaPolicy → Db → Option QuotaVerdict) : Handler Unit :=
  match makeQuotaGate cfg.quotas with
  | none => pure ()
  | some gate => do
    let rejected ← readDb (rule gate)
    match rejected with
    | some v => .raise v.abort
    | none => pure ()

/-! ## File operations (`DiskBlobStore`) -/

/-- mirrors src/storage/disk-blobstore.ts:107-119 (`put`) -/
def put (hash : String) (bytes : Bytes) : Handler Unit := do
  assert (Disk.assertHash hash)
  let present ← Prog.get fun s => (s.disk (.blob hash)).isSome
  if present then pure () else do
    file fun d => d.write (.blobTmp hash) bytes
    file fun d => d.rename (.blobTmp hash) (.blob hash)

/-- mirrors src/storage/disk-blobstore.ts:125-127 (`delete`) -/
def deleteBytes (hash : String) : Handler Unit := do
  assert (Disk.assertHash hash)
  file fun d => d.remove (.blob hash)

/-- mirrors src/storage/disk-blobstore.ts:129-141 (`writePart`) -/
def writePart (u : String) (i : Nat) (bytes : Bytes) : Handler Unit := do
  assert (Disk.assertUploadId u)
  file fun d => d.write (.partTmp u i) bytes
  file fun d => d.rename (.partTmp u i) (.part u i)

/-- mirrors src/storage/disk-blobstore.ts:152-154 (`discardSession`) -/
def discardSession (u : String) : Handler Unit := do
  assert (Disk.assertUploadId u)
  file fun d => d.removeSession u

/-! ## Evaluation of the primitives -/

theorem exec_run {α : Type} {m : DbTx α} {s : Server} {a : α} {db : Db}
    (h : m.eval s.db = .ok (a, db)) :
    exec m s = ⟨.ok a, { s with db := db }, [{ s with db := db }]⟩ := by
  simp only [exec, Prog.step, h]

theorem exec_fails {α : Type} {m : DbTx α} {s : Server} {e : StoreError}
    (h : m.eval s.db = .error e) :
    exec m s = ⟨.error (.store e), s, []⟩ := by
  simp only [exec, Prog.step, h]

section Triples
variable {C P : Server → Prop} {E : Server → Prop}

theorem exec_triple {α : Type} {m : DbTx α} {Q : α → Server → Prop}
    (hok : ∀ s a db, P s → m.eval s.db = .ok (a, db) → C { s with db := db } ∧
      Q a { s with db := db })
    (herr : ∀ s, P s → E s) : Prog.Triple C P (exec m) Q E := by
  refine .step (fun s a s' hs h => ?_) herr
  cases he : m.eval s.db with
  | error e => rw [he] at h; cases h
  | ok r =>
    rw [he] at h
    cases h
    exact hok s r.1 r.2 hs he

/-- A transaction that always commits. -/
theorem exec_commits {α : Type} {m : DbTx α} {Q : α → Server → Prop}
    (h : ∀ s, P s → ∃ a db, m.eval s.db = .ok (a, db) ∧ Q a { s with db := db }) :
    Prog.Lands P (exec m) Q E := by
  intro s hs
  obtain ⟨a, db, he, hq⟩ := h s hs
  refine ⟨fun _ _ => trivial, ?_⟩
  simp only [exec, Prog.step, he]
  exact hq

theorem file_triple {f : Disk → Disk} {Q : Unit → Server → Prop}
    (hok : ∀ s, P s → C { s with disk := f s.disk } ∧ Q () { s with disk := f s.disk }) :
    Prog.Triple C P (file f) Q E := by
  intro s hs
  obtain ⟨h1, h2⟩ := hok s hs
  exact ⟨by simpa [file, Prog.step] using h1, h2⟩

theorem assert_triple {r : Except String Unit} {Q : Unit → Server → Prop}
    (hok : r = .ok () → ∀ s, P s → Q () s)
    (herr : ∀ s, P s → E s) : Prog.Triple C P (assert r) Q E := by
  cases r with
  | ok u => exact .pure (hok rfl)
  | error e => exact .raise herr

theorem gated_triple {cfg : Config} {rule : QuotaPolicy → Db → Option QuotaVerdict}
    {Q : Unit → Server → Prop}
    (hok : ∀ s, P s → (∀ gate, makeQuotaGate cfg.quotas = some gate →
      rule gate s.db = none) → Q () s)
    (herr : ∀ s, P s → E s) : Prog.Triple C P (gated cfg rule) Q E := by
  unfold gated
  cases hg : makeQuotaGate cfg.quotas with
  | none => exact .pure fun s hs => hok s hs fun gate e => by rw [hg] at e; cases e
  | some gate =>
    intro s hs
    unfold readDb
    simp only [Prog.get_bind]
    cases ha : rule gate s.db with
    | none =>
      refine ⟨by simp, hok s hs fun g e => ?_⟩
      rw [hg] at e; cases e; exact ha
    | some v => exact ⟨by simp, herr s hs⟩

end Triples

section Frames
variable {γ : Type} {π : Server → γ}

theorem exec_keeps {α δ : Type} {m : DbTx α} {ρ : Db → δ} (h : m.Keeps ρ)
    (hp : ∀ s db, ρ db = ρ s.db → π { s with db := db } = π s) : Prog.Keeps π (exec m) := by
  refine .step fun s a s' e => ?_
  cases he : m.eval s.db with
  | error x => rw [he] at e; cases e
  | ok r =>
    rw [he] at e
    cases e
    exact hp s r.2 (h s.db r.1 r.2 he)

theorem readDb_keeps {α : Type} (f : Db → α) : Prog.Keeps π (readDb f) := .get _

theorem readDisk_keeps {α : Type} (f : Disk → Except String α) : Prog.Keeps π (readDisk f) := by
  refine .bind (.get _) fun r => ?_
  cases r with
  | ok a => exact .pure a
  | error e => exact .raise _

theorem gated_keeps (cfg : Config) (rule : QuotaPolicy → Db → Option QuotaVerdict) :
    Prog.Keeps π (gated cfg rule) := by
  unfold gated
  split
  · exact .pure ()
  · refine .bind (readDb_keeps _) fun r => ?_
    cases r with
    | none => exact .pure ()
    | some v => exact .raise _

theorem assert_keeps (r : Except String Unit) : Prog.Keeps π (assert r) := by
  cases r with
  | ok u => exact .pure ()
  | error e => exact .raise _

theorem file_keeps {f : Disk → Disk} (h : ∀ s, π { s with disk := f s.disk } = π s) :
    Prog.Keeps π (file f) := by
  refine .step fun s a s' e => ?_
  cases e
  exact h s

theorem emit_keeps {env : Env} {a : String} {nudge : Nudge}
    (h : ∀ s hub p q, π { s with hub := hub, published := p, delivered := q } = π s) :
    Prog.Keeps π (emit env a nudge) := .poke fun s => h s _ _ _

end Frames

end GlanceVault.L3
