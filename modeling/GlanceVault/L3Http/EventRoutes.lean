import GlanceVault.L3Http.Fields
import GlanceVault.L3Http.SyncRoutes
/-!
# Event streams (`routes/events.ts`)

Connecting a live stream, its teardown when the socket closes, and the
heartbeat that revalidates the credential it was opened with. The account and
the credential of a stream are those of the connect.
-/
namespace GlanceVault.L3
open GlanceVault.Core GlanceVault.L1 GlanceVault.L1.Js GlanceVault.L2

def streamHeaders : List (String × String) :=
  [("Content-Type", "text/event-stream"), ("Cache-Control", "no-cache, no-transform"),
    ("Connection", "keep-alive"), ("X-Accel-Buffering", "no")]

/-- mirrors src/routes/events.ts:99-152 (`GET /`, from `resolve` on) -/
def connect (cfg : Config) (credential : Option Credential) (a : String) : Handler Response := do
  let id ← Prog.get fun s => s.nextId
  let sub : Subscriber := ⟨id, credential.map (·.credentialId)⟩
  let subscribed ← Prog.get fun s =>
    (s.hub.subscribe cfg.maxSseConnectionsPerAccount cfg.maxSseConnections a sub).1
  Prog.poke fun s => { s with
    nextId := s.nextId + 1
    hub := (s.hub.subscribe cfg.maxSseConnectionsPerAccount cfg.maxSseConnections a sub).2 }
  Prog.require subscribed (.error 429 "too many connections for account")
  let seq ← readDb fun db => latestSeq db a
  pure ⟨200, streamHeaders, .stream (.obj [("seq", .nat seq)])⟩

theorem connect_run (v : Server) (cfg : Config) (credential : Option Credential) (a : String) :
    connect cfg credential a v =
    let sub : Subscriber := ⟨v.nextId, credential.map (·.credentialId)⟩
    let r := v.hub.subscribe cfg.maxSseConnectionsPerAccount cfg.maxSseConnections a sub
    ⟨if r.1 then .ok ⟨200, streamHeaders, .stream (.obj [("seq", .nat (latestSeq v.db a))])⟩
      else .error (.error 429 "too many connections for account"),
      { v with nextId := v.nextId + 1, hub := r.2 }, []⟩ := by
  unfold connect readDb
  rw [Prog.get_bind, Prog.get_bind, Prog.bind_run, Prog.poke_run]
  dsimp only
  cases (v.hub.subscribe cfg.maxSseConnectionsPerAccount cfg.maxSseConnections a
    ⟨v.nextId, credential.map (·.credentialId)⟩).1 <;> rfl

/-- The socket of a stream closed. mirrors src/routes/events.ts:156-164 (`cleanup`) -/
def Server.closeStream (s : Server) (a : String) (sub : Subscriber) : Server :=
  { s with hub := s.hub.unsubscribe a sub }

/-- mirrors src/server.ts:229-232 (`isCredentialActive`) -/
def isCredentialActive (db : Db) (credentialId : String) : Bool :=
  (getCredentialById credentialId db).any (·.active)

/-- One tick of a stream's heartbeat. mirrors src/routes/events.ts:169-199 -/
def Server.heartbeat (cfg : Config) (s : Server) (a : String) (sub : Subscriber) : Server :=
  match cfg.authMode, sub.credentialId with
  | .perAccount, some id => if isCredentialActive s.db id then s else s.closeStream a sub
  | _, _ => s

/-- A tick moves the hub and nothing else. -/
theorem heartbeat_hub (cfg : Config) (v : Server) (a : String) (sub : Subscriber) :
    v.heartbeat cfg a sub = { v with hub := (v.heartbeat cfg a sub).hub } := by
  unfold Server.heartbeat
  split
  · split <;> rfl
  · rfl

end GlanceVault.L3
