import GlanceVault.L3Http.HubRegistry
import GlanceVault.L3Http.Router
/-!
# Connects that fail

`GET /events` with its sockets, its teardown, and the steps of the handler
that may throw. `connect` is the same handler when none of them throws
(`getEvents_handle`).

A handler that has registered its subscriber has not yet attached the teardown
that removes it: the headers, the read of the latest seq and the `ready` frame
come first. When one of these throws, the error mapper answers or cuts the
connection, the socket closes, and nobody removes the subscriber.

* `Opens`: what a connect leaves, by how far it got.
* `Streams.Guarded`: every subscriber has a socket whose teardown is attached;
  kept by every event but such a connect.
* `failed_connects`: single connects, and runs with all sockets closed.
-/
namespace GlanceVault.L3
open GlanceVault.Core GlanceVault.L1 GlanceVault.L1.Js GlanceVault.L2

/-! ## Sockets -/

/-- `cleanup`: not attached yet, listening, or done. -/
inductive Teardown
  | unset
  | listening
  | cleaned
  deriving DecidableEq

/-- A request that built its subscriber, until its socket closes. -/
structure Socket where
  account : String
  sub : Subscriber
  teardown : Teardown

structure Streams where
  server : Server
  sockets : Table (fun k : Socket => k.sub.id)

namespace Streams

def fresh : Streams := ⟨.fresh, .empty⟩

/-- mirrors src/realtime/hub.ts:124-145 -/
def join (cfg : Config) (s : Streams) (a : String) (sub : Subscriber) : Streams :=
  { s with server := { s.server with
      hub := (s.server.hub.subscribe cfg.maxSseConnectionsPerAccount cfg.maxSseConnections
        a sub).2 } }

/-- mirrors src/routes/events.ts:111-131 (`sub`) -/
def accepted (s : Streams) (a : String) (sub : Subscriber) : Streams :=
  { server := { s.server with nextId := s.server.nextId + 1 },
    sockets := s.sockets.upsert ⟨a, sub, .unset⟩ }

/-- mirrors src/routes/events.ts:169-203 (`setInterval` and both `res.on`) -/
def listen (s : Streams) (a : String) (sub : Subscriber) : Streams :=
  { s with sockets := s.sockets.upsert ⟨a, sub, .listening⟩ }

/-- mirrors src/routes/events.ts:156-164 (`cleanup`) -/
def cleanup (s : Streams) (k : Socket) : Streams :=
  match k.teardown with
  | .listening =>
    { server := s.server.closeStream k.account k.sub,
      sockets := s.sockets.upsert { k with teardown := .cleaned } }
  | _ => s

/-- The socket of a request closes, or fails. -/
def close (s : Streams) (id : Nat) : Streams :=
  match s.sockets.find id with
  | none => s
  | some k =>
    { s.cleanup k with sockets := (s.cleanup k).sockets.keep fun k => !decide (k.sub.id = id) }

/-- `!active`; a read that throws leaves the stream alone. mirrors src/routes/events.ts:180-188 -/
def inactive (cfg : Config) (s : Streams) (k : Socket) (readFails : Bool) : Bool :=
  match cfg.authMode, k.sub.credentialId with
  | .perAccount, some c => !readFails && !isCredentialActive s.server.db c
  | _, _ => false

/-- One tick of a heartbeat: the response had ended, the read of the
credential threw, the write threw. mirrors src/routes/events.ts:169-199 -/
def tick (cfg : Config) (s : Streams) (id : Nat) (ended readFails writeFails : Bool) : Streams :=
  match s.sockets.find id with
  | none => s
  | some k => if ended || s.inactive cfg k readFails || writeFails then s.cleanup k else s

end Streams

/-! ## The handler -/

/-- The steps of `GET /events` that may throw. -/
inductive ConnectStep
  | resolve
  | subscribe
  | flushHeaders
  | latestSeq
  | ready
  deriving DecidableEq

/-- Which steps of a request throw, and what. -/
abbrev Faults : Type := ConnectStep → Option String

def Faults.at (faults : Faults) (step : ConnectStep) : Except Abort Unit :=
  match faults step with
  | none => .ok ()
  | some e => .error (.raise e)

/-- The same for a step behind the flushed head: Express's handler cuts the
connection, and a 200 without a frame is what the client has seen. -/
def Faults.late (faults : Faults) (step : ConnectStep) : Except Abort Unit :=
  (faults.at step).mapError fun _ => .respond ⟨200, streamHeaders, .empty⟩

/-- mirrors src/routes/events.ts:91-105 -/
def boundAccount (cfg : Config) (credential : Option Credential) (query : Query) (faults : Faults) :
    Except Abort String := do
  let claimed ← requiredAccountId query
  faults.at .resolve
  resolve cfg credential claimed

/-- The headers, the `ready` frame and the listeners. mirrors src/routes/events.ts:139-204 -/
def serve (faults : Faults) (a : String) (sub : Subscriber) : Prog Streams Abort Response := do
  Prog.ofExcept (faults.at .flushHeaders)
  Prog.ofExcept (faults.late .latestSeq)
  let seq ← Prog.get fun s => latestSeq s.server.db a
  Prog.ofExcept (faults.late .ready)
  Prog.poke fun s => s.listen a sub
  pure ⟨200, streamHeaders, .stream (.obj [("seq", .nat seq)])⟩

/-- mirrors src/routes/events.ts:111-137 -/
def openStream (cfg : Config) (credential : Option Credential) (faults : Faults) (a : String) :
    Prog Streams Abort Response := do
  let sub ← Prog.get fun s => (⟨s.server.nextId, credential.map (·.credentialId)⟩ : Subscriber)
  Prog.poke fun s => s.accepted a sub
  Prog.ofExcept (faults.at .subscribe)
  let subscribed ← Prog.get fun s =>
    (s.server.hub.subscribe cfg.maxSseConnectionsPerAccount cfg.maxSseConnections a sub).1
  Prog.poke fun s => s.join cfg a sub
  Prog.require subscribed (.error 429 "too many connections for account")
  serve faults a sub

/-- mirrors src/routes/events.ts:90-204 (`GET /`) -/
def getEvents (cfg : Config) (credential : Option Credential) (query : Query) (faults : Faults) :
    Prog Streams Abort Response := do
  let a ← Prog.ofExcept (boundAccount cfg credential query faults)
  openStream cfg credential faults a

inductive StreamEvent
  | connect (credential : Option Credential) (query : Query) (faults : Faults)
  | close (id : Nat)
  | tick (id : Nat) (ended readFails writeFails : Bool)
  | publish (a : String) (dead : Subscriber → Bool)
  | disconnectCredential (credentialId : String)
  | write (db : Db)

def Streams.next (cfg : Config) (s : Streams) : StreamEvent → Streams
  | .connect credential query faults => (getEvents cfg credential query faults s).state
  | .close id => s.close id
  | .tick id ended readFails writeFails => s.tick cfg id ended readFails writeFails
  | .publish a dead => { s with server := { s.server with hub := s.server.hub.publish dead a } }
  | .disconnectCredential credentialId =>
    { s with server := { s.server with hub := s.server.hub.disconnectCredential credentialId } }
  | .write db => { s with server := { s.server with db := db } }

def Streams.after (cfg : Config) (es : List StreamEvent) : Streams :=
  run (Streams.next cfg) .fresh es

/-- The hub is as it was, or the request's subscriber is registered, its
teardown is attached, and the closing of its socket removes it. -/
def Secured (s t : Streams) : Prop :=
  t.server.hub = s.server.hub ∨ ∃ k ∈ t.sockets.rows, k.sub.id = s.server.nextId ∧
    k.teardown = .listening ∧
    k.sub ∈ t.server.hub.set k.account ∧ ∀ b, k.sub ∉ (t.close k.sub.id).server.hub.set b

/-- every connect is secured, and no subscriber is left without sockets. -/
def NoZombies (cfg : Config) (es : List StreamEvent) : Prop :=
  (∀ before credential query faults rest, es = before ++ .connect credential query faults :: rest →
    Secured (.after cfg before)
      ((Streams.after cfg before).next cfg (.connect credential query faults))) ∧
  ((Streams.after cfg es).sockets.rows = [] → (Streams.after cfg es).server.hub = .empty)

/-- Whether the hub takes another subscriber of the account. -/
def Streams.Room (cfg : Config) (s : Streams) (a : String) : Prop :=
  s.server.hub.total < cfg.maxSseConnections ∧
  (s.server.hub.set a).length < cfg.maxSseConnectionsPerAccount

/-- Nothing throws between the subscription and the listeners. -/
def Faults.spare (faults : Faults) : Prop :=
  faults .flushHeaders = none ∧ faults .latestSeq = none ∧ faults .ready = none

/-- A request that gets its subscription, of which a later step throws. -/
def Strands (cfg : Config) (s : Streams) : StreamEvent → Prop
  | .connect credential query faults => ∃ a, boundAccount cfg credential query faults = .ok a ∧
      faults .subscribe = none ∧ s.Room cfg a ∧ ¬ faults.spare
  | _ => False

/-! ## What a connect leaves -/

section Connect
variable {cfg : Config} {credential : Option Credential} {query : Query} {faults : Faults}
  {a : String} {s : Streams}

/-- The subscriber of the next request. -/
def Streams.newcomer (s : Streams) (credential : Option Credential) : Subscriber :=
  ⟨s.server.nextId, credential.map (·.credentialId)⟩

/-- With its subscriber made, and handed to the hub. -/
def Streams.joined (cfg : Config) (s : Streams) (credential : Option Credential)
    (a : String) : Streams :=
  (s.accepted a (s.newcomer credential)).join cfg a (s.newcomer credential)

inductive Opens (cfg : Config) (credential : Option Credential) (faults : Faults) (a : String)
    (s : Streams) : Streams → Prop
  | thrown (h : faults .subscribe ≠ none) :
    Opens cfg credential faults a s (s.accepted a (s.newcomer credential))
  | full (room : ¬ s.Room cfg a) : Opens cfg credential faults a s (s.joined cfg credential a)
  | stranded (h : faults .subscribe = none) (room : s.Room cfg a) (late : ¬ faults.spare) :
      Opens cfg credential faults a s (s.joined cfg credential a)
  | opened (h : faults .subscribe = none) (room : s.Room cfg a) (fine : faults.spare) :
      Opens cfg credential faults a s ((s.joined cfg credential a).listen a (s.newcomer credential))

theorem at_none {step : ConnectStep} (h : faults step = none) : faults.at step = .ok () := by
  unfold Faults.at
  rw [h]

theorem at_some {step : ConnectStep} (h : faults step ≠ none) : ∃ e, faults.at step = .error e := by
  unfold Faults.at
  cases hf : faults step with
  | none => exact absurd hf h
  | some e => exact ⟨_, rfl⟩

theorem late_none {step : ConnectStep} (h : faults step = none) : faults.late step = .ok () := by
  unfold Faults.late
  rw [at_none h]
  rfl

theorem late_some {step : ConnectStep} (h : faults step ≠ none) :
    ∃ e, faults.late step = .error e := by
  obtain ⟨e, he⟩ := at_some h
  unfold Faults.late
  rw [he]
  exact ⟨_, rfl⟩

theorem serve_spare (h : faults.spare) (a : String) (sub : Subscriber) (s : Streams) :
    (serve faults a sub s).state = s.listen a sub := by
  unfold serve
  rw [at_none h.1, late_none h.2.1, late_none h.2.2]
  rfl

theorem serve_thrown (h : ¬ faults.spare) (a : String) (sub : Subscriber) (s : Streams) :
    (serve faults a sub s).state = s := by
  unfold serve
  by_cases hflush : faults .flushHeaders = none
  · by_cases hseq : faults .latestSeq = none
    · have hready : faults .ready ≠ none := fun hready => h ⟨hflush, hseq, hready⟩
      obtain ⟨e, he⟩ := late_some hready
      rw [at_none hflush, late_none hseq, he]
      rfl
    · obtain ⟨e, he⟩ := late_some hseq
      rw [at_none hflush, he]
      rfl
  · obtain ⟨e, he⟩ := at_some hflush
    rw [he]
    rfl

/-- The hub's answer is about the hub before the request. -/
theorem joins_iff (cfg : Config) (credential : Option Credential) (a : String) (s : Streams) :
    ((s.accepted a (s.newcomer credential)).server.hub.subscribe cfg.maxSseConnectionsPerAccount
      cfg.maxSseConnections a (s.newcomer credential)).1 = true ↔ s.Room cfg a := by
  rw [Hub.subscribe_admits, decide_eq_true_iff]
  rfl

/-- A connect past its subscription step. -/
theorem openStream_subscribe (h : faults .subscribe = none) : openStream cfg credential faults a s =
    (Prog.require
      ((s.accepted a (s.newcomer credential)).server.hub.subscribe cfg.maxSseConnectionsPerAccount
        cfg.maxSseConnections a (s.newcomer credential)).1
          (.error 429 "too many connections for account") >>= fun _ =>
      serve faults a (s.newcomer credential)) (s.joined cfg credential a) := by
  unfold openStream
  rw [at_none h]
  rfl

theorem openStream_opens (cfg : Config) (credential : Option Credential) (faults : Faults)
    (a : String) (s : Streams) :
    Opens cfg credential faults a s (openStream cfg credential faults a s).state := by
  by_cases hsub : faults .subscribe = none
  · rw [openStream_subscribe hsub]
    by_cases hroom : s.Room cfg a
    · rw [(joins_iff cfg credential a s).2 hroom]
      show Opens cfg credential faults a s
        (serve faults a (s.newcomer credential) (s.joined cfg credential a)).state
      by_cases hspare : faults.spare
      · rw [serve_spare hspare]
        exact .opened hsub hroom hspare
      · rw [serve_thrown hspare]
        exact .stranded hsub hroom hspare
    · rw [Bool.eq_false_iff.2 (mt (joins_iff cfg credential a s).1 hroom)]
      exact .full hroom
  · obtain ⟨e, he⟩ := at_some hsub
    unfold openStream
    rw [he]
    exact .thrown hsub

/-- A connect does nothing, or opens a stream of the account it is bound to. -/
theorem getEvents_opens (cfg : Config) (credential : Option Credential) (query : Query)
    (faults : Faults) (s : Streams) :
    (∃ e, boundAccount cfg credential query faults = .error e ∧
      (getEvents cfg credential query faults s).state = s) ∨
    ∃ a, boundAccount cfg credential query faults = .ok a ∧
      Opens cfg credential faults a s (getEvents cfg credential query faults s).state := by
  unfold getEvents
  cases h : boundAccount cfg credential query faults with
  | error e => exact .inl ⟨e, rfl, rfl⟩
  | ok a => exact .inr ⟨a, rfl, openStream_opens cfg credential faults a s⟩

/-- Without faults it is the handler of the application. -/
theorem getEvents_handle (cfg : Config) (host : Host) (credential : Option Credential) (env : Env)
    (query : Query) (s : Streams) :
    (getEvents cfg credential query (fun _ => none) s).result =
    (handle cfg host credential env (.events query) s.server).result ∧
      (getEvents cfg credential query (fun _ => none) s).state.server
        = (handle cfg host credential env (.events query) s.server).state := by
  have hcheck : check cfg host (.events query) =
      (requiredAccountId query).map fun a => (a, Call.connect) := by
    show (requiredAccountId query >>= fun a => pure (a, Call.connect)) = _
    cases requiredAccountId query with
    | error e => rfl
    | ok claimed => rfl
  have hbound : accept cfg host credential (.events query)
      = (boundAccount cfg credential query fun _ => none).map fun a => (a, Call.connect) := by
    unfold accept boundAccount
    rw [hcheck]
    cases requiredAccountId query with
    | error e => rfl
    | ok claimed =>
      show (resolve cfg credential claimed >>= fun a => pure (a, Call.connect)) =
        (resolve cfg credential claimed).map _
      cases resolve cfg credential claimed with
      | error e => rfl
      | ok a => rfl
  unfold getEvents handle
  rw [hbound]
  cases boundAccount cfg credential query fun _ => none with
  | error e => exact ⟨rfl, rfl⟩
  | ok a =>
    show (openStream cfg credential (fun _ => none) a s).result =
      (connect cfg credential a s.server).result ∧
      (openStream cfg credential (fun _ => none) a s).state.server =
        (connect cfg credential a s.server).state
    rw [connect_run, openStream_subscribe rfl]
    show _ =
      (if ((s.accepted a (s.newcomer credential)).server.hub.subscribe
        cfg.maxSseConnectionsPerAccount cfg.maxSseConnections a (s.newcomer credential)).1
        then _ else _) ∧ _
    cases ((s.accepted a (s.newcomer credential)).server.hub.subscribe
      cfg.maxSseConnectionsPerAccount cfg.maxSseConnections a (s.newcomer credential)).1 with
    | false => exact ⟨rfl, rfl⟩
    | true => exact ⟨rfl, rfl⟩

end Connect

/-! ## Invariants -/

/-- The hub is in order, and the ids in use are below the counter. -/
structure Streams.Sound (cfg : Config) (s : Streams) : Prop where
  orderly : ∃ known,
    s.server.hub.Orderly cfg.maxSseConnectionsPerAccount cfg.maxSseConnections known ∧
    ∀ x ∈ known, x.id < s.server.nextId
  sockets : ∀ k ∈ s.sockets.rows, k.sub.id < s.server.nextId

/-- Every subscriber has a socket whose teardown is attached. -/
def Streams.Guarded (s : Streams) : Prop := ∀ a, ∀ x ∈ s.server.hub.set a,
  ∃ k ∈ s.sockets.rows, k.sub = x ∧ k.account = a ∧ k.teardown = .listening

namespace Streams

section Steps
variable {cfg : Config} {credential : Option Credential} {faults : Faults}
  {a : String} {s t : Streams}

theorem Sound.below (h : s.Sound cfg) {x : Subscriber} (hx : x ∈ s.server.hub.set a) :
    x.id < s.server.nextId := by
  obtain ⟨known, hord, hbelow⟩ := h.orderly
  exact hbelow x (hord.known a x hx)

theorem Sound.newcomer (h : s.Sound cfg) (credential : Option Credential) (a : String) :
    s.newcomer credential ∉ s.server.hub.set a := fun hm => Nat.lt_irrefl _ (h.below hm)

/-- Nobody joins, and no socket is added. -/
theorem Sound.of_sub (h : s.Sound cfg) (hid : t.server.nextId = s.server.nextId)
    (hhub : ∀ known,
      s.server.hub.Orderly cfg.maxSseConnectionsPerAccount cfg.maxSseConnections known →
      t.server.hub.Orderly cfg.maxSseConnectionsPerAccount cfg.maxSseConnections known)
    (hsockets : ∀ k ∈ t.sockets.rows, ∃ l ∈ s.sockets.rows, k.sub = l.sub) : t.Sound cfg := by
  obtain ⟨known, hord, hbelow⟩ := h.orderly
  refine ⟨⟨known, hhub known hord, hid ▸ hbelow⟩, fun k hk => ?_⟩
  obtain ⟨l, hl, e⟩ := hsockets k hk
  rw [e, hid]
  exact h.sockets l hl

theorem Sound.cleanup (h : s.Sound cfg) {k : Socket} (hk : k ∈ s.sockets.rows) :
    (s.cleanup k).Sound cfg := by
  unfold Streams.cleanup
  split
  · refine h.of_sub rfl (fun _ hord => hord.unsubscribe k.account k.sub) fun l hl => ?_
    rcases Table.mem_upsert.1 hl with rfl | ⟨hl, -⟩
    · exact ⟨k, hk, rfl⟩
    · exact ⟨l, hl, rfl⟩
  · exact h

theorem Sound.close (h : s.Sound cfg) (id : Nat) : (s.close id).Sound cfg := by
  unfold Streams.close
  cases hf : s.sockets.find id with
  | none => exact h
  | some k =>
    have hclean := h.cleanup (Table.find_mem hf)
    exact hclean.of_sub rfl (fun _ hord => hord) fun l hl => ⟨l, (Table.mem_keep.1 hl).1, rfl⟩

theorem tick_cases (cfg : Config) (s : Streams) (id : Nat) (ended readFails writeFails : Bool) :
    s.tick cfg id ended readFails writeFails = s ∨
      ∃ k ∈ s.sockets.rows, s.tick cfg id ended readFails writeFails = s.cleanup k := by
  unfold Streams.tick
  cases hf : s.sockets.find id with
  | none => exact .inl rfl
  | some k =>
    dsimp only
    split
    · exact .inr ⟨k, Table.find_mem hf, rfl⟩
    · exact .inl rfl

theorem Sound.tick (h : s.Sound cfg) (id : Nat) (ended readFails writeFails : Bool) :
    (s.tick cfg id ended readFails writeFails).Sound cfg := by
  rcases tick_cases cfg s id ended readFails writeFails with e | ⟨k, hk, e⟩
  · rw [e]
    exact h
  · rw [e]
    exact h.cleanup hk

theorem Sound.accepted (h : s.Sound cfg) (credential : Option Credential) (a : String) :
    (s.accepted a (s.newcomer credential)).Sound cfg := by
  obtain ⟨known, hord, hbelow⟩ := h.orderly
  refine ⟨⟨known, hord, fun x hx => Nat.lt_succ_of_lt (hbelow x hx)⟩, fun k hk => ?_⟩
  rcases Table.mem_upsert.1 hk with rfl | ⟨hk, -⟩
  · exact Nat.lt_succ_self _
  · exact Nat.lt_succ_of_lt (h.sockets k hk)

theorem Sound.joined (h : s.Sound cfg) (credential : Option Credential) (a : String) :
    (s.joined cfg credential a).Sound cfg := by
  obtain ⟨known, hord, hbelow⟩ := h.orderly
  have hnew : s.newcomer credential ∉ known := fun hm => Nat.lt_irrefl _ (hbelow _ hm)
  refine ⟨⟨known ++ [s.newcomer credential], hord.subscribe a hnew, fun x hx => ?_⟩,
    (h.accepted credential a).sockets⟩
  rcases List.mem_append.1 hx with hx | hx
  · exact Nat.lt_succ_of_lt (hbelow x hx)
  · rw [List.mem_singleton.1 hx]
    exact Nat.lt_succ_self _

theorem Sound.listen (h : s.Sound cfg) {sub : Subscriber} (hsub : sub.id < s.server.nextId) :
    (s.listen a sub).Sound cfg := by
  refine ⟨h.orderly, fun k hk => ?_⟩
  rcases Table.mem_upsert.1 hk with rfl | ⟨hk, -⟩
  · exact hsub
  · exact h.sockets k hk

theorem Sound.opens (h : s.Sound cfg) (ho : Opens cfg credential faults a s t) : t.Sound cfg := by
  cases ho with
  | thrown _ => exact h.accepted credential a
  | full _ => exact h.joined credential a
  | stranded _ _ _ => exact h.joined credential a
  | opened _ _ _ => exact (h.joined credential a).listen (Nat.lt_succ_self s.server.nextId)

theorem Sound.next (h : s.Sound cfg) (e : StreamEvent) : (s.next cfg e).Sound cfg := by
  cases e with
  | connect credential query faults =>
    rcases getEvents_opens cfg credential query faults s with
      ⟨e, -, hs⟩ | ⟨a, -, ho⟩
    · show (getEvents cfg credential query faults s).state.Sound cfg
      rw [hs]
      exact h
    · exact h.opens ho
  | close id => exact h.close id
  | tick id ended readFails writeFails => exact h.tick id ended readFails writeFails
  | publish a dead => exact h.of_sub rfl (fun _ hord => hord.publishTo) fun k hk => ⟨k, hk, rfl⟩
  | disconnectCredential id =>
    exact h.of_sub rfl (fun _ hord => hord.disconnectAll) fun k hk => ⟨k, hk, rfl⟩
  | write db => exact h.of_sub rfl (fun _ hord => hord) fun k hk => ⟨k, hk, rfl⟩

theorem sound_fresh : Streams.fresh.Sound cfg :=
  ⟨⟨[], Hub.orderly_empty, fun _ hx => (List.not_mem_nil hx).elim⟩,
    fun _ hk => (List.not_mem_nil hk).elim⟩

theorem sound_after (cfg : Config) (es : List StreamEvent) : (Streams.after cfg es).Sound cfg :=
  run_inv (fun _ e h => h.next e) es _ sound_fresh

/-! ### The hub after a connect -/

theorem joined_full (h : s.Sound cfg) (room : ¬ s.Room cfg a) :
    (s.joined cfg credential a).server.hub = s.server.hub := by
  obtain ⟨known, hord, -⟩ := h.orderly
  exact Hub.subscribe_refused hord.nonempty
    (Bool.eq_false_iff.2 (mt (joins_iff cfg credential a s).1 room))

theorem joined_set (h : s.Sound cfg) (room : s.Room cfg a) (b : String) :
    (s.joined cfg credential a).server.hub.set b =
    if b = a then s.server.hub.set a ++ [s.newcomer credential] else s.server.hub.set b := by
  have hadm := (joins_iff cfg credential a s).2 room
  show ((s.accepted a (s.newcomer credential)).server.hub.subscribe _ _ a
    (s.newcomer credential)).2.set b = _
  have hnew : s.newcomer credential ∉ (s.accepted a (s.newcomer credential)).server.hub.set a :=
    h.newcomer credential a
  rw [Hub.set_subscribe, hadm, if_neg hnew]
  simp only [true_and]
  rfl

/-- A teardown that is attached takes the subscriber out. -/
theorem close_hub {k : Socket} (hk : k ∈ s.sockets.rows) (hl : k.teardown = .listening) :
    (s.close k.sub.id).server.hub = s.server.hub.unsubscribe k.account k.sub := by
  unfold Streams.close Streams.cleanup
  rw [Table.find_some.2 ⟨hk, rfl⟩]
  simp only [hl]
  rfl

/-! ### The guard -/

theorem Guarded.cleanup (h : s.Guarded) {k : Socket} (hk : k ∈ s.sockets.rows) :
    (s.cleanup k).Guarded := by
  unfold Streams.cleanup
  split
  · intro b x hx
    have hx : x ∈ (s.server.hub.unsubscribe k.account k.sub).set b := hx
    rw [Hub.set_unsubscribe] at hx
    have hold : x ∈ s.server.hub.set b ∧ ¬ (k.account = b ∧ x = k.sub) := by
      split at hx
      · exact ⟨(List.mem_filter.1 hx).1, fun h => by simpa [h.2] using (List.mem_filter.1 hx).2⟩
      · exact ⟨hx, fun h => absurd h.1 ‹_›⟩
    obtain ⟨l, hl, hsub, hacc, hlis⟩ := h b x hold.1
    refine ⟨l, Table.mem_upsert.2 (.inr ⟨hl, fun e => hold.2 ?_⟩), hsub, hacc, hlis⟩
    have hkl : l = k := Table.eq_of_mem hl hk e
    rw [← hkl]
    exact ⟨hacc, hsub.symm⟩
  · exact h

/-- A socket has no teardown attached once it has run. -/
theorem cleanup_idle {k l : Socket} (hk : k ∈ s.sockets.rows) (hl : l ∈ (s.cleanup k).sockets.rows)
    (e : l.sub.id = k.sub.id) : l.teardown ≠ .listening := by
  unfold Streams.cleanup at hl
  split at hl
  · rcases Table.mem_upsert.1 hl with rfl | ⟨-, hne⟩
    · nofun
    · exact absurd e hne
  · rename_i hidle
    rw [Table.eq_of_mem hl hk e]
    exact hidle

/-- The subscribers left by a socket that closed have others. -/
theorem Guarded.close (h : s.Guarded) (id : Nat) : (s.close id).Guarded := by
  unfold Streams.close
  cases hf : s.sockets.find id with
  | none => exact h
  | some k =>
    have hk := Table.find_mem hf
    intro b x hx
    obtain ⟨l, hl, hsub, hacc, hlis⟩ := h.cleanup hk b x hx
    refine ⟨l, Table.mem_keep.2 ⟨hl, ?_⟩, hsub, hacc, hlis⟩
    have hne : l.sub.id ≠ id := fun e => cleanup_idle hk hl (e.trans (Table.find_key hf).symm) hlis
    simpa using hne

theorem Guarded.listen (h : s.Guarded) (room : s.Room cfg a) (hs : s.Sound cfg) :
    ((s.joined cfg credential a).listen a (s.newcomer credential)).Guarded := by
  intro b x hx
  have hx : x ∈ (s.joined cfg credential a).server.hub.set b := hx
  have hself : ⟨a, s.newcomer credential, .listening⟩ ∈
      ((s.joined cfg credential a).listen a (s.newcomer credential)).sockets.rows :=
    Table.mem_upsert.2 (.inl rfl)
  have hold : x ∈ s.server.hub.set b →
      ∃ k ∈ ((s.joined cfg credential a).listen a (s.newcomer credential)).sockets.rows,
      k.sub = x ∧ k.account = b ∧ k.teardown = .listening := by
    intro hx
    obtain ⟨k, hk, hrest⟩ := h b x hx
    have hne : k.sub.id ≠ s.server.nextId := Nat.ne_of_lt (hs.sockets k hk)
    exact ⟨k, Table.mem_upsert.2 (.inr ⟨Table.mem_upsert.2 (.inr ⟨hk, hne⟩), hne⟩), hrest⟩
  rw [joined_set hs room] at hx
  split at hx
  · rename_i hb
    rcases List.mem_append.1 hx with hx | hx
    · exact hold (hb ▸ hx)
    · exact ⟨_, hself, (List.mem_singleton.1 hx).symm, hb.symm, rfl⟩
  · exact hold hx

/-- A connect that leaves the hub alone. -/
theorem Guarded.same_hub (h : s.Guarded) (hs : s.Sound cfg) (hhub : t.server.hub = s.server.hub)
    (hsockets : t.sockets = (s.accepted a (s.newcomer credential)).sockets) : t.Guarded := by
  intro b x hx
  rw [hhub] at hx
  obtain ⟨k, hk, hrest⟩ := h b x hx
  refine ⟨k, ?_, hrest⟩
  rw [hsockets]
  exact Table.mem_upsert.2 (.inr ⟨hk, Nat.ne_of_lt (hs.sockets k hk)⟩)

theorem Guarded.opens (h : s.Guarded) (hs : s.Sound cfg) (ho : Opens cfg credential faults a s t)
    (hok : ¬ (faults .subscribe = none ∧ s.Room cfg a ∧ ¬ faults.spare)) : t.Guarded := by
  cases ho with
  | thrown _ => exact h.same_hub hs rfl rfl
  | full room => exact h.same_hub hs (joined_full hs room) rfl
  | stranded hsub room late => exact absurd ⟨hsub, room, late⟩ hok
  | opened _ room _ => exact h.listen room hs

theorem Guarded.next (h : s.Guarded) (hs : s.Sound cfg) {e : StreamEvent}
    (hok : ¬ Strands cfg s e) :
    (s.next cfg e).Guarded := by
  -- a fan-out and a disconnection only take subscribers out
  have hless : ∀ hub : Hub, (∀ b, ∀ x ∈ hub.set b, x ∈ s.server.hub.set b) →
      Guarded { s with server := { s.server with hub := hub } } := fun hub hsub b x hx =>
        h b x (hsub b x hx)
  cases e with
  | connect credential query faults =>
    rcases getEvents_opens cfg credential query faults s with ⟨e, -, hst⟩ | ⟨a, ha, ho⟩
    · show (getEvents cfg credential query faults s).state.Guarded
      rw [hst]
      exact h
    · show (getEvents cfg credential query faults s).state.Guarded
      exact h.opens hs ho fun hlate => hok ⟨a, ha, hlate⟩
  | close id => exact h.close id
  | tick id ended readFails writeFails =>
    show (s.tick cfg id ended readFails writeFails).Guarded
    rcases tick_cases cfg s id ended readFails writeFails with e | ⟨k, hk, e⟩
    · rw [e]
      exact h
    · rw [e]
      exact h.cleanup hk
  | publish a dead =>
    refine hless _ fun b x hx => ?_
    rw [Hub.set_publish] at hx
    split at hx
    · exact (List.mem_filter.1 hx).1
    · exact hx
  | disconnectCredential id =>
    refine hless _ fun b x hx => ?_
    rw [Hub.set_disconnect] at hx
    exact (List.mem_filter.1 hx).1
  | write db => exact h

/-- Without sockets a guarded hub has no subscriber. -/
theorem Guarded.empty (h : s.Guarded) (hs : s.Sound cfg) (hclosed : s.sockets.rows = []) :
    s.server.hub = .empty := by
  obtain ⟨known, hord, -⟩ := hs.orderly
  have hrows : s.server.hub.byAccount.rows = [] := by
    refine List.eq_nil_iff_forall_not_mem.2 fun r hr => ?_
    obtain ⟨x, hx⟩ := List.exists_mem_of_ne_nil _ (hord.nonempty r hr)
    rw [← Hub.set_row hr] at hx
    obtain ⟨k, hk, -⟩ := h r.1 x hx
    rw [hclosed] at hk
    exact List.not_mem_nil hk
  have htotal := hord.counted.total
  unfold Table.total at htotal
  rw [hrows] at htotal
  show (⟨s.server.hub.byAccount, s.server.hub.total⟩ : Hub) = ⟨.empty, 0⟩
  rw [Table.ext' (u := .empty) hrows, htotal]
  rfl

/-! ### Single connects -/

theorem secured_opens (hs : s.Sound cfg) (ho : Opens cfg credential faults a s t) :
    Secured s t ↔ ¬ (faults .subscribe = none ∧ s.Room cfg a ∧ ¬ faults.spare) := by
  cases ho with
  | thrown hsub => exact ⟨fun _ h => hsub h.1, fun _ => .inl rfl⟩
  | full room => exact ⟨fun _ h => room h.2.1, fun _ => .inl (joined_full hs room)⟩
  | stranded hsub room late =>
    refine ⟨fun h => ?_, fun h => absurd ⟨hsub, room, late⟩ h⟩
    rcases h with hsame | ⟨k, hk, hid, hlis, -⟩
    · have hmem : s.newcomer credential ∈ (s.joined cfg credential a).server.hub.set a := by
        rw [joined_set hs room, if_pos rfl]
        exact List.mem_append_right _ (List.mem_singleton.2 rfl)
      rw [hsame] at hmem
      exact absurd hmem (hs.newcomer credential a)
    · -- the only socket of that id has no teardown
      rcases Table.mem_upsert.1 hk with rfl | ⟨hk, -⟩
      · cases hlis
      · exact absurd hid (Nat.ne_of_lt (hs.sockets k hk))
  | opened _ room fine =>
    refine ⟨fun _ h => h.2.2 fine,
      fun _ => .inr ⟨⟨a, s.newcomer credential, .listening⟩, ?_, rfl, rfl, ?_, fun b => ?_⟩⟩
    · exact Table.mem_upsert.2 (.inl rfl)
    · show s.newcomer credential ∈ (s.joined cfg credential a).server.hub.set a
      rw [joined_set hs room, if_pos rfl]
      exact List.mem_append_right _ (List.mem_singleton.2 rfl)
    · have hclose := close_hub (s := (s.joined cfg credential a).listen a (s.newcomer credential))
        (k := ⟨a, s.newcomer credential, .listening⟩) (Table.mem_upsert.2 (.inl rfl)) rfl
      rw [hclose, Hub.set_unsubscribe]
      split
      · simp
      · rename_i hne
        show s.newcomer credential ∉ (s.joined cfg credential a).server.hub.set b
        rw [joined_set hs room, if_neg (Ne.symm hne)]
        exact hs.newcomer credential b

end Steps

end Streams

theorem secured_iff {cfg : Config} {s : Streams} (hs : s.Sound cfg)
    (credential : Option Credential) (query : Query)
    (faults : Faults) : Secured s (s.next cfg (.connect credential query faults)) ↔
      ¬ Strands cfg s (.connect credential query faults) := by
  rcases getEvents_opens cfg credential query faults s with ⟨e, he, hst⟩ | ⟨a, ha, ho⟩
  · refine ⟨fun _ ⟨a, ha, _⟩ => ?_, fun _ => .inl (congrArg (fun t : Streams => t.server.hub) hst)⟩
    rw [he] at ha
    cases ha
  · have ho : Opens cfg credential faults a s (s.next cfg (.connect credential query faults)) := ho
    refine (Streams.secured_opens hs ho).trans
      (not_congr ⟨fun h => ⟨a, ha, h⟩, fun ⟨b, hb, h⟩ => ?_⟩)
    rw [ha] at hb
    cases hb
    exact h

/-! ## Runs -/

theorem after_guarded {cfg : Config} {es : List StreamEvent}
    (fine : AllSteps (Streams.next cfg) (fun s e => ¬ Strands cfg s e) .fresh es) :
    (Streams.after cfg es).Guarded := by
  have hstep : ∀ s e, ¬ Strands cfg s e → s.Sound cfg ∧ s.Guarded → (s.next cfg e).Sound cfg ∧
      (s.next cfg e).Guarded :=
    fun s e hok h => ⟨h.1.next e, h.2.next h.1 hok⟩
  exact (run_inv_of hstep es _ fine ⟨Streams.sound_fresh,
    fun _ _ hx => (List.not_mem_nil hx).elim⟩).2

/-- **A connect leaves the hub as it was or a guarded subscriber, unless a step
throws between its subscription and its listeners**; without such connects the
hub is empty when all sockets are closed. -/
theorem failed_connects (cfg : Config) (es : List StreamEvent) :
    (∀ credential query faults,
      Secured (.after cfg es) ((Streams.after cfg es).next cfg (.connect credential query faults)) ↔
      ¬ Strands cfg (.after cfg es) (.connect credential query faults)) ∧
    (AllSteps (Streams.next cfg) (fun s e => ¬ Strands cfg s e) .fresh es → NoZombies cfg es) := by
  refine ⟨secured_iff (Streams.sound_after cfg es),
    fun fine => ⟨fun before credential query faults rest e => ?_, fun h => ?_⟩⟩
  · rw [e, allSteps_append] at fine
    exact (secured_iff (Streams.sound_after cfg before) credential query faults).2 fine.2.1
  · exact (after_guarded fine).empty (Streams.sound_after cfg es) h

/-- One slot for an account. -/
def oneSlot : Config :=
  ⟨.shared, "token", .bootstrap, "", none, [], 1000, ⟨none, none, none, none⟩, 1, 1⟩

/-- Only this step throws. -/
def Faults.only (step : ConnectStep) (error : String) : Faults :=
  fun other => if other = step then some error else none

/-- A connect fails at its subscription, one gets the slot, and the store fails
under one that finds the slot taken. -/
def failingConnects : List StreamEvent :=
  [.connect none household (.only .subscribe "out of memory"),
    .connect none household fun _ => none,
    .connect none household (.only .latestSeq "disk I/O error"), .close 1, .close 2, .close 3]

/-- None of them leaves anything; had the slot been free, the last one would
have. -/
theorem failed_connects_closed : NoZombies oneSlot failingConnects ∧
    (Streams.after oneSlot failingConnects).server.hub = .empty ∧
    ¬ Secured (.after oneSlot [])
      ((Streams.after oneSlot []).next oneSlot
        (.connect none household (.only .latestSeq "disk I/O error"))) := by
  have hfine :
      AllSteps (Streams.next oneSlot)
        (fun s e => ¬ Strands oneSlot s e) .fresh failingConnects := by
    refine ⟨?_, ?_, ?_, id, id, id, trivial⟩
    · rintro ⟨_, _, hsub, _⟩
      cases hsub
    · rintro ⟨_, _, _, _, hlate⟩
      exact hlate ⟨rfl, rfl, rfl⟩
    · -- the only slot of the account is taken
      rintro ⟨a, ha, -, hroom, -⟩
      cases ha
      exact absurd hroom.2 (by decide +kernel)
  have hzombies := (failed_connects oneSlot failingConnects).2 hfine
  refine ⟨hzombies, hzombies.2 rfl, fun h => ?_⟩
  refine ((failed_connects oneSlot []).1 none household _).1 h
    ⟨"house", rfl, rfl, ⟨by decide +kernel, by decide +kernel⟩, ?_⟩
  exact fun hspare => Option.some_ne_none _ hspare.2.1

/-- The read of the latest seq throws, and the socket closes. -/
def lostConnect : List StreamEvent :=
  [.connect none household (.only .latestSeq "disk I/O error"), .close 1]

/-- The account's only slot stays taken. -/
theorem lost_connect_stays : ¬ NoZombies oneSlot lostConnect ∧
    (Streams.after oneSlot lostConnect).sockets.rows = [] ∧
    (Streams.after oneSlot lostConnect).server.hub.total = 1 := by
  refine ⟨fun h => ?_, rfl, rfl⟩
  have hempty := congrArg Hub.total (h.2 rfl)
  cases hempty

end GlanceVault.L3
