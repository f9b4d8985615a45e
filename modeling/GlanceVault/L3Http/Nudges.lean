import GlanceVault.Core.Feed
import GlanceVault.L2Storage.SeqLine
import GlanceVault.L3Http.Operations
/-!
# Who is told of a write

A sync batch, a row delete and an intents batch publish a nudge after their
transaction, if it moved the account's counter; no other handler does. A
stream is told the counter when it opens. So the hub, its logs and the
counters are a feed (`Server.feed`), and every handler is one step of it.

* `perform_wakes`: what a call that opens no stream does to the hub and the
  logs.
* `perform_feed`, `handleAdmin_feed`: a call, an operator's request as a step
  of the feed.
-/
namespace GlanceVault.L3
open GlanceVault.Core GlanceVault.L1 GlanceVault.L1.Js GlanceVault.L2

/-- An open event stream: its account, its subscriber, the seq of its `ready`
frame. -/
abbrev Stream : Type := Member String Subscriber

/-- The label of the nudge a call publishes, if any. -/
def Call.nudges : Call → Option String
  | .batch app _ notify => if notify then some app else none
  | .deleteEntity app _ _ => some app
  | .intents _ => some "intents"
  | _ => none

/-- The server after `emit`. -/
def Server.nudged (env : Env) (v : Server) (a : String) (nudge : Nudge) : Server :=
  { v with
    hub := v.hub.publish env.dead a
    published := v.published ++ [(a, nudge)]
    delivered :=
      v.delivered ++ ((v.hub.set a).filter fun x => !env.dead x).map fun x => (x, nudge) }

/-- The server after a write that may nudge as `label`, from the counter `since`. -/
def Server.wake (env : Env) (v : Server) (a : String) (label : Option String)
    (since : Nat) : Server :=
  match label with
  | some app => if since < latestSeq v.db a then v.nudged env a ⟨latestSeq v.db a, some app⟩ else v
  | none => v

/-- The stream a call opens, if any. -/
def Call.opens (cfg : Config) (credential : Option Credential) (a : String) (v : Server) :
    Call → List Stream
  | .connect =>
    let sub : Subscriber := ⟨v.nextId, credential.map (·.credentialId)⟩
    if (v.hub.subscribe cfg.maxSseConnectionsPerAccount cfg.maxSseConnections a sub).1 then
      [⟨a, sub, latestSeq v.db a⟩]
    else []
  | _ => []

/-! ## The transactions -/

section Counters
variable {app a : String} {db db' : Db}

/-- A batch reports a number exactly if it moved the counter, and then the
counter it left. -/
def Reported (a : String) (db db' : Db) (n : Nat) : Prop :=
  (0 < n ↔ latestSeq db a < latestSeq db' a) ∧ (0 < n → n = latestSeq db' a)

/-- What the loop of a batch reports of the `k` numbers it assigned. -/
theorem reported_of {k n : Nat} (hn : n = if k = 0 then 0 else latestSeq db a + k)
    (hc : latestSeq db' a = latestSeq db a + k) : Reported a db db' n := by
  unfold Reported
  by_cases h0 : k = 0
  · rw [if_pos h0] at hn
    exact ⟨by omega, by omega⟩
  · rw [if_neg h0] at hn
    exact ⟨by omega, by omega⟩

theorem batchUpsert_reported {rows : List SyncRowInput} {now : Nat → String} {res : BatchResult}
    (h : (batchUpsert app a rows now).eval db = .ok (res, db')) : Reported a db db' res.maxSeq := by
  obtain ⟨ws, -, -, hmax, hlatest, -⟩ := batchLoop_assigns (Nat.zero_le _) h
  exact reported_of hmax hlatest

theorem insertIntents_reported {evs : List IntentEventInput} {now : Nat → String}
    {res : BatchResult}
    (h : (insertIntents a evs now).eval db = .ok (res, db')) : Reported a db db' res.maxSeq := by
  obtain ⟨acc, d, h1, h2⟩ := insertIntents_eval a evs now db
  rw [h2] at h
  cases h
  obtain ⟨ws, -, -, hmax, hlatest, -⟩ := intentLoop_assigns (Nat.zero_le _) h1
  exact reported_of hmax hlatest

end Counters

/-! ## The handlers -/

section Handlers
variable {cfg : Config} {host : Host} {env : Env} {a : String} (v : Server)

theorem gated_run (cfg : Config) (rule : QuotaPolicy → Db → Option QuotaVerdict) :
    gated cfg rule v = ⟨.ok (), v, []⟩ ∨ ∃ x, gated cfg rule v = ⟨.error x, v, []⟩ := by
  unfold gated
  cases makeQuotaGate cfg.quotas with
  | none => exact .inl rfl
  | some gate =>
    unfold readDb
    simp only [Prog.get_bind]
    cases rule gate v.db with
    | none => exact .inl rfl
    | some verdict => exact .inr ⟨_, rfl⟩

/-- The tail of a batch handler. -/
theorem emit_wakes {db db' : Db} {n : Nat} (h : Reported a db db' n) (notify : Bool) (app : String)
    (r : Response) (hv : v.db = db') {p : Prop} [Decidable p] (hp : p ↔ notify = true ∧ 0 < n) :
    ((if p then do
        emit env a ⟨n, some app⟩
        pure r
      else pure r : Handler Response) v).state =
      v.wake env a (if notify then some app else none) (latestSeq db a) := by
  obtain ⟨hiff, heq⟩ := h
  subst hv
  unfold Server.wake
  by_cases hpub : p
  · obtain ⟨rfl, hn⟩ := hp.1 hpub
    simp only [if_pos hpub, if_true]
    rw [if_pos (hiff.1 hn), ← heq hn]
    rfl
  · rw [if_neg hpub]
    cases notify with
    | false => rfl
    | true =>
      simp only [if_true]
      rw [if_neg fun hlt => hpub (hp.2 ⟨rfl, hiff.2 hlt⟩)]
      rfl

theorem wake_same (env : Env) (a : String) (label : Option String) :
    v.wake env a label (latestSeq v.db a) = v := by
  unfold Server.wake
  cases label with
  | none => rfl
  | some app => exact if_neg (Nat.lt_irrefl _)

theorem wake_db (env : Env) (a : String) (label : Option String) (n : Nat) :
    (v.wake env a label n).db = v.db := by
  unfold Server.wake
  split
  · split <;> rfl
  · rfl

theorem wake_nextId (env : Env) (a : String) (label : Option String) (n : Nat) :
    (v.wake env a label n).nextId = v.nextId := by
  unfold Server.wake
  split
  · split <;> rfl
  · rfl

theorem wake_published (env : Env) (a : String) (label : Option String) (n : Nat) :
    (v.wake env a label n).published = v.published ++
      match label with
      | some app => if n < latestSeq v.db a then [(a, ⟨latestSeq v.db a, some app⟩)] else []
      | none => [] := by
  unfold Server.wake
  cases label with
  | none => exact (List.append_nil _).symm
  | some app =>
    dsimp only
    by_cases h : n < latestSeq v.db a
    · rw [if_pos h, if_pos h]
      rfl
    · rw [if_neg h, if_neg h, List.append_nil]

theorem batch_wakes (cfg : Config) (env : Env) (a : String) (app : String)
    (rows : List SyncRowInput) (notify : Bool) : ∃ db,
    (batch cfg env a app rows notify v).state =
      Server.wake env { v with db := db } a (if notify then some app else none)
        (latestSeq v.db a) := by
  unfold batch
  rw [Prog.bind_run]
  rcases gated_run v cfg (fun gate => admitSyncBatch gate a app (rows.map (·.entityId))) with hg |
    ⟨x, hg⟩
  · obtain ⟨⟨res, db⟩, he⟩ := batchUpsert_eval app a rows env.clock v.db
    refine ⟨db, ?_⟩
    rw [hg]
    dsimp only
    rw [Prog.bind_run, exec_run he]
    exact emit_wakes { v with db := db } (batchUpsert_reported he) notify app _ rfl (by simp)
  · refine ⟨v.db, ?_⟩
    rw [hg]
    exact (wake_same v env a _).symm

theorem intentsBatch_wakes (cfg : Config) (env : Env) (a : String)
    (events : List IntentEventInput) : ∃ db, (intentsBatch cfg env a events v).state =
    Server.wake env { v with db := db } a (some "intents") (latestSeq v.db a) := by
  unfold intentsBatch
  rw [Prog.bind_run]
  rcases gated_run v cfg (fun gate => admitIntents gate a
    (events.map (·.eventId)) env.quotaNow) with hg | ⟨x, hg⟩
  · obtain ⟨acc, d, -, he⟩ := insertIntents_eval a events env.clock v.db
    refine ⟨d.pruneIntents a (env.clock acc.written), ?_⟩
    rw [hg]
    dsimp only
    rw [Prog.bind_run, exec_run he]
    exact emit_wakes { v with db := d.pruneIntents a (env.clock acc.written) }
      (insertIntents_reported he) true "intents" (BatchResult.json acc) rfl (by simp)
  · refine ⟨v.db, ?_⟩
    rw [hg]
    exact (wake_same v env a _).symm

theorem deleteEntity_wakes (env : Env) (a : String) (app e : String) (deletedAt : Option Nat) :
    ∃ db,
    (deleteEntity env a app e deletedAt v).state =
      Server.wake env { v with db := db } a (some app) (latestSeq v.db a) := by
  unfold deleteEntity
  have he := softDeleteRow_eval app a e (deletedAt.map .ofNat) (env.clock 0) v.db
  rw [Prog.bind_run]
  cases hf : v.db.syncRows.find (a, app, e) with
  | none =>
    rw [hf] at he
    refine ⟨v.db, ?_⟩
    rw [exec_run he, wake_same]
    rfl
  | some r =>
    rw [hf] at he
    have ha : r.accountId = a := congrArg Prod.fst (Table.find_key hf)
    by_cases hd : r.deleted = true
    · simp only [hd, if_true] at he
      refine ⟨v.db, ?_⟩
      rw [exec_run he, wake_same]
      rfl
    · simp only [hd] at he
      refine ⟨v.db.tombstoneRow r (deletedAt.map .ofNat) (env.clock 0), ?_⟩
      rw [exec_run he]
      -- the tombstone takes the next number
      have hnext : latestSeq (v.db.tombstoneRow r (deletedAt.map .ofNat) (env.clock 0)) a =
          latestSeq v.db a + 1 := by
        unfold Db.tombstoneRow
        rw [ha]
        exact latestSeq_bump_self v.db a
      unfold Server.wake
      dsimp only
      rw [hnext, if_pos (Nat.lt_succ_self _)]
      rfl

/-- The hub, the stream counter and the logs. -/
def Server.wire (v : Server) : Hub × Nat × List (String × Nudge) × List (Subscriber × Nudge) :=
  (v.hub, v.nextId, v.published, v.delivered)

theorem wire_eq {v w : Server} (h : w.wire = v.wire) :
    w = { v with db := w.db, disk := w.disk } := by
  obtain ⟨db, disk, hub, n, p, q⟩ := w
  cases h
  rfl

theorem wire_ignores (area : Area) : Ignores Server.wire area := by
  cases area <;> exact fun _ _ => by intros; rfl

/-- **What a call that opens no stream does to the hub and the logs.** -/
theorem perform_wakes (cfg : Config) (host : Host) (env : Env) (a : String)
    (credential : Option Credential) {call : Call} (h : call ≠ .connect) : ∃ db disk,
    (perform cfg host credential env a call v).state =
      Server.wake env { v with db := db, disk := disk } a call.nudges (latestSeq v.db a) := by
  have hquiet : call.talks = false → call.nudges = none → ∃ db disk,
      (perform cfg host credential env a call v).state =
        Server.wake env { v with db := db, disk := disk } a call.nudges (latestSeq v.db a) := by
    intro ht hn
    have hk := perform_frame_of (π := Server.wire) cfg host credential env a call
      (fun e => by rw [ht] at e; cases e)
      fun area _ => wire_ignores area
    refine ⟨(perform cfg host credential env a call v).state.db,
      (perform cfg host credential env a call v).state.disk, ?_⟩
    rw [hn]
    exact wire_eq (hk v).1
  cases call with
  | batch app rows notify =>
    obtain ⟨db, e⟩ := batch_wakes v cfg env a app rows notify
    exact ⟨db, v.disk, e⟩
  | deleteEntity app e deletedAt =>
    obtain ⟨db, e⟩ := deleteEntity_wakes v env a app e deletedAt
    exact ⟨db, v.disk, e⟩
  | intents events =>
    obtain ⟨db, e⟩ := intentsBatch_wakes v cfg env a events
    exact ⟨db, v.disk, e⟩
  | connect => exact absurd rfl h
  | _ => exact hquiet rfl rfl

end Handlers

/-! ## Steps of the feed -/

/-- The hub, its logs and the counters as a feed. -/
def Server.feed (v : Server) (streams : List Stream) : Feed String Subscriber Nudge where
  latest := latestSeq v.db
  live := v.hub.set
  joined := streams
  announced := v.published
  told := v.delivered

section Steps
variable {cfg : Config} {host : Host} {env : Env} {v w : Server} {streams : List Stream}

/-- Streams are numbered below the next one. -/
def Server.Numbers (v : Server) (streams : List Stream) : Prop :=
  ∀ p ∈ streams, p.listener.id < v.nextId

/-- What tells nobody anything. -/
theorem feed_idle (hl : ∀ b, latestSeq v.db b ≤ latestSeq w.db b)
    (hlive : ∀ b, (w.hub.set b).Sublist (v.hub.set b))
    (hp : w.published = v.published) (hd : w.delivered = v.delivered) :
    Feed.Step Nudge.seq (v.feed streams) (w.feed streams) := .idle hl hlive rfl hp hd

theorem wake_feed {db : Db} {disk : Disk} {a : String} (label : Option String)
    (hl : ∀ b, latestSeq v.db b ≤ latestSeq db b) :
    Feed.Step Nudge.seq (v.feed streams)
      ((Server.wake env { v with db := db, disk := disk } a label
        (latestSeq v.db a)).feed streams) := by
  have hsame : Feed.Step Nudge.seq (v.feed streams)
      (({ v with db := db, disk := disk } : Server).feed streams) :=
    feed_idle hl (fun _ => List.Sublist.refl _) rfl rfl
  cases label with
  | none => exact hsame
  | some app =>
    unfold Server.wake
    by_cases hgrew : latestSeq v.db a < latestSeq db a
    · simp only [if_pos hgrew]
      refine .announce a ⟨latestSeq db a, some app⟩ (fun x => !env.dead x) hgrew rfl hl
        (fun b => ?_) rfl rfl rfl
      show (v.hub.publish env.dead a).set b = v.hub.set b ∧ b ≠ a ∨
        b = a ∧ (v.hub.publish env.dead a).set b = (v.hub.set b).filter fun x => !env.dead x
      rw [Hub.set_publish]
      by_cases hb : b = a
      · subst hb; exact .inr ⟨rfl, if_pos rfl⟩
      · exact .inl ⟨if_neg (Ne.symm hb), hb⟩
    · simp only [if_neg hgrew]
      exact hsame

theorem perform_latest (cfg : Config) (host : Host) (credential : Option Credential) (env : Env)
    (a : String)
    (call : Call) (v : Server) (b : String) :
    latestSeq v.db b ≤ latestSeq (perform cfg host credential env a call v).state.db b :=
  (perform_runs cfg host credential env a call).inv (I := fun d => latestSeq v.db b ≤ latestSeq d b)
    (fun o d d' ho e h => Nat.le_trans h (Line.counter_le (line_reaches o (a := b)
      (fun hd => ho.2 (by rw [hd]; rfl)) d () d' e))) (Nat.le_refl _)

/-- **A call is one step of the feed.** -/
theorem perform_feed (hids : v.Numbers streams) (credential : Option Credential) (a : String)
    (call : Call) :
    Feed.Step Nudge.seq (v.feed streams)
      ((perform cfg host credential env a call v).state.feed
        (streams ++ call.opens cfg credential a v)) ∧
    (perform cfg host credential env a call v).state.Numbers
    (streams ++ call.opens cfg credential a v) := by
  by_cases hc : call = .connect
  · subst hc
    rw [perform_connect]
    have hset :=
      fun b => Hub.set_subscribe cfg.maxSseConnectionsPerAccount cfg.maxSseConnections v.hub a b
        ⟨v.nextId, credential.map (·.credentialId)⟩
    have hnew : ∀ p ∈ streams, p.listener ≠ ⟨v.nextId, credential.map (·.credentialId)⟩ :=
      fun p hp e =>
        Nat.lt_irrefl v.nextId (by simpa [e] using hids p hp)
    have hids' : ∀ p ∈ streams, p.listener.id < v.nextId + 1 :=
      fun p hp => Nat.lt_succ_of_lt (hids p hp)
    unfold Call.opens
    dsimp only
    by_cases hsub : (v.hub.subscribe cfg.maxSseConnectionsPerAccount cfg.maxSseConnections a
        ⟨v.nextId, credential.map (·.credentialId)⟩).1 = true
    · rw [if_pos hsub]
      refine ⟨.join a _ hnew (fun _ => rfl) (fun b => ?_) rfl rfl rfl, fun p hp => ?_⟩
      · have hb := hset b
        by_cases hba : b = a
        · subst hba
          rw [if_pos ⟨hsub, rfl⟩] at hb
          by_cases hin : (⟨v.nextId, credential.map (·.credentialId)⟩ : Subscriber) ∈ v.hub.set b
          · exact .inl (by rw [if_pos hin] at hb; exact hb)
          · exact .inr ⟨rfl, by rw [if_neg hin] at hb; exact hb⟩
        · exact .inl (by rw [if_neg fun h => hba h.2] at hb; exact hb)
      · rcases List.mem_append.1 hp with hp | hp
        · exact hids' p hp
        · rw [List.mem_singleton.1 hp]
          exact Nat.lt_succ_self _
    · rw [if_neg hsub, List.append_nil]
      refine ⟨feed_idle (fun _ => Nat.le_refl _) (fun b => ?_) rfl rfl, hids'⟩
      have hb := hset b
      rw [if_neg fun h => hsub h.1] at hb
      show List.Sublist ((v.hub.subscribe cfg.maxSseConnectionsPerAccount cfg.maxSseConnections a
        ⟨v.nextId, credential.map (·.credentialId)⟩).2.set b) (v.hub.set b)
      rw [hb]
  · have hnone : call.opens cfg credential a v = [] := by
      cases call with
      | connect => exact absurd rfl hc
      | _ => rfl
    obtain ⟨db, disk, e⟩ := perform_wakes v cfg host env a credential hc
    have hl := perform_latest cfg host credential env a call v
    rw [hnone, List.append_nil]
    rw [e] at hl ⊢
    refine ⟨wake_feed call.nudges fun b => ?_, fun p hp => ?_⟩
    · have hb := hl b
      rw [wake_db] at hb
      exact hb
    · rw [wake_nextId]
      exact hids p hp

/-- An operator's request keeps what the storage steps and the ends of streams
keep. -/
theorem handleAdmin_inv {I : Server → Prop} (hdb : ∀ s db, I s → I { s with db := db })
    (hdisk : ∀ s d, I s → I { s with disk := d })
    (hend : ∀ s id, I s → I { s with hub := s.hub.disconnectCredential id }) (cfg : Config)
      (host : Host) (env : Env)
    (header : Option String) (route : AdminRoute) :
    Prog.Lands I (handleAdmin cfg host env header route) (fun _ => I) I := by
  have hexec : ∀ {α : Type} (m : DbTx α), Prog.Lands I (exec m) (fun _ => I) I := fun m =>
    exec_triple (fun s o db hs _ => ⟨trivial, hdb s db hs⟩) fun _ hs => hs
  have hread : ∀ {α : Type} (f : Server → α),
      Prog.Lands I (Prog.get f : Handler α) (fun _ => I) I := fun f =>
    .get fun _ hs => hs
  have hcheck : ∀ {α : Type} (x : Except Abort α),
      Prog.Lands I (Prog.ofExcept x : Handler α) (fun _ => I) I := fun x =>
    .ofExcept (fun _ _ _ hs => hs) fun _ hs => hs
  have hfound : ∀ {α : Type} (o : Option α) (e : Abort),
      Prog.Lands I (Prog.found o e : Handler α) (fun _ => I) I :=
    fun o e => .found (fun _ _ _ hs => hs) fun _ hs => hs
  have hrevoked : ∀ id, Prog.Lands I (onRevoked id) (fun _ => I) I :=
    fun id => .poke fun s hs => hend s id hs
  have hfile : ∀ (r : Except String Unit) (f : Disk → Disk),
      Prog.Lands I (do assert r; file f : Handler Unit) (fun _ => I) I :=
    fun r f => .bind (Q := fun _ => I) (assert_triple (fun _ _ hs => hs) fun _ hs => hs) fun _ =>
      file_triple fun s hs => ⟨trivial, hdisk s _ hs⟩
  have heach : ∀ {β : Type} {f : β → Handler Unit}, (∀ x, Prog.Lands I (f x) (fun _ => I) I) → ∀ xs,
      Prog.Lands I (Prog.each f xs) (fun _ => I) I := fun h xs =>
        .each (I := fun _ => I) fun _ x _ _ => h x
  unfold handleAdmin
  refine .ite (fun _ => .bind (hcheck _) fun _ => ?_) fun _ => .bind (hcheck _) fun _ => ?_
  · cases route with
    | enroll body =>
      refine .bind (hcheck _) fun _ => .bind (hread _) fun _ => .bind (hcheck _) fun _ =>
        .bind (hcheck _) fun _ => ?_
      exact .bind (hexec _) fun _ => .pure fun _ hs => hs
    | revoke id =>
      refine .bind (hexec _) fun _ => .bind (hread _) fun _ => .bind (hfound _ _) fun r =>
        .ite (fun _ => ?_) fun _ => ?_
      · exact .bind (hrevoked _) fun _ => .pure fun _ hs => hs
      · exact .pure fun _ hs => hs
    | createAccount body =>
      refine .bind (hcheck _) fun _ => .bind (hcheck _) fun _ => .bind (hcheck _) fun _ =>
        .bind (hexec _) fun r => ?_
      split
      · exact .raise fun _ hs => hs
      · exact .raise fun _ hs => hs
      · exact .pure fun _ hs => hs
    | rotateKey a body =>
      refine .bind (hcheck _) fun _ => .bind (hcheck _) fun _ => .bind (hexec _) fun r =>
        .bind (hfound _ _) fun r => ?_
      exact .bind (heach hrevoked _) fun _ => .pure fun _ hs => hs
    | deleteAccount a body =>
      refine .bind (hcheck _) fun _ => .bind (hcheck _) fun _ => ?_
      refine .bind (Q := fun _ => I) (.require (fun _ _ hs => hs) fun _ hs => hs) fun _ => ?_
      refine .bind (hexec _) fun r => .bind (hfound _ _) fun r =>
        .bind (heach hrevoked _) fun _ => ?_
      refine .bind (heach (fun u => hfile _ _) _) fun _ =>
        .bind (heach (fun h => hfile _ _) _) fun _ => ?_
      exact .pure fun _ hs => hs
  · refine .bind (hread _) fun r => ?_
    cases r with
    | ok c => exact .pure fun _ hs => hs
    | error r => exact .pure fun _ hs => hs

/-- **An operator's request that deletes no account tells nobody anything.** -/
theorem handleAdmin_feed (cfg : Config) (host : Host) (env : Env) (hids : v.Numbers streams)
    (header : Option String) {route : AdminRoute} (h : ∀ a body, route ≠ .deleteAccount a body) :
    Feed.Step Nudge.seq (v.feed streams)
      ((handleAdmin cfg host env header route v).state.feed streams) ∧
      (handleAdmin cfg host env header route v).state.Numbers streams := by
  have hwire := (handleAdmin_inv (I := fun s => (∀ b, (s.hub.set b).Sublist (v.hub.set b)) ∧
    s.nextId = v.nextId ∧ s.published = v.published ∧ s.delivered = v.delivered) (fun _ _ hs =>
      hs) (fun _ _ hs => hs)
    (fun s id hs => ⟨fun b => ?_, hs.2⟩) cfg host env header route).state ⟨fun _ =>
      List.Sublist.refl _, rfl, rfl, rfl⟩
  · obtain ⟨hset, hid, hp, hd⟩ := hwire
    refine ⟨feed_idle (fun b => ?_) hset hp hd, fun p hp => by rw [hid]; exact hids p hp⟩
    refine (handleAdmin_runs cfg host env header route).inv
      (I := fun d => latestSeq v.db b ≤ latestSeq d b)
      (fun o d d' ho e hle => Nat.le_trans hle
        (Line.counter_le (line_reaches o (a := b) (fun hd => ?_) d () d' e)))
      (Nat.le_refl _)
    subst hd
    cases route with
    | deleteAccount a body => exact h a body rfl
    | _ => cases ho
  · rw [Hub.set_disconnect]
    exact List.filter_sublist.trans (hs.1 b)

end Steps

end GlanceVault.L3
