import GlanceVault.L4System.Finality
import GlanceVault.L4System.HubSteps
/-!
# Heartbeats

Every open stream has a timer of its own (`routes/events.ts`): a tick looks the
stream's credential up again and ends the stream if it is no longer active,
whoever wrote that. A stream's subscriber may leave the hub by a tick, by the
`close` or `error` event of its response, by a delivery that throws or by an
eviction of its credential, in any order; `cleaned` makes the teardown of the
route run once, and `ended` is `res.writableEnded`.

* `Live.Sound`, `LiveStep.sound`: the hub holds open connections only, each once.
* `gone_run`: a stream that has left the hub stays away and is sent nothing.
* `departures_run`: it leaves once.
* `unaffected_next`: a stream with an active credential and a working socket
  stays and is told everything.
* `revocation_reaches`: whole runs.
-/
namespace GlanceVault.L4
open GlanceVault.Core GlanceVault.L1 GlanceVault.L2 GlanceVault.L3

/-! ## Connections -/

/-- An open response of `GET /events`, with its subscriber and its flags. -/
structure Connection where
  key : String
  sub : Subscriber
  cleaned : Bool
  ended : Bool
  deriving DecidableEq

def Connection.id (c : Connection) : Nat := c.sub.id

structure Live where
  state : State
  conns : Table Connection.id

/-- `tick`: its credential read and its write succeed, or not. -/
inductive Happening
  | serve (a : Action) (h : a.tears = false)
  | write (db : Db)
  | tick (id : Nat) (reads writes : Bool)
  | close (id : Nat)
  | error (id : Nat)

/-- A process that comes up on the volume of `v`. -/
def Live.up (cfg : Config) (v : Server) : Live := ⟨State.up cfg v, .empty⟩

namespace Live
variable (host : Host) (l : Live)

def hub : Hub := l.state.server.hub

def withServer (v : Server) : Live := { l with state := { l.state with server := v } }

/-- The timer is stopped and the subscriber taken out. -/
def release (c : Connection) (ended : Bool) : Live :=
  { l.withServer (l.state.server.closeStream c.key c.sub) with
    conns := l.conns.upsert { c with cleaned := true, ended := ended } }

/-- mirrors src/routes/events.ts:156-164 (`cleanup`) -/
def cleanup (c : Connection) : Live := if c.cleaned then l else l.release c c.ended

/-- mirrors src/routes/events.ts:169-199 -/
def tick (c : Connection) (reads writes : Bool) : Live :=
  if c.cleaned then l
  else if c.ended then l.cleanup c
  else if decide (l.state.cfg.authMode = .perAccount) &&
      c.sub.credentialId.any fun id => reads && !isCredentialActive l.state.server.db id then
    l.release c true
  else if writes then l
  else l.cleanup c

/-- The action evicts the connection's subscriber, which ends the response. -/
def evicts (next : State) (a : Action) (c : Connection) : Bool :=
  a.administers && decide (c.sub ∈ l.hub.set c.key) && !decide (c.sub ∈ next.server.hub.set c.key)

def serve (a : Action) : Live where
  state := l.state.act host a
  conns :=
    let conns :=
      l.conns.update (l.evicts (l.state.act host a) a) (fun c => { c with ended := true }) fun _ =>
        rfl
    match l.state.opens host a with
    | [] => conns
    | p :: _ => conns.upsert ⟨p.key, p.listener, false, false⟩

/-- What happens to the connection of a number, if there is one. -/
def on (id : Nat) (f : Connection → Live) : Live :=
  match l.conns.find id with
  | some c => f c
  | none => l

def next : Happening → Live
  | .serve a _ => l.serve host a
  | .write db => l.withServer { l.state.server with db := db }
  | .tick id reads writes => l.on id fun c => l.tick c reads writes
  | .close id => l.on id l.cleanup
  | .error id => l.on id l.cleanup

end Live

/-- The happening breaks the subscriber's own socket. -/
def Happening.fails (sub : Subscriber) : Happening → Bool
  | .serve a _ => a.dead sub
  | .write _ => false
  | .tick id _ writes => decide (id = sub.id) && !writes
  | .close id => decide (id = sub.id)
  | .error id => decide (id = sub.id)

/-- The subscriber's credential is not active. -/
def Live.spent (l : Live) (sub : Subscriber) : Prop :=
  ∃ id, sub.credentialId = some id ∧ Spent id l.state.server.db

/-- What may happen. -/
inductive LiveStep (host : Host) (l : Live) (h : Happening) : Live → Prop
  | idle : LiveStep host l h l
  | write (db : Db) (isWrite : h = .write db) :
    LiveStep host l h (l.withServer { l.state.server with db := db })
  | release {c : Connection} (mem : c ∈ l.conns.rows) (ended : Bool)
    (kept : c.ended = true → ended = true)
      (cause : h.fails c.sub = true ∨ c.ended = true ∨
        l.spent c.sub) : LiveStep host l h (l.release c ended)
  | serve (a : Action) (ha : a.tears = false) (isServe : h = .serve a ha) :
    LiveStep host l h (l.serve host a)

section Steps
variable {host : Host} {l l' : Live} {h : Happening}

theorem find_id {id : Nat} {c : Connection} (h : l.conns.find id = some c) : c.sub.id = id :=
  show c.id = id from Table.find_key h

theorem next_step (host : Host) (l : Live) (h : Happening) : LiveStep host l h (l.next host h) := by
  have hclean : ∀ {id : Nat} {c : Connection}, l.conns.find id = some c →
      (h.fails c.sub = true ∨ c.ended = true) →
      LiveStep host l h (l.cleanup c) := fun hf hcause => by
    unfold Live.cleanup
    split
    · exact .idle
    · exact .release (Table.find_mem hf) _ id (hcause.imp_right .inl)
  have hon : ∀ (id : Nat) (f : Connection → Live),
      (∀ c, l.conns.find id = some c → LiveStep host l h (f c)) →
      LiveStep host l h (l.on id f) := fun id f hf => by
    unfold Live.on
    split
    · exact hf _ (by assumption)
    · exact .idle
  cases h with
  | serve a ha => exact .serve a ha rfl
  | write db => exact .write db rfl
  | close id => exact hon id _ fun c hf => hclean hf (.inl (decide_eq_true (find_id hf).symm))
  | error id => exact hon id _ fun c hf => hclean hf (.inl (decide_eq_true (find_id hf).symm))
  | tick id reads writes =>
    refine hon id _ fun c hf => ?_
    unfold Live.tick
    by_cases hcl : c.cleaned = true
    · rw [if_pos hcl]
      exact .idle
    rw [if_neg hcl]
    by_cases hend : c.ended = true
    · rw [if_pos hend]
      exact hclean hf (.inr hend)
    rw [if_neg hend]
    split
    · -- the credential was found inactive
      rename_i hcred
      simp only [Bool.and_eq_true, Option.any_eq_true, Bool.not_eq_true'] at hcred
      obtain ⟨-, x, hx, -, hinactive⟩ := hcred
      exact .release (Table.find_mem hf) true (fun _ => rfl)
        (.inr (.inr ⟨x, hx, isCredentialActive_false.1 hinactive⟩))
    · split
      · exact .idle
      · rename_i hw
        exact hclean hf (.inl (by simp [Happening.fails, find_id hf, hw]))

/-- The streams of a process: each registered subscriber has one slot, and an
open connection. -/
structure Live.Sound (l : Live) : Prop where
  mode : l.state.cfg.authMode = .perAccount
  counted : l.hub.Counted
  known : ∀ c ∈ l.conns.rows, c.sub.id < l.state.server.nextId
  member : ∀ a, ∀ sub ∈ l.hub.set a, ∃ c ∈ l.conns.rows, c.key = a ∧ c.sub = sub ∧
    c.cleaned = false ∧ c.ended = false
  credential : ∀ c ∈ l.conns.rows, ∃ id, c.sub.credentialId = some id

theorem sound_up (cfg : Config) (volume : Server) (hm : cfg.authMode = .perAccount) :
    (Live.up cfg volume).Sound where
  mode := hm
  counted := Hub.counted_empty
  known _ h := nomatch h
  member _ _ h := nomatch h
  credential _ h := nomatch h

/-- A registered subscriber is that of its connection, under its key. -/
theorem Live.Sound.own (hs : l.Sound) {c : Connection} (hc : c ∈ l.conns.rows) {a : String}
    (h : c.sub ∈ l.hub.set a) :
    c.key = a ∧ c.cleaned = false ∧ c.ended = false := by
  obtain ⟨x, hx, hkey, hsub, hclean, hend⟩ := hs.member a _ h
  have hxc : x = c := Table.eq_of_mem hx hc (congrArg Subscriber.id hsub)
  rw [← hxc]
  exact ⟨hkey, hclean, hend⟩

theorem Live.Sound.below (hs : l.Sound) (a : String) (sub : Subscriber) (h : sub ∈ l.hub.set a) :
    sub.id < l.state.server.nextId := by
  obtain ⟨c, hc, -, hsub, -⟩ := hs.member a sub h
  rw [← hsub]
  exact hs.known c hc

/-! ## Steps -/

/-- The connections after a request: the new one, and the old ones, ended if
their subscriber was evicted. -/
theorem serve_conns (hs : l.Sound) {a : Action} (ha : a.tears = false) {x : Connection} :
    x ∈ (l.serve host a).conns.rows ↔
    (∃ p ∈ l.state.opens host a, x = ⟨p.key, p.listener, false, false⟩) ∨
      ∃ c ∈ l.conns.rows, x = if l.evicts (l.state.act host a) a c then
        { c with ended := true } else c := by
  have hnew := (act_hubStep host l.state ha).opens.2
  have hold :
      x ∈ (l.conns.update (l.evicts (l.state.act host a) a)
        (fun c => { c with ended := true }) fun _ => rfl).rows ↔
      ∃ c ∈ l.conns.rows, x = if l.evicts
        (l.state.act host a) a c then { c with ended := true } else c := Table.mem_update
  unfold Live.serve
  dsimp only
  rcases hnew with hnone | ⟨p, hone, hid, -⟩
  · rw [hnone]
    refine hold.trans ⟨.inr, ?_⟩
    rintro (⟨p, hp, -⟩ | h)
    · cases hp
    · exact h
  · rw [hone]
    refine Table.mem_upsert.trans ?_
    simp only [List.mem_singleton, exists_eq_left]
    refine or_congr_right ⟨fun h => hold.1 h.1, fun h => ⟨hold.2 h, ?_⟩⟩
    obtain ⟨c, hc, e⟩ := h
    have hx : x.sub = c.sub := by rw [e]; split <;> rfl
    have hlt := hs.known c hc
    show x.sub.id ≠ p.listener.id
    rw [hx, hid]
    omega

/-- **Every happening keeps the streams sound.** -/
theorem LiveStep.sound (hstep : LiveStep host l h l') (hs : l.Sound) : l'.Sound := by
  cases hstep with
  | idle => exact hs
  | write db isWrite => exact ⟨hs.mode, hs.counted, hs.known, hs.member, hs.credential⟩
  | @release c mem ended kept cause =>
    have hcases : ∀ x ∈ (l.conns.upsert { c with cleaned := true, ended := ended }).rows,
        x = { c with cleaned := true, ended := ended } ∨ x ∈ l.conns.rows := fun x hx =>
      (Table.mem_upsert.1 hx).imp_right And.left
    refine ⟨hs.mode, hs.counted.unsubscribe c.key c.sub, fun x hx => ?_,
      fun a sub hsub => ?_, fun x hx => ?_⟩
    · rcases hcases x hx with rfl | hx
      · exact hs.known c mem
      · exact hs.known x hx
    · have hsub : sub ∈ (l.hub.unsubscribe c.key c.sub).set a := hsub
      have hold : sub ∈ l.hub.set a := (unsubscribe_sublist l.hub c.key a c.sub).subset hsub
      obtain ⟨x, hx, hkey, hxsub, hclean, hend⟩ := hs.member a sub hold
      refine ⟨x, Table.mem_upsert.2 (.inr ⟨hx, fun e => ?_⟩), hkey, hxsub, hclean, hend⟩
      -- the released connection has no subscriber left
      have hxc : x = c := Table.eq_of_mem hx mem e
      subst hxc
      rw [Hub.set_unsubscribe, if_pos hkey, hxsub] at hsub
      simpa using (List.mem_filter.1 hsub).2
    · rcases hcases x hx with rfl | hx
      · exact hs.credential c mem
      · exact hs.credential x hx
  | serve a ha isServe =>
    have hact := act_hubStep host l.state ha
    obtain ⟨hid, hopen⟩ := hact.opens
    have hnew : ∀ p ∈ l.state.opens host a, p.listener.id < (l.state.act host a).server.nextId ∧
        ∃ id, p.listener.credentialId = some id := by
      rcases hopen with hnone | ⟨p, hone, hp, hlt, -, hcred⟩
      · rw [hnone]
        exact fun p hp => nomatch hp
      · rw [hone]
        intro q hq
        rw [List.mem_singleton.1 hq, hp]
        exact ⟨hlt, hcred hs.mode⟩
    refine ⟨hs.mode, hact.counted hs.below hs.counted, fun x hx => ?_,
      fun b sub hsub => ?_, fun x hx => ?_⟩
    · rcases (serve_conns hs ha).1 hx with ⟨p, hp, rfl⟩ | ⟨c, hc, rfl⟩
      · exact (hnew p hp).1
      · have hlt := Nat.lt_of_lt_of_le (hs.known c hc) hid
        split <;> exact hlt
    · rcases hact.member hsub with hold | ⟨p, hp, hkey, hlistener⟩
      · obtain ⟨c, hc, hkey, hcsub, hclean, hend⟩ := hs.member b sub hold
        refine ⟨c, (serve_conns hs ha).2 (.inr ⟨c, hc, (if_neg ?_).symm⟩), hkey,
          hcsub, hclean, hend⟩
        -- it is still registered, so it was not evicted
        have hin : sub ∈ (l.state.act host a).server.hub.set b := hsub
        simp [Live.evicts, hkey, hcsub, hin]
      · exact ⟨_, (serve_conns hs ha).2 (.inl ⟨p, hp, rfl⟩), hkey, hlistener, rfl, rfl⟩
    · rcases (serve_conns hs ha).1 hx with ⟨p, hp, rfl⟩ | ⟨c, hc, rfl⟩
      · exact (hnew p hp).2
      · split <;> exact hs.credential c hc

theorem sound_next (hs : l.Sound) (h : Happening) : (l.next host h).Sound :=
  (next_step host l h).sound hs

/-! ### Where a connection goes -/

/-- A connection further on in its life. -/
def Later (c c' : Connection) : Prop :=
  c'.key = c.key ∧ c'.sub = c.sub ∧ (c.cleaned = true → c'.cleaned = true) ∧
  (c.ended = true → c'.ended = true)

theorem LiveStep.later (hstep : LiveStep host l h l') (hs : l.Sound) {c : Connection}
    (hc : c ∈ l.conns.rows) :
    ∃ c' ∈ l'.conns.rows, Later c c' := by
  have hsame : ∀ {d : Connection}, d.key = c.key → d.sub = c.sub → d.cleaned = c.cleaned →
      (c.ended = true → d.ended = true) → Later c d := fun hk hsub hcl he =>
    ⟨hk, hsub, fun e => hcl.trans e, he⟩
  cases hstep with
  | idle => exact ⟨c, hc, hsame rfl rfl rfl id⟩
  | write db isWrite => exact ⟨c, hc, hsame rfl rfl rfl id⟩
  | @release d mem ended kept cause =>
    by_cases he : c.id = d.id
    · have hcd : c = d := Table.eq_of_mem hc mem he
      subst hcd
      exact ⟨_, Table.mem_upsert.2 (.inl rfl), rfl, rfl, fun _ => rfl, kept⟩
    · exact ⟨c, Table.mem_upsert.2 (.inr ⟨hc, he⟩), hsame rfl rfl rfl id⟩
  | serve a ha isServe =>
    refine ⟨_, (serve_conns hs ha).2 (.inr ⟨c, hc, rfl⟩), ?_⟩
    split
    · exact hsame rfl rfl rfl fun _ => rfl
    · exact hsame rfl rfl rfl id

/-- The frames sent to a subscriber. -/
def Live.told (l : Live) (sub : Subscriber) : List (Subscriber × Nudge) :=
  l.state.server.delivered.filter fun p => decide (p.1 = sub)

/-- The subscriber is in no account's set. -/
def Live.away (l : Live) (sub : Subscriber) : Prop := ∀ a, sub ∉ l.hub.set a

/-- **A stream that has left the hub stays away, and is sent nothing.** -/
theorem LiveStep.away (hstep : LiveStep host l h l') (hs : l.Sound) {c : Connection}
    (hc : c ∈ l.conns.rows)
    (haway : l.away c.sub) : l'.away c.sub ∧ l'.told c.sub = l.told c.sub := by
  cases hstep with
  | idle => exact ⟨haway, rfl⟩
  | write db isWrite => exact ⟨haway, rfl⟩
  | @release d mem ended kept cause =>
    exact ⟨fun a hm => haway a ((unsubscribe_sublist l.hub d.key a d.sub).subset hm), rfl⟩
  | serve a ha isServe =>
    have hact := act_hubStep host l.state ha
    refine ⟨fun b hm => ?_, ?_⟩
    · rcases hact.member hm with hold | ⟨p, hp, -, hlistener⟩
      · exact haway b hold
      · rcases hact.opens.2 with hnone | ⟨q, hone, hq, -⟩
        · rw [hnone] at hp
          cases hp
        · -- a new stream has a new number
          rw [hone] at hp
          rw [← List.mem_singleton.1 hp, hlistener] at hq
          exact absurd (hs.known c hc) (by rw [hq]; exact Nat.lt_irrefl _)
    · obtain ⟨told, htold, hreg⟩ := hact.told
      show ((l.state.act host a).server.delivered.filter _) = _
      have hnone : (told.filter fun p => decide (p.1 = c.sub)) = [] :=
        List.filter_eq_nil_iff.2 fun p hp => by
        obtain ⟨b, hb⟩ := hreg p hp
        have hne : p.1 ≠ c.sub := fun e => haway b (e ▸ hb)
        simpa using hne
      rw [htold, List.filter_append, hnone, List.append_nil]
      rfl

/-- A teardown takes the subscriber out for good. -/
theorem release_away (hs : l.Sound) {c : Connection} (hc : c ∈ l.conns.rows) (ended : Bool) :
    (l.release c ended).away c.sub := by
  intro a hm
  have hm : c.sub ∈ (l.hub.unsubscribe c.key c.sub).set a := hm
  have hkey := (hs.own hc ((unsubscribe_sublist l.hub c.key a c.sub).subset hm)).1
  rw [Hub.set_unsubscribe, if_pos hkey] at hm
  simpa using (List.mem_filter.1 hm).2

/-- A tick of an open connection is the server's heartbeat. -/
theorem tick_heartbeat {c : Connection} (hc : c ∈ l.conns.rows) (hopen : c.cleaned = false)
    (hend : c.ended = false) :
    (l.next host (.tick c.sub.id true true)).state.server =
      l.state.server.heartbeat l.state.cfg c.key c.sub := by
  have hfind : l.conns.find c.sub.id = some c := Table.find_some.2 ⟨hc, rfl⟩
  show (l.on c.sub.id fun c => l.tick c true true).state.server = _
  unfold Live.on
  rw [hfind]
  dsimp only
  unfold Live.tick Server.heartbeat
  rw [hopen, hend]
  cases l.state.cfg.authMode with
  | shared => rfl
  | perAccount =>
    cases c.sub.credentialId with
    | none => rfl
    | some id =>
      cases hact : isCredentialActive l.state.server.db id <;>
        simp [hact, Live.release, Live.withServer]

/-- **A tick of a stream whose credential is not active ends it.** -/
theorem tick_ends (hs : l.Sound) {c : Connection} (hc : c ∈ l.conns.rows)
    (hopen : c.cleaned = false) (hspent : l.spent c.sub) (writes : Bool) :
    let t := l.next host (.tick c.sub.id true writes)
    { c with cleaned := true, ended := true } ∈ t.conns.rows ∧ t.away c.sub ∧
    t.told c.sub = l.told c.sub := by
  have hfind : l.conns.find c.sub.id = some c := Table.find_some.2 ⟨hc, rfl⟩
  obtain ⟨id, hid, hsp⟩ := hspent
  have hreleased : l.next host (.tick c.sub.id true writes) = l.release c true := by
    show l.on c.sub.id (fun c => l.tick c true writes) = _
    unfold Live.on
    rw [hfind]
    dsimp only
    unfold Live.tick Live.cleanup
    rw [hopen, hs.mode, hid]
    simp only [Option.any_some, isCredentialActive_false.2 hsp]
    cases hend : c.ended <;> rfl
  intro t
  rw [show t = l.release c true from hreleased]
  exact ⟨Table.mem_upsert.2 (.inl rfl), release_away hs hc true, rfl⟩

/-- **A stream of an active credential, whose own socket works, is left as it
is and told everything.** -/
theorem LiveStep.unaffected (hstep : LiveStep host l h l') (hs : l.Sound) {c : Connection}
    (hc : c ∈ l.conns.rows)
    (hreg : c.sub ∈ l.hub.set c.key) (hactive : ¬ l'.spent c.sub) (hworks : h.fails c.sub = false) :
    c ∈ l'.conns.rows ∧ c.sub ∈ l'.hub.set c.key ∧ ∃ new told,
      l'.state.server.published = l.state.server.published ++ new ∧
      l'.state.server.delivered = l.state.server.delivered ++ told ∧ ∀ n, (c.key, n) ∈ new →
      (c.sub, n) ∈ told := by
  have hquiet : ∀ {v : Server}, v.published = l.state.server.published →
      v.delivered = l.state.server.delivered →
      ∃ new told, v.published = l.state.server.published ++ new ∧
        v.delivered = l.state.server.delivered ++ told ∧
        ∀ n, (c.key, n) ∈ new → (c.sub, n) ∈ told := fun hp hd =>
    ⟨[], [], by rw [hp, List.append_nil], by rw [hd, List.append_nil], fun n hn => nomatch hn⟩
  cases hstep with
  | idle => exact ⟨hc, hreg, hquiet rfl rfl⟩
  | write db isWrite => exact ⟨hc, hreg, hquiet rfl rfl⟩
  | @release d mem ended kept cause =>
    have hne : c.id ≠ d.id := by
      intro e
      have hcd : c = d := Table.eq_of_mem hc mem e
      subst hcd
      rcases cause with hfail | hend | hspent
      · rw [hworks] at hfail
        cases hfail
      · rw [(hs.own hc hreg).2.2] at hend
        cases hend
      · exact hactive hspent
    refine ⟨Table.mem_upsert.2 (.inr ⟨hc, hne⟩), ?_, hquiet rfl rfl⟩
    show c.sub ∈ (l.hub.unsubscribe d.key d.sub).set c.key
    rw [Hub.set_unsubscribe]
    split
    · exact List.mem_filter.2 ⟨hreg, by simpa using fun e => hne (congrArg Subscriber.id e)⟩
    · exact hreg
  | serve a ha isServe =>
    have hact := act_hubStep host l.state ha
    have hdead : a.dead c.sub = false := by
      rw [isServe] at hworks
      exact hworks
    have hstays : c.sub ∈ (l.serve host a).hub.set c.key := by
      by_contra hgone
      rcases hact.left hreg hgone with ⟨-, hspent⟩ | hd
      · exact hactive hspent
      · rw [hdead] at hd
        cases hd
    refine ⟨(serve_conns hs ha).2 (.inr ⟨c, hc, (if_neg ?_).symm⟩), hstays, hact.heard hreg hdead⟩
    have hin : c.sub ∈ (l.state.act host a).server.hub.set c.key := hstays
    simp [Live.evicts, hin]

/-- A new connection is registered. -/
theorem LiveStep.opened (hstep : LiveStep host l h l') (hs : l.Sound) {d : Connection}
    (hd : d ∈ l'.conns.rows)
    (hnew : ∀ c ∈ l.conns.rows, c.sub ≠ d.sub) : d.sub ∈ l'.hub.set d.key := by
  cases hstep with
  | idle => exact absurd rfl (hnew d hd)
  | write db isWrite => exact absurd rfl (hnew d hd)
  | @release c mem ended kept cause =>
    rcases Table.mem_upsert.1 hd with rfl | ⟨hd, -⟩
    · exact absurd rfl (hnew c mem)
    · exact absurd rfl (hnew d hd)
  | serve a ha isServe =>
    rcases (serve_conns hs ha).1 hd with ⟨p, hp, rfl⟩ | ⟨c, hc, rfl⟩
    · rcases (act_hubStep host l.state ha).opens.2 with hnone | ⟨q, hone, -, -, hreg, -⟩
      · rw [hnone] at hp
        cases hp
      · rw [hone] at hp
        rw [List.mem_singleton.1 hp]
        exact hreg
    · refine absurd ?_ (hnew c hc)
      split <;> rfl

end Steps

/-! ## Runs -/

section Runs
variable {host : Host} {l : Live}

theorem sound_run (hs : l.Sound) (es : List Happening) : (run (Live.next host) l es).Sound :=
  run_inv (I := Live.Sound) (fun _ h hs => sound_next hs h) es l hs

theorem later_run : ∀ (es : List Happening) {l : Live} {c : Connection},
    l.Sound → c ∈ l.conns.rows →
    ∃ c' ∈ (run (Live.next host) l es).conns.rows, Later c c'
  | [], _, c, _, hc => ⟨c, hc, rfl, rfl, id, id⟩
  | h :: es, l, c, hs, hc => by
    obtain ⟨d, hd, hkey, hsub, hclean, hend⟩ := (next_step host l h).later hs hc
    obtain ⟨c', hc', hkey', hsub', hclean', hend'⟩ := later_run es (sound_next hs h) hd
    exact ⟨c', hc', hkey'.trans hkey, hsub'.trans hsub, hclean' ∘ hclean, hend' ∘ hend⟩

theorem gone_run {c : Connection} :
    ∀ (rest : List Happening) {l : Live}, l.Sound → c ∈ l.conns.rows → l.away c.sub →
    (run (Live.next host) l rest).away c.sub ∧
    (run (Live.next host) l rest).told c.sub = l.told c.sub
  | [], _, _, _, haway => ⟨haway, rfl⟩
  | h :: rest, l, hs, hc, haway => by
    obtain ⟨c', hc', -, hsub, -⟩ := (next_step host l h).later hs hc
    obtain ⟨haway', htold⟩ := (next_step host l h).away hs hc haway
    rw [← hsub] at haway'
    obtain ⟨h1, h2⟩ := gone_run rest (sound_next hs h) hc' haway'
    rw [hsub] at h1 h2
    exact ⟨h1, h2.trans htold⟩

/-- How often a subscriber leaves its account's set. -/
def departures (host : Host) (a : String) (sub : Subscriber) : Live → List Happening → Nat
  | _, [] => 0
  | l, h :: hs => (if sub ∈ l.hub.set a ∧ sub ∉ (l.next host h).hub.set a then 1 else 0) +
      departures host a sub (l.next host h) hs

/-- Whether a subscriber has a slot. -/
def Live.slots (l : Live) (a : String) (sub : Subscriber) : Nat :=
  if sub ∈ l.hub.set a then 1 else 0

/-- A connection leaves as often as it has lost its slot. -/
theorem departures_from {c : Connection} :
    ∀ (hs : List Happening) {l : Live}, l.Sound → c ∈ l.conns.rows →
    departures host c.key c.sub l hs + (run (Live.next host) l hs).slots c.key c.sub =
      l.slots c.key c.sub
  | [], _, _, _ => Nat.zero_add _
  | h :: hs, l, hsound, hc => by
    obtain ⟨c', hc', hkey, hsub, -⟩ := (next_step host l h).later hsound hc
    have ih := departures_from hs (sound_next hsound h) hc'
    rw [hkey, hsub] at ih
    rw [departures, run_cons, Nat.add_assoc, ih]
    unfold Live.slots
    by_cases hm : c.sub ∈ l.hub.set c.key
    · by_cases hm' : c.sub ∈ (l.next host h).hub.set c.key
      · simp [hm, hm']
      · simp [hm, hm']
    · have haway : l.away c.sub := fun a ha => hm ((hsound.own hc ha).1 ▸ ha)
      have hm' := ((next_step host l h).away hsound hc haway).1 c.key
      simp [hm, hm']

/-- **A stream's slot is given back once**: after its opening it has left once,
or not yet. -/
theorem departures_run {c : Connection} : ∀ (es : List Happening) {l : Live}, l.Sound →
    c ∈ (run (Live.next host) l es).conns.rows → (∀ d ∈ l.conns.rows, d.sub.id ≠ c.sub.id) →
    departures host c.key c.sub l es + (run (Live.next host) l es).slots c.key c.sub = 1
  | [], _, _, hc, hnew => absurd rfl (hnew c hc)
  | h :: es, l, hs, hc, hnew => by
    have hout : c.sub ∉ l.hub.set c.key := fun hm => by
      obtain ⟨d, hd, -, hsub, -⟩ := hs.member _ _ hm
      exact hnew d hd (congrArg Subscriber.id hsub)
    rw [departures, if_neg fun h => hout h.1, Nat.zero_add, run_cons]
    by_cases hold : ∃ d ∈ (l.next host h).conns.rows, d.sub.id = c.sub.id
    · -- it opens in this step
      obtain ⟨d, hd, hid⟩ := hold
      obtain ⟨c', hc', hkey, hsub, -⟩ :
          ∃ c' ∈ (run (Live.next host) (l.next host h) es).conns.rows, Later d c' :=
        later_run es (sound_next hs h) hd
      have hcc : c' = c := Table.eq_of_mem hc' hc ((congrArg Subscriber.id hsub).trans hid)
      rw [hcc] at hkey hsub
      have hreg := (next_step host l h).opened hs hd fun x hx e => hnew x hx
        ((congrArg Subscriber.id e).trans hid)
      have hcount : departures host d.key d.sub (l.next host h) es +
          (run (Live.next host) (l.next host h) es).slots d.key d.sub = _ := departures_from es
            (sound_next hs h) hd
      rw [← hkey, ← hsub] at hcount hreg
      rw [hcount]
      exact if_pos hreg
    · exact departures_run es (sound_next hs h) hc fun d hd e => hold ⟨d, hd, e⟩

/-- The happening brings a credential back. -/
def Happening.restores (id : String) : Happening → Prop
  | .serve a _ => a.mints = some id
  | .write db => ¬ Spent id db
  | _ => False

theorem spent_next {id : String} (hm : l.state.cfg.authMode = .perAccount) {h : Happening}
    (hno : ¬ h.restores id)
    (hspent : Spent id l.state.server.db) : Spent id (l.next host h).state.server.db := by
  have hstep := next_step host l h
  generalize l.next host h = l' at hstep ⊢
  cases hstep with
  | idle => exact hspent
  | write db isWrite =>
    rw [isWrite] at hno
    exact not_not.1 hno
  | release => exact hspent
  | serve a ha isServe =>
    rw [isServe] at hno
    exact (spent_act host hm hno hspent).1

theorem spent_between {id : String} :
    ∀ (es : List Happening) {l : Live}, l.state.cfg.authMode = .perAccount →
    (∀ h ∈ es, ¬ h.restores id) → Spent id l.state.server.db → Spent id
    (run (Live.next host) l es).state.server.db
  | [], _, _, _, hspent => hspent
  | h :: es, l, hm, hno, hspent => by
    have hm' : (l.next host h).state.cfg.authMode = .perAccount := by
      have hstep := next_step host l h
      generalize l.next host h = l' at hstep ⊢
      cases hstep <;> exact hm
    exact spent_between es hm' (fun x hx => hno x (List.mem_cons_of_mem _ hx))
      (spent_next hm (hno h List.mem_cons_self) hspent)

/-- But for the direct writes, a process with timers runs as the server does. -/
theorem live_runs (host : Host) (l : Live) {h : Happening} (hw : ∀ db, h ≠ .write db) :
    ∃ as : List Action, (l.next host h).state = run (State.act host) l.state as := by
  have hstep := next_step host l h
  generalize l.next host h = l' at hstep ⊢
  cases hstep with
  | idle => exact ⟨[], rfl⟩
  | write db isWrite => exact absurd isWrite (hw db)
  | @release c mem ended kept cause =>
    refine ⟨[.close c.key c.sub], ?_⟩
    show (⟨_, _, _, _⟩ : State) = ⟨_, _, _, l.state.sent ++ []⟩
    rw [List.append_nil]
    rfl
  | serve a ha isServe => exact ⟨[a], rfl⟩

end Runs

/-- **An out-of-process revocation reaches live streams within a heartbeat.** A
per-account process on any volume, over any run of requests, sweeps, direct
database writes, ticks, closing and failing sockets. The counts of the hub are
those of its members, every member has an open connection, and a connection
gives its slot back once. When a credential is spent and nothing has restored
it since, the next tick of a stream of it ends the response and takes the
subscriber out of the hub, and no frame is sent to it any more. A stream whose
credential is active and whose own socket works keeps its connection and its
slot, and is sent every nudge of its account. -/
theorem revocation_reaches (host : Host) (cfg : Config) (volume : Server)
    (hm : cfg.authMode = .perAccount)
    (es : List Happening) :
    let l := run (Live.next host) (Live.up cfg volume) es
    l.hub.Counted ∧
    (∀ a, ∀ sub ∈ l.hub.set a, ∃ c ∈ l.conns.rows, c.key = a ∧ c.sub = sub ∧ c.cleaned = false ∧
      c.ended = false) ∧
    (∀ c ∈ l.conns.rows, departures host c.key c.sub
      (Live.up cfg volume) es + l.slots c.key c.sub = 1) ∧
    (∀ c ∈ l.conns.rows, ∃ id, c.sub.credentialId = some id ∧
      ∀ before between, es = before ++ between →
      Spent id (run (Live.next host) (Live.up cfg volume) before).state.server.db →
        (∀ h ∈ between, ¬ h.restores id) →
      c.cleaned = false → ∀ writes rest,
        let t := l.next host (.tick c.sub.id true writes)
        (∃ c' ∈ (run (Live.next host) t rest).conns.rows, c'.sub = c.sub ∧ c'.cleaned = true ∧
          c'.ended = true) ∧
          (run (Live.next host) t rest).away c.sub ∧
            (run (Live.next host) t rest).told c.sub = l.told c.sub) ∧
    ∀ h, ∀ c ∈ l.conns.rows, c.sub ∈ l.hub.set c.key → ¬
      (l.next host h).spent c.sub → h.fails c.sub = false →
      c ∈ (l.next host h).conns.rows ∧ c.sub ∈ (l.next host h).hub.set c.key ∧ ∃ new told,
        (l.next host h).state.server.published = l.state.server.published ++ new ∧
        (l.next host h).state.server.delivered = l.state.server.delivered ++ told ∧
        ∀ n, (c.key, n) ∈ new → (c.sub, n) ∈ told := by
  intro l
  have hup := sound_up cfg volume hm
  have hs : l.Sound := sound_run hup es
  refine ⟨hs.counted, hs.member, fun c hc => departures_run es hup hc fun d hd => (nomatch hd),
    fun c hc => ?_,
    fun h c hc hreg hactive hworks => (next_step host l h).unaffected hs hc hreg hactive hworks⟩
  obtain ⟨id, hid⟩ := hs.credential c hc
  refine ⟨id, hid, fun before between e hspent hno hopen writes rest => ?_⟩
  have hnow : Spent id l.state.server.db := by
    have hl :
        l = run (Live.next host) (run (Live.next host) (Live.up cfg volume) before) between := by
      rw [← run_append, ← e]
    rw [hl]
    exact spent_between between (sound_run hup before).mode hno hspent
  obtain ⟨hended, haway, htold⟩ := tick_ends hs hc hopen ⟨id, hid, hnow⟩ writes
  obtain ⟨haway', htold'⟩ := gone_run rest (sound_next hs _) hended haway
  obtain ⟨c', hc', -, hsub, hclean, hend⟩ := later_run rest (sound_next hs _) hended
  exact ⟨⟨c', hc', hsub, hclean rfl, hend rfl⟩, haway', htold'.trans htold⟩

/-- The requests of a run. -/
def serves (as : List Action) : List Happening :=
  as.filterMap fun a => if h : a.tears = false then some (.serve a h) else none

/-- A device of the account `a` is enrolled and opens its stream. -/
def watched : List Happening := serves (enrolled ++ [
  .arrive 0 ⟨some ("Bearer gvc_" ++ sampleSecret '0'),
    .events fun k => if k = "accountId" then some (.str "a") else none⟩,
  .handle 0 (drawing "-" '1')])

/-- Its credential is revoked in the database file. -/
theorem revocation_reaches_written :
    let opened := run (Live.next sampleHost) (Live.up keyedConfig .fresh) watched
    let revoked :=
      .write (opened.state.server.db.revokeWhere (fun c => c.credentialId = "c")
        "2025-01-01T00:00:00.000Z")
    let l := opened.next sampleHost revoked
    l.hub.set "a" = [⟨1, some "c"⟩] ∧
    (l.next sampleHost (.tick 1 true true)).away ⟨1, some "c"⟩ := by
  intro opened revoked l
  have hl : l = run (Live.next sampleHost) (Live.up keyedConfig .fresh) (watched ++ [revoked]) := by
    rw [run_append]
    rfl
  have hconn : (⟨"a", ⟨1, some "c"⟩, false, false⟩ : Connection) ∈ l.conns.rows := by decide +kernel
  have hspent : Spent "c" l.state.server.db := isCredentialActive_false.1 (by decide +kernel)
  refine ⟨by decide +kernel, ?_⟩
  have hall := revocation_reaches sampleHost keyedConfig .fresh rfl (watched ++ [revoked])
  rw [← hl] at hall
  obtain ⟨-, -, -, htick, -⟩ := hall
  obtain ⟨id, hid, hends⟩ := htick _ hconn
  have hc : id = "c" := (Option.some.inj hid).symm
  subst hc
  exact (hends (watched ++ [revoked]) [] (List.append_nil _).symm (hl ▸ hspent)
    (fun h hh => nomatch hh) rfl true []).2.1

end GlanceVault.L4
