import GlanceVault.L3Http.App
import GlanceVault.L3Http.Locality
import GlanceVault.L3Http.UsageRoute
import GlanceVault.L3Http.Views
import GlanceVault.L4System.HubSteps
import GlanceVault.L4System.Possession
/-!
# What a process holds in memory

Behind the limiter, whose windows are memory of its own, a process holds the
open streams and the requests in flight. `lasting` takes everything out of a run
that concerns these only: the requests for streams, their teardowns and
heartbeats, the deliveries that fail, and the restarts of an idle process (the
requests in flight are dropped instead). What is left ends in the same stores,
and every request is answered as before. One request does ask for memory: the
usage report counts the open streams, and is the same but for that.

* `next_agrees`: one event.
* `memory_unnoticed`: whole runs.
-/
namespace GlanceVault.L4
open GlanceVault.Core GlanceVault.L1 GlanceVault.L1.Js GlanceVault.L2 GlanceVault.L3

/-- The action handles a request for an event stream. -/
def State.streams (s : State) : Action → Bool
  | .handle id _ => (s.waiting id).any fun w => w.route.streams
  | _ => false

/-- An action without streams. -/
def State.offline (s : State) : Action → List Action
  | .handle id env =>
    if s.streams (.handle id env) then [.drop id] else
      [.handle id { env with dead := fun _ => false }]
  | .close _ _ => []
  | .heartbeat _ _ => []
  | act => [act]

/-- What of an event is not about memory alone. A stop before the first storage
step of an action is a restart between two actions. -/
def State.lasting (s : State) : Event → List Event
  | .run act => (s.offline act).map .run
  | .stop act n cfg =>
    if n = 0 ∧ cfg = s.cfg then s.pending.map fun w => .run (.drop w.id) else [.stop act n cfg]

def lasting (host : Host) : State → List Event → List Event
  | _, [] => []
  | s, e :: es => s.lasting e ++ lasting host (s.next host e) es

/-- The same process but for its streams. -/
structure State.Agrees (s t : State) : Prop where
  cfg : t.cfg = s.cfg
  stored : t.server.stored = s.server.stored
  pending : t.pending = s.pending

section Agrees
variable (host : Host) {s t : State}

theorem State.Agrees.db (h : s.Agrees t) : t.server.db = s.server.db := part_db h.stored

theorem State.Agrees.waiting (h : s.Agrees t) (id : Nat) : t.waiting id = s.waiting id := by
  unfold State.waiting
  rw [h.pending]

/-- A route that opens no stream depends on the stores alone. -/
theorem handle_stored (cfg : Config) (credential : Option Credential) (env : Env)
    (dead : Subscriber → Bool) {route : Route}
    (hr : route.streams = false) :
    Prog.Matches Server.stored (handle cfg host credential env route)
      (handle cfg host credential { env with dead := dead } route) := by
  cases ha : accept cfg host credential route with
  | error e =>
    rw [handle_refused ha, handle_refused ha]
    exact .raise e
  | ok r =>
    obtain ⟨a, call⟩ := r
    rw [handle_admitted ha, handle_admitted ha]
    refine perform_stored cfg host credential env dead a ?_
    rintro rfl
    obtain ⟨claimed, hc, -⟩ := accept_ok ha
    rw [check_connect hc] at hr
    cases hr

/-- A request for a stream leaves the stores alone. -/
theorem handle_keeps (cfg : Config) (credential : Option Credential) (env : Env) {route : Route}
    (hr : route.streams = true) :
    Prog.Keeps Server.stored (handle cfg host credential env route) := by
  cases ha : accept cfg host credential route with
  | error e =>
    rw [handle_refused ha]
    exact .raise e
  | ok r =>
    obtain ⟨a, call⟩ := r
    have hcall : call = .connect := by
      obtain ⟨claimed, hc, -⟩ := accept_ok ha
      cases route with
      | events query =>
        simp only [check, bind, Except.bind, pure, Except.pure] at hc
        split at hc <;> cases hc
        rfl
      | _ => cases hr
    rw [handle_admitted ha, hcall]
    exact connect_frame (fun _ _ _ _ _ => rfl) cfg credential a

/-- What an action runs, whichever deliveries fail. -/
theorem work_stored (h : s.Agrees t) (id : Nat) (env : Env) (dead : Subscriber → Bool)
    (hs : s.streams (.handle id env) = false) :
    Prog.Matches Server.stored (s.work host (.handle id env))
      (t.work host (.handle id { env with dead := dead })) := by
  cases hw : s.waiting id with
  | none =>
    rw [work_unknown host hw, work_unknown host (by rw [h.waiting, hw])]
    exact .pure ()
  | some w =>
    have hr : w.route.streams = false := by
      simp only [State.streams, hw, Option.any_some] at hs
      exact hs
    rw [work_handle host hw, work_handle host (w := w) (by rw [h.waiting, hw]), h.cfg]
    exact .bind (handle_stored host s.cfg w.credential env dead hr) fun _ => .pure ()

/-- An action matches, or both runs of it leave the stores alone. -/
theorem work_agrees (h : s.Agrees t) (act : Action) :
    Prog.Matches Server.stored (s.work host act) (t.work host act) ∨
    Prog.Keeps Server.stored (s.work host act) ∧ Prog.Keeps Server.stored (t.work host act) := by
  cases act with
  | arrive id req => exact .inl (.pure ())
  | handle id env =>
    cases hs : s.streams (.handle id env) with
    | false => exact .inl (work_stored host h id env env.dead hs)
    | true =>
      obtain ⟨w, hw, hr⟩ := (Option.any_eq_true _ _).1 hs
      have hwork : ∀ u : State, u.waiting id = some w →
          Prog.Keeps Server.stored (u.work host (.handle id env)) := fun u hu => by
        rw [work_handle host hu]
        exact .bind (handle_keeps host u.cfg w.credential env hr) fun _ => .pure ()
      exact .inr ⟨hwork s hw, hwork t (by rw [h.waiting, hw])⟩
  | drop id => exact .inl (.pure ())
  | admin authorization route env =>
    refine .inl ?_
    show Prog.Matches _ _ (do let _ ← handleAdmin t.cfg host env authorization route; pure ())
    rw [h.cfg]
    exact .bind (handleAdmin_stored s.cfg host env authorization route) fun _ => .pure ()
  | reclaim policy nowMs => exact .inl (.bind (reclaimSweep_stored policy nowMs) fun _ => .pure ())
  | reap ttlMs nowMs => exact .inl (.bind (reapUploadSessions_stored ttlMs nowMs) fun _ => .pure ())
  | close a sub => exact .inr ⟨.poke fun _ => rfl, .poke fun _ => rfl⟩
  | heartbeat a sub =>
    have hbeat : ∀ cfg : Config, Prog.Keeps Server.stored
        (Prog.poke fun v => v.heartbeat cfg a sub : Handler Unit) := fun cfg =>
      .poke fun v => by rw [heartbeat_hub]; rfl
    exact .inr ⟨hbeat s.cfg, hbeat t.cfg⟩

theorem act_stored (h : s.Agrees t) (act : Action) :
    (t.act host act).server.stored = (s.act host act).server.stored := by
  rcases work_agrees host h act with hm | ⟨hm, hm'⟩
  · exact (hm.state h.stored.symm).symm
  · exact (hm' t.server).1.trans (h.stored.trans (hm s.server).1.symm)

theorem stop_stored (h : s.Agrees t) (act : Action) (n : Nat) :
    ((t.work host act).stopAfter n t.server).stored =
      ((s.work host act).stopAfter n s.server).stored := by
  rcases work_agrees host h act with hm | ⟨hm, hm'⟩
  · exact (hm.stopAfter h.stored.symm n).symm
  · exact (hm'.stopAfter n t.server).trans (h.stored.trans (hm.stopAfter n s.server).symm)

theorem queue_agrees (h : s.Agrees t) (act : Action) : t.queue host act = s.queue host act := by
  cases act <;> simp only [State.queue, h.cfg, h.db, h.pending]

/-- **An action without streams.** -/
theorem act_agrees (h : s.Agrees t) (act : Action) :
    (s.act host act).Agrees (run (State.act host) t (s.offline act)) := by
  have hsame : (s.act host act).Agrees (t.act host act) :=
    ⟨h.cfg, act_stored host h act, queue_agrees host h act⟩
  cases act with
  | handle id env =>
    cases hs : s.streams (.handle id env) with
    | false =>
      rw [State.offline, if_neg (by simp [hs])]
      refine ⟨h.cfg, ((work_stored host h id env _ hs).state h.stored.symm).symm, ?_⟩
      show t.pending.filter _ = s.pending.filter _
      rw [h.pending]
    | true =>
      rw [State.offline, if_pos hs]
      obtain ⟨w, hw, hr⟩ := (Option.any_eq_true _ _).1 hs
      refine ⟨h.cfg, h.stored.trans ?_, ?_⟩
      · have hkeep := (handle_keeps host s.cfg w.credential env hr s.server).1
        show _ = (s.work host (.handle id env) s.server).state.stored
        rw [work_handle host hw, Prog.state_bind_pure]
        exact hkeep.symm
      · show t.pending.filter _ = s.pending.filter _
        rw [h.pending]
  | close a sub => exact ⟨h.cfg, h.stored, h.pending⟩
  | heartbeat a sub =>
    refine ⟨h.cfg, h.stored.trans ?_, h.pending⟩
    show s.server.stored = (s.server.heartbeat s.cfg a sub).stored
    rw [heartbeat_hub]
    rfl
  | _ => exact hsame

/-- Dropping every request in flight. -/
theorem run_drops (host : Host) : ∀ (ws : List Waiting) (u : State), (∀ w ∈ u.pending, w ∈ ws) →
    run (State.next host) u (ws.map fun w => .run (.drop w.id)) = { u with pending := [] }
  | [], u, hall => by
    have hnone : u.pending = [] := List.eq_nil_iff_forall_not_mem.2 fun w hw => nomatch hall w hw
    show u = _
    rw [← hnone]
  | w :: ws, u, hall => by
    rw [List.map_cons, run_cons]
    have hdrop : u.next host (.run (.drop w.id)) =
        { u with pending := u.pending.filter fun x => decide (x.id ≠ w.id) } := by
      show State.mk _ _ _ (u.sent ++ []) = _
      rw [List.append_nil]
      rfl
    rw [hdrop, run_drops host ws _ fun x hx => ?_]
    obtain ⟨hmem, hne⟩ := List.mem_filter.1 hx
    rcases List.mem_cons.1 (hall x hmem) with rfl | hrest
    · simp at hne
    · exact hrest

/-- **One event.** -/
theorem next_agrees (h : s.Agrees t) (e : Event) :
    (s.next host e).Agrees (run (State.next host) t (s.lasting e)) := by
  cases e with
  | run act =>
    show (s.act host act).Agrees (run (State.next host) t ((s.offline act).map .run))
    rw [after_run]
    exact act_agrees host h act
  | stop act n cfg =>
    simp only [State.lasting]
    split
    · rename_i hidle
      obtain ⟨rfl, rfl⟩ := hidle
      rw [run_drops host s.pending t fun w hw => h.pending ▸ hw]
      exact ⟨h.cfg, h.stored, rfl⟩
    · exact ⟨rfl, stop_stored host h act n, rfl⟩

/-- **The answer is the same.** -/
theorem answer_agrees (h : s.Agrees t) {act : Action} (hs : s.streams act = false) :
    t.answer host act = s.answer host act := by
  cases act with
  | arrive id req => simp only [State.answer, h.cfg, h.db]
  | handle id env =>
    cases hw : s.waiting id with
    | none => simp only [State.answer, h.waiting, hw, Option.map_none]
    | some w =>
      have hr : w.route.streams = false := by
        simp only [State.streams, hw, Option.any_some] at hs
        exact hs
      rw [answer_handle host hw, answer_handle host (w := w) (by rw [h.waiting, hw]), h.cfg]
      have hresult := (handle_stored host s.cfg w.credential env env.dead hr).result h.stored.symm
      simp only [finish, hresult]
  | admin authorization route env =>
    have hresult := (handleAdmin_stored s.cfg host env authorization route).result h.stored.symm
    simp only [State.answer, h.cfg, finish, hresult]
  | _ => rfl

end Agrees

/-! ## Whole runs -/

theorem run_agrees (host : Host) : ∀ (es : List Event) {s t : State}, s.Agrees t →
    (run (State.next host) s es).Agrees (run (State.next host) t (lasting host s es))
  | [], _, _, h => h
  | e :: es, s, t, h => by
    rw [run_cons, lasting, run_append]
    exact run_agrees host es (next_agrees host h e)

/-- No stream has been open since the process started. -/
def State.Silent (s : State) : Prop := s.server.hub = .empty

theorem disconnects_empty (ids : List String) : Hub.disconnects .empty ids = .empty := by
  induction ids with
  | nil => rfl
  | cons id ids ih => exact ih

theorem act_silent {host : Host} {s : State} (h : s.Silent) {act : Action} (ht : act.tears = false)
    (hs : s.streams act = false) :
    (s.act host act).Silent := by
  have hopens : s.opens host act = [] := by
    unfold State.opens
    cases act with
    | handle id env =>
      rcases handled_cases host s id env with ⟨w, a, call, hh, hw, -⟩ | ⟨hnone, -⟩
      · have hcall : call ≠ .connect := by
          rintro rfl
          obtain ⟨claimed, hc, -⟩ := accept_ok (handled_accept hh).2
          simp [State.streams, hw, check_connect hc] at hs
        rw [hh]
        cases call with
        | connect => exact absurd rfl hcall
        | _ => rfl
      · rw [hnone]
    | _ => rfl
  have hstep := act_hubStep host s ht
  generalize hopened : s.opens host act = opened at hstep
  generalize act.administers = evicts at hstep
  show (s.act host act).server.hub = .empty
  have h : s.server.hub = .empty := h
  cases hstep with
  | quiet evicts same => exact (wire_hub same).1.trans h
  | nudge a nudge after =>
    rw [(wire_hub after).1, h]
    rfl
  | connect a credential known after =>
    -- a stream that is not opened leaves the hub as it was
    have hrefused :
        (s.server.hub.subscribe s.cfg.maxSseConnectionsPerAccount s.cfg.maxSseConnections a
        ⟨s.server.nextId, credential.map (·.credentialId)⟩).1 = false := by
      by_contra hadmitted
      rw [hopens] at hopened
      simp [Call.opens, hadmitted] at hopened
    rw [(wire_hub after).1, Hub.subscribe_refused (by rw [h]; nofun) hrefused]
    exact h
  | evict ids spent after =>
    rw [(wire_hub after).1, h]
    exact disconnects_empty ids

/-- What is left of a run opens no stream. -/
theorem lasting_silent (host : Host) {s t : State} (h : s.Agrees t) (ht : t.Silent) (e : Event) :
    (run (State.next host) t (s.lasting e)).Silent := by
  cases e with
  | stop act n cfg =>
    simp only [State.lasting]
    split
    · rw [run_drops host s.pending t fun w hw => h.pending ▸ hw]
      exact ht
    · exact rfl
  | run act =>
    show (run (State.next host) t ((s.offline act).map .run)).Silent
    rw [after_run]
    cases act with
    | handle id env =>
      have hsame : ∀ env', t.streams (.handle id env') = s.streams (.handle id env) := by
        intro env'
        simp only [State.streams, h.waiting]
      cases hs : s.streams (.handle id env) with
      | false =>
        rw [State.offline, if_neg (by simp [hs])]
        exact act_silent ht rfl ((hsame _).trans hs)
      | true =>
        rw [State.offline, if_pos hs]
        exact act_silent ht rfl rfl
    | close a sub => exact ht
    | heartbeat a sub => exact ht
    | _ => exact act_silent ht rfl rfl

theorem run_silent (host : Host) : ∀ (es : List Event) {s t : State}, s.Agrees t → t.Silent →
    (run (State.next host) t (lasting host s es)).Silent
  | [], _, _, _, ht => ht
  | e :: es, _, _, h, ht => by
    rw [lasting, run_append]
    exact run_silent host es (next_agrees host h e) (lasting_silent host h ht e)

/-- The process in `t` is as the one in `s` to all but the streams. `usage`: the
report does not show the connections. -/
structure Unnoticed (host : Host) (s t : State) : Prop where
  silent : ∀ a, t.server.hub.set a = []
  stored : t.server.stored = s.server.stored
  answers : ∀ act, s.streams act = false → t.answer host act = s.answer host act
  reports : credentialsReport t.server.db = credentialsReport s.server.db ∧
    accountsReport t.cfg t.server.db = accountsReport s.cfg s.server.db
  usage : ∀ now, adminUsage now t.server.db t.server.hub =
    (adminUsage now s.server.db s.server.hub).offline s.server.db

/-- **Nothing that a process holds in memory counts**, behind the limiter. Take
everything out of a run that is about memory only: the requests for event
streams, their teardowns and heartbeats, the deliveries that fail, and the
restarts of a process between two actions. No stream is ever open in what is
left; the database and the files end as they did, and at every point each
request that is not for a stream, and each of the operator's, is answered as it
was, the usage report but for its connections. -/
theorem memory_unnoticed (host : Host) (cfg : Config) (es : List Event) :
    Unnoticed host (State.after host cfg es)
      (State.after host cfg (lasting host (State.init cfg) es)) := by
  have hinit : (State.init cfg).Agrees (State.init cfg) := ⟨rfl, rfl, rfl⟩
  have hrun := run_agrees host es hinit
  have hsilent := run_silent host es hinit rfl
  have howned : (State.after host cfg es).server.db.Owned :=
    fun p hp => Option.ne_none_iff_exists'.1 ((genuine_after host cfg es).owned p hp)
  refine ⟨fun a => ?_, hrun.stored, fun act hs => answer_agrees host hrun hs, ?_, fun now => ?_⟩
  · show Hub.set (run (State.next host) _ _).server.hub a = []
    rw [hsilent]
    rfl
  · show credentialsReport (run (State.next host) _ _).server.db = _ ∧
      accountsReport (run (State.next host) _ _).cfg (run (State.next host) _ _).server.db = _
    rw [hrun.db, hrun.cfg]
    exact ⟨rfl, rfl⟩
  · show adminUsage now (run (State.next host) _ _).server.db
      (run (State.next host) _ _).server.hub = _
    rw [hrun.db, hsilent]
    exact report_offline howned

end GlanceVault.L4
