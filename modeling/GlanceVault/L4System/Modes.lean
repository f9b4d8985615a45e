import GlanceVault.L4System.Finality
import GlanceVault.L4System.Memory
/-!
# The two authentication modes

The mode decides which requests get in, and nothing after that. Take a run of a
server in any mode, and let the requests that it lets in come to a server in
shared mode, under that server's token (`opened`); the others do not come, or
are not handled, and the operator does not come at all. The two servers have the
same rows, events, salts, blobs, uploads and files throughout, and give the
requests that were let in the same answers.

* `accept_shared`, `perform_shared`: what shared mode makes of a request.
* `next_opens`: one event.
* `modes_agree`: whole runs.
-/
namespace GlanceVault.L4
open GlanceVault.Core GlanceVault.L1 GlanceVault.L1.Js GlanceVault.L2 GlanceVault.L3

/-- The configuration in shared mode, with another device token. -/
def sharedMode (token : String) (cfg : Config) : Config :=
  { cfg with authMode := .shared, deviceToken := token }

/-- What comes of an action of a server that lets `s` in: a request that passes
the credential check comes under the token of `header`, and one that is not
handled for its account is dropped instead. -/
def State.admitted (host : Host) (header : String) (s : State) : Action → Option Action
  | .arrive id req =>
    match authenticate s.cfg host s.server.db req.authorization with
    | .ok _ => some (.arrive id ⟨some header, req.route⟩)
    | .error _ => none
  | .handle id env =>
    some (if (s.handled host (.handle id env)).isSome then .handle id env else .drop id)
  | .drop id => some (.drop id)
  | .reclaim policy nowMs => some (.reclaim policy nowMs)
  | .reap ttlMs nowMs => some (.reap ttlMs nowMs)
  | _ => none

/-- A stop of an action that does not come is a restart. -/
def State.opened (host : Host) (token header : String) (s : State) : Event → List Event
  | .run act => (s.admitted host header act).toList.map .run
  | .stop act n cfg =>
    match s.admitted host header act with
    | some act' => [.stop act' n (sharedMode token cfg)]
    | none => [.stop act 0 (sharedMode token cfg)]

def opened (host : Host) (token header : String) : State → List Event → List Event
  | _, [] => []
  | s, e :: es => s.opened host token header e ++ opened host token header (s.next host e) es

/-- The event deletes an account; a request for it that is refused does not. -/
def State.erases (host : Host) (s : State) (e : Event) : Prop :=
  e.action.deletesAccount = true ∧ (s.next host e).server.data ≠ s.server.data

/-! ## Requests in shared mode -/

section Requests
variable {token : String} {cfg : Config} {host : Host} {route : Route}

theorem check_shared : check (sharedMode token cfg) host route = check cfg host route := by
  cases route <;> rfl

theorem accept_shared (credential : Option Credential) :
    accept (sharedMode token cfg) host credential route = check cfg host route := by
  unfold accept
  rw [check_shared]
  cases check cfg host route <;> rfl

/-- A request that is let in is let in for the same account. -/
theorem accept_opened {credential : Option Credential} {a : String} {call : Call}
    (h : accept cfg host credential route = .ok (a, call)) (credential' : Option Credential) :
    accept (sharedMode token cfg) host credential' route = .ok (a, call) := by
  obtain ⟨claimed, hc, hr⟩ := accept_ok h
  rw [accept_shared, hc, resolveScope_claimed hr]

/-- No call looks at the mode. -/
theorem perform_shared (credential : Option Credential) (env : Env) (a : String) (call : Call) :
    perform (sharedMode token cfg) host credential env a call =
      perform cfg host credential env a call := by
  cases call <;> rfl

end Requests

/-! ## One event -/

/-- The server `t` in shared mode beside `s`. -/
structure State.Opens (token : String) (s t : State) : Prop where
  cfg : t.cfg = sharedMode token s.cfg
  data : t.server.data = s.server.data
  pending : t.pending = s.pending.map fun w => { w with credential := none }

section Opens
variable (host : Host) {token header : String} {s t : State}

theorem State.Opens.waiting (h : s.Opens token t) (id : Nat) :
    t.waiting id = (s.waiting id).map fun w => { w with credential := none } := by
  unfold State.waiting
  rw [h.pending, List.find?_map]
  rfl

/-- What becomes of a request that both let in. -/
theorem work_admitted (h : s.Opens token t) {id : Nat} {w : Waiting} {a : String} {call : Call}
    (hw : s.waiting id = some w)
    (ha : accept s.cfg host w.credential w.route = .ok (a, call)) (env : Env) :
    s.work host (.handle id env) =
      (do let _ ← perform s.cfg host w.credential env a call; pure ()) ∧
    t.work host (.handle id env) = (do let _ ← perform s.cfg host none env a call; pure ()) ∧
    t.answer host (.handle id env) =
      some (finish (perform s.cfg host none env a call t.server)) := by
  have hwt : t.waiting id = some { w with credential := none } := by rw [h.waiting, hw]; rfl
  have hat : accept t.cfg host none w.route = .ok (a, call) := by
    rw [h.cfg]
    exact accept_opened ha none
  have hperform : perform t.cfg host none env a call = perform s.cfg host none env a call := by
    rw [h.cfg, perform_shared]
  refine ⟨?_, ?_, ?_⟩
  · rw [work_handle host hw, handle_admitted ha]
  · rw [work_handle host hwt, handle_admitted hat, hperform]
  · rw [answer_handle host hwt, handle_admitted hat, hperform]

/-- An action and what comes of it match on the data, or leave it alone. -/
theorem work_opens (h : s.Opens token t) {act act' : Action}
    (hact : s.admitted host header act = some act') :
    Prog.Matches Server.data (s.work host act) (t.work host act') ∨
      Prog.Keeps Server.data (s.work host act) ∧ Prog.Keeps Server.data (t.work host act') := by
  cases act with
  | arrive id req =>
    simp only [State.admitted] at hact
    split at hact
    · cases hact
      exact .inl (.pure ())
    · cases hact
  | handle id env =>
    simp only [State.admitted, Option.some.injEq] at hact
    subst hact
    rcases work_cases host s id env with ⟨w, a, call, hw, ha, -⟩ | ⟨hnone, hwork⟩
    · rw [if_pos (by rw [handled_some hw ha]; rfl)]
      obtain ⟨hs, ht, -⟩ := work_admitted host h hw ha env
      rw [hs, ht]
      by_cases hcall : call = .connect
      · have hkeep : ∀ credential, Prog.Keeps Server.data
            (perform s.cfg host credential env a call) := fun credential =>
          hcall ▸ connect_frame (fun _ _ _ _ _ => rfl) s.cfg credential a
        exact .inr ⟨.bind (hkeep _) fun _ => .pure (), .bind (hkeep _) fun _ => .pure ()⟩
      · have hm := perform_matches s.cfg host w.credential none env env.dead a hcall
        exact .inl (.bind hm fun _ => .pure ())
    · rw [if_neg (by rw [hnone]; simp)]
      refine .inr ⟨?_, .pure ()⟩
      rcases hwork with hwork | ⟨e, hwork⟩
      · rw [hwork]; exact .pure ()
      · rw [hwork]; exact .raise e
  | drop id => cases hact; exact .inl (.pure ())
  | reclaim policy nowMs =>
    cases hact
    exact .inl (.bind (reclaimSweep_matches policy nowMs) fun _ => .pure ())
  | reap ttlMs nowMs =>
    cases hact
    exact .inl (.bind (reapUploadSessions_matches ttlMs nowMs) fun _ => .pure ())
  | _ => cases hact

/-- An action that does not come leaves the data alone, unless it deletes an account. -/
theorem work_absent {act : Action} (hact : s.admitted host header act = none)
    (hdel : act.deletesAccount = false) :
    Prog.Keeps Server.data (s.work host act) := by
  cases act with
  | arrive id req => exact .pure ()
  | admin authorization route env =>
    have hadmin : Prog.Keeps Server.data (handleAdmin s.cfg host env authorization route) := by
      refine handleAdmin_frame (fun _ _ _ _ _ => rfl)
        (fun v db e => congrArg (fun d => (d, v.disk)) e) s.cfg host env authorization ?_
      rintro a body rfl
      cases hdel
    exact .bind hadmin fun _ => .pure ()
  | close a sub => exact .poke fun _ => rfl
  | heartbeat a sub => exact .poke fun v => by rw [heartbeat_hub]; rfl
  | _ => cases hact

theorem queue_opens (hauth : deviceTokenAuth token (some header) = .ok none) (h : s.Opens token t)
    {act act' : Action}
    (hact : s.admitted host header act = some act') :
    t.queue host act' = (s.queue host act).map fun w => { w with credential := none } := by
  have hfilter : ∀ id, t.pending.filter (fun w => decide (w.id ≠ id)) =
      (s.pending.filter fun w => decide (w.id ≠ id)).map fun w =>
        { w with credential := none } := fun id => by
    rw [h.pending, List.filter_map]
    rfl
  cases act with
  | arrive id req =>
    have hshared : authenticate t.cfg host t.server.db (some header) = .ok none := by
      rw [h.cfg]
      exact hauth
    simp only [State.admitted] at hact
    cases ha : authenticate s.cfg host s.server.db req.authorization with
    | error r => rw [ha] at hact; cases hact
    | ok c =>
      rw [ha] at hact
      cases hact
      simp only [State.queue, hshared, ha, h.pending, List.map_append, List.map_cons, List.map_nil]
  | handle id env =>
    simp only [State.admitted, Option.some.injEq] at hact
    subst hact
    split <;> exact hfilter id
  | drop id => cases hact; exact hfilter id
  | reclaim policy nowMs => cases hact; exact h.pending
  | reap ttlMs nowMs => cases hact; exact h.pending
  | _ => cases hact

theorem queue_absent {act : Action} (hact : s.admitted host header act = none) :
    s.queue host act = s.pending := by
  cases act with
  | arrive id req =>
    simp only [State.admitted] at hact
    cases ha : authenticate s.cfg host s.server.db req.authorization with
    | ok c => rw [ha] at hact; cases hact
    | error r => simp only [State.queue, ha]
  | handle id env => cases hact
  | drop id => cases hact
  | _ => rfl

/-- An event that does not come leaves the data alone, unless it deletes an account. -/
theorem next_absent {e : Event} (hact : s.admitted host header e.action = none)
    (hdel : ¬ s.erases host e) :
    (s.next host e).server.data = s.server.data := by
  by_cases hd : e.action.deletesAccount = true
  · exact not_not.1 fun hdata => hdel ⟨hd, hdata⟩
  have hkeep := work_absent host hact (Bool.eq_false_iff.2 hd)
  cases e with
  | run act => exact (hkeep s.server).1
  | stop act n cfg => exact hkeep.stopAfter n s.server

/-- **One event.** -/
theorem next_opens (hauth : deviceTokenAuth token (some header) = .ok none) (h : s.Opens token t)
    {e : Event} (hdel : ¬ s.erases host e) :
    (s.next host e).Opens token (run (State.next host) t (s.opened host token header e)) := by
  have habsent : s.admitted host header e.action = none →
      (s.next host e).server.data = s.server.data :=
    fun hact => next_absent host hact hdel
  cases e with
  | run act =>
    cases hact : s.admitted host header act with
    | none =>
      simp only [State.opened, hact]
      refine ⟨h.cfg, h.data.trans (habsent hact).symm, ?_⟩
      show t.pending = (s.queue host act).map _
      rw [queue_absent host hact, h.pending]
    | some act' =>
      simp only [State.opened, hact]
      refine ⟨h.cfg, ?_, queue_opens host hauth h hact⟩
      rcases work_opens host h hact with hm | ⟨hm, hm'⟩
      · exact (hm.state h.data.symm).symm
      · exact (hm' t.server).1.trans (h.data.trans (hm s.server).1.symm)
  | stop act n cfg =>
    cases hact : s.admitted host header act with
    | none =>
      simp only [State.opened, hact]
      exact ⟨rfl, h.data.trans (habsent hact).symm, rfl⟩
    | some act' =>
      simp only [State.opened, hact]
      refine ⟨rfl, ?_, rfl⟩
      rcases work_opens host h hact with hm | ⟨hm, hm'⟩
      · exact (hm.stopAfter h.data.symm n).symm
      · exact (hm'.stopAfter n t.server).trans (h.data.trans (hm.stopAfter n s.server).symm)

/-- **The answers**: the same, or a refusal for lack of authority. -/
theorem answer_opens (h : s.Opens token t) (id : Nat) (env : Env)
    (hs : s.streams (.handle id env) = false) :
    t.answer host (.handle id env) = s.answer host (.handle id env) ∨
      s.handled host (.handle id env) = none ∧
        ∃ r, s.answer host (.handle id env) = some r ∧ (r.status = 401 ∨ r.status = 403) := by
  cases hw : s.waiting id with
  | none =>
    have hwt : t.waiting id = none := by rw [h.waiting, hw]; rfl
    left
    simp only [State.answer, hw, hwt, Option.map_none]
  | some w =>
    cases ha : accept s.cfg host w.credential w.route with
    | ok r =>
      obtain ⟨a, call⟩ := r
      left
      obtain ⟨-, -, hanswer⟩ := work_admitted host h hw ha env
      have hcall : call ≠ .connect := by
        rintro rfl
        obtain ⟨claimed, hc, -⟩ := accept_ok ha
        simp [State.streams, hw, check_connect hc] at hs
      have hresult :=
        (perform_matches s.cfg host w.credential none env env.dead a hcall).result h.data.symm
      rw [hanswer, answer_handle host hw, handle_admitted ha]
      simp only [finish, hresult]
    | error e =>
      have hanswer : s.answer host (.handle id env) = some e.response := by
        rw [answer_handle host hw, handle_refused ha]
        rfl
      rcases accept_error ha with hc | ⟨x, rfl, hstatus⟩
      · left
        have hwt : t.waiting id = some { w with credential := none } := by rw [h.waiting, hw]; rfl
        have hat : accept t.cfg host none w.route = .error e := by rw [h.cfg, accept_shared, hc]
        rw [hanswer, answer_handle host hwt, handle_refused hat]
        rfl
      · right
        exact ⟨by simp [State.handled, hw, ha], _, hanswer, hstatus⟩

end Opens

/-! ## Whole runs -/

theorem run_opens (host : Host) {token header : String}
    (hauth : deviceTokenAuth token (some header) = .ok none) :
    ∀ (es : List Event) {s t : State}, s.Opens token t →
      AllSteps (State.next host) (fun s e => ¬ s.erases host e) s es →
      (run (State.next host) s es).Opens token
        (run (State.next host) t (opened host token header s es))
  | [], _, _, h, _ => h
  | e :: es, s, t, h, hdel => by
    rw [run_cons, opened, run_append]
    exact run_opens host hauth es (next_opens host hauth h hdel.1) hdel.2

/-- **The mode decides who gets in, and nothing else.** Run the requests that a
server lets in, in whatever mode it is and whatever it is restarted as, on a
server in shared mode. As long as the operator deletes no account, both have the
same data and files; and a request that is not for a stream is answered as it is
there, or it was refused with 401 or 403 before it was handled. -/
theorem modes_agree (host : Host) (cfg : Config) {token header : String}
    (hauth : deviceTokenAuth token (some header) = .ok none) (es : List Event)
    (hdel : AllSteps (State.next host) (fun s e => ¬ s.erases host e) (State.init cfg) es) :
    (State.after host (sharedMode token cfg)
      (opened host token header (State.init cfg) es)).server.data =
      (State.after host cfg es).server.data ∧
    ∀ id env, (State.after host cfg es).streams (.handle id env) = false →
      (State.after host (sharedMode token cfg)
        (opened host token header (State.init cfg) es)).answer host (.handle id env) =
          (State.after host cfg es).answer host (.handle id env) ∨
        (State.after host cfg es).handled host (.handle id env) = none ∧
          ∃ r, (State.after host cfg es).answer host (.handle id env) = some r ∧
            (r.status = 401 ∨ r.status = 403) := by
  have hinit : (State.init cfg).Opens token (State.init (sharedMode token cfg)) := ⟨rfl, rfl, rfl⟩
  have hrun := run_opens host hauth es hinit hdel
  exact ⟨hrun.data, fun id env hs => answer_opens host hrun id env hs⟩

/-- A device is enrolled and writes a row; someone else's request for the
account is refused. -/
def enrolledWrites : List Event :=
  (enrolled ++ [sendsBatch 0, .arrive 1 ⟨some "Bearer token", .syncList "dayglance" household⟩,
    .handle 0 (sampleEnv "" "t")]).map .run

theorem modes_agree_enrolled :
    (State.after sampleHost keyedConfig enrolledWrites).server.db.syncRows.rows.map (·.entityId) =
      ["e"] ∧
    (opened sampleHost "token" "Bearer token" (State.init keyedConfig) enrolledWrites).length = 2 ∧
    (State.after sampleHost (sharedMode "token" keyedConfig)
      (opened sampleHost "token" "Bearer token"
        (State.init keyedConfig) enrolledWrites)).server.data =
      (State.after sampleHost keyedConfig enrolledWrites).server.data := by
  have hauth : deviceTokenAuth "token" (some "Bearer token") = .ok none := rfl
  have hnone : ∀ e ∈ enrolledWrites, e.action.deletesAccount = false := by decide
  obtain ⟨hdata, -⟩ := modes_agree sampleHost keyedConfig hauth enrolledWrites
    (allSteps_mem _ _ fun e he s hdel => Bool.eq_false_iff.1 (hnone e he) hdel.1)
  exact ⟨by decide +kernel, by decide +kernel, hdata⟩

end GlanceVault.L4
