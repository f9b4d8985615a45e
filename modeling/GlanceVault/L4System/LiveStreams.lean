import GlanceVault.L4System.Finality
import GlanceVault.L4System.HubSteps
/-!
# Live streams and their credentials

A stream is opened with a credential and lives until its socket closes, a
delivery to it fails or its credential ends. A revocation, a rotation that
signs out the devices and an account deletion end the streams of every
credential they end. An enrollment ends the predecessors of its device, and
leaves their streams open.

## Events

`GET /events` has no body: its credential check and its handler are one turn
of the event loop, so nothing comes between them (`Turn.connect`).

## Results

* `administers_entitled`: which requests of the operator leave every live stream
  an active credential.
* `superseded_stranded`: an enrollment over a live stream does not.
* `live_streams`: whole runs.
-/
namespace GlanceVault.L4
open GlanceVault.Core GlanceVault.L1 GlanceVault.L1.Js GlanceVault.L2 GlanceVault.L3

def connects : Route → Bool
  | .events _ => true
  | _ => false

/-- The action lets a stream's request wait. -/
def Action.parks : Action → Bool
  | .arrive _ req => connects req.route
  | _ => false

/-- One turn of the event loop. -/
inductive Turn
  | act (a : Action) (h : a.parks = false)
  | connect (id : Nat) (authorization : Option String) (query : Query) (env : Env)

def State.turn (host : Host) (s : State) : Turn → State
  | .act a _ => s.act host a
  | .connect id authorization query env =>
    (s.act host (.arrive id ⟨authorization, .events query⟩)).act host (.handle id env)

/-- Every live stream is of an active credential of its account. -/
def Entitled (v : Server) : Prop := ∀ a, ∀ sub ∈ v.hub.set a, ∃ c ∈ v.db.deviceCredentials.rows,
  sub.credentialId = some c.credentialId ∧ c.accountId = a ∧ c.active = true

/-- The enrollment is for the device `d` of `a`, with a new id and secret. -/
def Succeeds (host : Host) (s : State) (body : Body) (env : Env) (a d : String) : Prop :=
  Enrolls s.cfg host s.server.db body a d ∧ ∀ c ∈ s.server.db.deviceCredentials.rows,
    c.credentialHash ≠ (drawn host env a d).credentialHash ∧ c.credentialId ≠ env.uuid

/-- No live stream is of a credential that the turn's enrollment supersedes. -/
def State.sparesStreams (host : Host) (s : State) : Turn → Prop
  | .act (.admin _ (.enroll body) env) _ => ∀ a d, Succeeds host s body env a d →
      ∀ c ∈ s.server.db.deviceCredentials.rows, ofDevice a d c = true → c.active = true →
      ∀ b, ∀ sub ∈ s.server.hub.set b, sub.credentialId ≠ some c.credentialId
  | _ => True

/-! ## Requests of the operator -/

section Admin
variable {cfg : Config} {host : Host} {env : Env} {v w : Server}

/-- Streams that are left keep their credentials' rows. -/
theorem entitled_of (h : Entitled v) (hsub : ∀ b, ∀ sub ∈ w.hub.set b, sub ∈ v.hub.set b)
    (hrow : ∀ b, ∀ sub ∈ w.hub.set b, ∀ c ∈ v.db.deviceCredentials.rows,
      sub.credentialId = some c.credentialId →
      c.active = true → c ∈ w.db.deviceCredentials.rows) : Entitled w := by
  intro a sub hw
  obtain ⟨c, hc, hid, ha, hact⟩ := h a sub (hsub a sub hw)
  exact ⟨c, hrow a sub hw c hc hid hact, hid, ha, hact⟩

/-- An active row that a revocation does not reach is left as it is. -/
theorem revokeWhere_spares {db : Db} {p : Credential → Bool} {now : String} {c : Credential}
    (hc : c ∈ db.deviceCredentials.rows) (hp : p c = false) :
    c ∈ (db.revokeWhere p now).deviceCredentials.rows :=
  mem_revokeWhere.2 ⟨c, hc, by rw [hp]; rfl⟩

/-- **A request of the operator leaves every live stream an active credential**,
unless it enrolls a device over a live stream of it. -/
theorem administers_entitled {route : AdminRoute} (hadm : Administers cfg host env v route w)
    (hspares : ∀ body a d, route = .enroll body → Enrolls cfg host v.db body a d →
      (∀ c ∈ v.db.deviceCredentials.rows, c.credentialHash ≠ (drawn host env a d).credentialHash ∧
        c.credentialId ≠ env.uuid) →
      ∀ c ∈ v.db.deviceCredentials.rows, ofDevice a d c = true → c.active = true →
      ∀ b, ∀ sub ∈ v.hub.set b,
        sub.credentialId ≠ some c.credentialId) (h : Entitled v) : Entitled w := by
  cases hadm with
  | declined => exact h
  | @enroll body a d proof fresh =>
    refine entitled_of h (fun _ _ hsub => hsub) (fun b sub hsub c hc hid hact => ?_)
    have hother : ofDevice a d c = false := by
      cases hof : ofDevice a d c with
      | false => rfl
      | true => exact absurd hid (hspares body a d rfl proof fresh c hc hof hact b sub hsub)
    exact Table.mem_upsert.2 (.inr ⟨revokeWhere_spares hc hother, (fresh c hc).2⟩)
  | revoke id =>
    refine entitled_of h (fun b sub hsub => ?_) (fun b sub hsub c hc hid hact => ?_)
    · have hsub : sub ∈ (v.hub.disconnects [id]).set b := hsub
      exact (Hub.mem_disconnects.1 hsub).1
    · have hsub : sub ∈ (v.hub.disconnects [id]).set b := hsub
      have hne := (Hub.mem_disconnects.1 hsub).2 id (List.mem_singleton.2 rfl)
      exact revokeWhere_spares hc (by simpa using fun e => hne (by rw [hid, e]))
  | @revokeAgain id spent =>
    refine entitled_of h (fun _ _ hsub => hsub) (fun b sub hsub c hc hid hact => ?_)
    refine revokeWhere_spares hc ?_
    simpa using fun e => Bool.false_ne_true ((spent c hc e).symm.trans hact)
  | createAccount body step credentials rest =>
    refine entitled_of h (fun _ _ hsub => hsub) (fun b sub hsub c hc hid hact => ?_)
    rw [credentials]
    exact hc
  | @rotateKey a body free =>
    refine entitled_of h (fun b sub hsub => (Hub.mem_disconnects.1 hsub).1)
      (fun b sub hsub c hc hid hact => ?_)
    have hne := (Hub.mem_disconnects.1 hsub).2
    unfold rotated
    cases hdev : rotatesDevices body with
    | false => exact hc
    | true =>
      rw [hdev] at hne
      have hc' : c ∈ (v.db.rekey a (drawnKeyHash host env) (env.clock 0)).deviceCredentials.rows :=
        hc
      refine revokeWhere_spares hc' ?_
      simpa using fun e => hne c.credentialId (mem_activeCredentialIds.2 ⟨c, hc, rfl, e, hact⟩) hid
  | @deleteAccount a body w store streams =>
    refine entitled_of h (fun b sub hsub => ?_) (fun b sub hsub c hc hid hact => ?_)
    · rw [streams] at hsub
      exact (Hub.mem_disconnects.1 hsub).1
    · rw [streams] at hsub
      have hne := (Hub.mem_disconnects.1 hsub).2
      rw [store]
      refine Table.mem_keep.2 ⟨hc, ?_⟩
      simpa using fun e => hne c.credentialId (mem_activeCredentialIds.2 ⟨c, hc, rfl, e, hact⟩) hid

/-- An enrollment over a live stream of its device leaves the stream without an
active credential. -/
theorem superseded_stranded (host : Host) {a d b : String} {c : Credential} {sub : Subscriber}
    (fresh : ∀ c ∈ v.db.deviceCredentials.rows, c.credentialId ≠ env.uuid)
    (hc : c ∈ v.db.deviceCredentials.rows)
    (hof : ofDevice a d c = true) (hact : c.active = true) (hsub : sub ∈ v.hub.set b)
    (hid : sub.credentialId = some c.credentialId) :
    ¬ Entitled { v with db := issued host env v.db a d } := by
  intro h
  obtain ⟨x, hx, hxid, -, hxact⟩ := h b sub hsub
  have hidx : x.credentialId = c.credentialId := Option.some.inj (hxid.symm.trans hid)
  rcases Table.mem_upsert.1 hx with hnew | ⟨hold, -⟩
  · rw [hnew] at hidx
    exact fresh c hc hidx.symm
  · obtain ⟨y, hy, rfl⟩ := mem_revokeWhere.1 hold
    by_cases hp : (ofDevice a d y && y.active) = true
    · rw [if_pos hp] at hxact
      cases hxact
    · rw [if_neg hp] at hidx
      have hyc : y = c := Table.eq_of_mem hy hc hidx
      rw [hyc, hof, hact] at hp
      exact hp rfl

end Admin

/-! ## Actions -/

theorem check_connects {cfg : Config} {host : Host} {route : Route} {claimed : String}
    (h : check cfg host route = .ok (claimed, .connect)) : connects route = true := by
  cases route with
  | events query => rfl
  | _ =>
    simp only [check, bind, Except.bind, pure, Except.pure] at h
    repeat' split at h
    all_goals cases h

theorem entitled_sublist {v w : Server} (h : Entitled v)
    (hc : w.db.deviceCredentials = v.db.deviceCredentials)
    (hset : ∀ b, (w.hub.set b).Sublist (v.hub.set b)) : Entitled w :=
  entitled_of h (fun b _ hsub => (hset b).subset hsub) fun b sub _ c hcm _ _ => by
    rw [hc]
    exact hcm

theorem wake_sublist (env : Env) (v : Server) (a : String) (label : Option String) (n : Nat)
    (b : String) :
    ((v.wake env a label n).hub.set b).Sublist (v.hub.set b) := by
  unfold Server.wake
  split
  · split
    · show ((v.hub.publish env.dead a).set b).Sublist (v.hub.set b)
      rw [Hub.set_publish]
      split
      · exact List.filter_sublist
      · exact List.Sublist.refl _
    · exact List.Sublist.refl _
  · exact List.Sublist.refl _

section Act
variable {host : Host} {s : State}

/-- A request is handled; the stream it may open is of an active credential. -/
theorem handle_entitled (hm : s.cfg.authMode = .perAccount) {id : Nat} (env : Env)
    (hw : ∀ w, s.waiting id = some w → connects w.route = true →
      ∃ c ∈ s.server.db.deviceCredentials.rows, w.credential = some c ∧ c.active = true)
    (h : Entitled s.server) : Entitled (s.act host (.handle id env)).server := by
  have hno : ∀ authorization route env', Action.handle id env ≠ .admin authorization route env' :=
    fun _ _ _ e => nomatch e
  obtain ⟨-, hcred⟩ := registry_act host s hno
  rcases handled_cases host s id env with ⟨w, a, call, hh, hwait, hs, -⟩ | ⟨-, hs⟩
  · by_cases hc : call = .connect
    · subst hc
      have hadm := (handled_accept hh).2
      obtain ⟨claimed, hcheck, -⟩ := accept_ok hadm
      obtain ⟨c, hwc, rfl⟩ := accept_bound hm hadm
      obtain ⟨x, hx, hwx, hact⟩ := hw w hwait (check_connects hcheck)
      have hxc : c = x := Option.some.inj (hwc.symm.trans hwx)
      subst hxc
      rw [hs, perform_connect]
      intro b sub hsub
      dsimp only at hsub ⊢
      rw [Hub.set_subscribe] at hsub
      split at hsub
      · rename_i hjoin
        split at hsub
        · exact h b sub (hjoin.2 ▸ hsub)
        · rcases List.mem_append.1 hsub with hold | hnew
          · exact h b sub (hjoin.2 ▸ hold)
          · -- the new stream
            refine ⟨c, hx, ?_, hjoin.2.symm, hact⟩
            rw [List.mem_singleton.1 hnew, hwc]
            rfl
      · exact h b sub hsub
    · obtain ⟨db, disk, e⟩ := perform_wakes s.server s.cfg host env a w.credential hc
      refine entitled_sublist h hcred fun b => ?_
      rw [hs, e]
      exact wake_sublist env _ a _ _ b
  · rw [hs]
    exact h

/-- **An action leaves every live stream an active credential**, unless it
enrolls a device over a live stream of it. -/
theorem act_entitled (hm : s.cfg.authMode = .perAccount) {a : Action} (hpark : a.parks = false)
    (hpend : ∀ w ∈ s.pending, connects w.route = false)
    (hspares : s.sparesStreams host (.act a hpark))
    (h : Entitled s.server) : Entitled (s.act host a).server := by
  rcases act_registry host s a with ⟨authorization, route, env, rfl, hadm⟩ | ⟨hno, -, hcred⟩
  · refine administers_entitled hadm (fun body b d e hproof hfresh => ?_) h
    subst e
    exact hspares b d ⟨hproof, hfresh⟩
  · have hclose :
        ∀ b sub, (∀ x, ((s.server.closeStream b sub).hub.set x).Sublist (s.server.hub.set x)) :=
      fun b sub x => unsubscribe_sublist s.server.hub b x sub
    cases a with
    | arrive id req => exact h
    | handle id env =>
      refine handle_entitled hm env (fun w hw hc => ?_) h
      rw [hpend w (List.mem_of_find?_eq_some hw)] at hc
      cases hc
    | drop id => exact h
    | admin authorization route env => exact absurd rfl (hno authorization route env)
    | reclaim policy nowMs =>
      refine entitled_sublist h hcred fun b => ?_
      rw [show (s.act host (.reclaim policy nowMs)).server.hub = s.server.hub from
        congrArg Prod.fst (reclaim_wire policy nowMs s.server).1]
    | reap ttlMs nowMs =>
      refine entitled_sublist h hcred fun b => ?_
      rw [show (s.act host (.reap ttlMs nowMs)).server.hub = s.server.hub from
        congrArg Prod.fst (reap_wire ttlMs nowMs s.server).1]
    | close b sub => exact entitled_sublist h hcred (hclose b sub)
    | heartbeat b sub =>
      refine entitled_sublist h hcred fun x => ?_
      show ((s.server.heartbeat s.cfg b sub).hub.set x).Sublist _
      unfold Server.heartbeat
      split
      · split
        · exact List.Sublist.refl _
        · exact hclose b sub x
      · exact List.Sublist.refl _

/-- Nobody but live streams is sent anything. -/
theorem act_delivered (host : Host) (s : State) (a : Action) : ∃ told,
    (s.act host a).server.delivered = s.server.delivered ++ told ∧
    ∀ p ∈ told, ∃ b, p.1 ∈ s.server.hub.set b := by
  have hnone : ∀ {w : Server}, w.delivered = s.server.delivered → ∃ told,
      w.delivered = s.server.delivered ++ told ∧ ∀ p ∈ told, ∃ b,
        p.1 ∈ s.server.hub.set b := fun e =>
    ⟨[], by rw [e, List.append_nil], fun p hp => nomatch hp⟩
  cases htears : a.tears with
  | false => exact (act_hubStep host s htears).told
  | true =>
    cases a with
    | close b sub => exact hnone rfl
    | heartbeat b sub =>
      refine hnone (?_ : (s.server.heartbeat s.cfg b sub).delivered = s.server.delivered)
      rw [heartbeat_hub]
    | _ => cases htears

end Act

/-! ## Turns -/

/-- What holds between the turns of a per-account process: no stream's request
waits, and every live stream is of an active credential. -/
structure Streaming (s : State) : Prop where
  mode : s.cfg.authMode = .perAccount
  idle : ∀ w ∈ s.pending, connects w.route = false
  entitled : Entitled s.server

section Turn
variable {host : Host} {s : State}

/-- A request that waits after another has arrived. -/
theorem mem_arrived {id : Nat} {req : Request} {w : Waiting}
    (hw : w ∈ (s.act host (.arrive id req)).pending) :
    w ∈ s.pending ∨ ∃ c, authenticate s.cfg host s.server.db req.authorization = .ok c ∧
    w = ⟨id, c, req.route⟩ := by
  have hw : w ∈ s.queue host (.arrive id req) := hw
  simp only [State.queue] at hw
  cases hauth : authenticate s.cfg host s.server.db req.authorization with
  | error r =>
    rw [hauth] at hw
    exact .inl hw
  | ok c =>
    rw [hauth] at hw
    rcases List.mem_append.1 hw with hold | hnew
    · exact .inl hold
    · exact .inr ⟨c, rfl, List.mem_singleton.1 hnew⟩

theorem act_idle {a : Action} (hpark : a.parks = false)
    (h : ∀ w ∈ s.pending, connects w.route = false) :
    ∀ w ∈ (s.act host a).pending, connects w.route = false := by
  intro w hw
  cases a with
  | arrive id req =>
    rcases mem_arrived hw with hold | ⟨c, -, rfl⟩
    · exact h w hold
    · exact hpark
  | handle id env => exact h w (List.mem_filter.1 hw).1
  | drop id => exact h w (List.mem_filter.1 hw).1
  | _ => exact h w hw

theorem streaming_turn (t : Turn) (hspares : s.sparesStreams host t) (h : Streaming s) :
    Streaming (s.turn host t) := by
  cases t with
  | act a hpark =>
    exact ⟨h.mode, act_idle hpark h.idle, act_entitled h.mode hpark h.idle hspares h.entitled⟩
  | connect id authorization query env =>
    refine ⟨h.mode, fun w hw => ?_,
      handle_entitled (s := s.act host _) h.mode env (fun w hw hc => ?_) h.entitled⟩
    · have hw : w ∈ (s.act host (.arrive id ⟨authorization, .events query⟩)).pending.filter
        fun w => decide (w.id ≠ id) := hw
      obtain ⟨hmem, hne⟩ := List.mem_filter.1 hw
      rcases mem_arrived hmem with hold | ⟨c, -, rfl⟩
      · exact h.idle w hold
      · simp at hne
    · rcases mem_arrived (List.mem_of_find?_eq_some hw) with hold | ⟨c, hauth, rfl⟩
      · rw [h.idle w hold] at hc
        cases hc
      · obtain ⟨r, hr, hmem, hact⟩ := authenticate_active h.mode hauth
        exact ⟨r, hmem, hr, hact⟩

/-- The turns that keep the streams backed. -/
theorem entitled_turn (t : Turn) (h : Streaming s) :
    Entitled (s.turn host t).server ↔ s.sparesStreams host t := by
  refine ⟨fun hb => ?_, fun hspares => (streaming_turn t hspares h).entitled⟩
  match t with
  | .connect _ _ _ _ => trivial
  | .act a hpark =>
    cases a with
    | admin authorization route env =>
      cases route with
      | enroll body =>
        intro a d ⟨hproof, hfresh⟩ c hc hof hact b sub hsub hid
        have hrun : (s.act host (.admin authorization (.enroll body) env)).server =
            { s.server with db := issued host env s.server.db a d } := by
          rw [act_admin]
          unfold handleAdmin
          rw [if_pos (by simp [AdminRoute.mounted, h.mode])]
          exact enroll_accepts s.cfg host env s.server hproof hfresh
        have hstranded := superseded_stranded host
          (fun x hx => (hfresh x hx).2) hc hof hact hsub hid
        rw [← hrun] at hstranded
        exact hstranded hb
      | _ => trivial
    | _ => trivial

theorem turn_delivered (t : Turn) (h : Streaming s) : ∃ told,
    (s.turn host t).server.delivered = s.server.delivered ++ told ∧
      ∀ p ∈ told, ∃ c ∈ s.server.db.deviceCredentials.rows, p.1.credentialId = some c.credentialId ∧
      c.active = true := by
  obtain ⟨told, htold, hlive⟩ : ∃ told, (s.turn host t).server.delivered =
      s.server.delivered ++ told ∧
      ∀ p ∈ told, ∃ b, p.1 ∈ s.server.hub.set b := by
    cases t with
    | act a hpark => exact act_delivered host s a
    | connect id authorization query env =>
      exact act_delivered host
        (s.act host (.arrive id ⟨authorization, .events query⟩)) (.handle id env)
  refine ⟨told, htold, fun p hp => ?_⟩
  obtain ⟨b, hb⟩ := hlive p hp
  obtain ⟨c, hc, hid, -, hact⟩ := h.entitled b p.1 hb
  exact ⟨c, hc, hid, hact⟩

end Turn

/-! ## Runs -/

/-- **Live streams and their credentials.** One per-account process, from its
start on any volume, over any run of turns in which no device is enrolled again
while a stream of it is live. Between two turns every live stream is of an
active credential of its account. A nudge is sent to streams only whose
credential was active before the write. And the next turn leaves every live
stream an active credential exactly if it enrolls no device over a live stream. -/
theorem live_streams (host : Host) (cfg : Config) (volume : Server) (ts : List Turn)
    (hm : cfg.authMode = .perAccount)
    (h : AllSteps (State.turn host) (fun s t => s.sparesStreams host t) (State.up cfg volume) ts) :
    (∀ before after, ts = before ++ after →
      Entitled (run (State.turn host) (State.up cfg volume) before).server) ∧
    (∀ before t after, ts = before ++ t :: after →
      let s := run (State.turn host) (State.up cfg volume) before
      ∃ told, (s.turn host t).server.delivered = s.server.delivered ++ told ∧
        ∀ p ∈ told, ∃ c ∈ s.server.db.deviceCredentials.rows,
          p.1.credentialId = some c.credentialId ∧ c.active = true) ∧
    ∀ t, Entitled ((run (State.turn host) (State.up cfg volume) ts).turn host t).server ↔
      (run (State.turn host) (State.up cfg volume) ts).sparesStreams host t := by
  have hup : Streaming (State.up cfg volume) := by
    refine ⟨hm, fun w hw => ?_, fun a sub hsub => ?_⟩
    · cases hw
    · cases hsub
  have hrun : ∀ before after, ts = before ++ after →
      Streaming (run (State.turn host) (State.up cfg volume) before) := by
    intro before after e
    rw [e] at h
    exact run_inv_of (fun s t hs hk => streaming_turn t hs hk) before _ (allSteps_append.1 h).1 hup
  refine ⟨fun before after e => (hrun before after e).entitled,
    fun before t after e => ?_, fun t => ?_⟩
  · exact turn_delivered t (hrun before (t :: after) e)
  · exact entitled_turn t (hrun ts [] (List.append_nil ts).symm)

/-! ## A device enrolls again -/

/-- The account `a` is created, and its device `d` enrolled as `c`. -/
def enrolledTurns : List Turn := enrolled.pmap Turn.act (by decide)

/-- The device opens its stream, with the secret of this digit. -/
def opensStream (digit : Char) : Turn :=
  .connect 0 (some ("Bearer gvc_" ++ sampleSecret digit))
    (fun k => if k = "accountId" then some (.str "a") else none)
    (drawing "-" '-')

def enrollsAgain : Turn :=
  .act (.admin none
    (.enroll
      (.json (.obj [("accountKey", .str ("gvk_" ++ sampleSecret '2')), ("deviceId", .str "d")])))
    (drawing "c1" '1')) rfl

/-- The device writes a row by its new credential. -/
def writesRow : List Turn :=
  [.act (.arrive 1 ⟨some ("Bearer gvc_" ++ sampleSecret '1'), .syncBatch "dayglance" (.json (.obj
      [("accountId", .str "a"),
        ("rows", .arr [.obj [("entityId", .str "e"), ("envelope", .str "")]])]))⟩) rfl,
    .act (.handle 1 (drawing "-" '-')) rfl]

/-- The device is enrolled again while its stream is live: the stream of the
revoked credential is told of the write. -/
theorem stream_outlives_credential :
    let s := run (State.turn sampleHost) (State.up keyedConfig .fresh)
      (enrolledTurns ++ [opensStream '0', enrollsAgain] ++ writesRow)
    s.server.hub.set "a" = [⟨1, some "c"⟩] ∧ s.server.delivered =
      [(⟨1, some "c"⟩, ⟨1, some "dayglance"⟩)] ∧
      s.server.db.deviceCredentials.rows.map
        (fun c => (c.credentialId, c.active)) = [("c", false), ("c1", true)] ∧
      ¬ Entitled s.server := by
  intro s
  have hlive : s.server.hub.set "a" = [⟨1, some "c"⟩] := by decide +kernel
  have hrows : s.server.db.deviceCredentials.rows.map (fun c => (c.credentialId, c.active)) =
      [("c", false), ("c1", true)] := by decide +kernel
  refine ⟨hlive, by decide +kernel, hrows, fun h => ?_⟩
  obtain ⟨c, hc, hid, -, hact⟩ :=
    h "a" ⟨1, some "c"⟩ (by rw [hlive]; exact List.mem_singleton.2 rfl)
  have hpair : ("c", true) ∈ s.server.db.deviceCredentials.rows.map fun c =>
      (c.credentialId, c.active) :=
    List.mem_map.2 ⟨c, hc, Prod.ext (Option.some.inj hid).symm hact⟩
  rw [hrows] at hpair
  exact absurd hpair (by decide)

theorem spares_quiet {host : Host} {s : State} (h : s.server.hub.byAccount.rows = []) (t : Turn) :
    s.sparesStreams host t := by
  have hnone : ∀ b, s.server.hub.set b = [] := fun b => by
    unfold Hub.set
    rw [Table.find_none.2 fun r hr => by rw [h] at hr; cases hr]
    rfl
  match t with
  | .connect _ _ _ _ => trivial
  | .act a _ =>
    cases a with
    | admin authorization route env =>
      cases route with
      | enroll body =>
        intro a d _ c _ _ _ b sub hsub
        rw [hnone b] at hsub
        cases hsub
      | _ => trivial
    | _ => trivial

/-- The device closes its stream first, and opens one by the new credential. -/
theorem live_streams_reopened :
    let s := run (State.turn sampleHost) (State.up keyedConfig .fresh)
      (enrolledTurns ++ [opensStream '0', .act (.close "a" ⟨1, some "c"⟩) rfl,
        enrollsAgain, opensStream '1'])
    s.server.hub.set "a" = [⟨2, some "c1"⟩] ∧ Entitled s.server := by
  intro s
  have hspares : AllSteps (State.turn sampleHost) (fun s t => s.sparesStreams sampleHost t)
      (State.up keyedConfig .fresh)
      (enrolledTurns ++ [opensStream '0', .act (.close "a" ⟨1, some "c"⟩) rfl, enrollsAgain,
        opensStream '1']) :=
    ⟨trivial, spares_quiet (by decide +kernel) _, trivial, trivial,
      spares_quiet (by decide +kernel) _, trivial, trivial⟩
  obtain ⟨hentitled, -, -⟩ := live_streams sampleHost keyedConfig .fresh _ rfl hspares
  exact ⟨by decide +kernel, hentitled _ [] (List.append_nil _).symm⟩

end GlanceVault.L4
