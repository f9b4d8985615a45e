import GlanceVault.L3Http.Revocation
import GlanceVault.L4System.Operations
import GlanceVault.L4System.Possession
/-!
# Revocation, deletion and requests in flight

A request is checked against its credential when its headers arrive, and
handled when its body has been read. A revocation or a deletion in between
does not reach it.

* `spent_act`, `vacant_act`: one action.
* `revocation_final`: a spent credential brings no further request into
  flight; a vacant account without requests in flight stays vacant until it is
  created or enrolled; what spends a credential, what vacates an account.
* `batch_outlives_account`: a request in flight writes for a deleted account.
-/
namespace GlanceVault.L4
open GlanceVault.Core GlanceVault.L1 GlanceVault.L2 GlanceVault.L3

def Waiting.actsBy (w : Waiting) (id : String) : Bool :=
  w.credential.any fun c => c.credentialId = id

def Waiting.ofAccount (w : Waiting) (a : String) : Bool := w.credential.any fun c => c.accountId = a

/-- The id an operator's request may give to a new credential. -/
def Action.mints : Action → Option String
  | .admin _ _ env => some env.uuid
  | _ => none

/-- The action creates or enrolls the account. -/
def State.founds (host : Host) (s : State) (act : Action) (a : String) : Bool :=
  match act with
  | .admin authorization route env =>
    (finish (handleAdmin s.cfg host env authorization route s.server)).founds a
  | _ => false

/-- The action handles a request of the account. -/
def State.handlesFor (s : State) (act : Action) (a : String) : Bool :=
  match act with
  | .handle id _ => (s.waiting id).any fun w => w.ofAccount a
  | _ => false

/-- An action that neither founds the account nor handles a request of it. -/
def State.quiet (host : Host) (s : State) (a : String) (act : Action) : Bool :=
  !s.founds host act a && !s.handlesFor act a

section Act
variable {host : Host} {s : State}

/-! ## Spent credentials -/

/-- What a request waiting after an action is: it was waiting before, or has
just been authenticated. -/
theorem mem_queue {a : Action} {w : Waiting} (h : w ∈ (s.act host a).pending) :
    w ∈ s.pending ∨ ∃ header, authenticate s.cfg host s.server.db header = .ok w.credential := by
  have h : w ∈ s.queue host a := h
  cases a with
  | arrive id req =>
    simp only [State.queue] at h
    cases ha : authenticate s.cfg host s.server.db req.authorization with
    | error r => rw [ha] at h; exact .inl h
    | ok c =>
      rw [ha] at h
      rcases List.mem_append.1 h with h | h
      · exact .inl h
      · rw [List.mem_singleton] at h
        subst h
        exact .inr ⟨req.authorization, ha⟩
  | handle id env => exact .inl (List.mem_filter.1 h).1
  | drop id => exact .inl (List.mem_filter.1 h).1
  | _ => exact .inl h

/-- In per-account mode an authenticated request carries an active credential. -/
theorem authenticate_active {cfg : Config} {db : Db} {header : Option String}
    {c : Option Credential}
    (hm : cfg.authMode = .perAccount) (h : authenticate cfg host db header = .ok c) :
    ∃ r, c = some r ∧ r ∈ db.deviceCredentials.rows ∧ r.active = true := by
  unfold authenticate at h
  rw [hm] at h
  exact credentialAuth_active h

theorem spent_act (host : Host) {a : Action} {id : String} (hm : s.cfg.authMode = .perAccount)
    (hid : a.mints ≠ some id) (h : Spent id s.server.db) :
    Spent id (s.act host a).server.db ∧ ∀ w ∈ (s.act host a).pending, w.actsBy id = true →
    w ∈ s.pending := by
  refine ⟨?_, fun w hw hby => ?_⟩
  · rcases act_registry host s a with ⟨authorization, route, env, rfl, hadm⟩ | ⟨-, -, hkeep⟩
    · exact administers_spent hadm (fun e => hid (congrArg some e)) h
    · unfold Spent
      rw [hkeep]
      exact h
  · rcases mem_queue hw with hw | ⟨header, hauth⟩
    · exact hw
    · obtain ⟨c, hc, hmem, hactive⟩ := authenticate_active hm hauth
      unfold Waiting.actsBy at hby
      rw [hc] at hby
      have hspent := h c hmem (by simpa using hby)
      rw [hactive] at hspent
      cases hspent

/-! ## Vacant accounts -/

theorem vacant_act {act : Action} {a : String} (hm : s.cfg.authMode = .perAccount)
    (hatt : s.server.db.Attached) (h : Vacant a s.server.db) (hq : s.quiet host a act = true) :
    Vacant a (s.act host act).server.db ∧ ∀ w ∈ (s.act host act).pending, w.ofAccount a = true →
    w ∈ s.pending := by
  simp only [State.quiet, Bool.and_eq_true, Bool.not_eq_true'] at hq
  obtain ⟨hf, hno⟩ := hq
  have hsame : ∀ {α : Type} {m : Handler α}, Prog.Keeps Server.db m →
      Vacant a (m s.server).state.db := fun hk => by
    rw [show (_ : Server).db = s.server.db from (hk s.server).1]
    exact h
  refine ⟨?_, fun w hw hby => ?_⟩
  · show Vacant a (s.work host act s.server).state.db
    cases act with
    | arrive id req => exact h
    | handle id env =>
      rcases work_cases host s id env with ⟨w, b, call, hw, ha, hwork⟩ | ⟨-, hwork | ⟨e, hwork⟩⟩
      · rw [hwork, Prog.state_bind_pure]
        obtain ⟨c, hc, hb⟩ := accept_bound hm ha
        have hne : b ≠ a := by
          intro e
          simp [State.handlesFor, hw, Waiting.ofAccount, hc, hb, e] at hno
        exact (perform_vacant hne s.cfg host w.credential env call).state ⟨hatt, h⟩
      · rw [hwork]
        exact h
      · rw [hwork]
        exact h
    | drop id => exact h
    | admin authorization route env =>
      rw [State.work, Prog.state_bind_pure]
      have hnot : (finish (handleAdmin s.cfg host env authorization route s.server)).founds a =
          false :=
        hf
      rcases handleAdmin_vacant authorization h with hend | ⟨r, hr, hfounds⟩
      · exact hend
      · have hfin : finish (handleAdmin s.cfg host env authorization route s.server) = r := by
          unfold finish; rw [hr]
        rw [hfin, hfounds] at hnot
        cases hnot
    | reclaim policy nowMs =>
      exact Prog.reach_inv (I := Vacant a) (fun _ _ hstep => hstep)
        ((ignore_follows (reclaimSweep_vacant (P := fun _ => True) policy nowMs)).state trivial) h
    | reap ttlMs nowMs =>
      exact Prog.reach_inv (I := Vacant a) (fun _ _ hstep => hstep)
        ((ignore_follows
          (reapUploadSessions_vacant (P := fun _ => True) ttlMs nowMs)).state trivial) h
    | close b sub => exact h
    | heartbeat b sub =>
      refine hsame (.poke fun v => ?_)
      rw [heartbeat_hub]
  · rcases mem_queue hw with hw | ⟨header, hauth⟩
    · exact hw
    · obtain ⟨c, hc, hmem, -⟩ := authenticate_active hm hauth
      simp only [Waiting.ofAccount, hc, Option.any_some, decide_eq_true_eq] at hby
      exact absurd hby (vacant_credentials h c hmem)

/-! ## What ends a credential, what ends an account -/

/-- What a successful request of the operator has ended. -/
def Ended (env : Env) (route : AdminRoute) (r : Response) (before after : Db) : Prop :=
  match route with
  | .enroll _ => ∀ a d, r.states "accountId" a = true → r.states "deviceId" d = true →
      ∀ c ∈ after.deviceCredentials.rows, ofDevice a d c = true → c.credentialId ≠ env.uuid →
        Spent c.credentialId after
  | .revoke id => Spent id after
  | .createAccount _ => True
  | .rotateKey a body => rotatesDevices body = true →
      ∀ c ∈ after.deviceCredentials.rows, c.accountId = a → Spent c.credentialId after
  | .deleteAccount a _ => Vacant a after ∧
      ∀ c ∈ before.deviceCredentials.rows, c.accountId = a → Spent c.credentialId after

/-- **What an operator's request ends.** -/
theorem admin_ends {cfg : Config} {env : Env} {authorization : Option String} {route : AdminRoute}
    {v : Server}
    {r : Response} (hr : (handleAdmin cfg host env authorization route v).result = .ok r)
    (hs : r.status < 400) :
    Ended env route r v.db (handleAdmin cfg host env authorization route v).state.db := by
  have hends : ∀ {o : Outcome Server Abort Response}, o.result = .ok r → ¬ Declined o v :=
    fun hr ⟨⟨x, hx⟩, _⟩ => by
    rw [hx] at hr
    cases hr
  rcases handleAdmin_cases cfg host env v authorization route with ⟨-, -, hbad⟩ | e
  · exact absurd (hbad r hr) (Nat.not_le.2 hs)
  rw [e] at hr ⊢
  cases route with
  | enroll body =>
    rcases enroll_cases cfg host env v body with h | ⟨a, d, -, -, hstate, x, hx, hfounds, hdevice⟩
    · exact absurd h (hends hr)
    · have hxr : x = r := Except.ok.inj (hx.symm.trans hr)
      subst hxr
      intro a' d' ha hd c hc hof hne
      have hfounds : x.states "accountId" a = true := (Bool.and_eq_true_iff.1 hfounds).2
      rw [Response.states_unique ha hfounds, Response.states_unique hd hdevice] at hof
      rw [AdminRoute.perform, hstate] at hc ⊢
      exact spent_of_inactive hc (issued_spends hc hof hne)
  | revoke id =>
    have hdb : ((AdminRoute.revoke id).perform cfg host env v).state.db =
        v.db.revokeWhere (fun c => c.credentialId = id) (env.clock 0) := by
      rcases revokeCredential_cases env v id with h | ⟨-, h⟩ <;> rw [AdminRoute.perform, h]
    intro c hc hid
    rw [hdb] at hc
    exact revokeWhere_spends hc (by simpa using hid)
  | createAccount body => trivial
  | rotateKey a body =>
    intro hdev c hc ha
    rcases rotateKeyRoute_cases host env v a body with h | ⟨-, -, hstate, -⟩
    · exact absurd h (hends hr)
    · rw [AdminRoute.perform, hstate, hdev] at hc ⊢
      exact spent_of_inactive hc (rotated_spends hc ha)
  | deleteAccount a body =>
    rcases deleteAccountRoute_cases v a body with h | ⟨-, hdb, -⟩
    · exact absurd h (hends hr)
    · rw [AdminRoute.perform, hdb]
      exact ⟨without_self v.db a, fun c hc ha => without_spends hc ha⟩

end Act

/-! ## Runs -/

theorem spent_run {host : Host} {s : State} {id : String} (hm : s.cfg.authMode = .perAccount)
    (h : Spent id s.server.db) {as : List Action} (has : ∀ a ∈ as, a.mints ≠ some id) :
    Spent id (run (State.act host) s as).server.db ∧
      ∀ w ∈ (run (State.act host) s as).pending, w.actsBy id = true → w ∈ s.pending := by
  induction as generalizing s with
  | nil => exact ⟨h, fun w hw _ => hw⟩
  | cons a as ih =>
    obtain ⟨h1, h2⟩ := spent_act host hm (has a List.mem_cons_self) h
    obtain ⟨h3, h4⟩ := ih (s := s.act host a) hm h1 fun b hb => has b (List.mem_cons_of_mem _ hb)
    exact ⟨h3, fun w hw hby => h2 w (h4 w hw hby) hby⟩

theorem vacant_run {host : Host} {s : State} {a : String} (hm : s.cfg.authMode = .perAccount)
    (hgen : Genuine host.sha256Hex s.sent s.server.media) (h : Vacant a s.server.db)
    {as : List Action}
    (has : AllSteps (State.act host) (fun t act => t.quiet host a act = true) s as) :
    Vacant a (run (State.act host) s as).server.db ∧
      ∀ w ∈ (run (State.act host) s as).pending, w.ofAccount a = true → w ∈ s.pending := by
  induction as generalizing s with
  | nil => exact ⟨h, fun w hw _ => hw⟩
  | cons act as ih =>
    obtain ⟨h1, h2⟩ := vacant_act hm hgen.owned h has.1
    obtain ⟨h3, h4⟩ := ih (s := s.act host act) hm (genuine_next host s (.run act) hgen) h1 has.2
    exact ⟨h3, fun w hw hby => h2 w (h4 w hw hby) hby⟩

/-- **What an operator's request ends stays ended, up to the requests in
flight.** A per-account server has seen any run, crashes included. From there:
a credential that is revoked or gone stays so, and no request comes into
flight by it; an account without rows stays so until it is created or enrolled
or a request of it in flight is handled, and no other request of it comes into
flight; and a revoke, an enrollment, a rotation that signs out the devices and
a delete that succeed have spent the credentials they are about, a delete has
left no row of the account in any table. -/
theorem revocation_final (host : Host) (cfg : Config) (es : List Event)
    (hmode : (State.after host cfg es).cfg.authMode = .perAccount) :
    (∀ as id, Spent id (State.after host cfg es).server.db → (∀ act ∈ as, act.mints ≠ some id) →
      Spent id (run (State.act host) (State.after host cfg es) as).server.db ∧
      ∀ w ∈ (run (State.act host) (State.after host cfg es) as).pending, w.actsBy id = true →
        w ∈ (State.after host cfg es).pending) ∧
    (∀ as a, Vacant a (State.after host cfg es).server.db →
      AllSteps (State.act host) (fun t act => t.quiet host a act = true)
        (State.after host cfg es) as →
      Vacant a (run (State.act host) (State.after host cfg es) as).server.db ∧
      ∀ w ∈ (run (State.act host) (State.after host cfg es) as).pending, w.ofAccount a = true →
        w ∈ (State.after host cfg es).pending) ∧
    ∀ authorization route env r,
      (handleAdmin (State.after host cfg es).cfg host env authorization route
        (State.after host cfg es).server).result =
        .ok r → r.status < 400 →
      Ended env route r (State.after host cfg es).server.db
        ((State.after host cfg es).act host (.admin authorization route env)).server.db := by
  refine ⟨fun as id h has => spent_run hmode h has, fun as a h has => ?_,
    fun authorization route env r hr hs => ?_⟩
  · exact vacant_run hmode (genuine_after host cfg es) h has
  · have hact : ((State.after host cfg es).act host (.admin authorization route env)).server =
        (handleAdmin (State.after host cfg es).cfg host env authorization route
          (State.after host cfg es).server).state := by
      show (State.work host _ (.admin authorization route env) _).state = _
      rw [State.work, Prog.state_bind_pure]
    rw [hact]
    exact admin_ends hr hs

/-! ## A deleted account -/

/-- A server whose accounts have keys. -/
def keyedConfig : Config :=
  { sampleConfig with
    authMode := .perAccount, enrollmentMode := .accountKey,
    enrollmentSecret := "secret" }

/-- The surroundings of a handler that draws an id and a secret. -/
def drawing (uuid : String) (digit : Char) : Env :=
  ⟨fun _ => "2025-01-01T00:00:00.000Z", "2025-01-01T00:00:00.000Z", uuid,
    sampleSecret digit, fun _ => false⟩

/-- The account `a` is created, and a device of it enrolled under the id `c`. -/
def enrolled : List Action :=
  [.admin (some "Bearer secret") (.createAccount (.json (.obj [("accountId", .str "a")])))
    (drawing "-" '2'),
    .admin none
      (.enroll
        (.json (.obj [("accountKey", .str ("gvk_" ++ sampleSecret '2')), ("deviceId", .str "d")])))
      (drawing "c" '0')]

/-- The device sends a batch of one row. -/
def sendsBatch (id : Nat) : Action :=
  .arrive id ⟨some ("Bearer gvc_" ++ sampleSecret '0'), .syncBatch "dayglance" (.json (.obj
    [("accountId", .str "a"),
      ("rows", .arr [.obj [("entityId", .str "e"), ("envelope", .str "")]])]))⟩

def deletion : Action :=
  .admin (some "Bearer secret")
    (.deleteAccount "a" (.json (.obj [("confirm", .str "a")]))) (drawing "-" '2')

/-- The batch is in flight when the account is deleted, and is handled after
it: a row of the deleted account. -/
theorem batch_outlives_account :
    let s := State.running sampleHost keyedConfig (enrolled ++ [sendsBatch 0])
    let late := Action.handle 0 (drawing "-" '1')
    (s.answer sampleHost deletion).map (·.status) = some 200 ∧
      ((s.act sampleHost deletion).answer sampleHost late).map (·.status) = some 200 ∧
      (s.act sampleHost deletion).founds sampleHost late "a" = false ∧
      ¬ Vacant "a" ((s.act sampleHost deletion).act sampleHost late).server.db := by
  intro s late
  refine ⟨by decide +kernel, by decide +kernel, by decide +kernel, fun h => ?_⟩
  have hrows := congrArg (fun db : Db => db.syncRows.rows.length) h
  have hone : ((((s.act sampleHost deletion).act sampleHost late).server.db.tenant
      "a").syncRows.rows.length) = 1 := by
    decide +kernel
  exact absurd (hone.symm.trans hrows) (by decide)

/-- Without a request in flight, the deleted account keeps no row, and its
device gets no further request in. -/
theorem revocation_final_deleted :
    let s := State.after sampleHost keyedConfig ((enrolled ++ [deletion]).map .run)
    let t := run (State.act sampleHost) s [sendsBatch 0, .handle 0 (drawing "-" '1')]
    Vacant "a" s.server.db ∧ Spent "c" s.server.db ∧ Vacant "a" t.server.db ∧
      Spent "c" t.server.db ∧
      ∀ w ∈ t.pending, w.actsBy "c" = false := by
  intro s t
  obtain ⟨-, -, hend⟩ :=
    revocation_final sampleHost keyedConfig (enrolled.map .run) (by decide +kernel)
  have hdeleted :
      Ended (drawing "-" '2') (.deleteAccount "a" (.json (.obj [("confirm", .str "a")])))
      _ _ s.server.db := hend (some "Bearer secret") _ (drawing "-" '2') _
        (by rfl) (by decide +kernel)
  obtain ⟨hvac, hspends⟩ := hdeleted
  have hspent : Spent "c" s.server.db := by
    have hrows :
        ((State.after sampleHost keyedConfig
          (enrolled.map .run)).server.db.deviceCredentials.rows.map
        fun c => (c.credentialId, c.accountId)) = [("c", "a")] := by decide +kernel
    obtain ⟨x, hx, e⟩ := List.mem_map.1 (hrows ▸ List.mem_singleton.2 rfl :
      ("c", "a") ∈ (State.after sampleHost keyedConfig
        (enrolled.map .run)).server.db.deviceCredentials.rows.map
        fun c => (c.credentialId, c.accountId))
    have hid : x.credentialId = "c" := congrArg Prod.fst e
    have hspent := hspends x hx (congrArg Prod.snd e)
    rwa [hid] at hspent
  obtain ⟨hspends, hvacs, -⟩ :=
    revocation_final sampleHost keyedConfig ((enrolled ++ [deletion]).map .run) (by decide +kernel)
  obtain ⟨h1, h2⟩ := hspends [sendsBatch 0, .handle 0 (drawing "-" '1')] "c" hspent (by decide)
  obtain ⟨h3, -⟩ := hvacs [sendsBatch 0, .handle 0 (drawing "-" '1')] "a" hvac (by decide +kernel)
  refine ⟨hvac, hspent, h3, h1, fun w hw => ?_⟩
  have hnone : s.pending.length = 0 := by decide +kernel
  cases hby : w.actsBy "c" with
  | false => rfl
  | true =>
    have hmem := h2 w hw hby
    rw [List.eq_nil_of_length_eq_zero hnone] at hmem
    cases hmem

end GlanceVault.L4
