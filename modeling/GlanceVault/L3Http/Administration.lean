import GlanceVault.L2Storage.Accounts
import GlanceVault.L3Http.Tenants
/-!
# What an operator's request does

Each route of `routes/enroll.ts` and `routes/admin.ts` ends early and changes
nothing, or commits one transaction on the registry and then ends the streams
of the credentials it reports.

* `enroll_cases`, `revokeCredential_cases`, `createAccountRoute_cases`,
  `rotateKeyRoute_cases`, `deleteAccountRoute_cases`: the outcome of each route.
* `handleAdmin_cases`: behind the guard, or nothing.
* `Administers`, `handleAdmin_administers`: all that a request may leave.
* `enroll_accepts`: which enrollments are carried out.
* `set_disconnects`: who is left when the streams of some credentials are ended.
-/
namespace GlanceVault.L3
open GlanceVault.Core GlanceVault.L1 GlanceVault.L1.Js GlanceVault.L2

/-- The credential is revoked, or not there. -/
def Spent (id : String) (db : Db) : Prop :=
  ∀ c ∈ db.deviceCredentials.rows, c.credentialId = id → c.active = false

/-- A text field of a JSON response. -/
def Response.states (r : Response) (name value : String) : Bool :=
  match r.payload with
  | .json (.obj fields) =>
    match fields.lookup name with
    | some (.str v) => decide (v = value)
    | _ => false
  | _ => false

/-- The response says that the account was created or enrolled. -/
def Response.founds (r : Response) (a : String) : Bool :=
  decide (r.status = 201) && r.states "accountId" a

theorem Response.states_unique {r : Response} {name x y : String} (hx : r.states name x = true)
    (hy : r.states name y = true) : x = y := by
  unfold Response.states at hx hy
  split at hx
  · rename_i hp
    rw [hp] at hy
    dsimp only at hy
    split at hx
    · rename_i hv
      rw [hv] at hy
      exact (of_decide_eq_true hx).symm.trans (of_decide_eq_true hy)
    · cases hx
  · cases hx

/-- The handler ended early and changed nothing. -/
def Declined {α : Type} (o : Outcome Server Abort α) (v : Server) : Prop :=
  (∃ x, o.result = .error x) ∧ o.state = v

section Steps
variable {α β : Type} (v : Server)

theorem ofExcept_cases (x : Except Abort α) (f : α → Handler β) :
    Declined ((Prog.ofExcept x >>= f) v) v ∨ ∃ a, x = .ok a ∧
    (Prog.ofExcept x >>= f) v = f a v := by
  cases x with
  | ok a => exact .inr ⟨a, rfl, rfl⟩
  | error e => exact .inl ⟨⟨e, rfl⟩, rfl⟩

/-- A transaction fails and leaves no trace, or commits. -/
theorem exec_cases (m : DbTx α) (f : α → Handler β) :
    Declined ((exec m >>= f) v) v ∨ ∃ a db, m.eval v.db = .ok (a, db) ∧
      ((exec m >>= f) v).state = (f a { v with db := db }).state ∧
      ((exec m >>= f) v).result = (f a { v with db := db }).result := by
  rw [Prog.bind_run]
  cases he : m.eval v.db with
  | error e =>
    rw [exec_fails he]
    exact .inl ⟨⟨_, rfl⟩, rfl⟩
  | ok r =>
    rw [exec_run he]
    exact .inr ⟨r.1, r.2, rfl, rfl, rfl⟩

end Steps

section Routes
variable (cfg : Config) (host : Host) (env : Env) (v : Server)

/-! ## Enrollment -/

/-- The credential an enrollment draws. -/
def drawn (host : Host) (env : Env) (a d : String) : Credential :=
  ⟨env.uuid, a, d, host.hashText ("gvc_" ++ env.secret), env.clock 0, none⟩

/-- The store with a new credential for a device, its predecessors revoked. -/
def issued (host : Host) (env : Env) (db : Db) (a d : String) : Db :=
  (db.revokeWhere (ofDevice a d) (env.clock 0)).putCredential (drawn host env a d)

/-- The body of an enrollment, its account and its device. -/
def Enrolls (cfg : Config) (host : Host) (db : Db) (body : Body) (a d : String) : Prop :=
  ∃ b, (jsonBody body).map orEmpty = .ok b ∧ enrollmentAccount cfg host db b = .ok a ∧
    b.field "deviceId" = .ok (some (.str d)) ∧ isBlank d = false

theorem enroll_cases (body : Body) : Declined (enroll cfg host env body v) v ∨ ∃ a d,
    Enrolls cfg host v.db body a d ∧
    (∀ c ∈ v.db.deviceCredentials.rows, c.credentialHash ≠ (drawn host env a d).credentialHash ∧
      c.credentialId ≠ env.uuid) ∧
    (enroll cfg host env body v).state = { v with db := issued host env v.db a d } ∧
    ∃ r, (enroll cfg host env body v).result = .ok r ∧ r.founds a = true ∧
      r.states "deviceId" d = true := by
  unfold enroll
  rcases ofExcept_cases v ((jsonBody body).map orEmpty) _ with h | ⟨b, hb, e⟩
  · exact .inl h
  rw [e]
  unfold readDb
  rw [Prog.get_bind]
  rcases ofExcept_cases v (enrollmentAccount cfg host v.db b) _ with h | ⟨a, ha, e⟩
  · exact .inl h
  rw [e]
  rcases ofExcept_cases v
    (do requiredText (← field b "deviceId") "deviceId is required") _ with h | ⟨d, hd, e⟩
  · exact .inl h
  rw [e]
  rcases exec_cases v (issueCredential env.uuid a d (host.hashText ("gvc_" ++ env.secret))
    (env.clock 0)) _ with
    h | ⟨r, db, he, hs, hr⟩
  · exact .inl h
  obtain ⟨hrec, hfresh, rfl⟩ := issueCredential_eval he
  have hfield : b.field "deviceId" = .ok (some (.str d)) ∧ isBlank d = false := by
    unfold field at hd
    cases hf : b.field "deviceId" with
    | error x => rw [hf] at hd; cases hd
    | ok w =>
      rw [hf] at hd
      obtain ⟨hw, hblank⟩ := requiredText_ok.1 hd
      exact ⟨by rw [hw], hblank⟩
  refine .inr ⟨a, d, ⟨b, hb, ha, hfield⟩, hfresh, hs, _, hr, ?_, ?_⟩
  · simp [Response.founds, Response.states, Response.json, List.lookup_cons, hrec]
  · simp [Response.states, Response.json, List.lookup_cons, hrec]

/-- An enrollment that draws a new id and a new secret is carried out. -/
theorem enroll_accepts {body : Body} {a d : String} (h : Enrolls cfg host v.db body a d)
    (hfresh : ∀ c ∈ v.db.deviceCredentials.rows,
      c.credentialHash ≠ (drawn host env a d).credentialHash ∧ c.credentialId ≠ env.uuid) :
    (enroll cfg host env body v).state = { v with db := issued host env v.db a d } := by
  obtain ⟨b, hb, ha, hd, hblank⟩ := h
  have hdevice :
      (do requiredText (← field b "deviceId") "deviceId is required" : Except Abort String) =
        .ok d := by
    unfold field
    rw [hd]
    exact requiredText_ok.2 ⟨rfl, hblank⟩
  have hinsert : (insertCredential (drawn host env a d)).eval
      (v.db.revokeWhere (ofDevice a d) (env.clock 0)) =
      .ok ((), issued host env v.db a d) := by
    have hnew : ∀ x ∈ (v.db.revokeWhere (ofDevice a d) (env.clock 0)).deviceCredentials.rows,
        x.credentialHash ≠ (drawn host env a d).credentialHash ∧ x.credentialId ≠ env.uuid := by
      intro x hx
      obtain ⟨c, hc, rfl⟩ := mem_revokeWhere.1 hx
      split <;> exact hfresh c hc
    unfold insertCredential
    rw [Tx.eval_stmt, if_neg, Table.insertNew_of_fresh
      (Table.has_eq_false.2 (Table.find_none.2 fun x hx => (hnew x hx).2))]
    · rfl
    · intro hany
      obtain ⟨x, hx, e⟩ := List.any_eq_true.1 hany
      exact (hnew x hx).1 (by simpa using e)
  have hissue :
      ∃ r, (issueCredential env.uuid a d (host.hashText ("gvc_" ++ env.secret))
        (env.clock 0)).eval v.db =
      .ok (r, issued host env v.db a d) := by
    unfold issueCredential
    rw [Tx.eval_bind, Tx.eval_write]
    dsimp only
    rw [Tx.eval_bind]
    have hinsert' :
        (insertCredential ⟨env.uuid, a, d, host.hashText ("gvc_" ++ env.secret),
          env.clock 0, none⟩).eval
        (v.db.revokeWhere (ofDevice a d) (env.clock 0)) = .ok
          ((), issued host env v.db a d) := hinsert
    rw [hinsert']
    exact ⟨_, rfl⟩
  obtain ⟨r, hissue⟩ := hissue
  unfold enroll readDb
  rw [hb]
  show ((Prog.ofExcept (enrollmentAccount cfg host v.db b) >>= _) v).state = _
  rw [ha]
  show ((Prog.ofExcept
    (do requiredText (← field b "deviceId") "deviceId is required") >>= _) v).state = _
  rw [hdevice]
  show ((exec _ >>= _) v).state = _
  rw [Prog.bind_run, exec_run hissue]
  rfl

/-! ## Revocation -/

/-- The hub when the streams of some credentials are ended. -/
def Hub.disconnects (hub : Hub) (ids : List String) : Hub := ids.foldl Hub.disconnectCredential hub

theorem Hub.set_disconnects (b : String) : ∀ (ids : List String) (hub : Hub),
    (hub.disconnects ids).set b = (hub.set b).filter fun x => !ids.any fun id => decide
    (x.credentialId = some id)
  | [], hub => (List.filter_eq_self.2 fun x _ => rfl).symm
  | id :: ids, hub => by
    show ((hub.disconnectCredential id).disconnects ids).set b = _
    rw [set_disconnects b ids, Hub.set_disconnect, List.filter_filter]
    refine List.filter_congr fun x _ => ?_
    rw [List.any_cons, Bool.not_or, Bool.and_comm]

theorem Hub.mem_disconnects {b : String} {ids : List String} {hub : Hub} {x : Subscriber} :
    x ∈ (hub.disconnects ids).set b ↔ x ∈ hub.set b ∧ ∀ id ∈ ids, x.credentialId ≠ some id := by
  rw [Hub.set_disconnects, List.mem_filter]
  simp

theorem onRevoked_each : ∀ (ids : List String) (v : Server),
    Prog.each onRevoked ids v = ⟨.ok (), { v with hub := v.hub.disconnects ids }, []⟩
  | [], _ => rfl
  | id :: ids, v => by
    rw [Prog.each, Prog.bind_run]
    show Outcome.mk _ _ _ = _
    rw [onRevoked_each ids]
    rfl

theorem onRevoked_then {α : Type} (ids : List String) (f : Handler α) (v : Server) :
    ((do Prog.each onRevoked ids; f) v).state = (f { v with hub := v.hub.disconnects ids }).state ∧
    ((do Prog.each onRevoked ids; f) v).result =
      (f { v with hub := v.hub.disconnects ids }).result := by
  rw [Prog.bind_run, onRevoked_each]
  exact ⟨rfl, rfl⟩

/-- A revocation stamps the row, and ends the credential's streams unless there
was nothing to stamp. -/
theorem revokeCredential_cases (id : String) :
    (revokeCredential env id v).state =
        { v with db := v.db.revokeWhere (fun c => c.credentialId = id) (env.clock 0)
                 hub := v.hub.disconnectCredential id } ∨
      (∀ c ∈ v.db.deviceCredentials.rows, c.credentialId = id → c.active = false) ∧
        (revokeCredential env id v).state =
          { v with db := v.db.revokeWhere (fun c => c.credentialId = id) (env.clock 0) } := by
  unfold revokeCredential
  have he : (stampRevoked id (env.clock 0)).eval v.db =
      .ok (v.db.deviceCredentials.count fun c => decide (c.credentialId = id) && c.active,
        v.db.revokeWhere (fun c => c.credentialId = id) (env.clock 0)) := Tx.eval_write _ _
  rw [Prog.bind_run, exec_run he]
  dsimp only
  unfold readDb
  rw [Prog.get_bind]
  by_cases hn : 0 < v.db.deviceCredentials.count fun c => decide (c.credentialId = id) && c.active
  · left
    -- the stamped row is found under its id
    obtain ⟨c, hmem⟩ := List.exists_mem_of_length_pos hn
    obtain ⟨hc, hp⟩ := List.mem_filter.1 hmem
    simp only [Bool.and_eq_true, decide_eq_true_eq] at hp
    have hcid : c.credentialId = id := hp.1
    subst hcid
    have hfind : ∃ r, getCredentialById c.credentialId
        (v.db.revokeWhere (fun x => x.credentialId = c.credentialId) (env.clock 0)) = some r ∧
        r.credentialId = c.credentialId := by
      unfold getCredentialById Db.revokeWhere
      rw [Table.find_update, Table.find_some.2 ⟨hc, rfl⟩]
      refine ⟨_, rfl, ?_⟩
      dsimp only
      split <;> rfl
    obtain ⟨r, hr, hid⟩ := hfind
    simp only [hr, if_pos hn]
    rw [← hid]
    rfl
  · right
    refine ⟨fun c hc e => ?_, ?_⟩
    · by_contra hact
      exact hn (List.length_pos_of_mem (List.mem_filter.2 ⟨hc, by simpa [e] using hact⟩))
    · cases getCredentialById id
        (v.db.revokeWhere (fun c => c.credentialId = id) (env.clock 0)) with
      | none => rfl
      | some r =>
        simp only [if_neg hn]
        rfl

/-! ## Accounts -/

/-- The key hash of the account key a request draws. -/
def drawnKeyHash (host : Host) (env : Env) : String := host.hashText ("gvk_" ++ env.secret)

theorem createAccountRoute_cases (body : Body) :
    (createAccountRoute cfg host env body v).state = v ∨
    ∃ r : Account, r.keyHash = drawnKeyHash host env ∧
      (∀ x ∈ v.db.accounts.rows, x.keyHash ≠ drawnKeyHash host env ∧ x.accountId ≠ r.accountId) ∧
      (∀ m, cfg.maxAccounts = some m → v.db.accounts.rows.length < m) ∧
      (createAccountRoute cfg host env body v).state =
        { v with db := { v.db with accounts := v.db.accounts.upsert r } } ∧
      ∃ x, (createAccountRoute cfg host env body v).result = .ok x ∧
        x.founds r.accountId = true := by
  unfold createAccountRoute
  rcases ofExcept_cases v ((jsonBody body).map orEmpty) _ with h | ⟨b, -, e⟩
  · exact .inl h.2
  rw [e]
  rcases ofExcept_cases v (do checkLabel (← field b "label")) _ with h | ⟨label, -, e⟩
  · exact .inl h.2
  rw [e]
  rcases ofExcept_cases v
    (do checkNewAccountId (← field b "accountId") ("acct_" ++ env.uuid)) _ with h | ⟨a, -, e⟩
  · exact .inl h.2
  rw [e]
  rcases exec_cases v (createAccount a label (host.hashText ("gvk_" ++ env.secret)) cfg.maxAccounts
    (env.clock 0)) _ with
    h | ⟨res, db, he, hs, hr⟩
  · exact .inl h.2
  rcases createAccount_eval he with ⟨x, rfl, rfl⟩ | ⟨rfl, hnew, hroom, rfl⟩
  · left
    rw [hs]
    cases x <;> rfl
  · refine .inr ⟨⟨a, label, drawnKeyHash host env, env.clock 0, none⟩, rfl, hnew,
      hroom, hs, _, hr, ?_⟩
    simp [Response.founds, Response.states, Response.json, accountFields]

/-- `body.revokeDevices === true` -/
def rotatesDevices (body : Body) : Bool :=
  match (jsonBody body).map orEmpty with
  | .error _ => false
  | .ok b =>
    match field b "revokeDevices" with
    | .error _ => false
    | .ok (some (.bool true)) => true
    | .ok _ => false

/-- What a rotation leaves of the store. -/
def rotated (host : Host) (env : Env) (db : Db) (a : String) (signOut : Bool) : Db :=
  if signOut then
    (db.rekey a (drawnKeyHash host env) (env.clock 0)).revokeWhere
      (fun c => c.accountId = a) (env.clock 0)
  else db.rekey a (drawnKeyHash host env) (env.clock 0)

theorem rotateKeyRoute_cases (a : String) (body : Body) :
    Declined (rotateKeyRoute host env a body v) v ∨
      (∃ x, v.db.accounts.find a = some x) ∧
      (∀ x ∈ v.db.accounts.rows, x.keyHash = drawnKeyHash host env → x.accountId = a) ∧
      (rotateKeyRoute host env a body v).state =
        { v with db := rotated host env v.db a (rotatesDevices body)
                 hub := v.hub.disconnects
                   (if rotatesDevices body then activeCredentialIds a v.db else []) } ∧
      ∃ r, (rotateKeyRoute host env a body v).result = .ok r ∧ r.status = 200 := by
  unfold rotateKeyRoute
  rcases ofExcept_cases v ((jsonBody body).map orEmpty) _ with h | ⟨b, hb, e⟩
  · exact .inl h
  rw [e]
  rcases ofExcept_cases v
    (do optionalFlag (← field b "revokeDevices") "revokeDevices must be a boolean") _ with
    h | ⟨flag, hflag, e⟩
  · exact .inl h
  rw [e]
  have hsign : decide (flag = some true) = rotatesDevices body := by
    unfold rotatesDevices
    rw [hb]
    dsimp only
    cases hf : field b "revokeDevices" with
    | error x => rw [hf] at hflag; cases hflag
    | ok w =>
      rw [hf] at hflag
      match w with
      | none => cases hflag; rfl
      | some (.bool true) => cases hflag; rfl
      | some (.bool false) => cases hflag; rfl
  rw [hsign]
  rcases exec_cases v (rotateAccountKey a (host.hashText ("gvk_" ++ env.secret))
    (rotatesDevices body) (env.clock 0)) _ with
    h | ⟨o, db, he, hs, hr⟩
  · exact .inl h
  rcases rotateAccountKey_cases he with ⟨rfl, rfl, -⟩ | ⟨r, rfl, -, hx, huniq, hids, rfl⟩
  · exact .inl ⟨⟨_, hr⟩, hs⟩
  have hend := hr.trans (onRevoked_then r.revokedCredentialIds _ _).2
  refine .inr ⟨hx, huniq, ?_, _, hend, rfl⟩
  rw [← hids]
  exact hs.trans (onRevoked_then r.revokedCredentialIds _ _).1

/-- The removal of files leaves the store and the hub. -/
theorem files_after (v : Server) (ups hashes : List String) (r : Response) :
    let o := (do
      Prog.each discardSession ups
      Prog.each deleteBytes hashes
      pure r : Handler Response) v
    o.state.db = v.db ∧ o.state.hub = v.hub ∧ ∀ x, o.result = .ok x → x = r := by
  have hfile : ∀ (x : Except String Unit) (f : Disk → Disk),
      Prog.Keeps (fun s : Server => (s.db, s.hub)) (do assert x; file f) :=
    fun x f => .bind (assert_keeps x) fun _ => file_keeps fun _ => rfl
  have hkeep : Prog.Keeps (fun s : Server => (s.db, s.hub)) (do
      Prog.each discardSession ups
      Prog.each deleteBytes hashes
      pure r : Handler Response) :=
    .bind (.each (fun u => hfile _ _) _) fun _ =>
      .bind (.each (fun h => hfile _ _) _) fun _ => .pure _
  have hends : Prog.Ends (fun _ => True) (do
      Prog.each discardSession ups
      Prog.each deleteBytes hashes
      pure r : Handler Response) fun x _ => x = r :=
    Prog.Triple.bind (Prog.Triple.any _) fun _ => Prog.Triple.bind (Prog.Triple.any _) fun _ =>
      .pure fun _ _ => rfl
  intro o
  have hk := (hkeep v).1
  exact ⟨congrArg Prod.fst hk, congrArg Prod.snd hk, fun x hx => hends.result trivial hx⟩

theorem deleteAccountRoute_cases (a : String) (body : Body) :
    Declined (deleteAccountRoute a body v) v ∨
      (∃ x, v.db.accounts.find a = some x) ∧
    (deleteAccountRoute a body v).state.db = v.db.without a ∧
      (deleteAccountRoute a body v).state.hub = v.hub.disconnects (activeCredentialIds a v.db) := by
  unfold deleteAccountRoute
  rcases ofExcept_cases v ((jsonBody body).map orEmpty) _ with h | ⟨b, hb, e⟩
  · exact .inl h
  rw [e]
  rcases ofExcept_cases v (field b "confirm") _ with h | ⟨confirm, -, e⟩
  · exact .inl h
  rw [e]
  cases hc : confirms confirm a with
  | false => exact .inl ⟨⟨_, rfl⟩, rfl⟩
  | true =>
    rcases exec_cases v (deleteAccount a) _ with h | ⟨o, db, he, hs, hr⟩
    · exact .inl h
    rw [deleteAccount_eval] at he
    cases hf : v.db.accounts.find a with
    | none =>
      rw [hf] at he
      cases he
      exact .inl ⟨⟨_, hr⟩, hs⟩
    | some record =>
      rw [hf] at he
      cases he
      have hend := hs.trans (onRevoked_then (activeCredentialIds a v.db) _ _).1
      obtain ⟨hdb, hhub, -⟩ :=
        files_after { v with
          db := v.db.without a,
          hub := v.hub.disconnects (activeCredentialIds a v.db) }
        _ _ _
      exact .inr ⟨⟨record, rfl⟩, (congrArg Server.db hend).trans hdb,
        (congrArg Server.hub hend).trans hhub⟩

/-! ## Behind the guard -/

theorem authenticate_status {db : Db} {header : Option String} {r : Response}
    (h : authenticate cfg host db header = .error r) : r.status = 401 := by
  unfold authenticate deviceTokenAuth credentialAuth at h
  repeat' split at h
  all_goals first | cases h; rfl | cases h

theorem unmounted_status (header : Option String) {r : Response}
    (h : (unmounted cfg host header v).result = .ok r) :
    400 ≤ r.status := by
  unfold unmounted readDb at h
  rw [Prog.get_bind] at h
  dsimp only at h
  cases hauth : authenticate cfg host v.db header with
  | ok c =>
    rw [hauth] at h
    cases h
    decide
  | error x =>
    rw [hauth] at h
    cases h
    rw [authenticate_status cfg host hauth]
    decide

/-- A request is answered before its route, and not with success, or by it. -/
theorem handleAdmin_cases (header : Option String) (route : AdminRoute) :
    ((handleAdmin cfg host env header route v).state = v ∧
        (route.mounted cfg = true → Declined (handleAdmin cfg host env header route v) v) ∧
        ∀ r, (handleAdmin cfg host env header route v).result = .ok r → 400 ≤ r.status) ∨
      handleAdmin cfg host env header route v = route.perform cfg host env v := by
  have hdeclined : ∀ {o : Outcome Server Abort Response}, Declined o v →
      ∀ r, o.result = .ok r → 400 ≤ r.status :=
    fun ⟨⟨x, hx⟩, _⟩ r hr => by rw [hx] at hr; cases hr
  unfold handleAdmin
  by_cases hm : route.mounted cfg = true
  · rw [if_pos hm]
    rcases ofExcept_cases v (route.guard cfg header) _ with h | ⟨u, -, e⟩
    · exact .inl ⟨h.2, fun _ => h, hdeclined h⟩
    · exact .inr e
  · rw [if_neg hm]
    left
    rcases ofExcept_cases v (if cfg.authMode = .perAccount then route.guard cfg header else .ok
      ()) _ with h | ⟨u, -, e⟩
    · exact ⟨h.2, fun hm' => absurd hm' hm, hdeclined h⟩
    · rw [e]
      exact ⟨((unmounted_frame (π := id) cfg host header) v).1, fun hm' => absurd hm' hm,
        fun r hr => unmounted_status cfg host v header hr⟩

/-- What an operator's request leaves. -/
inductive Administers (cfg : Config) (host : Host) (env : Env) (v : Server) :
    AdminRoute → Server → Prop
  | declined (route : AdminRoute) : Administers cfg host env v route v
  | enroll {body : Body} (a d : String) (proof : Enrolls cfg host v.db body a d)
      (fresh : ∀ c ∈ v.db.deviceCredentials.rows,
        c.credentialHash ≠ (drawn host env a d).credentialHash ∧ c.credentialId ≠ env.uuid) :
      Administers cfg host env v (.enroll body) { v with db := issued host env v.db a d }
  | revoke (id : String) : Administers cfg host env v (.revoke id)
      { v with db := v.db.revokeWhere (fun c => c.credentialId = id) (env.clock 0)
               hub := v.hub.disconnectCredential id }
  | revokeAgain {id : String} (spent : Spent id v.db) : Administers cfg host env v (.revoke id)
      { v with db := v.db.revokeWhere (fun c => c.credentialId = id) (env.clock 0) }
  | createAccount (body : Body) {db : Db}
    (step : AccountStep cfg.maxAccounts (drawnKeyHash host env) v.db db.accounts)
      (credentials : db.deviceCredentials = v.db.deviceCredentials)
        (rest : db.outsideRegistry = v.db.outsideRegistry) :
      Administers cfg host env v (.createAccount body) { v with db := db }
  | rotateKey {a : String} (body : Body)
      (free : ∀ x ∈ v.db.accounts.rows, x.keyHash = drawnKeyHash host env → x.accountId = a) :
      Administers cfg host env v (.rotateKey a body)
        { v with db := rotated host env v.db a (rotatesDevices body)
                 hub := v.hub.disconnects
                   (if rotatesDevices body then activeCredentialIds a v.db else []) }
  | deleteAccount {a : String} (body : Body) {v' : Server} (store : v'.db = v.db.without a)
      (streams : v'.hub = v.hub.disconnects (activeCredentialIds a v.db)) :
      Administers cfg host env v (.deleteAccount a body) v'

/-- **An operator's request, inverted.** -/
theorem handleAdmin_administers (header : Option String) (route : AdminRoute) :
    Administers cfg host env v route (handleAdmin cfg host env header route v).state := by
  rcases handleAdmin_cases cfg host env v header route with ⟨e, -⟩ | e
  · rw [e]
    exact .declined route
  rw [e]
  cases route with
  | enroll body =>
    rcases enroll_cases cfg host env v body with h | ⟨a, d, hproof, hfresh, h, -⟩
    · rw [AdminRoute.perform, h.2]
      exact .declined _
    · rw [AdminRoute.perform, h]
      exact .enroll a d hproof hfresh
  | revoke id =>
    rcases revokeCredential_cases env v id with h | ⟨hspent, h⟩
    · rw [AdminRoute.perform, h]
      exact .revoke id
    · rw [AdminRoute.perform, h]
      exact .revokeAgain hspent
  | createAccount body =>
    rcases createAccountRoute_cases cfg host env v body with h | ⟨r, hkey, hnew, hroom, h, -⟩
    · rw [AdminRoute.perform, h]
      exact .declined _
    · rw [AdminRoute.perform, h]
      exact .createAccount body (.create r hkey hnew hroom) rfl rfl
  | rotateKey a body =>
    rcases rotateKeyRoute_cases host env v a body with h | ⟨-, huniq, h, -⟩
    · rw [AdminRoute.perform, h.2]
      exact .declined _
    · rw [AdminRoute.perform, h]
      exact .rotateKey body huniq
  | deleteAccount a body =>
    rcases deleteAccountRoute_cases v a body with h | ⟨-, hdb, hhub⟩
    · rw [AdminRoute.perform, h.2]
      exact .declined _
    · exact .deleteAccount body hdb hhub

/-! ## Account keys -/

variable {cfg host env}

theorem enroll_rejects {body : Body} {b : Json} {x : Abort}
    (hb : (jsonBody body).map orEmpty = .ok b) (h : enrollmentAccount cfg host v.db b = .error x) :
    enroll cfg host env body v = ⟨.error x, v, []⟩ := by
  unfold enroll readDb
  rw [hb]
  show (Prog.ofExcept (enrollmentAccount cfg host v.db b) >>= _) v = _
  rw [h]
  rfl

section Keys
variable {db : Db} {b : Json} {key : String}

theorem accountKey_unknown (hkey : b.field "accountKey" = .ok (some (.str key)))
    (hblank : isBlank key = false) (h : getAccountByKeyHash (host.hashText key) db = none) :
    accountKeyAccount host db b = .error (.error 401 "invalid account key") := by
  unfold accountKeyAccount field requiredText
  rw [hkey]
  simp [bind, Except.bind, hblank, h]

theorem accountKey_blank (hkey : b.field "accountKey" = .ok (some (.str key)))
    (hblank : isBlank key = true) :
    accountKeyAccount host db b = .error (.error 400 "accountKey is required") := by
  unfold accountKeyAccount field requiredText
  rw [hkey]
  simp [bind, Except.bind, hblank]

theorem accountKey_mismatch {r : Account} {w : Json}
    (hkey : b.field "accountKey" = .ok (some (.str key)))
    (hblank : isBlank key = false) (hr : getAccountByKeyHash (host.hashText key) db = some r)
    (hw : b.field "accountId" = .ok (some w)) (hne : w ≠ .str r.accountId) :
    accountKeyAccount host db b =
      .error (.error 403 "accountId does not match the account key") := by
  unfold accountKeyAccount field requiredText
  rw [hkey, hw]
  cases w with
  | str claimed =>
    have hc : claimed ≠ r.accountId := fun e => hne (by rw [e])
    simp [bind, Except.bind, hblank, hr, hc]
  | _ => simp [bind, Except.bind, hblank, hr]

/-- An accepted enrollment claims no other account. -/
theorem accountKey_claim {a : String} (h : accountKeyAccount host db b = .ok a) :
    b.field "accountId" = .ok none ∨ b.field "accountId" = .ok (some (.str a)) := by
  obtain ⟨key, r, hkey, hr, ha⟩ := enrollmentAccount_key h
  cases hblank : isBlank key with
  | true => rw [accountKey_blank hkey hblank] at h; cases h
  | false =>
    cases hf : b.field "accountId" with
    | error x =>
      unfold accountKeyAccount field requiredText at h
      rw [hkey, hf] at h
      simp [bind, Except.bind, hblank, hr] at h
    | ok w =>
      cases w with
      | none => exact .inl rfl
      | some w =>
        by_cases hw : w = .str r.accountId
        · exact .inr (by rw [hw, ha])
        · rw [accountKey_mismatch hkey hblank hr hf hw] at h
          cases h

end Keys

end Routes
end GlanceVault.L3
