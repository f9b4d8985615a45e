import GlanceVault.L4System.Finality
/-!
# The account key decides the account

A server in account-key mode: devices enroll with the key of an account, the
operator creates, rekeys and deletes accounts, and everything else goes on
meanwhile. A process may come up on any volume.

## Hypotheses

* the hash is injective on the keys;
* `FreshKeys`: the keys a run draws are new, and none is the operator's secret.

## Results

* `act_accounts`, `act_credentials`: an action, seen from the two registries.
* `keyOf_origin`, `keyOf_back`: a key is an account's from the start or since it
  was drawn, and no action but the one that draws it binds it.
* `account_key_decides`: the results over whole runs.
-/
namespace GlanceVault.L4
open GlanceVault.Core GlanceVault.L1 GlanceVault.L1.Js GlanceVault.L2 GlanceVault.L3

/-- `key` is the current key of the account `a`. -/
def KeyOf (host : Host) (db : Db) (key a : String) : Prop :=
  ∃ r ∈ db.accounts.rows, r.keyHash = host.hashText key ∧ r.accountId = a

/-- The body presents the current key of `a`, and claims no other account. -/
def Presents (host : Host) (db : Db) (body : Body) (a d : String) : Prop :=
  ∃ b key, (jsonBody body).map orEmpty = .ok b ∧ b.field "accountKey" = .ok (some (.str key)) ∧
    KeyOf host db key a ∧
    (b.field "accountId" = .ok none ∨ b.field "accountId" = .ok (some (.str a))) ∧
    b.field "deviceId" = .ok (some (.str d))

/-- The account key an operator's request draws. -/
def Action.mintsKey : Action → Option String
  | .admin _ (.createAccount _) env => some ("gvk_" ++ env.secret)
  | .admin _ (.rotateKey _ _) env => some ("gvk_" ++ env.secret)
  | _ => none

def State.accountKeyMode (s : State) : Prop :=
  s.cfg.authMode = .perAccount ∧ s.cfg.enrollmentMode = .accountKey

/-- The keys a run draws are new: no two are the same, none is bound already,
and neither a drawn nor a bound one is the operator's secret. -/
structure FreshKeys (host : Host) (s : State) (as : List Action) : Prop where
  distinct : (as.filterMap Action.mintsKey).Nodup
  unbound : ∀ key ∈ as.filterMap Action.mintsKey, ∀ a, ¬ KeyOf host s.server.db key a
  secret : s.cfg.enrollmentSecret ∉ as.filterMap Action.mintsKey
  secretUnbound : ∀ a, ¬ KeyOf host s.server.db s.cfg.enrollmentSecret a

/-- Text is hashed injectively when bytes are. -/
theorem hashText_injective {host : Host} (h : Function.Injective host.sha256Hex) :
    Function.Injective host.hashText := by
  intro x y e
  have hb : x.toUTF8.data.toList = y.toUTF8.data.toList := h e
  have hd : x.toUTF8.data = y.toUTF8.data := Array.toList_inj.1 hb
  exact String.toByteArray_inj.1 (ByteArray.ext hd)

/-! ## One action -/

section Act
variable {host : Host} {s : State}

/-- **An action takes one step on the accounts**, and binds no key but the one
it draws. -/
theorem act_accounts (act : Action) {hash : String}
    (hkey : ∀ key, act.mintsKey = some key → host.hashText key = hash) :
    AccountStep s.cfg.maxAccounts hash s.server.db (s.act host act).server.db.accounts := by
  rcases act_registry host s act with ⟨authorization, route, env, rfl, hstep⟩ | ⟨-, hsame, -⟩
  · generalize (s.act host (.admin authorization route env)).server = v' at hstep ⊢
    cases hstep with
    | declined => exact .same
    | enroll => exact .same
    | revoke => exact .same
    | revokeAgain => exact .same
    | createAccount body step =>
      have hdrawn : drawnKeyHash host env = hash := hkey _ rfl
      rw [← hdrawn]
      exact step
    | @rotateKey a body free =>
      have hdrawn : drawnKeyHash host env = hash := hkey _ rfl
      subst hdrawn
      have hacc : (rotated host env s.server.db a (rotatesDevices body)).accounts =
          (s.server.db.rekey a (drawnKeyHash host env) (env.clock 0)).accounts := by
        unfold rotated
        cases rotatesDevices body <;> rfl
      show AccountStep _ _ _ (rotated host env s.server.db a (rotatesDevices body)).accounts
      rw [hacc]
      exact .rekey a _ free
    | @deleteAccount a body v' store =>
      rw [store]
      exact .remove a
  · rw [hsame]
    exact .same

/-- **A credential is an old one, or the one an accepted enrollment draws.** -/
theorem act_credentials (act : Action) : ∀ c ∈ (s.act host act).server.db.deviceCredentials.rows,
    (∃ x ∈ s.server.db.deviceCredentials.rows, x.credentialId = c.credentialId ∧
      x.accountId = c.accountId) ∨
      ∃ authorization body env a d, act = .admin authorization (.enroll body) env ∧
        Enrolls s.cfg host s.server.db body a d ∧ c = drawn host env a d := by
  have hstamp : ∀ {p now}, ∀ c ∈ (s.server.db.revokeWhere p now).deviceCredentials.rows,
      ∃ x ∈ s.server.db.deviceCredentials.rows, x.credentialId = c.credentialId ∧
        x.accountId = c.accountId := by
    intro p now c hc
    obtain ⟨x, hx, rfl⟩ := mem_revokeWhere.1 hc
    refine ⟨x, hx, ?_⟩
    split <;> exact ⟨rfl, rfl⟩
  intro c hc
  rcases act_registry host s act with ⟨authorization, route, env, rfl, hstep⟩ | ⟨-, -, hsame⟩
  · generalize (s.act host (.admin authorization route env)).server = v' at hstep hc
    cases hstep with
    | declined => exact .inl ⟨c, hc, rfl, rfl⟩
    | @enroll body a d proof fresh =>
      rcases Table.mem_upsert.1 hc with hdrawn | ⟨hc, -⟩
      · exact .inr ⟨authorization, body, env, a, d, rfl, proof, hdrawn⟩
      · exact .inl (hstamp c hc)
    | revoke => exact .inl (hstamp c hc)
    | revokeAgain => exact .inl (hstamp c hc)
    | createAccount body step credentials =>
      exact .inl ⟨c, credentials ▸ hc, rfl, rfl⟩
    | @rotateKey a body free =>
      cases hdev : rotatesDevices body with
      | false =>
        rw [hdev] at hc
        exact .inl ⟨c, hc, rfl, rfl⟩
      | true =>
        rw [hdev] at hc
        exact .inl (hstamp c hc)
    | @deleteAccount a body v' store =>
      rw [store] at hc
      exact .inl ⟨c, (Table.mem_keep.1 hc).1, rfl, rfl⟩
  · rw [hsame] at hc
    exact .inl ⟨c, hc, rfl, rfl⟩

end Act

/-! ## The keys of a run -/

section Keys
variable {host : Host} {s : State}

/-- An action binds no key but the one it draws. -/
theorem keyOf_back (hinj : Function.Injective host.sha256Hex) {act : Action} {key a : String}
    (hne : act.mintsKey ≠ some key)
    (h : KeyOf host (s.act host act).server.db key a) : KeyOf host s.server.db key a := by
  obtain ⟨r, hr, hk, ha⟩ := h
  obtain ⟨hash, hstep, hdiff⟩ : ∃ hash,
      AccountStep s.cfg.maxAccounts hash s.server.db (s.act host act).server.db.accounts ∧
      hash ≠ host.hashText key := by
    cases hm : act.mintsKey with
    | none =>
      refine ⟨host.hashText key ++ "x", act_accounts act fun k e => (by rw [hm] at e; cases e), ?_⟩
      simp
    | some k =>
      refine ⟨host.hashText k, act_accounts act fun k' e => (by rw [hm] at e; cases e; rfl),
        fun e => hne ?_⟩
      rw [hm, hashText_injective hinj e]
  exact ⟨r, holder_step hstep hr fun e => hdiff (e.symm.trans hk), hk, ha⟩

theorem keyOf_run_back (hinj : Function.Injective host.sha256Hex) {key a : String} :
    ∀ (as : List Action) (s : State),
    key ∉ as.filterMap Action.mintsKey → KeyOf host (run (State.act host) s as).server.db key a →
    KeyOf host s.server.db key a
  | [], _, _, h => h
  | act :: as, s, hnot, h => by
    have hrest : key ∉ as.filterMap Action.mintsKey := fun hm => hnot (by
      rw [List.filterMap_cons]
      split
      · exact hm
      · exact List.mem_cons_of_mem _ hm)
    refine keyOf_back hinj (fun e => hnot ?_) (keyOf_run_back hinj as (s.act host act) hrest h)
    exact List.mem_filterMap.2 ⟨act, List.mem_cons_self, e⟩

/-- A key is an account's from the start, or it has been drawn. -/
theorem keyOf_origin (hinj : Function.Injective host.sha256Hex) {key a : String} {as : List Action}
    (h : KeyOf host (run (State.act host) s as).server.db key a) :
    KeyOf host s.server.db key a ∨ key ∈ as.filterMap Action.mintsKey := by
  by_cases hm : key ∈ as.filterMap Action.mintsKey
  · exact .inr hm
  · exact .inl (keyOf_run_back hinj as s hm h)

end Keys
/-! ## Enrollment -/

section Enrollment
variable {host : Host} {s : State}

/-- An enrollment with this key is refused and changes nothing. -/
def NeverEnrolls (host : Host) (s : State) (key : String) : Prop := ∀ authorization body env b,
  (jsonBody body).map orEmpty = .ok b → b.field "accountKey" = .ok (some (.str key)) →
  (s.act host (.admin authorization (.enroll body) env)).server = s.server ∧
    s.answer host (.admin authorization (.enroll body) env) = some
      (if isBlank key then .error 400 "accountKey is required"
        else .error 401 "invalid account key")

/-- The operator's request reaches its end. -/
def State.fulfills (host : Host) (s : State) (authorization : Option String) (route : AdminRoute)
    (env : Env) : Prop :=
  ∃ r, (handleAdmin s.cfg host env authorization route s.server).result = .ok r

/-- The action rotates the account's key, or deletes the account. -/
def State.retires (host : Host) (s : State) (a : String) : Action → Prop
  | .admin authorization (.rotateKey b body) env =>
    b = a ∧ s.fulfills host authorization (.rotateKey b body) env
  | .admin authorization (.deleteAccount b body) env =>
    b = a ∧ s.fulfills host authorization (.deleteAccount b body) env
  | _ => False

/-- The row of an account without its key. -/
def accountIdentity (r : Account) : String × Option String × String :=
  (r.accountId, r.label, r.createdAt)

/-- What the account keys decide in a state. -/
structure KeysDecide (host : Host) (s : State) : Prop where
  unique : KeysUnique s.server.db.accounts
  one : ∀ key a b, KeyOf host s.server.db key a → KeyOf host s.server.db key b → a = b
  enrolls : ∀ authorization body env,
    (s.act host (.admin authorization (.enroll body) env)).server = s.server ∨
    ∃ a d, Presents host s.server.db body a d ∧
      (s.act host (.admin authorization (.enroll body) env)).server =
        { s.server with db := issued host env s.server.db a d }
  mismatch : ∀ authorization body env b key a w, (jsonBody body).map orEmpty = .ok b →
    b.field "accountKey" = .ok (some (.str key)) → isBlank key = false →
    KeyOf host s.server.db key a →
    b.field "accountId" = .ok (some w) → w ≠ .str a →
    (s.act host (.admin authorization (.enroll body) env)).server = s.server ∧
      s.answer host (.admin authorization (.enroll body) env) =
        some (.error 403 "accountId does not match the account key")
  unknown : ∀ key, (∀ a, ¬ KeyOf host s.server.db key a) → NeverEnrolls host s key
  secret : NeverEnrolls host s s.cfg.enrollmentSecret
  rotation : ∀ authorization a body env, rotatesDevices body = false →
    (s.act host (.admin authorization (.rotateKey a body) env)).server.db.outsideRegistry =
      s.server.db.outsideRegistry ∧
    (s.act host (.admin authorization (.rotateKey a body) env)).server.db.deviceCredentials =
      s.server.db.deviceCredentials ∧
    (s.act host
      (.admin authorization (.rotateKey a body) env)).server.db.accounts.rows.map accountIdentity =
      s.server.db.accounts.rows.map accountIdentity

theorem handleAdmin_enroll (hm : s.accountKeyMode) (authorization : Option String) (body : Body)
    (env : Env) :
    handleAdmin s.cfg host env authorization (.enroll body) s.server =
      enroll s.cfg host env body s.server := by
  unfold handleAdmin
  rw [if_pos (by simp [AdminRoute.mounted, hm.1])]
  rfl

/-- A refused proof answers the enrollment. -/
theorem enroll_refused (hm : s.accountKeyMode) {body : Body} {b : Json} {status : Nat}
    {message : String} (hb : (jsonBody body).map orEmpty = .ok b)
    (h : accountKeyAccount host s.server.db b = .error (.error status message))
    (authorization : Option String) (env : Env) :
    (s.act host (.admin authorization (.enroll body) env)).server = s.server ∧
      s.answer host (.admin authorization (.enroll body) env) = some (.error status message) := by
  have hrefused : enrollmentAccount s.cfg host s.server.db b = .error (.error status message) := by
    unfold enrollmentAccount
    rw [hm.2]
    exact h
  have hrun : handleAdmin s.cfg host env authorization (.enroll body) s.server =
      ⟨.error (.error status message), s.server, []⟩ := by
    rw [handleAdmin_enroll hm, enroll_rejects s.server hb hrefused]
  refine ⟨?_, ?_⟩
  · rw [act_admin, hrun]
  · show some (finish (handleAdmin s.cfg host env authorization (.enroll body) s.server)) = _
    rw [hrun]
    rfl

/-- An accepted proof presents the account's key. -/
theorem presents_of_enrolls {body : Body} {a d : String} (hm : s.accountKeyMode)
    (h : Enrolls s.cfg host s.server.db body a d) : Presents host s.server.db body a d := by
  obtain ⟨b, hb, ha, hd, -⟩ := h
  have ha : accountKeyAccount host s.server.db b = .ok a := by
    unfold enrollmentAccount at ha
    rw [hm.2] at ha
    exact ha
  obtain ⟨key, r, hkey, hr, hra⟩ := enrollmentAccount_key ha
  have hhash : r.keyHash = host.hashText key := by simpa using List.find?_some hr
  exact ⟨b, key, hb, hkey, ⟨r, List.mem_of_find?_eq_some hr, hhash, hra⟩, accountKey_claim ha, hd⟩

theorem neverEnrolls_of (hm : s.accountKeyMode) {key : String}
    (h : ∀ a, ¬ KeyOf host s.server.db key a) :
    NeverEnrolls host s key := by
  intro authorization body env b hb hkey
  have hnone : getAccountByKeyHash (host.hashText key) s.server.db = none :=
    List.find?_eq_none.2 fun r hr e => h r.accountId ⟨r, hr, by simpa using e, rfl⟩
  cases hblank : isBlank key with
  | true => exact enroll_refused hm hb (accountKey_blank hkey hblank) authorization env
  | false => exact enroll_refused hm hb (accountKey_unknown hkey hblank hnone) authorization env

/-- The account the index finds is the one the key belongs to. -/
theorem keyOf_found (hu : KeysUnique s.server.db.accounts) {key a : String}
    (h : KeyOf host s.server.db key a) :
    ∃ r, getAccountByKeyHash (host.hashText key) s.server.db = some r ∧ r.accountId = a := by
  obtain ⟨x, hx, hk, rfl⟩ := h
  have hsome : (getAccountByKeyHash (host.hashText key) s.server.db).isSome :=
    List.find?_isSome.2 ⟨x, hx, by simpa using hk⟩
  obtain ⟨r, hr⟩ := Option.isSome_iff_exists.1 hsome
  have hrk : r.keyHash = host.hashText key := by simpa using List.find?_some hr
  exact ⟨r, hr,
    congrArg Account.accountId (hu r (List.mem_of_find?_eq_some hr) x hx (hrk.trans hk.symm))⟩

theorem keyOf_one (hu : KeysUnique s.server.db.accounts) {key a b : String}
    (ha : KeyOf host s.server.db key a) (hb : KeyOf host s.server.db key b) : a = b := by
  obtain ⟨x, hx, hxk, rfl⟩ := ha
  obtain ⟨y, hy, hyk, rfl⟩ := hb
  exact congrArg Account.accountId (hu x hx y hy (hxk.trans hyk.symm))

/-- A rotation that signs out no device leaves everything but the key. -/
theorem rotation_keeps {a : String} {body : Body} {env : Env}
    (hdev : rotatesDevices body = false) {v : Server}
    (h : Administers s.cfg host env s.server (.rotateKey a body) v) :
    v.db.outsideRegistry = s.server.db.outsideRegistry ∧
    v.db.deviceCredentials = s.server.db.deviceCredentials ∧
      v.db.accounts.rows.map accountIdentity = s.server.db.accounts.rows.map accountIdentity := by
  cases h with
  | declined => exact ⟨rfl, rfl, rfl⟩
  | rotateKey body free =>
    have hrot : rotated host env s.server.db a (rotatesDevices body) =
        s.server.db.rekey a (drawnKeyHash host env) (env.clock 0) := by
      unfold rotated
      rw [hdev]
      rfl
    dsimp only
    rw [hrot]
    refine ⟨rfl, rfl, ?_⟩
    show (List.map _ s.server.db.accounts.rows).map _ = _
    rw [List.map_map]
    refine List.map_congr_left fun x hx => ?_
    dsimp only [Function.comp]
    split <;> rfl

theorem keysDecide_of (hm : s.accountKeyMode) (hu : KeysUnique s.server.db.accounts)
    (hsecret : ∀ a, ¬ KeyOf host s.server.db s.cfg.enrollmentSecret a) : KeysDecide host s where
  unique := hu
  one key a b := keyOf_one hu
  enrolls authorization body env := by
    rw [act_admin]
    have hstep := handleAdmin_administers s.cfg host env s.server authorization (.enroll body)
    generalize (handleAdmin s.cfg host env authorization (.enroll body) s.server).state = v at hstep
    cases hstep with
    | declined => exact .inl rfl
    | enroll a d proof fresh => exact .inr ⟨a, d, presents_of_enrolls hm proof, rfl⟩
  mismatch authorization body env b key a w hb hkey hblank hof hw hne := by
    obtain ⟨r, hr, rfl⟩ := keyOf_found hu hof
    exact enroll_refused hm hb (accountKey_mismatch hkey hblank hr hw hne) authorization env
  unknown key h := neverEnrolls_of hm h
  secret := neverEnrolls_of hm hsecret
  rotation authorization a body env hdev := by
    rw [act_admin]
    exact rotation_keeps hdev (handleAdmin_administers s.cfg host env s.server authorization _)

end Enrollment

/-! ## What retires a key -/

section Retire
variable {host : Host} {s : State}

/-- A rotation that ends has left the account the drawn key, a deletion no
row. -/
theorem retires_row (hm : s.accountKeyMode) {act : Action} {a : String} (h : s.retires host a act) :
    ∀ r ∈ (s.act host act).server.db.accounts.rows, r.accountId = a →
    ∃ key, act.mintsKey = some key ∧
      r.keyHash = host.hashText key := by
  have hmounted : ∀ route : AdminRoute, route.mounted s.cfg = true := fun route => by
    cases route <;> simp [AdminRoute.mounted, hm.1, hm.2]
  have hdone : ∀ {authorization route env}, s.fulfills host authorization route env →
      handleAdmin s.cfg host env authorization route s.server =
        route.perform s.cfg host env s.server := by
    intro authorization route env ⟨r, hr⟩
    rcases handleAdmin_cases s.cfg host env s.server authorization route with ⟨-, hd, -⟩ | e
    · obtain ⟨⟨x, hx⟩, -⟩ := hd (hmounted route)
      rw [hr] at hx
      cases hx
    · exact e
  intro r hr ha
  match act, h with
  | .admin authorization (.rotateKey b body) env, ⟨hb, hful⟩ =>
    subst hb
    rw [act_admin, hdone hful, AdminRoute.perform] at hr
    obtain ⟨x, hx⟩ := hful
    rw [hdone ⟨x, hx⟩, AdminRoute.perform] at hx
    rcases rotateKeyRoute_cases host env s.server b body with ⟨⟨y, hy⟩, -⟩ | ⟨-, -, h, -⟩
    · rw [hx] at hy
      cases hy
    · rw [h] at hr
      have hr : r ∈ (s.server.db.rekey b (drawnKeyHash host env) (env.clock 0)).accounts.rows := by
        unfold rotated at hr
        cases hdev : rotatesDevices body <;> rw [hdev] at hr <;> exact hr
      rcases mem_rekey hr with ⟨-, hk⟩ | ⟨-, hne⟩
      · exact ⟨_, rfl, hk⟩
      · exact absurd ha hne
  | .admin authorization (.deleteAccount b body) env, ⟨hb, hful⟩ =>
    subst hb
    rw [act_admin, hdone hful, AdminRoute.perform] at hr
    obtain ⟨x, hx⟩ := hful
    rw [hdone ⟨x, hx⟩, AdminRoute.perform] at hx
    rcases deleteAccountRoute_cases s.server b body with ⟨⟨y, hy⟩, -⟩ | ⟨-, h, -⟩
    · rw [hx] at hy
      cases hy
    · rw [h] at hr
      have hne := (Table.mem_keep.1 hr).2
      simp [ha] at hne

/-- The key is then nobody's. -/
theorem retires_act (hinj : Function.Injective host.sha256Hex) (hm : s.accountKeyMode)
    (hu : KeysUnique s.server.db.accounts)
    {act : Action} {key a : String} (h : s.retires host a act) (hof : KeyOf host s.server.db key a)
    (hne : act.mintsKey ≠ some key) : ∀ b, ¬ KeyOf host (s.act host act).server.db key b := by
  intro b hb
  have hab : a = b := keyOf_one hu hof (keyOf_back hinj hne hb)
  obtain ⟨r, hr, hk, hrb⟩ := hb
  obtain ⟨k, hm, hrk⟩ := retires_row hm h r hr (hrb.trans hab.symm)
  have hkey : k = key := hashText_injective hinj (hrk.symm.trans hk)
  exact hne (hkey ▸ hm)

end Retire

/-! ## Runs -/

section Runs
variable {host : Host} {s : State}

/-- A credential is from the start of a run, or an action of the run has
enrolled it by the current key of its account. -/
theorem credential_origin (as : List Action) : ∀ s : State, s.accountKeyMode →
    ∀ c ∈ (run (State.act host) s as).server.db.deviceCredentials.rows,
      (∃ x ∈ s.server.db.deviceCredentials.rows, x.credentialId = c.credentialId ∧
        x.accountId = c.accountId) ∨
      ∃ before authorization body env after d, as =
        before ++ .admin authorization (.enroll body) env :: after ∧
        c.credentialId = env.uuid ∧
        Presents host (run (State.act host) s before).server.db body c.accountId d := by
  induction as with
  | nil => exact fun s _ c hc => .inl ⟨c, hc, rfl, rfl⟩
  | cons act as ih =>
    intro s hm c hc
    rcases ih (s.act host act) hm c hc with ⟨x, hx, hid, hacc⟩ |
      ⟨before, authorization, body, env, after, d, rfl, hid, hp⟩
    · rcases act_credentials act x hx with ⟨y, hy, h1, h2⟩ |
        ⟨authorization, body, env, a, d, rfl, henrolls, rfl⟩
      · exact .inl ⟨y, hy, h1.trans hid, h2.trans hacc⟩
      · refine .inr ⟨[], authorization, body, env, as, d, rfl, hid.symm, ?_⟩
        rw [← hacc]
        exact presents_of_enrolls hm henrolls
    · exact .inr ⟨act :: before, authorization, body, env, after, d, rfl, hid, hp⟩

/-- **A key that is retired stays retired.** -/
theorem retired_run (hinj : Function.Injective host.sha256Hex) (hm : s.accountKeyMode)
    {before after : List Action}
    {act : Action} {key a : String} (hfresh : FreshKeys host s (before ++ act :: after))
    (hu : KeysUnique (run (State.act host) s before).server.db.accounts)
    (hof : KeyOf host (run (State.act host) s before).server.db key a)
    (h : (run (State.act host) s before).retires host a act) :
    ∀ b, ¬ KeyOf host (run (State.act host) s (before ++ act :: after)).server.db key b := by
  -- a key that was an account's is not drawn again
  have hnot : key ∉ (act :: after).filterMap Action.mintsKey := by
    intro hk
    rcases keyOf_origin hinj hof with h0 | hdrawn
    · refine hfresh.unbound key ?_ a h0
      rw [List.filterMap_append]
      exact List.mem_append_right _ hk
    · have hdisj := hfresh.distinct
      rw [List.filterMap_append] at hdisj
      exact List.disjoint_of_nodup_append hdisj hdrawn hk
  have hact : act.mintsKey ≠ some key :=
    fun e => hnot (List.mem_filterMap.2 ⟨act, List.mem_cons_self, e⟩)
  have hafter : key ∉ after.filterMap Action.mintsKey := fun hk => hnot (by
    obtain ⟨x, hx, e⟩ := List.mem_filterMap.1 hk
    exact List.mem_filterMap.2 ⟨x, List.mem_cons_of_mem _ hx, e⟩)
  have hmode : (run (State.act host) s before).accountKeyMode := by
    unfold State.accountKeyMode
    rw [run_cfg]
    exact hm
  intro b hb
  rw [run_append, run_cons] at hb
  exact retires_act hinj hmode hu h hof hact b (keyOf_run_back hinj after _ hafter hb)

theorem capped_run {m : Nat} (hm : s.cfg.maxAccounts = some m)
    (h : s.server.db.accounts.rows.length ≤ m)
    (as : List Action) : (run (State.act host) s as).server.db.accounts.rows.length ≤ m := by
  have hstep : ∀ (t : State) (act : Action), t.cfg.maxAccounts = some m ∧
      t.server.db.accounts.rows.length ≤ m →
      (t.act host act).cfg.maxAccounts = some m ∧
      (t.act host act).server.db.accounts.rows.length ≤ m := by
    intro t act ⟨hcap, hlen⟩
    obtain ⟨hash, hkey⟩ : ∃ hash, ∀ key, act.mintsKey = some key → host.hashText key = hash := by
      cases act.mintsKey with
      | none => exact ⟨"", fun key e => by cases e⟩
      | some k => exact ⟨host.hashText k, fun key e => by cases e; rfl⟩
    have haccounts := act_accounts (s := t) act hkey
    rw [hcap] at haccounts
    exact ⟨hcap, capped_step hlen haccounts⟩
  exact (run_inv hstep as s ⟨hm, h⟩).2

end Runs

/-- **The account key decides the account.** A server in account-key mode has
seen any run, crashes included. In every state of a run from there no two
accounts share a key hash; an enrollment changes nothing, or binds its credential
to the account whose current key it presents and that it does not contradict; the
operator's secret and every key that is nobody's is refused; and a rotation that
signs out no device moves nothing but the key. Every credential of the run is
of the account whose key was presented for it. A key whose account is rekeyed
or deleted is nobody's ever after. The registry stays under its cap. -/
theorem account_key_decides (host : Host) (hinj : Function.Injective host.sha256Hex)
    (cfg : Config) (es : List Event)
    (as : List Action) (hmode : (State.after host cfg es).accountKeyMode)
    (hfresh : FreshKeys host (State.after host cfg es) as) :
    let start := State.after host cfg es
    let s := run (State.act host) start as
    KeysDecide host s ∧
    (∀ c ∈ s.server.db.deviceCredentials.rows,
      (∃ x ∈ start.server.db.deviceCredentials.rows, x.credentialId = c.credentialId ∧
        x.accountId = c.accountId) ∨
      ∃ before authorization body env after d, as = before ++ .admin authorization
        (.enroll body) env :: after ∧
        c.credentialId = env.uuid ∧ Presents host
          (run (State.act host) start before).server.db body c.accountId d) ∧
    (∀ before act after key a, as = before ++ act :: after →
      KeyOf host (run (State.act host) start before).server.db key a →
      (run (State.act host) start before).retires host a act →
      (∀ b, ¬ KeyOf host s.server.db key b) ∧ NeverEnrolls host s key) ∧
    ∀ m, start.cfg.maxAccounts = some m → start.server.db.accounts.rows.length ≤ m →
      s.server.db.accounts.rows.length ≤ m := by
  intro start s
  have hunique : ∀ bs, KeysUnique (run (State.act host) start bs).server.db.accounts := by
    intro bs
    have hrun : run (State.act host) start bs = State.after host cfg (es ++ bs.map .run) := by
      unfold State.after
      rw [run_append, after_run]
      rfl
    rw [hrun]
    refine after_inv (I := fun d => KeysUnique d.accounts) (fun o d d' e h => ?_)
      (fun x hx => ?_) host cfg _
    · obtain ⟨cap, hash, hstep⟩ := account_step o d () d' e
      exact keysUnique_step h hstep
    · cases hx
  have hm : s.accountKeyMode := by
    unfold State.accountKeyMode
    rw [show s.cfg = start.cfg from run_cfg host as start]
    exact hmode
  have hsecret : ∀ a, ¬ KeyOf host s.server.db s.cfg.enrollmentSecret a := by
    intro a h
    rw [show s.cfg = start.cfg from run_cfg host as start] at h
    rcases keyOf_origin hinj h with h0 | hdrawn
    · exact hfresh.secretUnbound a h0
    · exact hfresh.secret hdrawn
  refine ⟨keysDecide_of hm (hunique as) hsecret, credential_origin as start hmode, ?_,
    fun m hc h => capped_run hc h as⟩
  intro before act after key a hsplit hof hret
  have hgone : ∀ b, ¬ KeyOf host s.server.db key b := by
    have hfresh' : FreshKeys host start (before ++ act :: after) := hsplit ▸ hfresh
    have := retired_run hinj hmode hfresh' (hunique before) hof hret
    rw [← hsplit] at this
    exact this
  exact ⟨hgone, neverEnrolls_of hm hgone⟩

/-! ## A key is rotated out -/

def rotation : Action :=
  .admin (some "Bearer secret") (.rotateKey "a" (.json (.obj []))) (drawing "-" '3')

/-- The old key enrolls no device any more, and the device that it enrolled
is still of its account. -/
theorem account_key_decides_rotated :
    let s := State.running sampleHost keyedConfig (enrolled ++ [rotation])
    NeverEnrolls sampleHost s ("gvk_" ++ sampleSecret '2') ∧ NeverEnrolls sampleHost s "secret" ∧
      KeyOf sampleHost s.server.db ("gvk_" ++ sampleSecret '3') "a" ∧
      s.server.db.deviceCredentials.rows.map (fun c => (c.credentialId, c.accountId, c.active)) =
        [("c", "a", true)] := by
  intro s
  have hfresh : FreshKeys sampleHost (State.after sampleHost keyedConfig [])
      (enrolled ++ [rotation]) := by
    refine ⟨by decide +kernel, fun key _ a h => ?_, by decide +kernel, fun a h => ?_⟩
    · obtain ⟨r, hr, -⟩ := h
      cases hr
    · obtain ⟨r, hr, -⟩ := h
      cases hr
  obtain ⟨hdecides, -, hretired, -⟩ :=
    account_key_decides sampleHost sampleSha_injective keyedConfig []
      (enrolled ++ [rotation]) ⟨rfl, rfl⟩ hfresh
  have hbefore : KeyOf sampleHost (State.running sampleHost keyedConfig enrolled).server.db
      ("gvk_" ++ sampleSecret '2') "a" := by
    unfold KeyOf
    decide +kernel
  have hends : (State.running sampleHost keyedConfig enrolled).retires sampleHost "a" rotation :=
    ⟨rfl, _, rfl⟩
  have hnew : KeyOf sampleHost s.server.db ("gvk_" ++ sampleSecret '3') "a" := by
    unfold KeyOf
    decide +kernel
  exact ⟨(hretired enrolled rotation [] _ "a" rfl hbefore hends).2, hdecides.secret,
    hnew, by decide +kernel⟩

end GlanceVault.L4
