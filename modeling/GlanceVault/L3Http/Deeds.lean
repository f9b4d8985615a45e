import GlanceVault.L2Storage.Vault
import GlanceVault.L3Http.Erasure
import GlanceVault.L3Http.Operations
import GlanceVault.L3Http.WholeBatches
/-!
# The deed of a request

A handler that changes the vault of its account does it in one transaction. So
its deed is done when the request is answered 200, not done when it is answered
4xx, and done or not done, but never done in part, when the process stops.

* `perform_enacts`: the calls of the account-scoped routes.
* `deletion_enacts`: the deletion of the account.
* `perform_idle`: the other calls, and those for other accounts.
-/
namespace GlanceVault.L3
open GlanceVault.Core GlanceVault.L1 GlanceVault.L1.Js GlanceVault.L2

/-- The deed of a call. -/
def Call.deed (env : Env) : Call → Option Deed
  | .batch app rows _ => some (.put app rows)
  | .deleteEntity app e deletedAt => some (.remove app e deletedAt)
  | .intents events => some (.send events env.clock)
  | .putSalt salt => some (.setSalt salt (env.clock 0))
  | .device d n => some (.report d n)
  | _ => none

/-- `m` does the deed `d` for the account `a`, as its answer says. -/
structure Enacts (a : String) (d : Deed) (m : Handler Response) (v : Server) : Prop where
  done : (finish (m v)).status = 200 → vaultOf a (m v).state.db = (vaultOf a v.db).apply d
  refused : 400 ≤ (finish (m v)).status → (finish (m v)).status < 500 →
    vaultOf a (m v).state.db = vaultOf a v.db
  stopped : ∀ n, vaultOf a (m.stopAfter n v).db = vaultOf a v.db ∨
    vaultOf a (m.stopAfter n v).db = (vaultOf a v.db).apply d

section Enacts
variable {a : String} {d : Deed} {m : Handler Response} {v : Server}

/-- A handler that is one transaction. -/
theorem enacts_committed {db : Db} (h : Committed v db (m v))
    (hd : vaultOf a db = (vaultOf a v.db).apply d) : Enacts a d m v := by
  obtain ⟨hstatus, hdb, htrace⟩ := h
  refine ⟨fun _ => by rw [hdb, hd], fun h1 => by omega, fun n => ?_⟩
  rcases m.stopAfter_cases n v with e | e | e
  · exact .inl (by rw [e])
  · rw [htrace] at e
    exact .inr (by rw [List.mem_singleton.1 e, hd])
  · exact .inr (by rw [e, hdb, hd])

/-- A handler that is turned away. -/
theorem enacts_rejected (h : Rejected v (m v)) : Enacts a d m v := by
  obtain ⟨hge, hlt, hstate, htrace⟩ := h
  refine ⟨fun h1 => by omega, fun _ _ => by rw [hstate], fun n => .inl ?_⟩
  rcases m.stopAfter_cases n v with e | e | e
  · rw [e]
  · rw [htrace] at e
    cases e
  · rw [e, hstate]

theorem batch_enacts (cfg : Config) (env : Env) (a app : String) (rows : List SyncRowInput)
    (notify : Bool) (v : Server) :
    Enacts a (.put app rows) (batch cfg env a app rows notify) v := by
  obtain ⟨⟨res, db⟩, hm⟩ := batchUpsert_eval app a rows env.clock v.db
  have hrule : ∀ gate db verdict,
      admitSyncBatch gate a app (rows.map (·.entityId)) db = some verdict →
      400 ≤ verdict.status ∧ verdict.status < 500 := by
    intro gate db verdict h
    rw [admitVolume_status h]
    decide
  have hanswer :=
    answers_nudge env a (fun res => (notify && decide (0 < res.maxSeq)) = true) fun res =>
      ⟨res.maxSeq, some app⟩
  rcases gated_whole hanswer hrule hm with h | h
  · exact enacts_rejected h
  · exact enacts_committed h (put_applies hm)

theorem intentsBatch_enacts (cfg : Config) (env : Env) (a : String)
    (events : List IntentEventInput) (v : Server) :
    Enacts a (.send events env.clock) (intentsBatch cfg env a events) v := by
  obtain ⟨acc, db, -, hm⟩ := insertIntents_eval a events env.clock v.db
  have hrule : ∀ gate db verdict,
      admitIntents gate a (events.map (·.eventId)) env.quotaNow db = some verdict →
      400 ≤ verdict.status ∧ verdict.status < 500 := by
    intro gate db verdict h
    rw [admitVolume_status h]
    decide
  have hanswer := answers_nudge env a (fun res => 0 < res.maxSeq) fun res =>
    ⟨res.maxSeq, some "intents"⟩
  rcases gated_whole hanswer hrule hm with h | h
  · exact enacts_rejected h
  · exact enacts_committed h (send_applies hm)

theorem deleteEntity_enacts (env : Env) (a app e : String) (deletedAt : Option Nat) (v : Server) :
    Enacts a (.remove app e deletedAt) (deleteEntity env a app e deletedAt) v := by
  have hm := softDeleteRow_eval app a e (deletedAt.map .ofNat) (env.clock 0) v.db
  cases hf : v.db.syncRows.find (a, app, e) with
  | none =>
    rw [hf] at hm
    -- the transaction commits without a write, and the answer is 404
    have hrun : deleteEntity env a app e deletedAt v =
        ⟨.error (.error 404 "not found"), v, [v]⟩ := by
      unfold deleteEntity
      rw [Prog.bind_run, exec_run hm]
      rfl
    refine ⟨fun h => ?_, fun _ _ => by rw [hrun], fun n => .inl ?_⟩
    · rw [hrun] at h
      cases h
    · rcases (deleteEntity env a app e deletedAt).stopAfter_cases n v with h | h | h
      · rw [h]
      · rw [hrun] at h
        rw [List.mem_singleton.1 h]
      · rw [h, hrun]
  | some r =>
    rw [hf] at hm
    by_cases hd : r.deleted = true
    · simp only [hd, if_true] at hm
      refine enacts_committed ?_ (remove_applies hm)
      unfold Committed finish deleteEntity
      rw [Prog.bind_run, exec_run hm]
      exact ⟨rfl, rfl, rfl⟩
    · simp only [hd] at hm
      refine enacts_committed ?_ (remove_applies hm)
      unfold Committed finish deleteEntity
      rw [Prog.bind_run, exec_run hm]
      exact ⟨rfl, rfl, rfl⟩

theorem saltPut_enacts (env : Env) (a salt : String) (v : Server) :
    Enacts a (.setSalt salt (env.clock 0)) (saltPut env a salt) v := by
  obtain ⟨res, db, hm⟩ : ∃ res db, (putSaltIfAbsent a salt (env.clock 0)).eval v.db =
      .ok (res, db) := by
    rw [putSaltIfAbsent_eval]
    cases v.db.accountSalts.find a with
    | none => exact ⟨_, _, rfl⟩
    | some r => exact ⟨_, _, rfl⟩
  refine enacts_committed ?_ (setSalt_applies hm).1
  unfold Committed finish saltPut
  rw [Prog.bind_run, exec_run hm]
  exact ⟨rfl, rfl, rfl⟩

theorem device_enacts (env : Env) (a deviceId : String) (seq : Nat) (v : Server) :
    Enacts a (.report deviceId seq) (device env a deviceId seq) v := by
  obtain ⟨db, hm, -⟩ := updateDeviceCursor_forward a deviceId seq (env.clock 0) v.db
  refine enacts_committed ?_ (report_applies hm)
  unfold Committed finish device
  rw [Prog.bind_run, exec_run hm]
  exact ⟨rfl, rfl, rfl⟩

/-- **A call does its deed.** -/
theorem perform_enacts (cfg : Config) (host : Host) (credential : Option Credential) (env : Env)
    (a : String) {call : Call}
    (h : call.deed env = some d) (v : Server) :
    Enacts a d (perform cfg host credential env a call) v := by
  cases call with
  | batch app rows notify => cases h; exact batch_enacts cfg env a app rows notify v
  | deleteEntity app e deletedAt => cases h; exact deleteEntity_enacts env a app e deletedAt v
  | intents events => cases h; exact intentsBatch_enacts cfg env a events v
  | putSalt salt => cases h; exact saltPut_enacts env a salt v
  | device deviceId seq => cases h; exact device_enacts env a deviceId seq v
  | _ => cases h

/-! ## What leaves the vault alone -/

/-- The vault of an account, as a part of the server. -/
def Server.vault (a : String) (v : Server) : Vault := vaultOf a v.db

theorem vault_ignores {area : Area}
    (h : area = .blobs ∨ area = .uploads ∨ area = .files ∨ area = .registry) :
    Ignores (Server.vault a) area := by
  rcases h with rfl | rfl | rfl | rfl
  · exact ignores_of fun _ => rfl
  · exact ignores_of fun _ => rfl
  · exact fun _ _ => rfl
  · exact ignores_of fun _ => rfl

/-- **Every other call leaves the vault alone**, and so does a call for another
account. -/
theorem perform_idle (cfg : Config) (host : Host) (credential : Option Credential) (env : Env)
    {b : String} {call : Call}
    (h : call.deed env = none ∨ b ≠ a) :
    Prog.Keeps (Server.vault a) (perform cfg host credential env b call) := by
  have hquiet : (∀ area ∈ call.writes, area = .blobs ∨ area = .uploads ∨ area = .files ∨
      area = .registry) →
      Prog.Keeps (Server.vault a) (perform cfg host credential env b call) := fun hw =>
    perform_frame_of cfg host credential env b call (fun _ _ _ _ _ _ => rfl) fun area ha =>
      vault_ignores (hw area ha)
  have hexec : ∀ {α : Type} {m : DbTx α}, m.Keeps (Db.tenant a) →
      Prog.Keeps (Server.vault a) (exec m) := fun hm =>
    exec_keeps hm fun s db e => vaultOf_rows e
  have hemit : ∀ n r, Prog.Keeps (Server.vault a) (do emit env b n; pure r : Handler Response) :=
    fun n r =>
      .bind (emit_keeps fun _ _ _ _ => rfl) fun _ => .pure r
  cases call with
  | batch app rows notify =>
    have hb : b ≠ a := h.resolve_left nofun
    refine .bind (gated_keeps cfg _) fun _ =>
      .bind (hexec (batchUpsert_keeps hb app rows env.clock)) fun r => ?_
    exact .ite (hemit _ _) (.pure _)
  | deleteEntity app e deletedAt =>
    have hb : b ≠ a := h.resolve_left nofun
    refine .bind (hexec (softDeleteRow_keeps hb app e _ _)) fun r => .bind (.found _ _) fun r => ?_
    exact .ite (.pure _) (hemit _ _)
  | intents events =>
    have hb : b ≠ a := h.resolve_left nofun
    refine .bind (gated_keeps cfg _) fun _ =>
      .bind (hexec (insertIntents_keeps hb events env.clock)) fun r => ?_
    exact .ite (hemit _ _) (.pure _)
  | putSalt salt =>
    have hb : b ≠ a := h.resolve_left nofun
    exact .bind (hexec (putSaltIfAbsent_keeps hb salt _)) fun _ => .pure _
  | device deviceId seq =>
    have hb : b ≠ a := h.resolve_left nofun
    exact .bind (hexec (updateDeviceCursor_keeps hb deviceId seq _)) fun _ => .pure _
  | _ => exact hquiet (by simp [Call.writes])

end Enacts

/-! ## The deletion -/

section Deletion
variable {a : String} {body : Body} {v : Server}

/-- Behind the commit only the removal of a file can fail, and that is a 500. -/
theorem removals_raise (uploads hashes : List String) (r : Response) :
    Prog.Raises (fun e : Abort => e.response.status = 500)
      (do Prog.each discardSession uploads; Prog.each deleteBytes hashes; pure r :
        Handler Response) := by
  have hassert : ∀ x, Prog.Raises (fun e : Abort => e.response.status = 500) (assert x) :=
    fun x => by
    cases x with
    | ok u => exact .pure ()
    | error e => exact .raise rfl
  have hfile : ∀ x f, Prog.Raises (fun e : Abort => e.response.status = 500)
      (do assert x; file f : Handler Unit) :=
    fun x f => .bind (hassert x) fun _ => .step fun _ _ h => nomatch h
  have heach : ∀ {β : Type} {f : β → Handler Unit},
      (∀ x, Prog.Raises (fun e : Abort => e.response.status = 500) (f x)) →
      ∀ xs, Prog.Raises (fun e : Abort => e.response.status = 500) (Prog.each f xs) := by
    intro β f hf xs
    induction xs with
    | nil => exact .pure ()
    | cons x xs ih => exact .bind (hf x) fun _ => ih
  exact .bind (heach (fun u => hfile _ _) uploads) fun _ =>
    .bind (heach (fun h => hfile _ _) hashes) fun _ => .pure r

/-- A body the parser has let through. -/
def Body.read (body : Body) : Bool :=
  match body with
  | .rejected _ => false
  | _ => true

/-- A deletion is turned away, or is committed and answered 200 or 500. -/
def Deletes (a : String) (v : Server) (o : Outcome Server Abort Response) : Prop :=
  o.state = v ∧ (finish o).status ≠ 200 ∨
    o.state.db = v.db.without a ∧ ((finish o).status = 200 ∨ (finish o).status = 500)

theorem deletes_raise {e : Abort} (h : e.response.status ≠ 200) (t : List Server) :
    Deletes a v ⟨.error e, v, t⟩ :=
  .inl ⟨rfl, h⟩

theorem finish_ok {o : Outcome Server Abort Response} {r : Response} (h : o.result = .ok r) :
    finish o = r := by
  unfold finish
  rw [h]

theorem finish_error {o : Outcome Server Abort Response} {e : Abort} (h : o.result = .error e) :
    finish o = e.response := by
  unfold finish
  rw [h]

theorem deletion_deletes (hread : body.read = true) :
    Deletes a v (deleteAccountRoute a body v) := by
  obtain ⟨b, hb⟩ : ∃ b, (jsonBody body).map orEmpty = .ok b := by
    cases body with
    | json j => exact ⟨_, rfl⟩
    | raw b => exact ⟨_, rfl⟩
    | rejected status => cases hread
  unfold deleteAccountRoute
  rw [hb]
  show Deletes a v ((Prog.ofExcept (field b "confirm") >>= _) v)
  cases hc : field b "confirm" with
  | error e =>
    refine deletes_raise ?_ []
    unfold field at hc
    split at hc
    · cases hc
    · cases hc
      exact nofun
  | ok confirm =>
    show Deletes a v ((Prog.require (confirms confirm a) _ >>= _) v)
    cases confirms confirm a with
    | false =>
      exact deletes_raise (e := .error 400 "confirm must repeat the accountId being deleted")
        (by decide) []
    | true =>
      show Deletes a v ((exec (deleteAccount a) >>= _) v)
      have heval := deleteAccount_eval a v.db
      cases hf : v.db.accounts.find a with
      | none =>
        rw [hf] at heval
        rw [Prog.bind_run, exec_run heval]
        exact deletes_raise (e := .error 404 "unknown account") (by decide) _
      | some record =>
        rw [hf] at heval
        rw [Prog.bind_run, exec_run heval]
        -- the rest removes files, and does not touch the database
        let rest : Handler Response := do
          Prog.each onRevoked (activeCredentialIds a v.db)
          Prog.each discardSession (ownUploads a v.db)
          Prog.each deleteBytes (deletedHashes a v.db)
          pure (deletionAnswer a record v.db)
        let w : Server := { v with db := v.db.without a }
        show Deletes a v ⟨(rest w).result, (rest w).state, [w] ++ (rest w).trace⟩
        right
        obtain ⟨hstate, hresult⟩ := onRevoked_then (activeCredentialIds a v.db)
          (do Prog.each discardSession (ownUploads a v.db)
              Prog.each deleteBytes (deletedHashes a v.db)
              pure (deletionAnswer a record v.db) : Handler Response) w
        obtain ⟨hdb, -, hanswer⟩ :=
          files_after { w with hub := w.hub.disconnects (activeCredentialIds a v.db) }
            (ownUploads a v.db) (deletedHashes a v.db) (deletionAnswer a record v.db)
        refine ⟨(congrArg Server.db hstate).trans hdb, ?_⟩
        cases hr : (rest w).result with
        | ok r =>
          left
          rw [finish_ok rfl, hanswer r (hresult.symm.trans hr)]
          rfl
        | error e =>
          right
          rw [finish_error rfl]
          exact removals_raise _ _ _ _ e (hresult.symm.trans hr)

/-- What guards the administration never answers 200. -/
theorem guard_status {cfg : Config} {header : Option String} {route : AdminRoute} {e : Abort}
    (h : route.guard cfg header = .error e) : e.response.status = 401 := by
  have hauth : adminAuth cfg header = .error e → e.response.status = 401 := by
    unfold adminAuth
    intro h
    split at h
    · cases h
      rfl
    · split at h <;> cases h
      rfl
  cases route with
  | enroll body => cases h
  | _ => exact hauth h

/-- **A deletion of the account erases its vault.** -/
theorem deletion_enacts (cfg : Config) (host : Host) (env : Env) (header : Option String)
    (hread : body.read = true) (v : Server) :
    Enacts a .erase (handleAdmin cfg host env header (.deleteAccount a body)) v := by
  have hdeletes : Deletes a v (handleAdmin cfg host env header (.deleteAccount a body) v) := by
    unfold handleAdmin
    split
    · cases hg : AdminRoute.guard cfg header (.deleteAccount a body) with
      | error e => exact deletes_raise (by rw [guard_status hg]; decide) []
      | ok u => exact deletion_deletes hread
    · rename_i hmount
      cases hg :
        (if cfg.authMode = .perAccount then AdminRoute.guard cfg header (.deleteAccount a body)
          else .ok ()) with
      | error e =>
        refine deletes_raise ?_ []
        split at hg
        · rw [guard_status hg]; decide
        · cases hg
      | ok u =>
        refine .inl ⟨((unmounted_frame (π := id) cfg host header) v).1, ?_⟩
        show (finish (unmounted cfg host header v)).status ≠ 200
        cases hr : (unmounted cfg host header v).result with
        | ok r =>
          rw [finish_ok hr]
          have := unmounted_status cfg host v header hr
          omega
        | error e =>
          unfold unmounted readDb at hr
          rw [Prog.get_bind] at hr
          dsimp only at hr
          cases hauth : authenticate cfg host v.db header with
          | ok c => rw [hauth] at hr; cases hr
          | error r => rw [hauth] at hr; cases hr
  refine ⟨fun h => ?_, fun h1 h2 => ?_, fun n => ?_⟩
  · rcases hdeletes with ⟨-, hne⟩ | ⟨hdb, -⟩
    · exact absurd h hne
    · rw [hdb]
      exact erase_applies a v.db
  · rcases hdeletes with ⟨hstate, -⟩ | ⟨-, h | h⟩
    · rw [hstate]
    · omega
    · omega
  · -- every storage step on the database is the one delete
    refine Prog.reach_inv (I := fun d => vaultOf a d = vaultOf a v.db ∨ vaultOf a d = .empty)
      (fun d d' ⟨o, ho, he⟩ hd => ?_)
        ((handleAdmin_runs cfg host env header (.deleteAccount a body)).stopAfter trivial n)
          (.inl rfl)
    cases ho
    obtain ⟨r, he⟩ := Tx.eval_void_ok _ he
    rw [deleteAccount_eval] at he
    split at he <;> cases he
    · exact hd
    · exact .inr (erase_applies a d)

end Deletion

end GlanceVault.L3
