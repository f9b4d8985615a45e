import GlanceVault.L2Storage.Drain
import GlanceVault.L2Storage.Aggregates
import GlanceVault.L3Http.Endpoints
/-!
# Rows by the path of their entity

A client reads and deletes a row under `/sync/:app/` followed by its entity id,
percent-encoded. The id stands where the sync router has literals of its own:
`GET /:app/list` comes before `GET /:app/:entityId`, so the row of an entity
whose id spells `list`, in any case of its letters, cannot be read this way.
It can be deleted.

* `atPath_get`, `atPath_list`, `atPath_delete`: which handler such a request
  gets.
* `deleteEntity_row`: what a delete does to the rows.
* `entity_addressable`: for every other id, read and delete act on its row.
-/
namespace GlanceVault.L3
open GlanceVault.Core GlanceVault.Core.Routing GlanceVault.L1 GlanceVault.L1.Js GlanceVault.L2

/-! ## Requests by path -/

/-- The handler of a request without a body, past authentication. -/
def atPath (cfg : Config) (host : Host) (credential : Option Credential) (env : Env)
    (m : Method) (path : String)
    (query : Query) : Handler Response :=
  match dispatched m (pathSegments path) with
  | .target endpoint params =>
    match endpoint.route params query (.raw []) none with
    | some route => handle cfg host credential env route
    | none => pure ⟨404, [], .errorPage⟩
  | .badParam => pure ⟨400, [], .errorPage⟩
  | .unknown => pure ⟨404, [], .errorPage⟩

/-- `a-z0-9` -/
def isLowerDigit (c : Char) : Bool :=
  (97 ≤ c.toNat && c.toNat ≤ 122) || (48 ≤ c.toNat && c.toNat ≤ 57)

/-- What the names in `allowedApps` are checked by when the configuration is
loaded. mirrors src/config.ts:196 (`APP_NAME_RE`) -/
def isAppName (s : String) : Bool :=
  match s.toList with
  | [] => false
  | c :: cs =>
    isLowerDigit c && decide (cs.length ≤ 63) && cs.all fun c => isLowerDigit c || c == '-'

/-- `/sync/:app/` and `encodeURIComponent(entityId)` -/
def entityPath (app e : String) : String := syncPath app (Uri.encode e)

/-- For the account `a`, claimed as `claimed`, the path of `e` reads and deletes
the row of `e` and no other. -/
structure Addressable (cfg : Config) (host : Host) (credential : Option Credential)
    (app e claimed a : String) : Prop where
  read : ∀ env v query, query "accountId" = some (.str claimed) →
    let o := atPath cfg host credential env .get (entityPath app e) query v
    o.state = v ∧ match getRow app a e v.db with
      | some row => finish o = ⟨200, [], .json (serializeRow row)⟩
      | none => finish o = .error 404 "not found"
  delete : ∀ env v query deletedAt, query "accountId" = some (.str claimed) →
    queryNatural query "deletedAt" "deletedAt must be a non-negative integer" = .ok deletedAt →
    let o := atPath cfg host credential env .delete (entityPath app e) query v
    match getRow app a e v.db with
    | some row => (finish o).status = 200 ∧
        (∃ dead, getRow app a e o.state.db = some dead ∧ dead.deleted = true ∧
          dead.envelope = row.envelope) ∧
        ∀ k, k ≠ (a, app, e) → o.state.db.syncRows.find k = v.db.syncRows.find k
    | none => finish o = .error 404 "not found" ∧ o.state = v

section Paths
variable {cfg : Config} {host : Host} {credential : Option Credential} {env : Env}
  {v : Server} {query : Query}
  {app e claimed a : String} {deletedAt : Option Nat}

theorem appName_chars (h : isAppName app = true) :
    ∀ c ∈ app.toList, isLowerDigit c = true ∨ c = '-' := by
  unfold isAppName at h
  intro c hc
  split at h
  · cases h
  · rename_i d ds hd
    simp only [Bool.and_eq_true, List.all_eq_true, Bool.or_eq_true, beq_iff_eq] at h
    rw [hd] at hc
    rcases List.mem_cons.1 hc with rfl | hc
    · exact .inl h.1.1
    · exact h.2 c hc

/-- An application's name is one segment that stands for itself. -/
theorem appName_plain (h : isAppName app = true) :
    app ≠ "" ∧ '/' ∉ app.toList ∧ Uri.decode app = some app := by
  have hout : ∀ c ∈ app.toList, c ≠ '/' ∧ c ≠ '%' := by
    intro c hc
    rcases appName_chars h c hc with hl | rfl
    · constructor
      · rintro rfl
        cases hl
      · rintro rfl
        cases hl
    · decide
  refine ⟨?_, fun hm => (hout _ hm).1 rfl, Uri.decode_unescaped fun hm => (hout _ hm).2 rfl⟩
  rintro rfl
  cases h

theorem ne_empty_of_not_blank (h : isBlank e = false) : e ≠ "" := by
  rintro rfl
  cases h

theorem entityPath_segments (hname : isAppName app = true) (he : isBlank e = false) :
    pathSegments (entityPath app e) = ["sync", app, Uri.encode e] :=
  pathSegments_sync (appName_plain hname).2.1 (Uri.encode_no_slash e)
    (Uri.encode_ne_empty (ne_empty_of_not_blank he))

/-! ## Which handler -/

theorem atPath_get (hname : isAppName app = true) (he : isBlank e = false)
    (hlist : e.toLower ≠ "list") :
    atPath cfg host credential env .get (entityPath app e) query =
      handle cfg host credential env (.syncGet app e query) := by
  have hne := Uri.encode_ne_empty (ne_empty_of_not_blank he)
  unfold atPath
  rw [entityPath_segments hname he,
    dispatched_get (appName_plain hname).1 hne (appName_plain hname).2.2 (Uri.decode_encode e),
    if_neg (mt (sameLetters_encode e).1 hlist)]
  rfl

theorem atPath_list (hname : isAppName app = true) (he : isBlank e = false)
    (hlist : e.toLower = "list") :
    atPath cfg host credential env .get (entityPath app e) query =
      handle cfg host credential env (.syncList app query) := by
  have hne := Uri.encode_ne_empty (ne_empty_of_not_blank he)
  unfold atPath
  rw [entityPath_segments hname he,
    dispatched_get (appName_plain hname).1 hne (appName_plain hname).2.2 (Uri.decode_encode e),
    if_pos ((sameLetters_encode e).2 hlist)]
  rfl

theorem atPath_delete (hname : isAppName app = true) (he : isBlank e = false) :
    atPath cfg host credential env .delete (entityPath app e) query =
      handle cfg host credential env (.syncDelete app e query) := by
  have hne := Uri.encode_ne_empty (ne_empty_of_not_blank he)
  unfold atPath
  rw [entityPath_segments hname he,
    dispatched_delete (appName_plain hname).1 hne (appName_plain hname).2.2 (Uri.decode_encode e)]
  rfl

/-! ## What the handlers do -/

theorem handle_get (happ : app ∈ cfg.allowedApps) (hclaimed : isBlank claimed = false)
    (hscope : resolveScope cfg.authMode credential claimed = .ok a)
    (hq : query "accountId" = some (.str claimed)) :
    handle cfg host credential env (.syncGet app e query) = getEntity a app e := by
  have hid := queryAccountId_ok.2 ⟨hq, hclaimed⟩
  have haccept : accept cfg host credential (.syncGet app e query) = .ok (a, .getEntity app e) := by
    unfold accept check checkApp requiredAccountId resolve
    simp only [if_pos happ, bind, Except.bind, hid, hscope, pure, Except.pure]
  exact handle_admitted haccept env

theorem handle_delete (happ : app ∈ cfg.allowedApps) (hclaimed : isBlank claimed = false)
    (hscope : resolveScope cfg.authMode credential claimed = .ok a)
    (hq : query "accountId" = some (.str claimed))
    (hdel : queryNatural query "deletedAt" "deletedAt must be a non-negative integer" =
      .ok deletedAt) :
    handle cfg host credential env (.syncDelete app e query) =
      deleteEntity env a app e deletedAt := by
  have hid := queryAccountId_ok.2 ⟨hq, hclaimed⟩
  have haccept : accept cfg host credential (.syncDelete app e query) =
      .ok (a, .deleteEntity app e deletedAt) := by
    unfold accept check checkDelete checkApp requiredAccountId resolve
    simp only [if_pos happ, bind, Except.bind, hid, hdel, hscope, pure, Except.pure]
  exact handle_admitted haccept env

theorem getEntity_row : getEntity a app e v = match getRow app a e v.db with
    | some row => ⟨.ok ⟨200, [], .json (serializeRow row)⟩, v, []⟩
    | none => ⟨.error (.error 404 "not found"), v, []⟩ := by
  unfold getEntity readDb
  rw [Prog.get_bind]
  cases getRow app a e v.db with
  | none => rfl
  | some row => rfl

theorem deleteEntity_missing (h : getRow app a e v.db = none) :
    finish (deleteEntity env a app e deletedAt v) = .error 404 "not found" ∧
    (deleteEntity env a app e deletedAt v).state = v := by
  have heval : (softDeleteRow app a e (deletedAt.map .ofNat) (env.clock 0)).eval v.db =
      .ok (none, v.db) := by
    rw [softDeleteRow_eval, show v.db.syncRows.find (a, app, e) = none from h]
  unfold deleteEntity finish
  rw [Prog.bind_run, exec_run heval]
  exact ⟨rfl, rfl⟩

/-- A delete of a stored row leaves its tombstone, and the other rows alone. -/
theorem deleteEntity_row {row : SyncRow} (h : getRow app a e v.db = some row) :
    (finish (deleteEntity env a app e deletedAt v)).status = 200 ∧
      (∃ dead, getRow app a e (deleteEntity env a app e deletedAt v).state.db = some dead ∧
        dead.deleted = true ∧
        dead.envelope = row.envelope) ∧
      ∀ k, k ≠ (a, app, e) → (deleteEntity env a app e deletedAt v).state.db.syncRows.find k =
        v.db.syncRows.find k := by
  have hfind : v.db.syncRows.find (a, app, e) = some row := h
  have hkey : row.key = (a, app, e) := Table.find_key hfind
  cases hd : row.deleted with
  | true =>
    have heval : (softDeleteRow app a e (deletedAt.map .ofNat) (env.clock 0)).eval v.db =
        .ok (some ⟨row.seq, true⟩, v.db) := by
      rw [softDeleteRow_eval, hfind]
      exact if_pos hd
    unfold deleteEntity finish
    rw [Prog.bind_run, exec_run heval]
    exact ⟨rfl, ⟨row, h, hd, rfl⟩, fun _ _ => rfl⟩
  | false =>
    have heval : (softDeleteRow app a e (deletedAt.map .ofNat) (env.clock 0)).eval v.db
        = .ok (some ⟨latestSeq v.db a + 1, false⟩,
          v.db.tombstoneRow row (deletedAt.map .ofNat) (env.clock 0)) := by
      rw [softDeleteRow_eval, hfind]
      exact if_neg (by rw [hd]; exact Bool.false_ne_true)
    have hrows : ∀ k, (v.db.tombstoneRow row (deletedAt.map .ofNat) (env.clock 0)).syncRows.find k =
        if row.key = k then some
          (row.tombstoned (latestSeq v.db row.accountId + 1) (env.clock 0) (deletedAt.map .ofNat))
        else v.db.syncRows.find k := fun k => Table.find_upsert _ _ _
    unfold deleteEntity finish
    rw [Prog.bind_run, exec_run heval]
    refine ⟨rfl,
      ⟨row.tombstoned (latestSeq v.db row.accountId + 1) (env.clock 0) (deletedAt.map .ofNat), ?_,
        rfl, rfl⟩,
      fun k hk => ?_⟩
    · exact (hrows (a, app, e)).trans (if_pos hkey)
    · exact (hrows k).trans (if_neg fun e' => hk (e'.symm.trans hkey))

/-- A list request that names its account only. -/
theorem list_answers (host : Host) (env : Env) (v : Server) (happ : app ∈ cfg.allowedApps)
    (hclaimed : isBlank claimed = false)
    (hscope : resolveScope cfg.authMode credential claimed = .ok a) :
    (finish (handle cfg host credential env
      (.syncList app fun k => if k = "accountId" then some (.str claimed) else none) v)).status =
        200 := by
  have hid :
      queryAccountId (fun k => if k = "accountId" then some (.str claimed) else none) =
        some claimed :=
    queryAccountId_ok.2 ⟨rfl, hclaimed⟩
  have haccept :
      accept cfg host credential
        (.syncList app fun k => if k = "accountId" then some (.str claimed) else none)
      = .ok (a, .list app 0 defaultLimit) := by
    have hsince : sinceParam (fun k => if k = "accountId" then some (.str claimed) else none) =
        .ok 0 :=
      rfl
    have hlimit : limitParam (fun k => if k = "accountId" then some (.str claimed) else none) =
        .ok defaultLimit :=
      rfl
    unfold accept check checkList checkApp requiredAccountId resolve
    simp only [if_pos happ, bind, Except.bind, hid, hsince, hlimit, hscope, pure, Except.pure]
  rw [handle_admitted haccept]
  rfl

end Paths

/-- A row that a batch names is stored, and stays until its account is deleted. -/
theorem entity_stays {app a e : String} {rows : List SyncRowInput} {now : Nat → String}
    {db db' : Db} {res : BatchResult}
    (h : (batchUpsert app a rows now).eval db = .ok (res, db')) (he : e ∈ rows.map (·.entityId)) :
    ∀ ops : List (StoreOp × Fault), (∀ o ∈ ops, o.1 ≠ .deleteAccount a) →
    (getRow app a e (runOps db' ops)).isSome := by
  have hstored : (getRow app a e db').isSome := by
    have hin : e ∈ storedEntities app a db' := by
      rw [(batchUpsert_rows h).2]
      exact Finset.mem_union_right _ (List.mem_toFinset.2 he)
    exact mem_storedEntities.1 hin
  have hstep : ∀ d (o : StoreOp × Fault), o.1 ≠ .deleteAccount a → (getRow app a e d).isSome →
      (getRow app a e (StoreOp.commit o d).2).isSome := fun d o ho hd =>
        ((rows_move o.1 ho).commit .refl o.2 d).stays hd
  exact fun ops hops => run_inv_of hstep ops db'
    (allSteps_mem ops db' fun o ho _ => hops o ho) hstored

/-- **The path of an entity id reads and deletes its row, unless the id spells
`list`**; a row once written is not missing. -/
theorem entity_addressable (cfg : Config) (host : Host)
    (credential : Option Credential) {app e claimed a : String}
    (happ : app ∈ cfg.allowedApps) (hname : isAppName app = true) (he : isBlank e = false)
    (hclaimed : isBlank claimed = false)
      (hscope : resolveScope cfg.authMode credential claimed = .ok a) :
    (Addressable cfg host credential app e claimed a ↔ e.toLower ≠ "list") ∧
    ∀ (rows : List SyncRowInput) now db db' res ops,
      (batchUpsert app a rows now).eval db = .ok (res, db') →
      e ∈ rows.map (·.entityId) → (∀ o ∈ ops, o.1 ≠ .deleteAccount a) →
      (getRow app a e (runOps db' ops)).isSome := by
  refine ⟨⟨fun h hlist => ?_, fun hlist => ⟨fun env v query hq => ?_,
    fun env v query deletedAt hq hdel => ?_⟩⟩,
    fun rows now db db' res ops h he' hops => entity_stays h he' ops hops⟩
  · -- on an empty volume the read should find nothing
    have hget := (h.read ⟨fun _ => "", "", "", "", fun _ => false⟩ .fresh
      (fun k => if k = "accountId" then some (.str claimed) else none) rfl).2
    rw [atPath_list hname he hlist] at hget
    have h200 :=
      list_answers host ⟨fun _ => "", "", "", "", fun _ => false⟩ .fresh happ hclaimed hscope
    have hmiss : getRow app a e Server.fresh.db = none := rfl
    rw [hmiss] at hget
    rw [hget] at h200
    cases h200
  · rw [atPath_get hname he hlist, handle_get happ hclaimed hscope hq, getEntity_row]
    cases getRow app a e v.db with
    | none => exact ⟨rfl, rfl⟩
    | some row => exact ⟨rfl, rfl⟩
  · rw [atPath_delete hname he, handle_delete happ hclaimed hscope hq hdel]
    cases h : getRow app a e v.db with
    | none => exact deleteEntity_missing h
    | some row => exact deleteEntity_row h

theorem entity_addressable_reserved :
    Addressable oneApp plainHost none "dayglance" "__glance_keycheck" "house" "house" ∧
    ∀ (rows : List SyncRowInput) now db db' res ops,
      (batchUpsert "dayglance" "house" rows now).eval db = .ok (res, db') →
      "__glance_keycheck" ∈ rows.map (·.entityId) → (∀ o ∈ ops, o.1 ≠ .deleteAccount "house") →
      (getRow "dayglance" "house" "__glance_keycheck" (runOps db' ops)).isSome := by
  have h := entity_addressable oneApp plainHost none
    (show "dayglance" ∈ oneApp.allowedApps by decide) (by decide)
    (show isBlank "__glance_keycheck" = false by decide)
      (show isBlank "house" = false by decide) rfl
  exact ⟨h.1.2 (by decide +kernel), h.2⟩

/-- A stored row of the entity `list`. -/
def listStored : Server :=
  (batch oneApp idle "house" "dayglance" [⟨"list", [], false, false, none⟩] true .fresh).state

/-- The first member of a JSON response. -/
def firstMember (r : Response) : String :=
  match r.payload with
  | .json (.obj ((k, _) :: _)) => k
  | _ => ""

/-- It is stored, and its path answers with the page of all rows. -/
theorem list_hidden : (getRow "dayglance" "house" "list" listStored.db).isSome = true ∧
    firstMember
      (finish (atPath oneApp plainHost none idle .get
        (entityPath "dayglance" "list") household listStored)) = "rows" ∧
    ¬ Addressable oneApp plainHost none "dayglance" "list" "house" "house" := by
  have hpage :
      firstMember
        (finish (atPath oneApp plainHost none idle .get
          (entityPath "dayglance" "list") household listStored))
      = "rows" := by
    rw [atPath_list (by decide) (by decide) (by decide +kernel)]
    rfl
  refine ⟨rfl, hpage, fun h => ?_⟩
  have hrow := (h.read idle listStored household rfl).2
  have hstored : getRow "dayglance" "house" "list" listStored.db =
      some ⟨"house", "dayglance", "list", 1, [], false, "", none⟩ :=
    rfl
  rw [hstored] at hrow
  rw [hrow] at hpage
  exact absurd hpage (by decide)

end GlanceVault.L3
