import GlanceVault.L3Http.Transparency
/-!
# Deleting a tombstone again

A client that drains a tombstone may send it back, as a row delete or as a row
of a batch. Both paths leave the row as it is: the delete sees that it is one,
the batch compares the envelope it was sent with the one it holds. What was sent
was read from a page of the server's, so its base64 decodes to the bytes stored.

* `checkRow_sendsBack`: what a batch row that sends a tombstone back decodes to.
* `batch_skipped`, `deleteEntity_skipped`: both handlers as one step that
  changes nothing.
* `redelete_noop`: the whole request.
-/
namespace GlanceVault.L3
open GlanceVault.Core GlanceVault.L1 GlanceVault.L1.Js GlanceVault.L2

/-- `raw` is a deleted batch row with the entity and the envelope of `r` as a
page serves them; the flags and the timestamp are its own. -/
structure SendsBack (r : SyncRow) (raw : Json) : Prop where
  entityId : raw.field "entityId" = (serializeRow r).field "entityId"
  envelope : raw.field "envelope" = (serializeRow r).field "envelope"
  deleted : raw.field "deleted" = .ok (some (.bool true))
  insertOnly : ∃ flag : Option Bool, raw.field "insertOnly" = .ok (flag.map Json.bool)
  deletedAt : ∃ t : Option Nat, raw.field "deletedAt" = .ok (t.map Json.nat)

/-- The tombstones of an account and app. -/
def Tombstone (db : Db) (app a : String) (r : SyncRow) : Prop :=
  r ∈ db.syncRows.rows ∧ r.accountId = a ∧ r.app = app ∧ r.deleted = true

/-- A request that deletes tombstones of the account again: the delete of one,
or a batch of such rows. -/
inductive Redelete (db : Db) (app a : String) : Route → Prop
  | delete (r : SyncRow) (query : Query) (row : Tombstone db app a r)
    (accountId : query "accountId" = some (.str a))
      (deletedAt : ∀ v, query "deletedAt" = some v → ∃ t : Nat, v.number = .ofNat t) :
      Redelete db app a (.syncDelete app r.entityId query)
  | batch (body : Json) (raws : List Json) (accountId : body.field "accountId" =
    .ok (some (.str a)))
      (rows : body.field "rows" = .ok (some (.arr raws)))
      (notify : ∃ flag : Option Bool, body.field "notify" = .ok (flag.map Json.bool))
        (nonempty : raws ≠ [])
      (tombstones : ∀ raw ∈ raws, ∃ r, Tombstone db app a r ∧ SendsBack r raw) :
      Redelete db app a (.syncBatch app (.json body))

theorem Redelete.account {db : Db} {app a : String} {route : Route} (h : Redelete db app a route) :
    ∃ r ∈ db.syncRows.rows, r.accountId = a := by
  cases h with
  | delete r query row accountId deletedAt => exact ⟨r, row.1, row.2.1⟩
  | batch body raws accountId rows notify nonempty tombstones =>
    obtain ⟨raw, hraw⟩ := List.exists_mem_of_ne_nil raws nonempty
    obtain ⟨r, hr, -⟩ := tombstones raw hraw
    exact ⟨r, hr.1, hr.2.1⟩

/-- No stored row has a blank account or entity id. -/
def NamedRows (db : Db) : Prop :=
  ∀ r ∈ db.syncRows.rows, isBlank r.accountId = false ∧ isBlank r.entityId = false

/-! ## The checks -/

theorem optionalFlag_ok (flag : Option Bool) (message : String) :
    optionalFlag (flag.map Json.bool) message = .ok flag := by
  cases flag <;> rfl

theorem optionalNatural_ok (t : Option Nat) (message : String) :
    optionalNatural (t.map Json.nat) message = .ok t := by
  cases t with
  | none => rfl
  | some n =>
    simp only [Option.map_some, optionalNatural, requiredNatural, Json.nat,
      JsNumber.asNatural_ofNat]
    rfl

/-- A row that sends a tombstone back decodes to its entity and its bytes. -/
theorem checkRow_sendsBack {r : SyncRow} (hb : isBlank r.entityId = false) {raw : Json}
    (h : SendsBack r raw) (i : Nat) :
    ∃ row, checkRow i raw = .ok row ∧ row.entityId = r.entityId ∧ row.envelope = r.envelope ∧
    row.deleted = true := by
  obtain ⟨flag, hflag⟩ := h.insertOnly
  obtain ⟨t, ht⟩ := h.deletedAt
  have hid : raw.field "entityId" = .ok (some (.str r.entityId)) := h.entityId
  have henv : raw.field "envelope" = .ok (some (.str (Base64.encode r.envelope))) := h.envelope
  refine ⟨⟨r.entityId, r.envelope, true, flag = some true, t.map .ofNat⟩, ?_, rfl, rfl, rfl⟩
  have hdeleted : optionalFlag (some (.bool true)) s!"rows[{i}].deleted must be a boolean" =
      .ok (some true) :=
    rfl
  unfold checkRow
  rw [field_ok hid, field_ok henv, field_ok h.deleted, field_ok hflag, field_ok ht]
  simp only [bind, Except.bind, requiredText_ok.2 ⟨rfl, hb⟩, requiredString,
    hdeleted, optionalFlag_ok,
    optionalNatural_ok, Base64.decode_encode]
  rfl

theorem checkRows_sendBack {db : Db} {app a : String} (hnamed : NamedRows db) :
    ∀ (raws : List Json) (i : Nat),
    (∀ raw ∈ raws, ∃ r, Tombstone db app a r ∧ SendsBack r raw) →
    ∃ rows, checkRows i raws = .ok rows ∧
      ∀ row ∈ rows, row.deleted = true ∧ ∃ r, Tombstone db app a r ∧ r.entityId = row.entityId ∧
      r.envelope = row.envelope
  | [], i, _ => ⟨[], rfl, nofun⟩
  | raw :: raws, i, h => by
    obtain ⟨r, hr, hback⟩ := h raw List.mem_cons_self
    obtain ⟨row, hrow, hid, henv, hdel⟩ := checkRow_sendsBack (hnamed r hr.1).2 hback i
    obtain ⟨rows, hrows, hall⟩ :=
      checkRows_sendBack hnamed raws (i + 1) fun x hx => h x (List.mem_cons_of_mem _ hx)
    refine ⟨row :: rows, ?_, fun x hx => ?_⟩
    · rw [checkRows, hrow, hrows]
      rfl
    · rcases List.mem_cons.1 hx with rfl | hx
      · exact ⟨hdel, r, hr, hid.symm, henv.symm⟩
      · exact hall x hx

/-! ## The handlers -/

section Handlers
variable {app a : String}

theorem Tombstone.find {db : Db} {r : SyncRow} (h : Tombstone db app a r) :
    db.syncRows.find (a, app, r.entityId) = some r := by
  obtain ⟨hr, rfl, rfl, -⟩ := h
  exact Table.find_some.2 ⟨hr, rfl⟩

/-- The tombstone over the same tombstone is skipped. -/
theorem batchSkips_sendBack {db : Db} {r : SyncRow} (h : Tombstone db app a r) {row : SyncRowInput}
    (hdel : row.deleted = true) (hid : r.entityId = row.entityId)
    (henv : r.envelope = row.envelope) :
    batchSkips db app a row = true := by
  have hf := h.find
  rw [hid] at hf
  unfold batchSkips tombstone
  rw [hf, hdel]
  simp [h.2.2.2, henv]

/-- A batch of rows that are skipped. -/
theorem batchLoop_skipped (now : Nat → String) (acc : BatchResult) (db : Db) :
    ∀ rows : List SyncRowInput,
    (∀ row ∈ rows, batchSkips db app a row = true) → (batchLoop app a now rows acc).eval db = .ok
    (acc, db)
  | [], _ => rfl
  | row :: rows, h => by
    rw [batchLoop, Tx.eval_bind, batchRow_eval, if_pos (h row List.mem_cons_self)]
    exact batchLoop_skipped now acc db rows fun x hx => h x (List.mem_cons_of_mem _ hx)

theorem batch_skipped (cfg : Config) (env : Env) {rows : List SyncRowInput} (notify : Bool)
    {s : Server} (h : ∀ row ∈ rows, batchSkips s.db app a row = true) :
    batch cfg env a app rows notify s = ⟨.ok (BatchResult.json ⟨0, 0⟩), s, [s]⟩ := by
  have hadmitted : ∀ gate, admitSyncBatch gate a app (rows.map (·.entityId)) s.db =
      none := fun gate => by
    refine admit_stored (Finset.sdiff_eq_empty_iff_subset.2 fun e he => ?_)
    obtain ⟨row, hrow, rfl⟩ := List.mem_map.1 (List.mem_toFinset.1 he)
    exact mem_storedEntities.2 (has_of_skips (h row hrow))
  have heval : (batchUpsert app a rows env.clock).eval s.db = .ok (⟨0, 0⟩, s.db) :=
    batchLoop_skipped _ _ _ rows h
  unfold batch
  rw [gated_bind fun gate _ => hadmitted gate, Prog.bind_run, exec_run heval]
  dsimp only
  rw [if_neg (by simp)]
  rfl

theorem deleteEntity_skipped (env : Env) {s : Server} {r : SyncRow} (h : Tombstone s.db app a r)
    (t : Option Nat) :
    deleteEntity env a app r.entityId t s = ⟨.ok (.json 200 [("seq", .nat r.seq)]), s, [s]⟩ := by
  have heval : (softDeleteRow app a r.entityId (t.map .ofNat) (env.clock 0)).eval s.db =
      .ok (some ⟨r.seq, true⟩, s.db) := by
    rw [softDeleteRow_eval, h.find]
    dsimp only
    rw [if_pos h.2.2.2]
  unfold deleteEntity
  rw [Prog.bind_run, exec_run heval]
  rfl

end Handlers

/-! ## The request -/

/-- What the checks make of it. -/
theorem check_redelete {cfg : Config} (host : Host) {db : Db} {app a : String} {route : Route}
    (hnamed : NamedRows db) (happ : app ∈ cfg.allowedApps) (h : Redelete db app a route) :
    ∃ call, check cfg host route = .ok (a, call) ∧
      ((∃ r t, call = .deleteEntity app r.entityId t ∧ Tombstone db app a r) ∨
        ∃ rows notify, call = .batch app rows notify ∧
        ∀ row ∈ rows, batchSkips db app a row = true) := by
  have hcheckApp : checkApp cfg app = .ok () := if_pos happ
  have hblank : isBlank a = false := by
    obtain ⟨r, hr, rfl⟩ := h.account
    exact (hnamed r hr).1
  cases h with
  | delete r query row accountId deletedAt =>
    have haccount : requiredAccountId query = .ok a := by
      unfold requiredAccountId
      rw [queryAccountId_ok.2 ⟨accountId, hblank⟩]
    have htime : ∃ t, queryNatural query "deletedAt" "deletedAt must be a non-negative integer" =
        .ok t := by
      unfold queryNatural
      cases hq : query "deletedAt" with
      | none => exact ⟨none, rfl⟩
      | some v =>
        obtain ⟨t, ht⟩ := deletedAt v hq
        refine ⟨some t, ?_⟩
        dsimp only
        rw [ht, JsNumber.asNatural_ofNat]
    obtain ⟨t, ht⟩ := htime
    refine ⟨.deleteEntity app r.entityId t, ?_, .inl ⟨r, t, rfl, row⟩⟩
    unfold check checkDelete
    simp only [hcheckApp, haccount, ht, bind, Except.bind, pure, Except.pure]
  | batch body raws accountId rows notify nonempty tombstones =>
    obtain ⟨flag, hflag⟩ := notify
    obtain ⟨decoded, hdecoded, hall⟩ := checkRows_sendBack hnamed raws 0 tombstones
    refine ⟨.batch app decoded (flag ≠ some false), ?_, .inr ⟨decoded, _, rfl, fun row hrow => ?_⟩⟩
    · unfold check checkBatch
      simp only [hcheckApp, jsonBody, field_ok accountId, field_ok rows, field_ok hflag,
        requiredText_ok.2 ⟨rfl, hblank⟩,
        requiredArray, optionalFlag_ok, hdecoded, bind, Except.bind, pure, Except.pure]
    · obtain ⟨hdel, r, hr, hid, henv⟩ := hall row hrow
      exact batchSkips_sendBack hr hdel hid henv

/-- **Deleting tombstones again changes nothing**, and succeeds. -/
theorem redelete_noop {cfg : Config} (host : Host) {credential : Option Credential} (env : Env)
    {s : Server}
    {app a : String} {route : Route} (hnamed : NamedRows s.db) (happ : app ∈ cfg.allowedApps)
    (hscope : resolveScope cfg.authMode credential a = .ok a) (h : Redelete s.db app a route) :
    ∃ r, handle cfg host credential env route s = ⟨.ok r, s, [s]⟩ ∧ r.status = 200 := by
  obtain ⟨call, hcheck, hcall⟩ := check_redelete host hnamed happ h
  have haccept : accept cfg host credential route = .ok (a, call) := by
    unfold accept resolve
    rw [hcheck]
    simp only [bind, Except.bind, hscope]
    rfl
  rw [handle_admitted haccept]
  rcases hcall with ⟨r, t, rfl, hr⟩ | ⟨rows, notify, rfl, hrows⟩
  · exact ⟨_, deleteEntity_skipped env hr t, rfl⟩
  · exact ⟨_, batch_skipped cfg env notify hrows, rfl⟩

end GlanceVault.L3
