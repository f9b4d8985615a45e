import GlanceVault.L2Storage.Drain
import GlanceVault.L3Http.Deeds
/-!
# A page of rows on the wire

What a client makes of the JSON of `GET /sync/:app/list`, and which requests
can change what the next page will say.

* `pageOf_list`: a client reads the page that was listed, envelopes decoded.
* `perform_shelf`: a call that writes no rows of an app leaves its shelf alone.
-/
namespace GlanceVault.L3
open GlanceVault.Core GlanceVault.L1 GlanceVault.L1.Js GlanceVault.L2

/-! ## Reading a page -/

def member (j : Json) (k : String) : Option Json := (j.field k).toOption.join

def memberText (j : Json) (k : String) : Option String :=
  match member j k with
  | some (.str s) => some s
  | _ => none

def memberFlag (j : Json) (k : String) : Option Bool :=
  match member j k with
  | some (.bool b) => some b
  | _ => none

def memberNatural (j : Json) (k : String) : Option Nat :=
  match member j k with
  | some (.num n) => n.asNatural
  | _ => none

/-- A timestamp, or null. -/
def memberTime (j : Json) (k : String) : Option Rat :=
  match member j k with
  | some (.num n) => n.finite?
  | _ => none

/-- One element of `rows`, by its entity. -/
def entryOf (j : Json) : Option (String × Entry) := do
  let entityId ← memberText j "entityId"
  let envelope ← memberText j "envelope"
  let deleted ← memberFlag j "deleted"
  let seq ← memberNatural j "seq"
  pure (entityId, ⟨Base64.decode envelope, deleted, memberTime j "deletedAt", seq⟩)

/-- The rows of a page, and whether there are more. -/
def pageOf (r : Response) : Option (List (String × Entry) × Bool) := do
  let .json j := r.payload | none
  let some (.arr rows) := member j "rows" | none
  let entries ← rows.mapM entryOf
  let hasMore ← memberFlag j "hasMore"
  pure (entries, hasMore)

theorem entryOf_serializeRow (r : SyncRow) :
    entryOf (serializeRow r) = some (r.entityId, r.entry) := by
  have htime : memberTime (serializeRow r) "deletedAt" = r.deletedAt := by
    have hmember : member (serializeRow r) "deletedAt" =
        some ((r.deletedAt.map fun q => Json.num (.finite q)).getD .null) :=
      rfl
    unfold memberTime
    rw [hmember]
    cases r.deletedAt <;> rfl
  have hseq : memberNatural (serializeRow r) "seq" = some r.seq := JsNumber.asNatural_ofNat r.seq
  unfold entryOf
  rw [htime, hseq]
  show some (r.entityId,
    (⟨Base64.decode (Base64.encode r.envelope), r.deleted, r.deletedAt, r.seq⟩ : Entry)) = _
  rw [Base64.decode_encode]
  rfl

theorem entries_serialized (rows : List SyncRow) :
    (rows.map serializeRow).mapM entryOf = some (rows.map fun r => (r.entityId, r.entry)) := by
  induction rows with
  | nil => rfl
  | cons r rows ih => simp [entryOf_serializeRow, ih]

/-- **A client reads the page that was listed.** -/
theorem pageOf_list (a app : String) (since limit : Nat) (v : Server) :
    pageOf (finish (list a app since limit v)) =
      some ((listRows app a since limit v.db).rows.map (fun r => (r.entityId, r.entry)),
        (listRows app a since limit v.db).hasMore) := by
  show ((((listRows app a since limit v.db).rows.map serializeRow).mapM entryOf).bind fun entries =>
    some (entries, (listRows app a since limit v.db).hasMore)) = _
  rw [entries_serialized]
  rfl

/-- Store the entries of a page and move the cursor to the last number. -/
def absorb (c : DrainClient) (entries : List (String × Entry)) : DrainClient where
  since := entries.getLast?.elim c.since (·.2.seq)
  map := entries.foldl (fun m x e => if e = x.1 then some x.2 else m e) c.map

theorem absorb_pull (c : DrainClient) (p : Page SyncRow) :
    absorb c (p.rows.map fun r => (r.entityId, r.entry)) = c.pull p := by
  unfold absorb DrainClient.pull
  rw [List.foldl_map, List.getLast?_map]
  congr 1
  cases p.rows.getLast? <;> rfl

/-! ## The loop, between any writes -/

section Loop
variable {a app : String} {s : Drain}

theorem drain_start {db : Db} (h : (db.line a).Sound) : (⟨db, .start⟩ : Drain).Inv app a :=
  (drain_inv db h 1 (fun _ ho => nomatch ho) : (run (drainStep app a 1) ⟨db, .start⟩ []).Inv app a)

/-- Everything up to the cursor stays in the map, whatever is written. -/
theorem drain_moves (h : s.Inv app a) {db : Db} (hs : (db.line a).Sound) (hm : RowsMove a s.db db) :
    (⟨db, s.client⟩ : Drain).Inv app a := by
  refine ⟨hs, Nat.le_trans h.cursor hm.counter, fun e r hr hle => ?_,
    fun e he => hm.stays (h.stored e he)⟩
  have hc := h.cursor
  rcases hm.row app e with heq | ⟨x, hx, hlt⟩
  · exact h.below e r (heq ▸ hr) hle
  · have hr : db.syncRows.find (a, app, e) = some r := hr
    have hle : r.seq ≤ s.client.since := hle
    rw [hx] at hr
    cases hr
    omega

/-- After a page without more to come the map is the table. -/
theorem drain_final (h : s.Inv app a) {limit : Nat}
    (hp : (listRows app a s.client.since limit s.db).hasMore = false) (e : String) :
    (s.client.pull (listRows app a s.client.since limit s.db)).map e =
    (s.db.syncRows.find (a, app, e)).map SyncRow.entry := by
  have hnext : (drainStep app a limit s .pull).Inv app a := h.pull limit
  cases hr : s.db.syncRows.find (a, app, e) with
  | none =>
    cases hm : (s.client.pull (listRows app a s.client.since limit s.db)).map e with
    | none => rfl
    | some x =>
      have hstored : (s.db.syncRows.find (a, app, e)).isSome :=
        hnext.stored e (by show ((s.client.pull _).map e).isSome; rw [hm]; rfl)
      rw [hr] at hstored
      cases hstored
  | some r => exact hnext.below e r hr (page_last hp (listed_of hr).1)

/-- How many rows of the app are after the cursor. -/
def ahead (app a : String) (since : Nat) (db : Db) : Nat :=
  (db.syncRows.rows.filter fun r => decide (r.accountId = a ∧ r.app = app ∧ since < r.seq)).length

/-- A page takes the cursor forward. -/
theorem pull_forward (app a : String) (c : DrainClient) (db : Db) (limit : Nat) :
    c.since ≤ (c.pull (listRows app a c.since limit db)).since := by
  rcases pull_since (listRows app a c.since limit db) c with ⟨-, hsame⟩ | ⟨r, hr, hsince⟩
  · exact hsame.ge
  · exact hsince ▸ (listed hr).2.le

theorem ahead_le {since since' : Nat} (h : since ≤ since') (db : Db) :
    ahead app a since' db ≤ ahead app a since db :=
  (List.monotone_filter_right _ fun r hr => by
    simp only [decide_eq_true_eq] at hr ⊢
    exact ⟨hr.1, hr.2.1, Nat.lt_of_le_of_lt h hr.2.2⟩).length_le

/-- A page that is not the last one takes rows from what is ahead. -/
theorem ahead_pull (app a : String) (c : DrainClient) (db : Db) {limit : Nat} (hl : 1 ≤ limit) :
    (listRows app a c.since limit db).hasMore = false ∧ ahead app a
    (c.pull (listRows app a c.since limit db)).since db = 0 ∨
      ahead app a (c.pull (listRows app a c.since limit db)).since db < ahead app a c.since db := by
  cases hp : (listRows app a c.since limit db).hasMore with
  | false =>
    refine .inl ⟨rfl, List.length_eq_zero_iff.2 (List.filter_eq_nil_iff.2 fun r hr => ?_)⟩
    simp only [decide_eq_true_eq, not_and]
    rintro ha happ
    have hlast := page_last hp (List.mem_filter.2 ⟨hr, by simp [ha, happ]⟩)
    exact Nat.not_lt.2 hlast
  | true =>
    right
    obtain ⟨r, hr, hsince⟩ : ∃ r ∈ (listRows app a c.since limit db).rows,
        (c.pull (listRows app a c.since limit db)).since = r.seq := by
      rcases pull_since (listRows app a c.since limit db) c with ⟨hnil, -⟩ | h
      · exact absurd hnil (page_ne_nil hp hl)
      · exact h
    obtain ⟨hfind, hlt⟩ := listed hr
    obtain ⟨hmem, hkey⟩ := Table.find_some.1 hfind
    simp only [SyncRow.key, Prod.mk.injEq] at hkey
    rw [hsince]
    -- the last row of the page is no longer ahead
    have hsub :
        (db.syncRows.rows.filter fun x =>
          decide (x.accountId = a ∧ x.app = app ∧ r.seq < x.seq)).Sublist
        (db.syncRows.rows.filter fun x =>
          decide (x.accountId = a ∧ x.app = app ∧ c.since < x.seq)) :=
      List.monotone_filter_right _ fun x hx => by
        simp only [decide_eq_true_eq] at hx ⊢
        exact ⟨hx.1, hx.2.1, Nat.lt_trans hlt hx.2.2⟩
    refine Nat.lt_of_le_of_ne hsub.length_le fun heq => ?_
    have hin : r ∈ db.syncRows.rows.filter fun x =>
        decide (x.accountId = a ∧ x.app = app ∧ c.since < x.seq) :=
      List.mem_filter.2 ⟨hmem, by simp [hkey, hlt]⟩
    rw [← hsub.eq_of_length heq] at hin
    simp at hin

/-- What is ahead depends on the rows of the app only. -/
theorem ahead_congr {a app : String} {db db' : Db}
    (h : ∀ e, db'.syncRows.find (a, app, e) = db.syncRows.find (a, app, e)) (since : Nat) :
    ahead app a since db' = ahead app a since db := by
  have hmem : ∀ {d d' : Db}, (∀ e, d'.syncRows.find (a, app, e) = d.syncRows.find (a, app, e)) →
      ∀ r, r ∈ d'.syncRows.rows.filter
        (fun r => decide (r.accountId = a ∧ r.app = app ∧ since < r.seq)) →
        r ∈ d.syncRows.rows.filter fun r =>
          decide (r.accountId = a ∧ r.app = app ∧ since < r.seq) := by
    intro d d' h r hr
    obtain ⟨hin, hk⟩ := List.mem_filter.1 hr
    obtain ⟨ha, happ, hlt⟩ := of_decide_eq_true hk
    have hfind : d'.syncRows.find (a, app, r.entityId) = some r :=
      Table.find_some.2 ⟨hin, by rw [← ha, ← happ]; rfl⟩
    rw [h] at hfind
    exact List.mem_filter.2 ⟨Table.find_mem hfind, hk⟩
  have hnodup : ∀ d :
      Db, (d.syncRows.rows.filter fun r =>
        decide (r.accountId = a ∧ r.app = app ∧ since < r.seq)).Nodup :=
    fun d => d.syncRows.unique.of_map.filter _
  exact ((List.perm_ext_iff_of_nodup (hnodup db') (hnodup db)).2 fun r =>
    ⟨hmem h r, hmem (fun e => (h e).symm) r⟩).length_eq

end Loop

/-- A list request asks for at least one row. -/
theorem limitParam_pos {query : Query} {limit : Nat} (h : limitParam query = .ok limit) :
    1 ≤ limit :=
  (limitParam_range h).1

theorem accept_list {cfg : Config} {host : Host} {credential : Option Credential} {route : Route}
    {a app : String}
    {since limit : Nat} (h : accept cfg host credential route = .ok (a, .list app since limit)) :
    1 ≤ limit := by
  obtain ⟨claimed, hcheck, -⟩ := accept_ok h
  cases route with
  | syncList app' query =>
    obtain ⟨u, -, hcheck⟩ := bind_ok hcheck
    obtain ⟨c, hc, e⟩ := bind_ok hcheck
    cases e
    obtain ⟨b, -, hc⟩ := bind_ok hc
    obtain ⟨n, -, hc⟩ := bind_ok hc
    obtain ⟨m, hm, hc⟩ := bind_ok hc
    cases hc
    exact limitParam_pos hm
  | _ =>
    simp only [check, bind, Except.bind, pure, Except.pure] at hcheck
    repeat' split at hcheck
    all_goals cases hcheck

/-! ## What changes a page -/

/-- The rows of an account in an app, as a part of the server. -/
def Server.shelf (a app : String) (v : Server) (e : String) : Option SyncRow :=
  v.db.syncRows.find (a, app, e)

/-- The app whose rows a call writes. -/
def Call.shelves : Call → Option String
  | .batch app _ _ => some app
  | .deleteEntity app _ _ => some app
  | _ => none

section Shelf
variable {a app : String}

theorem shelf_of_tenant {v w : Server} (h : w.db.tenant a = v.db.tenant a) :
    w.shelf a app = v.shelf a app := by
  funext e
  unfold Server.shelf
  rw [← tenant_syncRow, h, tenant_syncRow]

theorem batchUpsert_shelf {app' : String} (h : app' ≠ app) (rows : List SyncRowInput)
    (now : Nat → String) :
    (batchUpsert app' a rows now).Keeps fun db e => db.syncRows.find (a, app, e) := by
  intro db r db' he
  obtain ⟨r', he'⟩ := batch_evals app' a rows now db
  rw [he] at he'
  cases he'
  funext e
  exact batch_others
    (fun row _ hk => h (congrArg (fun k : String × String × String => k.2.1) hk).symm) now db

theorem softDeleteRow_shelf {app' : String} (h : app' ≠ app) (e : String)
    (deletedAt : Option JsNumber) (now : String) :
    (softDeleteRow app' a e deletedAt now).Keeps fun db e => db.syncRows.find (a, app, e) := by
  intro db r db' he
  rw [softDeleteRow_eval] at he
  cases hf : db.syncRows.find (a, app', e) with
  | none => rw [hf] at he; cases he; rfl
  | some x =>
    rw [hf] at he
    by_cases hd : x.deleted = true
    · simp only [hd, if_true] at he
      cases he
      rfl
    · simp only [hd] at he
      cases he
      funext y
      have hkey : (x.tombstoned (latestSeq db x.accountId + 1) now deletedAt).key = (a, app', e) :=
        (Table.find_key hf : x.key = _)
      show (db.syncRows.upsert _).find _ = _
      rw [Table.find_upsert, hkey, if_neg]
      exact fun hk => h (congrArg (fun k : String × String × String => k.2.1) hk)

/-- **A call that writes no rows of the app** leaves its shelf alone. -/
theorem perform_shelf (cfg : Config) (host : Host) (credential : Option Credential) (env : Env)
    {b : String} {call : Call}
    (h : call.shelves = some app → b ≠ a) :
    Prog.Keeps (Server.shelf a app) (perform cfg host credential env b call) := by
  have hexec : ∀ {α : Type} {m : DbTx α}, m.Keeps (fun db e => db.syncRows.find (a, app, e)) →
      Prog.Keeps (Server.shelf a app) (exec m) :=
    fun hm => exec_keeps hm fun s db e => e
  have htenant : ∀ {α : Type} {m : DbTx α}, m.Keeps (Db.tenant a) →
      Prog.Keeps (Server.shelf a app) (exec m) := fun hm =>
    exec_keeps hm fun s db e => shelf_of_tenant e
  have hemit : ∀ n r, Prog.Keeps (Server.shelf a app)
      (do emit env b n; pure r : Handler Response) := fun n r =>
    .bind (emit_keeps fun _ _ _ _ => rfl) fun _ => .pure r
  cases call with
  | batch app' rows notify =>
    refine .bind (gated_keeps cfg _) fun _ => .bind ?_ fun r => .ite (hemit _ _) (.pure _)
    by_cases hb : b = a
    · subst hb
      exact hexec (batchUpsert_shelf (fun e => h (congrArg some e) rfl) rows env.clock)
    · exact htenant (batchUpsert_keeps hb app' rows env.clock)
  | deleteEntity app' e deletedAt =>
    refine .bind ?_ fun r => .bind (.found _ _) fun r => .ite (.pure _) (hemit _ _)
    by_cases hb : b = a
    · subst hb
      exact hexec (softDeleteRow_shelf (fun e => h (congrArg some e) rfl) e _ _)
    · exact htenant (softDeleteRow_keeps hb app' e _ _)
  | _ =>
    refine perform_frame_of cfg host credential env b _ (fun _ _ _ _ _ _ => rfl) fun area ha => ?_
    have hne : area ≠ .sync := by
      rintro rfl
      simp [Call.writes] at ha
    cases area with
    | sync => exact absurd rfl hne
    | files => exact fun _ _ => rfl
    | _ => exact ignores_of fun _ => rfl

end Shelf
end GlanceVault.L3
