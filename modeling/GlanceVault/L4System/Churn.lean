import GlanceVault.L3Http.Redelete
import GlanceVault.L4System.Operations
/-!
# Tombstone churn comes to rest

Clients that delete again what they have drained get an answer and nothing
else: the server they leave is the one they found, to the last column, number
and nudge.

* `named_after`: the ids of stored rows are the ones the routes let through.
* `redelete_run`: any interleaving of such requests.
* `tombstone_churn`: the same from every state a run reaches.
* `echoed_null`: a row sent back whole may be refused for its timestamp.
-/
namespace GlanceVault.L4
open GlanceVault.Core GlanceVault.L1 GlanceVault.L1.Js GlanceVault.L2 GlanceVault.L3

/-! ## The ids of stored rows -/

/-- An operation whose batch, if it is one, names its account and its rows. -/
def Names (o : StoreOp) : Prop :=
  ∀ app a rows now, o = .batchUpsert app a rows now → isBlank a = false ∧ ∀ row ∈ rows,
    isBlank row.entityId = false

theorem named_op {o : StoreOp} (ho : Names o) :
    o.tx.Moves fun db db' => NamedRows db → NamedRows db' := by
  refine rows_all (P := fun r => isBlank r.accountId = false ∧
    isBlank r.entityId = false) ?_ fun _ h _ _ _ => h
  intro app a rows now e row hrow seq t
  obtain ⟨ha, hrows⟩ := ho app a rows now e
  exact ⟨ha, hrows row hrow⟩

/-- A batch comes from its route, whose checks name it. -/
theorem accept_batch {cfg : Config} {host : Host} {credential : Option Credential} {route : Route}
    {a app : String}
    {rows : List SyncRowInput} {notify : Bool}
    (h : accept cfg host credential route = .ok (a, .batch app rows notify)) :
    isBlank a = false ∧ ∀ row ∈ rows, isBlank row.entityId = false := by
  obtain ⟨claimed, hcheck, hscope⟩ := accept_ok h
  rw [resolveScope_claimed hscope]
  cases route with
  | syncBatch app' body =>
    obtain ⟨c, hc, e⟩ := bind_ok hcheck
    cases e
    exact checkBatch_ok hc
  | _ =>
    simp only [check, bind, Except.bind, pure, Except.pure] at hcheck
    repeat' split at hcheck
    all_goals cases hcheck

/-- Every batch of an action is named. -/
theorem names_op {host : Host} {s : State} {act : Action} {o : StoreOp} (h : s.Op host act o) :
    Names o := by
  intro app a rows now e
  subst e
  cases act with
  | handle id env =>
    obtain ⟨w, b, call, hh, -, hcall⟩ := h
    obtain ⟨rfl, notify, rfl⟩ := hcall app a rows now rfl
    exact accept_batch (handled_accept hh).2
  | admin authorization route env => cases route <;> cases h
  | _ => rcases h with h | h <;> cases h

theorem named_after (host : Host) (cfg : Config) (es : List Event) :
    NamedRows (State.after host cfg es).server.db :=
  run_inv (I := fun s : State => NamedRows s.server.db) (fun _ _ h =>
    next_inv (fun _ d d' ho he => named_op (names_op ho) d () d' he) h) es (State.init cfg) nofun

/-! ## Any interleaving -/

/-- A request of the account, past its authentication, that deletes tombstones
again. -/
def Redeletes (s : State) (app a : String) (credential : Option Credential)
    (route : Route) : Prop :=
  Redelete s.server.db app a route ∧ resolveScope s.cfg.authMode credential a = .ok a

/-- Clients of the account send such requests, and the server handles what is
in flight. -/
def Churns (host : Host) (s : State) (app a : String) : Action → Prop
  | .arrive _ req =>
    ∃ c, authenticate s.cfg host s.server.db req.authorization = .ok c ∧
      Redeletes s app a c req.route
  | .handle _ _ => True
  | _ => False

/-- What the requests leave as it is in `s`. -/
structure AtRest (s : State) (app a : String) (t : State) : Prop where
  cfg : t.cfg = s.cfg
  server : t.server = s.server
  pending : ∀ w ∈ t.pending, Redeletes s app a w.credential w.route

section Rest
variable {host : Host} {s : State} {app a : String}

/-- **One step leaves the server alone, and an answer it gives is a success.** -/
theorem atRest_act (hnamed : NamedRows s.server.db) (happ : app ∈ s.cfg.allowedApps) {t : State}
    (h : AtRest s app a t) {act : Action} (hact : Churns host s app a act) :
    AtRest s app a (t.act host act) ∧ ∀ r, t.answer host act = some r → r.status = 200 := by
  cases act with
  | arrive id req =>
    obtain ⟨c, hauth, hreq⟩ := hact
    have hsame : authenticate t.cfg host t.server.db req.authorization = .ok c := by
      rw [h.cfg, h.server, hauth]
    refine ⟨⟨h.cfg, h.server, fun w hw => ?_⟩, fun r hr => ?_⟩
    · simp only [State.act, State.queue, hsame] at hw
      rcases List.mem_append.1 hw with hw | hw
      · exact h.pending w hw
      · rw [List.mem_singleton.1 hw]
        exact hreq
    · simp only [State.answer, hsame] at hr
      cases hr
  | handle id env =>
    have hpending : ∀ w ∈ (t.act host (.handle id env)).pending,
        Redeletes s app a w.credential w.route := fun w hw =>
      h.pending w (List.mem_filter.1 hw).1
    cases hw : t.waiting id with
    | none =>
      have hwork : (t.act host (.handle id env)).server = t.server := by
        show (t.work host (.handle id env) t.server).state = _
        rw [work_unknown host hw]
        rfl
      refine ⟨⟨h.cfg, hwork.trans h.server, hpending⟩, fun r hr => ?_⟩
      simp only [State.answer, hw, Option.map_none] at hr
      cases hr
    | some w =>
      obtain ⟨hreq, hscope⟩ := h.pending w (List.mem_of_find?_eq_some hw)
      obtain ⟨r, hrun, hstatus⟩ := redelete_noop host env hnamed happ hscope hreq
      rw [← h.cfg, ← h.server] at hrun
      have hwork : (t.act host (.handle id env)).server = t.server := by
        show (t.work host (.handle id env) t.server).state = _
        rw [work_handle host hw, Prog.state_bind_pure, hrun]
      refine ⟨⟨h.cfg, hwork.trans h.server, hpending⟩, fun r' hr => ?_⟩
      rw [answer_handle host hw, hrun] at hr
      cases hr
      exact hstatus
  | _ => exact absurd hact id

theorem redelete_run (hnamed : NamedRows s.server.db) (happ : app ∈ s.cfg.allowedApps)
    {as : List Action} (has : ∀ act ∈ as, Churns host s app a act)
    (hpending : ∀ w ∈ s.pending, Redeletes s app a w.credential w.route) :
    AtRest s app a (run (State.act host) s as) := by
  have hstep : ∀ (t : State) (act : Action), Churns host s app a act → AtRest s app a t →
      AtRest s app a (t.act host act) :=
    fun t act hact h => (atRest_act hnamed happ h hact).1
  exact run_inv_of hstep as s (allSteps_mem as s fun act hact _ => has act hact)
    { cfg := rfl, server := rfl, pending := hpending }

end Rest

/-- **Tombstone churn comes to rest.** In every state a run reaches, any clients
of an account may send any deletes and batch rows of its tombstones again, in any
order, number and interleaving, with any timestamp that is a non-negative
integer or with none: every answer is a success, and the server is the same to
the last column, counter and nudge. -/
theorem tombstone_churn (host : Host) (cfg : Config) (es : List Event) (app a : String)
    (as : List Action) :
    let s := State.after host cfg es
    app ∈ s.cfg.allowedApps → (∀ act ∈ as, Churns host s app a act) →
      (∀ w ∈ s.pending, Redeletes s app a w.credential w.route) →
      (run (State.act host) s as).server = s.server ∧
      ∀ before act after, as = before ++ act :: after →
        ∀ r, (run (State.act host) s before).answer host act = some r → r.status = 200 := by
  intro s happ has hpending
  have hnamed : NamedRows s.server.db := named_after host cfg es
  refine ⟨(redelete_run hnamed happ has hpending).server, fun before act after e => ?_⟩
  subst e
  have hbefore := redelete_run hnamed happ (fun x hx => has x (List.mem_append_left _ hx)) hpending
  exact (atRest_act hnamed happ hbefore (has act (List.mem_append_right _ List.mem_cons_self))).2

/-- The query of a request of the house. -/
def houseQuery : Query := fun k => if k = "accountId" then some (.str "house") else none

/-- The house deletes the entity `e`. -/
def deleteOne (e : String) : List Action :=
  ask (.syncDelete "dayglance" e houseQuery) (sampleEnv "" "t")

/-- The house sends rows of a batch. -/
def sendRows (rows : List Json) : List Action :=
  ask (.syncBatch "dayglance" (.json (.obj [("accountId", .str "house"), ("rows", .arr rows)])))
    (sampleEnv "" "t")

/-- A row that was written and deleted, without a timestamp. -/
def sampleTombstone : SyncRow := ⟨"house", "dayglance", "e", 2, [], true, "t", none⟩

def tombstoneStored : List Event := (writeOne "e" ++ deleteOne "e").map .run

/-- The tombstone is deleted again on both paths, twice in one batch. -/
theorem tombstone_churn_twice :
    let s := State.after sampleHost sampleConfig tombstoneStored
    let raw : Json :=
      .obj [("entityId", .str "e"), ("envelope", .str ""), ("deleted", .bool true),
        ("deletedAt", .nat 7)]
    (run (State.act sampleHost) s (deleteOne "e" ++ sendRows [raw, raw])).server = s.server := by
  intro s raw
  have hrow : Tombstone s.server.db "dayglance" "house" sampleTombstone := by
    unfold Tombstone
    decide +kernel
  have hraw : SendsBack sampleTombstone raw :=
    ⟨rfl, rfl, rfl, ⟨none, rfl⟩, ⟨some 7, rfl⟩⟩
  have hdelete : Redelete s.server.db "dayglance" "house"
      (.syncDelete "dayglance" "e" houseQuery) :=
    .delete sampleTombstone houseQuery hrow rfl nofun
  have hbatch : Redelete s.server.db "dayglance" "house"
      (.syncBatch "dayglance"
        (.json (.obj [("accountId", .str "house"), ("rows", .arr [raw, raw])]))) :=
    .batch _ [raw, raw] rfl rfl ⟨none, rfl⟩ nofun fun x hx => ⟨sampleTombstone, hrow, by
      rcases List.mem_cons.1 hx with rfl | hx
      · exact hraw
      · rw [List.mem_singleton.1 hx]; exact hraw⟩
  refine (tombstone_churn sampleHost sampleConfig tombstoneStored "dayglance" "house"
    (deleteOne "e" ++ sendRows [raw, raw]) (List.mem_singleton.2 rfl) (fun act hact => ?_) ?_).1
  · rcases List.mem_append.1 hact with h | h
    · rcases List.mem_cons.1 h with rfl | h
      · exact ⟨none, rfl, hdelete, rfl⟩
      · rw [List.mem_singleton.1 h]; trivial
    · rcases List.mem_cons.1 h with rfl | h
      · exact ⟨none, rfl, hbatch, rfl⟩
      · rw [List.mem_singleton.1 h]; trivial
  · have hnone : s.pending = [] := by decide +kernel
    rw [hnone]
    nofun

/-- The tombstone sent back exactly as the list page serves it, where its
timestamp is `null`, is refused. -/
theorem echoed_null :
    let s := State.after sampleHost sampleConfig tombstoneStored
    let t := run (State.act sampleHost) s [.arrive 0 ⟨some "Bearer token", .syncBatch "dayglance"
      (.json (.obj [("accountId", .str "house"), ("rows", .arr [serializeRow sampleTombstone])]))⟩]
    (listRows "dayglance" "house" 0 500 s.server.db).rows = [sampleTombstone] ∧
      sampleTombstone.deleted = true ∧
      (serializeRow sampleTombstone).field "deleted" = .ok (some (.bool true)) ∧
      (t.answer sampleHost (.handle 0 (sampleEnv "" "t"))).map (·.status) = some 400 := by
  refine ⟨by decide +kernel, rfl, rfl, by decide +kernel⟩

end GlanceVault.L4
