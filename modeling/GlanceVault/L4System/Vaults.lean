import GlanceVault.L3Http.Deeds
import GlanceVault.L4System.Versions
/-!
# The server as a collection of vaults

Over any run, with stops and restarts: what the tables hold for an account is
what its requests have done to it, one after the other, each of them wholly or
not at all. What was answered 200 is done and stays done; what was answered 4xx
is not; what was cut off, or answered 500, may be either. What a read shows is
what the vault holds.

* `next_vault`: one event.
* `perform_reads`: one read.
* `vaults_kept`: a run.
-/
namespace GlanceVault.L4
open GlanceVault.Core GlanceVault.L1 GlanceVault.L1.Js GlanceVault.L2 GlanceVault.L3

/-- The deed of an action for the account, if it is about one. -/
def State.deed (host : Host) (s : State) (a : String) (act : Action) : Option Deed :=
  match act with
  | .handle _ env => (s.handled host act).bind fun h => if h.2.1 = a then h.2.2.deed env else none
  | .admin _ (.deleteAccount b body) _ => if b = a ∧ body.read = true then some .erase else none
  | _ => none

/-- What the client knows of its request. -/
inductive Fate
  | done
  | undone
  | unknown
  deriving DecidableEq

def Fate.of (r : Response) : Fate :=
  if r.status = 200 then .done else if 400 ≤ r.status ∧ r.status < 500 then .undone else .unknown

def State.fate (host : Host) (s : State) : Event → Fate
  | .run act => ((s.answer host act).map Fate.of).getD .unknown
  | .stop _ _ _ => .unknown

/-- The deeds of a run for the account, as far as their fate is one of these. -/
def deeds (host : Host) (a : String) (fates : Fate → Bool) : State → List Event → List Deed
  | _, [] => []
  | s, e :: es =>
    (if fates (s.fate host e) then (s.deed host a e.action).toList else []) ++
      deeds host a fates (s.next host e) es

/-- A row, as an answer carries it. -/
def carriesEntity (e : String) (c : Content) (j : Json) : Prop :=
  j.field "entityId" = .ok (some (.str e)) ∧ j.field "envelope" =
    .ok (some (.str (Base64.encode c.envelope))) ∧
    j.field "deleted" = .ok (some (.bool c.deleted)) ∧
    j.field "deletedAt" = .ok (some ((c.deletedAt.map fun q => Json.num (.finite q)).getD .null))

/-- An intent, as an answer carries it. -/
def carriesEvent (e : String) (x : Bytes × String) (j : Json) : Prop :=
  j.field "eventId" = .ok (some (.str e)) ∧ j.field "envelope" =
    .ok (some (.str (Base64.encode x.1))) ∧
    j.field "expiresAt" = .ok (some (.str x.2))

/-- A page that says there is no more. -/
def lastPage (r : Response) : Prop :=
  ∃ j, r.payload = .json j ∧ j.field "hasMore" = .ok (some (.bool false))

/-- The answer to a read is what the vault holds at the time `now`. A page shows
nothing else, and a page from the start that is the last one shows all of it. -/
def ReadsFrom (v : Vault) (now : String) : Call → Response → Prop
  | .list app since _, r =>
    (∀ j ∈ objects r, ∃ e c, v.entities app e = some c ∧ carriesEntity e c j) ∧
      (since = 0 → lastPage r → ∀ e c, v.entities app e = some c →
        ∃ j ∈ objects r, carriesEntity e c j)
  | .getEntity app e, r => v.entities app e = none ∧ r.status = 404 ∨
      ∃ c j, v.entities app e = some c ∧ r.status = 200 ∧ objects r = [j] ∧ carriesEntity e c j
  | .listIntents since _, r => (∀ j ∈ objects r, ∃ e x, v.events e = some x ∧ carriesEvent e x j) ∧
      (since = 0 → lastPage r → ∀ e x, v.events e = some x → now < x.2 →
        ∃ j ∈ objects r, carriesEvent e x j)
  | .getSalt, r => v.salt = none ∧ r.status = 404 ∨
      ∃ x j, v.salt = some x ∧ r.status = 200 ∧ objects r = [j] ∧
        j.field "salt" = .ok (some (.str x.1)) ∧ j.field "createdAt" = .ok (some (.str x.2))
  | _, _ => True

section Step
variable {host : Host} {s : State} {a : String}

/-- The operations that no vault sees. -/
theorem op_unseen {o : StoreOp} (h : o.part = .blobs ∨ o.part = .uploads ∨ o.part = .registry)
    {d d' : Db} (he : o.tx.eval d = .ok ((), d')) : vaultOf a d' = vaultOf a d := by
  refine StoreOp.keeps o (π := vaultOf a) (fun db => ?_) d () d' he
  rcases h with h | h | h <;> rw [h] <;> rfl

/-- An event whose operations no vault sees. -/
theorem next_unseen {e : Event} (h : ∀ o, s.Op host e.action o →
    (o.part = .blobs ∨ o.part = .uploads ∨ o.part = .registry) ∨ ∃ b, b ≠ a ∧
    o = .deleteAccount b) :
    vaultOf a (s.next host e).server.db = vaultOf a s.server.db := by
  refine next_inv (I := fun d => vaultOf a d = vaultOf a s.server.db)
    (fun o d d' ho he hd => ?_) rfl
  rcases h o ho with hpart | ⟨b, hb, rfl⟩
  · rw [op_unseen hpart he, hd]
  · obtain ⟨r, he⟩ := Tx.eval_void_ok _ he
    rw [deleteAccount_eval] at he
    split at he <;> cases he
    · exact hd
    · rw [erase_elsewhere hb, hd]

/-- A handler as the work of an event. -/
theorem next_keeps {γ : Type} {π : Server → γ} (hr : ∀ v : Server, π v.restart = π v) {e : Event}
    (h : Prog.Keeps π (s.work host e.action)) : π (s.next host e).server = π s.server := by
  cases e with
  | run act => exact (h s.server).1
  | stop act n cfg => exact (hr _).trans (h.stopAfter n s.server)

/-- What became of a deed. -/
structure Became (v v' : Vault) (d : Deed) (fate : Fate) : Prop where
  done : fate = .done → v' = v.apply d
  undone : fate = .undone → v' = v
  either : v' = v ∨ v' = v.apply d

/-- A handler that does a deed, to its end or not. -/
theorem enacts_became {e : Event} {d : Deed} {m : Handler Response} (hm : Enacts a d m s.server)
    (hwork : s.work host e.action = m >>= fun _ => pure ())
    (hanswer : s.answer host e.action = some (finish (m s.server))) :
    Became (vaultOf a s.server.db) (vaultOf a (s.next host e).server.db) d (s.fate host e) := by
  cases e with
  | run act =>
    have hwork : s.work host act = m >>= fun _ => pure () := hwork
    have hanswer : s.answer host act = some (finish (m s.server)) := hanswer
    have hstate : (s.next host (.run act)).server = (m s.server).state := by
      show (s.work host act s.server).state = _
      rw [hwork, Prog.state_bind_pure]
    have hend : vaultOf a (m s.server).state.db = vaultOf a s.server.db ∨
        vaultOf a (m s.server).state.db = (vaultOf a s.server.db).apply d := by
      have hstop := hm.stopped ((m s.server).trace.length + 1)
      rwa [Prog.stopAfter_all (Nat.lt_succ_self _)] at hstop
    rw [hstate]
    have hfate : s.fate host (.run act) = .of (finish (m s.server)) := by
      show ((s.answer host act).map Fate.of).getD .unknown = _
      rw [hanswer]
      rfl
    rw [hfate]
    unfold Fate.of
    refine ⟨fun hf => hm.done ?_, fun hf => ?_, hend⟩
    · by_contra hne
      rw [if_neg hne] at hf
      split at hf <;> cases hf
    · split at hf
      · cases hf
      · split at hf
        · rename_i h4
          exact hm.refused h4.1 h4.2
        · cases hf
  | stop act n cfg =>
    have hwork : s.work host act = m >>= fun _ => pure () := hwork
    have hstate : (s.next host (.stop act n cfg)).server.db = (m.stopAfter n s.server).db := by
      show ((s.work host act).stopAfter n s.server).db = _
      rw [hwork, Prog.stopAfter_bind_pure]
    rw [hstate]
    exact ⟨nofun, nofun, hm.stopped n⟩

/-- **What an event does to the vault of an account.** -/
theorem next_vault (host : Host) (s : State) (a : String) (e : Event) :
    (s.deed host a e.action = none → vaultOf a (s.next host e).server.db = vaultOf a s.server.db) ∧
    ∀ d, s.deed host a e.action = some d →
      Became (vaultOf a s.server.db) (vaultOf a (s.next host e).server.db) d (s.fate host e) := by
  cases hact : e.action with
  | handle id env =>
    rcases work_cases host s id env with ⟨w, b, call, hw, ha, hwork⟩ | ⟨hnone, hwork⟩
    · have hdeed : s.deed host a (.handle id env) = if b = a then call.deed env else none := by
        unfold State.deed
        rw [handled_some hw ha env]
        rfl
      rw [hdeed]
      refine ⟨fun h => ?_, fun d h => ?_⟩
      · refine next_keeps (π := Server.vault a) (fun _ => rfl) ?_
        rw [hact, hwork]
        refine .bind (perform_idle s.cfg host w.credential env ?_) fun _ => .pure ()
        by_cases hb : b = a
        · rw [if_pos hb] at h
          exact .inl h
        · exact .inr hb
      · by_cases hb : b = a
        · rw [if_pos hb] at h
          subst hb
          refine enacts_became (perform_enacts s.cfg host w.credential env b h s.server)
            (by rw [hact, hwork]) ?_
          rw [hact]
          exact (act_handle hw ha).2
        · rw [if_neg hb] at h
          cases h
    · have hdeed : s.deed host a (.handle id env) = none := by
        unfold State.deed
        rw [hnone]
        rfl
      rw [hdeed]
      refine ⟨fun _ => next_keeps (π := Server.vault a) (fun _ => rfl) ?_, nofun⟩
      rw [hact]
      rcases hwork with hwork | ⟨x, hwork⟩
      · rw [hwork]
        exact .pure ()
      · rw [hwork]
        exact .raise x
  | admin header route env =>
    cases route with
    | deleteAccount b body =>
      by_cases hb : b = a
      · subst hb
        cases hread : body.read with
        | true =>
          have hdeed : s.deed host b (.admin header (.deleteAccount b body) env) = some .erase :=
            if_pos ⟨rfl, hread⟩
          rw [hdeed]
          refine ⟨nofun, fun d h => ?_⟩
          cases h
          exact enacts_became (deletion_enacts s.cfg host env header hread s.server)
            (by rw [hact]; rfl) (by rw [hact]; rfl)
        | false =>
          have hdeed : s.deed host b (.admin header (.deleteAccount b body) env) = none :=
            if_neg fun h => by rw [hread] at h; cases h.2
          rw [hdeed]
          refine ⟨fun _ => next_keeps (π := Server.vault b) (fun _ => rfl) ?_, nofun⟩
          rw [hact]
          have hrefused : Prog.Keeps (Server.vault b) (deleteAccountRoute b body) := by
            cases body with
            | rejected status => exact .raise _
            | json j => cases hread
            | raw x => cases hread
          refine .bind (.ite (.bind (.ofExcept _) fun _ => hrefused)
            (.bind (.ofExcept _) fun _ => ?_)) fun _ => .pure ()
          exact unmounted_frame s.cfg host header
      · have hdeed : s.deed host a (.admin header (.deleteAccount b body) env) = none :=
          if_neg fun h => hb h.1
        rw [hdeed]
        refine ⟨fun _ => next_unseen fun o ho => .inr ⟨b, hb, ?_⟩, nofun⟩
        rw [hact] at ho
        exact ho
    | _ =>
      refine ⟨fun _ => next_unseen fun o ho => .inl (.inr (.inr ?_)), nofun⟩
      rw [hact] at ho
      exact ho
  | _ =>
    refine ⟨fun _ => next_unseen fun o ho => .inl ?_, nofun⟩
    rw [hact] at ho
    rcases ho with ho | ho
    · exact .inr (.inl ho)
    · exact .inl ho

end Step

/-! ## ReadsFrom -/

section ReadsFrom
variable {a : String} {v : Server}

theorem row_carried {r : SyncRow} (e : String) (h : r.entityId = e) :
    carriesEntity e r.content (serializeRow r) := by
  subst h
  exact ⟨rfl, rfl, rfl, rfl⟩

/-- **A read answers what the vault holds.** -/
theorem perform_reads (hs : (v.db.line a).Sound) (cfg : Config) (host : Host)
    (credential : Option Credential) (env : Env) (call : Call) :
    ReadsFrom (vaultOf a v.db) (env.clock 0) call
      (finish (perform cfg host credential env a call v)) := by
  cases call with
  | list app since limit =>
    refine ⟨fun j hj => ?_, fun hfirst hlast e c hc => ?_⟩
    rotate_left
    · obtain ⟨r, hr, rfl⟩ := Option.map_eq_some_iff.1 hc
      have hr : v.db.syncRows.find (a, app, e) = some r := hr
      have hkey := Table.find_key hr
      simp only [SyncRow.key, Prod.mk.injEq] at hkey
      have hpos : 1 ≤ r.seq := hs.pos (.row app e) r.seq (by
        show (v.db.syncRows.find (a, app, e)).map _ = _
        rw [hr]
        rfl)
      have hmore : (listRows app a since limit v.db).hasMore = false := by
        obtain ⟨j, hj, hlast⟩ := hlast
        cases hj
        exact Json.bool.inj (Option.some.inj (Except.ok.inj hlast))
      have hin : r ∈ (listRows app a since limit v.db).rows :=
        page_complete hmore (List.mem_filter.2 ⟨Table.find_mem hr, by simp [hkey]⟩) (hfirst ▸ hpos)
      exact ⟨serializeRow r, List.mem_map_of_mem hin, row_carried e hkey.2.2⟩
    have hj : j ∈ (listRows app a since limit v.db).rows.map serializeRow := hj
    obtain ⟨r, hr, rfl⟩ := List.mem_map.1 hj
    obtain ⟨hfind, -⟩ := listed hr
    refine ⟨r.entityId, r.content, ?_, row_carried _ rfl⟩
    show (v.db.syncRows.find _).map SyncRow.content = _
    rw [hfind]
    rfl
  | getEntity app e =>
    have hrun : finish (perform cfg host credential env a (.getEntity app e) v) =
        ((v.db.syncRows.find (a, app, e)).map fun r =>
          (⟨200, [], .json (serializeRow r)⟩ : Response)).getD (.error 404 "not found") := by
      show finish (getEntity a app e v) = _
      unfold getEntity readDb
      rw [Prog.get_bind]
      unfold getRow
      cases v.db.syncRows.find (a, app, e) <;> rfl
    rw [hrun]
    cases hf : v.db.syncRows.find (a, app, e) with
    | none => exact .inl ⟨by show (v.db.syncRows.find (a, app, e)).map _ = none; rw [hf]; rfl, rfl⟩
    | some r =>
      refine .inr ⟨r.content, serializeRow r, ?_, rfl, rfl, row_carried e ?_⟩
      · show (v.db.syncRows.find (a, app, e)).map _ = _
        rw [hf]
        rfl
      · exact congrArg (fun k : String × String × String => k.2.2) (Table.find_key hf)
  | listIntents since limit =>
    refine ⟨fun j hj => ?_, fun hfirst hlast e x hx hdue => ?_⟩
    rotate_left
    · obtain ⟨r, hr, rfl⟩ := Option.map_eq_some_iff.1 hx
      have hr : v.db.intentEvents.find (a, e) = some r := hr
      have hkey : r.key = (a, e) := Table.find_key hr
      obtain ⟨ha, rfl⟩ : r.accountId = a ∧ r.eventId = e := Prod.mk.inj hkey
      have hpos : 1 ≤ r.seq := hs.pos (.event r.eventId) r.seq (by
        show (v.db.intentEvents.find (a, r.eventId)).map _ = _
        rw [hr]
        rfl)
      have hmore : (listIntents a since limit (env.clock 0) v.db).hasMore = false := by
        obtain ⟨j, hj, hlast⟩ := hlast
        cases hj
        exact Json.bool.inj (Option.some.inj (Except.ok.inj hlast))
      have hin : r ∈ (listIntents a since limit (env.clock 0) v.db).rows :=
        page_complete hmore (List.mem_filter.2 ⟨Table.find_mem hr, decide_eq_true ⟨ha, hdue⟩⟩)
          (hfirst ▸ hpos)
      exact ⟨serializeIntent r, List.mem_map_of_mem hin, rfl, rfl, rfl⟩
    have hj : j ∈ (listIntents a since limit (env.clock 0) v.db).rows.map serializeIntent := hj
    obtain ⟨r, hr, rfl⟩ := List.mem_map.1 hj
    obtain ⟨hm, ha⟩ := List.mem_filter.1 (page_mem hr).1
    have hkey : r.key = (a, r.eventId) := by
      show (r.accountId, r.eventId) = _
      rw [(of_decide_eq_true ha).1]
    refine ⟨r.eventId, (r.envelope, r.expiresAt), ?_, rfl, rfl, rfl⟩
    show (v.db.intentEvents.find (a, r.eventId)).map _ = _
    rw [← hkey, Table.find_some.2 ⟨hm, rfl⟩]
    rfl
  | getSalt =>
    have hrun : finish (perform cfg host credential env a .getSalt v) =
        ((v.db.accountSalts.find a).map fun r => Response.json 200 (saltFields r)).getD
          (.error 404 "not found") := by
      show finish (saltGet a v) = _
      unfold saltGet readDb
      rw [Prog.get_bind]
      unfold getSalt
      cases v.db.accountSalts.find a <;> rfl
    rw [hrun]
    cases hf : v.db.accountSalts.find a with
    | none => exact .inl ⟨by show (v.db.accountSalts.find a).map _ = none; rw [hf]; rfl, rfl⟩
    | some r =>
      refine .inr ⟨(r.salt, r.createdAt), .obj (saltFields r), ?_, rfl, rfl, rfl, rfl⟩
      show (v.db.accountSalts.find a).map _ = _
      rw [hf]
      rfl
  | _ => trivial

end ReadsFrom

/-! ## Runs -/

/-- A list of deeds is a run's: all that were acknowledged, none that was
refused, and of the others some; in the order of the events. -/
def Ran (host : Host) (a : String) (s : State) (es : List Event) (ds : List Deed) : Prop :=
  (deeds host a (fun f => f = .done) s es).Sublist ds ∧
  ds.Sublist (deeds host a (fun f => f ≠ .undone) s es)

theorem run_vault (host : Host) (a : String) : ∀ (es : List Event) (s : State),
    ∃ ds, Ran host a s es ds ∧ vaultOf a (run (State.next host) s es).server.db =
      ds.foldl Vault.apply (vaultOf a s.server.db)
  | [], _ => ⟨[], ⟨.slnil, .slnil⟩, rfl⟩
  | e :: es, s => by
    obtain ⟨ds, ⟨hdone, hmay⟩, hrun⟩ := run_vault host a es (s.next host e)
    obtain ⟨hidle, hdeed⟩ := next_vault host s a e
    -- the deed of the event, or nothing, in front of those of the rest
    have hfront : ∀ d' : List Deed,
        ((if s.fate host e = .done then (s.deed host a e.action).toList else []).Sublist d') →
        d'.Sublist (if s.fate host e ≠ .undone then (s.deed host a e.action).toList else []) →
        vaultOf a (s.next host e).server.db = d'.foldl Vault.apply (vaultOf a s.server.db) →
        ∃ ds, Ran host a s (e :: es) ds ∧
          vaultOf a (run (State.next host) s (e :: es)).server.db =
            ds.foldl Vault.apply (vaultOf a s.server.db) := by
      intro d' h1 h2 h3
      refine ⟨d' ++ ds, ⟨?_, ?_⟩, ?_⟩
      · unfold deeds
        simp only [decide_eq_true_eq]
        exact h1.append hdone
      · unfold deeds
        simp only [decide_eq_true_eq]
        exact h2.append hmay
      · rw [run_cons, hrun, h3, List.foldl_append]
    cases hd : s.deed host a e.action with
    | none =>
      rw [hd] at hfront
      exact hfront [] (by simp) (by simp) (hidle hd)
    | some d =>
      rw [hd] at hfront
      have hb := hdeed d hd
      cases hf : s.fate host e with
      | done =>
        rw [hf] at hfront hb
        exact hfront [d] (by simp) (by simp) (hb.done rfl)
      | undone =>
        rw [hf] at hfront hb
        exact hfront [] (by simp) (by simp) (hb.undone rfl)
      | unknown =>
        rw [hf] at hfront hb
        rcases hb.either with h | h
        · exact hfront [] (by simp) (by simp) h
        · exact hfront [d] (by simp) (by simp) h

/-- **The server is a collection of vaults.** After any run, an account's vault
is what a list of deeds leaves of the empty one: every acknowledged one, no
refused one, each of them whole and in order. And it is what reads answer. -/
theorem vaults_kept (host : Host) (cfg : Config) (es : List Event) (a : String) :
    ∃ ds, Ran host a (State.init cfg) es ds ∧ vaultOf a (State.after host cfg es).server.db =
      ds.foldl Vault.apply .empty ∧
      ∀ id env w call r, (State.after host cfg es).handled host (.handle id env) =
        some (w, a, call) →
        (State.after host cfg es).answer host (.handle id env) = some r →
          ReadsFrom (ds.foldl Vault.apply .empty) (env.clock 0) call r := by
  obtain ⟨ds, hran, hvault⟩ := run_vault host a es (State.init cfg)
  have hempty : vaultOf a (State.init cfg).server.db = .empty := rfl
  rw [hempty] at hvault
  refine ⟨ds, hran, hvault, fun id env w call r hh hr => ?_⟩
  rw [← hvault]
  rcases handled_cases host (State.after host cfg es) id env with
    ⟨w', a', call', hh', -, -, hans⟩ | ⟨hnone, -⟩
  · rw [hh] at hh'
    cases hh'
    rw [hr] at hans
    cases hans
    exact perform_reads (after_sound host cfg es a) _ host _ env call
  · rw [hh] at hnone
    cases hnone

end GlanceVault.L4
