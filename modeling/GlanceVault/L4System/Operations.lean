import GlanceVault.L3Http.Administration
import GlanceVault.L3Http.Operations
import GlanceVault.L4System.System
/-!
# The store under whole runs

Whatever an action does to the database it does by operations of the store.
So what every operation preserves holds after every run, also when the process
stops between two of them.

* `work_ops`, `work_runs`: the operations of an action.
* `after_inv`: an invariant of the store.
* `act_registry`: an action, seen from the registry.
-/
namespace GlanceVault.L4
open GlanceVault.Core GlanceVault.L2 GlanceVault.L3

/-- What an action may run. -/
def Action.Op : Action → StoreOp → Prop
  | .admin _ route _, o => route.Op o
  | _, o => Scoped o

/-- What an action may run in a state: a handler runs what its call does. -/
def State.Op (host : Host) (s : State) (act : Action) (o : StoreOp) : Prop :=
  match act with
  | .handle _ _ => ∃ w a call, s.handled host act = some (w, a, call) ∧ call.Op a o
  | .admin _ route _ => route.Op o
  | _ => Uploads o

theorem State.Op.action {host : Host} {s : State} {act : Action} {o : StoreOp}
    (h : s.Op host act o) : act.Op o := by
  cases act with
  | handle id env =>
    obtain ⟨w, a, call, -, ho⟩ := h
    exact ho.1
  | admin authorization route env => exact h
  | _ => exact Uploads.scoped h

theorem work_ops (host : Host) (s : State) (act : Action) :
    Runs (s.Op host act) (s.work host act) := by
  have hdone : ∀ {p : StoreOp → Prop} {α : Type} {m : Handler α}, Runs p m →
      Runs p (do let _ ← m; pure ()) :=
    fun h => .bind h fun _ => .pure ()
  cases act with
  | arrive id req => exact .pure ()
  | handle id env =>
    rcases work_cases host s id env with ⟨w, a, call, hw, ha, hwork⟩ | ⟨-, hwork | ⟨e, hwork⟩⟩
    · rw [hwork]
      exact hdone ((perform_ops s.cfg host w.credential env a call).mono fun o ho =>
        ⟨w, a, call, handled_some hw ha env, ho⟩)
    · rw [hwork]
      exact .pure ()
    · rw [hwork]
      exact .raise e
  | drop id => exact .pure ()
  | admin authorization route env =>
    exact hdone (handleAdmin_runs s.cfg host env authorization route)
  | reclaim policy nowMs => exact hdone (reclaimSweep_runs policy nowMs)
  | reap ttlMs nowMs => exact hdone (reapUploadSessions_runs ttlMs nowMs)
  | close a sub => exact .keeps (.poke fun _ => rfl)
  | heartbeat a sub =>
    refine .keeps (.poke fun v => ?_)
    rw [heartbeat_hub]

theorem work_runs (host : Host) (s : State) (act : Action) : Runs act.Op (s.work host act) :=
  (work_ops host s act).mono fun _ ho => ho.action

/-- What the operations of an event preserve. -/
theorem next_inv {I : Db → Prop} {host : Host} {s : State} {e : Event}
    (hI : ∀ (o : StoreOp) d d', s.Op host e.action o → o.tx.eval d = .ok ((), d') → I d → I d')
    (h : I s.server.db) :
    I (s.next host e).server.db := by
  have hstep : ∀ d d', OpStep (s.Op host e.action) d d' → I d → I d' :=
    fun d d' ⟨o, ho, he⟩ => hI o d d' ho he
  cases e with
  | run act => exact Prog.reach_inv hstep ((work_ops host s act).state trivial) h
  | stop act n cfg => exact Prog.reach_inv hstep ((work_ops host s act).stopAfter trivial n) h

/-- **What every operation of the store preserves holds after every run.** -/
theorem after_inv {I : Db → Prop}
    (hI : ∀ (o : StoreOp) d d', o.tx.eval d = .ok ((), d') → I d → I d') (hempty : I .empty)
    (host : Host) (cfg : Config) (es : List Event) : I (State.after host cfg es).server.db :=
  run_inv (I := fun s : State => I s.server.db)
    (fun _ _ h => next_inv (fun o d d' _ => hI o d d') h) es (State.init cfg)
    hempty

theorem run_cfg (host : Host) (as : List Action) (s : State) :
    (run (State.act host) s as).cfg = s.cfg := by
  have hstep : ∀ (t : State) (act : Action), t.cfg = s.cfg → (t.act host act).cfg = s.cfg :=
    fun t act h => h
  exact run_inv hstep as s rfl

/-! ## The registry -/

/-- Everything but the operator's requests leaves the registry alone. -/
theorem registry_act (host : Host) (s : State) {act : Action}
    (ha : ∀ authorization route env, act ≠ .admin authorization route env) :
    (s.act host act).server.db.accounts = s.server.db.accounts ∧
      (s.act host act).server.db.deviceCredentials = s.server.db.deviceCredentials := by
  have hop : ∀ o, act.Op o → Scoped o := fun o ho => by
    cases act with
    | admin authorization route env => exact absurd rfl (ha authorization route env)
    | _ => exact ho
  have hkept : ((s.act host act).server.db.accounts, (s.act host act).server.db.deviceCredentials) =
      (s.server.db.accounts, s.server.db.deviceCredentials) := by
    refine (work_runs host s act).inv (I := fun d => (d.accounts, d.deviceCredentials) =
      (s.server.db.accounts, s.server.db.deviceCredentials)) (fun o d d' ho e h => ?_) rfl
    obtain ⟨hreg, hacc⟩ := hop o ho
    have hkeep : ∀ db : Db, ((db.outside o.part).accounts, (db.outside o.part).deviceCredentials) =
        (db.accounts, db.deviceCredentials) := fun db => by
      cases hp : o.part with
      | registry => exact absurd hp hreg
      | account => exact absurd hp hacc
      | _ => rfl
    rw [← h]
    exact StoreOp.keeps o (π := fun db => (db.accounts, db.deviceCredentials)) hkeep d () d' e
  exact ⟨congrArg Prod.fst hkept, congrArg Prod.snd hkept⟩

/-- An action is an operator's request, or leaves the registry alone. -/
theorem act_registry (host : Host) (s : State) (act : Action) :
    (∃ authorization route env, act = .admin authorization route env ∧
      Administers s.cfg host env s.server route (s.act host act).server) ∨
    (∀ authorization route env, act ≠ .admin authorization route env) ∧
      (s.act host act).server.db.accounts = s.server.db.accounts ∧
      (s.act host act).server.db.deviceCredentials = s.server.db.deviceCredentials := by
  by_cases ha : ∃ authorization route env, act = .admin authorization route env
  · obtain ⟨authorization, route, env, rfl⟩ := ha
    refine .inl ⟨authorization, route, env, rfl, ?_⟩
    rw [act_admin]
    exact handleAdmin_administers s.cfg host env s.server authorization route
  · have hno : ∀ authorization route env, act ≠ .admin authorization route env :=
      fun authorization route env e => ha ⟨authorization, route, env, e⟩
    exact .inr ⟨hno, registry_act host s hno⟩

end GlanceVault.L4
