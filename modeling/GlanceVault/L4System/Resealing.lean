import GlanceVault.L3Http.Resealing
import GlanceVault.L4System.System
/-!
# A run with other envelopes

`Event.reseal` puts another envelope in the place of every one a request brings.
The server cannot tell: it does in the run with the other envelopes what it does
in the run with the old ones, at every step, at every stop and after every
restart, down to the numbers it assigns and the nudges it sends; and what it
answers shows the other envelopes and is otherwise the same.

* `act_reseals`, `next_reseals`: one action or event.
* `envelopes_unread`: whole runs.
-/
namespace GlanceVault.L4
open GlanceVault.Core GlanceVault.L1 GlanceVault.L1.Js GlanceVault.L2 GlanceVault.L3

section Reseal
variable (ρ : Bytes → Bytes)

def Waiting.reseal (w : Waiting) : Waiting := { w with route := w.route.reseal ρ }

/-- The same process with other envelopes, stored or on their way. -/
def State.reseal (s : State) : State := { s with
  server := s.server.reseal ρ
  pending := s.pending.map (Waiting.reseal ρ) }

def Action.reseal : Action → Action
  | .arrive id req => .arrive id { req with route := req.route.reseal ρ }
  | act => act

def Event.reseal : Event → Event
  | .run act => .run (act.reseal ρ)
  | .stop act n cfg => .stop (act.reseal ρ) n cfg

end Reseal

section Act
variable {ρ : Bytes → Bytes} {host : Host} {s : State}

theorem waiting_reseals (id : Nat) :
    (s.reseal ρ).waiting id = (s.waiting id).map (Waiting.reseal ρ) := by
  show (s.pending.map (Waiting.reseal ρ)).find? _ = _
  rw [List.find?_map]
  rfl

theorem handle_reseals (hρ : Function.Injective ρ) (cfg : Config) (credential : Option Credential)
    (env : Env) (route : Route) :
    Prog.Renames (Server.reseal ρ) (Response.reseal ρ) (handle cfg host credential env route)
      (handle cfg host credential env (route.reseal ρ)) := by
  cases ha : accept cfg host credential route with
  | error e =>
    have ha' : accept cfg host credential (route.reseal ρ) = .error e := by
      rw [accept_reseals, ha]; rfl
    rw [handle_refused ha, handle_refused ha']
    exact .raise e
  | ok r =>
    obtain ⟨a, call⟩ := r
    have ha' : accept cfg host credential (route.reseal ρ) = .ok (a, call.reseal ρ) := by
      rw [accept_reseals, ha]; rfl
    rw [handle_admitted ha, handle_admitted ha']
    exact perform_reseals hρ credential call

theorem heartbeat_reseals (cfg : Config) (v : Server) (a : String) (sub : Subscriber) :
    (v.reseal ρ).heartbeat cfg a sub = (v.heartbeat cfg a sub).reseal ρ := by
  have hactive : ∀ id, isCredentialActive (v.reseal ρ).db id = isCredentialActive v.db id :=
    fun _ => rfl
  unfold Server.heartbeat
  split
  · simp only [hactive]
    split <;> rfl
  · rfl

/-- **What an action runs on the server.** -/
theorem work_reseals (hρ : Function.Injective ρ) (act : Action) :
    Prog.Renames (Server.reseal ρ) id (s.work host act)
      ((s.reseal ρ).work host (act.reseal ρ)) := by
  cases act with
  | arrive id req => exact .pure rfl
  | handle id env =>
    show Prog.Renames _ _ _ ((s.reseal ρ).work host (.handle id env))
    cases hw : s.waiting id with
    | none =>
      rw [work_unknown host hw, work_unknown host (by rw [waiting_reseals, hw]; rfl)]
      exact .pure rfl
    | some w =>
      rw [work_handle host hw, work_handle host (w := w.reseal ρ)
        (by rw [waiting_reseals, hw]; rfl)]
      exact .bind (handle_reseals hρ s.cfg w.credential env w.route) fun _ => .pure rfl
  | drop id => exact .pure rfl
  | admin authorization route env =>
    exact .seq (handleAdmin_reseals authorization route) fun _ => .pure rfl
  | reclaim policy nowMs => exact .seq (reclaimSweep_blind policy nowMs) fun _ => .pure rfl
  | reap ttlMs nowMs => exact .seq (reapUploadSessions_blind ttlMs nowMs) fun _ => .pure rfl
  | close a sub => exact Prog.Blind.poke fun _ => rfl
  | heartbeat a sub => exact Prog.Blind.poke fun v => heartbeat_reseals s.cfg v a sub

theorem queue_reseals (act : Action) :
    (s.reseal ρ).queue host (act.reseal ρ) = (s.queue host act).map (Waiting.reseal ρ) := by
  have hfilter : ∀ id, (s.pending.map (Waiting.reseal ρ)).filter (fun w => decide (w.id ≠ id)) =
      (s.pending.filter fun w => decide (w.id ≠ id)).map (Waiting.reseal ρ) := fun id => by
    rw [List.filter_map]
    rfl
  cases act with
  | arrive id req =>
    have hauth : authenticate (s.reseal ρ).cfg host (s.reseal ρ).server.db req.authorization =
        authenticate s.cfg host s.server.db req.authorization := rfl
    simp only [Action.reseal, State.queue, hauth]
    cases authenticate s.cfg host s.server.db req.authorization with
    | ok c =>
      show s.pending.map (Waiting.reseal ρ) ++ _ = (s.pending ++ _).map (Waiting.reseal ρ)
      rw [List.map_append]
      rfl
    | error r => rfl
  | handle id env => exact hfilter id
  | drop id => exact hfilter id
  | _ => rfl

theorem accept_pending {w : Waiting} (cfg : Config) :
    accept cfg host (w.reseal ρ).credential (w.reseal ρ).route =
    (accept cfg host w.credential w.route).map (Prod.map id (Call.reseal ρ)) :=
  accept_reseals cfg host w.credential w.route

theorem sends_reseals (act : Action) :
    (s.reseal ρ).sends host (act.reseal ρ) = s.sends host act := by
  cases act with
  | handle id env =>
    simp only [Action.reseal, State.sends, waiting_reseals]
    cases s.waiting id with
    | none => rfl
    | some w =>
      have hcfg : (s.reseal ρ).cfg = s.cfg := rfl
      simp only [Option.map_some, hcfg, accept_pending]
      cases accept s.cfg host w.credential w.route with
      | error e => rfl
      | ok r =>
        obtain ⟨a, call⟩ := r
        cases call <;> rfl
  | _ => rfl

/-- **One action.** -/
theorem act_reseals (hρ : Function.Injective ρ) (act : Action) :
    (s.reseal ρ).act host (act.reseal ρ) = (s.act host act).reseal ρ := by
  have hstate : ((s.reseal ρ).work host (act.reseal ρ) (s.server.reseal ρ)).state =
      (s.work host act s.server).state.reseal ρ := by
    rw [work_reseals hρ act s.server]
    rfl
  show State.mk _ _ _ _ = State.mk _ _ _ _
  rw [queue_reseals, sends_reseals]
  exact congrArg (fun v => State.mk s.cfg v _ _) hstate

/-- **One event**: an action, or one that the process does not survive. -/
theorem next_reseals (hρ : Function.Injective ρ) (e : Event) :
    (s.reseal ρ).next host (e.reseal ρ) = (s.next host e).reseal ρ := by
  cases e with
  | run act => exact act_reseals hρ act
  | stop act n cfg =>
    have hstopped : ((s.reseal ρ).work host (act.reseal ρ)).stopAfter n (s.server.reseal ρ) =
        ((s.work host act).stopAfter n s.server).reseal ρ :=
          (work_reseals hρ act).stopAfter n s.server
    show State.mk _ _ _ _ = State.mk _ _ _ _
    rw [sends_reseals]
    exact congrArg (fun v : Server => State.mk cfg v.restart [] (s.sent ++
      s.sends host act)) hstopped

/-- What a client is told in the run with the other envelopes: the answer of a
handled request shows them. -/
def State.retell (host : Host) (s : State) (ρ : Bytes → Bytes) (act : Action)
    (r : Response) : Response :=
  if (s.handled host act).isSome then r.reseal ρ else r

theorem answer_reseals (hρ : Function.Injective ρ) (act : Action) :
    (s.reseal ρ).answer host (act.reseal ρ) = (s.answer host act).map (s.retell host ρ act) := by
  cases act with
  | arrive id req =>
    show s.answer host (.arrive id req) = _
    cases s.answer host (.arrive id req) <;> rfl
  | handle id env =>
    cases hw : s.waiting id with
    | none => simp only [Action.reseal, State.answer, waiting_reseals, hw, Option.map_none]
    | some w =>
      have hw' : (s.reseal ρ).waiting id = some (w.reseal ρ) := by rw [waiting_reseals, hw]; rfl
      have hasked := answer_handle host hw' env
      cases ha : accept s.cfg host w.credential w.route with
      | error e =>
        have ha' : accept s.cfg host w.credential (w.route.reseal ρ) = .error e := by
          rw [accept_reseals, ha]; rfl
        have hrefused : s.handled host (.handle id env) = none := by simp [State.handled, hw, ha]
        refine hasked.trans ?_
        rw [answer_handle host hw, handle_refused ha]
        simp only [Option.map_some, State.retell, hrefused, Option.isSome_none,
          Bool.false_eq_true, if_false]
        exact congrArg (fun m : Handler Response => some (finish (m (s.server.reseal ρ))))
          (handle_refused ha' env)
      | ok r =>
        obtain ⟨a, call⟩ := r
        have ha' : accept s.cfg host w.credential (w.route.reseal ρ) = .ok (a, call.reseal ρ) := by
          rw [accept_reseals, ha]; rfl
        refine hasked.trans ?_
        rw [answer_handle host hw, handle_admitted ha]
        simp only [Option.map_some, State.retell, handled_some hw ha env,
          Option.isSome_some, if_true]
        rw [← finish_reseals hρ w.credential call s.server]
        exact congrArg (fun m : Handler Response => some (finish (m (s.server.reseal ρ))))
          (handle_admitted ha' env)
  | admin authorization route env =>
    have hrun : handleAdmin s.cfg host env authorization route (s.server.reseal ρ) = _ :=
      handleAdmin_reseals authorization route s.server
    show some (finish (handleAdmin s.cfg host env authorization route (s.server.reseal ρ))) = _
    rw [hrun]
    refine congrArg some ?_
    show finish _ = finish _
    unfold finish Outcome.rename
    cases (handleAdmin s.cfg host env authorization route s.server).result <;> rfl
  | _ => rfl

end Act

theorem run_reseals {ρ : Bytes → Bytes} {host : Host} (hρ : Function.Injective ρ) :
    ∀ (es : List Event) (s : State),
    run (State.next host) (s.reseal ρ) (es.map (Event.reseal ρ)) =
      (run (State.next host) s es).reseal ρ
  | [], _ => rfl
  | e :: es, s => by
    rw [List.map_cons, run_cons, run_cons, next_reseals hρ]
    exact run_reseals hρ es _

/-- **The server does not read envelopes.** Put other envelopes in the place of
those that the requests of a run bring, different ones for different ones, and
the run is the same with the other envelopes in their place: the stored rows and
events, the numbers, the blobs, the streams, the nudges, and what is left behind
when the process stops. Every request has the same answer, but for the envelopes
it shows; and if the others are as long as the old ones, the usage report is the
same. -/
theorem envelopes_unread (host : Host) (cfg : Config) {ρ : Bytes → Bytes}
    (hρ : Function.Injective ρ) (es : List Event) :
    State.after host cfg (es.map (Event.reseal ρ)) = (State.after host cfg es).reseal ρ ∧
    (∀ act, (State.after host cfg (es.map (Event.reseal ρ))).answer host (act.reseal ρ) =
      ((State.after host cfg es).answer host act).map
        ((State.after host cfg es).retell host ρ act)) ∧
    ((∀ b, (ρ b).length = b.length) → ∀ now,
      adminUsage now (State.after host cfg (es.map (Event.reseal ρ))).server.db
        (State.after host cfg (es.map (Event.reseal ρ))).server.hub =
      adminUsage now (State.after host cfg es).server.db (State.after host cfg es).server.hub) := by
  have hrun : State.after host cfg (es.map (Event.reseal ρ)) = (State.after host cfg es).reseal ρ :=
    run_reseals hρ es (State.init cfg)
  refine ⟨hrun, fun act => ?_, fun hlen now => ?_⟩
  · rw [hrun]
    exact answer_reseals hρ act
  · rw [hrun]
    exact adminUsage_reseals hlen now _ _

/-- Every bit of an envelope the other way round. -/
def flipBits (b : Bytes) : Bytes := b.map fun x => x ^^^ 255

theorem flipBits_injective : Function.Injective flipBits := by
  refine List.map_injective_iff.2 fun x y h => ?_
  have hback : ∀ z : UInt8, z ^^^ 255 ^^^ 255 = z :=
    fun z => by rw [UInt8.xor_assoc, UInt8.xor_self, UInt8.xor_zero]
  rw [← hback x, ← hback y]
  exact congrArg (· ^^^ 255) h

/-- The batch of one row with the envelope `hi`. -/
def sealedOne : List Event :=
  (ask (.syncBatch "dayglance" (.json (.obj [("accountId", .str "house"),
    ("rows", .arr [.obj [("entityId", .str "e"), ("envelope", .str "aGk=")]])])))
      (sampleEnv "" "t")).map .run

theorem envelopes_unread_flipped :
    ((State.after sampleHost sampleConfig sealedOne).server.db.syncRows.rows.map
      (·.envelope) = [[104, 105]] ∧
      (State.after sampleHost sampleConfig
        (sealedOne.map (Event.reseal flipBits))).server.db.syncRows.rows.map (·.envelope) =
        [[151, 150]]) ∧
    State.after sampleHost sampleConfig (sealedOne.map (Event.reseal flipBits)) =
      (State.after sampleHost sampleConfig sealedOne).reseal flipBits ∧
    ∀ now, adminUsage now (State.after sampleHost sampleConfig
      (sealedOne.map (Event.reseal flipBits))).server.db
        (State.after sampleHost sampleConfig (sealedOne.map (Event.reseal flipBits))).server.hub =
      adminUsage now (State.after sampleHost sampleConfig sealedOne).server.db
        (State.after sampleHost sampleConfig sealedOne).server.hub := by
  obtain ⟨hrun, -, husage⟩ := envelopes_unread sampleHost sampleConfig flipBits_injective sealedOne
  exact ⟨by decide +kernel, hrun, husage fun b => List.length_map _⟩

end GlanceVault.L4
