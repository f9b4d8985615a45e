import GlanceVault.Core.Run
import GlanceVault.L3Http.MediaRoutes
/-!
# The running system

One server process at a time, on one volume, with any number of clients. A
request is two steps: the credential check on its headers (`arrive`), and,
after its body has been read, its handler (`handle`); anything may happen in
between. The operator's requests, the sweeps and the event streams are steps of
their own. The process may also stop at any point of a step and come up again,
perhaps with another configuration (`Event.stop`).

`State.sent` records the parts the accounts have sent into sessions of their
own; no step reads it.

* `next_server`: what an event does to the server.
* `work_media`, `reclaim_media`: the storage steps of an action, seen from the
  uploads and blobs.
-/
namespace GlanceVault.L4
open GlanceVault.Core GlanceVault.L1 GlanceVault.L2 GlanceVault.L3

structure Request where
  authorization : Option String
  route : Route

/-- A request past its credential check, with the record it was checked by. -/
structure Waiting where
  id : Nat
  credential : Option Credential
  route : Route

structure State where
  cfg : Config
  server : Server
  pending : List Waiting
  sent : List SentPart

def State.init (cfg : Config) : State := ⟨cfg, .fresh, [], []⟩

/-- The environment numbers the requests. -/
inductive Action
  | arrive (id : Nat) (req : Request)
  | handle (id : Nat) (env : Env)
  | drop (id : Nat)
  | admin (authorization : Option String) (route : AdminRoute) (env : Env)
  | reclaim (policy : ReclaimPolicy) (nowMs : Int)
  | reap (ttlMs nowMs : Int)
  | close (a : String) (sub : Subscriber)
  | heartbeat (a : String) (sub : Subscriber)

def Action.deletesAccount : Action → Bool
  | .admin _ (.deleteAccount _ _) _ => true
  | _ => false

/-- `stop a n cfg`: the process stops after `n` storage steps of `a`, and a
new one starts with `cfg`. -/
inductive Event
  | run (a : Action)
  | stop (a : Action) (n : Nat) (cfg : Config)

namespace State
variable (host : Host) (s : State)

def waiting (id : Nat) : Option Waiting := s.pending.find? fun w => decide (w.id = id)

/-- What an action runs on the server. -/
def work : Action → Handler Unit
  | .arrive _ _ => pure ()
  | .handle id env =>
    match s.waiting id with
    | none => pure ()
    | some w => do
      let _ ← handle s.cfg host w.credential env w.route
      pure ()
  | .drop _ => pure ()
  | .admin authorization route env => do
    let _ ← handleAdmin s.cfg host env authorization route
    pure ()
  | .reclaim policy nowMs => do
    let _ ← reclaimSweep policy nowMs
    pure ()
  | .reap ttlMs nowMs => do
    let _ ← reapUploadSessions ttlMs nowMs
    pure ()
  | .close a sub => .poke fun v => v.closeStream a sub
  | .heartbeat a sub => .poke fun v => v.heartbeat s.cfg a sub

/-- What the client is answered. -/
def answer : Action → Option Response
  | .arrive _ req =>
    match authenticate s.cfg host s.server.db req.authorization with
    | .ok _ => none
    | .error r => some r
  | .handle id env => (s.waiting id).map fun w =>
    finish (handle s.cfg host w.credential env w.route s.server)
  | .admin authorization route env =>
    some (finish (handleAdmin s.cfg host env authorization route s.server))
  | _ => none

/-- The requests in flight after an action. -/
def queue : Action → List Waiting
  | .arrive id req =>
    match authenticate s.cfg host s.server.db req.authorization with
    | .ok c => s.pending ++ [⟨id, c, req.route⟩]
    | .error _ => s.pending
  | .handle id _ => s.pending.filter fun w => decide (w.id ≠ id)
  | .drop id => s.pending.filter fun w => decide (w.id ≠ id)
  | _ => s.pending

/-- The part an action brings into a session its sender owns. -/
def sends : Action → List SentPart
  | .handle id _ =>
    match s.waiting id with
    | none => []
    | some w =>
      match accept s.cfg host w.credential w.route with
      | .ok (a, call) => sentBy a call s.server.db
      | .error _ => []
  | _ => []

def act (a : Action) : State :=
  ⟨s.cfg, (s.work host a s.server).state, s.queue host a, s.sent ++ s.sends host a⟩

def stop (a : Action) (n : Nat) (cfg : Config) : State :=
  ⟨cfg, ((s.work host a).stopAfter n s.server).restart, [], s.sent ++ s.sends host a⟩

def next : Event → State
  | .run a => s.act host a
  | .stop a n cfg => s.stop host a n cfg

end State

/-- The state after a run from an empty volume. -/
def State.after (host : Host) (cfg : Config) (es : List Event) : State :=
  run (State.next host) (State.init cfg) es

/-- The state after a run of one process from an empty volume. -/
def State.running (host : Host) (cfg : Config) (as : List Action) : State :=
  run (State.act host) (State.init cfg) as

theorem after_run (host : Host) (as : List Action) (s : State) :
    run (State.next host) s (as.map .run) = run (State.act host) s as := by
  induction as generalizing s with
  | nil => rfl
  | cons a as ih => exact ih (s.act host a)

theorem running_eq (host : Host) (cfg : Config) (as : List Action) :
    State.running host cfg as = State.after host cfg (as.map .run) := (after_run host as _).symm

/-- The action an event runs, to its end or not. -/
def Event.action : Event → Action
  | .run a => a
  | .stop a _ _ => a

@[simp] theorem next_sent (host : Host) (s : State) (e : Event) :
    (s.next host e).sent = s.sent ++ s.sends host e.action := by
  cases e with
  | run a => rfl
  | stop a n cfg => rfl

/-- An event leaves the server where its action ends or is stopped, up to what
a restart forgets. -/
theorem next_media (host : Host) (s : State) (e : Event) :
    (s.next host e).server.media = (s.work host e.action s.server).state.media ∨
      ∃ n, (s.next host e).server.media = ((s.work host e.action).stopAfter n s.server).media := by
  cases e with
  | run a => exact .inl rfl
  | stop a n cfg => exact .inr ⟨n, rfl⟩

theorem work_unknown (host : Host) {s : State} {id : Nat} (h : s.waiting id = none) (env : Env) :
    s.work host (.handle id env) = pure () := by
  simp only [State.work, h]

theorem work_handle (host : Host) {s : State} {id : Nat} {w : Waiting} (h : s.waiting id = some w)
    (env : Env) :
    s.work host (.handle id env) = (do
      let _ ← handle s.cfg host w.credential env w.route
      pure ()) := by
  simp only [State.work, h]

theorem answer_handle (host : Host) {s : State} {id : Nat} {w : Waiting}
    (h : s.waiting id = some w) (env : Env) :
    s.answer host (.handle id env) =
      some (finish (handle s.cfg host w.credential env w.route s.server)) := by
  simp only [State.answer, h, Option.map_some]

theorem sends_handle (host : Host) {s : State} {id : Nat} {w : Waiting} (h : s.waiting id = some w)
    {env : Env}
    {a : String} {call : Call} (ha : accept s.cfg host w.credential w.route = .ok (a, call)) :
    s.sends host (.handle id env) = sentBy a call s.server.db := by
  simp only [State.sends, h, ha]

/-- The account and the call of the request an action handles. -/
def State.handled (host : Host) (s : State) : Action → Option (Waiting × String × Call)
  | .handle id _ => (s.waiting id).bind fun w =>
    match accept s.cfg host w.credential w.route with
    | .ok (a, call) => some (w, a, call)
    | .error _ => none
  | _ => none

theorem handled_accept {host : Host} {s : State} {id : Nat} {env : Env} {w : Waiting} {a : String}
    {call : Call} (h : s.handled host (.handle id env) = some (w, a, call)) :
    s.waiting id = some w ∧ accept s.cfg host w.credential w.route = .ok (a, call) := by
  obtain ⟨x, hx, h⟩ := Option.bind_eq_some_iff.1 h
  split at h
  · rename_i hok
    cases h
    exact ⟨hx, hok⟩
  · cases h

/-- What a handled request leaves and answers. -/
theorem act_handle {host : Host} {s : State} {id : Nat} {w : Waiting} {env : Env} {b : String}
    {call : Call}
    (hw : s.waiting id = some w) (ha : accept s.cfg host w.credential w.route = .ok (b, call)) :
    (s.act host (.handle id env)).server =
    (perform s.cfg host w.credential env b call s.server).state ∧
      s.answer host (.handle id env) =
        some (finish (perform s.cfg host w.credential env b call s.server)) := by
  refine ⟨?_, ?_⟩
  · show (s.work host (.handle id env) s.server).state = _
    rw [work_handle host hw, Prog.state_bind_pure, handle_admitted ha]
  · rw [answer_handle host hw, handle_admitted ha]

theorem handled_some {host : Host} {s : State} {id : Nat} {w : Waiting} {a : String} {call : Call}
    (hw : s.waiting id = some w)
    (ha : accept s.cfg host w.credential w.route = .ok (a, call)) (env : Env) :
    s.handled host (.handle id env) = some (w, a, call) := by
  simp [State.handled, hw, ha]

/-- A request is unknown, refused, or handled for its account. -/
theorem work_cases (host : Host) (s : State) (id : Nat) (env : Env) :
    (∃ w a call, s.waiting id = some w ∧ accept s.cfg host w.credential w.route = .ok (a, call) ∧
      s.work host (.handle id env) = do
        let _ ← perform s.cfg host w.credential env a call
        pure ()) ∨
    s.handled host (.handle id env) = none ∧
      (s.work host (.handle id env) = pure () ∨ ∃ e,
        s.work host (.handle id env) = Prog.raise e) := by
  cases hw : s.waiting id with
  | none => exact .inr ⟨by simp [State.handled, hw], .inl (work_unknown host hw env)⟩
  | some w =>
    rw [work_handle host hw]
    cases ha : accept s.cfg host w.credential w.route with
    | error e =>
      rw [handle_refused ha, Prog.raise_bind]
      exact .inr ⟨by simp [State.handled, hw, ha], .inr ⟨e, rfl⟩⟩
    | ok r =>
      obtain ⟨a, call⟩ := r
      rw [handle_admitted ha]
      exact .inl ⟨w, a, call, rfl, ha, rfl⟩

/-- A request is handled for its account, or changes nothing. -/
theorem handled_cases (host : Host) (s : State) (id : Nat) (env : Env) :
    (∃ w a call, s.handled host (.handle id env) = some (w, a, call) ∧ s.waiting id = some w ∧
      (s.act host (.handle id env)).server =
    (perform s.cfg host w.credential env a call s.server).state ∧
      s.answer host (.handle id env) =
        some (finish (perform s.cfg host w.credential env a call s.server))) ∨
    s.handled host (.handle id env) = none ∧ (s.act host (.handle id env)).server = s.server := by
  rcases work_cases host s id env with ⟨w, a, call, hw, ha, -⟩ | ⟨hnone, hwork⟩
  · exact .inl ⟨w, a, call, handled_some hw ha env, hw, act_handle hw ha⟩
  · refine .inr ⟨hnone, ?_⟩
    show (s.work host (.handle id env) s.server).state = _
    rcases hwork with hwork | ⟨e, hwork⟩
    · rw [hwork]; rfl
    · rw [hwork]; rfl

theorem act_admin (host : Host) (s : State) (authorization : Option String) (route : AdminRoute)
    (env : Env) :
    (s.act host (.admin authorization route env)).server =
      (handleAdmin s.cfg host env authorization route s.server).state := by
  show (s.work host (.admin authorization route env) s.server).state = _
  rw [State.work, Prog.state_bind_pure]

/-! ## Actions and the life of a blob -/

section Media
variable (host : Host) (s : State)

theorem ignore_follows {α : Type} {γ : Type} {π : Server → γ} {R : γ → γ → Prop} {P : Server → Prop}
    {m : Handler α} (h : Prog.Follows π R P m fun _ _ => True) :
    Prog.Follows π R P (do let _ ← m; pure ()) fun _ _ => True :=
  .bind h fun _ => .pure fun _ _ => trivial

/-- **Every action but a reclaim takes `MediaStep`s**, and stages no parts but
those it brings. -/
theorem work_media {a : Action} (ha : ∀ policy nowMs, a ≠ .reclaim policy nowMs)
    {sent : List SentPart} (hsent : ∀ p ∈ s.sends host a, p ∈ sent) :
    Prog.Follows Server.media (MediaStep host.sha256Hex sent) (fun v => v = s.server)
      (s.work host a) fun _ _ => True := by
  cases a with
  | arrive id req => exact .pure fun _ _ => trivial
  | handle id env =>
    rcases work_cases host s id env with ⟨w, b, call, hw, hb, hwork⟩ | ⟨-, hwork | ⟨e, hwork⟩⟩
    · rw [hwork]
      refine ignore_follows
        ((perform_follows s.cfg host w.credential env b call sent).pre fun v hv p hp => hsent p ?_)
      rw [sends_handle host hw hb]
      exact hv ▸ hp
    · rw [hwork]
      exact .pure fun _ _ => trivial
    · rw [hwork]
      exact .raise e
  | drop id => exact .pure fun _ _ => trivial
  | admin authorization route env =>
    exact ignore_follows (handleAdmin_follows mediaStep_purge s.cfg host env authorization route)
  | reclaim policy nowMs => exact absurd rfl (ha policy nowMs)
  | reap ttlMs nowMs => exact ignore_follows (reapUploadSessions_follows mediaStep_drop ttlMs nowMs)
  | close a sub => exact .poke (fun _ => rfl) fun _ _ => trivial
  | heartbeat a sub =>
    refine .poke (fun v => ?_) fun _ _ => trivial
    rw [heartbeat_hub]
    rfl

theorem reclaim_media (policy : ReclaimPolicy) (nowMs : Int) :
    Prog.Follows Server.media ReclaimStep (fun v => v = s.server)
      (s.work host (.reclaim policy nowMs))
      fun _ _ => True :=
  ignore_follows (reclaimSweep_follows (fun _ _ h => h) policy nowMs)

/-- An event that is no reclaim takes `MediaStep`s, to its end or not. -/
theorem next_steps {e : Event} (he : ∀ policy nowMs, e.action ≠ .reclaim policy nowMs) :
    Relation.ReflTransGen
      (MediaStep host.sha256Hex (s.sent ++ s.sends host e.action)) s.server.media
      (s.next host e).server.media := by
  have hwork := work_media host s he fun _ => List.mem_append_right s.sent
  rcases next_media host s e with e1 | ⟨n, e1⟩
  · rw [e1]; exact hwork.state rfl
  · rw [e1]; exact hwork.stopAfter rfl n

theorem next_reclaims {e : Event} {policy : ReclaimPolicy} {nowMs : Int}
    (he : e.action = .reclaim policy nowMs) :
    Relation.ReflTransGen ReclaimStep s.server.media (s.next host e).server.media := by
  rcases next_media host s e with e1 | ⟨n, e1⟩
  · rw [e1, he]; exact (reclaim_media host s policy nowMs).state rfl
  · rw [e1, he]; exact (reclaim_media host s policy nowMs).stopAfter rfl n

end Media

/-! ## A sample server -/

/-- The SHA-256 of no bytes. -/
def emptyHash : String := "e3b0c44298fc1c149afbf4c8996fb92427ae41e4649b934ca495991b7852b855"

/-- The SHA-256 of the bytes 1 to 5. -/
def partsHash : String := "74f81fe167d99b4cb41d6d0ccda82278caee9f3e2f25d5e5a3936ff3dcec60d0"

/-- Sixty-four times the same digit, as random secrets go. -/
def sampleSecret (digit : Char) : String := String.ofList (List.replicate 64 digit)

/-- Some values of SHA-256. -/
def knownHashes : List (Bytes × String) :=
  [([], emptyHash), ([1, 2, 3, 4, 5], partsHash),
    (("gvc_" ++ sampleSecret '0').toUTF8.data.toList,
      "e1bbc96b14c48171d3f15fe4e331584b04f1f4aec3a4692116f93bc4ba5bdbc3"),
    (("gvc_" ++ sampleSecret '1').toUTF8.data.toList,
      "4d64c3dcd60863dbb5962607ec6ce239c80e87936e408d165849a3c41ce45955"),
    (("gvk_" ++ sampleSecret '2').toUTF8.data.toList,
      "df48b97daf5b46cd2d5c77191a1a361233ab338478dbb2d5ce34f9b381fba596")]

/-- An injective hash with these values. -/
def sampleSha (b : Bytes) : String :=
  match knownHashes.find? fun p => decide (p.1 = b) with
  | some p => p.2
  | none => String.ofList ('x' :: b.map fun x => Char.ofNat x.toNat)

theorem sampleSha_injective : Function.Injective sampleSha := by
  have hx : ∀ p ∈ knownHashes, p.2.toList.head? ≠ some 'x' := by decide +kernel
  have hnodup : (knownHashes.map Prod.snd).Nodup := by decide +kernel
  have hc : Function.Injective fun x : UInt8 => Char.ofNat x.toNat := by
    intro x y e
    have hv : ∀ z : UInt8, (Char.ofNat z.toNat).toNat = z.toNat := by
      have h : ∀ n : Fin 256, (Char.ofNat n.val).toNat = n.val := by decide +kernel
      exact fun z => h ⟨z.toNat, z.toNat_lt⟩
    have h : x.toNat = y.toNat := by rw [← hv x, ← hv y]; exact congrArg Char.toNat e
    exact UInt8.toNat_inj.1 h
  have hknown : ∀ {b : Bytes} {p : Bytes × String},
      (knownHashes.find? fun p => decide (p.1 = b)) = some p →
      p ∈ knownHashes ∧ p.1 = b := fun h =>
        ⟨List.mem_of_find?_eq_some h, by simpa using List.find?_some h⟩
  intro b c e
  unfold sampleSha at e
  cases hb : knownHashes.find? fun p => decide (p.1 = b) with
  | some p =>
    obtain ⟨hp, hpb⟩ := hknown hb
    cases hc' : knownHashes.find? fun p => decide (p.1 = c) with
    | some q =>
      obtain ⟨hq, hqc⟩ := hknown hc'
      simp only [hb, hc'] at e
      have hpq : p = q := List.inj_on_of_nodup_map hnodup hp hq e
      exact hpb.symm.trans (congrArg Prod.fst hpq |>.trans hqc)
    | none =>
      simp only [hb, hc'] at e
      exact absurd (by rw [e]; simp) (hx p hp)
  | none =>
    cases hc' : knownHashes.find? fun p => decide (p.1 = c) with
    | some q =>
      obtain ⟨hq, -⟩ := hknown hc'
      simp only [hb, hc'] at e
      exact absurd (by rw [← e]; simp) (hx q hq)
    | none =>
      simp only [hb, hc'] at e
      have h := congrArg String.toList e
      simp only [String.toList_ofList, List.cons.injEq, true_and] at h
      exact List.map_injective_iff.2 hc h

def sampleHost : Host := ⟨sampleSha, fun _ => none⟩

/-- A shared-token server without limits. -/
def sampleConfig : Config where
  authMode := .shared
  deviceToken := "token"
  enrollmentMode := .bootstrap
  enrollmentSecret := ""
  maxAccounts := none
  allowedApps := ["dayglance"]
  maxBlobSize := 1000
  quotas := ⟨none, none, none, none⟩
  maxSseConnectionsPerAccount := 10
  maxSseConnections := 100

/-- The surroundings of a handler that draws the id `u` at the time `now`. -/
def sampleEnv (u now : String) : Env := ⟨fun _ => now, now, u, u, fun _ => false⟩

/-- A request that is answered at once. -/
def ask (route : Route) (env : Env) : List Action :=
  [.arrive 0 ⟨some "Bearer token", route⟩, .handle 0 env]

/-- The batch of one row, as a request. -/
def writeOne (e : String) : List Action :=
  ask (.syncBatch "dayglance" (.json (.obj [("accountId", .str "house"),
    ("rows", .arr [.obj [("entityId", .str e), ("envelope", .str "")]])]))) (sampleEnv "" "t")

/-- The account `a` uploads the empty blob. -/
def uploadEmpty (a u now : String) : List Action :=
  ask (.uploadInitiate
    (.json (.obj [("accountId", .str a), ("blobHash", .str emptyHash), ("size", .nat 0)])))
    (sampleEnv u now) ++
  ask (.uploadFinalize u (.json (.obj [("accountId", .str a)]))) (sampleEnv u now)

end GlanceVault.L4
