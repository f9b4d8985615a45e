import GlanceVault.L3Http.Nudges
import GlanceVault.L4System.System
/-!
# Nudges over whole runs

One process, from an empty hub on any volume, with any interleaving of
requests, connects, disconnects, failing deliveries, sweeps and operators, but
no account deletion: a deletion starts the account's counter anew. Every
action is a step of the feed of `GlanceVault.L3Http.Nudges`.

* `act_feed`, `feed_run`: an action, a run as steps of the feed.
* `act_publishes`: which actions publish, and what.
* `nudges_delivered`: nudges are sound, ordered and never lost.
-/
namespace GlanceVault.L4
open GlanceVault.Core GlanceVault.L1 GlanceVault.L2 GlanceVault.L3

/-- The stream an action opens, if any. -/
def State.opens (host : Host) (s : State) (act : Action) : List Stream :=
  match s.handled host act with
  | some (w, a, call) => call.opens s.cfg w.credential a s.server
  | none => []

/-- The account of the content write an action handles, and the label it nudges
with. -/
def State.nudges (host : Host) (s : State) (act : Action) : Option (String × String) :=
  match s.handled host act with
  | some (_, a, call) => call.nudges.map fun app => (a, app)
  | none => none

/-- The streams opened in a run, in order. -/
def streams (host : Host) (s : State) : List Action → List Stream
  | [] => []
  | act :: as => s.opens host act ++ streams host (s.act host act) as

section Act
variable {host : Host} {s : State} {old : List Stream}

/-- The actions that touch neither the hub's logs nor the counters' order. -/
theorem quiet_feed {v w : Server} (hids : v.Numbers old)
    (hl : ∀ b, latestSeq v.db b ≤ latestSeq w.db b)
    (hset : ∀ b, (w.hub.set b).Sublist (v.hub.set b)) (hid : w.nextId = v.nextId)
    (hp : w.published = v.published) (hd : w.delivered = v.delivered) :
    Feed.Step Nudge.seq (v.feed old) (w.feed (old ++ [])) ∧ w.Numbers (old ++ []) := by
  rw [List.append_nil]
  exact ⟨feed_idle hl hset hp hd, fun p hm => by rw [hid]; exact hids p hm⟩

/-- A sweep moves no counter back and leaves the hub alone. -/
theorem sweep_feed {m : Handler Unit} (hids : s.server.Numbers old) (hrun : Runs Scoped m)
    (hkeep : Prog.Keeps Server.wire m) :
    Feed.Step Nudge.seq (s.server.feed old) ((m s.server).state.feed (old ++ [])) ∧
      (m s.server).state.Numbers (old ++ []) := by
  have hw := wire_eq (hkeep s.server).1
  refine quiet_feed hids (fun b => ?_) (fun b => ?_) ?_ ?_ ?_
  · exact hrun.inv (I := fun d => latestSeq s.server.db b ≤ latestSeq d b) (fun o d d' ho e h =>
      Nat.le_trans h
        (Line.counter_le (line_reaches o (a := b) (fun hd => ho.2 (by rw [hd]; rfl)) d () d' e)))
      (Nat.le_refl _)
  · rw [hw]
  · rw [hw]
  · rw [hw]
  · rw [hw]

theorem reclaim_wire (policy : ReclaimPolicy) (nowMs : Int) :
    Prog.Keeps Server.wire (s.work host (.reclaim policy nowMs)) :=
  .bind (reclaimSweep_frame (wire_ignores _) (wire_ignores _) policy nowMs) fun _ => .pure _

theorem reap_wire (ttlMs nowMs : Int) : Prog.Keeps Server.wire (s.work host (.reap ttlMs nowMs)) :=
  .bind (reapUploadSessions_frame (wire_ignores _) (wire_ignores _) ttlMs nowMs) fun _ => .pure _

theorem unsubscribe_sublist (hub : Hub) (a b : String) (sub : Subscriber) :
    ((hub.unsubscribe a sub).set b).Sublist (hub.set b) := by
  rw [Hub.set_unsubscribe]
  split
  · exact List.filter_sublist
  · exact List.Sublist.refl _

/-- **An action that deletes no account is a step of the feed.** -/
theorem act_feed (host : Host) {act : Action} (h : act.deletesAccount = false)
    (hids : s.server.Numbers old) :
    Feed.Step Nudge.seq (s.server.feed old)
      ((s.act host act).server.feed (old ++ s.opens host act)) ∧
      (s.act host act).server.Numbers (old ++ s.opens host act) := by
  have hsame : ∀ {w : Server}, w = s.server →
      Feed.Step Nudge.seq (s.server.feed old) (w.feed (old ++ [])) ∧
      w.Numbers (old ++ []) := fun e => by
    subst e
    exact quiet_feed hids (fun _ => Nat.le_refl _) (fun _ => List.Sublist.refl _) rfl rfl rfl
  have hclose : ∀ a sub, Feed.Step Nudge.seq (s.server.feed old)
      ((s.server.closeStream a sub).feed (old ++ [])) ∧
      (s.server.closeStream a sub).Numbers (old ++ []) := fun a sub =>
    quiet_feed hids (fun _ => Nat.le_refl _)
      (fun b => unsubscribe_sublist s.server.hub a b sub) rfl rfl rfl
  cases act with
  | arrive id req => exact hsame rfl
  | handle id env =>
    rcases handled_cases host s id env with ⟨w, a, call, hh, -, hs, -⟩ | ⟨hh, hs⟩
    · unfold State.opens
      rw [hs, hh]
      exact perform_feed hids w.credential a call
    · unfold State.opens
      rw [hh]
      exact hsame hs
  | drop id => exact hsame rfl
  | admin authorization route env =>
    have hroute : ∀ a body, route ≠ .deleteAccount a body := fun a body e => by
      rw [e] at h
      cases h
    have hstep := handleAdmin_feed s.cfg host env hids authorization hroute
    unfold State.opens State.handled
    rw [List.append_nil, act_admin]
    exact hstep
  | reclaim policy nowMs =>
    exact sweep_feed hids
      (.bind ((reclaimSweep_runs policy nowMs).mono fun _ => Uploads.scoped) fun _ => .pure _)
      (reclaim_wire policy nowMs)
  | reap ttlMs nowMs =>
    exact sweep_feed hids
      (.bind ((reapUploadSessions_runs ttlMs nowMs).mono fun _ => Uploads.scoped) fun _ => .pure _)
      (reap_wire ttlMs nowMs)
  | close a sub => exact hclose a sub
  | heartbeat a sub =>
    show Feed.Step Nudge.seq _ ((s.server.heartbeat s.cfg a sub).feed (old ++ [])) ∧ _
    rw [show (s.act host (.heartbeat a sub)).server = s.server.heartbeat s.cfg a sub from rfl]
    unfold Server.heartbeat
    split
    · split
      · exact hsame rfl
      · exact hclose a sub
    · exact hsame rfl

/-- **Which actions publish, and what.** -/
theorem act_publishes (host : Host) (s : State) (act : Action) :
    (s.act host act).server.published = s.server.published ++
      match s.nudges host act with
      | some (a, app) =>
        if latestSeq s.server.db a < latestSeq (s.act host act).server.db a then
          [(a, ⟨latestSeq (s.act host act).server.db a, some app⟩)]
        else []
      | none => [] := by
  have hsame : ∀ {w : Server}, w.wire = s.server.wire →
      w.published = s.server.published ++ [] := fun e => by
    rw [wire_eq e, List.append_nil]
  cases act with
  | handle id env =>
    rcases handled_cases host s id env with ⟨w, a, call, hh, -, hs, -⟩ | ⟨hh, hs⟩
    · unfold State.nudges
      rw [hs, hh]
      by_cases hc : call = .connect
      · subst hc
        rw [perform_connect]
        exact (List.append_nil _).symm
      · obtain ⟨db, disk, e⟩ := perform_wakes s.server s.cfg host env a w.credential hc
        rw [e, wake_published, wake_db]
        dsimp only
        cases call.nudges <;> rfl
    · unfold State.nudges
      rw [hs, hh]
      exact (List.append_nil _).symm
  | admin authorization route env =>
    rw [act_admin]
    have hkeep :=
      (handleAdmin_inv (I := fun v => v.published = s.server.published)
        (fun _ _ h => h) (fun _ _ h => h)
      (fun _ _ h => h) s.cfg host env authorization route).state (s := s.server) rfl
    rw [hkeep]
    exact (List.append_nil _).symm
  | reclaim policy nowMs => exact hsame (reclaim_wire policy nowMs s.server).1
  | reap ttlMs nowMs => exact hsame (reap_wire ttlMs nowMs s.server).1
  | heartbeat a sub =>
    show (s.server.heartbeat s.cfg a sub).published = _
    refine (?_ : (s.server.heartbeat s.cfg a sub).published = s.server.published).trans
      (List.append_nil _).symm
    rw [heartbeat_hub]
  | _ => exact (List.append_nil _).symm

/-- A stream that opens is answered with the counter, and is registered. -/
theorem opens_answer (host : Host) (s : State) (act : Action) : ∀ p ∈ s.opens host act,
    s.answer host act = some ⟨200, streamHeaders, .stream (.obj [("seq", .nat p.start)])⟩ ∧
      p.listener ∈ (s.act host act).server.hub.set p.key := by
  intro p hp
  unfold State.opens at hp
  cases act with
  | handle id env =>
    rcases handled_cases host s id env with ⟨w, a, call, hh, -, hs, hans⟩ | ⟨hh, -⟩
    · rw [hh] at hp
      rw [hs, hans]
      cases call with
      | connect =>
        have hrun := connect_run s.server s.cfg w.credential a
        unfold Call.opens at hp
        dsimp only at hp hrun
        split at hp
        · rename_i hsub
          rw [if_pos hsub] at hrun
          rw [List.mem_singleton.1 hp]
          show some (finish (connect s.cfg w.credential a s.server)) = _ ∧
            _ ∈ (connect s.cfg w.credential a s.server).state.hub.set a
          rw [hrun]
          refine ⟨rfl, ?_⟩
          dsimp only
          rw [Hub.set_subscribe, if_pos ⟨hsub, rfl⟩]
          split
          · assumption
          · exact List.mem_append_right _ (List.mem_singleton.2 rfl)
        · cases hp
      | _ => cases hp
    · rw [hh] at hp
      cases hp
  | _ => cases hp

end Act

/-! ## Runs -/

theorem feed_run {host : Host} : ∀ (as : List Action) (s : State) (old : List Stream),
    (∀ act ∈ as, act.deletesAccount = false) → Feed.Kept Nudge.seq
    (s.server.feed old) → s.server.Numbers old →
    Feed.Kept Nudge.seq ((run (State.act host) s as).server.feed (old ++ streams host s as))
  | [], s, old, _, hkept, _ => by
    rw [streams, List.append_nil]
    exact hkept
  | act :: as, s, old, h, hkept, hids => by
    obtain ⟨hstep, hids'⟩ := act_feed host (h act List.mem_cons_self) hids
    rw [streams, ← List.append_assoc]
    exact feed_run as (s.act host act) _ (fun b hb => h b (List.mem_cons_of_mem _ hb))
      (hkept.step hstep) hids'

theorem streams_append (host : Host) (after : List Action) : ∀ (before : List Action) (s : State),
    streams host s (before ++ after) =
      streams host s before ++ streams host (run (State.act host) s before) after
  | [], _ => rfl
  | act :: before, s => by
    rw [List.cons_append, streams, streams, streams_append host after before,
      run_cons, List.append_assoc]

/-- A process that comes up on the volume of `v`. -/
def State.up (cfg : Config) (v : Server) : State := ⟨cfg, v.restart, [], []⟩

/-- **Nudges are sound, ordered and never lost.** One process, from its start on
any volume, over any run without an account deletion. An action publishes
exactly if it handles a sync batch with `notify` not false, a row delete or an
intents batch whose transaction moved the account's counter, by numbers for its
rows or events, and then the counter it left. On every stream the seq of the
`ready` frame and the nudges after it grow strictly. A stream that is still
registered has been sent a seq at least that of every nudge of its account,
published before or after it connected. A nudge is sent to streams of its
account only. -/
theorem nudges_delivered (host : Host) (cfg : Config) (volume : Server) (as : List Action)
    (h : ∀ act ∈ as, act.deletesAccount = false) :
    let s := run (State.act host) (State.up cfg volume) as
    let opened := streams host (State.up cfg volume) as
    (∀ before act after, as = before ++ act :: after →
      let t := run (State.act host) (State.up cfg volume) before
      let t' := t.act host act
      t'.server.published = t.server.published ++ (match t.nudges host act with
        | some (a, app) =>
          if latestSeq t.server.db a < latestSeq t'.server.db a then
            [(a, ⟨latestSeq t'.server.db a, some app⟩)]
          else []
        | none => []) ∧
      ∀ p ∈ t.opens host act, p ∈ opened ∧
        t.answer host act = some ⟨200, streamHeaders, .stream (.obj [("seq", .nat p.start)])⟩ ∧
        p.listener ∈ t'.server.hub.set p.key) ∧
    (∀ p ∈ opened, (Feed.heard Nudge.seq s.server.delivered p).Pairwise (· < ·)) ∧
    (∀ a, ∀ sub ∈ s.server.hub.set a, ∃ p ∈ opened, p.key = a ∧ p.listener = sub) ∧
    (∀ p ∈ opened, p.listener ∈ s.server.hub.set p.key →
      ∀ nudge, (p.key, nudge) ∈ s.server.published →
      ∃ n ∈ Feed.heard Nudge.seq s.server.delivered p, nudge.seq ≤ n) ∧
    (∀ p ∈ opened, ∀ q ∈ opened, p.listener = q.listener → p = q) ∧
    ∀ sub nudge, (sub, nudge) ∈ s.server.delivered →
      ∃ p ∈ opened, p.listener = sub ∧ (p.key, nudge) ∈ s.server.published := by
  intro s opened
  have hkept : Feed.Kept Nudge.seq (s.server.feed opened) :=
    feed_run as (State.up cfg volume) [] h Feed.Kept.init fun p hp => nomatch hp
  refine ⟨fun before act after e => ?_, hkept.order, hkept.member, fun p hp hlive nudge hn =>
    hkept.caught p hp hlive (p.key, nudge) hn rfl, hkept.single, fun sub nudge hd =>
      hkept.own (sub, nudge) hd⟩
  refine ⟨act_publishes host _ act, fun p hp => ⟨?_, opens_answer host _ act p hp⟩⟩
  show p ∈ streams host (State.up cfg volume) as
  rw [e, streams_append, streams]
  exact List.mem_append_right _ (List.mem_append_left _ hp)

/-- A device of the house opens its stream. -/
def listens : List Action :=
  ask (.events fun k => if k = "accountId" then some (.str "house") else none) (sampleEnv "" "t")

/-- A write between two connects: both streams are told of it. -/
theorem nudges_delivered_around :
    let as := listens ++ writeOne "e" ++ listens
    let s := run (State.act sampleHost) (State.up sampleConfig .fresh) as
    s.server.published = [("house", ⟨1, some "dayglance"⟩)] ∧
      s.server.hub.set "house" = [⟨1, none⟩, ⟨2, none⟩] ∧
      ∀ sub ∈ s.server.hub.set "house", ∃ p ∈ streams sampleHost (State.up sampleConfig .fresh) as,
        p.listener = sub ∧ ∃ n ∈ Feed.heard Nudge.seq s.server.delivered p, 1 ≤ n := by
  intro as s
  have hpub : s.server.published = [("house", ⟨1, some "dayglance"⟩)] := by decide +kernel
  obtain ⟨-, -, hmember, hcaught, -, -⟩ :=
    nudges_delivered sampleHost sampleConfig .fresh as (by decide +kernel)
  refine ⟨hpub, by decide +kernel, fun sub hsub => ?_⟩
  obtain ⟨p, hp, hkey, hlistener⟩ := hmember "house" sub hsub
  refine ⟨p, hp, hlistener, ?_⟩
  subst hlistener
  rw [← hkey] at hsub
  exact hcaught p hp hsub ⟨1, some "dayglance"⟩
    (by rw [hkey]; exact hpub ▸ List.mem_singleton.2 rfl)

end GlanceVault.L4
