import GlanceVault.L3Http.Teardown
import GlanceVault.L4System.Noninterference
import GlanceVault.L4System.Reassembly
/-!
# Acked parts are there

A client resumes an upload from the parts the status lists, so each of them has
to have its file. That is so after every run in which the process has not
stopped between the two steps of a removal: where it has, the session is live,
its parts are listed, and their files are gone.

* `valid_after`: upload ids are as Node draws them.
* `stop_cut`: what an action leaves of an upload where it is stopped.
* `anchored_next`: files without a session come only from an account deletion
  that was stopped.
* `parts_present`: the runs after which every upload can be resumed.

## Hypotheses

* `DrawsIds`: the upload ids that `randomUUID` draws have the form of an upload
  id, which the routes ask of the ids they are sent.
-/
namespace GlanceVault.L4
open GlanceVault.Core GlanceVault.L1 GlanceVault.L2 GlanceVault.L3

/-! ## Upload ids -/

/-- The ids in use are as Node draws them. -/
def Drawn (v : Server) : Prop := ∀ u, v.uses u → Js.isUploadId u = true

/-- Whatever the events of a run open a session with, Node has drawn. -/
def DrawsIds (es : List Event) : Prop :=
  ∀ e ∈ es, ∀ u, e.action.draws = some u → Js.isUploadId u = true

section Valid
variable {host : Host} {s : State}

theorem drawn_next {e : Event} (he : ∀ u, e.action.draws = some u → Js.isUploadId u = true)
    (h : Drawn s.server) :
    Drawn (s.next host e).server := by
  have hsteps : ∀ {x : Table UploadSession.uploadId × Table UploadPart.key × Disk},
      Relation.ReflTransGen (Brings e.action.draws) s.server.uploads x → ∀ u, usedIn x u →
      Js.isUploadId u = true := fun hx =>
    Prog.reach_inv (I := fun x => ∀ u, usedIn x u → Js.isUploadId u = true)
      (fun x y hxy hx u hu => (hxy u hu).elim (hx u) (he u)) hx h
  cases e with
  | run a => exact hsteps ((work_brings host s a).state rfl)
  | stop a n cfg => exact hsteps ((work_brings host s a).stopAfter rfl n)

theorem drawn_run (host : Host) : ∀ (es : List Event) {s : State}, DrawsIds es → Drawn s.server →
    Drawn (run (State.next host) s es).server
  | [], _, _, h => h
  | e :: es, _, hes, h =>
    drawn_run host es (fun f hf => hes f (List.mem_cons_of_mem _ hf))
      (drawn_next (hes e List.mem_cons_self) h)

theorem drawn_init (cfg : Config) : Drawn (State.init cfg).server := by
  rintro u (h | ⟨p, h, -⟩ | ⟨i, h⟩)
  · exact absurd rfl h
  · cases h
  · exact absurd rfl h

theorem drawn_after (host : Host) (cfg : Config) (es : List Event) (hids : DrawsIds es) :
    Drawn (State.after host cfg es).server :=
  drawn_run host es hids (drawn_init cfg)

theorem Drawn.sessions {v : Server} (h : Drawn v) :
    ∀ t ∈ v.db.uploadSessions.rows, Js.isUploadId t.uploadId = true :=
  fun t ht =>
    h t.uploadId (.inl fun hnone => Option.some_ne_none t
      ((Table.find_some.2 ⟨ht, rfl⟩).symm.trans hnone))

theorem Drawn.live {v : Server} (h : Drawn v) {u : String}
    (hlive : v.db.uploadSessions.find u ≠ none) :
    Js.isUploadId u = true := h u (.inl hlive)

end Valid

/-! ## Where an action is stopped -/

/-- The number of storage steps after which an action has removed the staged
files of an upload, and not its rows. -/
def State.removes (host : Host) (s : State) (u : String) : Action → Option Nat
  | .handle id env => (s.handled host (.handle id env)).bind fun x =>
    x.2.2.removes s.cfg host x.2.1 u s.server
  | .reap ttlMs nowMs =>
    match isoOf (nowMs - ttlMs) with
    | .ok cutoff => reapRemoves u (listStaleUploadSessions cutoff s.server.db)
    | .error _ => none
  | _ => none

section Stop
variable {host : Host} {s : State} {u : String}

theorem handleAdmin_complete (cfg : Config) (host : Host) (env : Env) (header : Option String)
    (route : AdminRoute) :
    Stays u Upload.Complete (handleAdmin cfg host env header route) := by
  have hframe : (∀ a body, route ≠ .deleteAccount a body) →
      Stays u Upload.Complete (handleAdmin cfg host env header route) :=
    fun h => stays_keeps (handleAdmin_frame (fun _ _ _ _ _ => rfl)
      (upload_ignores rfl) cfg host env header h)
  cases route with
  | deleteAccount a body =>
    unfold handleAdmin
    refine .ite
      (fun _ => .bind (stays_keeps (.ofExcept _)) fun _ => deleteAccountRoute_complete a body)
      fun _ => ?_
    exact .bind (stays_keeps (.ofExcept _)) fun _ => stays_keeps (unmounted_frame cfg host header)
  | _ => exact hframe nofun

theorem reapUploadSessions_cut (hdrawn : Drawn s.server) (hs : (s.server.upload u).Complete)
    (ttlMs nowMs : Int) :
    Cuts u (reapUploadSessions ttlMs nowMs) s.server (s.removes host u (.reap ttlMs nowMs)) := by
  unfold reapUploadSessions
  cases hiso : isoOf (nowMs - ttlMs) with
  | error e =>
    have hnone : s.removes host u (.reap ttlMs nowMs) = none := by simp [State.removes, hiso]
    rw [hnone]
    exact cuts_refused (e := e) hs rfl
  | ok cutoff =>
    have hsome : s.removes host u (.reap ttlMs nowMs) =
        reapRemoves u (listStaleUploadSessions cutoff s.server.db) := by
      simp [State.removes, hiso]
    rw [hsome]
    let stale := listStaleUploadSessions cutoff s.server.db
    have hrun :
        (Prog.ofExcept (Except.ok cutoff) >>= fun cutoff => readDb
          (listStaleUploadSessions cutoff) >>= fun stale =>
        Prog.each reapSession stale >>= fun _ => pure stale.length : Handler Nat) s.server =
      (Prog.each reapSession stale >>= fun _ => pure stale.length : Handler Nat) s.server := rfl
    refine cuts_congr hrun (cuts_pure _ (reap_cut u stale (fun t ht => ?_) (fun t ht => ?_) ?_ hs))
    · exact hdrawn.sessions t (List.mem_filter.1 ht).1
    · exact Table.find_some.2 ⟨(List.mem_filter.1 ht).1, rfl⟩
    · exact (List.Sublist.map _ List.filter_sublist).nodup s.server.db.uploadSessions.unique

/-- **What an action leaves of an upload where it is stopped.** -/
theorem work_cut (hgen : Genuine host.sha256Hex s.sent s.server.media) (hdrawn : Drawn s.server)
    (hs : (s.server.upload u).Complete) (a : Action) :
    Cuts u (s.work host a) s.server (s.removes host u a) := by
  cases a with
  | arrive id req => exact cuts_stays (.pure fun _ h => h) hs
  | handle id env =>
    rcases work_cases host s id env with ⟨w, b, call, hw, ha, hwork⟩ | ⟨hnone, hwork⟩
    · have hsome : s.removes host u (.handle id env) = call.removes s.cfg host b u s.server := by
        simp only [State.removes, handled_some hw ha, Option.bind_some]
      rw [hsome, hwork]
      exact cuts_pure _ (perform_cut s.cfg host w.credential env b call hdrawn.live
        (fun t ht => hgen.sessionHash t (Table.find_mem ht)) hs)
    · have hnone : s.removes host u (.handle id env) = none := by
        simp only [State.removes, hnone, Option.bind_none]
      rcases hwork with hwork | ⟨e, hwork⟩
      · rw [hnone, hwork]
        exact cuts_stays (.pure fun _ h => h) hs
      · rw [hnone, hwork]
        exact cuts_refused hs rfl
  | drop id => exact cuts_stays (.pure fun _ h => h) hs
  | admin authorization route env =>
    exact cuts_pure _ (cuts_stays (handleAdmin_complete s.cfg host env authorization route) hs)
  | reclaim policy nowMs =>
    exact cuts_pure _ (cuts_stays (stays_keeps (reclaimSweep_others policy nowMs)) hs)
  | reap ttlMs nowMs => exact cuts_pure _ (reapUploadSessions_cut hdrawn hs ttlMs nowMs)
  | close a sub => exact cuts_stays (stays_keeps (.poke fun _ => rfl)) hs
  | heartbeat a sub =>
    refine cuts_stays (stays_keeps (.poke fun v => ?_)) hs
    rw [heartbeat_hub]
    rfl

end Stop

/-- Every acked part is staged. -/
def Present (v : Server) : Prop := ∀ u, (v.upload u).Complete

/-- The process is not stopped between the two steps of a removal of acked
parts: after their files are gone, before their rows are. -/
def State.tidy (host : Host) (s : State) : Event → Prop
  | .run _ => True
  | .stop act n _ => ∀ p ∈ s.server.db.uploadParts.rows, s.removes host p.uploadId act ≠ some n

instance (host : Host) (s : State) : (e : Event) → Decidable (s.tidy host e)
  | .run _ => .isTrue trivial
  | .stop act n _ =>
    inferInstanceAs (Decidable (∀ p ∈ s.server.db.uploadParts.rows,
      s.removes host p.uploadId act ≠ some n))

section Present
variable {host : Host} {s : State}

/-- **One event keeps the parts exactly if it is tidy.** -/
theorem present_next (hgen : Genuine host.sha256Hex s.sent s.server.media)
    (hdrawn : Drawn s.server) (h : Present s.server)
    (e : Event) : Present (s.next host e).server ↔ s.tidy host e := by
  cases e with
  | run act => exact ⟨fun _ => trivial, fun _ u => cuts_done (work_cut hgen hdrawn (h u) act)⟩
  | stop act n cfg =>
    have hcut : ∀ u, if s.removes host u act = some n then
        ((s.next host (.stop act n cfg)).server.upload u) = (s.server.upload u).gutted
        else ((s.next host (.stop act n cfg)).server.upload u).Complete := fun u =>
          work_cut hgen hdrawn (h u) act n
    constructor
    · intro hpresent p hp hremoves
      have hgutted := hcut p.uploadId
      rw [if_pos hremoves] at hgutted
      have hnone := Upload.gutted_complete.1 (hgutted ▸ hpresent p.uploadId)
      exact hnone p (Table.mem_keep.2 ⟨hp, by simp⟩)
    · intro htidy u
      have hu := hcut u
      by_cases hremoves : s.removes host u act = some n
      · rw [if_pos hremoves] at hu
        rw [hu]
        refine Upload.gutted_complete.2 fun p hp => ?_
        obtain ⟨hp, hpu⟩ := Table.mem_keep.1 hp
        have hpu : p.uploadId = u := by simpa using hpu
        exact htidy p hp (by rw [hpu]; exact hremoves)
      · rw [if_neg hremoves] at hu
        exact hu

theorem present_init (cfg : Config) : Present (State.init cfg).server := fun u p hp => by
  have hp : p ∈ ([] : List UploadPart) := (Table.mem_keep.1 hp).1
  cases hp

theorem present_run (host : Host) : ∀ (es : List Event) {s : State}, DrawsIds es →
    Genuine host.sha256Hex s.sent s.server.media → Drawn s.server → Present s.server →
      AllSteps (State.next host) (State.tidy host) s es →
      Present (run (State.next host) s es).server
  | [], _, _, _, _, h, _ => h
  | e :: es, s, hes, hgen, hdrawn, h, htidy =>
    present_run host es (fun f hf => hes f (List.mem_cons_of_mem _ hf)) (genuine_next host s e hgen)
      (drawn_next (hes e List.mem_cons_self) hdrawn)
        ((present_next hgen hdrawn h e).2 htidy.1) htidy.2

/-! ## Uploads that can be resumed -/

/-- The status of an upload lists parts that are there, and its finalize does
not throw. -/
structure Resumes (host : Host) (s : State) (u : String) (t : UploadSession) : Prop where
  status : ∀ credential env, perform s.cfg host credential env t.accountId
    (.uploadStatus u) s.server =
    ⟨.ok (.json 200 ([("uploadId", .str u), ("blobHash", .str t.blobHash),
      ("declaredSize", .nat t.declaredSize)] ++
      receivedJson (listUploadParts t.accountId u s.server.db))), s.server, []⟩
  staged : ∀ p ∈ listUploadParts t.accountId u s.server.db,
    (s.server.disk (.part u p.partIndex)).isSome
  finalize : ∀ credential env message,
    (perform s.cfg host credential env t.accountId
      (.finalize u) s.server).result ≠ .error (.raise message)

def Resumable (host : Host) (s : State) : Prop :=
  ∀ u t, s.server.db.uploadSessions.find u = some t → Resumes host s u t

theorem finalize_returns {v : Server} {u : String} {t : UploadSession} (cfg : Config) (host : Host)
    (env : Env)
    (hid : Js.isUploadId u = true) (hlive : v.db.uploadSessions.find u = some t)
    (hhash : Js.isHash t.blobHash = true)
    (h : (v.upload u).Complete) (message : String) :
    (finalize cfg host env t.accountId u v).result ≠ .error (.raise message) := by
  rcases finalize_steps cfg host env hid hlive hhash h with ⟨-, r, hrun⟩ |
    ⟨m, answer, hanswer, hm, hok, -, hrun⟩
  · rw [hrun]
    simp
  · have hlive' : (m v).state.db.uploadSessions.find u = some t :=
      (congrArg Upload.session (hm v).1).trans hlive
    have hdiscard := discardUploadSession_run hid hlive'
    rw [hrun, (Prog.bind_ok hok _).1, (Prog.bind_ok (congrArg Outcome.result hdiscard) _).1]
    cases answer with
    | ok r => exact fun h => nomatch h
    | error e => exact fun h => hanswer message h

theorem resumable_iff (hgen : Genuine host.sha256Hex s.sent s.server.media)
    (hdrawn : Drawn s.server) :
    Resumable host s ↔ Present s.server := by
  constructor
  · intro h u p hp
    obtain ⟨hp, hu⟩ := Table.mem_keep.1 hp
    have hu : p.uploadId = u := by simpa using hu
    obtain ⟨t, ht⟩ := Option.ne_none_iff_exists'.1 (hgen.owned p hp)
    rw [hu] at ht
    have ht : s.server.db.uploadSessions.find u = some t := ht
    exact (h u t ht).staged p (mem_listUploadParts.2 ⟨hp, hu, owns_of_session (session_own ht)⟩)
  · intro h u t hlive
    refine ⟨fun credential env => ?_, fun p hp => ?_, fun credential env message => ?_⟩
    · show uploadStatus t.accountId u s.server = _
      unfold uploadStatus readDb
      rw [Prog.get_bind, session_own hlive]
      have hu : t.uploadId = u := Table.find_key hlive
      simp only [Prog.found, Prog.pure_bind, Prog.get_bind, hu]
      rfl
    · obtain ⟨hp, hu, -⟩ := mem_listUploadParts.1 hp
      exact h u p (Table.mem_keep.2 ⟨hp, by simpa using hu⟩)
    · exact finalize_returns s.cfg host env (hdrawn.live (by rw [hlive]; simp)) hlive
        (hgen.sessionHash t (Table.find_mem hlive)) (h u) message

/-! ## Files without a session -/

theorem handleAdmin_anchored {u : String} (cfg : Config) (host : Host) (env : Env)
    (header : Option String) (a : String) (body : Body)
    {v : Server} (hdrawn : Drawn v) (h : (v.upload u).Anchored) :
    ((handleAdmin cfg host env header (.deleteAccount a body) v).state.upload u).Anchored := by
  let Start : Server → Prop :=
    fun s => (s.upload u).Anchored ∧ ∀ t ∈ s.db.uploadSessions.rows, Js.isUploadId t.uploadId = true
  have hland : Prog.Lands Start (handleAdmin cfg host env header (.deleteAccount a body))
      (fun _ s => (s.upload u).Anchored)
      fun s => (s.upload u).Anchored := by
    unfold handleAdmin
    refine .ite (fun _ => ?_) fun _ => ?_
    · exact Prog.Triple.bind (Q := fun _ => Start)
        (.ofExcept (fun _ _ _ hs => hs) fun _ hs => hs.1) fun _ =>
        deleteAccountRoute_anchored a body
    · refine Prog.Triple.bind (Q := fun _ => Start)
        (.ofExcept (fun _ _ _ hs => hs) fun _ hs => hs.1) fun _ => ?_
      have hkeeps : Prog.Keeps (Server.upload u) (unmounted cfg host header) :=
        unmounted_frame cfg host header
      exact (hkeeps.lands Upload.Anchored).pre fun _ hs => hs.1
  exact hland.state ⟨h, hdrawn.sessions⟩

/-- **An event leaves no files without a session**, unless it is an account
deletion that is stopped. -/
theorem anchored_next {u : String} (hdrawn : Drawn s.server) (h : (s.server.upload u).Anchored)
    {e : Event}
    (he : ∀ act n cfg, e = .stop act n cfg → act.deletesAccount = false) :
    ((s.next host e).server.upload u).Anchored := by
  by_cases hdelete : ∃ header a body env, e.action = .admin header (.deleteAccount a body) env
  · obtain ⟨header, a, body, env, hact⟩ := hdelete
    cases e with
    | stop act n cfg =>
      have hact : act = .admin header (.deleteAccount a body) env := hact
      have hno := he act n cfg rfl
      rw [hact] at hno
      cases hno
    | run act =>
      have hact : act = .admin header (.deleteAccount a body) env := hact
      subst hact
      show ((s.act host _).server.upload u).Anchored
      rw [act_admin]
      exact handleAdmin_anchored s.cfg host env header a body hdrawn h
  have hstays : Stays u Upload.Anchored (s.work host e.action) := by
    have hpure : ∀ {α : Type} {m : Handler α}, Stays u Upload.Anchored m →
        Stays u Upload.Anchored (do let _ ← m; pure ()) := fun hm => .bind hm fun _ =>
          .pure fun _ hs => hs
    cases hact : e.action with
    | arrive id req => exact .pure fun _ hs => hs
    | handle id env =>
      rcases work_cases host s id env with ⟨w, b, call, -, -, hwork⟩ | ⟨-, hwork | ⟨e, hwork⟩⟩
      · rw [hwork]
        exact hpure (perform_anchored s.cfg host w.credential env b call)
      · rw [hwork]
        exact .pure fun _ hs => hs
      · rw [hwork]
        exact stays_keeps (.raise e)
    | drop id => exact .pure fun _ hs => hs
    | admin header route env =>
      refine hpure
        (stays_keeps (handleAdmin_frame (fun _ _ _ _ _ => rfl)
          (upload_ignores rfl) s.cfg host env header ?_))
      intro a body hroute
      exact hdelete ⟨header, a, body, env, by rw [hact, hroute]⟩
    | reclaim policy nowMs => exact hpure (stays_keeps (reclaimSweep_others policy nowMs))
    | reap ttlMs nowMs => exact hpure (reapUploadSessions_anchored ttlMs nowMs)
    | close a sub => exact stays_keeps (.poke fun _ => rfl)
    | heartbeat a sub =>
      refine stays_keeps (.poke fun v => ?_)
      rw [heartbeat_hub]
      rfl
  cases e with
  | run act => exact hstays.state h
  | stop act n cfg => exact hstays.stopAfter h n

/-- A removal of the session that was stopped. -/
def Interrupted (host : Host) (cfg : Config) (u : String) (es : List Event) : Prop :=
  ∃ before act n cfg' later, es = before ++ .stop act n cfg' :: later ∧ act.deletesAccount = true ∧
    (State.after host cfg before).server.db.uploadSessions.find u ≠ none ∧
    (State.after host cfg (before ++ [.stop act n cfg'])).server.db.uploadSessions.find u = none

/-- **Files are of a live session, or of one whose removal was stopped.** -/
theorem files_anchored (host : Host) (cfg : Config) {es : List Event} (hids : DrawsIds es)
    {u : String} {i : Nat} (hfile : (State.after host cfg es).server.disk (.part u i) ≠ none) :
    (State.after host cfg es).server.db.uploadSessions.find u ≠ none ∨
    Interrupted host cfg u es := by
  by_cases hlive : (State.after host cfg es).server.db.uploadSessions.find u ≠ none
  · exact .inl hlive
  right
  rw [not_not] at hlive
  have hlast : ¬ ((State.after host cfg es).server.upload u).Anchored := fun h => hfile (h hlive i)
  have hfirst : ¬ ¬ ((State.init cfg).server.upload u).Anchored := not_not.2 fun _ _ => rfl
  obtain ⟨before, e, later, rfl, hbefore, hafter⟩ :=
    run_became (P := fun s : State => ¬ (s.server.upload u).Anchored) hfirst es hlast
  have hstep : ¬ ((State.after host cfg (before ++ [e])).server.upload u).Anchored :=
    hafter [] List.nil_prefix
  have hbefore : ((State.after host cfg before).server.upload u).Anchored := not_not.1 hbefore
  have hnext : State.after host cfg (before ++ [e]) =
      (State.after host cfg before).next host e := by
    unfold State.after
    rw [run_append]
    rfl
  have hdrawn := drawn_after host cfg before fun f hf => hids f (List.mem_append_left _ hf)
  have hstop : ∃ act n cfg', e = .stop act n cfg' ∧ act.deletesAccount = true := by
    by_contra hno
    refine hstep ?_
    rw [hnext]
    refine anchored_next hdrawn hbefore fun act n cfg' he => ?_
    exact Bool.eq_false_iff.2 fun hd => hno ⟨act, n, cfg', he, hd⟩
  obtain ⟨act, n, cfg', rfl, hd⟩ := hstop
  refine ⟨before, act, n, cfg', later, rfl, hd, fun hnone => ?_, not_not.1 fun h => hstep (.live h)⟩
  -- an upload that is gone already is not in use, and a deletion brings none into use
  have hunused : ¬ (State.after host cfg before).server.uses u := by
    rintro (h | ⟨p, hp, hu⟩ | ⟨j, h⟩)
    · exact h hnone
    · exact (genuine_after host cfg before).owned p hp (by rw [hu]; exact hnone)
    · exact h (hbefore hnone j)
  have hdraws : act.draws = none := by
    cases act with
    | handle id env => cases hd
    | _ => rfl
  have hunused' : ¬ (State.after host cfg (before ++ [.stop act n cfg'])).server.uses u := by
    rw [hnext]
    refine Prog.reach_inv (I := fun x => ¬ usedIn x u) (fun x y hxy hx hy => ?_)
      ((work_brings host (State.after host cfg before) act).stopAfter rfl n) hunused
    exact (hxy u hy).elim hx fun h => by rw [hdraws] at h; cases h
  refine hstep fun _ j => ?_
  by_contra hfile
  exact hunused' (.inr (.inr ⟨j, hfile⟩))

/-- **Acked parts are there.** After every run, with the process stopping at any
point of a step, the staged files are those of live sessions and of sessions
whose removal by an account deletion was stopped. If it has never stopped
between the two steps of a removal of acked parts, every upload can be resumed:
the parts the status lists have their files, and a finalize does not throw. The
next event keeps this exactly if it meets that condition too. -/
theorem parts_present (host : Host) (cfg : Config) {es : List Event} (hids : DrawsIds es) :
    (∀ u i, (State.after host cfg es).server.disk (.part u i) ≠ none →
      (State.after host cfg es).server.db.uploadSessions.find u ≠ none ∨
      Interrupted host cfg u es) ∧
    (AllSteps (State.next host) (State.tidy host) (State.init cfg) es →
      Resumable host (State.after host cfg es) ∧
      ∀ e, DrawsIds [e] → (Resumable host (State.after host cfg (es ++ [e])) ↔
        (State.after host cfg es).tidy host e)) := by
  refine ⟨fun u i => files_anchored host cfg hids, fun htidy => ?_⟩
  have hgen := genuine_after host cfg es
  have hdrawn := drawn_after host cfg es hids
  have hpresent : Present (State.after host cfg es).server :=
    present_run host es hids genuine_empty (drawn_init cfg) (present_init cfg) htidy
  refine ⟨(resumable_iff hgen hdrawn).2 hpresent, fun e he => ?_⟩
  have hnext : State.after host cfg (es ++ [e]) = (State.after host cfg es).next host e := by
    unfold State.after
    rw [run_append]
    rfl
  have hdrawn' : Drawn ((State.after host cfg es).next host e).server :=
    drawn_next (he e (by simp)) hdrawn
  rw [hnext, resumable_iff (genuine_next host _ e hgen) hdrawn']
  exact present_next hgen hdrawn hpresent e

end Present

/-- The first upload is cancelled. -/
def cancelFirst : List Action :=
  let query : Js.Query := fun k => if k = "accountId" then some (.str "a") else none
  ask (.uploadCancel "u1" query) (sampleEnv "-" "2025-01-01T00:00:04.000Z")

/-- The run up to the cancel, and the cancel stopped after `n` storage steps. -/
def cancelStopped (n : Nat) : List Event :=
  (crowd ++ cancelFirst.take 1).map .run ++ (cancelFirst.drop 1).map fun act =>
    .stop act n sampleConfig

/-- A cancel that stops between the files and the row: the status lists the
part, and its file is gone. -/
theorem stopped_cancel_loses_part :
    let s := State.after sampleHost sampleConfig (cancelStopped 1)
    (s.server.db.uploadSessions.find "u1").isSome ∧
      (listUploadParts "a" "u1" s.server.db).map (·.partIndex) = [0] ∧ s.server.disk
        (.part "u1" 0) = none ∧
      ¬ Resumable sampleHost s := by
  intro s
  have hlive : (s.server.db.uploadSessions.find "u1").isSome := by decide +kernel
  have hlisted : (listUploadParts "a" "u1" s.server.db).map (·.partIndex) = [0] := by decide +kernel
  have hfile : s.server.disk (.part "u1" 0) = none := by decide +kernel
  refine ⟨hlive, hlisted, hfile, fun h => ?_⟩
  obtain ⟨t, ht⟩ := Option.isSome_iff_exists.1 hlive
  have howner : (s.server.db.uploadSessions.find "u1").map (·.accountId) = some "a" := by
    decide +kernel
  rw [ht, Option.map_some, Option.some.injEq] at howner
  have hzero : 0 ∈ (listUploadParts "a" "u1" s.server.db).map (·.partIndex) := by rw [hlisted]; simp
  obtain ⟨p, hp, hp0⟩ := List.mem_map.1 hzero
  have hstaged := (h "u1" t ht).staged p (howner.symm ▸ hp)
  rw [hp0, hfile] at hstaged
  cases hstaged

/-- A cancel that stops after both. -/
theorem parts_present_cancelled : Resumable sampleHost
    (State.after sampleHost sampleConfig (cancelStopped 2)) := by
  have hids : DrawsIds (cancelStopped 2) := by
    have hall : ∀ u ∈ (cancelStopped 2).filterMap (·.action.draws), Js.isUploadId u = true := by
      decide +kernel
    exact fun e he u hu => hall u (List.mem_filterMap.2 ⟨e, he, hu⟩)
  exact ((parts_present sampleHost sampleConfig hids).2 (by decide +kernel)).1

end GlanceVault.L4
