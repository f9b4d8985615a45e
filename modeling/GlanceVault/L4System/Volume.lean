import GlanceVault.L3Http.Volume
import GlanceVault.L4System.Presence
/-!
# Attribution and volume

The usage report adds up the rows, and says that a disagreement with the bytes
on the volume comes from a stop. It can come from three kinds of stop: inside
the storing of a part, of a blob, and inside an account deletion.

* `accounted_next`: an event leaves a file accounted for, unless it is such a
  stop.
* `volume_attributed`: every file is attributed, or is left behind by a stop;
  and what is not left behind is within the report's totals.

## Hypotheses

* `DrawsIds`: the upload ids that `randomUUID` draws have the form of an upload id.
* SHA-256 is injective. Two contents of one hash would share a file, and the row
  of the one would be of another size than the file.
-/
namespace GlanceVault.L4
open GlanceVault.Core GlanceVault.L1 GlanceVault.L2 GlanceVault.L3

/-- The files an action writes before their rows. -/
def State.fills (host : Host) (s : State) : Action → List Path
  | .handle id env =>
    match s.handled host (.handle id env) with
    | some (_, a, call) => s.server.fills a call
    | none => []
  | _ => []

section Next
variable {host : Host} {s : State} {x : Path}

theorem files_named (hgen : Genuine host.sha256Hex s.sent s.server.media)
    (hdrawn : Drawn s.server) : s.server.Named :=
  ⟨hdrawn.sessions, fun _ hb => hgen.heldHash _ (mem_media_held hb)⟩

theorem handleAdmin_squares (cfg : Config) (host : Host) (env : Env) (header : Option String)
    (route : AdminRoute) :
    Prog.Lands (fun v => v.Accounted x ∧ v.Named) (handleAdmin cfg host env header route)
      (fun _ => Server.Accounted x)
      (Server.Accounted x) := by
  have hframe : (∀ a body, route ≠ .deleteAccount a body) →
      Prog.Lands (fun v => v.Accounted x ∧ v.Named)
      (handleAdmin cfg host env header route) (fun _ => Server.Accounted x) (Server.Accounted x) :=
        fun h =>
    (tallies_squares
      (tallies_keeps (handleAdmin_frame media_volatile
        (media_ignores rfl) cfg host env header h))).pre fun _ hs => hs.1
  cases route with
  | deleteAccount a body =>
    unfold handleAdmin
    refine .ite (fun _ => ?_) fun _ => ?_
    · exact Prog.Triple.bind (Q := fun _ v => v.Accounted x ∧ v.Named)
        (.ofExcept (fun _ _ _ hs => hs) fun _ hs => hs.1)
        fun _ => deleteAccountRoute_squares a body
    · refine Prog.Triple.bind (Q := fun _ => Server.Accounted x)
        (.ofExcept (fun _ _ _ hs => hs.1) fun _ hs => hs.1) fun _ => ?_
      exact tallies_squares (tallies_keeps (unmounted_frame cfg host header))
  | _ => exact hframe nofun

/-- What an action that is no deletion leaves accounted for at every step. -/
theorem work_tallies {act : Action} (hd : act.deletesAccount = false) :
    Prog.Triple (Server.Accounted x) (fun v => v = s.server ∧ v.Accounted x ∧
      x ∉ s.fills host act) (s.work host act)
      (fun _ => Server.Accounted x) (Server.Accounted x) := by
  have hpure : ∀ {α : Type} {m : Handler α}, Tallies x m → Prog.Triple (Server.Accounted x)
      (fun v => v = s.server ∧ v.Accounted x ∧ x ∉ s.fills host act) (do let _ ← m; pure ())
        (fun _ => Server.Accounted x)
      (Server.Accounted x) :=
        fun hm =>
          (Prog.Triple.bind hm fun _ => Prog.Triple.pure
            (Q := fun _ => Server.Accounted x) fun _ hs => hs).pre
        fun _ hs => hs.2.1
  cases act with
  | arrive id req => exact .pure fun _ hs => hs.2.1
  | handle id env =>
    rcases work_cases host s id env with ⟨w, b, call, hw, ha, hwork⟩ | ⟨-, hwork | ⟨e, hwork⟩⟩
    · rw [hwork]
      refine .bind ((perform_tallies s.cfg host w.credential env b call).pre fun v hs => ?_)
        fun _ => .pure fun _ hs => hs
      obtain ⟨rfl, hs, hfills⟩ := hs
      refine ⟨hs, fun e => hfills ?_⟩
      simp only [State.fills, handled_some hw ha]
      exact e
    · rw [hwork]
      exact .pure fun _ hs => hs.2.1
    · rw [hwork]
      exact .raise fun _ hs => hs.2.1
  | drop id => exact .pure fun _ hs => hs.2.1
  | admin header route env =>
    refine hpure
      (tallies_keeps (handleAdmin_frame media_volatile
        (media_ignores rfl) s.cfg host env header ?_))
    rintro a body rfl
    cases hd
  | reclaim policy nowMs => exact hpure (reclaim_tallies policy nowMs)
  | reap ttlMs nowMs => exact hpure (reap_tallies ttlMs nowMs)
  | close a sub => exact .poke fun _ hs => hs.2.1
  | heartbeat a sub =>
    refine .poke fun v hs => ?_
    rw [heartbeat_hub]
    exact hs.2.1

/-- And at its end. -/
theorem work_squares (act : Action) :
    Prog.Lands (fun v => v.Accounted x ∧ v.Named) (s.work host act) (fun _ => Server.Accounted x)
    (Server.Accounted x) := by
  have hpure : ∀ {α : Type} {m : Handler α}, Squares x m →
      Prog.Lands (fun v => v.Accounted x ∧ v.Named) (do let _ ← m; pure ())
      (fun _ => Server.Accounted x) (Server.Accounted x) := fun hm =>
    (Prog.Triple.bind hm fun _ =>
      Prog.Triple.pure (Q := fun _ => Server.Accounted x) fun _ hs => hs).pre fun _ hs => hs.1
  cases act with
  | arrive id req => exact .pure fun _ hs => hs.1
  | handle id env =>
    rcases work_cases host s id env with ⟨w, b, call, hw, ha, hwork⟩ | ⟨-, hwork | ⟨e, hwork⟩⟩
    · rw [hwork]
      exact hpure (perform_squares s.cfg host w.credential env b call)
    · rw [hwork]
      exact .pure fun _ hs => hs.1
    · rw [hwork]
      exact .raise fun _ hs => hs.1
  | drop id => exact .pure fun _ hs => hs.1
  | admin header route env =>
    exact .bind (handleAdmin_squares s.cfg host env header route) fun _ => .pure fun _ hs => hs
  | reclaim policy nowMs => exact hpure (tallies_squares (reclaim_tallies policy nowMs))
  | reap ttlMs nowMs => exact hpure (tallies_squares (reap_tallies ttlMs nowMs))
  | close a sub => exact .poke fun _ hs => hs.1
  | heartbeat a sub =>
    refine .poke fun v hs => ?_
    rw [heartbeat_hub]
    exact hs.1

/-- **An event leaves accounted for what was**, unless it stops what fills it or
an account deletion. -/
theorem accounted_next (hgen : Genuine host.sha256Hex s.sent s.server.media)
    (hdrawn : Drawn s.server) (h : s.server.Accounted x)
    {e : Event} (he : ∀ act n cfg, e = .stop act n cfg → x ∉ s.fills host act ∧
      act.deletesAccount = false) :
    (s.next host e).server.Accounted x := by
  cases e with
  | run act => exact (work_squares act).state ⟨h, files_named hgen hdrawn⟩
  | stop act n cfg =>
    obtain ⟨hfills, hd⟩ := he act n cfg rfl
    exact (work_tallies hd).stopped ⟨rfl, h, hfills⟩ h n

end Next

/-! ## Runs -/

/-- The file is there, no row accounts for it, and that is so since the process
was stopped inside the request that was writing the file, or inside an account
deletion. -/
def LeftBehind (host : Host) (cfg : Config) (x : Path) (es : List Event) : Prop :=
  ∃ before act n cfg' later, es = before ++ .stop act n cfg' :: later ∧
    (x ∈ (State.after host cfg before).fills host act ∨ act.deletesAccount = true) ∧
    (State.after host cfg before).server.Accounted x ∧
    ∀ since, since <+: later →
      ¬ (State.after host cfg (before ++ .stop act n cfg' :: since)).server.Accounted x

/-- A row of the size of the file: of the blob for any account, or of the part
of a live session. -/
def Attributed (v : Server) (b : Bytes) : Path → Prop
  | .blob h => ∃ row ∈ v.db.blobs.rows, row.blobHash = h ∧ row.size = b.length
  | .part u i =>
    ∃ p ∈ v.db.uploadParts.rows, p.key = (u, i) ∧ p.size = b.length ∧
      v.db.uploadSessions.find u ≠ none
  | .blobTmp _ => False
  | .partTmp _ _ => False

section Run
variable {host : Host} {cfg : Config} {es : List Event} {x : Path}

/-- **What is not accounted for is left behind.** -/
theorem left_behind (hids : DrawsIds es) (h : ¬ (State.after host cfg es).server.Accounted x) :
    LeftBehind host cfg x es := by
  have hfirst : ¬ ¬ (State.init cfg).server.Accounted x := not_not.2 (.absent rfl)
  obtain ⟨before, e, later, rfl, hbefore, hafter⟩ :=
    run_became (P := fun s : State => ¬ s.server.Accounted x) hfirst es h
  have hstep : ¬ (State.after host cfg (before ++ [e])).server.Accounted x :=
    hafter [] List.nil_prefix
  have hbefore : (State.after host cfg before).server.Accounted x := not_not.1 hbefore
  have hnext : State.after host cfg (before ++ [e]) =
      (State.after host cfg before).next host e := by
    unfold State.after
    rw [run_append]
    rfl
  have hdrawn := drawn_after host cfg before fun f hf => hids f (List.mem_append_left _ hf)
  have hstop : ∃ act n cfg', e = .stop act n cfg' ∧
      (x ∈ (State.after host cfg before).fills host act ∨ act.deletesAccount = true) := by
    by_contra hno
    refine hstep ?_
    rw [hnext]
    refine accounted_next (genuine_after host cfg before) hdrawn hbefore fun act n cfg' he => ?_
    exact ⟨fun hf => hno ⟨act, n, cfg', he, .inl hf⟩,
      Bool.eq_false_iff.2 fun hd => hno ⟨act, n, cfg', he, .inr hd⟩⟩
  obtain ⟨act, n, cfg', rfl, hkind⟩ := hstop
  exact ⟨before, act, n, cfg', later, rfl, hkind, hbefore, hafter⟩

/-- And what is left behind is not accounted for. -/
theorem LeftBehind.unaccounted (h : LeftBehind host cfg x es) :
    ¬ (State.after host cfg es).server.Accounted x := by
  obtain ⟨before, act, n, cfg', later, rfl, -, -, hsince⟩ := h
  exact hsince later (List.prefix_refl later)

/-- A file is accounted for if it is attributed, its size included. -/
theorem accounted_iff (hinj : Function.Injective host.sha256Hex) {b : Bytes}
    (hb : (State.after host cfg es).server.disk x = some b) :
    (State.after host cfg es).server.Accounted x ↔ Attributed
    (State.after host cfg es).server b x := by
  have hgen := genuine_after host cfg es
  have hfile : (State.after host cfg es).server.disk x ≠ none := by rw [hb]; simp
  cases x with
  | blob h =>
    refine ⟨fun hrows => ?_, fun hrow _ => ?_⟩
    · obtain ⟨y, hy, rfl⟩ := hrows hfile
      obtain ⟨row, hrow, rfl⟩ := List.mem_map.1 hy
      exact ⟨row, hrow, rfl, (stored_size hinj hgen hy hb).symm⟩
    · obtain ⟨row, hrow, rfl, -⟩ := hrow
      exact ⟨(row.key, row.size), List.mem_map.2 ⟨row, hrow, rfl⟩, rfl⟩
  | blobTmp h => exact ⟨fun hrows => absurd hrows hfile, False.elim⟩
  | part u i =>
    refine ⟨fun hrows => ?_, fun hrow c hc => ?_⟩
    · obtain ⟨r, hr, hkey, hsize⟩ := hrows b hb
      have hu : r.uploadId = u := congrArg Prod.fst hkey
      exact ⟨r, hr, hkey, hsize, hu ▸ hgen.owned r hr⟩
    · obtain ⟨r, hr, hkey, hsize, -⟩ := hrow
      exact ⟨r, hr, hkey, hsize.trans (congrArg List.length (Option.some.inj (hb.symm.trans hc)))⟩
  | partTmp u i => exact ⟨fun hrows => absurd hrows hfile, False.elim⟩

/-- **Every file is attributed, or is left behind by a stop.** After every run,
with the process stopping at any point of a step, a file is either of a row of
its size, and a staged part then of a live session, or it is left behind since a
stop inside the request that was writing it, or inside an account deletion. Any
files that no stop left behind are together no more than the usage report
attributes. -/
theorem volume_attributed (host : Host) (hinj : Function.Injective host.sha256Hex)
    (cfg : Config) {es : List Event} (hids : DrawsIds es) :
    (∀ p b, (State.after host cfg es).server.disk p = some b →
      (LeftBehind host cfg p es ↔ ¬ Attributed (State.after host cfg es).server b p)) ∧
    ∀ (now : String → String) (ps : List Path), ps.Nodup → (∀ p ∈ ps, ¬ LeftBehind host cfg p es) →
      (ps.map fun p => (((State.after host cfg es).server.disk p).getD []).length).sum ≤
        (adminUsage now (State.after host cfg es).server.db
          (State.after host cfg es).server.hub).totals.blobBytes +
          (adminUsage now (State.after host cfg es).server.db
            (State.after host cfg es).server.hub).totals.stagedBytes := by
  have hgen := genuine_after host cfg es
  refine ⟨fun p b hb => ?_, fun now ps hn hps => ?_⟩
  · rw [← accounted_iff hinj hb]
    exact ⟨LeftBehind.unaccounted, left_behind hids⟩
  · have howned : (State.after host cfg es).server.db.Owned :=
      fun p hp => Option.ne_none_iff_exists'.1 (hgen.owned p hp)
    obtain ⟨hblobs, hstaged⟩ := report_bytes howned now (State.after host cfg es).server.hub
    rw [hblobs, hstaged]
    have hsize := fun y hy b hb => stored_size hinj hgen (x := y) hy (b := b) hb
    have hbytes := Media.accounted_bytes hsize hn fun p hp _ => by
      by_contra hno
      exact hps p hp (left_behind hids hno)
    have hheld : (State.after host cfg es).server.media.held.map (·.2) =
        (State.after host cfg es).server.db.blobs.rows.map (·.size) := by
      show ((State.after host cfg es).server.db.blobs.rows.map _).map _ = _
      rw [List.map_map]
      rfl
    rw [hheld] at hbytes
    exact hbytes

end Run

/-- An upload of two parts, the second one stopped between its file and its row. -/
def partStopped : List Event :=
  let query : Js.Query := fun k => if k = "accountId" then some (.str "a") else none
  (ask (.uploadInitiate
    (.json (.obj [("accountId", .str "a"), ("blobHash", .str partsHash), ("size", .nat 5)])))
      (sampleEnv "u1" "2025-01-01T00:00:00.000Z") ++
    ask (.uploadPart "u1" "0" query (.raw [1, 2, 3]))
      (sampleEnv "-" "2025-01-01T00:00:01.000Z")).map .run ++
  [.run (.arrive 0 ⟨some "Bearer token", .uploadPart "u1" "1" query (.raw [4, 5])⟩),
    .stop (.handle 0 (sampleEnv "-" "2025-01-01T00:00:02.000Z")) 2 sampleConfig]

/-- The first part is attributed, the second is left behind, and the report has
the bytes of the first. -/
theorem volume_attributed_stopped :
    let s := State.after sampleHost sampleConfig partStopped
    Attributed s.server [1, 2, 3] (.part "u1" 0) ∧ LeftBehind sampleHost sampleConfig
      (.part "u1" 1) partStopped ∧
      3 ≤ (adminUsage (fun _ => "") s.server.db s.server.hub).totals.blobBytes +
        (adminUsage (fun _ => "") s.server.db s.server.hub).totals.stagedBytes := by
  intro s
  have hids : DrawsIds partStopped := by
    have hall : ∀ u ∈ partStopped.filterMap (·.action.draws), Js.isUploadId u = true := by
      decide +kernel
    exact fun e he u hu => hall u (List.mem_filterMap.2 ⟨e, he, hu⟩)
  have hfirst : s.server.disk (.part "u1" 0) = some [1, 2, 3] := by decide +kernel
  have hsecond : s.server.disk (.part "u1" 1) = some [4, 5] := by decide +kernel
  have hrows : s.server.db.uploadParts.rows = [⟨"u1", 0, 3, "2025-01-01T00:00:01.000Z"⟩] := by
    decide +kernel
  have hlive : s.server.db.uploadSessions.find "u1" ≠ none := by decide +kernel
  obtain ⟨hfiles, hbytes⟩ := volume_attributed sampleHost sampleSha_injective sampleConfig hids
  have hattributed : Attributed s.server [1, 2, 3] (.part "u1" 0) :=
    ⟨⟨"u1", 0, 3, "2025-01-01T00:00:01.000Z"⟩,
      by rw [hrows]; exact List.mem_singleton.2 rfl, rfl, rfl, hlive⟩
  refine ⟨hattributed, (hfiles _ _ hsecond).2 ?_, ?_⟩
  · rintro ⟨p, hp, hkey, -⟩
    have hp : p ∈ s.server.db.uploadParts.rows := hp
    rw [hrows, List.mem_singleton] at hp
    subst hp
    cases hkey
  · have hsum := hbytes (fun _ => "") [.part "u1" 0] (by simp) fun p hp hleft => by
      obtain rfl := List.mem_singleton.1 hp
      exact (hfiles _ _ hfirst).1 hleft hattributed
    simpa [hfirst, s] using hsum

end GlanceVault.L4
