import GlanceVault.L3Http.EventFrames
import GlanceVault.L4System.HubSteps
/-!
# What a client reads from its stream

One process, from an empty hub on any volume, under any interleaving of
requests, connects, disconnects, failing deliveries, sweeps and operators. The
characters written to a stream, cut into any pieces, are read as the `ready`
frame and then the nudges the hub delivered to it.

* `writes_told`: one action.
* `streams_read`: a run.
-/
namespace GlanceVault.L4
open GlanceVault.Core GlanceVault.L1 GlanceVault.L1.Js GlanceVault.L2 GlanceVault.L3

/-- The heartbeat of a stream that stays open. -/
def Action.beat (act : Action) (sub : Subscriber) (v : Server) : List Written :=
  match act with
  | .heartbeat a x => if x = sub ∧ sub ∈ v.hub.set a then [.heartbeat] else []
  | _ => []

/-- What an action writes to a stream. -/
def State.writes (host : Host) (s : State) (act : Action) (sub : Subscriber) : List Written :=
  ((s.opens host act).filter fun p => decide (p.listener = sub)).map (fun p => .ready p.start) ++
  (((s.act host act).server.delivered.drop s.server.delivered.length).filter fun t => decide
    (t.1 = sub)).map (fun t => .activity t.2) ++
  act.beat sub (s.act host act).server

/-- What a run writes to a stream. -/
def transcript (host : Host) (sub : Subscriber) : State → List Action → List Written
  | _, [] => []
  | s, act :: as => s.writes host act sub ++ transcript host sub (s.act host act) as

/-- Streams that are open or were sent something have a number below the next. -/
structure Numbered (v : Server) : Prop where
  live : ∀ a, ∀ x ∈ v.hub.set a, x.id < v.nextId
  told : ∀ t ∈ v.delivered, t.1.id < v.nextId

/-- What an action opens and delivers. -/
structure Relays (v w : Server) (opened : List Stream)
    (new : List (Subscriber × Nudge)) : Prop where
  delivered : w.delivered = v.delivered ++ new
  live : ∀ t ∈ new, t.1.id < v.nextId
  next : v.nextId ≤ w.nextId
  opened : opened = [] ∨ ∃ p, opened = [p] ∧ p.listener.id = v.nextId ∧ v.nextId < w.nextId

/-- What a client is to be told when its stream opens, and of its nudges. -/
def greetings (sub : Subscriber) (opened : List Stream) : List Told :=
  (opened.filter fun p => decide (p.listener = sub)).map fun p => ⟨"ready", p.start, none⟩

def news (sub : Subscriber) (delivered : List (Subscriber × Nudge)) : List Told :=
  (delivered.filter fun t => decide (t.1 = sub)).map fun t => ⟨"activity", t.2.seq, t.2.app⟩

section Act
variable {host : Host} {s : State} {sub : Subscriber}

/-- **What an action opens and delivers.** -/
theorem act_opens (h : Numbered s.server) (act : Action) :
    Numbered (s.act host act).server ∧
    ∃ new, Relays s.server (s.act host act).server (s.opens host act) new := by
  have hclose : ∀ a x, (s.act host act).server = s.server.closeStream a x ∨
      (s.act host act).server = s.server → s.opens host act = [] →
      Numbered (s.act host act).server ∧
      ∃ new, Relays s.server (s.act host act).server (s.opens host act) new := by
    rintro a x (e | e) ho
    · rw [e, ho]
      exact ⟨⟨fun b y hy => h.live b y ((unsubscribe_sublist s.server.hub a b x).subset hy),
        h.told⟩,
        [], ⟨(List.append_nil _).symm, nofun, Nat.le_refl _, .inl rfl⟩⟩
    · rw [e, ho]
      exact ⟨h, [], ⟨(List.append_nil _).symm, nofun, Nat.le_refl _, .inl rfl⟩⟩
  cases htears : act.tears with
  | true =>
    cases act with
    | close a x => exact hclose a x (.inl rfl) rfl
    | heartbeat a x =>
      refine hclose a x ?_ rfl
      show s.server.heartbeat s.cfg a x = _ ∨ s.server.heartbeat s.cfg a x = _
      unfold Server.heartbeat
      split
      · split
        · exact .inr rfl
        · exact .inl rfl
      · exact .inr rfl
    | _ => cases htears
  | false =>
    have hstep := act_hubStep host s htears
    obtain ⟨hnext, hopened⟩ := hstep.opens
    obtain ⟨new, hnew, hfrom⟩ := hstep.told
    have hlive : ∀ t ∈ new, t.1.id < s.server.nextId := fun t ht => by
      obtain ⟨a, ha⟩ := hfrom t ht
      exact h.live a t.1 ha
    refine ⟨⟨fun a x hx => ?_, fun t ht => ?_⟩, new, hnew, hlive, hnext, hopened.imp_right ?_⟩
    · rcases hstep.member hx with hold | ⟨p, hp, -, rfl⟩
      · exact Nat.lt_of_lt_of_le (h.live a x hold) hnext
      · rcases hopened with hnone | ⟨q, hone, hid, hlt, -⟩
        · rw [hnone] at hp
          cases hp
        · rw [hone] at hp
          rw [List.mem_singleton.1 hp, hid]
          exact hlt
    · rw [hnew] at ht
      rcases List.mem_append.1 ht with ht | ht
      · exact Nat.lt_of_lt_of_le (h.told t ht) hnext
      · exact Nat.lt_of_lt_of_le (hlive t ht) hnext
    · rintro ⟨p, hone, hid, hlt, -⟩
      exact ⟨p, hone, hid, hlt⟩

/-- **What an action tells a stream.** -/
theorem writes_told {act : Action} {new : List (Subscriber × Nudge)}
    (h : (s.act host act).server.delivered = s.server.delivered ++ new) :
    (s.writes host act sub).filterMap Written.told = greetings sub
    (s.opens host act) ++ news sub new := by
  unfold State.writes greetings news
  rw [h, List.drop_left, List.filterMap_append, List.filterMap_append, List.filterMap_map,
    List.filterMap_map]
  have hbeat : (act.beat sub (s.act host act).server).filterMap Written.told = [] := by
    unfold Action.beat
    cases act with
    | heartbeat a x =>
      dsimp only
      split <;> rfl
    | _ => rfl
  rw [hbeat, List.append_nil]
  congr 1
  · exact congrFun List.filterMap_eq_map _
  · exact congrFun List.filterMap_eq_map _

end Act

/-! ## Runs -/

section Runs
variable {host : Host}

/-- Streams that open from now on have new numbers, each its own. -/
theorem streams_above : ∀ (as : List Action) {s : State}, Numbered s.server →
    (∀ p ∈ streams host s as, s.server.nextId ≤ p.listener.id) ∧
      ∀ p ∈ streams host s as, (streams host s as).filter
        (fun q => decide (q.listener = p.listener)) = [p]
  | [], _, _ => ⟨nofun, nofun⟩
  | act :: as, s, h => by
    obtain ⟨hnext, new, hopens⟩ := @act_opens host _ h act
    obtain ⟨habove, hone⟩ := streams_above as hnext
    have hlater : ∀ p ∈ streams host (s.act host act) as,
        s.server.nextId ≤ p.listener.id := fun p hp =>
      Nat.le_trans hopens.next (habove p hp)
    rw [streams]
    rcases hopens.opened with hnil | ⟨q, hq, hid, hlt⟩
    · rw [hnil, List.nil_append]
      exact ⟨hlater, hone⟩
    · rw [hq]
      have hne : ∀ p ∈ streams host (s.act host act) as, p.listener ≠ q.listener := fun p hp e => by
        have := habove p hp
        rw [e] at this
        omega
      refine ⟨fun p hp => ?_, fun p hp => ?_⟩
      · rcases List.mem_cons.1 hp with rfl | hp
        · exact Nat.le_of_eq hid.symm
        · exact hlater p hp
      · rw [List.singleton_append, List.filter_cons]
        rcases List.mem_cons.1 hp with rfl | hp
        · rw [if_pos (decide_eq_true rfl),
            List.filter_eq_nil_iff.2 fun x hx => by simpa using hne x hx]
        · rw [if_neg (by simpa using fun e => hne p hp e.symm)]
          exact hone p hp

/-- **What a run tells a stream**: the counter when it opens, then its nudges. -/
theorem transcript_told (sub : Subscriber) : ∀ (as : List Action) {s : State}, Numbered s.server →
    ∃ new, (run (State.act host) s as).server.delivered = s.server.delivered ++ new ∧
      (transcript host sub s as).filterMap Written.told = greetings sub
    (streams host s as) ++ news sub new
  | [], s, _ => ⟨[], (List.append_nil _).symm, rfl⟩
  | act :: as, s, h => by
    obtain ⟨hnext, new, hopens⟩ := @act_opens host _ h act
    obtain ⟨rest, hrest, htold⟩ := transcript_told sub as hnext
    refine ⟨new ++ rest, ?_, ?_⟩
    · rw [run_cons, hrest, hopens.delivered, List.append_assoc]
    rw [transcript, List.filterMap_append, writes_told hopens.delivered, htold, streams]
    -- a stream that is sent a nudge now does not open later
    have horder : news sub new = [] ∨ greetings sub (streams host (s.act host act) as) = [] := by
      by_cases hid : sub.id < s.server.nextId
      · right
        unfold greetings
        rw [List.filter_eq_nil_iff.2 fun p hp => ?_]
        · rfl
        · have habove := (streams_above as hnext).1 p hp
          have hle := hopens.next
          simp only [decide_eq_true_eq]
          rintro rfl
          omega
      · left
        unfold news
        rw [List.filter_eq_nil_iff.2 fun t ht => ?_]
        · rfl
        · have hlt := hopens.live t ht
          simp only [decide_eq_true_eq]
          rintro rfl
          exact hid hlt
    have hgreet : greetings sub (s.opens host act ++ streams host (s.act host act) as) =
        greetings sub (s.opens host act) ++ greetings sub (streams host (s.act host act) as) := by
      unfold greetings
      rw [List.filter_append, List.map_append]
    have hnews : news sub (new ++ rest) = news sub new ++ news sub rest := by
      unfold news
      rw [List.filter_append, List.map_append]
    rw [hgreet, hnews]
    rcases horder with e | e <;> rw [e] <;> simp

end Runs

/-- **A client reads from its stream what the hub told it.** One process, on any
volume, over any run: what is written to a stream is text, which cut into any
pieces is read as the `ready` frame with the counter and then, in order, the
nudges that were delivered to it, each with its counter and app; whatever
characters the app has, and with any heartbeats in between. -/
theorem streams_read (host : Host) (cfg : Config) (volume : Server) (as : List Action) :
    ∀ p ∈ streams host (State.up cfg volume) as,
      (∀ w ∈ transcript host p.listener (State.up cfg volume) as, w.Safe) →
      ∃ text, transcriptText (transcript host p.listener (State.up cfg volume) as) = some text ∧
        ∀ pieces : List (List Char), pieces.flatten = text →
          (EventStream.messages pieces).mapM toldBy =
            some (⟨"ready", p.start, none⟩ :: news p.listener
              (run (State.act host) (State.up cfg volume) as).server.delivered) := by
  intro p hp hsafe
  have hnumbered : Numbered (State.up cfg volume).server := ⟨nofun, nofun⟩
  obtain ⟨text, htext, hread⟩ := transcript_read hsafe
  obtain ⟨new, hnew, htold⟩ := transcript_told p.listener as hnumbered
  have hgreet : greetings p.listener (streams host (State.up cfg volume) as) =
      [⟨"ready", p.start, none⟩] := by
    unfold greetings
    rw [(streams_above as hnumbered).2 p hp]
    rfl
  refine ⟨text, htext, fun pieces hpieces => ?_⟩
  rw [hread pieces hpieces, htold, hgreet, hnew]
  rfl

/-- An app whose name looks like a frame. -/
def oddApp : String := "\n\nevent: ready\ndata: \"\n"

/-- A stream opens, a row of the app is written, and the stream beats. -/
def oddNudge : List Action :=
  ask (.events household) (sampleEnv "" "t") ++
  ask (.syncBatch oddApp (.json (.obj [("accountId", .str "house"),
    ("rows", .arr [.obj [("entityId", .str "e"), ("envelope", .str "")]])]))) (sampleEnv "" "t") ++
  [.heartbeat "house" ⟨1, none⟩]

theorem streams_read_odd : ∃ text, transcriptText (transcript sampleHost ⟨1, none⟩
    (State.up { sampleConfig with allowedApps := [oddApp] } Server.fresh) oddNudge) = some text ∧
    ∀ pieces : List (List Char), pieces.flatten = text →
      (EventStream.messages pieces).mapM toldBy = some [⟨"ready", 0, none⟩,
        ⟨"activity", 1, some oddApp⟩] :=
  streams_read sampleHost { sampleConfig with allowedApps := [oddApp] } Server.fresh oddNudge
    ⟨"house", ⟨1, none⟩, 0⟩
    (List.mem_of_getElem? (i := 0) rfl) (by decide +kernel)

end GlanceVault.L4
