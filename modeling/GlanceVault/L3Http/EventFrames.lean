import GlanceVault.Core.EventStream
import GlanceVault.L1Encoding.JsonText
import GlanceVault.L3Http.Pages
/-!
# The event stream on the wire (`GET /events`)

A stream carries a `ready` frame, an `activity` frame for each nudge and
heartbeats, which are comments. The data of a frame is JSON, so one line,
whatever the app is called.

* `transcript_read`: a client reads of a transcript its frames, in order,
  however the bytes are cut.
-/
namespace GlanceVault.L3
open GlanceVault.Core GlanceVault.L1 GlanceVault.L1.Js GlanceVault.L1.Js.JsonText

/-- mirrors src/routes/events.ts:64-66 (`frame`) -/
def frame (event : String) (data : Json) : Option (List Char) :=
  (stringify data).map fun t => EventStream.message event.toList t

/-- A nudge without an app leaves the member out. mirrors src/realtime/hub.ts:32-35 (`Nudge`) -/
def Nudge.json (nudge : Nudge) : Json :=
  .obj (("seq", .nat nudge.seq) :: (nudge.app.map fun app => ("app", Json.str app)).toList)

/-- What is written to a stream. -/
inductive Written
  | ready (seq : Nat)
  | activity (nudge : Nudge)
  | heartbeat

/-- mirrors src/routes/events.ts:111 (`activity`), :151 (`ready`), :196 (`heartbeat`) -/
def Written.text : Written → Option (List Char)
  | .ready seq => frame "ready" (.obj [("seq", .nat seq)])
  | .activity nudge => frame "activity" nudge.json
  | .heartbeat => some (EventStream.comment " heartbeat".toList)

def transcriptText : List Written → Option (List Char)
  | [] => some []
  | w :: ws => do
    let t ← w.text
    let u ← transcriptText ws
    pure (t ++ u)

/-- What a client makes of a frame: its event, the counter and the app. -/
structure Told where
  event : String
  seq : Nat
  app : Option String
  deriving DecidableEq

def toldBy (m : EventStream.Message) : Option Told := do
  let data ← parse m.data
  let seq ← memberNatural data "seq"
  pure ⟨String.ofList m.event, seq, memberText data "app"⟩

/-- What a client is to be told. -/
def Written.told : Written → Option Told
  | .ready seq => some ⟨"ready", seq, none⟩
  | .activity nudge => some ⟨"activity", nudge.seq, nudge.app⟩
  | .heartbeat => none

/-- The counter is a number a double holds exactly. -/
def Written.Safe (w : Written) : Prop := w.told.all (fun t => decide (t.seq < 2 ^ 53)) = true

instance : DecidablePred Written.Safe := fun w => inferInstanceAs (Decidable (w.told.all _ = true))

section Frames

/-- A frame whose data has a text is read as that data. -/
theorem frame_read {event : String} (he : EventStream.Flat event.toList) (hne : event.toList ≠ [])
    {data : Json} {t : List Char} (h : stringify data = some t) :
    EventStream.feed .start (EventStream.message event.toList t) =
      (.start, [⟨event.toList, t, []⟩]) := by
  have hflat : EventStream.Flat t := fun c hc => by
    have hlow := stringify_printable data h c hc
    refine ⟨?_, ?_⟩ <;> rintro rfl <;> exact absurd hlow (by decide)
  exact EventStream.feed_message EventStream.idle_start he hne hflat

theorem seq_text {n : Nat} (h : n < 2 ^ 53) : stringify (.nat n) = some (Nat.toDigits 10 n) := by
  rw [Json.nat, stringify, numberText, JsNumber.asNatural_ofNat, Option.bind_some, if_pos h]

theorem ready_text {n : Nat} (h : n < 2 ^ 53) :
    ∃ t, stringify (.obj [("seq", .nat n)]) = some t := by
  rw [stringify, seq_text h]
  exact ⟨_, rfl⟩

theorem nudge_text {nudge : Nudge} (h : nudge.seq < 2 ^ 53) :
    ∃ t, stringify nudge.json = some t := by
  unfold Nudge.json
  rw [stringify, seq_text h]
  cases nudge.app with
  | none => exact ⟨_, rfl⟩
  | some app => exact ⟨_, rfl⟩

/-- **What is written to a stream is read**, and leaves the reader between two
messages. -/
theorem written_read {w : Written} (h : w.Safe) :
    ∃ t ms, w.text = some t ∧ EventStream.feed .start t = (.start, ms) ∧
    ms.mapM toldBy = some w.told.toList := by
  cases w with
  | ready n =>
    obtain ⟨t, ht⟩ := ready_text (of_decide_eq_true h)
    refine ⟨_, _, by rw [Written.text, frame, ht]; rfl, frame_read (by decide) (by decide) ht, ?_⟩
    have htold : toldBy ⟨"ready".toList, t, []⟩ = some ⟨"ready", n, none⟩ := by
      unfold toldBy
      rw [parse_stringify ht]
      rfl
    rw [List.mapM_cons, htold]
    rfl
  | activity nudge =>
    obtain ⟨t, ht⟩ := nudge_text (of_decide_eq_true h)
    refine ⟨_, _, by rw [Written.text, frame, ht]; rfl, frame_read (by decide) (by decide) ht, ?_⟩
    have htold : toldBy ⟨"activity".toList, t, []⟩ = some ⟨"activity", nudge.seq, nudge.app⟩ := by
      unfold toldBy
      rw [parse_stringify ht]
      obtain ⟨seq, app⟩ := nudge
      cases app <;> rfl
    rw [List.mapM_cons, htold]
    rfl
  | heartbeat =>
    exact ⟨_, [], rfl, EventStream.feed_comment EventStream.idle_start (by decide), rfl⟩

/-- **A client reads of a transcript its frames**, in order. -/
theorem transcript_read {ws : List Written} (h : ∀ w ∈ ws, w.Safe) :
    ∃ t, transcriptText ws = some t ∧
    ∀ pieces : List (List Char), pieces.flatten = t →
    (EventStream.messages pieces).mapM toldBy = some (ws.filterMap Written.told) := by
  have hfeed : ∀ ws : List Written, (∀ w ∈ ws, w.Safe) → ∃ t ms, transcriptText ws = some t ∧
      EventStream.feed .start t = (.start, ms) ∧ ms.mapM toldBy =
        some (ws.filterMap Written.told) := by
    intro ws
    induction ws with
    | nil => exact fun _ => ⟨[], [], rfl, rfl, rfl⟩
    | cons w ws ih =>
      intro h
      obtain ⟨t, ms, ht, hfeed, hms⟩ := written_read (h w List.mem_cons_self)
      obtain ⟨u, ns, hu, hrest, hns⟩ := ih fun x hx => h x (List.mem_cons_of_mem _ hx)
      refine ⟨t ++ u, ms ++ ns, by simp [transcriptText, ht, hu], ?_, ?_⟩
      · rw [EventStream.feed_append, hfeed, hrest]
      · rw [List.mapM_append, hms, hns]
        cases hw : w.told <;> simp [hw]
  obtain ⟨t, ms, ht, hread, hms⟩ := hfeed ws h
  refine ⟨t, ht, fun pieces hp => ?_⟩
  unfold EventStream.messages
  rw [hp, hread]
  exact hms

end Frames
end GlanceVault.L3
