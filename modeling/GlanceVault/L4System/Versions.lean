import GlanceVault.L2Storage.Versions
import GlanceVault.L4System.Operations
/-!
# What a number in an answer means

The rows and the intents an account is shown carry a `seq`. Over any run of the
system, with stops and restarts, in which the account is not deleted, a `seq`
stands for one version of one object, wherever it is seen, and an object is
never seen with a smaller one than before.

* `shown_held`: what an answer shows is stored.
* `versions_agree`: what two answers show, whenever they were given.
-/
namespace GlanceVault.L4
open GlanceVault.Core GlanceVault.L1 GlanceVault.L1.Js GlanceVault.L2 GlanceVault.L3

/-- Where an object is kept: with the rows of an app, or with the intents. -/
inductive Shelf
  | sync (app : String)
  | intents

/-- An object as an answer shows it to an account. -/
structure Shown where
  accountId : String
  shelf : Shelf
  json : Json

/-- The shelf a read is answered from. -/
def shelfOf : Call → Option Shelf
  | .list app _ _ => some (.sync app)
  | .getEntity app _ => some (.sync app)
  | .listIntents _ _ => some .intents
  | _ => none

/-- The objects of an answer: the members of a page, or the one object. -/
def objects (r : Response) : List Json :=
  match r.status, r.payload with
  | 200, .json j =>
    match j.field "rows" with
    | .ok (some (.arr js)) => js
    | _ => [j]
  | _, _ => []

/-- What the answer to an event shows; a process that stops answers nothing. -/
def State.shown (host : Host) (s : State) : Event → List Shown
  | .run act =>
    match s.handled host act with
    | some (_, a, call) =>
      match shelfOf call with
      | some shelf => ((s.answer host act).map objects).getD [] |>.map fun j => ⟨a, shelf, j⟩
      | none => []
    | none => []
  | .stop _ _ _ => []

/-- The event is a request to delete the account. -/
def Event.deletes (a : String) (e : Event) : Prop :=
  ∃ header body env, e.action = .admin header (.deleteAccount a body) env

/-- The event deletes the account: the request is let in, finds the account and
is not stopped before its transaction. -/
def State.deletes (host : Host) (s : State) (a : String) (e : Event) : Prop :=
  e.deletes a ∧ (s.next host e).server.db ≠ s.server.db

/-! ## From the answers to the versions -/

def versionShelf : Version → Shelf
  | .row r => .sync r.app
  | .event _ => .intents

def versionJson : Version → Json
  | .row r => serializeRow r
  | .event r => serializeIntent r

section Bridge
variable {host : Host} {s : State} {a : String}

/-- **What an answer shows is stored.** -/
theorem shown_held {e : Event} {x : Shown} (hx : x ∈ s.shown host e) :
    ∃ v : Version, s.server.db.holds x.accountId v ∧ versionShelf v = x.shelf ∧
    versionJson v = x.json := by
  unfold State.shown at hx
  cases e with
  | stop act n cfg => cases hx
  | run act =>
    cases act with
    | handle id env =>
      rcases handled_cases host s id env with ⟨w, a, call, hh, -, -, hans⟩ | ⟨hnone, -⟩
      · simp only [hh, hans, Option.map_some, Option.getD_some] at hx
        cases call with
        | list app since limit =>
          obtain ⟨j, hj, rfl⟩ := List.mem_map.1 hx
          have hj : j ∈ (listRows app a since limit s.server.db).rows.map serializeRow := hj
          obtain ⟨r, hr, rfl⟩ := List.mem_map.1 hj
          obtain ⟨hfind, -⟩ := listed hr
          have hkey := Table.find_key hfind
          simp only [SyncRow.key, Prod.mk.injEq] at hkey
          exact ⟨.row r, ⟨Table.find_mem hfind, hkey.1⟩, congrArg Shelf.sync hkey.2.1, rfl⟩
        | getEntity app entityId =>
          obtain ⟨j, hj, rfl⟩ := List.mem_map.1 hx
          have hrun : finish (getEntity a app entityId s.server) =
              ((s.server.db.syncRows.find (a, app, entityId)).map
              fun r => (⟨200, [], .json (serializeRow r)⟩ : Response)).getD
                (.error 404 "not found") := by
            unfold getEntity readDb
            rw [Prog.get_bind]
            unfold getRow
            cases s.server.db.syncRows.find (a, app, entityId) <;> rfl
          have hj : j ∈ objects (finish (getEntity a app entityId s.server)) := hj
          rw [hrun] at hj
          cases hf : s.server.db.syncRows.find (a, app, entityId) with
          | none => rw [hf] at hj; cases hj
          | some r =>
            rw [hf] at hj
            have hj : j ∈ [serializeRow r] := hj
            rw [List.mem_singleton.1 hj]
            have hkey := Table.find_key hf
            simp only [SyncRow.key, Prod.mk.injEq] at hkey
            exact ⟨.row r, ⟨Table.find_mem hf, hkey.1⟩, congrArg Shelf.sync hkey.2.1, rfl⟩
        | listIntents since limit =>
          obtain ⟨j, hj, rfl⟩ := List.mem_map.1 hx
          have hj :
              j ∈ (listIntents a since limit (env.clock 0) s.server.db).rows.map serializeIntent :=
                hj
          obtain ⟨r, hr, rfl⟩ := List.mem_map.1 hj
          obtain ⟨hm, ha⟩ := List.mem_filter.1 (page_mem hr).1
          exact ⟨.event r, ⟨hm, (of_decide_eq_true ha).1⟩, rfl, rfl⟩
        | _ => cases hx
      · simp only [hnone] at hx
        cases hx
    | _ => cases hx

theorem json_seq (v : Version) : (versionJson v).field "seq" = .ok (some (.nat v.seq)) := by
  cases v <;> rfl

theorem nat_inj {m n : Nat} (h : Json.nat m = Json.nat n) : m = n := by
  unfold Json.nat JsNumber.ofNat at h
  have hq : (m : Rat) = n := by simpa using h
  exact_mod_cast hq

/-- The member of an object that names it. -/
def Shelf.key : Shelf → String
  | .sync _ => "entityId"
  | .intents => "eventId"

/-- The name an object is shown with is its own. -/
theorem holder_eq {v w : Version} (hs : versionShelf v = versionShelf w)
    (hk : (versionJson v).field (versionShelf v).key = (versionJson w).field (versionShelf w).key) :
    v.holder = w.holder := by
  cases v with
  | row r =>
    cases w with
    | row x =>
      have happ : r.app = x.app := Shelf.sync.inj hs
      have hid : r.entityId = x.entityId := Json.str.inj (Option.some.inj (Except.ok.inj hk))
      show Holder.row r.app r.entityId = .row x.app x.entityId
      rw [happ, hid]
    | event x => cases hs
  | event r =>
    cases w with
    | row x => cases hs
    | event x =>
      have hid : r.eventId = x.eventId := Json.str.inj (Option.some.inj (Except.ok.inj hk))
      show Holder.event r.eventId = .event x.eventId
      rw [hid]

end Bridge

/-! ## Runs -/

section Runs
variable {host : Host} {a : String}

theorem op_keeps {s : State} {e : Event} (h : ¬ e.deletes a) {o : StoreOp}
    (ho : s.Op host e.action o) :
    o ≠ .deleteAccount a := by
  rintro rfl
  have ho : e.action.Op (.deleteAccount a) := ho.action
  cases hact : e.action with
  | admin header route env =>
    rw [hact] at ho
    cases route with
    | deleteAccount b body =>
      cases ho
      exact h ⟨header, body, env, hact⟩
    | _ => cases ho
  | _ =>
    rw [hact] at ho
    exact ho.2 rfl

/-- What the transactions keep, but for a deletion of the account, an event
keeps that does not delete it. -/
theorem kept_next {I : Db → Prop} {s : State} {e : Event} (h : ¬ s.deletes host a e)
    (hop : ∀ o : StoreOp, o ≠ .deleteAccount a → ∀ d d', o.tx.eval d = .ok ((), d') → I d → I d')
    (hI : I s.server.db) :
    I (s.next host e).server.db := by
  by_cases hd : e.deletes a
  · -- the request has no effect
    rwa [not_not.1 fun hdb => h ⟨hd, hdb⟩]
  · exact next_inv (fun o d d' ho he hd' => hop o (op_keeps hd ho) d d' he hd') hI

theorem next_versions {s : State} {e : Event} (h : ¬ s.deletes host a e) :
    VersionsMove a s.server.db (s.next host e).server.db :=
  kept_next h (I := VersionsMove a s.server.db)
    (fun o ho d d' he hd => hd.trans (versions_move o ho d () d' he)) (.refl _)

theorem run_versions : ∀ (es : List Event) (s : State),
    AllSteps (State.next host) (fun s e => ¬ s.deletes host a e) s es →
    VersionsMove a s.server.db (run (State.next host) s es).server.db
  | [], _, _ => .refl _
  | e :: es, s, h => (next_versions h.1).trans (run_versions es (s.next host e) h.2)

theorem after_sound (host : Host) (cfg : Config) (es : List Event) (a : String) :
    ((State.after host cfg es).server.db.line a).Sound := by
  refine after_inv (I := fun d => (d.line a).Sound) (fun o d d' e h => ?_)
    (by rw [line_empty]; exact sound_empty) host cfg es
  have hstep := sound_step (a := a) (o, none) d h
  unfold StoreOp.commit at hstep
  rwa [Tx.commit_none e] at hstep

end Runs

/-- Two objects an account is shown, the first one no later than the second.
`named`: one number is one version of one object; `forward`: an object is shown
with the number it had, or a greater one. -/
structure Consistent (x y : Shown) : Prop where
  named : x.json.field "seq" = y.json.field "seq" → x = y
  forward : x.shelf = y.shelf → x.json.field x.shelf.key = y.json.field y.shelf.key →
    ∃ m n, x.json.field "seq" = .ok (some (.nat m)) ∧
      y.json.field "seq" = .ok (some (.nat n)) ∧ m ≤ n

/-- **A number names one version, and reads do not go back.** Between two
deletions of an account, whatever is handled, stopped or started in between. -/
theorem versions_agree (host : Host) (cfg : Config) (before es : List Event) (a : String)
    (h : AllSteps (State.next host) (fun s e => ¬ s.deletes host a e)
      (State.after host cfg before) es) :
    ∀ p e p' q f q', es = p ++ e :: p' → es = q ++ f :: q' → p.length ≤ q.length →
      ∀ x ∈ (State.after host cfg (before ++ p)).shown host e,
        ∀ y ∈ (State.after host cfg (before ++ q)).shown host f,
        x.accountId = a → y.accountId = a → Consistent x y := by
  rintro p e p' q f q' hp hq hle ⟨b, shelf, j⟩ hx ⟨c, shelf', j'⟩ hy rfl rfl
  obtain ⟨v, hv, rfl, rfl⟩ := shown_held hx
  obtain ⟨w, hw, rfl, rfl⟩ := shown_held hy
  -- the events between the two answers
  obtain ⟨mid, rfl⟩ : ∃ mid, q = p ++ mid :=
    (List.prefix_of_prefix_length_le ⟨e :: p', hp.symm⟩ ⟨f :: q', hq.symm⟩ hle).imp fun _ h =>
      h.symm
  have hmid : AllSteps (State.next host) (fun s e => ¬ s.deletes host c e)
      (State.after host cfg (before ++ p)) mid := by
    rw [hq, List.append_assoc, allSteps_append, allSteps_append] at h
    have hp := h.2.1
    unfold State.after at hp ⊢
    rwa [run_append]
  have hmove : VersionsMove c (State.after host cfg (before ++ p)).server.db
      (State.after host cfg (before ++ (p ++ mid))).server.db := by
    have hrun :
        VersionsMove c _
          (run (State.next host) (State.after host cfg (before ++ p)) mid).server.db :=
            run_versions mid _ hmid
    unfold State.after at hrun ⊢
    rwa [← run_append, List.append_assoc] at hrun
  have hs := after_sound host cfg (before ++ p) c
  refine ⟨fun hseq => ?_, fun hshelf hkey => ?_⟩
  · dsimp only at hseq
    rw [json_seq, json_seq] at hseq
    have hnum : v.seq = w.seq := nat_inj (Option.some.inj (Except.ok.inj hseq))
    rw [version_final hs hmove hv hw hnum]
  · exact ⟨v.seq, w.seq, json_seq v, json_seq w,
      version_forward hs hmove hv hw (holder_eq hshelf hkey)⟩

/-- A row, written again between two pages: the pages show two versions. -/
def writesTwice : List Event :=
  let page : List Action :=
    ask (.syncList "dayglance" fun k => if k = "accountId" then some (.str "house") else none)
      (sampleEnv "" "t")
  (writeOne "e" ++ page ++ writeOne "e" ++ page).map .run

theorem versions_agree_rewritten :
    let before := State.after sampleHost sampleConfig (writesTwice.take 3)
    let later := State.after sampleHost sampleConfig (writesTwice.take 7)
    ∀ e f, writesTwice[3]? = some e → writesTwice[7]? = some f →
      (before.shown sampleHost e).length = 1 ∧ (later.shown sampleHost f).length = 1 ∧
      ∀ x ∈ before.shown sampleHost e, ∀ y ∈ later.shown sampleHost f,
        x.accountId = "house" → y.accountId = "house" → Consistent x y := by
  intro before later e f he hf
  cases he
  cases hf
  refine ⟨by decide +kernel, by decide +kernel, ?_⟩
  refine versions_agree sampleHost sampleConfig [] writesTwice "house"
    (allSteps_mem _ _ fun e he s => ?_)
    (writesTwice.take 3) _ (writesTwice.drop 4)
    (writesTwice.take 7) _ (writesTwice.drop 8) rfl rfl (by decide)
  rintro ⟨⟨header, body, env, h⟩, -⟩
  have hnone : ∀ e ∈ writesTwice, e.action.deletesAccount = false := by decide +kernel
  have hdeletes := hnone e he
  rw [h] at hdeletes
  cases hdeletes

end GlanceVault.L4
