import GlanceVault.L3Http.Refusals
import GlanceVault.L3Http.Transparency
/-!
# Batches as a whole

`POST /sync/:app/batch` and `POST /intents/batch` on every JSON object or
array. The checks read the body as it came; of all values only `null` makes
the read of a property throw, and a body is none, so what can throw is a
`null` among the elements. A check that fails before it is reached answers
first.

* `checkEach_graceful`: when the checks of the elements throw.
* `batch_whole`, `intents_whole`: past its checks a batch is rejected, or
  applied in one transaction.
* `all_or_nothing`: both requests, on every body.
-/
namespace GlanceVault.L3
open GlanceVault.Core GlanceVault.L1 GlanceVault.L1.Js GlanceVault.L2

/-! ## Checks that answer -/

/-- Answered by the handler itself, or by the error mapper for a `ScopeError`. -/
def Abort.isClientError (e : Abort) : Prop := 400 ≤ e.response.status ∧ e.response.status < 500

/-- A check that fails is answered with a 4xx. -/
def Graceful {α : Type} (x : Except Abort α) : Prop := ∀ e, x = .error e → e.isClientError

section Checks
variable {α β : Type}

theorem Graceful.ok (a : α) : Graceful (.ok a : Except Abort α) := nofun

theorem Graceful.bad (message : String) :
    Graceful (.error (.error 400 message) : Except Abort α) := by
  intro e h
  cases h
  exact ⟨Nat.le_refl 400, (by decide : 400 < 500)⟩

theorem Graceful.bind {x : Except Abort α} {f : α → Except Abort β} (hx : Graceful x)
    (hf : ∀ a, x = .ok a → Graceful (f a)) : Graceful (x >>= f) := by
  cases x with
  | error e =>
    rintro _ h
    cases h
    exact hx e rfl
  | ok a => exact hf a rfl

theorem Graceful.of_bind {x : Except Abort α} {f : α → Except Abort β} (h : Graceful (x >>= f)) :
    Graceful x := by
  cases x with
  | error e =>
    rintro _ e'
    cases e'
    exact h e rfl
  | ok a => exact .ok a

theorem Graceful.pure_bind {x : Except Abort α} {f : α → β} :
    Graceful (x >>= fun a => pure (f a)) ↔ Graceful x :=
  ⟨.of_bind, fun h => h.bind fun a _ => .ok (f a)⟩

theorem field_graceful {j : Json} (h : j ≠ .null) (k : String) : Graceful (field j k) := by
  cases j with
  | null => exact absurd rfl h
  | _ => exact .ok _

theorem requiredText_graceful (v : Option Json) (message : String) :
    Graceful (requiredText v message) := by
  unfold requiredText
  split
  · split
    · exact .bad message
    · exact .ok _
  · exact .bad message

theorem requiredString_graceful (v : Option Json) (message : String) :
    Graceful (requiredString v message) := by
  unfold requiredString
  split
  · exact .ok _
  · exact .bad message

theorem optionalFlag_graceful (v : Option Json) (message : String) :
    Graceful (optionalFlag v message) := by
  unfold optionalFlag
  split
  · exact .ok _
  · exact .ok _
  · exact .bad message

theorem optionalNatural_graceful (v : Option Json) (message : String) :
    Graceful (optionalNatural v message) := by
  unfold optionalNatural requiredNatural
  split
  · exact .ok _
  · split
    · split
      · exact .ok _
      · exact .bad message
    · exact .bad message

theorem requiredArray_graceful (v : Option Json) (message : String) :
    Graceful (requiredArray v message) := by
  unfold requiredArray
  split
  · exact .ok _
  · exact .bad message

theorem checkApp_graceful (cfg : Config) (app : String) : Graceful (checkApp cfg app) := by
  unfold checkApp
  split
  · exact .ok _
  · intro e h
    cases h
    exact ⟨Nat.le_refl 400, (by decide : 400 < 500)⟩

end Checks

/-! ## Elements -/

/-- The loop over the elements of a batch. -/
def checkEach {α : Type} (check : Nat → Json → Except Abort α) (i : Nat) :
    List Json → Except Abort (List α)
  | [] => pure []
  | raw :: raws => do
    let x ← check i raw
    let xs ← checkEach check (i + 1) raws
    pure (x :: xs)

theorem checkRows_eq : ∀ (raws : List Json) (i : Nat), checkRows i raws = checkEach checkRow i raws
  | [], _ => rfl
  | raw :: raws, i => by rw [checkRows, checkEach, checkRows_eq raws]

theorem checkEvents_eq (host : Host) :
    ∀ (raws : List Json) (i : Nat), checkEvents host i raws = checkEach (checkEvent host) i raws
  | [], _ => rfl
  | raw :: raws, i => by rw [checkEvents, checkEach, checkEvents_eq host raws]

/-- A check that throws on `null`, and on nothing else. -/
structure Guards {α : Type} (check : Nat → Json → Except Abort α) : Prop where
  null : ∀ i, ∃ message, check i .null = .error (.raise message)
  other : ∀ i raw, raw ≠ .null → Graceful (check i raw)

theorem raise_not_graceful {α : Type} (message : String) :
    ¬ Graceful (.error (.raise message) : Except Abort α) :=
  fun h => Nat.lt_irrefl 500 (h _ rfl).2

section Elements
variable {α : Type} {check : Nat → Json → Except Abort α}

/-- The elements in front of some `null` pass. -/
def NullReached (check : Nat → Json → Except Abort α) (i : Nat) (raws : List Json) : Prop :=
  ∃ before after xs, raws = before ++ .null :: after ∧ checkEach check i before = .ok xs

theorem checkEach_graceful (hc : Guards check) : ∀ (raws : List Json) (i : Nat),
    Graceful (checkEach check i raws) ↔ ¬ NullReached check i raws
  | [], i => ⟨fun _ ⟨before, after, _, e, _⟩ => by simp at e, fun _ => .ok _⟩
  | raw :: raws, i => by
    by_cases hraw : raw = .null
    · obtain ⟨message, hm⟩ := hc.null i
      have hthrow : checkEach check i (raw :: raws) = .error (.raise message) := by
        rw [checkEach, hraw, hm]
        rfl
      rw [hthrow]
      refine ⟨fun h => absurd h (raise_not_graceful message),
        fun h => absurd ⟨[], raws, [], ?_, rfl⟩ h⟩
      rw [hraw]
      rfl
    · rw [checkEach]
      cases hx : check i raw with
      | error e =>
        -- no element behind this one is read
        refine ⟨fun _ ⟨before, after, xs, e', hb⟩ => ?_,
          fun _ => .bind (hx ▸ hc.other i raw hraw) nofun⟩
        cases before with
        | nil => exact hraw (List.cons.inj e').1
        | cons b before =>
          rw [← (List.cons.inj e').1, checkEach, hx] at hb
          cases hb
      | ok x =>
        show Graceful (checkEach check (i + 1) raws >>= fun xs => pure (x :: xs)) ↔ _
        rw [Graceful.pure_bind, checkEach_graceful hc raws (i + 1)]
        refine not_congr
          ⟨fun ⟨before, after, xs, e, hb⟩ => ⟨raw :: before, after, x :: xs, by rw [e]; rfl, ?_⟩,
          fun ⟨before, after, xs, e, hb⟩ => ?_⟩
        · rw [checkEach, hx]
          show (checkEach check (i + 1) before >>= fun xs => pure (x :: xs)) = _
          rw [hb]
          rfl
        · cases before with
          | nil => exact absurd (List.cons.inj e).1 hraw
          | cons b before =>
            rw [← (List.cons.inj e).1, checkEach, hx] at hb
            obtain ⟨ys, hys, -⟩ :=
              bind_ok
                (show (checkEach check (i + 1) before >>= fun xs => pure (x :: xs)) = _ from hb)
            exact ⟨before, after, ys, (List.cons.inj e).2, hys⟩

/-- Checked elements are those of the body, in order. -/
theorem checkEach_forall : ∀ {raws : List Json} {i : Nat} {xs : List α},
    checkEach check i raws = .ok xs →
    List.Forall₂ (fun raw x => ∃ i, check i raw = .ok x) raws xs
  | [], _, _, h => by cases h; exact .nil
  | raw :: raws, i, xs, h => by
    obtain ⟨x, hx, h⟩ := bind_ok h
    obtain ⟨ys, hys, h⟩ := bind_ok h
    cases h
    exact .cons ⟨i, hx⟩ (checkEach_forall hys)

end Elements

theorem checkRow_guards : Guards checkRow where
  null i := ⟨_, rfl⟩
  other i raw h := by
    have hf := fun k => field_graceful h k
    unfold checkRow
    refine (hf _).bind fun _ _ => (requiredText_graceful _ _).bind fun entityId _ => ?_
    refine (hf _).bind fun _ _ => (requiredString_graceful _ _).bind fun envelope _ => ?_
    refine (hf _).bind fun _ _ => (optionalFlag_graceful _ _).bind fun deleted _ => ?_
    refine (hf _).bind fun _ _ => (optionalFlag_graceful _ _).bind fun insertOnly _ => ?_
    exact (hf _).bind fun _ _ => (optionalNatural_graceful _ _).bind fun deletedAt _ => .ok _

theorem checkEvent_guards (host : Host) : Guards (checkEvent host) where
  null i := ⟨_, rfl⟩
  other i raw h := by
    have hf := fun k => field_graceful h k
    unfold checkEvent
    refine (hf _).bind fun _ _ => (requiredText_graceful _ _).bind fun eventId _ => ?_
    refine (hf _).bind fun _ _ => (requiredString_graceful _ _).bind fun envelope _ => ?_
    refine (hf _).bind fun v _ => ?_
    cases normalizeExpiresAt host v with
    | none => exact .bad _
    | some expiresAt => exact .ok _

/-! ## The batch requests -/

inductive BatchKind
  | sync (app : String)
  | intents

namespace BatchKind

def route (body : Json) : BatchKind → Route
  | .sync app => .syncBatch app (.json body)
  | .intents => .intentsBatch (.json body)

/-- Where the body has its elements. -/
def elements : BatchKind → String
  | .sync _ => "rows"
  | .intents => "events"

/-- The checks that the sync route makes and the intents route does not. -/
def passes (cfg : Config) (body : Json) : BatchKind → Prop
  | .sync app => app ∈ cfg.allowedApps ∧
      (body.field "notify" = .ok none ∨ ∃ b, body.field "notify" = .ok (some (.bool b)))
  | .intents => True

/-- The elements in front of some `null` pass their checks. -/
def reachesNull (host : Host) (raws : List Json) : BatchKind → Prop
  | .sync _ => NullReached checkRow 0 raws
  | .intents => NullReached (checkEvent host) 0 raws

/-- A body whose checks get to a `null` among its elements. -/
def Trips (cfg : Config) (host : Host) (kind : BatchKind) (body : Json) : Prop :=
  (∃ a, body.field "accountId" = .ok (some (.str a)) ∧ isBlank a = false) ∧ kind.passes cfg body ∧
    ∃ raws, body.field kind.elements = .ok (some (.arr raws)) ∧ kind.reachesNull host raws

end BatchKind

/-- The elements one after the other, each where the last one left the
database; `k` of them have been written before. -/
inductive InOrder {α : Type} (step : α → String → DbTx (Option Nat)) (now : Nat → String) :
    Nat → List α → Db → Db → Prop
  | nil (k : Nat) (db : Db) : InOrder step now k [] db db
  | cons {k : Nat} {x : α} {xs : List α} {seq : Option Nat} {db d db' : Db}
      (head : (step x (now k)).eval db = .ok (seq, d))
        (tail : InOrder step now (k + seq.toList.length) xs d db') :
      InOrder step now k (x :: xs) db db'

/-- A 4xx, and nothing is changed. -/
def Rejected (v : Server) (o : Outcome Server Abort Response) : Prop :=
  400 ≤ (finish o).status ∧ (finish o).status < 500 ∧ o.state = v ∧ o.trace = []

/-- A 200, with `db` written in one transaction. -/
def Committed (v : Server) (db : Db) (o : Outcome Server Abort Response) : Prop :=
  (finish o).status = 200 ∧ o.state.db = db ∧ o.trace = [{ v with db := db }]

/-- Every element of the body is decoded and applied, in order, in one transaction. -/
def Applied (host : Host) (env : Env) (v : Server) (a : String) (raws : List Json)
    (o : Outcome Server Abort Response) :
    BatchKind → Prop
  | .sync app => ∃ rows db, List.Forall₂ (fun raw row => ∃ i, checkRow i raw = .ok row) raws rows ∧
      InOrder (batchRow app a) env.clock 0 rows v.db db ∧ Committed v db o
  | .intents =>
    ∃ events db n, List.Forall₂ (fun raw event => ∃ i,
      checkEvent host i raw = .ok event) raws events ∧
      InOrder (insertIntent a) env.clock 0 events v.db db ∧
      Committed v (db.pruneIntents a (env.clock n)) o

/-- Rejected, or applied to the account that the body names and the scope admits. -/
def AllOrNothing (cfg : Config) (host : Host) (credential : Option Credential) (env : Env)
    (v : Server) (kind : BatchKind)
    (body : Json) (o : Outcome Server Abort Response) : Prop :=
  Rejected v o ∨ ∃ claimed a raws, body.field "accountId" = .ok (some (.str claimed)) ∧
    resolveScope cfg.authMode credential claimed = .ok a ∧
    body.field kind.elements = .ok (some (.arr raws)) ∧
    Applied host env v a raws o kind

/-! ### The checks -/

section Routes
variable {cfg : Config} {host : Host} {credential : Option Credential} {env : Env} {v : Server}
  {body : Json} {a app : String}

theorem requiredArray_ok {w : Option Json} {message : String} {raws : List Json}
    (h : requiredArray w message = .ok raws) :
    w = some (.arr raws) := by
  unfold requiredArray at h
  split at h
  · cases h; rfl
  · cases h

theorem optionalFlag_cases {w : Option Json} {message : String} {b : Option Bool}
    (h : optionalFlag w message = .ok b) :
    w = b.map Json.bool := by
  unfold optionalFlag at h
  split at h
  · cases h; rfl
  · cases h; rfl
  · cases h

theorem optionalFlag_bool {w : Option Json} (h : w = none ∨ ∃ b, w = some (.bool b))
    (message : String) :
    ∃ b, optionalFlag w message = .ok b := by
  rcases h with rfl | ⟨b, rfl⟩
  · exact ⟨none, rfl⟩
  · exact ⟨some b, rfl⟩

/-- A batch whose own fields pass is checked by its elements. -/
theorem checkBatch_elements {raws : List Json} (ha : body.field "accountId" = .ok (some (.str a)))
    (hb : isBlank a = false)
    (hpass : (BatchKind.sync app).passes cfg body)
    (hraws : body.field "rows" = .ok (some (.arr raws))) :
    ∃ notify, checkBatch cfg app (.json body) =
      checkRows 0 raws >>= fun rows => pure ⟨a, rows, notify⟩ := by
  obtain ⟨happ, hnotify⟩ := hpass
  have hflag : ∃ w, body.field "notify" = .ok w ∧ (w = none ∨ ∃ b, w = some (.bool b)) := by
    rcases hnotify with h | ⟨b, h⟩
    · exact ⟨none, h, .inl rfl⟩
    · exact ⟨_, h, .inr ⟨b, rfl⟩⟩
  obtain ⟨w, hw, hcases⟩ := hflag
  obtain ⟨b, hb'⟩ := optionalFlag_bool hcases "notify must be a boolean"
  refine ⟨decide (b ≠ some false), ?_⟩
  unfold checkBatch checkApp jsonBody
  simp only [if_pos happ, bind, Except.bind, field_ok ha, requiredText_ok.2 ⟨rfl, hb⟩,
    field_ok hraws, requiredArray,
    field_ok hw, hb']

theorem checkBatch_graceful (hbody : body ≠ .null) :
    Graceful (checkBatch cfg app (.json body)) ↔ ¬ (BatchKind.sync app).Trips cfg host body := by
  constructor
  · rintro h ⟨⟨a, ha, hb⟩, hpass, raws, hraws, hnull⟩
    obtain ⟨notify, he⟩ := checkBatch_elements ha hb hpass hraws
    rw [he, Graceful.pure_bind, checkRows_eq, checkEach_graceful checkRow_guards] at h
    exact h hnull
  · intro h
    have hf := fun k => field_graceful hbody k
    unfold checkBatch
    refine (checkApp_graceful cfg app).bind fun _ happ => .bind (.ok body) fun j hj => ?_
    cases hj
    refine (hf _).bind fun v hv => (requiredText_graceful _ _).bind fun a ha => ?_
    refine (hf _).bind fun w hw => (requiredArray_graceful _ _).bind fun raws hraws => ?_
    refine (hf _).bind fun n hn => (optionalFlag_graceful _ _).bind fun notify hnotify => ?_
    rw [Graceful.pure_bind, checkRows_eq, checkEach_graceful checkRow_guards]
    intro hnull
    obtain ⟨rfl, hb⟩ := requiredText_ok.1 ha
    rw [requiredArray_ok hraws] at hw
    refine h ⟨⟨a, ok_field hv, hb⟩, ⟨?_, ?_⟩, raws, ok_field hw, hnull⟩
    · unfold checkApp at happ
      split at happ
      · assumption
      · cases happ
    · rw [optionalFlag_cases hnotify] at hn
      cases notify with
      | none => exact .inl (ok_field hn)
      | some b => exact .inr ⟨b, ok_field hn⟩

theorem checkIntents_elements {raws : List Json}
    (ha : body.field "accountId" = .ok (some (.str a))) (hb : isBlank a = false)
    (hraws : body.field "events" = .ok (some (.arr raws))) :
    checkIntents host (.json body) =
      checkEvents host 0 raws >>= fun events => pure ⟨a, events⟩ := by
  unfold checkIntents jsonBody
  simp only [bind, Except.bind, field_ok ha, requiredText_ok.2 ⟨rfl, hb⟩,
    field_ok hraws, requiredArray]

theorem checkIntents_graceful (hbody : body ≠ .null) :
    Graceful (checkIntents host (.json body)) ↔ ¬ BatchKind.intents.Trips cfg host body := by
  constructor
  · rintro h ⟨⟨a, ha, hb⟩, -, raws, hraws, hnull⟩
    rw [checkIntents_elements ha hb hraws, Graceful.pure_bind, checkEvents_eq,
      checkEach_graceful (checkEvent_guards host)] at h
    exact h hnull
  · intro h
    have hf := fun k => field_graceful hbody k
    unfold checkIntents
    refine .bind (.ok body) fun j hj => ?_
    cases hj
    refine (hf _).bind fun v hv => (requiredText_graceful _ _).bind fun a ha => ?_
    refine (hf _).bind fun w hw => (requiredArray_graceful _ _).bind fun raws hraws => ?_
    rw [Graceful.pure_bind, checkEvents_eq, checkEach_graceful (checkEvent_guards host)]
    intro hnull
    obtain ⟨rfl, hb⟩ := requiredText_ok.1 ha
    rw [requiredArray_ok hraws] at hw
    exact h ⟨⟨a, ok_field hv, hb⟩, trivial, raws, ok_field hw, hnull⟩

/-! ### The transactions -/

theorem batchLoop_inOrder {now : Nat → String} :
    ∀ {rows : List SyncRowInput} {acc res : BatchResult} {db db' : Db},
    (batchLoop app a now rows acc).eval db = .ok (res, db') → InOrder
    (batchRow app a) now acc.written rows db db'
  | [], _, _, _, _, h => by cases h; exact .nil _ _
  | row :: rows, acc, res, db, db', h => by
    rw [batchLoop, Tx.eval_bind] at h
    cases hr : (batchRow app a row (now acc.written)).eval db with
    | error e => rw [hr] at h; cases h
    | ok r =>
      obtain ⟨seq, d⟩ := r
      rw [hr] at h
      refine .cons hr ?_
      cases seq with
      | none => exact batchLoop_inOrder h
      | some seq => exact batchLoop_inOrder h

theorem intentLoop_inOrder {now : Nat → String} :
    ∀ {events : List IntentEventInput} {acc res : BatchResult} {db db' : Db},
    (intentLoop a now events acc).eval db = .ok (res, db') → InOrder
    (insertIntent a) now acc.written events db db'
  | [], _, _, _, _, h => by cases h; exact .nil _ _
  | event :: events, acc, res, db, db', h => by
    rw [intentLoop, Tx.eval_bind] at h
    cases hr : (insertIntent a event (now acc.written)).eval db with
    | error e => rw [hr] at h; cases h
    | ok r =>
      obtain ⟨seq, d⟩ := r
      rw [hr] at h
      refine .cons hr ?_
      cases seq with
      | none => exact intentLoop_inOrder h
      | some seq => exact intentLoop_inOrder h

/-- A nudge, perhaps, and the counts. -/
def Answers (answer : BatchResult → Handler Response) : Prop := ∀ res s,
  (answer res s).result = .ok (BatchResult.json res) ∧ (answer res s).state.db = s.db ∧
  (answer res s).trace = []

theorem answers_nudge (env : Env) (a : String) (p : BatchResult → Prop) [DecidablePred p]
    (nudge : BatchResult → Nudge) :
    Answers fun res => if p res then do
      emit env a (nudge res)
      pure (BatchResult.json res)
    else pure (BatchResult.json res) := by
  intro res s
  dsimp only
  split
  · exact ⟨rfl, rfl, rfl⟩
  · exact ⟨rfl, rfl, rfl⟩

/-- A handler that is one transaction behind a quota check. -/
theorem gated_whole {rule : QuotaPolicy → Db → Option QuotaVerdict} {m : DbTx BatchResult}
    {answer : BatchResult → Handler Response} {res : BatchResult} {db : Db}
    (hanswer : Answers answer)
    (hrule : ∀ gate db v, rule gate db = some v → 400 ≤ v.status ∧ v.status < 500)
    (hm : m.eval v.db = .ok (res, db)) :
    Rejected v ((do gated cfg rule; let result ← exec m; answer result : Handler Response) v) ∨
      Committed v db
        ((do gated cfg rule; let result ← exec m; answer result : Handler Response) v) := by
  have hcommit : Committed v db ((do let result ← exec m; answer result : Handler Response) v) := by
    obtain ⟨hresult, hdb, htrace⟩ := hanswer res { v with db := db }
    unfold Committed finish
    rw [Prog.bind_run, exec_run hm]
    dsimp only
    rw [hresult, htrace]
    exact ⟨rfl, hdb, rfl⟩
  by_cases hpass : ∃ gate verdict, makeQuotaGate cfg.quotas = some gate ∧
  rule gate v.db = some verdict
  · obtain ⟨gate, verdict, hg, hr⟩ := hpass
    rw [gated_stop hg hr]
    exact .inl ⟨(hrule gate _ verdict hr).1, (hrule gate _ verdict hr).2, rfl, rfl⟩
  · rw [gated_bind fun gate hg => Option.eq_none_iff_forall_ne_some.2 fun verdict hr => hpass
      ⟨gate, verdict, hg, hr⟩]
    exact .inr hcommit

theorem batch_whole (cfg : Config) (env : Env) (a app : String) (rows : List SyncRowInput)
    (notify : Bool) (v : Server) :
    Rejected v (batch cfg env a app rows notify v) ∨
    ∃ db, InOrder (batchRow app a) env.clock 0 rows v.db db ∧
      Committed v db (batch cfg env a app rows notify v) := by
  obtain ⟨⟨res, db⟩, hm⟩ := batchUpsert_eval app a rows env.clock v.db
  have hrule : ∀ gate db verdict,
      admitSyncBatch gate a app (rows.map (·.entityId)) db = some verdict →
      400 ≤ verdict.status ∧ verdict.status < 500 := by
    intro gate db verdict h
    rw [admitVolume_status h]
    decide
  have hanswer :=
    answers_nudge env a (fun res => (notify && decide (0 < res.maxSeq)) = true) fun res =>
      ⟨res.maxSeq, some app⟩
  unfold batch
  rcases gated_whole hanswer hrule hm with h | h
  · exact .inl h
  · exact .inr ⟨db, batchLoop_inOrder hm, h⟩

theorem intents_whole (cfg : Config) (env : Env) (a : String) (events : List IntentEventInput)
    (v : Server) :
    Rejected v (intentsBatch cfg env a events v) ∨
    ∃ db n, InOrder (insertIntent a) env.clock 0 events v.db db ∧
      Committed v (db.pruneIntents a (env.clock n)) (intentsBatch cfg env a events v) := by
  obtain ⟨acc, db, hloop, hm⟩ := insertIntents_eval a events env.clock v.db
  have hrule : ∀ gate db verdict,
      admitIntents gate a (events.map (·.eventId)) env.quotaNow db = some verdict →
      400 ≤ verdict.status ∧ verdict.status < 500 := by
    intro gate db verdict h
    rw [admitVolume_status h]
    decide
  have hanswer := answers_nudge env a (fun res => 0 < res.maxSeq) fun res =>
    ⟨res.maxSeq, some "intents"⟩
  unfold intentsBatch
  rcases gated_whole hanswer hrule hm with h | h
  · exact .inl h
  · exact .inr ⟨db, acc.written, intentLoop_inOrder hloop, h⟩

/-! ### Whole requests -/

theorem check_kind (cfg : Config) (host : Host) (kind : BatchKind) (hbody : body ≠ .null) :
    Graceful (check cfg host (kind.route body)) ↔ ¬ kind.Trips cfg host body := by
  cases kind with
  | sync app => exact Graceful.pure_bind.trans (checkBatch_graceful hbody)
  | intents => exact Graceful.pure_bind.trans (checkIntents_graceful hbody)

/-- A batch that is applied writes. -/
theorem Applied.wrote {raws : List Json} {kind : BatchKind} {o : Outcome Server Abort Response}
    (h : Applied host env v a raws o kind) : o.trace ≠ [] := by
  cases kind with
  | sync app =>
    obtain ⟨rows, db, -, -, -, -, htrace⟩ := h
    rw [htrace]
    nofun
  | intents =>
    obtain ⟨events, db, n, -, -, -, -, htrace⟩ := h
    rw [htrace]
    nofun

theorem rejected_raise {e : Abort} (h : e.isClientError) : Rejected v (Prog.raise e v) :=
  ⟨h.1, h.2, rfl, rfl⟩

/-- A request past its checks, for an account the scope admits. -/
theorem perform_whole {kind : BatchKind} {claimed : String} {call : Call}
    (hc : check cfg host (kind.route body) = .ok (claimed, call))
    (hscope : resolveScope cfg.authMode credential claimed = .ok a) :
    AllOrNothing cfg host credential env v kind body
      (perform cfg host credential env a call v) := by
  cases kind with
  | sync app =>
    obtain ⟨c, hbatch, h⟩ := bind_ok hc
    cases h
    unfold checkBatch at hbatch
    obtain ⟨_, -, h⟩ := bind_ok hbatch
    obtain ⟨j, hj, h⟩ := bind_ok h
    cases hj
    obtain ⟨w, hw, h⟩ := bind_ok h
    obtain ⟨claimed, ha, h⟩ := bind_ok h
    obtain ⟨x, hx, h⟩ := bind_ok h
    obtain ⟨raws, hraws, h⟩ := bind_ok h
    obtain ⟨_, -, h⟩ := bind_ok h
    obtain ⟨notify, -, h⟩ := bind_ok h
    obtain ⟨rows, hrows, h⟩ := bind_ok h
    cases h
    rw [(requiredText_ok.1 ha).1] at hw
    rw [requiredArray_ok hraws] at hx
    rw [checkRows_eq] at hrows
    rcases batch_whole cfg env a app rows (decide (notify ≠ some false)) v with hrej |
      ⟨db, horder, hcommit⟩
    · exact .inl hrej
    · exact .inr ⟨claimed, a, raws, ok_field hw, hscope, ok_field hx, rows, db,
        checkEach_forall hrows, horder, hcommit⟩
  | intents =>
    obtain ⟨c, hbatch, h⟩ := bind_ok hc
    cases h
    unfold checkIntents at hbatch
    obtain ⟨j, hj, h⟩ := bind_ok hbatch
    cases hj
    obtain ⟨w, hw, h⟩ := bind_ok h
    obtain ⟨claimed, ha, h⟩ := bind_ok h
    obtain ⟨x, hx, h⟩ := bind_ok h
    obtain ⟨raws, hraws, h⟩ := bind_ok h
    obtain ⟨events, hevents, h⟩ := bind_ok h
    cases h
    rw [(requiredText_ok.1 ha).1] at hw
    rw [requiredArray_ok hraws] at hx
    rw [checkEvents_eq] at hevents
    rcases intents_whole cfg env a events v with hrej | ⟨db, n, horder, hcommit⟩
    · exact .inl hrej
    · exact .inr ⟨claimed, a, raws, ok_field hw, hscope, ok_field hx, events, db, n,
        checkEach_forall hevents, horder, hcommit⟩

end Routes

/-- **A batch is rejected or applied as a whole, unless its checks get to a
`null` among its elements.** -/
theorem all_or_nothing (cfg : Config) (host : Host) (credential : Option Credential)
    (env : Env) (v : Server)
    (kind : BatchKind) {body : Json} (hbody : (∃ fields, body = .obj fields) ∨
      ∃ items, body = .arr items) :
    AllOrNothing cfg host credential env v kind body
      (handle cfg host credential env (kind.route body) v) ↔
      ¬ kind.Trips cfg host body := by
  have hnull : body ≠ .null := by
    rintro rfl
    rcases hbody with ⟨_, h⟩ | ⟨_, h⟩
    · cases h
    · cases h
  rw [← check_kind cfg host kind hnull]
  cases hc : check cfg host (kind.route body) with
  | error e =>
    have hraise : handle cfg host credential env (kind.route body) = Prog.raise e := by
      unfold handle accept
      rw [hc]
      rfl
    rw [hraise]
    constructor
    · rintro (hrej | ⟨claimed, a, raws, -, -, -, happ⟩)
      · rintro _ h
        cases h
        exact ⟨hrej.1, hrej.2.1⟩
      · exact absurd rfl happ.wrote
    · exact fun h => .inl (rejected_raise (h e rfl))
  | ok r =>
    obtain ⟨claimed, call⟩ := r
    refine ⟨fun _ => .ok _, fun _ => ?_⟩
    cases hscope : resolveScope cfg.authMode credential claimed with
    | ok a =>
      have hadmit : accept cfg host credential (kind.route body) = .ok (a, call) := by
        unfold accept resolve
        rw [hc]
        simp only [bind, Except.bind, hscope]
        rfl
      rw [handle_admitted hadmit]
      exact perform_whole hc hscope
    | error x =>
      have hrefuse : accept cfg host credential (kind.route body) = .error (.scope x) := by
        unfold accept resolve
        rw [hc]
        simp only [bind, Except.bind, hscope]
      rw [handle_refused hrefuse]
      refine .inl (rejected_raise ?_)
      rcases resolveScope_status hscope with h | h
      · exact ⟨by show 400 ≤ x.status; omega, by show x.status < 500; omega⟩
      · exact ⟨by show 400 ≤ x.status; omega, by show x.status < 500; omega⟩

/-- Without a `null` among the elements there is nothing to trip over. -/
theorem not_trips {cfg : Config} {host : Host} {kind : BatchKind} {body : Json} {raws : List Json}
    (h : body.field kind.elements = .ok (some (.arr raws))) (hnull : Json.null ∉ raws) :
    ¬ kind.Trips cfg host body := by
  rintro ⟨-, -, found, hfound, hreached⟩
  rw [h] at hfound
  cases hfound
  have hsplit : ∃ before after, raws = before ++ .null :: after := by
    cases kind with
    | sync app => obtain ⟨before, after, -, e, -⟩ := hreached; exact ⟨before, after, e⟩
    | intents => obtain ⟨before, after, -, e, -⟩ := hreached; exact ⟨before, after, e⟩
  obtain ⟨before, after, rfl⟩ := hsplit
  exact hnull (by simp)

def batchOf (raws : List Json) : Json := .obj [("accountId", .str "house"), ("rows", .arr raws)]

def eventsOf (raws : List Json) : Json := .obj [("accountId", .str "house"), ("events", .arr raws)]

def rowOf (e envelope : String) : Json := .obj [("entityId", .str e), ("envelope", .str envelope)]

def eventOf (e : String) : Json :=
  .obj [("eventId", .str e), ("envelope", .str "AA=="), ("expiresAt", .nat 1900000000000)]

/-- Three rows of two entities, then three events of which two are one, and a
batch whose second element is a number. -/
theorem all_or_nothing_repeats :
    let rows := batchOf [rowOf "e" "AA==", rowOf "f" "AQ==", rowOf "e" "Ag=="]
    let o := handle oneApp plainHost none idle ((BatchKind.sync "dayglance").route rows) .fresh
    let events := eventsOf [eventOf "x", eventOf "y", eventOf "x"]
    let p := handle oneApp plainHost none idle (BatchKind.intents.route events) o.state
    let bad := batchOf [rowOf "g" "AA==", .nat 5]
    let q := handle oneApp plainHost none idle ((BatchKind.sync "dayglance").route bad) p.state
    (o.state.db.syncRows.rows.map (fun r => (r.entityId, r.seq, r.envelope)) =
      [("e", 3, [2]), ("f", 2, [1])] ∧
      AllOrNothing oneApp plainHost none idle .fresh (.sync "dayglance") rows o) ∧
    (p.state.db.intentEvents.rows.map (fun r => (r.eventId, r.seq)) = [("x", 4), ("y", 5)] ∧
      AllOrNothing oneApp plainHost none idle o.state .intents events p) ∧
    (finish q).status = 400 ∧ AllOrNothing oneApp plainHost none idle p.state
      (.sync "dayglance") bad q := by
  intro rows o events p bad q
  have hall : ∀ (v : Server) (kind : BatchKind) (fields : List (String × Json)),
      ¬ kind.Trips oneApp plainHost
        (.obj fields) → AllOrNothing oneApp plainHost none idle v kind (.obj fields)
        (handle oneApp plainHost none idle (kind.route (.obj fields)) v) :=
          fun v kind fields htrips =>
    (all_or_nothing oneApp plainHost none idle v kind (.inl ⟨fields, rfl⟩)).2 htrips
  exact ⟨⟨by decide +kernel, hall _ _ _ (not_trips rfl (by simp [rowOf]))⟩,
    ⟨by decide +kernel, hall _ _ _ (not_trips rfl (by simp [eventOf]))⟩,
    by decide +kernel, hall _ _ _ (not_trips rfl (by simp [rowOf, Json.nat]))⟩

/-- `{"accountId": "house", "rows": [null]}` is answered 500. -/
theorem null_row_throws :
    (finish (handle oneApp plainHost none idle
      ((BatchKind.sync "dayglance").route (batchOf [.null])) .fresh)).status = 500 ∧
    ¬ AllOrNothing oneApp plainHost none idle .fresh (.sync "dayglance") (batchOf [.null])
      (handle oneApp plainHost none idle
        ((BatchKind.sync "dayglance").route (batchOf [.null])) .fresh) := by
  have hthrows :
      (finish (handle oneApp plainHost none idle
        ((BatchKind.sync "dayglance").route (batchOf [.null])) .fresh)).status
    = 500 := rfl
  refine ⟨hthrows, ?_⟩
  rintro (hrej | ⟨_, _, _, -, -, -, _, _, -, -, hcommit⟩)
  · rw [Rejected, hthrows] at hrej
    omega
  · rw [Committed, hthrows] at hcommit
    omega

end GlanceVault.L3
