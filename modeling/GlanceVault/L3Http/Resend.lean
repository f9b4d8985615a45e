import GlanceVault.L2Storage.Parts
import GlanceVault.L3Http.Expiry
import GlanceVault.L3Http.Transparency
/-!
# Sending intents again

An event id that is stored is skipped, so a batch whose ids are all stored is
a no-op. What is stored, though, is forgotten: every insert prunes the events of
its account that have expired, its own batch included.

* `held_after`: right after an insert, exactly the ids are stored whose event
  outlasts the insert's own prune.
* `held_later`: an id stays stored as long as the prunes read the clock before
  its expiry.
* `resend_noop`: sending a batch is a no-op exactly if its ids are stored, and
  for how long they are.
* `resent_after_expiry`: an event sent again after its expiry draws a number and
  wakes the account's devices.
-/
namespace GlanceVault.L3
open GlanceVault.Core GlanceVault.L1 GlanceVault.L1.Js GlanceVault.L2

/-! ## A batch of stored events -/

section Store
variable {a : String}

theorem intentLoop_stored (now : Nat → String) (acc : BatchResult) (db : Db) :
    ∀ evs : List IntentEventInput,
    (∀ ev ∈ evs, db.intentEvents.has (a, ev.eventId) = true) →
    (intentLoop a now evs acc).eval db = .ok (acc, db)
  | [], _ => rfl
  | ev :: evs, h => by
    rw [intentLoop, Tx.eval_bind, insertIntent_eval, if_pos (h ev List.mem_cons_self)]
    exact intentLoop_stored now acc db evs fun x hx => h x (List.mem_cons_of_mem _ hx)

theorem insertIntents_stored {evs : List IntentEventInput} {db : Db}
    (h : ∀ ev ∈ evs, db.intentEvents.has (a, ev.eventId) = true) (now : Nat → String) :
    (insertIntents a evs now).eval db = .ok (⟨0, 0⟩, db.pruneIntents a (now 0)) := by
  obtain ⟨acc, d, h1, h2⟩ := insertIntents_eval a evs now db
  rw [intentLoop_stored now ⟨0, 0⟩ db evs h] at h1
  cases h1
  exact h2

theorem insertIntents_unwritten {evs : List IntentEventInput} {now : Nat → String} {db d : Db}
    {res : BatchResult}
    (h : (insertIntents a evs now).eval db = .ok (res, d)) (h0 : res.written = 0) :
    ∀ ev ∈ evs, db.intentEvents.has (a, ev.eventId) = true := by
  obtain ⟨acc, d1, h1, h2⟩ := insertIntents_eval a evs now db
  rw [h2] at h
  cases h
  have hnew : (newEvents a (evs.map (·.eventId)) db).card = 0 := by
    have := intentLoop_written a now evs ⟨0, 0⟩ res db d1 h1
    dsimp only at this
    omega
  have hold := Finset.sdiff_eq_empty_iff_subset.1 (Finset.card_eq_zero.1 hnew)
  exact fun ev hev => mem_storedEvents.1 (hold (List.mem_toFinset.2 (List.mem_map_of_mem hev)))

/-! ## Which ids an insert leaves stored -/

/-- The expiry an id is stored with once the loop is through: that of the event
stored before, else of the first event of the batch with the id. -/
def heldUntil (db : Db) (a : String) (evs : List IntentEventInput) (e : String) : Option String :=
  match db.intentEvents.find (a, e) with
  | some r => some r.expiresAt
  | none => (evs.find? fun ev => decide (ev.eventId = e)).map (·.expiresAt)

theorem intentLoop_held (now : Nat → String) (e : String) :
    ∀ (evs : List IntentEventInput) (acc res : BatchResult)
    (db d : Db), (intentLoop a now evs acc).eval db = .ok (res, d) →
      (d.intentEvents.find (a, e)).map (·.expiresAt) = heldUntil db a evs e
  | [], acc, res, db, d, h => by
    cases h
    unfold heldUntil
    cases db.intentEvents.find (a, e) <;> rfl
  | ev :: evs, acc, res, db, d, h => by
    rw [intentLoop, Tx.eval_bind, insertIntent_eval] at h
    by_cases hhas : db.intentEvents.has (a, ev.eventId) = true
    · rw [if_pos hhas] at h
      rw [intentLoop_held now e evs acc res db d h]
      unfold heldUntil
      cases hf : db.intentEvents.find (a, e) with
      | some r => rfl
      | none =>
        have hne : ev.eventId ≠ e := by
          rintro rfl
          rw [Table.has_eq_false.2 hf] at hhas
          cases hhas
        simp [hne]
    · rw [if_neg hhas] at h
      have hfresh : db.intentEvents.find (a, ev.eventId) = none :=
        Table.has_eq_false.1 (by simpa using hhas)
      rw [intentLoop_held now e evs _ res _ d h]
      unfold heldUntil
      have hfind : (db.writeIntent a ev (now acc.written)).intentEvents.find (a, e) =
          if ev.eventId = e then some (ev.stored a (latestSeq db a + 1) (now acc.written))
          else db.intentEvents.find (a, e) := by
        show (db.intentEvents.upsert _).find (a, e) = _
        rw [Table.find_upsert]
        by_cases he : ev.eventId = e
        · rw [if_pos he, if_pos (by rw [← he]; rfl)]
        · rw [if_neg he, if_neg fun hk => he (congrArg Prod.snd hk)]
      rw [hfind]
      by_cases he : ev.eventId = e
      · subst he
        rw [if_pos rfl, hfresh]
        simp [IntentEventInput.stored]
      · rw [if_neg he]
        cases db.intentEvents.find (a, e) with
        | some r => rfl
        | none => simp [he]

/-- What the insert's own prune leaves of it. -/
theorem insertIntents_held {evs : List IntentEventInput} {now : Nat → String} {db db' : Db}
    {res : BatchResult} (he : (insertIntents a evs now).eval db = .ok (res, db')) (e : String) :
    (db'.intentEvents.find (a, e)).map (·.expiresAt) =
      (heldUntil db a evs e).filter fun t => decide (now res.written < t) := by
  obtain ⟨acc, d, h1, h2⟩ := insertIntents_eval a evs now db
  rw [h2] at he
  cases he
  rw [← intentLoop_held now e evs ⟨0, 0⟩ res db d h1]
  show ((d.intentEvents.keep _).find (a, e)).map _ = _
  rw [Table.find_keep]
  cases hf : d.intentEvents.find (a, e) with
  | none => rfl
  | some r =>
    have hr : r.accountId = a := congrArg Prod.fst (Table.find_some.1 hf).2
    by_cases hlt : now res.written < r.expiresAt <;> simp [Option.filter, hr, hlt]

theorem held_row {evs : List IntentEventInput} {now : Nat → String} {db db' : Db}
    {res : BatchResult} (h : (insertIntents a evs now).eval db = .ok (res, db')) {e t : String}
    (ht : heldUntil db a evs e = some t) (hlt : now res.written < t) :
    ∃ r ∈ db'.intentEvents.rows, r.key = (a, e) ∧ r.expiresAt = t := by
  have hheld := insertIntents_held h e
  rw [ht, Option.filter_some, if_pos (by simpa using hlt)] at hheld
  obtain ⟨r, hf, hr⟩ := Option.map_eq_some_iff.1 hheld
  exact ⟨r, (Table.find_some.1 hf).1, (Table.find_some.1 hf).2, hr⟩

theorem held_after {evs : List IntentEventInput} {now : Nat → String} {db db' : Db}
    {res : BatchResult} (h : (insertIntents a evs now).eval db = .ok (res, db')) (e : String) :
    db'.intentEvents.has (a, e) = true ↔ ∃ t, heldUntil db a evs e = some t ∧
    now res.written < t := by
  constructor
  · intro hhas
    obtain ⟨r, hr⟩ := Option.isSome_iff_exists.1 hhas
    have hheld := insertIntents_held h e
    rw [hr] at hheld
    obtain ⟨ht, hlt⟩ := Option.filter_eq_some_iff.1 hheld.symm
    exact ⟨r.expiresAt, ht, of_decide_eq_true hlt⟩
  · intro ⟨t, ht, hlt⟩
    obtain ⟨r, hr, hk, -⟩ := held_row h ht hlt
    exact Table.has_iff.2 ⟨r, hr, hk⟩

/-! ## What later operations leave stored -/

/-- Every prune of the operation that sees the account's events reads the clock
before `t`. -/
def PrunesBefore (a t : String) : StoreOp → Prop
  | .insertIntents b _ now => b = a → ∀ k, now k < t
  | .pruneExpiredIntents now => now < t
  | .deleteAccount b => b ≠ a
  | _ => True

/-- A stored event is not written again, and goes only at its expiry. -/
theorem event_stays {r : IntentEvent} {o : StoreOp} (ho : PrunesBefore r.accountId r.expiresAt o) :
    o.tx.Moves fun db db' => r ∈ db.intentEvents.rows → r ∈ db'.intentEvents.rows := by
  have hkeep : o.tx.Keeps Db.intentEvents → o.tx.Moves fun db db' =>
      r ∈ db.intentEvents.rows → r ∈ db'.intentEvents.rows := fun h db u db' e hr => by
        rwa [h db u db' e]
  cases o with
  | insertIntents b evs now =>
    intro db u db' e hr
    obtain ⟨acc, d1, h3, h4⟩ := insertIntents_eval b evs now db
    have e : (L2.insertIntents b evs now).void.eval db = .ok (u, db') := e
    unfold Tx.void at e
    rw [Tx.eval_bind, h4] at e
    cases e
    have hloop : r ∈ d1.intentEvents.rows := by
      refine intentLoop_moves (R := fun d d' => r ∈ d.intentEvents.rows → r ∈ d'.intentEvents.rows)
        (fun _ => id)
        (fun h h' hx => h' (h hx)) (fun d ev t hfresh hd => ?_) now evs _ db _ _ h3 hr
      refine Table.mem_upsert.2 (.inr ⟨hd, fun hk => ?_⟩)
      have hin : d.intentEvents.has (b, ev.eventId) = true := Table.has_iff.2 ⟨r, hd, hk⟩
      rw [hfresh] at hin
      cases hin
    refine Table.mem_keep.2 ⟨hloop, ?_⟩
    by_cases hb : r.accountId = b
    · have hlt := ho hb.symm acc.written
      simp [hlt]
    · simp [hb]
  | pruneExpiredIntents now =>
    intro db u db' e hr
    obtain ⟨n, d, h1, h2⟩ := Tx.eval_bind_ok e
    have h1 : (L2.pruneExpiredIntents now).eval db = .ok (n, d) := h1
    unfold L2.pruneExpiredIntents at h1
    rw [Tx.eval_write] at h1
    cases h1
    cases h2
    have hlt : now < r.expiresAt := ho
    exact Table.mem_keep.2 ⟨hr, by simp [hlt]⟩
  | deleteAccount b =>
    intro db u db' e hr
    obtain ⟨n, d, h1, h2⟩ := Tx.eval_bind_ok e
    have h1 : (L2.deleteAccount b).eval db = .ok (n, d) := h1
    rw [deleteAccount_eval] at h1
    cases h2
    have hb : b ≠ r.accountId := ho
    split at h1 <;> cases h1
    · exact hr
    · exact Table.mem_keep.2 ⟨hr, by simp [Ne.symm hb]⟩
  | _ => exact hkeep (StoreOp.keeps _ fun _ => rfl)

/-- **What keeps an id known.** -/
theorem held_later {r : IntentEvent} {ops : List (StoreOp × Fault)}
    (h : ∀ o ∈ ops, PrunesBefore r.accountId r.expiresAt o.1) {db : Db}
    (hr : r ∈ db.intentEvents.rows) :
    r ∈ (runOps db ops).intentEvents.rows := by
  induction ops generalizing db with
  | nil => exact hr
  | cons o ops ih =>
    refine ih (fun x hx => h x (List.mem_cons_of_mem _ hx)) ?_
    exact Tx.Moves.commit (fun _ => id) (event_stays (h o List.mem_cons_self)) o.2 db hr

/-! ## The request -/

/-- The request changes nothing but what has expired, says so, and wakes nobody. -/
structure NoOp (cfg : Config) (env : Env) (a : String) (events : List IntentEventInput)
    (s : Server) : Prop where
  report : ((insertIntents a events env.clock).eval s.db).map Prod.fst = .ok ⟨0, 0⟩
  answer : finish (intentsBatch cfg env a events s) = BatchResult.json ⟨0, 0⟩
  counter : (intentsBatch cfg env a events s).state.db.accountSeq = s.db.accountSeq
  unexpired : ((intentsBatch cfg env a events s).state.db.intentEvents.rows.filter fun r =>
    decide (env.clock 0 < r.expiresAt)) = s.db.intentEvents.rows.filter fun r =>
      decide (env.clock 0 < r.expiresAt)
  silent : (intentsBatch cfg env a events s).state.published = s.published

theorem intentsBatch_stored (cfg : Config) {env : Env} {events : List IntentEventInput} {s : Server}
    (h : ∀ ev ∈ events, s.db.intentEvents.has (a, ev.eventId) = true) :
    (intentsBatch cfg env a events s).result = .ok (BatchResult.json ⟨0, 0⟩) ∧
      (intentsBatch cfg env a events s).state =
    { s with db := s.db.pruneIntents a (env.clock 0) } := by
  have hadmitted : ∀ gate, admitIntents gate a (events.map (·.eventId)) env.quotaNow s.db =
      none := by
    refine fun gate => admit_resent fun e he => ?_
    obtain ⟨ev, hev, rfl⟩ := List.mem_map.1 he
    exact h ev hev
  unfold intentsBatch
  rw [gated_bind fun gate _ => hadmitted gate, Prog.bind_run,
    exec_run (insertIntents_stored h env.clock)]
  exact ⟨rfl, rfl⟩

theorem noOp_iff {cfg : Config} {env : Env} {events : List IntentEventInput} {s : Server} :
    NoOp cfg env a events s ↔ ∀ ev ∈ events, s.db.intentEvents.has (a, ev.eventId) = true := by
  constructor
  · intro h
    have hreport := h.report
    cases e : (insertIntents a events env.clock).eval s.db with
    | error x => rw [e] at hreport; cases hreport
    | ok r =>
      rw [e] at hreport
      obtain ⟨res, d⟩ := r
      have hres : res = ⟨0, 0⟩ := Except.ok.inj hreport
      exact insertIntents_unwritten e (by rw [hres])
  · intro h
    obtain ⟨hresult, hstate⟩ := intentsBatch_stored cfg h
    refine ⟨?_, ?_, ?_, ?_, ?_⟩
    · rw [insertIntents_stored h]
      rfl
    · unfold finish
      rw [hresult]
    · rw [hstate]
      rfl
    · rw [hstate]
      show ((s.db.intentEvents.keep _).rows.filter _) = _
      unfold Table.keep
      rw [List.filter_filter]
      refine List.filter_congr fun r _ => ?_
      by_cases hr : env.clock 0 < r.expiresAt <;> simp [hr]
    · rw [hstate]

end Store

/-- **Sent again, a batch is a no-op while its ids are stored, and only then.**
Right after the first insert that is while every id's stored expiry outlasts
the insert's own prune; after that, as long as no prune of the account has read
a clock at or past that expiry, whatever else was committed. -/
theorem resend_noop (cfg : Config) (env : Env) (a : String) (events : List IntentEventInput) :
    (∀ s, NoOp cfg env a events s ↔ ∀ ev ∈ events, s.db.intentEvents.has (a, ev.eventId) = true) ∧
    (∀ now fault db db' res, (insertIntents a events now).commit fault db = (.ok res, db') →
      ∀ s, s.db = db' → (NoOp cfg env a events s ↔
        ∀ ev ∈ events, ∃ t, heldUntil db a events ev.eventId = some t ∧ now res.written < t)) ∧
    (∀ now fault db db' res ops, (insertIntents a events now).commit fault db = (.ok res, db') →
      (∀ ev ∈ events, ∃ t, heldUntil db a events ev.eventId = some t ∧ now res.written < t ∧
        ∀ o ∈ ops, PrunesBefore a t o.1) →
      ∀ s, s.db = runOps db' ops → NoOp cfg env a events s) := by
  refine ⟨fun s => noOp_iff, ?_, ?_⟩
  · intro now fault db db' res hc s hs
    rw [noOp_iff, hs]
    exact forall₂_congr fun ev _ => held_after (Tx.commit_ok hc) ev.eventId
  · intro now fault db db' res ops hc hlate s hs
    rw [noOp_iff, hs]
    intro ev hev
    obtain ⟨t, ht, hlt, hops⟩ := hlate ev hev
    obtain ⟨r, hr, hk, he⟩ := held_row (Tx.commit_ok hc) ht hlt
    rw [← he, ← show r.accountId = a from congrArg Prod.fst hk] at hops
    exact Table.has_iff.2 ⟨r, held_later hops hr, hk⟩

/-- The handlers' environment at a reading of the clock. -/
def envAt (ms : Int) : Env := ⟨fun _ => Iso.isoText ms, Iso.isoText ms, "", "", fun _ => false⟩

/-- An event that expired a second before it is sent, sent twice: each time it
is counted as written, draws a number and wakes the account's devices. -/
theorem resent_after_expiry :
    let cfg : Config :=
      ⟨.perAccount, "", .bootstrap, "secret", none, ["app"], 10, ⟨none, none, none, none⟩, 2, 4⟩
    let env := envAt (newYear + 2000)
    let ev : IntentEventInput := ⟨"x", [], "2025-01-01T00:00:01.000Z"⟩
    let first := intentsBatch cfg env "a" [ev] .fresh
    let second := intentsBatch cfg env "a" [ev] first.state
    checkEvent noDates 0 (sampleEvent "x" (newYear + 1000)) = .ok ev ∧
      ((insertIntents "a" [ev] env.clock).eval first.state.db).toOption.map Prod.fst = some ⟨1, 2⟩ ∧
      second.state.published = [("a", ⟨1, some "intents"⟩), ("a", ⟨2, some "intents"⟩)] ∧
      ¬ NoOp cfg env "a" [ev] first.state := by
  intro cfg env ev first second
  have hsecond : second.state.published =
      [("a", ⟨1, some "intents"⟩), ("a", ⟨2, some "intents"⟩)] := by
    decide +kernel
  have hfirst : first.state.published = [("a", ⟨1, some "intents"⟩)] := by decide +kernel
  refine ⟨by rfl, by decide +kernel, hsecond, fun h => ?_⟩
  have hsilent : second.state.published = first.state.published := h.silent
  rw [hsecond, hfirst] at hsilent
  exact absurd hsilent (by decide)

end GlanceVault.L3
