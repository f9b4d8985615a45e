import GlanceVault.L3Http.Refusals
import GlanceVault.L3Http.Resend
import GlanceVault.L4System.System
/-!
# The intent cap

The check before a batch of intents counts the unexpired events, and adds the
ids of the batch that its probe does not find. The probe finds expired events
too, which the batch leaves as they are, and it finds a stored id once for every
slice of the batch it occurs in (`eventRecount`). So the check can only be too
generous, and is so exactly when these further counts hide new events that the
cap has no room for.

* `insert_count`: the unexpired events a batch leaves.
* `capKept_iff`: when a batch keeps the cap.
* `intent_cap_sound`: this, and the cap over whole runs.
-/
namespace GlanceVault.L4
open GlanceVault.Core GlanceVault.L1 GlanceVault.L2 GlanceVault.L3

/-! ## The events a batch leaves -/

/-- The ids stored or named whose event expires after `now`. -/
def outlasting (a : String) (events : List IntentEventInput) (now : String)
    (db : Db) : Finset String :=
  (storedEvents a db ∪ (events.map (·.eventId)).toFinset).filter fun e =>
    (heldUntil db a events e).any fun t => decide (now < t)

theorem mem_outlasting {a : String} {events : List IntentEventInput} {now : String} {db : Db}
    {e : String} :
    e ∈ outlasting a events now db ↔ ∃ t, heldUntil db a events e = some t ∧ now < t := by
  unfold outlasting
  rw [Finset.mem_filter, Option.any_eq_true]
  simp only [decide_eq_true_eq]
  refine ⟨And.right, fun h => ⟨?_, h⟩⟩
  obtain ⟨t, ht, -⟩ := h
  rw [Finset.mem_union, mem_storedEvents, List.mem_toFinset]
  unfold heldUntil at ht
  unfold Table.has
  cases hf : db.intentEvents.find (a, e) with
  | some r => exact .inl rfl
  | none =>
    rw [hf] at ht
    obtain ⟨ev, hev, -⟩ := Option.map_eq_some_iff.1 ht
    have heq := List.find?_some hev
    exact .inr (List.mem_map.2 ⟨ev, List.mem_of_find?_eq_some hev, by simpa using heq⟩)

/-- The unexpired events are as many as their ids. -/
theorem intentCount_card (a now : String) (db : Db) : intentCount a now db =
    ((db.intentEvents.rows.filter fun r => decide (r.accountId = a) && decide
      (now < r.expiresAt)).map
      (·.eventId)).toFinset.card :=
  count_card db.intentEvents _ _ (fun e => (a, e)) fun r hr => by
    rw [Bool.and_eq_true, decide_eq_true_eq] at hr
    rw [IntentEvent.key, hr.1]

/-- **The unexpired events a batch leaves**, from its own prune on. -/
theorem insert_count {a : String} {events : List IntentEventInput} {clock : Nat → String}
    {db db' : Db}
    {res : BatchResult} (h : (insertIntents a events clock).eval db = .ok (res, db')) {now : String}
    (hnow : clock res.written ≤ now) :
    intentCount a now db' = (outlasting a events now db).card := by
  rw [intentCount_card]
  congr 1
  ext e
  have hheld := insertIntents_held h e
  rw [mem_outlasting]
  simp only [List.mem_toFinset, List.mem_map, List.mem_filter, Bool.and_eq_true, decide_eq_true_eq]
  constructor
  · rintro ⟨r, ⟨hr, ha, hlt⟩, he⟩
    have hf : db'.intentEvents.find (a, e) = some r :=
      Table.find_some.2 ⟨hr, by rw [IntentEvent.key, ha, he]⟩
    rw [hf] at hheld
    exact ⟨r.expiresAt, (Option.filter_eq_some_iff.1 hheld.symm).1, hlt⟩
  · rintro ⟨t, ht, hlt⟩
    obtain ⟨r, hr, hk, he⟩ := held_row h ht (lt_of_le_of_lt hnow hlt)
    exact ⟨r, ⟨hr, congrArg Prod.fst hk, he ▸ hlt⟩, congrArg Prod.snd hk⟩

/-- Later, fewer events are left. -/
theorem outlasting_mono (a : String) (events : List IntentEventInput) (db : Db) {t now : String}
    (h : t ≤ now) :
    outlasting a events now db ⊆ outlasting a events t db := by
  intro e he
  obtain ⟨x, hx, hlt⟩ := mem_outlasting.1 he
  exact mem_outlasting.2 ⟨x, hx, lt_of_le_of_lt h hlt⟩

/-- While the clock goes forward, a batch leaves no more than the events that
were unexpired and those it brings. -/
theorem outlasting_le (a : String) (events : List IntentEventInput) (db : Db) {t now : String}
    (h : t ≤ now) :
    (outlasting a events now db).card ≤ intentCount a t db +
    (newEvents a (events.map (·.eventId)) db).card := by
  rw [intentCount_card]
  refine (Finset.card_le_card fun e he => ?_).trans (Finset.card_union_le _ _)
  rw [Finset.mem_union]
  by_cases hnew : e ∈ newEvents a (events.map (·.eventId)) db
  · exact .inr hnew
  · left
    obtain ⟨x, hx, hlt⟩ := mem_outlasting.1 he
    unfold outlasting at he
    have hstored : e ∈ storedEvents a db := by
      rcases Finset.mem_union.1 (Finset.mem_filter.1 he).1 with hs | hs
      · exact hs
      · by_contra hn
        exact hnew (Finset.mem_sdiff.2 ⟨hs, hn⟩)
    rw [mem_storedEvents] at hstored
    unfold heldUntil at hx
    obtain ⟨r, hf⟩ := Option.isSome_iff_exists.1 hstored
    rw [hf] at hx
    cases hx
    obtain ⟨hr, hk⟩ := Table.find_some.1 hf
    simp only [List.mem_toFinset, List.mem_map, List.mem_filter,
      Bool.and_eq_true, decide_eq_true_eq]
    exact ⟨r, ⟨hr, congrArg Prod.fst hk, lt_of_le_of_lt h hlt⟩, congrArg Prod.snd hk⟩

/-! ## One batch -/

/-- If the batch is admitted, then from its prune on the account has at most
`n` unexpired events or, if that is more, as many as when the batch was
checked. The prune reads the clock after as many events as were new. -/
def CapKept (cfg : Config) (n : Nat) (env : Env) (a : String) (events : List IntentEventInput)
    (s : Server) : Prop :=
  (finish (intentsBatch cfg env a events s)).status = 200 →
    ∀ now, env.clock (newEvents a (events.map (·.eventId)) s.db).card ≤ now →
      intentCount a now (intentsBatch cfg env a events s).state.db ≤ max n
        (intentCount a env.quotaNow s.db)

/-- What is counted again is less than the new events, and less than their
excess over the cap, whenever too many events outlast the batch. -/
def Discerned (n : Nat) (env : Env) (a : String) (events : List IntentEventInput)
    (db : Db) : Prop :=
  max n (intentCount a env.quotaNow db) <
      (outlasting a events (env.clock (newEvents a (events.map (·.eventId)) db).card) db).card →
    eventRecount a (events.map (·.eventId)) db < (newEvents a (events.map (·.eventId)) db).card ∧
      n + eventRecount a (events.map (·.eventId)) db <
        intentCount a env.quotaNow db + (newEvents a (events.map (·.eventId)) db).card

instance (n : Nat) (env : Env) (a : String) (events : List IntentEventInput) (db : Db) :
    Decidable (Discerned n env a events db) := by
  unfold Discerned
  infer_instance

/-- What an admitted batch leaves. -/
theorem intentsBatch_admitted {cfg : Config} (env : Env) {a : String}
    {events : List IntentEventInput} {s : Server}
    (h : ∀ gate, makeQuotaGate cfg.quotas = some gate →
      admitIntents gate a (events.map (·.eventId)) env.quotaNow s.db = none) :
    ∃ res db', (insertIntents a events env.clock).eval s.db = .ok (res, db') ∧
      res.written = (newEvents a (events.map (·.eventId)) s.db).card ∧
      (finish (intentsBatch cfg env a events s)).status = 200 ∧
    (intentsBatch cfg env a events s).state.db = db' := by
  obtain ⟨res, d, hloop, he⟩ := insertIntents_eval a events env.clock s.db
  have hwritten := intentLoop_written a env.clock events ⟨0, 0⟩ res s.db d hloop
  refine ⟨res, _, he, by simpa using hwritten, ?_⟩
  unfold intentsBatch
  rw [gated_bind h, Prog.bind_run, exec_run he]
  dsimp only
  split <;> exact ⟨rfl, rfl⟩

theorem capKept_iff {cfg : Config} {n : Nat} (hcfg : cfg.quotas.intents = some n) (env : Env)
    (a : String) (events : List IntentEventInput) (s : Server) :
    CapKept cfg n env a events s ↔ Discerned n env a events s.db := by
  have hgate : makeQuotaGate cfg.quotas = some cfg.quotas :=
    makeQuotaGate_some fun e => by rw [e] at hcfg; cases hcfg
  have hrej : admitIntents cfg.quotas a (events.map (·.eventId)) env.quotaNow s.db ≠ none ↔
      eventRecount a (events.map (·.eventId)) s.db <
        (newEvents a (events.map (·.eventId)) s.db).card ∧
        n + eventRecount a (events.map (·.eventId)) s.db <
          intentCount a env.quotaNow s.db + (newEvents a (events.map (·.eventId)) s.db).card := by
    rw [admitIntents_some, netNewIntents_eq]
    simp only [hcfg, Option.some.injEq, exists_eq_left']
    omega
  cases hv : admitIntents cfg.quotas a (events.map (·.eventId)) env.quotaNow s.db with
  | some v =>
    rw [hv] at hrej
    have hstatus : (finish (intentsBatch cfg env a events s)).status = 429 := by
      unfold intentsBatch
      rw [gated_stop hgate hv]
      exact admitVolume_status hv
    refine iff_of_true (fun h => ?_) fun _ => hrej.1 nofun
    rw [hstatus] at h
    cases h
  | none =>
    have hadmits : ∀ gate, makeQuotaGate cfg.quotas = some gate →
        admitIntents gate a (events.map (·.eventId)) env.quotaNow s.db = none := fun gate hg => by
      rw [hgate] at hg
      cases hg
      exact hv
    obtain ⟨res, db', he, hwritten, hstatus, hstate⟩ := intentsBatch_admitted env hadmits
    rw [hv] at hrej
    unfold CapKept Discerned
    rw [hstatus, hstate]
    constructor
    · intro h hlt
      have hcount := h rfl _ le_rfl
      rw [insert_count he (by rw [hwritten])] at hcount
      exact absurd hlt (by omega)
    · intro h _ now hnow
      have hfew : ¬ max n (intentCount a env.quotaNow s.db) < (outlasting a events
          (env.clock (newEvents a (events.map (·.eventId)) s.db).card) s.db).card :=
        fun hlt => hrej.2 (h hlt) rfl
      rw [insert_count he (by rw [hwritten]; exact hnow)]
      have := Finset.card_le_card (outlasting_mono a events s.db hnow)
      omega

/-- Within one slice, and while the clock goes forward, nothing is mistaken. -/
theorem discerned_short {n : Nat} {env : Env} {a : String} {events : List IntentEventInput}
    {db : Db} (hclock : ∀ k, env.quotaNow ≤ env.clock k) (hlen : events.length ≤ inChunk) :
    Discerned n env a events db := by
  intro hlt
  have hagain : eventRecount a (events.map (·.eventId)) db = 0 :=
    recount_short (by decide) (by rw [List.length_map]; exact hlen) _
  have hle := outlasting_le a events db (hclock (newEvents a (events.map (·.eventId)) db).card)
  rw [hagain]
  omega

/-- Up to the year 9999 the events counted are those whose instant is yet to come. -/
theorem intentCount_instants {a : String} {now : Int} {db : Db} {expiry : IntentEvent → Int}
    (hnow : Iso.FourDigit now)
    (h : ∀ r ∈ db.intentEvents.rows, r.expiresAt = Iso.isoText (expiry r) ∧
      expiry r < Iso.yearTenThousand) :
    intentCount a (Iso.isoText now) db =
      db.intentEvents.count fun r => decide (r.accountId = a) && decide (now < expiry r) := by
  have hsame : ∀ r ∈ db.intentEvents.rows, decide (Iso.isoText now < r.expiresAt) =
      decide (now < expiry r) := by
    intro r hr
    obtain ⟨htext, hyear⟩ := h r hr
    rw [decide_eq_decide, htext]
    exact (Iso.text_follows_time hnow).2 hyear
  exact congrArg List.length (List.filter_congr fun r hr => by rw [hsame r hr])

/-! ## Runs -/

/-- The cap holds of the batch an action runs. -/
def State.intentCapKept (host : Host) (n : Nat) (s : State) (act : Action) : Prop :=
  match act, s.handled host act with
  | .handle _ env, some (_, a, .intents events) =>
    (∃ r, s.answer host act = some r ∧ r.status = 200) →
      ∀ now, env.clock (newEvents a (events.map (·.eventId)) s.server.db).card ≤ now →
        intentCount a now (s.act host act).server.db ≤ max n
          (intentCount a env.quotaNow s.server.db)
  | _, _ => True

/-- The check discerns the batch an action runs. -/
def State.discerned (host : Host) (n : Nat) (s : State) (act : Action) : Prop :=
  match act, s.handled host act with
  | .handle _ env, some (_, a, .intents events) => Discerned n env a events s.server.db
  | _, _ => True

instance (host : Host) (n : Nat) (s : State) (act : Action) :
    Decidable (s.discerned host n act) := by
  unfold State.discerned
  split <;> infer_instance

theorem intentCapKept_iff (host : Host) {n : Nat} {s : State}
    (hcfg : s.cfg.quotas.intents = some n) (act : Action) :
    s.intentCapKept host n act ↔ s.discerned host n act := by
  cases act with
  | handle id env =>
    rcases handled_cases host s id env with ⟨w, a, call, hh, -, hs, hans⟩ | ⟨hh, -⟩
    · unfold State.intentCapKept State.discerned
      rw [hh]
      cases call with
      | intents events =>
        dsimp only
        rw [hs, hans, ← capKept_iff hcfg]
        unfold CapKept
        simp only [Option.some.injEq, exists_eq_left']
        rfl
      | _ => exact Iff.rfl
    · unfold State.intentCapKept State.discerned
      rw [hh]
  | _ => exact Iff.rfl

theorem intentCapKept_run (host : Host) {n : Nat} {s : State} (hcfg : s.cfg.quotas.intents = some n)
    (as : List Action) : AllSteps (State.act host) (State.intentCapKept host n) s as ↔
      AllSteps (State.act host) (State.discerned host n) s as := by
  have hstep : ∀ (t : State) (act : Action), t.cfg.quotas.intents = some n →
      (t.act host act).cfg.quotas.intents = some n := fun t act h => h
  exact allSteps_congr hstep (fun t act h => intentCapKept_iff host h act) as s hcfg

/-- **The intent cap.** An admitted batch keeps it exactly when its check
discerns the batch, which it does of every batch of one slice; so a run of one
process keeps it at every step exactly if every batch is discerned. With
expiries and a clock of four-digit years the events counted are those whose
instant is yet to come. -/
theorem intent_cap_sound (n : Nat) :
    (∀ cfg env a events s, cfg.quotas.intents = some n →
      (CapKept cfg n env a events s ↔ Discerned n env a events s.db)) ∧
    (∀ env a events db, (∀ k, env.quotaNow ≤ env.clock k) → events.length ≤ inChunk →
      Discerned n env a events db) ∧
    (∀ (host : Host) (s : State) (as : List Action), s.cfg.quotas.intents = some n →
      (AllSteps (State.act host) (State.intentCapKept host n) s as ↔
        AllSteps (State.act host) (State.discerned host n) s as)) ∧
    ∀ a now db (expiry : IntentEvent → Int), Iso.FourDigit now →
      (∀ r ∈ db.intentEvents.rows, r.expiresAt = Iso.isoText (expiry r) ∧
        expiry r < Iso.yearTenThousand) →
      intentCount a (Iso.isoText now) db =
        db.intentEvents.count fun r => decide (r.accountId = a) && decide (now < expiry r) := by
  refine ⟨fun cfg env a events s hcfg => capKept_iff hcfg env a events s,
    fun env a events db => discerned_short,
    fun host s as hcfg => intentCapKept_run host hcfg as, fun a now db expiry hnow hexpiry => ?_⟩
  exact intentCount_instants hnow hexpiry

/-- The house sends intents with these ids, which expire a second later. -/
def sendIntents (ids : List String) : List Action :=
  ask (.intentsBatch (.json (.obj [("accountId", .str "house"),
    ("events", .arr (ids.map fun id => sampleEvent id (newYear + 1000)))]))) (envAt newYear)

/-- A server with the given intent cap. -/
def intentConfig (n : Nat) : Config := { sampleConfig with quotas := ⟨none, none, some n, none⟩ }

/-- With the intent `a` stored under a cap of one, a batch names `a` 901 times
and then the new `b`: the probe counts `a` in both slices, the batch is
admitted, and two unexpired intents are stored. -/
theorem intent_cap_recount :
    ¬ AllSteps (State.act sampleHost) (State.intentCapKept sampleHost 1)
      (State.init (intentConfig 1))
      (sendIntents ["a"] ++ sendIntents (List.replicate 901 "a" ++ ["b"])) := by
  rw [intentCapKept_run sampleHost rfl]
  decide +kernel

/-- A second intent under a cap of one is refused, the first sent again is not. -/
theorem intent_cap_one :
    AllSteps (State.act sampleHost) (State.intentCapKept sampleHost 1) (State.init (intentConfig 1))
      (sendIntents ["a"] ++ sendIntents ["a", "b"] ++ sendIntents ["a"]) ∧
    Discerned 1 (envAt newYear) "house" [⟨"a", [], "t"⟩, ⟨"b", [], "t"⟩] .empty ∧
    intentCount "house" (Iso.isoText newYear) .empty = 0 :=
  ⟨((intent_cap_sound 1).2.2.1 sampleHost (State.init (intentConfig 1)) _ rfl).2
    (by decide +kernel),
    (intent_cap_sound 1).2.1 _ _ _ _ (fun _ => le_rfl) (by decide),
    (intent_cap_sound 1).2.2.2 "house" newYear .empty (fun _ => 0) (by decide) nofun⟩

end GlanceVault.L4
