import GlanceVault.L3Http.Router
/-!
# What becomes of an envelope

An envelope travels as base64 text. The batch routes ask that it is a string,
and decode it leniently: characters of neither alphabet are skipped, and what
follows the padding is dropped. So a text is kept if the decoder uses all of it,
and is mangled, not refused, if not.

* `SyncKeeps`, `IntentKeeps`: the text is returned for what it says, or its
  request is refused.
* `syncKeeps_of`, `intentKeeps_of`: base64 texts are kept.
-/
namespace GlanceVault.L3
open GlanceVault.Core GlanceVault.L1 GlanceVault.L1.Js GlanceVault.L2

/-- `t`, which is returned for `s`, says what `s` says. -/
def Faithful (s t : String) : Prop :=
  ∃ b, Base64.Spells s b ∧ Base64.decode t = b ∧ ((∃ c, s = Base64.encode c) → t = s)

/-- The JSON of a row or an event, and the envelope it shows. -/
def ShowsEnvelope (j : Json) (t : String) : Prop := field j "envelope" = .ok (some (.str t))

/-- The element `i` of the array `name` of a body. -/
def Carries (body : Body) (name : String) (i : Nat) (raw : Json) : Prop :=
  ∃ j raws, jsonBody body = .ok j ∧ field j name = .ok (some (.arr raws)) ∧ raws[i]? = some raw

/-- The request is refused, and changes nothing. -/
def TurnedDown (o : Outcome Server Abort Response) (v : Server) : Prop :=
  (finish o).status = 400 ∧ o.state = v

/-! ## Sync rows -/

/-- What a single GET or a page shows of an entity. -/
inductive SyncReads (w : Server) (a app : String) (entityId : String) : Json → Prop
  | single {j : Json} (h : (getEntity a app entityId w).result = .ok ⟨200, [], .json j⟩) :
    SyncReads w a app entityId j
  | page {since limit : Nat} {js : List Json} {more j : Json} (hj : j ∈ js)
      (h : (list a app since limit w).result = .ok
        (.json 200 [("rows", .arr js), ("hasMore", more)]))
      (hid : field j "entityId" = .ok (some (.str entityId))) : SyncReads w a app entityId j

/-- The pass over the batch writes `r` at its element `i`. -/
def WritesRow (db : Db) (app a : String) (rows : List SyncRowInput) (now : Nat → String) (i : Nat)
    (r : SyncRow) : Prop :=
  ∃ row acc d seq d', rows[i]? = some row ∧
    (batchLoop app a now (rows.take i) ⟨0, 0⟩).eval db = .ok (acc, d) ∧
    (batchRow app a row (now acc.written)).eval d = .ok (some seq, d') ∧
    d'.syncRows.find (a, app, row.entityId) = some r

/-- **A text as the envelope of a sync row**: while the row it was written to
stands, it is returned for what it says; and if it is not base64 its batch is
refused. -/
def SyncKeeps (s : String) : Prop :=
  ∀ cfg host credential env app body v i raw, Carries body "rows" i raw → ShowsEnvelope raw s →
    let o := handle cfg host credential env (.syncBatch app body) v
    ((finish o).status = 200 → ∀ a rows notify, accept cfg host credential (.syncBatch app body) =
      .ok (a, .batch app rows notify) →
      ∀ r, WritesRow v.db app a rows env.clock i r → ∀ w : Server,
        w.db.syncRows.find (a, app, r.entityId) = some r →
        (∃ j, SyncReads w a app r.entityId j) ∧ ∀ j, SyncReads w a app r.entityId j →
        ∃ t, ShowsEnvelope j t ∧ Faithful s t) ∧
    (¬ Base64.isBase64 s = true → TurnedDown o v)

/-! ## Intents -/

/-- What a page shows of an event. -/
def IntentReads (env : Env) (w : Server) (a eventId : String) (j : Json) : Prop :=
  ∃ since limit js more, (intentsList env a since limit w).result =
    .ok (.json 200 [("rows", .arr js), ("hasMore", more)]) ∧
    j ∈ js ∧ field j "eventId" = .ok (some (.str eventId))

def WritesIntent (db : Db) (a : String) (events : List IntentEventInput) (now : Nat → String)
    (i : Nat) (r : IntentEvent) : Prop :=
  ∃ ev acc d seq d', events[i]? = some ev ∧
    (intentLoop a now (events.take i) ⟨0, 0⟩).eval db = .ok (acc, d) ∧
    (insertIntent a ev (now acc.written)).eval d = .ok (some seq, d') ∧
    d'.intentEvents.find (a, ev.eventId) = some r

/-- **The same as the envelope of an intent.** -/
def IntentKeeps (s : String) : Prop :=
  ∀ cfg host credential env body v i raw, Carries body "events" i raw → ShowsEnvelope raw s →
    let o := handle cfg host credential env (.intentsBatch body) v
    ((finish o).status = 200 → ∀ a events, accept cfg host credential (.intentsBatch body) =
      .ok (a, .intents events) →
      ∀ r, WritesIntent v.db a events env.clock i r → ∀ w : Server,
        w.db.intentEvents.find (a, r.eventId) = some r →
        ∀ env' j, IntentReads env' w a r.eventId j → ∃ t, ShowsEnvelope j t ∧ Faithful s t) ∧
    (¬ Base64.isBase64 s = true → TurnedDown o v)

/-! ## From the text to the stored bytes -/

section Checks
variable {raw : Json} {s : String}

theorem checkRow_envelope {i : Nat} {row : SyncRowInput} (hs : ShowsEnvelope raw s)
    (h : checkRow i raw = .ok row) :
    row.envelope = Base64.decode s := by
  unfold checkRow at h
  obtain ⟨_, -, h⟩ := bind_ok h
  obtain ⟨entityId, -, h⟩ := bind_ok h
  obtain ⟨v, hv, h⟩ := bind_ok h
  obtain ⟨envelope, he, h⟩ := bind_ok h
  -- what is decoded is the text itself
  rw [hs] at hv
  cases hv
  cases he
  obtain ⟨_, -, h⟩ := bind_ok h
  obtain ⟨deleted, -, h⟩ := bind_ok h
  obtain ⟨_, -, h⟩ := bind_ok h
  obtain ⟨insertOnly, -, h⟩ := bind_ok h
  obtain ⟨_, -, h⟩ := bind_ok h
  obtain ⟨deletedAt, -, h⟩ := bind_ok h
  cases h
  rfl

theorem checkEvent_envelope {host : Host} {i : Nat} {ev : IntentEventInput}
    (hs : ShowsEnvelope raw s)
    (h : checkEvent host i raw = .ok ev) : ev.envelope = Base64.decode s := by
  unfold checkEvent at h
  obtain ⟨_, -, h⟩ := bind_ok h
  obtain ⟨eventId, -, h⟩ := bind_ok h
  obtain ⟨v, hv, h⟩ := bind_ok h
  obtain ⟨envelope, he, h⟩ := bind_ok h
  rw [hs] at hv
  cases hv
  cases he
  obtain ⟨expiry, -, h⟩ := bind_ok h
  split at h
  · cases h
    rfl
  · cases h

theorem checkRows_get : ∀ {raws : List Json} {k : Nat} {rows : List SyncRowInput} {i : Nat},
    checkRows k raws = .ok rows →
    raws[i]? = some raw → ∃ row n, rows[i]? = some row ∧ checkRow n raw = .ok row
  | [], _, _, _, _, hi => nomatch hi
  | x :: raws, k, rows, i, h, hi => by
    obtain ⟨row, hrow, h⟩ := bind_ok h
    obtain ⟨rest, hrest, h⟩ := bind_ok h
    cases h
    cases i with
    | zero =>
      cases hi
      exact ⟨row, k, rfl, hrow⟩
    | succ i =>
      obtain ⟨row', n, hget, hchecked⟩ := checkRows_get hrest (List.getElem?_cons_succ ▸ hi)
      exact ⟨row', n, List.getElem?_cons_succ.trans hget, hchecked⟩

theorem checkEvents_get {host : Host} :
    ∀ {raws : List Json} {k : Nat} {evs : List IntentEventInput} {i : Nat},
    checkEvents host k raws = .ok evs → raws[i]? = some raw → ∃ ev n, evs[i]? = some ev ∧
    checkEvent host n raw = .ok ev
  | [], _, _, _, _, hi => nomatch hi
  | x :: raws, k, evs, i, h, hi => by
    obtain ⟨ev, hev, h⟩ := bind_ok h
    obtain ⟨rest, hrest, h⟩ := bind_ok h
    cases h
    cases i with
    | zero =>
      cases hi
      exact ⟨ev, k, rfl, hev⟩
    | succ i =>
      obtain ⟨ev', n, hget, hchecked⟩ := checkEvents_get hrest (List.getElem?_cons_succ ▸ hi)
      exact ⟨ev', n, List.getElem?_cons_succ.trans hget, hchecked⟩

variable {cfg : Config} {host : Host} {credential : Option Credential} {body : Body} {i : Nat}

/-- What an accepted batch has at `i` is decoded from the text. -/
theorem accept_row {app a : String} {rows : List SyncRowInput} {notify : Bool}
    (hc : Carries body "rows" i raw) (hs : ShowsEnvelope raw s)
    (h : accept cfg host credential (.syncBatch app body) = .ok (a, .batch app rows notify)) :
    ∃ row, rows[i]? = some row ∧ row.envelope = Base64.decode s := by
  obtain ⟨claimed, hcheck, -⟩ := accept_ok h
  obtain ⟨c, hcall, e⟩ := bind_ok hcheck
  cases e
  obtain ⟨j, raws, hj, hraws, hi⟩ := hc
  unfold checkBatch at hcall
  obtain ⟨_, -, hcall⟩ := bind_ok hcall
  obtain ⟨j', hj', hcall⟩ := bind_ok hcall
  rw [hj] at hj'
  cases hj'
  obtain ⟨_, -, hcall⟩ := bind_ok hcall
  obtain ⟨_, -, hcall⟩ := bind_ok hcall
  obtain ⟨v, hv, hcall⟩ := bind_ok hcall
  obtain ⟨raws', hraws', hcall⟩ := bind_ok hcall
  rw [hraws] at hv
  cases hv
  cases hraws'
  obtain ⟨_, -, hcall⟩ := bind_ok hcall
  obtain ⟨_, -, hcall⟩ := bind_ok hcall
  obtain ⟨rows, hrows, hcall⟩ := bind_ok hcall
  cases hcall
  obtain ⟨row, n, hrow, hchecked⟩ := checkRows_get hrows hi
  exact ⟨row, hrow, checkRow_envelope hs hchecked⟩

theorem accept_event {a : String} {events : List IntentEventInput}
    (hc : Carries body "events" i raw) (hs : ShowsEnvelope raw s)
    (h : accept cfg host credential (.intentsBatch body) = .ok (a, .intents events)) :
    ∃ ev, events[i]? = some ev ∧ ev.envelope = Base64.decode s := by
  obtain ⟨claimed, hcheck, -⟩ := accept_ok h
  obtain ⟨c, hcall, e⟩ := bind_ok hcheck
  cases e
  obtain ⟨j, raws, hj, hraws, hi⟩ := hc
  unfold checkIntents at hcall
  obtain ⟨j', hj', hcall⟩ := bind_ok hcall
  rw [hj] at hj'
  cases hj'
  obtain ⟨_, -, hcall⟩ := bind_ok hcall
  obtain ⟨_, -, hcall⟩ := bind_ok hcall
  obtain ⟨v, hv, hcall⟩ := bind_ok hcall
  obtain ⟨raws', hraws', hcall⟩ := bind_ok hcall
  rw [hraws] at hv
  cases hv
  cases hraws'
  obtain ⟨evs, hevs, hcall⟩ := bind_ok hcall
  cases hcall
  obtain ⟨ev, n, hev, hchecked⟩ := checkEvents_get hevs hi
  exact ⟨ev, hev, checkEvent_envelope hs hchecked⟩

end Checks

theorem writesRow_stored {db : Db} {app a : String} {rows : List SyncRowInput} {now : Nat → String}
    {i : Nat} {r : SyncRow}
    (h : WritesRow db app a rows now i r) :
    ∃ row, rows[i]? = some row ∧ r.accountId = a ∧ r.app = app ∧ r.entityId = row.entityId ∧
      r.envelope = row.envelope := by
  obtain ⟨row, acc, d, seq, d', hrow, -, hwrite, hfind⟩ := h
  rw [batchRow_eval] at hwrite
  split at hwrite
  · cases hwrite
  · cases hwrite
    have hput : (d.writeRow app a row (now acc.written)).syncRows.find (a, app, row.entityId) =
        some (row.stored app a (latestSeq d a + 1) (now acc.written)) :=
      Table.find_upsert_self _ (row.stored app a (latestSeq d a + 1) (now acc.written))
    rw [hput] at hfind
    cases hfind
    exact ⟨row, hrow, rfl, rfl, rfl, rfl⟩

theorem writesIntent_stored {db : Db} {a : String} {events : List IntentEventInput}
    {now : Nat → String} {i : Nat} {r : IntentEvent}
    (h : WritesIntent db a events now i r) :
    ∃ ev, events[i]? = some ev ∧ r.envelope = ev.envelope := by
  obtain ⟨ev, acc, d, seq, d', hev, -, hwrite, hfind⟩ := h
  rw [insertIntent_eval] at hwrite
  split at hwrite
  · cases hwrite
  · cases hwrite
    have hput : (d.writeIntent a ev (now acc.written)).intentEvents.find (a, ev.eventId) =
        some (ev.stored a (latestSeq d a + 1) (now acc.written)) :=
      Table.find_upsert_self _ (ev.stored a (latestSeq d a + 1) (now acc.written))
    rw [hput] at hfind
    cases hfind
    exact ⟨ev, hev, rfl⟩

/-! ## From the stored bytes to the text -/

section Reads
variable {w : Server} {a app : String}

/-- What is read of an entity is its row. -/
theorem syncReads_row {r : SyncRow} (hr : w.db.syncRows.find (a, app, r.entityId) = some r)
    {j : Json} (h : SyncReads w a app r.entityId j) : j = serializeRow r := by
  cases h with
  | single h =>
    unfold getEntity readDb getRow at h
    rw [Prog.get_bind, hr] at h
    cases h
    rfl
  | page hj h hid =>
    unfold list readDb at h
    rw [Prog.get_bind] at h
    cases h
    obtain ⟨x, hx, rfl⟩ := List.mem_map.1 hj
    obtain ⟨hmem, hscope⟩ := List.mem_filter.1 (page_mem hx).1
    have hid : x.entityId = r.entityId := by
      have hshown : field (serializeRow x) "entityId" = .ok (some (.str x.entityId)) := rfl
      rw [hshown] at hid
      exact Json.str.inj (Option.some.inj (Except.ok.inj hid))
    obtain ⟨ha, happ⟩ := of_decide_eq_true hscope
    have hkey : x.key = r.key := by rw [SyncRow.key, ha, happ, hid, Table.find_key hr]
    rw [Table.eq_of_mem hmem (Table.find_mem hr) hkey]

theorem syncReads_some {r : SyncRow} (hr : w.db.syncRows.find (a, app, r.entityId) = some r) :
    SyncReads w a app r.entityId (serializeRow r) := by
  refine .single ?_
  unfold getEntity readDb getRow
  rw [Prog.get_bind, hr]
  rfl

theorem intentReads_row {r : IntentEvent} (hr : w.db.intentEvents.find (a, r.eventId) = some r)
    {env : Env} {j : Json} (h : IntentReads env w a r.eventId j) : j = serializeIntent r := by
  obtain ⟨since, limit, js, more, h, hj, hid⟩ := h
  unfold intentsList readDb at h
  rw [Prog.get_bind] at h
  cases h
  obtain ⟨x, hx, rfl⟩ := List.mem_map.1 hj
  obtain ⟨hmem, hscope⟩ := List.mem_filter.1 (page_mem hx).1
  have hid : x.eventId = r.eventId := by
    have hshown : field (serializeIntent x) "eventId" = .ok (some (.str x.eventId)) := rfl
    rw [hshown] at hid
    exact Json.str.inj (Option.some.inj (Except.ok.inj hid))
  obtain ⟨ha, -⟩ := of_decide_eq_true hscope
  have hkey : x.key = r.key := by rw [IntentEvent.key, ha, hid, Table.find_key hr]
  rw [Table.eq_of_mem hmem (Table.find_mem hr) hkey]

/-- What is written for the bytes of a base64 text says what the text says. -/
theorem faithful_encode {s : String} (h : Base64.isBase64 s = true) :
    Faithful s (Base64.encode (Base64.decode s)) := by
  refine ⟨Base64.decode s, Base64.spells_iff.2 ⟨h, rfl⟩, Base64.decode_encode _, ?_⟩
  rintro ⟨c, rfl⟩
  rw [Base64.decode_encode]

end Reads

/-! ## Which texts are kept -/

theorem syncKeeps_of {s : String} (h : Base64.isBase64 s = true) : SyncKeeps s := by
  intro cfg host credential env app body v i raw hc hs o
  refine ⟨fun _ a rows notify haccept r hwrites w hr => ?_, fun hno => absurd h hno⟩
  obtain ⟨row, hrow, -, -, -, henv⟩ := writesRow_stored hwrites
  obtain ⟨row', hrow', hdecoded⟩ := accept_row hc hs haccept
  rw [hrow] at hrow'
  cases hrow'
  refine ⟨⟨_, syncReads_some hr⟩, fun j hj => ⟨Base64.encode r.envelope, ?_, ?_⟩⟩
  · rw [syncReads_row hr hj]
    rfl
  · rw [henv, hdecoded]
    exact faithful_encode h

theorem intentKeeps_of {s : String} (h : Base64.isBase64 s = true) : IntentKeeps s := by
  intro cfg host credential env body v i raw hc hs o
  refine ⟨fun _ a events haccept r hwrites w hr env' j hj => ⟨Base64.encode r.envelope, ?_, ?_⟩,
    fun hno => absurd h hno⟩
  · rw [intentReads_row hr hj]
    rfl
  · obtain ⟨ev, hev, henv⟩ := writesIntent_stored hwrites
    obtain ⟨ev', hev', hdecoded⟩ := accept_event hc hs haccept
    rw [hev] at hev'
    cases hev'
    rw [henv, hdecoded]
    exact faithful_encode h

end GlanceVault.L3
