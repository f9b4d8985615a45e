import GlanceVault.L2Storage.Resealing
import GlanceVault.L3Http.Refusals
import GlanceVault.L3Http.Sweeps
import GlanceVault.L3Http.UsageRoute
/-!
# Requests and answers with other envelopes

An envelope is a member of a row or an event, base64 on the way in and on the
way out. `Body.reseal` and `Response.reseal` put another one in its place, and
nothing else.

* `accept_reseals`: a request with other envelopes is accepted as the same call
  with other envelopes, or refused with the same error.
* `perform_reseals`: that call, on the server with other envelopes, has the same
  answer with other envelopes, and so has every state it leaves behind.
* `handleAdmin_reseals`, `adminUsage_reseals`: the operator sees no difference.
-/
namespace GlanceVault.L3
open GlanceVault.Core GlanceVault.L1 GlanceVault.L1.Js GlanceVault.L2

/-! ## Other envelopes in JSON -/

/-- `f` on the members `k` of an object. -/
def onMember (k : String) (f : Json → Json) : Json → Json
  | .obj fields => .obj (fields.map fun p => if p.1 = k then (p.1, f p.2) else p)
  | j => j

/-- `f` on the items of an array. -/
def onItems (f : Json → Json) : Json → Json
  | .arr xs => .arr (xs.map f)
  | j => j

def onText (f : String → String) : Json → Json
  | .str s => .str (f s)
  | j => j

section Reseal
variable (ρ : Bytes → Bytes)

/-- The text of the other envelope. -/
def resealText (s : String) : String := Base64.encode (ρ (Base64.decode s))

/-- A row or an event. -/
def resealItem (j : Json) : Json := onMember "envelope" (onText (resealText ρ)) j

/-- The rows or events in the member `k`. -/
def resealItems (k : String) (j : Json) : Json := onMember k (onItems (resealItem ρ)) j

def Body.reseal (k : String) : Body → Body
  | .json j => .json (resealItems ρ k j)
  | b => b

def Route.reseal : Route → Route
  | .syncBatch app body => .syncBatch app (body.reseal ρ "rows")
  | .intentsBatch body => .intentsBatch (body.reseal ρ "events")
  | route => route

def Call.reseal : Call → Call
  | .batch app rows notify => .batch app (rows.map (SyncRowInput.reseal ρ)) notify
  | .intents events => .intents (events.map (IntentEventInput.reseal ρ))
  | call => call

/-- A single row, or the rows of a page. -/
def Payload.reseal : Payload → Payload
  | .json j => .json (resealItem ρ (resealItems ρ "rows" j))
  | p => p

def Response.reseal (r : Response) : Response :=
  if r.status = 200 then { r with payload := r.payload.reseal ρ } else r

def Server.reseal (s : Server) : Server := { s with db := s.db.reseal ρ }

end Reseal

variable {ρ : Bytes → Bytes}

/-! ## Fields -/

theorem lookup_onMember (k : String) (f : Json → Json) (n : String) : ∀ fs : List (String × Json),
    Json.lookup n (fs.map fun p => if p.1 = k then (p.1, f p.2) else p) =
      (Json.lookup n fs).map (if n = k then f else id)
  | [] => rfl
  | (m, j) :: fs => by
    rw [List.map_cons]
    have ih := lookup_onMember k f n fs
    by_cases hmk : m = k
    · subst hmk
      simp only [if_pos, Json.lookup, ih]
      by_cases hmn : m = n
      · subst hmn
        cases Json.lookup m fs <;> simp
      · cases Json.lookup n fs <;> simp [hmn]
    · simp only [if_neg hmk, Json.lookup, ih]
      by_cases hmn : m = n
      · subst hmn
        cases Json.lookup m fs <;> simp [hmk]
      · cases Json.lookup n fs <;> simp [hmn]

theorem field_onMember (k : String) (f : Json → Json) (n : String) (j : Json) :
    field (onMember k f j) n = (field j n).map (Option.map (if n = k then f else id)) := by
  cases j with
  | obj fs =>
    show field (.obj (fs.map _)) n = _
    unfold field
    simp only [Json.field, lookup_onMember]
    rfl
  | _ => rfl

theorem field_self (k : String) (f : Json → Json) (j : Json) :
    field (onMember k f j) k = (field j k).map (Option.map f) := by
  rw [field_onMember, if_pos rfl]

theorem field_other {k n : String} (h : n ≠ k) (f : Json → Json) (j : Json) :
    field (onMember k f j) n = field j n := by
  rw [field_onMember, if_neg h]
  cases field j n with
  | error e => rfl
  | ok o => cases o <;> rfl

/-! ## Checks -/

/-- A check with its input renamed, and the rest of the checks. -/
theorem bind_map {α β γ δ : Type} {x : Except Abort α} {y : Except Abort β} {g : α → β} {k : γ → δ}
    {n : α → Except Abort γ} {n' : β → Except Abort δ} (hx : y = x.map g)
    (hn : ∀ a, n' (g a) = (n a).map k) :
    (y >>= n') = (x >>= n).map k := by
  rw [hx]
  cases x with
  | error e => rfl
  | ok a => exact hn a

/-- The same check, and the rest. -/
theorem bind_same {α γ δ : Type} {x : Except Abort α} {k : γ → δ} {n : α → Except Abort γ}
    {n' : α → Except Abort δ} (hn : ∀ a, n' a = (n a).map k) : (x >>= n') = (x >>= n).map k := by
  cases x with
  | error e => rfl
  | ok a => exact hn a

theorem requiredString_onText (f : String → String) (v : Option Json) (message : String) :
    requiredString (v.map (onText f)) message = (requiredString v message).map f := by
  cases v with
  | none => rfl
  | some j => cases j <;> rfl

theorem requiredArray_onItems (f : Json → Json) (v : Option Json) (message : String) :
    requiredArray (v.map (onItems f)) message = (requiredArray v message).map (List.map f) := by
  cases v with
  | none => rfl
  | some j => cases j <;> rfl

theorem jsonBody_reseals (k : String) (body : Body) :
    jsonBody (body.reseal ρ k) = (jsonBody body).map (resealItems ρ k) := by
  cases body <;> rfl

theorem checkRow_reseals (i : Nat) (raw : Json) :
    checkRow i (resealItem ρ raw) = (checkRow i raw).map (SyncRowInput.reseal ρ) := by
  unfold checkRow resealItem
  rw [field_other (by decide), field_self, field_other (by decide), field_other (by decide),
    field_other (by decide)]
  refine bind_same fun _ => bind_same fun entityId => bind_map rfl fun v => ?_
  refine bind_map (requiredString_onText (resealText ρ) v _) fun envelope => ?_
  refine bind_same fun _ => bind_same fun deleted => bind_same fun _ =>
    bind_same fun insertOnly => ?_
  refine bind_same fun _ => bind_same fun deletedAt => ?_
  simp only [resealText, Base64.decode_encode]
  rfl

theorem checkRows_reseals : ∀ (raws : List Json) (i : Nat),
    checkRows i (raws.map (resealItem ρ)) =
      (checkRows i raws).map (List.map (SyncRowInput.reseal ρ))
  | [], _ => rfl
  | raw :: raws, i =>
    bind_map (checkRow_reseals i raw) fun _ =>
      bind_map (checkRows_reseals raws (i + 1)) fun _ => rfl

theorem checkBatch_reseals (cfg : Config) (app : String) (body : Body) :
    checkBatch cfg app (body.reseal ρ "rows") =
    (checkBatch cfg app body).map fun c =>
    { c with rows := c.rows.map (SyncRowInput.reseal ρ) } := by
  unfold checkBatch
  refine bind_same fun _ => bind_map (jsonBody_reseals "rows" body) fun j => ?_
  unfold resealItems
  rw [field_other (by decide), field_self, field_other (by decide)]
  refine bind_same fun _ => bind_same fun a => bind_map rfl fun v => ?_
  refine bind_map (requiredArray_onItems (resealItem ρ) v _) fun raws => ?_
  exact bind_same fun _ => bind_same fun notify =>
    bind_map (checkRows_reseals raws 0) fun rows => rfl

theorem checkEvent_reseals (host : Host) (i : Nat) (raw : Json) :
    checkEvent host i (resealItem ρ raw) =
      (checkEvent host i raw).map (IntentEventInput.reseal ρ) := by
  unfold checkEvent resealItem
  rw [field_other (by decide), field_self, field_other (by decide)]
  refine bind_same fun _ => bind_same fun eventId => bind_map rfl fun v => ?_
  refine bind_map (requiredString_onText (resealText ρ) v _) fun envelope =>
    bind_same fun expiresAt => ?_
  simp only [resealText, Base64.decode_encode]
  cases normalizeExpiresAt host expiresAt <;> rfl

theorem checkEvents_reseals (host : Host) : ∀ (raws : List Json) (i : Nat),
    checkEvents host i (raws.map (resealItem ρ)) =
      (checkEvents host i raws).map (List.map (IntentEventInput.reseal ρ))
  | [], _ => rfl
  | raw :: raws, i =>
    bind_map (checkEvent_reseals host i raw) fun _ =>
      bind_map (checkEvents_reseals host raws (i + 1)) fun _ => rfl

theorem checkIntents_reseals (host : Host) (body : Body) :
    checkIntents host (body.reseal ρ "events") =
    (checkIntents host body).map fun c =>
    { c with events := c.events.map (IntentEventInput.reseal ρ) } := by
  unfold checkIntents
  refine bind_map (jsonBody_reseals "events" body) fun j => ?_
  unfold resealItems
  rw [field_other (by decide), field_self]
  refine bind_same fun _ => bind_same fun a => bind_map rfl fun v => ?_
  refine bind_map (requiredArray_onItems (resealItem ρ) v _) fun raws =>
    bind_map (checkEvents_reseals host raws 0) fun evs => rfl

/-- What a check that does not read a batch accepts has no envelopes. -/
theorem check_reseals (cfg : Config) (host : Host) (route : Route) :
    check cfg host (route.reseal ρ) = (check cfg host route).map (Prod.map id (Call.reseal ρ)) := by
  cases route with
  | syncBatch app body => exact bind_map (checkBatch_reseals cfg app body) fun c => rfl
  | intentsBatch body => exact bind_map (checkIntents_reseals host body) fun c => rfl
  | syncDevice app body => exact bind_same fun _ => rfl
  | syncList app query => exact bind_same fun _ => bind_same fun _ => rfl
  | syncGet app entityId query => exact bind_same fun _ => bind_same fun _ => rfl
  | saltGet a => exact bind_same fun _ => rfl
  | _ => exact bind_same fun _ => rfl

/-- **A request with other envelopes is accepted as the same call with other
envelopes, or refused alike.** -/
theorem accept_reseals (cfg : Config) (host : Host) (credential : Option Credential)
    (route : Route) :
    accept cfg host credential (route.reseal ρ) =
      (accept cfg host credential route).map (Prod.map id (Call.reseal ρ)) :=
  bind_map (check_reseals cfg host route) fun _ => bind_same fun _ => rfl

/-! ## Steps -/

section Steps

theorem exec_reseals {α β : Type} {g : α → β} {m : DbTx α} {m' : DbTx β}
    (h : Tx.Renames (Db.reseal ρ) g m m') :
    Prog.Renames (Server.reseal ρ) g (exec m) (exec m') := by
  refine .step fun s => ?_
  have heval : m'.eval (s.reseal ρ).db = (m.eval s.db).map fun r => (g r.1, r.2.reseal ρ) := h s.db
  simp only [heval]
  cases m.eval s.db <;> rfl

theorem exec_blind {α : Type} {m : DbTx α} (h : m.Local (Db.reseal ρ)) :
    Prog.Blind (Server.reseal ρ) (exec m) :=
  exec_reseals h

theorem readDb_reseals {α β : Type} {g : α → β} {u : Db → α} {v : Db → β}
    (h : ∀ db, v (db.reseal ρ) = g (u db)) :
    Prog.Renames (Server.reseal ρ) g (readDb u) (readDb v) := .get fun s => h s.db

theorem readDb_blind {α : Type} {u : Db → α} (h : ∀ db, u (db.reseal ρ) = u db) :
    Prog.Blind (Server.reseal ρ) (readDb u) :=
  readDb_reseals h

theorem file_blind (f : Disk → Disk) : Prog.Blind (Server.reseal ρ) (file f) := .step fun _ => rfl

theorem assert_blind (r : Except String Unit) : Prog.Blind (Server.reseal ρ) (assert r) := by
  cases r with
  | ok u => exact .pure rfl
  | error e => exact .raise _

theorem readDisk_blind {α : Type} (f : Disk → Except String α) :
    Prog.Blind (Server.reseal ρ) (readDisk f) := by
  refine .seq (.get fun _ => rfl) fun r => ?_
  cases r with
  | ok a => exact .pure rfl
  | error e => exact .raise _

theorem emit_blind (env : Env) (a : String) (nudge : Nudge) :
    Prog.Blind (Server.reseal ρ) (emit env a nudge) :=
  .poke fun _ => rfl

theorem gated_blind (cfg : Config) {rule : QuotaPolicy → Db → Option QuotaVerdict}
    (h : ∀ gate db, rule gate (db.reseal ρ) = rule gate db) :
    Prog.Blind (Server.reseal ρ) (gated cfg rule) := by
  unfold gated
  cases makeQuotaGate cfg.quotas with
  | none => exact .pure rfl
  | some gate =>
    refine .seq (readDb_blind (h gate)) fun rejected => ?_
    cases rejected with
    | none => exact .pure rfl
    | some v => exact .raise _

theorem put_blind (hash : String) (bytes : Bytes) :
    Prog.Blind (Server.reseal ρ) (put hash bytes) := by
  refine .seq (assert_blind _) fun _ => .seq (.get fun _ => rfl) fun present => .ite (.pure rfl) ?_
  exact .seq (file_blind _) fun _ => file_blind _

theorem deleteBytes_blind (hash : String) : Prog.Blind (Server.reseal ρ) (deleteBytes hash) :=
  .seq (assert_blind _) fun _ => file_blind _

theorem discardSession_blind (u : String) : Prog.Blind (Server.reseal ρ) (discardSession u) :=
  .seq (assert_blind _) fun _ => file_blind _

theorem writePart_blind (u : String) (i : Nat) (bytes : Bytes) :
    Prog.Blind (Server.reseal ρ) (writePart u i bytes) :=
  .seq (assert_blind _) fun _ => .seq (file_blind _) fun _ => file_blind _

theorem discardUploadSession_blind (a u : String) :
    Prog.Blind (Server.reseal ρ) (discardUploadSession a u) := by
  refine .seq (readDb_blind fun _ => rfl) fun session => ?_
  cases session with
  | none => exact .pure rfl
  | some x => exact .seq (discardSession_blind u) fun _ => exec_blind (.write fun _ => rfl)

end Steps

/-! ## Calls -/

/-- What shows no envelope is left as it is. -/
theorem json_reseals {status : Nat} {fields : List (String × Json)}
    (h : ∀ p ∈ fields, p.1 ≠ "envelope" ∧ p.1 ≠ "rows") :
    (Response.json status fields).reseal ρ = Response.json status fields := by
  have hsame : ∀ k f, (∀ p ∈ fields, p.1 ≠ k) →
      onMember k f (.obj fields) = .obj fields := fun k f hk => by
    refine congrArg Json.obj ((List.map_congr_left fun p hp => ?_).trans (List.map_id _))
    rw [if_neg (hk p hp)]
    rfl
  unfold Response.reseal
  split
  · show (⟨status, [], .json (resealItem ρ (resealItems ρ "rows" (.obj fields)))⟩ : Response) = _
    unfold resealItems resealItem
    rw [hsame "rows" _ fun p hp => (h p hp).2, hsame "envelope" _ fun p hp => (h p hp).1]
    rfl
  · rfl

theorem error_reseals {r : Response} (h : 400 ≤ r.status) : r.reseal ρ = r := by
  unfold Response.reseal
  rw [if_neg (by omega)]

theorem serializeRow_reseals (r : SyncRow) :
    serializeRow (r.reseal ρ) = resealItem ρ (serializeRow r) := by
  simp [serializeRow, resealItem, onMember, onText, resealText,
    Base64.decode_encode, SyncRow.reseal]

theorem serializeIntent_reseals (r : IntentEvent) :
    serializeIntent (r.reseal ρ) = resealItem ρ (serializeIntent r) := by
  simp [serializeIntent, resealItem, onMember, onText, resealText, Base64.decode_encode,
    IntentEvent.reseal]

section Calls
variable {cfg : Config} {host : Host} {env : Env} {a : String}

theorem batch_reseals (hρ : Function.Injective ρ) (app : String) (rows : List SyncRowInput)
    (notify : Bool) :
    Prog.Renames (Server.reseal ρ) (Response.reseal ρ) (batch cfg env a app rows notify)
      (batch cfg env a app (rows.map (SyncRowInput.reseal ρ)) notify) := by
  have hids : (rows.map (SyncRowInput.reseal ρ)).map (·.entityId) = rows.map (·.entityId) :=
    List.map_map
  have hanswer : ∀ r : BatchResult, BatchResult.json r = (BatchResult.json r).reseal ρ :=
    fun r => (json_reseals (by simp)).symm
  unfold batch
  rw [hids]
  refine .seq (gated_blind cfg fun gate db => ?_) fun _ =>
    .bind (g := id) (exec_reseals (batchUpsert_reseals app hρ rows env.clock)) fun r => ?_
  · unfold admitSyncBatch netNewRows
    rw [syncRowCount_reseals, countExistingEntities_reseals]
  · exact .ite (.seq (emit_blind _ _ _) fun _ => .pure (hanswer r)) (.pure (hanswer r))

theorem intentsBatch_reseals (events : List IntentEventInput) :
    Prog.Renames (Server.reseal ρ) (Response.reseal ρ) (intentsBatch cfg env a events)
      (intentsBatch cfg env a (events.map (IntentEventInput.reseal ρ))) := by
  have hids : (events.map (IntentEventInput.reseal ρ)).map (·.eventId) = events.map (·.eventId) :=
    List.map_map
  have hanswer : ∀ r : BatchResult, BatchResult.json r = (BatchResult.json r).reseal ρ :=
    fun r => (json_reseals (by simp)).symm
  unfold intentsBatch
  rw [hids]
  refine .seq (gated_blind cfg fun gate db => ?_) fun _ =>
    .bind (g := id) (exec_reseals (insertIntents_reseals events env.clock)) fun r => ?_
  · unfold admitIntents netNewIntents
    rw [intentCount_reseals, countExistingIntentEvents_reseals]
  · exact .ite (.seq (emit_blind _ _ _) fun _ => .pure (hanswer r)) (.pure (hanswer r))

/-- A page of rows or events. -/
theorem page_reseals {α : Type} {f : α → α} {serialize : α → Json}
    (h : ∀ r, serialize (f r) = resealItem ρ (serialize r))
    (p : Page α) : Response.json 200 [("rows", .arr ((p.relabel f).rows.map serialize)),
      ("hasMore", .bool (p.relabel f).hasMore)] =
      (Response.json 200 [("rows", .arr (p.rows.map serialize)),
        ("hasMore", .bool p.hasMore)]).reseal ρ := by
  have hrows : (p.relabel f).rows.map serialize = (p.rows.map serialize).map (resealItem ρ) := by
    show (p.rows.map f).map serialize = _
    rw [List.map_map, List.map_map]
    exact List.map_congr_left fun r _ => h r
  rw [hrows]
  simp [Response.json, Response.reseal, Payload.reseal, resealItems, onMember,
    onItems, Page.relabel]
  rfl

theorem finalize_reseals (u : String) :
    Prog.Renames (Server.reseal ρ) (Response.reseal ρ) (finalize cfg host env a u)
      (finalize cfg host env a u) := by
  have hgate : ∀ v n, Prog.Blind (Server.reseal ρ) (finalizeGate cfg a v n) := fun v n => by
    unfold finalizeGate
    cases makeQuotaGate cfg.quotas with
    | none => exact .pure rfl
    | some gate =>
      refine .seq (readDb_blind fun _ => rfl) fun rejected => ?_
      cases rejected with
      | none => exact .pure rfl
      | some x => exact .seq (discardUploadSession_blind _ _) fun _ => .raise _
  have hassemble : ∀ v, Prog.Blind (Server.reseal ρ) (assembleUpload a v) := fun v =>
    .seq (readDb_blind fun _ => rfl) fun _ => .seq (.require _ _) fun _ =>
      .seq (readDb_blind fun _ => rfl) fun _ => readDisk_blind _
  refine .seq (readDb_blind fun _ => rfl) fun _ => .seq (.found _ _) fun session =>
    .seq (readDb_blind fun _ => rfl) fun owned => ?_
  cases owned with
  | some b =>
    exact .seq (discardUploadSession_blind _ _) fun _ => .pure (json_reseals (by simp)).symm
  | none =>
    refine .seq (hassemble _) fun assembled => .seq (.require _ _) fun _ => .ite ?_ ?_
    · exact .seq (discardUploadSession_blind _ _) fun _ => .raise _
    · refine .seq (hgate _ _) fun _ => .seq (put_blind _ _) fun _ =>
        .seq (exec_blind (insertBlobIfAbsent_reseals _)) fun _ => ?_
      exact .seq (discardUploadSession_blind _ _) fun _ => .pure (json_reseals (by simp)).symm

theorem download_reseals (hash : String) (range : Option String) :
    Prog.Renames (Server.reseal ρ) (Response.reseal ρ) (download a hash range)
      (download a hash range) := by
  have hread : ∀ i j, Prog.Blind (Server.reseal ρ) (readBlobRange a hash i j) := fun i j =>
    .seq (readDb_blind fun _ => rfl) fun _ => .seq (.require _ _) fun _ => readDisk_blind _
  have hstat : Prog.Blind (Server.reseal ρ) (statBlobBytes a hash) := by
    refine .seq (readDb_blind fun _ => rfl) fun rec? => ?_
    cases rec? with
    | none => exact .pure rfl
    | some b => exact readDisk_blind _
  refine .seq hstat fun stat => .seq (.found _ _) fun size => ?_
  split
  · exact .pure rfl
  · exact .ite (.pure rfl) (.seq (hread _ _) fun _ => .pure rfl)
  · exact .seq (hread _ _) fun _ => .pure rfl

/-- **A call on the server with other envelopes** has the same answer with other
envelopes, and leaves the same states behind with other envelopes. -/
theorem perform_reseals (hρ : Function.Injective ρ) (credential : Option Credential) (call : Call) :
    Prog.Renames (Server.reseal ρ) (Response.reseal ρ) (perform cfg host credential env a call)
      (perform cfg host credential env a (call.reseal ρ)) := by
  have hjson : ∀ fields : List (String × Json), (∀ p ∈ fields, p.1 ≠ "envelope" ∧ p.1 ≠ "rows") →
      Prog.Renames (Server.reseal ρ) (Response.reseal ρ)
        (pure (Response.json 200 fields) : Handler Response)
        (pure (Response.json 200 fields)) := fun fields h => .pure (json_reseals h).symm
  cases call with
  | batch app rows notify => exact batch_reseals hρ app rows notify
  | device d n => exact .seq (exec_blind (.write fun _ => rfl)) fun _ => hjson _ (by simp)
  | list app since limit =>
    exact .bind (readDb_reseals fun db => listRows_reseals app since limit db) fun p =>
      .pure (page_reseals serializeRow_reseals p)
  | getEntity app e =>
    refine .bind (readDb_reseals fun db => getRow_reseals app e db) fun row =>
      .bind (.found _) fun row => .pure ?_
    rw [serializeRow_reseals]
    simp [serializeRow, Response.reseal, Payload.reseal, resealItems, resealItem, onMember, onText]
  | deleteEntity app e t =>
    refine .seq (exec_blind (softDeleteRow_reseals app e _ _)) fun r => .seq (.found _ _) fun r =>
      .ite (hjson _ (by simp)) ?_
    exact .seq (emit_blind _ _ _) fun _ => hjson _ (by simp)
  | intents events => exact intentsBatch_reseals events
  | listIntents since limit =>
    exact .bind (readDb_reseals fun db => listIntents_reseals since limit _ db) fun p =>
      .pure (page_reseals serializeIntent_reseals p)
  | getSalt =>
    exact .seq (readDb_blind fun _ => rfl) fun _ => .seq (.found _ _) fun r =>
      hjson _ (by simp [saltFields])
  | putSalt salt =>
    refine .seq (exec_blind (putSaltIfAbsent_reseals salt)) fun r => hjson _ ?_
    cases r.record <;> simp [saltFields]
  | initiate hash valid size =>
    refine .seq (readDb_blind fun _ => rfl) fun owned => ?_
    cases owned with
    | some b => exact hjson _ (by simp)
    | none =>
      refine .seq (gated_blind cfg fun _ _ => rfl) fun _ =>
        .seq (exec_blind (createUploadSession_reseals size)) fun _ => ?_
      exact .pure (json_reseals (by simp)).symm
  | uploadStatus u =>
    refine .seq (readDb_blind fun _ => rfl) fun _ => .seq (.found _ _) fun session =>
      .seq (readDb_blind fun _ => rfl) fun parts => ?_
    exact hjson _ (by simp [receivedJson])
  | putPart u index bytes =>
    refine .seq (readDb_blind fun _ => rfl) fun _ => .seq (.found _ _) fun session =>
      .seq (.found _ _) fun i => ?_
    refine .seq (readDb_blind fun _ => rfl) fun parts => .seq (.require _ _) fun _ =>
      .seq ?_ fun _ => ?_
    · refine .seq (readDb_blind fun _ => rfl) fun _ => .seq (.require _ _) fun _ =>
        .seq (writePart_blind _ _ _) fun _ => ?_
      exact exec_blind (recordUploadPart_reseals _ _)
    · exact .seq (readDb_blind fun _ => rfl) fun acked => hjson _ (by simp [receivedJson])
  | finalize u => exact finalize_reseals u
  | cancel u =>
    refine .seq (readDb_blind fun _ => rfl) fun _ => .seq (.found _ _) fun session => ?_
    exact .seq (discardUploadSession_blind _ _) fun _ => hjson _ (by simp)
  | refAdd hash =>
    exact .seq (exec_blind addBlobReference_reseals) fun _ =>
      .seq (.found _ _) fun b => hjson _ (by simp)
  | refRelease hash =>
    exact .seq (exec_blind releaseBlobReference_reseals) fun _ =>
      .seq (.found _ _) fun b => hjson _ (by simp)
  | head hash =>
    exact .seq (readDb_blind fun _ => rfl) fun _ => .seq (.found _ _) fun b => .pure rfl
  | download hash range => exact download_reseals hash range
  | connect =>
    refine .seq (.get fun _ => rfl) fun id => .seq (.get fun _ => rfl) fun subscribed =>
      .seq (.poke fun _ => rfl) fun _ => ?_
    exact .seq (.require _ _) fun _ => .seq (readDb_blind fun _ => rfl) fun seq => .pure rfl

/-- **The answer is the same with other envelopes.** -/
theorem finish_reseals (hρ : Function.Injective ρ) (credential : Option Credential) (call : Call)
    (s : Server) :
    finish (perform cfg host credential env a (call.reseal ρ) (s.reseal ρ)) =
      (finish (perform cfg host credential env a call s)).reseal ρ := by
  rw [perform_reseals hρ credential call s]
  unfold finish Outcome.rename
  dsimp only
  cases hr : (perform cfg host credential env a call s).result with
  | ok r => rfl
  | error e => exact (error_reseals (perform_refused cfg host credential env a call s e hr)).symm

end Calls

/-! ## The operator -/

section Admin
variable {cfg : Config} {host : Host} {env : Env}

theorem onRevoked_blind (id : String) : Prog.Blind (Server.reseal ρ) (onRevoked id) :=
  .poke fun _ => rfl

theorem enroll_blind (body : Body) : Prog.Blind (Server.reseal ρ) (enroll cfg host env body) := by
  refine .seq (.ofExcept _) fun body => .seq (readDb_blind fun _ => rfl) fun decision =>
    .seq (.ofExcept _) fun a => ?_
  exact .seq (.ofExcept _) fun d =>
    .seq (exec_blind (issueCredential_reseals _ _)) fun issued => .pure rfl

theorem revokeCredential_blind (id : String) :
    Prog.Blind (Server.reseal ρ) (revokeCredential env id) := by
  refine .seq (exec_blind (.write fun _ => rfl)) fun n =>
    .seq (readDb_blind fun _ => rfl) fun record => .seq (.found _ _) fun c => ?_
  exact .ite (.seq (onRevoked_blind _) fun _ => .pure rfl) (.pure rfl)

theorem createAccountRoute_blind (body : Body) :
    Prog.Blind (Server.reseal ρ) (createAccountRoute cfg host env body) := by
  refine .seq (.ofExcept _) fun body => .seq (.ofExcept _) fun label =>
    .seq (.ofExcept _) fun id => ?_
  refine .seq (exec_blind (createAccount_reseals _ _ _)) fun result => ?_
  match result with
  | .error .exists => exact .raise _
  | .error .limit => exact .raise _
  | .ok r => exact .pure rfl

theorem rotateKeyRoute_blind (a : String) (body : Body) :
    Prog.Blind (Server.reseal ρ) (rotateKeyRoute host env a body) := by
  refine .seq (.ofExcept _) fun body => .seq (.ofExcept _) fun revoke =>
    .seq (exec_blind (rotateAccountKey_reseals _ _)) fun result => ?_
  exact .seq (.found _ _) fun r => .seq (.each onRevoked_blind _) fun _ => .pure rfl

theorem deleteAccountRoute_blind (a : String) (body : Body) :
    Prog.Blind (Server.reseal ρ) (deleteAccountRoute a body) := by
  refine .seq (.ofExcept _) fun body => .seq (.ofExcept _) fun confirm =>
    .seq (.require _ _) fun _ => ?_
  refine .seq (exec_blind deleteAccount_reseals) fun result => .seq (.found _ _) fun r =>
    .seq (.each onRevoked_blind _) fun _ => ?_
  exact .seq (.each discardSession_blind _) fun _ =>
    .seq (.each deleteBytes_blind _) fun _ => .pure rfl

/-- **The operator's routes run alike**, with the same answer. -/
theorem handleAdmin_reseals (header : Option String) (route : AdminRoute) :
    Prog.Blind (Server.reseal ρ) (handleAdmin cfg host env header route) := by
  have hroute : Prog.Blind (Server.reseal ρ) (route.perform cfg host env) := by
    cases route with
    | enroll body => exact enroll_blind body
    | revoke id => exact revokeCredential_blind id
    | createAccount body => exact createAccountRoute_blind body
    | rotateKey a body => exact rotateKeyRoute_blind a body
    | deleteAccount a body => exact deleteAccountRoute_blind a body
  refine .ite (.seq (.ofExcept _) fun _ => hroute) (.seq (.ofExcept _) fun _ => ?_)
  refine .seq (readDb_blind fun _ => rfl) fun r => ?_
  cases r with
  | ok c => exact .pure rfl
  | error r => exact .pure rfl

theorem adminUsage_reseals (hlen : ∀ b, (ρ b).length = b.length) (now : String → String) (db : Db)
    (hub : Hub) :
    adminUsage now (db.reseal ρ) hub = adminUsage now db hub := by
  have husage : ∀ a, usageForAccount a (now a) (db.reseal ρ) = usageForAccount a (now a) db :=
    fun a => usageForAccount_reseals hlen _
  have hby : byAccount now (db.reseal ρ) hub = byAccount now db hub := by
    unfold byAccount
    rw [listUsage_reseals hlen]
    simp only [husage]
  unfold adminUsage
  rw [hby]

end Admin

/-! ## Sweeps -/

theorem reclaimSweep_blind (policy : ReclaimPolicy) (nowMs : Int) :
    Prog.Blind (Server.reseal ρ) (reclaimSweep policy nowMs) := by
  refine .ite (.seq (.ofExcept _) fun _ => .seq (.ofExcept _) fun _ => .seq
    (readDb_blind fun _ => rfl) fun eligible => ?_) (.pure rfl)
  have hblob : ∀ b, Prog.Blind (Server.reseal ρ) (reclaimBlob b) := fun b =>
    .seq (deleteBytes_blind _) fun _ => .seq (exec_blind (.write fun _ => rfl)) fun _ => .pure rfl
  exact .seq (.each hblob _) fun _ => .pure rfl

theorem reapUploadSessions_blind (ttlMs nowMs : Int) :
    Prog.Blind (Server.reseal ρ) (reapUploadSessions ttlMs nowMs) := by
  have hsession : ∀ s, Prog.Blind (Server.reseal ρ) (reapSession s) := fun s =>
    .seq (discardSession_blind _) fun _ => exec_blind (.write fun _ => rfl)
  exact .seq (.ofExcept _) fun _ => .seq (readDb_blind fun _ => rfl) fun stale =>
    .seq (.each hsession _) fun _ => .pure rfl

end GlanceVault.L3
