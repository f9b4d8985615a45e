import GlanceVault.L4System.System
/-!
# Bytes are what their address says, rows are earned

* `genuine_after`: `Genuine` holds after every run, crashes included.
* `possession`: the stored bytes hash to their address; an account holds a row
  only if it sent the bytes itself, into a session of its own; the row's size
  is theirs; and a download that succeeds carries bytes of that hash.

## Hypotheses

* SHA-256 is injective: the store keeps one file for an address.
-/
namespace GlanceVault.L4
open GlanceVault.Core GlanceVault.L1 GlanceVault.L2 GlanceVault.L3

theorem genuine_next (host : Host) (s : State) (e : Event)
    (h : Genuine host.sha256Hex s.sent s.server.media) :
    Genuine host.sha256Hex (s.next host e).sent (s.next host e).server.media := by
  rw [next_sent]
  have h : Genuine host.sha256Hex (s.sent ++ s.sends host e.action) s.server.media :=
    h.mono fun p hp => List.mem_append_left _ hp
  by_cases hr : ∃ policy nowMs, e.action = .reclaim policy nowMs
  · obtain ⟨policy, nowMs, hr⟩ := hr
    exact Prog.reach_inv (fun m m' hs hm => hm.reclaim hs) (next_reclaims host s hr) h
  · have hr : ∀ policy nowMs, e.action ≠ .reclaim policy nowMs := fun p n e => hr ⟨p, n, e⟩
    exact Prog.reach_inv (fun m m' hs hm => hm.step hs) (next_steps host s hr) h

theorem genuine_after (host : Host) (cfg : Config) (es : List Event) :
    Genuine host.sha256Hex (State.after host cfg es).sent (State.after host cfg es).server.media :=
  run_inv (I := fun s : State => Genuine host.sha256Hex s.sent s.server.media)
    (fun s e h => genuine_next host s e h) es (State.init cfg) genuine_empty

/-- A row of the blob table, as the media see it. -/
theorem mem_media_held {s : Server} {b : Blob} (h : b ∈ s.db.blobs.rows) :
    ((b.accountId, b.blobHash), b.size) ∈ s.media.held := List.mem_map.2 ⟨b, h, rfl⟩

/-- With the hash injective, the file of a held hash has the size of the row. -/
theorem stored_size {sha256Hex : Bytes → String} (hinj : Function.Injective sha256Hex)
    {sent : List SentPart}
    {m : Media} (h : Genuine sha256Hex sent m) {x : (String × String) × Nat} (hx : x ∈ m.held)
    {b : Bytes} (hb : m.disk (.blob x.1.2) = some b) : b.length = x.2 := by
  obtain ⟨u, ps, -, -, hsha, hlen⟩ := h.possessed x hx
  have hsame : b = (ps.map Prod.snd).flatten := hinj ((h.addressed _ _ hb).trans hsha.symm)
  rw [hsame, hlen]

theorem check_download (cfg : Config) (host : Host) (hash : String) (query : Js.Query)
    (range : Option String) :
    check cfg host (.blobGet hash query range) =
      (checkGet hash query).map fun a => (a, Call.download hash range) := rfl

/-- A download that is refused is refused with an error. -/
theorem accept_download_refused {cfg : Config} {host : Host} {credential : Option Credential}
    {hash : String} {query : Js.Query} {range : Option String} {e : Abort}
    (h : accept cfg host credential (.blobGet hash query range) = .error e) :
    400 ≤ e.response.status := by
  rcases accept_error h with hc | ⟨x, rfl, hx⟩
  · rw [check_download] at hc
    cases hg : checkGet hash query with
    | ok a => rw [hg] at hc; cases hc
    | error x =>
      rw [hg] at hc
      cases hc
      exact (checkGet_status hg).symm ▸ Nat.le_refl 400
  · simp only [Abort.response, Response.error, Response.json]
    omega

/-- The answer to a download that succeeds is that of `download`. -/
theorem answer_download {host : Host} {s : State} {id : Nat} {env : Env} {w : Waiting}
    {hash : String}
    {query : Js.Query} {range : Option String} {r : Response} (hw : s.waiting id = some w)
    (hr : w.route = .blobGet hash query range) (h : s.answer host (.handle id env) = some r)
    (hok : r.status = 200 ∨ r.status = 206) : ∃ a, finish (download a hash range s.server) = r := by
  rw [answer_handle host hw, Option.some.injEq, hr] at h
  cases ha : accept s.cfg host w.credential (.blobGet hash query range) with
  | ok p =>
    obtain ⟨a, call⟩ := p
    rw [handle_admitted ha] at h
    obtain ⟨claimed, hc, -⟩ := accept_ok ha
    rw [check_download] at hc
    cases hg : checkGet hash query with
    | error e => rw [hg] at hc; cases hc
    | ok c => rw [hg] at hc; cases hc; exact ⟨a, h⟩
  | error e =>
    rw [handle_refused ha] at h
    have h400 := accept_download_refused ha
    subst h
    simp only [finish, Prog.raise_run] at hok
    omega

/-- **Possession and content addresses.** After every run, with the process
stopping and coming up again at any point: stored bytes hash to their address;
an account holds a row only if it sent parts that in index order concatenate to
bytes of that hash and of the row's size, into an upload session it owned; the
stored bytes have that size; and a download that succeeds answers bytes of the
hash, or the range of them that was asked for. -/
theorem possession (host : Host) (hinj : Function.Injective host.sha256Hex) (cfg : Config)
    (es : List Event) :
    (∀ h b, (State.after host cfg es).server.disk (.blob h) = some b → host.sha256Hex b = h) ∧
    (∀ row ∈ (State.after host cfg es).server.db.blobs.rows,
      Possessed host.sha256Hex (State.after host cfg es).sent row.accountId row.blobHash row.size ∧
      ∀ b, (State.after host cfg es).server.disk (.blob row.blobHash) = some b →
        b.length = row.size) ∧
    ∀ id env w hash query range r, (State.after host cfg es).waiting id = some w →
      w.route = .blobGet hash query range →
      (State.after host cfg es).answer host (.handle id env) = some r →
      r.status = 200 ∨ r.status = 206 →
      ∃ b, host.sha256Hex b = hash ∧ (r.status = 200 → r.payload = .bytes b) ∧
        ∃ i n, i + n ≤ b.length ∧ r.payload = .bytes ((b.drop i).take n) := by
  have hgen := genuine_after host cfg es
  refine ⟨hgen.addressed, fun row hrow => ?_, fun id env w hash query range r hw hr ha hok => ?_⟩
  · have hheld := mem_media_held hrow
    exact ⟨hgen.possessed _ hheld, fun b hb => stored_size hinj hgen hheld hb⟩
  · obtain ⟨a, hd⟩ := answer_download hw hr ha hok
    obtain ⟨b, hb, h200, hrange⟩ := download_bytes hd hok
    exact ⟨b, hgen.addressed hash b hb, h200, hrange⟩

/-- The hash that a request asks to download. -/
def download? (w : Waiting) : Option String :=
  match w.route with
  | .blobGet hash _ _ => some hash
  | _ => none

theorem download?_some {w : Waiting} {hash : String} (h : download? w = some hash) :
    ∃ query range, w.route = .blobGet hash query range := by
  unfold download? at h
  split at h
  · rename_i hash' query range hroute
    cases h
    exact ⟨query, range, hroute⟩
  · cases h

/-- Two parts, the second one first. The process stops between the file of the
blob and its row, the finalize is sent again, and a download is asked for. -/
def uploadParts : List Event :=
  let query : Js.Query := fun k => if k = "accountId" then some (.str "a") else none
  let finalize : Route := .uploadFinalize "u" (.json (.obj [("accountId", .str "a")]))
  (ask (.uploadInitiate
    (.json (.obj [("accountId", .str "a"), ("blobHash", .str partsHash), ("size", .nat 5)])))
      (sampleEnv "u" "2025-01-01T00:00:00.000Z") ++
    ask (.uploadPart "u" "1" query (.raw [4, 5])) (sampleEnv "-" "2025-01-01T00:00:01.000Z") ++
    ask (.uploadPart "u" "0" query (.raw [1, 2, 3]))
      (sampleEnv "-" "2025-01-01T00:00:02.000Z")).map .run ++
  [.run (.arrive 0 ⟨some "Bearer token", finalize⟩),
    .stop (.handle 0 (sampleEnv "-" "2025-01-01T00:00:03.000Z")) 2 sampleConfig] ++
  (ask finalize (sampleEnv "-" "2025-01-01T00:00:04.000Z")).map .run ++
  [.run (.arrive 0 ⟨some "Bearer token", .blobGet partsHash query none⟩)]

/-- The blob has its row, of the size and the bytes of the parts that were sent
for it, and the download answers them. -/
theorem possession_parts :
    let s := State.after sampleHost sampleConfig uploadParts
    s.server.db.blobs.rows.map
      (fun r => (r.accountId, r.blobHash, r.size)) = [("a", partsHash, 5)] ∧
      s.server.disk (.blob partsHash) = some [1, 2, 3, 4, 5] ∧
      sampleSha [1, 2, 3, 4, 5] = partsHash ∧ Possessed sampleSha s.sent "a" partsHash 5 ∧
      ∃ r b, s.answer sampleHost (.handle 0 (sampleEnv "-" "t")) = some r ∧ r.status = 200 ∧
        r.payload = .bytes b ∧ sampleSha b = partsHash := by
  intro s
  have hheld : s.server.db.blobs.rows.map (fun r => (r.accountId, r.blobHash, r.size)) =
      [("a", partsHash, 5)] := by
    decide +kernel
  have hfile : s.server.disk (.blob partsHash) = some [1, 2, 3, 4, 5] := by decide +kernel
  have hstatus : (s.answer sampleHost (.handle 0 (sampleEnv "-" "t"))).map (·.status) =
      some 200 := by
    decide +kernel
  have hasks : (s.waiting 0).bind download? = some partsHash := by decide +kernel
  have hs : s = State.after sampleHost sampleConfig uploadParts := rfl
  obtain ⟨haddressed, hrows, hdownload⟩ :=
    possession sampleHost sampleSha_injective sampleConfig uploadParts
  rw [← hs] at haddressed hrows hdownload
  clear_value s
  have hmem : ("a", partsHash, 5) ∈ s.server.db.blobs.rows.map fun r =>
      (r.accountId, r.blobHash, r.size) := by
    rw [hheld]
    exact List.mem_singleton.2 rfl
  obtain ⟨row, hrow, e⟩ := List.mem_map.1 hmem
  have hpossessed := (hrows row hrow).1
  simp only [Prod.mk.injEq] at e
  rw [e.1, e.2.1, e.2.2] at hpossessed
  obtain ⟨w, hw, hasked⟩ := Option.bind_eq_some_iff.1 hasks
  obtain ⟨query, range, hroute⟩ := download?_some hasked
  obtain ⟨r, hr, hok⟩ := Option.map_eq_some_iff.1 hstatus
  obtain ⟨b, hb, hpayload, -⟩ := hdownload 0 _ w partsHash query range r hw hroute hr (.inl hok)
  exact ⟨hheld, hfile, haddressed _ _ hfile, hpossessed, r, b, hr, hok, hpayload hok, hb⟩

end GlanceVault.L4
