import GlanceVault.L3Http.Refusals
import GlanceVault.L4System.Survival
/-!
# Honest existence answers

The existence check, the dedup of an initiate and both ends of a finalize go by
the account's row; a download needs the bytes too. So the server is honest as
long as every row has its bytes, which holds as long as every sweep, finished
or stopped, has deleted with the bytes of a hash all rows of that hash.

* `told_row`: who is told that it has a blob has the row.
* `honest_iff`: the server is honest exactly when every row has its bytes.
* `honest_after`: the runs after which it is.
-/
namespace GlanceVault.L4
open GlanceVault.Core GlanceVault.L1 GlanceVault.L1.Js GlanceVault.L2 GlanceVault.L3

/-- The answer `r` to a call says that the account has the blob `h`. -/
def Tells (call : Call) (r : Response) (h : String) : Prop :=
  match call with
  | .head hash => hash = h ∧ r.status = 200
  | .initiate hash _ _ => hash = h ∧ r.status = 200 ∧
      ∃ fields, r.payload = .json (.obj fields) ∧ ("exists", Json.bool true) ∈ fields
  | .finalize _ =>
    r.status = 200 ∧ ∃ fields, r.payload = .json (.obj fields) ∧ ("blobHash", Json.str h) ∈ fields
  | _ => False

/-- Who is told that it has a blob can download it. -/
def Honest (host : Host) (s : State) : Prop :=
  ∀ credential env a call h,
    Tells call (finish (perform s.cfg host credential env a call s.server)) h →
    ∀ credential' env', ∃ r, finish (perform s.cfg host credential' env' a (.download h none)
        (perform s.cfg host credential env a call s.server).state) = r ∧
      r.status = 200 ∧ ∃ b, r.payload = .bytes b ∧ host.sha256Hex b = h

/-! ## What an answer rests on -/

/-- The account has the row. -/
def Has (a h : String) (s : Server) : Prop := s.db.blobs.find (a, h) ≠ none

theorem discard_has (a u b h : String) :
    Prog.Ends (Has b h) (discardUploadSession a u) fun _ => Has b h :=
  (discardUploadSession_frame (π := fun s : Server => s.db.blobs)
    (fun s db e => (congrArg Db.blobs e : db.outsideUploads.blobs = s.db.outsideUploads.blobs))
    (fun _ _ => rfl) a u).ends fun t => t.find (b, h) ≠ none

/-- What a finalize that succeeds says. -/
def Says (a : String) (r : Response) (s : Server) : Prop :=
  ∀ fields h, r.payload = .json (.obj fields) → ("blobHash", Json.str h) ∈ fields → Has a h s

theorem storeUpload_states (cfg : Config) (host : Host) (env : Env) (a : String)
    (session : UploadSession) :
    Prog.Ends (fun _ => True) (storeUpload cfg host env a session) (Says a) := by
  unfold storeUpload
  refine .bind (.any _) fun bytes => .bind (.any _) fun _ => .ite (fun _ => ?_) fun _ => ?_
  · exact .bind (.any _) fun _ => .raise fun _ _ => trivial
  refine .bind (.any _) fun _ => .bind (.any _) fun _ => ?_
  refine Prog.Triple.bind (Q := fun _ => Has a session.blobHash)
    (exec_triple (fun s o db _ e => ⟨trivial, ?_⟩)
    fun _ _ => trivial) fun _ => ?_
  · rw [insertBlobIfAbsent_eval] at e
    unfold Has
    cases hf : s.db.blobs.find (a, session.blobHash) with
    | some b =>
      rw [hf] at e
      cases e
      rw [hf]
      simp
    | none =>
      rw [hf] at e
      cases e
      have hself := Table.find_upsert_self (s.db.bump a).blobs
        (Blob.fresh a session.blobHash bytes.length (latestSeq s.db a + 1) (env.clock 0))
      exact fun hn => nomatch hself.symm.trans hn
  · refine .bind (discard_has a _ a _) fun _ => .pure fun s hs fields h hp hm => ?_
    cases hp
    simp only [List.mem_cons, Prod.mk.injEq, Json.str.injEq, true_and, List.not_mem_nil,
      String.reduceEq, false_and,
      or_false] at hm
    rw [hm]
    exact hs

theorem finalize_states (cfg : Config) (host : Host) (env : Env) (a u : String) :
    Prog.Ends (fun _ => True) (finalize cfg host env a u) (Says a) := by
  unfold finalize
  refine .bind (.any _) fun _ => .bind (.any _) fun session => ?_
  refine Prog.Triple.bind (Q := fun owned s => s.db.blobs.find (a, session.blobHash) = owned)
    (.get fun s _ => rfl) fun owned => ?_
  cases owned with
  | none => exact (storeUpload_states cfg host env a session).pre fun _ _ => trivial
  | some b =>
    refine .bind ((discard_has a _ a session.blobHash).pre fun s hs => ?_) fun _ =>
      .pure fun s hs fields h hp hm => ?_
    · unfold Has
      rw [hs]
      simp
    · cases hp
      simp only [List.mem_cons, Prod.mk.injEq, Json.str.injEq, true_and, List.not_mem_nil,
        String.reduceEq, false_and,
        or_false] at hm
      rw [hm]
      exact hs

/-- **Who is told that it has a blob has the row.** -/
theorem told_row {cfg : Config} {host : Host} {credential : Option Credential} {env : Env}
    {a h : String} {call : Call}
    {s : Server} (ht : Tells call (finish (perform cfg host credential env a call s)) h) :
    Has a h (perform cfg host credential env a call s).state := by
  have hok : (finish (perform cfg host credential env a call s)).status = 200 →
      (perform cfg host credential env a call s).result =
        .ok (finish (perform cfg host credential env a call s)) :=
    fun h200 => ok_of_finish (perform_refused cfg host credential env a call) (by rw [h200]; decide)
  cases call with
  | head hash =>
    obtain ⟨rfl, h200⟩ := ht
    have hend : Prog.Ends (fun _ => True) (head a hash) fun _ => Has a hash := by
      refine Prog.Triple.bind (Q := fun row s => s.db.blobs.find (a, hash) = row)
        (.get fun s _ => rfl) fun row => ?_
      refine Prog.Triple.bind (Q := fun row s => s.db.blobs.find (a, hash) = some row)
        (.found (fun b e s hs => hs.trans e) fun _ _ => trivial) fun b => .pure fun s hs => ?_
      unfold Has
      rw [hs]
      simp
    exact hend.result trivial (hok h200)
  | initiate hash valid size =>
    obtain ⟨rfl, h200, -⟩ := ht
    have hend : Prog.Ends (fun _ => True) (initiate cfg env a hash size) fun r s => r.status = 200 →
        Has a hash s := by
      refine Prog.Triple.bind (Q := fun row s => s.db.blobs.find (a, hash) = row)
        (.get fun s _ => rfl) fun row => ?_
      cases row with
      | some b =>
        refine .pure fun s hs _ => ?_
        unfold Has
        rw [hs]
        simp
      | none =>
        refine .bind (.any _) fun _ => .bind (.any _) fun _ => .pure fun s _ h => ?_
        cases h
    exact hend.result trivial (hok h200) h200
  | finalize u =>
    obtain ⟨h200, fields, hp, hm⟩ := ht
    exact (finalize_states cfg host env a u).result trivial (hok h200) fields h hp hm
  | _ => exact ht.elim

/-! ## Honest exactly when every row has its bytes -/

theorem perform_genuine (cfg : Config) {host : Host} (credential : Option Credential) (env : Env)
    (a : String)
    (call : Call) {sent : List SentPart} {s : Server} (hgen : Genuine host.sha256Hex sent s.media)
    (hb : Backed s.media) :
    (∃ sent', Genuine host.sha256Hex sent' (perform cfg host credential env a call s).state.media) ∧
      Backed (perform cfg host credential env a call s).state.media := by
  have hsteps :=
    (perform_follows cfg host credential env a call (sent ++ sentBy a call s.db)).state (s := s)
      fun p hp => List.mem_append_right _ hp
  have hgen' := hgen.mono fun p hp => List.mem_append_left (sentBy a call s.db) hp
  exact ⟨⟨_, Prog.reach_inv (fun m m' hs hm => hm.step hs) hsteps hgen'⟩,
    Prog.reach_inv (fun m m' hs hm => hm.step hs) hsteps hb⟩

theorem honest_of_backed {host : Host} {s : State}
    (hgen : Genuine host.sha256Hex s.sent s.server.media)
    (hb : Backed s.server.media) : Honest host s := by
  intro credential env a call h ht credential' env'
  have hhas := told_row ht
  obtain ⟨row, hrow⟩ := Option.ne_none_iff_exists'.1 hhas
  obtain ⟨⟨sent', hgen'⟩, hb'⟩ := perform_genuine s.cfg credential env a call hgen hb
  obtain ⟨hmem, hkey⟩ := Table.find_some.1 hrow
  have hheld := mem_media_held hmem
  have hhash : row.blobHash = h := congrArg Prod.snd hkey
  obtain ⟨b, hbytes⟩ := Option.isSome_iff_exists.1 (hb' _ hheld)
  have hvalid := hgen'.heldHash _ hheld
  simp only [hhash] at hbytes hvalid
  refine ⟨_, download_present none hrow hvalid hbytes, rfl, b, rfl, hgen'.addressed h b hbytes⟩

theorem honest_iff {host : Host} {s : State} (hgen : Genuine host.sha256Hex s.sent s.server.media) :
    Honest host s ↔ Backed s.server.media := by
  refine ⟨fun hh x hx => ?_, honest_of_backed hgen⟩
  obtain ⟨row, hrow, rfl⟩ := List.mem_map.1 hx
  -- the existence check answers 200 for the row's account
  have hfind : s.server.db.blobs.find (row.accountId, row.blobHash) = some row :=
    Table.find_some.2 ⟨hrow, rfl⟩
  have hhead : ∀ env, perform s.cfg host none env row.accountId (.head row.blobHash) s.server =
      ⟨.ok ⟨200, [("Accept-Ranges", "bytes"), ("X-Blob-Size", toString row.size)], .empty⟩,
        s.server, []⟩ := by
    intro env
    show head row.accountId row.blobHash s.server = _
    unfold head readDb getBlob
    simp only [Prog.get_bind, hfind]
    rfl
  let env : Env := ⟨fun _ => "", "", "", "", fun _ => false⟩
  obtain ⟨r, hr, h200, -⟩ := hh none env row.accountId (.head row.blobHash) row.blobHash
    (by rw [hhead]; exact ⟨rfl, rfl⟩) none env
  rw [hhead] at hr
  obtain ⟨b, hb, -⟩ := download_bytes hr (.inl h200)
  exact Option.isSome_iff_exists.2 ⟨b, hb⟩

/-- **Honest answers.** After a run, with the process stopping at any point of
a step, in which every sweep has deleted, with the bytes of a hash, all rows of
that hash, who is told that it has a blob can download it; and the next event
keeps this exactly if it meets that condition too. -/
theorem honest_after (host : Host) (cfg : Config) {es : List Event}
    (h : AllSteps (State.next host) State.spares (State.init cfg) es) :
    Honest host (State.after host cfg es) ∧
    ∀ e, Honest host (State.after host cfg (es ++ [e])) ↔ (State.after host cfg es).spares e := by
  have hback := backed_after host cfg h
  refine ⟨(honest_iff (genuine_after host cfg es)).2 hback, fun e => ?_⟩
  have hlast : State.after host cfg (es ++ [e]) = (State.after host cfg es).next host e := by
    unfold State.after
    rw [run_append]
    rfl
  rw [honest_iff (genuine_after host cfg _), hlast]
  exact backed_next e (genuine_after host cfg es) hback

/-- A sweep that stops between the bytes and the row of a blob: the existence
check answers 200, the download 404. -/
theorem stopped_sweep_dishonest :
    ¬ Honest sampleHost (State.after sampleHost sampleConfig
      ((uploadEmpty "a" "u" "2025-01-01T00:00:00.000Z").map .run ++
        [.stop marchSweep 1 sampleConfig])) := by
  intro h
  obtain ⟨r, hr, h200, -⟩ := h none (sampleEnv "" "") "a" (.head emptyHash) emptyHash
    ⟨rfl, by decide +kernel⟩ none (sampleEnv "" "")
  have h404 :
      (finish (perform sampleConfig sampleHost none (sampleEnv "" "") "a" (.download emptyHash none)
      (perform sampleConfig sampleHost none (sampleEnv "" "") "a" (.head emptyHash)
        (State.after sampleHost sampleConfig
          ((uploadEmpty "a" "u" "2025-01-01T00:00:00.000Z").map .run ++
          [.stop marchSweep 1 sampleConfig])).server).state)).status = 404 := by decide +kernel
  have h404 : r.status = 404 := by rw [← hr]; exact h404
  omega

/-- A sweep that stops after the row is harmless: the next upload is like a
first one. -/
theorem honest_stopped_after_row :
    Honest sampleHost (State.after sampleHost sampleConfig
      ((uploadEmpty "a" "u" "2025-01-01T00:00:00.000Z").map .run ++
        [.stop marchSweep 2 sampleConfig] ++
        (uploadEmpty "a" "v" "2025-03-02T00:00:00.000Z").map .run)) :=
  (honest_after sampleHost sampleConfig (by decide +kernel)).1

end GlanceVault.L4
