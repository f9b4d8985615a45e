import GlanceVault.L3Http.Reassembly
import GlanceVault.L4System.Reservations
/-!
# Uploads are reassembled

Along any run without a crash an upload stands for the draft of the parts its
owner has sent into it, whatever else the server has done in between.

* `State.draft`, `draftAfter`: the draft, from what was sent alone.
* `realizes_next`, `realizes_run`: the store's rows and files stand for it.
* `uploads_reassemble`: status, parts and finalize, in every state of a run.

## Hypotheses

* The runs are without stops: what a stop does to the parts of an upload is in
  `parts_present`.
* The id of the upload has the form of the ids that `randomUUID` draws.
-/
namespace GlanceVault.L4
open GlanceVault.Core GlanceVault.L1 GlanceVault.L2 GlanceVault.L3

/-- The draft of an upload after an event: the parts its owner sends are
offered to it in turn, and it is empty until the session is there. -/
def State.draft (host : Host) (u : String) (s : State) (d : Draft) : Event → Draft
  | .run act =>
    match s.server.db.uploadSessions.find u with
    | none => .empty
    | some t => ((s.sends host act).filter fun p => decide (p.uploadId = u)).foldl
        (fun d p => d.offer t.declaredSize p.index p.bytes) d
  | .stop _ _ _ => d

def draftFrom (host : Host) (u : String) : State → Draft → List Event → Draft
  | _, d, [] => d
  | s, d, e :: es => draftFrom host u (s.next host e) (s.draft host u d e) es

/-- The draft of an upload after a run from an empty volume. -/
def draftAfter (host : Host) (cfg : Config) (u : String) (es : List Event) : Draft :=
  draftFrom host u (State.init cfg) .empty es

section Step
variable {host : Host} {u : String} {s : State} {d : Draft}

theorem sentBy_mem {a : String} {call : Call} {db : Db} {p : SentPart} (hp : p ∈ sentBy a call db) :
    p.accountId = a ∧ (∃ index, call = .putPart p.uploadId index p.bytes) ∧
    getUploadSession a p.uploadId db ≠ none := by
  unfold sentBy at hp
  cases call with
  | putPart v index bytes =>
    simp only at hp
    cases hs : getUploadSession a v db with
    | none => rw [hs] at hp; cases hp
    | some t =>
      cases hi : (Js.JsNumber.ofString index).asNatural with
      | none => rw [hs, hi] at hp; cases hp
      | some i =>
        rw [hs, hi, List.mem_singleton] at hp
        subst hp
        exact ⟨rfl, ⟨index, rfl⟩, by rw [hs]; simp⟩
  | _ => cases hp

/-- Only a request that is handled sends parts. -/
theorem sends_eq (host : Host) (s : State) (act : Action) :
    s.sends host act = (s.handled host act).elim [] fun x => sentBy x.2.1 x.2.2 s.server.db := by
  cases act with
  | handle id env =>
    simp only [State.sends, State.handled]
    cases hw : s.waiting id with
    | none => rfl
    | some w =>
      cases ha : accept s.cfg host w.credential w.route with
      | error e => simp [ha]
      | ok r => simp [ha]
  | _ => rfl

/-- A part is only sent into a session that is live. -/
theorem sends_live {act : Action} {p : SentPart} (hp : p ∈ s.sends host act) :
    s.server.db.uploadSessions.find p.uploadId ≠ none := by
  rw [sends_eq] at hp
  cases hh : s.handled host act with
  | none => rw [hh] at hp; cases hp
  | some x =>
    rw [hh] at hp
    intro hnone
    refine (sentBy_mem hp).2.2 ?_
    unfold getUploadSession
    rw [hnone]
    rfl

/-- Nothing is recorded for an upload that has no session yet. -/
theorem parts_next (hgen : Genuine host.sha256Hex s.sent s.server.media)
    (hnone : s.server.db.uploadSessions.find u = none)
    (act : Action) : ∀ p ∈ (s.act host act).server.media.parts.rows, p.uploadId ≠ u := by
  have hstart : ∀ p ∈ s.server.media.parts.rows, p.uploadId ≠ u :=
    fun p hp e => hgen.owned p hp (e ▸ hnone)
  by_cases hr : ∃ policy nowMs, act = .reclaim policy nowMs
  · obtain ⟨policy, nowMs, rfl⟩ := hr
    refine Prog.reach_inv (I := fun m : Media => ∀ p ∈ m.parts.rows, p.uploadId ≠ u)
      (fun m m' hs hm => ?_)
      ((reclaim_media host s policy nowMs).state rfl) hstart
    cases hs <;> exact hm
  · have hr : ∀ policy nowMs, act ≠ .reclaim policy nowMs := fun p n e => hr ⟨p, n, e⟩
    refine Prog.reach_inv (I := fun m : Media => ∀ p ∈ m.parts.rows, p.uploadId ≠ u)
      (fun m m' hs hm => ?_)
      ((work_media host s hr fun p hp => hp).state rfl) hstart
    cases hs with
    | ack t i b now live staged own =>
      intro p hp
      rcases Table.mem_upsert.1 hp with rfl | hp
      · intro e
        have e : t.uploadId = u := e
        exact sends_live own (e ▸ hnone)
      · exact hm p hp.1
    | drop q => exact fun p hp => hm p (Table.mem_keep.1 hp).1
    | purge a => exact fun p hp => hm p (Table.mem_keep.1 hp).1
    | _ => exact hm

/-- The rows and files of the upload stand for the draft, while it is live. -/
def Drafted (u : String) (d : Draft) (v : Server) : Prop :=
  v.db.uploadSessions.find u ≠ none → (v.upload u).Realizes d

theorem Drafted.kept {v w : Server} (h : Drafted u d v) (hkept : (v.upload u).Kept (w.upload u)) :
    Drafted u d w := by
  intro hlive
  rcases hkept with hgone | hsame
  · exact absurd hgone hlive
  · rw [hsame]
    refine h fun hnone => hlive ?_
    exact (congrArg Upload.session hsame).trans hnone

/-- A request of the owner, or another. -/
theorem perform_drafted (hid : Js.isUploadId u = true) {v : Server} {t : UploadSession}
    (hlive : v.db.uploadSessions.find u = some t) (h : Drafted u d v) (cfg : Config) (host : Host)
    (credential : Option Credential) (env : Env) (a : String) (call : Call) :
    Drafted u (((sentBy a call v.db).filter fun p => decide (p.uploadId = u)).foldl
      (fun d p => d.offer t.declaredSize p.index p.bytes) d)
        (perform cfg host credential env a call v).state := by
  have hreal := h (by rw [hlive]; simp)
  by_cases hput : ∃ index bytes, call = .putPart u index bytes ∧ t.accountId = a
  · obtain ⟨index, bytes, rfl, rfl⟩ := hput
    show Drafted u _ (putPart env t.accountId u index bytes v).state
    cases hi : (Js.JsNumber.ofString index).asNatural with
    | none =>
      have hsent : sentBy t.accountId (.putPart u index bytes) v.db = [] := by simp [sentBy, hi]
      have hsame : (putPart env t.accountId u index bytes v).state = v := by
        unfold putPart readDb
        rw [Prog.get_bind, session_own hlive]
        simp only [Prog.found, Prog.pure_bind, hi]
        rfl
      rw [hsent, hsame]
      exact h
    | some i =>
      have hsent : sentBy t.accountId (.putPart u index bytes) v.db =
          [⟨t.accountId, u, i, bytes⟩] := by
        simp [sentBy, session_own hlive, hi]
      have hrun := putPart_draft hid hlive hreal env hi bytes
      rw [hsent]
      simp only [decide_true, List.filter_cons_of_pos, List.filter_nil, List.foldl_cons,
        List.foldl_nil, Draft.offer]
      split at hrun
      · rename_i hfits
        rw [if_pos hfits, hrun.2]
        exact fun _ => stage_draft hreal i bytes _
      · rename_i hfits
        rw [if_neg hfits, hrun]
        exact h
  · -- nothing is sent into this upload
    have hnone : (sentBy a call v.db).filter (fun p => decide (p.uploadId = u)) = [] := by
      refine List.filter_eq_nil_iff.2 fun p hp hu => ?_
      obtain ⟨-, ⟨index, hcall⟩, hown⟩ := sentBy_mem hp
      rw [decide_eq_true_eq] at hu
      rw [hu] at hcall hown
      obtain ⟨x, hx⟩ := Option.ne_none_iff_exists'.1 hown
      obtain ⟨hf, ha⟩ := getUploadSession_some.1 hx
      rw [hlive] at hf
      cases hf
      exact hput ⟨index, p.bytes, hcall, ha⟩
    rw [hnone]
    exact h.kept (perform_settled cfg host credential env a call hlive fun index bytes e ha => hput
      ⟨index, bytes, e, ha⟩)

/-- **One event.** -/
theorem drafted_next (hid : Js.isUploadId u = true)
    (hgen : Genuine host.sha256Hex s.sent s.server.media)
    (h : Drafted u d s.server) {e : Event} (he : e.clean) :
    Drafted u (s.draft host u d e) (s.next host e).server := by
  cases e with
  | stop act n cfg =>
    have hn : n = 0 := he
    subst hn
    exact h
  | run act =>
    show Drafted u (s.draft host u d (.run act)) (s.act host act).server
    unfold State.draft
    simp only
    cases hlive : s.server.db.uploadSessions.find u with
    | none => exact fun _ => realizes_empty (parts_next hgen hlive act)
    | some t =>
      simp only
      have hquiet : s.sends host act = [] →
          (s.server.upload u).Kept ((s.act host act).server.upload u) →
          Drafted u (((s.sends host act).filter fun p => decide (p.uploadId = u)).foldl
            (fun d p => d.offer t.declaredSize p.index p.bytes) d) (s.act host act).server :=
              fun hsends hkept => by
        rw [hsends]
        exact h.kept hkept
      cases act with
      | handle id env =>
        rcases handled_cases host s id env with ⟨w, a, call, hh, -, hs, -⟩ | ⟨hh, hs⟩
        · rw [sends_eq, hh, hs]
          exact perform_drafted hid hlive h s.cfg host w.credential env a call
        · exact hquiet (by rw [sends_eq, hh]; rfl) (.inr (by rw [hs]))
      | arrive id req => exact hquiet rfl (.inr rfl)
      | drop id => exact hquiet rfl (.inr rfl)
      | admin authorization route env =>
        refine hquiet rfl ?_
        rw [act_admin]
        exact handleAdmin_kept s.cfg host env authorization route
      | reclaim policy nowMs =>
        refine hquiet rfl (.inr ?_)
        show ((s.work host (.reclaim policy nowMs) s.server).state).upload u = _
        rw [State.work, Prog.state_bind_pure]
        exact (reclaimSweep_others policy nowMs s.server).1
      | reap ttlMs nowMs =>
        refine hquiet rfl ?_
        show (s.server.upload u).Kept ((s.work host (.reap ttlMs nowMs) s.server).state.upload u)
        rw [State.work, Prog.state_bind_pure]
        exact (reapUploadSessions_kept ttlMs nowMs).state (.inr rfl)
      | close a sub => exact hquiet rfl (.inr rfl)
      | heartbeat a sub =>
        refine hquiet rfl (.inr ?_)
        show (s.server.heartbeat s.cfg a sub).upload u = s.server.upload u
        rw [heartbeat_hub]
        rfl

end Step

/-- **A whole run.** -/
theorem drafted_run (host : Host) {u : String} (hid : Js.isUploadId u = true) :
    ∀ (es : List Event) {s : State} {d : Draft},
    (∀ e ∈ es, e.clean) → Genuine host.sha256Hex s.sent s.server.media → Drafted u d s.server →
      Drafted u (draftFrom host u s d es) (run (State.next host) s es).server
  | [], _, _, _, _, h => h
  | e :: es, s, _, hclean, hgen, h =>
    drafted_run host hid es (fun f hf => hclean f (List.mem_cons_of_mem _ hf))
      (genuine_next host s e hgen)
      (drafted_next hid hgen h (hclean e List.mem_cons_self))

/-! ## The requests of the owner -/

/-- The account has got the blob of `bytes`; other rows and files are as before. -/
structure Stored (host : Host) (t : UploadSession) (bytes : Bytes) (v w : Server) : Prop where
  row : ∃ seq now, w.db.blobs.find (t.accountId, t.blobHash) =
    some (.fresh t.accountId t.blobHash bytes.length seq now)
  rows : ∀ k, k ≠ (t.accountId, t.blobHash) → w.db.blobs.find k = v.db.blobs.find k
  stored : ∃ b, w.disk (.blob t.blobHash) = some b ∧ host.sha256Hex b = t.blobHash ∧
    (Function.Injective host.sha256Hex → b = bytes)
  files : ∀ h, h ≠ t.blobHash → w.disk (.blob h) = v.disk (.blob h)

/-- What requests for the upload `u` with the session `t` come to, where its
draft is `d`. -/
structure Reassembles (host : Host) (cfg : Config) (v : Server) (u : String) (t : UploadSession)
    (d : Draft) : Prop where
  /-- the status lists the draft -/
  status : ∀ credential env, perform cfg host credential env t.accountId (.uploadStatus u) v =
    ⟨.ok (.json 200 ([("uploadId", .str u), ("blobHash", .str t.blobHash),
      ("declaredSize", .nat t.declaredSize)] ++
      draftJson d)), v, []⟩
  /-- a part is taken exactly if the draft then fits -/
  part : ∀ credential env index i bytes, (Js.JsNumber.ofString index).asNatural = some i →
    if d.sizeWith i bytes.length ≤ t.declaredSize then
      (perform cfg host credential env t.accountId (.putPart u index bytes) v).result =
        .ok (.json 200 (draftJson (d.put i bytes)))
    else perform cfg host credential env t.accountId (.putPart u index bytes) v =
      ⟨.error (.error 400 "parts exceed declared blob size"), v, []⟩
  /-- a finalize ends the upload, and stores the draft exactly if it hashes to its address -/
  finalize : ∀ credential env, getBlob t.accountId t.blobHash v.db = none →
    makeQuotaGate cfg.quotas = none →
    d.content.length ≤ cfg.maxBlobSize →
    Over u v (perform cfg host credential env t.accountId (.finalize u) v).state ∧
    if host.sha256Hex d.content = t.blobHash then
      (perform cfg host credential env t.accountId (.finalize u) v).result =
        .ok (storedAnswer t d.content.length) ∧
        Stored host t d.content v
          (perform cfg host credential env t.accountId (.finalize u) v).state
    else
      (perform cfg host credential env t.accountId (.finalize u) v).result =
          .error (hashMismatch t.blobHash (host.sha256Hex d.content)) ∧
        (perform cfg host credential env t.accountId (.finalize u) v).state.db.blobs = v.db.blobs ∧
        ∀ h, (perform cfg host credential env t.accountId (.finalize u) v).state.disk
          (.blob h) = v.disk (.blob h)
  /-- requests for other uploads leave it alone -/
  others : ∀ credential env a call x, call.upload = some x → x ≠ u →
    (perform cfg host credential env a call v).state.upload u = v.upload u

section Owner
variable {host : Host} {sent : List SentPart} {v : Server} {u : String}
  {t : UploadSession} {d : Draft}

theorem stored_close (hgen : Genuine host.sha256Hex sent v.media)
    (hsha : host.sha256Hex d.content = t.blobHash) (now : String) :
    Stored host t d.content v
      (((v.store t.blobHash d.content).insert t.accountId t.blobHash d.content.length now).close
        t.accountId u) := by
  obtain ⟨hfile, hfiles⟩ := store_blob t.blobHash d.content v
  have hdb : (v.store t.blobHash d.content).db = v.db := store_db _ _ _
  constructor
  · refine ⟨latestSeq (v.store t.blobHash d.content).db t.accountId + 1, now, ?_⟩
    exact Table.find_upsert_self ((v.store t.blobHash d.content).db.bump t.accountId).blobs _
  · intro k hk
    refine (Table.find_upsert
      ((v.store t.blobHash d.content).db.bump t.accountId).blobs _ k).trans ?_
    refine (if_neg (Ne.symm hk)).trans ?_
    show (v.store t.blobHash d.content).db.blobs.find k = _
    rw [hdb]
  · refine ⟨(v.disk (.blob t.blobHash)).getD d.content, hfile, ?_⟩
    have haddress : host.sha256Hex ((v.disk (.blob t.blobHash)).getD d.content) = t.blobHash := by
      cases hb : v.disk (.blob t.blobHash) with
      | none => exact hsha
      | some b => exact hgen.addressed _ b hb
    exact ⟨haddress, fun hinj => hinj (haddress.trans hsha.symm)⟩
  · exact hfiles

theorem reassembles_of (cfg : Config) (hid : Js.isUploadId u = true)
    (hgen : Genuine host.sha256Hex sent v.media)
    (hlive : v.db.uploadSessions.find u = some t) (h : (v.upload u).Realizes d) :
    Reassembles host cfg v u t d where
  status _ _ := uploadStatus_draft hlive h
  part _ env index i bytes hi := by
    have hrun := putPart_draft hid hlive h env hi bytes
    split at hrun
    · rename_i hfits
      rw [if_pos hfits]
      exact hrun.1
    · rename_i hfits
      rw [if_neg hfits]
      exact hrun
  finalize _ env hnew hgate hsize := by
    have hrun := finalize_draft cfg host env hid hlive
      (hgen.sessionHash t (Table.find_mem hlive)) h hnew hgate hsize
    show Over u v (finalize cfg host env t.accountId u v).state ∧ _
    by_cases hsha : host.sha256Hex d.content = t.blobHash
    · rw [if_pos hsha] at hrun ⊢
      refine ⟨?_, hrun.1, ?_⟩
      · rw [hrun.2]
        have hlive' : ((v.store t.blobHash d.content).insert t.accountId t.blobHash d.content.length
            (env.clock 0)).db.uploadSessions.find u = some t := by
          show (v.store t.blobHash d.content).db.uploadSessions.find u = some t
          rw [store_db]
          exact hlive
        have hover := close_over hlive'
        exact { hover with
          others := fun x hx => (hover.others x hx).trans (store_insert_upload _ _ _ _ _ _) }
      · show Stored host t d.content v (finalize cfg host env t.accountId u v).state
        rw [hrun.2]
        exact stored_close hgen hsha _
    · rw [if_neg hsha] at hrun ⊢
      refine ⟨?_, hrun.1, ?_⟩
      · rw [hrun.2]
        exact close_over hlive
      · show (finalize cfg host env t.accountId u v).state.db.blobs = _ ∧
          ∀ h, (finalize cfg host env t.accountId u v).state.disk (.blob h) = _
        rw [hrun.2]
        exact ⟨rfl, fun h => rfl⟩
  others credential env a call x hcall hx := (perform_others cfg host credential env a hcall hx v).1

end Owner

/-- **Uploads are reassembled.** After any run without a crash, with any
requests in between, and for every live upload session with an id as Node draws
them: the status lists the latest accepted body of each index; a part is taken
exactly if the draft with it fits the declared size, and else changes nothing;
a finalize of a blob the account does not have, within the size limit and
without quotas, stores the draft in index order and inserts the row exactly if
it hashes to the declared address, and ends the upload in either case; and
requests for other uploads leave this one alone. -/
theorem uploads_reassemble (host : Host) (cfg : Config) (es : List Event)
    (hclean : ∀ e ∈ es, e.clean) {u : String}
    (hid : Js.isUploadId u = true) {t : UploadSession}
    (hlive : (State.after host cfg es).server.db.uploadSessions.find u = some t) :
    Reassembles host (State.after host cfg es).cfg (State.after host cfg es).server u t
      (draftAfter host cfg u es) := by
  have hstart : Drafted u .empty (State.init cfg).server := fun h => absurd rfl h
  have hdrafted := drafted_run host hid es hclean genuine_empty hstart
  exact reassembles_of _ hid (genuine_after host cfg es) hlive (hdrafted (by
    show (State.after host cfg es).server.db.uploadSessions.find u ≠ none
    rw [hlive]
    simp))

/-- The part that is sent twice is listed with its second body, and the upload
beside it is still empty. -/
theorem uploads_reassemble_crowd :
    let s := State.after sampleHost sampleConfig (crowd.map .run)
    (draftAfter sampleHost sampleConfig "u1" (crowd.map .run)).bodies = [(0, [1, 2, 3, 4, 5])] ∧
      (draftAfter sampleHost sampleConfig "u2" (crowd.map .run)).bodies = [] ∧
      ∃ t, s.server.db.uploadSessions.find "u1" = some t ∧
        Reassembles sampleHost s.cfg s.server "u1" t
          (draftAfter sampleHost sampleConfig "u1" (crowd.map .run)) := by
  intro s
  have hclean : ∀ e ∈ crowd.map Event.run, e.clean := fun e he => by
    obtain ⟨act, -, rfl⟩ := List.mem_map.1 he
    trivial
  have hlive : (s.server.db.uploadSessions.find "u1").isSome := by decide +kernel
  obtain ⟨t, ht⟩ := Option.isSome_iff_exists.1 hlive
  exact ⟨by decide +kernel, by decide +kernel, t, ht,
    uploads_reassemble sampleHost sampleConfig (crowd.map .run) hclean (by decide +kernel) ht⟩

end GlanceVault.L4
