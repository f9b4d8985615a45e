import GlanceVault.L2Storage.Drafts
import GlanceVault.L3Http.MediaRoutes
/-!
# The handlers of an upload and its draft

A request for one upload leaves the others alone, whatever it ends with. A
request for the upload itself acts on the draft the upload stands for: a part
is offered to it, the status lists it, and a finalize stores its content if
that hashes to the declared address.

* `perform_others`: requests for other uploads.
* `perform_settled`: any other request keeps the upload, or ends it.
* `putPart_draft`, `uploadStatus_draft`, `finalize_draft`: the requests of the
  session's owner.
-/
namespace GlanceVault.L3
open GlanceVault.Core GlanceVault.L1 GlanceVault.L1.Js GlanceVault.L2

/-- The upload a call names. -/
def Call.upload : Call → Option String
  | .uploadStatus u => some u
  | .putPart u _ _ => some u
  | .finalize u => some u
  | .cancel u => some u
  | _ => none

def Server.upload (u : String) (s : Server) : Upload := s.media.upload u

/-! ## Requests for other uploads -/

section Others
variable {u v : String}

theorem upload_files {s : Server} {d : Disk} (h : ∀ i, d (.part u i) = s.disk (.part u i)) :
    Server.upload u { s with disk := d } = s.upload u := upload_rows rfl h

theorem upload_db {s : Server} {db : Db} (h : db.uploadRows u = s.db.uploadRows u) :
    Server.upload u { s with db := db } = s.upload u := upload_rows h fun _ => rfl

/-- A file that is no part of the upload. -/
theorem file_others {f : Disk → Disk} (h : ∀ d i, f d (.part u i) = d (.part u i)) :
    Prog.Keeps (Server.upload u) (file f) := file_keeps fun s => upload_files (h s.disk)

theorem upload_ignores {area : Area} (ha : area.plain = true) : Ignores (Server.upload u) area :=
  (media_ignores ha).map (Media.upload · u)

theorem upload_ignores_blobs : Ignores (Server.upload u) .blobs := fun s db e => by
  have hrows : db.outsideBlobs.uploadRows u = s.db.outsideBlobs.uploadRows u := by rw [e]
  exact upload_db hrows

theorem discardSession_others (h : v ≠ u) : Prog.Keeps (Server.upload u) (discardSession v) :=
  .bind (assert_keeps _) fun _ => file_others fun d i => by
    rw [Disk.removeSession_part, if_neg (Ne.symm h)]

theorem discardUploadSession_others (h : v ≠ u) (a : String) :
    Prog.Keeps (Server.upload u) (discardUploadSession a v) := by
  unfold discardUploadSession
  refine .bind (readDb_keeps _) fun session => ?_
  cases session with
  | none => exact .pure _
  | some s =>
    refine .bind (discardSession_others h) fun _ =>
      exec_keeps (.write fun db => ?_) fun _ _ h => upload_db h
    refine dropSessions_rows fun t ht => ?_
    rw [Table.find_key ht]
    simp [Ne.symm h]

theorem writePart_others (h : v ≠ u) (i : Nat) (bytes : Bytes) :
    Prog.Keeps (Server.upload u) (writePart v i bytes) := by
  refine .bind (assert_keeps _) fun _ => .bind (file_others fun d j => ?_) fun _ =>
    file_others fun d j => ?_
  · exact Disk.write_other d (by simp) _
  · exact Disk.rename_other d (by simp) (by simp [Ne.symm h])

theorem put_others (hash : String) (bytes : Bytes) :
    Prog.Keeps (Server.upload u) (put hash bytes) := by
  unfold put
  refine .bind (assert_keeps _) fun _ => .bind (.get _) fun present => .ite (.pure _) ?_
  exact .bind (file_others fun d i => Disk.write_other d (by simp) _) fun _ =>
    file_others fun d i => Disk.rename_other d (by simp) (by simp)

/-- The session a handler finds is the one it was asked for. -/
theorem found_session {π : Server → Upload} {β : Type} {a v : String} {db : Db} {e : Abort}
    {f : UploadSession → Handler β}
    (h : ∀ t, getUploadSession a v db = some t → t.uploadId = v → Prog.Keeps π (f t)) :
    Prog.Keeps π (Prog.found (getUploadSession a v db) e >>= f) := by
  cases hf : getUploadSession a v db with
  | none => exact .raise e
  | some t => exact h t hf (Table.find_key (getUploadSession_some.1 hf).1)

theorem putPart_others (h : v ≠ u) (env : Env) (a index : String) (bytes : Bytes) :
    Prog.Keeps (Server.upload u) (putPart env a v index bytes) := by
  refine .read fun s => found_session fun t _ ht => .bind (.found _ _) fun i =>
    .bind (readDb_keeps _) fun parts => ?_
  rw [ht]
  refine .bind (.require _ _) fun _ => .bind ?_ fun _ => .bind (readDb_keeps _) fun _ => .pure _
  refine .bind (readDb_keeps _) fun _ => .bind (.require _ _) fun _ =>
    .bind (writePart_others h i bytes) fun _ => ?_
  exact exec_keeps (recordUploadPart_rows h a i bytes.length _) fun _ _ h => upload_db h

theorem storeUpload_others {t : UploadSession} (h : t.uploadId ≠ u) (cfg : Config) (host : Host)
    (env : Env) (a : String) :
    Prog.Keeps (Server.upload u) (storeUpload cfg host env a t) := by
  unfold storeUpload
  refine .bind (assembleUpload_frame a _) fun bytes => .bind (.require _ _) fun _ => .ite ?_ ?_
  · exact .bind (discardUploadSession_others h a) fun _ => .raise _
  refine .bind ?_ fun _ => .bind (put_others _ _) fun _ => ?_
  · unfold finalizeGate
    cases makeQuotaGate cfg.quotas with
    | none => exact .pure _
    | some gate =>
      refine .bind (readDb_keeps _) fun rejected => ?_
      cases rejected with
      | none => exact .pure _
      | some v => exact .bind (discardUploadSession_others h a) fun _ => .raise _
  · refine .bind
      (exec_keeps (insertBlobIfAbsent_frame a t.blobHash _ _) upload_ignores_blobs) fun _ => ?_
    exact .bind (discardUploadSession_others h a) fun _ => .pure _

theorem finalize_others (h : v ≠ u) (cfg : Config) (host : Host) (env : Env) (a : String) :
    Prog.Keeps (Server.upload u) (finalize cfg host env a v) := by
  refine .read fun s => found_session fun t _ ht => .bind (readDb_keeps _) fun owned => ?_
  rw [← ht] at h
  cases owned with
  | some b => exact .bind (discardUploadSession_others h a) fun _ => .pure _
  | none => exact storeUpload_others h cfg host env a

theorem cancel_others (h : v ≠ u) (a : String) : Prog.Keeps (Server.upload u) (cancel a v) :=
  .read fun _ => found_session fun _ _ ht =>
    .bind (discardUploadSession_others (ht ▸ h) a) fun _ => .pure _

/-- **A request for one upload leaves the others alone.** -/
theorem perform_others (cfg : Config) (host : Host) (credential : Option Credential) (env : Env)
    (a : String) {call : Call}
    (hcall : call.upload = some v) (h : v ≠ u) :
    Prog.Keeps (Server.upload u) (perform cfg host credential env a call) := by
  cases call with
  | uploadStatus w =>
    exact .bind (readDb_keeps _) fun _ => .bind (.found _ _) fun _ =>
      .bind (readDb_keeps _) fun _ => .pure _
  | putPart w index bytes => cases hcall; exact putPart_others h env a index bytes
  | finalize w => cases hcall; exact finalize_others h cfg host env a
  | cancel w => cases hcall; exact cancel_others h a
  | _ => cases hcall

end Others

/-! ## Requests that may end an upload -/

/-- The upload `up` of `u` is kept, or ended. -/
abbrev Settles (u : String) (up : Upload) {α : Type} (m : Handler α) : Prop :=
  Prog.Lands (fun s => up.Kept (s.upload u)) m (fun _ s => up.Kept (s.upload u)) fun s =>
    up.Kept (s.upload u)

section Kept
variable {u : String} {up : Upload}

theorem kept_keeps {α : Type} {m : Handler α} (h : Prog.Keeps (Server.upload u) m) :
    Settles u up m :=
  h.lands up.Kept

/-- Sessions are dropped, with their parts. -/
theorem drop_kept {s : Server} (h : up.Kept (s.upload u)) {db : Db} (p : UploadSession → Bool)
    (hs : db.uploadSessions = (s.db.dropSessions p).uploadSessions)
    (hp : db.uploadParts = (s.db.dropSessions p).uploadParts) :
    up.Kept (Server.upload u { s with db := db }) := by
  have hrows : db.uploadRows u = (s.db.dropSessions p).uploadRows u := by
    unfold Db.uploadRows
    rw [hs, hp]
  rcases dropSessions_settles s.db p with hgone | hsame
  · exact .inl ((congrArg (·.find u) hs).trans hgone)
  · rw [upload_db (hrows.trans hsame)]
    exact h

theorem discardUploadSession_kept (a v : String) : Settles u up (discardUploadSession a v) := by
  by_cases hv : v = u
  swap
  · exact kept_keeps (discardUploadSession_others hv a)
  subst hv
  unfold discardUploadSession
  refine Prog.Triple.bind (Q := fun o s => up.Kept (s.upload v) ∧ getUploadSession a v s.db = o)
    (.get fun s hs => ⟨hs, rfl⟩) fun o => ?_
  cases o with
  | none => exact .pure fun s hs => hs.1
  | some t =>
    -- the files are gone before the row is
    refine Prog.Triple.bind (Q := fun _ s => getUploadSession a v s.db = some t) ?_ fun _ => ?_
    · refine Prog.Triple.bind (Q := fun _ s => getUploadSession a v s.db = some t)
        (assert_triple (fun _ s hs => hs.2) fun s hs => hs.1) fun _ =>
          file_triple fun s hs => ⟨trivial, hs⟩
    · refine exec_commits fun s hs =>
        ⟨(), _, Tx.eval_write _ _, .inl (dropSessions_gone fun x hx => ?_)⟩
      obtain ⟨hf, ha⟩ := getUploadSession_some.1 hs
      rw [hf] at hx
      cases hx
      rw [Table.find_key hf, ha]
      simp

theorem storeUpload_kept (cfg : Config) (host : Host) (env : Env) (a : String) (t : UploadSession) :
    Settles u up (storeUpload cfg host env a t) := by
  unfold storeUpload
  refine .bind (kept_keeps (assembleUpload_frame a _)) fun bytes =>
    .bind (kept_keeps (.require _ _)) fun _ => .ite (fun _ => ?_) fun _ => ?_
  · exact .bind (discardUploadSession_kept a _) fun _ => .raise fun _ hs => hs
  refine .bind ?_ fun _ => .bind (kept_keeps (put_others _ _)) fun _ => ?_
  · unfold finalizeGate
    cases makeQuotaGate cfg.quotas with
    | none => exact .pure fun _ hs => hs
    | some gate =>
      refine .bind (kept_keeps (readDb_keeps _)) fun rejected => ?_
      cases rejected with
      | none => exact .pure fun _ hs => hs
      | some v => exact .bind (discardUploadSession_kept a _) fun _ => .raise fun _ hs => hs
  · refine .bind
      (kept_keeps
        (exec_keeps (insertBlobIfAbsent_frame a t.blobHash _ _) upload_ignores_blobs)) fun _ => ?_
    exact .bind (discardUploadSession_kept a _) fun _ => .pure fun _ hs => hs

theorem finalize_kept (cfg : Config) (host : Host) (env : Env) (a v : String) :
    Settles u up (finalize cfg host env a v) := by
  unfold finalize
  refine .bind (kept_keeps (readDb_keeps _)) fun o => .bind (kept_keeps (.found _ _)) fun t => ?_
  refine .bind (kept_keeps (readDb_keeps _)) fun owned => ?_
  cases owned with
  | some b => exact .bind (discardUploadSession_kept a _) fun _ => .pure fun _ hs => hs
  | none => exact storeUpload_kept cfg host env a t

theorem cancel_kept (a v : String) : Settles u up (cancel a v) := by
  unfold cancel
  refine .bind (kept_keeps (readDb_keeps _)) fun o => .bind (kept_keeps (.found _ _)) fun t => ?_
  exact .bind (discardUploadSession_kept a _) fun _ => .pure fun _ hs => hs

/-- A session that is live is not opened again. -/
theorem initiate_live (cfg : Config) (env : Env) (a h : String) (size : Nat) {t : UploadSession}
    (ht : up.session = some t) :
    Prog.Lands (fun s => s.upload u = up) (initiate cfg env a h size)
      (fun _ s => s.upload u = up) fun s => s.upload u = up := by
  unfold initiate
  refine .bind ((readDb_keeps _).lands (· = up)) fun owned => ?_
  cases owned with
  | some b => exact .pure fun _ hs => hs
  | none =>
    refine .bind ((gated_keeps cfg _).lands (· = up)) fun _ => ?_
    refine Prog.Triple.bind (Q := fun _ s => s.upload u = up)
      (exec_triple (fun s o db hs e => ⟨trivial, ?_⟩) fun _ hs => hs)
      fun _ => .pure fun _ hs => hs
    by_cases hu : env.uuid = u
    · have hlive : s.db.uploadSessions.find u = some t := (congrArg Upload.session hs).trans ht
      rw [createUploadSession_eval, hu, if_pos (Table.has_iff.2 ⟨t, Table.find_some.1 hlive⟩)] at e
      cases e
    · rw [upload_db (createUploadSession_rows hu a h size _ s.db o db e)]
      exact hs

/-- **Any request keeps an upload that is live, or ends it**, unless its owner
sends a part. -/
theorem perform_settled (cfg : Config) (host : Host) (credential : Option Credential) (env : Env)
    (a : String) (call : Call)
    {s : Server} {t : UploadSession} (hlive : s.db.uploadSessions.find u = some t)
    (hcall : ∀ index bytes, call = .putPart u index bytes → t.accountId ≠ a) :
    (s.upload u).Kept ((perform cfg host credential env a call s).state.upload u) := by
  have hkeep : Prog.Keeps (Server.upload u) (perform cfg host credential env a call) →
      (s.upload u).Kept ((perform cfg host credential env a call s).state.upload u) := fun h =>
        .inr (h s).1
  have hframe : (∀ area ∈ call.writes, area.plain = true) →
      (s.upload u).Kept ((perform cfg host credential env a call s).state.upload u) := fun hw =>
    hkeep (perform_frame (fun _ _ _ _ _ => rfl) cfg host credential env a call fun area h =>
      upload_ignores (hw area h))
  cases call with
  | initiate h valid size =>
    exact .inr
      ((initiate_live cfg env a h size (show (s.upload u).session = some t from hlive)).state rfl)
  | putPart v index bytes =>
    by_cases hv : v = u
    · subst hv
      have hnone : getUploadSession a v s.db = none := by
        unfold getUploadSession
        rw [hlive]
        simp [Option.filter, hcall index bytes rfl]
      right
      show ((putPart env a v index bytes s).state).upload v = _
      unfold putPart readDb
      rw [Prog.get_bind, hnone]
      rfl
    · exact hkeep (putPart_others hv env a index bytes)
  | finalize v => exact (finalize_kept cfg host env a v).state (.inr rfl)
  | cancel v => exact (cancel_kept a v).state (.inr rfl)
  | refAdd h => exact .inr (congrArg (Media.upload · u) ((refAdd_media env a h) s).1)
  | refRelease h => exact .inr (congrArg (Media.upload · u) ((refRelease_media env a h) s).1)
  | _ => exact hframe (by simp [Call.writes, Area.plain])

/-! ## Administration and sweeps -/

theorem deleteBytes_others (h : String) : Prog.Keeps (Server.upload u) (deleteBytes h) :=
  .bind (assert_keeps _) fun _ => file_others fun d i => Disk.remove_other d (by simp)

/-- The account's sessions are dropped before their files. -/
theorem deleteAccountRoute_kept (a : String) (body : Body) :
    Settles u up (deleteAccountRoute a body) := by
  unfold deleteAccountRoute
  refine .bind (kept_keeps (.ofExcept _)) fun body =>
    .bind (kept_keeps (.ofExcept _)) fun confirm => .bind (kept_keeps (.require _ _)) fun _ => ?_
  let Over : List String → Upload → Prop := fun ids x => ∀ v ∈ ids, v = u → x.session = none
  refine Prog.Triple.bind (Q := fun r s => up.Kept (s.upload u) ∧ ∀ x, r = some x →
    Over x.uploadIds (s.upload u))
    (exec_triple (fun s r db hs e => ⟨trivial, ?_⟩) fun _ hs => hs) fun r? => ?_
  · rw [deleteAccount_eval] at e
    cases hf : s.db.accounts.find a with
    | none => rw [hf] at e; cases e; exact ⟨hs, fun x hx => nomatch hx⟩
    | some record =>
      rw [hf] at e
      cases e
      refine ⟨drop_kept hs (fun r => decide (r.accountId = a)) rfl rfl, fun x hx v hv e => ?_⟩
      cases hx
      obtain ⟨t, ht, rfl⟩ := List.mem_map.1 hv
      obtain ⟨ht, hta⟩ := List.mem_filter.1 ht
      show (s.db.dropSessions fun r => decide (r.accountId = a)).uploadSessions.find u = none
      refine dropSessions_gone fun x hx => ?_
      rw [Table.eq_of_mem (Table.find_mem hx) ht ((Table.find_key hx).trans e.symm)]
      exact hta
  · refine Prog.Triple.bind (Q := fun r s => up.Kept (s.upload u) ∧ Over r.uploadIds (s.upload u))
      (.found (fun r e s hs => ⟨hs.1, hs.2 r e⟩) fun _ hs => hs.1) fun r => ?_
    have hI : ∀ {α : Type} {m : Handler α}, Prog.Keeps (Server.upload u) m →
        Prog.Lands (fun s => up.Kept (s.upload u) ∧ Over r.uploadIds (s.upload u)) m
          (fun _ s => up.Kept (s.upload u) ∧ Over r.uploadIds (s.upload u)) fun s =>
            up.Kept (s.upload u) := fun h =>
      (h.lands fun x => up.Kept x ∧ Over r.uploadIds x).abort fun _ => And.left
    refine .bind (hI (.each (fun id => onRevoked_frame (fun _ _ _ _ _ => rfl) id) _)) fun _ => ?_
    refine .bind ?_ fun _ => .bind (hI (.each deleteBytes_others _)) fun _ => .pure fun _ hs => hs.1
    refine Prog.Triple.each (I := fun _ (s : Server) => up.Kept (s.upload u) ∧
      Over r.uploadIds (s.upload u)) fun done v rest e => ?_
    by_cases hv : v = u
    · refine .bind (hI (assert_keeps _)) fun _ => file_triple fun s hs => ⟨trivial, ?_⟩
      have hgone : (s.upload u).session = none := hs.2 v (by rw [e]; simp) hv
      exact ⟨.inl hgone, fun _ _ _ => hgone⟩
    · exact hI (discardSession_others hv)

theorem handleAdmin_kept (cfg : Config) (host : Host) (env : Env) (header : Option String)
    (route : AdminRoute) {s : Server} :
    (s.upload u).Kept ((handleAdmin cfg host env header route s).state.upload u) := by
  have hframe : (∀ a body, route ≠ .deleteAccount a body) →
      (s.upload u).Kept ((handleAdmin cfg host env header route s).state.upload u) := fun h =>
    .inr (handleAdmin_frame (fun _ _ _ _ _ => rfl) (upload_ignores rfl) cfg host env header h s).1
  cases route with
  | deleteAccount a body =>
    have hland :
        Settles u (s.upload u) (handleAdmin cfg host env header (.deleteAccount a body)) := by
      unfold handleAdmin
      refine .ite
        (fun _ => .bind (kept_keeps (.ofExcept _)) fun _ => deleteAccountRoute_kept a body)
        fun _ => ?_
      exact .bind (kept_keeps (.ofExcept _)) fun _ => kept_keeps (unmounted_frame cfg host header)
    exact hland.state (.inr rfl)
  | _ => exact hframe nofun

theorem reapSession_others {t : UploadSession} (h : t.uploadId ≠ u) :
    Prog.Keeps (Server.upload u) (reapSession t) := by
  refine .bind (discardSession_others h) fun _ =>
    exec_keeps (.write fun db => ?_) fun _ _ h => upload_db h
  refine dropSessions_rows fun x hx => ?_
  rw [Table.find_key hx]
  simp [Ne.symm h]

theorem reapUploadSessions_kept (ttlMs nowMs : Int) :
    Settles u up (reapUploadSessions ttlMs nowMs) := by
  unfold reapUploadSessions
  refine .bind (kept_keeps (.ofExcept _)) fun cutoff =>
    .bind (kept_keeps (readDb_keeps _)) fun stale => ?_
  refine .bind
    (Prog.Triple.each (I := fun _ s => up.Kept (Server.upload u s))
      fun done t rest _ => ?_) fun _ =>
    .pure fun _ hs => hs
  by_cases ht : t.uploadId = u
  · refine Prog.Triple.bind (Q := fun _ _ => True) ?_ fun _ => ?_
    · exact .bind (kept_keeps (assert_keeps _)) fun _ => file_triple fun _ _ => ⟨trivial, trivial⟩
    · refine exec_commits fun s _ =>
        ⟨(), _, Tx.eval_write _ _, .inl (dropSessions_gone fun x hx => ?_)⟩
      rw [Table.find_key hx, ht]
      simp
  · exact kept_keeps (reapSession_others ht)

theorem reclaimSweep_others (policy : ReclaimPolicy) (nowMs : Int) :
    Prog.Keeps (Server.upload u) (reclaimSweep policy nowMs) := by
  unfold reclaimSweep
  refine .ite (.bind (.ofExcept _) fun g => .bind (.ofExcept _) fun d => .bind
    (readDb_keeps _) fun E => ?_) (.pure _)
  refine .bind (.each (fun b => .bind (deleteBytes_others _) fun _ => ?_) E) fun _ => .pure _
  exact .bind (exec_keeps (deleteBlob_frame b.accountId b.blobHash) upload_ignores_blobs) fun _ =>
    .pure _

end Kept

/-! ## The owner's requests -/

/-- What a draft looks like to a client. -/
def draftJson (d : Draft) : List (String × Json) :=
  [("received", .arr (d.bodies.map fun p => .obj [("index", .nat p.1), ("size", .nat p.2.length)])),
    ("receivedBytes", .nat d.content.length)]

section Owner
variable {u : String} {d : Draft} {s : Server} {t : UploadSession}

theorem session_own (hlive : s.db.uploadSessions.find u = some t) :
    getUploadSession t.accountId u s.db = some t :=
  getUploadSession_some.2 ⟨hlive, rfl⟩

theorem listed_draft (hlive : s.db.uploadSessions.find u = some t) (h : (s.upload u).Realizes d) :
    receivedJson (listUploadParts t.accountId u s.db) = draftJson d := by
  have hlist : listUploadParts t.accountId u s.db = s.media.listed u :=
    listUploadParts_eq s.disk (session_own hlive)
  have hentries :=
    congrArg (List.map fun p : Nat × Nat => Json.obj [("index", .nat p.1),
      ("size", .nat p.2)]) h.rows
  rw [List.map_map, List.map_map] at hentries
  have hbytes : ((s.media.listed u).map (·.size)).sum = d.content.length := by
    rw [d.content_length]
    exact Upload.Realizes.received h
  unfold receivedJson draftJson
  rw [hlist, hbytes]
  exact congrArg (fun l => [("received", Json.arr l),
    ("receivedBytes", .nat d.content.length)]) hentries

/-- **The status lists the draft.** -/
theorem uploadStatus_draft (hlive : s.db.uploadSessions.find u = some t)
    (h : (s.upload u).Realizes d) :
    uploadStatus t.accountId u s =
      ⟨.ok (.json 200 ([("uploadId", .str u), ("blobHash", .str t.blobHash),
      ("declaredSize", .nat t.declaredSize)] ++ draftJson d)), s, []⟩ := by
  have hu : t.uploadId = u := Table.find_key hlive
  unfold uploadStatus readDb
  rw [Prog.get_bind, session_own hlive]
  simp only [Prog.found, Prog.pure_bind, Prog.get_bind, hu, listed_draft hlive h]
  rfl

/-- The size check is the draft's. -/
theorem totalWith_draft (hlive : s.db.uploadSessions.find u = some t) (h : (s.upload u).Realizes d)
    (i n : Nat) :
    totalWith (listUploadParts t.accountId u s.db) i n = d.sizeWith i n := by
  have hlist : listUploadParts t.accountId u s.db = s.media.listed u :=
    listUploadParts_eq s.disk (session_own hlive)
  unfold totalWith
  rw [hlist, d.sizeWith_eq]
  exact congrArg₂ (fun x y => x - y + n) (Upload.Realizes.received h) (Upload.Realizes.prior h i)

/-- The server once a part is staged. -/
def Server.stage (u : String) (i : Nat) (bytes : Bytes) (s : Server) : Server :=
  { s with disk := (s.disk.write (.partTmp u i) bytes).rename (.partTmp u i) (.part u i) }

/-- The server once it is recorded. -/
def Server.record (u : String) (i n : Nat) (now : String) (s : Server) : Server :=
  { s with db := s.db.putPart ⟨u, i, n, now⟩ }

theorem stageUploadPart_run (hid : isUploadId u = true)
    (hlive : s.db.uploadSessions.find u = some t) (i : Nat)
    (bytes : Bytes) (now : String) : stageUploadPart t.accountId u i bytes now s =
      ⟨.ok (), (s.stage u i bytes).record u i bytes.length now,
        [{ s with disk := s.disk.write (.partTmp u i) bytes },
        s.stage u i bytes, (s.stage u i bytes).record u i bytes.length now]⟩ := by
  have hassert : Disk.assertUploadId u = .ok () := if_pos hid
  have hrecord : (recordUploadPart t.accountId u i bytes.length now).eval (s.stage u i bytes).db =
      .ok ((), s.db.putPart ⟨u, i, bytes.length, now⟩) := by
    show (recordUploadPart t.accountId u i bytes.length now).eval s.db = _
    unfold recordUploadPart
    rw [Tx.eval_write, if_pos (owns_of_session (session_own hlive))]
  have hexec := exec_run hrecord
  unfold Server.stage at hexec
  unfold stageUploadPart writePart readDb
  rw [Prog.get_bind, session_own hlive, hassert]
  simp only [Option.isSome_some, Prog.require, if_true, Prog.pure_bind, assert, Prog.bind_run, file,
    Prog.step, Prog.pure_run,
    hexec]
  rfl

theorem stage_draft (h : (s.upload u).Realizes d) (i : Nat) (bytes : Bytes) (now : String) :
    (((s.stage u i bytes).record u i bytes.length now).upload u).Realizes (d.put i bytes) := by
  refine Upload.Realizes.put (m := s.media) h
    (show _ = s.media.parts.upsert ⟨u, i, bytes.length, now⟩ from rfl) ?_
    fun j hj => ?_
  · exact (Disk.rename_dst _ _ _).trans (Disk.write_self _ _ _)
  · exact (Disk.rename_other _ (by simp) (by simpa using hj)).trans (Disk.write_other _ (by simp) _)

/-- **A part is offered to the draft.** -/
theorem putPart_draft (hid : isUploadId u = true) (hlive : s.db.uploadSessions.find u = some t)
    (h : (s.upload u).Realizes d) (env : Env) {index : String} {i : Nat}
    (hi : (JsNumber.ofString index).asNatural = some i) (bytes : Bytes) :
    if d.sizeWith i bytes.length ≤ t.declaredSize then
      (putPart env t.accountId u index bytes s).result = .ok
    (.json 200 (draftJson (d.put i bytes))) ∧
        (putPart env t.accountId u index bytes s).state =
    (s.stage u i bytes).record u i bytes.length (env.clock 0)
    else putPart env t.accountId u index bytes s =
      ⟨.error (.error 400 "parts exceed declared blob size"), s, []⟩ := by
  have hu : t.uploadId = u := Table.find_key hlive
  have hcheck := totalWith_draft hlive h i bytes.length
  have hrun : putPart env t.accountId u index bytes s =
      (Prog.require (decide (d.sizeWith i bytes.length ≤ t.declaredSize))
        (.error 400 "parts exceed declared blob size") >>=
        fun _ => stageUploadPart t.accountId u i bytes (env.clock 0) >>= fun _ =>
          readDb (listUploadParts t.accountId u) >>= fun acked =>
            pure (.json 200 (receivedJson acked))) s := by
    unfold putPart readDb
    rw [Prog.get_bind, session_own hlive]
    simp only [Prog.found, Prog.pure_bind, hi, Prog.get_bind, hu, hcheck]
  rw [hrun]
  split
  · rename_i hfits
    have hlist :=
      listed_draft (s := (s.stage u i bytes).record u i bytes.length (env.clock 0)) hlive
        (stage_draft h i bytes (env.clock 0))
    rw [decide_eq_true hfits]
    simp only [Prog.require, if_true, Prog.bind_run, stageUploadPart_run hid hlive, readDb,
      Prog.get_run, Prog.pure_run,
      hlist, and_self]
  · rename_i hfits
    rw [decide_eq_false hfits]
    rfl

/-! ## Finalize -/

/-- The server once an upload is over. -/
def Server.close (a u : String) (s : Server) : Server :=
  { s with
    db := s.db.dropSessions fun x => x.uploadId = u ∧ x.accountId = a
    disk := s.disk.removeSession u }

/-- The server once bytes are stored; bytes that are there stay. -/
def Server.store (h : String) (bytes : Bytes) (s : Server) : Server :=
  if (s.disk (.blob h)).isSome then s
  else { s with disk := (s.disk.write (.blobTmp h) bytes).rename (.blobTmp h) (.blob h) }

/-- The server once a blob the account does not have gets its row. -/
def Server.insert (a h : String) (n : Nat) (now : String) (s : Server) : Server :=
  { s with db := (s.db.bump a).putBlob (.fresh a h n (latestSeq s.db a + 1) now) }

/-- The server once the files of an upload are removed. -/
def Server.unstage (u : String) (s : Server) : Server := { s with disk := s.disk.removeSession u }

theorem discardUploadSession_run (hid : isUploadId u = true)
    (hlive : s.db.uploadSessions.find u = some t) :
    discardUploadSession t.accountId u s =
      ⟨.ok (), s.close t.accountId u, [s.unstage u, s.close t.accountId u]⟩ := by
  have hassert : Disk.assertUploadId u = .ok () := if_pos hid
  unfold discardUploadSession discardSession readDb
  rw [Prog.get_bind, session_own hlive, hassert]
  rfl

theorem put_stores {h : String} (hv : isHash h = true) (bytes : Bytes) (s : Server) :
    (put h bytes s).result = .ok () ∧ (put h bytes s).state = s.store h bytes := by
  have hassert : Disk.assertHash h = .ok () := if_pos hv
  unfold put Server.store
  rw [hassert]
  cases hd : (s.disk (.blob h)).isSome <;> simp [assert, Prog.bind_run, hd, file, Prog.step]

theorem store_db (h : String) (bytes : Bytes) (s : Server) : (s.store h bytes).db = s.db := by
  unfold Server.store
  split <;> rfl

theorem insert_run {a h : String} (hnew : getBlob a h s.db = none) (n : Nat) (now : String) :
    exec (insertBlobIfAbsent a h n now) s =
      ⟨.ok (some (.fresh a h n (latestSeq s.db a + 1) now), true), s.insert a h n now,
        [s.insert a h n now]⟩ := by
  have heval : (insertBlobIfAbsent a h n now).eval s.db =
      .ok ((some (.fresh a h n (latestSeq s.db a + 1) now), true),
      (s.insert a h n now).db) := by
    rw [insertBlobIfAbsent_eval, show s.db.blobs.find (a, h) = none from hnew]
    rfl
  rw [exec_run heval]
  rfl

theorem assembleUpload_run (hid : isUploadId u = true) (hlive : s.db.uploadSessions.find u = some t)
    (hall : ∀ p ∈ s.media.listed u, (s.disk (.part u p.partIndex)).isSome) :
    assembleUpload t.accountId u s = ⟨.ok (s.media.assembled u), s, []⟩ := by
  have hlist : listUploadParts t.accountId u s.db = s.media.listed u :=
    listUploadParts_eq s.disk (session_own hlive)
  have hread : s.disk.assemble u ((s.media.listed u).map (·.partIndex)) =
      .ok (s.media.assembled u) := by
    refine Disk.assemble_ok.2 ⟨hid, fun i hi => ?_, ?_⟩
    · obtain ⟨p, hp, rfl⟩ := List.mem_map.1 hi
      exact hall p hp
    · rw [List.map_map]
      rfl
  unfold assembleUpload readDb readDisk
  rw [Prog.get_bind, session_own hlive]
  simp only [Option.isSome_some, Prog.require, if_true, Prog.pure_bind, Prog.get_bind, hlist, hread]
  rfl

theorem assembleUpload_draft (hid : isUploadId u = true)
    (hlive : s.db.uploadSessions.find u = some t)
    (h : (s.upload u).Realizes d) : assembleUpload t.accountId u s = ⟨.ok d.content, s, []⟩ := by
  obtain ⟨hall, hbytes⟩ := Upload.Realizes.assembled h
  rw [← hbytes]
  exact assembleUpload_run hid hlive hall

def storedAnswer (t : UploadSession) (n : Nat) : Response :=
  .json 200 [("blobHash", .str t.blobHash), ("size", .nat n), ("stored", .bool true)]

/-- **A finalize stores the draft if it hashes to its address**, and ends the
upload in either case. -/
theorem finalize_draft (cfg : Config) (host : Host) (env : Env) (hid : isUploadId u = true)
    (hlive : s.db.uploadSessions.find u = some t) (hhash : isHash t.blobHash = true)
    (h : (s.upload u).Realizes d)
    (hnew : getBlob t.accountId t.blobHash s.db = none) (hgate : makeQuotaGate cfg.quotas = none)
    (hsize : d.content.length ≤ cfg.maxBlobSize) :
    if host.sha256Hex d.content = t.blobHash then
      (finalize cfg host env t.accountId u s).result = .ok (storedAnswer t d.content.length) ∧
        (finalize cfg host env t.accountId u s).state =
    (((s.store t.blobHash d.content).insert t.accountId t.blobHash
          d.content.length (env.clock 0)).close t.accountId u)
    else
      (finalize cfg host env t.accountId u s).result = .error
    (hashMismatch t.blobHash (host.sha256Hex d.content)) ∧
        (finalize cfg host env t.accountId u s).state = s.close t.accountId u := by
  have hu : t.uploadId = u := Table.find_key hlive
  have hrun : finalize cfg host env t.accountId u s = storeUpload cfg host env t.accountId t s := by
    unfold finalize readDb
    rw [Prog.get_bind, session_own hlive]
    simp only [Prog.found, Prog.pure_bind, Prog.get_bind, hnew]
  rw [hrun]
  unfold storeUpload finalizeGate
  rw [hu, hgate, Prog.bind_run, assembleUpload_draft hid hlive h]
  simp only [Prog.require, decide_eq_true hsize, if_true, Prog.pure_bind]
  by_cases hsha : host.sha256Hex d.content = t.blobHash
  · rw [if_pos hsha, if_neg (not_not.2 hsha)]
    have hdb : (s.store t.blobHash d.content).db = s.db := store_db _ _ _
    obtain ⟨hput, hstored⟩ := put_stores hhash d.content s
    have hinsert := insert_run (s := s.store t.blobHash d.content) (a := t.accountId)
      (h := t.blobHash) (by rw [hdb]; exact hnew)
      d.content.length (env.clock 0)
    have hfind : (s.store t.blobHash d.content).db.uploadSessions.find u = some t := by
      rw [hdb]
      exact hlive
    have hdiscard :=
      discardUploadSession_run (s := (s.store t.blobHash d.content).insert t.accountId t.blobHash
        d.content.length (env.clock 0)) hid hfind
    let answer : Handler Response := pure (storedAnswer t d.content.length)
    have hend := Prog.bind_ok (congrArg Outcome.result hdiscard) fun _ => answer
    have hrest :=
      Prog.bind_ok (congrArg Outcome.result hinsert) fun _ =>
        discardUploadSession t.accountId u >>= fun _ => answer
    rw [congrArg Outcome.state hinsert] at hrest
    have hall :=
      Prog.bind_ok hput fun _ =>
        exec (insertBlobIfAbsent t.accountId t.blobHash d.content.length (env.clock 0)) >>=
      fun _ => discardUploadSession t.accountId u >>= fun _ => answer
    rw [hstored] at hall
    refine ⟨hall.1.trans (hrest.1.trans hend.1), hall.2.trans (hrest.2.trans (hend.2.trans ?_))⟩
    exact congrArg Outcome.state hdiscard
  · rw [if_neg hsha, if_pos hsha]
    have hdiscard := discardUploadSession_run hid hlive
    obtain ⟨h1, h2⟩ := Prog.bind_ok (congrArg Outcome.result hdiscard) fun _ =>
      (Prog.raise (hashMismatch t.blobHash (host.sha256Hex d.content)) : Handler Response)
    exact ⟨h1, h2.trans (congrArg Outcome.state hdiscard)⟩

/-! ## What is left -/

/-- An upload is over, and the others are as they were. -/
structure Over (u : String) (s w : Server) : Prop where
  session : w.db.uploadSessions.find u = none
  parts : ∀ p ∈ w.db.uploadParts.rows, p.uploadId ≠ u
  staged : ∀ p, Disk.inSession u p = true → w.disk p = none
  others : ∀ v, v ≠ u → w.upload v = s.upload v

theorem close_over (hlive : s.db.uploadSessions.find u = some t) :
    Over u s (s.close t.accountId u) := by
  have hown : ∀ x, s.db.uploadSessions.find u = some x →
      decide (x.uploadId = u ∧ x.accountId = t.accountId) = true :=
    fun x hx => by
      rw [hlive] at hx
      cases hx
      simp [Table.find_key hlive]
  constructor
  · exact dropSessions_gone hown
  · intro p hp e
    have hkept := (mem_dropSessions_parts.1 hp).2 t (by rw [e]; exact hlive)
    rw [hown t hlive] at hkept
    cases hkept
  · intro p hp
    show (if Disk.inSession u p = true then none else s.disk p) = none
    rw [if_pos hp]
  · intro v hv
    refine upload_rows (dropSessions_rows fun x hx => ?_) fun i => ?_
    · rw [Table.find_key hx]
      simp [hv]
    · exact (Disk.removeSession_part s.disk u v i).trans (if_neg hv)

theorem store_insert_upload (a h : String) (bytes : Bytes) (n : Nat) (now v : String) :
    ((s.store h bytes).insert a h n now).upload v = s.upload v := by
  unfold Server.store
  split
  · rfl
  · refine upload_rows rfl fun i => ?_
    have hpart : Path.part v i ≠ .blobTmp h ∧ Path.part v i ≠ .blob h := ⟨by simp, by simp⟩
    exact (Disk.rename_other _ hpart.1 hpart.2).trans (Disk.write_other _ hpart.1 bytes)

theorem store_blob (h : String) (bytes : Bytes) (s : Server) :
    (s.store h bytes).disk (.blob h) = some ((s.disk (.blob h)).getD bytes) ∧
      ∀ k, k ≠ h → (s.store h bytes).disk (.blob k) = s.disk (.blob k) := by
  unfold Server.store
  cases hd : s.disk (.blob h) with
  | some b => exact ⟨hd, fun _ _ => rfl⟩
  | none =>
    refine ⟨(Disk.rename_dst _ _ _).trans (Disk.write_self _ _ _), fun k hk => ?_⟩
    have hblob : Path.blob k ≠ .blobTmp h ∧ Path.blob k ≠ .blob h := ⟨by simp, by simpa using hk⟩
    exact (Disk.rename_other _ hblob.1 hblob.2).trans (Disk.write_other _ hblob.1 bytes)

end Owner

end GlanceVault.L3
