import GlanceVault.L3Http.Reassembly
/-!
# Building an upload up, and taking it down

A part is staged before it is recorded, and a removal takes the files before
the rows: both leave the rows behind the files. So a process that stops while
it stages a part leaves a file too many, and one that stops between the two
steps of a removal leaves rows whose files are gone. Only the deletion of an
account takes the rows first.

* `perform_builds`: what is kept by every step of a request that removes nothing.
* `perform_cut`, `reap_cut`: where a request and a sweep can be stopped, and
  what each stop leaves of an upload.
* `perform_anchored`, `reapUploadSessions_anchored`, `deleteAccountRoute_anchored`:
  no files are left of a session that is gone.
-/
namespace GlanceVault.L3
open GlanceVault.Core GlanceVault.L1 GlanceVault.L1.Js GlanceVault.L2

/-- Every storage step of `m` and its end keep `I` of the upload `u`. -/
abbrev Stays (u : String) (I : Upload → Prop) {α : Type} (m : Handler α) : Prop :=
  Prog.Triple (fun s => I (s.upload u)) (fun s => I (s.upload u)) m
    (fun _ s => I (s.upload u)) fun s => I (s.upload u)

section Stays
variable {u : String} {I : Upload → Prop}

theorem stays_keeps {α : Type} {m : Handler α} (h : Prog.Keeps (Server.upload u) m) : Stays u I m :=
  h.triple I

theorem stays_fetch {α : Type} (f : Db → α) : Stays u I (readDb f) := stays_keeps (readDb_keeps f)

theorem stays_found {α : Type} (o : Option α) (e : Abort) : Stays u I (Prog.found o e) :=
  stays_keeps (.found o e)

end Stays

/-! ## Building up -/

/-- What is kept of an upload that is opened, staged and recorded. -/
structure Builds (I : Upload → Prop) : Prop where
  opened : ∀ x t, I x → I { x with session := some t }
  staged : ∀ x i b, I x → x.session ≠ none →
    I { x with staged := Function.update x.staged i (some b) }
  acked : ∀ x p, I x → x.session ≠ none → (x.staged p.partIndex).isSome →
    I { x with parts := x.parts.upsert p }

theorem complete_builds : Builds Upload.Complete where
  opened x t h := h
  staged x i b h _ p hp := by
    by_cases hi : p.partIndex = i
    · subst hi
      simp
    · simp only [Function.update_of_ne hi]
      exact h p hp
  acked x p h _ hp q hq := by
    rcases Table.mem_upsert.1 hq with rfl | ⟨hq, -⟩
    · exact hp
    · exact h q hq

theorem anchored_builds : Builds Upload.Anchored where
  opened x t _ := .live (by simp)
  staged x i b _ hlive := .live hlive
  acked x p _ hlive _ := .live hlive

section Builds
variable {u : String} {I : Upload → Prop}

theorem rename_upload {s : Server} {i : Nat} {b : Bytes} (h : s.disk (.partTmp u i) = some b) :
    Server.upload u { s with disk := s.disk.rename (.partTmp u i) (.part u i) } =
      { s.upload u with staged := Function.update (s.upload u).staged i (some b) } := by
  unfold Server.upload Media.upload
  congr 1
  funext j
  by_cases hj : j = i
  · subst hj
    rw [Function.update_self]
    exact (Disk.rename_dst s.disk _ _).trans h
  · rw [Function.update_of_ne hj]
    exact Disk.rename_other s.disk (by simp) (by simpa using hj)

theorem record_upload (s : Server) (i n : Nat) (now : String) :
    (s.record u i n now).upload u =
    { s.upload u with parts := (s.upload u).parts.upsert ⟨u, i, n, now⟩ } := by
  have hk :=
    Table.keep_upsert s.db.uploadParts (fun p => decide (p.uploadId = u)) ⟨u, i, n,
      now⟩ fun x _ hx => by
    have hxu : x.uploadId = u := congrArg Prod.fst hx
    rw [hxu]
  rw [if_pos (by simp)] at hk
  unfold Server.upload Media.upload
  congr 1

theorem stageUploadPart_builds (hI : Builds I) (a v : String) (i : Nat) (bytes : Bytes)
    (now : String) :
    Stays u I (stageUploadPart a v i bytes now) := by
  by_cases hv : v = u
  swap
  · refine .bind (stays_fetch _) fun _ => .bind (stays_keeps (.require _ _)) fun _ => ?_
    refine .bind (stays_keeps (writePart_others hv i bytes)) fun _ => stays_keeps ?_
    exact exec_keeps (recordUploadPart_rows hv a i bytes.length _) fun _ _ h => upload_db h
  subst hv
  let Live : Server → Prop := fun s => I (s.upload v) ∧ (s.upload v).session ≠ none
  unfold stageUploadPart writePart
  refine Prog.Triple.bind (Q := fun o s => I (s.upload v) ∧ getUploadSession a v s.db = o)
    (.get fun s hs => ⟨hs, rfl⟩) fun o => ?_
  refine Prog.Triple.bind (Q := fun _ => Live)
    (.require (fun ho s hs => ⟨hs.1, fun hn => ?_⟩) fun s hs => hs.1) fun _ => ?_
  · obtain ⟨t, rfl⟩ := Option.isSome_iff_exists.1 ho
    exact Option.some_ne_none t ((getUploadSession_some.1 hs.2).1.symm.trans hn)
  refine Prog.Triple.bind (Q := fun _ s => Live s ∧ (s.upload v).staged i = some bytes) ?_ fun _ =>
    ?_
  · refine Prog.Triple.bind (Q := fun _ => Live)
      (assert_triple (fun _ _ hs => hs) fun _ hs => hs.1) fun _ => ?_
    refine Prog.Triple.bind (Q := fun _ s => Live s ∧ s.disk (.partTmp v i) = some bytes)
      (file_triple fun s hs => ?_)
      fun _ => file_triple fun s hs => ?_
    · have hsame :
          Server.upload v { s with disk := s.disk.write (.partTmp v i) bytes } = s.upload v :=
        upload_files fun j => Disk.write_other _ (by simp) _
      exact ⟨by rw [hsame]; exact hs.1, by simp only [Live, hsame]; exact hs, Disk.write_self _ _ _⟩
    · have hstep := rename_upload hs.2
      have hbuilt := hI.staged _ i bytes hs.1.1 hs.1.2
      exact ⟨by rw [hstep]; exact hbuilt, by simp only [Live, hstep]; exact ⟨hbuilt, hs.1.2⟩,
        by rw [hstep]; exact Function.update_self _ _ _⟩
  · refine exec_triple (fun s o db hs e => ?_) fun s hs => hs.1.1
    unfold recordUploadPart at e
    rw [Tx.eval_write] at e
    cases e
    split
    · have hstep := record_upload (u := v) s i bytes.length now
      have hbuilt := hI.acked _ ⟨v, i, bytes.length, now⟩ hs.1.1 hs.1.2 (by rw [hs.2]; rfl)
      rw [← hstep] at hbuilt
      exact ⟨hbuilt, hbuilt⟩
    · exact ⟨hs.1.1, hs.1.1⟩

theorem putPart_builds (hI : Builds I) (env : Env) (a v index : String) (bytes : Bytes) :
    Stays u I (putPart env a v index bytes) := by
  refine .bind (stays_fetch _) fun _ => .bind (stays_found _ _) fun t =>
    .bind (stays_found _ _) fun i => ?_
  refine .bind (stays_fetch _) fun parts => .bind (stays_keeps (.require _ _)) fun _ => ?_
  exact .bind (stageUploadPart_builds hI a _ i bytes _) fun _ => .bind (stays_fetch _) fun _ =>
    .pure fun _ hs => hs

theorem initiate_builds (hI : Builds I) (cfg : Config) (env : Env) (a h : String) (size : Nat) :
    Stays u I (initiate cfg env a h size) := by
  unfold initiate
  refine .bind (stays_fetch _) fun owned => ?_
  cases owned with
  | some b => exact .pure fun _ hs => hs
  | none =>
    refine .bind (stays_keeps (gated_keeps cfg _)) fun _ =>
      .bind (exec_triple (fun s o db hs e => ?_) fun _ hs => hs)
      fun _ => .pure fun _ hs => hs
    by_cases hu : env.uuid = u
    · rw [createUploadSession_eval] at e
      split at e <;> cases e
      have hopened :
          Server.upload u { s with db := s.db.putSession ⟨env.uuid, a, h, size, env.clock 0⟩ } =
          { s.upload u with session := some ⟨env.uuid, a, h, size, env.clock 0⟩ } := by
        have hfind := Table.find_upsert_self s.db.uploadSessions ⟨env.uuid, a, h, size, env.clock 0⟩
        rw [hu] at hfind
        unfold Server.upload Media.upload
        congr 1
        rw [hu]
        exact hfind
      have hbuilt := hI.opened _ ⟨env.uuid, a, h, size, env.clock 0⟩ hs
      rw [← hopened] at hbuilt
      exact ⟨hbuilt, hbuilt⟩
    · have hsame : Server.upload u { s with db := db } = s.upload u :=
        upload_db (createUploadSession_rows hu a h size _ s.db o db e)
      rw [hsame]
      exact ⟨hs, hs⟩

/-- **A request that removes no upload**, step by step. -/
theorem perform_builds (hI : Builds I) (cfg : Config) (host : Host)
    (credential : Option Credential) (env : Env) (a : String)
    {call : Call} (hcall : call ≠ .finalize u ∧ call ≠ .cancel u) :
    Stays u I (perform cfg host credential env a call) := by
  have hframe : (∀ area ∈ call.writes, area.plain = true) →
      Stays u I (perform cfg host credential env a call) := fun hw =>
    stays_keeps (perform_frame (fun _ _ _ _ _ => rfl) cfg host credential env a call fun area h =>
      upload_ignores (hw area h))
  cases call with
  | initiate h valid size => exact initiate_builds hI cfg env a h size
  | putPart v index bytes => exact putPart_builds hI env a v index bytes
  | finalize v => exact stays_keeps (finalize_others (fun e => hcall.1 (by rw [e])) cfg host env a)
  | cancel v => exact stays_keeps (cancel_others (fun e => hcall.2 (by rw [e])) a)
  | refAdd h =>
    exact stays_keeps fun s => ⟨congrArg (Media.upload · u) ((refAdd_media env a h) s).1,
      fun t ht => congrArg (Media.upload · u) (((refAdd_media env a h) s).2 t ht)⟩
  | refRelease h =>
    exact stays_keeps fun s => ⟨congrArg (Media.upload · u) ((refRelease_media env a h) s).1,
      fun t ht => congrArg (Media.upload · u) (((refRelease_media env a h) s).2 t ht)⟩
  | _ => exact hframe (by simp [Call.writes, Area.plain])

end Builds

/-! ## Taking down -/

/-- The number of storage steps after which a finalize has removed the staged
files of its upload, and not its rows. -/
def finalizeRemoves (cfg : Config) (host : Host) (v : Server) (t : UploadSession) : Option Nat :=
  let bytes := v.media.assembled t.uploadId
  if (getBlob t.accountId t.blobHash v.db).isSome then some 1
  else if cfg.maxBlobSize < bytes.length then none
  else if host.sha256Hex bytes ≠ t.blobHash then some 1
  else if ((makeQuotaGate cfg.quotas).bind fun gate =>
      admitFinalize gate t.accountId bytes.length v.db).isSome then some 1
  else if (v.disk (.blob t.blobHash)).isSome then some 2
  else some 4

/-- The same for any request of `a`, and for the upload `u`. -/
def Call.removes (cfg : Config) (host : Host) (a u : String) (v : Server) : Call → Option Nat
  | .cancel w => if w = u then (getUploadSession a w v.db).map fun _ => 1 else none
  | .finalize w =>
    if w = u then (getUploadSession a w v.db).bind (finalizeRemoves cfg host v) else none
  | _ => none

/-- What a stop of `m` after `n` steps leaves of the upload `u`: it is without
its files after `k`, and complete after any other number. -/
def Cuts (u : String) {α : Type} (m : Handler α) (s : Server) (k : Option Nat) : Prop :=
  ∀ n, if k = some n then (m.stopAfter n s).upload u = (s.upload u).gutted
    else ((m.stopAfter n s).upload u).Complete

section Cuts
variable {u : String} {s : Server} {t : UploadSession}

theorem cuts_congr {α : Type} {m m' : Handler α} {k : Option Nat} (h : m s = m' s)
    (hcut : Cuts u m' s k) : Cuts u m s k :=
  fun n => by rw [Prog.stopAfter_congr h]; exact hcut n

theorem cuts_stays {α : Type} {m : Handler α} (h : Stays u Upload.Complete m)
    (hs : (s.upload u).Complete) : Cuts u m s none :=
  fun n => by rw [if_neg (by simp)]; exact h.stopAfter hs n

/-- A request that is refused. -/
theorem cuts_refused {α : Type} {m : Handler α} {e : Abort} (hs : (s.upload u).Complete)
    (hrun : m s = ⟨.error e, s, []⟩) :
    Cuts u m s none :=
  cuts_congr (hrun.trans (Prog.raise_run e s).symm) (cuts_stays (stays_keeps (.raise e)) hs)

/-- What is not stopped leaves the upload complete. -/
theorem cuts_done {α : Type} {m : Handler α} {k : Option Nat} (h : Cuts u m s k) :
    ((m s).state.upload u).Complete := by
  have hn := h ((m s).trace.length + 1 + k.getD 0)
  have hlater : k ≠ some ((m s).trace.length + 1 + k.getD 0) := by
    cases k with
    | none => simp
    | some j => simp only [Option.getD_some, ne_eq, Option.some.injEq]; omega
  rw [Prog.stopAfter_all (by omega), if_neg hlater] at hn
  exact hn

theorem cuts_pure {α β : Type} {m : Handler α} {k : Option Nat} (g : α → β) (h : Cuts u m s k) :
    Cuts u (m >>= fun x => pure (g x)) s k := fun n => by
  rw [Prog.stopAfter_bind_pure]
  exact h n

theorem unstage_upload (u : String) (s : Server) :
    (s.unstage u).upload u = (s.upload u).gutted := by
  unfold Server.upload Media.upload Upload.gutted
  congr 1
  funext i
  exact (Disk.removeSession_part s.disk u u i).trans (if_pos rfl)

theorem close_complete (hlive : s.db.uploadSessions.find u = some t) :
    ((s.close t.accountId u).upload u).Complete :=
  .without fun p hp => by
    obtain ⟨hp, hu⟩ := Table.mem_keep.1 hp
    exact (close_over hlive).parts p hp (by simpa using hu)

/-- After steps that leave the upload alone, its removal. -/
theorem cuts_discard {α : Type} {m : Handler Unit} {fin : Except Abort α}
    (hid : isUploadId u = true)
    (hlive : s.db.uploadSessions.find u = some t) (hs : (s.upload u).Complete)
    (hm : Prog.Keeps (Server.upload u) m) (hok : (m s).result = .ok ()) :
    Cuts u (m >>= fun _ => discardUploadSession t.accountId u >>= fun _ => Prog.ofExcept fin) s
      (some ((m s).trace.length + 1)) := by
  have hsame : (m s).state.upload u = s.upload u := (hm s).1
  have hlive' : (m s).state.db.uploadSessions.find u = some t :=
    (congrArg Upload.session hsame).trans hlive
  have hsteps := discardUploadSession_run hid hlive'
  have hend : ∀ v, (Prog.ofExcept fin : Handler α) v = ⟨fin, v, []⟩ := fun v => by cases fin <;> rfl
  have hrest :
      (discardUploadSession t.accountId u >>= fun _ =>
        (Prog.ofExcept fin : Handler α)) (m s).state =
      ⟨fin, (m s).state.close t.accountId u,
        [(m s).state.unstage u, (m s).state.close t.accountId u]⟩ := by
    rw [Prog.bind_run, hsteps]
    simp only [hend, List.append_nil]
  have hclosed := close_complete hlive'
  intro n
  rw [Prog.stopAfter_bind hok]
  by_cases hn : n ≤ (m s).trace.length
  · have hbefore : (m.stopAfter n s).upload u = s.upload u := hm.stopAfter n s
    rw [if_neg (by simp; omega), if_pos hn, hbefore]
    exact hs
  · rw [if_neg hn]
    obtain ⟨j, rfl⟩ : ∃ j, n = (m s).trace.length + (j + 1) :=
      ⟨n - (m s).trace.length - 1, by omega⟩
    have hsub : (m s).trace.length + (j + 1) - (m s).trace.length = j + 1 := by omega
    rw [hsub]
    simp only [Prog.stopAfter, hrest]
    cases j with
    | zero =>
      rw [if_pos rfl, ← hsame]
      exact unstage_upload u (m s).state
    | succ j =>
      rw [if_neg (by simp)]
      cases j with
      | zero => exact hclosed
      | succ j => exact hclosed

theorem cancel_cut (hid : isUploadId u = true) (hlive : s.db.uploadSessions.find u = some t)
    (hs : (s.upload u).Complete) :
    Cuts u (cancel t.accountId u) s (some 1) := by
  have hu : t.uploadId = u := Table.find_key hlive
  let answer : Except Abort Response :=
    .ok (.json 200 [("uploadId", .str u), ("cancelled", .bool true)])
  have hrun : cancel t.accountId u s =
      (pure () >>= fun _ => discardUploadSession t.accountId u >>= fun _ =>
        Prog.ofExcept answer : Handler Response) s := by
    unfold cancel readDb
    rw [Prog.get_bind, session_own hlive]
    simp only [Prog.found, Prog.pure_bind, hu]
    rfl
  exact cuts_congr hrun (cuts_discard hid hlive hs (.pure ()) rfl)

theorem complete_listed (h : (s.upload u).Complete) :
    ∀ p ∈ s.media.listed u, (s.disk (.part u p.partIndex)).isSome := by
  intro p hp
  obtain ⟨hp, hu⟩ := Media.mem_listed.1 hp
  exact h p (Table.mem_keep.2 ⟨hp, by simpa using hu⟩)

theorem put_steps {h : String} (hv : isHash h = true) (bytes : Bytes) (s : Server) :
    (put h bytes s).trace.length = if (s.disk (.blob h)).isSome then 0 else 2 := by
  have hassert : Disk.assertHash h = .ok () := if_pos hv
  unfold put
  rw [hassert]
  cases hd : (s.disk (.blob h)).isSome <;> simp [assert, Prog.bind_run, hd, file, Prog.step]

/-- The bytes are stored and the row is inserted. -/
theorem insert_steps {h : String} (hv : isHash h = true) {a : String}
    (hnew : getBlob a h s.db = none) (bytes : Bytes) (now : String) :
    ∃ m : Handler Unit, Prog.Keeps (Server.upload u) m ∧ (m s).result = .ok () ∧
      (m s).trace.length = (if (s.disk (.blob h)).isSome then 0 else 2) + 1 ∧
      ∀ rest : Handler Response, (m >>= fun _ => rest) =
        (putBlobBytes h bytes >>= fun _ => exec
          (insertBlobIfAbsent a h bytes.length now) >>= fun _ => rest) := by
  obtain ⟨hput, hstored⟩ := put_stores hv bytes s
  have hinsert := insert_run (s := s.store h bytes) (a := a) (h := h)
    (by rw [store_db]; exact hnew) bytes.length now
  refine ⟨put h bytes >>= fun _ => exec (insertBlobIfAbsent a h bytes.length now) >>= fun _ => pure
    (), ?_, ?_, ?_, fun rest => ?_⟩
  · exact .bind (put_others _ _) fun _ =>
      .bind (exec_keeps (insertBlobIfAbsent_frame _ _ _ _) upload_ignores_blobs) fun _ => .pure _
  · rw [(Prog.bind_ok hput _).1, hstored, (Prog.bind_ok (congrArg Outcome.result hinsert) _).1]
    rfl
  · rw [Prog.bind_trace hput, hstored, Prog.bind_trace (congrArg Outcome.result hinsert), hinsert,
      ← put_steps hv bytes s,
      List.length_append]
    rfl
  · simp only [Prog.bind_assoc, Prog.pure_bind]
    rfl

theorem finalizeGate_run (cfg : Config) (a u : String) (size : Nat) (s : Server) :
    finalizeGate cfg a u size s =
      match (makeQuotaGate cfg.quotas).bind fun gate => admitFinalize gate a size s.db with
      | none => ⟨.ok (), s, []⟩
      | some v => (discardUploadSession a u >>= fun _ => .raise v.abort : Handler Unit) s := by
  unfold finalizeGate readDb
  cases makeQuotaGate cfg.quotas with
  | none => rfl
  | some gate =>
    simp only [Option.bind_some, Prog.get_bind]
    cases admitFinalize gate a size s.db <;> rfl

/-- **A finalize of a complete upload** is refused before it changes anything,
or removes the upload after some steps elsewhere. It never throws. -/
theorem finalize_steps (cfg : Config) (host : Host) (env : Env) (hid : isUploadId u = true)
    (hlive : s.db.uploadSessions.find u = some t) (hhash : isHash t.blobHash = true)
    (hs : (s.upload u).Complete) :
    (finalizeRemoves cfg host s t = none ∧ ∃ r, finalize cfg host env t.accountId u s =
      ⟨.error (.respond r), s, []⟩) ∨
    ∃ (m : Handler Unit) (answer : Except Abort Response), (∀ e, answer ≠ .error (.raise e)) ∧
      Prog.Keeps (Server.upload u) m ∧ (m s).result = .ok () ∧
      finalizeRemoves cfg host s t = some ((m s).trace.length + 1) ∧
      finalize cfg host env t.accountId u s =
        (m >>= fun _ => discardUploadSession t.accountId u >>= fun _ =>
          Prog.ofExcept answer) s := by
  have hu : t.uploadId = u := Table.find_key hlive
  unfold finalizeRemoves finalize readDb
  rw [Prog.get_bind, session_own hlive, hu]
  simp only [Prog.found, Prog.pure_bind, Prog.get_bind, hu]
  cases howned : getBlob t.accountId t.blobHash s.db with
  | some b =>
    right
    exact ⟨pure (),
      .ok (.json 200 [("blobHash", .str t.blobHash), ("size", .nat b.size), ("stored", .bool true),
      ("deduped", .bool true)]), by simp, .pure (), rfl, rfl, rfl⟩
  | none =>
    simp only [Option.isSome_none, Bool.false_eq_true, if_false]
    unfold storeUpload
    rw [hu, Prog.bind_look (assembleUpload_run hid hlive (complete_listed hs))]
    by_cases hsize : cfg.maxBlobSize < (s.media.assembled u).length
    · rw [if_pos hsize, decide_eq_false (Nat.not_le.2 hsize)]
      exact .inl ⟨rfl, _, rfl⟩
    rw [if_neg hsize, decide_eq_true (Nat.not_lt.1 hsize)]
    simp only [Prog.require, if_true, Prog.pure_bind]
    right
    by_cases hsha : host.sha256Hex (s.media.assembled u) = t.blobHash
    swap
    · rw [if_pos hsha, if_pos hsha]
      exact ⟨pure (), .error (hashMismatch t.blobHash (host.sha256Hex (s.media.assembled u))),
        by simp [hashMismatch],
        .pure (), rfl, rfl, rfl⟩
    rw [if_neg (not_not.2 hsha), if_neg (not_not.2 hsha)]
    obtain ⟨m, hm, hok, hlen, hrest⟩ :=
      insert_steps (u := u) hhash howned (s.media.assembled u) (env.clock 0)
    have hgate := finalizeGate_run cfg t.accountId u (s.media.assembled u).length s
    cases hrejected : (makeQuotaGate cfg.quotas).bind fun gate =>
      admitFinalize gate t.accountId (s.media.assembled u).length s.db with
    | some v =>
      simp only [hrejected] at hgate
      refine ⟨pure (), .error v.abort, by simp [QuotaVerdict.abort], .pure (), rfl, rfl, ?_⟩
      rw [Prog.bind_run_congr hgate, Prog.bind_assoc]
      rfl
    | none =>
      simp only [hrejected] at hgate
      refine ⟨m, .ok (storedAnswer t (s.media.assembled u).length), by simp, hm, hok, ?_, ?_⟩
      · rw [hlen]
        cases (s.disk (.blob t.blobHash)).isSome <;> rfl
      · rw [Prog.bind_look hgate, hrest]
        rfl

theorem finalize_cut (cfg : Config) (host : Host) (env : Env) (hid : isUploadId u = true)
    (hlive : s.db.uploadSessions.find u = some t) (hhash : isHash t.blobHash = true)
    (hs : (s.upload u).Complete) :
    Cuts u (finalize cfg host env t.accountId u) s (finalizeRemoves cfg host s t) := by
  rcases finalize_steps cfg host env hid hlive hhash hs with ⟨hnone, r, hrun⟩ |
    ⟨m, answer, -, hm, hok, hsome, hrun⟩
  · rw [hnone]
    exact cuts_refused hs hrun
  · rw [hsome]
    exact cuts_congr hrun (cuts_discard hid hlive hs hm hok)

/-- **Where a request can be stopped**, and what is left. -/
theorem perform_cut (cfg : Config) (host : Host) (credential : Option Credential) (env : Env)
    (a : String) (call : Call) (hid : s.db.uploadSessions.find u ≠ none → isUploadId u = true)
    (hhash : ∀ t, s.db.uploadSessions.find u = some t → isHash t.blobHash = true)
    (hs : (s.upload u).Complete) :
    Cuts u (perform cfg host credential env a call) s (call.removes cfg host a u s) := by
  have hrest : call ≠ .finalize u ∧ call ≠ .cancel u →
      Cuts u (perform cfg host credential env a call) s none := fun h =>
    cuts_stays (perform_builds complete_builds cfg host credential env a h) hs
  cases call with
  | finalize w =>
    by_cases hw : w = u
    swap
    · rw [Call.removes, if_neg hw]
      exact hrest ⟨fun e => hw (by cases e; rfl), by simp⟩
    subst hw
    rw [Call.removes, if_pos rfl]
    cases ht : getUploadSession a w s.db with
    | none =>
      refine cuts_refused (e := .error 404 "unknown upload session") hs ?_
      show finalize cfg host env a w s = _
      unfold finalize readDb
      rw [Prog.get_bind, ht]
      rfl
    | some t =>
      obtain ⟨hlive, rfl⟩ := getUploadSession_some.1 ht
      exact finalize_cut cfg host env (hid (by rw [hlive]; simp)) hlive (hhash t hlive) hs
  | cancel w =>
    by_cases hw : w = u
    swap
    · rw [Call.removes, if_neg hw]
      exact hrest ⟨by simp, fun e => hw (by cases e; rfl)⟩
    subst hw
    rw [Call.removes, if_pos rfl]
    cases ht : getUploadSession a w s.db with
    | none =>
      refine cuts_refused (e := .error 404 "unknown upload session") hs ?_
      show cancel a w s = _
      unfold cancel readDb
      rw [Prog.get_bind, ht]
      rfl
    | some t =>
      obtain ⟨hlive, rfl⟩ := getUploadSession_some.1 ht
      exact cancel_cut (hid (by rw [hlive]; simp)) hlive hs
  | _ => exact hrest (by simp)

/-- The step after which the reaper has removed the files of `u`, and not its rows. -/
def reapRemoves (u : String) (stale : List UploadSession) : Option Nat :=
  (stale.findIdx? fun t => decide (t.uploadId = u)).map fun j => 2 * j + 1

/-- The server once a session is reaped. -/
def Server.reap (u : String) (s : Server) : Server :=
  { s.unstage u with db := s.db.dropSessions fun t => decide (t.uploadId = u) }

theorem reapSession_run {x : UploadSession} (hid : isUploadId x.uploadId = true) (s : Server) :
    reapSession x s = ⟨.ok (), s.reap x.uploadId, [s.unstage x.uploadId, s.reap x.uploadId]⟩ := by
  have hassert : Disk.assertUploadId x.uploadId = .ok () := if_pos hid
  unfold reapSession discardSession
  rw [hassert]
  rfl

/-- A sweep is stopped while it reaps the first session, or after that. -/
theorem reap_stop {x : UploadSession} (hid : isUploadId x.uploadId = true)
    (stale : List UploadSession) (s : Server) : ∀ n,
    (Prog.each reapSession (x :: stale)).stopAfter n s =
      match n with
      | 0 => s
      | 1 => s.unstage x.uploadId
      | n + 2 => (Prog.each reapSession stale).stopAfter n (s.reap x.uploadId)
  | 0 => rfl
  | 1 => by
    show (reapSession x >>= fun _ => Prog.each reapSession stale).stopAfter 1 s = _
    simp only [Prog.stopAfter, Prog.bind_run, reapSession_run hid]
    rfl
  | n + 2 => by
    show (reapSession x >>= fun _ => Prog.each reapSession stale).stopAfter (n + 2) s = _
    simp only [Prog.stopAfter, Prog.bind_run, reapSession_run hid]
    cases n <;> rfl

theorem reap_others {v : String} (hv : v ≠ u) (s : Server) : (s.reap v).upload u = s.upload u := by
  refine upload_rows (dropSessions_rows fun x hx => ?_) fun i => ?_
  · rw [Table.find_key hx]
    simp [Ne.symm hv]
  · exact (Disk.removeSession_part s.disk v u i).trans (if_neg (Ne.symm hv))

theorem reap_complete (hlive : s.db.uploadSessions.find u = some t) :
    ((s.reap u).upload u).Complete :=
  .without fun p hp => by
    obtain ⟨hp, hu⟩ := Table.mem_keep.1 hp
    have hpu : p.uploadId = u := by simpa using hu
    have hkept := (mem_dropSessions_parts.1 hp).2 t (by rw [hpu]; exact hlive)
    rw [decide_eq_false_iff_not] at hkept
    exact hkept (Table.find_key hlive)

theorem unstage_others {v : String} (hv : v ≠ u) (s : Server) :
    (s.unstage v).upload u = s.upload u :=
  upload_files fun i => (Disk.removeSession_part s.disk v u i).trans (if_neg (Ne.symm hv))

/-- **Where a sweep can be stopped**, and what is left. -/
theorem reap_cut (u : String) (stale : List UploadSession) :
    ∀ {s : Server}, (∀ t ∈ stale, isUploadId t.uploadId = true) →
    (∀ t ∈ stale, s.db.uploadSessions.find t.uploadId = some t) → (stale.map (·.uploadId)).Nodup →
    (s.upload u).Complete → Cuts u (Prog.each reapSession stale) s (reapRemoves u stale) := by
  induction stale with
  | nil => exact fun _ _ _ hs => cuts_stays (.pure fun _ h => h) hs
  | cons x stale ih =>
    intro s hids hlive hnodup hs
    have hid := hids x List.mem_cons_self
    have hx := hlive x List.mem_cons_self
    obtain ⟨hnew, hnodup⟩ := List.nodup_cons.1 hnodup
    have hids : ∀ t ∈ stale, isUploadId t.uploadId = true :=
      fun t ht => hids t (List.mem_cons_of_mem _ ht)
    have hlive : ∀ t ∈ stale, (s.reap x.uploadId).db.uploadSessions.find t.uploadId =
        some t := fun t ht => by
      have hne : t.uploadId ≠ x.uploadId := fun e => hnew (List.mem_map.2 ⟨t, ht, e⟩)
      refine (find_dropSessions s.db _ _).trans ?_
      rw [hlive t (List.mem_cons_of_mem _ ht)]
      simp [Option.filter, hne]
    by_cases hu : x.uploadId = u
    · -- the files of `u` go first, and no later session has its id
      subst hu
      have hfirst : reapRemoves x.uploadId (x :: stale) = some 1 := by
        unfold reapRemoves
        rw [List.findIdx?_cons, if_pos (by simp)]
        rfl
      have hnone : reapRemoves x.uploadId stale = none := by
        unfold reapRemoves
        rw [List.findIdx?_eq_none_iff.2 fun t ht => decide_eq_false fun e => hnew
          (List.mem_map.2 ⟨t, ht, e⟩)]
        rfl
      have hlater := ih hids hlive hnodup (reap_complete hx)
      intro n
      rw [hfirst, reap_stop hid]
      match n with
      | 0 => exact hs
      | 1 => exact unstage_upload _ _
      | n + 2 =>
        have hrest := hlater n
        rw [hnone] at hrest
        exact hrest
    · have hfirst : reapRemoves u (x :: stale) = (reapRemoves u stale).map (· + 2) := by
        unfold reapRemoves
        rw [List.findIdx?_cons, if_neg (by simpa using hu), Option.map_map, Option.map_map]
        rfl
      have hsame := reap_others hu s
      have hlater := ih hids hlive hnodup (by rw [hsame]; exact hs)
      intro n
      rw [hfirst, reap_stop hid]
      match n with
      | 0 => rw [if_neg (by simp)]; exact hs
      | 1 =>
        rw [if_neg (by simp)]
        simp only
        rw [unstage_others hu]
        exact hs
      | n + 2 =>
        have hrest := hlater n
        rw [hsame] at hrest
        have hshift : (reapRemoves u stale).map (· + 2) = some (n + 2) ↔
            reapRemoves u stale = some n := by
          cases reapRemoves u stale <;> simp
        simp only [hshift]
        exact hrest

/-! ## No files without a session -/

/-- The files go, and whatever becomes of the row, none are left without it. -/
theorem discardSession_clears :
    Prog.Triple (fun s => (s.upload u).Anchored) (fun s => (s.upload u).Anchored) (discardSession u)
    (fun _ s => ∀ i, (s.upload u).staged i = none) fun s => (s.upload u).Anchored := by
  refine .bind (stays_keeps (assert_keeps _)) fun _ => file_triple fun s _ => ?_
  have hgone : ∀ i, ((s.unstage u).upload u).staged i = none := fun i => by rw [unstage_upload]; rfl
  exact ⟨.unstaged hgone, hgone⟩

theorem exec_clear {α : Type} (m : DbTx α) : Prog.Triple (fun s => (s.upload u).Anchored)
    (fun s => ∀ i, (s.upload u).staged i = none) (exec m)
    (fun _ s => (s.upload u).Anchored) fun s => (s.upload u).Anchored :=
  exec_triple (fun _ _ _ hs _ => ⟨.unstaged hs, .unstaged hs⟩) fun _ hs => .unstaged hs

theorem discardUploadSession_anchored (a v : String) :
    Stays u Upload.Anchored (discardUploadSession a v) := by
  by_cases hv : v = u
  swap
  · exact stays_keeps (discardUploadSession_others hv a)
  subst hv
  unfold discardUploadSession
  refine .bind (stays_fetch _) fun o => ?_
  cases o with
  | none => exact .pure fun _ hs => hs
  | some t => exact .bind discardSession_clears fun _ => exec_clear _

theorem storeUpload_anchored (cfg : Config) (host : Host) (env : Env) (a : String)
    (t : UploadSession) :
    Stays u Upload.Anchored (storeUpload cfg host env a t) := by
  unfold storeUpload
  refine .bind (stays_keeps (assembleUpload_frame a _)) fun bytes =>
    .bind (stays_keeps (.require _ _)) fun _ => .ite (fun _ => ?_) fun _ => ?_
  · exact .bind (discardUploadSession_anchored a _) fun _ => stays_keeps (.raise _)
  refine .bind ?_ fun _ => .bind (stays_keeps (put_others _ _)) fun _ => ?_
  · unfold finalizeGate
    cases makeQuotaGate cfg.quotas with
    | none => exact .pure fun _ hs => hs
    | some gate =>
      refine .bind (stays_fetch _) fun rejected => ?_
      cases rejected with
      | none => exact .pure fun _ hs => hs
      | some v => exact .bind (discardUploadSession_anchored a _) fun _ => stays_keeps (.raise _)
  · refine .bind
      (stays_keeps
        (exec_keeps (insertBlobIfAbsent_frame a t.blobHash _ _) upload_ignores_blobs)) fun _ => ?_
    exact .bind (discardUploadSession_anchored a _) fun _ => .pure fun _ hs => hs

theorem finalize_anchored (cfg : Config) (host : Host) (env : Env) (a v : String) :
    Stays u Upload.Anchored (finalize cfg host env a v) := by
  unfold finalize
  refine .bind (stays_fetch _) fun o => .bind (stays_found _ _) fun t =>
    .bind (stays_fetch _) fun owned => ?_
  cases owned with
  | some b => exact .bind (discardUploadSession_anchored a _) fun _ => .pure fun _ hs => hs
  | none => exact storeUpload_anchored cfg host env a t

theorem cancel_anchored (a v : String) : Stays u Upload.Anchored (cancel a v) :=
  .bind (stays_fetch _) fun _ => .bind (stays_found _ _) fun _ =>
    .bind (discardUploadSession_anchored a _) fun _ => .pure fun _ hs => hs

/-- **No request leaves files without a session**, stopped or not. -/
theorem perform_anchored (cfg : Config) (host : Host) (credential : Option Credential) (env : Env)
    (a : String) (call : Call) :
    Stays u Upload.Anchored (perform cfg host credential env a call) := by
  by_cases hcall : call ≠ .finalize u ∧ call ≠ .cancel u
  · exact perform_builds anchored_builds cfg host credential env a hcall
  · rw [not_and_or, not_not, not_not] at hcall
    rcases hcall with rfl | rfl
    · exact finalize_anchored cfg host env a u
    · exact cancel_anchored a u

theorem reapUploadSessions_anchored (ttlMs nowMs : Int) :
    Stays u Upload.Anchored (reapUploadSessions ttlMs nowMs) := by
  unfold reapUploadSessions
  refine .bind (stays_keeps (.ofExcept _)) fun cutoff => .bind (stays_fetch _) fun stale => ?_
  refine .bind
    (Prog.Triple.each (I := fun _ s => Upload.Anchored
      (Server.upload u s)) fun done t rest _ => ?_) fun _ =>
    .pure fun _ hs => hs
  by_cases ht : t.uploadId = u
  · unfold reapSession
    rw [ht]
    exact .bind discardSession_clears fun _ => exec_clear _
  · exact stays_keeps (reapSession_others ht)

/-! ## Deleting an account -/

/-- The rows of the account's uploads go first. -/
theorem without_drops (a : String) (s : Server) :
    (Server.upload u { s with db := s.db.without a }) =
      Server.upload u { s with db := s.db.dropSessions fun r => decide (r.accountId = a) } := rfl

theorem without_parts {a : String} {t : UploadSession}
    (hlive : s.db.uploadSessions.find u = some t) (ha : t.accountId = a) (p : UploadPart) :
    p ∉ (Server.upload u { s with db := s.db.without a }).parts.rows := by
  rw [without_drops]
  intro hp
  obtain ⟨hp, hu⟩ := Table.mem_keep.1 hp
  have hpu : p.uploadId = u := by simpa using hu
  have hkept := (mem_dropSessions_parts.1 hp).2 t (by rw [hpu]; exact hlive)
  simp [ha] at hkept

theorem deleteAccountRoute_complete (a : String) (body : Body) :
    Stays u Upload.Complete (deleteAccountRoute a body) := by
  unfold deleteAccountRoute
  refine .bind (stays_keeps (.ofExcept _)) fun body =>
    .bind (stays_keeps (.ofExcept _)) fun confirm => .bind (stays_keeps (.require _ _)) fun _ => ?_
  let Bare : List String → Upload → Prop :=
    fun ids x => x.Complete ∧ (u ∈ ids → ∀ p, p ∉ x.parts.rows)
  refine Prog.Triple.bind (Q := fun r s => (s.upload u).Complete ∧ ∀ x, r = some x →
    Bare x.uploadIds (s.upload u))
    (exec_triple (fun s r db hs e => ?_) fun _ hs => hs) fun r? => ?_
  · rw [deleteAccount_eval] at e
    cases hf : s.db.accounts.find a with
    | none => rw [hf] at e; cases e; exact ⟨hs, hs, fun x hx => nomatch hx⟩
    | some record =>
      rw [hf] at e
      cases e
      have hcomplete : (Server.upload u { s with db := s.db.without a }).Complete := fun p hp => by
        obtain ⟨hp, hu⟩ := Table.mem_keep.1 hp
        exact hs p (Table.mem_keep.2 ⟨(Table.mem_keep.1 hp).1, hu⟩)
      refine ⟨hcomplete, hcomplete, fun x hx => ?_⟩
      cases hx
      refine ⟨hcomplete, fun hu => ?_⟩
      obtain ⟨t, ht, rfl⟩ := List.mem_map.1 hu
      obtain ⟨ht, hta⟩ := List.mem_filter.1 ht
      exact without_parts (Table.find_some.2 ⟨ht, rfl⟩) (by simpa using hta)
  · refine Prog.Triple.bind (Q := fun r s => Bare r.uploadIds (s.upload u))
      (.found (fun r e s hs => hs.2 r e) fun _ hs => hs.1) fun r => ?_
    have hI : ∀ {α : Type} {m : Handler α}, Prog.Keeps (Server.upload u) m →
        Prog.Triple (fun s => (s.upload u).Complete)
        (fun s => Bare r.uploadIds (s.upload u)) m
          (fun _ s => Bare r.uploadIds (s.upload u)) fun s => (s.upload u).Complete := fun h =>
      ((h.triple (Bare r.uploadIds)).crash fun _ => And.left).abort fun _ => And.left
    refine .bind (hI (.each (fun id => onRevoked_frame (fun _ _ _ _ _ => rfl) id) _)) fun _ => ?_
    refine .bind ?_ fun _ => .bind (hI (.each deleteBytes_others _)) fun _ => .pure fun _ hs => hs.1
    refine Prog.Triple.each (I := fun _ (s : Server) => Bare r.uploadIds
      (s.upload u)) fun done v rest e => ?_
    by_cases hv : v = u
    · refine .bind (hI (assert_keeps _)) fun _ => file_triple fun s hs => ?_
      have hbare := hs.2 (by rw [e, hv]; simp)
      exact ⟨.without hbare, .without hbare, fun _ => hbare⟩
    · exact hI (discardSession_others hv)

/-- **A deletion that ends leaves no files without a session.** -/
theorem deleteAccountRoute_anchored (a : String) (body : Body) :
    Prog.Lands (fun s => (s.upload u).Anchored ∧ ∀ t ∈ s.db.uploadSessions.rows,
      isUploadId t.uploadId = true)
      (deleteAccountRoute a body) (fun _ s => (s.upload u).Anchored) fun s =>
    (s.upload u).Anchored := by
  let Start : Server → Prop :=
    fun s => (s.upload u).Anchored ∧ ∀ t ∈ s.db.uploadSessions.rows, isUploadId t.uploadId = true
  unfold deleteAccountRoute
  refine Prog.Triple.bind (Q := fun _ => Start)
    (.ofExcept (fun _ _ _ hs => hs) fun _ hs => hs.1) fun body => ?_
  refine Prog.Triple.bind (Q := fun _ => Start)
    (.ofExcept (fun _ _ _ hs => hs) fun _ hs => hs.1) fun confirm => ?_
  refine Prog.Triple.bind (Q := fun _ => Start)
    (.require (fun _ _ hs => hs) fun _ hs => hs.1) fun _ => ?_
  -- a session that goes is one whose files are still to go
  let Due : List String → Upload → Prop := fun ids x => x.Anchored ∨ u ∈ ids
  refine Prog.Triple.bind (Q := fun r s => (r = none → (s.upload u).Anchored) ∧ ∀ x, r = some x →
      Due x.uploadIds (s.upload u) ∧ ∀ v ∈ x.uploadIds, isUploadId v = true)
    (exec_triple (fun s r db hs e => ⟨trivial, ?_⟩) fun _ hs => hs.1) fun r? => ?_
  · rw [deleteAccount_eval] at e
    cases hf : s.db.accounts.find a with
    | none => rw [hf] at e; cases e; exact ⟨fun _ => hs.1, fun x hx => nomatch hx⟩
    | some record =>
      rw [hf] at e
      cases e
      refine ⟨fun h => (nomatch h), fun x hx => ?_⟩
      cases hx
      refine ⟨?_, fun v hv => ?_⟩
      · cases hlive : s.db.uploadSessions.find u with
        | none => exact .inl (.unstaged (hs.1 hlive))
        | some t =>
          by_cases ha : t.accountId = a
          · refine .inr (List.mem_map.2 ⟨t,
              List.mem_filter.2 ⟨Table.find_mem hlive, by simpa using ha⟩, Table.find_key hlive⟩)
          · refine .inl (.live ?_)
            have hkept :
                (s.db.dropSessions fun r => decide (r.accountId = a)).uploadSessions.find u =
                  some t := by
              rw [find_dropSessions, hlive]
              simp [Option.filter, ha]
            exact fun hnone => Option.some_ne_none t (hkept.symm.trans hnone)
      · obtain ⟨t, ht, rfl⟩ := List.mem_map.1 hv
        exact hs.2 t (List.mem_filter.1 ht).1
  · refine Prog.Triple.bind (Q := fun r s => Due r.uploadIds (s.upload u) ∧
      ∀ v ∈ r.uploadIds, isUploadId v = true) ?_ fun r => ?_
    · cases r? with
      | none => exact .raise fun s hs => hs.1 rfl
      | some r => exact .pure fun s hs => hs.2 r rfl
    by_cases hvalid : ∀ v ∈ r.uploadIds, isUploadId v = true
    swap
    · exact fun s hs => absurd hs.2 hvalid
    let Left : List String → Server → Prop :=
      fun done s => (s.upload u).Anchored ∨ u ∈ r.uploadIds ∧ u ∉ done
    refine Prog.Triple.bind (Q := fun _ => Left []) ?_ fun _ => ?_
    · have hloop : Prog.Lands (Left []) (Prog.each onRevoked r.credentialIds)
          (fun _ => Left []) fun s => (s.upload u).Anchored :=
        .each (I := fun _ => Left []) fun done id rest _ => .poke fun s hs => hs
      exact hloop.pre fun s hs => hs.1.imp_right fun hu => ⟨hu, by simp⟩
    refine Prog.Triple.bind (Q := fun _ => Left r.uploadIds)
      (Prog.Triple.each (I := Left) fun done v rest e => ?_) fun _ => ?_
    · have hassert : Disk.assertUploadId v = .ok () := if_pos (hvalid v (by rw [e]; simp))
      unfold discardSession
      rw [hassert]
      refine Prog.Triple.bind (Q := fun _ => Left done) (.pure fun _ hs => hs) fun _ =>
        file_triple fun s hs => ⟨trivial, ?_⟩
      show Left (done ++ [v]) (s.unstage v)
      by_cases hv : v = u
      · exact .inl (.unstaged fun i => by rw [hv, unstage_upload]; rfl)
      · have hsame := unstage_others hv s
        unfold Left
        rw [hsame]
        exact hs.imp_right fun hu => ⟨hu.1, by simpa [hu.2] using Ne.symm hv⟩
    · have hbytes : Prog.Keeps (Server.upload u) (Prog.each deleteBytes r.blobHashes) :=
        .each deleteBytes_others _
      refine Prog.Triple.bind (Q := fun _ s => (s.upload u).Anchored)
        ((hbytes.lands Upload.Anchored).pre fun s hs => ?_)
        fun _ => .pure fun _ hs => hs
      exact hs.elim id fun hu => absurd hu.1 hu.2

end Cuts

end GlanceVault.L3
