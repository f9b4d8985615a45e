import GlanceVault.L3Http.MediaRoutes
/-!
# What a call of one account does to another's view

The view of an account: its rows in all tables, the staged parts of its upload
sessions, the nudges published for it.

* `perform_other`: no storage step of a call changes the view of another
  account.
-/
namespace GlanceVault.L3
open GlanceVault.Core GlanceVault.L1 GlanceVault.L1.Js GlanceVault.L2

structure View where
  rows : Db
  staged : String → Nat → Option Bytes
  published : List (String × Nudge)

def Server.view (b : String) (s : Server) : View where
  rows := s.db.tenant b
  staged u i := if (s.db.tenant b).ownsUpload b u then s.disk (.part u i) else none
  published := s.published.filter fun p => decide (p.1 = b)

/-- No storage step changes the view. -/
abbrev Leaves {α : Type} (b : String) (P : Server → Prop) (m : Handler α) : Prop :=
  Prog.Follows (Server.view b) (fun _ _ => False) P m fun _ _ => True

theorem view_of_rows {b : String} {s : Server} {db : Db} (h : db.tenant b = s.db.tenant b) :
    Server.view b { s with db := db } = s.view b := by
  unfold Server.view
  simp only [h]

theorem view_of_disk {b : String} {s : Server} {d : Disk}
    (h : ∀ u i, s.db.ownsUpload b u = true → d (.part u i) = s.disk (.part u i)) :
    Server.view b { s with disk := d } = s.view b := by
  unfold Server.view
  congr 1
  funext u i
  show (if (s.db.tenant b).ownsUpload b u then _ else _) =
    if (s.db.tenant b).ownsUpload b u then _ else _
  rw [tenant_owns]
  by_cases hu : s.db.ownsUpload b u = true
  · rw [if_pos hu, if_pos hu]
    exact h u i hu
  · rw [if_neg hu, if_neg hu]

section Other
variable {a b : String} {P : Server → Prop}

theorem exec_view {α : Type} {m : DbTx α} (h : m.Keeps (Db.tenant b)) :
    Prog.Keeps (Server.view b) (exec m) :=
  exec_keeps h fun _ _ e => view_of_rows e

theorem emit_view (hab : a ≠ b) (env : Env) (nudge : Nudge) :
    Prog.Keeps (Server.view b) (emit env a nudge) := by
  refine .poke fun s => ?_
  unfold Server.view
  congr 1
  rw [List.filter_append]
  simp [hab]

/-- The sessions an account sees are not another's. -/
theorem session_other (hab : a ≠ b) {db : Db} {u v : String} {s : UploadSession}
    (hs : getUploadSession a u db = some s) (hv : db.ownsUpload b v = true) : v ≠ s.uploadId := by
  intro e
  obtain ⟨hf, ha⟩ := getUploadSession_some.1 hs
  have hu : s.uploadId = u := Table.find_key hf
  obtain ⟨t, ht, hb⟩ := Db.ownsUpload_iff.1 hv
  rw [e, hu, hf] at ht
  cases ht
  exact hab (ha.symm.trans hb)

theorem discardSession_view {u : String} :
    Leaves b (fun s => s.db.ownsUpload b u = false) (discardSession u) := by
  refine .bind (assert_passes _) fun _ => .step fun s o s' hs e => ?_
  cases e
  refine ⟨.inl (view_of_disk fun v i hv => (Disk.removeSession_part s.disk u v i).trans
    (if_neg ?_)), trivial⟩
  intro hvu
  rw [hvu, hs] at hv
  cases hv

theorem discardUploadSession_view (hab : a ≠ b) (u : String) :
    Leaves b P (discardUploadSession a u) := by
  unfold discardUploadSession
  refine Prog.Follows.bind (Q := fun session s => getUploadSession a u s.db = session)
    (.get fun _ _ => rfl)
    fun session => ?_
  cases session with
  | none => exact .pure fun _ _ => trivial
  | some t =>
    refine .bind (discardSession_view.pre fun s hs => ?_) fun _ =>
      (exec_view (deleteUploadSessionFor_keeps hab u)).followsAny
    cases hv : s.db.ownsUpload b u with
    | false => rfl
    | true =>
      have hu : t.uploadId = u := Table.find_key (getUploadSession_some.1 hs).1
      exact absurd hu.symm (session_other hab hs hv)

theorem initiate_view (hab : a ≠ b) (cfg : Config) (env : Env) (h : String) (size : Nat) :
    Leaves b (fun s => s.db.Attached) (initiate cfg env a h size) := by
  unfold initiate
  refine .bind (.fetch _) fun owned => ?_
  cases owned with
  | some r => exact .pure fun _ _ => trivial
  | none =>
    refine .bind (gated_follows cfg _) fun _ => ?_
    refine Prog.Follows.bind (Q := fun _ _ => True) (.step fun s o s' hs e => ⟨.inl ?_, trivial⟩)
      fun _ => .pure fun _ _ => trivial
    cases he : (createUploadSession a env.uuid h size (env.clock 0)).eval s.db with
    | error x => rw [he] at e; cases e
    | ok r =>
      rw [he] at e
      cases e
      rw [createUploadSession_eval] at he
      cases hu : s.db.uploadSessions.has env.uuid with
      | true => rw [hu] at he; cases he
      | false =>
        rw [hu] at he
        cases he
        have hnone : s.db.uploadSessions.find env.uuid = none := Table.has_eq_false.1 hu
        exact view_of_rows (putSession_other (s := ⟨env.uuid, a, h, size, env.clock 0⟩) hab hnone
          fun p hp e => hs p hp (e ▸ hnone))

theorem writePart_view {u : String} {i : Nat} {bytes : Bytes} :
    Prog.Follows (Server.view b) (fun _ _ => False) (fun s => s.db.ownsUpload b u = false)
      (writePart u i bytes)
      fun _ s => s.db.ownsUpload b u = false := by
  refine .bind (assert_passes _) fun _ => ?_
  refine Prog.Follows.bind (Q := fun _ s => s.db.ownsUpload b u = false)
    (.step fun s o s' hs e => ?_) fun _ =>
    .step fun s o s' hs e => ?_
  · cases e
    exact ⟨.inl (view_of_disk fun v j _ => Disk.write_other _ (by simp) _), hs⟩
  · cases e
    refine ⟨.inl (view_of_disk fun v j hv => Disk.rename_other _ (by simp) ?_), hs⟩
    intro e
    cases e
    rw [hs] at hv
    cases hv

theorem putPart_view (hab : a ≠ b) (env : Env) (u index : String) (bytes : Bytes) :
    Leaves b P (putPart env a u index bytes) := by
  unfold putPart stageUploadPart
  refine .bind (.fetch _) fun _ => .bind (Prog.Follows.found fun _ _ _ hs => hs) fun session => ?_
  refine .bind (Prog.Follows.found fun _ _ _ hs => hs) fun i => .bind (.fetch _) fun parts => ?_
  refine .bind (.guard _ _) fun _ => .bind (Q := fun _ _ => True) ?_ fun _ => ?_
  · refine Prog.Follows.bind (Q := fun o s => getUploadSession a session.uploadId s.db = o)
      (.get fun _ _ => rfl)
      fun o => ?_
    refine Prog.Follows.bind (Q := fun _ s => s.db.ownsUpload b session.uploadId = false)
      (.require fun ho s hs => ?_) fun _ => ?_
    · obtain ⟨t, ht⟩ := Option.isSome_iff_exists.1 ho
      rw [ht] at hs
      cases hv : s.db.ownsUpload b session.uploadId with
      | false => rfl
      | true =>
        have hu : t.uploadId = session.uploadId := Table.find_key (getUploadSession_some.1 hs).1
        exact absurd hu.symm (session_other hab hs hv)
    · exact .bind writePart_view fun _ =>
        (exec_view (recordUploadPart_keeps hab _ _ _ _)).followsAny
  · exact .bind (.fetch _) fun _ => .pure fun _ _ => trivial

theorem put_view (h : String) (bytes : Bytes) : Prog.Keeps (Server.view b) (put h bytes) := by
  refine .bind (assert_keeps _) fun _ => .bind (.get _) fun _ => .ite (.pure _) ?_
  refine .bind (file_keeps fun s => view_of_disk fun v j _ => Disk.write_other _
    (by simp) _) fun _ => ?_
  exact file_keeps fun s => view_of_disk fun v j _ => Disk.rename_other _ (by simp) (by simp)

theorem finalize_view (hab : a ≠ b) (cfg : Config) (host : Host) (env : Env) (u : String) :
    Leaves b P (finalize cfg host env a u) := by
  have hdiscard : ∀ (u : String) {Q : Server → Prop} {α : Type} (m : Handler α), (∀ s, Q s → True) →
      Leaves b (fun _ => True) m → Leaves b Q (discardUploadSession a u >>= fun _ => m) :=
    fun u _ _ m _ hm => .bind (discardUploadSession_view hab u) fun _ => hm
  unfold finalize
  refine .bind (.fetch _) fun _ => .bind (Prog.Follows.found fun _ _ _ hs => hs) fun session => ?_
  refine .bind (.fetch _) fun owned => ?_
  cases owned with
  | some r => exact hdiscard _ _ (fun _ _ => trivial) (.pure fun _ _ => trivial)
  | none =>
    unfold storeUpload
    refine .bind (assembleUpload_frame a session.uploadId).followsAny fun bytes =>
      .bind (.guard _ _) fun _ => ?_
    refine .ite (fun _ => hdiscard _ _ (fun _ _ => trivial) (.raise _)) fun _ => ?_
    refine Prog.Follows.bind (Q := fun _ _ => True) ?_ fun _ => ?_
    · unfold finalizeGate
      cases makeQuotaGate cfg.quotas with
      | none => exact .pure fun _ _ => trivial
      | some gate =>
        refine .bind (.fetch _) fun rejected => ?_
        cases rejected with
        | none => exact .pure fun _ _ => trivial
        | some v => exact hdiscard _ _ (fun _ _ => trivial) (.raise _)
    · refine .bind (put_view _ _).followsAny fun _ => ?_
      refine .bind (exec_view (insertBlobIfAbsent_keeps hab _ _ _)).followsAny fun _ => ?_
      exact hdiscard _ _ (fun _ _ => trivial) (.pure fun _ _ => trivial)

theorem cancel_view (hab : a ≠ b) (u : String) : Leaves b P (cancel a u) := by
  unfold cancel
  refine .bind (.fetch _) fun _ => .bind (Prog.Follows.found fun _ _ _ hs => hs) fun session => ?_
  exact .bind (discardUploadSession_view hab _) fun _ => .pure fun _ _ => trivial

/-- **A call of one account leaves the view of another alone.** -/
theorem perform_other (hab : a ≠ b) (cfg : Config) (host : Host) (credential : Option Credential)
    (env : Env)
    (call : Call) : Leaves b (fun s => s.db.Attached) (perform cfg host credential env a call) := by
  have hemit : ∀ nudge r, Prog.Keeps (Server.view b)
      (do emit env a nudge; pure r : Handler Response) :=
    fun nudge r => .bind (emit_view hab env nudge) fun _ => .pure r
  cases call with
  | batch app rows notify =>
    refine Prog.Keeps.followsAny (.bind (gated_keeps cfg _) fun _ => ?_)
    exact .bind (exec_view (batchUpsert_keeps hab app rows env.clock)) fun r =>
      .ite (hemit _ _) (.pure _)
  | device d n =>
    exact Prog.Keeps.followsAny
      (.bind (exec_view (updateDeviceCursor_keeps hab d n _)) fun _ => .pure _)
  | list app since limit => exact Prog.Keeps.followsAny (.bind (.get _) fun _ => .pure _)
  | getEntity app e =>
    exact Prog.Keeps.followsAny (.bind (.get _) fun _ => .bind (.found _ _) fun _ => .pure _)
  | deleteEntity app e t =>
    refine Prog.Keeps.followsAny (.bind (exec_view (softDeleteRow_keeps hab app e _ _)) fun r => ?_)
    exact .bind (.found _ _) fun r => .ite (.pure _) (hemit _ _)
  | intents events =>
    refine Prog.Keeps.followsAny (.bind (gated_keeps cfg _) fun _ => ?_)
    exact .bind (exec_view (insertIntents_keeps hab events env.clock)) fun r =>
      .ite (hemit _ _) (.pure _)
  | listIntents since limit => exact Prog.Keeps.followsAny (.bind (.get _) fun _ => .pure _)
  | getSalt =>
    exact Prog.Keeps.followsAny (.bind (.get _) fun _ => .bind (.found _ _) fun _ => .pure _)
  | putSalt salt =>
    exact Prog.Keeps.followsAny
      (.bind (exec_view (putSaltIfAbsent_keeps hab salt _)) fun _ => .pure _)
  | initiate hash valid size => exact initiate_view hab cfg env hash size
  | uploadStatus u =>
    exact Prog.Keeps.followsAny
      (.bind (.get _) fun _ => .bind (.found _ _) fun _ => .bind (.get _) fun _ => .pure _)
  | putPart u index bytes => exact putPart_view hab env u index bytes
  | finalize u => exact finalize_view hab cfg host env u
  | cancel u => exact cancel_view hab u
  | refAdd hash =>
    refine Prog.Keeps.followsAny (.bind (exec_view (addBlobReference_keeps hab hash _)) fun _ => ?_)
    exact .bind (.found _ _) fun _ => .pure _
  | refRelease hash =>
    refine Prog.Keeps.followsAny
      (.bind (exec_view (releaseBlobReference_keeps hab hash _)) fun _ => ?_)
    exact .bind (.found _ _) fun _ => .pure _
  | head hash =>
    exact Prog.Keeps.followsAny (.bind (.get _) fun _ => .bind (.found _ _) fun _ => .pure _)
  | download hash range => exact (download_frame a hash range).followsAny
  | connect =>
    refine Prog.Keeps.followsAny
      (.bind (.get _) fun id => .bind (.get _) fun subscribed => .bind
        (.poke fun s => rfl) fun _ => ?_)
    exact .bind (.require _ _) fun _ => .bind (.get _) fun _ => .pure _

end Other

end GlanceVault.L3
