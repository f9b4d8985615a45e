import GlanceVault.L3Http.Tenants
/-!
# What a call of an account depends on

Two servers are `Alike` for an account when its view is the same on both, the
stored bytes hash to their address, and the bytes of the blobs it holds are the
same. The byte store itself is shared and may differ.

* `perform_alike`: a call of the account has the same result on both, and
  leaves them alike.
* `perform_brings`: a call brings no upload id into use but the one it draws.
* `reap_view`: the reaper's effect on the view of an account is a function of
  that view.
-/
namespace GlanceVault.L3
open GlanceVault.Core GlanceVault.L1 GlanceVault.L1.Js GlanceVault.L2

structure Alike (sha256Hex : Bytes → String) (b : String) (s t : Server) : Prop where
  view : s.view b = t.view b
  left : ∀ h x, s.disk (.blob h) = some x → sha256Hex x = h
  right : ∀ h x, t.disk (.blob h) = some x → sha256Hex x = h
  bytes : ∀ h, (getBlob b h s.db).isSome = true → s.disk (.blob h) = t.disk (.blob h)

section Alike
variable {sha256Hex : Bytes → String} {b : String} {s t : Server}

theorem Alike.rows (h : Alike sha256Hex b s t) : s.db.tenant b = t.db.tenant b :=
  congrArg View.rows h.view

theorem Alike.published (h : Alike sha256Hex b s t) :
    (s.published.filter fun p => decide (p.1 = b)) = t.published.filter fun p => decide (p.1 = b) :=
  congrArg View.published h.view

/-- What depends on the account's rows is the same. -/
theorem Alike.read (h : Alike sha256Hex b s t) {α : Type} {f : Db → α}
    (hf : ∀ db, f (db.tenant b) = f db) :
    f s.db = f t.db := by
  rw [← hf s.db, h.rows, hf t.db]

theorem Alike.owns (h : Alike sha256Hex b s t) (u : String) :
    s.db.ownsUpload b u = t.db.ownsUpload b u :=
  h.read (f := fun db => db.ownsUpload b u) fun db => tenant_owns b db u

theorem Alike.staged (h : Alike sha256Hex b s t) {u : String} (hu : s.db.ownsUpload b u = true)
    (i : Nat) :
    s.disk (.part u i) = t.disk (.part u i) := by
  have hv := congrFun (congrFun (congrArg View.staged h.view) u) i
  unfold Server.view at hv
  simpa only [tenant_owns, ← h.owns, hu, if_true] using hv

/-- The view, put together from its parts. -/
theorem view_ext (hrows : s.db.tenant b = t.db.tenant b)
    (hstaged : ∀ u i, t.db.ownsUpload b u = true → s.disk (.part u i) = t.disk (.part u i))
    (hpub : (s.published.filter fun p => decide (p.1 = b)) =
      t.published.filter fun p => decide (p.1 = b)) :
    s.view b = t.view b := by
  unfold Server.view
  rw [hrows, hpub]
  congr 1
  funext u i
  rw [tenant_owns]
  by_cases hu : t.db.ownsUpload b u = true
  · rw [if_pos hu, if_pos hu]
    exact hstaged u i hu
  · rw [if_neg hu, if_neg hu]

end Alike

/-! ## Steps -/

section Steps
variable {sha256Hex : Bytes → String} {b : String} {P : Server → Server → Prop}

theorem readDb_alike {α : Type} {f : Db → α} (hf : ∀ db, f (db.tenant b) = f db) :
    Prog.Same (Alike sha256Hex b) (readDb f) := .get (fun _ _ h => h.read hf) fun _ _ h => h

/-- A read, with its value. -/
theorem readDb_value {α : Type} {f : Db → α} (hf : ∀ db, f (db.tenant b) = f db) :
    Prog.Twin (Alike sha256Hex b) (readDb f) (fun r s t => Alike sha256Hex b s t ∧
      f s.db = r) (Alike sha256Hex b) :=
  .get (fun _ _ h => h.read hf) fun _ _ h => ⟨h, rfl⟩

theorem readDisk_alike {α : Type} {f : Disk → Except String α}
    (hP : ∀ s t, P s t → Alike sha256Hex b s t) (hf : ∀ s t, P s t → f s.disk = f t.disk) :
    Prog.Twin P (readDisk f) (fun _ => Alike sha256Hex b) (Alike sha256Hex b) := by
  refine Prog.Twin.bind (Q := fun _ => Alike sha256Hex b) (.get hf hP) fun r => ?_
  cases r with
  | ok a => exact .pure fun _ _ h => h
  | error e => exact .raise fun _ _ h => h

theorem assert_alike (r : Except String Unit) : Prog.Same (Alike sha256Hex b) (assert r) := by
  cases r with
  | ok u => exact .pure fun _ _ h => h
  | error e => exact .raise fun _ _ h => h

theorem found_alike {α : Type} (o : Option α) (e : Abort) :
    Prog.Same (Alike sha256Hex b) (Prog.found o e) :=
  .found (fun _ _ _ _ h => h) fun _ _ h => h

theorem require_alike (c : Bool) (e : Abort) : Prog.Same (Alike sha256Hex b) (Prog.require c e) :=
  .require (fun _ _ _ h => h) fun _ _ h => h

/-- No upload session and no blob of the account is new. -/
def NothingNew (b : String) (d d' : Db) : Prop :=
  (∀ u, d'.ownsUpload b u = true → d.ownsUpload b u = true) ∧
    ∀ h, (getBlob b h d').isSome = true → (getBlob b h d).isSome = true

/-- A transaction on the account's rows. -/
theorem exec_alike {α : Type} {m : DbTx α} (hl : m.Local (Db.tenant b))
    (hn : m.Moves (NothingNew b)) :
    Prog.Same (Alike sha256Hex b) (exec m) := by
  intro s t h
  have hagree := hl.agree h.rows
  cases hs : m.eval s.db with
  | error e =>
    cases ht : m.eval t.db with
    | ok r => rw [hs, ht] at hagree; cases hagree
    | error e' =>
      rw [hs, ht] at hagree
      cases hagree
      rw [exec_fails hs, exec_fails ht]
      exact ⟨rfl, h⟩
  | ok r =>
    cases ht : m.eval t.db with
    | error e' => rw [hs, ht] at hagree; cases hagree
    | ok r' =>
      obtain ⟨x, d⟩ := r
      obtain ⟨y, d'⟩ := r'
      rw [hs, ht] at hagree
      simp only [Except.map, Except.ok.injEq, Prod.mk.injEq] at hagree
      obtain ⟨rfl, hrows⟩ := hagree
      obtain ⟨hu, hb⟩ := hn s.db x d hs
      obtain ⟨hu', -⟩ := hn t.db x d' ht
      rw [exec_run hs, exec_run ht]
      refine ⟨rfl, view_ext hrows (fun u i ho => ?_) h.published, h.left, h.right,
        fun k hk => h.bytes k (hb k hk)⟩
      exact h.staged (by rw [h.owns]; exact hu' u ho) i

theorem emit_alike (env : Env) (nudge : Nudge) :
    Prog.Same (Alike sha256Hex b) (emit env b nudge) := by
  refine .poke fun s t h =>
    ⟨view_ext h.rows (fun u i ho => h.staged (by rw [h.owns]; exact ho) i) ?_,
      h.left, h.right, h.bytes⟩
  rw [List.filter_append, List.filter_append, h.published]

theorem gated_alike {cfg : Config} {rule : QuotaPolicy → Db → Option QuotaVerdict}
    (h : ∀ gate db, rule gate (db.tenant b) = rule gate db) :
    Prog.Same (Alike sha256Hex b) (gated cfg rule) := by
  unfold gated
  cases makeQuotaGate cfg.quotas with
  | none => exact .pure fun _ _ h => h
  | some gate =>
    refine .bind (readDb_alike (h gate)) fun rejected => ?_
    cases rejected with
    | none => exact .pure fun _ _ h => h
    | some v => exact .raise fun _ _ h => h

/-- A change of the files under the account's sessions, the blobs left alone. -/
theorem file_alike {f : Disk → Disk} {Q : Unit → Server → Server → Prop}
    (hP : ∀ s t, P s t → Alike sha256Hex b s t) (hblob : ∀ d h, f d (.blob h) = d (.blob h))
    (hpart : ∀ s t, P s t → ∀ u i, t.db.ownsUpload b u = true →
      f s.disk (.part u i) = f t.disk (.part u i))
    (hQ : ∀ s t, P s t → Alike sha256Hex b { s with disk := f s.disk } { t with disk := f t.disk } →
      Q () { s with disk := f s.disk } { t with disk := f t.disk }) :
    Prog.Twin P (file f) Q (Alike sha256Hex b) := by
  intro s t hp
  have h := hP s t hp
  refine ⟨rfl, hQ s t hp ⟨view_ext h.rows (hpart s t hp) h.published, ?_, ?_, ?_⟩⟩
  · exact fun k x hx => h.left k x ((hblob s.disk k).symm.trans hx)
  · exact fun k x hx => h.right k x ((hblob t.disk k).symm.trans hx)
  · exact fun k hk => (hblob s.disk k).trans ((h.bytes k hk).trans (hblob t.disk k).symm)

theorem discardSession_alike (u : String) : Prog.Same (Alike sha256Hex b) (discardSession u) := by
  refine .bind (assert_alike _) fun _ =>
    file_alike (fun _ _ h => h) (fun _ _ => rfl) (fun s t h v i ho => ?_) fun _ _ _ h => h
  rw [Disk.removeSession_part, Disk.removeSession_part]
  by_cases hv : v = u
  · rw [if_pos hv, if_pos hv]
  · rw [if_neg hv, if_neg hv]
    exact h.staged (by rw [h.owns]; exact ho) i

theorem writePart_alike (u : String) (i : Nat) (bytes : Bytes) :
    Prog.Same (Alike sha256Hex b) (writePart u i bytes) := by
  refine .bind (assert_alike _) fun _ => ?_
  refine Prog.Twin.bind (Q := fun _ s t => Alike sha256Hex b s t ∧
    s.disk (.partTmp u i) = t.disk (.partTmp u i))
    (file_alike (fun _ _ h => h) (fun d h => Disk.write_other d (by simp) bytes)
      (fun s t h v j ho => ?_)
      fun s t _ h => ⟨h, ?_⟩) fun _ => ?_
  · rw [Disk.write_other _ (by simp), Disk.write_other _ (by simp)]
    exact h.staged (by rw [h.owns]; exact ho) j
  · exact (Disk.write_self s.disk _ bytes).trans (Disk.write_self t.disk _ bytes).symm
  · refine file_alike (fun _ _ h => h.1) (fun d h => Disk.rename_other d (by simp) (by simp))
      (fun s t h v j ho => ?_) fun _ _ _ h => h
    by_cases hv : Path.part v j = .part u i
    · rw [hv, Disk.rename_dst, Disk.rename_dst]
      exact h.2
    · rw [Disk.rename_other _ (by simp) hv, Disk.rename_other _ (by simp) hv]
      exact h.1.staged (by rw [h.1.owns]; exact ho) j

theorem discardUploadSession_alike (u : String) :
    Prog.Same (Alike sha256Hex b) (discardUploadSession b u) := by
  unfold discardUploadSession
  refine .bind (readDb_alike (getUploadSession_tenant u)) fun session => ?_
  cases session with
  | none => exact .pure fun _ _ h => h
  | some x =>
    refine .bind (discardSession_alike u) fun _ =>
      exec_alike (deleteUploadSessionFor_local u) fun d o d' e => ?_
    unfold deleteUploadSessionFor at e
    rw [Tx.eval_write] at e
    cases e
    refine ⟨fun v hv => ?_, fun _ hk => hk⟩
    rw [owns_dropSessions] at hv
    simp only [Bool.and_eq_true] at hv
    exact hv.1

end Steps

/-! ## Calls -/

section Calls
variable {sha256Hex : Bytes → String} {b : String}

theorem nothingNew_of {α : Type} {m : DbTx α} (hs : m.Keeps Db.uploadSessions)
    (hb : m.Keeps Db.blobs) :
    m.Moves (NothingNew b) := by
  intro d o d' e
  have hs' : d'.uploadSessions = d.uploadSessions := hs d o d' e
  have hb' : d'.blobs = d.blobs := hb d o d' e
  unfold NothingNew Db.ownsUpload getBlob
  rw [hs', hb']
  exact ⟨fun _ h => h, fun _ h => h⟩

theorem batch_alike (cfg : Config) (env : Env) (app : String) (rows : List SyncRowInput)
    (notify : Bool) :
    Prog.Same (Alike sha256Hex b) (batch cfg env b app rows notify) := by
  refine .bind (gated_alike fun gate db => ?_) fun _ =>
    .bind (exec_alike (batchUpsert_local app b rows _) ?_) fun r => ?_
  · unfold admitSyncBatch netNewRows
    rw [syncRowCount_tenant, countExistingEntities_tenant]
  · have hframe := batchUpsert_frame app b rows env.clock
    exact nothingNew_of (hframe.of Db.uploadSessions fun _ => rfl) (hframe.of Db.blobs fun _ => rfl)
  · exact .ite (fun _ => .bind (emit_alike env _) fun _ => .pure fun _ _ h => h) fun _ =>
      .pure fun _ _ h => h

theorem deleteEntity_alike (env : Env) (app e : String) (deletedAt : Option Nat) :
    Prog.Same (Alike sha256Hex b) (deleteEntity env b app e deletedAt) := by
  refine .bind (exec_alike (softDeleteRow_local app b e _ _) ?_) fun r =>
    .bind (found_alike _ _) fun r => ?_
  · have hframe := softDeleteRow_frame app b e (deletedAt.map .ofNat) (env.clock 0)
    exact nothingNew_of (hframe.of Db.uploadSessions fun _ => rfl) (hframe.of Db.blobs fun _ => rfl)
  · exact .ite (fun _ => .pure fun _ _ h => h) fun _ => .bind (emit_alike env _) fun _ =>
      .pure fun _ _ h => h

theorem intentsBatch_alike (cfg : Config) (env : Env) (events : List IntentEventInput) :
    Prog.Same (Alike sha256Hex b) (intentsBatch cfg env b events) := by
  refine .bind (gated_alike fun gate db => ?_) fun _ =>
    .bind (exec_alike (insertIntents_local events _) ?_) fun r => ?_
  · unfold admitIntents netNewIntents
    rw [intentCount_tenant, countExistingIntentEvents_tenant]
  · have hframe := insertIntents_frame b events env.clock
    exact nothingNew_of (hframe.of Db.uploadSessions fun _ => rfl) (hframe.of Db.blobs fun _ => rfl)
  · exact .ite (fun _ => .bind (emit_alike env _) fun _ => .pure fun _ _ h => h) fun _ =>
      .pure fun _ _ h => h

/-- Both reference routes: a change of a stored blob. -/
theorem changeRef_alike {change : DbTx (Option Blob)} (hl : change.Local (Db.tenant b))
    (hf : change.Keeps Db.outsideBlobs)
    (hb : change.Moves fun d d' => ∀ h, (getBlob b h d').isSome = true →
      (getBlob b h d).isSome = true) :
    Prog.Same (Alike sha256Hex b) (changeRef change) := by
  refine .bind (exec_alike hl fun d o d' e => ⟨fun u hu => ?_, hb d o d' e⟩) fun _ =>
    .bind (found_alike _ _) fun _ => .pure fun _ _ h => h
  have hs : d'.uploadSessions = d.uploadSessions := (hf.of Db.uploadSessions fun _ => rfl) d o d' e
  unfold Db.ownsUpload at hu ⊢
  rw [← hs]
  exact hu

/-- Writing over a stored blob stores no new one. -/
theorem putBlob_present {d d' : Db} {h : String} {x y : Blob} (hd : d'.blobs = d.blobs)
    (hx : d.blobs.find (b, h) = some x)
    (hy : y.key = x.key) (k : String) (hk : (getBlob b k (d'.putBlob y)).isSome = true) :
    (getBlob b k d).isSome = true := by
  have hkey : y.key = (b, h) := hy.trans (Table.find_key hx)
  unfold getBlob at hk ⊢
  unfold Db.putBlob at hk
  rw [hd, Table.find_upsert, hkey] at hk
  by_cases e : (b, h) = (b, k)
  · rw [← e, hx]; rfl
  · rw [if_neg e] at hk
    exact hk

theorem refAdd_alike (env : Env) (h : String) : Prog.Same (Alike sha256Hex b) (refAdd env b h) := by
  refine changeRef_alike (addBlobReference_local h _)
    (addBlobReference_frame b h _) fun d o d' e k hk => ?_
  rw [addBlobReference_eval] at e
  cases hf : d.blobs.find (b, h) with
  | none => rw [hf] at e; cases e; exact hk
  | some x => rw [hf] at e; cases e; exact putBlob_present rfl hf (x.referenced_key _) k hk

theorem refRelease_alike (env : Env) (h : String) :
    Prog.Same (Alike sha256Hex b) (refRelease env b h) := by
  refine changeRef_alike (releaseBlobReference_local h _)
    (releaseBlobReference_frame b h _) fun d o d' e k hk => ?_
  rw [releaseBlobReference_eval] at e
  cases hf : d.blobs.find (b, h) with
  | none => rw [hf] at e; cases e; exact hk
  | some x =>
    rw [hf] at e
    simp only at e
    split at e
    · cases e; exact putBlob_present rfl hf (x.touched_key _) k hk
    · split at e
      · cases e; 
        have hbump : (d.bump b).blobs = d.blobs := rfl
        exact putBlob_present hbump hf (x.released_key _ _) k hk
      · cases e; exact putBlob_present rfl hf (x.released_key _ _) k hk

/-! ### Uploads -/

/-- What upload ids are used in. -/
def Server.uploads (s : Server) : Table UploadSession.uploadId × Table UploadPart.key × Disk :=
  (s.db.uploadSessions, s.db.uploadParts, s.disk)

/-- The id of a session, of an acked part, or of a staged file. -/
def usedIn (x : Table UploadSession.uploadId × Table UploadPart.key × Disk) (u : String) : Prop :=
  x.1.find u ≠ none ∨ (∃ p ∈ x.2.1.rows, p.uploadId = u) ∨ ∃ i, x.2.2 (.part u i) ≠ none

def Server.uses (s : Server) (u : String) : Prop := usedIn s.uploads u

theorem initiate_alike (cfg : Config) (env : Env) (h : String) (size : Nat) :
    Prog.Twin (fun s t => Alike sha256Hex b s t ∧ ¬ s.uses env.uuid ∧
      ¬ t.uses env.uuid) (initiate cfg env b h size)
      (fun _ => Alike sha256Hex b) (Alike sha256Hex b) := by
  have hread : ∀ {α : Type} {f : Db → α}, (∀ db, f (db.tenant b) = f db) →
      Prog.Twin (fun s t => Alike sha256Hex b s t ∧ ¬ s.uses env.uuid ∧ ¬ t.uses env.uuid)
        (readDb f)
        (fun _ s t => Alike sha256Hex b s t ∧ ¬ s.uses env.uuid ∧
          ¬ t.uses env.uuid) (Alike sha256Hex b) :=
    fun hf => .get (fun _ _ h => h.1.read hf) fun _ _ h => h
  unfold initiate
  refine .bind (hread fun db => tenant_blob b db h) fun owned => ?_
  cases owned with
  | some r => exact .pure fun _ _ h => h.1
  | none =>
    refine Prog.Twin.bind (Q := fun _ s t => Alike sha256Hex b s t ∧ ¬ s.uses env.uuid ∧
      ¬ t.uses env.uuid) ?_ fun _ =>
      Prog.Twin.bind (Q := fun _ => Alike sha256Hex b) ?_ fun _ => .pure fun _ _ h => h
    · unfold gated
      cases makeQuotaGate cfg.quotas with
      | none => exact .pure fun _ _ h => h
      | some gate =>
        refine .bind (hread fun db => ?_) fun rejected => ?_
        · simp only [admitUpload, blobFootprint_tenant]
        · cases rejected with
          | none => exact .pure fun _ _ h => h
          | some v => exact .raise fun _ _ h => h.1
    · intro s t ⟨ha, hs, ht⟩
      unfold Server.uses usedIn Server.uploads at hs ht
      simp only [not_or, not_exists, not_and, not_not] at hs ht
      have heval : ∀ {d : Db}, d.uploadSessions.find env.uuid = none →
          (createUploadSession b env.uuid h size (env.clock 0)).eval d =
            .ok ((), d.putSession ⟨env.uuid, b, h, size, env.clock 0⟩) := fun hn => by
        rw [createUploadSession_eval, if_neg (by simp [Table.has, hn])]
      rw [exec_run (heval hs.1), exec_run (heval ht.1)]
      refine ⟨rfl, view_ext ?_ (fun u i ho => ?_) ha.published, ha.left, ha.right, ha.bytes⟩
      · show (s.db.putSession _).tenant b = (t.db.putSession _).tenant b
        rw [putSession_tenant (by rfl) hs.1 hs.2.1, putSession_tenant (by rfl) ht.1 ht.2.1, ha.rows]
      · by_cases hu : u = env.uuid
        · subst hu
          exact (hs.2.2 i).trans (ht.2.2 i).symm
        · refine ha.staged ?_ i
          rw [ha.owns, ← owns_putSession (s := ⟨env.uuid, b, h, size, env.clock 0⟩) b u hu]
          exact ho

theorem uploadStatus_alike (u : String) : Prog.Same (Alike sha256Hex b) (uploadStatus b u) := by
  refine .bind (readDb_alike (getUploadSession_tenant u)) fun _ =>
    .bind (found_alike _ _) fun session => ?_
  exact .bind (readDb_alike (listUploadParts_tenant session.uploadId)) fun _ => .pure fun _ _ h => h

theorem putPart_alike (env : Env) (u index : String) (bytes : Bytes) :
    Prog.Same (Alike sha256Hex b) (putPart env b u index bytes) := by
  unfold putPart stageUploadPart
  refine .bind (readDb_alike (getUploadSession_tenant u)) fun _ =>
    .bind (found_alike _ _) fun session => ?_
  refine .bind (found_alike _ _) fun i =>
    .bind (readDb_alike (listUploadParts_tenant session.uploadId)) fun parts => ?_
  refine .bind (require_alike _ _) fun _ => .bind (Q := fun _ => Alike sha256Hex b) ?_ fun _ => ?_
  · refine .bind (readDb_alike (getUploadSession_tenant _)) fun _ =>
      .bind (require_alike _ _) fun _ => ?_
    refine .bind (writePart_alike _ i bytes) fun _ =>
      exec_alike (recordUploadPart_local _ i _ _) fun d o d' e => ?_
    unfold recordUploadPart at e
    rw [Tx.eval_write] at e
    cases e
    split
    · exact ⟨fun _ h => h, fun _ h => h⟩
    · exact ⟨fun _ h => h, fun _ h => h⟩
  · exact .bind (readDb_alike (listUploadParts_tenant _)) fun _ => .pure fun _ _ h => h

theorem cancel_alike (u : String) : Prog.Same (Alike sha256Hex b) (cancel b u) := by
  refine .bind (readDb_alike (getUploadSession_tenant u)) fun _ =>
    .bind (found_alike _ _) fun session => ?_
  exact .bind (discardUploadSession_alike _) fun _ => .pure fun _ _ h => h

theorem readParts_congr {d d' : Disk} {u : String} (h : ∀ i, d (.part u i) = d' (.part u i)) :
    ∀ is, Disk.readParts d u is = Disk.readParts d' u is
  | [] => rfl
  | i :: is => by rw [Disk.readParts, Disk.readParts, h, readParts_congr h is]

theorem assembleUpload_alike (u : String) : Prog.Same (Alike sha256Hex b) (assembleUpload b u) := by
  unfold assembleUpload
  refine .bind (readDb_value (getUploadSession_tenant u)) fun session => ?_
  refine Prog.Twin.bind (Q := fun _ s t => Alike sha256Hex b s t ∧ s.db.ownsUpload b u = true)
    (.require (fun hsome s t h => ⟨h.1, ?_⟩) fun _ _ h => h.1) fun _ => ?_
  · obtain ⟨x, hx⟩ := Option.isSome_iff_exists.1 hsome
    exact owns_of_session (h.2.trans hx)
  · refine Prog.Twin.bind (Q := fun _ s t => Alike sha256Hex b s t ∧ s.db.ownsUpload b u = true)
      (.get (fun _ _ h => h.1.read (listUploadParts_tenant u)) fun _ _ h => h) fun parts => ?_
    refine readDisk_alike (fun _ _ h => h.1) fun s t h => ?_
    unfold Disk.assemble
    rw [readParts_congr (h.1.staged h.2)]

/-- What a put of bytes of that hash leaves: nothing where the blob was there. -/
theorem put_run {h : String} (hv : isHash h = true) (bytes : Bytes) (s : Server) :
    (put h bytes s).result = .ok () ∧ ∃ d, (put h bytes s).state = { s with disk := d } ∧
      d (.blob h) = some ((s.disk (.blob h)).getD bytes) ∧
        (∀ k, k ≠ h → d (.blob k) = s.disk (.blob k)) ∧
      ∀ u i, d (.part u i) = s.disk (.part u i) := by
  have hassert : Disk.assertHash h = .ok () := by simp [Disk.assertHash, hv]
  have hrun : put h bytes s = if (s.disk (.blob h)).isSome then ⟨.ok (), s, []⟩
      else (do
        file fun d => d.write (.blobTmp h) bytes
        file fun d => d.rename (.blobTmp h) (.blob h) : Handler Unit) s := by
    unfold put
    rw [hassert]
    rw [show assert (Except.ok ()) = (pure () : Handler Unit) from rfl,
      Prog.pure_bind, Prog.get_bind]
    split <;> rfl
  rw [hrun]
  cases hb : s.disk (.blob h) with
  | some x => exact ⟨rfl, s.disk, rfl, hb, fun _ _ => rfl, fun _ _ => rfl⟩
  | none =>
    refine ⟨rfl, (s.disk.write (.blobTmp h) bytes).rename (.blobTmp h) (.blob h), rfl, ?_,
      fun k hk => ?_, fun u i => ?_⟩
    · rw [Disk.rename_dst, Disk.write_self]
      rfl
    · rw [Disk.rename_other _ (by simp) (by simpa using hk), Disk.write_other _ (by simp)]
    · rw [Disk.rename_other _ (by simp) (by simp), Disk.write_other _ (by simp)]

/-- Both stores hold the bytes after a put, whoever wrote them. -/
theorem put_alike (hinj : Function.Injective sha256Hex) {h : String} {bytes : Bytes}
    (haddress : sha256Hex bytes = h) :
    Prog.Twin (Alike sha256Hex b) (put h bytes)
      (fun _ s t => Alike sha256Hex b s t ∧ s.disk (.blob h) = t.disk (.blob h))
    (Alike sha256Hex b) := by
  intro s t ha
  cases hv : isHash h with
  | false =>
    have hassert : Disk.assertHash h = .error s!"invalid blob hash: {h}" := by
      simp [Disk.assertHash, hv]
    unfold put
    rw [hassert]
    exact ⟨rfl, ha⟩
  | true =>
    have hfile : ∀ {v : Server}, (∀ k x, v.disk (.blob k) = some x → sha256Hex x = k) →
        (v.disk (.blob h)).getD bytes = bytes := fun {v} hv => by
      cases hb : v.disk (.blob h) with
      | none => rfl
      | some x => exact hinj ((hv h x hb).trans haddress.symm)
    have haddressed : ∀ {v : Server} {d : Disk}, (∀ k x, v.disk (.blob k) = some x →
        sha256Hex x = k) →
        d (.blob h) = some bytes → (∀ k, k ≠ h → d (.blob k) = v.disk (.blob k)) →
        ∀ k x, d (.blob k) = some x → sha256Hex x = k := fun {v d} hv hd ho k x hx => by
      by_cases hk : k = h
      · subst hk
        rw [hd] at hx
        cases hx
        exact haddress
      · exact hv k x ((ho k hk).symm.trans hx)
    obtain ⟨hr, d, hd, hblob, hother, hpart⟩ := put_run hv bytes s
    obtain ⟨hr', d', hd', hblob', hother', hpart'⟩ := put_run hv bytes t
    rw [hfile ha.left] at hblob
    rw [hfile ha.right] at hblob'
    rw [hr, hr', hd, hd']
    refine ⟨rfl, ⟨view_ext ha.rows (fun u i ho => ?_) ha.published, haddressed ha.left hblob hother,
      haddressed ha.right hblob' hother', fun k hk => ?_⟩, hblob.trans hblob'.symm⟩
    · exact (hpart u i).trans ((ha.staged (by rw [ha.owns]; exact ho) i).trans (hpart' u i).symm)
    · by_cases he : k = h
      · subst he
        exact hblob.trans hblob'.symm
      · exact (hother k he).trans ((ha.bytes k hk).trans (hother' k he).symm)

theorem insertBlob_alike {h : String} (size : Nat) (now : String) :
    Prog.Twin (fun s t => Alike sha256Hex b s t ∧ s.disk (.blob h) = t.disk (.blob h))
      (exec (insertBlobIfAbsent b h size now)) (fun _ => Alike sha256Hex b)
    (Alike sha256Hex b) := by
  intro s t ⟨ha, hbytes⟩
  have hfind : s.db.blobs.find (b, h) = t.db.blobs.find (b, h) :=
    ha.read (f := getBlob b h) fun db => tenant_blob b db h
  have hlatest : latestSeq s.db b = latestSeq t.db b :=
    ha.read (f := fun db => latestSeq db b) fun db => latestSeq_tenant db b
  cases hf : s.db.blobs.find (b, h) with
  | some x =>
    have hs := insertBlobIfAbsent_eval b h size now s.db
    have ht := insertBlobIfAbsent_eval b h size now t.db
    rw [hf] at hs
    rw [← hfind, hf] at ht
    rw [exec_run hs, exec_run ht]
    exact ⟨rfl, ha⟩
  | none =>
    have hs := insertBlobIfAbsent_eval b h size now s.db
    have ht := insertBlobIfAbsent_eval b h size now t.db
    rw [hf] at hs
    rw [← hfind, hf, ← hlatest] at ht
    rw [exec_run hs, exec_run ht]
    refine ⟨rfl, view_ext ?_ (fun u i ho => ha.staged (by rw [ha.owns]; exact ho) i) ha.published,
      ha.left, ha.right, fun k hk => ?_⟩
    · show ((s.db.bump b).putBlob _).tenant b = ((t.db.bump b).putBlob _).tenant b
      rw [putBlob_tenant (by rfl), putBlob_tenant (by rfl), bump_tenant, bump_tenant, ha.rows]
    · by_cases he : k = h
      · subst he
        exact hbytes
      · refine ha.bytes k ?_
        have hk :
            (((s.db.bump b).putBlob (.fresh b h size (latestSeq s.db b + 1) now)).blobs.find
              (b, k)).isSome = true := hk
        unfold Db.putBlob at hk
        rw [Table.find_upsert, if_neg (by simpa [Blob.fresh, Blob.key] using Ne.symm he)] at hk
        exact hk

theorem finalize_alike (cfg : Config) {host : Host} (hinj : Function.Injective host.sha256Hex)
    (env : Env) (u : String) :
    Prog.Same (Alike host.sha256Hex b) (finalize cfg host env b u) := by
  unfold finalize
  refine .bind (readDb_alike (getUploadSession_tenant u)) fun _ =>
    .bind (found_alike _ _) fun session => ?_
  refine .bind (readDb_alike fun db => tenant_blob b db session.blobHash) fun owned => ?_
  cases owned with
  | some r => exact .bind (discardUploadSession_alike _) fun _ => .pure fun _ _ h => h
  | none =>
    unfold storeUpload
    refine .bind (assembleUpload_alike _) fun bytes => .bind (require_alike _ _) fun _ => ?_
    refine .ite (fun _ => .bind (discardUploadSession_alike _) fun _ => .raise fun _ _ h => h)
      fun hhash => ?_
    refine Prog.Twin.bind (Q := fun _ => Alike host.sha256Hex b) ?_ fun _ => ?_
    · unfold finalizeGate
      cases makeQuotaGate cfg.quotas with
      | none => exact .pure fun _ _ h => h
      | some gate =>
        refine .bind (readDb_alike fun db => ?_) fun rejected => ?_
        · simp only [admitFinalize, blobFootprint_tenant]
        · cases rejected with
          | none => exact .pure fun _ _ h => h
          | some v => exact .bind (discardUploadSession_alike _) fun _ => .raise fun _ _ h => h
    · refine .bind (put_alike hinj (by simpa using hhash)) fun _ =>
        .bind (insertBlob_alike _ _) fun _ => ?_
      exact .bind (discardUploadSession_alike _) fun _ => .pure fun _ _ h => h

theorem statBlobBytes_alike (h : String) :
    Prog.Same (Alike sha256Hex b) (statBlobBytes b h) := by
  unfold statBlobBytes
  refine .bind (readDb_value fun db => tenant_blob b db h) fun r => ?_
  cases r with
  | none => exact .pure fun _ _ h => h.1
  | some x =>
    refine readDisk_alike (fun _ _ h => h.1) fun s t h => ?_
    unfold Disk.stat
    rw [h.1.bytes _ (by rw [h.2]; rfl)]

theorem readBlobRange_alike (h : String) (i j : Nat) :
    Prog.Same (Alike sha256Hex b) (readBlobRange b h i j) := by
  unfold readBlobRange
  refine .bind (readDb_value fun db => tenant_blob b db h) fun r => ?_
  refine Prog.Twin.bind (Q := fun _ s t => Alike sha256Hex b s t ∧ (getBlob b h s.db).isSome = true)
    (.require (fun hsome s t h => ⟨h.1, by rw [h.2]; exact hsome⟩) fun _ _ h => h.1) fun _ => ?_
  refine readDisk_alike (fun _ _ h => h.1) fun s t h => ?_
  unfold Disk.readRange
  rw [h.1.bytes _ h.2]

theorem download_alike (h : String) (range : Option String) :
    Prog.Same (Alike sha256Hex b) (download b h range) := by
  unfold download
  refine .bind (statBlobBytes_alike h) fun stat => .bind (found_alike _ _) fun size => ?_
  split
  · exact .pure fun _ _ h => h
  · exact .ite (fun _ => .pure fun _ _ h => h) fun _ => .bind (readBlobRange_alike h _ _) fun _ =>
      .pure fun _ _ h => h
  · exact .bind (readBlobRange_alike h _ _) fun _ => .pure fun _ _ h => h

/-- **A call of an account depends on its view only**, and keeps two servers
alike. What an event stream is answered depends on the streams of all. -/
theorem perform_alike (cfg : Config) {host : Host} (hinj : Function.Injective host.sha256Hex)
    (credential : Option Credential) (env : Env) (call : Call) (hcall : call ≠ .connect) :
    Prog.Twin (fun s t => Alike host.sha256Hex b s t ∧ ¬ s.uses env.uuid ∧ ¬ t.uses env.uuid)
      (perform cfg host credential env b call) (fun _ => Alike host.sha256Hex b)
    (Alike host.sha256Hex b) := by
  have hsame : ∀ {m : Handler Response}, Prog.Same (Alike host.sha256Hex b) m →
      Prog.Twin (fun s t => Alike host.sha256Hex b s t ∧ ¬ s.uses env.uuid ∧ ¬ t.uses env.uuid) m
        (fun _ => Alike host.sha256Hex b) (Alike host.sha256Hex b) := fun h =>
          h.pre fun _ _ hs => hs.1
  cases call with
  | batch app rows notify => exact hsame (batch_alike cfg env app rows notify)
  | device d n =>
    refine hsame (.bind (exec_alike (updateDeviceCursor_local d n _) ?_) fun _ =>
      .pure fun _ _ h => h)
    have hframe := updateDeviceCursor_frame b d n (env.clock 0)
    exact nothingNew_of (hframe.of Db.uploadSessions fun _ => rfl) (hframe.of Db.blobs fun _ => rfl)
  | list app since limit =>
    exact hsame (.bind (readDb_alike fun db => listRows_tenant app b since limit db) fun _ =>
      .pure fun _ _ h => h)
  | getEntity app e =>
    refine hsame (.bind (readDb_alike fun db => getRow_tenant app b e db) fun _ => .bind
      (found_alike _ _) fun _ => ?_)
    exact .pure fun _ _ h => h
  | deleteEntity app e t => exact hsame (deleteEntity_alike env app e t)
  | intents events => exact hsame (intentsBatch_alike cfg env events)
  | listIntents since limit =>
    exact hsame (.bind (readDb_alike fun db => listIntents_tenant since limit _ db) fun _ =>
      .pure fun _ _ h => h)
  | getSalt =>
    refine hsame (.bind (readDb_alike fun db => tenant_salt b db) fun _ => .bind
      (found_alike _ _) fun _ => ?_)
    exact .pure fun _ _ h => h
  | putSalt salt =>
    refine hsame (.bind (exec_alike (putSaltIfAbsent_local salt _) ?_) fun _ =>
      .pure fun _ _ h => h)
    have hframe := putSaltIfAbsent_frame b salt (env.clock 0)
    exact nothingNew_of (hframe.of Db.uploadSessions fun _ => rfl) (hframe.of Db.blobs fun _ => rfl)
  | initiate hash valid size => exact initiate_alike cfg env hash size
  | uploadStatus u => exact hsame (uploadStatus_alike u)
  | putPart u index bytes => exact hsame (putPart_alike env u index bytes)
  | finalize u => exact hsame (finalize_alike cfg hinj env u)
  | cancel u => exact hsame (cancel_alike u)
  | refAdd hash => exact hsame (refAdd_alike env hash)
  | refRelease hash => exact hsame (refRelease_alike env hash)
  | head hash =>
    refine hsame (.bind (readDb_alike fun db => tenant_blob b db hash) fun _ => .bind
      (found_alike _ _) fun _ => ?_)
    exact .pure fun _ _ h => h
  | download hash range => exact hsame (download_alike hash range)
  | connect => exact absurd rfl hcall

/-- The event streams count against one ceiling for all accounts. -/
def Route.streams : Route → Bool
  | .events _ => true
  | _ => false

theorem check_connect {cfg : Config} {host : Host} {route : Route} {claimed : String}
    (h : check cfg host route = .ok (claimed, .connect)) : route.streams = true := by
  cases route with
  | events query => rfl
  | _ =>
    simp only [check, bind, Except.bind, pure, Except.pure] at h
    repeat' split at h
    all_goals cases h

/-- An event stream changes no account's view. -/
theorem connect_view (cfg : Config) (credential : Option Credential) (a : String) :
    Prog.Keeps (Server.view b) (connect cfg credential a) := by
  refine .bind (.get _) fun id => .bind (.get _) fun subscribed =>
    .bind (.poke fun s => rfl) fun _ => ?_
  exact .bind (.require _ _) fun _ => .bind (.get _) fun _ => .pure _

end Calls

/-! ## Upload ids -/

/-- No id comes into use, but perhaps `fresh`. -/
def Brings (fresh : Option String)
    (x y : Table UploadSession.uploadId × Table UploadPart.key × Disk) : Prop :=
  ∀ u, usedIn y u → usedIn x u ∨ fresh = some u

abbrev Bringing {α : Type} (fresh : Option String) (P : Server → Prop) (m : Handler α) : Prop :=
  Prog.Follows Server.uploads (Brings fresh) P m fun _ _ => True

theorem uploads_ignores {area : Area} (hu : area ≠ .uploads) (hf : area ≠ .files) :
    Ignores Server.uploads area := by
  cases area with
  | uploads => exact absurd rfl hu
  | files => exact absurd rfl hf
  | sync => exact ignores_of fun _ => rfl
  | intents => exact ignores_of fun _ => rfl
  | devices => exact ignores_of (f := fun db => { db with devices := .empty }) fun _ => rfl
  | salts => exact ignores_of (f := fun db => { db with accountSalts := .empty }) fun _ => rfl
  | blobs => exact ignores_of fun _ => rfl
  | registry => exact ignores_of fun _ => rfl

section Brings
variable {fresh : Option String} {P : Server → Prop}

/-- Files and rows taken away. -/
theorem brings_of {x y : Table UploadSession.uploadId × Table UploadPart.key × Disk}
    (hs : ∀ u, y.1.find u ≠ none → x.1.find u ≠ none) (hp : ∀ p ∈ y.2.1.rows, p ∈ x.2.1.rows)
    (hd : ∀ u i, y.2.2 (.part u i) ≠ none → x.2.2 (.part u i) ≠ none) : Brings fresh x y := by
  intro u hu
  rcases hu with h | ⟨p, h, e⟩ | ⟨i, h⟩
  · exact .inl (.inl (hs u h))
  · exact .inl (.inr (.inl ⟨p, hp p h, e⟩))
  · exact .inl (.inr (.inr ⟨i, hd u i h⟩))

theorem dropSessions_brings {P : Server → Prop} (p : UploadSession → Bool) :
    Bringing fresh P (exec (Tx.write fun db => ((), db.dropSessions p))) := by
  refine exec_follows fun s o db _ e =>
    ⟨.inr (brings_of (fun u h => ?_) (fun r hr => ?_) fun _ _ h => h), trivial⟩
  · rw [Tx.eval_write] at e
    cases e
    have h : (s.db.dropSessions p).uploadSessions.find u ≠ none := h
    intro hn
    have hn : s.db.uploadSessions.find u = none := hn
    exact h (by rw [find_dropSessions, hn]; rfl)
  · rw [Tx.eval_write] at e
    cases e
    exact (mem_dropSessions_parts.1 hr).1

theorem discardSession_brings (u : String) : Bringing fresh P (discardSession u) := by
  refine .bind (assert_passes _) fun _ => .step fun s o s' _ e => ?_
  cases e
  refine ⟨.inr (brings_of (fun _ h => h) (fun _ h => h) fun v i h => ?_), trivial⟩
  have h : s.disk.removeSession u (.part v i) ≠ none := h
  rw [Disk.removeSession_part] at h
  split at h
  · exact absurd rfl h
  · exact h

theorem discardUploadSession_brings (a u : String) :
    Bringing fresh P (discardUploadSession a u) := by
  unfold discardUploadSession
  refine .bind (.fetch _) fun session => ?_
  cases session with
  | none => exact .pure fun _ _ => trivial
  | some t => exact .bind (discardSession_brings u) fun _ => dropSessions_brings _

theorem putPart_brings (env : Env) (a u index : String) (bytes : Bytes) :
    Bringing fresh P (putPart env a u index bytes) := by
  unfold putPart stageUploadPart writePart
  refine .bind (.fetch _) fun _ => .bind (Prog.Follows.found fun _ _ _ hs => hs) fun session => ?_
  refine .bind (Prog.Follows.found fun _ _ _ hs => hs) fun i => .bind (.fetch _) fun parts => ?_
  refine .bind (.guard _ _) fun _ => .bind (Q := fun _ _ => True) ?_ fun _ =>
    .bind (.fetch _) fun _ => .pure fun _ _ => trivial
  refine Prog.Follows.bind (Q := fun o s => getUploadSession a session.uploadId s.db = o)
    (.get fun _ _ => rfl) fun o => ?_
  refine Prog.Follows.bind (Q := fun _ s => s.db.uploadSessions.find session.uploadId ≠ none)
    (.require fun ho s hs hn => ?_) fun _ => ?_
  · unfold getUploadSession at hs
    rw [hn] at hs
    rw [← hs] at ho
    cases ho
  · refine Prog.Follows.bind (Q :=
      fun _ s => s.db.uploadSessions.find session.uploadId ≠ none) ?_ fun _ => ?_
    · refine .bind (assert_passes _) fun _ => ?_
      refine Prog.Follows.bind (Q := fun _ s => s.db.uploadSessions.find session.uploadId ≠ none)
        (.step fun s o s' hs e => ?_) fun _ => .step fun s o s' hs e => ?_
      · cases e
        refine ⟨.inr (brings_of (fun _ h => h) (fun _ h => h) fun v j h => ?_), hs⟩
        have h : s.disk.write (.partTmp session.uploadId i) bytes (.part v j) ≠ none := h
        rwa [Disk.write_other _ (by simp)] at h
      · cases e
        refine ⟨.inr fun v hv => ?_, hs⟩
        rcases hv with h | h | ⟨j, h⟩
        · exact .inl (.inl h)
        · exact .inl (.inr (.inl h))
        · have h : s.disk.rename (.partTmp session.uploadId i) (.part session.uploadId i)
              (.part v j) ≠ none := h
          by_cases he : v = session.uploadId
          · exact .inl (.inl (he ▸ hs))
          · rw [Disk.rename_other _ (by simp) (by simp [he])] at h
            exact .inl (.inr (.inr ⟨j, h⟩))
    · refine exec_follows fun s o db hs e => ⟨.inr fun v hv => ?_, trivial⟩
      unfold recordUploadPart at e
      rw [Tx.eval_write] at e
      cases e
      split at hv
      · rcases hv with h | ⟨p, h, he⟩ | h
        · exact .inl (.inl h)
        · rcases Table.mem_upsert.1 h with rfl | h
          · exact .inl (.inl (he ▸ hs))
          · exact .inl (.inr (.inl ⟨p, h.1, he⟩))
        · exact .inl (.inr (.inr h))
      · exact .inl hv

theorem initiate_brings (cfg : Config) (env : Env) (a h : String) (size : Nat) :
    Bringing (some env.uuid) P (initiate cfg env a h size) := by
  unfold initiate
  refine .bind (.fetch _) fun owned => ?_
  cases owned with
  | some r => exact .pure fun _ _ => trivial
  | none =>
    refine .bind (gated_follows cfg _) fun _ => Prog.Follows.bind (Q := fun _ _ => True)
      (exec_follows fun s o db _ e => ⟨.inr fun v hv => ?_, trivial⟩) fun _ =>
        .pure fun _ _ => trivial
    rw [createUploadSession_eval] at e
    split at e <;> cases e
    rcases hv with hv | hv | hv
    · have hv : (s.db.uploadSessions.upsert ⟨env.uuid, a, h, size, env.clock 0⟩).find v ≠ none := hv
      rw [Table.find_upsert] at hv
      by_cases he : env.uuid = v
      · exact .inr (congrArg some he)
      · rw [if_neg he] at hv
        exact .inl (.inl hv)
    · exact .inl (.inr (.inl hv))
    · exact .inl (.inr (.inr hv))

theorem finalize_brings (cfg : Config) (host : Host) (env : Env) (a u : String) :
    Bringing fresh P (finalize cfg host env a u) := by
  have hput : ∀ hash bytes, Bringing fresh (fun _ => True) (put hash bytes) := fun hash bytes => by
    unfold put
    refine .bind (assert_passes _) fun _ => .bind (.fetch _) fun present =>
      .ite (fun _ => .pure fun _ _ => trivial) fun _ => ?_
    refine Prog.Follows.bind (Q := fun _ _ => True) (.step fun s o s' _ e => ?_) fun _ =>
      .step fun s o s' _ e => ?_
    · cases e
      refine ⟨.inr (brings_of (fun _ h => h) (fun _ h => h) fun v j h => ?_), trivial⟩
      have h : s.disk.write (.blobTmp hash) bytes (.part v j) ≠ none := h
      rwa [Disk.write_other _ (by simp)] at h
    · cases e
      refine ⟨.inr (brings_of (fun _ h => h) (fun _ h => h) fun v j h => ?_), trivial⟩
      have h : s.disk.rename (.blobTmp hash) (.blob hash) (.part v j) ≠ none := h
      rwa [Disk.rename_other _ (by simp) (by simp)] at h
  unfold finalize
  refine .bind (.fetch _) fun _ => .bind (Prog.Follows.found fun _ _ _ hs => hs) fun session =>
    .bind (.fetch _) fun owned => ?_
  cases owned with
  | some r => exact .bind (discardUploadSession_brings a _) fun _ => .pure fun _ _ => trivial
  | none =>
    unfold storeUpload
    refine .bind (assembleUpload_frame a session.uploadId).followsAny fun bytes =>
      .bind (.guard _ _) fun _ => ?_
    refine .ite (fun _ => .bind (discardUploadSession_brings a _) fun _ => .raise _) fun _ => ?_
    refine Prog.Follows.bind (Q := fun _ _ => True) ?_ fun _ => ?_
    · unfold finalizeGate
      cases makeQuotaGate cfg.quotas with
      | none => exact .pure fun _ _ => trivial
      | some gate =>
        refine .bind (.fetch _) fun rejected => ?_
        cases rejected with
        | none => exact .pure fun _ _ => trivial
        | some v => exact .bind (discardUploadSession_brings a _) fun _ => .raise _
    · refine .bind (hput _ _) fun _ => ?_
      have hinsert : Ignores Server.uploads .blobs := uploads_ignores (by simp) (by simp)
      refine .bind
        (exec_keeps (insertBlobIfAbsent_frame a session.blobHash _ _) hinsert).followsAny fun _ =>
          ?_
      exact .bind (discardUploadSession_brings a _) fun _ => .pure fun _ _ => trivial

/-- **A call brings no upload id into use but the one it draws.** -/
theorem perform_brings (cfg : Config) (host : Host) (credential : Option Credential) (env : Env)
    (a : String) (call : Call) :
    Bringing (some env.uuid) P (perform cfg host credential env a call) := by
  have hrest : (∀ area ∈ call.writes, area ≠ .uploads ∧ area ≠ .files) →
      Bringing (some env.uuid) P (perform cfg host credential env a call) := fun h =>
    (perform_frame (fun _ _ _ _ _ => rfl) cfg host credential env a call fun area ha =>
      uploads_ignores (h area ha).1 (h area ha).2).followsAny
  cases call with
  | initiate hash valid size => exact initiate_brings cfg env a hash size
  | putPart u index bytes => exact putPart_brings env a u index bytes
  | finalize u => exact finalize_brings cfg host env a u
  | cancel u =>
    refine .bind (.fetch _) fun _ => .bind (Prog.Follows.found fun _ _ _ hs => hs) fun session => ?_
    exact .bind (discardUploadSession_brings a _) fun _ => .pure fun _ _ => trivial
  | _ => exact hrest (by simp [Call.writes])

theorem reapUploadSessions_brings (ttlMs nowMs : Int) :
    Bringing fresh P (reapUploadSessions ttlMs nowMs) := by
  unfold reapUploadSessions
  refine Prog.Follows.bind (Q := fun _ _ => True) (.ofExcept fun _ _ _ _ => trivial) fun cutoff =>
    .bind (.fetch _) fun stale => ?_
  refine Prog.Follows.bind (Q := fun _ _ => True)
    (.each (I := fun _ _ => True) fun done t rest _ => ?_) fun _ => .pure fun _ _ => trivial
  exact .bind (discardSession_brings _) fun _ => dropSessions_brings _

end Brings

/-! ## The reaper -/

theorem dropSessions_congr {db : Db} {p q : UploadSession → Bool}
    (h : ∀ x ∈ db.uploadSessions.rows, p x = q x) :
    db.dropSessions p = db.dropSessions q := by
  have hs : (db.uploadSessions.keep fun s => !p s) = db.uploadSessions.keep fun s => !q s :=
    Table.ext' (List.filter_congr fun x hx => by rw [h x hx])
  have hp : (db.uploadParts.keep fun r => !(db.uploadSessions.find r.uploadId).any p) =
      db.uploadParts.keep fun r => !(db.uploadSessions.find r.uploadId).any q :=
    Table.ext' (List.filter_congr fun r _ => by
      cases hf : db.uploadSessions.find r.uploadId with
      | none => rfl
      | some x => simp [h x (Table.find_mem hf)])
  unfold Db.dropSessions
  rw [hs, hp]

theorem dropSessions_none {db : Db} {p : UploadSession → Bool}
    (h : ∀ x ∈ db.uploadSessions.rows, p x = false) :
    db.dropSessions p = db := by
  have hs : (db.uploadSessions.keep fun s => !p s) = db.uploadSessions :=
    Table.keep_eq_self fun x hx => by simp [h x hx]
  have hp :
      (db.uploadParts.keep fun r => !(db.uploadSessions.find r.uploadId).any p) = db.uploadParts :=
    Table.keep_eq_self fun r _ => by
      cases hf : db.uploadSessions.find r.uploadId with
      | none => rfl
      | some x => simp [h x (Table.find_mem hf)]
  unfold Db.dropSessions
  rw [hs, hp]

theorem dropSessions_dropSessions (db : Db) (p q : UploadSession → Bool) :
    (db.dropSessions p).dropSessions q = db.dropSessions fun s => p s || q s := by
  have hs : (db.uploadSessions.keep fun s => !p s).keep (fun s => !q s) =
      db.uploadSessions.keep fun s => !(p s || q s) := by
    apply Table.ext'
    show (db.uploadSessions.rows.filter _).filter _ = db.uploadSessions.rows.filter _
    rw [List.filter_filter]
    exact List.filter_congr fun x _ => by cases p x <;> cases q x <;> rfl
  have hp : ((db.dropSessions p).dropSessions q).uploadParts =
      (db.dropSessions fun s => p s || q s).uploadParts := by
    apply Table.ext'
    show (db.uploadParts.rows.filter _).filter _ = db.uploadParts.rows.filter _
    rw [List.filter_filter]
    apply List.filter_congr
    intro r _
    rw [find_dropSessions]
    cases db.uploadSessions.find r.uploadId with
    | none => rfl
    | some x => cases hx : p x <;> simp [Option.filter, hx]
  exact Db.ext rfl rfl rfl rfl rfl rfl hs hp rfl rfl

/-- What the reaper leaves when it has been through `E`. -/
theorem reapEach_state : ∀ (E : List UploadSession)
    (_ : ∀ x ∈ E, isUploadId x.uploadId = true) (s : Server),
    (Prog.each reapSession E s).state.db = s.db.dropSessions
    (fun y => decide (y.uploadId ∈ E.map (·.uploadId))) ∧
      (∀ u i, (Prog.each reapSession E s).state.disk (.part u i) =
        if u ∈ E.map (·.uploadId) then none else s.disk (.part u i)) ∧
      (Prog.each reapSession E s).state.published = s.published
  | [], _, s => by
    exact ⟨(dropSessions_none fun y _ => by simp).symm,
      fun u i => by rw [if_neg (by simp)]; rfl, rfl⟩
  | x :: E, hE, s => by
    have hassert : assert (Disk.assertUploadId x.uploadId) = (pure () : Handler Unit) := by
      simp [Disk.assertUploadId, hE x List.mem_cons_self, assert]
    let s1 : Server :=
      { s with
        disk := s.disk.removeSession x.uploadId,
        db := s.db.dropSessions fun y => y.uploadId = x.uploadId }
    have hstep : (Prog.each reapSession (x :: E) s).state = (Prog.each reapSession E s1).state := by
      show ((reapSession x >>= fun _ => Prog.each reapSession E : Handler Unit) s).state = _
      unfold reapSession discardSession
      rw [hassert, Prog.pure_bind]
      rfl
    obtain ⟨h1, h2, h3⟩ := reapEach_state E (fun y hy => hE y (List.mem_cons_of_mem _ hy)) s1
    rw [hstep]
    refine ⟨?_, fun u i => ?_, h3⟩
    · rw [h1]
      show (s.db.dropSessions _).dropSessions _ = _
      rw [dropSessions_dropSessions]
      refine dropSessions_congr fun y _ => ?_
      by_cases hy : y.uploadId = x.uploadId <;> simp [hy]
    · rw [h2]
      show (if _ then none else s.disk.removeSession x.uploadId (.part u i)) = _
      rw [Disk.removeSession_part]
      by_cases hu : u = x.uploadId <;> simp [hu]

/-- The sessions of an account that a reaper with this cutoff takes. -/
theorem reaped_tenant (b cutoff : String) (db : Db) :
    (db.dropSessions fun y => decide
      (y.uploadId ∈ (listStaleUploadSessions cutoff db).map (·.uploadId))).tenant b =
      (db.tenant b).dropSessions fun y => !decide (cutoff < y.createdAt) := by
  rw [dropSessions_tenant]
  refine dropSessions_congr fun y hy => ?_
  have hmem : y ∈ db.uploadSessions.rows := (Table.mem_keep.1 hy).1
  by_cases hstale : cutoff < y.createdAt
  · have hnot : y.uploadId ∉ (listStaleUploadSessions cutoff db).map (·.uploadId) := by
      intro h
      obtain ⟨x, hx, e⟩ := List.mem_map.1 h
      obtain ⟨hx1, hx2⟩ := List.mem_filter.1 hx
      rw [Table.eq_of_mem hx1 hmem e] at hx2
      simp [hstale] at hx2
    simp [hnot, hstale]
  · have hin : y.uploadId ∈ (listStaleUploadSessions cutoff db).map (·.uploadId) :=
      List.mem_map.2 ⟨y, List.mem_filter.2 ⟨hmem, by simp [hstale]⟩, rfl⟩
    simp [hin, hstale]

/-- **The reaper does to a view what the view tells it**, with valid upload ids. -/
theorem reap_view {b : String} {s t : Server} (hs : ∀ u, s.uses u → isUploadId u = true)
    (ht : ∀ u, t.uses u → isUploadId u = true) (h : s.view b = t.view b) (ttlMs nowMs : Int) :
    (reapUploadSessions ttlMs nowMs s).state.view b =
    (reapUploadSessions ttlMs nowMs t).state.view b := by
  cases hc : isoOf (nowMs - ttlMs) with
  | error e =>
    have hnone : ∀ v : Server, (reapUploadSessions ttlMs nowMs v).state = v := fun v => by
      unfold reapUploadSessions
      rw [hc]
      rfl
    rw [hnone, hnone]
    exact h
  | ok cutoff =>
    have hrun : ∀ v : Server, (reapUploadSessions ttlMs nowMs v).state =
        (Prog.each reapSession (listStaleUploadSessions cutoff v.db) v).state := fun v => by
      unfold reapUploadSessions readDb
      rw [hc]
      show ((do
        Prog.each reapSession (listStaleUploadSessions cutoff v.db)
        pure (listStaleUploadSessions cutoff v.db).length : Handler Nat) v).state = _
      rw [Prog.state_bind_pure]
    have hvalid : ∀ {v : Server}, (∀ u, v.uses u → isUploadId u = true) →
        ∀ x ∈ listStaleUploadSessions cutoff v.db, isUploadId x.uploadId = true :=
          fun {v} hv x hx => by
      have hm : x ∈ v.db.uploadSessions.rows := (List.mem_filter.1 hx).1
      refine hv _ (.inl fun hn => ?_)
      exact Table.find_none.1 hn x hm rfl
    have hrows : s.db.tenant b = t.db.tenant b := congrArg View.rows h
    obtain ⟨hsdb, hsdisk, hspub⟩ := reapEach_state _ (hvalid hs) s
    obtain ⟨htdb, htdisk, htpub⟩ := reapEach_state _ (hvalid ht) t
    rw [hrun, hrun]
    have hrows' :
        (Prog.each reapSession (listStaleUploadSessions cutoff s.db) s).state.db.tenant b =
        (Prog.each reapSession (listStaleUploadSessions cutoff t.db) t).state.db.tenant b := by
      rw [hsdb, htdb, reaped_tenant, reaped_tenant, hrows]
    -- a session that is still there was not among the stale ones
    have hspared : ∀ {v : Server} {E : List UploadSession} {u : String},
        (v.db.dropSessions fun y => decide (y.uploadId ∈ E.map (·.uploadId))).ownsUpload b u =
          true →
        v.db.ownsUpload b u = true ∧ u ∉ E.map (·.uploadId) := fun {v E u} ho => by
      rw [owns_dropSessions] at ho
      simp only [Bool.and_eq_true, Bool.not_eq_true'] at ho
      refine ⟨ho.1, fun hu => ?_⟩
      obtain ⟨x, hx, -⟩ := Db.ownsUpload_iff.1 ho.1
      have hany := ho.2
      rw [hx] at hany
      have hid : x.uploadId = u := Table.find_key hx
      simp only [Option.any_some, hid, decide_eq_false_iff_not] at hany
      exact hany hu
    refine view_ext hrows' (fun u i ho => ?_) ?_
    · have hos :
          (Prog.each reapSession (listStaleUploadSessions cutoff s.db) s).state.db.ownsUpload b u =
            true := by
        rw [← tenant_owns, hrows', tenant_owns]
        exact ho
      rw [hsdb] at hos
      rw [htdb] at ho
      obtain ⟨hos1, hos2⟩ := hspared hos
      obtain ⟨hot1, hot2⟩ := hspared ho
      rw [hsdisk, htdisk, if_neg hos2, if_neg hot2]
      have hv := congrFun (congrFun (congrArg View.staged h) u) i
      unfold Server.view at hv
      simpa only [tenant_owns, hos1, hot1, if_true] using hv
    · rw [hspub, htpub]
      exact congrArg View.published h

end GlanceVault.L3
