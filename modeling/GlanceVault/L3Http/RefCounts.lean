import GlanceVault.L3Http.Frames
/-!
# Reference counts

What a request or a sweep does to the reference counts of an account's blobs.
A blob that is not stored counts as zero.

* `refAdd_count`, `refRelease_count`: the two routes that move a count, by one.
* `perform_counts`, `reclaimSweep_counts`: nothing else lowers a count; a sweep
  only deletes rows that stand at zero.
-/
namespace GlanceVault.L3
open GlanceVault.Core GlanceVault.L1 GlanceVault.L1.Js GlanceVault.L2

/-- The reference count stored for a blob. -/
def refs (t : Table Blob.key) (k : String × String) : Int := (t.find k).elim 0 (·.refCount)

def Server.blobs (s : Server) : Table Blob.key := s.db.blobs

/-- No count is lowered. -/
def Upward (t t' : Table Blob.key) : Prop := ∀ k, refs t k ≤ refs t' k

theorem refs_some {t : Table Blob.key} {k : String × String} {b : Blob} (h : t.find k = some b) :
    refs t k = b.refCount := by
  unfold refs
  rw [h]
  rfl

theorem refs_none {t : Table Blob.key} {k : String × String} (h : t.find k = none) :
    refs t k = 0 := by
  unfold refs
  rw [h]
  rfl

theorem refs_upsert (t : Table Blob.key) (b : Blob) (k : String × String) :
    refs (t.upsert b) k = if b.key = k then b.refCount else refs t k := by
  unfold refs
  rw [Table.find_upsert]
  by_cases h : b.key = k
  · rw [if_pos h, if_pos h]; rfl
  · rw [if_neg h, if_neg h]

/-! ## The two reference routes -/

theorem changeRef_run {change : DbTx (Option Blob)} {s : Server} {o : Option Blob} {db : Db}
    (h : change.eval s.db = .ok (o, db)) :
    (changeRef change s).state = { s with db := db } ∧ finish (changeRef change s) =
      match o with
      | some b => Blob.refJson b
      | none => (Abort.error 404 "blob not found").response := by
  unfold changeRef finish
  rw [Prog.bind_run, exec_run h]
  cases o with
  | none => exact ⟨rfl, rfl⟩
  | some b => exact ⟨rfl, rfl⟩

/-- **An add that is acknowledged raises its count by one**, another changes nothing. -/
theorem refAdd_count (env : Env) (a h : String) (s : Server) (k : String × String) :
    refs (refAdd env a h s).state.blobs k = refs s.blobs k +
      if (finish (refAdd env a h s)).status = 200 ∧ k = (a, h) then 1 else 0 := by
  have heval := addBlobReference_eval a h (env.clock 0) s.db
  cases hf : s.db.blobs.find (a, h) with
  | none =>
    rw [hf] at heval
    obtain ⟨h1, h2⟩ := changeRef_run heval
    have hstatus : (finish (refAdd env a h s)).status = 404 := congrArg Response.status h2
    rw [hstatus]
    simp only [refAdd, h1, Server.blobs]
    simp
  | some b =>
    rw [hf] at heval
    obtain ⟨h1, h2⟩ := changeRef_run heval
    have hstatus : (finish (refAdd env a h s)).status = 200 := congrArg Response.status h2
    have hkey : b.key = (a, h) := Table.find_key hf
    have hkey : (b.referenced (env.clock 0)).key = (a, h) := hkey
    rw [hstatus]
    simp only [refAdd, h1]
    show refs (s.db.blobs.upsert (b.referenced (env.clock 0))) k = _
    rw [refs_upsert, hkey]
    by_cases hk : k = (a, h)
    · subst hk
      have hold : refs s.blobs (a, h) = b.refCount := refs_some hf
      rw [if_pos rfl, if_pos (by simp), hold]
      rfl
    · rw [if_neg (Ne.symm hk), if_neg (fun e => hk e.2), Int.add_zero]
      rfl

/-- **A release lowers its count by at most one**, and no other. -/
theorem refRelease_count (env : Env) (a h : String) (s : Server) (k : String × String) :
    refs s.blobs k - (if k = (a, h) then 1 else 0) ≤ refs (refRelease env a h s).state.blobs k := by
  have heval := releaseBlobReference_eval a h (env.clock 0) s.db
  have hput : ∀ {b b' : Blob} {d : Db}, s.db.blobs.find (a, h) = some b → b'.key = b.key →
      b.refCount - 1 ≤ b'.refCount →
      d.blobs = s.db.blobs → refs s.blobs k - (if k = (a, h) then 1 else 0) ≤ refs
        (d.putBlob b').blobs k := by
    intro b b' d hf hkey hle hd
    have hkey : b'.key = (a, h) := hkey.trans (Table.find_key hf)
    show _ ≤ refs (d.blobs.upsert b') k
    rw [hd, refs_upsert, hkey]
    by_cases hk : k = (a, h)
    · subst hk
      have hold : refs s.blobs (a, h) = b.refCount := refs_some hf
      rw [if_pos rfl, if_pos rfl, hold]
      exact hle
    · rw [if_neg hk, if_neg (Ne.symm hk), Int.sub_zero]
      exact Int.le_refl _
  cases hf : s.db.blobs.find (a, h) with
  | none =>
    rw [hf] at heval
    simp only [refRelease, (changeRef_run heval).1, Server.blobs]
    split <;> omega
  | some b =>
    rw [hf] at heval
    simp only at heval
    by_cases h0 : b.refCount ≤ 0
    · rw [if_pos h0] at heval
      simp only [refRelease, (changeRef_run heval).1]
      exact hput hf rfl (by simp only [Blob.touched]; omega) rfl
    · rw [if_neg h0] at heval
      by_cases h1 : b.refCount - 1 = 0
      · rw [if_pos h1] at heval
        simp only [refRelease, (changeRef_run heval).1]
        exact hput hf rfl (Int.le_refl _) rfl
      · rw [if_neg h1] at heval
        simp only [refRelease, (changeRef_run heval).1]
        exact hput hf rfl (Int.le_refl _) rfl

/-! ## Everything else -/

theorem upward_refl (t : Table Blob.key) : Upward t t := fun _ => Int.le_refl _

theorem insertBlob_counts {P : Server → Prop} (a h : String) (size : Nat) (now : String) :
    Prog.Follows Server.blobs Upward P (exec (insertBlobIfAbsent a h size now)) fun _ _ =>
      True := by
  refine .step fun s o s' _ e => ⟨.inr ?_, trivial⟩
  rw [insertBlobIfAbsent_eval] at e
  cases hf : s.db.blobs.find (a, h) with
  | some b =>
    rw [hf] at e
    cases e
    exact upward_refl _
  | none =>
    rw [hf] at e
    cases e
    intro k
    show refs s.db.blobs k ≤ refs (s.db.blobs.upsert _) k
    rw [refs_upsert]
    by_cases hk : (a, h) = k
    · subst hk
      rw [refs_none hf]
      exact (if_pos rfl).ge
    · exact (if_neg hk).ge

theorem blobs_volatile : Volatile Server.blobs := fun _ _ _ _ _ => rfl

theorem blobs_ignores {area : Area} (ha : area ≠ .blobs) : Ignores Server.blobs area := by
  cases area with
  | blobs => exact absurd rfl ha
  | sync => exact ignores_of fun _ => rfl
  | intents => exact ignores_of fun _ => rfl
  | devices => exact ignores_of (f := fun db => { db with devices := .empty }) fun _ => rfl
  | salts => exact ignores_of (f := fun db => { db with accountSalts := .empty }) fun _ => rfl
  | registry => exact ignores_of fun _ => rfl
  | uploads => exact ignores_of fun _ => rfl
  | files => exact fun _ _ => rfl

theorem finalize_counts {P : Server → Prop} (cfg : Config) (host : Host) (env : Env)
    (a u : String) :
    Prog.Follows Server.blobs Upward P (finalize cfg host env a u) fun _ _ => True := by
  have hu : Ignores Server.blobs .uploads := blobs_ignores (by simp)
  have hf : Ignores Server.blobs .files := blobs_ignores (by simp)
  have hdiscard : ∀ {Q : Server → Prop} (v : String) (r : Response),
      Prog.Follows Server.blobs Upward Q (do discardUploadSession a v; pure r) fun _ _ =>
        True := fun v r =>
    Prog.Keeps.followsAny (.bind (discardUploadSession_frame hu hf a v) fun _ => .pure r)
  unfold finalize
  refine .bind (.fetch _) fun _ =>
    .bind (Q := fun _ _ => True) (.found fun _ _ _ _ => trivial) fun session => ?_
  refine .bind (.fetch _) fun owned => ?_
  cases owned with
  | some b => exact hdiscard _ _
  | none =>
    unfold storeUpload
    refine .bind (assembleUpload_frame a _).followsAny fun bytes => .bind (.guard _ _) fun _ =>
      .ite (fun _ => ?_) fun _ => ?_
    · exact Prog.Keeps.followsAny (.bind (discardUploadSession_frame hu hf a _) fun _ => .raise _)
    · refine .bind (finalizeGate_frame hu hf cfg a _ _).followsAny fun _ =>
        .bind (put_frame hf _ _).followsAny fun _ => ?_
      exact .bind (insertBlob_counts a _ _ _) fun _ => hdiscard _ _

/-- **No other call lowers a count.** -/
theorem perform_counts {P : Server → Prop} (cfg : Config) (host : Host)
    (credential : Option Credential) (env : Env)
    (a : String) {call : Call} (hadd : ∀ h, call ≠ .refAdd h) (hrel : ∀ h, call ≠ .refRelease h) :
    Prog.Follows Server.blobs Upward P (perform cfg host credential env a call) fun _ _ =>
      True := by
  have hframe : (∀ area ∈ call.writes, area ≠ .blobs) →
      Prog.Follows Server.blobs Upward P (perform cfg host credential env a call) fun _ _ =>
        True := fun hw =>
    (perform_frame blobs_volatile cfg host credential env a call fun area h => blobs_ignores
      (hw area h)).followsAny
  cases call with
  | finalize u => exact finalize_counts cfg host env a u
  | refAdd h => exact absurd rfl (hadd h)
  | refRelease h => exact absurd rfl (hrel h)
  | _ => exact hframe (by simp [Call.writes])

/-- A row the sweep may delete stands at zero. -/
theorem reclaimable_zero {graceCutoff deadCutoff : String} {db : Db} {b : Blob}
    (h : b ∈ listReclaimableBlobs graceCutoff deadCutoff db) :
    b ∈ db.blobs.rows ∧ b.refCount = 0 := by
  obtain ⟨hm, hr⟩ := List.mem_filter.1 h
  refine ⟨hm, ?_⟩
  unfold reclaimable at hr
  cases hz : b.zeroRefSeq with
  | none => rw [hz] at hr; cases hr
  | some z =>
    rw [hz] at hr
    simp only [Bool.and_eq_true, decide_eq_true_eq] at hr
    exact hr.1.1

/-- **A sweep lowers no count.** -/
theorem reclaimSweep_counts {P : Server → Prop} (policy : ReclaimPolicy) (nowMs : Int) :
    Prog.Follows Server.blobs Upward P (reclaimSweep policy nowMs) fun _ _ => True := by
  unfold reclaimSweep
  refine .ite (fun _ => ?_) fun _ => .pure fun _ _ => trivial
  refine Prog.Follows.bind (Q := fun _ _ => True) (.ofExcept fun _ _ _ _ => trivial) fun grace => ?_
  refine Prog.Follows.bind (Q := fun _ _ => True) (.ofExcept fun _ _ _ _ => trivial) fun dead => ?_
  refine Prog.Follows.bind (Q := fun E s => ∀ b ∈ E, refs s.blobs b.key = 0)
    (.get fun s _ b hb => ?_) fun E => ?_
  · obtain ⟨hm, h0⟩ := reclaimable_zero hb
    exact (refs_some (Table.find_some.2 ⟨hm, rfl⟩)).trans h0
  refine Prog.Follows.bind (Q := fun _ _ => True) ?_ fun _ => .pure fun _ _ => trivial
  -- the rows still to be swept stay at zero
  refine (Prog.Follows.each (I := fun _ s => ∀ b ∈ E, refs (Server.blobs s) b.key = 0)
    fun done b rest e => ?_).conseq
    (fun _ hs => hs) fun _ _ _ => trivial
  have hb : b ∈ E := by rw [e]; simp
  unfold reclaimBlob
  refine Prog.Follows.bind ((deleteBytes_frame (fun _ _ => rfl) _).follows fun t => ∀ b ∈ E,
    refs t b.key = 0) fun _ => ?_
  refine Prog.Follows.bind (Q := fun _ s => ∀ b ∈ E, refs (Server.blobs s) b.key = 0)
    (.step fun s o s' hs he => ?_)
    fun _ => .pure fun _ hs => hs
  cases he
  have hrefs : ∀ k, refs (s.db.blobs.keep fun x => !decide (x.key = (b.accountId, b.blobHash))) k =
      refs s.blobs k := by
    intro k
    by_cases hk : k = b.key
    · have hgone : (s.db.blobs.keep fun x => !decide (x.key = (b.accountId, b.blobHash))).find k =
          none := by
        refine Table.find_none.2 fun c hc e => ?_
        have hne := (Table.mem_keep.1 hc).2
        simp only [Bool.not_eq_true', decide_eq_false_iff_not] at hne
        exact hne (e.trans hk)
      rw [refs_none hgone, hk]
      exact (hs b hb).symm
    · have hkept : (s.db.blobs.keep fun x => !decide (x.key = (b.accountId, b.blobHash))).find k =
          s.db.blobs.find k :=
        Table.find_keep_of fun c _ e => by
          simp only [Bool.not_eq_true', decide_eq_false_iff_not]
          exact fun hc => hk (e.symm.trans hc)
      unfold refs Server.blobs
      rw [hkept]
  exact ⟨.inr fun k => (hrefs k).ge, fun c hc => (hrefs _).trans (hs c hc)⟩

end GlanceVault.L3
