import GlanceVault.L3Http.Router
/-!
# How a handler ends

A handler that does not end with its response is answered by an error: an early
return of status 400 and up, or Express's 500.

* `perform_refused`: this for every account-scoped route.
-/
namespace GlanceVault.L3
open GlanceVault.Core GlanceVault.L1 GlanceVault.L1.Js GlanceVault.L2

/-- Every abort is answered by an error status. -/
def Refused {α : Type} (m : Handler α) : Prop :=
  Prog.Raises (fun e : Abort => 400 ≤ e.response.status) m

/-- A status below 400 is that of the response itself. -/
theorem ok_of_finish {m : Handler Response} (h : Refused m) {s : Server}
    (hs : (finish (m s)).status < 400) :
    (m s).result = .ok (finish (m s)) := by
  unfold finish at hs ⊢
  cases hr : (m s).result with
  | ok r => rfl
  | error e =>
    rw [hr] at hs
    have := h s e hr
    simp only at hs
    omega

/-- A statement that throws is answered 500. -/
theorem exec_refused {α : Type} (m : DbTx α) : Refused (exec m) := by
  refine .step fun s e h => ?_
  cases he : m.eval s.db with
  | ok r => rw [he] at h; cases h
  | error x => rw [he] at h; cases h; exact Nat.le_of_ble_eq_true rfl

theorem file_refused (f : Disk → Disk) : Refused (file f) := .step fun s e h => by cases h

theorem assert_refused (r : Except String Unit) : Refused (assert r) := by
  cases r with
  | ok u => exact .pure ()
  | error e => exact .raise (Nat.le_of_ble_eq_true rfl)

theorem readDisk_refused {α : Type} (f : Disk → Except String α) : Refused (readDisk f) := by
  refine .bind (.get _) fun r => ?_
  cases r with
  | ok a => exact .pure a
  | error e => exact .raise (Nat.le_of_ble_eq_true rfl)

theorem emit_refused (env : Env) (a : String) (nudge : Nudge) : Refused (emit env a nudge) :=
  fun _ _ h => nomatch h

theorem admitBytes_status {limit : Option Nat} {used requested : Nat} {v : QuotaVerdict}
    (h : admitBytes limit used requested = some v) : 400 ≤ v.status := by
  unfold admitBytes at h
  split at h
  · cases h
  · split at h
    · cases h; exact Nat.le_of_ble_eq_true rfl
    · cases h

/-- A volume check rejects with its own status. -/
theorem admitVolume_status {status current length : Nat} {kind : QuotaKind} {limit : Option Nat}
    {netNew : Int}
    {v : QuotaVerdict} (h : admitVolume status kind limit current length netNew = some v) :
    v.status = status := by
  unfold admitVolume at h
  split at h
  · cases h
  · split at h
    · cases h
    · split at h
      · cases h
      · split at h
        · cases h; rfl
        · cases h

theorem admitUpload_status {policy : QuotaPolicy} {a : String} {n : Nat} {db : Db}
    {v : QuotaVerdict} (h : admitUpload policy a n db = some v) : 400 ≤ v.status := by
  unfold admitUpload at h
  simp only at h
  split at h
  · split at h
    · cases h; exact Nat.le_of_ble_eq_true rfl
    · exact admitBytes_status h
  · exact admitBytes_status h

/-- A quota check refuses with the status of its verdict. -/
theorem gated_refused {cfg : Config} {rule : QuotaPolicy → Db → Option QuotaVerdict}
    (h : ∀ gate db v, rule gate db = some v → 400 ≤ v.status) : Refused (gated cfg rule) := by
  unfold gated
  cases makeQuotaGate cfg.quotas with
  | none => exact .pure ()
  | some gate =>
    intro s e he
    simp only [readDb, Prog.get_bind] at he
    cases hv : rule gate s.db with
    | none => rw [hv] at he; cases he
    | some v =>
      rw [hv] at he
      cases he
      exact h gate s.db v hv

theorem discardSession_refused (u : String) : Refused (discardSession u) :=
  .bind (assert_refused _) fun _ => file_refused _

theorem discardUploadSession_refused (a u : String) : Refused (discardUploadSession a u) := by
  refine .bind (.get _) fun session => ?_
  cases session with
  | none => exact .pure ()
  | some s => exact .bind (discardSession_refused u) fun _ => exec_refused _

theorem finalizeGate_refused (cfg : Config) (a u : String) (size : Nat) :
    Refused (finalizeGate cfg a u size) := by
  unfold finalizeGate
  cases makeQuotaGate cfg.quotas with
  | none => exact .pure ()
  | some gate =>
    intro s e he
    simp only [readDb, Prog.get_bind] at he
    cases hv : admitFinalize gate a size s.db with
    | none => rw [hv] at he; cases he
    | some v =>
      rw [hv] at he
      have hraise : Refused (do discardUploadSession a u; Prog.raise (α := Unit) v.abort) :=
        .bind (discardUploadSession_refused a u) fun _ => .raise (admitBytes_status hv)
      exact hraise s e he

/-- The volume may refuse the bytes. -/
theorem put_refused (hash : String) (bytes : Bytes) : Refused (put hash bytes) := by
  refine .bind (assert_refused _) fun _ => .bind (.get _) fun present => .ite (.pure ()) ?_
  exact .bind (file_refused _) fun _ => file_refused _

theorem assembleUpload_refused (a u : String) : Refused (assembleUpload a u) :=
  .bind (.get _) fun _ => .bind (.require (Nat.le_of_ble_eq_true rfl)) fun _ =>
    .bind (.get _) fun _ => readDisk_refused _

/-- Missing parts, wrong bytes and a full quota are all answered by an error. -/
theorem finalize_refused (cfg : Config) (host : Host) (env : Env) (a u : String) :
    Refused (finalize cfg host env a u) := by
  refine .bind (.get _) fun _ => .bind (.found (by decide)) fun session =>
    .bind (.get _) fun owned => ?_
  cases owned with
  | some b => exact .bind (discardUploadSession_refused _ _) fun _ => .pure _
  | none =>
    refine .bind (assembleUpload_refused _ _) fun bytes =>
      .bind (.require (Nat.le_of_ble_eq_true rfl)) fun _ => .ite ?_ ?_
    · exact .bind (discardUploadSession_refused _ _) fun _ => .raise (Nat.le_of_ble_eq_true rfl)
    · refine .bind (finalizeGate_refused _ _ _ _) fun _ => .bind (put_refused _ _) fun _ => ?_
      exact .bind (exec_refused _) fun _ =>
        .bind (discardUploadSession_refused _ _) fun _ => .pure _

/-- No row, no reference: 404. -/
theorem changeRef_refused (change : DbTx (Option Blob)) : Refused (changeRef change) :=
  .bind (exec_refused _) fun _ => .bind (.found (by decide)) fun _ => .pure _

theorem download_refused (a hash : String) (range : Option String) :
    Refused (download a hash range) := by
  have hread : ∀ i j, Refused (readBlobRange a hash i j) := fun i j =>
    .bind (.get _) fun _ => .bind (.require (Nat.le_of_ble_eq_true rfl)) fun _ => readDisk_refused _
  refine .bind (.bind (.get _) fun r => ?_) fun stat => .bind (.found (by decide)) fun size => ?_
  · cases r with
    | none => exact .pure _
    | some b => exact readDisk_refused _
  · split
    · exact .pure _
    · exact .ite (.pure _) (.bind (hread _ _) fun _ => .pure _)
    · exact .bind (hread _ _) fun _ => .pure _

/-- **A call that does not end with its response is answered by an error.** -/
theorem perform_refused (cfg : Config) (host : Host) (credential : Option Credential) (env : Env)
    (a : String) (call : Call) : Refused (perform cfg host credential env a call) := by
  have hemit : ∀ nudge r, Refused (do emit env a nudge; pure r : Handler Response) := fun nudge r =>
    .bind (emit_refused env a nudge) fun _ => .pure r
  cases call with
  | batch app rows notify =>
    refine .bind (gated_refused fun gate db v h => by rw [admitVolume_status h]; decide) fun _ => ?_
    exact .bind (exec_refused _) fun r => .ite (hemit _ _) (.pure _)
  | device d n => exact .bind (exec_refused _) fun _ => .pure _
  | list app since limit => exact .bind (.get _) fun _ => .pure _
  | getEntity app e => exact .bind (.get _) fun _ => .bind (.found (by decide)) fun _ => .pure _
  | deleteEntity app e t =>
    exact .bind (exec_refused _) fun r => .bind (.found (by decide)) fun r =>
      .ite (.pure _) (hemit _ _)
  | intents events =>
    refine .bind (gated_refused fun gate db v h => by rw [admitVolume_status h]; decide) fun _ => ?_
    exact .bind (exec_refused _) fun r => .ite (hemit _ _) (.pure _)
  | listIntents since limit => exact .bind (.get _) fun _ => .pure _
  | getSalt => exact .bind (.get _) fun _ => .bind (.found (by decide)) fun _ => .pure _
  | putSalt salt => exact .bind (exec_refused _) fun _ => .pure _
  | initiate hash valid size =>
    refine .bind (.get _) fun owned => ?_
    cases owned with
    | some b => exact .pure _
    | none =>
      refine .bind (gated_refused fun gate db v h => admitUpload_status h) fun _ => ?_
      exact .bind (exec_refused _) fun _ => .pure _
  | uploadStatus u =>
    exact .bind (.get _) fun _ => .bind (.found (by decide)) fun _ =>
      .bind (.get _) fun _ => .pure _
  | putPart u index bytes =>
    refine .bind (.get _) fun _ => .bind (.found (by decide)) fun session =>
      .bind (.found (by decide)) fun i => ?_
    refine .bind (.get _) fun parts => .bind (.require (by decide)) fun _ => .bind ?_ fun _ => ?_
    · refine .bind (.get _) fun _ => .bind (.require (Nat.le_of_ble_eq_true rfl)) fun _ =>
        .bind ?_ fun _ => exec_refused _
      exact .bind (assert_refused _) fun _ => .bind (file_refused _) fun _ => file_refused _
    · exact .bind (.get _) fun _ => .pure _
  | finalize u => exact finalize_refused cfg host env a u
  | cancel u =>
    exact .bind (.get _) fun _ => .bind (.found (by decide)) fun _ =>
      .bind (discardUploadSession_refused _ _) fun _ => .pure _
  | refAdd hash => exact changeRef_refused _
  | refRelease hash => exact changeRef_refused _
  | head hash => exact .bind (.get _) fun _ => .bind (.found (by decide)) fun _ => .pure _
  | download hash range => exact download_refused a hash range
  | connect =>
    refine .bind (.get _) fun id => .bind (.get _) fun subscribed =>
      .bind (fun _ _ h => nomatch h) fun _ => ?_
    exact .bind (.require (by decide)) fun _ => .bind (.get _) fun _ => .pure _

end GlanceVault.L3
