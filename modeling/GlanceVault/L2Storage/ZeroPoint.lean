import GlanceVault.L2Storage.Parts
/-!
# Zero points (`zero_ref_seq`)

A blob at zero references carries the number drawn when it came to zero. The
number lies above everything the account had stored by then, which is what
lets a sweep read a device's cursor as "has seen all of that".

* `blob_step`: what one operation does to the row of one blob.
* `zero_of_became`: the zero point is the number drawn by the step since which
  the count has been zero.
* `zero_points`: the count, the marker and the activity of every blob in
  every reachable state.
* `reported_ahead`: a device that reports a number the account has not
  reached passes zero points before their rows exist.
-/
namespace GlanceVault.L2
open GlanceVault.Core GlanceVault.L1

/-! ## One step -/

/-- The clock reading of an operation that creates the blob, adds a reference to
it or releases one. -/
def StoreOp.touches (a h : String) (db : Db) : StoreOp → Option String
  | .insertBlobIfAbsent b k _ now =>
    if (b, k) = (a, h) ∧ (getBlob a h db).isNone then some now else none
  | .addBlobReference b k now =>
    if (b, k) = (a, h) ∧ (getBlob a h db).isSome then some now else none
  | .releaseBlobReference b k now =>
    if (b, k) = (a, h) ∧ (getBlob a h db).isSome then some now else none
  | _ => none

/-- The same for a transaction: none if it is rolled back. -/
def activity (a h : String) (db : Db) (o : StoreOp × Fault) : Option String :=
  match (StoreOp.commit o db).1 with
  | .ok _ => o.1.touches a h db
  | .error _ => none

/-- What a step that touches the blob at `t`, or does not, does to its row. -/
inductive BlobStep (a h : String) (d d' : Db) : Option String → Prop
  | same (e : getBlob a h d' = getBlob a h d) : BlobStep a h d d' none
  | gone (e : getBlob a h d' = none) : BlobStep a h d d' none
  | created (size : Nat) (t : String) (e : getBlob a h d = none)
      (e' : getBlob a h d' = some (.fresh a h size (latestSeq d a + 1) t)) :
        BlobStep a h d d' (some t)
  | added (b : Blob) (t : String) (e : getBlob a h d = some b)
    (e' : getBlob a h d' = some (b.referenced t)) :
      BlobStep a h d d' (some t)
  | clamped (b : Blob) (t : String) (e : getBlob a h d = some b) (hz : b.refCount ≤ 0)
      (e' : getBlob a h d' = some (b.touched t)) : BlobStep a h d d' (some t)
  | zeroed (b : Blob) (t : String) (e : getBlob a h d = some b) (hz : b.refCount = 1)
      (e' : getBlob a h d' = some (b.released (some (latestSeq d a + 1)) t)) :
        BlobStep a h d d' (some t)
  | released (b : Blob) (t : String) (e : getBlob a h d = some b) (hz : 1 < b.refCount)
      (e' : getBlob a h d' = some (b.released b.zeroRefSeq t)) : BlobStep a h d d' (some t)

section Step
variable {a h : String}

theorem getBlob_putBlob_other {b k : String} (db : Db) {r : Blob} (hr : r.key = (b, k))
    (hne : (b, k) ≠ (a, h)) :
    getBlob a h (db.putBlob r) = getBlob a h db := by
  unfold getBlob Db.putBlob
  rw [Table.find_upsert, if_neg (by rw [hr]; exact hne)]

theorem insertBlob_step {b k now : String} {size : Nat} {db db' : Db} {r : Option Blob × Bool}
    (e : (insertBlobIfAbsent b k size now).eval db = .ok (r, db')) :
    BlobStep a h db db' (if (b, k) = (a, h) ∧ (getBlob a h db).isNone then some now else none) := by
  rw [insertBlobIfAbsent_eval] at e
  by_cases hk : (b, k) = (a, h)
  · cases hk
    cases hf : db.blobs.find (a, h) with
    | some x =>
      rw [hf] at e
      cases e
      rw [if_neg (by simp [getBlob, hf])]
      exact .same rfl
    | none =>
      rw [hf] at e
      cases e
      rw [if_pos (by simp [getBlob, hf])]
      exact .created size now hf (getBlob_putBlob (db.bump a) rfl)
  · rw [if_neg fun hc => hk hc.1]
    split at e <;> cases e
    · exact .same rfl
    · exact .same (getBlob_putBlob_other (db.bump b) rfl hk)

theorem addBlobReference_step {b k now : String} {db db' : Db} {r : Option Blob}
    (e : (addBlobReference b k now).eval db = .ok (r, db')) :
    BlobStep a h db db' (if (b, k) = (a, h) ∧ (getBlob a h db).isSome then some now else none) := by
  rw [addBlobReference_eval] at e
  by_cases hk : (b, k) = (a, h)
  · cases hk
    cases hf : db.blobs.find (a, h) with
    | none =>
      rw [hf] at e
      cases e
      rw [if_neg (by simp [getBlob, hf])]
      exact .same rfl
    | some x =>
      rw [hf] at e
      cases e
      have hkey := Table.find_key hf
      rw [if_pos (by simp [getBlob, hf])]
      exact .added x now hf (getBlob_putBlob _ hkey)
  · rw [if_neg fun hc => hk hc.1]
    split at e
    · cases e
      exact .same rfl
    · rename_i x hx
      have hkey := Table.find_key hx
      cases e
      exact .same (getBlob_putBlob_other _ hkey hk)

theorem releaseBlobReference_step {b k now : String} {db db' : Db} {r : Option Blob}
    (e : (releaseBlobReference b k now).eval db = .ok (r, db')) :
    BlobStep a h db db' (if (b, k) = (a, h) ∧ (getBlob a h db).isSome then some now else none) := by
  rw [releaseBlobReference_eval] at e
  cases hf : db.blobs.find (b, k) with
  | none =>
    rw [hf] at e
    cases e
    rw [if_neg]
    · exact .same rfl
    · rintro ⟨hk, hs⟩
      cases hk
      simp [getBlob, hf] at hs
  | some x =>
    rw [hf] at e
    have hkey := Table.find_key hf
    by_cases hk : (b, k) = (a, h)
    · cases hk
      rw [if_pos (by simp [getBlob, hf])]
      dsimp only at e
      by_cases hz : x.refCount ≤ 0
      · rw [if_pos hz] at e
        cases e
        exact .clamped x now hf hz (getBlob_putBlob _ hkey)
      · rw [if_neg hz] at e
        by_cases h1 : x.refCount - 1 = 0
        · rw [if_pos h1] at e
          cases e
          exact .zeroed x now hf (by omega) (getBlob_putBlob (db.bump a) hkey)
        · rw [if_neg h1] at e
          cases e
          exact .released x now hf (by omega) (getBlob_putBlob _ hkey)
    · rw [if_neg fun hc => hk hc.1]
      dsimp only at e
      refine .same ?_
      split at e
      · cases e
        exact getBlob_putBlob_other _ hkey hk
      · split at e <;> cases e
        · exact getBlob_putBlob_other (db.bump b) hkey hk
        · exact getBlob_putBlob_other _ hkey hk

theorem deleteBlob_step {b k : String} {db db' : Db} {r : Bool}
    (e : (deleteBlob b k).eval db = .ok (r, db')) :
    BlobStep a h db db' none := by
  unfold deleteBlob at e
  rw [Tx.eval_write] at e
  cases e
  by_cases hk : (b, k) = (a, h)
  · cases hk
    refine .gone ?_
    unfold getBlob
    rw [Table.find_keep]
    cases hf : db.blobs.find (a, h) with
    | none => rfl
    | some r => simp [Option.filter, Table.find_key hf]
  · refine .same ?_
    unfold getBlob
    refine Table.find_keep_of fun r _ hr => ?_
    simp [hr, Ne.symm hk]

theorem deleteAccount_step {b : String} {db db' : Db} {r : Option DeletedAccount}
    (e : (deleteAccount b).eval db = .ok (r, db')) : BlobStep a h db db' none := by
  rw [deleteAccount_eval] at e
  split at e <;> cases e
  · exact .same rfl
  · by_cases hb : a = b
    · subst hb
      refine .gone ?_
      show (db.blobs.keep _).find (a, h) = none
      rw [Table.find_keep]
      cases hf : db.blobs.find (a, h) with
      | none => rfl
      | some r => simp [Option.filter, find_account hf]
    · refine .same ?_
      show (db.blobs.keep _).find (a, h) = _
      refine Table.find_keep_of fun r _ hr => ?_
      have hr : r.accountId = a := congrArg Prod.fst hr
      simp [hr, hb]

/-- **What one operation does to the row of one blob.** -/
theorem blob_step (o : StoreOp) {db db' : Db} (e : o.tx.eval db = .ok ((), db')) :
    BlobStep a h db db' (o.touches a h db) := by
  have hkeep : o.tx.Keeps Db.blobs → BlobStep a h db db' none := fun hk => by
    refine .same ?_
    unfold getBlob
    rw [hk db () db' e]
  cases o with
  | insertBlobIfAbsent b k size now =>
    obtain ⟨r, e⟩ := Tx.eval_void_ok (L2.insertBlobIfAbsent b k size now) e
    exact insertBlob_step e
  | addBlobReference b k now =>
    obtain ⟨r, e⟩ := Tx.eval_void_ok (L2.addBlobReference b k now) e
    exact addBlobReference_step e
  | releaseBlobReference b k now =>
    obtain ⟨r, e⟩ := Tx.eval_void_ok (L2.releaseBlobReference b k now) e
    exact releaseBlobReference_step e
  | deleteBlob b k =>
    obtain ⟨r, e⟩ := Tx.eval_void_ok (L2.deleteBlob b k) e
    exact deleteBlob_step e
  | deleteAccount b =>
    obtain ⟨r, e⟩ := Tx.eval_void_ok (L2.deleteAccount b) e
    exact deleteAccount_step e
  | _ => exact hkeep (StoreOp.keeps _ fun _ => rfl)

/-- What a transaction does, committed or rolled back. -/
theorem blob_commit (o : StoreOp × Fault) (db : Db) :
    BlobStep a h db (StoreOp.commit o db).2 (activity a h db o) := by
  unfold activity
  cases hc : StoreOp.commit o db with
  | mk r db' =>
    cases r with
    | ok u => exact blob_step o.1 (Tx.commit_ok hc)
    | error x =>
      rw [show db' = db from Tx.commit_error hc]
      exact .same rfl

end Step

/-! ## The count and the marker -/

/-- Never negative, and marked exactly at zero. -/
structure Blob.Counted (b : Blob) : Prop where
  nonneg : 0 ≤ b.refCount
  marked : b.zeroRefSeq.isSome = true ↔ b.refCount = 0

def Db.Counted (db : Db) : Prop := ∀ a h b, getBlob a h db = some b → b.Counted

theorem counted_step {d d' : Db} (hd : d.Counted) {a h : String} {t : Option String}
    (hs : BlobStep a h d d' t) {b : Blob} (hb : getBlob a h d' = some b) : b.Counted := by
  cases hs with
  | same e => exact hd a h b (e ▸ hb)
  | gone e => rw [e] at hb; cases hb
  | created size t e e' =>
    rw [e'] at hb
    cases hb
    exact ⟨Int.le_refl 0, iff_of_true rfl rfl⟩
  | added x t e e' =>
    rw [e'] at hb
    cases hb
    have hx := (hd a h x e).nonneg
    have h1 : (x.referenced t).refCount = x.refCount + 1 := rfl
    exact ⟨by omega, iff_of_false (fun hc => nomatch hc) (by omega)⟩
  | clamped x t e hz e' =>
    rw [e'] at hb
    cases hb
    exact ⟨(hd a h x e).nonneg, (hd a h x e).marked⟩
  | zeroed x t e hz e' =>
    rw [e'] at hb
    cases hb
    have h1 : (x.released (some (latestSeq d a + 1)) t).refCount = x.refCount - 1 := rfl
    exact ⟨by omega, iff_of_true rfl (by omega)⟩
  | released x t e hz e' =>
    rw [e'] at hb
    cases hb
    have hx := (hd a h x e).marked
    have h1 : (x.released x.zeroRefSeq t).refCount = x.refCount - 1 := rfl
    refine ⟨by omega, iff_of_false (fun hc => ?_) (by omega)⟩
    have h0 := hx.1 hc
    omega

theorem counted_run (ops : List (StoreOp × Fault)) : (runOps .empty ops).Counted := by
  have hempty : Db.empty.Counted := by
    intro a h b hb
    cases hb
  refine run_inv (fun d o hd a h b hb => ?_) ops Db.empty hempty
  exact counted_step hd (blob_commit o d) hb

/-! ## The number a blob came to zero at -/

def AtZero (k : String × String) (db : Db) : Prop :=
  ∃ b, getBlob k.1 k.2 db = some b ∧ b.refCount = 0

/-- While the count stays zero no step moves the marker. -/
theorem zero_stays {a h : String} {d d' : Db} {t : Option String} (hs : BlobStep a h d d' t)
    {b b' : Blob}
    (hb : getBlob a h d = some b) (h0 : b.refCount = 0) (hb' : getBlob a h d' = some b')
    (h0' : b'.refCount = 0) :
    b'.zeroRefSeq = b.zeroRefSeq := by
  cases hs with
  | same e => rw [e, hb] at hb'; cases hb'; rfl
  | gone e => rw [e] at hb'; cases hb'
  | created size t e e' => rw [e] at hb; cases hb
  | added x t e e' =>
    rw [e'] at hb'
    rw [e] at hb
    cases hb
    cases hb'
    have h1 : (b.referenced t).refCount = b.refCount + 1 := rfl
    omega
  | clamped x t e hz e' =>
    rw [e'] at hb'
    rw [e] at hb
    cases hb
    cases hb'
    rfl
  | zeroed x t e hz e' => rw [e] at hb; cases hb; omega
  | released x t e hz e' => rw [e] at hb; cases hb; omega

/-- A step that brings the count to zero marks it with the number it draws. -/
theorem zero_becomes {a h : String} {d d' : Db} (hd : d.Counted) {t : Option String}
    (hs : BlobStep a h d d' t)
    (hn : ¬ AtZero (a, h) d) {b : Blob} (hb : getBlob a h d' = some b) (h0 : b.refCount = 0) :
    b.zeroRefSeq = some (latestSeq d a + 1) := by
  cases hs with
  | same e => exact absurd ⟨b, e ▸ hb, h0⟩ hn
  | gone e => rw [e] at hb; cases hb
  | created size t e e' => rw [e'] at hb; cases hb; rfl
  | added x t e e' =>
    rw [e'] at hb
    cases hb
    have hx := (hd a h x e).nonneg
    have h1 : (x.referenced t).refCount = x.refCount + 1 := rfl
    omega
  | clamped x t e hz e' =>
    rw [e'] at hb
    cases hb
    exact absurd ⟨x, e, h0⟩ hn
  | zeroed x t e hz e' => rw [e'] at hb; cases hb; rfl
  | released x t e hz e' =>
    rw [e'] at hb
    cases hb
    have h1 : (x.released x.zeroRefSeq t).refCount = x.refCount - 1 := rfl
    omega

theorem zero_stays_run {k : String × String} {b' : Blob} :
    ∀ (after : List (StoreOp × Fault)) (d : Db) (b : Blob),
    getBlob k.1 k.2 d = some b → b.refCount = 0 → (∀ p, p <+: after → AtZero k (runOps d p)) →
      getBlob k.1 k.2 (runOps d after) = some b' → b'.zeroRefSeq = b.zeroRefSeq
  | [], d, b, hb, h0, _, hb' => by
    rw [show runOps d [] = d from rfl, hb] at hb'
    cases hb'
    rfl
  | o :: after, d, b, hb, h0, hall, hb' => by
    obtain ⟨c, hc, hc0⟩ : AtZero k (StoreOp.commit o d).2 := hall [o] ⟨after, rfl⟩
    rw [← zero_stays (blob_commit o d) hb h0 hc hc0]
    exact zero_stays_run after (StoreOp.commit o d).2 c hc hc0
      (fun p hp => hall (o :: p) (List.cons_prefix_cons.2 ⟨rfl, hp⟩)) hb'

/-- `o` is the step since which the blob has been at zero: it created the blob
or took its last reference. -/
structure BecameZero (ops : List (StoreOp × Fault)) (k : String × String)
    (before : List (StoreOp × Fault))
    (o : StoreOp × Fault) (after : List (StoreOp × Fault)) : Prop where
  split : ops = before ++ o :: after
  not_yet : ¬ AtZero k (runOps .empty before)
  since : ∀ p, p <+: after → AtZero k (runOps .empty (before ++ o :: p))

theorem became_zero {ops : List (StoreOp × Fault)} {k : String × String}
    (h : AtZero k (runOps .empty ops)) :
    ∃ before o after, BecameZero ops k before o after := by
  have h0 : ¬ AtZero k Db.empty := by
    rintro ⟨b, hb, -⟩
    cases hb
  obtain ⟨before, o, after, hs, hn, hafter⟩ := run_became h0 ops h
  exact ⟨before, o, after, hs, hn, hafter⟩

theorem runOps_split (db : Db) (before : List (StoreOp × Fault)) (o : StoreOp × Fault)
    (after : List (StoreOp × Fault)) :
    runOps db (before ++ o :: after) = runOps (StoreOp.commit o (runOps db before)).2 after := by
  unfold runOps
  rw [run_append, run_cons]

/-- **The zero point is the number that step drew.** -/
theorem zero_of_became {ops before after : List (StoreOp × Fault)} {o : StoreOp × Fault}
    {k : String × String}
    (hz : BecameZero ops k before o after) {b : Blob}
    (hb : getBlob k.1 k.2 (runOps .empty ops) = some b) :
    b.zeroRefSeq = some (latestSeq (runOps .empty before) k.1 + 1) := by
  obtain ⟨c, hc, hc0⟩ : AtZero k (StoreOp.commit o (runOps .empty before)).2 := by
    have := hz.since [] (List.nil_prefix)
    rwa [runOps_split] at this
  have hmark := zero_becomes (counted_run before) (blob_commit o _) hz.not_yet hc hc0
  rw [← hmark]
  rw [hz.split, runOps_split] at hb
  refine zero_stays_run after _ c hc hc0 (fun p hp => ?_) hb
  rw [← runOps_split]
  exact hz.since p hp

/-! ## The account meanwhile -/

/-- The step deletes the account's rows and its counter. -/
def deletes (a : String) (db : Db) (o : StoreOp × Fault) : Bool :=
  match o.1 with
  | .deleteAccount b => decide (b = a) && db.accounts.has a && (StoreOp.commit o db).1.isOk
  | _ => false

/-- No step of the run deletes the account. -/
def Stays (a : String) (db : Db) (ops : List (StoreOp × Fault)) : Prop :=
  AllSteps (fun d o => (StoreOp.commit o d).2) (fun d o => deletes a d o = false) db ops

section Account
variable {a : String}

/-- Of an account that is not registered there is nothing to delete. -/
theorem commit_undeleted {fault : Fault} {db : Db}
    (h : deletes a db (.deleteAccount a, fault) = false) :
    (StoreOp.commit (.deleteAccount a, fault) db).2 = db := by
  cases hc : StoreOp.commit (.deleteAccount a, fault) db with
  | mk r db' =>
    cases r with
    | error x => exact Tx.commit_error hc
    | ok u =>
      obtain ⟨r, e⟩ := Tx.eval_void_ok (L2.deleteAccount a) (Tx.commit_ok hc)
      rw [deleteAccount_eval] at e
      cases hf : db.accounts.find a with
      | none => rw [hf] at e; cases e; rfl
      | some x =>
        have hreg : db.accounts.has a = true := by
          unfold Table.has
          rw [hf]
          rfl
        unfold deletes at h
        rw [hc, hreg] at h
        simp [Except.isOk, Except.toBool] at h

theorem report_undeleted {o : StoreOp × Fault} {deviceId : String} {cursor : Nat}
    (h : ∃ now, o.1 = .updateDeviceCursor a deviceId cursor now) (db : Db) :
    deletes a db o = false := by
  obtain ⟨now, h⟩ := h
  unfold deletes
  rw [h]

theorem reaches_commit {db : Db} {o : StoreOp × Fault} (h : deletes a db o = false) :
    LineReaches a db (StoreOp.commit o db).2 := by
  by_cases ho : o.1 = .deleteAccount a
  · obtain ⟨o, fault⟩ := o
    cases ho
    rw [commit_undeleted h]
  · exact (line_reaches o.1 ho).commit (fun _ => .refl) o.2 db

theorem reaches_stays : ∀ {ops : List (StoreOp × Fault)} {db : Db}, Stays a db ops →
    latestSeq db a ≤ latestSeq (runOps db ops) a
  | [], _, _ => Nat.le_refl _
  | _ :: _, _, h => Nat.le_trans (Line.counter_le (reaches_commit h.1)) (reaches_stays h.2)

/-- After `before` the device reports the cursor, and its account stays. -/
def Reports (ops : List (StoreOp × Fault)) (a deviceId : String) (cursor : Nat)
    (before : List (StoreOp × Fault)) : Prop :=
  ∃ o after, ops = before ++ o :: after ∧ (∃ now, o.1 = .updateDeviceCursor a deviceId cursor now) ∧
    Stays a (StoreOp.commit o (runOps .empty before)).2 after

theorem updateDeviceCursor_step {b d deviceId now : String} {n : Nat} {db db' : Db} {u : Unit}
    (e : (updateDeviceCursor b d n now).eval db = .ok (u, db')) {x : Device}
    (hx : db'.devices.find (a, deviceId) = some x) :
    (∃ y, db.devices.find (a, deviceId) = some y ∧ y.lastSeenSeq = x.lastSeenSeq) ∨
      StoreOp.updateDeviceCursor b d n now = .updateDeviceCursor a deviceId x.lastSeenSeq now := by
  unfold updateDeviceCursor at e
  rw [Tx.eval_write] at e
  cases e
  have hx : (db.devices.upsert _).find (a, deviceId) = some x := hx
  rw [Table.find_upsert] at hx
  by_cases hk : (b, d) = (a, deviceId)
  · cases hk
    rw [if_pos (by rfl)] at hx
    cases hx
    cases hf : db.devices.find (a, d) with
    | none => exact .inr (by simp)
    | some y =>
      by_cases hle : y.lastSeenSeq ≤ n
      · exact .inr (by simp [Nat.max_eq_right hle])
      · exact .inl ⟨y, rfl, by simp; omega⟩
  · rw [if_neg (by exact hk)] at hx
    exact .inl ⟨x, hx, rfl⟩

theorem device_step {o : StoreOp × Fault} {db : Db} {deviceId : String} {x : Device}
    (hx : (StoreOp.commit o db).2.devices.find (a, deviceId) = some x) :
    (∃ y, db.devices.find (a, deviceId) = some y ∧ y.lastSeenSeq = x.lastSeenSeq ∧
      deletes a db o = false) ∨
      ∃ now, o.1 = .updateDeviceCursor a deviceId x.lastSeenSeq now := by
  obtain ⟨o, fault⟩ := o
  cases hc : StoreOp.commit (o, fault) db with
  | mk r db' =>
    rw [hc] at hx
    cases r with
    | error err =>
      have hdb : db' = db := Tx.commit_error hc
      subst hdb
      refine .inl ⟨x, hx, rfl, ?_⟩
      unfold deletes
      rw [hc]
      split
      · simp [Except.isOk, Except.toBool]
      · rfl
    | ok u =>
      have e := Tx.commit_ok hc
      have hkeep : deletes a db (o, fault) = false → o.tx.Keeps Db.devices → ∃ y,
          db.devices.find (a, deviceId) = some y ∧ y.lastSeenSeq = x.lastSeenSeq ∧
          deletes a db (o, fault) = false :=
        fun ho hk => ⟨x, by rw [← hk db u db' e]; exact hx, rfl, ho⟩
      cases o with
      | updateDeviceCursor b d n now =>
        obtain ⟨r, e⟩ := Tx.eval_void_ok (L2.updateDeviceCursor b d n now) e
        rcases updateDeviceCursor_step e hx with ⟨y, hy, hseq⟩ | ho
        · exact .inl ⟨y, hy, hseq, rfl⟩
        · exact .inr ⟨now, ho⟩
      | deleteAccount b =>
        obtain ⟨r, e⟩ := Tx.eval_void_ok (L2.deleteAccount b) e
        rw [deleteAccount_eval] at e
        left
        cases hf : db.accounts.find b with
        | none =>
          rw [hf] at e
          cases e
          have hreg : db.accounts.has b = false := Table.has_eq_false.2 hf
          refine ⟨x, hx, rfl, ?_⟩
          by_cases hb : b = a
          · subst hb
            simp [deletes, hreg]
          · simp [deletes, hb]
        | some y =>
          rw [hf] at e
          cases e
          have hx : (db.without b).devices.find (a, deviceId) = some x := hx
          rw [← tenant_device] at hx
          by_cases hb : b = a
          · subst hb
            rw [without_self] at hx
            cases hx
          · rw [without_other hb, tenant_device] at hx
            exact ⟨x, hx, rfl, by simp [deletes, hb]⟩
      | _ => exact .inl (hkeep rfl (StoreOp.keeps _ fun _ => rfl))

/-- A recorded cursor was reported as it stands. -/
theorem cursor_reported {deviceId : String} : ∀ (ops : List (StoreOp × Fault)) (x : Device),
    (runOps .empty ops).devices.find
    (a, deviceId) = some x → ∃ before, Reports ops a deviceId x.lastSeenSeq before := by
  intro ops
  induction ops using List.reverseRecOn with
  | nil =>
    intro x hx
    cases hx
  | append_singleton ops o ih =>
    intro x hx
    rw [runOps_split] at hx
    rcases device_step hx with ⟨y, hy, hseq, hdel⟩ | ho
    · obtain ⟨before, r, after, rfl, hr, hstays⟩ := ih y hy
      rw [hseq] at hr
      rw [runOps_split] at hdel
      exact ⟨before, r, after ++ [o], by simp, hr, allSteps_append.2 ⟨hstays, hdel, trivial⟩⟩
    · exact ⟨ops, o, [], rfl, ho, trivial⟩

end Account

/-! ## The activity stamp -/

/-- The stamp is the reading of the last step that touched the blob. -/
theorem activity_step {a h : String} {d d' : Db} {t : Option String} (hs : BlobStep a h d d' t)
    {b : Blob} (hb : getBlob a h d' = some b) : t = some b.lastReferenceActivityAt ∨
      t = none ∧ ∃ x, getBlob a h d = some x ∧
      x.lastReferenceActivityAt = b.lastReferenceActivityAt := by
  cases hs with
  | same e => exact .inr ⟨rfl, b, e ▸ hb, rfl⟩
  | gone e => rw [e] at hb; cases hb
  | created size t e e' => rw [e'] at hb; cases hb; exact .inl rfl
  | added x t e e' => rw [e'] at hb; cases hb; exact .inl rfl
  | clamped x t e hz e' => rw [e'] at hb; cases hb; exact .inl rfl
  | zeroed x t e hz e' => rw [e'] at hb; cases hb; exact .inl rfl
  | released x t e hz e' => rw [e'] at hb; cases hb; exact .inl rfl

/-- Every later step that touches the blob reads a clock at or past `now`. -/
def LaterThan (a h now : String) (db : Db) (ops : List (StoreOp × Fault)) : Prop :=
  AllSteps (fun d o => (StoreOp.commit o d).2) (fun d o => ∀ t,
    activity a h d o = some t → now ≤ t) db ops

theorem activity_run {a h now : String} {ops : List (StoreOp × Fault)} {db : Db}
    (hl : LaterThan a h now db ops)
    (h0 : ∀ b, getBlob a h db = some b → now ≤ b.lastReferenceActivityAt) :
    ∀ b, getBlob a h (runOps db ops) = some b → now ≤ b.lastReferenceActivityAt := by
  refine run_inv_of (I := fun d => ∀ b, getBlob a h d = some b → now ≤ b.lastReferenceActivityAt)
    (fun d o ho hd b hb => ?_) ops db hl h0
  rcases activity_step (blob_commit o d) hb with ht | ⟨-, x, hx, he⟩
  · exact ho _ ht
  · rw [← he]
    exact hd x hx

/-! ## Every blob of every reachable state -/

/-- What holds of the row `b` of the blob `(a, h)` after the run. -/
structure Tracked (ops : List (StoreOp × Fault)) (a h : String) (b : Blob) : Prop where
  counted : b.Counted
  le_latest : ∀ z, b.zeroRefSeq = some z → z ≤ latestSeq (runOps .empty ops) a
  /-- the zero point lies above all the account had stored when the count came to zero -/
  past_rows : ∀ z before o after, b.zeroRefSeq = some z → BecameZero ops (a, h) before o after →
    ∀ early late, before = early ++ late → Stays a (runOps .empty early) late →
      (∀ r ∈ (runOps .empty early).syncRows.rows, r.accountId = a → r.seq < z) ∧
      ∀ r ∈ (runOps .empty early).intentEvents.rows, r.accountId = a → r.seq < z
  /-- and there was such a step -/
  came : ∀ z, b.zeroRefSeq = some z → ∃ before o after, BecameZero ops (a, h) before o after
  /-- a device at or past the zero point got there after that step, if it reported
  nothing the account had not reached -/
  reported : ∀ z before o after x, b.zeroRefSeq = some z → BecameZero ops (a, h) before o after →
    x ∈ (runOps .empty ops).devices.rows → x.accountId = a → z ≤ x.lastSeenSeq →
    (∀ early, Reports ops a x.deviceId x.lastSeenSeq early →
      x.lastSeenSeq ≤ latestSeq (runOps .empty early) a) →
      (∃ early, Reports ops a x.deviceId x.lastSeenSeq early) ∧
      ∀ early, Reports ops a x.deviceId x.lastSeenSeq early →
        z ≤ latestSeq (runOps .empty early) a ∧ before.length < early.length
  /-- a release at zero leaves the count and the zero point -/
  idle : b.refCount = 0 → ∀ now fault, ∃ c,
    getBlob a h (StoreOp.commit (.releaseBlobReference a h now, fault)
    (runOps .empty ops)).2 = some c ∧ c.refCount = 0 ∧ c.zeroRefSeq = b.zeroRefSeq
  /-- under a clock that does not go back, no activity is later than the stamp -/
  active : ∀ before o after now, ops = before ++ o :: after →
    activity a h (runOps .empty before) o = some now →
    LaterThan a h now (StoreOp.commit o (runOps .empty before)).2 after →
    now ≤ b.lastReferenceActivityAt

theorem release_idle {a h : String} {db : Db} {b : Blob} (hb : getBlob a h db = some b)
    (h0 : b.refCount = 0)
    (now : String) (fault : Fault) :
    ∃ c, getBlob a h (StoreOp.commit (.releaseBlobReference a h now, fault) db).2 = some c ∧
      c.refCount = 0 ∧ c.zeroRefSeq = b.zeroRefSeq := by
  unfold StoreOp.commit
  cases hc : (StoreOp.releaseBlobReference a h now).tx.commit fault db with
  | mk r db' =>
    cases r with
    | error x =>
      rw [Tx.commit_error hc]
      exact ⟨b, hb, h0, rfl⟩
    | ok u =>
      obtain ⟨r, e⟩ := Tx.eval_void_ok (L2.releaseBlobReference a h now) (Tx.commit_ok hc)
      rw [releaseBlobReference_eval, show db.blobs.find (a, h) = some b from hb] at e
      dsimp only at e
      rw [if_pos (by omega)] at e
      cases e
      have hkey : b.key = (a, h) := Table.find_key (show db.blobs.find (a, h) = some b from hb)
      exact ⟨b.touched now, getBlob_putBlob _ hkey, h0, rfl⟩

theorem seq_le_latest {a : String} {early late : List (StoreOp × Fault)}
    (hs : Stays a (runOps .empty early) late) :
    (∀ r ∈ (runOps .empty early).syncRows.rows, r.accountId = a →
      r.seq ≤ latestSeq (runOps .empty (early ++ late)) a) ∧
      ∀ r ∈ (runOps .empty early).intentEvents.rows, r.accountId = a →
        r.seq ≤ latestSeq (runOps .empty (early ++ late)) a := by
  have hsound := sound_run (a := a) early
  have hline : latestSeq (runOps .empty early) a ≤ latestSeq (runOps .empty (early ++ late)) a := by
    unfold runOps
    rw [run_append]
    exact reaches_stays hs
  constructor
  · intro r hr ha
    exact Nat.le_trans (hsound.le (.row r.app r.entityId) r.seq (stamp_row hr ha)) hline
  · intro r hr ha
    exact Nat.le_trans (hsound.le (.event r.eventId) r.seq (stamp_event hr ha)) hline

/-- A report of a number drawn by a step came after the step. -/
theorem report_after {ops before after early : List (StoreOp × Fault)} {o : StoreOp × Fault}
    {a deviceId : String}
    {c : Nat} (hs : ops = before ++ o :: after) (hr : Reports ops a deviceId c early)
    (hc : latestSeq (runOps .empty before) a < latestSeq (runOps .empty early) a) :
    before.length < early.length := by
  by_contra hle
  obtain ⟨r, rest, hsplit, hreport, hstays⟩ := hr
  -- otherwise `early` is an initial part of `before`, and the line only grows from it
  have hpre : early <+: before := by
    refine List.prefix_of_prefix_length_le ⟨r :: rest, hsplit.symm⟩ ⟨o :: after, hs.symm⟩ (by omega)
  obtain ⟨mid, rfl⟩ := hpre
  cases mid with
  | nil =>
    rw [List.append_nil] at hc
    omega
  | cons x mid =>
    rw [hs, List.append_assoc] at hsplit
    obtain ⟨rfl, rfl⟩ := List.cons_eq_cons.1 (List.append_cancel_left hsplit)
    have hfirst : latestSeq (runOps .empty early) a ≤ latestSeq
        (StoreOp.commit x (runOps .empty early)).2 a :=
      Line.counter_le (reaches_commit (report_undeleted hreport _))
    have hrest := reaches_stays (allSteps_append.1 hstays).1
    rw [runOps_split] at hc
    have hrest : latestSeq (StoreOp.commit x (runOps .empty early)).2 a ≤
      latestSeq (runOps (StoreOp.commit x (runOps .empty early)).2 mid) a := hrest
    omega

theorem zero_points (ops : List (StoreOp × Fault)) {a h : String} {b : Blob}
    (hb : getBlob a h (runOps .empty ops) = some b) : Tracked ops a h b := by
  have hcounted := counted_run ops a h b hb
  have hzero : ∀ z, b.zeroRefSeq = some z → b.refCount = 0 :=
    fun z hz => hcounted.marked.1 (by rw [hz]; rfl)
  have hdrawn : ∀ {z before o after}, b.zeroRefSeq = some z → BecameZero ops (a, h) before o after →
      z = latestSeq (runOps .empty before) a + 1 := fun hz hbecame =>
    Option.some.inj (hz.symm.trans (zero_of_became hbecame hb))
  constructor
  · exact hcounted
  · intro z hz
    have hstamp : (runOps .empty ops).stampOf a (.zero h) = some z := by
      show ((runOps .empty ops).blobs.find (a, h)).bind _ = _
      rw [show (runOps .empty ops).blobs.find (a, h) = some b from hb]
      exact hz
    exact (sound_run ops).le (.zero h) z hstamp
  · intro z before o after hz hbecame early late hsplit hstays
    have hz := hdrawn hz hbecame
    obtain ⟨hrows, hevents⟩ := seq_le_latest hstays
    rw [← hsplit] at hrows hevents
    refine ⟨fun r hr ha => ?_, fun r hr ha => ?_⟩
    · have := hrows r hr ha
      omega
    · have := hevents r hr ha
      omega
  · intro z hz
    exact became_zero ⟨b, hb, hzero z hz⟩
  · intro z before o after x hz hbecame hx ha hle hhonest
    subst ha
    have hz := hdrawn hz hbecame
    refine ⟨cursor_reported ops x (Table.find_some.2 ⟨hx, rfl⟩), fun early hr => ?_⟩
    have hlatest := hhonest early hr
    exact ⟨by omega, report_after hbecame.split hr (by omega)⟩
  · exact fun h0 now fault => release_idle hb h0 now fault
  · intro before o after now hsplit hact hlater
    rw [hsplit, runOps_split] at hb
    refine activity_run hlater (fun x hx => ?_) b hb
    rcases activity_step (blob_commit o _) hx with ht | ⟨ht, -⟩
    · rw [hact] at ht
      cases ht
      exact String.le_refl _
    · rw [hact] at ht
      cases ht

/-- A row, a blob, a report of both numbers, a reference taken and given back:
the zero point is the third number. -/
theorem zero_points_released :
    Tracked
      [(.batchUpsert "dayglance" "house" [⟨"x", [], false, false, none⟩] fun _ => "t1", none),
        (.insertBlobIfAbsent "house" "h" 3 "t2", none),
        (.updateDeviceCursor "house" "phone" 2 "t3", none),
        (.addBlobReference "house" "h" "t4", none), (.releaseBlobReference "house" "h" "t5", none)]
      "house" "h" ⟨"house", "h", 3, 0, some 3, "t2", "t5"⟩ :=
  zero_points _ (by decide +kernel)

/-- A device that reports 1000 first is past the zero point of a blob stored
later, and reported it before the account had a single row. -/
theorem reported_ahead :
    let ops : List (StoreOp × Fault) := [(.updateDeviceCursor "house" "phone" 1000 "t1", none),
      (.batchUpsert "dayglance" "house" [⟨"x", [], false, false, none⟩] fun _ => "t2", none),
      (.insertBlobIfAbsent "house" "h" 3 "t3", none)]
    let db := runOps .empty ops
    (getBlob "house" "h" db).bind (·.zeroRefSeq) = some 2 ∧
      (db.devices.find ("house", "phone")).map (·.lastSeenSeq) = some 1000 ∧
      (db.syncRows.find ("house", "dayglance", "x")).map (·.seq) = some 1 ∧
      Reports ops "house" "phone" 1000 [] ∧ latestSeq (runOps .empty []) "house" = 0 ∧
      ∀ early, Reports ops "house" "phone" 1000 early → early = [] := by
  intro ops db
  have hstays : Stays "house" (StoreOp.commit (.updateDeviceCursor "house" "phone" 1000 "t1", none)
      (runOps .empty [])).2 (ops.drop 1) := by
    refine allSteps_mem _ _ fun o ho d => ?_
    simp only [ops, List.drop_one, List.tail_cons, List.mem_cons, List.not_mem_nil, or_false] at ho
    rcases ho with rfl | rfl <;> rfl
  refine ⟨by decide +kernel, by decide +kernel, by decide +kernel,
    ⟨_, _, rfl, ⟨"t1", rfl⟩, hstays⟩, rfl, ?_⟩
  rintro early ⟨o, after, hsplit, ⟨now, ho⟩, -⟩
  unfold ops at hsplit
  match early with
  | [] => rfl
  | [_] => cases hsplit; cases ho
  | [_, _] => cases hsplit; cases ho
  | [_, _, _] => cases hsplit
  | _ :: _ :: _ :: _ :: _ => cases hsplit

end GlanceVault.L2
