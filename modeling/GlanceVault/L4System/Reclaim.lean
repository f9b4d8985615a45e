import GlanceVault.L2Storage.Reclaim
import GlanceVault.L4System.Survival
/-!
# A reclaim sweep takes what is due

The sweep evaluates the three conditions once and then deletes row by row. Its
end, for any server whose rows name hashes: the rows that were due are gone
with the bytes of their hashes, and nothing else has changed.

* `reclaimSweep_run`: a sweep as one step.
* `sweep_exact`: what it takes and returns, that it takes nothing twice, and
  that longer periods, more devices and more references make it take less.
-/
namespace GlanceVault.L4
open GlanceVault.Core GlanceVault.L1 GlanceVault.L2 GlanceVault.L3

/-- Activity up to then is out of the grace period. -/
def graceEnd (policy : ReclaimPolicy) (nowMs : Int) : Int := nowMs - policy.gracePeriodMs

/-- A device that has been active since is not given up for dead. -/
def deadSince (policy : ReclaimPolicy) (nowMs : Int) : Int := nowMs - policy.deadDevicePeriodMs

/-- Both cutoffs are dates. -/
def Dated (policy : ReclaimPolicy) (nowMs : Int) : Prop :=
  Iso.inRange (graceEnd policy nowMs) = true ∧ Iso.inRange (deadSince policy nowMs) = true

instance (policy : ReclaimPolicy) (nowMs : Int) : Decidable (Dated policy nowMs) :=
  inferInstanceAs (Decidable (_ ∧ _))

/-- What a sweep returns. -/
def removedBy (policy : ReclaimPolicy) (nowMs : Int) (v : Server) : List Blob :=
  match (reclaimSweep policy nowMs v).result with
  | .ok removed => removed
  | .error _ => []

/-- The server without some blobs, rows and bytes. -/
def without (removed : List Blob) (v : Server) : Server :=
  { v with
    db := { v.db with blobs := v.db.blobs.keep fun b => decide (b.key ∉ removed.map Blob.key) }
    disk := fun p => if p ∈ removed.map (fun b => Path.blob b.blobHash) then none else v.disk p }

section Run
variable {policy : ReclaimPolicy} {nowMs : Int} {v : Server}

theorem isoOf_inRange {ms : Int} (h : Iso.inRange ms = true) : isoOf ms = .ok (Iso.isoText ms) := by
  unfold isoOf Iso.toISOString
  rw [if_pos h]

theorem isoOf_outOfRange {ms : Int} (h : ¬ Iso.inRange ms = true) :
    isoOf ms = .error (.raise "Invalid time value") := by
  unfold isoOf Iso.toISOString
  rw [if_neg h]

theorem reclaimBlob_without {b : Blob} (hv : Js.isHash b.blobHash = true) (v : Server) :
    (reclaimBlob b v).result = .ok () ∧ (reclaimBlob b v).state = without [b] v := by
  have hassert : Disk.assertHash b.blobHash = .ok () := if_pos hv
  have hkeep : (v.db.blobs.keep fun r => !decide (r.key = (b.accountId, b.blobHash))) =
      v.db.blobs.keep fun r => decide (r.key ∉ [b].map Blob.key) := by
    congr 1
    funext r
    simp [Blob.key]
  have hdisk : v.disk.remove (.blob b.blobHash) = (without [b] v).disk := by
    funext p
    simp [Disk.remove, without]
  unfold reclaimBlob deleteBytes
  rw [hassert]
  refine ⟨rfl, ?_⟩
  show ({ v with
    db := { v.db with blobs := _ }, disk := v.disk.remove (.blob b.blobHash) } : Server) = _
  rw [hdisk]
  unfold without
  rw [← hkeep]
  rfl

theorem without_cons (b : Blob) (removed : List Blob) (v : Server) :
    without removed (without [b] v) = without (b :: removed) v := by
  have hrows : (v.db.blobs.keep fun r => decide (r.key ∉ [b].map Blob.key)).keep
      (fun r => decide (r.key ∉ removed.map Blob.key)) =
      v.db.blobs.keep fun r => decide (r.key ∉ (b :: removed).map Blob.key) := by
    apply Table.ext'
    simp only [Table.keep, List.filter_filter]
    refine List.filter_congr fun r _ => ?_
    simp [Bool.and_comm]
  have hdisk : (without removed (without [b] v)).disk = (without (b :: removed) v).disk := by
    funext p
    simp only [without, List.map_cons, List.map_nil, List.mem_cons, List.not_mem_nil, or_false]
    by_cases hp : p ∈ removed.map (fun b => Path.blob b.blobHash)
    · rw [if_pos hp, if_pos (.inr hp)]
    · rw [if_neg hp]
      simp only [hp, or_false]
  show ({ v with
    db := { v.db with blobs := _ }, disk := (without removed (without [b] v)).disk } : Server) = _
  rw [hdisk]
  unfold without
  rw [← hrows]

theorem without_nil (v : Server) : without [] v = v := by
  have hrows :
      v.db.blobs.keep (fun r => decide (r.key ∉ ([] : List Blob).map Blob.key)) = v.db.blobs :=
    Table.keep_eq_self fun r _ => by simp
  unfold without
  rw [hrows]
  simp

theorem reclaim_each : ∀ (removed : List Blob) (v : Server),
    (∀ b ∈ removed, Js.isHash b.blobHash = true) →
    (Prog.each reclaimBlob removed v).result = .ok () ∧
    (Prog.each reclaimBlob removed v).state = without removed v
  | [], v, _ => ⟨rfl, (without_nil v).symm⟩
  | b :: removed, v, hhash => by
    obtain ⟨hok, hstate⟩ := reclaimBlob_without (hhash b List.mem_cons_self) v
    obtain ⟨hrest, hend⟩ :=
      reclaim_each removed (without [b] v) fun c hc => hhash c (List.mem_cons_of_mem _ hc)
    obtain ⟨h1, h2⟩ := Prog.bind_ok hok fun _ => Prog.each reclaimBlob removed
    rw [hstate] at h1 h2
    exact ⟨h1.trans hrest, h2.trans (hend.trans (without_cons b removed v))⟩

/-- The store's rows name hashes. -/
def Addresses (v : Server) : Prop := ∀ b ∈ v.db.blobs.rows, Js.isHash b.blobHash = true

/-- **A sweep as one step.** -/
theorem reclaimSweep_run (hon : policy.reclaim = true) (hdated : Dated policy nowMs)
    (hhash : Addresses v) :
    (reclaimSweep policy nowMs v).result =
        .ok (listReclaimableBlobs (Iso.isoText (graceEnd policy nowMs))
          (Iso.isoText (deadSince policy nowMs)) v.db) ∧
      (reclaimSweep policy nowMs v).state =
        without (listReclaimableBlobs (Iso.isoText (graceEnd policy nowMs))
          (Iso.isoText (deadSince policy nowMs)) v.db) v := by
  have hg : isoOf (nowMs - policy.gracePeriodMs) = .ok (Iso.isoText (graceEnd policy nowMs)) :=
    isoOf_inRange hdated.1
  have hd : isoOf (nowMs - policy.deadDevicePeriodMs) =
      .ok (Iso.isoText (deadSince policy nowMs)) :=
    isoOf_inRange hdated.2
  let found := listReclaimableBlobs (Iso.isoText (graceEnd policy nowMs))
    (Iso.isoText (deadSince policy nowMs)) v.db
  have hrun : reclaimSweep policy nowMs v =
      (Prog.each reclaimBlob found >>= fun _ => pure found) v := by
    unfold reclaimSweep
    rw [if_pos hon, hg, hd]
    rfl
  obtain ⟨hok, hstate⟩ := reclaim_each found v fun b hb => hhash b (List.mem_filter.1 hb).1
  obtain ⟨h1, h2⟩ := Prog.bind_ok hok fun _ => (pure found : Handler (List Blob))
  rw [hrun]
  exact ⟨h1, h2.trans hstate⟩

theorem reclaimSweep_off (hoff : policy.reclaim = false) (v : Server) :
    reclaimSweep policy nowMs v = ⟨.ok [], v, []⟩ := by
  unfold reclaimSweep
  rw [hoff]
  rfl

theorem reclaimSweep_undated (hon : policy.reclaim = true) (hdated : ¬ Dated policy nowMs)
    (v : Server) :
    reclaimSweep policy nowMs v = ⟨.error (.raise "Invalid time value"), v, []⟩ := by
  unfold reclaimSweep
  rw [if_pos hon]
  by_cases hg : Iso.inRange (graceEnd policy nowMs) = true
  · have hd : isoOf (nowMs - policy.deadDevicePeriodMs) = .error (.raise "Invalid time value") :=
      isoOf_outOfRange fun h => hdated ⟨hg, h⟩
    have hg : isoOf (nowMs - policy.gracePeriodMs) = .ok (Iso.isoText (graceEnd policy nowMs)) :=
      isoOf_inRange hg
    rw [hg, hd]
    rfl
  · have hg : isoOf (nowMs - policy.gracePeriodMs) = .error (.raise "Invalid time value") :=
      isoOf_outOfRange hg
    rw [hg]
    rfl

theorem eligible_on (hon : policy.reclaim = true) (hdated : Dated policy nowMs) (db : Db) :
    eligible policy nowMs db = listReclaimableBlobs (Iso.isoText (graceEnd policy nowMs))
      (Iso.isoText (deadSince policy nowMs)) db := by
  have hg : isoOf (nowMs - policy.gracePeriodMs) = .ok (Iso.isoText (graceEnd policy nowMs)) :=
    isoOf_inRange hdated.1
  have hd : isoOf (nowMs - policy.deadDevicePeriodMs) =
      .ok (Iso.isoText (deadSince policy nowMs)) :=
    isoOf_inRange hdated.2
  unfold eligible
  rw [hon, hg, hd]

theorem eligible_off (hoff : policy.reclaim = false) (db : Db) : eligible policy nowMs db = [] := by
  unfold eligible
  rw [hoff]

theorem inRange_of_isoOf {ms : Int} {text : String} (h : isoOf ms = .ok text) :
    Iso.inRange ms = true := by
  by_contra hout
  rw [isoOf_outOfRange hout] at h
  cases h

theorem eligible_undated (hdated : ¬ Dated policy nowMs) (db : Db) :
    eligible policy nowMs db = [] := by
  unfold eligible
  split
  · rename_i hg hd
    exact absurd ⟨inRange_of_isoOf hg, inRange_of_isoOf hd⟩ hdated
  · rfl

/-- Any sweep, on or off, takes the rows it finds. -/
theorem reclaimSweep_takes (policy : ReclaimPolicy) (nowMs : Int) (hhash : Addresses v) :
    removedBy policy nowMs v = eligible policy nowMs v.db ∧
    (reclaimSweep policy nowMs v).state = without (eligible policy nowMs v.db) v := by
  unfold removedBy
  cases hon : policy.reclaim with
  | false =>
    rw [reclaimSweep_off hon, eligible_off hon]
    exact ⟨rfl, (without_nil v).symm⟩
  | true =>
    by_cases hdated : Dated policy nowMs
    · obtain ⟨hresult, hstate⟩ := reclaimSweep_run hon hdated hhash
      rw [hresult, eligible_on hon hdated]
      exact ⟨rfl, hstate⟩
    · rw [reclaimSweep_undated hon hdated, eligible_undated hdated]
      exact ⟨rfl, (without_nil v).symm⟩

theorem mem_without {removed : List Blob} (hsub : ∀ b ∈ removed, b ∈ v.db.blobs.rows) {b : Blob} :
    b ∈ (without removed v).db.blobs.rows ↔ b ∈ v.db.blobs.rows ∧ b ∉ removed := by
  refine Table.mem_keep.trans (and_congr_right fun hb => ?_)
  rw [decide_eq_true_eq, List.mem_map]
  refine not_congr ⟨fun ⟨c, hc, e⟩ => ?_, fun h => ⟨b, h, rfl⟩⟩
  exact Table.eq_of_mem (hsub c hc) hb e ▸ hc

/-- What is found among fewer rows, with more devices. -/
theorem eligible_mono {db db' : Db}
    (hrows : ∀ b ∈ db'.blobs.rows, b.zeroRefSeq ≠ none → b ∈ db.blobs.rows)
    (hdevices : ∀ d ∈ db.devices.rows, d ∈ db'.devices.rows) {b : Blob}
    (hb : b ∈ eligible policy nowMs db') :
    b ∈ eligible policy nowMs db := by
  unfold eligible at hb ⊢
  split at hb
  · obtain ⟨hmem, hreclaim⟩ := List.mem_filter.1 hb
    obtain ⟨href, hgrace, z, hz, hall⟩ := reclaimable_true.1 hreclaim
    refine List.mem_filter.2 ⟨hrows b hmem (by rw [hz]; simp),
      reclaimable_true.2 ⟨href, hgrace, z, hz, fun d hd => ?_⟩⟩
    exact hall d (hdevices d hd)
  · cases hb

/-- What a sweep finds is due. -/
theorem mem_eligible_iff (hon : policy.reclaim = true) (hdated : Dated policy nowMs) {db : Db}
    (hstamped : Stamped db)
    (hg : graceEnd policy nowMs < Iso.yearTenThousand)
    (hd : deadSince policy nowMs < Iso.yearTenThousand) {b : Blob} :
    b ∈ eligible policy nowMs db ↔ b ∈ db.blobs.rows ∧
    Due (graceEnd policy nowMs) (deadSince policy nowMs) db.devices.rows b := by
  rw [eligible_on hon hdated, listReclaimableBlobs, List.mem_filter]
  exact and_congr_right fun hb => reclaimable_iff hstamped hg hd hb

theorem eligible_longer {longer : ReclaimPolicy} (hdated : Dated policy nowMs) {db : Db}
    (hstamped : Stamped db)
    (hg : graceEnd policy nowMs < Iso.yearTenThousand)
    (hd : deadSince policy nowMs < Iso.yearTenThousand)
    (hsame : longer.reclaim = policy.reclaim) (hgrace : policy.gracePeriodMs ≤ longer.gracePeriodMs)
    (hdead : policy.deadDevicePeriodMs ≤ longer.deadDevicePeriodMs) {b : Blob}
    (hb : b ∈ eligible longer nowMs db) :
    b ∈ eligible policy nowMs db := by
  have hge : graceEnd longer nowMs ≤ graceEnd policy nowMs := by
    unfold graceEnd
    omega
  have hde : deadSince longer nowMs ≤ deadSince policy nowMs := by
    unfold deadSince
    omega
  cases hon : policy.reclaim with
  | false =>
    rw [eligible_off (hsame.trans hon)] at hb
    cases hb
  | true =>
    by_cases hlonger : Dated longer nowMs
    · obtain ⟨hmem, hdue⟩ :=
        (mem_eligible_iff (hsame.trans hon) hlonger hstamped (by omega) (by omega)).1 hb
      exact (mem_eligible_iff hon hdated hstamped hg hd).2 ⟨hmem, hdue.earlier hge hde⟩
    · rw [eligible_undated hlonger] at hb
      cases hb

theorem referenced_rows {a h now : String} {answer : Option Blob} {db db' : Db}
    (e : (addBlobReference a h now).eval db = .ok (answer, db')) :
    (∀ b ∈ db'.blobs.rows, b.zeroRefSeq ≠ none → b ∈ db.blobs.rows) ∧ db'.devices = db.devices ∧
      ∀ b ∈ db'.blobs.rows, ∃ r ∈ db.blobs.rows, r.blobHash = b.blobHash := by
  rw [addBlobReference_eval] at e
  cases hf : db.blobs.find (a, h) with
  | none =>
    rw [hf] at e
    cases e
    exact ⟨fun b hb _ => hb, rfl, fun b hb => ⟨b, hb, rfl⟩⟩
  | some r =>
    rw [hf] at e
    cases e
    refine ⟨fun b hb hzero => ?_, rfl, fun b hb => ?_⟩
    · rcases Table.mem_upsert.1 hb with rfl | ⟨hb, -⟩
      · exact absurd rfl hzero
      · exact hb
    · rcases Table.mem_upsert.1 hb with rfl | ⟨hb, -⟩
      · exact ⟨r, Table.find_mem hf, rfl⟩
      · exact ⟨b, hb, rfl⟩

end Run

/-! ## What a sweep takes -/

/-- **A sweep takes exactly what is due.** -/
structure Exact (policy : ReclaimPolicy) (nowMs : Int) (v : Server) : Prop where
  /-- off, it does nothing -/
  off : policy.reclaim = false → reclaimSweep policy nowMs v = ⟨.ok [], v, []⟩
  /-- with a cutoff that is no date it throws, and does nothing -/
  undated : policy.reclaim = true → ¬ Dated policy nowMs →
    reclaimSweep policy nowMs v = ⟨.error (.raise "Invalid time value"), v, []⟩
  /-- what is returned is what is gone, with the bytes; nothing else changes -/
  ends : policy.reclaim = true → Dated policy nowMs →
    (reclaimSweep policy nowMs v).result = .ok (removedBy policy nowMs v)
  removes : (reclaimSweep policy nowMs v).state = without (removedBy policy nowMs v) v
  rows : ∀ b, b ∈ (reclaimSweep policy nowMs v).state.db.blobs.rows ↔ b ∈ v.db.blobs.rows ∧
    b ∉ removedBy policy nowMs v
  /-- it is what is due -/
  due : policy.reclaim = true → Dated policy nowMs → Stamped v.db →
    graceEnd policy nowMs < Iso.yearTenThousand →
    deadSince policy nowMs < Iso.yearTenThousand → ∀ b, b ∈ removedBy policy nowMs v ↔
      b ∈ v.db.blobs.rows ∧ Due (graceEnd policy nowMs) (deadSince policy nowMs) v.db.devices.rows b
  /-- a second sweep takes nothing -/
  again : removedBy policy nowMs (reclaimSweep policy nowMs v).state = [] ∧
    (reclaimSweep policy nowMs (reclaimSweep policy nowMs v).state).state =
      (reclaimSweep policy nowMs v).state
  /-- longer periods -/
  periods : Dated policy nowMs → Stamped v.db → graceEnd policy nowMs < Iso.yearTenThousand →
    deadSince policy nowMs < Iso.yearTenThousand →
      ∀ longer : ReclaimPolicy, longer.reclaim = policy.reclaim →
      policy.gracePeriodMs ≤ longer.gracePeriodMs →
        policy.deadDevicePeriodMs ≤ longer.deadDevicePeriodMs →
        ∀ b ∈ removedBy longer nowMs v, b ∈ removedBy policy nowMs v
  /-- more devices -/
  devices : ∀ devices : Table Device.key, (∀ d ∈ v.db.devices.rows, d ∈ devices.rows) →
    ∀ b ∈ removedBy policy nowMs { v with db := { v.db with devices := devices } },
      b ∈ removedBy policy nowMs v
  /-- one more reference -/
  reference : ∀ a h now answer db, (addBlobReference a h now).eval v.db = .ok (answer, db) →
    ∀ b ∈ removedBy policy nowMs { v with db := db }, b ∈ removedBy policy nowMs v

theorem sweep_exact (policy : ReclaimPolicy) (nowMs : Int) {v : Server} (hhash : Addresses v) :
    Exact policy nowMs v := by
  obtain ⟨hremoved, hstate⟩ := reclaimSweep_takes policy nowMs hhash
  have hsub : ∀ b ∈ eligible policy nowMs v.db, b ∈ v.db.blobs.rows := fun b hb => mem_eligible hb
  have hhash' : Addresses (without (eligible policy nowMs v.db) v) :=
    fun b hb => hhash b (Table.mem_keep.1 hb).1
  have hnone : eligible policy nowMs (without (eligible policy nowMs v.db) v).db = [] := by
    refine List.eq_nil_iff_forall_not_mem.2 fun b hb => ?_
    have hmem := (mem_without hsub).1 (mem_eligible hb)
    refine hmem.2 (eligible_mono ?_ ?_ hb)
    · exact fun c hc _ => (Table.mem_keep.1 hc).1
    · exact fun d hd => hd
  refine { off := fun hoff => reclaimSweep_off hoff v,
           undated := fun hon hdated => reclaimSweep_undated hon hdated v,
           ends := fun hon hdated =>
             ?_, removes := by rw [hremoved]; exact hstate, rows := fun b => ?_,
           due := fun hon hdated hstamped hg hd b => ?_, again := ?_,
           periods := fun hdated hstamped hg hd longer hsame hgrace hdead b hb =>
             ?_, devices := fun devices hmore b hb => ?_,
           reference := fun a h now answer db e b hb => ?_ }
  · obtain ⟨hresult, -⟩ := reclaimSweep_run hon hdated hhash
    rw [hresult, hremoved, eligible_on hon hdated]
  · rw [hstate, hremoved]
    exact mem_without hsub
  · rw [hremoved]
    exact mem_eligible_iff hon hdated hstamped hg hd
  · obtain ⟨hagain, hstays⟩ := reclaimSweep_takes policy nowMs hhash'
    rw [hstate, hagain, hstays, hnone]
    exact ⟨rfl, without_nil _⟩
  · rw [(reclaimSweep_takes longer nowMs hhash).1] at hb
    rw [hremoved]
    exact eligible_longer hdated hstamped hg hd hsame hgrace hdead hb
  · have hhash' : Addresses { v with db := { v.db with devices := devices } } := hhash
    rw [(reclaimSweep_takes policy nowMs hhash').1] at hb
    rw [hremoved]
    refine eligible_mono ?_ ?_ hb
    · exact fun c hc _ => hc
    · exact hmore
  · obtain ⟨hrows, hdevices, hhashes⟩ := referenced_rows e
    have hhash' : Addresses { v with db := db } := fun c hc => by
      obtain ⟨r, hr, he⟩ := hhashes c hc
      exact he ▸ hhash r hr
    rw [(reclaimSweep_takes policy nowMs hhash').1] at hb
    rw [hremoved]
    exact eligible_mono hrows (fun d hd => by rw [hdevices]; exact hd) hb

/-- In every state of a run the rows name hashes. -/
theorem addresses_after (host : Host) (cfg : Config) (es : List Event) :
    Addresses (State.after host cfg es).server :=
  fun _ hb => (genuine_after host cfg es).heldHash _ (mem_media_held hb)

/-- The empty blob of `uploadEmpty`, not referred to, is reclaimed in March. -/
theorem sweep_exact_march :
    let v := (State.after sampleHost sampleConfig
      ((uploadEmpty "a" "u" "2025-01-01T00:00:00.000Z").map .run)).server
    (removedBy ⟨true, 2592000000, 2592000000⟩ 1740787200000 v).map Blob.key = [("a", emptyHash)] ∧
      Exact ⟨true, 2592000000, 2592000000⟩ 1740787200000 v :=
  ⟨by decide +kernel,
    sweep_exact ⟨true, 2592000000, 2592000000⟩ 1740787200000 (addresses_after _ _ _)⟩

/-- What goes if every policy has its dates, and a row without a zero point
waits for no device. -/
def Literal (policy : ReclaimPolicy) (nowMs : Int) (v : Server) : Prop :=
  policy.reclaim = true → ∀ b ∈ v.db.blobs.rows,
    b ∉ (reclaimSweep policy nowMs v).state.db.blobs.rows ↔
    b.refCount = 0 ∧ (∃ ms, Stamp b.lastReferenceActivityAt ms ∧ ms ≤ graceEnd policy nowMs) ∧
      ¬ ∃ d ∈ v.db.devices.rows, ∃ z, b.zeroRefSeq = some z ∧
      d.Lags b.accountId (deadSince policy nowMs) z

/-- Neither with a dead-device period of a million years, nor at zero references
without a zero point. -/
theorem sweep_keeps :
    let v := (State.after sampleHost sampleConfig
      ((uploadEmpty "a" "u" "2025-01-01T00:00:00.000Z").map .run)).server
    let unmarked : Blob :=
      ⟨"a", emptyHash, 0, 0, none, "2025-01-01T00:00:00.000Z", "2025-01-01T00:00:00.000Z"⟩
    ¬ Literal ⟨true, 2592000000, 31557600000000000⟩ 1740787200000 v ∧
      ¬ Literal ⟨true, 2592000000, 2592000000⟩ 1740787200000
        { Server.fresh with db := Db.empty.putBlob unmarked } := by
  intro v unmarked
  have hstamp : Stamp "2025-01-01T00:00:00.000Z" 1735689600000 := ⟨by decide, by decide +kernel⟩
  constructor
  · intro h
    let b : Blob :=
      ⟨"a", emptyHash, 0, 0, some 1, "2025-01-01T00:00:00.000Z", "2025-01-01T00:00:00.000Z"⟩
    have hrow : b ∈ v.db.blobs.rows := by decide +kernel
    have hdevices : v.db.devices.rows = [] := by decide +kernel
    refine (h rfl b hrow).2 ⟨rfl, ⟨_, hstamp, by decide⟩, fun ⟨d, hd, _⟩ => ?_⟩ ?_
    · rw [hdevices] at hd
      cases hd
    · rw [reclaimSweep_undated rfl (by decide)]
      exact hrow
  · intro h
    refine (h rfl unmarked (by decide)).2
      ⟨rfl, ⟨_, hstamp, by decide⟩, fun ⟨d, hd, _⟩ => nomatch hd⟩ ?_
    decide +kernel

end GlanceVault.L4
