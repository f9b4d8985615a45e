import GlanceVault.L1Encoding.IsoOrder
import GlanceVault.L2Storage.BlobMeta
/-!
# What may be reclaimed

A blob may go once nobody refers to it, it has been left alone for the grace
period, and every device of its account that is not given up for dead has seen
the number it came to zero at. `Due` says so of instants and sets of devices;
the query says it of texts, in SQL.

* `reclaimable_iff`: the query finds the blobs that are due.
* `Due.earlier`, `Due.fewer`: longer periods and more devices make fewer due.
-/
namespace GlanceVault.L2
open GlanceVault.Core GlanceVault.L1

/-- The text of an instant with a four-digit year. -/
def Stamp (text : String) (ms : Int) : Prop := Iso.FourDigit ms ∧ text = Iso.isoText ms

theorem Stamp.unique {text : String} {m n : Int} (hm : Stamp text m) (hn : Stamp text n) : m = n :=
  Iso.isoText_inj hm.1 hn.1 (hm.2.symm.trans hn.2)

/-- The times a reclaim looks at are instants. -/
structure Stamped (db : Db) : Prop where
  blobs : ∀ b ∈ db.blobs.rows, ∃ ms, Stamp b.lastReferenceActivityAt ms
  devices : ∀ d ∈ db.devices.rows, ∃ ms, Stamp d.lastActive ms

/-- The device is one of the account, has been active since, and has not seen `z`. -/
structure Device.Lags (d : Device) (a : String) (since : Int) (z : Nat) : Prop where
  account : d.accountId = a
  alive : ∃ ms, Stamp d.lastActive ms ∧ since < ms
  behind : d.lastSeenSeq < z

/-- The three conditions. -/
structure Due (graceEnd deadSince : Int) (devices : List Device) (b : Blob) : Prop where
  unreferenced : b.refCount = 0
  untouched : ∃ ms, Stamp b.lastReferenceActivityAt ms ∧ ms ≤ graceEnd
  acked : ∃ z, b.zeroRefSeq = some z ∧ ∀ d ∈ devices, ¬ d.Lags b.accountId deadSince z

theorem Device.Lags.earlier {d : Device} {a : String} {since since' : Int} {z : Nat}
    (h : d.Lags a since z) (hs : since' ≤ since) :
    d.Lags a since' z := by
  obtain ⟨ms, hms, hlt⟩ := h.alive
  exact ⟨h.account, ⟨ms, hms, by omega⟩, h.behind⟩

section Due
variable {graceEnd deadSince graceEnd' deadSince' : Int} {devices devices' : List Device} {b : Blob}

/-- Longer periods. -/
theorem Due.earlier (h : Due graceEnd' deadSince' devices b) (hg : graceEnd' ≤ graceEnd)
    (hd : deadSince' ≤ deadSince) :
    Due graceEnd deadSince devices b where
  unreferenced := h.unreferenced
  untouched := by
    obtain ⟨ms, hms, hle⟩ := h.untouched
    exact ⟨ms, hms, by omega⟩
  acked := by
    obtain ⟨z, hz, hall⟩ := h.acked
    exact ⟨z, hz, fun d hmem hlags => hall d hmem (hlags.earlier hd)⟩

/-- More devices. -/
theorem Due.fewer (h : Due graceEnd deadSince devices' b) (hsub : ∀ d ∈ devices, d ∈ devices') :
    Due graceEnd deadSince devices b where
  unreferenced := h.unreferenced
  untouched := h.untouched
  acked := by
    obtain ⟨z, hz, hall⟩ := h.acked
    exact ⟨z, hz, fun d hmem => hall d (hsub d hmem)⟩

end Due

section Query
variable {db : Db} {graceEnd deadSince : Int}

/-- What the query asks of one row. -/
theorem reclaimable_true {graceCutoff deadCutoff : String} {b : Blob} :
    reclaimable graceCutoff deadCutoff db b = true ↔
    b.refCount = 0 ∧ ¬ graceCutoff < b.lastReferenceActivityAt ∧ ∃ z, b.zeroRefSeq = some z ∧
      ∀ d ∈ db.devices.rows, d.accountId = b.accountId → deadCutoff < d.lastActive →
      z ≤ d.lastSeenSeq := by
  unfold reclaimable
  cases b.zeroRefSeq with
  | none => simp
  | some z =>
    simp only [Bool.and_eq_true, Bool.not_eq_true', decide_eq_true_eq,
      decide_eq_false_iff_not, List.all_eq_true,
      Bool.and_eq_false_iff, Option.some.injEq, exists_eq_left', and_assoc, not_lt]
    refine and_congr_right fun _ => and_congr_right fun _ => forall_congr' fun d =>
      forall_congr' fun _ => ?_
    tauto

/-- **The query finds the blobs that are due**, with cutoffs before the year 10000. -/
theorem reclaimable_iff (hstamped : Stamped db) (hg : graceEnd < Iso.yearTenThousand)
    (hd : deadSince < Iso.yearTenThousand) {b : Blob} (hb : b ∈ db.blobs.rows) :
    reclaimable (Iso.isoText graceEnd) (Iso.isoText deadSince) db b = true ↔
    Due graceEnd deadSince db.devices.rows b := by
  obtain ⟨ms, hms⟩ := hstamped.blobs b hb
  have hgrace : ¬ Iso.isoText graceEnd < b.lastReferenceActivityAt ↔ ms ≤ graceEnd := by
    rw [hms.2, Iso.cutoff_lt_iff hg hms.1]
    omega
  have hdevice : ∀ z, ∀ d ∈ db.devices.rows, (d.accountId = b.accountId →
      Iso.isoText deadSince < d.lastActive → z ≤ d.lastSeenSeq) ↔
      ¬ d.Lags b.accountId deadSince z := fun z d hmem => by
    obtain ⟨n, hn⟩ := hstamped.devices d hmem
    have halive : Iso.isoText deadSince < d.lastActive ↔ deadSince < n := by
      rw [hn.2, Iso.cutoff_lt_iff hd hn.1]
    rw [halive]
    constructor
    · intro h hlags
      obtain ⟨k, hk, hlt⟩ := hlags.alive
      have hseen := h hlags.account (hn.unique hk ▸ hlt)
      exact absurd hlags.behind (Nat.not_lt.2 hseen)
    · intro h ha hlt
      by_contra hbehind
      exact h ⟨ha, ⟨n, hn, hlt⟩, Nat.lt_of_not_le hbehind⟩
  rw [reclaimable_true, hgrace]
  constructor
  · rintro ⟨href, hle, z, hz, hall⟩
    exact ⟨href, ⟨ms, hms, hle⟩, z, hz, fun d hmem => (hdevice z d hmem).1 (hall d hmem)⟩
  · rintro ⟨href, ⟨n, hn, hle⟩, z, hz, hall⟩
    exact ⟨href, hms.unique hn ▸ hle, z, hz, fun d hmem => (hdevice z d hmem).2 (hall d hmem)⟩

end Query

end GlanceVault.L2
