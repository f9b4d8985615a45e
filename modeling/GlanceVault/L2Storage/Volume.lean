import GlanceVault.Core.Groups
import GlanceVault.L2Storage.Media
/-!
# What the volume holds

The files of the volume against the rows. A blob file is accounted for by the
row of any account, a staged part by the acked part of its index and size; a
temporary file by nothing.

* `Accounted`: the rows say what the file is.
* `Accounted.fewer`, `.drop`, `.forget`: files may always go, rows only after
  their files.
* `accounted_bytes`: files that are accounted for are no more bytes than the
  rows.
-/
namespace GlanceVault.L2
open GlanceVault.Core GlanceVault.L1

theorem Disk.rename_src (d : Disk) {p q : Path} (h : p ≠ q) : d.rename p q p = none := by
  simp [Disk.rename, h]

namespace Media

/-- There is no such file, or the rows say what it is. -/
def Accounted (m : Media) : Path → Prop
  | .blob h => m.disk (.blob h) ≠ none → ∃ x ∈ m.held, x.1.2 = h
  | .blobTmp h => m.disk (.blobTmp h) = none
  | .part u i =>
    ∀ b, m.disk (.part u i) = some b → ∃ p ∈ m.parts.rows, p.key = (u, i) ∧ p.size = b.length
  | .partTmp u i => m.disk (.partTmp u i) = none

section Accounted
variable {m m' : Media} {x : Path}

/-- What is not there needs no row. -/
theorem Accounted.absent (h : m.disk x = none) : m.Accounted x := by
  cases x with
  | blob k => exact fun hfile => absurd h hfile
  | blobTmp k => exact h
  | part u i => exact fun b hb => nomatch h.symm.trans hb
  | partTmp u i => exact h

/-- More rows account for no less. -/
theorem Accounted.more (h : m.Accounted x) (hdisk : m'.disk = m.disk)
    (hheld : ∀ y ∈ m.held, y ∈ m'.held)
    (hparts : ∀ p ∈ m.parts.rows, p ∈ m'.parts.rows) : m'.Accounted x := by
  cases x with
  | blob k =>
    intro hfile
    rw [hdisk] at hfile
    obtain ⟨y, hy, e⟩ := h hfile
    exact ⟨y, hheld y hy, e⟩
  | part u i =>
    intro b hb
    rw [hdisk] at hb
    obtain ⟨p, hp, e⟩ := h b hb
    exact ⟨p, hparts p hp, e⟩
  | blobTmp k => exact (congrFun hdisk _).trans h
  | partTmp u i => exact (congrFun hdisk _).trans h

/-- What a file change does not touch. -/
theorem Accounted.apart (h : m.Accounted x) {f : Disk → Disk} (hf : f m.disk x = m.disk x) :
    (m.onDisk f).Accounted x := by
  cases x with
  | blob k =>
    intro hfile
    rw [Media.disk_onDisk, hf] at hfile
    exact h hfile
  | part u i =>
    intro b hb
    rw [Media.disk_onDisk, hf] at hb
    exact h b hb
  | blobTmp k => exact hf.trans h
  | partTmp u i => exact hf.trans h

/-- Files may go. -/
theorem Accounted.fewer (h : m.Accounted x) {f : Disk → Disk}
    (hf : f m.disk x = none ∨ f m.disk x = m.disk x) : (m.onDisk f).Accounted x :=
  hf.elim (fun hgone => .absent hgone) h.apart

/-- Sessions may go when their files have. -/
theorem Accounted.drop (h : m.Accounted x) {p : UploadSession → Bool}
    (hgone : ∀ u s i, m.sessions.find u = some s → p s = true → m.disk (.part u i) = none) :
    (m.drop p).Accounted x := by
  cases x with
  | part u i =>
    intro b hb
    obtain ⟨r, hr, hkey, hsize⟩ := h b hb
    have hu : r.uploadId = u := congrArg Prod.fst hkey
    refine ⟨r, Table.mem_keep.2 ⟨hr, ?_⟩, hkey, hsize⟩
    rw [hu, Bool.not_eq_true', Option.any_eq_false]
    intro s hs
    exact Bool.eq_false_iff.2 fun hp => Option.some_ne_none b (hb.symm.trans (hgone u s i hs hp))
  | _ => exact h

/-- Blob rows may go when their files have. -/
theorem Accounted.forget (h : m.Accounted x) {p : String × String → Bool}
    (hgone : ∀ k, p k = true → m.disk (.blob k.2) = none) : (m.forget p).Accounted x := by
  cases x with
  | blob k =>
    intro hfile
    obtain ⟨y, hy, e⟩ := h hfile
    refine ⟨y, List.mem_filter.2 ⟨hy, ?_⟩, e⟩
    rw [Bool.not_eq_true', Bool.eq_false_iff]
    exact fun hp => hfile (e ▸ hgone y.1 hp)
  | _ => exact h

end Accounted

/-! ## Bytes -/

/-- **Files that are accounted for are no more bytes than the rows**, if each
blob file has the size of its rows. -/
theorem accounted_bytes {m : Media}
    (hsize : ∀ x ∈ m.held, ∀ b, m.disk (.blob x.1.2) = some b → b.length = x.2) {ps : List Path}
    (hn : ps.Nodup) (hall : ∀ p ∈ ps, m.disk p ≠ none → m.Accounted p) :
    (ps.map fun p => ((m.disk p).getD []).length).sum ≤ (m.held.map (·.2)).sum +
    (m.parts.rows.map (·.size)).sum := by
  -- a row of either table, the path it names and its size
  let rows : List (((String × String) × Nat) ⊕ UploadPart) :=
    m.held.map .inl ++ m.parts.rows.map .inr
  let name : ((String × String) × Nat) ⊕ UploadPart → Path :=
    Sum.elim (fun x => .blob x.1.2) fun p => .part p.uploadId p.partIndex
  let size : ((String × String) × Nat) ⊕ UploadPart → Nat := Sum.elim (·.2) (·.size)
  have hrows : (rows.map size).sum = (m.held.map (·.2)).sum + (m.parts.rows.map (·.size)).sum := by
    simp only [rows, size, List.map_append, List.map_map, List.sum_append]
    rfl
  rw [← hrows]
  refine sum_named_le rows hn (fun p hp hne => (?_ : ∃ r ∈ rows, name r = p)) fun r hr hp => ?_
  · have hfile : m.disk p ≠ none := fun e => hne (by rw [e]; rfl)
    have hrow := hall p hp hfile
    cases p with
    | blob h =>
      obtain ⟨x, hx, rfl⟩ := hrow hfile
      exact ⟨.inl x, by simp [rows, hx], rfl⟩
    | blobTmp h => exact absurd hrow hfile
    | part u i =>
      obtain ⟨b, hb⟩ := Option.ne_none_iff_exists'.1 hfile
      obtain ⟨q, hq, hkey, -⟩ := hrow b hb
      refine ⟨.inr q, by simp [rows, hq], ?_⟩
      obtain ⟨rfl, rfl⟩ := Prod.mk.inj hkey
      rfl
    | partTmp u i => exact absurd hrow hfile
  · rcases List.mem_append.1 hr with hr | hr
    · obtain ⟨x, hx, rfl⟩ := List.mem_map.1 hr
      show ((m.disk (.blob x.1.2)).getD []).length ≤ x.2
      cases hb : m.disk (.blob x.1.2) with
      | none => exact Nat.zero_le _
      | some b => exact (hsize x hx b hb).le
    · obtain ⟨q, hq, rfl⟩ := List.mem_map.1 hr
      show ((m.disk (.part q.uploadId q.partIndex)).getD []).length ≤ q.size
      cases hb : m.disk (.part q.uploadId q.partIndex) with
      | none => exact Nat.zero_le _
      | some b =>
        have hfile : m.disk (.part q.uploadId q.partIndex) ≠ none := by rw [hb]; simp
        obtain ⟨q', hq', hkey, hlen⟩ := hall _ hp hfile b hb
        rw [Table.eq_of_mem hq hq' hkey.symm, hlen]
        rfl

end Media

end GlanceVault.L2
