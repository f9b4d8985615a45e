import GlanceVault.L2Storage.BlobMeta
import GlanceVault.L2Storage.DiskBlobStore
/-!
# The life of a blob

What the uploads and blobs of all accounts come down to: the rows an account
holds (hash and size), the upload sessions with the parts they acked, and the
files. `MediaStep` says once what a single storage step of a request can do to
it; the steps of an account delete are among them. A reclaim sweep also erases
bytes that are still held (`ReclaimStep`).

`sent` is the record of the parts the accounts have sent into sessions of
their own.

* `Genuine`: bytes hash to their address, a row is held only by an account
  that sent parts hashing to it, and a staged part is one its owner sent.
  Every step preserves it (`Genuine.step`, `Genuine.reclaim`).
* `Backed`: the bytes of every held hash are there. A request's step preserves
  it (`Backed.step`), a reclaim step need not.
-/
namespace GlanceVault.L2
open GlanceVault.Core GlanceVault.L1 GlanceVault.L1.Js

/-- A part an account sent into an upload session of its own. -/
structure SentPart where
  accountId : String
  uploadId : String
  index : Nat
  bytes : Bytes
  deriving DecidableEq

structure Media where
  held : List ((String × String) × Nat)
  sessions : Table UploadSession.uploadId
  parts : Table UploadPart.key
  disk : Disk

/-- The blob rows without the columns that reference tracking changes. -/
def Db.held (db : Db) : List ((String × String) × Nat) := db.blobs.rows.map fun b => (b.key, b.size)

def mediaOf (db : Db) (d : Disk) : Media := ⟨db.held, db.uploadSessions, db.uploadParts, d⟩

namespace Media

/-- The acked parts of a session, by index. -/
def listed (m : Media) (u : String) : List UploadPart :=
  (m.parts.rows.filter fun p => p.uploadId = u).insertionSort fun p q => p.partIndex ≤ q.partIndex

/-- The bytes of a session's acked parts, by index. -/
def assembled (m : Media) (u : String) : Bytes :=
  ((m.listed u).map fun p => (m.disk (.part u p.partIndex)).getD []).flatten

/-- Sessions deleted, with their parts. -/
def drop (m : Media) (p : UploadSession → Bool) : Media :=
  { m with
    sessions := m.sessions.keep fun s => !p s
    parts := m.parts.keep fun r => !(m.sessions.find r.uploadId).any p }

/-- Rows deleted. -/
def forget (m : Media) (p : String × String → Bool) : Media :=
  { m with held := m.held.filter fun x => !p x.1 }

def onDisk (m : Media) (f : Disk → Disk) : Media := { m with disk := f m.disk }

@[simp] theorem disk_onDisk (m : Media) (f : Disk → Disk) : (m.onDisk f).disk = f m.disk := rfl

theorem mem_listed {m : Media} {u : String} {p : UploadPart} :
    p ∈ m.listed u ↔ p ∈ m.parts.rows ∧ p.uploadId = u := by
  unfold listed
  rw [List.mem_insertionSort, List.mem_filter]
  simp

/-- No two acked parts of a session have the same index. -/
theorem listed_ascending (m : Media) (u : String) :
    ((m.listed u).map (·.partIndex)).Pairwise (· < ·) := by
  have hsorted : (m.listed u).Pairwise fun p q => p.partIndex ≤ q.partIndex :=
    List.pairwise_insertionSort (fun p q : UploadPart => p.partIndex ≤ q.partIndex) _
  have hperm : (m.listed u).Perm (m.parts.rows.filter fun p => p.uploadId = u) :=
    List.perm_insertionSort _ _
  have hkeys : ((m.listed u).map UploadPart.key).Nodup :=
    (hperm.map UploadPart.key).nodup_iff.2
      ((List.Sublist.map UploadPart.key List.filter_sublist).nodup m.parts.unique)
  rw [List.pairwise_map]
  have hne : (m.listed u).Pairwise fun p q => p.key ≠ q.key := List.pairwise_map.1 hkeys
  refine (hsorted.and hne).imp_of_mem fun {p q} hp hq h => ?_
  have h1 := (mem_listed.1 hp).2
  have h2 := (mem_listed.1 hq).2
  have hi : p.partIndex ≠ q.partIndex := fun e => h.2 (Prod.ext (h1.trans h2.symm) e)
  have := h.1
  omega

end Media

/-- What one storage step of a request, or of an account delete, can do. -/
inductive MediaStep (sha256Hex : Bytes → String) (sent : List SentPart) : Media → Media → Prop
  | openSession {m : Media} (s : UploadSession) (fresh : m.sessions.find s.uploadId = none)
      (valid : isHash s.blobHash = true) :
      MediaStep sha256Hex sent m { m with sessions := m.sessions.upsert s }
  | writeTmp {m : Media} (p : Path) (b : Bytes) (tmp : (∀ h, p ≠ .blob h) ∧ ∀ u i, p ≠ .part u i) :
      MediaStep sha256Hex sent m (m.onDisk fun d => d.write p b)
  | stage {m : Media} (s : UploadSession) (i : Nat) (b : Bytes)
    (live : m.sessions.find s.uploadId = some s)
      (written : m.disk (.partTmp s.uploadId i) = some b)
        (own : ⟨s.accountId, s.uploadId, i, b⟩ ∈ sent) :
      MediaStep sha256Hex sent m
        (m.onDisk fun d => d.rename (.partTmp s.uploadId i) (.part s.uploadId i))
  | ack {m : Media} (s : UploadSession) (i : Nat) (b : Bytes) (now : String)
      (live : m.sessions.find s.uploadId = some s) (staged : m.disk (.part s.uploadId i) = some b)
      (own : ⟨s.accountId, s.uploadId, i, b⟩ ∈ sent) :
      MediaStep sha256Hex sent m { m with parts := m.parts.upsert ⟨s.uploadId, i, b.length, now⟩ }
  | discard {m : Media} (u : String) :
    MediaStep sha256Hex sent m (m.onDisk fun d => d.removeSession u)
  | drop {m : Media} (p : UploadSession → Bool) : MediaStep sha256Hex sent m (m.drop p)
  | store {m : Media} (h : String) (b : Bytes) (written : m.disk (.blobTmp h) = some b)
      (address : sha256Hex b = h) :
      MediaStep sha256Hex sent m (m.onDisk fun d => d.rename (.blobTmp h) (.blob h))
  | insert {m : Media} (s : UploadSession) (live : m.sessions.find s.uploadId = some s)
      (complete : ∀ p ∈ m.listed s.uploadId, (m.disk (.part s.uploadId p.partIndex)).isSome)
      (address : sha256Hex (m.assembled s.uploadId) = s.blobHash)
      (stored : (m.disk (.blob s.blobHash)).isSome) :
      MediaStep sha256Hex sent m
        { m with held := m.held ++ [((s.accountId, s.blobHash), (m.assembled s.uploadId).length)] }
  | purge {m : Media} (a : String) :
      MediaStep sha256Hex sent m
        ((m.forget fun k => decide (k.1 = a)).drop fun s => decide (s.accountId = a))
  | erase {m : Media} (h : String) (free : ∀ x ∈ m.held, x.1.2 ≠ h) :
      MediaStep sha256Hex sent m (m.onDisk fun d => d.remove (.blob h))

/-- What one storage step of a reclaim sweep can do. -/
inductive ReclaimStep : Media → Media → Prop
  | erase {m : Media} (h : String) : ReclaimStep m (m.onDisk fun d => d.remove (.blob h))
  | forget {m : Media} (a h : String) : ReclaimStep m (m.forget fun k => decide (k = (a, h)))

/-! ## Genuine bytes and rows -/

/-- The account sent parts that in ascending index concatenate to `n` bytes
hashing to `h`, into one upload session of its own. -/
def Possessed (sha256Hex : Bytes → String) (sent : List SentPart) (a h : String) (n : Nat) : Prop :=
  ∃ (u : String) (ps : List (Nat × Bytes)), (ps.map Prod.fst).Pairwise (· < ·) ∧
    (∀ p ∈ ps, ⟨a, u, p.1, p.2⟩ ∈ sent) ∧ sha256Hex (ps.map Prod.snd).flatten = h ∧
    (ps.map Prod.snd).flatten.length = n

theorem Possessed.mono {sha256Hex : Bytes → String} {sent sent' : List SentPart} {a h : String}
    {n : Nat} (hs : ∀ p ∈ sent, p ∈ sent') (hp : Possessed sha256Hex sent a h n) :
    Possessed sha256Hex sent' a h n := by
  obtain ⟨u, ps, h1, h2, h3, h4⟩ := hp
  exact ⟨u, ps, h1, fun p hm => hs _ (h2 p hm), h3, h4⟩

structure Genuine (sha256Hex : Bytes → String) (sent : List SentPart) (m : Media) : Prop where
  /-- bytes hash to their address -/
  addressed : ∀ h b, m.disk (.blob h) = some b → sha256Hex b = h
  /-- a row is held by an account that had the bytes -/
  possessed : ∀ x ∈ m.held, Possessed sha256Hex sent x.1.1 x.1.2 x.2
  /-- the file of an acked part is one its owner sent -/
  staged : ∀ p ∈ m.parts.rows, ∀ s, m.sessions.find p.uploadId = some s →
    ∀ b, m.disk (.part p.uploadId p.partIndex) = some b →
      ⟨s.accountId, p.uploadId, p.partIndex, b⟩ ∈ sent
  /-- no part without its session -/
  owned : ∀ p ∈ m.parts.rows, m.sessions.find p.uploadId ≠ none
  heldHash : ∀ x ∈ m.held, isHash x.1.2 = true
  sessionHash : ∀ s ∈ m.sessions.rows, isHash s.blobHash = true

section Genuine
variable {sha256Hex : Bytes → String} {sent : List SentPart} {m m' : Media}

theorem genuine_empty : Genuine sha256Hex sent (mediaOf .empty .empty) := by
  constructor
  · intro h b e; cases e
  · intro x hx; cases hx
  · intro p hp; cases hp
  · intro p hp; cases hp
  · intro x hx; cases hx
  · intro s hs; cases hs

theorem Genuine.mono {sent' : List SentPart} (h : Genuine sha256Hex sent m)
    (hs : ∀ p ∈ sent, p ∈ sent') :
    Genuine sha256Hex sent' m :=
  { h with
    possessed := fun x hx => (h.possessed x hx).mono hs
    staged := fun p hp s hf b hb => hs _ (h.staged p hp s hf b hb) }

/-- A step of the files that leaves blobs and acked parts alone, or removes them. -/
theorem Genuine.onDisk (h : Genuine sha256Hex sent m) {f : Disk → Disk}
    (hb : ∀ k b, f m.disk (.blob k) = some b → sha256Hex b = k)
    (hp : ∀ p ∈ m.parts.rows, ∀ b, f m.disk (.part p.uploadId p.partIndex) = some b →
      m.disk (.part p.uploadId p.partIndex) = some b ∨
        ∀ s, m.sessions.find p.uploadId = some s →
        ⟨s.accountId, p.uploadId, p.partIndex, b⟩ ∈ sent) :
    Genuine sha256Hex sent (m.onDisk f) :=
  { h with
    addressed := hb
    staged := fun p hm s hs b e => by
      rcases hp p hm b e with e' | e'
      · exact h.staged p hm s hs b e'
      · exact e' s hs }

theorem Genuine.erase (h : Genuine sha256Hex sent m) (k : String) :
    Genuine sha256Hex sent (m.onDisk fun d => d.remove (.blob k)) := by
  refine h.onDisk (fun j b e => ?_) fun p _ b e => .inl ?_
  · by_cases hj : j = k
    · subst hj; rw [Disk.remove_self] at e; cases e
    · rw [Disk.remove_other _ (by simpa using hj)] at e
      exact h.addressed j b e
  · rwa [Disk.remove_other _ (by simp)] at e

theorem Genuine.drop (h : Genuine sha256Hex sent m) (p : UploadSession → Bool) :
    Genuine sha256Hex sent (m.drop p) := by
  have hparts : ∀ {r : UploadPart}, r ∈ (m.drop p).parts.rows →
      r ∈ m.parts.rows ∧ ∀ s, m.sessions.find r.uploadId = some s → p s = false := by
    intro r hr
    obtain ⟨h1, h2⟩ := Table.mem_keep.1 hr
    refine ⟨h1, fun s hs => ?_⟩
    rw [hs] at h2
    simpa using h2
  have hfind : ∀ u, (m.drop p).sessions.find u = (m.sessions.find u).filter fun s => !p s :=
    fun u => Table.find_keep _ _ _
  refine { h with staged := ?_, owned := ?_, sessionHash := ?_ }
  · intro r hr s hs b hb
    obtain ⟨h1, -⟩ := hparts hr
    rw [hfind, Option.filter_eq_some_iff] at hs
    exact h.staged r h1 s hs.1 b hb
  · intro r hr
    obtain ⟨h1, h2⟩ := hparts hr
    rw [hfind]
    cases hs : m.sessions.find r.uploadId with
    | none => exact absurd hs (h.owned r h1)
    | some s => simp [Option.filter, h2 s hs]
  · intro s hs
    exact h.sessionHash s (Table.mem_keep.1 hs).1

theorem Genuine.forget (h : Genuine sha256Hex sent m) (p : String × String → Bool) :
    Genuine sha256Hex sent (m.forget p) :=
  { h with
    possessed := fun x hx => h.possessed x (List.mem_filter.1 hx).1
    heldHash := fun x hx => h.heldHash x (List.mem_filter.1 hx).1 }

/-- **Every step of a request preserves it.** -/
theorem Genuine.step (hs : MediaStep sha256Hex sent m m') (h : Genuine sha256Hex sent m) :
    Genuine sha256Hex sent m' := by
  cases hs with
  | openSession s fresh valid =>
    have hne : ∀ p ∈ m.parts.rows, p.uploadId ≠ s.uploadId := fun p hp e => h.owned p hp (e ▸ fresh)
    have hfind : ∀ p ∈ m.parts.rows, (m.sessions.upsert s).find p.uploadId =
        m.sessions.find p.uploadId := by
      intro p hp
      rw [Table.find_upsert, if_neg (Ne.symm (hne p hp))]
    refine { h with staged := ?_, owned := ?_, sessionHash := ?_ }
    · intro p hp t ht b hb
      rw [hfind p hp] at ht
      exact h.staged p hp t ht b hb
    · intro p hp
      rw [hfind p hp]
      exact h.owned p hp
    · intro t ht
      rcases Table.mem_upsert.1 ht with rfl | ht
      · exact valid
      · exact h.sessionHash t ht.1
  | writeTmp p b tmp =>
    refine h.onDisk (fun k c e => ?_) fun r _ c e => .inl ?_
    · rw [Disk.write_other _ (Ne.symm (tmp.1 k))] at e
      exact h.addressed k c e
    · rwa [Disk.write_other _ (Ne.symm (tmp.2 _ _))] at e
  | stage s i b live written own =>
    refine h.onDisk (fun k c e => ?_) fun r _ c e => ?_
    · rw [Disk.rename_other _ (by simp) (by simp)] at e
      exact h.addressed k c e
    · by_cases hr : r.uploadId = s.uploadId ∧ r.partIndex = i
      · obtain ⟨hu, hi⟩ := hr
        rw [hu, hi, Disk.rename_dst, written] at e
        cases e
        refine .inr fun t ht => ?_
        rw [hu, live] at ht
        cases ht
        rw [hu, hi]
        exact own
      · rw [Disk.rename_other _ (by simp) (by simpa using hr)] at e
        exact .inl e
  | ack s i b now live staged own =>
    refine { h with staged := ?_, owned := ?_ }
    · intro p hp t ht c hc
      rcases Table.mem_upsert.1 hp with rfl | hp
      · rw [live] at ht
        cases ht
        rw [staged] at hc
        cases hc
        exact own
      · exact h.staged p hp.1 t ht c hc
    · intro p hp
      rcases Table.mem_upsert.1 hp with rfl | hp
      · rw [live]; simp
      · exact h.owned p hp.1
  | discard u =>
    refine h.onDisk (fun k c e => h.addressed k c e) fun r _ c e => .inl ?_
    rw [Disk.removeSession_part] at e
    split at e
    · cases e
    · exact e
  | drop p => exact h.drop p
  | store k b written address =>
    refine h.onDisk (fun j c e => ?_) fun r _ c e => .inl ?_
    · by_cases hj : j = k
      · subst hj
        rw [Disk.rename_dst, written] at e
        cases e
        exact address
      · rw [Disk.rename_other _ (by simp) (by simpa using hj)] at e
        exact h.addressed j c e
    · rwa [Disk.rename_other _ (by simp) (by simp)] at e
  | insert s live complete address stored =>
    refine { h with possessed := ?_, heldHash := ?_ }
    · intro x hx
      rcases List.mem_append.1 hx with hx | hx
      · exact h.possessed x hx
      · rw [List.mem_singleton] at hx
        subst hx
        refine ⟨s.uploadId, (m.listed s.uploadId).map fun p =>
          (p.partIndex, (m.disk (.part s.uploadId p.partIndex)).getD []), ?_, ?_, ?_, ?_⟩
        · rw [List.map_map]; exact m.listed_ascending s.uploadId
        · intro q hq
          obtain ⟨p, hp, rfl⟩ := List.mem_map.1 hq
          obtain ⟨hm, hu⟩ := Media.mem_listed.1 hp
          obtain ⟨b, hb⟩ := Option.isSome_iff_exists.1 (complete p hp)
          have := h.staged p hm s (by rw [hu]; exact live) b (by rw [hu]; exact hb)
          rw [hu] at this
          simpa only [hb, Option.getD_some] using this
        · rw [List.map_map]; exact address
        · rw [List.map_map]; rfl
    · intro x hx
      rcases List.mem_append.1 hx with hx | hx
      · exact h.heldHash x hx
      · rw [List.mem_singleton] at hx
        subst hx
        exact h.sessionHash s (Table.find_mem live)
  | purge a => exact (h.forget _).drop _
  | erase k free => exact h.erase k

theorem Genuine.reclaim (hs : ReclaimStep m m') (h : Genuine sha256Hex sent m) :
    Genuine sha256Hex sent m' := by
  cases hs with
  | erase k => exact h.erase k
  | forget a k => exact h.forget _

/-! ## Bytes of the held hashes -/

/-- Every held hash has its bytes. -/
def Backed (m : Media) : Prop := ∀ x ∈ m.held, (m.disk (.blob x.1.2)).isSome

/-- **No step of a request separates a row from its bytes.** -/
theorem Backed.step (hs : MediaStep sha256Hex sent m m') (h : Backed m) : Backed m' := by
  cases hs with
  | openSession s fresh valid => exact h
  | writeTmp p b tmp =>
    intro x hx
    rw [Media.disk_onDisk, Disk.write_other _ (Ne.symm (tmp.1 _))]
    exact h x hx
  | stage s i b live written own =>
    intro x hx
    rw [Media.disk_onDisk, Disk.rename_other _ (by simp) (by simp)]
    exact h x hx
  | ack s i b now live staged own => exact h
  | discard u => exact h
  | drop p => exact h
  | store k b written address =>
    intro x hx
    rw [Media.disk_onDisk]
    by_cases hk : x.1.2 = k
    · rw [hk, Disk.rename_dst, written]; rfl
    · rw [Disk.rename_other _ (by simp) (by simpa using hk)]
      exact h x hx
  | insert s live complete address stored =>
    intro x hx
    rcases List.mem_append.1 hx with hx | hx
    · exact h x hx
    · rw [List.mem_singleton] at hx
      subst hx
      exact stored
  | purge a => exact fun x hx => h x (List.mem_filter.1 hx).1
  | erase k free =>
    intro x hx
    rw [Media.disk_onDisk, Disk.remove_other _ (by simpa using free x hx)]
    exact h x hx

end Genuine

/-! ## The database's part -/

/-- A write of a known row that keeps its size. -/
theorem held_putBlob_old {db : Db} {b old : Blob} (hf : db.blobs.find b.key = some old)
    (hn : b.size = old.size) :
    (db.putBlob b).held = db.held := by
  obtain ⟨hm, hk⟩ := Table.find_some.1 hf
  unfold Db.held Db.putBlob
  rw [Table.rows_upsert, if_pos (Table.has_iff.2 ⟨old, hm, hk⟩), List.map_map]
  apply List.map_congr_left
  intro x hx
  simp only [Function.comp]
  by_cases he : x.key = b.key
  · have hxo : x = old := Table.eq_of_mem hx hm (he.trans hk.symm)
    rw [if_pos he, he, hn, hxo]
  · rw [if_neg he]

theorem held_putBlob_new (db : Db) (b : Blob) (hf : db.blobs.find b.key = none) :
    (db.putBlob b).held = db.held ++ [(b.key, b.size)] := by
  unfold Db.held Db.putBlob
  rw [Table.rows_upsert, if_neg (by rw [Table.has_eq_false.2 hf]; simp), List.map_append]
  rfl

theorem held_keep (db : Db) (p : String × String → Bool) (q : Blob → Bool)
    (hq : ∀ b, q b = !p b.key) :
    (db.blobs.keep q).rows.map (fun b => (b.key, b.size)) = db.held.filter fun x => !p x.1 := by
  unfold Db.held Table.keep
  rw [List.filter_map]
  congr 1
  apply List.filter_congr
  intro b _
  rw [hq]
  rfl

/-- The parts the account sees are the ones of the session. -/
theorem listUploadParts_eq {a u : String} {db : Db} {s : UploadSession} (d : Disk)
    (h : getUploadSession a u db = some s) : listUploadParts a u db = (mediaOf db d).listed u := by
  unfold listUploadParts Media.listed mediaOf
  rw [owns_of_session h]
  simp

end GlanceVault.L2
