import GlanceVault.L2Storage.Reservation
/-!
# Drafts

What an upload in progress is for: the latest accepted body of each part
index. A body is offered and taken if the draft stays within the declared
size; the blob is the bodies in index order. `Upload` is the same upload as the
store keeps it, in three places: the session row, the part rows and the staged
files.

* `Upload.Realizes`: rows and files of an upload, and the draft they stand for.
* `Realizes.parts`, `Realizes.size`, `Realizes.assembled`: what the store lists,
  sums up and concatenates is the draft's.
* `Realizes.put`: a body staged and recorded is one put into the draft.
* `upload_*`: which uploads a write leaves as they were.
-/
namespace GlanceVault.L2
open GlanceVault.Core GlanceVault.L1

/-- The latest accepted body of each part index. -/
abbrev Draft : Type := Table fun p : Nat × Bytes => p.1

namespace Draft
variable (d : Draft)

/-- The size with the body of `i` replaced by one of `n` bytes. -/
def sizeWith (i n : Nat) : Nat := d.total (fun p => decide (p.1 ≠ i)) (·.2.length) + n

def put (i : Nat) (b : Bytes) : Draft := d.upsert (i, b)

/-- A body offered to a draft of at most `size` bytes. -/
def offer (size i : Nat) (b : Bytes) : Draft :=
  if d.sizeWith i b.length ≤ size then d.put i b else d

/-- The bodies, by index. -/
def bodies : List (Nat × Bytes) := d.rows.insertionSort fun p q => p.1 ≤ q.1

/-- The bodies in index order, as one. -/
def content : Bytes := (d.bodies.map Prod.snd).flatten

theorem mem_bodies {p : Nat × Bytes} : p ∈ d.bodies ↔ p ∈ d.rows := by
  unfold bodies
  rw [List.mem_insertionSort]

theorem bodies_perm : d.bodies.Perm d.rows := List.perm_insertionSort _ _

theorem bodies_ascending : (d.bodies.map Prod.fst).Pairwise (· < ·) := by
  have hsorted : d.bodies.Pairwise fun p q => p.1 ≤ q.1 :=
    List.pairwise_insertionSort (fun p q : Nat × Bytes => p.1 ≤ q.1) _
  have hnodup : (d.bodies.map Prod.fst).Nodup := (d.bodies_perm.map Prod.fst).nodup_iff.2 d.unique
  rw [List.pairwise_map]
  have hne : d.bodies.Pairwise fun p q => p.1 ≠ q.1 := List.pairwise_map.1 hnodup
  exact (hsorted.and hne).imp fun h => Nat.lt_of_le_of_ne h.1 h.2

theorem content_length : d.content.length = (d.bodies.map (·.2.length)).sum := by
  unfold content
  rw [List.length_flatten, List.map_map]
  rfl

/-- Without the body that is replaced. -/
theorem sizeWith_eq (i n : Nat) :
    d.sizeWith i n = (d.bodies.map (·.2.length)).sum - (d.find i).elim 0 (·.2.length) + n := by
  have hsum : (d.bodies.map (·.2.length)).sum = d.total (fun _ => true) (·.2.length) := by
    unfold Table.total
    rw [List.filter_true, (d.bodies_perm.map _).sum_eq]
  have hkeep : d.total (fun p => decide (p.1 ≠ i)) (·.2.length) =
      (d.keep fun p => decide (p.1 ≠ i)).total (fun _ => true) (·.2.length) := by
    unfold Table.total Table.keep
    rw [List.filter_true]
  unfold sizeWith
  rw [hsum, hkeep]
  cases hf : d.find i with
  | none =>
    rw [Table.keep_eq_self fun p hp => by simpa using Table.find_none.1 hf p hp]
    rfl
  | some r =>
    obtain ⟨hr, hi⟩ := Table.find_some.1 hf
    have hall := Table.total_keep_key hr (fun p => decide (p.1 ≠ i)) (fun _ => true) (·.2.length)
      fun p => by rw [hi]
    rw [if_pos rfl] at hall
    rw [Option.elim_some]
    omega

end Draft

/-! ## The three places of an upload -/

structure Upload where
  session : Option UploadSession
  parts : Table UploadPart.key
  staged : Nat → Option Bytes

def Media.upload (m : Media) (u : String) : Upload where
  session := m.sessions.find u
  parts := m.parts.keep fun p => decide (p.uploadId = u)
  staged := fun i => m.disk (.part u i)

namespace Upload

/-- The acked parts, by index. -/
def listed (x : Upload) : List UploadPart :=
  x.parts.rows.insertionSort fun p q => p.partIndex ≤ q.partIndex

/-- The upload is still the same, or over. -/
def Kept (up x : Upload) : Prop := x.session = none ∨ x = up

/-- The rows and files of an upload stand for a draft. -/
structure Realizes (x : Upload) (d : Draft) : Prop where
  rows : x.listed.map (fun p => (p.partIndex, p.size)) = d.bodies.map fun p => (p.1, p.2.length)
  files : ∀ p ∈ d.rows, x.staged p.1 = some p.2

/-- Every acked part is staged. -/
def Complete (x : Upload) : Prop := ∀ p ∈ x.parts.rows, (x.staged p.partIndex).isSome

/-- What is staged belongs to a live session. -/
def Anchored (x : Upload) : Prop := x.session = none → ∀ i, x.staged i = none

/-- The files are gone, the rows are not. -/
def gutted (x : Upload) : Upload := { x with staged := fun _ => none }

theorem Complete.without {x : Upload} (h : ∀ p, p ∉ x.parts.rows) : x.Complete :=
  fun p hp => absurd hp (h p)

theorem Anchored.unstaged {x : Upload} (h : ∀ i, x.staged i = none) : x.Anchored := fun _ => h

theorem Anchored.live {x : Upload} (h : x.session ≠ none) : x.Anchored := fun hn => absurd hn h

/-- Without its files an upload is complete only if nothing is acked. -/
theorem gutted_complete {x : Upload} : x.gutted.Complete ↔ ∀ p, p ∉ x.parts.rows :=
  ⟨fun h p hp => by simpa [gutted] using h p hp, fun h => .without h⟩

end Upload

theorem upload_listed (m : Media) (u : String) : (m.upload u).listed = m.listed u := rfl

/-! ## Writes and the uploads they leave alone -/

section Frames
variable {u v : String}

/-- The rows of an upload. -/
def Db.uploadRows (u : String) (db : Db) : Option UploadSession × Table UploadPart.key :=
  (db.uploadSessions.find u, db.uploadParts.keep fun p => decide (p.uploadId = u))

theorem upload_rows {db db' : Db} {d d' : Disk} (h : db'.uploadRows u = db.uploadRows u)
    (hd : ∀ i, d' (.part u i) = d (.part u i)) :
    (mediaOf db' d').upload u = (mediaOf db d).upload u := by
  unfold Media.upload
  congr 1
  · exact congrArg Prod.fst h
  · exact congrArg Prod.snd h
  · exact funext hd

theorem createUploadSession_rows (h : v ≠ u) (a hash : String) (n : Nat) (now : String) :
    (createUploadSession a v hash n now).Keeps (Db.uploadRows u) := by
  intro db o db' e
  rw [createUploadSession_eval] at e
  split at e
  · cases e
  · cases e
    unfold Db.uploadRows Db.putSession
    rw [Table.find_upsert, if_neg h]

theorem recordUploadPart_rows (h : v ≠ u) (a : String) (i n : Nat) (now : String) :
    (recordUploadPart a v i n now).Keeps (Db.uploadRows u) := .write fun db => by
  have hk :=
    Table.keep_upsert db.uploadParts (fun p => decide (p.uploadId = u)) ⟨v, i, n,
      now⟩ fun x _ hx => by
    have hxv : x.uploadId = v := congrArg Prod.fst hx
    rw [hxv]
  rw [if_neg (by simpa using h)] at hk
  cases db.ownsUpload a v
  · rfl
  · exact congrArg (Prod.mk (db.uploadSessions.find u)) hk

/-- Sessions are dropped, not this one. -/
theorem dropSessions_rows {db : Db} {p : UploadSession → Bool}
    (h : ∀ s, db.uploadSessions.find u = some s → p s = false) :
    (db.dropSessions p).uploadRows u = db.uploadRows u := by
  have hsession : (db.dropSessions p).uploadSessions.find u = db.uploadSessions.find u := by
    rw [find_dropSessions]
    cases hf : db.uploadSessions.find u with
    | none => rfl
    | some s => simp [Option.filter, h s hf]
  have hparts : (db.dropSessions p).uploadParts.keep (fun r => decide (r.uploadId = u)) =
      db.uploadParts.keep fun r => decide (r.uploadId = u) := by
    refine Table.keep_keep_of fun r _ hr => ?_
    rw [decide_eq_true_eq] at hr
    rw [hr]
    cases hf : db.uploadSessions.find u with
    | none => rfl
    | some s => simp [h s hf]
  exact Prod.ext hsession hparts

theorem dropSessions_gone {db : Db} {p : UploadSession → Bool}
    (h : ∀ s, db.uploadSessions.find u = some s → p s = true) :
    (db.dropSessions p).uploadSessions.find u = none := by
  rw [find_dropSessions]
  cases hf : db.uploadSessions.find u with
  | none => rfl
  | some s => simp [Option.filter, h s hf]

/-- A session is dropped with its parts, or kept with them. -/
theorem dropSessions_settles (db : Db) (p : UploadSession → Bool) :
    (db.dropSessions p).uploadSessions.find u = none ∨
    (db.dropSessions p).uploadRows u = db.uploadRows u := by
  cases hf : db.uploadSessions.find u with
  | none => exact .inl (dropSessions_gone fun s hs => by rw [hf] at hs; cases hs)
  | some s =>
    cases hp : p s with
    | true => exact .inl (dropSessions_gone fun t ht => by rw [hf] at ht; cases ht; exact hp)
    | false => exact .inr (dropSessions_rows fun t ht => by rw [hf] at ht; cases ht; exact hp)

end Frames

/-- Lists in index order with the same members are the same. -/
theorem ascending_ext {α : Type} {xs ys : List (Nat × α)} (hx : (xs.map Prod.fst).Pairwise (· < ·))
    (hy : (ys.map Prod.fst).Pairwise (· < ·)) (h : ∀ p, p ∈ xs ↔ p ∈ ys) : xs = ys := by
  rw [List.pairwise_map] at hx hy
  have : Std.Irrefl fun p q : Nat × α => p.1 < q.1 := ⟨fun p => Nat.lt_irrefl p.1⟩
  have : Std.Asymm fun p q : Nat × α => p.1 < q.1 := ⟨fun _ _ => Nat.lt_asymm⟩
  exact List.Pairwise.eq_of_mem_iff hx hy fun {p} => h p

section Realizes
variable {m m' : Media} {u : String} {d : Draft}

theorem mem_sizes {p : Nat × Nat} :
    p ∈ d.bodies.map (fun p => (p.1, p.2.length)) ↔ ∃ q ∈ d.rows, (q.1, q.2.length) = p := by
  rw [List.mem_map]
  simp only [d.mem_bodies]

/-- It is enough to compare the rows. -/
theorem realizes_of (hrows : ∀ p, (∃ r ∈ m.parts.rows, r.uploadId = u ∧ (r.partIndex, r.size) = p) ↔
    ∃ q ∈ d.rows, (q.1, q.2.length) = p) (hfiles : ∀ p ∈ d.rows, m.disk (.part u p.1) = some p.2) :
    (m.upload u).Realizes d := by
  refine ⟨?_, hfiles⟩
  rw [upload_listed]
  refine ascending_ext ?_ ?_ fun p => ?_
  · rw [List.map_map]
    exact m.listed_ascending u
  · rw [List.map_map]
    exact d.bodies_ascending
  · rw [mem_sizes, ← hrows, List.mem_map]
    simp only [Media.mem_listed, and_assoc]

theorem Upload.Realizes.mem (h : (m.upload u).Realizes d) (p : Nat × Nat) :
    (∃ r ∈ m.parts.rows, r.uploadId = u ∧ (r.partIndex, r.size) = p) ↔ ∃ q ∈ d.rows,
    (q.1, q.2.length) = p := by
  rw [← mem_sizes, ← h.rows, upload_listed, List.mem_map]
  simp only [Media.mem_listed, and_assoc]

/-- An upload without parts stands for the empty draft. -/
theorem realizes_empty (h : ∀ p ∈ m.parts.rows, p.uploadId ≠ u) : (m.upload u).Realizes .empty :=
  realizes_of (fun _ => ⟨fun ⟨r, hr, hu, _⟩ => absurd hu (h r hr),
    fun ⟨_, hq, _⟩ => nomatch hq⟩) fun _ hp => nomatch hp

/-- **A body that is staged and recorded is put into the draft.** -/
theorem Upload.Realizes.put (h : (m.upload u).Realizes d) {i : Nat} {b : Bytes} {now : String}
    (hparts : m'.parts = m.parts.upsert ⟨u, i, b.length, now⟩)
    (hfile : m'.disk (.part u i) = some b)
    (hothers : ∀ j, j ≠ i → m'.disk (.part u j) = m.disk (.part u j)) :
    (m'.upload u).Realizes (d.put i b) := by
  refine realizes_of (fun p => ?_) fun q hq => ?_
  · rw [hparts]
    constructor
    · rintro ⟨r, hr, hu, rfl⟩
      rcases Table.mem_upsert.1 hr with rfl | ⟨hr, hkey⟩
      · exact ⟨(i, b), Table.mem_upsert.2 (.inl rfl), rfl⟩
      · obtain ⟨q, hq, e⟩ := (h.mem _).1 ⟨r, hr, hu, rfl⟩
        have hi : q.1 = r.partIndex := congrArg Prod.fst e
        refine ⟨q, Table.mem_upsert.2 (.inr ⟨hq, fun hqi => hkey (Prod.ext hu ?_)⟩), e⟩
        exact hi.symm.trans hqi
    · rintro ⟨q, hq, rfl⟩
      rcases Table.mem_upsert.1 hq with rfl | ⟨hq, hkey⟩
      · exact ⟨⟨u, i, b.length, now⟩, Table.mem_upsert.2 (.inl rfl), rfl, rfl⟩
      · obtain ⟨r, hr, hu, e⟩ := (h.mem _).2 ⟨q, hq, rfl⟩
        have hi : r.partIndex = q.1 := congrArg Prod.fst e
        refine ⟨r, Table.mem_upsert.2 (.inr ⟨hr, fun hk => hkey ?_⟩), hu, e⟩
        exact hi.symm.trans (congrArg Prod.snd hk)
  · rcases Table.mem_upsert.1 hq with rfl | ⟨hq, hkey⟩
    · exact hfile
    · rw [hothers q.1 hkey]
      exact h.files q hq

/-! ## What the store computes -/

theorem Upload.Realizes.received (h : (m.upload u).Realizes d) :
    ((m.listed u).map (·.size)).sum = (d.bodies.map (·.2.length)).sum := by
  have hsizes := congrArg (List.map Prod.snd) h.rows
  rw [upload_listed, List.map_map, List.map_map] at hsizes
  exact congrArg List.sum hsizes

/-- The size recorded for an index. -/
theorem Upload.Realizes.prior (h : (m.upload u).Realizes d) (i : Nat) :
    ((m.listed u).find? fun p => decide (p.partIndex = i)).elim 0 (·.size) = (d.find i).elim 0
    (·.2.length) := by
  rw [Media.find_listed]
  cases hf : m.parts.find (u, i) with
  | some r =>
    obtain ⟨hr, hk⟩ := Table.find_some.1 hf
    obtain ⟨q, hq, e⟩ := (h.mem (r.partIndex, r.size)).1 ⟨r, hr, congrArg Prod.fst hk, rfl⟩
    have hqi : q.1 = i := (congrArg Prod.fst e).trans (congrArg Prod.snd hk)
    rw [Table.find_some.2 ⟨hq, hqi⟩]
    exact (congrArg Prod.snd e).symm
  | none =>
    cases hd : d.find i with
    | none => rfl
    | some q =>
      obtain ⟨hq, hqi⟩ := Table.find_some.1 hd
      obtain ⟨r, hr, hu, e⟩ := (h.mem (q.1, q.2.length)).2 ⟨q, hq, rfl⟩
      exact absurd (Prod.ext hu ((congrArg Prod.fst e).trans hqi)) (Table.find_none.1 hf r hr)

/-- **The bytes a finalize concatenates are the draft's content.** -/
theorem Upload.Realizes.assembled (h : (m.upload u).Realizes d) :
    (∀ p ∈ m.listed u, (m.disk (.part u p.partIndex)).isSome) ∧ m.assembled u = d.content := by
  have hindex : (m.listed u).map (·.partIndex) = d.bodies.map Prod.fst := by
    have hfst := congrArg (List.map Prod.fst) h.rows
    rwa [upload_listed, List.map_map, List.map_map] at hfst
  have hfiles : ∀ q ∈ d.bodies, m.disk (.part u q.1) = some q.2 :=
    fun q hq => h.files q (d.mem_bodies.1 hq)
  constructor
  · intro p hp
    have hm : p.partIndex ∈ d.bodies.map Prod.fst := hindex ▸ List.mem_map_of_mem hp
    obtain ⟨q, hq, e⟩ := List.mem_map.1 hm
    rw [← e, hfiles q hq]
    rfl
  · have hread : (m.listed u).map (fun p => (m.disk (.part u p.partIndex)).getD []) =
        d.bodies.map fun q => (m.disk (.part u q.1)).getD [] := by
      have := congrArg (List.map fun i => (m.disk (.part u i)).getD []) hindex
      rwa [List.map_map, List.map_map] at this
    unfold Media.assembled Draft.content
    rw [hread]
    congr 1
    refine List.map_congr_left fun q hq => ?_
    rw [hfiles q hq]
    rfl

end Realizes

end GlanceVault.L2
