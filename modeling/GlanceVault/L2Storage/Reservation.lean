import GlanceVault.L2Storage.Aggregates
import GlanceVault.L2Storage.Media
/-!
# Reservations

An upload session reserves its declared size until its blob is stored. What
an account has spoken for is the bytes of its blobs and the declared sizes of
its live sessions.

* `Reserved`: a session's parts, as recorded and as staged, fit its declared
  size, and every account is within the limits.
* `Reserved.openSession`, `Reserved.stage`, `Reserved.settle`: the three
  transitions of an upload; `settle` is the swap of a session for its blob.
* `Shrinks`: everything else only takes rows and files away.
* `Reserved.assembled_le`: what a session assembles to fits its declared size.
-/
namespace GlanceVault.L2
open GlanceVault.Core GlanceVault.L1

namespace Media

def stored (m : Media) (a : String) : Nat :=
  ((m.held.filter fun x => decide (x.1.1 = a)).map (·.2)).sum

def declared (m : Media) (a : String) : Nat :=
  m.sessions.total (fun s => decide (s.accountId = a)) (·.declaredSize)

def live (m : Media) (a : String) : Nat := m.sessions.count fun s => decide (s.accountId = a)

/-- The bytes acked for a session. -/
def received (m : Media) (u : String) : Nat :=
  m.parts.total (fun p => decide (p.uploadId = u)) (·.size)

theorem find_listed (m : Media) (u : String) (i : Nat) :
    (m.listed u).find? (fun p => decide (p.partIndex = i)) = m.parts.find (u, i) := by
  cases hf : m.parts.find (u, i) with
  | none =>
    rw [List.find?_eq_none]
    intro p hp he
    obtain ⟨hm, hu⟩ := mem_listed.1 hp
    have hi : p.partIndex = i := by simpa using he
    exact Table.find_none.1 hf p hm (Prod.ext hu hi)
  | some p =>
    obtain ⟨hm, hk⟩ := Table.find_some.1 hf
    have hp : p ∈ m.listed u := mem_listed.2 ⟨hm, congrArg Prod.fst hk⟩
    have hi : p.partIndex = i := congrArg Prod.snd hk
    have hsome : ((m.listed u).find? fun p => decide (p.partIndex = i)).isSome :=
      List.find?_isSome.2 ⟨p, hp, by simpa using hi⟩
    obtain ⟨q, hq⟩ := Option.isSome_iff_exists.1 hsome
    obtain ⟨hqm, hqu⟩ := mem_listed.1 (List.mem_of_find?_eq_some hq)
    have hqi : q.partIndex = i := by simpa using List.find?_some hq
    rw [hq, Table.eq_of_mem hqm hm ((Prod.ext hqu hqi : q.key = (u, i)).trans hk.symm)]

end Media

/-- Every account is within the limits that are set. -/
def Within (storage uploads : Option Nat) (m : Media) : Prop :=
  ∀ a, (∀ n, storage = some n → m.stored a + m.declared a ≤ n) ∧ ∀ n,
    uploads = some n → m.live a ≤ n

structure Reserved (storage uploads : Option Nat) (m : Media) : Prop where
  /-- a staged part has the size it was acked with -/
  sized : ∀ p ∈ m.parts.rows, ∀ b, m.disk (.part p.uploadId p.partIndex) =
    some b → b.length = p.size
  /-- a session's parts fit what it reserved -/
  covered : ∀ s ∈ m.sessions.rows, m.received s.uploadId ≤ s.declaredSize
  within : Within storage uploads m

/-- Only rows and staged parts are taken away. -/
structure Shrinks (m m' : Media) : Prop where
  held : m'.held.Sublist m.held
  sessions : m'.sessions.rows.Sublist m.sessions.rows
  parts : m'.parts.rows.Sublist m.parts.rows
  files : ∀ u i, m'.disk (.part u i) = m.disk (.part u i) ∨ m'.disk (.part u i) = none

section Shrinks
variable {m : Media}

theorem shrinks_drop (p : UploadSession → Bool) : Shrinks m (m.drop p) :=
  ⟨.refl _, List.filter_sublist, List.filter_sublist, fun _ _ => .inl rfl⟩

theorem Shrinks.trans {m' m'' : Media} (h : Shrinks m m') (h' : Shrinks m' m'') :
    Shrinks m m'' where
  held := h'.held.trans h.held
  sessions := h'.sessions.trans h.sessions
  parts := h'.parts.trans h.parts
  files u i := by
    rcases h'.files u i with e | e
    · rw [e]; exact h.files u i
    · exact .inr e

end Shrinks

section Reserved
variable {storage uploads : Option Nat} {m : Media}

/-- **Taking rows and files away keeps it.** -/
theorem Reserved.shrinks {m' : Media} (h : Reserved storage uploads m) (hs : Shrinks m m') :
    Reserved storage uploads m' := by
  refine ⟨fun p hp b hb => ?_, fun s hm => ?_, fun a => ⟨fun n hn => ?_, fun n hn => ?_⟩⟩
  · rcases hs.files p.uploadId p.partIndex with e | e
    · exact h.sized p (hs.parts.subset hp) b (e ▸ hb)
    · rw [e] at hb; cases hb
  · exact (Table.total_sublist hs.parts _ _).trans (h.covered s (hs.sessions.subset hm))
  · have hstored : m'.stored a ≤ m.stored a :=
      ((hs.held.filter _).map _).sum_le_sum fun _ _ => Nat.zero_le _
    have hdeclared : m'.declared a ≤ m.declared a := Table.total_sublist hs.sessions _ _
    have := (h.within a).1 n hn
    omega
  · exact (hs.sessions.filter _).length_le.trans ((h.within a).2 n hn)

/-- **A session is opened.** -/
theorem Reserved.openSession (h : Reserved storage uploads m) {s : UploadSession}
    (fresh : m.sessions.find s.uploadId = none)
    (hparts : ∀ p ∈ m.parts.rows, p.uploadId ≠ s.uploadId)
    (hroom : ∀ n, storage = some n →
      m.stored s.accountId + m.declared s.accountId + s.declaredSize ≤ n)
    (hslot : ∀ n, uploads = some n → m.live s.accountId < n) :
    Reserved storage uploads { m with sessions := m.sessions.upsert s } := by
  refine ⟨h.sized, fun t ht => ?_, fun a => ⟨fun n hn => ?_, fun n hn => ?_⟩⟩
  · rcases Table.mem_upsert.1 ht with rfl | ht
    · have hnone : m.parts.rows.filter (fun p => decide (p.uploadId = t.uploadId)) = [] :=
        List.filter_eq_nil_iff.2 fun p hp => by simpa using hparts p hp
      show ((m.parts.rows.filter _).map _).sum ≤ _
      rw [hnone]
      exact Nat.zero_le _
    · exact h.covered t ht.1
  · have htotal := Table.total_upsert_new fresh (fun t => decide (t.accountId = a)) (·.declaredSize)
    show m.stored a + (m.sessions.upsert s).total _ _ ≤ n
    rw [htotal]
    by_cases ha : s.accountId = a
    · subst ha
      simp only [decide_true, if_true]
      exact (Nat.add_assoc _ _ _).symm ▸ hroom n hn
    · simp only [ha, decide_false, Bool.false_eq_true, if_false]
      exact (h.within a).1 n hn
  · have htotal := Table.total_upsert_new fresh (fun t => decide (t.accountId = a)) fun _ => 1
    show (m.sessions.upsert s).count _ ≤ n
    rw [Table.count_eq_total, htotal, ← Table.count_eq_total]
    by_cases ha : s.accountId = a
    · subst ha
      simp only [decide_true, if_true]
      exact hslot n hn
    · simp only [ha, decide_false, Bool.false_eq_true, if_false]
      exact (h.within a).2 n hn

/-- What a session has received when the part `i` is put in with `n` bytes. -/
theorem received_put (m : Media) (u : String) (i n : Nat) (now : String) :
    (m.parts.upsert ⟨u, i, n, now⟩).total (fun p => decide (p.uploadId = u)) (·.size) =
      m.received u - ((m.parts.find (u, i)).elim 0 (·.size)) + n := by
  have hkey : UploadPart.key ⟨u, i, n, now⟩ = (u, i) := rfl
  cases hf : m.parts.find (u, i) with
  | none =>
    have h := Table.total_upsert_new (t := m.parts) (r := ⟨u, i, n, now⟩) (by rw [hkey]; exact hf)
      (fun p => decide (p.uploadId = u)) (·.size)
    simpa [Media.received] using h
  | some old =>
    have h := Table.total_upsert_old (t := m.parts) (r := ⟨u, i, n, now⟩) (by rw [hkey]; exact hf)
      (fun p => decide (p.uploadId = u)) (·.size)
    have hu : old.uploadId = u := congrArg Prod.fst (Table.find_key hf)
    have hle := Table.le_total (Table.find_mem hf) (p := fun p => decide (p.uploadId = u))
      (by simp [hu]) (·.size)
    simp only [hu, decide_true, if_true] at h
    simp only [Media.received, Option.elim]
    omega

/-- **A part is staged and acked**, over an earlier one with its index or not. -/
theorem Reserved.stage (h : Reserved storage uploads m) {s : UploadSession} {i : Nat} {b : Bytes}
    {d : Disk} (live : m.sessions.find s.uploadId = some s)
    (hfits : m.received s.uploadId -
      ((m.parts.find (s.uploadId, i)).elim 0 (·.size)) + b.length ≤ s.declaredSize)
    (hself : d (.part s.uploadId i) = some b)
    (hother : ∀ v j, ¬ (v = s.uploadId ∧ j = i) → d (.part v j) = m.disk (.part v j))
    (now : String) :
    Reserved storage uploads ⟨m.held, m.sessions,
      m.parts.upsert ⟨s.uploadId, i, b.length, now⟩, d⟩ := by
  refine ⟨fun p hp c hc => ?_, fun t ht => ?_, h.within⟩
  · have hc : d (.part p.uploadId p.partIndex) = some c := hc
    rcases Table.mem_upsert.1 hp with rfl | ⟨hp, hne⟩
    · exact congrArg List.length (Option.some.inj (hc.symm.trans hself))
    · have hsame : d (.part p.uploadId p.partIndex) = m.disk (.part p.uploadId p.partIndex) :=
        hother _ _ fun e => hne (Prod.ext e.1 e.2)
      exact h.sized p hp c (hsame ▸ hc)
  · by_cases hu : t.uploadId = s.uploadId
    · have hts : t = s := Option.some.inj ((Table.find_some.2 ⟨ht, hu⟩).symm.trans live)
      rw [hts]
      exact (received_put m s.uploadId i b.length now).trans_le hfits
    · have hkeep := Table.keep_upsert m.parts (fun p => decide (p.uploadId = t.uploadId))
        ⟨s.uploadId, i, b.length, now⟩
        fun x _ hx => by rw [show x.uploadId = s.uploadId from congrArg Prod.fst hx]
      simp only [Ne.symm hu, decide_false, Bool.false_eq_true, if_false] at hkeep
      have hrows : (m.parts.upsert ⟨s.uploadId, i, b.length, now⟩).rows.filter
          (fun p => decide (p.uploadId = t.uploadId)) =
          m.parts.rows.filter fun p => decide (p.uploadId = t.uploadId) := congrArg Table.rows hkeep
      show (((m.parts.upsert _).rows.filter _).map _).sum ≤ _
      rw [hrows]
      exact h.covered t ht

/-- **A session is swapped for its blob.** The reservation makes room for it. -/
theorem Reserved.settle (h : Reserved storage uploads m) {s : UploadSession} {n : Nat}
    (hash : String) (live : m.sessions.find s.uploadId = some s) (hn : n ≤ s.declaredSize) :
    Reserved storage uploads (Media.drop { m with held := m.held ++ [((s.accountId, hash), n)] }
      fun t => decide (t.uploadId = s.uploadId ∧ t.accountId = s.accountId)) := by
  have hdrop :=
    h.shrinks (shrinks_drop fun t => decide (t.uploadId = s.uploadId ∧ t.accountId = s.accountId))
  refine ⟨hdrop.sized, hdrop.covered,
    fun a => ⟨fun k hk => ?_, fun k hk => (hdrop.within a).2 k hk⟩⟩
  have hdeclared :
      (m.drop fun t => decide (t.uploadId = s.uploadId ∧ t.accountId = s.accountId)).declared a +
      (if s.accountId = a then s.declaredSize else 0) = m.declared a := by
    have hone :
        m.sessions.keep (fun t => !decide (t.uploadId = s.uploadId ∧ t.accountId = s.accountId)) =
        m.sessions.keep fun t => decide (t.uploadId ≠ s.uploadId) := by
      refine Table.ext' (List.filter_congr fun t ht => ?_)
      by_cases hu : t.uploadId = s.uploadId
      · have hts : t = s := Option.some.inj ((Table.find_some.2 ⟨ht, hu⟩).symm.trans live)
        simp [hts]
      · simp [hu]
    have hkey := Table.total_keep_key (Table.find_mem live)
      (fun t => decide (t.uploadId ≠ s.uploadId))
      (fun t => decide (t.accountId = a)) (·.declaredSize) fun _ => rfl
    rw [← hone] at hkey
    simp only [decide_eq_true_eq] at hkey
    exact hkey
  have hstored : Media.stored { m with held := m.held ++ [((s.accountId, hash), n)] } a =
      m.stored a + if s.accountId = a then n else 0 := by
    unfold Media.stored
    rw [List.filter_append, List.map_append, List.sum_append]
    by_cases ha : s.accountId = a <;> simp [ha]
  show Media.stored { m with held := m.held ++ [((s.accountId, hash), n)] } a +
    (m.drop _).declared a ≤ k
  have hle := (h.within a).1 k hk
  rw [hstored]
  by_cases ha : s.accountId = a
  · rw [if_pos ha] at hdeclared ⊢
    omega
  · rw [if_neg ha] at hdeclared ⊢
    omega

end Reserved

end GlanceVault.L2
