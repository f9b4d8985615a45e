import GlanceVault.L4System.Possession
/-!
# Blob bytes and the rows that hold them

A reclaim sweep deletes the bytes of a hash for all accounts when one account's
row is eligible; so the bytes of a row survive a run exactly as long as every
sweep deletes, with the bytes of a hash, all rows of that hash.

* `sweep_media`: what a sweep has deleted after `n` storage steps.
* `bytes_survive`: in runs whose sweeps spare shared hashes every row keeps its
  bytes; the first sweep that does not breaks this.
-/
namespace GlanceVault.L4
open GlanceVault.Core GlanceVault.L1 GlanceVault.L2 GlanceVault.L3

/-! ## What a sweep deletes -/

/-- What is left of the media when the bytes of `erased` and the rows of
`deleted` are gone. -/
structure Swept (erased deleted : List Blob) (m m' : Media) : Prop where
  held : m'.held = m.held.filter fun x => decide (x.1 ∉ deleted.map Blob.key)
  disk : ∀ h, m'.disk (.blob h) = if h ∈ erased.map (·.blobHash) then none else m.disk (.blob h)

theorem reclaimBlob_run {b : Blob} (hv : Js.isHash b.blobHash = true) (s : Server) :
    ∃ s1 s2, reclaimBlob b s = ⟨.ok (), s2, [s1, s2]⟩ ∧
      s1.media = s.media.onDisk (fun d => d.remove (.blob b.blobHash)) ∧
      s2.media = s1.media.forget fun k => decide (k = b.key) := by
  have hassert : Disk.assertHash b.blobHash = .ok () := by simp [Disk.assertHash, hv]
  unfold reclaimBlob deleteBytes
  rw [hassert]
  refine ⟨_, _, rfl, rfl, ?_⟩
  exact deleteBlob_media (a := b.accountId) (h := b.blobHash) (Tx.eval_write _ _)

theorem sweep_media : ∀ (E : List Blob) (_ : ∀ b ∈ E, Js.isHash b.blobHash = true)
    (n : Nat) (s : Server),
    Swept (E.take ((n + 1) / 2)) (E.take (n / 2)) s.media
      ((Prog.each reclaimBlob E).stopAfter n s).media := by
  intro E
  induction E with
  | nil =>
    intro _ n s
    have h : (Prog.each reclaimBlob []).stopAfter n s = s := by cases n <;> rfl
    rw [h]
    exact ⟨by simp, by simp⟩
  | cons b E ih =>
    intro hE n s
    obtain ⟨s1, s2, hrun, h1, h2⟩ := reclaimBlob_run (hE b (List.mem_cons_self ..)) s
    have hcons : Prog.each reclaimBlob (b :: E) s =
        ⟨(Prog.each reclaimBlob E s2).result, (Prog.each reclaimBlob E s2).state,
          [s1, s2] ++ (Prog.each reclaimBlob E s2).trace⟩ := by
      show (reclaimBlob b >>= fun _ => Prog.each reclaimBlob E) s = _
      rw [Prog.bind_run, hrun]
    match n with
    | 0 => exact ⟨by simp [Prog.stopAfter], by simp [Prog.stopAfter]⟩
    | 1 =>
      -- the bytes are gone, the row is still there
      have hstop : (Prog.each reclaimBlob (b :: E)).stopAfter 1 s = s1 := by
        simp only [Prog.stopAfter, hcons]
        rfl
      rw [hstop, h1]
      refine ⟨by simp [Media.onDisk], fun h => ?_⟩
      by_cases hh : h = b.blobHash
      · subst hh; simp
      · rw [Media.disk_onDisk, Disk.remove_other _ (by simpa using hh)]
        simp [hh]
    | n + 2 =>
      have hstop : (Prog.each reclaimBlob (b :: E)).stopAfter (n + 2) s =
          (Prog.each reclaimBlob E).stopAfter n s2 := by
        simp only [Prog.stopAfter, hcons]
        cases n with
        | zero => rfl
        | succ n => simp
      obtain ⟨hheld, hdisk⟩ := ih (fun c hc => hE c (List.mem_cons_of_mem _ hc)) n s2
      have e1 : (n + 2 + 1) / 2 = (n + 1) / 2 + 1 := by omega
      have e2 : (n + 2) / 2 = n / 2 + 1 := by omega
      rw [hstop, e1, e2, List.take_succ_cons, List.take_succ_cons]
      refine ⟨?_, fun h => ?_⟩
      · rw [hheld, h2, h1]
        show List.filter _ (List.filter _ s.media.held) = _
        rw [List.filter_filter]
        apply List.filter_congr
        intro x _
        by_cases hx : x.1 = b.key <;> simp [hx]
      · rw [hdisk, h2, h1]
        show (if _ then none else s.media.disk.remove (.blob b.blobHash) (.blob h)) = _
        by_cases hh : h = b.blobHash
        · subst hh; simp
        · rw [Disk.remove_other _ (by simpa using hh)]
          simp [hh]

/-- The rows a sweep finds. -/
def eligible (policy : ReclaimPolicy) (nowMs : Int) (db : Db) : List Blob :=
  match policy.reclaim, isoOf (nowMs - policy.gracePeriodMs),
    isoOf (nowMs - policy.deadDevicePeriodMs) with
  | true, .ok graceCutoff, .ok deadCutoff => listReclaimableBlobs graceCutoff deadCutoff db
  | _, _, _ => []

theorem mem_eligible {policy : ReclaimPolicy} {nowMs : Int} {db : Db} {b : Blob}
    (h : b ∈ eligible policy nowMs db) : b ∈ db.blobs.rows := by
  unfold eligible at h
  split at h
  · exact (List.mem_filter.1 h).1
  · cases h

theorem reclaimSweep_stop (policy : ReclaimPolicy) (nowMs : Int) (n : Nat) (s : Server) :
    (reclaimSweep policy nowMs).stopAfter n s =
      (Prog.each reclaimBlob (eligible policy nowMs s.db)).stopAfter n s := by
  have hnone : ∀ m : Handler (List Blob), (m s).state = s → (m s).trace = [] →
      m.stopAfter n s = (Prog.each reclaimBlob []).stopAfter n s := by
    intro m h1 h2
    cases n with
    | zero => rfl
    | succ n => simp only [Prog.stopAfter, h1, h2]; rfl
  unfold reclaimSweep eligible
  cases policy.reclaim with
  | false => exact hnone _ rfl rfl
  | true =>
    simp only [if_true]
    cases hg : isoOf (nowMs - policy.gracePeriodMs) with
    | error e => exact hnone _ rfl rfl
    | ok g =>
      cases hd : isoOf (nowMs - policy.deadDevicePeriodMs) with
      | error e => exact hnone _ rfl rfl
      | ok d =>
        show (readDb (listReclaimableBlobs g d) >>= fun E => Prog.each reclaimBlob E >>= fun _ =>
          pure E).stopAfter n s = _
        unfold readDb
        rw [Prog.stopAfter_get_bind]
        exact Prog.stopAfter_bind_pure _ (fun _ => listReclaimableBlobs g d s.db) n s

/-! ## Sweeps that spare what others hold -/

/-- The rows whose bytes an event's sweep deletes. -/
def State.erased (s : State) : Event → List Blob
  | .run (.reclaim policy nowMs) => eligible policy nowMs s.server.db
  | .stop (.reclaim policy nowMs) n _ => (eligible policy nowMs s.server.db).take ((n + 1) / 2)
  | _ => []

/-- The rows an event's sweep deletes. -/
def State.deleted (s : State) : Event → List Blob
  | .run (.reclaim policy nowMs) => eligible policy nowMs s.server.db
  | .stop (.reclaim policy nowMs) n _ => (eligible policy nowMs s.server.db).take (n / 2)
  | _ => []

/-- With the bytes of a hash go all rows of that hash. -/
def State.spares (s : State) (e : Event) : Prop :=
  ∀ b ∈ s.erased e, ∀ r ∈ s.server.db.blobs.rows, r.blobHash = b.blobHash → r ∈ s.deleted e

instance (s : State) (e : Event) : Decidable (s.spares e) :=
  inferInstanceAs (Decidable (∀ b ∈ s.erased e, ∀ r ∈ s.server.db.blobs.rows,
    r.blobHash = b.blobHash → r ∈ s.deleted e))

theorem spares_other {s : State} {e : Event}
    (he : ∀ policy nowMs, e.action ≠ .reclaim policy nowMs) : s.spares e := by
  intro b hb
  have hnil : s.erased e = [] := by
    unfold State.erased
    split
    · rename_i policy nowMs
      exact absurd rfl (he policy nowMs)
    · rename_i policy nowMs n cfg
      exact absurd rfl (he policy nowMs)
    · rfl
  rw [hnil] at hb
  cases hb

/-- What a reclaim, finished or stopped, leaves of the media. -/
theorem next_swept {host : Host} {s : State} {e : Event} {policy : ReclaimPolicy} {nowMs : Int}
    (he : e.action = .reclaim policy nowMs) (hgen : Genuine host.sha256Hex s.sent s.server.media) :
    Swept (s.erased e) (s.deleted e) s.server.media (s.next host e).server.media := by
  have hvalid : ∀ b ∈ eligible policy nowMs s.server.db, Js.isHash b.blobHash = true :=
    fun b hb => hgen.heldHash _ (mem_media_held (mem_eligible hb))
  have hwork : ∀ n, (s.work host (.reclaim policy nowMs)).stopAfter n s.server =
      (Prog.each reclaimBlob (eligible policy nowMs s.server.db)).stopAfter n s.server := by
    intro n
    rw [← reclaimSweep_stop]
    exact Prog.stopAfter_bind_pure _ (fun _ => ()) n _
  cases e with
  | run a =>
    cases he
    -- a finished sweep is one stopped after more steps than it has
    let n := max ((s.work host (.reclaim policy nowMs)) s.server).trace.length
      (2 * (eligible policy nowMs s.server.db).length) + 1
    have hall : (s.work host (.reclaim policy nowMs)).stopAfter n s.server =
        ((s.work host (.reclaim policy nowMs)) s.server).state := Prog.stopAfter_all (by omega)
    have h := sweep_media _ hvalid n s.server
    rw [← hwork, hall, List.take_of_length_le (by omega), List.take_of_length_le (by omega)] at h
    exact h
  | stop a n cfg =>
    cases he
    have h := sweep_media _ hvalid n s.server
    rw [← hwork] at h
    exact h

/-- A sweep keeps the media backed exactly when it spares what others hold. -/
theorem Swept.backed_iff {erased deleted : List Blob} {db : Db} {d : Disk} {m' : Media}
    (h : Swept erased deleted (mediaOf db d) m') (hsub : ∀ b ∈ deleted, b ∈ db.blobs.rows)
    (hb : Backed (mediaOf db d)) :
    Backed m' ↔ ∀ b ∈ erased, ∀ r ∈ db.blobs.rows, r.blobHash = b.blobHash → r ∈ deleted := by
  have hheld : ∀ x, x ∈ m'.held ↔ ∃ r ∈ db.blobs.rows, r ∉ deleted ∧ (r.key, r.size) = x := by
    intro x
    rw [h.held, List.mem_filter]
    constructor
    · intro ⟨hx, hk⟩
      obtain ⟨r, hr, rfl⟩ := List.mem_map.1 hx
      simp only [decide_eq_true_eq] at hk
      exact ⟨r, hr, fun hd => hk (List.mem_map.2 ⟨r, hd, rfl⟩), rfl⟩
    · intro ⟨r, hr, hd, e⟩
      subst e
      refine ⟨List.mem_map.2 ⟨r, hr, rfl⟩, ?_⟩
      simp only [decide_eq_true_eq]
      intro hk
      obtain ⟨c, hc, e⟩ := List.mem_map.1 hk
      exact hd (Table.eq_of_mem (hsub c hc) hr e ▸ hc)
  constructor
  · intro hb' b hbE r hr hh
    by_contra hd
    have hgone : m'.disk (.blob r.blobHash) = none :=
      (h.disk _).trans (if_pos (List.mem_map.2 ⟨b, hbE, hh.symm⟩))
    have hsome : (m'.disk (.blob r.blobHash)).isSome := hb' _ ((hheld _).2 ⟨r, hr, hd, rfl⟩)
    rw [hgone] at hsome
    cases hsome
  · intro hs x hx
    obtain ⟨r, hr, hd, rfl⟩ := (hheld x).1 hx
    have hkeep : r.blobHash ∉ erased.map (·.blobHash) := by
      intro hm
      obtain ⟨b, hbE, e⟩ := List.mem_map.1 hm
      exact hd (hs b hbE r hr e.symm)
    have hkept : m'.disk (.blob r.blobHash) = d (.blob r.blobHash) :=
      (h.disk _).trans (if_neg hkeep)
    show (m'.disk (.blob r.blobHash)).isSome
    rw [hkept]
    exact hb _ (List.mem_map.2 ⟨r, hr, rfl⟩)

/-- **An event keeps every row's bytes exactly when its sweep spares what
others hold.** -/
theorem backed_next {host : Host} {s : State} (e : Event)
    (hgen : Genuine host.sha256Hex s.sent s.server.media)
    (hb : Backed s.server.media) : Backed (s.next host e).server.media ↔ s.spares e := by
  by_cases hr : ∃ policy nowMs, e.action = .reclaim policy nowMs
  · obtain ⟨policy, nowMs, hr⟩ := hr
    refine (next_swept hr hgen).backed_iff (fun b hd => ?_) hb
    cases e with
    | run a => cases hr; exact mem_eligible hd
    | stop a n cfg => cases hr; exact mem_eligible (List.mem_of_mem_take hd)
  · have hr : ∀ policy nowMs, e.action ≠ .reclaim policy nowMs := fun p n e => hr ⟨p, n, e⟩
    exact iff_of_true (Prog.reach_inv (fun m m' hs hm => hm.step hs) (next_steps host s hr) hb)
      (spares_other hr)

theorem backed_after (host : Host) (cfg : Config) {es : List Event}
    (h : AllSteps (State.next host) State.spares (State.init cfg) es) :
    Backed (State.after host cfg es).server.media := by
  have hstep : ∀ (s : State) (e : Event), s.spares e →
      Genuine host.sha256Hex s.sent s.server.media ∧ Backed s.server.media →
      Genuine host.sha256Hex (s.next host e).sent (s.next host e).server.media ∧
      Backed (s.next host e).server.media :=
    fun s e hok hI => ⟨genuine_next host s e hI.1, (backed_next e hI.1 hI.2).2 hok⟩
  exact (run_inv_of hstep es (State.init cfg) h ⟨genuine_empty, fun x hx => (by cases hx)⟩).2

/-- Every row has its bytes. -/
def Intact (host : Host) (s : State) : Prop :=
  ∀ row ∈ s.server.db.blobs.rows, ∃ b, s.server.disk (.blob row.blobHash) = some b ∧
    host.sha256Hex b = row.blobHash

theorem intact_iff {host : Host} {s : State} (h : Genuine host.sha256Hex s.sent s.server.media) :
    Intact host s ↔ Backed s.server.media := by
  constructor
  · intro hi x hx
    obtain ⟨row, hrow, rfl⟩ := List.mem_map.1 hx
    obtain ⟨b, hb, -⟩ := hi row hrow
    exact Option.isSome_iff_exists.2 ⟨b, hb⟩
  · intro hb row hrow
    obtain ⟨b, hs⟩ := Option.isSome_iff_exists.1 (hb _ (mem_media_held hrow))
    exact ⟨b, hs, h.addressed _ b hs⟩

theorem allSteps_run {host : Host} {ok : State → Event → Prop} :
    ∀ {as : List Action} {s : State}, AllSteps (State.act host) (fun s a => ok s (.run a)) s as →
      AllSteps (State.next host) ok s (as.map .run)
  | [], _, _ => trivial
  | _ :: _, _, h => ⟨h.1, allSteps_run h.2⟩

/-- **Bytes survive.** In a run without crashes all of whose sweeps delete,
with the bytes of a hash, all rows of that hash, every row has its bytes; and
the next step keeps this exactly if it meets that condition too. -/
theorem bytes_survive (host : Host) (cfg : Config) {as : List Action}
    (h : AllSteps (State.act host) (fun s a => s.spares (.run a)) (State.init cfg) as) :
    Intact host (State.running host cfg as) ∧
    ∀ a, Intact host (State.running host cfg (as ++ [a])) ↔
      (State.running host cfg as).spares (.run a) := by
  have hgen : ∀ as, Genuine host.sha256Hex (State.running host cfg as).sent
      (State.running host cfg as).server.media := by
    intro as
    rw [running_eq]
    exact genuine_after host cfg _
  have hback : Backed (State.running host cfg as).server.media := by
    rw [running_eq]
    exact backed_after host cfg (allSteps_run h)
  refine ⟨(intact_iff (hgen as)).2 hback, fun a => ?_⟩
  have hlast : State.running host cfg (as ++ [a]) =
      (State.running host cfg as).next host (.run a) := by
    unfold State.running
    rw [run_append]
    rfl
  rw [intact_iff (hgen _), hlast]
  exact backed_next (.run a) (hgen as) hback

/-- A sweep with a grace period of thirty days, on the first of March 2025. -/
def marchSweep : Action := .reclaim ⟨true, 2592000000, 2592000000⟩ 1740787200000

/-- Two accounts hold the same blob. The row of the first is eligible, the row
of the second is not; the sweep takes the bytes from both. -/
theorem reclaim_takes_shared_bytes :
    ¬ Intact sampleHost (State.running sampleHost sampleConfig
      (uploadEmpty "a" "u" "2025-01-01T00:00:00.000Z" ++
        uploadEmpty "b" "v" "2025-02-15T00:00:00.000Z" ++
        [marchSweep])) := by
  intro h
  have hrows : (State.running sampleHost sampleConfig
      (uploadEmpty "a" "u" "2025-01-01T00:00:00.000Z" ++
        uploadEmpty "b" "v" "2025-02-15T00:00:00.000Z" ++
        [marchSweep])).server.db.blobs.rows.map Blob.key = [("b", emptyHash)] := by decide +kernel
  have hmem : ("b", emptyHash) ∈ (State.running sampleHost sampleConfig
      (uploadEmpty "a" "u" "2025-01-01T00:00:00.000Z" ++
        uploadEmpty "b" "v" "2025-02-15T00:00:00.000Z" ++
        [marchSweep])).server.db.blobs.rows.map Blob.key := by
    rw [hrows]
    exact List.mem_singleton.2 rfl
  obtain ⟨row, hrow, e⟩ := List.mem_map.1 hmem
  obtain ⟨b, hb, -⟩ := h row hrow
  have hash : row.blobHash = emptyHash := congrArg Prod.snd e
  have hgone : (State.running sampleHost sampleConfig
      (uploadEmpty "a" "u" "2025-01-01T00:00:00.000Z" ++
        uploadEmpty "b" "v" "2025-02-15T00:00:00.000Z" ++
        [marchSweep])).server.disk (.blob emptyHash) = none := by decide +kernel
  rw [hash, hgone] at hb
  cases hb

/-- When both rows are eligible, or none is, nothing is lost. -/
theorem bytes_survive_reupload :
    Intact sampleHost (State.running sampleHost sampleConfig
      (uploadEmpty "a" "u" "2025-01-01T00:00:00.000Z" ++
        uploadEmpty "b" "v" "2025-01-02T00:00:00.000Z" ++
        [marchSweep] ++ uploadEmpty "b" "w" "2025-03-02T00:00:00.000Z")) :=
  (bytes_survive sampleHost sampleConfig (by decide +kernel)).1

end GlanceVault.L4
