import Mathlib.Logic.Function.Basic
import GlanceVault.Core.Run
import GlanceVault.L2Storage.Migrations
/-!
# Processes that migrate one file

Any number of processes on the same database file call `runMigrations`
(`storage/migrations.ts`). The version is read once, before the loop; each
migration then runs in a transaction of its own, and other processes may come
between. A process may be killed at any point and started again.

* `boot_alone`: an undisturbed call is `runMigrations`, stopped after any number
  of its transactions.
* `boots_next`: what every step preserves.
* `failed_step`: a step fails exactly if the migration it tries was overtaken.
* `migrations_once`: whole runs.
-/
namespace GlanceVault.L2
open GlanceVault.Core

/-- Where a call of `runMigrations` is. `running`: the version it read, and the
migrations from the one it tries next. -/
inductive Boot
  | waiting
  | running (start : Nat) (rest : List Migration)
  | finished
  | failed
  deriving DecidableEq

/-- The loop up to its next transaction. -/
def Boot.skip (start : Nat) : List Migration → Boot
  | [] => .finished
  | m :: ms => if m.version ≤ start then Boot.skip start ms else .running start (m :: ms)

/-- The file, the processes, and the versions whose transactions committed. -/
structure Boots (ι : Type) where
  catalog : Catalog
  boot : ι → Boot
  committed : List Nat

inductive BootEvent (ι : Type)
  | step (p : ι)
  | kill (p : ι)

section Model
variable {ι : Type} [DecidableEq ι]

/-- No process has started. -/
def Boots.init (d : Catalog) : Boots ι := ⟨d, fun _ => .waiting, []⟩

/-- One read of the version, or one transaction. -/
def Boots.step (s : Boots ι) (p : ι) : Boots ι :=
  match s.boot p with
  | .waiting =>
    { s with boot := Function.update s.boot p (Boot.skip s.catalog.userVersion migrations) }
  | .running start (m :: ms) =>
    match s.catalog.apply m with
    | some d => ⟨d, Function.update s.boot p (Boot.skip start ms), s.committed ++ [m.version]⟩
    | none => { s with boot := Function.update s.boot p .failed }
  | _ => s

def Boots.next (s : Boots ι) : BootEvent ι → Boots ι
  | .step p => s.step p
  | .kill p => { s with boot := Function.update s.boot p .waiting }

/-- Nobody has overtaken the process: the migration it tries is the next one of
the file. -/
def Boots.ahead (s : Boots ι) : BootEvent ι → Bool
  | .step p =>
    match s.boot p with
    | .running _ (m :: _) => decide (m.version = s.catalog.userVersion + 1)
    | _ => true
  | .kill _ => true

end Model

/-! ## One process -/

section Alone
variable {ι : Type} [DecidableEq ι]

/-- A failed or finished process does nothing. -/
theorem step_over {s : Boots ι} {p : ι} (h : s.boot p = .finished ∨ s.boot p = .failed) :
    s.step p = s := by
  unfold Boots.step
  rcases h with h | h <;> rw [h]

theorem run_over {s : Boots ι} {p : ι} (h : s.boot p = .finished ∨ s.boot p = .failed) :
    ∀ n : Nat, run Boots.next s (List.replicate n (.step p)) = s
  | 0 => rfl
  | n + 1 => by
    rw [List.replicate_succ, run_cons, show s.next (.step p) = s from step_over h]
    exact run_over h n

/-- The loop of one process, transaction by transaction. -/
theorem loop_alone {p : ι} {start : Nat} : ∀ (ms : List Migration) (s : Boots ι) (n : Nat),
    s.boot p = Boot.skip start ms →
    (run Boots.next s (List.replicate n (.step p))).catalog =
    (applyFrom start ms).stopAfter n s.catalog
  | [], s, n, h => by
    rw [run_over (.inl h)]
    cases n <;> rfl
  | m :: ms, s, n, h => by
    unfold applyFrom
    rw [Prog.each]
    by_cases hm : m.version ≤ start
    · rw [if_pos hm, Prog.pure_bind]
      refine loop_alone ms s n (h.trans ?_)
      rw [Boot.skip, if_pos hm]
    · rw [Boot.skip, if_neg hm] at h
      rw [if_neg hm]
      cases n with
      | zero => rfl
      | succ n =>
        rw [List.replicate_succ, run_cons]
        cases ha : s.catalog.apply m with
        | none =>
          have hs : s.next (.step p) = { s with boot := Function.update s.boot p .failed } := by
            show s.step p = _
            simp only [Boots.step, h, ha]
          rw [hs, run_over (.inr (Function.update_self ..))]
          simp [Prog.stopAfter, Prog.bind_run, Prog.step, ha]
        | some d =>
          have hs : s.next (.step p) =
              ⟨d, Function.update s.boot p (Boot.skip start ms), s.committed ++ [m.version]⟩ := by
            show s.step p = _
            simp only [Boots.step, h, ha]
          rw [hs, loop_alone ms _ n (Function.update_self ..)]
          unfold applyFrom
          cases n <;> simp [Prog.stopAfter, Prog.bind_run, Prog.step, ha]

/-- **A call that nobody disturbs is `runMigrations`**, up to any point at which
it is killed. -/
theorem boot_alone (d : Catalog) (p : ι) (n : Nat) :
    (run Boots.next (Boots.init d) (List.replicate (n + 1) (.step p))).catalog =
      runMigrations.stopAfter n d := by
  rw [List.replicate_succ, run_cons]
  unfold runMigrations
  rw [Prog.stopAfter_get_bind]
  exact loop_alone migrations _ n (Function.update_self ..)

end Alone

/-! ## Any number of processes -/

theorem skip_take {start : Nat} {rest : List Migration} : ∀ {pre : List Migration},
    (∀ m ∈ pre, m.version ≤ start) → Boot.skip start (pre ++ rest) = Boot.skip start rest
  | [], _ => rfl
  | m :: pre, h => by
    rw [List.cons_append, Boot.skip, if_pos (h m List.mem_cons_self)]
    exact skip_take fun x hx => h x (List.mem_cons_of_mem m hx)

/-- A process that has gone through `k` migrations tries the next, or is through. -/
theorem skip_drop {start k : Nat} (h : start ≤ k) : Boot.skip start (migrations.drop k) =
    if k < targetSchemaVersion then .running start (migrations.drop k) else .finished := by
  by_cases hk : k < targetSchemaVersion
  · rw [if_pos hk]
    have hk : k < migrations.length := hk
    rw [List.drop_eq_getElem_cons hk, Boot.skip, if_neg]
    rw [version_eq (n := k) (List.getElem?_eq_getElem hk)]
    omega
  · rw [if_neg hk, List.drop_eq_nil_of_le (Nat.not_lt.1 hk)]
    rfl

theorem skip_start (start : Nat) : Boot.skip start migrations =
    if start < targetSchemaVersion then .running start (migrations.drop start) else .finished := by
  have h : Boot.skip start (migrations.take start ++ migrations.drop start) = _ :=
    (skip_take take_skipped).trans (skip_drop (Nat.le_refl start))
  rwa [List.take_append_drop] at h

section Boots
variable {ι : Type} [DecidableEq ι] {v : Nat} {s : Boots ι}

/-- What holds whatever the processes do, from a file at version `v`. -/
structure Boots.Sound (v : Nat) (s : Boots ι) : Prop where
  built : s.catalog.Built
  since : v ≤ s.catalog.userVersion
  once : s.committed = List.range' (v + 1) (s.catalog.userVersion - v)
  running : ∀ p start rest, s.boot p = .running start rest →
    ∃ k, start ≤ k ∧ k ≤ s.catalog.userVersion ∧ k < targetSchemaVersion ∧ rest = migrations.drop k
  finished : ∀ p, s.boot p = .finished → s.catalog.userVersion = targetSchemaVersion

omit [DecidableEq ι] in
theorem boots_init {d : Catalog} (h : d.Built) : (Boots.init d : Boots ι).Sound d.userVersion where
  built := h
  since := Nat.le_refl _
  once := by
    rw [show (Boots.init d : Boots ι).catalog = d from rfl, Nat.sub_self]
    rfl
  running _ _ _ h := nomatch h
  finished _ h := nomatch h

omit [DecidableEq ι] in
/-- The migration a process tries: the file has it, or it is the next one. -/
theorem Boots.Sound.tries (h : s.Sound v) {p : ι} {start : Nat} {m : Migration}
    {ms : List Migration} (hp : s.boot p = .running start (m :: ms)) :
    ∃ k, start ≤ k ∧ k ≤ s.catalog.userVersion ∧ k < targetSchemaVersion ∧
      migrations[k]? = some m ∧ m.version = k + 1 ∧ ms = migrations.drop (k + 1) := by
  obtain ⟨k, hstart, hk, hlt, hrest⟩ := h.running p start _ hp
  have hm : migrations[k]? = some m := by
    rw [← List.head?_drop, ← hrest]
    rfl
  refine ⟨k, hstart, hk, hlt, hm, version_eq hm, ?_⟩
  rw [← List.tail_drop, ← hrest]
  rfl

/-- A change of one process's state. -/
theorem Boots.Sound.moved (h : s.Sound v) {p : ι} {b : Boot}
    (hrun : ∀ start rest, b = .running start rest →
      ∃ k, start ≤ k ∧ k ≤ s.catalog.userVersion ∧ k < targetSchemaVersion ∧
      rest = migrations.drop k)
    (hfin : b = .finished → s.catalog.userVersion = targetSchemaVersion) :
    Boots.Sound v { s with boot := Function.update s.boot p b } := by
  refine ⟨h.built, h.since, h.once, fun q start rest hq => ?_, fun q hq => ?_⟩
  · by_cases he : q = p
    · subst he
      exact hrun start rest ((Function.update_self q b s.boot).symm.trans hq)
    · exact h.running q start rest ((Function.update_of_ne he b s.boot).symm.trans hq)
  · by_cases he : q = p
    · subst he
      exact hfin ((Function.update_self q b s.boot).symm.trans hq)
    · exact h.finished q ((Function.update_of_ne he b s.boot).symm.trans hq)

omit [DecidableEq ι] in
/-- What a process that has gone through `k` migrations is doing. -/
theorem skip_cases {start k : Nat} (h : start ≤ k) (hk : k ≤ s.catalog.userVersion)
    (hb : s.catalog.Built) :
    (∀ start' rest, Boot.skip start (migrations.drop k) = .running start' rest →
      ∃ j, start' ≤ j ∧ j ≤ s.catalog.userVersion ∧ j < targetSchemaVersion ∧
      rest = migrations.drop j) ∧
    (Boot.skip start (migrations.drop k) = .finished →
      s.catalog.userVersion = targetSchemaVersion) := by
  have hle := schemaOf_le hb
  rw [skip_drop h]
  by_cases hlt : k < targetSchemaVersion
  · rw [if_pos hlt]
    refine ⟨fun start' rest e => ?_, fun e => nomatch e⟩
    cases e
    exact ⟨k, h, hk, hlt, rfl⟩
  · rw [if_neg hlt]
    exact ⟨fun _ _ e => (nomatch e), fun _ => by omega⟩

/-- **Every step keeps the file sound, and moves its version up or not at all.** -/
theorem boots_next (h : s.Sound v) (e : BootEvent ι) :
    (s.next e).Sound v ∧ s.catalog.userVersion ≤ (s.next e).catalog.userVersion := by
  cases e with
  | kill p => exact ⟨h.moved (fun _ _ e => nomatch e) (fun e => nomatch e), Nat.le_refl _⟩
  | step p =>
    show (s.step p).Sound v ∧ s.catalog.userVersion ≤ (s.step p).catalog.userVersion
    unfold Boots.step
    split
    · obtain ⟨hrun, hfin⟩ :=
        skip_cases (s := s) (Nat.le_refl _) (Nat.le_refl s.catalog.userVersion) h.built
      rw [skip_drop (Nat.le_refl _), ← skip_start] at hrun hfin
      exact ⟨h.moved hrun hfin, Nat.le_refl _⟩
    · rename_i start m ms hp
      obtain ⟨k, hstart, hk, hlt, hm, hversion, hms⟩ := h.tries hp
      by_cases hnext : k = s.catalog.userVersion
      · -- the next migration of the file
        subst hnext
        obtain ⟨d, hd, hbuilt, hv⟩ := built_next h.built hm
        rw [hd]
        dsimp only
        refine ⟨?_, by omega⟩
        have hsince := h.since
        have hup :
            Boots.Sound v { s with catalog := d, committed := s.committed ++ [m.version] } := by
          refine ⟨hbuilt, ?_, ?_, fun q start' rest hq => ?_, fun q hq => ?_⟩
          · show v ≤ d.userVersion
            omega
          · show s.committed ++ [m.version] = List.range' (v + 1) (d.userVersion - v)
            rw [h.once, hversion, hv, show s.catalog.userVersion + 1 - v =
              s.catalog.userVersion - v + 1 by omega,
              List.range'_concat]
            congr 2
            omega
          · obtain ⟨j, h1, h2, h3, h4⟩ := h.running q start' rest hq
            exact ⟨j, h1, Nat.le_trans h2 (by show _ ≤ d.userVersion; omega), h3, h4⟩
          · have := h.finished q hq
            omega
        obtain ⟨hrun, hfin⟩ :=
          skip_cases (s := { s with catalog := d, committed := s.committed ++ [m.version] })
            (k := s.catalog.userVersion + 1) (Nat.le_succ_of_le hstart) (Nat.le_of_eq hv.symm)
            hbuilt
        rw [← hms] at hrun hfin
        exact hup.moved hrun hfin
      · rw [built_again h.built (Nat.lt_of_le_of_ne hk hnext) hm]
        exact ⟨h.moved (fun _ _ e => nomatch e) (fun e => nomatch e), Nat.le_refl _⟩
    · exact ⟨h, Nat.le_refl _⟩

/-- No call has thrown. -/
def Boots.NoneFailed (s : Boots ι) : Prop := ∀ p, s.boot p ≠ .failed

/-- **A step fails exactly if the process has been overtaken.** -/
theorem failed_step (h : s.Sound v) (hok : s.NoneFailed) (e : BootEvent ι) :
    (s.next e).NoneFailed ↔ s.ahead e = true := by
  have hmoved : ∀ {p : ι} {b : Boot} {d : Catalog} {l : List Nat}, b ≠ .failed →
      Boots.NoneFailed ⟨d, Function.update s.boot p b, l⟩ := fun {p b d l} hb q => by
    by_cases he : q = p
    · subst he
      exact fun hq => hb ((Function.update_self q b s.boot).symm.trans hq)
    · exact fun hq => hok q ((Function.update_of_ne he b s.boot).symm.trans hq)
  have hskip : ∀ start ms, Boot.skip start ms ≠ .failed := by
    intro start ms
    induction ms with
    | nil => exact fun e => nomatch e
    | cons m ms ih =>
      unfold Boot.skip
      split
      · exact ih
      · exact fun e => nomatch e
  cases e with
  | kill p => exact ⟨fun _ => rfl, fun _ => hmoved fun e => nomatch e⟩
  | step p =>
    show (s.step p).NoneFailed ↔ _
    simp only [Boots.step, Boots.ahead]
    cases hp : s.boot p with
    | waiting => exact ⟨fun _ => rfl, fun _ => hmoved (hskip _ _)⟩
    | finished => exact ⟨fun _ => rfl, fun _ => hok⟩
    | failed => exact ⟨fun _ => rfl, fun _ => hok⟩
    | running start rest =>
      cases rest with
      | nil => exact ⟨fun _ => rfl, fun _ => hok⟩
      | cons m ms =>
        obtain ⟨k, hstart, hk, hlt, hm, hversion, hms⟩ := h.tries hp
        simp only [decide_eq_true_eq, hversion]
        by_cases hnext : k = s.catalog.userVersion
        · subst hnext
          obtain ⟨d, hd, -⟩ := built_next h.built hm
          rw [hd]
          exact ⟨fun _ => rfl, fun _ => hmoved (hskip _ _)⟩
        · rw [built_again h.built (Nat.lt_of_le_of_ne hk hnext) hm]
          exact ⟨fun hno => absurd (Function.update_self p _ s.boot) (hno p),
            fun e => absurd (Nat.succ.inj e) hnext⟩

/-! ## Runs -/

theorem boots_run {d : Catalog} (h : d.Built) (es : List (BootEvent ι)) :
    (run Boots.next (Boots.init d) es : Boots ι).Sound d.userVersion :=
  run_inv (I := Boots.Sound d.userVersion) (fun _ e hs => (boots_next hs e).1) es _ (boots_init h)

theorem version_run : ∀ (es : List (BootEvent ι)) {s : Boots ι}, s.Sound v →
    s.catalog.userVersion ≤ (run Boots.next s es).catalog.userVersion
  | [], _, _ => Nat.le_refl _
  | e :: es, _, h => Nat.le_trans (boots_next h e).2 (version_run es (boots_next h e).1)

/-- No call throws during the run. -/
def Boots.NeverFails (s : Boots ι) (es : List (BootEvent ι)) : Prop :=
  ∀ before after, es = before ++ after → (run Boots.next s before).NoneFailed

theorem neverFails_iff : ∀ (es : List (BootEvent ι)) {s : Boots ι}, s.Sound v → s.NoneFailed →
    (s.NeverFails es ↔ AllSteps Boots.next (fun t e => t.ahead e = true) s es)
  | [], s, _, hok => by
    refine ⟨fun _ => trivial, fun _ before after e => ?_⟩
    rw [(List.append_eq_nil_iff.1 e.symm).1]
    exact hok
  | e :: es, s, h, hok => by
    have hstep := failed_step h hok e
    refine ⟨fun hnever => ?_, fun hahead before after heq => ?_⟩
    · have hok' : (s.next e).NoneFailed := hnever [e] es rfl
      refine ⟨hstep.1 hok',
        (neverFails_iff es (boots_next h e).1 hok').1 fun before after heq => ?_⟩
      exact hnever (e :: before) after (by rw [heq]; rfl)
    · cases before with
      | nil => exact hok
      | cons b before =>
        obtain ⟨rfl, hrest⟩ := List.cons.inj heq
        have hok' := hstep.2 hahead.1
        exact (neverFails_iff es (boots_next h e).1 hok').2 hahead.2 before after hrest

/-- What concurrent and interrupted boots on a file should come to: no call
throws, the version never goes back, each migration after the first version
commits once, in order, and a call that is through leaves what one undisturbed
call leaves. -/
structure Tolerated (d : Catalog) (es : List (BootEvent ι)) : Prop where
  neverFails : (Boots.init d : Boots ι).NeverFails es
  forward : ∀ before after, es = before ++ after →
    (run Boots.next (Boots.init d) before : Boots ι).catalog.userVersion ≤
      (run Boots.next (Boots.init d) es : Boots ι).catalog.userVersion
  once : (run Boots.next (Boots.init d) es : Boots ι).committed = List.range' (d.userVersion + 1)
    ((run Boots.next (Boots.init d) es : Boots ι).catalog.userVersion - d.userVersion)
  through : ∀ p, (run Boots.next (Boots.init d) es : Boots ι).boot p = .finished →
    (run Boots.next (Boots.init d) es : Boots ι).catalog = (runMigrations d).state ∧
      (runMigrations d).result = .ok ()

/-- A call that is through leaves what an undisturbed one leaves. -/
theorem through_run {d : Catalog} (h : d.Built) {es : List (BootEvent ι)} {p : ι}
    (hp : (run Boots.next (Boots.init d) es : Boots ι).boot p = .finished) :
    (run Boots.next (Boots.init d) es : Boots ι).catalog = (runMigrations d).state ∧
    (runMigrations d).result = .ok () := by
  have hs := boots_run (ι := ι) h es
  obtain ⟨hok, hbuilt, hv⟩ := runMigrations_built h
  exact ⟨built_target hs.built hbuilt ((hs.finished p hp).trans hv.symm), hok⟩

/-- **Boots on one file are tolerated exactly if no process is overtaken** on its
way from its read of the version to its last transaction. -/
theorem boots_tolerated (d : Catalog) (h : d.Built) (es : List (BootEvent ι)) :
    Tolerated d es ↔ AllSteps Boots.next (fun t e => t.ahead e = true)
      (Boots.init d : Boots ι) es := by
  have hnever := neverFails_iff es (boots_init (ι := ι) h) fun p e => nomatch e
  refine ⟨fun ht => hnever.1 ht.neverFails,
    fun hahead => ⟨hnever.2 hahead, fun before after e => ?_,
    (boots_run h es).once, fun p hp => through_run h hp⟩⟩
  rw [e, run_append]
  exact version_run after (boots_run h before)

/-- Two processes on a new volume, one after the other. -/
theorem boots_tolerated_twice : Tolerated ⟨.empty, 0⟩
    (List.replicate 8 (.step false) ++ [BootEvent.step true]) :=
  (boots_tolerated ⟨.empty, 0⟩ rfl _).2 (by decide +kernel)

/-- Two processes read the version of a new volume; the second one tries the
migration the first has applied. -/
theorem boots_overtaken : Catalog.Built ⟨.empty, 0⟩ ∧
    ¬ Tolerated ⟨.empty, 0⟩ [BootEvent.step false, .step true, .step false, .step true] := by
  refine ⟨rfl, fun h => h.neverFails _ [] (List.append_nil _).symm true ?_⟩
  decide +kernel

end Boots
end GlanceVault.L2
