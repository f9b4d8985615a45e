import Mathlib.Data.List.Induction
/-!
# Runs of a deterministic step function

A system is a total `step : σ → ε → σ` over events; a run is a list of
events and `run` the state it ends in. A prefix of a run is a run, so "in
every reachable state" is "after every list of events".

* `run_inv`: an invariant that every step preserves holds after every run.
* `run_inv_of`: the same for the runs all of whose steps meet a condition on
  the state they start from (`AllSteps`).
* `run_became`: what holds at the end of a run and not at its start came to hold
  by some step and has held since.
* `purge`: the unwinding theorem. If the events of one observer act alike on
  related states and the other events do not move the relation, then a run
  and the run with the other events struck out stay related and answer the
  observer's events alike.
-/
namespace GlanceVault.Core

section Run
variable {σ ε : Type}

def run (step : σ → ε → σ) (s : σ) (es : List ε) : σ := es.foldl step s

@[simp] theorem run_nil (step : σ → ε → σ) (s : σ) : run step s [] = s := rfl

@[simp] theorem run_cons (step : σ → ε → σ) (s : σ) (e : ε) (es : List ε) :
    run step s (e :: es) = run step (step s e) es := rfl

theorem run_append (step : σ → ε → σ) (s : σ) (es fs : List ε) :
    run step s (es ++ fs) = run step (run step s es) fs := List.foldl_append

/-- Every step of the run meets `ok` in the state it is taken from. -/
def AllSteps (step : σ → ε → σ) (ok : σ → ε → Prop) : σ → List ε → Prop
  | _, [] => True
  | s, e :: es => ok s e ∧ AllSteps step ok (step s e) es

instance instDecidableAllSteps {step : σ → ε → σ} {ok : σ → ε → Prop} [∀ s e, Decidable (ok s e)] :
    ∀ (s : σ) (es : List ε), Decidable (AllSteps step ok s es)
  | _, [] => .isTrue trivial
  | s, e :: es =>
    have : Decidable (AllSteps step ok (step s e) es) := instDecidableAllSteps (step s e) es
    inferInstanceAs (Decidable (ok s e ∧ AllSteps step ok (step s e) es))

theorem AllSteps.mono {step : σ → ε → σ} {ok ok' : σ → ε → Prop} (h : ∀ s e, ok s e → ok' s e) :
    ∀ {es : List ε} {s : σ}, AllSteps step ok s es → AllSteps step ok' s es
  | [], _, _ => trivial
  | _ :: _, _, hs => ⟨h _ _ hs.1, hs.2.mono h⟩

/-- What holds of the events at every state holds of every step. -/
theorem allSteps_mem {step : σ → ε → σ} {ok : σ → ε → Prop} :
    ∀ (es : List ε) (s : σ), (∀ e ∈ es, ∀ s, ok s e) → AllSteps step ok s es
  | [], _, _ => trivial
  | e :: es, s, h =>
    ⟨h e List.mem_cons_self s, allSteps_mem es _ fun f hf => h f (List.mem_cons_of_mem _ hf)⟩

theorem allSteps_of {step : σ → ε → σ} {ok : σ → ε → Prop} (h : ∀ s e, ok s e) :
    ∀ (es : List ε) (s : σ), AllSteps step ok s es
  | [], _ => trivial
  | e :: es, s => ⟨h s e, allSteps_of h es _⟩

/-- Conditions that agree under an invariant. -/
theorem allSteps_congr {step : σ → ε → σ} {ok ok' : σ → ε → Prop} {I : σ → Prop}
    (hstep : ∀ s e, I s → I (step s e)) (h : ∀ s e, I s → (ok s e ↔ ok' s e)) :
    ∀ (es : List ε) (s : σ), I s → (AllSteps step ok s es ↔ AllSteps step ok' s es)
  | [], _, _ => Iff.rfl
  | e :: es, s, hs => and_congr (h s e hs) (allSteps_congr hstep h es (step s e) (hstep s e hs))

theorem allSteps_append {step : σ → ε → σ} {ok : σ → ε → Prop} {fs : List ε} :
    ∀ {es : List ε} {s : σ},
    AllSteps step ok s (es ++ fs) ↔ AllSteps step ok s es ∧ AllSteps step ok (run step s es) fs
  | [], _ => ⟨fun h => ⟨trivial, h⟩, fun h => h.2⟩
  | e :: es, s => by
    rw [List.cons_append, AllSteps, AllSteps, allSteps_append, run_cons, and_assoc]

theorem run_inv_of {step : σ → ε → σ} {ok : σ → ε → Prop} {I : σ → Prop}
    (hstep : ∀ s e, ok s e → I s → I (step s e)) :
    ∀ (es : List ε) (s : σ), AllSteps step ok s es → I s → I (run step s es)
  | [], _, _, h => h
  | e :: es, s, hs, h => run_inv_of hstep es (step s e) hs.2 (hstep s e hs.1 h)

theorem run_inv {step : σ → ε → σ} {I : σ → Prop} (hstep : ∀ s e, I s → I (step s e)) (es : List ε)
    (s : σ) (h : I s) : I (run step s es) :=
  run_inv_of (fun s e (_ : True) => hstep s e) es s (allSteps_of (fun _ _ => trivial) es s) h

theorem run_became {step : σ → ε → σ} {P : σ → Prop} {s : σ} (h0 : ¬ P s) :
    ∀ es : List ε, P (run step s es) →
    ∃ before e after, es = before ++ e :: after ∧ ¬ P (run step s before) ∧
      ∀ p, p <+: after → P (run step s (before ++ e :: p)) := by
  intro es
  induction es using List.reverseRecOn with
  | nil => exact fun h => absurd h h0
  | append_singleton es x ih =>
    intro h
    by_cases hp : P (run step s es)
    · obtain ⟨before, e, after, rfl, hb, hafter⟩ := ih hp
      refine ⟨before, e, after ++ [x], by simp, hb, fun p hp => ?_⟩
      rcases List.prefix_concat_iff.1 hp with rfl | hp
      · simpa using h
      · exact hafter p hp
    · refine ⟨es, x, [], rfl, hp, fun p hp => ?_⟩
      rw [List.prefix_nil.1 hp]
      exact h

end Run

/-! ## Noninterference -/

section Purge
variable {σ ε ω : Type}

/-- The answers to the events `obs` observes, in order. -/
def answers (step : σ → ε → σ × ω) (obs : ε → Bool) : σ → List ε → List ω
  | _, [] => []
  | s, e :: es =>
    if obs e then (step s e).2 :: answers step obs (step s e).1 es
    else answers step obs (step s e).1 es

/-- **Unwinding.** `R s t`: the observer cannot tell `s` from `t`; `Ok s es`:
what is assumed of the rest of a run from `s`. -/
theorem purge {step : σ → ε → σ × ω} {obs : ε → Bool} {R : σ → σ → Prop} {Ok : σ → List ε → Prop}
    (hok : ∀ s e es, Ok s (e :: es) → Ok (step s e).1 es)
    (hobs : ∀ s t e es fs, Ok s (e :: es) → Ok t (e :: fs) → obs e = true → R s t →
      (step s e).2 = (step t e).2 ∧ R (step s e).1 (step t e).1)
    (hleft : ∀ s t e es, Ok s (e :: es) → obs e = false → R s t → R (step s e).1 t)
    (hright : ∀ s t e es, Ok t (e :: es) → obs e = false → R s t → R s (step t e).1) :
    ∀ (es fs : List ε) (s t : σ), Ok s es → Ok t fs → es.filter obs = fs.filter obs → R s t →
      answers step obs s es = answers step obs t fs ∧
        R (run (fun s e => (step s e).1) s es) (run (fun s e => (step s e).1) t fs) := by
  intro es
  induction es with
  | nil =>
    intro fs
    induction fs with
    | nil => intro s t _ _ _ h; exact ⟨rfl, h⟩
    | cons f fs ih =>
      intro s t hs ht hf h
      cases ho : obs f
      · have hf' : ([] : List ε).filter obs = fs.filter obs := by
          simpa [List.filter_cons, ho] using hf
        simpa [answers, ho] using ih s _ hs (hok t f fs ht) hf' (hright s t f fs ht ho h)
      · simp [ho] at hf
  | cons e es ihe =>
    intro fs s t hs ht hf h
    cases ho : obs e
    · have hf' : es.filter obs = fs.filter obs := by simpa [List.filter_cons, ho] using hf
      simpa [answers, ho] using ihe fs _ t (hok s e es hs) ht hf' (hleft s t e es hs ho h)
    · induction fs generalizing t with
      | nil => simp [ho] at hf
      | cons f fs ihf =>
        cases hof : obs f
        · have hf' : (e :: es).filter obs = fs.filter obs := by
            simpa [List.filter_cons, hof] using hf
          simpa [answers, hof] using ihf (step t f).1 (hok t f fs ht) hf' (hright s t f fs ht hof h)
        · simp only [List.filter_cons, ho, hof, if_true, List.cons.injEq] at hf
          obtain ⟨rfl, hf⟩ := hf
          obtain ⟨h1, h2⟩ := hobs s t e es fs hs ht ho h
          have := ihe fs _ _ (hok s e es hs) (hok t e fs ht) hf h2
          simpa [answers, ho, h1] using this

end Purge
end GlanceVault.Core
