import GlanceVault.Core.Prog
/-!
# Programs seen through a part of the state

`π` shows a part of a state. `Matches π m m'`: from states that look the same,
`m` and `m'` have the same result and leave behind states that look the same, at
their ends and after each of their storage steps. The part that `π` hides then
decides nothing that can be seen.

* one rule for each construct; `Matches.bind` is the sequence.
* `Matches.stopAfter`: two runs stopped at the same point look the same.
* `Matches.beside`, `Matches.map`: more can be shown of what both keep.
-/
namespace GlanceVault.Core

/-- What is seen of an outcome. -/
def Outcome.view {σ ε α γ : Type} (π : σ → γ) (o : Outcome σ ε α) : Outcome γ ε α :=
  ⟨o.result, π o.state, o.trace.map π⟩

namespace Prog
variable {σ ε α β γ δ : Type} {π : σ → γ}

def Matches (π : σ → γ) (m m' : Prog σ ε α) : Prop :=
  ∀ s t, π s = π t → (m s).view π = (m' t).view π

theorem Matches.pure (a : α) : Matches π (Pure.pure a : Prog σ ε α) (Pure.pure a) := fun s t h => by
  simp [Outcome.view, h]

theorem Matches.raise (e : ε) :
    Matches π (Prog.raise e : Prog σ ε α) (Prog.raise e) := fun s t h => by
  simp [Outcome.view, h]

theorem Matches.get {f : σ → α} (hf : ∀ s t, π s = π t → f s = f t) :
    Matches π (Prog.get f : Prog σ ε α) (Prog.get f) := fun s t h => by
  simp [Outcome.view, h, hf s t h]

theorem Matches.poke {f g : σ → σ} (hfg : ∀ s t, π s = π t → π (f s) = π (g t)) :
    Matches π (Prog.poke f : Prog σ ε Unit) (Prog.poke g) := fun s t h => by
  simp [Outcome.view, hfg s t h]

/-- A storage step that raises in neither run or in both. -/
theorem Matches.step {f : σ → Except ε (α × σ)}
    (hf : ∀ s t, π s = π t → (f s).map (fun r => (r.1, π r.2)) = (f t).map fun r => (r.1, π r.2)) :
    Matches π (Prog.step f) (Prog.step f) := by
  intro s t h
  have hst := hf s t h
  unfold Prog.step
  cases hs : f s with
  | error e =>
    cases ht : f t with
    | error e' =>
      rw [hs, ht] at hst
      cases hst
      simp [Outcome.view, h]
    | ok r => rw [hs, ht] at hst; cases hst
  | ok r =>
    cases ht : f t with
    | error e' => rw [hs, ht] at hst; cases hst
    | ok r' =>
      obtain ⟨a, s'⟩ := r
      obtain ⟨b, t'⟩ := r'
      rw [hs, ht] at hst
      simp only [Except.map, Except.ok.injEq, Prod.mk.injEq] at hst
      simp [Outcome.view, hst.1, hst.2]

theorem Matches.bind {m m' : Prog σ ε α} {f f' : α → Prog σ ε β} (hm : Matches π m m')
    (hf : ∀ a, Matches π (f a) (f' a)) :
    Matches π (m >>= f) (m' >>= f') := by
  intro s t h
  have hst := hm s t h
  rw [bind_run, bind_run]
  match hs : m s, ht : m' t with
  | ⟨.error e, s', u⟩, ⟨.error e', t', v⟩ =>
    rw [hs, ht] at hst
    simp only [Outcome.view, Outcome.mk.injEq, Except.error.injEq] at hst ⊢
    exact hst
  | ⟨.error e, s', u⟩, ⟨.ok a, t', v⟩ => rw [hs, ht] at hst; cases congrArg Outcome.result hst
  | ⟨.ok a, s', u⟩, ⟨.error e, t', v⟩ => rw [hs, ht] at hst; cases congrArg Outcome.result hst
  | ⟨.ok a, s', u⟩, ⟨.ok b, t', v⟩ =>
    rw [hs, ht] at hst
    simp only [Outcome.view, Outcome.mk.injEq, Except.ok.injEq] at hst
    obtain ⟨rfl, hstate, htrace⟩ := hst
    have hrest := hf a s' t' hstate
    simp only [Outcome.view, Outcome.mk.injEq] at hrest ⊢
    simp only [List.map_append, htrace, hrest, and_self]

theorem Matches.ite {p : Prop} [Decidable p] {m m' n n' : Prog σ ε α} (hm : Matches π m m')
    (hn : Matches π n n') :
    Matches π (if p then m else n) (if p then m' else n') := by
  split
  · exact hm
  · exact hn

theorem Matches.found (o : Option α) (e : ε) :
    Matches π (Prog.found o e : Prog σ ε α) (Prog.found o e) := by
  cases o with
  | none => exact .raise e
  | some a => exact .pure a

theorem Matches.require (b : Bool) (e : ε) :
    Matches π (Prog.require b e : Prog σ ε Unit) (Prog.require b e) := by
  cases b with
  | false => exact .raise e
  | true => exact .pure ()

theorem Matches.ofExcept (x : Except ε α) :
    Matches π (Prog.ofExcept x : Prog σ ε α) (Prog.ofExcept x) := by
  cases x with
  | ok a => exact .pure a
  | error e => exact .raise e

theorem Matches.each {f : β → Prog σ ε Unit} (h : ∀ x, Matches π (f x) (f x)) :
    ∀ xs, Matches π (Prog.each f xs) (Prog.each f xs)
  | [] => .pure ()
  | x :: xs => .bind (h x) fun _ => Matches.each h xs

/-! ## What is seen -/

section Seen
variable {m m' : Prog σ ε α} {s t : σ}

theorem Matches.result (h : Matches π m m') (hst : π s = π t) : (m s).result = (m' t).result := by
  show ((m s).view π).result = ((m' t).view π).result
  rw [h s t hst]

theorem Matches.state (h : Matches π m m') (hst : π s = π t) : π (m s).state = π (m' t).state := by
  show ((m s).view π).state = ((m' t).view π).state
  rw [h s t hst]

/-- **Runs stopped at the same point look the same.** -/
theorem Matches.stopAfter (h : Matches π m m') (hst : π s = π t) (n : Nat) :
    π (m.stopAfter n s) = π (m'.stopAfter n t) := by
  cases n with
  | zero => exact hst
  | succ n =>
    have htrace : ((m s).trace.map π)[n]? = ((m' t).trace.map π)[n]? :=
      congrArg (fun o : Outcome γ ε α => o.trace[n]?) (h s t hst)
    rw [List.getElem?_map, List.getElem?_map] at htrace
    simp only [Prog.stopAfter]
    cases hs : (m s).trace[n]? with
    | none =>
      cases ht : (m' t).trace[n]? with
      | none => exact h.state hst
      | some v => rw [hs, ht] at htrace; cases htrace
    | some u =>
      cases ht : (m' t).trace[n]? with
      | none => rw [hs, ht] at htrace; cases htrace
      | some v =>
        rw [hs, ht] at htrace
        exact Option.some.inj htrace

/-- A part that both keep may be shown as well. -/
theorem Matches.beside {ρ : σ → δ} (h : Matches π m m') (hm : Keeps ρ m) (hm' : Keeps ρ m') :
    Matches (fun s => (π s, ρ s)) m m' := by
  intro s t hst
  obtain ⟨hπ, hρ⟩ := Prod.mk.inj hst
  have hview := h s t hπ
  obtain ⟨hend, htrace⟩ := hm s
  obtain ⟨hend', htrace'⟩ := hm' t
  simp only [Outcome.view, Outcome.mk.injEq] at hview ⊢
  have hpair : ∀ (l : List σ) (d : δ), (∀ x ∈ l, ρ x = d) →
      l.map (fun x => (π x, ρ x)) = (l.map π).map fun c => (c, d) := by
    intro l d hl
    rw [List.map_map]
    exact List.map_congr_left fun x hx => by rw [Function.comp, hl x hx]
  refine ⟨hview.1, by rw [hview.2.1, hend, hend', hρ], ?_⟩
  rw [hpair _ _ htrace, hpair _ _ htrace', hview.2.2, hρ]

/-- The same part, shown in another form. -/
theorem Matches.map (g : γ → δ) (h : Matches π m m') (hg : ∀ s t, g (π s) = g (π t) → π s = π t) :
    Matches (fun s => g (π s)) m m' := by
  intro s t hst
  have hview := congrArg (fun o : Outcome γ ε α => o.view g) (h s t (hg s t hst))
  simpa [Outcome.view, Function.comp_def] using hview

end Seen

end Prog
end GlanceVault.Core
