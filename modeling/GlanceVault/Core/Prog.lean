/-!
# Programs over durable storage, with crash points

A `Prog σ ε α` runs on a state `σ`, returns an `α` or aborts with an `ε` (an
early response, an exception; what was written before stays written), and
lists every state it leaves behind after one of its storage steps
(`Outcome.trace`). The process may stop between any two storage steps: then
the state is the initial one or one of the trace.

* `Triple C P m Q E`: from `P`, every storage step of `m` leaves a state in
  `C`, a normal end satisfies `Q`, an abort `E` (a Hoare triple with a crash
  condition).
* `Keeps π m`: no step of `m` changes the part `π` of the state.
* `Raises P m`: when `m` aborts, it is with an `e` of which `P` holds.
* `Twin P m Q E`: from `P`-related states `m` has the same result, a normal
  end is `Q`-related, an abort `E`-related (the relational triple behind
  noninterference); `Same R m`: with one relation throughout.
-/
namespace GlanceVault.Core

structure Outcome (σ ε α : Type) where
  result : Except ε α
  state : σ
  trace : List σ

def Prog (σ ε α : Type) : Type := σ → Outcome σ ε α

namespace Prog

variable {σ ε α β γ : Type}

protected def pure (a : α) : Prog σ ε α := fun s => ⟨.ok a, s, []⟩

protected def bind (m : Prog σ ε α) (f : α → Prog σ ε β) : Prog σ ε β := fun s =>
  match m s with
  | ⟨.ok a, s', t⟩ => ⟨(f a s').result, (f a s').state, t ++ (f a s').trace⟩
  | ⟨.error e, s', t⟩ => ⟨.error e, s', t⟩

instance : Monad (Prog σ ε) where
  pure := Prog.pure
  bind := Prog.bind

/-- Stop here with `e`. -/
def raise (e : ε) : Prog σ ε α := fun s => ⟨.error e, s, []⟩

def ofExcept : Except ε α → Prog σ ε α
  | .ok a => Pure.pure a
  | .error e => raise e

/-- Go on only if `b`. -/
def require (b : Bool) (e : ε) : Prog σ ε Unit := if b then Pure.pure () else raise e

/-- Go on with the value, if there is one. -/
def found (o : Option α) (e : ε) : Prog σ ε α :=
  match o with
  | some a => Pure.pure a
  | none => raise e

def get (f : σ → α) : Prog σ ε α := fun s => ⟨.ok (f s), s, []⟩

/-- One storage step; a step that raises leaves the state alone. -/
def step (f : σ → Except ε (α × σ)) : Prog σ ε α := fun s =>
  match f s with
  | .ok (a, s') => ⟨.ok a, s', [s']⟩
  | .error e => ⟨.error e, s, []⟩

/-- A change of the volatile part of the state: not a storage step. -/
def poke (f : σ → σ) : Prog σ ε Unit := fun s => ⟨.ok (), f s, []⟩

/-- `for x of xs` -/
def each (f : β → Prog σ ε Unit) : List β → Prog σ ε Unit
  | [] => Pure.pure ()
  | x :: xs => do f x; each f xs

/-- The state after the first `n` storage steps (the final one when there
are fewer): what a process stopped there leaves behind. -/
def stopAfter (m : Prog σ ε α) (n : Nat) (s : σ) : σ :=
  match n with
  | 0 => s
  | n + 1 => ((m s).trace[n]?).getD (m s).state

theorem stopAfter_cases (m : Prog σ ε α) (n : Nat) (s : σ) :
    m.stopAfter n s = s ∨ m.stopAfter n s ∈ (m s).trace ∨ m.stopAfter n s = (m s).state := by
  cases n with
  | zero => exact .inl rfl
  | succ n =>
    simp only [stopAfter]
    cases h : (m s).trace[n]? with
    | none => exact .inr (.inr rfl)
    | some t => exact .inr (.inl (List.mem_of_getElem? h))

/-! ## Evaluation -/

@[simp] theorem pure_run (a : α) (s : σ) : (Pure.pure a : Prog σ ε α) s = ⟨.ok a, s, []⟩ := rfl

theorem bind_run (m : Prog σ ε α) (f : α → Prog σ ε β) (s : σ) : (m >>= f) s =
    match m s with
    | ⟨.ok a, s', t⟩ => ⟨(f a s').result, (f a s').state, t ++ (f a s').trace⟩
    | ⟨.error e, s', t⟩ => ⟨.error e, s', t⟩ := rfl

@[simp] theorem raise_run (e : ε) (s : σ) : (raise e : Prog σ ε α) s = ⟨.error e, s, []⟩ := rfl

@[simp] theorem get_run (f : σ → α) (s : σ) : (get f : Prog σ ε α) s = ⟨.ok (f s), s, []⟩ := rfl

@[simp] theorem poke_run (f : σ → σ) (s : σ) : (poke f : Prog σ ε Unit) s = ⟨.ok (), f s, []⟩ := rfl

@[simp] theorem get_bind (f : σ → α) (g : α → Prog σ ε β) (s : σ) :
    (get f >>= g) s = g (f s) s := rfl

@[simp] theorem raise_bind (e : ε) (g : α → Prog σ ε β) :
    (raise e >>= g : Prog σ ε β) = raise e := rfl

@[simp] theorem pure_bind (a : α) (g : α → Prog σ ε β) :
    (Pure.pure a >>= g : Prog σ ε β) = g a := rfl

theorem bind_assoc (m : Prog σ ε α) (f : α → Prog σ ε β) (g : β → Prog σ ε γ) :
    (m >>= f) >>= g = m >>= fun a => f a >>= g := by
  funext s
  rw [bind_run, bind_run, bind_run]
  match m s with
  | ⟨.error e, s', t⟩ => rfl
  | ⟨.ok a, s', t⟩ =>
    simp only [bind_run]
    match f a s' with
    | ⟨.error e, s'', t'⟩ => rfl
    | ⟨.ok b, s'', t'⟩ => simp

/-- After a normal end the rest goes on. -/
theorem bind_ok {m : Prog σ ε α} {s : σ} {a : α} (h : (m s).result = .ok a) (f : α → Prog σ ε β) :
    ((m >>= f) s).result = (f a (m s).state).result ∧ ((m >>= f) s).state =
    (f a (m s).state).state := by
  rw [bind_run]
  match hm : m s with
  | ⟨.ok b, s', t⟩ =>
    rw [hm] at h
    cases h
    exact ⟨rfl, rfl⟩
  | ⟨.error e, s', t⟩ => rw [hm] at h; cases h

/-- A loop whose steps end is a fold of what they do. -/
theorem each_run {f : β → Prog σ ε Unit} {g : σ → β → σ} : ∀ (xs : List β) (s : σ),
    (∀ x ∈ xs, ∀ s, (f x s).result = .ok () ∧ (f x s).state = g s x) →
      (each f xs s).result = .ok () ∧ (each f xs s).state = xs.foldl g s
  | [], s, _ => ⟨rfl, rfl⟩
  | x :: xs, s, h => by
    obtain ⟨hok, hstate⟩ := h x List.mem_cons_self s
    obtain ⟨hresult, hend⟩ := bind_ok hok fun _ => each f xs
    obtain ⟨hrest, hfold⟩ := each_run xs (g s x) fun y hy => h y (List.mem_cons_of_mem _ hy)
    rw [hstate] at hresult hend
    exact ⟨hresult.trans hrest, hend.trans hfold⟩

theorem bind_trace {m : Prog σ ε α} {s : σ} {a : α} (h : (m s).result = .ok a)
    (f : α → Prog σ ε β) :
    ((m >>= f) s).trace = (m s).trace ++ (f a (m s).state).trace := by
  rw [bind_run]
  match hm : m s with
  | ⟨.ok b, s', t⟩ =>
    rw [hm] at h
    cases h
    rfl
  | ⟨.error e, s', t⟩ => rw [hm] at h; cases h

theorem bind_run_congr {m m' : Prog σ ε α} {s : σ} (h : m s = m' s) (f : α → Prog σ ε β) :
    (m >>= f) s = (m' >>= f) s := by
  rw [bind_run, bind_run, h]

/-- What only looks at the state. -/
theorem bind_look {m : Prog σ ε α} {s : σ} {a : α} (h : m s = ⟨.ok a, s, []⟩) (f : α → Prog σ ε β) :
    (m >>= f) s = f a s := by
  rw [bind_run, h]
  simp only [List.nil_append]

/-! ## Stopping -/

theorem stopAfter_all {m : Prog σ ε α} {n : Nat} {s : σ} (h : (m s).trace.length < n) :
    m.stopAfter n s = (m s).state := by
  cases n with
  | zero => omega
  | succ n =>
    simp only [stopAfter]
    rw [List.getElem?_eq_none (by omega), Option.getD_none]

theorem stopAfter_get_bind (f : σ → α) (g : α → Prog σ ε β) (n : Nat) (s : σ) :
    (get f >>= g).stopAfter n s = (g (f s)).stopAfter n s := by
  cases n <;> rfl

theorem stopAfter_congr {m m' : Prog σ ε α} {s : σ} (h : m s = m' s) (n : Nat) :
    m.stopAfter n s = m'.stopAfter n s := by
  cases n with
  | zero => rfl
  | succ n => simp only [stopAfter, h]

/-- A sequence is stopped in its first part, or in the rest. -/
theorem stopAfter_bind {m : Prog σ ε α} {s : σ} {a : α} (h : (m s).result = .ok a)
    (f : α → Prog σ ε β) (n : Nat) :
    (m >>= f).stopAfter n s = if n ≤ (m s).trace.length then m.stopAfter n s
      else (f a).stopAfter (n - (m s).trace.length) (m s).state := by
  cases n with
  | zero => rfl
  | succ n =>
    simp only [stopAfter, bind_run]
    match hm : m s with
    | ⟨.error e, s', t⟩ => rw [hm] at h; cases h
    | ⟨.ok b, s', t⟩ =>
      rw [hm] at h
      cases h
      by_cases hn : n + 1 ≤ t.length
      · rw [if_pos hn, List.getElem?_append_left hn, List.getElem?_eq_getElem hn]
        rfl
      · have hsub : n + 1 - t.length = (n - t.length) + 1 := by omega
        rw [if_neg hn, hsub, List.getElem?_append_right (by omega)]

/-- What is computed from the result at the end is not a storage step. -/
theorem stopAfter_bind_pure (m : Prog σ ε α) (g : α → β) (n : Nat) (s : σ) :
    (m >>= fun a => Pure.pure (g a)).stopAfter n s = m.stopAfter n s := by
  cases n with
  | zero => rfl
  | succ n =>
    simp only [stopAfter, bind_run]
    match m s with
    | ⟨.ok a, s', t⟩ => simp
    | ⟨.error e, s', t⟩ => rfl

theorem state_bind_pure (m : Prog σ ε α) (g : α → β) (s : σ) :
    (m >>= fun a => Pure.pure (g a)) s =
      ⟨(m s).result.map g, (m s).state, (m s).trace⟩ := by
  rw [bind_run]
  match m s with
  | ⟨.ok a, s', t⟩ => simp [Except.map]
  | ⟨.error e, s', t⟩ => rfl

/-! ## Hoare triples with a crash condition -/

def Triple (C P : σ → Prop) (m : Prog σ ε α) (Q : α → σ → Prop) (E : σ → Prop) : Prop :=
  ∀ s, P s → (∀ t ∈ (m s).trace, C t) ∧
    match (m s).result with
    | .ok a => Q a (m s).state
    | .error _ => E (m s).state

section Triple
variable {C P P' : σ → Prop} {Q Q' : α → σ → Prop} {R : β → σ → Prop} {E : σ → Prop}

theorem Triple.pure {a : α} (h : ∀ s, P s → Q a s) : Triple C P (Pure.pure a : Prog σ ε α) Q E :=
  fun s hs => ⟨by simp, h s hs⟩

theorem Triple.raise {e : ε} (h : ∀ s, P s → E s) : Triple C P (Prog.raise e : Prog σ ε α) Q E :=
  fun s hs => ⟨by simp, h s hs⟩

theorem Triple.get {f : σ → α} (h : ∀ s, P s → Q (f s) s) :
    Triple C P (Prog.get f : Prog σ ε α) Q E :=
  fun s hs => ⟨by simp, h s hs⟩

theorem Triple.poke {f : σ → σ} {Q : Unit → σ → Prop} (h : ∀ s, P s → Q () (f s)) :
    Triple C P (Prog.poke f : Prog σ ε Unit) Q E :=
  fun s hs => ⟨by simp, h s hs⟩

theorem Triple.step {f : σ → Except ε (α × σ)}
    (hok : ∀ s a s', P s → f s = .ok (a, s') → C s' ∧ Q a s') (herr : ∀ s, P s → E s) :
    Triple C P (Prog.step f) Q E := by
  intro s hs
  unfold Prog.step
  cases h : f s with
  | error e => exact ⟨by simp, herr s hs⟩
  | ok r =>
    obtain ⟨a, s'⟩ := r
    have := hok s a s' hs h
    exact ⟨by simpa using this.1, this.2⟩

theorem Triple.ofExcept {x : Except ε α} (hok : ∀ a s, x = .ok a → P s → Q a s)
    (herr : ∀ s, P s → E s) :
    Triple C P (Prog.ofExcept x : Prog σ ε α) Q E := by
  cases x with
  | ok a => exact Triple.pure fun s hs => hok a s rfl hs
  | error e => exact Triple.raise herr

theorem Triple.require {b : Bool} {e : ε} {Q : Unit → σ → Prop} (hok : b = true → ∀ s, P s → Q () s)
    (herr : ∀ s, P s → E s) : Triple C P (Prog.require b e : Prog σ ε Unit) Q E := by
  cases b with
  | true => exact Triple.pure (hok rfl)
  | false => exact Triple.raise herr

theorem Triple.found {o : Option α} {e : ε} (hok : ∀ a, o = some a → ∀ s, P s → Q a s)
    (herr : ∀ s, P s → E s) : Triple C P (Prog.found o e : Prog σ ε α) Q E := by
  cases o with
  | some a => exact Triple.pure (hok a rfl)
  | none => exact Triple.raise herr

theorem Triple.bind {m : Prog σ ε α} {f : α → Prog σ ε β} (hm : Triple C P m Q E)
    (hf : ∀ a, Triple C (Q a) (f a) R E) : Triple C P (m >>= f) R E := by
  intro s hs
  rw [bind_run]
  obtain ⟨h1, h2⟩ := hm s hs
  match hr : m s with
  | ⟨.error e, s', t⟩ => rw [hr] at h1 h2; exact ⟨h1, h2⟩
  | ⟨.ok a, s', t⟩ =>
    rw [hr] at h1 h2
    obtain ⟨h3, h4⟩ := hf a s' h2
    refine ⟨fun u hu => ?_, h4⟩
    rcases List.mem_append.1 hu with hu | hu
    · exact h1 u hu
    · exact h3 u hu

theorem Triple.conseq {m : Prog σ ε α} (h : Triple C P m Q E) (hp : ∀ s, P' s → P s)
    (hq : ∀ a s, Q a s → Q' a s) : Triple C P' m Q' E := by
  intro s hs
  obtain ⟨h1, h2⟩ := h s (hp s hs)
  refine ⟨h1, ?_⟩
  cases hr : (m s).result with
  | ok a => rw [hr] at h2; exact hq a _ h2
  | error e => rw [hr] at h2; exact h2

theorem Triple.pre {m : Prog σ ε α} (h : Triple C P m Q E) (hp : ∀ s, P' s → P s) :
    Triple C P' m Q E :=
  h.conseq hp fun _ _ hq => hq

theorem Triple.abort {E' : σ → Prop} {m : Prog σ ε α} (h : Triple C P m Q E)
    (he : ∀ s, E s → E' s) : Triple C P m Q E' := by
  intro s hs
  obtain ⟨h1, h2⟩ := h s hs
  refine ⟨h1, ?_⟩
  cases hr : (m s).result with
  | ok a => rw [hr] at h2; exact h2
  | error e => rw [hr] at h2; exact he _ h2

theorem Triple.crash {C' : σ → Prop} {m : Prog σ ε α} (h : Triple C P m Q E)
    (hc : ∀ s, C s → C' s) : Triple C' P m Q E :=
  fun s hs => ⟨fun t ht => hc t ((h s hs).1 t ht), (h s hs).2⟩

theorem Triple.ite {p : Prop} [Decidable p] {m n : Prog σ ε α} (hm : p → Triple C P m Q E)
    (hn : ¬ p → Triple C P n Q E) : Triple C P (if p then m else n) Q E := by
  split
  · rename_i h; exact hm h
  · rename_i h; exact hn h

/-- A loop: `I done` holds when the elements of `done` have been treated. -/
theorem Triple.each {f : β → Prog σ ε Unit} {xs : List β} {I : List β → σ → Prop}
    (h : ∀ done x rest, xs = done ++ x :: rest →
      Triple C (I done) (f x) (fun _ => I (done ++ [x])) E) :
    Triple C (I []) (Prog.each f xs) (fun _ => I xs) E := by
  have go : ∀ (rest done : List β), xs = done ++ rest →
      Triple C (I done) (Prog.each f rest) (fun _ => I xs) E := by
    intro rest
    induction rest with
    | nil =>
      intro done e
      exact Triple.pure fun s hs => by rw [e, List.append_nil]; exact hs
    | cons x rest ih =>
      intro done e
      exact (h done x rest e).bind fun _ => ih (done ++ [x]) (by simp [e])
  exact go xs [] rfl

/-- What every storage step of `m` and its end leave, a stop at any point does. -/
theorem Triple.stopped {m : Prog σ ε α} {I : σ → Prop} (h : Triple I P m (fun _ => I) I) {s : σ}
    (hp : P s) (hs : I s) (n : Nat) : I (m.stopAfter n s) := by
  obtain ⟨h1, h2⟩ := h s hp
  rcases m.stopAfter_cases n s with e | e | e
  · rw [e]; exact hs
  · exact h1 _ e
  · rw [e]; cases hr : (m s).result <;> rw [hr] at h2 <;> exact h2

/-- A state predicate that every storage step of `m` and its end preserve
survives a stop at any point. -/
theorem Triple.stopAfter {m : Prog σ ε α} {I : σ → Prop} (h : Triple I I m (fun _ => I) I) {s : σ}
    (hs : I s) (n : Nat) : I (m.stopAfter n s) := h.stopped hs hs n

theorem Triple.state {m : Prog σ ε α} {I : σ → Prop} (h : Triple C P m (fun _ => I) I) {s : σ}
    (hs : P s) : I (m s).state := by
  obtain ⟨-, h2⟩ := h s hs
  cases hr : (m s).result <;> rw [hr] at h2 <;> exact h2

/-- A triple about the ends only. -/
abbrev Lands (P : σ → Prop) (m : Prog σ ε α) (Q : α → σ → Prop) (E : σ → Prop) : Prop :=
  Triple (fun _ => True) P m Q E

/-- A triple about normal ends only. -/
abbrev Ends (P : σ → Prop) (m : Prog σ ε α) (Q : α → σ → Prop) : Prop :=
  Triple (fun _ => True) P m Q fun _ => True

theorem Triple.any (m : Prog σ ε α) : Ends P m fun _ _ => True := by
  intro s _
  refine ⟨fun _ _ => trivial, ?_⟩
  cases (m s).result <;> trivial

theorem Ends.result {m : Prog σ ε α} (h : Ends P m Q) {s : σ} (hs : P s) {a : α}
    (hr : (m s).result = .ok a) :
    Q a (m s).state := by
  have h2 := (h s hs).2
  rw [hr] at h2
  exact h2

end Triple

/-! ## Frames -/

def Keeps (π : σ → γ) (m : Prog σ ε α) : Prop :=
  ∀ s, π (m s).state = π s ∧ ∀ t ∈ (m s).trace, π t = π s

section Keeps
variable {π : σ → γ}

theorem Keeps.pure (a : α) : Keeps π (Pure.pure a : Prog σ ε α) := fun _ => ⟨rfl, by simp⟩

theorem Keeps.raise (e : ε) : Keeps π (Prog.raise e : Prog σ ε α) := fun _ => ⟨rfl, by simp⟩

theorem Keeps.get (f : σ → α) : Keeps π (Prog.get f : Prog σ ε α) := fun _ => ⟨rfl, by simp⟩

theorem Keeps.poke {f : σ → σ} (h : ∀ s, π (f s) = π s) : Keeps π (Prog.poke f : Prog σ ε Unit) :=
  fun s => ⟨h s, by simp⟩

theorem Keeps.ofExcept (x : Except ε α) : Keeps π (Prog.ofExcept x : Prog σ ε α) := by
  cases x with
  | ok a => exact .pure a
  | error e => exact .raise e

theorem Keeps.require (b : Bool) (e : ε) : Keeps π (Prog.require b e : Prog σ ε Unit) := by
  cases b
  · exact .raise e
  · exact .pure ()

theorem Keeps.found (o : Option α) (e : ε) : Keeps π (Prog.found o e : Prog σ ε α) := by
  cases o with
  | some a => exact .pure a
  | none => exact .raise e

theorem Keeps.step {f : σ → Except ε (α × σ)} (h : ∀ s a s', f s = .ok (a, s') → π s' = π s) :
    Keeps π (Prog.step f) := by
  intro s
  unfold Prog.step
  cases hf : f s with
  | error e => exact ⟨rfl, by simp⟩
  | ok r =>
    obtain ⟨a, s'⟩ := r
    exact ⟨h s a s' hf, by simpa using h s a s' hf⟩

theorem Keeps.bind {m : Prog σ ε α} {f : α → Prog σ ε β} (hm : Keeps π m)
    (hf : ∀ a, Keeps π (f a)) :
    Keeps π (m >>= f) := by
  intro s
  rw [bind_run]
  obtain ⟨h1, h2⟩ := hm s
  match hr : m s with
  | ⟨.error e, s', t⟩ => rw [hr] at h1 h2; exact ⟨h1, h2⟩
  | ⟨.ok a, s', t⟩ =>
    rw [hr] at h1 h2
    obtain ⟨h3, h4⟩ := hf a s'
    refine ⟨h3.trans h1, fun u hu => ?_⟩
    rcases List.mem_append.1 hu with hu | hu
    · exact h2 u hu
    · exact (h4 u hu).trans h1

/-- A read whose value is looked at. -/
theorem Keeps.read {f : σ → α} {g : α → Prog σ ε β} (h : ∀ s, Keeps π (g (f s))) :
    Keeps π (Prog.get f >>= g) :=
  fun s => h s s

theorem Keeps.ite {p : Prop} [Decidable p] {m n : Prog σ ε α} (hm : Keeps π m) (hn : Keeps π n) :
    Keeps π (if p then m else n) := by
  split
  · exact hm
  · exact hn

theorem Keeps.each {f : β → Prog σ ε Unit} (h : ∀ x, Keeps π (f x)) (xs : List β) :
    Keeps π (Prog.each f xs) := by
  induction xs with
  | nil => exact .pure ()
  | cons x xs ih => exact (h x).bind fun _ => ih

/-- A frame turns a property of the kept part into a triple. -/
theorem Keeps.triple {m : Prog σ ε α} (h : Keeps π m) (I : γ → Prop) :
    Triple (fun s => I (π s)) (fun s => I (π s)) m (fun _ s => I (π s)) (fun s => I (π s)) := by
  intro s hs
  obtain ⟨h1, h2⟩ := h s
  refine ⟨fun t ht => by show I (π t); rw [h2 t ht]; exact hs, ?_⟩
  cases (m s).result <;> (dsimp only; rw [h1]; exact hs)

theorem Keeps.lands {m : Prog σ ε α} (h : Keeps π m) (I : γ → Prop) :
    Lands (fun s => I (π s)) m (fun _ s => I (π s)) fun s => I (π s) := by
  intro s hs
  have hk : I (π (m s).state) := by rw [(h s).1]; exact hs
  refine ⟨fun _ _ => trivial, ?_⟩
  cases (m s).result <;> exact hk

theorem Keeps.ends {m : Prog σ ε α} (h : Keeps π m) (I : γ → Prop) :
    Ends (fun s => I (π s)) m fun _ s => I (π s) := by
  intro s hs
  refine ⟨fun _ _ => trivial, ?_⟩
  have hk : I (π (m s).state) := by rw [(h s).1]; exact hs
  cases (m s).result with
  | ok a => exact hk
  | error e => trivial

theorem Keeps.stopAfter {m : Prog σ ε α} (h : Keeps π m) (n : Nat) (s : σ) :
    π (m.stopAfter n s) = π s := by
  rcases m.stopAfter_cases n s with e | e | e
  · rw [e]
  · exact (h s).2 _ e
  · rw [e]; exact (h s).1

end Keeps

/-! ## Aborts -/

def Raises (P : ε → Prop) (m : Prog σ ε α) : Prop := ∀ s e, (m s).result = .error e → P e

section Raises
variable {P : ε → Prop}

theorem Raises.pure (a : α) : Raises P (Pure.pure a : Prog σ ε α) := fun _ _ h => nomatch h

theorem Raises.raise {e : ε} (h : P e) : Raises P (Prog.raise e : Prog σ ε α) := by
  intro s x hx
  cases hx
  exact h

theorem Raises.get (f : σ → α) : Raises P (Prog.get f : Prog σ ε α) := fun _ _ h => nomatch h

theorem Raises.step {f : σ → Except ε (α × σ)} (h : ∀ s e, f s = .error e → P e) :
    Raises P (Prog.step f) := by
  intro s e he
  unfold Prog.step at he
  cases hf : f s with
  | error x => rw [hf] at he; cases he; exact h s e hf
  | ok r => rw [hf] at he; cases he

theorem Raises.require {b : Bool} {e : ε} (h : P e) :
    Raises P (Prog.require b e : Prog σ ε Unit) := by
  cases b with
  | true => exact .pure ()
  | false => exact .raise h

theorem Raises.found {o : Option α} {e : ε} (h : P e) : Raises P (Prog.found o e : Prog σ ε α) := by
  cases o with
  | some a => exact .pure a
  | none => exact .raise h

theorem Raises.bind {m : Prog σ ε α} {f : α → Prog σ ε β} (hm : Raises P m)
    (hf : ∀ a, Raises P (f a)) :
    Raises P (m >>= f) := by
  intro s e he
  rw [bind_run] at he
  match hr : m s with
  | ⟨.ok a, s', t⟩ => rw [hr] at he; exact hf a s' e he
  | ⟨.error x, s', t⟩ => rw [hr] at he; cases he; exact hm s e (by rw [hr])

theorem Raises.ite {p : Prop} [Decidable p] {m n : Prog σ ε α} (hm : Raises P m) (hn : Raises P n) :
    Raises P (if p then m else n) := by
  by_cases h : p
  · rw [if_pos h]; exact hm
  · rw [if_neg h]; exact hn

end Raises

/-! ## Two runs -/

def Twin (P : σ → σ → Prop) (m : Prog σ ε α) (Q : α → σ → σ → Prop) (E : σ → σ → Prop) : Prop :=
  ∀ s t, P s t → (m s).result = (m t).result ∧
    match (m s).result with
    | .ok a => Q a (m s).state (m t).state
    | .error _ => E (m s).state (m t).state

abbrev Same (R : σ → σ → Prop) (m : Prog σ ε α) : Prop := Twin R m (fun _ => R) R

section Twin
variable {P P' E : σ → σ → Prop} {Q : α → σ → σ → Prop} {S : β → σ → σ → Prop}

theorem Twin.pure {a : α} (h : ∀ s t, P s t → Q a s t) : Twin P (Pure.pure a : Prog σ ε α) Q E :=
  fun s t hp => ⟨rfl, h s t hp⟩

theorem Twin.raise {e : ε} (h : ∀ s t, P s t → E s t) : Twin P (Prog.raise e : Prog σ ε α) Q E :=
  fun s t hp => ⟨rfl, h s t hp⟩

theorem Twin.get {f : σ → α} (hf : ∀ s t, P s t → f s = f t) (h : ∀ s t, P s t → Q (f s) s t) :
    Twin P (Prog.get f : Prog σ ε α) Q E :=
  fun s t hp => ⟨congrArg Except.ok (hf s t hp), h s t hp⟩

theorem Twin.poke {f : σ → σ} {Q : Unit → σ → σ → Prop} (h : ∀ s t, P s t → Q () (f s) (f t)) :
    Twin P (Prog.poke f : Prog σ ε Unit) Q E :=
  fun s t hp => ⟨rfl, h s t hp⟩

theorem Twin.ofExcept {x : Except ε α} (hok : ∀ a, x = .ok a → ∀ s t, P s t → Q a s t)
    (herr : ∀ s t, P s t → E s t) : Twin P (Prog.ofExcept x : Prog σ ε α) Q E := by
  cases x with
  | ok a => exact .pure (hok a rfl)
  | error e => exact .raise herr

theorem Twin.require {b : Bool} {e : ε} {Q : Unit → σ → σ → Prop}
    (hok : b = true → ∀ s t, P s t → Q () s t)
    (herr : ∀ s t, P s t → E s t) : Twin P (Prog.require b e : Prog σ ε Unit) Q E := by
  cases b with
  | true => exact .pure (hok rfl)
  | false => exact .raise herr

theorem Twin.found {o : Option α} {e : ε} (hok : ∀ a, o = some a → ∀ s t, P s t → Q a s t)
    (herr : ∀ s t, P s t → E s t) : Twin P (Prog.found o e : Prog σ ε α) Q E := by
  cases o with
  | some a => exact .pure (hok a rfl)
  | none => exact .raise herr

theorem Twin.bind {m : Prog σ ε α} {f : α → Prog σ ε β} (hm : Twin P m Q E)
    (hf : ∀ a, Twin (Q a) (f a) S E) :
    Twin P (m >>= f) S E := by
  intro s t hp
  obtain ⟨h1, h2⟩ := hm s t hp
  rw [bind_run, bind_run]
  match hs : m s, ht : m t with
  | ⟨.ok a, s', _⟩, ⟨.ok b, t', _⟩ =>
    rw [hs, ht] at h1 h2
    cases h1
    exact hf a s' t' h2
  | ⟨.error e, s', _⟩, ⟨.error e', t', _⟩ =>
    rw [hs, ht] at h1 h2
    cases h1
    exact ⟨rfl, h2⟩
  | ⟨.ok a, s', _⟩, ⟨.error e, t', _⟩ => rw [hs, ht] at h1; cases h1
  | ⟨.error e, s', _⟩, ⟨.ok a, t', _⟩ => rw [hs, ht] at h1; cases h1

theorem Twin.ite {p : Prop} [Decidable p] {m n : Prog σ ε α} (hm : p → Twin P m Q E)
    (hn : ¬ p → Twin P n Q E) :
    Twin P (if p then m else n) Q E := by
  by_cases h : p
  · rw [if_pos h]; exact hm h
  · rw [if_neg h]; exact hn h

theorem Twin.pre {m : Prog σ ε α} (h : Twin P m Q E) (hp : ∀ s t, P' s t → P s t) : Twin P' m Q E :=
  fun s t hs => h s t (hp s t hs)

/-- Two runs that keep one relation whatever they end with. -/
theorem Twin.state {R : σ → σ → Prop} {m : Prog σ ε α} (h : Twin P m (fun _ => R) R) {s t : σ}
    (hp : P s t) :
    R (m s).state (m t).state := by
  obtain ⟨-, h2⟩ := h s t hp
  cases hr : (m s).result <;> rw [hr] at h2 <;> exact h2

end Twin

end Prog
end GlanceVault.Core
