/-!
# Write transactions

A `Tx σ ε α` is the body of a write transaction over a database `σ`: a
sequence of statements run on a connection, any of which may fail (`Conn.fault
= some (n, e)`: the statement after the next `n` ones fails with `e`). A
transaction either commits or is rolled back (`commit`).

A statement that does not fail does not depend on when a later one would, and
the type carries that fact (`Tx.sound`) through every `bind`. So a commit is
always the commit of the failure-free body (`commit_ok`), and the reasoning
about a transaction is about `eval`, the failure-free body, alone.

`Moves R m`: whatever the body does is related by `R`; `Keeps π m`: it leaves
the part `π` of the database alone. `Local π m`: the body, run on the part `π`
of the database only, returns the same result and ends in the same part.
-/
namespace GlanceVault.Core

/-- A connection inside a transaction. -/
structure Conn (σ ε : Type) where
  db : σ
  fault : Option (Nat × ε)

structure Tx (σ ε α : Type) where
  exec : Conn σ ε → Except ε (α × Conn σ ε)
  sound : ∀ db fault a c, exec ⟨db, fault⟩ = .ok (a, c) → exec ⟨db, none⟩ = .ok (a, ⟨c.db, none⟩)

namespace Tx

variable {σ ε α β : Type}

protected def pure (a : α) : Tx σ ε α :=
  ⟨fun c => .ok (a, c), by
    intro db fault b c h
    simp only [Except.ok.injEq, Prod.mk.injEq] at h ⊢
    obtain ⟨rfl, rfl⟩ := h
    exact ⟨rfl, rfl⟩⟩

protected def bind (m : Tx σ ε α) (f : α → Tx σ ε β) : Tx σ ε β :=
  ⟨fun c => match m.exec c with
    | .ok (a, c') => (f a).exec c'
    | .error e => .error e, by
    intro db fault b c h
    cases hm : m.exec ⟨db, fault⟩ with
    | error e => rw [hm] at h; cases h
    | ok r =>
      obtain ⟨a, c'⟩ := r
      rw [hm] at h
      rw [m.sound _ _ _ _ hm]
      exact (f a).sound c'.db c'.fault b c h⟩

instance : Monad (Tx σ ε) where
  pure := Tx.pure
  bind := Tx.bind

/-- One statement, which may itself raise (a constraint). -/
def stmt (f : σ → Except ε (α × σ)) : Tx σ ε α :=
  ⟨fun c => match c.fault with
    | some (0, e) => .error e
    | some (n + 1, e) => (f c.db).map fun r => (r.1, ⟨r.2, some (n, e)⟩)
    | none => (f c.db).map fun r => (r.1, ⟨r.2, none⟩), by
    intro db fault b c h
    cases hf : f db with
    | error e =>
      simp only [hf, Except.map] at h
      split at h <;> cases h
    | ok r =>
      simp only [hf, Except.map] at h ⊢
      split at h
      · cases h
      · cases h; rfl
      · cases h; rfl⟩

/-- `SELECT`. -/
def read (f : σ → α) : Tx σ ε α := stmt fun db => .ok (f db, db)

/-- A statement that cannot raise by itself. -/
def write (f : σ → α × σ) : Tx σ ε α := stmt fun db => .ok (f db)

/-- The body, its result forgotten. -/
def void (m : Tx σ ε α) : Tx σ ε Unit := do
  let _ ← m
  Pure.pure ()

/-- A part of the body that is run only if `b`; otherwise its result is `a`. -/
def when (b : Bool) (m : Tx σ ε α) (a : α) : Tx σ ε α := if b then m else Pure.pure a

/-- The body without statement failures. -/
def eval (m : Tx σ ε α) (db : σ) : Except ε (α × σ) :=
  match m.exec ⟨db, none⟩ with
  | .ok (a, c) => .ok (a, c.db)
  | .error e => .error e

/-- `BEGIN IMMEDIATE .. COMMIT`, or `ROLLBACK` when a statement raised. -/
def commit (m : Tx σ ε α) (fault : Option (Nat × ε)) (db : σ) : Except ε α × σ :=
  match m.exec ⟨db, fault⟩ with
  | .ok (a, c) => (.ok a, c.db)
  | .error e => (.error e, db)

@[simp] theorem eval_pure (a : α) (db : σ) : (pure a : Tx σ ε α).eval db = .ok (a, db) := rfl

theorem eval_bind (m : Tx σ ε α) (f : α → Tx σ ε β) (db : σ) : (m >>= f).eval db =
    match m.eval db with
    | .ok (a, db') => (f a).eval db'
    | .error e => .error e := by
  show (Tx.bind m f).eval db = _
  dsimp only [eval, Tx.bind]
  cases hm : m.exec ⟨db, none⟩ with
  | error e => rfl
  | ok r =>
    obtain ⟨a, d, fault⟩ := r
    have hs := m.sound db none a ⟨d, fault⟩ hm
    rw [hm] at hs
    cases hs
    rfl

@[simp] theorem eval_stmt (f : σ → Except ε (α × σ)) (db : σ) : (stmt f).eval db = f db := by
  dsimp only [eval, stmt]
  cases f db <;> rfl

@[simp] theorem eval_read (f : σ → α) (db : σ) : (read f : Tx σ ε α).eval db = .ok (f db, db) := by
  simp [read]

@[simp] theorem eval_write (f : σ → α × σ) (db : σ) :
    (write f : Tx σ ε α).eval db = .ok (f db) := by
  simp [write]

@[simp] theorem eval_ite (p : Prop) [Decidable p] (m n : Tx σ ε α) (db : σ) :
    (if p then m else n).eval db = if p then m.eval db else n.eval db := by
  split <;> rfl

/-- A failed transaction leaves the database as it was. -/
theorem commit_error {m : Tx σ ε α} {fault : Option (Nat × ε)} {db db' : σ} {e : ε}
    (h : m.commit fault db = (.error e, db')) : db' = db := by
  unfold commit at h
  split at h <;> cases h
  rfl

/-- Without a fault the body commits. -/
theorem commit_none {m : Tx σ ε α} {db db' : σ} {a : α} (h : m.eval db = .ok (a, db')) :
    m.commit none db = (.ok a, db') := by
  unfold eval at h
  unfold commit
  split at h <;> cases h
  rfl

/-- A committed transaction is the failure-free one. -/
theorem commit_ok {m : Tx σ ε α} {fault : Option (Nat × ε)} {db db' : σ} {a : α}
    (h : m.commit fault db = (.ok a, db')) : m.eval db = .ok (a, db') := by
  unfold commit at h
  split at h
  · rename_i b c hm
    cases h
    unfold eval
    rw [m.sound _ _ _ _ hm]
  · cases h

theorem eval_bind_ok {m : Tx σ ε α} {f : α → Tx σ ε β} {db : σ} {r : β × σ}
    (h : (m >>= f).eval db = .ok r) :
    ∃ a db', m.eval db = .ok (a, db') ∧ (f a).eval db' = .ok r := by
  rw [eval_bind] at h
  split at h
  · rename_i a db' hm; exact ⟨a, db', hm, h⟩
  · cases h

theorem eval_void_ok (m : Tx σ ε α) {db db' : σ} {u : Unit} (h : m.void.eval db = .ok (u, db')) :
    ∃ a, m.eval db = .ok (a, db') := by
  obtain ⟨a, d, h1, h2⟩ := eval_bind_ok h
  cases h2
  exact ⟨a, h1⟩

/-! ## Effects -/

/-- Whatever the body does to the database is related by `R`. -/
def Moves (R : σ → σ → Prop) (m : Tx σ ε α) : Prop :=
  ∀ db a db', m.eval db = .ok (a, db') → R db db'

section Moves
variable {R : σ → σ → Prop}

theorem Moves.pure (hr : ∀ d, R d d) (a : α) : Moves R (Pure.pure a : Tx σ ε α) := by
  intro db b db' h; cases h; exact hr _

theorem Moves.bind {m : Tx σ ε α} {f : α → Tx σ ε β} (ht : ∀ {x y z}, R x y → R y z → R x z)
    (hm : Moves R m) (hf : ∀ a, Moves R (f a)) : Moves R (m >>= f) := by
  intro db b db' h
  obtain ⟨a, d, h1, h2⟩ := eval_bind_ok h
  exact ht (hm db a d h1) (hf a d b db' h2)

theorem Moves.stmt {f : σ → Except ε (α × σ)} (h : ∀ db r, f db = .ok r → R db r.2) :
    Moves R (stmt f) := by
  intro db a db' he
  rw [eval_stmt] at he
  exact h db _ he

theorem Moves.void (hr : ∀ d, R d d) (ht : ∀ {x y z}, R x y → R y z → R x z) {m : Tx σ ε α}
    (h : Moves R m) :
    Moves R (void m) := Moves.bind ht h fun _ => Moves.pure hr ()

/-- A commit does what the body does; a rollback does nothing. -/
theorem Moves.commit (hr : ∀ d, R d d) {m : Tx σ ε α} (h : Moves R m) (fault : Option (Nat × ε))
    (db : σ) :
    R db (m.commit fault db).2 := by
  cases hc : m.commit fault db with
  | mk res db' =>
    cases res with
    | ok a => exact h db a db' (commit_ok hc)
    | error e => rw [commit_error hc]; exact hr db

end Moves

/-- The body does not change the part `π` of the database. -/
def Keeps {γ : Type} (π : σ → γ) (m : Tx σ ε α) : Prop := Moves (fun d d' => π d' = π d) m

section Keeps
variable {γ : Type} {π : σ → γ}

theorem Keeps.pure (a : α) : Keeps π (Pure.pure a : Tx σ ε α) :=
  Moves.pure (R := fun d d' => π d' = π d) (fun _ => rfl) a

theorem Keeps.bind {m : Tx σ ε α} {f : α → Tx σ ε β} (hm : Keeps π m) (hf : ∀ a, Keeps π (f a)) :
    Keeps π (m >>= f) := Moves.bind (fun h1 h2 => h2.trans h1) hm hf

theorem Keeps.stmt {f : σ → Except ε (α × σ)} (h : ∀ db r, f db = .ok r → π r.2 = π db) :
    Keeps π (stmt f) := Moves.stmt h

theorem Keeps.read (f : σ → α) : Keeps π (read f : Tx σ ε α) :=
  .stmt fun db r h => by cases h; rfl

theorem Keeps.write {f : σ → α × σ} (h : ∀ db, π (f db).2 = π db) : Keeps π (write f : Tx σ ε α) :=
  .stmt fun db r he => by cases he; exact h db

/-- What a kept part determines is kept. -/
theorem Keeps.of {δ : Type} {m : Tx σ ε α} (h : Keeps π m) (f : γ → δ) {ρ : σ → δ}
    (hf : ∀ d, f (π d) = ρ d) :
    Keeps ρ m := by
  intro db a db' e
  show ρ db' = ρ db
  rw [← hf, ← hf, h db a db' e]

theorem Keeps.ite {p : Prop} [Decidable p] {m n : Tx σ ε α} (hm : Keeps π m) (hn : Keeps π n) :
    Keeps π (if p then m else n) := by
  split
  · exact hm
  · exact hn

end Keeps

theorem Moves.when {R : σ → σ → Prop} (hr : ∀ d, R d d) {m : Tx σ ε α} (h : Moves R m) (b : Bool)
    (a : α) :
    Moves R (when b m a) := by
  cases b
  · exact .pure hr a
  · exact h

/-! ## Locality -/

/-- The body reads and writes the part `π` of the database only. -/
def Local (π : σ → σ) (m : Tx σ ε α) : Prop :=
  ∀ db, m.eval (π db) = (m.eval db).map fun r => (r.1, π r.2)

section Local
variable {π : σ → σ}

theorem Local.pure (a : α) : Local π (Pure.pure a : Tx σ ε α) := fun _ => rfl

theorem Local.bind {m : Tx σ ε α} {f : α → Tx σ ε β} (hm : Local π m) (hf : ∀ a, Local π (f a)) :
    Local π (m >>= f) := by
  intro db
  rw [eval_bind, eval_bind, hm db]
  cases h : m.eval db with
  | error e => rfl
  | ok r =>
    obtain ⟨a, d⟩ := r
    simp only [Except.map]
    exact hf a d

theorem Local.stmt {f : σ → Except ε (α × σ)}
    (h : ∀ db, f (π db) = (f db).map fun r => (r.1, π r.2)) :
    Local π (stmt f) := by
  intro db; rw [eval_stmt, eval_stmt]; exact h db

theorem Local.read {f : σ → α} (h : ∀ db, f (π db) = f db) : Local π (read f : Tx σ ε α) :=
  .stmt fun db => by simp [h db, Except.map]

theorem Local.ite {p : Prop} [Decidable p] {m n : Tx σ ε α} (hm : Local π m) (hn : Local π n) :
    Local π (if p then m else n) := by
  split
  · exact hm
  · exact hn

theorem Local.write {f : σ → α × σ} (h : ∀ db, f (π db) = ((f db).1, π (f db).2)) :
    Local π (write f : Tx σ ε α) :=
  .stmt fun db => by simp [h db, Except.map]

/-- Two databases that agree on a local body's part: same result, and the
parts still agree. -/
theorem Local.agree {m : Tx σ ε α} (h : Local π m) {db₁ db₂ : σ} (e : π db₁ = π db₂) :
    (m.eval db₁).map (fun r => (r.1, π r.2)) = (m.eval db₂).map fun r => (r.1, π r.2) := by
  rw [← h db₁, ← h db₂, e]

end Local

end Tx
end GlanceVault.Core
