import GlanceVault.L3Http.Http
/-!
# Field checks of the routes

The checks a handler makes on its body and query before it resolves the
scope. A check that fails ends the request with the message it carries; no
check reads or writes the server.

* `requiredText_ok`, `queryAccountId_ok`: what is accepted is not blank, and
  is handed on as it came.
-/
namespace GlanceVault.L3
open GlanceVault.L1 GlanceVault.L1.Js

/-- A request body: parsed JSON (`{}` when there is none), raw bytes, or
refused by the body parser. -/
inductive Body
  | json (j : Json)
  | raw (b : Bytes)
  | rejected (status : Nat)

/-- `json(..)`: a body of another content type is left alone. -/
def jsonBody : Body → Except Abort Json
  | .json j => .ok j
  | .raw _ => .ok (.obj [])
  | .rejected status => .error (.respond ⟨status, [], .errorPage⟩)

/-- `raw({ type: () => true, limit })`, and the handler's `Buffer.isBuffer`. -/
def rawBody (limit : Nat) : Body → Except Abort Bytes
  | .json _ => .ok []
  | .raw b => if limit < b.length then .error (.respond ⟨413, [], .errorPage⟩) else .ok b
  | .rejected status => .error (.respond ⟨status, [], .errorPage⟩)

/-- `body.k`, which throws when the body is `null`. -/
def field (body : Json) (k : String) : Except Abort (Option Json) :=
  match body.field k with
  | .ok v => .ok v
  | .error e => .error (.raise e)

/-- `typeof v !== "string" || v.trim() === ""` -/
def requiredText (v : Option Json) (message : String) : Except Abort String :=
  match v with
  | some (.str s) => if isBlank s then .error (.error 400 message) else .ok s
  | _ => .error (.error 400 message)

/-- `typeof v !== "string"` -/
def requiredString (v : Option Json) (message : String) : Except Abort String :=
  match v with
  | some (.str s) => .ok s
  | _ => .error (.error 400 message)

/-- `v !== undefined && typeof v !== "boolean"` -/
def optionalFlag (v : Option Json) (message : String) : Except Abort (Option Bool) :=
  match v with
  | none => .ok none
  | some (.bool b) => .ok (some b)
  | some _ => .error (.error 400 message)

/-- `typeof v !== "number" || !Number.isInteger(v) || v < 0` -/
def requiredNatural (v : Option Json) (message : String) : Except Abort Nat :=
  match v with
  | some (.num n) =>
    match n.asNatural with
    | some k => .ok k
    | none => .error (.error 400 message)
  | _ => .error (.error 400 message)

/-- `v !== undefined && (..)` in front of the check of a natural number. -/
def optionalNatural (v : Option Json) (message : String) : Except Abort (Option Nat) :=
  match v with
  | none => .ok none
  | some j => (requiredNatural (some j) message).map some

/-- `Array.isArray(v)` -/
def requiredArray (v : Option Json) (message : String) : Except Abort (List Json) :=
  match v with
  | some (.arr xs) => .ok xs
  | _ => .error (.error 400 message)

/-- mirrors src/routes/sync.ts:27-33, src/routes/intents.ts:25-31,
src/routes/blobs.ts:20-26, src/routes/events.ts:54-60 (`queryAccountId`) -/
def queryAccountId (query : Query) : Option String :=
  match query "accountId" with
  | some (.str s) => if isBlank s then none else some s
  | _ => none

/-- The account id a query carries, or 400. -/
def requiredAccountId (query : Query) : Except Abort String :=
  match queryAccountId query with
  | some a => .ok a
  | none => .error (.error 400 "accountId is required")

/-- An optional non-negative integer of the query, by `Number(..)`. -/
def queryNatural (query : Query) (k message : String) : Except Abort (Option Nat) :=
  match query k with
  | none => .ok none
  | some v =>
    match v.number.asNatural with
    | some n => .ok (some n)
    | none => .error (.error 400 message)

/-- The cursor of a list request. mirrors src/routes/sync.ts:232-239,
src/routes/intents.ts:157-164 -/
def sinceParam (query : Query) : Except Abort Nat :=
  (queryNatural query "since" "since must be a non-negative integer").map fun o => o.getD 0

/-- mirrors src/routes/sync.ts:8-9, src/routes/intents.ts:7-8 -/
def defaultLimit : Nat := 500

def maxLimit : Nat := 1000

/-- The page limit of a list request. mirrors src/routes/sync.ts:241-251,
src/routes/intents.ts:166-176 -/
def limitParam (query : Query) : Except Abort Nat :=
  match query "limit" with
  | none => .ok defaultLimit
  | some v =>
    match v.number.asNatural with
    | some n =>
      if n < 1 then .error (.error 400 "limit must be a positive integer")
      else .ok (if maxLimit < n then maxLimit else n)
    | none => .error (.error 400 "limit must be a positive integer")

/-- A sequence of checks that passes. -/
theorem bind_ok {α β : Type} {x : Except Abort α} {f : α → Except Abort β} {b : β}
    (h : (x >>= f) = .ok b) :
    ∃ a, x = .ok a ∧ f a = .ok b := by
  cases x with
  | error _ => cases h
  | ok a => exact ⟨a, rfl, h⟩

theorem field_ok {body : Json} {k : String} {w : Option Json} (h : body.field k = .ok w) :
    field body k = .ok w := by
  unfold field
  rw [h]

theorem ok_field {body : Json} {k : String} {w : Option Json} (h : field body k = .ok w) :
    body.field k = .ok w := by
  unfold field at h
  split at h
  · rename_i hv
    cases h
    exact hv
  · cases h

theorem requiredText_ok {v : Option Json} {message s : String} :
    requiredText v message = .ok s ↔ v = some (.str s) ∧ isBlank s = false := by
  unfold requiredText
  split
  · rename_i t
    by_cases hb : isBlank t = true
    · rw [if_pos hb]
      simp only [reduceCtorEq, Option.some.injEq, Json.str.injEq, false_iff]
      intro ⟨e, hs⟩
      rw [e, hs] at hb; cases hb
    · rw [if_neg hb]
      simp only [Except.ok.injEq, Option.some.injEq, Json.str.injEq]
      constructor
      · intro e; exact ⟨e, by rw [← e]; simpa using hb⟩
      · intro e; exact e.1
  · rename_i hne
    simp only [reduceCtorEq, false_iff]
    intro e
    exact hne s e.1

theorem queryAccountId_ok {query : Query} {a : String} :
    queryAccountId query = some a ↔ query "accountId" = some (.str a) ∧ isBlank a = false := by
  unfold queryAccountId
  split
  · rename_i t ht
    by_cases hb : isBlank t = true
    · rw [if_pos hb, ht]
      simp only [reduceCtorEq, Option.some.injEq, QueryValue.str.injEq, false_iff]
      intro ⟨e, hs⟩
      rw [e, hs] at hb; cases hb
    · rw [if_neg hb, ht]
      simp only [Option.some.injEq, QueryValue.str.injEq]
      constructor
      · intro e; exact ⟨e, by rw [← e]; simpa using hb⟩
      · intro e; exact e.1
  · rename_i hne
    simp only [reduceCtorEq, false_iff]
    intro e
    exact hne a e.1

/-- A page has room for at least one row, and for at most `maxLimit`. -/
theorem limitParam_range {query : Query} {n : Nat} (h : limitParam query = .ok n) :
    1 ≤ n ∧ n ≤ maxLimit := by
  unfold limitParam at h
  split at h
  · cases h; decide
  · split at h
    · rename_i k hk
      split at h
      · cases h
      · rename_i h1
        cases h
        unfold maxLimit
        split <;> omega
    · cases h

end GlanceVault.L3
