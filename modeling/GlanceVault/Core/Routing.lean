import Mathlib.Data.List.Forall2
/-!
# Routing by segments

A route is a method, a pattern of literal segments and parameters, and the
target it stands for. A request is answered by the first route, in
registration order, whose pattern matches its path segment by segment and
which answers its method. `same` says which spellings of a literal the router
does not tell apart, `decode` what it makes of the text of a parameter; when
`decode` fails the request is refused, whatever the later routes say.

* `Spells`: the segments spell a pattern, its literals as registered.
* `dispatch_skip`, `dispatch_other`, `dispatch_method`, `dispatch_hit`: one
  route of the table at a time.
-/
namespace GlanceVault.Core.Routing

inductive Piece
  | lit (text : String)
  | param (name : String)
  deriving DecidableEq

abbrev Pattern : Type := List Piece

structure Entry (μ ε : Type) where
  method : μ
  pattern : Pattern
  target : ε

variable {μ ε : Type} {same : String → String → Bool}

/-- The parameters of a path that matches, as they are spelled. -/
def capture (same : String → String → Bool) : Pattern → List String → Option (List String)
  | [], [] => some []
  | .lit text :: ps, s :: ss => if same text s then capture same ps ss else none
  | .param _ :: ps, s :: ss => if s = "" then none else (capture same ps ss).map (s :: ·)
  | _, _ => none

inductive Found (ε : Type)
  | target (e : ε) (params : List String)
  | badParam
  | unknown
  deriving DecidableEq

/-- The first route that matches the path and answers the method. -/
def dispatch (same : String → String → Bool) (decode : String → Option String)
    (answers : μ → μ → Bool) (m : μ)
    (segments : List String) : List (Entry μ ε) → Found ε
  | [] => .unknown
  | r :: rs =>
    match capture same r.pattern segments with
    | none => dispatch same decode answers m segments rs
    | some raw =>
      match raw.mapM decode with
      | none => .badParam
      | some params =>
        if answers r.method m then .target r.target params
        else dispatch same decode answers m segments rs

section Table
variable {decode : String → Option String} {answers : μ → μ → Bool} {m : μ} {segments : List String}
  {r : Entry μ ε} {rs : List (Entry μ ε)}

theorem dispatch_skip (h : capture same r.pattern segments = none) :
    dispatch same decode answers m segments (r :: rs) =
      dispatch same decode answers m segments rs := by
  rw [dispatch, h]

theorem dispatch_other {raw params : List String} (h : capture same r.pattern segments = some raw)
    (hd : raw.mapM decode = some params) (hm : answers r.method m = false) :
    dispatch same decode answers m segments (r :: rs) =
      dispatch same decode answers m segments rs := by
  rw [dispatch, h]
  simp [hd, hm]

/-- A route of another method is passed over, whether it matches or not. -/
theorem dispatch_method
    (hd : ∀ raw, capture same r.pattern segments = some raw → (raw.mapM decode).isSome)
    (hm : answers r.method m = false) :
    dispatch same decode answers m segments (r :: rs) =
      dispatch same decode answers m segments rs := by
  cases h : capture same r.pattern segments with
  | none => exact dispatch_skip h
  | some raw =>
    obtain ⟨params, hp⟩ := Option.isSome_iff_exists.1 (hd raw h)
    exact dispatch_other h hp hm

theorem dispatch_hit {raw params : List String} (h : capture same r.pattern segments = some raw)
    (hd : raw.mapM decode = some params) (hm : answers r.method m = true) :
    dispatch same decode answers m segments (r :: rs) = .target r.target params := by
  rw [dispatch, h]
  simp [hd, hm]

end Table

/-! ## Spelling a pattern -/

def Piece.Spells : Piece → String → Prop
  | .lit text, s => s = text
  | .param _, s => s ≠ ""

/-- Each literal as it is registered, each parameter any text. -/
def Spells (p : Pattern) (segments : List String) : Prop := List.Forall₂ Piece.Spells p segments

def Piece.literal : Piece → Option String
  | .lit text => some text
  | .param _ => none

/-- A pattern as one writes it down: a parameter is its name after a colon. -/
def Piece.template : Piece → String
  | .lit text => text
  | .param name => ":" ++ name

end GlanceVault.Core.Routing
