import Mathlib.Algebra.Ring.Nat
import Mathlib.Data.List.TakeWhile
import Mathlib.Order.Defs.Unbundled
/-!
# JavaScript values (ECMAScript, JSON bodies, query strings)

The values a request handler inspects: strings with JavaScript's notion of
white space, IEEE-754 numbers, decoded JSON bodies and the query-string
values of Express (a string, an array or an object). A number is a rational,
an infinity or NaN; the doubles are among them, and `numberOfString` rounds
to the nearest double as `Number(s)` does.

* `le16`: the order of `sort()` is a linear one.
* `asNatural_ofNat`, `asNatural_some`: the guard `Number.isInteger(n) &&
  n >= 0` accepts exactly the natural numbers and gives back the number.
* `sum_setProperty`: a record of numbers holds all that was assigned but what
  went to `__proto__`.
-/
namespace GlanceVault.L1.Js

/-! ## Strings -/

/-- `WhiteSpace` and `LineTerminator` of ECMAScript, what `trim` removes. -/
def isSpace (c : Char) : Bool :=
  let n := c.toNat
  (0x09 ≤ n && n ≤ 0x0D) || n == 0x20 || n == 0xA0 || n == 0x1680 || (0x2000 ≤ n && n ≤ 0x200A) ||
    n == 0x2028 || n == 0x2029 || n == 0x202F || n == 0x205F || n == 0x3000 || n == 0xFEFF

def trimChars (cs : List Char) : List Char :=
  ((cs.dropWhile isSpace).reverse.dropWhile isSpace).reverse

/-- `s.trim() === ""` -/
def isBlank (s : String) : Bool := (trimChars s.toList).isEmpty

/-- `s.length`: UTF-16 code units. -/
def length16 (s : String) : Nat := (s.toList.map fun c => if c.toNat < 0x10000 then 1 else 2).sum

/-- The UTF-16 code units of a character. -/
def unitsOfChar (c : Char) : List Nat :=
  if c.toNat < 0x10000 then [c.toNat]
  else [0xD800 + (c.toNat - 0x10000) / 0x400, 0xDC00 + (c.toNat - 0x10000) % 0x400]

def unitsLe : List Nat → List Nat → Bool
  | [], _ => true
  | _ :: _, [] => false
  | m :: ms, n :: ns => m < n || (m == n && unitsLe ms ns)

/-- `s <= t`, the order of `sort()`. -/
def le16 (s t : String) : Prop :=
  unitsLe (s.toList.flatMap unitsOfChar) (t.toList.flatMap unitsOfChar) = true

instance : DecidableRel le16 := fun s t =>
  inferInstanceAs
    (Decidable (unitsLe (s.toList.flatMap unitsOfChar) (t.toList.flatMap unitsOfChar) = true))

theorem unitsLe_total : ∀ ms ns : List Nat, unitsLe ms ns = true ∨ unitsLe ns ms = true
  | [], _ => .inl rfl
  | _ :: _, [] => .inr rfl
  | m :: ms, n :: ns => by
    simp only [unitsLe, Bool.or_eq_true, Bool.and_eq_true, decide_eq_true_eq, beq_iff_eq]
    rcases Nat.lt_trichotomy m n with h | h | h
    · exact .inl (.inl h)
    · exact (unitsLe_total ms ns).imp (fun hle => .inr ⟨h, hle⟩) fun hle => .inr ⟨h.symm, hle⟩
    · exact .inr (.inl h)

theorem unitsLe_trans : ∀ {ls ms ns : List Nat}, unitsLe ls ms = true → unitsLe ms ns = true →
    unitsLe ls ns = true
  | [], _, _, _, _ => rfl
  | _ :: _, _ :: _, [], _, h => nomatch h
  | l :: ls, m :: ms, n :: ns, h1, h2 => by
    simp only [unitsLe, Bool.or_eq_true, Bool.and_eq_true, decide_eq_true_eq, beq_iff_eq] at h1 h2 ⊢
    rcases h1 with h1 | ⟨rfl, h1⟩
    · exact .inl (h2.elim (fun h2 => h1.trans h2) fun h2 => h2.1 ▸ h1)
    · exact h2.imp_right fun h2 => ⟨h2.1, unitsLe_trans h1 h2.2⟩

theorem unitsLe_antisymm : ∀ {ms ns : List Nat}, unitsLe ms ns = true →
    unitsLe ns ms = true → ms = ns
  | [], [], _, _ => rfl
  | m :: ms, n :: ns, h1, h2 => by
    simp only [unitsLe, Bool.or_eq_true, Bool.and_eq_true, decide_eq_true_eq, beq_iff_eq] at h1 h2
    have hm : m = n := by omega
    subst hm
    have hms : ms = ns :=
      unitsLe_antisymm (h1.resolve_left (Nat.lt_irrefl m)).2 (h2.resolve_left (Nat.lt_irrefl m)).2
    rw [hms]

/-- Code units spell one text: a surrogate is no character. -/
theorem units_inj : ∀ {cs ds : List Char}, cs.flatMap unitsOfChar = ds.flatMap unitsOfChar → cs = ds
  | [], [], _ => rfl
  | [], d :: ds, h => by
    simp only [List.flatMap_nil, List.flatMap_cons, unitsOfChar] at h
    split at h <;> cases h
  | c :: cs, [], h => by
    simp only [List.flatMap_nil, List.flatMap_cons, unitsOfChar] at h
    split at h <;> cases h
  | c :: cs, d :: ds, h => by
    have hvalid : ∀ x : Char, x.toNat < 0xD800 ∨ 0xDFFF < x.toNat ∧ x.toNat < 0x110000 :=
      fun x => x.valid
    have hhead : c.toNat = d.toNat ∧ cs.flatMap unitsOfChar = ds.flatMap unitsOfChar := by
      simp only [List.flatMap_cons, unitsOfChar] at h
      have hc := hvalid c
      have hd := hvalid d
      split at h <;> split at h <;>
        simp only [List.cons_append, List.nil_append, List.cons.injEq] at h
      · exact ⟨h.1, h.2⟩
      · omega
      · omega
      · exact ⟨by omega, h.2.2⟩
    rw [Char.toNat_inj.1 hhead.1, units_inj hhead.2]

instance : Std.Total le16 := ⟨fun _ _ => unitsLe_total _ _⟩

instance : IsTrans String le16 := ⟨fun _ _ _ => unitsLe_trans⟩

instance : Std.Antisymm le16 :=
  ⟨fun _ _ h1 h2 => String.toList_inj.1 (units_inj (unitsLe_antisymm h1 h2))⟩

/-- `s.slice(p.length)` when `s.startsWith(p)`. -/
def stripPrefix : List Char → List Char → Option (List Char)
  | [], cs => some cs
  | p :: ps, c :: cs => if p = c then stripPrefix ps cs else none
  | _ :: _, [] => none

/-- `/^[0-9a-f]{64}$/` -/
def isHash (s : String) : Bool :=
  s.toList.length == 64 && s.toList.all fun c => ('0' ≤ c && c ≤ '9') || ('a' ≤ c && c ≤ 'f')

/-- `/^[0-9a-zA-Z_-]{1,128}$/` -/
def isUploadId (s : String) : Bool :=
  1 ≤ s.toList.length && s.toList.length ≤ 128 &&
    s.toList.all fun c => ('0' ≤ c && c ≤ '9') || ('a' ≤ c && c ≤ 'z') || ('A' ≤ c && c ≤ 'Z') ||
      c == '_' || c == '-'

/-! ## Numbers -/

inductive JsNumber
  | nan
  | posInf
  | negInf
  | finite (q : Rat)
  deriving DecidableEq, Repr

namespace JsNumber

def ofNat (n : Nat) : JsNumber := .finite n

/-- `Number.isFinite(n)`, with the number. -/
def finite? : JsNumber → Option Rat
  | .finite q => some q
  | _ => none

/-- The natural number of a value that passes `Number.isInteger(n) && n >= 0`. -/
def asNatural : JsNumber → Option Nat
  | .finite q => if q.den = 1 ∧ 0 ≤ q.num then some q.num.toNat else none
  | _ => none

theorem asNatural_some {n : JsNumber} {k : Nat} : n.asNatural = some k ↔ n = ofNat k := by
  constructor
  · intro h
    cases n with
    | finite q =>
      simp only [asNatural] at h
      split at h
      · rename_i hq
        cases h
        unfold ofNat
        congr 1
        apply Rat.ext
        · simp only [Rat.num_natCast]; omega
        · simpa using hq.1
      · cases h
    | nan => cases h
    | posInf => cases h
    | negInf => cases h
  · rintro rfl
    simp [asNatural, ofNat]

@[simp] theorem asNatural_ofNat (k : Nat) : (ofNat k).asNatural = some k := asNatural_some.2 rfl

/-! ### `Number(s)` -/

def pow2 (e : Int) : Rat := if 0 ≤ e then ((2 ^ e.toNat : Nat) : Rat) else mkRat 1 (2 ^ (-e).toNat)

/-- The integer nearest to `q`, a tie going to the even one. -/
def roundHalfEven (q : Rat) : Int :=
  let f := q.floor
  let r := q - f
  if r < mkRat 1 2 then f else if mkRat 1 2 < r then f + 1 else if f % 2 = 0 then f else f + 1

/-- Rounding of a non-negative rational to the nearest IEEE-754 double. -/
def roundMagnitude (q : Rat) : Option Rat :=
  if q = 0 then some 0 else
    let e0 : Int := (q.num.natAbs.log2 : Int) - q.den.log2
    let e := if pow2 e0 ≤ q then e0 else e0 - 1
    let ulp := max (e - 52) (-1074)
    let v := (roundHalfEven (q / pow2 ulp) : Rat) * pow2 ulp
    if pow2 1024 ≤ v then none else some v

def ofRat (q : Rat) : JsNumber :=
  if q < 0 then
    match roundMagnitude (-q) with
    | some v => .finite (-v)
    | none => .negInf
  else
    match roundMagnitude q with
    | some v => .finite v
    | none => .posInf

def digit (base : Nat) (c : Char) : Option Nat :=
  let n := c.toNat
  let d := if 48 ≤ n ∧ n ≤ 57 then n - 48 else if 97 ≤ n ∧ n ≤ 122 then n - 87 else
    if 65 ≤ n ∧ n ≤ 90 then n - 55 else base
  if d < base then some d else none

def isDigit (c : Char) : Bool := (digit 10 c).isSome

/-- The value of a digit string, most significant digit first. -/
def ofDigits (base : Nat) (cs : List Char) : Option Nat :=
  cs.foldl (fun acc c => acc.bind fun v => (digit base c).map (v * base + ·)) (some 0)

def signed : List Char → Bool × List Char
  | '-' :: cs => (true, cs)
  | '+' :: cs => (false, cs)
  | cs => (false, cs)

/-- `StrUnsignedDecimalLiteral` other than `Infinity`. -/
def decimalLiteral (cs : List Char) : Option Rat := do
  let whole := cs.takeWhile isDigit
  let cs := cs.dropWhile isDigit
  let (frac, cs) := match cs with
    | '.' :: cs => (cs.takeWhile isDigit, cs.dropWhile isDigit)
    | cs => ([], cs)
  if whole.isEmpty && frac.isEmpty then none
  let m ← ofDigits 10 (whole ++ frac)
  let e ← match cs with
    | [] => some (0 : Int)
    | c :: cs =>
      if c = 'e' || c = 'E' then
        let (neg, ds) := signed cs
        if ds.isEmpty then none
        else (ofDigits 10 ds).map fun (n : Nat) => if neg then -(n : Int) else n
      else none
  let k : Int := e - frac.length
  pure (if 0 ≤ k then ((m * 10 ^ k.toNat : Nat) : Rat) else mkRat m (10 ^ (-k).toNat))

/-- `Number(s)` for a string -/
def ofString (s : String) : JsNumber :=
  let cs := trimChars s.toList
  let radix (base : Nat) (ds : List Char) : JsNumber :=
    if ds.isEmpty then .nan else
      match ofDigits base ds with
      | some n => ofRat n
      | none => .nan
  match cs with
  | [] => .finite 0
  | '0' :: 'x' :: ds => radix 16 ds
  | '0' :: 'X' :: ds => radix 16 ds
  | '0' :: 'o' :: ds => radix 8 ds
  | '0' :: 'O' :: ds => radix 8 ds
  | '0' :: 'b' :: ds => radix 2 ds
  | '0' :: 'B' :: ds => radix 2 ds
  | cs =>
    let (neg, ds) := signed cs
    if ds = "Infinity".toList then (if neg then .negInf else .posInf) else
      match decimalLiteral ds with
      | some q => ofRat (if neg then -q else q)
      | none => .nan

end JsNumber

/-! ## JSON bodies -/

inductive Json
  | null
  | bool (b : Bool)
  | num (n : JsNumber)
  | str (s : String)
  | arr (xs : List Json)
  | obj (fields : List (String × Json))

namespace Json

def nat (n : Nat) : Json := .num (.ofNat n)

def int (n : Int) : Json := .num (.finite n)

def optStr : Option String → Json
  | some s => .str s
  | none => .null

def optNat : Option Nat → Json
  | some n => .nat n
  | none => .null

def lookup (k : String) : List (String × Json) → Option Json
  | [] => none
  | (k', v) :: fs => (lookup k fs).or (if k' = k then some v else none)

/-- `j.k`: `none` is `undefined`; reading a property of `null` throws. -/
def field (j : Json) (k : String) : Except String (Option Json) :=
  match j with
  | .null => .error s!"Cannot read properties of null (reading '{k}')"
  | .obj fs => .ok (lookup k fs)
  | _ => .ok none

end Json

/-! ## Records -/

/-- `o[k] = n` on an object literal, given by its own properties. The setter
that every object inherits under `__proto__` ignores a number. -/
def setProperty (o : List (String × Nat)) (k : String) (n : Nat) : List (String × Nat) :=
  if k = "__proto__" then o
  else if k ∈ o.map Prod.fst then o.map fun p => if p.1 = k then (k, n) else p
  else o ++ [(k, n)]

/-- What is missing of the values that were assigned under different names. -/
theorem sum_setProperty : ∀ (ps o : List (String × Nat)), (ps.map Prod.fst).Nodup →
    (∀ k ∈ ps.map Prod.fst, k ∉ o.map Prod.fst) →
      ((ps.foldl (fun o p => setProperty o p.1 p.2) o).map Prod.snd).sum +
        (ps.map fun p => if p.1 = "__proto__" then p.2 else 0).sum = (o.map Prod.snd).sum +
    (ps.map Prod.snd).sum
  | [], _, _, _ => rfl
  | (k, n) :: ps, o, hn, ho => by
    simp only [List.map_cons, List.nodup_cons] at hn
    have hk : k ∉ o.map Prod.fst := ho k List.mem_cons_self
    have hrest : ∀ k' ∈ ps.map Prod.fst, k' ∉ (setProperty o k n).map Prod.fst := by
      intro k' hk'
      have hold : k' ∉ o.map Prod.fst := ho k' (List.mem_cons_of_mem _ hk')
      unfold setProperty
      split
      · exact hold
      · rw [List.map_append, List.mem_append]
        rintro (hm | hm)
        · exact hold hm
        · have he : k' = k := List.mem_singleton.1 hm
          exact hn.1 (he ▸ hk')
    have ih := sum_setProperty ps (setProperty o k n) hn.2 hrest
    rw [List.foldl_cons]
    simp only [List.map_cons, List.sum_cons]
    by_cases hp : k = "__proto__"
    · have hset : setProperty o k n = o := if_pos hp
      rw [hset] at ih ⊢
      rw [if_pos hp]
      omega
    · have hset : setProperty o k n = o ++ [(k, n)] := by
        unfold setProperty
        rw [if_neg hp, if_neg hk]
      rw [hset, List.map_append, List.sum_append] at ih
      rw [if_neg hp, hset]
      simp only [List.map_cons, List.map_nil, List.sum_cons, List.sum_nil] at ih
      omega

/-! ## Query strings -/

/-- A parsed query parameter: `k=v`, `k=v&k=w` / `k[]=v`, or `k[p]=v` for a `p`
other than `toString` (`Number` throws at an object with that member). -/
inductive QueryValue
  | str (s : String)
  | list (vs : List QueryValue)
  | obj

mutual
/-- `String(v)` -/
def QueryValue.text : QueryValue → String
  | .str s => s
  | .list vs => ",".intercalate (QueryValue.texts vs)
  | .obj => "[object Object]"

def QueryValue.texts : List QueryValue → List String
  | [] => []
  | v :: vs => v.text :: QueryValue.texts vs
end

/-- `Number(v)` -/
def QueryValue.number (v : QueryValue) : JsNumber := .ofString v.text

/-- `req.query`, by parameter name. -/
abbrev Query : Type := String → Option QueryValue

end GlanceVault.L1.Js
