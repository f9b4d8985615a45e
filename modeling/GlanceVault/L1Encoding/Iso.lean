/-!
# Timestamps (`Date.prototype.toISOString`)

The store writes every timestamp as the text `toISOString` gives, and SQLite
compares those texts byte by byte. An instant is a number of milliseconds
since 1970-01-01T00:00:00Z; a `Date` holds one between `-maxTime` and
`maxTime` and is invalid outside. Years 0 to 9999 have four digits, the
others a sign and six.

* `toISOString`: the text of an instant, and a throw outside of the range.
-/
namespace GlanceVault.L1.Iso

/-- The range of a `Date`: ECMAScript, `TimeClip`. -/
def maxTime : Int := 8640000000000000

def inRange (ms : Int) : Bool := decide (-maxTime ≤ ms) && decide (ms ≤ maxTime)

/-- Year, month and day of a day number (day 0 is 1970-01-01), in eras of 400
years that begin on the first of March. -/
def civil (day : Int) : Int × Nat × Nat :=
  let z := day + 719468
  let era := z / 146097
  let doe := (z % 146097).toNat
  let yoe := (doe - doe / 1460 + doe / 36524 - doe / 146096) / 365
  let doy := doe - (365 * yoe + yoe / 4 - yoe / 100)
  let mp := (5 * doy + 2) / 153
  let d := doy - (153 * mp + 2) / 5 + 1
  let m := if mp < 10 then mp + 3 else mp - 9
  (era * 400 + yoe + (if m ≤ 2 then 1 else 0), m, d)

/-- The last `k` decimal digits of `n`. -/
def pad : Nat → Nat → List Char
  | 0, _ => []
  | k + 1, n => pad k (n / 10) ++ [Char.ofNat (48 + n % 10)]

@[simp] theorem pad_length : ∀ k n, (pad k n).length = k
  | 0, _ => rfl
  | k + 1, n => by simp [pad, pad_length k]

def yearChars (y : Int) : List Char :=
  if 0 ≤ y ∧ y ≤ 9999 then pad 4 y.toNat
  else (if y < 0 then '-' else '+') :: pad 6 y.natAbs

/-- `new Date(ms).toISOString()` for an instant in range. -/
def isoText (ms : Int) : String :=
  let (y, m, d) := civil (ms / 86400000)
  let t := (ms % 86400000).toNat
  String.ofList (yearChars y ++ '-' :: pad 2 m ++ '-' :: pad 2 d ++ 'T' :: pad 2 (t / 3600000) ++
    ':' :: pad 2 (t / 60000 % 60) ++ ':' :: pad 2 (t / 1000 % 60) ++
      '.' :: pad 3 (t % 1000) ++ ['Z'])

/-- `toISOString`, which throws on an invalid date. -/
def toISOString (ms : Int) : Except String String :=
  if inRange ms then .ok (isoText ms) else .error "Invalid time value"

example : isoText 0 = "1970-01-01T00:00:00.000Z" := by decide
example : isoText 951825600123 = "2000-02-29T12:00:00.123Z" := by decide
example : isoText (-62198755200001) = "-000002-12-31T23:59:59.999Z" := by decide

end GlanceVault.L1.Iso
