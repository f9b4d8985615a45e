import GlanceVault.L1Encoding.Iso
import Mathlib.Data.String.Basic
import Mathlib.Order.Lattice
/-!
# The order of timestamps

SQLite compares timestamps as text. Inside the years 0 to 9999 a text is a row
of decimal fields of fixed width, the greatest unit first, so the texts are in
the order of the instants. A year before 0 is written with `-`, which is before
every digit, as its instants are before; a year after 9999 is written with `+`,
which is before every digit too, and its instants are after.

* `render_lt`: texts of fixed-width fields compare as the lists of numbers.
* `civil_lt`: a later day has a later date.
* `isoText_lt_iff`: text order is time order inside the four-digit years.
* `text_follows_time`: against a clock with a four-digit year it is, exactly
  for the instants before the year 10000.
-/
namespace GlanceVault.L1.Iso

/-! ## Fields of fixed width -/

theorem digit_lt {m n : Nat} (h : m % 10 < n % 10) :
    Char.ofNat (48 + m % 10) < Char.ofNat (48 + n % 10) := by
  have hall : ∀ i j : Fin 10, i < j → Char.ofNat (48 + i.val) < Char.ofNat (48 + j.val) := by decide
  exact hall ⟨m % 10, Nat.mod_lt _ (by decide)⟩ ⟨n % 10, Nat.mod_lt _ (by decide)⟩ h

/-- Digit strings of one length compare as the numbers, whatever follows. -/
theorem pad_lt : ∀ (k : Nat) {m n : Nat} (u v : List Char),
    m < n → n < 10 ^ k → pad k m ++ u < pad k n ++ v
  | 0, m, n, _, _, h, hn => by
    rw [Nat.pow_zero] at hn
    omega
  | k + 1, m, n, u, v, h, hn => by
    rw [pad, pad, List.append_assoc, List.append_assoc]
    rw [Nat.pow_succ] at hn
    by_cases hd : m / 10 < n / 10
    · exact pad_lt k _ _ hd (by omega)
    · have he : m / 10 = n / 10 := by omega
      rw [he]
      exact List.append_left_lt (List.cons_lt_cons_iff.2 (.inl (digit_lt (by omega))))

/-- Numbers written with the widths of a shape, each followed by its separator. -/
def render : List (Nat × Char) → List Nat → List Char
  | (k, c) :: shape, n :: ns => pad k n ++ c :: render shape ns
  | _, _ => []

/-- Every number fits its field. -/
def Fits : List (Nat × Char) → List Nat → Prop
  | (k, _) :: shape, n :: ns => n < 10 ^ k ∧ Fits shape ns
  | [], [] => True
  | _, _ => False

theorem render_lt : ∀ {shape : List (Nat × Char)} {ms ns : List Nat},
    Fits shape ms → Fits shape ns → ms < ns →
    render shape ms < render shape ns
  | [], [], [], _, _, h => absurd h (List.lt_irrefl _)
  | (k, c) :: shape, m :: ms, n :: ns, hm, hn, h => by
    rw [render, render]
    rcases List.cons_lt_cons_iff.1 h with hlt | ⟨rfl, hrest⟩
    · exact pad_lt k _ _ hlt hn.1
    · exact List.append_left_lt (List.cons_lt_cons_iff.2 (.inr ⟨rfl, render_lt hm.2 hn.2 hrest⟩))

/-! ## The calendar -/

/-- The year of a day in an era of 400 years. -/
def yearOfEra (doe : Nat) : Nat := (doe - doe / 1460 + doe / 36524 - doe / 146096) / 365

/-- The first day of a year of an era. -/
def yearStart (y : Nat) : Nat := 365 * y + y / 4 - y / 100

theorem yearOfEra_mono {m n : Nat} (h : m ≤ n) (hn : n ≤ 146096) : yearOfEra m ≤ yearOfEra n := by
  induction n, h using Nat.le_induction with
  | base => exact Nat.le_refl _
  | succ n _ ih =>
    refine Nat.le_trans (ih (by omega)) (Nat.div_le_div_right ?_)
    by_cases he : n + 1 = 146096
    · obtain rfl : n = 146095 := by omega
      decide
    · omega

theorem yearOfEra_start : ∀ y < 400, yearOfEra (yearStart y) = y ∧
    (0 < y → yearOfEra (yearStart y - 1) < y) := by
  decide +kernel

theorem yearOfEra_spec {doe : Nat} (h : doe ≤ 146096) :
    yearOfEra doe ≤ 399 ∧ yearStart (yearOfEra doe) ≤ doe ∧
    doe ≤ yearStart (yearOfEra doe) + 365 := by
  have hy : yearOfEra doe ≤ 399 := yearOfEra_mono h (Nat.le_refl _)
  refine ⟨hy, ?_, ?_⟩
  · by_contra hlt
    have hpos : 0 < yearOfEra doe := by
      by_contra h0
      rw [Nat.eq_zero_of_not_pos h0] at hlt
      exact hlt (Nat.zero_le _)
    have hprev := (yearOfEra_start _ (by omega)).2 hpos
    have hend : yearStart (yearOfEra doe) - 1 ≤ 146096 := by
      unfold yearStart
      omega
    have hmono := yearOfEra_mono (m := doe) (by omega) hend
    omega
  · by_cases hlast : yearOfEra doe = 399
    · rw [hlast, show yearStart 399 = 145731 from rfl]
      omega
    · have hnext := (yearOfEra_start (yearOfEra doe + 1) (by omega)).1
      have hlt : doe < yearStart (yearOfEra doe + 1) := by
        by_contra hge
        have hmono := yearOfEra_mono (Nat.le_of_not_lt hge) h
        omega
      unfold yearStart at hlt ⊢
      omega

/-- Year, month and day counted from the first of March. -/
def march (day : Int) : Int × Nat × Nat :=
  let z := day + 719468
  let doe := (z % 146097).toNat
  let doy := doe - yearStart (yearOfEra doe)
  (z / 146097 * 400 + yearOfEra doe, (5 * doy + 2) / 153,
    doy - (153 * ((5 * doy + 2) / 153) + 2) / 5 + 1)

theorem march_range (day : Int) :
    (march day).2.1 ≤ 11 ∧ 1 ≤ (march day).2.2 ∧ (march day).2.2 ≤ 31 := by
  have hday : ((day + 719468) % 146097).toNat ≤ 146096 := by omega
  obtain ⟨-, h1, h2⟩ := yearOfEra_spec hday
  unfold march
  dsimp only
  omega

/-- January and February belong to the next year. -/
theorem civil_march (day : Int) : (civil day).2.2 = (march day).2.2 ∧
    (((march day).2.1 < 10 ∧ (civil day).1 = (march day).1 ∧
      (civil day).2.1 = (march day).2.1 + 3) ∨
      (10 ≤ (march day).2.1 ∧ (civil day).1 = (march day).1 + 1 ∧
        (civil day).2.1 = (march day).2.1 - 9)) := by
  have heq : civil day =
      let m := if (march day).2.1 < 10 then (march day).2.1 + 3 else (march day).2.1 - 9
      ((march day).1 + (if m ≤ 2 then 1 else 0), m, (march day).2.2) := rfl
  have hmp := (march_range day).1
  rw [heq]
  dsimp only
  refine ⟨rfl, ?_⟩
  by_cases h : (march day).2.1 < 10
  · rw [if_pos h, if_neg (by omega)]
    omega
  · rw [if_neg h, if_pos (by omega)]
    omega

theorem march_lt {d e : Int} (h : d < e) : (march d).1 < (march e).1 ∨ ((march d).1 = (march e).1 ∧
    ((march d).2.1 < (march e).2.1 ∨
      ((march d).2.1 = (march e).2.1 ∧ (march d).2.2 < (march e).2.2))) := by
  have hdera : ((d + 719468) % 146097).toNat ≤ 146096 := by omega
  have heera : ((e + 719468) % 146097).toNat ≤ 146096 := by omega
  obtain ⟨hd, hd1, hd2⟩ := yearOfEra_spec hdera
  obtain ⟨he, he1, he2⟩ := yearOfEra_spec heera
  by_cases hera : (d + 719468) / 146097 < (e + 719468) / 146097
  · left
    unfold march
    dsimp only
    omega
  · -- one era: the years are in order, and in one year the days are
    have hmono := yearOfEra_mono (m := ((d + 719468) % 146097).toNat)
      (n := ((e + 719468) % 146097).toNat)
      (by omega) (by omega)
    unfold march
    dsimp only
    by_cases hy : yearOfEra ((d + 719468) % 146097).toNat < yearOfEra ((e + 719468) % 146097).toNat
    · left
      omega
    · have hye : yearOfEra ((d + 719468) % 146097).toNat =
          yearOfEra ((e + 719468) % 146097).toNat := by
        omega
      rw [hye] at hd1 hd2 ⊢
      right
      omega

/-- **A later day has a later date.** -/
theorem civil_lt {d e : Int} (h : d < e) : (civil d).1 < (civil e).1 ∨ ((civil d).1 = (civil e).1 ∧
    ((civil d).2.1 < (civil e).2.1 ∨
      ((civil d).2.1 = (civil e).2.1 ∧ (civil d).2.2 < (civil e).2.2))) := by
  have hd := (march_range d).1
  have he := (march_range e).1
  have hlt := march_lt h
  have hcd := civil_march d
  have hce := civil_march e
  omega

theorem civil_range (day : Int) :
    1 ≤ (civil day).2.1 ∧ (civil day).2.1 ≤ 12 ∧ 1 ≤ (civil day).2.2 ∧ (civil day).2.2 ≤ 31 := by
  obtain ⟨h1, h2, h3⟩ := march_range day
  have hc := civil_march day
  omega

theorem year_mono {d e : Int} (h : d ≤ e) : (civil d).1 ≤ (civil e).1 := by
  by_cases he : d = e
  · rw [he]
  · have := civil_lt (d := d) (e := e) (by omega)
    omega

/-! ## Texts -/

/-- 0000-01-01T00:00:00.000Z -/
def yearZero : Int := -62167219200000

/-- 10000-01-01T00:00:00.000Z -/
def yearTenThousand : Int := 253402300800000

/-- The instants whose year has four digits. -/
def FourDigit (ms : Int) : Prop := yearZero ≤ ms ∧ ms < yearTenThousand

instance (ms : Int) : Decidable (FourDigit ms) := inferInstanceAs (Decidable (_ ∧ _))

theorem fourDigit_iff (ms : Int) :
    FourDigit ms ↔ 0 ≤ (civil (ms / 86400000)).1 ∧ (civil (ms / 86400000)).1 ≤ 9999 := by
  have h0 : (civil (-719528)).1 = 0 := by decide
  have h1 : (civil (-719529)).1 = -1 := by decide
  have h2 : (civil 2932896).1 = 9999 := by decide
  have h3 : (civil 2932897).1 = 10000 := by decide
  unfold FourDigit yearZero yearTenThousand
  constructor
  · intro ⟨hlo, hhi⟩
    have hy0 := year_mono (d := -719528) (e := ms / 86400000) (by omega)
    have hy9 := year_mono (d := ms / 86400000) (e := 2932896) (by omega)
    omega
  · intro ⟨hlo, hhi⟩
    constructor
    · by_contra hlt
      have := year_mono (d := ms / 86400000) (e := -719529) (by omega)
      omega
    · by_contra hge
      have := year_mono (d := 2932897) (e := ms / 86400000) (by omega)
      omega

def isoShape : List (Nat × Char) :=
  [(4, '-'), (2, '-'), (2, 'T'), (2, ':'), (2, ':'), (2, '.'), (3, 'Z')]

/-- Year to millisecond of an instant. -/
def isoFields (ms : Int) : List Nat :=
  let t := (ms % 86400000).toNat
  [(civil (ms / 86400000)).1.toNat, (civil (ms / 86400000)).2.1, (civil (ms / 86400000)).2.2,
    t / 3600000, t / 60000 % 60, t / 1000 % 60, t % 1000]

theorem isoText_render {ms : Int} (h : FourDigit ms) :
    isoText ms = String.ofList (render isoShape (isoFields ms)) := by
  have hy := (fourDigit_iff ms).1 h
  unfold isoText yearChars
  simp [hy, isoShape, isoFields, render]

theorem isoFields_fit {ms : Int} (h : FourDigit ms) : Fits isoShape (isoFields ms) := by
  have hy := (fourDigit_iff ms).1 h
  have hc := civil_range (ms / 86400000)
  refine ⟨?_, ?_, ?_, ?_, ?_, ?_, ?_, trivial⟩ <;> omega

theorem isoFields_lt {m n : Int} (hm : FourDigit m) (hn : FourDigit n) (h : m < n) :
    isoFields m < isoFields n := by
  have hym := (fourDigit_iff m).1 hm
  have hyn := (fourDigit_iff n).1 hn
  unfold isoFields
  simp only [List.cons_lt_cons_iff, List.not_lt_nil, and_false, or_false]
  by_cases hday : m / 86400000 < n / 86400000
  · have := civil_lt hday
    omega
  · have he : m / 86400000 = n / 86400000 := by omega
    rw [he]
    omega

theorem isoText_lt {m n : Int} (hm : FourDigit m) (hn : FourDigit n) (h : m < n) :
    isoText m < isoText n := by
  rw [isoText_render hm, isoText_render hn, String.lt_iff_toList_lt, String.toList_ofList,
    String.toList_ofList]
  exact render_lt (isoFields_fit hm) (isoFields_fit hn) (isoFields_lt hm hn h)

/-- **Inside the four-digit years the texts are in the order of the instants.** -/
theorem isoText_lt_iff {m n : Int} (hm : FourDigit m) (hn : FourDigit n) :
    isoText m < isoText n ↔ m < n := by
  constructor
  · intro h
    rcases lt_trichotomy m n with hlt | heq | hgt
    · exact hlt
    · rw [heq] at h
      exact absurd h (lt_irrefl _)
    · exact absurd h (lt_asymm (isoText_lt hn hm hgt))
  · exact isoText_lt hm hn

/-- A signed year is before every year of four digits. -/
theorem isoText_signed {e n : Int} (he : ¬ FourDigit e) (hn : FourDigit n) :
    isoText e < isoText n := by
  have hy := mt (fourDigit_iff e).2 he
  have hs : ∀ b : Prop, [Decidable b] →
      ∀ x : Nat, (if b then '-' else '+') < Char.ofNat (48 + x % 10) := by
    intro b _ x
    have hall : ∀ j : Fin 10, '-' < Char.ofNat (48 + j.val) ∧ '+' < Char.ofNat (48 + j.val) := by
      decide
    have := hall ⟨x % 10, Nat.mod_lt _ (by decide)⟩
    split
    · exact this.1
    · exact this.2
  rw [isoText_render hn, String.lt_iff_toList_lt, String.toList_ofList]
  unfold isoText yearChars
  rw [String.toList_ofList, if_neg hy]
  simp only [isoShape, isoFields, render, pad, List.nil_append, List.cons_append]
  exact List.cons_lt_cons_iff.2 (.inl (hs _ _))

/-- **Against a clock with a four-digit year, text order is time order exactly
for the instants before the year 10000.** -/
theorem text_follows_time {now e : Int} (hnow : FourDigit now) :
    (isoText now < isoText e ↔ now < e) ↔ e < yearTenThousand := by
  by_cases he : FourDigit e
  · exact ⟨fun _ => he.2, fun _ => isoText_lt_iff hnow he⟩
  · have htext : ¬ isoText now < isoText e := lt_asymm (isoText_signed he hnow)
    have hlo : ¬ e < yearTenThousand ↔ now < e := by
      unfold FourDigit at he hnow
      omega
    constructor
    · intro h
      by_contra hge
      exact htext (h.2 (hlo.1 hge))
    · intro h
      exact ⟨fun ht => absurd ht htext, fun ht => absurd h (hlo.2 ht)⟩

/-- Before the year 10000 a cutoff is in the order of the instants too. -/
theorem cutoff_lt_iff {c e : Int} (hc : c < yearTenThousand) (he : FourDigit e) :
    isoText c < isoText e ↔ c < e := by
  by_cases hfour : FourDigit c
  · exact isoText_lt_iff hfour he
  · have hbefore : c < e := by
      unfold FourDigit at hfour he
      omega
    exact iff_of_true (isoText_signed hfour he) hbefore

theorem isoText_inj {m n : Int} (hm : FourDigit m) (hn : FourDigit n) (h : isoText m = isoText n) :
    m = n := by
  rcases lt_trichotomy m n with hlt | heq | hgt
  · exact absurd (h ▸ isoText_lt hm hn hlt) (lt_irrefl _)
  · exact heq
  · exact absurd (h ▸ isoText_lt hn hm hgt) (lt_irrefl _)

end GlanceVault.L1.Iso
