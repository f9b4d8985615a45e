import Mathlib.Algebra.Order.Field.Power
import Mathlib.Data.Rat.Floor
import Mathlib.Tactic.FieldSimp
import Mathlib.Tactic.Linarith
import Mathlib.Tactic.Positivity
import Mathlib.Tactic.Ring
import GlanceVault.L1Encoding.Js
/-!
# Rounding to the nearest double

`roundMagnitude` finds the binade of a positive rational, scales it so that a
unit is one in the last place, rounds to an integer and scales back.

* `exponent_spec`: the binade.
* `roundHalfEven_mono`, `roundHalfEven_int`, `roundHalfEven_near`: rounding to
  an integer.
* `nearest_near`: the distance to the nearest double.
* `nearest_ge`, `nearest_le`: a representable number below or above `q` is
  below or above the double nearest to `q`.
* `nearest_fixed`: exactly the representable numbers are their own nearest
  doubles.
* `natural_exact`: which natural numbers are read as themselves.
* `natural_literal`: `Number` rounds the number that a literal writes.
* `ofString_decimal`, `decimalText_tenths`: decimal notation, a multiple of a
  power of ten, is rounded once.
* `natural_digits`: what `Number` makes of a string of decimal digits, in
  terms of the number the digits write.
-/
namespace GlanceVault.L1.Js.JsNumber

/-! ## Powers of two -/

theorem pow2_eq (e : Int) : pow2 e = (2 : ℚ) ^ e := by
  unfold pow2
  split
  · rename_i h
    obtain ⟨n, rfl⟩ := Int.eq_ofNat_of_zero_le h
    simp
  · rename_i h
    obtain ⟨n, hn⟩ := Int.eq_ofNat_of_zero_le (by omega : 0 ≤ -e)
    obtain rfl : e = -(n : Int) := by omega
    simp [Rat.mkRat_eq_div]

theorem pow2_pos (e : Int) : 0 < pow2 e := by
  rw [pow2_eq]
  positivity

theorem pow2_mono {d e : Int} (h : d ≤ e) : pow2 d ≤ pow2 e := by
  rw [pow2_eq, pow2_eq]
  exact zpow_le_zpow_right₀ (by norm_num) h

theorem pow2_add (d e : Int) : pow2 (d + e) = pow2 d * pow2 e := by
  rw [pow2_eq, pow2_eq, pow2_eq]
  exact zpow_add₀ (by norm_num) d e

theorem pow2_nat (n : Nat) : pow2 n = ((2 ^ n : Nat) : ℚ) := by
  rw [pow2_eq]
  simp

/-! ## The binade -/

/-- The exponent `e` with `2 ^ e ≤ q < 2 ^ (e + 1)`. -/
def exponent (q : ℚ) : Int :=
  let e0 : Int := (q.num.natAbs.log2 : Int) - q.den.log2
  if pow2 e0 ≤ q then e0 else e0 - 1

theorem exponent_spec {q : ℚ} (h : 0 < q) : pow2 (exponent q) ≤ q ∧ q < pow2 (exponent q + 1) := by
  have hnum : 0 < q.num := Rat.num_pos.2 h
  have hn : (q.num.natAbs : ℚ) = q.num := by
    have : (q.num.natAbs : ℤ) = q.num := Int.natAbs_of_nonneg hnum.le
    simpa only [Int.cast_natCast] using congrArg (fun z : ℤ => (z : ℚ)) this
  have hq : q * q.den = q.num.natAbs := by
    rw [hn]
    exact Rat.mul_den_eq_num q
  have hn0 : q.num.natAbs ≠ 0 := by omega
  have hd : (0 : ℚ) < q.den := by exact_mod_cast q.den_pos
  -- both parts of the fraction against their powers of two
  have hn1 : pow2 q.num.natAbs.log2 ≤ q.num.natAbs := by
    rw [pow2_nat]
    exact_mod_cast Nat.log2_self_le hn0
  have hn2 : (q.num.natAbs : ℚ) < pow2 (q.num.natAbs.log2 + 1) := by
    have := Nat.lt_log2_self (n := q.num.natAbs)
    rw [← Nat.cast_one, ← Nat.cast_add, pow2_nat]
    exact_mod_cast this
  have hd1 : pow2 q.den.log2 ≤ q.den := by
    rw [pow2_nat]
    exact_mod_cast Nat.log2_self_le q.den_ne_zero
  have hd2 : (q.den : ℚ) < pow2 (q.den.log2 + 1) := by
    have := Nat.lt_log2_self (n := q.den)
    rw [← Nat.cast_one, ← Nat.cast_add, pow2_nat]
    exact_mod_cast this
  have hlt : q < pow2 ((q.num.natAbs.log2 : Int) - q.den.log2 + 1) := by
    have hsplit : pow2 (q.num.natAbs.log2 + 1)
        = pow2 ((q.num.natAbs.log2 : Int) - q.den.log2 + 1) * pow2 q.den.log2 := by
      rw [← pow2_add]
      congr 1
      omega
    rw [← hq, hsplit] at hn2
    have := mul_le_mul_of_nonneg_left hd1 (pow2_pos ((q.num.natAbs.log2 : Int) - q.den.log2 + 1)).le
    exact lt_of_mul_lt_mul_right (hn2.trans_le this) hd.le
  have hge : pow2 ((q.num.natAbs.log2 : Int) - q.den.log2 - 1) ≤ q := by
    have hsplit : pow2 q.num.natAbs.log2
        = pow2 ((q.num.natAbs.log2 : Int) - q.den.log2 - 1) * pow2 (q.den.log2 + 1) := by
      rw [← pow2_add]
      congr 1
      omega
    rw [← hq, hsplit] at hn1
    have := mul_le_mul_of_nonneg_left hd2.le
      (pow2_pos ((q.num.natAbs.log2 : Int) - q.den.log2 - 1)).le
    exact le_of_mul_le_mul_right (this.trans hn1) hd
  unfold exponent
  simp only
  split
  · rename_i h0
    exact ⟨h0, hlt⟩
  · rename_i h0
    refine ⟨hge, ?_⟩
    rw [Int.sub_add_cancel]
    exact not_le.1 h0

/-! ## Rounding to an integer -/

theorem roundHalfEven_near (q : ℚ) : |(roundHalfEven q : ℚ) - q| ≤ 1 / 2 := by
  have h1 : (q.floor : ℚ) ≤ q := Rat.floor_le q
  have h2 : q < q.floor + 1 := by exact_mod_cast Rat.lt_floor_add_one q
  have hhalf : mkRat 1 2 = (1 : ℚ) / 2 := by rw [Rat.mkRat_eq_div]; norm_num
  unfold roundHalfEven
  simp only [hhalf]
  rw [abs_le]
  split
  · rename_i h
    constructor <;> linarith
  · rename_i h
    have h := not_lt.1 h
    split
    · push_cast
      constructor <;> linarith
    · rename_i h'
      have h' := not_lt.1 h'
      split
      · constructor <;> linarith
      · push_cast
        constructor <;> linarith

theorem roundHalfEven_int (m : Int) : roundHalfEven (m : ℚ) = m := by
  have hf : (m : ℚ).floor = m := Rat.floor_intCast m
  unfold roundHalfEven
  simp only [hf, sub_self]
  rw [if_pos]
  rw [Rat.mkRat_eq_div]
  norm_num

theorem roundHalfEven_mono {q r : ℚ} (h : q ≤ r) : roundHalfEven q ≤ roundHalfEven r := by
  by_contra hlt
  have hlt : roundHalfEven r + 1 ≤ roundHalfEven q := by omega
  have hq := abs_le.1 (roundHalfEven_near q)
  have hr := abs_le.1 (roundHalfEven_near r)
  have hc : (roundHalfEven r : ℚ) + 1 ≤ roundHalfEven q := by exact_mod_cast hlt
  -- a step up against the order leaves only a tie of equal numbers
  have : q = r := by linarith
  rw [this] at hlt
  omega

/-! ## The nearest double -/

/-- The weight of a unit in the last place of the doubles near `q`. -/
def ulp (q : ℚ) : Int := max (exponent q - 52) (-1074)

/-- The nearest double to a positive number, with no bound on its exponent. -/
def nearest (q : ℚ) : ℚ := roundHalfEven (q / pow2 (ulp q)) * pow2 (ulp q)

theorem roundMagnitude_pos {q : ℚ} (h : 0 < q) :
    roundMagnitude q = if pow2 1024 ≤ nearest q then none else some (nearest q) := by
  unfold roundMagnitude
  rw [if_neg h.ne']
  rfl

/-- The numbers with a significand of 53 bits and an exponent that is not
below that of the subnormals. -/
def Representable (x : ℚ) : Prop := ∃ (m : Nat) (e : Int), x = m * pow2 e ∧ m < 2 ^ 53 ∧ -1074 ≤ e

theorem representable_nat {n : Nat} (h : n < 2 ^ 53) : Representable n :=
  ⟨n, 0, by simp [pow2_eq], h, by omega⟩

theorem representable_pow2 {e : Int} (h : -1074 ≤ e) : Representable (pow2 e) :=
  ⟨1, e, by simp, by norm_num, h⟩

theorem nearest_near (q : ℚ) : |nearest q - q| ≤ pow2 (ulp q) / 2 := by
  have hu := pow2_pos (ulp q)
  have h := roundHalfEven_near (q / pow2 (ulp q))
  have hq :
      nearest q - q = (roundHalfEven (q / pow2 (ulp q)) - q / pow2 (ulp q)) * pow2 (ulp q) := by
    unfold nearest
    field_simp
  rw [hq, abs_mul, abs_of_pos hu]
  have := mul_le_mul_of_nonneg_right h hu.le
  linarith

/-- The multiples of the last place keep their side. -/
theorem nearest_ge_multiple {q : ℚ} {k : Int} (h : k * pow2 (ulp q) ≤ q) :
    k * pow2 (ulp q) ≤ nearest q := by
  have hu := pow2_pos (ulp q)
  have hk : (k : ℚ) ≤ q / pow2 (ulp q) := (le_div_iff₀ hu).2 h
  have := roundHalfEven_mono hk
  rw [roundHalfEven_int] at this
  exact mul_le_mul_of_nonneg_right (by exact_mod_cast this) hu.le

theorem nearest_le_multiple {q : ℚ} {k : Int} (h : q ≤ k * pow2 (ulp q)) :
    nearest q ≤ k * pow2 (ulp q) := by
  have hu := pow2_pos (ulp q)
  have hk : q / pow2 (ulp q) ≤ (k : ℚ) := (div_le_iff₀ hu).2 h
  have := roundHalfEven_mono hk
  rw [roundHalfEven_int] at this
  exact mul_le_mul_of_nonneg_right (by exact_mod_cast this) hu.le

/-- A representable number is a multiple of the last place of `q`, or lies
below the binade of `q`. -/
theorem representable_multiple {x q : ℚ} (hx : Representable x) :
    (∃ k : Int, x = k * pow2 (ulp q)) ∨ (x < pow2 (exponent q) ∧ ulp q = exponent q - 52) := by
  obtain ⟨m, e, rfl, hm, he⟩ := hx
  by_cases h : ulp q ≤ e
  · refine .inl ⟨m * 2 ^ (e - ulp q).toNat, ?_⟩
    have hsplit : pow2 e = pow2 (e - ulp q) * pow2 (ulp q) := by
      rw [← pow2_add]
      congr 1
      omega
    have hpow : pow2 (e - ulp q) = ((2 ^ (e - ulp q).toNat : Nat) : ℚ) := by
      rw [← pow2_nat]
      congr 1
      omega
    rw [hsplit, hpow]
    push_cast
    ring
  · have hulp : ulp q = exponent q - 52 := by
      unfold ulp at h ⊢
      omega
    refine .inr ⟨?_, hulp⟩
    have hm' : (m : ℚ) < pow2 53 := by
      rw [show (53 : Int) = ((53 : Nat) : Int) from rfl, pow2_nat]
      exact_mod_cast hm
    calc (m : ℚ) * pow2 e < pow2 53 * pow2 e := mul_lt_mul_of_pos_right hm' (pow2_pos e)
      _ = pow2 (53 + e) := (pow2_add 53 e).symm
      _ ≤ pow2 (exponent q) := pow2_mono (by omega)

/-- The start of the binade is a multiple of the last place. -/
theorem binade_multiple {q : ℚ} (h : ulp q = exponent q - 52) :
    pow2 (exponent q) = ((2 ^ 52 : Int) : ℚ) * pow2 (ulp q) := by
  have : pow2 (exponent q) = pow2 ((52 : Nat) : Int) * pow2 (ulp q) := by
    rw [← pow2_add]
    congr 1
    omega
  rw [this, pow2_nat]
  norm_num

theorem nearest_ge {x q : ℚ} (hq : 0 < q) (hx : Representable x) (h : x ≤ q) : x ≤ nearest q := by
  rcases representable_multiple (q := q) hx with ⟨k, rfl⟩ | ⟨hlt, hulp⟩
  · exact nearest_ge_multiple h
  · have hb := (exponent_spec hq).1
    rw [binade_multiple hulp] at hb hlt
    exact hlt.le.trans (nearest_ge_multiple hb)

theorem nearest_le {x q : ℚ} (hq : 0 < q) (hx : Representable x) (h : q ≤ x) : nearest q ≤ x := by
  rcases representable_multiple (q := q) hx with ⟨k, rfl⟩ | ⟨hlt, -⟩
  · exact nearest_le_multiple h
  · exact absurd (h.trans_lt hlt) (not_lt.2 (exponent_spec hq).1)

theorem nearest_representable {q : ℚ} (hq : 0 < q) : Representable (nearest q) := by
  have hu := pow2_pos (ulp q)
  have hulp : -1074 ≤ ulp q := le_max_right _ _
  have h0 : 0 ≤ roundHalfEven (q / pow2 (ulp q)) := by
    have := roundHalfEven_mono (q := ((0 : Int) : ℚ)) (r := q / pow2 (ulp q))
      (by simpa using (div_pos hq hu).le)
    rwa [roundHalfEven_int] at this
  have h53 : roundHalfEven (q / pow2 (ulp q)) ≤ 2 ^ 53 := by
    have hlt : q / pow2 (ulp q) ≤ ((2 ^ 53 : Int) : ℚ) := by
      rw [div_le_iff₀ hu]
      have hle : pow2 (exponent q + 1) ≤ pow2 (((53 : Nat) : Int) + ulp q) := pow2_mono (by
        have := le_max_left (exponent q - 52) (-1074)
        unfold ulp
        omega)
      rw [pow2_add ((53 : Nat) : Int), pow2_nat] at hle
      have := (exponent_spec hq).2.le.trans hle
      push_cast at this ⊢
      exact this
    have := roundHalfEven_mono hlt
    rwa [roundHalfEven_int] at this
  obtain ⟨m, hm⟩ := Int.eq_ofNat_of_zero_le h0
  rw [hm] at h53
  unfold nearest
  rw [hm]
  by_cases hlast : m = 2 ^ 53
  · -- rounding up to the next binade
    refine ⟨2 ^ 52, ulp q + 1, ?_, by norm_num, by omega⟩
    rw [hlast, pow2_add, pow2_eq 1]
    push_cast
    ring
  · exact ⟨m, ulp q, rfl, by omega, hulp⟩

theorem nearest_fixed {q : ℚ} (hq : 0 < q) : nearest q = q ↔ Representable q :=
  ⟨fun h => h ▸ nearest_representable hq,
    fun h => le_antisymm (nearest_le hq h (le_refl q)) (nearest_ge hq h (le_refl q))⟩

/-- A double keeps 53 bits. -/
theorem nearest_relative {q : ℚ} (h : pow2 (-1022) ≤ q) : |nearest q - q| ≤ q / 2 ^ 53 := by
  have hq : 0 < q := (pow2_pos _).trans_le h
  obtain ⟨hlo, hhi⟩ := exponent_spec hq
  have hexp : -1022 ≤ exponent q := by
    by_contra hlt
    have := hhi.trans_le (pow2_mono (show exponent q + 1 ≤ -1022 by omega))
    linarith
  have hulp : ulp q = exponent q + -52 := by
    unfold ulp
    omega
  have hlast : pow2 (-52) = 1 / 2 ^ 52 := by
    rw [pow2_eq]
    norm_num
  refine (nearest_near q).trans ?_
  rw [hulp, pow2_add, hlast]
  linarith

/-! ## Natural numbers -/

theorem ofRat_pos {q : ℚ} (h : 0 < q) :
    ofRat q = if pow2 1024 ≤ nearest q then .posInf else .finite (nearest q) := by
  unfold ofRat
  rw [if_neg (not_lt.2 h.le), roundMagnitude_pos h]
  by_cases hmax : pow2 1024 ≤ nearest q
  · rw [if_pos hmax, if_pos hmax]
  · rw [if_neg hmax, if_neg hmax]

theorem ofRat_zero : ofRat 0 = .finite 0 := by
  unfold ofRat roundMagnitude
  simp

theorem natural_lt {n : Nat} (h : n < 2 ^ 53) : (n : ℚ) < pow2 1024 := by
  have h53 : (n : ℚ) < pow2 ((53 : Nat) : Int) := by
    rw [pow2_nat]
    exact_mod_cast h
  exact h53.trans_le (pow2_mono (by omega))

/-- Below `2 ^ 53` a natural number is a double. -/
theorem natural_small {n : Nat} (h : n < 2 ^ 53) : (ofRat n).asNatural = some n := by
  rcases Nat.eq_zero_or_pos n with rfl | hn
  · rw [Nat.cast_zero, ofRat_zero]
    rfl
  · have hq : (0 : ℚ) < n := by exact_mod_cast hn
    have hfix := (nearest_fixed hq).2 (representable_nat h)
    rw [ofRat_pos hq, hfix, if_neg (not_le.2 (natural_lt h))]
    exact asNatural_ofNat n

/-- From `2 ^ 53` on it may move, but not below `2 ^ 53`. -/
theorem natural_large {n w : Nat} (h : 2 ^ 53 ≤ n) (hw : (ofRat n).asNatural = some w) :
    2 ^ 53 ≤ w := by
  have hn : (((2 ^ 53 : Nat)) : ℚ) ≤ n := by exact_mod_cast h
  have hq : (0 : ℚ) < n := lt_of_lt_of_le (by norm_num) hn
  rw [ofRat_pos hq] at hw
  split at hw
  · cases hw
  · have hfin := asNatural_some.1 hw
    have hw' : nearest n = w := by
      unfold ofNat at hfin
      injection hfin
    have hge : pow2 ((53 : Nat) : Int) ≤ nearest n :=
      nearest_ge hq (representable_pow2 (by omega)) (by rw [pow2_nat]; exact hn)
    rw [hw', pow2_nat] at hge
    exact_mod_cast hge

/-! ## Digit strings -/

theorem digit_ten {c : Char} (h : isDigit c = true) :
    digit 10 c = some (c.toNat - '0'.toNat) ∧ 48 ≤ c.toNat ∧ c.toNat ≤ 57 := by
  unfold isDigit at h
  have hc : 48 ≤ c.toNat ∧ c.toNat ≤ 57 := by
    by_contra hc
    unfold digit at h
    simp only [if_neg hc] at h
    split_ifs at h <;> first | omega | cases h
  refine ⟨?_, hc⟩
  unfold digit
  simp only [if_pos hc]
  rw [if_pos (by omega)]
  rfl

theorem ofDigits_digits {ds : List Char} (h : ∀ c ∈ ds, isDigit c = true) :
    ofDigits 10 ds = some (Nat.ofDigitChars 10 ds 0) := by
  have hgen : ∀ (ds : List Char) (v : Nat), (∀ c ∈ ds, isDigit c = true) →
      ds.foldl (fun acc c => acc.bind fun v => (digit 10 c).map (v * 10 + ·)) (some v) =
        some (Nat.ofDigitChars 10 ds v) := by
    intro ds
    induction ds with
    | nil => intro v _; simp
    | cons c ds ih =>
      intro v h
      rw [List.foldl_cons, Option.bind_some, (digit_ten (h c List.mem_cons_self)).1,
        Option.map_some,
        Nat.ofDigitChars_cons, Nat.mul_comm 10 v]
      exact ih _ fun d hd => h d (List.mem_cons_of_mem _ hd)
  exact hgen ds 0 h

theorem isSpace_digit {c : Char} (h : isDigit c = true) : isSpace c = false := by
  obtain ⟨-, h1, h2⟩ := digit_ten h
  unfold isSpace
  simp only [Bool.or_eq_false_iff, Bool.and_eq_false_iff, decide_eq_false_iff_not,
    beq_eq_false_iff_ne]
  omega

theorem trimChars_digits {ds : List Char} (h : ∀ c ∈ ds, isDigit c = true) : trimChars ds = ds := by
  have hd : ∀ l : List Char, (∀ c ∈ l, isDigit c = true) → l.dropWhile isSpace = l := by
    intro l hl
    cases l with
    | nil => rfl
    | cons c l => rw [List.dropWhile_cons, isSpace_digit (hl c List.mem_cons_self)]; rfl
  unfold trimChars
  rw [hd ds h, hd ds.reverse fun c hc => h c (List.mem_reverse.1 hc), List.reverse_reverse]

theorem decimalLiteral_digits {ds : List Char} (hne : ds ≠ []) (h : ∀ c ∈ ds, isDigit c = true) :
    decimalLiteral ds = some (Nat.ofDigitChars 10 ds 0 : ℚ) := by
  have htake : ds.takeWhile isDigit = ds := List.takeWhile_eq_self_iff.2 h
  have hdrop : ds.dropWhile isDigit = [] := List.dropWhile_eq_nil_iff.2 h
  have hempty : ds.isEmpty = false := by
    rw [List.isEmpty_eq_false_iff]
    exact hne
  unfold decimalLiteral
  simp [htake, hdrop, hempty, ofDigits_digits h]

/-- `Number(s)` of a string of digits is the double nearest to what it writes. -/
theorem ofString_digits {ds : List Char} (hne : ds ≠ []) (h : ∀ c ∈ ds, isDigit c = true) :
    ofString (String.ofList ds) = ofRat (Nat.ofDigitChars 10 ds 0) := by
  have hx : ∀ c : Char, isDigit c = true → 48 ≤ c.toNat ∧ c.toNat ≤ 57 :=
    fun c hc => (digit_ten hc).2
  have hbad : ∀ {c : Char}, c ∈ ds → ¬ (48 ≤ c.toNat ∧ c.toNat ≤ 57) → False :=
    fun hm hn => hn (hx _ (h _ hm))
  unfold ofString
  rw [String.toList_ofList, trimChars_digits h]
  simp only
  split
  · exact absurd rfl hne
  · exact (hbad (c := 'x') (by simp) (by decide)).elim
  · exact (hbad (c := 'X') (by simp) (by decide)).elim
  · exact (hbad (c := 'o') (by simp) (by decide)).elim
  · exact (hbad (c := 'O') (by simp) (by decide)).elim
  · exact (hbad (c := 'b') (by simp) (by decide)).elim
  · exact (hbad (c := 'B') (by simp) (by decide)).elim
  · have hsigned : signed ds = (false, ds) := by
      unfold signed
      split
      · exact (hbad (c := '-') (by simp) (by decide)).elim
      · exact (hbad (c := '+') (by simp) (by decide)).elim
      · rfl
    have hinf : ds ≠ "Infinity".toList := by
      intro e
      exact hbad (c := 'I') (by rw [e]; decide) (by decide)
    rw [hsigned]
    simp only
    rw [if_neg hinf, decimalLiteral_digits hne h]
    rfl

/-- The natural number a string of digits is read as: the number it writes
below `2 ^ 53`; from there on none, or one that is not smaller either. -/
theorem natural_digits {ds : List Char} (hne : ds ≠ []) (h : ∀ c ∈ ds, isDigit c = true) :
    (Nat.ofDigitChars 10 ds 0 < 2 ^ 53 →
      (ofString (String.ofList ds)).asNatural = some (Nat.ofDigitChars 10 ds 0)) ∧
    (2 ^ 53 ≤ Nat.ofDigitChars 10 ds 0 →
      ∀ w, (ofString (String.ofList ds)).asNatural = some w → 2 ^ 53 ≤ w) := by
  rw [ofString_digits hne h]
  exact ⟨natural_small, fun hl w hw => natural_large hl hw⟩

theorem nearest_natural {n : Nat} (hn : 0 < n) : ∃ w : Nat, nearest n = w := by
  have hq : (0 : ℚ) < n := by exact_mod_cast hn
  by_cases hsmall : n < 2 ^ 53
  · exact ⟨n, (nearest_fixed hq).2 (representable_nat hsmall)⟩
  · -- the last place weighs a natural number
    have h53 : pow2 ((53 : Nat) : Int) ≤ (n : ℚ) := by
      rw [pow2_nat]
      exact_mod_cast Nat.not_lt.1 hsmall
    have hexp : 53 ≤ exponent (n : ℚ) := by
      by_contra hlt
      have := (exponent_spec hq).2.trans_le
        (pow2_mono (show exponent (n : ℚ) + 1 ≤ ((53 : Nat) : Int) by omega))
      exact absurd h53 (not_le.2 this)
    obtain ⟨u, hu⟩ : ∃ u : Nat, ulp (n : ℚ) = u := Int.eq_ofNat_of_zero_le (by unfold ulp; omega)
    have hpos : 0 ≤ nearest (n : ℚ) :=
      (pow2_pos _).le.trans (nearest_ge hq (representable_pow2 (by omega)) h53)
    have hround : 0 ≤ roundHalfEven ((n : ℚ) / pow2 (ulp n)) := by
      have hle : (0 : ℚ) ≤ roundHalfEven ((n : ℚ) / pow2 (ulp n)) :=
        nonneg_of_mul_nonneg_left hpos (pow2_pos _)
      exact_mod_cast hle
    obtain ⟨k, hk⟩ := Int.eq_ofNat_of_zero_le hround
    refine ⟨k * 2 ^ u, ?_⟩
    unfold nearest
    rw [hk, hu, pow2_nat]
    push_cast
    ring

/-- When a natural number is read as itself, if as a number at all. -/
theorem natural_exact {n : Nat} : (∀ w, (ofRat n).asNatural = some w → w = n) ↔
    Representable n ∨ pow2 1024 ≤ nearest n := by
  rcases Nat.eq_zero_or_pos n with rfl | hn
  · refine iff_of_true (fun w hw => ?_) (.inl (representable_nat (by decide)))
    rw [Nat.cast_zero, ofRat_zero] at hw
    exact (Option.some.inj hw).symm
  · have hq : (0 : ℚ) < n := by exact_mod_cast hn
    rw [ofRat_pos hq]
    by_cases hmax : pow2 1024 ≤ nearest (n : ℚ)
    · rw [if_pos hmax]
      exact iff_of_true nofun (.inr hmax)
    · obtain ⟨w, hw⟩ := nearest_natural hn
      rw [if_neg hmax, hw, or_iff_left (hw ▸ hmax), ← nearest_fixed hq, hw]
      constructor
      · intro h
        rw [h w (asNatural_ofNat w)]
      · intro h v hv
        have he : ofNat w = ofNat v := asNatural_some.1 hv
        have hn : w = n := by exact_mod_cast h
        have hv : w = v := by
          unfold ofNat at he
          injection he with he
          exact_mod_cast he
        exact hv ▸ hn

/-! ## Literals -/

/-- The number that a `StringNumericLiteral` writes, before it is rounded. -/
def literal (s : String) : Option ℚ :=
  let radix (base : Nat) (ds : List Char) : Option ℚ :=
    if ds.isEmpty then none else (ofDigits base ds).map fun (n : Nat) => (n : ℚ)
  match trimChars s.toList with
  | [] => some 0
  | '0' :: 'x' :: ds => radix 16 ds
  | '0' :: 'X' :: ds => radix 16 ds
  | '0' :: 'o' :: ds => radix 8 ds
  | '0' :: 'O' :: ds => radix 8 ds
  | '0' :: 'b' :: ds => radix 2 ds
  | '0' :: 'B' :: ds => radix 2 ds
  | cs =>
    let (neg, ds) := signed cs
    if ds = "Infinity".toList then none else (decimalLiteral ds).map fun q => if neg then -q else q

/-- `Number(s)` is a natural number when the double nearest to the literal is. -/
theorem natural_literal (s : String) :
    (ofString s).asNatural = (literal s).bind fun q => (ofRat q).asNatural := by
  have hradix : ∀ (b : Bool) (x : Option Nat) (v : JsNumber), (x = none → v = nan) →
      (∀ n : Nat, x = some n → v = ofRat n) →
      (if b then nan else v).asNatural =
        (if b then none else x.map fun (n : Nat) => (n : ℚ)).bind fun q => (ofRat q).asNatural := by
    intro b x v hnone hsome
    split
    · rfl
    · cases x with
      | none => rw [hnone rfl]; rfl
      | some n => rw [hsome n rfl]; rfl
  have hplain : ∀ (neg : Bool) (ds : List Char) (v : JsNumber),
      (decimalLiteral ds = none → v = nan) →
      (∀ q, decimalLiteral ds = some q → v = ofRat (if neg then -q else q)) →
      (if ds = "Infinity".toList then if neg then negInf else posInf else v).asNatural =
        (if ds = "Infinity".toList then none else
          (decimalLiteral ds).map fun q =>
            if neg then -q else q).bind fun q => (ofRat q).asNatural := by
    intro neg ds v hnone hsome
    split
    · split <;> rfl
    · cases hds : decimalLiteral ds with
      | none => rw [hnone hds]; rfl
      | some q => rw [hsome q hds]; rfl
  unfold literal
  split
  · rename_i hcs
    simp only [ofString, hcs]
    rw [Option.bind_some, ofRat_zero]
  · rename_i hcs
    simp only [ofString, hcs]
    exact hradix _ _ _ (fun h => by rw [h]) fun n h => by rw [h]
  · rename_i hcs
    simp only [ofString, hcs]
    exact hradix _ _ _ (fun h => by rw [h]) fun n h => by rw [h]
  · rename_i hcs
    simp only [ofString, hcs]
    exact hradix _ _ _ (fun h => by rw [h]) fun n h => by rw [h]
  · rename_i hcs
    simp only [ofString, hcs]
    exact hradix _ _ _ (fun h => by rw [h]) fun n h => by rw [h]
  · rename_i hcs
    simp only [ofString, hcs]
    exact hradix _ _ _ (fun h => by rw [h]) fun n h => by rw [h]
  · rename_i hcs
    simp only [ofString, hcs]
    exact hradix _ _ _ (fun h => by rw [h]) fun n h => by rw [h]
  · -- the match of `ofString` takes its last branch too
    rename_i hempty hx hX ho hO hb hB
    unfold ofString
    simp only
    exact hplain _ _ _ (fun h => by rw [h]) fun q h => by rw [h]

/-! ## Signs -/

/-- `Math.round(n)`: a tie goes up. -/
def round : JsNumber → JsNumber
  | .finite q => .finite ((q + 1 / 2).floor : Int)
  | n => n

theorem nearest_nonneg {q : ℚ} (h : 0 < q) : 0 ≤ nearest q := by
  have hzero := nearest_ge h (representable_nat (show 0 < 2 ^ 53 by decide))
    (by exact_mod_cast h.le)
  exact_mod_cast hzero

theorem ofRat_neg {q : ℚ} (h : q < 0) :
    ofRat q = if pow2 1024 ≤ nearest (-q) then .negInf else .finite (-nearest (-q)) := by
  have hpos : 0 < -q := by linarith
  unfold ofRat
  rw [if_pos h, roundMagnitude_pos hpos]
  by_cases hmax : pow2 1024 ≤ nearest (-q)
  · rw [if_pos hmax, if_pos hmax]
  · rw [if_neg hmax, if_neg hmax]

/-! ## Decimal notation -/

/-- The number that decimal notation writes, with white space around it. -/
def decimalText (s : String) : Option ℚ :=
  (decimalLiteral (signed (trimChars s.toList)).2).map fun q =>
    if (signed (trimChars s.toList)).1 then -q else q

theorem decimalLiteral_tenths {ds : List Char} {q : ℚ} (h : decimalLiteral ds = some q) :
    ∃ m k : Nat, q * 10 ^ k = m := by
  have hend : ∀ (m : Nat) (k : Int), ∃ a b : Nat,
      (if 0 ≤ k then ((m * 10 ^ k.toNat : Nat) : ℚ) else mkRat m (10 ^ (-k).toNat)) * 10 ^ b =
        a := by
    intro m k
    split
    · exact ⟨m * 10 ^ k.toNat, 0, by simp⟩
    · refine ⟨m, (-k).toNat, ?_⟩
      rw [Rat.mkRat_eq_div]
      push_cast
      exact div_mul_cancel₀ _ (by positivity)
  unfold decimalLiteral at h
  simp only [Option.bind_eq_bind, Option.pure_def] at h
  split at h
  all_goals
    split at h
    · cases h
    · obtain ⟨m, -, h⟩ := Option.bind_eq_some_iff.1 h
      split at h
      · obtain ⟨e, -, h⟩ := Option.bind_eq_some_iff.1 h
        exact Option.some.inj h ▸ hend m _
      · split at h
        · split at h
          · cases h
          · obtain ⟨e, -, h⟩ := Option.bind_eq_some_iff.1 h
            exact Option.some.inj h ▸ hend m _
        · cases h

theorem decimalText_tenths {s : String} {d : ℚ} (h : decimalText s = some d) :
    ∃ (m : Int) (k : Nat), d * 10 ^ k = m := by
  obtain ⟨q, hq, rfl⟩ := Option.map_eq_some_iff.1 h
  obtain ⟨m, k, hk⟩ := decimalLiteral_tenths hq
  cases (signed (trimChars s.toList)).1 with
  | true => exact ⟨-m, k, by simp [hk]⟩
  | false => exact ⟨m, k, by simp [hk]⟩

theorem ofString_decimal {s : String} {d : ℚ} (h : decimalText s = some d) :
    ofString s = ofRat d := by
  unfold decimalText at h
  unfold ofString
  generalize trimChars s.toList = cs at h ⊢
  simp only
  obtain ⟨q, hq, rfl⟩ := Option.map_eq_some_iff.1 h
  split
  · cases hq
  · cases hq
  · cases hq
  · cases hq
  · cases hq
  · cases hq
  · cases hq
  · have hinf : (signed cs).2 ≠ "Infinity".toList := by
      intro e
      rw [e] at hq
      cases hq
    rw [if_neg hinf, hq]

end GlanceVault.L1.Js.JsNumber
