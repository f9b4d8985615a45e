import GlanceVault.L1Encoding.Doubles
/-!
# Where rounding switches

A cut is an upper half of the rationals. Rounding to the nearest double is
monotone, so what is rounded to a double `x` or to one above it is a cut
(`Cut.rounding x`): from half the last place below `x` on. And the doubles in a
cut are those from a least one on (`Cut.least`). So the cut of a chain of
roundings and products is found from its end, without rounding anything.

* `rounding_reached`: what is rounded to `x` or above.
* `least_le`: the least double of a cut.
* `scaled_reached`: a product with a positive factor.
-/
namespace GlanceVault.L1.Js.JsNumber

/-- The numbers above `point`, and `point` itself if the cut is closed. -/
structure Cut where
  point : ℚ
  closed : Bool
  deriving DecidableEq

namespace Cut

def reached (c : Cut) (q : ℚ) : Prop := c.point < q ∨ c.closed = true ∧ c.point = q

instance (c : Cut) (q : ℚ) : Decidable (c.reached q) := inferInstanceAs (Decidable (_ ∨ _))

/-- The weight of a unit in the last place of the doubles just below `x`. -/
def ulpBelow (x : ℚ) : Int := if x = pow2 (exponent x) then max (exponent x - 53) (-1074) else ulp x

/-- What is rounded to the double `x` or above. The middle between `x` and the
double before it is, if `x` is even there. -/
def rounding (x : ℚ) : Cut :=
  ⟨x - pow2 (ulpBelow x) / 2, decide (2 ∣ (x / pow2 (ulpBelow x)).floor)⟩

/-- The least double of a cut. -/
def least (c : Cut) : ℚ :=
  if c.closed then (c.point / pow2 (ulp c.point)).ceil * pow2 (ulp c.point)
  else ((c.point / pow2 (ulp c.point)).floor + 1) * pow2 (ulp c.point)

/-- The numbers whose product with `u` is in the cut. -/
def scaled (c : Cut) (u : ℚ) : Cut := ⟨c.point / u, c.closed⟩

theorem scaled_reached {c : Cut} {u q : ℚ} (hu : 0 < u) :
    (c.scaled u).reached q ↔ c.reached (q * u) := by
  unfold reached scaled
  rw [div_lt_iff₀ hu, div_eq_iff hu.ne']

/-! ## The doubles below a double -/

section Below
variable {x q : ℚ}

theorem exponent_unique (hq : 0 < q) {e : Int} (h1 : pow2 e ≤ q) (h2 : q < pow2 (e + 1)) :
    exponent q = e := by
  obtain ⟨h3, h4⟩ := exponent_spec hq
  have hmono : ∀ {a b : Int}, pow2 a < pow2 b → a < b := fun {a b} h => by
    by_contra hab
    exact absurd (pow2_mono (not_lt.1 hab)) (not_le.2 h)
  have ha := hmono (h1.trans_lt h4)
  have hb := hmono (h3.trans_lt h2)
  omega

theorem ulpBelow_ge (x : ℚ) : -1074 ≤ ulpBelow x := by
  unfold ulpBelow ulp
  split <;> exact le_max_right _ _

/-- A power of two that is a double is a multiple of every last place below. -/
theorem pow2_multiple {d e : Int} (h : d ≤ e) : ∃ n : Nat, pow2 e = n * pow2 d := by
  refine ⟨2 ^ (e - d).toNat, ?_⟩
  rw [← pow2_nat, ← pow2_add]
  congr 1
  omega

theorem representable_exponent (hx : Representable x) (hx0 : 0 < x) : -1074 ≤ exponent x := by
  obtain ⟨m, e, rfl, -, he⟩ := hx
  by_contra hlt
  have hm : (1 : ℚ) ≤ m := by
    have hm0 : m ≠ 0 := by
      rintro rfl
      simp at hx0
    exact_mod_cast Nat.one_le_iff_ne_zero.2 hm0
  have h1 :=
    (exponent_spec hx0).2.trans_le (pow2_mono (show exponent ((m : ℚ) * pow2 e) + 1 ≤ e by omega))
  nlinarith [pow2_pos e]

/-- A double in units of the last place below it. -/
theorem below_units (hx : Representable x) (hx0 : 0 < x) :
    ∃ n : Nat, 0 < n ∧ n ≤ 2 ^ 53 ∧ x = n * pow2 (ulpBelow x) := by
  have hs := pow2_pos (ulpBelow x)
  have hexp := representable_exponent hx hx0
  obtain ⟨hlo, hhi⟩ := exponent_spec hx0
  have hunits : ∃ n : Nat, x = n * pow2 (ulpBelow x) := by
    by_cases hpow : x = pow2 (exponent x)
    · unfold ulpBelow
      rw [if_pos hpow]
      obtain ⟨n, hn⟩ := pow2_multiple (show max (exponent x - 53) (-1074) ≤ exponent x by omega)
      exact ⟨n, hpow.trans hn⟩
    · unfold ulpBelow
      rw [if_neg hpow]
      rcases representable_multiple (q := x) hx with ⟨k, hk⟩ | ⟨hlt, -⟩
      · have hk0 : (0 : ℚ) < k := by
          by_contra hle
          nlinarith [pow2_pos (ulp x), not_lt.1 hle]
        obtain ⟨n, rfl⟩ := Int.eq_ofNat_of_zero_le (show 0 ≤ k by exact_mod_cast hk0.le)
        exact ⟨n, by exact_mod_cast hk⟩
      · exact absurd hlt (not_lt.2 hlo)
  obtain ⟨n, hn⟩ := hunits
  refine ⟨n, ?_, ?_, hn⟩
  · rcases Nat.eq_zero_or_pos n with rfl | h
    · rw [Nat.cast_zero, zero_mul] at hn
      exact absurd hn hx0.ne'
    · exact h
  · -- the significand of a double has 53 bits
    have hle : x ≤ pow2 (((53 : Nat) : Int) + ulpBelow x) := by
      by_cases hpow : x = pow2 (exponent x)
      · calc x = pow2 (exponent x) := hpow
          _ ≤ _ := pow2_mono (by unfold ulpBelow; rw [if_pos hpow]; omega)
      · exact hhi.le.trans (pow2_mono (by unfold ulpBelow ulp; rw [if_neg hpow]; omega))
    rw [pow2_add, pow2_nat] at hle
    have hcast : (n : ℚ) ≤ ((2 ^ 53 : Nat) : ℚ) := le_of_mul_le_mul_right (hn.symm.trans_le hle) hs
    exact_mod_cast hcast

/-- Up to a unit below a double, that unit is the last place. -/
theorem ulp_below (hx : Representable x) (hx0 : 0 < x) (hq : 0 < q) (h1 : x - pow2 (ulpBelow x) ≤ q)
    (h2 : q < x) : ulp q = ulpBelow x := by
  have hexp := representable_exponent hx hx0
  obtain ⟨hlo, hhi⟩ := exponent_spec hx0
  by_cases hpow : x = pow2 (exponent x)
  · have hbelow : ulpBelow x = max (exponent x - 53) (-1074) := by
      unfold ulpBelow
      rw [if_pos hpow]
    rw [hbelow] at h1 ⊢
    by_cases hsub : exponent x - 53 ≤ -1074
    · -- among the subnormals the last place is the same everywhere
      have hq' : exponent q < exponent x := by
        by_contra hge
        exact absurd (h2.trans_le (hpow.le.trans (pow2_mono (not_lt.1 hge))))
          (not_lt.2 (exponent_spec hq).1)
      unfold ulp
      omega
    · have hdouble : pow2 (exponent x) = pow2 (exponent x - 1) * 2 := by
        have hone : pow2 1 = 2 := by norm_num [pow2]
        rw [← hone, ← pow2_add]
        congr 1
        omega
      have hsmall : pow2 (max (exponent x - 53) (-1074)) ≤ pow2 (exponent x - 1) :=
        pow2_mono (by omega)
      have hq' : exponent q = exponent x - 1 := by
        refine exponent_unique hq (by linarith) ?_
        rw [show exponent x - 1 + 1 = exponent x by omega, ← hpow]
        exact h2
      unfold ulp
      rw [hq']
      omega
  · have hbelow : ulpBelow x = ulp x := by
      unfold ulpBelow
      rw [if_neg hpow]
    have hlt : pow2 (exponent x) < x := lt_of_le_of_ne hlo (Ne.symm hpow)
    have hq' : exponent q = exponent x := by
      refine exponent_unique hq ?_ (h2.trans hhi)
      obtain ⟨n, -, -, hn⟩ := below_units hx hx0
      obtain ⟨k, hk⟩ :=
        pow2_multiple (show ulpBelow x ≤ exponent x by rw [hbelow]; unfold ulp; omega)
      have hs := pow2_pos (ulpBelow x)
      have hkn : (k : ℚ) + 1 ≤ n := by
        have := lt_of_mul_lt_mul_right ((hk.symm.trans_lt hlt).trans_eq hn) hs.le
        exact_mod_cast this
      have hunit := mul_le_mul_of_nonneg_right hkn hs.le
      rw [add_mul, one_mul, ← hk, ← hn] at hunit
      linarith
    unfold ulp at hbelow ⊢
    rw [hq', hbelow]

end Below

/-! ## Rounding -/

/-- An integer is reached from half a unit before it on, the half itself if it is even. -/
theorem roundHalfEven_ge {r : ℚ} {n : Int} (h1 : (n : ℚ) - 1 ≤ r) (h2 : r < n) :
    n ≤ roundHalfEven r ↔ (n : ℚ) - 1 / 2 < r ∨ 2 ∣ n ∧ (n : ℚ) - 1 / 2 = r := by
  have hfloor : r.floor = n - 1 := by
    have hle : n - 1 ≤ r.floor := Rat.le_floor_iff.2 (by push_cast; exact h1)
    have hlt : r.floor < n := by
      have := (Rat.floor_le r).trans_lt h2
      exact_mod_cast this
    omega
  have hhalf : mkRat 1 2 = (1 : ℚ) / 2 := by rw [Rat.mkRat_eq_div]; norm_num
  unfold roundHalfEven
  simp only [hfloor, hhalf]
  push_cast
  rcases lt_trichotomy (r - ((n : ℚ) - 1)) (1 / 2) with hlt | heq | hgt
  · rw [if_pos hlt]
    refine iff_of_false (by omega) ?_
    rintro (h | ⟨-, h⟩) <;> linarith
  · rw [if_neg heq.not_lt, if_neg heq.not_gt]
    have hr : (n : ℚ) - 1 / 2 = r := by linarith
    constructor
    · intro h
      refine .inr ⟨?_, hr⟩
      split at h <;> omega
    · rintro (h | ⟨h, -⟩)
      · linarith
      · rw [if_neg (by omega)]
        omega
  · rw [if_neg hgt.le.not_gt, if_pos hgt]
    refine iff_of_true (by omega) (.inl (by linarith))

/-- **What is rounded to a double or above.** -/
theorem rounding_reached {x q : ℚ} (hx : Representable x) (hx0 : 0 < x) (hq : 0 < q) :
    (rounding x).reached q ↔ x ≤ nearest q := by
  obtain ⟨n, hn0, hn53, hn⟩ := below_units hx hx0
  have hs := pow2_pos (ulpBelow x)
  rcases le_or_gt x q with hle | hlt
  · refine iff_of_true (.inl ?_) (nearest_ge hq hx hle)
    show x - pow2 (ulpBelow x) / 2 < q
    linarith
  rcases le_or_gt (x - pow2 (ulpBelow x)) q with hnear | hfar
  · have hdiv : x / pow2 (ulpBelow x) = ((n : Int) : ℚ) := by
      rw [div_eq_iff hs.ne']
      exact_mod_cast hn
    have hr1 : ((n : Int) : ℚ) - 1 ≤ q / pow2 (ulpBelow x) := by
      rw [le_div_iff₀ hs, sub_mul, ← hdiv, div_mul_cancel₀ _ hs.ne']
      linarith
    have hr2 : q / pow2 (ulpBelow x) < ((n : Int) : ℚ) := by
      rw [← hdiv]
      exact (div_lt_div_iff_of_pos_right hs).2 hlt
    have hround : x ≤ nearest q ↔ (n : Int) ≤ roundHalfEven (q / pow2 (ulpBelow x)) := by
      unfold nearest
      rw [ulp_below hx hx0 hq hnear hlt]
      conv_lhs => lhs; rw [hn]
      rw [mul_le_mul_iff_left₀ hs]
      exact_mod_cast Iff.rfl
    have hpoint : ∀ r : ℚ, r / pow2 (ulpBelow x) = q / pow2 (ulpBelow x) ↔ r = q :=
      fun r => div_left_inj' hs.ne'
    have hmid : (x - pow2 (ulpBelow x) / 2) / pow2 (ulpBelow x) = ((n : Int) : ℚ) - 1 / 2 := by
      rw [← hdiv]
      field_simp
    rw [hround, roundHalfEven_ge hr1 hr2, ← hmid, div_lt_div_iff_of_pos_right hs, hpoint]
    unfold reached rounding
    simp only [hdiv, Rat.floor_intCast, decide_eq_true_eq]
  · refine iff_of_false ?_ (not_le.2 ?_)
    · rintro (h | ⟨-, h⟩)
      · have : x - pow2 (ulpBelow x) / 2 < q := h
        linarith
      · have : x - pow2 (ulpBelow x) / 2 = q := h
        linarith
    · -- it is not above the double before `x` either
      have hprev : Representable (x - pow2 (ulpBelow x)) := by
        refine ⟨n - 1, ulpBelow x, ?_, by omega, ulpBelow_ge x⟩
        rw [Nat.cast_sub hn0]
        conv_lhs => lhs; rw [hn]
        push_cast
        ring
      linarith [nearest_le hq hprev hfar.le]

/-! ## The least double -/

section Least
variable {c : Cut}

/-- A number of units of the last place, up to the end of the binade. -/
theorem representable_units {p : ℚ} (hp : 0 < p) {n : Int} (h0 : 0 ≤ n)
    (hn : n ≤ (p / pow2 (ulp p)).floor + 1) : Representable (n * pow2 (ulp p)) := by
  have hs := pow2_pos (ulp p)
  have hulp : -1074 ≤ ulp p := le_max_right _ _
  have h53 : n ≤ 2 ^ 53 := by
    have hlt : p / pow2 (ulp p) < ((2 ^ 53 : Int) : ℚ) := by
      rw [div_lt_iff₀ hs]
      have hle : pow2 (exponent p + 1) ≤ pow2 (((53 : Nat) : Int) + ulp p) :=
        pow2_mono (by unfold ulp; omega)
      rw [pow2_add ((53 : Nat) : Int), pow2_nat] at hle
      have := (exponent_spec hp).2.trans_le hle
      push_cast at this ⊢
      exact this
    have hfloor : ((p / pow2 (ulp p)).floor : ℚ) < ((2 ^ 53 : Int) : ℚ) :=
      (Rat.floor_le _).trans_lt hlt
    have : (p / pow2 (ulp p)).floor < 2 ^ 53 := by exact_mod_cast hfloor
    omega
  obtain ⟨m, rfl⟩ := Int.eq_ofNat_of_zero_le h0
  by_cases hlast : m = 2 ^ 53
  · -- the next binade begins
    refine ⟨2 ^ 52, ulp p + 1, ?_, by norm_num, by omega⟩
    rw [hlast, pow2_add, pow2_eq 1]
    push_cast
    ring
  · exact ⟨m, ulp p, by push_cast; rfl, by omega, hulp⟩

/-- **The doubles in a cut are those from the least one on.** -/
theorem least_le (hc : 0 < c.point) {x : ℚ} (hx : Representable x) : c.least ≤ x ↔ c.reached x := by
  have hs := pow2_pos (ulp c.point)
  have hceil : c.point ≤ (c.point / pow2 (ulp c.point)).ceil * pow2 (ulp c.point) := by
    rw [← div_le_iff₀ hs]
    exact Rat.le_ceil
  have hfloor : c.point < ((c.point / pow2 (ulp c.point)).floor + 1) * pow2 (ulp c.point) := by
    rw [← div_lt_iff₀ hs]
    exact_mod_cast Rat.lt_floor_add_one _
  unfold least reached
  cases hclosed : c.closed with
  | true =>
    simp only [if_pos, true_and]
    rw [← le_iff_lt_or_eq]
    refine ⟨hceil.trans, fun h => ?_⟩
    rcases representable_multiple (q := c.point) hx with ⟨k, rfl⟩ | ⟨hlt, -⟩
    · have hk : (c.point / pow2 (ulp c.point)).ceil ≤ k := Rat.ceil_le_iff.2 ((div_le_iff₀ hs).2 h)
      exact mul_le_mul_of_nonneg_right (by exact_mod_cast hk) hs.le
    · exact absurd (hlt.trans_le ((exponent_spec hc).1.trans h)) (lt_irrefl _)
  | false =>
    simp only [Bool.false_eq_true, if_false, false_and, or_false]
    refine ⟨hfloor.trans_le, fun h => ?_⟩
    rcases representable_multiple (q := c.point) hx with ⟨k, rfl⟩ | ⟨hlt, -⟩
    · have hk : (c.point / pow2 (ulp c.point)).floor < k := by
        have := (Rat.floor_le (c.point / pow2 (ulp c.point))).trans_lt ((div_lt_iff₀ hs).2 h)
        exact_mod_cast this
      exact mul_le_mul_of_nonneg_right (by exact_mod_cast hk) hs.le
    · exact absurd (hlt.trans_le ((exponent_spec hc).1.trans h.le)) (lt_irrefl _)

theorem least_representable (hc : 0 < c.point) : Representable c.least := by
  have hs := pow2_pos (ulp c.point)
  have hfloor : 0 ≤ (c.point / pow2 (ulp c.point)).floor :=
    Rat.le_floor_iff.2 (by simpa using (div_pos hc hs).le)
  unfold least
  split
  · refine representable_units hc ?_ ?_
    · exact hfloor.trans
        (by exact_mod_cast (Rat.floor_le (c.point / pow2 (ulp c.point))).trans Rat.le_ceil)
    · rw [Rat.ceil_le_iff]
      exact (Rat.lt_floor_add_one _).le
  · have := representable_units hc (n := (c.point / pow2 (ulp c.point)).floor + 1)
      (by omega) (le_refl _)
    push_cast at this
    exact this

theorem least_pos (hc : 0 < c.point) : 0 < c.least := by
  rcases (least_le hc (least_representable hc)).1 (le_refl _) with h | ⟨-, h⟩
  · exact hc.trans h
  · exact h ▸ hc

theorem rounding_pos {x : ℚ} (hx : Representable x) (hx0 : 0 < x) : 0 < (rounding x).point := by
  obtain ⟨n, hn0, -, hn⟩ := below_units hx hx0
  have hs := pow2_pos (ulpBelow x)
  have hn1 : (1 : ℚ) ≤ n := by exact_mod_cast hn0
  show 0 < x - pow2 (ulpBelow x) / 2
  nlinarith

end Least

end Cut

end GlanceVault.L1.Js.JsNumber
