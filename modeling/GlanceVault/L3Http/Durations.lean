import GlanceVault.L1Encoding.Cuts
/-!
# Durations (`config.ts`, `index.ts`)

The settings that are times, from the operator's text to the timers and the
cutoffs of the sweeps. A setting is checked in its own unit; what the process
works with is the product with the unit, rounded to a double and then to a
whole number of milliseconds, which nothing checks.

* `resolveDuration_ok`, `resolved_eq`: an accepted text, and what becomes of it.
* `switch_reached`: the doubles go from one millisecond to the next at a point of
  the unit's own, next to that of the decimals.
* `steady_iff`: a value is the product rounded exactly if its decimal lies
  between no two such points.
* `durations_sound`: which settings end in a sound timer and a valid cutoff.
-/
namespace GlanceVault.L3
open GlanceVault.L1 GlanceVault.L1.Js GlanceVault.L1.Js.JsNumber

/-! ## Settings -/

inductive Setting
  | grace
  | deadDevice
  | reclaimInterval
  | rateLimitWindow
  | uploadTtl
  | sweepInterval
  deriving DecidableEq

/-- mirrors src/config.ts:204 -/
def dayMs : Nat := 24 * 60 * 60 * 1000

def Setting.unitMs : Setting → Nat
  | .grace => dayMs
  | .deadDevice => dayMs
  | .reclaimInterval => 60 * 1000
  | .rateLimitWindow => 1000
  | .uploadTtl => 60 * 60 * 1000
  | .sweepInterval => 60 * 1000

/-- mirrors src/config.ts:207-217 -/
def Setting.defaultMs : Setting → Nat
  | .grace => 30 * dayMs
  | .deadDevice => 90 * dayMs
  | .reclaimInterval => 60 * 60 * 1000
  | .rateLimitWindow => 60 * 1000
  | .uploadTtl => 24 * 60 * 60 * 1000
  | .sweepInterval => 60 * 60 * 1000

def Setting.envName : Setting → String
  | .grace => "GLANCEVAULT_BLOB_GRACE_PERIOD_DAYS"
  | .deadDevice => "GLANCEVAULT_BLOB_DEAD_DEVICE_DAYS"
  | .reclaimInterval => "GLANCEVAULT_BLOB_RECLAIM_INTERVAL_MINUTES"
  | .rateLimitWindow => "GLANCEVAULT_RATE_LIMIT_WINDOW_SECONDS"
  | .uploadTtl => "GLANCEVAULT_UPLOAD_SESSION_TTL_HOURS"
  | .sweepInterval => "GLANCEVAULT_UPLOAD_SESSION_SWEEP_MINUTES"

/-- `Number(raw)` for the text of an environment variable, or of a number in
the config file, which `String(..)` and `Number(..)` give back.
mirrors src/config.ts:636-655 (`resolveDuration`) -/
def resolveDuration (envValue fileValue : Option String) (unitMs defaultMs : Nat)
    (envName : String) :
    Except String JsNumber :=
  match envValue.or fileValue with
  | none => .ok (.ofNat defaultMs)
  | some raw =>
    match (JsNumber.ofString raw).finite? with
    | some n =>
      if n ≤ 0 then .error s!"Invalid {envName}: {raw}" else .ok (JsNumber.ofRat (n * unitMs)).round
    | none => .error s!"Invalid {envName}: {raw}"

structure Durations where
  blobGracePeriodMs : JsNumber
  blobDeadDevicePeriodMs : JsNumber
  blobReclaimIntervalMs : JsNumber
  rateLimitWindowMs : JsNumber
  uploadSessionTtlMs : JsNumber
  uploadSessionSweepIntervalMs : JsNumber
  deriving DecidableEq

def Durations.value (c : Durations) : Setting → JsNumber
  | .grace => c.blobGracePeriodMs
  | .deadDevice => c.blobDeadDevicePeriodMs
  | .reclaimInterval => c.blobReclaimIntervalMs
  | .rateLimitWindow => c.rateLimitWindowMs
  | .uploadTtl => c.uploadSessionTtlMs
  | .sweepInterval => c.uploadSessionSweepIntervalMs

/-- mirrors src/config.ts:535-537 -/
def blankAsUndefined (value : Option String) : Option String := value.filter fun v => !isBlank v

/-- A blank `GLANCEVAULT_*` variable counts as unset.
mirrors src/config.ts:524-533 -/
def withoutBlankSettings (env : String → Option String) (key : String) : Option String :=
  if key.startsWith "GLANCEVAULT_" then blankAsUndefined (env key) else env key

def resolve1 (env : String → Option String) (file : Setting → Option String) (st : Setting) :
    Except String JsNumber :=
  resolveDuration (env st.envName) (file st) st.unitMs st.defaultMs st.envName

/-- `file` is the config file: for each setting, what `String(..)` makes of its
value there, if that is not null.
mirrors src/config.ts:253-255, 376-396, 427-433, 472-485 (`loadConfig`) -/
def loadDurations (rawEnv : String → Option String) (file : Setting → Option String) :
    Except String Durations := do
  let env := withoutBlankSettings rawEnv
  let blobGracePeriodMs ← resolve1 env file .grace
  let blobDeadDevicePeriodMs ← resolve1 env file .deadDevice
  let blobReclaimIntervalMs ← resolve1 env file .reclaimInterval
  let rateLimitWindowMs ← resolve1 env file .rateLimitWindow
  let uploadSessionTtlMs ← resolve1 env file .uploadTtl
  let uploadSessionSweepIntervalMs ← resolve1 env file .sweepInterval
  pure ⟨blobGracePeriodMs, blobDeadDevicePeriodMs, blobReclaimIntervalMs, rateLimitWindowMs,
    uploadSessionTtlMs,
    uploadSessionSweepIntervalMs⟩

/-! ## Timers and cutoffs -/

/-- What `main` hands to `setInterval`. mirrors src/index.ts:97-110, 123-129 -/
def Durations.delays (c : Durations) (blobReclaim : Bool) : List JsNumber :=
  (if blobReclaim then [c.blobReclaimIntervalMs] else []) ++ [c.uploadSessionSweepIntervalMs]

/-- `nowMs - ms` -/
def before (now : Nat) : JsNumber → JsNumber
  | .finite q => .ofRat (now - q)
  | .posInf => .negInf
  | .negInf => .posInf
  | .nan => .nan

/-- What the sweeps hand to `new Date(..)`.
mirrors src/reclaim.ts:71-73, src/upload-reaper.ts:38 -/
def Durations.cutoffs (c : Durations) (blobReclaim : Bool) (now : Nat) : List JsNumber :=
  (if blobReclaim then
      [before now c.blobGracePeriodMs, before now c.blobDeadDevicePeriodMs] else []) ++
    [before now c.uploadSessionTtlMs]

/-- The last millisecond a `Date` can hold. -/
def maxDate : Nat := 8640000000000000

/-- `new Date(t)` is a date; otherwise its `toISOString()` throws. -/
def isDate (t : JsNumber) : Prop := ∃ q : ℚ, t = .finite q ∧ |q| ≤ maxDate

/-- The setting is the delay of a timer. -/
def Setting.Timed (blobReclaim : Bool) : Setting → Prop
  | .reclaimInterval => blobReclaim = true
  | .sweepInterval => True
  | _ => False

/-- A sweep subtracts the setting from the clock. -/
def Setting.Past (blobReclaim : Bool) : Setting → Prop
  | .grace => blobReclaim = true
  | .deadDevice => blobReclaim = true
  | .uploadTtl => True
  | _ => False

/-- What is given for a setting: the text of its variable, if that is not
blank, or the value in the file. -/
def given (rawEnv : String → Option String) (file : Setting → Option String) (st : Setting) :
    Option String :=
  (blankAsUndefined (rawEnv st.envName)).or (file st)

section Load
variable {rawEnv : String → Option String} {file : Setting → Option String} {c : Durations}
  {blobReclaim : Bool}

theorem withoutBlankSettings_envName (st : Setting) :
    withoutBlankSettings rawEnv st.envName = blankAsUndefined (rawEnv st.envName) := by
  have hprefix : st.envName.startsWith "GLANCEVAULT_" = true := by
    cases st <;> decide +kernel
  exact if_pos hprefix

theorem loadDurations_ok (h : loadDurations rawEnv file = .ok c) (st : Setting) :
    resolve1 (withoutBlankSettings rawEnv) file st = .ok (c.value st) := by
  unfold loadDurations at h
  simp only [bind, Except.bind] at h
  split at h
  · cases h
  rename_i grace hgrace
  split at h
  · cases h
  rename_i dead hdead
  split at h
  · cases h
  rename_i interval hinterval
  split at h
  · cases h
  rename_i window hwindow
  split at h
  · cases h
  rename_i ttl httl
  split at h
  · cases h
  rename_i sweep hsweep
  cases h
  cases st with
  | grace => exact hgrace
  | deadDevice => exact hdead
  | reclaimInterval => exact hinterval
  | rateLimitWindow => exact hwindow
  | uploadTtl => exact httl
  | sweepInterval => exact hsweep

theorem mem_delays {x : JsNumber} :
    x ∈ c.delays blobReclaim ↔ ∃ st : Setting, st.Timed blobReclaim ∧ c.value st = x := by
  unfold Durations.delays
  constructor
  · intro h
    rcases List.mem_append.1 h with h | h
    · split at h
      · rename_i hon
        exact ⟨.reclaimInterval, hon, (List.mem_singleton.1 h).symm⟩
      · cases h
    · exact ⟨.sweepInterval, trivial, (List.mem_singleton.1 h).symm⟩
  · rintro ⟨st, ht, rfl⟩
    cases st with
    | reclaimInterval =>
      have hon : blobReclaim = true := ht
      simp [hon, Durations.value]
    | sweepInterval => simp [Durations.value]
    | _ => exact ht.elim

theorem mem_cutoffs {now : Nat} {t : JsNumber} :
    t ∈ c.cutoffs blobReclaim now ↔ ∃ st : Setting, st.Past blobReclaim ∧
    before now (c.value st) = t := by
  unfold Durations.cutoffs
  constructor
  · intro h
    rcases List.mem_append.1 h with h | h
    · split at h
      · rename_i hon
        simp only [List.mem_cons, List.not_mem_nil, or_false] at h
        rcases h with rfl | rfl
        · exact ⟨.grace, hon, rfl⟩
        · exact ⟨.deadDevice, hon, rfl⟩
      · cases h
    · exact ⟨.uploadTtl, trivial, (List.mem_singleton.1 h).symm⟩
  · rintro ⟨st, ht, rfl⟩
    cases st with
    | grace =>
      have hon : blobReclaim = true := ht
      simp [hon, Durations.value]
    | deadDevice =>
      have hon : blobReclaim = true := ht
      simp [hon, Durations.value]
    | uploadTtl => simp [Durations.value]
    | _ => exact ht.elim

end Load

/-! ## Accepted texts -/

section Resolve
variable {envValue fileValue : Option String} {u dflt : Nat} {envName raw : String} {v : JsNumber}

/-- An accepted text is a positive double; the value is its product, rounded. -/
theorem resolveDuration_ok (hraw : envValue.or fileValue = some raw)
    (h : resolveDuration envValue fileValue u dflt envName = .ok v) :
    ∃ n, JsNumber.ofString raw = .finite n ∧ 0 < n ∧ v = (JsNumber.ofRat (n * u)).round := by
  unfold resolveDuration at h
  rw [hraw] at h
  simp only at h
  split at h
  · rename_i n hn
    split at h
    · cases h
    · rename_i hpos
      cases h
      cases hs : JsNumber.ofString raw with
      | finite q =>
        rw [hs] at hn
        cases hn
        exact ⟨n, rfl, not_le.1 hpos, rfl⟩
      | nan => rw [hs] at hn; cases hn
      | posInf => rw [hs] at hn; cases hn
      | negInf => rw [hs] at hn; cases hn
  · cases h

/-- If it is decimal, it is so for a positive number that did not vanish. -/
theorem accepted_decimal {d n : ℚ} (hd : decimalText raw = some d)
    (hn : JsNumber.ofString raw = .finite n) (hpos : 0 < n) :
    0 < d ∧ n = nearest d := by
  rw [ofString_decimal hd] at hn
  rcases lt_trichotomy d 0 with hneg | rfl | hd0
  · rw [ofRat_neg hneg] at hn
    split at hn
    · cases hn
    · cases hn
      linarith [nearest_nonneg (show 0 < -d by linarith)]
  · rw [ofRat_zero] at hn
    cases hn
    exact (lt_irrefl _ hpos).elim
  · rw [ofRat_pos hd0] at hn
    split at hn
    · cases hn
    · cases hn
      exact ⟨hd0, rfl⟩

end Resolve

/-! ## Rounding to milliseconds -/

/-- The double nearest to the product of the nearest double. -/
def doubleProduct (d : ℚ) (u : Nat) : ℚ := nearest (nearest d * u)

/-- Where the double products with `u` come to `h`: the doubles from the least
one on whose product is rounded to `h` or above, and the decimals that are
rounded to these. -/
def switch (u : Nat) (h : ℚ) : Cut :=
  .rounding (Cut.least (.scaled (.rounding (Cut.least ⟨h, true⟩)) u))

/-- From a half of a millisecond to the switch next to it, the doubles are
rounded the other way than the decimals. `d` is in no such gap, nor where the
product overflows. -/
structure Steady (d : ℚ) (u : Nat) : Prop where
  finite : ¬ (switch u (pow2 1024)).reached d
  below : ∀ k : Nat, d * u < k + 1 / 2 → ¬ (switch u (k + 1 / 2)).reached d
  above : ∀ k : Nat, (k : ℚ) + 1 / 2 < d * u → (switch u (k + 1 / 2)).reached d

-- 1.5 ms less 10^-20 s is in the gap before 1.5 ms, less 10^-18 s it is not
example : (switch 1000 (3 / 2)).reached (3 / 2000 - 1 / 10 ^ 20) ∧
    ¬ (switch 1000 (3 / 2)).reached (3 / 2000 - 1 / 10 ^ 18) := by decide +kernel

section Rounding
variable {d p : ℚ} {u r : Nat}

/-- **The switch is where the double product comes to `h`.** -/
theorem switch_reached {h : ℚ} (hh : 0 < h) (hd : 0 < d) (hx : 0 < nearest d) (hu : 0 < u) :
    (switch u h).reached d ↔ h ≤ doubleProduct d u := by
  have hu0 : (0 : ℚ) < u := by exact_mod_cast hu
  -- the cut of the exact products
  have hp1 := Cut.least_representable (c := ⟨h, true⟩) hh
  have hp2 := Cut.least_pos (c := ⟨h, true⟩) hh
  have hcut := Cut.rounding_pos hp1 hp2
  have hover : 0 < (Cut.scaled (.rounding (Cut.least ⟨h, true⟩)) u).point := div_pos hcut hu0
  unfold switch doubleProduct
  rw [Cut.rounding_reached (Cut.least_representable hover) (Cut.least_pos hover) hd,
    Cut.least_le hover (nearest_representable hd), Cut.scaled_reached hu0,
    Cut.rounding_reached hp1 hp2 (mul_pos hx hu0),
    Cut.least_le (c := ⟨h, true⟩) hh (nearest_representable (mul_pos hx hu0))]
  unfold Cut.reached
  rw [eq_self, true_and, ← le_iff_lt_or_eq]

/-- The roundings take the product across no half. -/
structure Unmoved (d : ℚ) (u : Nat) : Prop where
  finite : doubleProduct d u < pow2 1024
  below : ∀ k : Nat, d * u < k + 1 / 2 → doubleProduct d u < k + 1 / 2
  above : ∀ k : Nat, (k : ℚ) + 1 / 2 < d * u → (k : ℚ) + 1 / 2 ≤ doubleProduct d u

theorem steady_unmoved (hd : 0 < d) (hx : 0 < nearest d) (hu : 0 < u) :
    Steady d u ↔ Unmoved d u := by
  have hswitch : ∀ k : Nat, (switch u (k + 1 / 2)).reached d ↔
      (k : ℚ) + 1 / 2 ≤ doubleProduct d u :=
    fun k => switch_reached (by positivity) hd hx hu
  have hmax := switch_reached (pow2_pos 1024) hd hx hu
  constructor
  · rintro ⟨hfin, hbelow, habove⟩
    exact ⟨not_le.1 (hmax.not.1 hfin), fun k hk => not_le.1 ((hswitch k).not.1 (hbelow k hk)),
      fun k hk => (hswitch k).1 (habove k hk)⟩
  · rintro ⟨hfin, hbelow, habove⟩
    exact ⟨hmax.not.2 (not_le.2 hfin), fun k hk => (hswitch k).not.2 (not_le.2 (hbelow k hk)),
      fun k hk => (hswitch k).2 (habove k hk)⟩

/-- A natural number, known by the halves below it, is the number rounded when
it has the same halves below it. -/
theorem near_iff (hp : 0 < p) : |(r : ℚ) - p| ≤ 1 / 2 ↔
    (∀ k : Nat, p < k + 1 / 2 → ¬ k < r) ∧ ∀ k : Nat, (k : ℚ) + 1 / 2 < p → k < r := by
  rw [abs_le]
  constructor
  · rintro ⟨h1, h2⟩
    refine ⟨fun k hk hlt => ?_, fun k hk => ?_⟩
    · have hcast : (k : ℚ) + 1 ≤ r := by exact_mod_cast hlt
      linarith
    · have hlt : (k : ℚ) < r := by linarith
      exact_mod_cast hlt
  · rintro ⟨hbelow, habove⟩
    have hle : p ≤ r + 1 / 2 := by
      by_contra hgt
      exact lt_irrefl r (habove r (not_le.1 hgt))
    refine ⟨by linarith, ?_⟩
    rcases Nat.eq_zero_or_pos r with rfl | hr
    · push_cast
      linarith
    · by_contra hgt
      obtain ⟨k, rfl⟩ := Nat.exists_eq_succ_of_ne_zero hr.ne'
      refine hbelow k ?_ (Nat.lt_succ_self k)
      push_cast at hgt
      linarith [not_le.1 hgt]

/-- What an accepted duration is resolved to. -/
theorem resolved_eq (hx : 0 < nearest d) (hu : 0 < u) :
    (pow2 1024 ≤ doubleProduct d u → (JsNumber.ofRat (nearest d * u)).round = .posInf) ∧
    (doubleProduct d u < pow2 1024 → ∃ r : Nat, (JsNumber.ofRat (nearest d * u)).round = .ofNat r ∧
      ∀ k : Nat, k < r ↔ (k : ℚ) + 1 / 2 ≤ doubleProduct d u) := by
  have hp : 0 < nearest d * u := by positivity
  have hpos : 0 ≤ doubleProduct d u := nearest_nonneg hp
  have hread : JsNumber.ofRat (nearest d * u) =
      if pow2 1024 ≤ doubleProduct d u then .posInf else .finite (doubleProduct d u) := ofRat_pos hp
  refine ⟨fun h => ?_, fun h => ?_⟩
  · rw [hread, if_pos h]
    rfl
  · rw [hread, if_neg (not_le.2 h)]
    have hfloor : 0 ≤ (doubleProduct d u + 1 / 2).floor :=
      Rat.le_floor_iff.2 (by push_cast; linarith)
    obtain ⟨r, hr⟩ := Int.eq_ofNat_of_zero_le hfloor
    refine ⟨r, ?_, fun k => ?_⟩
    · show JsNumber.finite ((doubleProduct d u + 1 / 2).floor : Int) = _
      rw [hr]
      rfl
    · have hk := Rat.le_floor_iff (x := (k : Int) + 1) (a := doubleProduct d u + 1 / 2)
      rw [hr] at hk
      push_cast at hk
      constructor
      · intro hlt
        have := hk.1 (by omega)
        linarith
      · intro hle
        have := hk.2 (by linarith)
        omega

theorem ofNat_inj {m n : Nat} (h : JsNumber.ofNat m = .ofNat n) : m = n := by
  unfold JsNumber.ofNat at h
  injection h with h
  exact_mod_cast h

/-- **The resolved value is the product rounded exactly when the decimal lies in
no gap.** -/
theorem steady_iff (hd : 0 < d) (hx : 0 < nearest d) (hu : 0 < u) :
    (∃ ms : Nat, (JsNumber.ofRat (nearest d * u)).round = .ofNat ms ∧ |(ms : ℚ) - d * u| ≤ 1 / 2) ↔
      Steady d u := by
  have hp : 0 < d * u := by positivity
  rw [steady_unmoved hd hx hu]
  obtain ⟨hinf, hfin⟩ := resolved_eq hx hu
  constructor
  · rintro ⟨ms, hv, hnear⟩
    have hfinite : doubleProduct d u < pow2 1024 := by
      by_contra hmax
      rw [hinf (not_lt.1 hmax)] at hv
      cases hv
    obtain ⟨r, hr, hhalves⟩ := hfin hfinite
    obtain rfl : ms = r := ofNat_inj (hv.symm.trans hr)
    obtain ⟨hbelow, habove⟩ := (near_iff hp).1 hnear
    exact ⟨hfinite, fun k hk => not_le.1 fun h => hbelow k hk ((hhalves k).2 h),
      fun k hk => (hhalves k).1 (habove k hk)⟩
  · intro h
    obtain ⟨r, hr, hhalves⟩ := hfin h.finite
    refine ⟨r, hr, (near_iff hp).2 ⟨fun k hk hlt => ?_, fun k hk => (hhalves k).2 (h.above k hk)⟩⟩
    exact absurd ((hhalves k).1 hlt) (not_le.2 (h.below k hk))

/-- Two roundings move a product by less than one part in `2 ^ 51`. -/
theorem doubleProduct_near (hd : 1 / 2 ≤ d * u) (hu : 0 < u) (hmax : u ≤ 2 ^ 32) :
    |doubleProduct d u - d * u| < d * u / 2 ^ 51 := by
  have hu0 : (0 : ℚ) < u := by exact_mod_cast hu
  have hlow : ∀ q : ℚ, 1 / 2 ^ 34 ≤ q → pow2 (-1022) ≤ q := by
    intro q hq
    have : pow2 (-1022) ≤ pow2 (-34) := pow2_mono (by omega)
    have h34 : pow2 (-34) = 1 / 2 ^ 34 := by
      rw [pow2_eq]
      norm_num
    linarith
  have hd0 : 1 / 2 ^ 34 ≤ d := by
    have hcap : (u : ℚ) ≤ 2 ^ 32 := by exact_mod_cast hmax
    by_contra hlt
    have := mul_lt_mul_of_pos_right (not_le.1 hlt) hu0
    nlinarith
  have h1 := abs_le.1 (nearest_relative (hlow d hd0))
  have hx1 : nearest d * u ≤ d * u + d * u / 2 ^ 53 := by nlinarith [h1.2]
  have hx2 : d * u - d * u / 2 ^ 53 ≤ nearest d * u := by nlinarith [h1.1]
  have h2 := abs_le.1 (nearest_relative (hlow (nearest d * u) (by linarith)))
  unfold doubleProduct
  rw [abs_lt]
  constructor
  · linarith [h2.1]
  · linarith [h2.2]

/-- The gaps are narrow: products that are halves, or keep away from them, lie
in none. -/
theorem steady_of_margin (hd : 1 / 2 ≤ d * u) (hu : 0 < u) (hmax : u ≤ 2 ^ 32)
    (hfin : d * u ≤ pow2 1023)
    (h : ∀ k : Nat, d * u = k + 1 / 2 ∨ d * u / 2 ^ 51 ≤ |d * u - (k + 1 / 2)|) : Steady d u := by
  have hu0 : (0 : ℚ) < u := by exact_mod_cast hu
  have hd0 : 0 < d := by
    by_contra hle
    nlinarith [not_lt.1 hle]
  have hnear := abs_lt.1 (doubleProduct_near hd hu hmax)
  have hx : 0 < nearest d := by
    by_contra hle
    -- a product that vanishes is not near
    have hzero : nearest d = 0 := le_antisymm (not_lt.1 hle) (nearest_nonneg hd0)
    have hnone : doubleProduct d u = 0 := by
      unfold doubleProduct
      rw [hzero, zero_mul]
      decide +kernel
    rw [hnone] at hnear
    linarith [hnear.1]
  rw [steady_unmoved hd0 hx hu]
  have hdouble : pow2 1024 = pow2 1023 * 2 := by
    have hone : pow2 1 = 2 := by norm_num [pow2]
    rw [show (1024 : Int) = 1023 + 1 by norm_num, pow2_add, hone]
  refine ⟨by linarith [hnear.2], fun k hk => ?_, fun k hk => ?_⟩
  · rcases h k with e | hfar
    · exact absurd e hk.ne
    · rw [abs_of_neg (by linarith)] at hfar
      linarith [hnear.2]
  · rcases h k with e | hfar
    · exact absurd e hk.ne'
    · rw [abs_of_pos (by linarith)] at hfar
      linarith [hnear.1]

/-- A whole number of milliseconds is. -/
theorem steady_whole {n : Nat} (h : d * u = n) (hn : 1 ≤ n) (hbound : n ≤ 2 ^ 50) (hu : 0 < u)
    (hmax : u ≤ 2 ^ 32) :
    Steady d u := by
  have hn1 : (1 : ℚ) ≤ n := by exact_mod_cast hn
  have hn2 : (n : ℚ) ≤ 2 ^ 50 := by exact_mod_cast hbound
  have h1023 : (2 : ℚ) ^ 50 ≤ pow2 1023 := by
    have := pow2_mono (show (50 : Int) ≤ 1023 by norm_num)
    rw [pow2_eq 50] at this
    exact_mod_cast this
  refine steady_of_margin (by linarith) hu hmax (by linarith) fun k => .inr ?_
  rw [h]
  rcases le_or_gt n k with hk | hk
  · have hle : (n : ℚ) ≤ k := by exact_mod_cast hk
    rw [abs_of_neg (by linarith)]
    linarith
  · have hle : (k : ℚ) + 1 ≤ n := by exact_mod_cast hk
    rw [abs_of_pos (by linarith)]
    linarith

end Rounding

/-! ## Products on a half -/

section Ties
variable {d : ℚ} {raw : String} {st : Setting} {blobReclaim : Bool}

theorem unit_pos (st : Setting) : 0 < st.unitMs := by
  cases st <;> decide

/-- A decimal number of units that is half a millisecond does not become less. -/
theorem tie_half (hd : decimalText raw = some d) (h : d * st.unitMs = 1 / 2) :
    1 / 2 ≤ doubleProduct d st.unitMs := by
  have hsolve : ∀ u : Nat, 0 < u → d * u = 1 / 2 → d = 1 / (2 * u) := by
    intro u hu he
    have : (u : ℚ) ≠ 0 := by exact_mod_cast hu.ne'
    field_simp
    linarith
  have hd0 := hsolve st.unitMs (unit_pos st) h
  cases st with
  | uploadTtl =>
    -- half a millisecond is no decimal number of hours: 3 divides the unit and no power of ten
    obtain ⟨m, k, hm⟩ := decimalText_tenths hd
    have hq : (10 : ℚ) ^ k = 7200000 * m := by
      calc (10 : ℚ) ^ k = 2 * (d * (Setting.uploadTtl).unitMs) * 10 ^ k := by rw [h]; ring
        _ = 2 * (Setting.uploadTtl).unitMs * (d * 10 ^ k) := by ring
        _ = 7200000 * m := by
          rw [hm]
          norm_num [Setting.unitMs]
    have hz : (10 : Int) ^ k = 7200000 * m := by exact_mod_cast hq
    have hmod : (10 : Int) ^ k % 3 = 1 := by
      clear hq hz hm
      induction k with
      | zero => rfl
      | succ k ih =>
        rw [pow_succ, Int.mul_emod, ih]
        rfl
    omega
  | grace => rw [hd0]; decide +kernel
  | deadDevice => rw [hd0]; decide +kernel
  | reclaimInterval => rw [hd0]; decide +kernel
  | rateLimitWindow => rw [hd0]; decide +kernel
  | sweepInterval => rw [hd0]; decide +kernel

/-- The half behind the longest delay of a timer counts as the next millisecond. -/
theorem tie_timer (ht : st.Timed blobReclaim) (h : d * st.unitMs = 2 ^ 31 - 1 / 2) :
    2 ^ 31 - 1 / 2 ≤ doubleProduct d st.unitMs := by
  have hunit : st.unitMs = 60 * 1000 := by
    cases st with
    | reclaimInterval => rfl
    | sweepInterval => rfl
    | _ => exact ht.elim
  have hd : d = (2 ^ 31 - 1 / 2) / 60000 := by
    rw [hunit] at h
    push_cast at h
    linarith
  rw [hunit, hd]
  decide +kernel

/-- The half behind the last date does not. -/
theorem tie_date (ht : st.Past blobReclaim) (h : d * st.unitMs = maxDate + 1 / 2) :
    doubleProduct d st.unitMs < maxDate + 1 / 2 := by
  have hunit : st.unitMs = dayMs ∨ st.unitMs = 60 * 60 * 1000 := by
    cases st with
    | grace => exact .inl rfl
    | deadDevice => exact .inl rfl
    | uploadTtl => exact .inr rfl
    | _ => exact ht.elim
  rcases hunit with hunit | hunit
  · have hd : d = (maxDate + 1 / 2) / dayMs := by
      rw [hunit] at h
      unfold dayMs at h ⊢
      push_cast at h ⊢
      linarith
    rw [hunit, hd]
    decide +kernel
  · have hd : d = (maxDate + 1 / 2) / 3600000 := by
      rw [hunit] at h
      push_cast at h
      linarith
    rw [hunit, hd]
    decide +kernel

end Ties

/-! ## Sound settings -/

/-- What the process makes of the settings: every value is that of a positive
decimal, rounded; the timers have delays that a timer can have, and every
cutoff is a date, whatever the clock says. -/
structure Durations.Sound (c : Durations) (blobReclaim : Bool) (rawEnv : String → Option String)
    (file : Setting → Option String) : Prop where
  values : ∀ st raw, given rawEnv file st = some raw →
    ∃ d, ∃ ms : Nat, decimalText raw = some d ∧ 0 < d ∧
    c.value st = .ofNat ms ∧ 1 ≤ ms ∧ |(ms : ℚ) - d * st.unitMs| ≤ 1 / 2
  delays : ∀ x ∈ c.delays blobReclaim, ∃ ms : Nat, x = .ofNat ms ∧ 1 ≤ ms ∧ ms ≤ 2 ^ 31 - 1
  cutoffs : ∀ now ≤ maxDate, ∀ t ∈ c.cutoffs blobReclaim now, isDate t

/-- The text is a decimal number of units that make at least half a millisecond,
not longer than its timer can wait or the calendar reaches back, and in no gap of
its unit. -/
def Setting.Fine (blobReclaim : Bool) (raw : String) (st : Setting) : Prop :=
  ∃ d, decimalText raw = some d ∧ 1 / 2 ≤ d * st.unitMs ∧ Steady d st.unitMs ∧
    (st.Timed blobReclaim → d * st.unitMs < 2 ^ 31 - 1 / 2) ∧
    (st.Past blobReclaim → d * st.unitMs ≤ maxDate + 1 / 2)

section Sound
variable {blobReclaim : Bool} {st : Setting}

/-- A time span can be taken off every date exactly up to the last one. -/
theorem before_isDate {r : Nat} :
    (∀ now ≤ maxDate, isDate (before now (.ofNat r))) ↔ r ≤ maxDate := by
  have hmax : maxDate + 1 < 2 ^ 53 := by decide
  constructor
  · intro h
    obtain ⟨q, hq, hle⟩ := h 0 (Nat.zero_le _)
    by_contra hgt
    have hr : ((maxDate + 1 : Nat) : ℚ) ≤ r := by exact_mod_cast Nat.not_le.1 hgt
    have hr0 : (0 : ℚ) < r := lt_of_lt_of_le (by exact_mod_cast Nat.succ_pos _) hr
    have hread : before 0 (.ofNat r) =
        if pow2 1024 ≤ nearest (r : ℚ) then .negInf else .finite (-nearest (r : ℚ)) := by
      show JsNumber.ofRat ((0 : Nat) - (r : ℚ)) = _
      rw [ofRat_neg (by push_cast; linarith)]
      norm_num
    rw [hread] at hq
    split at hq
    · cases hq
    · cases hq
      have hfar := nearest_ge hr0 (representable_nat hmax) hr
      rw [abs_neg] at hle
      have := (le_abs_self (nearest (r : ℚ))).trans hle
      push_cast at hfar
      linarith
  · intro hr now hnow
    have hread : before now (.ofNat r) = .ofRat (now - (r : ℚ)) := rfl
    rcases le_or_gt r now with hle | hlt
    · -- the clock has come that far
      have hsub : (now : ℚ) - r = ((now - r : Nat) : ℚ) := by rw [Nat.cast_sub hle]
      refine ⟨((now - r : Nat) : ℚ), ?_, ?_⟩
      · rw [hread, hsub]
        exact JsNumber.asNatural_some.1 (natural_small (by omega))
      · rw [abs_of_nonneg (Nat.cast_nonneg _)]
        exact_mod_cast (Nat.sub_le now r).trans hnow
    · have hsub : (now : ℚ) - r = -((r - now : Nat) : ℚ) := by
        rw [Nat.cast_sub hlt.le]
        ring
      have hpos : (0 : ℚ) < ((r - now : Nat) : ℚ) := by exact_mod_cast Nat.sub_pos_of_lt hlt
      have hfix := (nearest_fixed hpos).2 (representable_nat (by omega))
      refine ⟨-((r - now : Nat) : ℚ), ?_, ?_⟩
      · rw [hread, hsub, ofRat_neg (by linarith), neg_neg, hfix,
          if_neg (not_le.2 (natural_lt (by omega)))]
      · rw [abs_neg, abs_of_nonneg hpos.le]
        exact_mod_cast (Nat.sub_le r now).trans hr

/-- One setting that is given. -/
structure SettingSound (blobReclaim : Bool) (st : Setting) (raw : String)
    (v : JsNumber) : Prop where
  value : ∃ d, ∃ ms : Nat, decimalText raw = some d ∧ 0 < d ∧ v = .ofNat ms ∧ 1 ≤ ms ∧
    |(ms : ℚ) - d * st.unitMs| ≤ 1 / 2
  delay : st.Timed blobReclaim → ∃ ms : Nat, v = .ofNat ms ∧ 1 ≤ ms ∧ ms ≤ 2 ^ 31 - 1
  cutoff : st.Past blobReclaim → ∀ now ≤ maxDate, isDate (before now v)

theorem setting_sound {raw : String} {n : ℚ} (hn : JsNumber.ofString raw = .finite n)
    (hpos : 0 < n) :
    SettingSound blobReclaim st raw (JsNumber.ofRat (n * st.unitMs)).round ↔
    st.Fine blobReclaim raw := by
  constructor
  · rintro ⟨⟨d, ms, hd, hd0, hv, hms, hnear⟩, hdelay, hcutoff⟩
    obtain ⟨-, rfl⟩ := accepted_decimal hd hn hpos
    have hfine := (steady_iff hd0 hpos (unit_pos st)).1 ⟨ms, hv, hnear⟩
    have hsteady := (steady_unmoved hd0 hpos (unit_pos st)).1 hfine
    obtain ⟨r, hr, hhalves⟩ := (resolved_eq hpos (unit_pos st)).2 hsteady.finite
    obtain rfl : ms = r := ofNat_inj (hv.symm.trans hr)
    refine ⟨d, hd, ?_, hfine, fun ht => ?_, fun ht => ?_⟩
    · by_contra hlt
      have hbelow := hsteady.below 0 (by push_cast; linarith [not_le.1 hlt])
      exact absurd ((hhalves 0).1 hms) (not_le.2 hbelow)
    · obtain ⟨ms', hv', -, hmax⟩ := hdelay ht
      obtain rfl : ms = ms' := ofNat_inj (hv.symm.trans hv')
      by_contra hge
      have habove : ((2 ^ 31 - 1 : Nat) : ℚ) + 1 / 2 ≤ doubleProduct d st.unitMs := by
        rcases (not_lt.1 hge).eq_or_lt with he | hlt
        · have := tie_timer ht he.symm
          push_cast
          linarith
        · exact hsteady.above (2 ^ 31 - 1) (by push_cast; linarith)
      have := (hhalves (2 ^ 31 - 1)).2 habove
      omega
    · have hmax : ms ≤ maxDate := before_isDate.1 (hv ▸ hcutoff ht)
      by_contra hgt
      have := (hhalves maxDate).2 (hsteady.above maxDate (not_le.1 hgt))
      omega
  · rintro ⟨d, hd, hhalf, hfine, htimer, hdate⟩
    obtain ⟨hd0, rfl⟩ := accepted_decimal hd hn hpos
    obtain ⟨ms, hv, hnear⟩ := (steady_iff hd0 hpos (unit_pos st)).2 hfine
    have hsteady := (steady_unmoved hd0 hpos (unit_pos st)).1 hfine
    obtain ⟨r, hr, hhalves⟩ := (resolved_eq hpos (unit_pos st)).2 hsteady.finite
    obtain rfl : ms = r := ofNat_inj (hv.symm.trans hr)
    have hms : 1 ≤ ms := by
      refine (hhalves 0).2 ?_
      rcases hhalf.eq_or_lt with he | hlt
      · have := tie_half hd he.symm
        push_cast
        linarith
      · exact hsteady.above 0 (by push_cast; linarith)
    refine ⟨⟨d, ms, hd, hd0, hv, hms, hnear⟩, fun ht => ⟨ms, hv, hms, ?_⟩, fun ht => ?_⟩
    · by_contra hgt
      have habove := (hhalves (2 ^ 31 - 1)).1 (by omega)
      have hbelow := hsteady.below (2 ^ 31 - 1) (by push_cast; linarith [htimer ht])
      linarith
    · rw [hv]
      refine before_isDate.2 ?_
      by_contra hgt
      have habove := (hhalves maxDate).1 (not_le.1 hgt)
      rcases (hdate ht).eq_or_lt with he | hlt
      · linarith [tie_date ht he]
      · linarith [hsteady.below maxDate hlt]

theorem value_given {rawEnv : String → Option String} {file : Setting → Option String}
    {c : Durations}
    (h : loadDurations rawEnv file = .ok c) {raw : String}
    (hraw : given rawEnv file st = some raw) :
    SettingSound blobReclaim st raw (c.value st) ↔ st.Fine blobReclaim raw := by
  have hok := loadDurations_ok h st
  unfold resolve1 at hok
  rw [withoutBlankSettings_envName] at hok
  obtain ⟨n, hn, hpos, hv⟩ := resolveDuration_ok hraw hok
  rw [hv]
  exact setting_sound hn hpos

theorem value_default {rawEnv : String → Option String} {file : Setting → Option String}
    {c : Durations} (h : loadDurations rawEnv file = .ok c) (hraw : given rawEnv file st = none) :
    c.value st = .ofNat st.defaultMs := by
  have hok := loadDurations_ok h st
  unfold resolve1 resolveDuration at hok
  rw [withoutBlankSettings_envName, show Option.or _ _ = none from hraw] at hok
  exact (Except.ok.inj hok).symm

theorem default_delay (st : Setting) (ht : st.Timed blobReclaim) :
    1 ≤ st.defaultMs ∧ st.defaultMs ≤ 2 ^ 31 - 1 := by
  cases st with
  | reclaimInterval => decide
  | sweepInterval => decide
  | _ => exact ht.elim

theorem default_past (st : Setting) : st.defaultMs ≤ maxDate := by
  cases st <;> decide

end Sound

/-- **Accepted settings are sound exactly when every one that is given is fine.** -/
theorem durations_sound {rawEnv : String → Option String}
    {file : Setting → Option String} {c : Durations}
    (blobReclaim : Bool) (h : loadDurations rawEnv file = .ok c) :
    c.Sound blobReclaim rawEnv file ↔
      ∀ st raw, given rawEnv file st = some raw → st.Fine blobReclaim raw := by
  constructor
  · intro hs st raw hraw
    exact (value_given h hraw).1 ⟨hs.values st raw hraw,
      fun ht => hs.delays _ (mem_delays.2 ⟨st, ht, rfl⟩),
      fun ht now hnow => hs.cutoffs now hnow _ (mem_cutoffs.2 ⟨st, ht, rfl⟩)⟩
  · intro hfine
    have hgiven : ∀ st raw, given rawEnv file st = some raw →
        SettingSound blobReclaim st raw (c.value st) :=
      fun st raw hraw => (value_given h hraw).2 (hfine st raw hraw)
    refine ⟨fun st raw hraw => (hgiven st raw hraw).value, fun x hx => ?_, fun now hnow t ht => ?_⟩
    · obtain ⟨st, ht, rfl⟩ := mem_delays.1 hx
      cases hraw : given rawEnv file st with
      | none => exact ⟨st.defaultMs, value_default h hraw, default_delay st ht⟩
      | some raw => exact (hgiven st raw hraw).delay ht
    · obtain ⟨st, hpast, rfl⟩ := mem_cutoffs.1 ht
      cases hraw : given rawEnv file st with
      | none =>
        rw [value_default h hraw]
        exact before_isDate.2 (default_past st) now hnow
      | some raw => exact (hgiven st raw hraw).cutoff hpast now hnow

/-- A sweep interval in the environment, a grace in the file behind a variable
that is blank. -/
def monthEnv (key : String) : Option String :=
  if key = (Setting.sweepInterval).envName then some " 1.5e1 "
  else if key = (Setting.grace).envName then some " " else none

def monthFile : Setting → Option String
  | .grace => some "30"
  | _ => none

def monthDurations : Durations :=
  ⟨.ofNat (30 * dayMs), .ofNat (90 * dayMs), .ofNat 3600000, .ofNat 60000,
    .ofNat dayMs, .ofNat 900000⟩

theorem durations_sound_month : loadDurations monthEnv monthFile = .ok monthDurations ∧
    monthDurations.Sound true monthEnv monthFile := by
  have hload : loadDurations monthEnv monthFile = .ok monthDurations := by decide +kernel
  have hothers : ∀ st : Setting, st ≠ .grace → st ≠ .sweepInterval →
      given monthEnv monthFile st = none := by
    intro st hgrace hsweep
    cases st with
    | grace => exact absurd rfl hgrace
    | sweepInterval => exact absurd rfl hsweep
    | _ => decide +kernel
  refine ⟨hload, (durations_sound true hload).2 fun st raw hraw => ?_⟩
  cases st with
  | grace =>
    have hgiven : given monthEnv monthFile .grace = some "30" := by decide +kernel
    rw [hgiven] at hraw
    cases hraw
    have hu : (30 : ℚ) * (Setting.grace).unitMs = (2592000000 : Nat) := by
      norm_num [Setting.unitMs, dayMs]
    have hsteady : Steady 30 (Setting.grace).unitMs :=
      steady_whole hu (by decide) (by decide) (by decide) (by decide)
    refine ⟨30, by decide +kernel, by rw [hu]; norm_num, hsteady, nofun, fun _ => ?_⟩
    rw [hu]
    norm_num [maxDate]
  | sweepInterval =>
    have hgiven : given monthEnv monthFile .sweepInterval = some " 1.5e1 " := by decide +kernel
    rw [hgiven] at hraw
    cases hraw
    have hu : (15 : ℚ) * (Setting.sweepInterval).unitMs = (900000 : Nat) := by
      norm_num [Setting.unitMs]
    have hsteady : Steady 15 (Setting.sweepInterval).unitMs :=
      steady_whole hu (by decide) (by decide) (by decide) (by decide)
    refine ⟨15, by decide +kernel, by rw [hu]; norm_num, hsteady, fun _ => ?_, nofun⟩
    rw [hu]
    norm_num
  | _ =>
    have hnone := hraw.symm.trans (hothers _ (by decide) (by decide))
    cases hnone

/-- Thirty days of minutes between two sweeps, and a grace of a nanoday. -/
def longSweeps (key : String) : Option String :=
  if key = (Setting.sweepInterval).envName then some "43200"
  else if key = (Setting.grace).envName then some "0.000000001" else none

def longDurations : Durations :=
  ⟨.ofNat 0, .ofNat (90 * dayMs), .ofNat 3600000, .ofNat 60000, .ofNat dayMs, .ofNat 2592000000⟩

theorem runaway_sweep : loadDurations longSweeps (fun _ => none) = .ok longDurations ∧
    ¬ longDurations.Sound false longSweeps fun _ => none := by
  refine ⟨by decide +kernel, fun h => ?_⟩
  obtain ⟨ms, hms, -, hmax⟩ := h.delays (.ofNat 2592000000) (List.mem_singleton.2 rfl)
  rw [← ofNat_inj hms] at hmax
  omega

end GlanceVault.L3
