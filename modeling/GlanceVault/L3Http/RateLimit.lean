import Mathlib.Data.Rat.Floor
import Mathlib.Tactic.Linarith
import GlanceVault.Core.Expiring
import GlanceVault.Core.FixedWindows
import GlanceVault.Core.Run
import GlanceVault.L3Http.Http
/-!
# The rate limiter

`rateLimit` counts the requests of each client key in fixed windows, keeps
the windows in one map and drops the closed ones lazily, at most once per
window. Here it is compared with `unswept`, the same limiter without the
sweep, and with the discipline of `Core.FixedWindows` on the requests of one
key. Clock readings and the window are rationals; `Date.now()` and a
configured window are integers, whose sums a double holds exactly.

* `step_alike`, `alike_after`: from the last reading on, the swept and the
  unswept map read alike.
* `tracks`: the unswept map holds the newest window of each key.
* `fresh_after`: what the swept map can still hold.
* `lazily_swept`: the limiter is the ideal one and its map stays bounded.
-/
namespace GlanceVault.L3
open GlanceVault.Core GlanceVault.L1.Js

/-! ## The middleware -/

/-- mirrors src/middleware/rate-limit.ts:24-29; `resolveCount` takes integers only -/
structure RateLimitOptions where
  windowMs : Rat
  max : Nat

/-- An entry of `windows`, with its key.
mirrors src/middleware/rate-limit.ts:31-34 -/
structure Window where
  key : String
  count : Nat
  resetAt : Rat
  deriving DecidableEq

structure Limiter where
  windows : Table Window.key
  nextSweep : Rat

def Limiter.fresh : Limiter := ⟨.empty, 0⟩

/-- What the middleware reads: `req.path`, `req.ip` and the clock. -/
structure Arrival where
  path : String
  ip : Option String
  now : Rat

namespace Arrival

/-- The healthcheck is not counted. -/
def counted (v : Arrival) : Bool := v.path != "/healthz"

/-- `req.ip ?? "unknown"` -/
def key (v : Arrival) : String := v.ip.getD "unknown"

end Arrival

/-- mirrors src/middleware/rate-limit.ts:72-75 -/
def limited (retryAfterSec : Nat) : Response :=
  ⟨429, [("Retry-After", toString retryAfterSec)],
    .json (.obj [("error", .str "rate limit exceeded")])⟩

/-- mirrors src/middleware/rate-limit.ts:51-58 -/
def Limiter.sweep (opts : RateLimitOptions) (t : Rat) (l : Limiter) : Limiter :=
  if l.nextSweep ≤ t then ⟨Expiring.sweep Window.resetAt t l.windows, t + opts.windowMs⟩ else l

/-- The window the request is counted in, before it is.
mirrors src/middleware/rate-limit.ts:63-67 -/
def currentWindow (opts : RateLimitOptions) (t : Rat) (key : String)
    (windows : Table Window.key) : Window :=
  match windows.find key with
  | none => ⟨key, 0, t + opts.windowMs⟩
  | some w => if w.resetAt ≤ t then ⟨key, 0, t + opts.windowMs⟩ else w

/-- `Math.max(1, Math.ceil((resetAt - t) / 1000))` -/
def retryAfterSec (resetAt t : Rat) : Nat := (max 1 ⌈(resetAt - t) / 1000⌉).toNat

/-- The answer, if the request is not let through (`next()`), and the map.
mirrors src/middleware/rate-limit.ts:62-78 -/
def countRequest (opts : RateLimitOptions) (t : Rat) (key : String) (windows : Table Window.key) :
    Option Response × Table Window.key :=
  let w := currentWindow opts t key windows
  let w := { w with count := w.count + 1 }
  (if opts.max < w.count then some (limited (retryAfterSec w.resetAt t)) else none,
    windows.upsert w)

/-- mirrors src/middleware/rate-limit.ts:42-79 (the handler `rateLimit` returns) -/
def rateLimit (opts : RateLimitOptions) (l : Limiter) (v : Arrival) : Option Response × Limiter :=
  if v.counted then
    let l := l.sweep opts v.now
    let r := countRequest opts v.now v.key l.windows
    (r.1, { l with windows := r.2 })
  else (none, l)

/-- The limiter that never sweeps. -/
def unswept (opts : RateLimitOptions) (windows : Table Window.key) (v : Arrival) :
    Option Response × Table Window.key :=
  if v.counted then countRequest opts v.now v.key windows else (none, windows)

/-! ## Runs -/

variable (opts : RateLimitOptions)

/-- The limiter after the requests `vs`. -/
def Limiter.after (vs : List Arrival) : Limiter := run (fun l v => (rateLimit opts l v).2) .fresh vs

def unsweptAfter (vs : List Arrival) : Table Window.key :=
  run (fun ws v => (unswept opts ws v).2) .empty vs

/-- What the limiter answers `v` after `vs`; `none` lets it through. -/
def decision (vs : List Arrival) (v : Arrival) : Option Response :=
  (rateLimit opts (.after opts vs) v).1

/-- Those of the requests `ws` that are let through when `vs` went before. -/
def letThrough : List Arrival → List Arrival → List Arrival
  | _, [] => []
  | vs, w :: ws =>
    if (decision opts vs w).isNone then w :: letThrough (vs ++ [w]) ws
    else letThrough (vs ++ [w]) ws

/-- The counted requests of a key. -/
def Arrival.of (key : String) (v : Arrival) : Bool := v.counted && v.key == key

/-- When the requests of a key were counted. -/
def times (key : String) (vs : List Arrival) : List Rat := (vs.filter (Arrival.of key)).map (·.now)

/-- The end of the window a request at `c` opens. -/
def RateLimitOptions.close (c : Rat) : Rat := c + opts.windowMs

/-- The ideal limiter's answer to a request at `t`, from the earlier requests
of its key alone. -/
def ideal (past : List Rat) (t : Rat) : Option Response :=
  match FixedWindows.windows opts.close (past ++ [t]) with
  | [] => none
  | (c, n) :: _ => if opts.max < n then some (limited (retryAfterSec (opts.close c) t)) else none

/-- The readings of the clock are non-negative and do not decrease. -/
structure Clocked (vs : List Arrival) : Prop where
  nonneg : ∀ v ∈ vs, v.counted = true → 0 ≤ v.now
  sorted : ((vs.filter Arrival.counted).map (·.now)).Pairwise (· ≤ ·)

variable {opts}

theorem after_snoc (vs : List Arrival) (v : Arrival) :
    Limiter.after opts (vs ++ [v]) = (rateLimit opts (.after opts vs) v).2 := by
  unfold Limiter.after
  rw [run_append]; rfl

theorem unsweptAfter_snoc (vs : List Arrival) (v : Arrival) :
    unsweptAfter opts (vs ++ [v]) = (unswept opts (unsweptAfter opts vs) v).2 := by
  unfold unsweptAfter
  rw [run_append]; rfl

theorem times_snoc (key : String) (vs : List Arrival) (v : Arrival) :
    times key (vs ++ [v]) = times key vs ++ if v.of key then [v.now] else [] := by
  unfold times
  rw [List.filter_append, List.map_append]
  congr 1
  cases h : v.of key with
  | true => rw [List.filter_cons_of_pos h]; rfl
  | false => rw [List.filter_cons_of_neg (by simp [h])]; rfl

theorem of_iff {key : String} {v : Arrival} : v.of key = true ↔ v.counted = true ∧ v.key = key := by
  unfold Arrival.of
  rw [Bool.and_eq_true, beq_iff_eq]

theorem times_sorted {key : String} {vs : List Arrival} (h : Clocked vs) :
    (times key vs).Pairwise (· ≤ ·) := by
  refine List.Pairwise.sublist (List.Sublist.map _ ?_) h.sorted
  have : vs.filter (Arrival.of key) = (vs.filter Arrival.counted).filter (·.key == key) := by
    rw [List.filter_filter]
    exact List.filter_congr fun v _ => Bool.and_comm _ _
  rw [this]
  exact List.filter_sublist

/-- A prefix of the run, and the last reading against the earlier ones. -/
theorem clocked_snoc {vs : List Arrival} {v : Arrival} (h : Clocked (vs ++ [v])) :
    Clocked vs ∧ (v.counted = true → 0 ≤ v.now ∧ ∀ u ∈ vs, u.counted = true → u.now ≤ v.now) := by
  obtain ⟨hn, hs⟩ := h
  rw [List.filter_append, List.map_append, List.pairwise_append] at hs
  refine ⟨⟨fun u hu => hn u (List.mem_append_left _ hu), hs.1⟩, fun hc => ⟨?_, fun u hu huc => ?_⟩⟩
  · exact hn v (List.mem_append_right _ (List.mem_singleton.2 rfl)) hc
  · refine hs.2.2 u.now (List.mem_map_of_mem (List.mem_filter.2 ⟨hu, huc⟩)) v.now ?_
    rw [List.filter_cons_of_pos hc]
    exact List.mem_map_of_mem (List.mem_singleton.2 rfl)

theorem clocked_sublist {us vs : List Arrival} (hs : us.Sublist vs) (h : Clocked vs) : Clocked us :=
  ⟨fun v hv => h.nonneg v (hs.subset hv), h.sorted.sublist ((hs.filter _).map _)⟩

theorem clocked_prefix {vs ws : List Arrival} (h : Clocked (vs ++ ws)) : Clocked vs :=
  clocked_sublist (List.sublist_append_left vs ws) h

/-! ## The sweep does not show -/

/-- The code reads the map through the windows that are still open. -/
theorem currentWindow_peek (t : Rat) (key : String) (windows : Table Window.key) :
    currentWindow opts t key windows
      = (Expiring.peek Window.resetAt t windows key).getD ⟨key, 0, t + opts.windowMs⟩ := by
  unfold currentWindow Expiring.peek
  cases windows.find key with
  | none => rfl
  | some w =>
    by_cases h : w.resetAt ≤ t
    · simp [Option.filter, h, not_lt.2 h]
    · simp [Option.filter, h, not_le.1 h]

theorem currentWindow_key (t : Rat) (key : String) (windows : Table Window.key) :
    (currentWindow opts t key windows).key = key := by
  unfold currentWindow
  split
  · rfl
  · rename_i w hw
    split
    · rfl
    · exact Table.find_key hw

theorem step_alike {t : Rat} {v : Arrival} {l : Limiter} {ws : Table Window.key}
    (h : Expiring.Alike Window.resetAt t l.windows ws) (ht : v.counted = true → t ≤ v.now) :
    (rateLimit opts l v).1 = (unswept opts ws v).1 ∧
      (v.counted = true → Expiring.Alike Window.resetAt v.now (rateLimit opts l v).2.windows
        (unswept opts ws v).2) := by
  unfold rateLimit unswept
  split
  · rename_i hc
    have hswept : Expiring.Alike Window.resetAt v.now (l.sweep opts v.now).windows ws := by
      have h := h.later (ht hc)
      unfold Limiter.sweep
      split
      · exact (Expiring.Alike.sweep v.now l.windows).trans h
      · exact h
    have hw : currentWindow opts v.now v.key (l.sweep opts v.now).windows =
        currentWindow opts v.now v.key ws := by
      rw [currentWindow_peek, currentWindow_peek, hswept v.key]
    constructor
    · simp only [countRequest, hw]
    · intro _
      simp only [countRequest, hw]
      exact hswept.upsert _
  · rename_i hc
    exact ⟨rfl, fun h => absurd h hc⟩

theorem alike_after {vs : List Arrival} (h : Clocked vs) :
    ∀ t, (∀ v ∈ vs, v.counted = true → v.now ≤ t) →
      Expiring.Alike Window.resetAt t (Limiter.after opts vs).windows (unsweptAfter opts vs) := by
  induction vs using List.reverseRecOn with
  | nil => exact fun t _ => Expiring.Alike.refl t _
  | append_singleton vs v ih =>
    intro t ht
    obtain ⟨hvs, hlast⟩ := clocked_snoc h
    rw [after_snoc, unsweptAfter_snoc]
    cases hc : v.counted with
    | true =>
      have hbefore := ih hvs v.now (hlast hc).2
      exact ((step_alike hbefore fun _ => le_refl _).2 hc).later
        (ht v (List.mem_append_right _ (List.mem_singleton.2 rfl)) hc)
    | false =>
      rw [rateLimit, unswept, hc]
      exact ih hvs t fun u hu => ht u (List.mem_append_left _ hu)

theorem decision_unswept {vs : List Arrival} {v : Arrival} (h : Clocked (vs ++ [v])) :
    decision opts vs v = (unswept opts (unsweptAfter opts vs) v).1 := by
  obtain ⟨hvs, hlast⟩ := clocked_snoc h
  cases hc : v.counted with
  | true => exact (step_alike (alike_after hvs v.now (hlast hc).2) fun _ => le_refl _).1
  | false =>
    unfold decision
    rw [rateLimit, unswept, hc]; rfl

/-! ## One key at a time -/

/-- The window of an entry: when it opened and how many requests it holds. -/
def Window.span (opts : RateLimitOptions) (w : Window) : Rat × Nat :=
  (w.resetAt - opts.windowMs, w.count)

theorem countRequest_span {t : Rat} {key : String} {windows : Table Window.key}
    {ws : List (Rat × Nat)} (h : (windows.find key).map (Window.span opts) = ws.head?) :
    ((countRequest opts t key windows).2.find key).map (Window.span opts)
        = (FixedWindows.request opts.close ws t).head? ∧
      (countRequest opts t key windows).1 = match FixedWindows.request opts.close ws t with
        | [] => none
        | (c, n) :: _ =>
          if opts.max < n then some (limited (retryAfterSec (opts.close c) t)) else none := by
  have hkey : (currentWindow opts t key windows).key = key := currentWindow_key t key windows
  have hfind : (countRequest opts t key windows).2.find key
      = some { currentWindow opts t key windows with
        count := (currentWindow opts t key windows).count + 1 } := by
    unfold countRequest
    rw [Table.find_upsert, if_pos hkey]
  rw [hfind]
  unfold countRequest currentWindow
  cases hw : windows.find key with
  | none =>
    rw [hw] at h
    cases ws with
    | cons _ _ => cases h
    | nil => simp [FixedWindows.request, Window.span, RateLimitOptions.close]
  | some w =>
    rw [hw] at h
    cases ws with
    | nil => cases h
    | cons v ws =>
      obtain ⟨c, n⟩ := v
      simp only [Option.map_some, List.head?_cons, Option.some.injEq, Window.span,
        Prod.mk.injEq] at h
      obtain ⟨rfl, rfl⟩ := h
      have hclose : opts.close (w.resetAt - opts.windowMs) = w.resetAt := sub_add_cancel ..
      simp only [FixedWindows.request, hclose]
      by_cases ht : w.resetAt ≤ t
      · simp [ht, not_lt.2 ht, Window.span, RateLimitOptions.close]
      · simp [ht, not_le.1 ht, Window.span, hclose]

/-- The unswept map holds the newest window of each key. -/
theorem tracks (vs : List Arrival) (key : String) :
    ((unsweptAfter opts vs).find key).map (Window.span opts)
    = (FixedWindows.windows opts.close (times key vs)).head? := by
  induction vs using List.reverseRecOn with
  | nil => rfl
  | append_singleton vs v ih =>
    rw [unsweptAfter_snoc, times_snoc]
    unfold unswept
    cases hof : v.of key with
    | true =>
      obtain ⟨hc, rfl⟩ := of_iff.1 hof
      rw [if_pos hc, if_pos rfl, FixedWindows.windows_snoc]
      exact (countRequest_span ih).1
    | false =>
      rw [if_neg (Bool.false_ne_true), List.append_nil, ← ih]
      split
      · rename_i hc
        have hne : v.key ≠ key := fun e => by rw [of_iff.2 ⟨hc, e⟩] at hof; cases hof
        unfold countRequest
        rw [Table.find_upsert, if_neg (by simpa [currentWindow_key] using hne)]
      · rfl

theorem decision_ideal {vs : List Arrival} {v : Arrival} (h : Clocked (vs ++ [v]))
    (hc : v.counted = true) :
    decision opts vs v = ideal opts (times v.key vs) v.now := by
  rw [decision_unswept h, unswept, if_pos hc, (countRequest_span (tracks vs v.key)).2, ideal,
    FixedWindows.windows_snoc]

theorem decision_exempt {vs : List Arrival} {v : Arrival} (hc : v.counted = false) :
    decision opts vs v = none := by
  unfold decision
  rw [rateLimit, hc]; rfl

theorem decision_admits {vs : List Arrival} {v : Arrival} (h : Clocked (vs ++ [v]))
    (hc : v.counted = true) :
    (decision opts vs v).isNone = FixedWindows.admits opts.close opts.max
    (times v.key vs) v.now := by
  rw [decision_ideal h hc, ideal, FixedWindows.admits]
  cases FixedWindows.windows opts.close (times v.key vs ++ [v.now]) with
  | nil => rfl
  | cons w ws =>
    by_cases hn : opts.max < w.2
    · simp [hn, not_le.2 hn]
    · simp [hn, not_lt.1 hn]

theorem letThrough_times (key : String) : ∀ (ws vs : List Arrival), Clocked (vs ++ ws) →
    times key (letThrough opts vs ws) =
      FixedWindows.admitted opts.close opts.max (times key vs) (times key ws)
  | [], _, _ => rfl
  | w :: ws, vs, h => by
    have happ : vs ++ w :: ws = vs ++ [w] ++ ws := by simp
    rw [happ] at h
    have ih := letThrough_times key ws (vs ++ [w]) h
    have hw := clocked_prefix h
    rw [times_snoc] at ih
    rw [letThrough]
    cases hof : w.of key with
    | true =>
      obtain ⟨hc, rfl⟩ := of_iff.1 hof
      have hcons : ∀ us, times w.key (w :: us) = w.now :: times w.key us := fun us => by
        unfold times
        rw [List.filter_cons_of_pos hof]; rfl
      rw [if_pos hof] at ih
      rw [hcons, FixedWindows.admitted, ← decision_admits hw hc, ← ih]
      split
      · exact hcons _
      · rfl
    | false =>
      have hcons : ∀ us, times key (w :: us) = times key us := fun us => by
        unfold times
        rw [List.filter_cons_of_neg (by simp [hof])]
      rw [if_neg (by simp [hof]), List.append_nil] at ih
      rw [hcons, ← ih]
      split
      · exact hcons _
      · rfl

theorem decision_apart {vs : List Arrival} {v : Arrival} (h : Clocked (vs ++ [v])) :
    decision opts vs v = decision opts (vs.filter (Arrival.of v.key)) v := by
  cases hc : v.counted with
  | false => rw [decision_exempt hc, decision_exempt hc]
  | true =>
    have htimes : times v.key (vs.filter (Arrival.of v.key)) = times v.key vs := by
      unfold times
      rw [List.filter_filter]
      simp only [Bool.and_self]
    rw [decision_ideal h hc,
      decision_ideal (clocked_sublist (List.filter_sublist.append_right [v]) h) hc, htimes]

/-! ## `Retry-After` -/

theorem limited_inj {m n : Nat} (h : limited m = limited n) : m = n := by
  have h : toString m = toString n :=
    congrArg Prod.snd (List.cons.inj (congrArg Response.headers h)).1
  have h : Nat.toDigits 10 m = Nat.toDigits 10 n := by
    rw [← Nat.toList_repr, ← Nat.toList_repr]
    exact congrArg String.toList h
  rw [← Nat.ofDigitChars_ten_toDigits (n := m), h, Nat.ofDigitChars_ten_toDigits]

theorem retryAfterSec_le (resetAt t : Rat) : resetAt ≤ t + 1000 * retryAfterSec resetAt t := by
  have h1 : (resetAt - t) / 1000 ≤ ⌈(resetAt - t) / 1000⌉ := Int.le_ceil _
  have h2 : ⌈(resetAt - t) / 1000⌉ ≤ (retryAfterSec resetAt t : Int) := by
    unfold retryAfterSec
    omega
  have h3 : (⌈(resetAt - t) / 1000⌉ : Rat) ≤ retryAfterSec resetAt t := by exact_mod_cast h2
  linarith [(div_le_iff₀ (by norm_num : (0 : Rat) < 1000)).1 (h1.trans h3)]

/-- A client that stays away as long as it was told is let through. -/
theorem decision_retry (hmax : 1 ≤ opts.max) {vs ws : List Arrival} {v w : Arrival} {sec : Nat}
    (h : Clocked (vs ++ v :: ws ++ [w])) (hlim : decision opts vs v = some (limited sec))
    (haway : ∀ u ∈ ws, u.of v.key = false) (hof : w.of v.key = true)
    (hlate : v.now + 1000 * sec ≤ w.now) :
    decision opts (vs ++ v :: ws) w = none := by
  obtain ⟨hwc, hwk⟩ := of_iff.1 hof
  have hvc : v.counted = true := by
    by_contra hc
    rw [decision_exempt (Bool.not_eq_true _ ▸ hc)] at hlim
    cases hlim
  have hv : Clocked (vs ++ [v]) := by
    refine clocked_sublist ?_ h
    rw [List.append_assoc]
    exact List.Sublist.append_left (List.Sublist.cons_cons v (List.nil_sublist _)) vs
  have htimes : times v.key (vs ++ v :: ws) = times v.key vs ++ [v.now] := by
    have hnone : ws.filter (Arrival.of v.key) = [] :=
      List.filter_eq_nil_iff.2 fun u hu => by simp [haway u hu]
    unfold times
    rw [List.filter_append, List.filter_cons_of_pos (of_iff.2 ⟨hvc, rfl⟩), hnone, List.map_append]
    rfl
  rw [decision_ideal hv hvc, ideal] at hlim
  rw [decision_ideal h hwc, ideal, hwk, htimes, FixedWindows.windows_snoc]
  cases hw : FixedWindows.windows opts.close (times v.key vs ++ [v.now]) with
  | nil => rw [hw] at hlim; cases hlim
  | cons x xs =>
    obtain ⟨c, n⟩ := x
    rw [hw] at hlim
    simp only at hlim
    split at hlim
    · have hsec := limited_inj (Option.some.inj hlim)
      have := retryAfterSec_le (opts.close c) v.now
      rw [hsec] at this
      have hclosed : ¬ w.now < opts.close c := not_lt.2 (this.trans hlate)
      simp only [FixedWindows.request]
      rw [if_neg hclosed]
      exact if_neg (Nat.not_lt.2 hmax)
    · cases hlim

/-! ## The size of the map -/

/-- `nextSweep` runs at most one window ahead of the clock, and no entry is
older than the sweep before it allows. -/
structure Bounded (opts : RateLimitOptions) (vs : List Arrival) (l : Limiter) : Prop where
  opened : ∀ w ∈ l.windows.rows, l.nextSweep < w.resetAt + opts.windowMs ∧
    ∃ v ∈ vs, v.of w.key = true ∧ w.resetAt = v.now + opts.windowMs
  ahead : ∀ t, 0 ≤ t → (∀ v ∈ vs, v.counted = true → v.now ≤ t) → l.nextSweep ≤ t + opts.windowMs

theorem currentWindow_opened (t : Rat) (key : String) (windows : Table Window.key) :
    (currentWindow opts t key windows).resetAt = t + opts.windowMs ∨
      currentWindow opts t key windows ∈ windows.rows := by
  unfold currentWindow
  split
  · exact .inl rfl
  · rename_i w hw
    split
    · exact .inl rfl
    · exact .inr (Table.find_mem hw)

theorem bounded_step (hw : 0 < opts.windowMs) {vs : List Arrival} {v : Arrival} {l : Limiter}
    (h : Bounded opts vs l) (hc : v.counted = true) (h0 : 0 ≤ v.now)
    (hlast : ∀ u ∈ vs, u.counted = true → u.now ≤ v.now) :
    Bounded opts (vs ++ [v]) (rateLimit opts l v).2 ∧ v.now < (rateLimit opts l v).2.nextSweep := by
  have hv : v ∈ vs ++ [v] := List.mem_append_right _ (List.mem_singleton.2 rfl)
  rw [rateLimit, if_pos hc]
  -- after the sweep, the clock is less than one window behind `nextSweep`
  have hswept : v.now < (l.sweep opts v.now).nextSweep ∧
      (l.sweep opts v.now).nextSweep ≤ v.now + opts.windowMs ∧
      ∀ w ∈ (l.sweep opts v.now).windows.rows,
        (l.sweep opts v.now).nextSweep < w.resetAt + opts.windowMs ∧
        w ∈ l.windows.rows := by
    unfold Limiter.sweep
    split
    · refine ⟨lt_add_of_pos_right _ hw, le_refl _, fun w hm => ?_⟩
      have hm := Table.mem_keep.1 hm
      refine ⟨?_, hm.1⟩
      have : v.now < w.resetAt := of_decide_eq_true hm.2
      show v.now + opts.windowMs < w.resetAt + opts.windowMs
      linarith
    · rename_i ht
      exact ⟨not_le.1 ht, h.ahead v.now h0 hlast, fun w hm => ⟨(h.opened w hm).1, hm⟩⟩
  obtain ⟨hlt, hle, hrows⟩ := hswept
  refine ⟨⟨fun w hm => ?_, fun t _ ht => ?_⟩, hlt⟩
  · rcases Table.mem_upsert.1 hm with rfl | ⟨hm, -⟩
    · rw [currentWindow_key]
      rcases currentWindow_opened v.now v.key (l.sweep opts v.now).windows with hopen | hopen
      · refine ⟨?_, v, hv, of_iff.2 ⟨hc, rfl⟩, hopen⟩
        show (l.sweep opts v.now).nextSweep
          < (currentWindow opts v.now v.key (l.sweep opts v.now).windows).resetAt + opts.windowMs
        rw [hopen]
        linarith
      · obtain ⟨hnext, hmem⟩ := hrows _ hopen
        obtain ⟨-, u, hu, huof, hreset⟩ := h.opened _ hmem
        rw [currentWindow_key] at huof
        exact ⟨hnext, u, List.mem_append_left _ hu, huof, hreset⟩
    · obtain ⟨hnext, hmem⟩ := hrows w hm
      obtain ⟨-, u, hu, huof, hreset⟩ := h.opened w hmem
      exact ⟨hnext, u, List.mem_append_left _ hu, huof, hreset⟩
  · have := ht v hv hc
    show (l.sweep opts v.now).nextSweep ≤ t + opts.windowMs
    linarith

theorem bounded_after (hw : 0 < opts.windowMs) {vs : List Arrival} (h : Clocked vs) :
    Bounded opts vs (.after opts vs) := by
  induction vs using List.reverseRecOn with
  | nil =>
    exact ⟨fun w hm => (List.not_mem_nil hm).elim,
      fun t ht _ => (by linarith : (0 : Rat) ≤ t + opts.windowMs)⟩
  | append_singleton vs v ih =>
    obtain ⟨hvs, hlast⟩ := clocked_snoc h
    have ih := ih hvs
    rw [after_snoc]
    cases hc : v.counted with
    | true => exact (bounded_step hw ih hc (hlast hc).1 (hlast hc).2).1
    | false =>
      rw [rateLimit, hc]
      refine ⟨fun w hm => ?_, fun t ht hle => ih.ahead t ht fun u hu => hle u
        (List.mem_append_left _ hu)⟩
      obtain ⟨hnext, u, hu, hof⟩ := ih.opened w hm
      exact ⟨hnext, u, List.mem_append_left _ hu, hof⟩

theorem rows_recent (hw : 0 < opts.windowMs) {vs : List Arrival} {v : Arrival}
    (h : Clocked (vs ++ [v]))
    (hc : v.counted = true) : ∀ w ∈ (Limiter.after opts (vs ++ [v])).windows.rows,
      ∃ u ∈ vs ++ [v], u.of w.key = true ∧ v.now - 2 * opts.windowMs < u.now := by
  intro w hm
  obtain ⟨hvs, hlast⟩ := clocked_snoc h
  rw [after_snoc] at hm
  obtain ⟨hb, hlt⟩ := bounded_step hw (bounded_after hw hvs) hc (hlast hc).1 (hlast hc).2
  obtain ⟨hnext, u, hu, hof, hreset⟩ := hb.opened w hm
  exact ⟨u, hu, hof, by linarith⟩

/-! ## The whole run -/

/-- What a fixed-window limiter with a bounded map promises of a run.
`unswept` and `apart`: each answer is the one of the limiter that never sweeps,
and is settled by the key's own requests; `ceiling`: a window of `n` requests
of a key lets the first `max` of them through; `retry`: a client that was
turned away and stays away for `Retry-After` seconds is let through;
`recent`: which keys the map holds. -/
structure FixedWindowed (opts : RateLimitOptions) (run : List Arrival) : Prop where
  unswept : ∀ vs v ws, run = vs ++ v :: ws → decision opts vs v =
    (unswept opts (unsweptAfter opts vs) v).1
  apart : ∀ vs v ws, run = vs ++ v :: ws → decision opts vs v =
    decision opts (vs.filter (Arrival.of v.key)) v
  ceiling : ∀ key, ∀ w ∈ FixedWindows.windows opts.close (times key run),
    ((times key (letThrough opts [] run)).filter fun t =>
      decide (w.1 ≤ t ∧ t < w.1 + opts.windowMs)).length
      = min w.2 opts.max
  retry : ∀ vs v us w ws sec, run = vs ++ v :: us ++ w :: ws →
    decision opts vs v = some (limited sec) →
    (∀ u ∈ us, u.of v.key = false) → w.of v.key = true → v.now + 1000 * sec ≤ w.now →
    decision opts (vs ++ v :: us) w = none
  recent : ∀ vs v ws, run = vs ++ v :: ws → v.counted = true →
    ∀ w ∈ (Limiter.after opts (vs ++ [v])).windows.rows,
      ∃ u ∈ vs ++ [v], u.of w.key = true ∧ v.now - 2 * opts.windowMs < u.now

/-- **The lazily swept limiter is the ideal one, and its map stays bounded.** -/
theorem lazily_swept (opts : RateLimitOptions) (hw : 0 < opts.windowMs) (hmax : 1 ≤ opts.max)
    (run : List Arrival) (h : Clocked run) : FixedWindowed opts run := by
  have upTo : ∀ {vs v ws}, run = vs ++ v :: ws → Clocked (vs ++ [v]) := by
    rintro vs v ws rfl
    exact clocked_sublist (List.Sublist.append_left
      (List.Sublist.cons_cons v (List.nil_sublist _)) vs) h
  constructor
  case unswept => exact fun vs v ws hrun => decision_unswept (upTo hrun)
  case apart => exact fun vs v ws hrun => decision_apart (upTo hrun)
  case ceiling =>
    intro key w hm
    have hclose : ∀ c, c < opts.close c := fun c => lt_add_of_pos_right c hw
    rw [letThrough_times key run [] (by simpa using h)]
    exact FixedWindows.admitted_window hclose opts.max (times_sorted h) w hm
  case retry =>
    rintro vs v us w ws sec hrun hlim haway hof hlate
    exact decision_retry hmax (upTo hrun) hlim haway hof hlate
  case recent => exact fun vs v ws hrun hc => rows_recent hw (upTo hrun) hc

/-- One request a second: the second of two is turned away, and let through a
second later. -/
theorem lazily_swept_second :
    FixedWindowed ⟨1000, 1⟩ [⟨"/salt/h1", some "192.0.2.7", 0⟩, ⟨"/salt/h1", some "192.0.2.7", 10⟩,
      ⟨"/healthz", none, 5⟩, ⟨"/salt/h1", some "192.0.2.7", 1010⟩] :=
  lazily_swept ⟨1000, 1⟩ (by norm_num) (le_refl 1) _
    ⟨by simp [Arrival.counted], by
      simp [List.filter_cons, Arrival.counted]
      norm_num⟩

end GlanceVault.L3
