import Mathlib.Order.Lattice
import Mathlib.Data.List.Induction
/-!
# Fixed windows

A stream of requests at given times cuts time into windows: the first request
opens one, every request before the window closes is counted in it, and the
first request at or after its end opens the next. `close c` is the end of the
window that `c` opened; time is any linear order. A limiter with the ceiling
`max` admits a request when the window it falls into then holds at most `max`
requests.

* `sound`: windows do not overlap, and no request is later than the newest.
* `admitted_window`: of the `n` requests of a window exactly `min n max` are
  admitted.
-/
namespace GlanceVault.Core.FixedWindows

variable {T : Type} [LinearOrder T] (close : T → T)

/-- The windows after one more request, newest first, each with the number of
its requests. -/
def request (ws : List (T × Nat)) (t : T) : List (T × Nat) :=
  match ws with
  | [] => [(t, 1)]
  | (c, n) :: ws => if t < close c then (c, n + 1) :: ws else (t, 1) :: (c, n) :: ws

def windows (times : List T) : List (T × Nat) := times.foldl (request close) []

/-- The request at `t` is counted in a window of at most `max` requests. -/
def admits (max : Nat) (past : List T) (t : T) : Bool :=
  match windows close (past ++ [t]) with
  | [] => true
  | (_, n) :: _ => decide (n ≤ max)

/-- Those of the requests `ts` that are admitted when `past` went before. -/
def admitted (max : Nat) : List T → List T → List T
  | _, [] => []
  | past, t :: ts =>
    if admits close max past t then t :: admitted max (past ++ [t]) ts
    else admitted max (past ++ [t]) ts

theorem windows_snoc (times : List T) (t : T) :
    windows close (times ++ [t]) = request close (windows close times) t := by
  unfold windows
  rw [List.foldl_append, List.foldl_cons, List.foldl_nil]

theorem admitted_append (max : Nat) : ∀ (ts past us : List T), admitted close max past (ts ++ us) =
    admitted close max past ts ++ admitted close max (past ++ ts) us
  | [], past, us => by rw [List.append_nil]; rfl
  | t :: ts, past, us => by
    have ih := admitted_append max ts (past ++ [t]) us
    rw [List.append_assoc] at ih
    rw [List.cons_append, admitted, admitted, ih, List.singleton_append]
    split
    · rfl
    · rfl

theorem admitted_snoc (max : Nat) (times : List T) (t : T) : admitted close max [] (times ++ [t]) =
    admitted close max [] times ++ (if admits close max times t then [t] else []) := by
  rw [admitted_append, List.nil_append, admitted, admitted]

theorem admitted_mem (max : Nat) :
    ∀ {ts past : List T} {t : T}, t ∈ admitted close max past ts → t ∈ ts
  | [], _, _, h => h
  | s :: ts, past, t, h => by
    rw [admitted] at h
    split at h
    · rcases List.mem_cons.1 h with rfl | h
      · exact List.mem_cons_self
      · exact List.mem_cons_of_mem _ (admitted_mem max h)
    · exact List.mem_cons_of_mem _ (admitted_mem max h)

/-- What holds of the windows of a stream of requests: the newest opened no
later than the last request and closes after all of them, and every window
closes before the next opens. -/
structure Sound (times : List T) (ws : List (T × Nat)) : Prop where
  opened : ∀ w ∈ ws.head?, w.1 ∈ times ∧ ∀ t ∈ times, t < close w.1
  apart : ws.Pairwise fun v w => close w.1 ≤ v.1
  some : times ≠ [] → ws ≠ []

variable {close}

theorem sound (hclose : ∀ c, c < close c) {times : List T} (hs : times.Pairwise (· ≤ ·)) :
    Sound close times (windows close times) := by
  induction times using List.reverseRecOn with
  | nil => exact ⟨by simp [windows], by simp [windows], fun h => absurd rfl h⟩
  | append_singleton times t ih =>
    rw [List.pairwise_append] at hs
    obtain ⟨hs, -, hle⟩ := hs
    have hle : ∀ s ∈ times, s ≤ t := fun s hm => hle s hm t (List.mem_singleton.2 rfl)
    have ih := ih hs
    rw [windows_snoc]
    unfold request
    split
    · rename_i hw
      have : times = [] := by
        by_contra h
        exact ih.some h hw
      rw [this]
      refine ⟨?_, List.pairwise_singleton .., fun _ => List.cons_ne_nil _ _⟩
      intro w h
      cases h
      exact ⟨List.mem_singleton.2 rfl, fun s hm => by rw [List.mem_singleton.1 hm]; exact hclose t⟩
    · rename_i c n ws hw
      rw [hw] at ih
      obtain ⟨hmem, hall⟩ := ih.opened (c, n) rfl
      have hp := List.pairwise_cons.1 ih.apart
      split
      · rename_i hin
        refine ⟨?_, List.pairwise_cons.2 ⟨hp.1, hp.2⟩, fun _ => List.cons_ne_nil _ _⟩
        intro w h
        cases h
        refine ⟨List.mem_append_left _ hmem, fun s hm => ?_⟩
        rcases List.mem_append.1 hm with hm | hm
        · exact hall s hm
        · rw [List.mem_singleton.1 hm]; exact hin
      · rename_i hin
        have hin : close c ≤ t := not_lt.1 hin
        refine ⟨?_, List.pairwise_cons.2 ⟨?_, ih.apart⟩, fun _ => List.cons_ne_nil _ _⟩
        · intro w h
          cases h
          refine ⟨List.mem_append_right _ (List.mem_singleton.2 rfl), fun s hm => ?_⟩
          rcases List.mem_append.1 hm with hm | hm
          · exact lt_of_le_of_lt (hle s hm) (hclose t)
          · rw [List.mem_singleton.1 hm]; exact hclose t
        · intro w hm
          rcases List.mem_cons.1 hm with rfl | hm
          · exact hin
          · -- an older window closed before `c`, which is before `t`
            have := hp.1 w hm
            exact le_trans this (le_trans (le_of_lt (hclose c)) hin)

/-- The admitted requests of the window that `c` opened. -/
def inWindow (close : T → T) (c : T) (ts : List T) : List T :=
  ts.filter fun t => decide (c ≤ t ∧ t < close c)

theorem inWindow_append (c : T) (ts us : List T) :
    inWindow close c (ts ++ us) = inWindow close c ts ++ inWindow close c us :=
  List.filter_append ..

theorem inWindow_nil {c : T} {ts : List T} (h : ∀ t ∈ ts, ¬ (c ≤ t ∧ t < close c)) :
    inWindow close c ts = [] :=
  List.filter_eq_nil_iff.2 fun t hm => by simpa using h t hm

theorem last_inside {c t : T} (h : c ≤ t ∧ t < close c) (b : Bool) :
    (inWindow close c (if b then [t] else [])).length = if b then 1 else 0 := by
  cases b with
  | true => rw [if_pos rfl, if_pos rfl, inWindow, List.filter_cons_of_pos (by simpa using h)]; rfl
  | false => rfl

theorem last_outside {c t : T} (h : ¬ (c ≤ t ∧ t < close c)) (b : Bool) :
    (inWindow close c (if b then [t] else [])).length = 0 := by
  cases b with
  | true => rw [if_pos rfl, inWindow, List.filter_cons_of_neg (by simpa using h)]; rfl
  | false => rfl

theorem min_next (n max : Nat) :
    min n max + (if decide (n + 1 ≤ max) = true then 1 else 0) = min (n + 1) max := by
  simp only [decide_eq_true_eq]
  split
  · omega
  · omega

/-- **Each window admits its first `max` requests.** -/
theorem admitted_window (hclose : ∀ c, c < close c) (max : Nat) {times : List T}
    (hs : times.Pairwise (· ≤ ·)) :
    ∀ w ∈ windows close times, (inWindow close w.1 (admitted close max [] times)).length =
      min w.2 max := by
  induction times using List.reverseRecOn with
  | nil => intro w h; cases h
  | append_singleton times t ih =>
    rw [List.pairwise_append] at hs
    have hle : ∀ s ∈ times, s ≤ t := fun s hm => hs.2.2 s hm t (List.mem_singleton.2 rfl)
    have hsound := sound hclose hs.1
    have ih := ih hs.1
    have hadm : admits close max times t = match request close (windows close times) t with
        | [] => true
        | (_, n) :: _ => decide (n ≤ max) := by rw [admits, windows_snoc]
    rw [windows_snoc, admitted_snoc, hadm]
    unfold request
    cases hw : windows close times with
    | nil =>
      have : times = [] := by
        by_contra h
        exact hsound.some h hw
      subst this
      intro w h
      rw [List.mem_singleton.1 h]
      simp only [admitted, List.nil_append]
      rw [last_inside ⟨le_refl t, hclose t⟩]
      simpa using min_next 0 max
    | cons w ws =>
      obtain ⟨c, n⟩ := w
      rw [hw] at hsound ih
      obtain ⟨hmem, hend⟩ := hsound.opened (c, n) rfl
      have hct : c ≤ t := hle c hmem
      have hold := List.pairwise_cons.1 hsound.apart
      simp only
      split
      · -- the request falls into the newest window and into no older one
        rename_i hin
        intro w h
        rw [inWindow_append, List.length_append]
        rcases List.mem_cons.1 h with rfl | h
        · rw [ih _ List.mem_cons_self, last_inside ⟨hct, hin⟩]
          exact min_next n max
        · have hbefore : close w.1 ≤ t := le_trans (hold.1 w h) hct
          rw [ih w (List.mem_cons_of_mem _ h),
            last_outside fun hs => absurd hs.2 (not_lt.2 hbefore), Nat.add_zero]
      · -- it opens a window, which no earlier request falls into
        rename_i hin
        have hin : close c ≤ t := not_lt.1 hin
        intro w h
        rw [inWindow_append, List.length_append]
        rcases List.mem_cons.1 h with rfl | h
        · rw [inWindow_nil, List.length_nil, last_inside ⟨le_refl t, hclose t⟩]
          · simpa using min_next 0 max
          · intro s hm hs
            have := hend s (admitted_mem close max hm)
            exact absurd hs.1 (not_le.2 (lt_of_lt_of_le this hin))
        · have hbefore : close w.1 ≤ t := by
            rcases List.mem_cons.1 h with rfl | h
            · exact hin
            · exact le_trans (hold.1 w h) hct
          rw [ih w h, last_outside fun hs => absurd hs.2 (not_lt.2 hbefore), Nat.add_zero]

end GlanceVault.Core.FixedWindows
