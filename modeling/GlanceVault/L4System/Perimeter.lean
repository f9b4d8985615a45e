import GlanceVault.L3Http.App
import GlanceVault.L4System.System
/-!
# The perimeter

The running system behind `buildApp`: requests come in as text, with a client
address and a time, and become actions of the system or answers of the
middleware. The requests of some client addresses are an outsider's: none of
them presents a token or a proof that the server knows when it arrives.

* `sys_run`: the system behind the middleware takes the actions of the requests
  that get through, and no others.
* `outsiders`: over a whole run an outsider changes nothing, is answered as on
  an empty volume, and is not noticed by anybody else.
* `guesses`: how many of a client's requests get past the limiter, and which
  requests it does not see.

## Hypotheses

* `Clocked`, and `Timed` when there is a limiter: what the limiter reads of the
  clock is not negative and does not decrease. The clock is not under the
  program's control; read backwards, a window lasts longer than it should.
* an outsider has addresses of its own: behind one address the limiter cannot
  tell two clients apart, and who shares one shares its windows.
* `Unproven`: at each of its requests an outsider presents nothing that the server
  knows at that moment. It may not guess right, nor find out.
-/
namespace GlanceVault.L4
open GlanceVault.Core GlanceVault.L1 GlanceVault.L1.Js GlanceVault.L2 GlanceVault.L3

/-! ## The application as a system -/

/-- What is sent back, with the headers of `cors`. -/
inductive AppReply
  | response (headers : Headers) (r : Response)
  | usage (headers : Headers) (r : UsageReport)

/-- `held`: the headers set on the responses of the requests in flight. -/
structure App where
  limiter : Limiter
  sys : State
  held : List (Nat × Headers)

/-- A process that has just started on the volume of `s`. -/
def App.start (s : State) : App := ⟨.fresh, s, []⟩

/-- Requests come in by `buildApp` only. -/
def Action.requests : Action → Bool
  | .arrive .. => true
  | .admin .. => true
  | _ => false

/-- A request with the time of its arrival and what its handler reads if it is
answered at once, or an action of the system that is none. -/
inductive AppEvent
  | request (id : Nat) (now : Rat) (env : Env) (clock : String → String) (req : HttpRequest)
  | inside (a : Action) (h : a.requests = false)

namespace App
variable (app : AppConfig) (host : Host) (s : App)

/-- The limiter's answer, if any, and the limiter after it. -/
def limited (now : Rat) (req : HttpRequest) : Option Response × Limiter :=
  match app.rateLimit, req.arrival now with
  | some opts, some v => rateLimit opts s.limiter v
  | _, _ => (none, s.limiter)

def passage (now : Rat) (req : HttpRequest) : Passage :=
  buildApp app host s.sys.server.db (s.limited app now req).1 req

/-- The action of the system that an event starts. -/
def action : AppEvent → Option Action
  | .request id now env _ req =>
    match s.passage app host now req with
    | .admin route => some (.admin req.authorization route env)
    | .scoped route => some (.arrive id ⟨req.authorization, route⟩)
    | _ => none
  | .inside a _ => some a

def answer : AppEvent → Option AppReply
  | .request _ now env clock req =>
    let headers := cors app.allowedOrigins req.origin
    match s.passage app host now req with
    | .answered r => some (.response headers r)
    | .admin route =>
      (s.sys.answer host (.admin req.authorization route env)).map (.response headers)
    | .report .credentials => some (.response headers (credentialsReport s.sys.server.db))
    | .report .accounts => some (.response headers (accountsReport app.cfg s.sys.server.db))
    | .report .usage => some (.usage headers (adminUsage clock s.sys.server.db s.sys.server.hub))
    | .scoped _ => none
  | .inside (.handle id env) _ =>
    (s.sys.answer host (.handle id env)).map
      (.response (((s.held.find? fun p => p.1 == id).map (·.2)).getD []))
  | .inside _ _ => none

/-- The headers of the requests in flight after an event. -/
def holds : AppEvent → List (Nat × Headers)
  | .request id now _ _ req =>
    match s.passage app host now req with
    | .scoped _ => s.held ++ [(id, cors app.allowedOrigins req.origin)]
    | _ => s.held
  | .inside (.handle id _) _ => s.held.filter fun p => p.1 != id
  | .inside (.drop id) _ => s.held.filter fun p => p.1 != id
  | .inside _ _ => s.held

def limiterAfter : AppEvent → Limiter
  | .request _ now _ _ req => (s.limited app now req).2
  | .inside _ _ => s.limiter

def next (e : AppEvent) : App :=
  ⟨s.limiterAfter app e,
    match s.action app host e with
    | some a => s.sys.act host a
    | none => s.sys,
    s.holds app host e⟩

/-- The actions of a run. -/
def actions : App → List AppEvent → List Action
  | _, [] => []
  | s, e :: es => (s.action app host e).toList ++ actions (s.next app host e) es

end App

/-- The application after the events `es`. -/
def App.after (app : AppConfig) (host : Host) (s : State) (es : List AppEvent) : App :=
  run (App.next app host) (.start s) es

section Runs
variable {app : AppConfig} {host : Host}

/-- **Behind the middleware is the system**, on the actions of the requests
that get through. -/
theorem sys_run : ∀ (es : List AppEvent) (s : App),
    (run (App.next app host) s es).sys = run (State.act host) s.sys (s.actions app host es)
  | [], _ => rfl
  | e :: es, s => by
    rw [run_cons, sys_run es, App.actions, run_append]
    congr 1
    unfold App.next
    cases s.action app host e with
    | none => rfl
    | some a => rfl

theorem sys_cfg (es : List AppEvent) (s : App) :
    (run (App.next app host) s es).sys.cfg = s.sys.cfg := by
  refine run_inv (I := fun t => t.sys.cfg = s.sys.cfg) (fun t e h => ?_) es s rfl
  unfold App.next
  cases t.action app host e with
  | none => exact h
  | some a => exact h

theorem next_after (s : State) (es : List AppEvent) (e : AppEvent) :
    App.after app host s (es ++ [e]) = (App.after app host s es).next app host e := by
  unfold App.after
  rw [run_append]
  rfl

/-- An operator's request that leaves the server as it is leaves the system so. -/
theorem act_admin_still {s : State} {header : Option String} {route : AdminRoute} {env : Env}
    (h : (handleAdmin s.cfg host env header route s.server).state = s.server) :
    s.act host (.admin header route env) = s := by
  have hserver : (s.act host (.admin header route env)).server = s.server :=
    (act_admin host s header route env).trans h
  calc s.act host (.admin header route env)
      = ⟨s.cfg, (s.act host (.admin header route env)).server, s.pending, s.sent ++ []⟩ := rfl
    _ = s := by rw [hserver, List.append_nil]

/-! ## What the limiter has seen -/

def AppEvent.arrival : AppEvent → Option Arrival
  | .request _ now _ _ req => req.arrival now
  | .inside _ _ => none

/-- What the limiter has read of a run. -/
def arrivals (es : List AppEvent) : List Arrival := es.filterMap AppEvent.arrival

theorem arrivals_snoc (es : List AppEvent) (e : AppEvent) :
    arrivals (es ++ [e]) = arrivals es ++ e.arrival.toList := by
  unfold arrivals
  rw [List.filterMap_append]
  cases h : e.arrival with
  | none => rw [List.filterMap_cons_none h]; rfl
  | some v => rw [List.filterMap_cons_some h]; rfl

theorem limiter_after {opts : RateLimitOptions} (h : app.rateLimit = some opts) (s : State)
    (es : List AppEvent) :
    (App.after app host s es).limiter = Limiter.after opts (arrivals es) := by
  induction es using List.reverseRecOn with
  | nil => rfl
  | append_singleton es e ih =>
    rw [next_after s es e, arrivals_snoc]
    cases e with
    | inside a ha =>
      show (App.after app host s es).limiter = Limiter.after opts (arrivals es ++ [])
      rw [List.append_nil, ih]
    | request id now env clock req =>
      show ((App.after app host s es).limited app now req).2 =
        Limiter.after opts (arrivals es ++ (req.arrival now).toList)
      unfold App.limited
      cases req.arrival now with
      | none =>
        rw [h, Option.toList_none, List.append_nil]
        exact ih
      | some v =>
        rw [h, Option.toList_some, after_snoc]
        dsimp only
        rw [ih]

/-- The limiter's answer to the next request. -/
theorem limited_after {opts : RateLimitOptions} (h : app.rateLimit = some opts) (s : State)
    (es : List AppEvent)
    {now : Rat} {req : HttpRequest} {v : Arrival} (hv : req.arrival now = some v) :
    ((App.after app host s es).limited app now req).1 = decision opts (arrivals es) v := by
  unfold App.limited decision
  rw [h, hv, limiter_after h]

theorem arrival_key {req : HttpRequest} {now : Rat} {v : Arrival} (h : req.arrival now = some v) :
    v.key = req.key := by
  unfold HttpRequest.arrival at h
  split at h
  · cases h
  · cases h
    rfl

end Runs

/-! ## Outsiders -/

/-- A request from one of the outsider's addresses. -/
def AppEvent.outside (addresses : String → Bool) : AppEvent → Bool
  | .request _ _ _ _ req => addresses req.key
  | .inside _ _ => false

/-- The events of everybody else. -/
def others (addresses : String → Bool) (es : List AppEvent) : List AppEvent :=
  es.filter fun e => !e.outside addresses

/-- A request that proves nothing in the state it meets. -/
def AppEvent.Unproven (app : AppConfig) (host : Host) (s : App) : AppEvent → Prop
  | .request _ _ _ _ req => L3.Unproven app host s.sys.server.db req
  | .inside _ _ => True

/-- The readings of the clock do not decrease, if there is a limiter to read them. -/
def Timed (app : AppConfig) (es : List AppEvent) : Prop :=
  app.rateLimit.isSome → Clocked (arrivals es)

/-- What an outsider amounts to in a run. `refused`: its requests change
nothing but the limiter, and are answered as by the same process on an empty
volume; `unmoved` and `unheard`: the system is in the state it would be in
without them, and answers everybody else as it would. -/
structure Shielded (app : AppConfig) (host : Host) (s : State) (addresses : String → Bool)
    (es : List AppEvent) : Prop where
  refused : ∀ before e after, es = before ++ e :: after → e.outside addresses = true →
    ((App.after app host s before).next app host e).sys = (App.after app host s before).sys ∧
    (App.after app host s before).answer app host e =
      App.answer app host ⟨(App.after app host s before).limiter, .init app.cfg, []⟩ e
  unmoved : ∀ before after, es = before ++ after →
    (App.after app host s before).sys = (App.after app host s (others addresses before)).sys
  unheard : ∀ before e after, es = before ++ e :: after → e.outside addresses = false →
    (App.after app host s before).answer app host e =
      (App.after app host s (others addresses before)).answer app host e

section Outsider
variable {app : AppConfig} {host : Host} {addresses : String → Bool}

/-- An outsider's request goes no further than to an answer. -/
theorem unproven_refused {s : App} (hcfg : s.sys.cfg = app.cfg) {e : AppEvent}
    (he : e.outside addresses = true) (h : e.Unproven app host s) :
    (s.next app host e).sys = s.sys ∧ (s.next app host e).held = s.held ∧
      s.answer app host e = App.answer app host ⟨s.limiter, .init app.cfg, []⟩ e := by
  cases e with
  | inside a ha => cases he
  | request id now env clock req =>
    obtain ⟨hsame, hcases⟩ := buildApp_unproven h (s.limited app now req).1
    have hempty : App.passage app host ⟨s.limiter, .init app.cfg, []⟩ now req =
        s.passage app host now req :=
      hsame.symm
    rcases hcases with ⟨r, hr⟩ | ⟨hm, henroll⟩
    · have hpass : s.passage app host now req = .answered r := hr
      refine ⟨?_, ?_, ?_⟩
      · simp only [App.next, App.action, hpass]
      · simp only [App.next, App.holds, hpass]
      · simp only [App.answer, hempty, hpass]
    · have hpass : s.passage app host now req = .admin (.enroll req.body) := henroll
      have hmode : s.sys.cfg.authMode = .perAccount := by rw [hcfg, hm]
      obtain ⟨hstate, hfinish⟩ : _ ∧
          finish (handleAdmin s.sys.cfg host env req.authorization
            (.enroll req.body) s.sys.server) =
          finish (handleAdmin s.sys.cfg host env req.authorization (.enroll req.body) .fresh) :=
        enroll_unproven req.authorization hmode (by rw [hcfg]; exact h.proof hm)
      refine ⟨?_, ?_, ?_⟩
      · simp only [App.next, App.action, hpass]
        exact act_admin_still hstate
      · simp only [App.next, App.holds, hpass]
      · simp only [App.answer, hempty, hpass, State.answer, Option.map_some]
        rw [hfinish, hcfg]
        rfl

/-- The rest of a run is the same with and without the outsider's requests. -/
theorem others_act {s t : App} (hsys : s.sys = t.sys) (hheld : s.held = t.held) {e : AppEvent}
    (hlimit : ∀ id now env clock req, e = .request id now env clock req →
      (s.limited app now req).1 = (t.limited app now req).1) :
    s.answer app host e = t.answer app host e ∧ (s.next app host e).sys = (t.next app host e).sys ∧
      (s.next app host e).held = (t.next app host e).held := by
  cases e with
  | request id now env clock req =>
    have hpass : s.passage app host now req = t.passage app host now req := by
      unfold App.passage
      rw [hsys, hlimit id now env clock req rfl]
    refine ⟨?_, ?_, ?_⟩
    · simp only [App.answer, hpass, hsys]
    · simp only [App.next, App.action, hpass, hsys]
    · simp only [App.next, App.holds, hpass, hheld]
  | inside a ha =>
    refine ⟨?_, ?_, ?_⟩
    · cases a <;> simp only [App.answer, hsys, hheld]
    · simp only [App.next, App.action, hsys]
    · cases a <;> simp only [App.next, App.holds, hheld]

theorem arrivals_others {key : String} (hkey : addresses key = false) (es : List AppEvent) :
    (arrivals (others addresses es)).filter (Arrival.of key) = (arrivals es).filter
    (Arrival.of key) := by
  induction es with
  | nil => rfl
  | cons e es ih =>
    have hcons : ∀ fs : List AppEvent, (arrivals (e :: fs)).filter (Arrival.of key) =
        e.arrival.toList.filter (Arrival.of key) ++
          (arrivals fs).filter (Arrival.of key) := fun fs => by
      unfold arrivals
      cases h : e.arrival with
      | none => rw [List.filterMap_cons_none h]; rfl
      | some v => rw [List.filterMap_cons_some h, ← List.filter_append]; rfl
    rw [hcons]
    cases ho : e.outside addresses with
    | false =>
      have hkept : others addresses (e :: es) = e :: others addresses es :=
        List.filter_cons_of_pos (by simp [ho])
      rw [hkept, hcons, ih]
    | true =>
      have hkept : others addresses (e :: es) = others addresses es :=
        List.filter_cons_of_neg (by simp [ho])
      have hnone : e.arrival.toList.filter (Arrival.of key) = [] := by
        refine List.filter_eq_nil_iff.2 fun v hv hof => ?_
        cases e with
        | inside a ha => cases ho
        | request id now env clock req =>
          have hk : addresses v.key = true := (arrival_key (Option.mem_toList.1 hv)).symm ▸ ho
          rw [(of_iff.1 hof).2, hkey] at hk
          cases hk
      rw [hkept, hnone, List.nil_append, ih]

/-- An outsider's requests do not count for other addresses. -/
theorem decision_others {opts : RateLimitOptions} {es : List AppEvent} {v : Arrival}
    (hv : addresses v.key = false)
    (hclock : Clocked (arrivals es ++ [v])) :
    decision opts (arrivals es) v = decision opts (arrivals (others addresses es)) v := by
  have hsub : (arrivals (others addresses es)).Sublist (arrivals es) :=
    List.filter_sublist.filterMap _
  rw [decision_apart hclock, decision_apart (clocked_sublist (hsub.append_right [v]) hclock),
    arrivals_others hv]

/-- Somebody else's request meets the same verdict of the limiter. -/
theorem limited_others {s0 : State} {es after : List AppEvent} {e : AppEvent}
    (ho : e.outside addresses = false)
    (ht : Timed app (es ++ e :: after)) (id : Nat) (now : Rat) (env : Env)
    (clock : String → String) (req : HttpRequest) (he : e = .request id now env clock req) :
    ((App.after app host s0 es).limited app now req).1 =
    ((App.after app host s0 (others addresses es)).limited app now req).1 := by
  subst he
  cases hopts : app.rateLimit with
  | none =>
    unfold App.limited
    rw [hopts]
  | some opts =>
    cases hv : req.arrival now with
    | none =>
      unfold App.limited
      rw [hopts, hv]
    | some v =>
      rw [limited_after hopts s0 es hv, limited_after hopts s0 _ hv]
      refine decision_others ((arrival_key hv).symm ▸ ho) ?_
      have hclock : Clocked (arrivals (es ++ .request id now env clock req :: after)) :=
        ht (by rw [hopts]; rfl)
      have hsplit : arrivals (es ++ .request id now env clock req :: after) =
          arrivals es ++ [v] ++ arrivals after := by
        have hv : AppEvent.arrival (.request id now env clock req) = some v := hv
        unfold arrivals
        rw [List.filterMap_append, List.filterMap_cons_some hv, List.append_assoc]
        rfl
      rw [hsplit] at hclock
      exact clocked_prefix hclock

theorem unmoved_after {s0 : State} (hcfg : s0.cfg = app.cfg) :
    ∀ (es after : List AppEvent), Timed app (es ++ after) →
    AllSteps (App.next app host) (fun s e => e.outside addresses = true →
      e.Unproven app host s) (.start s0) (es ++ after) →
    (App.after app host s0 es).sys = (App.after app host s0 (others addresses es)).sys ∧
      (App.after app host s0 es).held = (App.after app host s0 (others addresses es)).held := by
  intro es
  induction es using List.reverseRecOn with
  | nil => exact fun _ _ _ => ⟨rfl, rfl⟩
  | append_singleton es e ih =>
    intro after ht hok
    rw [List.append_assoc] at ht hok
    obtain ⟨hsys, hheld⟩ := ih _ ht hok
    have hstep := (allSteps_append.1 hok).2.1
    rw [next_after]
    cases ho : e.outside addresses with
    | true =>
      have hkept : others addresses (es ++ [e]) = others addresses es := by
        unfold others
        rw [List.filter_append, List.filter_cons_of_neg (by simp [ho]),
          List.filter_nil, List.append_nil]
      obtain ⟨h1, h2, -⟩ := unproven_refused ((sys_cfg es _).trans hcfg) ho (hstep ho)
      rw [hkept]
      exact ⟨h1.trans hsys, h2.trans hheld⟩
    | false =>
      have hkept : others addresses (es ++ [e]) = others addresses es ++ [e] := by
        unfold others
        rw [List.filter_append, List.filter_cons_of_pos (by simp [ho]), List.filter_nil]
      rw [hkept, next_after]
      exact (others_act hsys hheld (limited_others ho ht)).2

/-- **Outsiders change nothing, learn nothing, and are not noticed.** -/
theorem outsiders (app : AppConfig) (host : Host) {s : State} (hcfg : s.cfg = app.cfg)
    (addresses : String → Bool)
    (es : List AppEvent) (ht : Timed app es)
    (h : AllSteps (App.next app host) (fun s e => e.outside addresses = true →
      e.Unproven app host s) (.start s) es) :
    Shielded app host s addresses es := by
  refine ⟨?_, ?_, ?_⟩
  · rintro before e after rfl ho
    obtain ⟨h1, -, h3⟩ :=
      unproven_refused ((sys_cfg before _).trans hcfg) ho ((allSteps_append.1 h).2.1 ho)
    exact ⟨h1, h3⟩
  · rintro before after rfl
    exact (unmoved_after hcfg before after ht h).1
  · rintro before e after rfl ho
    obtain ⟨hsys, hheld⟩ := unmoved_after hcfg before (e :: after) ht h
    exact (others_act hsys hheld (limited_others ho ht)).1

/-- A vault with one token and a limiter, and a stranger who guesses it twice
while the house asks for its salt. -/
def houseApp : AppConfig := ⟨oneApp, [], some ⟨60000, 600⟩, 7⟩

def getsSalt (token ip : String) : HttpRequest :=
  ⟨.method .get, "/salt/house", fun _ => none, none, some ("Bearer " ++ token),
    none, .raw [], some ip⟩

def guessing : List AppEvent :=
  [.request 0 10 idle id (getsSalt "guess" "203.0.113.9"),
    .request 1 20 idle id (getsSalt "token" "192.0.2.7"),
    .inside (.handle 1 idle) rfl, .request 2 30 idle id (getsSalt "tokens" "203.0.113.9")]

theorem guessing_clocked : Clocked (arrivals guessing) := by
  have harrivals : arrivals guessing = [⟨"/salt/house", some "203.0.113.9", 10⟩,
    ⟨"/salt/house", some "192.0.2.7", 20⟩,
    ⟨"/salt/house", some "203.0.113.9", 30⟩] := rfl
  rw [harrivals]
  constructor
  · simp
  · simp [List.filter_cons, Arrival.counted]
    norm_num

theorem outsiders_stranger : Shielded houseApp plainHost (.init oneApp)
    (· == "203.0.113.9") guessing := by
  have hguess : ∀ (s : App) (token : String), bearer (some ("Bearer " ++ token)) ≠ some "token" →
      L3.Unproven houseApp plainHost s.sys.server.db (getsSalt token "203.0.113.9") :=
        fun s token h =>
    ⟨fun c hc => h (deviceTokenAuth_ok hc), nofun, nofun⟩
  refine outsiders houseApp plainHost rfl _ guessing (fun _ => guessing_clocked)
    (allSteps_mem _ _ fun e he s ho => ?_)
  simp only [guessing, List.mem_cons, List.not_mem_nil, or_false] at he
  rcases he with rfl | rfl | rfl | rfl
  · exact hguess s "guess" (by decide +kernel)
  · exact absurd ho (by decide)
  · exact absurd ho (by decide)
  · exact hguess s "tokens" (by decide +kernel)

end Outsider
/-! ## Guesses -/

/-- The requests of a run that the limiter reads and lets through. -/
def App.passed (app : AppConfig) (host : Host) : App → List AppEvent → List Arrival
  | _, [] => []
  | s, e :: es =>
    (match e with
      | .request _ now _ _ req =>
        if (s.limited app now req).1.isNone then (req.arrival now).toList else []
      | .inside _ _ => []) ++ App.passed app host (s.next app host e) es

/-- How often a client can try a token. `blind`: a request that is not let
through is answered 429 without a look at its token; `ceiling`: of the `n`
requests of a client in a window `min n max` are let through; `read`: these are
all but preflights and those to the path of the health check, which the limiter
lets through whatever it holds and which leave no mark on it. `preflight`,
`probe`: preflights and the health check itself look at no token; `unseen`: but
by a method that the health check does not answer a client is told there
whether its token is good. -/
structure Throttled (app : AppConfig) (opts : RateLimitOptions) (host : Host) (s : State)
    (es : List AppEvent) : Prop where
  blind : ∀ before after now req r, es = before ++ after →
    ((App.after app host s before).limited app now req).1 = some r → r.status = 429 ∧ ∀ token,
    (App.after app host s before).passage app host now
      { req with authorization := token } = .answered r
  ceiling : ∀ key, ∀ w ∈ FixedWindows.windows opts.close (times key (arrivals es)),
    ((times key (App.passed app host (.start s) es)).filter fun t =>
      decide (w.1 ≤ t ∧ t < w.1 + opts.windowMs)).length
      = min w.2 opts.max
  read : ∀ now req, (∃ v, HttpRequest.arrival req now = some v ∧ v.of req.key = true) ↔
    req.verb ≠ .options ∧ req.path ≠ "/healthz"
  preflight : ∀ before after now req, es = before ++ after → req.verb = .options →
    (App.after app host s before).limited app now req =
      (none, (App.after app host s before).limiter) ∧
    (App.after app host s before).passage app host now req = .answered ⟨204, [], .empty⟩
  probe : ∀ before after now req, es = before ++ after → req.path = "/healthz" →
    req.verb.answered .get = true →
    (App.after app host s before).limited app now req =
      (none, (App.after app host s before).limiter) ∧
    (App.after app host s before).passage app host now req = .answered (health app)
  unseen : ∀ before after now req, es = before ++ after → req.path = "/healthz" →
    req.verb.answered .get = false →
    req.verb ≠ .options →
    (App.after app host s before).limited app now req =
      (none, (App.after app host s before).limiter) ∧
    (App.after app host s before).passage app host now req =
      match authenticate app.cfg host
        (App.after app host s before).sys.server.db req.authorization with
      | .ok _ => .answered unknownPath
      | .error r => .answered r

section Guess
variable {app : AppConfig} {opts : RateLimitOptions} {host : Host}

theorem passed_letThrough (h : app.rateLimit = some opts) (s : State) :
    ∀ (es before : List AppEvent),
    App.passed app host (App.after app host s before) es =
      letThrough opts (arrivals before) (arrivals es)
  | [], _ => rfl
  | e :: es, before => by
    have ih := passed_letThrough h s es (before ++ [e])
    rw [next_after, arrivals_snoc] at ih
    cases e with
    | inside a ha =>
      rw [App.passed, ih]
      show letThrough opts (arrivals before ++ []) (arrivals es) =
        letThrough opts (arrivals before) (arrivals es)
      rw [List.append_nil]
    | request id now env clock req =>
      rw [App.passed, ih]
      cases hv : req.arrival now with
      | none =>
        have hnone : AppEvent.arrival (.request id now env clock req) = none := hv
        have hskip : arrivals (.request id now env clock req :: es) = arrivals es :=
          List.filterMap_cons_none hnone
        rw [hskip, hnone]
        simp
      | some v =>
        have hsome : AppEvent.arrival (.request id now env clock req) = some v := hv
        have hcons : arrivals (.request id now env clock req :: es) = v :: arrivals es :=
          List.filterMap_cons_some hsome
        rw [hcons, letThrough, hsome, limited_after h s before hv]
        dsimp only [Option.toList_some]
        split
        · rfl
        · rfl

/-- The limiter answers 429, and no preflight. -/
theorem limited_some {s : App} {now : Rat} {req : HttpRequest} {r : Response}
    (h : (s.limited app now req).1 = some r) : req.verb ≠ .options ∧ r.status = 429 := by
  unfold App.limited at h
  cases hopts : app.rateLimit with
  | none => rw [hopts] at h; cases h
  | some opts =>
    cases hv : req.arrival now with
    | none => rw [hopts, hv] at h; cases h
    | some v =>
      rw [hopts, hv] at h
      refine ⟨fun hno => ?_, ?_⟩
      · unfold HttpRequest.arrival at hv
        rw [if_pos hno] at hv
        cases hv
      · unfold rateLimit countRequest at h
        dsimp only at h
        split at h
        · dsimp only at h
          split at h <;> cases h
          rfl
        · cases h

/-- What the limiter does not read it lets through, and keeps no mark of. -/
theorem limited_exempt (h : app.rateLimit = some opts) (s : App) (now : Rat) {req : HttpRequest}
    (hreq : req.verb = .options ∨ req.path = "/healthz") :
    s.limited app now req = (none, s.limiter) := by
  unfold App.limited HttpRequest.arrival
  rw [h]
  by_cases hno : req.verb = .options
  · rw [if_pos hno]
  · rw [if_neg hno, hreq.resolve_left hno]
    rfl

theorem health_answered {v : Verb} (h : v.answered .get = true) :
    ∃ e ps, v.dispatch ["healthz"] healthRouter = .target e ps := by
  cases v with
  | method m =>
    cases m with
    | get => exact ⟨(), [], by decide +kernel⟩
    | head => exact ⟨(), [], by decide +kernel⟩
    | post => cases h
    | put => cases h
    | delete => cases h
  | options => cases h
  | other => cases h

theorem health_unanswered {v : Verb} (h : v.answered .get = false) :
    v.dispatch ["healthz"] healthRouter = .unknown := by
  cases v with
  | method m =>
    cases m with
    | get => cases h
    | head => cases h
    | post => decide +kernel
    | put => decide +kernel
    | delete => decide +kernel
  | options => decide +kernel
  | other => decide +kernel

theorem healthz_elsewhere (v : Verb) :
    v.dispatch (behindMount 1 ["healthz"]) enrollRouter = .unknown ∧
    v.dispatch (behindMount 1 ["healthz"]) endpoints = .unknown := by
  cases v with
  | method m => cases m <;> decide +kernel
  | options => decide +kernel
  | other => decide +kernel

/-- The path of the health check leads nowhere else. -/
theorem healthz_unrouted {db : Db} {req : HttpRequest} (hpath : req.path = "/healthz")
    (hverb : req.verb.answered .get = false)
    (hno : req.verb ≠ .options) : buildApp app host db none req =
      match authenticate app.cfg host db req.authorization with
      | .ok _ => .answered unknownPath
      | .error r => .answered r := by
  have hsegments : pathSegments req.path = ["healthz"] := by rw [hpath]; decide +kernel
  have hhealth := health_unanswered hverb
  obtain ⟨henroll, hrest⟩ := healthz_elsewhere req.verb
  have hadmin : underAdmin ["healthz"] = false := by decide +kernel
  have hscoped : scopedPassage app host db req =
      match authenticate app.cfg host db req.authorization with
      | .ok _ => .answered unknownPath
      | .error r => .answered r := by
    unfold scopedPassage
    rw [hsegments, hrest]
    cases authenticate app.cfg host db req.authorization <;> rfl
  unfold buildApp
  rw [if_neg hno, hsegments, hhealth, henroll, hadmin, hscoped]
  cases app.cfg.authMode <;> rfl

/-- **Guesses are throttled, except at the path of the health check.** -/
theorem guesses (app : AppConfig) {opts : RateLimitOptions} (host : Host)
    (h : app.rateLimit = some opts)
    (hw : 0 < opts.windowMs) (s : State) (es : List AppEvent) (hclock : Clocked (arrivals es)) :
    Throttled app opts host s es := by
  refine ⟨?_, ?_, ?_, ?_, ?_, ?_⟩
  · intro before after now req r _ hr
    obtain ⟨hno, hstatus⟩ := limited_some hr
    refine ⟨hstatus, fun token => ?_⟩
    have hr :
        ((App.after app host s before).limited app now { req with authorization := token }).1 =
          some r := hr
    unfold App.passage buildApp
    rw [if_neg hno, hr]
  · intro key w hw'
    have hclose : ∀ c, c < opts.close c := fun c => lt_add_of_pos_right c hw
    rw [show App.start s = App.after app host s [] from rfl, passed_letThrough h,
      letThrough_times key (arrivals es) (arrivals []) (by simpa [arrivals] using hclock)]
    exact FixedWindows.admitted_window hclose opts.max (times_sorted hclock) w hw'
  · intro now req
    unfold HttpRequest.arrival
    by_cases hno : req.verb = .options
    · rw [if_pos hno]
      exact iff_of_false (fun ⟨v, hv, _⟩ => by cases hv) fun hread => hread.1 hno
    · rw [if_neg hno]
      have hkey : ∀ path, (Arrival.mk path req.ip now).of req.key = true ↔
          path ≠ "/healthz" := fun path => by
        rw [of_iff]
        exact ⟨fun hof => by simpa [Arrival.counted] using hof.1,
          fun hne => ⟨by simpa [Arrival.counted] using hne, rfl⟩⟩
      constructor
      · rintro ⟨v, hv, hof⟩
        cases hv
        exact ⟨hno, (hkey _).1 hof⟩
      · exact fun hread => ⟨_, rfl, (hkey _).2 hread.2⟩
  · intro before after now req _ hno
    have hlimited := limited_exempt h (App.after app host s before) now (.inl hno)
    refine ⟨hlimited, ?_⟩
    unfold App.passage buildApp
    rw [if_pos hno]
  · intro before after now req _ hpath hverb
    have hlimited := limited_exempt h (App.after app host s before) now (.inr hpath)
    have hno : req.verb ≠ .options := fun e => by rw [e] at hverb; cases hverb
    have hsegments : pathSegments req.path = ["healthz"] := by rw [hpath]; decide +kernel
    obtain ⟨target, ps, htarget⟩ := health_answered hverb
    refine ⟨hlimited, ?_⟩
    unfold App.passage buildApp
    rw [if_neg hno, hlimited, hsegments, htarget]
  · intro before after now req _ hpath hverb hno
    have hlimited := limited_exempt h (App.after app host s before) now (.inr hpath)
    refine ⟨hlimited, ?_⟩
    unfold App.passage
    rw [hlimited]
    exact healthz_unrouted hpath hverb hno

theorem guesses_stranger : Throttled houseApp ⟨60000, 600⟩ plainHost (.init oneApp) guessing :=
  guesses houseApp plainHost rfl (by norm_num) (.init oneApp) guessing guessing_clocked

end Guess
end GlanceVault.L4
