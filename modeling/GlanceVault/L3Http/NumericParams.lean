import GlanceVault.L3Http.EntityPaths
import GlanceVault.L3Http.Ranges
/-!
# Numbers in paths and queries

The places of a request in which a client writes a number as text: `since` and
`limit` of the two list routes, `deletedAt` of a row delete, and the index of
an upload part. All are read by `Number(..)` and a check for a non-negative
integer, which is more than decimal digits: white space, signs, exponents and
the other radixes pass, the empty string is 0, and what is no double is moved
to the next one.

* `handle_slot`: a request, in terms of the number it is read to carry.
* `intake_eq`: that number.
* `numeric_parameters`: the texts that are used as they stand or refused.
-/
namespace GlanceVault.L3
open GlanceVault.Core GlanceVault.L1 GlanceVault.L1.Js GlanceVault.L2

/-! ## Where the numbers are -/

/-- A place for a number, with the rest of the path and the body. A list is one
of rows of an app, or of intents. -/
inductive Slot
  | since (app : Option String)
  | limit (app : Option String)
  | deletedAt (app entityId : String)
  | partIndex (uploadId : String) (bytes : Bytes)

/-- `query` with `k=s` -/
def setParam (query : Query) (k s : String) : Query :=
  fun k' => if k' = k then some (.str s) else query k'

def listRoute (query : Query) : Option String → Route
  | none => .intentsList query
  | some app => .syncList app query

def listing (env : Env) (a : String) : Option String → Nat → Nat → Handler Response
  | none, since, limit => intentsList env a since limit
  | some app, since, limit => list a app since limit

namespace Slot

/-- The request with the text `s` in its place. -/
def route (query : Query) (s : String) : Slot → Route
  | .since app => listRoute (setParam query "since" s) app
  | .limit app => listRoute (setParam query "limit" s) app
  | .deletedAt app e => .syncDelete app e (setParam query "deletedAt" s)
  | .partIndex u bytes => .uploadPart u s query (.raw bytes)

def message : Slot → String
  | .since _ => "since must be a non-negative integer"
  | .limit _ => "limit must be a positive integer"
  | .deletedAt _ _ => "deletedAt must be a non-negative integer"
  | .partIndex _ _ => "part index must be a non-negative integer"

/-- What the handler reads `s` as. -/
def intake (s : String) : Slot → Except Abort Nat
  | .since _ => sinceParam (setParam (fun _ => none) "since" s)
  | .limit _ => limitParam (setParam (fun _ => none) "limit" s)
  | .deletedAt _ _ => (queryNatural (setParam (fun _ => none) "deletedAt" s) "deletedAt"
      "deletedAt must be a non-negative integer").map fun o => o.getD 0
  | .partIndex _ _ =>
    match (JsNumber.ofString s).asNatural with
    | some i => .ok i
    | none => .error (.error 400 "part index must be a non-negative integer")

/-- What the handler does with the number it has read. -/
def resume (env : Env) (a : String) (query : Query) (x : Except Abort Nat) : Slot → Handler Response
  | .since app => do
    let since ← Prog.ofExcept x
    let limit ← Prog.ofExcept (limitParam query)
    listing env a app since limit
  | .limit app => do
    let since ← Prog.ofExcept (sinceParam query)
    let limit ← Prog.ofExcept x
    listing env a app since limit
  | .deletedAt app e => do
    let t ← Prog.ofExcept x
    deleteEntity env a app e (some t)
  | .partIndex u bytes => do
    let session ← readDb (getUploadSession a u)
    let session ← Prog.found session (.error 404 "unknown upload session")
    let i ← Prog.ofExcept x
    let parts ← readDb (listUploadParts a session.uploadId)
    Prog.require (decide (totalWith parts i bytes.length ≤ session.declaredSize))
      (.error 400 "parts exceed declared blob size")
    stageUploadPart a session.uploadId i bytes (env.clock 0)
    let acked ← readDb (listUploadParts a session.uploadId)
    pure (.json 200 (receivedJson acked))

/-- The rest of the request passes its own checks. -/
def Fits (cfg : Config) : Slot → Prop
  | .since app => ∀ x ∈ app, x ∈ cfg.allowedApps
  | .limit app => ∀ x ∈ app, x ∈ cfg.allowedApps
  | .deletedAt app _ => app ∈ cfg.allowedApps
  | .partIndex _ bytes => bytes.length ≤ cfg.maxBlobSize

/-- The session of the part is open. -/
def Ready (a : String) (v : Server) : Slot → Prop
  | .partIndex u _ => (getUploadSession a u v.db).isSome
  | _ => True

/-- The least number that is asked for. -/
def least : Slot → Nat
  | .limit _ => 1
  | _ => 0

/-- What a number is good for: a limit is capped. -/
def use (n : Nat) : Slot → Nat
  | .limit _ => min n maxLimit
  | _ => n

end Slot

/-! ## The handlers -/

section Handlers
variable {cfg : Config} {host : Host} {credential : Option Credential} {query : Query}
  {claimed a : String}

theorem setParam_other {k k' s : String} (h : k' ≠ k) : setParam query k s k' = query k' := if_neg h

theorem queryNatural_setParam (query : Query) (k s message : String) :
    queryNatural (setParam query k s) k message =
    match (JsNumber.ofString s).asNatural with
    | some n => .ok (some n)
    | none => .error (.error 400 message) := by
  unfold queryNatural setParam
  rw [if_pos rfl]
  rfl

theorem queryAccountId_setParam {k s : String} (h : "accountId" ≠ k) :
    queryAccountId (setParam query k s) = queryAccountId query := by
  unfold queryAccountId
  rw [setParam_other h]

theorem handle_list {q : Query} (hid : queryAccountId q = some claimed)
    (hscope : resolveScope cfg.authMode credential claimed = .ok a) {app : Option String}
    (happ : ∀ x ∈ app, x ∈ cfg.allowedApps) (env : Env) :
    handle cfg host credential env (listRoute q app) = (do
      let since ← Prog.ofExcept (sinceParam q)
      let limit ← Prog.ofExcept (limitParam q)
      listing env a app since limit) := by
  cases hs : sinceParam q with
  | error e =>
    refine handle_refused ?_ env
    cases app with
    | none =>
      unfold listRoute accept check checkList requiredAccountId
      simp only [bind, Except.bind, hid, hs]
    | some x =>
      unfold listRoute accept check checkList checkApp requiredAccountId
      simp only [if_pos (happ x rfl), bind, Except.bind, hid, hs]
  | ok since =>
    cases hl : limitParam q with
    | error e =>
      refine handle_refused ?_ env
      cases app with
      | none =>
        unfold listRoute accept check checkList requiredAccountId
        simp only [bind, Except.bind, hid, hs, hl]
      | some x =>
        unfold listRoute accept check checkList checkApp requiredAccountId
        simp only [if_pos (happ x rfl), bind, Except.bind, hid, hs, hl]
    | ok limit =>
      cases app with
      | none =>
        have haccept : accept cfg host credential (listRoute q none) =
            .ok (a, .listIntents since limit) := by
          unfold listRoute accept check checkList requiredAccountId resolve
          simp only [bind, Except.bind, hid, hs, hl, hscope, pure, Except.pure]
        exact handle_admitted haccept env
      | some x =>
        have haccept : accept cfg host credential (listRoute q (some x)) =
            .ok (a, .list x since limit) := by
          unfold listRoute accept check checkList checkApp requiredAccountId resolve
          simp only [if_pos (happ x rfl), bind, Except.bind, hid, hs, hl, hscope, pure, Except.pure]
        exact handle_admitted haccept env

/-- **A request goes on with the number that is read, or is refused for it.** -/
theorem handle_slot (hid : queryAccountId query = some claimed)
    (hscope : resolveScope cfg.authMode credential claimed = .ok a) {slot : Slot}
    (hfits : slot.Fits cfg) (s : String) (env : Env) :
    handle cfg host credential env (slot.route query s) =
      slot.resume env a query (slot.intake s) := by
  cases slot with
  | since app =>
    exact handle_list (by rw [queryAccountId_setParam (by decide), hid]) hscope hfits env
  | limit app =>
    exact handle_list (by rw [queryAccountId_setParam (by decide), hid]) hscope hfits env
  | deletedAt app e =>
    have hid' : queryAccountId (setParam query "deletedAt" s) = some claimed := by
      rw [queryAccountId_setParam (by decide), hid]
    have happ : app ∈ cfg.allowedApps := hfits
    have hread :=
      queryNatural_setParam query "deletedAt" s "deletedAt must be a non-negative integer"
    have hintake : (Slot.deletedAt app e).intake s = match (JsNumber.ofString s).asNatural with
        | some n => .ok n
        | none => .error (.error 400 "deletedAt must be a non-negative integer") := by
      unfold Slot.intake
      rw [queryNatural_setParam]
      cases (JsNumber.ofString s).asNatural with
      | none => rfl
      | some n => rfl
    rw [hintake]
    cases hn : (JsNumber.ofString s).asNatural with
    | none =>
      rw [hn] at hread
      refine handle_refused ?_ env
      unfold Slot.route accept check checkDelete checkApp requiredAccountId
      simp only [if_pos happ, bind, Except.bind, hid', hread]
    | some n =>
      rw [hn] at hread
      have haccept : accept cfg host credential ((Slot.deletedAt app e).route query s) =
          .ok (a, .deleteEntity app e (some n)) := by
        unfold Slot.route accept check checkDelete checkApp requiredAccountId resolve
        simp only [if_pos happ, bind, Except.bind, hid', hread, hscope, pure, Except.pure]
      exact handle_admitted haccept env
  | partIndex u bytes =>
    have hbytes : ¬ cfg.maxBlobSize < bytes.length := Nat.not_lt.2 hfits
    have haccept : accept cfg host credential ((Slot.partIndex u bytes).route query s) =
        .ok (a, .putPart u s bytes) := by
      unfold Slot.route accept check checkPart rawBody requiredAccountId resolve
      simp only [if_neg hbytes, bind, Except.bind, hid, hscope, pure, Except.pure]
    rw [handle_admitted haccept]
    show putPart env a u s bytes = _
    unfold putPart Slot.resume Slot.intake
    cases (JsNumber.ofString s).asNatural with
    | none => rfl
    | some i => rfl

/-- The number a text is read as. -/
theorem intake_eq (slot : Slot) (s : String) : slot.intake s =
    match (JsNumber.ofString s).asNatural with
    | some n => if slot.least ≤ n then .ok (slot.use n) else .error (.error 400 slot.message)
    | none => .error (.error 400 slot.message) := by
  cases slot with
  | since app =>
    unfold Slot.intake sinceParam
    rw [queryNatural_setParam]
    cases (JsNumber.ofString s).asNatural with
    | none => rfl
    | some n => rfl
  | limit app =>
    unfold Slot.intake limitParam setParam
    simp only [if_true]
    unfold QueryValue.number QueryValue.text
    cases (JsNumber.ofString s).asNatural with
    | none => rfl
    | some n =>
      show (if n < 1 then .error (.error 400 "limit must be a positive integer")
        else .ok (if maxLimit < n then maxLimit else n)) =
          if 1 ≤ n then .ok (min n maxLimit) else Except.error
            (Abort.error 400 "limit must be a positive integer")
      by_cases hn : n < 1
      · rw [if_pos hn, if_neg (Nat.not_le.2 hn)]
      · rw [if_neg hn, if_pos (Nat.not_lt.1 hn)]
        by_cases hmax : maxLimit < n
        · rw [if_pos hmax, Nat.min_eq_right hmax.le]
        · rw [if_neg hmax, Nat.min_eq_left (Nat.not_lt.1 hmax)]
  | deletedAt app e =>
    unfold Slot.intake
    rw [queryNatural_setParam]
    cases (JsNumber.ofString s).asNatural with
    | none => rfl
    | some n => rfl
  | partIndex u bytes =>
    unfold Slot.intake
    cases (JsNumber.ofString s).asNatural with
    | none => rfl
    | some n => rfl

theorem intake_ok {slot : Slot} {s : String} {m : Nat} : slot.intake s = .ok m ↔
    ∃ n, (JsNumber.ofString s).asNatural = some n ∧ slot.least ≤ n ∧ slot.use n = m := by
  rw [intake_eq]
  cases (JsNumber.ofString s).asNatural with
  | none => simp
  | some n =>
    by_cases hn : slot.least ≤ n
    · simp [hn]
    · simp [hn]

theorem intake_error {slot : Slot} {s : String} {e : Abort} (h : slot.intake s = .error e) :
    e = .error 400 slot.message := by
  rw [intake_eq] at h
  split at h
  · split at h <;> cases h
    rfl
  · cases h
    rfl

theorem sinceParam_error {e : Abort} (h : sinceParam query = .error e) :
    e = .error 400 "since must be a non-negative integer" := by
  unfold sinceParam queryNatural at h
  split at h
  · cases h
  · split at h <;> cases h
    rfl

/-- A text that is not read as a number is answered 400 and changes nothing. -/
theorem slot_refused {slot : Slot} {e : Abort} (he : e = .error 400 slot.message) (env : Env)
    {v : Server} (hready : slot.Ready a v) :
    (finish (slot.resume env a query (.error e) v)).status = 400 ∧
    (slot.resume env a query (.error e) v).state = v := by
  subst he
  cases slot with
  | since app => exact ⟨rfl, rfl⟩
  | limit app =>
    unfold Slot.resume
    cases hs : sinceParam query with
    | error e =>
      rw [sinceParam_error hs]
      exact ⟨rfl, rfl⟩
    | ok since => exact ⟨rfl, rfl⟩
  | deletedAt app e => exact ⟨rfl, rfl⟩
  | partIndex u bytes =>
    obtain ⟨session, hsession⟩ := Option.isSome_iff_exists.1 hready
    have hrun : (Slot.partIndex u bytes).resume env a query
        (.error (.error 400 (Slot.partIndex u bytes).message)) v =
        ⟨.error (.error 400 (Slot.partIndex u bytes).message), v, []⟩ := by
      show (Prog.get (fun s : Server => getUploadSession a u s.db) >>= _) v = _
      rw [Prog.get_bind, hsession]
      rfl
    rw [hrun]
    exact ⟨rfl, rfl⟩

end Handlers

/-! ## The texts that mean what they say -/

/-- The text is used only if it is decimal digits, and then for the number they
write; any other is answered 400 and changes nothing. -/
structure Slot.Obeys (cfg : Config) (host : Host) (credential : Option Credential)
    (query : Query) (a : String)
    (slot : Slot) (s : String) : Prop where
  uses : ∀ n, slot.intake s = .ok n → Digits s.toList ∧ n = slot.use (decimal s.toList)
  refuses : ¬ Digits s.toList → ∀ env v, slot.Ready a v →
    let o := handle cfg host credential env (slot.route query s) v
    (finish o).status = 400 ∧ o.state = v

/-- The digits write a double, or a number beyond the doubles, or a limit; or
the text is not digits, and neither blank nor any other literal whose nearest
double is a number that is asked for. -/
def Slot.Plain (s : String) (slot : Slot) : Prop :=
  (Digits s.toList ∧ ((∃ app, slot = .limit app) ∨ JsNumber.Representable (decimal s.toList) ∨
    JsNumber.pow2 1024 ≤ JsNumber.nearest (decimal s.toList))) ∨
  (¬ Digits s.toList ∧ ∀ q, JsNumber.literal s = some q → ∀ n, slot.least ≤ n →
    JsNumber.ofRat q ≠ .ofNat n)

theorem natural_of_digits {s : String} (h : Digits s.toList) :
    (JsNumber.ofString s).asNatural = (JsNumber.ofRat (decimal s.toList)).asNatural := by
  have hread := JsNumber.ofString_digits h.1 h.2
  rw [String.ofList_toList] at hread
  rw [hread]
  rfl

/-- **What a place reads is what the text says, exactly for the plain texts.** -/
theorem uses_iff {slot : Slot} {s : String} :
    (∀ n, slot.intake s = .ok n → Digits s.toList ∧ n = slot.use (decimal s.toList)) ↔
    slot.Plain s := by
  by_cases hd : Digits s.toList
  · have hread := natural_of_digits hd
    by_cases hlimit : ∃ app, slot = .limit app
    · -- a limit is capped before rounding could be seen
      refine iff_of_true (fun m hm => ?_) (.inl ⟨hd, .inl hlimit⟩)
      obtain ⟨app, rfl⟩ := hlimit
      obtain ⟨n, hn, -, rfl⟩ := intake_ok.1 hm
      rw [hread] at hn
      refine ⟨hd, ?_⟩
      show min n maxLimit = min (decimal s.toList) maxLimit
      by_cases hsmall : decimal s.toList < 2 ^ 53
      · rw [JsNumber.natural_small hsmall] at hn
        rw [Option.some.inj hn]
      · have hlarge := JsNumber.natural_large (Nat.not_lt.1 hsmall) hn
        unfold maxLimit
        omega
    · have hown : ∀ n, slot.least ≤ n ∧ slot.use n = n := by
        intro n
        cases slot with
        | limit app => exact absurd ⟨app, rfl⟩ hlimit
        | _ => exact ⟨Nat.zero_le n, rfl⟩
      have hexact : (∀ n, slot.intake s = .ok n → Digits s.toList ∧
          n = slot.use (decimal s.toList)) ↔
          ∀ w, (JsNumber.ofRat (decimal s.toList)).asNatural = some w → w = decimal s.toList := by
        rw [← hread, (hown (decimal s.toList)).2]
        constructor
        · exact fun h w hw => (h w (intake_ok.2 ⟨w, hw, hown w⟩)).2
        · intro h n hn
          obtain ⟨w, hw, -, rfl⟩ := intake_ok.1 hn
          exact ⟨hd, (hown w).2.trans (h w hw)⟩
      rw [hexact, JsNumber.natural_exact]
      unfold Slot.Plain
      simp only [hd, hlimit, true_and, false_or, not_true_eq_false, false_and, or_false]
  · have hnone : (∀ n, slot.intake s = .ok n → Digits s.toList ∧ n = slot.use (decimal s.toList)) ↔
        ∀ n, slot.intake s ≠ .ok n :=
      ⟨fun h n hn => hd (h n hn).1, fun h n hn => absurd hn (h n)⟩
    rw [hnone]
    unfold Slot.Plain
    simp only [hd, false_and, not_false_eq_true, true_and, false_or]
    constructor
    · intro h q hq n hleast hn
      refine h (slot.use n) (intake_ok.2 ⟨n, ?_, hleast, rfl⟩)
      rw [JsNumber.natural_literal, hq, Option.bind_some, hn, JsNumber.asNatural_ofNat]
    · intro h m hm
      obtain ⟨n, hn, hleast, -⟩ := intake_ok.1 hm
      rw [JsNumber.natural_literal] at hn
      obtain ⟨q, hq, hn⟩ := Option.bind_eq_some_iff.1 hn
      exact h q hq n hleast (JsNumber.asNatural_some.1 hn)

theorem isDigit_char {c : Char} (h : c.isDigit = true) : JsNumber.isDigit c = true := by
  have hc : 48 ≤ c.toNat ∧ c.toNat ≤ 57 := by
    simp only [Char.isDigit, Bool.and_eq_true, decide_eq_true_eq] at h
    exact h
  unfold JsNumber.isDigit JsNumber.digit
  simp only [if_pos hc]
  rw [if_pos (by omega)]
  rfl

/-- Below `2 ^ 53` the decimal text of a number is plain. -/
theorem plain_canonical (slot : Slot) {n : Nat} (h : n < 2 ^ 53) : slot.Plain n.repr := by
  have hdigits : n.repr.toList = Nat.toDigits 10 n := String.toList_ofList
  have hd : Digits n.repr.toList := by
    rw [hdigits]
    exact ⟨Nat.toDigits_ne_nil,
      fun c hc => isDigit_char (Nat.isDigit_of_mem_toDigits (by decide) (by decide) hc)⟩
  have hvalue : decimal n.repr.toList = n := by
    rw [hdigits]
    exact Nat.ofDigitChars_ten_toDigits
  refine .inl ⟨hd, .inr (.inl ?_)⟩
  rw [hvalue]
  exact JsNumber.representable_nat h

/-- A blank text is not: it is read as 0. -/
theorem blank_not_plain {slot : Slot} (hleast : slot.least = 0) {s : String}
    (h : isBlank s = true) : ¬ slot.Plain s := by
  have htrim : trimChars s.toList = [] := List.isEmpty_iff.1 h
  have hdigits : ¬ Digits s.toList :=
    fun hd => hd.1 (by rw [← JsNumber.trimChars_digits hd.2, htrim])
  have hliteral : JsNumber.literal s = some 0 := by
    unfold JsNumber.literal
    rw [htrim]
  rintro (⟨hd, -⟩ | ⟨-, hnone⟩)
  · exact hdigits hd
  · exact hnone 0 hliteral 0 (by omega) JsNumber.ofRat_zero

/-- **Numbers in requests mean what they say exactly when they are plain.** -/
theorem numeric_parameters (cfg : Config) (host : Host)
    (credential : Option Credential) {query : Query} {claimed a : String}
    (hclaimed : queryAccountId query = some claimed)
      (hscope : resolveScope cfg.authMode credential claimed = .ok a)
    {slot : Slot} (hfits : slot.Fits cfg) (s : String) :
    (∀ env, handle cfg host credential env (slot.route query s) =
      slot.resume env a query (slot.intake s)) ∧
    (slot.Obeys cfg host credential query a s ↔ slot.Plain s) := by
  refine ⟨handle_slot hclaimed hscope hfits s, fun h => uses_iff.1 h.uses,
    fun h => ⟨uses_iff.2 h, fun hd env v hready => ?_⟩⟩
  rw [handle_slot hclaimed hscope hfits s env]
  cases hs : slot.intake s with
  | ok n => exact absurd (uses_iff.2 h n hs).1 hd
  | error e => exact slot_refused (intake_error hs) env hready

theorem numeric_parameters_time :
    (Slot.deletedAt "dayglance" "e").Obeys oneApp plainHost none household "house"
      "1767225600000" := by
  have hdigits : Digits "1767225600000".toList := ⟨by decide, List.all_eq_true.1 (by decide)⟩
  have hplain : (Slot.deletedAt "dayglance" "e").Plain "1767225600000" :=
    .inl ⟨hdigits, .inr (.inl (JsNumber.representable_nat (by decide +kernel)))⟩
  exact (numeric_parameters oneApp plainHost none rfl rfl List.mem_cons_self
    "1767225600000").2.2 hplain

/-- A delete with an empty `deletedAt` is answered 200 and leaves the time 0,
and two part indexes past `2 ^ 53` are one part. -/
theorem blank_deletedAt :
    let row : SyncRowInput := ⟨"e", [1], false, false, none⟩
    let v : Server :=
      { Server.fresh with
        db := runOps .empty [(.batchUpsert "dayglance" "house" [row] fun _ => "", none)] }
    let o := handle oneApp plainHost none idle
      ((Slot.deletedAt "dayglance" "e").route household "") v
    (finish o).status = 200 ∧ (getRow "dayglance" "house" "e" o.state.db).map
      (·.deletedAt) = some (some 0) ∧
      (Slot.partIndex "u" []).intake "9007199254740993" = .ok 9007199254740992 ∧
      ¬ (Slot.deletedAt "dayglance" "e").Obeys oneApp plainHost none household "house" "" := by
  refine ⟨by decide +kernel,
    by decide +kernel, intake_ok.2 ⟨_, by decide +kernel, Nat.zero_le _, rfl⟩, fun h => ?_⟩
  exact (h.uses 0 (intake_ok.2 ⟨0, by decide +kernel, Nat.zero_le _, rfl⟩)).1.1 rfl

end GlanceVault.L3
