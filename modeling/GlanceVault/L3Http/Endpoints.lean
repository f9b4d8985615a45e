import GlanceVault.Core.Routing
import GlanceVault.L1Encoding.Uri
import GlanceVault.L3Http.Router
/-!
# Which route a request takes

The account-scoped routers of `buildApp` as one table in registration order,
each path with its mount. Express tries the routes in that order, tells
literals apart up to the case of ASCII letters, percent-decodes a parameter
and allows one slash at the end of a path.

* `dispatched_get`, `dispatched_delete`: what the sync router makes of a path of three
  segments, by the text of the last one.
* `sameLetters_encode`: an encoded text matches a literal only if it spells it.
-/
namespace GlanceVault.L3
open GlanceVault.Core.Routing GlanceVault.L1 GlanceVault.L1.Js

inductive Method
  | get
  | head
  | post
  | put
  | delete
  deriving DecidableEq

inductive Endpoint
  | syncBatch
  | syncDevice
  | syncList
  | syncGet
  | syncDelete
  | intentsBatch
  | intentsList
  | saltGet
  | saltPut
  | uploadInitiate
  | uploadStatus
  | uploadPart
  | uploadFinalize
  | uploadCancel
  | refAdd
  | refRelease
  | blobHead
  | blobGet
  | events
  deriving DecidableEq

/-- mirrors src/routes/sync.ts:85-286 -/
def syncRouter : List (Entry Method Endpoint) :=
  [⟨.post, [.lit "sync", .param "app", .lit "batch"], .syncBatch⟩,
   ⟨.post, [.lit "sync", .param "app", .lit "device"], .syncDevice⟩,
   ⟨.get, [.lit "sync", .param "app", .lit "list"], .syncList⟩,
   ⟨.get, [.lit "sync", .param "app", .param "entityId"], .syncGet⟩,
   ⟨.delete, [.lit "sync", .param "app", .param "entityId"], .syncDelete⟩]

/-- mirrors src/routes/intents.ts:79-150 -/
def intentsRouter : List (Entry Method Endpoint) :=
  [⟨.post, [.lit "intents", .lit "batch"], .intentsBatch⟩,
   ⟨.get, [.lit "intents", .lit "list"], .intentsList⟩]

/-- mirrors src/routes/salt.ts:26-39 -/
def saltRouter : List (Entry Method Endpoint) :=
  [⟨.get, [.lit "salt", .param "accountId"], .saltGet⟩,
   ⟨.put, [.lit "salt", .param "accountId"], .saltPut⟩]

/-- mirrors src/routes/blobs.ts:116-437 -/
def blobsRouter : List (Entry Method Endpoint) :=
  [⟨.post, [.lit "blobs", .lit "uploads"], .uploadInitiate⟩,
   ⟨.get, [.lit "blobs", .lit "uploads", .param "uploadId"], .uploadStatus⟩,
   ⟨.put, [.lit "blobs", .lit "uploads", .param "uploadId", .lit "parts",
     .param "index"], .uploadPart⟩,
   ⟨.post, [.lit "blobs", .lit "uploads", .param "uploadId", .lit "finalize"], .uploadFinalize⟩,
   ⟨.delete, [.lit "blobs", .lit "uploads", .param "uploadId"], .uploadCancel⟩,
   ⟨.post, [.lit "blobs", .param "hash", .lit "ref-add"], .refAdd⟩,
   ⟨.post, [.lit "blobs", .param "hash", .lit "ref-release"], .refRelease⟩,
   ⟨.head, [.lit "blobs", .param "hash"], .blobHead⟩,
   ⟨.get, [.lit "blobs", .param "hash"], .blobGet⟩]

/-- mirrors src/routes/events.ts:90 -/
def eventsRouter : List (Entry Method Endpoint) := [⟨.get, [.lit "events"], .events⟩]

/-- mirrors src/server.ts:204-235 -/
def endpoints : List (Entry Method Endpoint) :=
  syncRouter ++ intentsRouter ++ saltRouter ++ blobsRouter ++ eventsRouter

/-- The route of an endpoint with the parameters of its path. -/
def Endpoint.route (params : List String) (query : Query) (body : Body) (range : Option String) :
    Endpoint → Option Route
  | .syncBatch => match params with | [app] => some (.syncBatch app body) | _ => none
  | .syncDevice => match params with | [app] => some (.syncDevice app body) | _ => none
  | .syncList => match params with | [app] => some (.syncList app query) | _ => none
  | .syncGet =>
    match params with | [app, entityId] => some (.syncGet app entityId query) | _ => none
  | .syncDelete =>
    match params with | [app, entityId] => some (.syncDelete app entityId query) | _ => none
  | .intentsBatch => some (.intentsBatch body)
  | .intentsList => some (.intentsList query)
  | .saltGet => match params with | [a] => some (.saltGet a) | _ => none
  | .saltPut => match params with | [a] => some (.saltPut a body) | _ => none
  | .uploadInitiate => some (.uploadInitiate body)
  | .uploadStatus => match params with | [u] => some (.uploadStatus u query) | _ => none
  | .uploadPart =>
    match params with | [u, index] => some (.uploadPart u index query body) | _ => none
  | .uploadFinalize => match params with | [u] => some (.uploadFinalize u body) | _ => none
  | .uploadCancel => match params with | [u] => some (.uploadCancel u query) | _ => none
  | .refAdd => match params with | [hash] => some (.refAdd hash body) | _ => none
  | .refRelease => match params with | [hash] => some (.refRelease hash body) | _ => none
  | .blobHead => match params with | [hash] => some (.blobHead hash query) | _ => none
  | .blobGet => match params with | [hash] => some (.blobGet hash query range) | _ => none
  | .events => some (.events query)

/-- A literal matches in any case of its ASCII letters. -/
def sameLetters (text s : String) : Bool := s.toLower == text

/-- `GET` handlers answer `HEAD`. -/
def Method.answers (registered m : Method) : Bool :=
  registered == m || (registered == .get && m == .head)

/-- The segments of a path; one slash at its end is ignored. -/
def pathSegments (path : String) : List String :=
  let parts := (Uri.split path).tail
  if parts.getLast? = some "" then parts.dropLast else parts

/-- A path as the router behind a mount of `n` segments sees it: the mount takes
in one slash more than its own. -/
def behindMount : Nat → List String → List String
  | 0, "" :: rest => rest
  | n + 1, s :: rest => s :: behindMount n rest
  | _, segments => segments

def dispatched (m : Method) (segments : List String) : Found Endpoint :=
  dispatch sameLetters Uri.decode Method.answers m (behindMount 1 segments) endpoints

/-! ## Paths of the sync router -/

section Sync
variable {app s : String}

/-- `/sync/app/s` -/
def syncPath (app s : String) : String := "/sync/" ++ app ++ "/" ++ s

theorem pathSegments_sync (happ : '/' ∉ app.toList) (hs : '/' ∉ s.toList) (hne : s ≠ "") :
    pathSegments (syncPath app s) = ["sync", app, s] := by
  have hjoin : syncPath app s = Uri.join ["", "sync", app, s] := by
    apply String.toList_inj.1
    simp [syncPath, Uri.join, List.intercalate]
  have hsplit : Uri.split (syncPath app s) = ["", "sync", app, s] := by
    rw [hjoin]
    refine Uri.split_join (fun t ht => ?_) (by simp)
    rcases List.mem_cons.1 ht with rfl | ht
    · decide
    rcases List.mem_cons.1 ht with rfl | ht
    · decide
    rcases List.mem_cons.1 ht with rfl | ht
    · exact happ
    · rw [List.mem_singleton.1 ht]
      exact hs
  unfold pathSegments
  rw [hsplit]
  have hlast : some s ≠ some "" := fun e => hne (Option.some.inj e)
  exact if_neg hlast

theorem endpoints_sync : ∃ others, endpoints = syncRouter ++ others :=
  ⟨intentsRouter ++ saltRouter ++ blobsRouter ++ eventsRouter, by simp [endpoints]⟩

theorem capture_literal (text : String) (happ : app ≠ "") :
    capture sameLetters [.lit "sync", .param "app", .lit text] ["sync", app, s] =
      if sameLetters text s then some [app] else none := by
  have hsync : sameLetters "sync" "sync" = true := by decide +kernel
  rw [capture, if_pos hsync, capture, if_neg happ, capture]
  split
  · rfl
  · rfl

theorem capture_entity (happ : app ≠ "") (hs : s ≠ "") :
    capture sameLetters [.lit "sync", .param "app", .param "entityId"] ["sync", app, s] =
      some [app, s] := by
  have hsync : sameLetters "sync" "sync" = true := by decide +kernel
  rw [capture, if_pos hsync, capture, if_neg happ, capture, if_neg hs]
  rfl

variable {app' s' : String}

/-- Of a literal behind an application, the application is decoded. -/
theorem literal_decodes (text : String) (happ : app ≠ "") (dapp : Uri.decode app = some app')
    (raw : List String)
    (h : capture sameLetters [.lit "sync", .param "app", .lit text] ["sync", app, s] = some raw) :
    (raw.mapM Uri.decode).isSome := by
  rw [capture_literal text happ] at h
  split at h
  · cases h
    simp [dapp]
  · cases h

/-- A path without an empty segment there is seen as it stands. -/
theorem behindMount_plain (mount : String) (happ : app ≠ "") (rest : List String) :
    behindMount 1 (mount :: app :: rest) = mount :: app :: rest := by
  simp [behindMount, happ]

theorem dispatched_get (happ : app ≠ "") (hs : s ≠ "") (dapp : Uri.decode app = some app')
    (ds : Uri.decode s = some s') :
    dispatched .get ["sync", app, s] =
      if sameLetters "list" s then .target .syncList [app'] else .target .syncGet [app', s'] := by
  obtain ⟨others, hothers⟩ := endpoints_sync
  unfold dispatched
  rw [behindMount_plain "sync" happ, hothers]
  unfold syncRouter
  simp only [List.cons_append]
  rw [dispatch_method (literal_decodes "batch" happ dapp) rfl,
    dispatch_method (literal_decodes "device" happ dapp) rfl]
  cases hlist : sameLetters "list" s with
  | true =>
    have hcapture : capture sameLetters [.lit "sync", .param "app", .lit "list"] ["sync", app, s] =
        some [app] := by
      rw [capture_literal "list" happ, if_pos hlist]
    exact dispatch_hit hcapture (by simp [dapp]) rfl
  | false =>
    rw [dispatch_skip (by rw [capture_literal "list" happ, hlist]; rfl)]
    exact dispatch_hit (capture_entity happ hs) (by simp [dapp, ds]) rfl

theorem dispatched_delete (happ : app ≠ "") (hs : s ≠ "") (dapp : Uri.decode app = some app')
    (ds : Uri.decode s = some s') :
    dispatched .delete ["sync", app, s] = .target .syncDelete [app', s'] := by
  have hentity : ∀ raw,
      capture sameLetters [.lit "sync", .param "app", .param "entityId"] ["sync", app, s] =
        some raw →
      (raw.mapM Uri.decode).isSome := by
    intro raw h
    rw [capture_entity happ hs] at h
    cases h
    simp [dapp, ds]
  obtain ⟨others, hothers⟩ := endpoints_sync
  unfold dispatched
  rw [behindMount_plain "sync" happ, hothers]
  unfold syncRouter
  simp only [List.cons_append]
  rw [dispatch_method (literal_decodes "batch" happ dapp) rfl,
    dispatch_method (literal_decodes "device" happ dapp) rfl,
    dispatch_method (literal_decodes "list" happ dapp) rfl, dispatch_method hentity rfl]
  exact dispatch_hit (capture_entity happ hs) (by simp [dapp, ds]) rfl

example : dispatched .get (pathSegments "/sync//dayglance/list") = .target .syncList ["dayglance"] ∧
    dispatched .get (pathSegments "/sync/dayglance//list") = .unknown := by
  decide +kernel

end Sync

/-! ## Literals and encoded texts -/

theorem toLower_list (s : String) : s.toLower.toList = s.toList.map Char.toLower := by
  unfold String.toLower
  exact String.toList_map

theorem letter_of_list {c : Char} (h : c.toLower ∈ "list".toList) :
    c.toNat < 128 ∧ Uri.unreserved (UInt8.ofNat c.toNat) = true := by
  have h4 : c.toLower = 'l' ∨ c.toLower = 'i' ∨ c.toLower = 's' ∨ c.toLower = 't' := by
    simpa using h
  unfold Char.toLower at h4
  split at h4
  · rename_i hupper
    have h65 : 65 ≤ c.toNat := hupper.1
    have h90 : c.toNat ≤ 90 := hupper.2
    have hall : ∀ n, n < 91 → 65 ≤ n → Uri.unreserved (UInt8.ofNat n) = true := by decide
    exact ⟨by omega, hall c.toNat (by omega) h65⟩
  · rcases h4 with rfl | rfl | rfl | rfl <;> decide

theorem sameLetters_encode (e : String) :
    sameLetters "list" (Uri.encode e) = true ↔ e.toLower = "list" := by
  unfold sameLetters
  rw [beq_iff_eq]
  constructor
  · intro h
    have hplain : '%' ∉ (Uri.encode e).toList := by
      intro hm
      have hlow : '%' ∈ (Uri.encode e).toLower.toList := by
        rw [toLower_list]
        exact List.mem_map.2 ⟨_, hm, rfl⟩
      rw [h] at hlow
      exact absurd hlow (by decide)
    rwa [Uri.encode_unescaped hplain] at h
  · intro h
    rw [Uri.encode_unreserved fun c hc => letter_of_list ?_]
    · exact h
    · rw [← h, toLower_list]
      exact List.mem_map.2 ⟨c, hc, rfl⟩
end GlanceVault.L3
