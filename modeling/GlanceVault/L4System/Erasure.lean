import GlanceVault.L2Storage.Lifecycle
import GlanceVault.L3Http.Erasure
import GlanceVault.L4System.Finality
import GlanceVault.L4System.Noninterference
import GlanceVault.L4System.Presence
import GlanceVault.L4System.Reclaim
/-!
# An account deletion takes all of the account, and nothing else

`Erases` compares a server with what a deletion leaves of it: no row of the
account, every row of the others, the byte store without what only the account
held, the staging area without its sessions, and a report of that.

* `account_erased`: a deletion erases; one that is not confirmed or has nothing
  to delete changes nothing.
* `storable_after`: what it needs of the state, of every state of a run.
* `deletion_omits_revoked`: the report names active credentials only.

## Hypotheses

* `Storable`: the rows name files as the routes let them. In `storable_after` it
  comes from `DrawsIds`, the form of the ids that `randomUUID` draws.
-/
namespace GlanceVault.L4
open GlanceVault.Core GlanceVault.L1 GlanceVault.L1.Js GlanceVault.L2 GlanceVault.L3

/-- The rows name what the volume can hold. -/
structure Storable (v : Server) : Prop where
  hashes : Addresses v
  uploads : ∀ t ∈ v.db.uploadSessions.rows, isUploadId t.uploadId = true

/-- What the deletion of an account takes from the volume: the bytes that only
the account holds, and what its sessions have staged. -/
def Loses (a : String) (v : Server) : Path → Prop
  | .blob h =>
    (∃ b ∈ v.db.blobs.rows, b.accountId = a ∧ b.blobHash = h) ∧
      ∀ b ∈ v.db.blobs.rows, b.blobHash = h → b.accountId = a
  | .blobTmp _ => False
  | .part u _ => ∃ t ∈ v.db.uploadSessions.rows, t.accountId = a ∧ t.uploadId = u
  | .partTmp u _ => ∃ t ∈ v.db.uploadSessions.rows, t.accountId = a ∧ t.uploadId = u

/-- The report of a deletion. -/
structure DeletionReport (a : String) (v : Server) (d : DeletedAccount) : Prop where
  record : v.db.accounts.find a = some d.record
  rows : d.deletedRows = (v.db.tenant a).syncRows.rows.length
  credentials : d.credentialIds.Nodup ∧ ∀ id, id ∈ d.credentialIds ↔
    ∃ c ∈ v.db.deviceCredentials.rows, c.credentialId = id ∧ c.accountId = a ∧ c.active = true
  hashes : d.blobHashes.Nodup ∧ ∀ h, h ∈ d.blobHashes ↔ Loses a v (.blob h)
  uploads : d.uploadIds.Nodup ∧ ∀ u, u ∈ d.uploadIds ↔
    ∃ t ∈ v.db.uploadSessions.rows, t.accountId = a ∧ t.uploadId = u

/-- **An account is gone**, and nothing else is. -/
structure Erases (a : String) (v : Server) (o : Outcome Server Abort Response) : Prop where
  gone : o.state.db.tenant a = .empty
  parts : ∀ p, p ∈ o.state.db.uploadParts.rows ↔ p ∈ v.db.uploadParts.rows ∧
    ¬ ∃ t ∈ v.db.uploadSessions.rows, t.accountId = a ∧ t.uploadId = p.uploadId
  others : ∀ b, b ≠ a → o.state.db.tenant b = v.db.tenant b
  lost : ∀ p, Loses a v p → o.state.disk p = none
  kept : ∀ p, ¬ Loses a v p → o.state.disk p = v.disk p
  reported : ∃ d, (deleteAccount a).eval v.db = .ok (some d, o.state.db) ∧ DeletionReport a v d ∧
    o.state = { v with
      db := v.db.without a, disk := o.state.disk,
      hub := v.hub.disconnects d.credentialIds } ∧
    o.result = .ok (.json 200 (accountFields d.record ++ [("deletedRows", .nat d.deletedRows),
      ("revokedCredentials", .nat d.credentialIds.length),
      ("deletedBlobs", .nat d.blobHashes.length)]))

section Erasure
variable {a : String} {v : Server}

theorem ownsUpload_iff {u : String} :
    v.db.ownsUpload a u = true ↔ ∃ t ∈ v.db.uploadSessions.rows, t.accountId = a ∧
    t.uploadId = u := by
  rw [← mem_ownUploads]
  unfold ownUploads
  simp only [List.mem_map, List.mem_filter, decide_eq_true_eq, and_assoc]

/-- No row is left that names it. -/
theorem loses_blob {h : String} : h ∈ deletedHashes a v.db ↔ Loses a v (.blob h) := by
  rw [mem_deletedHashes]
  refine and_congr_right fun _ => ⟨fun hfree b hb e => ?_, fun hall b hb e => ?_⟩
  · by_contra hne
    exact hfree b (Table.mem_keep.2 ⟨hb, by simp [hne]⟩) e
  · obtain ⟨hb, hne⟩ := Table.mem_keep.1 hb
    rw [Bool.not_eq_true', decide_eq_false_iff_not] at hne
    exact hne (hall b hb e)

/-- The files that go. -/
theorem loses_iff (p : Path) :
    (ownUploads a v.db).any (Disk.inSession · p) = true ∨ p ∈
    (deletedHashes a v.db).map Path.blob ↔ Loses a v p := by
  have hstaged : ∀ u, u ∈ ownUploads a v.db ↔ ∃ t ∈ v.db.uploadSessions.rows, t.accountId = a ∧
      t.uploadId = u := fun u =>
    mem_ownUploads.trans ownsUpload_iff
  cases p with
  | blob h =>
    rw [← loses_blob]
    simp [Disk.inSession]
  | blobTmp h => simp [Disk.inSession, Loses]
  | part u i =>
    refine Iff.trans ?_ (hstaged u)
    simp [Disk.inSession]
  | partTmp u i =>
    refine Iff.trans ?_ (hstaged u)
    simp [Disk.inSession]

theorem deleted_reports {record : Account} (hrecord : v.db.accounts.find a = some record) :
    DeletionReport a v ⟨record, v.db.syncRows.count fun r => decide (r.accountId = a),
      activeCredentialIds a v.db, deletedHashes a v.db,
      ownUploads a v.db⟩ where
  record := hrecord
  rows := rfl
  credentials := ⟨activeCredentialIds_nodup a v.db, fun _ => mem_activeCredentialIds⟩
  hashes := ⟨deletedHashes_nodup, fun _ => loses_blob⟩
  uploads := ⟨ownUploads_nodup, fun _ => mem_ownUploads.trans ownsUpload_iff⟩

theorem deleteAccountRoute_erases {body : Body} (hstorable : Storable v)
    (hconfirm : Repeats body a) {record : Account}
    (hrecord : v.db.accounts.find a = some record) : Erases a v (deleteAccountRoute a body v) := by
  obtain ⟨hresult, hstate⟩ :=
    deleteAccountRoute_run hconfirm hrecord hstorable.hashes hstorable.uploads
  have hdb : (deleteAccountRoute a body v).state.db = v.db.without a := congrArg Server.db hstate
  have hdisk : (deleteAccountRoute a body v).state.disk =
      erased v.disk (ownUploads a v.db) (deletedHashes a v.db) :=
    congrArg Server.disk hstate
  refine { gone := ?_, parts := fun p => ?_, others := fun b hb => ?_, lost := fun p hp => ?_,
           kept := fun p hp => ?_,
           reported := ⟨_, ?_, deleted_reports hrecord, ?_, hresult⟩ }
  · rw [hdb]
    exact without_self v.db a
  · rw [hdb, ← ownsUpload_iff]
    refine Table.mem_keep.trans ?_
    rw [Bool.not_eq_true', Bool.not_eq_true]
  · rw [hdb]
    exact without_other hb.symm v.db
  · rw [hdisk]
    exact if_pos ((loses_iff p).2 hp)
  · rw [hdisk]
    exact if_neg fun h => hp ((loses_iff p).1 h)
  · rw [deleteAccount_eval, hrecord, hdb]
    rfl
  · rw [hdisk]
    exact hstate

end Erasure

/-- **A deletion is complete.** Admitted, confirmed and of a registered account,
it erases the account. Not confirmed, or of an unknown one, it changes nothing. -/
theorem account_erased (cfg : Config) (host : Host) (env : Env) (header : Option String)
    (a : String) (body : Body) {v : Server}
    (hstorable : Storable v) :
    ((AdminRoute.deleteAccount a body).mounted cfg = true →
      adminAuth cfg header = .ok () → Repeats body a →
      v.db.accounts.find a ≠ none →
      Erases a v (handleAdmin cfg host env header (.deleteAccount a body) v)) ∧
    (¬ Repeats body a ∨ v.db.accounts.find a = none →
      (handleAdmin cfg host env header (.deleteAccount a body) v).state = v ∧
        ∀ r, (handleAdmin cfg host env header (.deleteAccount a body) v).result = .ok r →
          400 ≤ r.status) := by
  refine ⟨fun hmounted hauth hconfirm hregistered => ?_, fun hno => ?_⟩
  · have hperform : handleAdmin cfg host env header (.deleteAccount a body) v =
        deleteAccountRoute a body v := by
      unfold handleAdmin
      rw [if_pos hmounted]
      unfold AdminRoute.guard
      rw [hauth]
      rfl
    obtain ⟨record, hrecord⟩ := Option.ne_none_iff_exists'.1 hregistered
    rw [hperform]
    exact deleteAccountRoute_erases hstorable hconfirm hrecord
  · rcases handleAdmin_cases cfg host env v header (.deleteAccount a body) with
      ⟨hstate, -, hstatus⟩ | e
    · exact ⟨hstate, hstatus⟩
    · obtain ⟨⟨x, hx⟩, hstate⟩ : Declined (deleteAccountRoute a body v) v :=
        deleteAccountRoute_declines hno
      rw [e]
      refine ⟨hstate, fun r hr => ?_⟩
      have hr : (deleteAccountRoute a body v).result = .ok r := hr
      rw [hx] at hr
      cases hr

/-- In every state of a run the rows name what the volume can hold. -/
theorem storable_after (host : Host) (cfg : Config) {es : List Event} (hids : DrawsIds es) :
    Storable (State.after host cfg es).server :=
  ⟨addresses_after host cfg es, (drawn_after host cfg es hids).sessions⟩

/-- Two accounts with a device and a row each. `a` has a blob of its own and a
part of the upload `u4`, and both have the empty blob. -/
def crowdedHouse : List Event :=
  let query (a : String) : Js.Query := fun k => if k = "accountId" then some (.str a) else none
  let initiate (a h : String) (n : Nat) : Route :=
    .uploadInitiate (.json (.obj [("accountId", .str a), ("blobHash", .str h), ("size", .nat n)]))
  let finalize (a u : String) : Route := .uploadFinalize u (.json (.obj [("accountId", .str a)]))
  let batch (a : String) : Route := .syncBatch "dayglance" (.json (.obj
    [("accountId", .str a),
      ("rows", .arr [.obj [("entityId", .str "e"), ("envelope", .str "AQI=")]])]))
  (enrolled ++
    [Action.admin (some "Bearer secret") (.createAccount (.json (.obj [("accountId", .str "b")])))
      (drawing "-" '3'),
      Action.admin none
        (.enroll
          (.json (.obj [("accountKey", .str ("gvk_" ++ sampleSecret '3')),
            ("deviceId", .str "d")])))
        (drawing "c1" '1')] ++
    asks 0 '0' (batch "a") "-" ++ asks 0 '1' (batch "b") "-" ++
    asks 0 '0' (initiate "a" partsHash 5) "u1" ++ asks 0 '0' (initiate "a" partsHash 5) "u4" ++
    asks 0 '0' (.uploadPart "u1" "0" (query "a") (.raw [1, 2, 3, 4, 5])) "-" ++
    asks 0 '0' (.uploadPart "u4" "0" (query "a") (.raw [1, 2, 3])) "-" ++
    asks 0 '0' (finalize "a" "u1") "-" ++
    asks 0 '0' (initiate "a" emptyHash 0) "u2" ++ asks 0 '0' (finalize "a" "u2") "-" ++
    asks 0 '1' (initiate "b" emptyHash 0) "u3" ++ asks 0 '1' (finalize "b" "u3") "-").map .run

/-- Of `a` nothing is left, and the empty blob stays for `b`. -/
theorem account_erased_neighbour :
    let v := (State.after sampleHost keyedConfig crowdedHouse).server
    let deletes := handleAdmin keyedConfig sampleHost (drawing "-" '2') (some "Bearer secret")
      (.deleteAccount "a" (.json (.obj [("confirm", .str "a")]))) v
    Erases "a" v deletes ∧
      v.db.syncRows.rows.map (·.accountId) = ["a", "b"] ∧ deletes.state.db.syncRows.rows.map
        (·.accountId) = ["b"] ∧
      v.db.blobs.rows.map (fun r => (r.accountId, r.blobHash)) =
        [("a", partsHash), ("a", emptyHash), ("b", emptyHash)] ∧
      v.disk (.part "u4" 0) = some [1, 2, 3] ∧ deletes.state.disk (.part "u4" 0) = none ∧
      v.disk (.blob partsHash) = some [1, 2, 3, 4, 5] ∧ deletes.state.disk
        (.blob partsHash) = none ∧
      deletes.state.disk (.blob emptyHash) = some [] := by
  intro v deletes
  have hids : DrawsIds crowdedHouse := by
    have hall : ∀ u ∈ crowdedHouse.filterMap (·.action.draws), isUploadId u = true := by
      decide +kernel
    exact fun e he u hu => hall u (List.mem_filterMap.2 ⟨e, he, hu⟩)
  have hstorable : Storable v := storable_after sampleHost keyedConfig hids
  have hfacts : v.db.accounts.find "a" ≠ none ∧
      v.db.syncRows.rows.map (·.accountId) = ["a", "b"] ∧ deletes.state.db.syncRows.rows.map
        (·.accountId) = ["b"] ∧
      v.db.blobs.rows.map (fun r => (r.accountId, r.blobHash)) =
        [("a", partsHash), ("a", emptyHash), ("b", emptyHash)] ∧
      v.disk (.part "u4" 0) = some [1, 2, 3] ∧ deletes.state.disk (.part "u4" 0) = none ∧
      v.disk (.blob partsHash) = some [1, 2, 3, 4, 5] ∧ deletes.state.disk
        (.blob partsHash) = none ∧
      deletes.state.disk (.blob emptyHash) = some [] := by
    decide +kernel
  have herases : Erases "a" v deletes :=
    (account_erased keyedConfig sampleHost (drawing "-" '2') (some "Bearer secret") "a"
      (.json (.obj [("confirm", .str "a")])) hstorable).1 rfl rfl ⟨_, _, rfl, rfl, rfl⟩ hfacts.1
  exact ⟨herases, hfacts.2⟩

/-- The reported ids are those of every credential that goes. -/
def NamesAll (v w : Server) (d : DeletedAccount) : Prop := ∀ id, id ∈ d.credentialIds ↔
  ∃ c ∈ v.db.deviceCredentials.rows, c.credentialId = id ∧ c ∉ w.db.deviceCredentials.rows

/-- A revoked credential goes too, unreported, and so do the rows outside
`sync_rows`. -/
theorem deletion_omits_revoked :
    let s := State.running sampleHost keyedConfig (enrolled ++
      [.admin (some "Bearer secret") (.revoke "c") (drawing "-" '1')])
    let w := (s.act sampleHost deletion).server
    ∃ d, (deleteAccount "a").eval s.server.db = .ok (some d, w.db) ∧ ¬ NamesAll s.server w d ∧
      d.deletedRows = 0 ∧ s.server.db.accounts.rows.length = 1 ∧ w.db.accounts.rows = [] := by
  intro s w
  have hdb : w.db = s.server.db.without "a" := by decide +kernel
  have hids : activeCredentialIds "a" s.server.db = [] := by decide +kernel
  obtain ⟨record, hrecord⟩ : ∃ record, s.server.db.accounts.find "a" = some record :=
    Option.isSome_iff_exists.1 (by decide +kernel)
  refine ⟨⟨record, 0, [], deletedHashes "a" s.server.db, ownUploads "a" s.server.db⟩, ?_,
    fun h => ?_, rfl, by decide +kernel, by decide +kernel⟩
  · have hrows : (s.server.db.syncRows.count fun r => decide (r.accountId = "a")) = 0 := by
      decide +kernel
    rw [deleteAccount_eval, hrecord, hdb, hids, hrows]
    rfl
  · have hheld : ∃ c ∈ s.server.db.deviceCredentials.rows, c.credentialId = "c" := by decide +kernel
    have hgone : w.db.deviceCredentials.rows = [] := by decide +kernel
    obtain ⟨c, hc, e⟩ := hheld
    have hmem := (h "c").2 ⟨c, hc, e, by rw [hgone]; exact List.not_mem_nil⟩
    cases hmem

end GlanceVault.L4
