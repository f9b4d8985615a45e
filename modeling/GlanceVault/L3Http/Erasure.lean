import GlanceVault.L3Http.Administration
/-!
# An account deletion as one step

The transaction removes the rows and reports what to remove outside the
database. After the commit the handler ends the streams of the reported
credentials, discards the reported sessions and deletes the reported bytes, one
by one.

* `deleteAccountRoute_run`: all of it at once.
* `deleteAccountRoute_declines`: a confirm that does not match, or an account
  that is not registered.
* `mem_deletedHashes`, `mem_ownUploads`: what the reported lists name, each thing
  once.
-/
namespace GlanceVault.L3
open GlanceVault.Core GlanceVault.L1 GlanceVault.L1.Js GlanceVault.L2

/-- The body repeats the id. -/
def Repeats (body : Body) (a : String) : Prop :=
  ∃ b c, (jsonBody body).map orEmpty = .ok b ∧ field b "confirm" = .ok c ∧ confirms c a = true

/-- The sessions of an account. -/
def ownUploads (a : String) (db : Db) : List String :=
  (db.uploadSessions.rows.filter fun s => decide (s.accountId = a)).map (·.uploadId)

/-- The volume without the staging directories of some sessions and the bytes
of some hashes. -/
def erased (d : Disk) (uploads hashes : List String) : Disk := fun p =>
  if uploads.any (Disk.inSession · p) = true ∨ p ∈ hashes.map Path.blob then none else d p

section Files

theorem discard_fold : ∀ (uploads : List String) (v : Server),
    uploads.foldl (fun v u => { v with disk := v.disk.removeSession u }) v =
      { v with disk := erased v.disk uploads [] }
  | [], v => by
    have hdisk : erased v.disk [] [] = v.disk := by
      funext p
      simp [erased]
    rw [hdisk]
    rfl
  | u :: uploads, v => by
    have hdisk : erased (v.disk.removeSession u) uploads [] = erased v.disk (u :: uploads) [] := by
      funext p
      cases hp : Disk.inSession u p <;> simp [erased, Disk.removeSession, hp]
    rw [List.foldl_cons, discard_fold uploads, hdisk]

theorem delete_fold : ∀ (hashes : List String) (v : Server) (d : Disk) (uploads : List String),
    v.disk = erased d uploads [] →
    hashes.foldl (fun v h => { v with disk := v.disk.remove (.blob h) }) v =
      { v with disk := erased d uploads hashes }
  | [], v, d, uploads, hv => by
    rw [← hv]
    rfl
  | h :: hashes, v, d, uploads, hv => by
    have hstep : v.disk.remove (.blob h) = erased (d.remove (.blob h)) uploads [] := by
      funext p
      rw [hv]
      by_cases hp : p = .blob h <;> simp [erased, Disk.remove, hp]
    have hdisk : erased (d.remove (.blob h)) uploads hashes = erased d uploads (h :: hashes) := by
      funext p
      by_cases hp : p = .blob h <;> simp [erased, Disk.remove, hp]
    rw [List.foldl_cons, delete_fold hashes _ (d.remove (.blob h)) uploads hstep, hdisk]

/-- Both loops run to their ends. -/
theorem files_run {uploads hashes : List String} (huploads : ∀ u ∈ uploads, isUploadId u = true)
    (hhashes : ∀ h ∈ hashes, isHash h = true) (v : Server) (r : Response) :
    let o := (do
      Prog.each discardSession uploads
      Prog.each deleteBytes hashes
      pure r : Handler Response) v
    o.result = .ok r ∧ o.state = { v with disk := erased v.disk uploads hashes } := by
  intro o
  have hdiscard : ∀ u ∈ uploads, ∀ v, (discardSession u v).result = .ok () ∧
      (discardSession u v).state = { v with disk := v.disk.removeSession u } := fun u hu v => by
    have hassert : Disk.assertUploadId u = .ok () := if_pos (huploads u hu)
    unfold discardSession
    rw [hassert]
    exact ⟨rfl, rfl⟩
  have hdelete : ∀ h ∈ hashes, ∀ v, (deleteBytes h v).result = .ok () ∧
      (deleteBytes h v).state = { v with disk := v.disk.remove (.blob h) } := fun h hh v => by
    have hassert : Disk.assertHash h = .ok () := if_pos (hhashes h hh)
    unfold deleteBytes
    rw [hassert]
    exact ⟨rfl, rfl⟩
  obtain ⟨hok, hstate⟩ := Prog.each_run uploads v hdiscard
  rw [discard_fold] at hstate
  obtain ⟨hresult, hend⟩ :=
    Prog.bind_ok hok fun _ => (do Prog.each deleteBytes hashes; pure r : Handler Response)
  rw [hstate] at hresult hend
  obtain ⟨hok', hstate'⟩ := Prog.each_run hashes { v with disk := erased v.disk uploads [] } hdelete
  rw [delete_fold hashes _ v.disk uploads rfl] at hstate'
  obtain ⟨hresult', hend'⟩ := Prog.bind_ok hok' fun _ => (pure r : Handler Response)
  rw [hstate'] at hresult' hend'
  exact ⟨hresult.trans hresult', hend.trans hend'⟩

end Files

section Route
variable {v : Server} {a : String} {body : Body}

/-- What a deletion answers. -/
def deletionAnswer (a : String) (record : Account) (db : Db) : Response :=
  .json 200 (accountFields record ++
    [("deletedRows", .nat (db.syncRows.count fun r => decide (r.accountId = a))),
    ("revokedCredentials", .nat (activeCredentialIds a db).length),
    ("deletedBlobs", .nat (deletedHashes a db).length)])

/-- **A deletion as one step.** -/
theorem deleteAccountRoute_run (hconfirm : Repeats body a) {record : Account}
    (hrecord : v.db.accounts.find a = some record)
    (hhashes : ∀ b ∈ v.db.blobs.rows, isHash b.blobHash = true)
    (huploads : ∀ t ∈ v.db.uploadSessions.rows, isUploadId t.uploadId = true) :
    (deleteAccountRoute a body v).result = .ok (deletionAnswer a record v.db) ∧
      (deleteAccountRoute a body v).state =
        { v with db := v.db.without a
                 disk := erased v.disk (ownUploads a v.db) (deletedHashes a v.db)
                 hub := v.hub.disconnects (activeCredentialIds a v.db) } := by
  obtain ⟨b, c, hb, hc, hrepeats⟩ := hconfirm
  have heval : (deleteAccount a).eval v.db =
      .ok (some ⟨record, v.db.syncRows.count fun r => decide (r.accountId = a),
      activeCredentialIds a v.db, deletedHashes a v.db, ownUploads a v.db⟩, v.db.without a) := by
    rw [deleteAccount_eval, hrecord]
    rfl
  have hown : ∀ u ∈ ownUploads a v.db, isUploadId u = true := fun u hu => by
    obtain ⟨t, ht, rfl⟩ := List.mem_map.1 hu
    exact huploads t (List.mem_filter.1 ht).1
  have hheld : ∀ h ∈ deletedHashes a v.db, isHash h = true := fun h hh => by
    obtain ⟨b, hb, rfl⟩ := List.mem_map.1 (List.mem_filter.1 hh).1
    exact hhashes b (List.mem_filter.1 hb).1
  let w : Server :=
    { v with db := v.db.without a, hub := v.hub.disconnects (activeCredentialIds a v.db) }
  obtain ⟨hresult, hstate⟩ := files_run hown hheld w (deletionAnswer a record v.db)
  obtain ⟨hstate', hresult'⟩ := onRevoked_then (activeCredentialIds a v.db)
    (do Prog.each discardSession (ownUploads a v.db); Prog.each deleteBytes (deletedHashes a v.db)
        pure (deletionAnswer a record v.db) : Handler Response) { v with db := v.db.without a }
  have hexec := exec_run heval
  obtain ⟨hres, hend⟩ := Prog.bind_ok (congrArg Outcome.result hexec) fun r => (do
    let result ← Prog.found r (.error 404 "unknown account")
    Prog.each onRevoked result.credentialIds
    Prog.each discardSession result.uploadIds
    Prog.each deleteBytes result.blobHashes
    pure (.json 200 (accountFields result.record ++ [("deletedRows", .nat result.deletedRows),
      ("revokedCredentials", .nat result.credentialIds.length),
        ("deletedBlobs", .nat result.blobHashes.length)])) : Handler Response)
  rw [congrArg Outcome.state hexec] at hres hend
  unfold deleteAccountRoute
  rw [hb]
  show ((Prog.ofExcept (field b "confirm") >>= _) v).result = _ ∧
    ((Prog.ofExcept (field b "confirm") >>= _) v).state = _
  rw [hc]
  show ((Prog.require (confirms c a) _ >>= _) v).result = _ ∧
    ((Prog.require (confirms c a) _ >>= _) v).state = _
  rw [hrepeats]
  exact ⟨hres.trans (hresult'.trans hresult), hend.trans (hstate'.trans hstate)⟩

/-- **Nothing changes** for a confirm that does not match or an account that is
not registered. -/
theorem deleteAccountRoute_declines (h : ¬ Repeats body a ∨ v.db.accounts.find a = none) :
    Declined (deleteAccountRoute a body v) v := by
  unfold deleteAccountRoute
  rcases ofExcept_cases v ((jsonBody body).map orEmpty) _ with h | ⟨b, hb, e⟩
  · exact h
  rw [e]
  rcases ofExcept_cases v (field b "confirm") _ with h | ⟨c, hc, e⟩
  · exact h
  rw [e]
  cases hrepeats : confirms c a with
  | false => exact ⟨⟨_, rfl⟩, rfl⟩
  | true =>
    have hnone : v.db.accounts.find a = none :=
      h.resolve_left fun hno => hno ⟨b, c, hb, hc, hrepeats⟩
    rcases exec_cases v (deleteAccount a) _ with h | ⟨o, db, he, hs, hr⟩
    · exact h
    rw [deleteAccount_eval, hnone] at he
    cases he
    exact ⟨⟨_, hr⟩, hs⟩

end Route

/-! ## What is reported -/

section Reported
variable {a : String} {db : Db}

theorem mem_ownUploads {u : String} : u ∈ ownUploads a db ↔ db.ownsUpload a u = true := by
  have hown : db.ownsUpload a u = true ↔ ∃ t, db.uploadSessions.find u = some t ∧
      t.accountId = a := by
    unfold Db.ownsUpload
    cases db.uploadSessions.find u <;> simp
  rw [hown]
  unfold ownUploads
  constructor
  · intro h
    obtain ⟨t, ht, rfl⟩ := List.mem_map.1 h
    obtain ⟨ht, ha⟩ := List.mem_filter.1 ht
    exact ⟨t, Table.find_some.2 ⟨ht, rfl⟩, of_decide_eq_true ha⟩
  · rintro ⟨t, ht, ha⟩
    exact List.mem_map.2 ⟨t, List.mem_filter.2 ⟨Table.find_mem ht, decide_eq_true ha⟩,
      Table.find_key ht⟩

theorem ownUploads_nodup : (ownUploads a db).Nodup :=
  db.uploadSessions.unique.sublist (List.filter_sublist.map _)

theorem mem_deletedHashes {h : String} : h ∈ deletedHashes a db ↔
    (∃ b ∈ db.blobs.rows, b.accountId = a ∧ b.blobHash = h) ∧ ∀ b ∈
    (db.without a).blobs.rows, b.blobHash ≠ h := by
  constructor
  · intro hm
    obtain ⟨b, hb, rfl⟩ := List.mem_map.1 (List.mem_filter.1 hm).1
    obtain ⟨hb, ha⟩ := List.mem_filter.1 hb
    exact ⟨⟨b, hb, of_decide_eq_true ha, rfl⟩, deletedHashes_free hm⟩
  · rintro ⟨⟨b, hb, ha, rfl⟩, hfree⟩
    refine List.mem_filter.2 ⟨List.mem_map.2 ⟨b, List.mem_filter.2 ⟨hb, decide_eq_true ha⟩, rfl⟩,
      ?_⟩
    rw [Bool.not_eq_true', List.any_eq_false]
    intro c hc e
    exact hfree c hc (of_decide_eq_true e)

theorem deletedHashes_nodup : (deletedHashes a db).Nodup := by
  unfold deletedHashes
  refine List.Nodup.filter _ (List.Nodup.map_on ?_ ((List.Nodup.of_map _ db.blobs.unique).filter _))
  intro b hb c hc e
  obtain ⟨hb, hba⟩ := List.mem_filter.1 hb
  obtain ⟨hc, hca⟩ := List.mem_filter.1 hc
  refine Table.eq_of_mem hb hc (Prod.ext ?_ e)
  exact (of_decide_eq_true hba).trans (of_decide_eq_true hca).symm

end Reported

end GlanceVault.L3
