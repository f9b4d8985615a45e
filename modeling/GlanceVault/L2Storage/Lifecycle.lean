import GlanceVault.L2Storage.Parts
/-!
# The life of a credential

Four operations end a credential: an enrollment of its device supersedes it, a
revocation and a rotation of its account's key stamp it, a delete of its
account takes the row. `CredentialStep` says once what any operation of the
store does to the table.

* `credential_step`: every store operation takes such a step.
* `OneActive`: at most one credential of a device is active.
* `credential_lifecycle`: over every run, with the reports of the operations.
-/
namespace GlanceVault.L2
open GlanceVault.Core GlanceVault.L1

/-! ## One step -/

/-- What an operation does to the credentials of `db`. -/
inductive CredentialStep (db : Db) : Table Credential.credentialId → Prop
  | same : CredentialStep db db.deviceCredentials
  | stamp (p : Credential → Bool) (now : String) :
    CredentialStep db (db.revokeWhere p now).deviceCredentials
  | issue (id a d hash now : String)
      (fresh : ∀ c ∈ db.deviceCredentials.rows, c.credentialHash ≠ hash ∧ c.credentialId ≠ id) :
      CredentialStep db
        ((db.revokeWhere (ofDevice a d) now).putCredential
          ⟨id, a, d, hash, now, none⟩).deviceCredentials
  | purge (a : String) : CredentialStep db (db.without a).deviceCredentials

theorem createAccount_credentials (a : String) (label : Option String) (keyHash : String)
    (maxAccounts : Option Nat)
    (now : String) :
      (createAccount a label keyHash maxAccounts now).Keeps Db.deviceCredentials := by
  intro db o db' e
  rcases createAccount_cases e with ⟨_, _, rfl⟩ | ⟨_, _, _, rfl⟩
  · rfl
  · rfl

/-- **Every operation of the store takes a `CredentialStep`.** -/
theorem credential_step (o : StoreOp) :
    o.tx.Moves fun db db' => CredentialStep db db'.deviceCredentials := by
  have hv : ∀ {α : Type} {m : DbTx α},
      m.Moves (fun db db' => CredentialStep db db'.deviceCredentials) →
      m.void.Moves fun db db' => CredentialStep db db'.deviceCredentials := by
    intro α m h db u db' e
    obtain ⟨x, d, h1, h2⟩ := Tx.eval_bind_ok e
    cases h2
    exact h db x d h1
  have hkeep : ∀ {α : Type} {m : DbTx α}, m.Keeps Db.deviceCredentials →
      m.Moves fun db db' => CredentialStep db db'.deviceCredentials := by
    intro α m h db r db' e
    show CredentialStep db db'.deviceCredentials
    rw [h db r db' e]
    exact .same
  cases o with
  | issueCredential id a d hash now =>
    refine hv fun db r db' e => ?_
    obtain ⟨-, hfresh, rfl⟩ := issueCredential_eval e
    exact .issue id a d hash now hfresh
  | revokeCredential id now =>
    refine hv fun db r db' e => ?_
    unfold stampRevoked at e
    rw [Tx.eval_write] at e
    cases e
    exact .stamp _ now
  | createAccount a label keyHash cap now =>
    exact hv (hkeep (createAccount_credentials a label keyHash cap now))
  | rotateAccountKey a keyHash revokeDevices now =>
    refine hv fun db r db' e => ?_
    rcases rotateAccountKey_cases e with ⟨-, rfl, -⟩ | ⟨r, -, -, -, -, -, rfl⟩
    · exact .same
    · cases revokeDevices
      · exact .same
      · exact .stamp (fun c => c.accountId = a) now
  | deleteAccount a =>
    refine hv fun db r db' e => ?_
    rw [deleteAccount_eval] at e
    split at e <;> cases e
    · exact .same
    · exact .purge a
  | _ => exact hkeep (StoreOp.keeps _ fun _ => rfl)

/-! ## What every step preserves -/

/-- At most one credential of a device is active. -/
def OneActive (t : Table Credential.credentialId) : Prop :=
  ∀ c ∈ t.rows, ∀ x ∈ t.rows, c.active = true → x.active = true → c.accountId = x.accountId →
    c.deviceId = x.deviceId → c = x

/-- A stamped row is not active; any other is a row of before. -/
theorem active_revokeWhere {db : Db} {p : Credential → Bool} {now : String} {c : Credential}
    (hc : c ∈ (db.revokeWhere p now).deviceCredentials.rows) (ha : c.active = true) :
    c ∈ db.deviceCredentials.rows ∧ p c = false := by
  obtain ⟨y, hy, rfl⟩ := mem_revokeWhere.1 hc
  by_cases hp : (p y && y.active) = true
  · rw [if_pos hp] at ha
    cases ha
  · rw [if_neg hp] at ha ⊢
    exact ⟨hy, by simpa [ha] using hp⟩

/-- A row that is revoked already is not stamped again. -/
theorem inactive_revokeWhere {db : Db} {p : Credential → Bool} {now : String} {c : Credential}
    (hc : c ∈ db.deviceCredentials.rows) (ha : c.active = false) :
    c ∈ (db.revokeWhere p now).deviceCredentials.rows :=
  mem_revokeWhere.2 ⟨c, hc, by simp [ha]⟩

theorem oneActive_step {db : Db} {t : Table Credential.credentialId}
    (h : OneActive db.deviceCredentials) (hs : CredentialStep db t) : OneActive t := by
  have hstamp : ∀ p now, OneActive (db.revokeWhere p now).deviceCredentials :=
    fun p now c hc x hx hca hxa =>
      h c (active_revokeWhere hc hca).1 x (active_revokeWhere hx hxa).1 hca hxa
  cases hs with
  | same => exact h
  | stamp p now => exact hstamp p now
  | issue id a d hash now fresh =>
    -- the predecessors of the new row are stamped
    have hold : ∀ y ∈ (db.revokeWhere (ofDevice a d) now).deviceCredentials.rows, y.active = true →
        ¬ (y.accountId = a ∧ y.deviceId = d) := fun y hy hya e => by
      simpa [ofDevice, e.1, e.2] using (active_revokeWhere hy hya).2
    intro c hc x hx hca hxa ha hd
    rcases Table.mem_upsert.1 hc with rfl | ⟨hc, -⟩
    · rcases Table.mem_upsert.1 hx with rfl | ⟨hx, -⟩
      · rfl
      · exact absurd ⟨ha.symm, hd.symm⟩ (hold x hx hxa)
    · rcases Table.mem_upsert.1 hx with rfl | ⟨hx, -⟩
      · exact absurd ⟨ha, hd⟩ (hold c hc hca)
      · exact hstamp (ofDevice a d) now c hc x hx hca hxa ha hd
  | purge a => exact fun c hc x hx => h c (Table.mem_keep.1 hc).1 x (Table.mem_keep.1 hx).1

/-- An inactive row stays as it is, or goes. -/
theorem inactive_step {db : Db} {t : Table Credential.credentialId} {c : Credential}
    (hc : c ∈ db.deviceCredentials.rows) (ha : c.active = false) (hs : CredentialStep db t) :
    c ∈ t.rows ∨ t.find c.credentialId = none := by
  cases hs with
  | same => exact .inl hc
  | stamp p now => exact .inl (inactive_revokeWhere hc ha)
  | issue id a d hash now fresh =>
    exact .inl (Table.mem_upsert.2 (.inr ⟨inactive_revokeWhere hc ha, (fresh c hc).2⟩))
  | purge a =>
    by_cases h : c.accountId = a
    · right
      show (Table.keep _ _).find _ = none
      rw [Table.find_keep, Table.find_some.2 ⟨hc, rfl⟩]
      simp [Option.filter, h]
    · exact .inl (Table.mem_keep.2 ⟨hc, by simp [h]⟩)

theorem commit_step (o : StoreOp × Fault) (db : Db) :
    CredentialStep db (StoreOp.commit o db).2.deviceCredentials :=
  (credential_step o.1).commit (fun _ => .same) o.2 db

/-! ## Runs -/

theorem oneActive_run (ops : List (StoreOp × Fault)) (db : Db)
    (h : OneActive db.deviceCredentials) :
    OneActive (runOps db ops).deviceCredentials :=
  run_inv (I := fun d : Db => OneActive d.deviceCredentials)
    (fun d o h => oneActive_step h (commit_step o d)) ops db h

/-- While its row exists, an inactive credential does not change. -/
theorem inactive_run {c : Credential} (ha : c.active = false) :
    ∀ (ops : List (StoreOp × Fault)) (db : Db),
    c ∈ db.deviceCredentials.rows → c ∈ (runOps db ops).deviceCredentials.rows ∨
      ∃ before, before <+: ops ∧ (runOps db before).deviceCredentials.find c.credentialId = none
  | [], _, hc => .inl hc
  | o :: ops, db, hc => by
    rcases inactive_step hc ha (commit_step o db) with h | h
    · rcases inactive_run ha ops _ h with h | ⟨before, hb, hf⟩
      · exact .inl h
      · exact .inr ⟨o :: before, List.cons_prefix_cons.2 ⟨rfl, hb⟩, hf⟩
    · exact .inr ⟨[o], List.cons_prefix_cons.2 ⟨rfl, List.nil_prefix⟩, h⟩

/-! ## What the operations report -/

/-- A credential that was active and is revoked now. -/
def turned (db' : Db) (c : Credential) : Bool :=
  c.active && (db'.deviceCredentials.find c.credentialId).any fun x => !x.active

theorem find_revokeWhere {db : Db} {p : Credential → Bool} {now : String} {c : Credential}
    (hc : c ∈ db.deviceCredentials.rows) :
    (db.revokeWhere p now).deviceCredentials.find c.credentialId = some
    (if p c && c.active then c.revoke now else c) := by
  unfold Db.revokeWhere
  rw [Table.find_update, Table.find_some.2 ⟨hc, rfl⟩, Option.map_some]

/-- A stamp turns the active rows it selects. -/
theorem turned_revokeWhere {db : Db} {p : Credential → Bool} (now : String) {c : Credential}
    (hc : c ∈ db.deviceCredentials.rows) : turned (db.revokeWhere p now) c = (p c && c.active) := by
  unfold turned
  rw [find_revokeWhere hc]
  by_cases hs : (p c && c.active) = true
  · have hact : c.active = true := by simp only [Bool.and_eq_true] at hs; exact hs.2
    rw [if_pos hs, hs, hact]
    rfl
  · rw [if_neg hs, Bool.eq_false_of_not_eq_true hs, Option.any_some, Bool.and_not_self]

theorem issueCredential_superseded {id a d hash now : String} {db db' : Db} {r : IssuedCredential}
    (h : (issueCredential id a d hash now).eval db = .ok (r, db')) :
    r.superseded = db.deviceCredentials.count fun c => ofDevice a d c && c.active := by
  unfold issueCredential at h
  obtain ⟨n, d1, h1, h2⟩ := Tx.eval_bind_ok h
  obtain ⟨u, d2, -, h3⟩ := Tx.eval_bind_ok h2
  rw [Tx.eval_write] at h1
  rw [Tx.eval_pure] at h3
  cases h1
  cases h3
  rfl

theorem issueCredential_reports {id a d hash now : String} {fault : Fault} {db db' : Db}
    {r : IssuedCredential}
    (h : (issueCredential id a d hash now).commit fault db = (.ok r, db'))
    (hone : OneActive db'.deviceCredentials) :
    r.record = ⟨id, a, d, hash, now, none⟩ ∧ r.record ∈ db'.deviceCredentials.rows ∧
      (∀ c ∈ db'.deviceCredentials.rows, c.active = true → c.accountId = a →
        c.deviceId = d → c = r.record) ∧
      r.superseded = db.deviceCredentials.count (turned db') := by
  have he := Tx.commit_ok h
  obtain ⟨hr, hfresh, rfl⟩ := issueCredential_eval he
  have hin : r.record ∈ ((db.revokeWhere (ofDevice a d) now).putCredential
      ⟨id, a, d, hash, now,
        none⟩).deviceCredentials.rows := by rw [hr]; exact Table.mem_upsert.2 (.inl rfl)
  refine ⟨hr, hin, fun c hc hact ha hd => ?_, ?_⟩
  · exact hone c hc _ hin hact (by rw [hr]; rfl) (by rw [hr]; exact ha) (by rw [hr]; exact hd)
  · rw [issueCredential_superseded he]
    unfold Table.count
    congr 1
    refine List.filter_congr fun c hc => ?_
    rw [← turned_revokeWhere now hc]
    unfold turned Db.putCredential
    rw [Table.find_upsert, if_neg fun e => (hfresh c hc).2 e.symm]

/-- An issue whose hash is taken fails. -/
theorem issueCredential_collision {id a d hash now : String} {fault : Fault} {db : Db}
    {c : Credential} (hc : c ∈ db.deviceCredentials.rows) (hh : c.credentialHash = hash) :
    ∃ e, (issueCredential id a d hash now).commit fault db = (.error e, db) := by
  cases h : (issueCredential id a d hash now).commit fault db with
  | mk res db' =>
    cases res with
    | ok r => exact absurd hh ((issueCredential_eval (Tx.commit_ok h)).2.1 c hc).1
    | error e => exact ⟨e, by rw [Tx.commit_error h]⟩

theorem mem_activeCredentialIds {a : String} {db : Db} {id : String} :
    id ∈ activeCredentialIds a db ↔
    ∃ c ∈ db.deviceCredentials.rows, c.credentialId = id ∧ c.accountId = a ∧ c.active = true := by
  unfold activeCredentialIds
  simp only [List.mem_insertionSort, List.mem_map, List.mem_filter,
    Bool.and_eq_true, decide_eq_true_eq]
  constructor
  · intro ⟨c, ⟨hc, ha, hact⟩, hid⟩
    exact ⟨c, hc, hid, ha, hact⟩
  · intro ⟨c, hc, hid, ha, hact⟩
    exact ⟨c, ⟨hc, ha, hact⟩, hid⟩

theorem activeCredentialIds_nodup (a : String) (db : Db) : (activeCredentialIds a db).Nodup :=
  (List.perm_insertionSort _ _).nodup_iff.2
    ((List.filter_sublist.map _).nodup db.deviceCredentials.unique)

theorem rotateAccountKey_reports {a keyHash now : String} {fault : Fault} {db db' : Db}
    {r : RotatedAccount}
    (h : (rotateAccountKey a keyHash true now).commit fault db = (.ok (some r), db')) :
    (∀ id, id ∈ r.revokedCredentialIds ↔ ∃ c ∈ db.deviceCredentials.rows, c.credentialId = id ∧
      turned db' c = true) ∧
      r.revokedCredentialIds.Nodup ∧
      (∀ c ∈ db'.deviceCredentials.rows, c.accountId = a → c.active = false) ∧
      ∀ c : Credential, c.accountId ≠ a →
      (c ∈ db'.deviceCredentials.rows ↔ c ∈ db.deviceCredentials.rows) := by
  rcases rotateAccountKey_cases (Tx.commit_ok h) with ⟨e, -, -⟩ | ⟨r', e, -, -, -, hids, hdb⟩
  · cases e
  · cases e
    rw [if_pos rfl] at hids hdb
    subst hdb
    have hturned : ∀ c ∈ db.deviceCredentials.rows,
        turned ((db.rekey a keyHash now).revokeWhere (fun c => c.accountId = a) now) c =
          (decide (c.accountId = a) && c.active) := fun c hc => by
      have hrekeyed : c ∈ (db.rekey a keyHash now).deviceCredentials.rows := hc
      exact turned_revokeWhere now hrekeyed
    refine ⟨fun id => ?_,
      by rw [hids]; exact activeCredentialIds_nodup a db, fun c hc ha => ?_, fun c ha => ?_⟩
    · rw [hids, mem_activeCredentialIds]
      constructor
      · intro ⟨c, hc, hid, ha, hact⟩
        exact ⟨c, hc, hid, by rw [hturned c hc]; simp [ha, hact]⟩
      · intro ⟨c, hc, hid, ht⟩
        rw [hturned c hc, Bool.and_eq_true, decide_eq_true_eq] at ht
        exact ⟨c, hc, hid, ht⟩
    · cases hact : c.active with
      | false => rfl
      | true => simpa [ha] using (active_revokeWhere hc hact).2
    · constructor
      · intro hc
        obtain ⟨y, hy, rfl⟩ := mem_revokeWhere.1 hc
        by_cases hp : y.accountId = a
        · exact absurd (by split <;> exact hp) ha
        · rw [if_neg (by simp [hp])]
          exact hy
      · intro hc
        exact mem_revokeWhere.2 ⟨c, hc, by simp [ha]⟩

/-- **The life of a credential.** From a store without credentials, over every
run of store operations, failing ones included: at most one credential of a
device is active; an inactive one does not change as long as its row is there;
an issue leaves its device the new credential alone and reports how many it
revoked; a rotation that signs out the devices reports the credentials it
revoked, leaves the account no active one and the others as they were; an
issue that fails, as one with a taken hash does, changes nothing. An issue with
an id and a hash of its own, and a rotation of a registered account to a key of
its own, do succeed. -/
theorem credential_lifecycle (volume : Db) (ops : List (StoreOp × Fault)) :
    let db := runOps { volume with deviceCredentials := .empty } ops
    OneActive db.deviceCredentials ∧
    (∀ c ∈ db.deviceCredentials.rows, c.active = false →
      ∀ more, c ∈ (runOps db more).deviceCredentials.rows ∨
      ∃ before, before <+: more ∧ (runOps db before).deviceCredentials.find c.credentialId = none) ∧
    (∀ id a d hash now fault r db',
      (issueCredential id a d hash now).commit fault db = (.ok r, db') →
      r.record = ⟨id, a, d, hash, now, none⟩ ∧ r.record ∈ db'.deviceCredentials.rows ∧
        (∀ c ∈ db'.deviceCredentials.rows, c.active = true → c.accountId = a →
          c.deviceId = d → c = r.record) ∧
        r.superseded = db.deviceCredentials.count (turned db')) ∧
    (∀ a keyHash now fault r db', (rotateAccountKey a keyHash true now).commit fault db =
      (.ok (some r), db') →
      (∀ id, id ∈ r.revokedCredentialIds ↔ ∃ c ∈ db.deviceCredentials.rows, c.credentialId = id ∧
        turned db' c = true) ∧
        r.revokedCredentialIds.Nodup ∧
        (∀ c ∈ db'.deviceCredentials.rows, c.accountId = a → c.active = false) ∧
        ∀ c : Credential, c.accountId ≠ a →
          (c ∈ db'.deviceCredentials.rows ↔ c ∈ db.deviceCredentials.rows)) ∧
    (∀ id a d hash now fault e db', (issueCredential id a d hash now).commit fault db =
      (.error e, db') → db' = db) ∧
    (∀ id a d hash now fault, (∃ c ∈ db.deviceCredentials.rows, c.credentialHash = hash) →
      ∃ e, (issueCredential id a d hash now).commit fault db = (.error e, db)) ∧
    (∀ id a d hash now,
      (∀ c ∈ db.deviceCredentials.rows, c.credentialHash ≠ hash ∧ c.credentialId ≠ id) →
      ∃ r db', (issueCredential id a d hash now).commit none db = (.ok r, db')) ∧
    ∀ a keyHash now, (db.accounts.find a).isSome →
      (∀ x ∈ db.accounts.rows, x.keyHash = keyHash → x.accountId = a) →
      ∃ r db', (rotateAccountKey a keyHash true now).commit none db = (.ok (some r), db') := by
  intro db
  have hone : OneActive db.deviceCredentials := oneActive_run ops _ fun c hc => absurd hc (by simp)
  refine ⟨hone, fun c hc ha more => inactive_run ha more db hc,
    fun id a d hash now fault r db' h => ?_,
    fun _ _ _ _ _ _ h => rotateAccountKey_reports h, fun _ _ _ _ _ _ _ _ h => Tx.commit_error h,
    fun _ _ _ _ _ _ ⟨c, hc, hh⟩ => issueCredential_collision hc hh, fun _ _ _ _ _ hfresh => ?_,
    fun _ _ _ hreg hown => ?_⟩
  rotate_left
  · obtain ⟨r, db', h⟩ := issueCredential_succeeds hfresh
    exact ⟨r, db', Tx.commit_none h⟩
  · obtain ⟨r, db', h⟩ := rotateAccountKey_succeeds hreg hown
    exact ⟨r, db', Tx.commit_none h⟩
  refine issueCredential_reports h (oneActive_step hone ?_)
  obtain ⟨-, hfresh, rfl⟩ := issueCredential_eval (Tx.commit_ok h)
  exact .issue id a d hash now hfresh

/-- A registered house whose phone is enrolled twice, and a device of someone else. -/
def enrolledTwice : List (StoreOp × Fault) :=
  [(.createAccount "house" none "key0" none "t0", none),
    (.issueCredential "c1" "house" "phone" "hash1" "t1", none),
    (.issueCredential "c2" "house" "phone" "hash2" "t2", none),
    (.issueCredential "c3" "flat" "tv" "hash3" "t3", none)]

/-- The rotation signs out the second credential, the first one is signed out
already and the third is not the house's. -/
theorem credential_lifecycle_twice :
    let db := runOps { Db.empty with deviceCredentials := .empty } enrolledTwice
    db.deviceCredentials.rows.map
      (fun c => (c.credentialId, c.active)) = [("c1", false), ("c2", true), ("c3", true)] ∧
    (∃ r db', (rotateAccountKey "house" "key1" true "t4").commit none db = (.ok (some r), db') ∧
      (∀ c ∈ db'.deviceCredentials.rows, c.accountId = "house" → c.active = false) ∧
      ∀ c : Credential, c.accountId ≠ "house" →
        (c ∈ db'.deviceCredentials.rows ↔ c ∈ db.deviceCredentials.rows)) ∧
    (∃ r db', (issueCredential "c4" "house" "phone" "hash4" "t5").commit none db = (.ok r, db') ∧
      r.superseded = db.deviceCredentials.count (turned db')) ∧
    ∃ e, (issueCredential "c4" "house" "tablet" "hash3" "t5").commit none db = (.error e, db) := by
  intro db
  obtain ⟨-, -, hissue, hrotate, -, htaken, hissues, hrotates⟩ :=
    credential_lifecycle .empty enrolledTwice
  have hfresh : ∀ c ∈ db.deviceCredentials.rows, c.credentialHash ≠ "hash4" ∧
      c.credentialId ≠ "c4" := by
    decide +kernel
  obtain ⟨r, db', h⟩ := hrotates "house" "key1" "t4" (by decide +kernel) (by decide +kernel)
  obtain ⟨i, db'', h'⟩ := hissues "c4" "house" "phone" "hash4" "t5" hfresh
  refine ⟨by decide +kernel, ⟨r, db', h, (hrotate _ _ _ _ _ _ h).2.2.1,
    (hrotate _ _ _ _ _ _ h).2.2.2⟩,
    ⟨i, db'', h', (hissue _ _ _ _ _ _ _ _ h').2.2.2⟩, ?_⟩
  exact htaken _ _ _ _ _ _ (by decide +kernel)

end GlanceVault.L2
