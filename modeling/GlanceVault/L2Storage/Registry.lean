import GlanceVault.L2Storage.BlobMeta
/-!
# Credentials and accounts (`storage/sqlite.ts`, the registry statements)

Device credentials (issued, superseded, revoked, looked up by the hash of the
secret) and the account registry (created under a cap, rekeyed, deleted).
Deleting an account empties every table of its rows in one transaction and
reports the files the database no longer refers to.

* `issueCredential_eval`: the predecessors of the device are revoked and the
  new row is active.
* `rotateAccountKey_frame`, `issueCredential_frame`: the registry writes touch
  the two registry tables only.
* `deleteAccount_eval`, `without_self`, `without_other`: after a delete the
  account's part of the database is empty and every other part unchanged.
* `deletedHashes_free`: a reported hash is named by no remaining row.
-/
namespace GlanceVault.L2
open GlanceVault.Core GlanceVault.L1

/-! ## Credentials -/

/-- Everything but the registry. -/
def Db.outsideRegistry (db : Db) : Db := { db with deviceCredentials := .empty, accounts := .empty }

def Credential.revoke (c : Credential) (now : String) : Credential :=
  { c with revokedAt := some now }

theorem Credential.revoke_id (c : Credential) (now : String) :
    (c.revoke now).credentialId = c.credentialId :=
  rfl

def Credential.active (c : Credential) : Bool := c.revokedAt.isNone

/-- `UPDATE device_credentials SET revoked_at = ? WHERE p AND revoked_at IS NULL` -/
def Db.revokeWhere (db : Db) (p : Credential → Bool) (now : String) : Db :=
  { db with deviceCredentials :=
      db.deviceCredentials.update (fun c => p c && c.active) (fun c => c.revoke now) fun c =>
        c.revoke_id now }

/-- mirrors src/storage/sqlite.ts:849-857 (`getCredentialByHash`) -/
def getCredentialByHash (hash : String) (db : Db) : Option Credential :=
  db.deviceCredentials.rows.find? fun c => c.credentialHash = hash

/-- mirrors src/storage/sqlite.ts:861-869 (`getCredentialById`) -/
def getCredentialById (id : String) (db : Db) : Option Credential := db.deviceCredentials.find id

/-- mirrors src/storage/sqlite.ts:872-880 (`listCredentials`) -/
def listCredentials (db : Db) : List Credential :=
  db.deviceCredentials.rows.insertionSort fun x y =>
    x.createdAt < y.createdAt ∨ x.createdAt = y.createdAt ∧ x.credentialId ≤ y.credentialId

/-- mirrors src/storage/sqlite.ts:937-945 (`listAccounts`) -/
def listAccounts (db : Db) : List Account :=
  db.accounts.rows.insertionSort fun x y =>
    x.createdAt < y.createdAt ∨ x.createdAt = y.createdAt ∧ x.accountId ≤ y.accountId

/-- `INSERT INTO device_credentials`, under its primary key and the unique
index on the hash. -/
def insertCredential (c : Credential) : DbTx Unit := .stmt fun db =>
  if db.deviceCredentials.rows.any fun x => x.credentialHash = c.credentialHash then
    .error (.constraint "idx_credentials_hash")
  else match db.deviceCredentials.insertNew c with
    | some t => .ok ((), { db with deviceCredentials := t })
    | none => .error (.constraint "device_credentials")

def Db.putCredential (db : Db) (c : Credential) : Db :=
  { db with deviceCredentials := db.deviceCredentials.upsert c }

/-- The credentials of one device of an account. -/
def ofDevice (a d : String) (c : Credential) : Bool :=
  decide (c.accountId = a) && decide (c.deviceId = d)

structure IssuedCredential where
  record : Credential
  superseded : Nat

/-- mirrors src/storage/sqlite.ts:820-843 (`issueCredential`) -/
def issueCredential (id a d hash now : String) : DbTx IssuedCredential := do
  let superseded ← Tx.write fun db =>
    (db.deviceCredentials.count fun c => ofDevice a d c && c.active,
      db.revokeWhere (ofDevice a d) now)
  insertCredential ⟨id, a, d, hash, now, none⟩
  pure ⟨⟨id, a, d, hash, now, none⟩, superseded⟩

theorem insertCredential_eval {c : Credential} {db db' : Db}
    (h : (insertCredential c).eval db = .ok ((), db')) :
    (∀ x ∈ db.deviceCredentials.rows, x.credentialHash ≠ c.credentialHash ∧
      x.credentialId ≠ c.credentialId) ∧
      db' = db.putCredential c := by
  unfold insertCredential at h
  rw [Tx.eval_stmt] at h
  split at h
  · cases h
  · rename_i hu
    split at h
    · rename_i t hi
      cases h
      obtain ⟨hfresh, rfl⟩ := Table.insertNew_some hi
      refine ⟨fun x hx => ⟨fun e => ?_, Table.find_none.1 (Table.has_eq_false.1 hfresh) x hx⟩, rfl⟩
      exact hu (List.any_eq_true.2 ⟨x, hx, by simpa using e⟩)
    · cases h

theorem insertCredential_fresh {c : Credential} {db : Db}
    (h : ∀ x ∈ db.deviceCredentials.rows, x.credentialHash ≠ c.credentialHash ∧
      x.credentialId ≠ c.credentialId) :
    (insertCredential c).eval db = .ok ((), db.putCredential c) := by
  have hhash : ¬ (db.deviceCredentials.rows.any fun x => x.credentialHash = c.credentialHash) =
      true := by
    rw [List.any_eq_true]
    rintro ⟨x, hx, e⟩
    exact (h x hx).1 (of_decide_eq_true e)
  have hid : db.deviceCredentials.has c.credentialId = false :=
    Table.has_eq_false.2 (Table.find_none.2 fun x hx => (h x hx).2)
  unfold insertCredential
  rw [Tx.eval_stmt, if_neg hhash, Table.insertNew_of_fresh hid]
  rfl

theorem mem_revokeWhere {db : Db} {p : Credential → Bool} {now : String} {x : Credential} :
    x ∈ (db.revokeWhere p now).deviceCredentials.rows ↔
      ∃ c ∈ db.deviceCredentials.rows, x = if p c && c.active then c.revoke now else c := by
  simp only [Db.revokeWhere, Table.mem_update]

/-- A revocation leaves the id, the account and the hash of every row. -/
theorem revokeWhere_old {db : Db} (p : Credential → Bool) (now : String) {c : Credential}
    (hc : c ∈ db.deviceCredentials.rows) : ∃ x ∈ (db.revokeWhere p now).deviceCredentials.rows,
      x.credentialHash = c.credentialHash ∧ x.credentialId = c.credentialId := by
  refine ⟨_, mem_revokeWhere.2 ⟨c, hc, rfl⟩, ?_⟩
  split <;> exact ⟨rfl, rfl⟩

theorem issueCredential_eval {id a d hash now : String} {db db' : Db} {r : IssuedCredential}
    (h : (issueCredential id a d hash now).eval db = .ok (r, db')) :
    r.record = ⟨id, a, d, hash, now, none⟩ ∧
      (∀ c ∈ db.deviceCredentials.rows, c.credentialHash ≠ hash ∧ c.credentialId ≠ id) ∧
      db' = (db.revokeWhere (ofDevice a d) now).putCredential ⟨id, a, d, hash, now, none⟩ := by
  unfold issueCredential at h
  obtain ⟨n, d1, h1, h⟩ := Tx.eval_bind_ok h
  rw [Tx.eval_write] at h1
  obtain ⟨u, d2, h2, h⟩ := Tx.eval_bind_ok h
  obtain ⟨hfresh, rfl⟩ := insertCredential_eval h2
  cases h1
  cases h
  refine ⟨rfl, fun c hc => ?_, rfl⟩
  obtain ⟨x, hx, e1, e2⟩ := revokeWhere_old (ofDevice a d) now hc
  obtain ⟨n1, n2⟩ := hfresh x hx
  exact ⟨fun e => n1 (e1.trans e), fun e => n2 (e2.trans e)⟩

/-- An issue with an id and a hash of its own succeeds. -/
theorem issueCredential_succeeds {id a d hash now : String} {db : Db}
    (hfresh : ∀ c ∈ db.deviceCredentials.rows, c.credentialHash ≠ hash ∧ c.credentialId ≠ id) :
    ∃ r db', (issueCredential id a d hash now).eval db = .ok (r, db') := by
  have hstamped : ∀ c ∈ (db.revokeWhere (ofDevice a d) now).deviceCredentials.rows,
      c.credentialHash ≠ hash ∧ c.credentialId ≠ id := fun c hc => by
    obtain ⟨x, hx, rfl⟩ := mem_revokeWhere.1 hc
    have := hfresh x hx
    split <;> exact this
  have hinsert := insertCredential_fresh (c := ⟨id, a, d, hash, now, none⟩) hstamped
  unfold issueCredential
  rw [Tx.eval_bind, Tx.eval_write]
  simp only
  rw [Tx.eval_bind, hinsert]
  exact ⟨_, _, rfl⟩

theorem issueCredential_frame (id a d hash now : String) :
    (issueCredential id a d hash now).Keeps Db.outsideRegistry := by
  intro db r db' h
  obtain ⟨-, -, rfl⟩ := issueCredential_eval h
  rfl

/-- The single `UPDATE` of a revocation; the number of rows it changed.
mirrors src/storage/sqlite.ts:888-902 (`revokeCredential`) -/
def stampRevoked (id now : String) : DbTx Nat := .write fun db =>
  (db.deviceCredentials.count fun c => decide (c.credentialId = id) && c.active,
    db.revokeWhere (fun c => c.credentialId = id) now)

/-! ## Accounts -/

inductive CreateAccountRefusal
  | exists
  | limit
  deriving DecidableEq

/-- `INSERT INTO accounts`, under its primary key and the unique index on the
key hash. -/
def insertAccount (r : Account) : DbTx Unit := .stmt fun db =>
  if db.accounts.rows.any fun x => x.keyHash = r.keyHash then
    .error (.constraint "idx_accounts_key_hash")
  else match db.accounts.insertNew r with
    | some t => .ok ((), { db with accounts := t })
    | none => .error (.constraint "accounts")

/-- mirrors src/storage/sqlite.ts:909-935 (`createAccount`) -/
def createAccount (a : String) (label : Option String) (keyHash : String) (maxAccounts : Option Nat)
    (now : String) : DbTx (Except CreateAccountRefusal Account) := do
  let existing ← Tx.read fun db => db.accounts.has a
  if existing then pure (.error .exists) else do
    let n ← Tx.read fun db => db.accounts.rows.length
    if maxAccounts.any fun m => m ≤ n then pure (.error .limit) else do
      insertAccount ⟨a, label, keyHash, now, none⟩
      pure (.ok ⟨a, label, keyHash, now, none⟩)

theorem insertAccount_eval {r : Account} {db db' : Db} {u : Unit}
    (h : (insertAccount r).eval db = .ok (u, db')) :
    (∀ x ∈ db.accounts.rows, x.keyHash ≠ r.keyHash ∧ x.accountId ≠ r.accountId) ∧
      db' = { db with accounts := db.accounts.upsert r } := by
  unfold insertAccount at h
  rw [Tx.eval_stmt] at h
  split at h
  · cases h
  · rename_i hu
    split at h
    · rename_i t hi
      cases h
      obtain ⟨hfresh, rfl⟩ := Table.insertNew_some hi
      refine ⟨fun x hx => ⟨fun e => ?_, Table.find_none.1 (Table.has_eq_false.1 hfresh) x hx⟩, rfl⟩
      exact hu (List.any_eq_true.2 ⟨x, hx, by simpa using e⟩)
    · cases h

/-- A creation is refused, or it adds a new account with a new key under the
cap. -/
theorem createAccount_eval {a : String} {label : Option String} {keyHash now : String}
    {maxAccounts : Option Nat} {db db' : Db} {res : Except CreateAccountRefusal Account}
    (h : (createAccount a label keyHash maxAccounts now).eval db = .ok (res, db')) :
    (∃ e, res = .error e ∧ db' = db) ∨
      res = .ok ⟨a, label, keyHash, now, none⟩ ∧
        (∀ x ∈ db.accounts.rows, x.keyHash ≠ keyHash ∧ x.accountId ≠ a) ∧
        (∀ m, maxAccounts = some m → db.accounts.rows.length < m) ∧
        db' = { db with accounts := db.accounts.upsert ⟨a, label, keyHash, now, none⟩ } := by
  unfold createAccount at h
  obtain ⟨existing, d, h1, h2⟩ := Tx.eval_bind_ok h
  rw [Tx.eval_read] at h1
  cases h1
  by_cases hx : db.accounts.has a = true
  · rw [if_pos hx, Tx.eval_pure] at h2
    cases h2
    exact .inl ⟨_, rfl, rfl⟩
  · rw [if_neg hx] at h2
    obtain ⟨n, d, h3, h4⟩ := Tx.eval_bind_ok h2
    rw [Tx.eval_read] at h3
    cases h3
    by_cases hroom : (maxAccounts.any fun m => m ≤ db.accounts.rows.length) = true
    · rw [if_pos hroom, Tx.eval_pure] at h4
      cases h4
      exact .inl ⟨_, rfl, rfl⟩
    · rw [if_neg hroom] at h4
      obtain ⟨u, d, h5, h6⟩ := Tx.eval_bind_ok h4
      rw [Tx.eval_pure] at h6
      cases h6
      obtain ⟨hnew, rfl⟩ := insertAccount_eval h5
      refine .inr ⟨rfl, hnew, fun m hm => ?_, rfl⟩
      rw [hm] at hroom
      simpa using hroom

theorem createAccount_cases {a : String} {label : Option String} {keyHash now : String}
    {maxAccounts : Option Nat} {db db' : Db} {res : Except CreateAccountRefusal Account}
    (h : (createAccount a label keyHash maxAccounts now).eval db = .ok (res, db')) :
    (∃ e, res = .error e ∧ db' = db) ∨
      ∃ r, res = .ok r ∧ r.accountId = a ∧ db' = { db with accounts := db.accounts.upsert r } := by
  rcases createAccount_eval h with hrefused | ⟨hr, -, -, hdb⟩
  · exact .inl hrefused
  · exact .inr ⟨_, hr, rfl, hdb⟩

/-- The active credentials of an account, in the order of their ids. -/
def activeCredentialIds (a : String) (db : Db) : List String :=
  ((db.deviceCredentials.rows.filter fun c => decide (c.accountId = a) && c.active).map
    (·.credentialId)).insertionSort
    fun x y => decide (x ≤ y)

structure RotatedAccount where
  record : Account
  revokedCredentialIds : List String

/-- `UPDATE accounts SET key_hash = ?, key_rotated_at = ? WHERE account_id = ?`,
under the unique index on the key hash. -/
def rekeyAccount (a keyHash now : String) : DbTx Nat := .stmt fun db =>
  if db.accounts.has a &&
      db.accounts.rows.any fun x => decide (x.keyHash = keyHash) && decide (x.accountId ≠ a) then
    .error (.constraint "idx_accounts_key_hash")
  else .ok (db.accounts.count fun x => x.accountId = a, { db with
    accounts := db.accounts.update (fun x => x.accountId = a)
      (fun x => { x with keyHash := keyHash, keyRotatedAt := some now }) fun _ => rfl })

/-- Sign out every device of the account; the ids of the credentials that
were active. -/
def revokeDevicesOf (a now : String) : DbTx (List String) := do
  let ids ← Tx.read (activeCredentialIds a)
  Tx.write fun db => ((), db.revokeWhere (fun c => c.accountId = a) now)
  pure ids

/-- mirrors src/storage/sqlite.ts:952-989 (`rotateAccountKey`) -/
def rotateAccountKey (a keyHash : String) (revokeDevices : Bool) (now : String) :
    DbTx (Option RotatedAccount) := do
  let changes ← rekeyAccount a keyHash now
  if changes = 0 then pure none else do
    let ids ← Tx.when revokeDevices (revokeDevicesOf a now) []
    let row ← Tx.read fun db => db.accounts.find a
    pure (row.map fun r => ⟨r, ids⟩)

/-- The account with a new key. -/
def Db.rekey (db : Db) (a keyHash now : String) : Db := { db with
  accounts := db.accounts.update (fun x => x.accountId = a)
    (fun x => { x with keyHash := keyHash, keyRotatedAt := some now }) fun _ => rfl }

theorem rekeyAccount_eval {a keyHash now : String} {db db' : Db} {n : Nat}
    (h : (rekeyAccount a keyHash now).eval db = .ok (n, db')) :
    db' = db.rekey a keyHash now ∧ (n = 0 ↔ db.accounts.find a = none) ∧
      (n ≠ 0 → ∀ x ∈ db.accounts.rows, x.keyHash = keyHash → x.accountId = a) := by
  unfold rekeyAccount at h
  rw [Tx.eval_stmt] at h
  split at h
  · cases h
  · rename_i hu
    cases h
    have hzero : db.accounts.count (fun x => decide (x.accountId = a)) = 0 ↔
        db.accounts.find a = none := by
      unfold Table.count
      rw [List.length_eq_zero_iff, List.filter_eq_nil_iff, Table.find_none]
      simp
    refine ⟨rfl, hzero, fun hn x hx hk => ?_⟩
    by_contra hne
    have hhas : db.accounts.has a = true := by
      unfold Table.has
      cases hf : db.accounts.find a with
      | none => exact absurd (hzero.2 hf) hn
      | some r => rfl
    refine hu ?_
    rw [hhas, Bool.true_and, List.any_eq_true]
    exact ⟨x, hx, by simpa using ⟨hk, hne⟩⟩

theorem rekey_absent {a : String} {db : Db} (h : db.accounts.find a = none) (keyHash now : String) :
    db.rekey a keyHash now = db := by
  have hrows : (db.rekey a keyHash now).accounts = db.accounts := Table.ext' <| by
    show db.accounts.rows.map _ = _
    conv => rhs; rw [← List.map_id db.accounts.rows]
    refine List.map_congr_left fun x hx => ?_
    rw [if_neg (by simpa using Table.find_none.1 h x hx)]
    rfl
  exact congrArg (fun t => { db with accounts := t }) hrows

/-- A rotation commits: the new key is no other account's. -/
theorem rekeyAccount_succeeds {a keyHash now : String} {db : Db}
    (hown : ∀ x ∈ db.accounts.rows, x.keyHash = keyHash → x.accountId = a) :
    (rekeyAccount a keyHash now).eval db =
      .ok (db.accounts.count fun x => x.accountId = a, db.rekey a keyHash now) := by
  have hfree : ¬ (db.accounts.has a && db.accounts.rows.any fun x =>
      decide (x.keyHash = keyHash) && decide (x.accountId ≠ a)) = true := by
    rw [Bool.and_eq_true, List.any_eq_true]
    rintro ⟨-, x, hx, e⟩
    simp only [Bool.and_eq_true, decide_eq_true_eq] at e
    exact e.2 (hown x hx e.1)
  unfold rekeyAccount
  rw [Tx.eval_stmt, if_neg hfree]
  rfl

/-- What a rotation does: nothing if there is no such account; otherwise the
key, and with `revokeDevices` the credentials that were active. -/
theorem rotateAccountKey_cases {a keyHash now : String} {revokeDevices : Bool} {db db' : Db}
    {o : Option RotatedAccount}
    (h : (rotateAccountKey a keyHash revokeDevices now).eval db = .ok (o, db')) :
    (o = none ∧ db' = db ∧ db.accounts.find a = none) ∨
      ∃ r, o = some r ∧ r.record.accountId = a ∧ (∃ x, db.accounts.find a = some x) ∧
        (∀ x ∈ db.accounts.rows, x.keyHash = keyHash → x.accountId = a) ∧
        r.revokedCredentialIds = (if revokeDevices then activeCredentialIds a db else []) ∧
        db' = if revokeDevices then
            (db.rekey a keyHash now).revokeWhere (fun c => c.accountId = a) now
          else db.rekey a keyHash now := by
  unfold rotateAccountKey at h
  obtain ⟨n, d, h1, h⟩ := Tx.eval_bind_ok h
  obtain ⟨rfl, hzero, huniq⟩ := rekeyAccount_eval h1
  by_cases hn : n = 0
  · rw [if_pos hn, Tx.eval_pure] at h
    cases h
    exact .inl ⟨rfl, rekey_absent (hzero.1 hn) _ _, hzero.1 hn⟩
  · rw [if_neg hn] at h
    obtain ⟨ids, d, h2, h⟩ := Tx.eval_bind_ok h
    obtain ⟨row, d', h3, h⟩ := Tx.eval_bind_ok h
    rw [Tx.eval_read] at h3
    cases h3
    rw [Tx.eval_pure] at h
    cases h
    obtain ⟨x, hx⟩ : ∃ x, db.accounts.find a = some x := by
      cases hf : db.accounts.find a with
      | none => exact absurd (hzero.2 hf) hn
      | some x => exact ⟨x, rfl⟩
    have hfound : ∃ y : Account, (db.rekey a keyHash now).accounts.find a = some y ∧
        y.accountId = a := by
      have hxa : x.accountId = a := Table.find_key hx
      refine ⟨{ x with keyHash := keyHash, keyRotatedAt := some now }, ?_, hxa⟩
      unfold Db.rekey
      rw [Table.find_update, hx, Option.map_some, if_pos (by simpa using hxa)]
    obtain ⟨y, hy, hya⟩ := hfound
    cases revokeDevices with
    | false =>
      cases h2
      exact .inr ⟨⟨y, []⟩, by rw [hy]; rfl, hya, ⟨x, hx⟩, huniq hn, rfl, rfl⟩
    | true =>
      have h2 : (revokeDevicesOf a now).eval (db.rekey a keyHash now) = .ok (ids, db') := h2
      unfold revokeDevicesOf at h2
      obtain ⟨ids', d1, h4, h2⟩ := Tx.eval_bind_ok h2
      obtain ⟨u, d2, h5, h2⟩ := Tx.eval_bind_ok h2
      rw [Tx.eval_read] at h4
      rw [Tx.eval_write] at h5
      cases h4
      cases h5
      rw [Tx.eval_pure] at h2
      cases h2
      refine .inr ⟨⟨y, activeCredentialIds a db⟩, ?_, hya, ⟨x, hx⟩, huniq hn, rfl, rfl⟩
      show Option.map _ ((db.rekey a keyHash now).accounts.find a) = _
      rw [hy]
      rfl

/-- The rotation of a registered account, to a key that is no other's, succeeds. -/
theorem rotateAccountKey_succeeds {a keyHash now : String} {db : Db}
    (hreg : (db.accounts.find a).isSome)
    (hown : ∀ x ∈ db.accounts.rows, x.keyHash = keyHash → x.accountId = a) :
    ∃ r db', (rotateAccountKey a keyHash true now).eval db = .ok (some r, db') := by
  have hrekey : (rekeyAccount a keyHash now).eval db =
      .ok (db.accounts.count fun x => x.accountId = a, db.rekey a keyHash now) :=
        rekeyAccount_succeeds hown
  have hcount := (rekeyAccount_eval hrekey).2.1
  have hn : ¬ (db.accounts.count fun x => decide (x.accountId = a)) = 0 := fun e => by
    rw [hcount.1 e] at hreg
    cases hreg
  have hrow : ∃ r db', (rotateAccountKey a keyHash true now).eval db = .ok (r, db') := by
    unfold rotateAccountKey revokeDevicesOf
    rw [Tx.eval_bind, hrekey]
    simp only
    rw [if_neg hn]
    exact ⟨_, _, rfl⟩
  obtain ⟨r, db', h⟩ := hrow
  rcases rotateAccountKey_cases h with ⟨-, -, hnone⟩ | ⟨r', rfl, -⟩
  · rw [hnone] at hreg
    cases hreg
  · exact ⟨r', db', h⟩

section Frames

theorem stampRevoked_frame (id now : String) : (stampRevoked id now).Keeps Db.outsideRegistry :=
  .write fun _ => rfl

theorem createAccount_frame (a : String) (label : Option String) (keyHash : String)
    (maxAccounts : Option Nat)
    (now : String) : (createAccount a label keyHash maxAccounts now).Keeps Db.outsideRegistry := by
  have hins : ∀ r, (insertAccount r).Keeps Db.outsideRegistry := by
    intro r
    refine .stmt fun db x h => ?_
    split at h
    · cases h
    · split at h <;> cases h
      rfl
  unfold createAccount
  refine .bind (.read _) fun existing => .ite (.pure _) (.bind (.read _) fun n => .ite (.pure _) ?_)
  exact .bind (hins _) fun _ => .pure _

theorem revokeDevicesOf_frame (a now : String) : (revokeDevicesOf a now).Keeps Db.outsideRegistry :=
  .bind (.read _) fun _ => .bind (.write fun _ => rfl) fun _ => .pure _

theorem rotateAccountKey_frame (a keyHash : String) (revokeDevices : Bool) (now : String) :
    (rotateAccountKey a keyHash revokeDevices now).Keeps Db.outsideRegistry := by
  have hkey : (rekeyAccount a keyHash now).Keeps Db.outsideRegistry := by
    refine .stmt fun db x h => ?_
    split at h <;> cases h
    rfl
  unfold rotateAccountKey
  refine .bind hkey fun n => .ite (.pure _) (.bind ?_ fun ids => .bind (.read _) fun row => .pure _)
  cases revokeDevices
  · exact .pure _
  · exact revokeDevicesOf_frame a now

end Frames

/-- mirrors src/storage/sqlite.ts:1041-1048 (`getAccountByKeyHash`) -/
def getAccountByKeyHash (keyHash : String) (db : Db) : Option Account :=
  db.accounts.rows.find? fun x => x.keyHash = keyHash

/-! ## Account deletion -/

/-- The tables of the delete loop, in its order. -/
inductive AccountTable
  | intentEvents
  | devices
  | accountSeq
  | accountSalts
  | blobs
  | uploadSessions
  | deviceCredentials
  | accounts

def accountTables : List AccountTable :=
  [.intentEvents, .devices, .accountSeq, .accountSalts, .blobs, .uploadSessions,
    .deviceCredentials, .accounts]

/-- `DELETE FROM t WHERE account_id = ?` -/
def Db.deleteFrom (db : Db) (a : String) : AccountTable → Db
  | .intentEvents =>
    { db with intentEvents := db.intentEvents.keep fun r => !decide (r.accountId = a) }
  | .devices => { db with devices := db.devices.keep fun r => !decide (r.accountId = a) }
  | .accountSeq => { db with accountSeq := db.accountSeq.keep fun r => !decide (r.accountId = a) }
  | .accountSalts =>
    { db with accountSalts := db.accountSalts.keep fun r => !decide (r.accountId = a) }
  | .blobs => { db with blobs := db.blobs.keep fun r => !decide (r.accountId = a) }
  | .uploadSessions => db.dropSessions fun s => s.accountId = a
  | .deviceCredentials =>
    { db with deviceCredentials := db.deviceCredentials.keep fun r => !decide (r.accountId = a) }
  | .accounts => { db with accounts := db.accounts.keep fun r => !decide (r.accountId = a) }

def deleteTables (a : String) : List AccountTable → DbTx Unit
  | [] => pure ()
  | t :: ts => do
    Tx.write fun db => ((), db.deleteFrom a t)
    deleteTables a ts

structure DeletedAccount where
  record : Account
  deletedRows : Nat
  credentialIds : List String
  blobHashes : List String
  uploadIds : List String

/-- mirrors src/storage/sqlite.ts:991-1038 (`deleteAccount`) -/
def deleteAccount (a : String) : DbTx (Option DeletedAccount) := do
  let row ← Tx.read fun db => db.accounts.find a
  match row with
  | none => pure none
  | some record => do
    let credentialIds ← Tx.read (activeCredentialIds a)
    let accountHashes ← Tx.read fun db =>
      (db.blobs.rows.filter fun b => decide (b.accountId = a)).map (·.blobHash)
    let uploadIds ← Tx.read fun db =>
      (db.uploadSessions.rows.filter fun s => decide (s.accountId = a)).map (·.uploadId)
    let deletedRows ← Tx.write fun db =>
      (db.syncRows.count fun r => decide (r.accountId = a),
        { db with syncRows := db.syncRows.keep fun r => !decide (r.accountId = a) })
    deleteTables a accountTables
    -- the byte store is shared: bytes another account still refers to stay
    let blobHashes ← Tx.read fun db =>
      accountHashes.filter fun h => !db.blobs.rows.any fun b => decide (b.blobHash = h)
    pure (some ⟨record, deletedRows, credentialIds, blobHashes, uploadIds⟩)

/-- The database without the rows of an account. -/
def Db.without (db : Db) (a : String) : Db where
  syncRows := db.syncRows.keep fun r => !decide (r.accountId = a)
  intentEvents := db.intentEvents.keep fun r => !decide (r.accountId = a)
  devices := db.devices.keep fun r => !decide (r.accountId = a)
  accountSeq := db.accountSeq.keep fun r => !decide (r.accountId = a)
  accountSalts := db.accountSalts.keep fun r => !decide (r.accountId = a)
  blobs := db.blobs.keep fun r => !decide (r.accountId = a)
  uploadSessions := db.uploadSessions.keep fun r => !decide (r.accountId = a)
  uploadParts := db.uploadParts.keep fun r => !db.ownsUpload a r.uploadId
  deviceCredentials := db.deviceCredentials.keep fun r => !decide (r.accountId = a)
  accounts := db.accounts.keep fun r => !decide (r.accountId = a)

/-- The hashes whose bytes an account delete reports for removal. -/
def deletedHashes (a : String) (db : Db) : List String :=
  ((db.blobs.rows.filter fun b => decide (b.accountId = a)).map (·.blobHash)).filter fun h =>
    !(db.without a).blobs.rows.any fun b => decide (b.blobHash = h)

theorem deleteAccount_eval (a : String) (db : Db) : (deleteAccount a).eval db =
    match db.accounts.find a with
    | none => .ok (none, db)
    | some record => .ok (some ⟨record, db.syncRows.count fun r => decide (r.accountId = a),
        activeCredentialIds a db, deletedHashes a db,
        (db.uploadSessions.rows.filter fun s => decide (s.accountId = a)).map (·.uploadId)⟩,
          db.without a) := by
  unfold deleteAccount
  rw [Tx.eval_bind, Tx.eval_read]
  cases db.accounts.find a with
  | none => rfl
  | some record => rfl

theorem deletedHashes_free {a : String} {db : Db} {h : String} (hm : h ∈ deletedHashes a db) :
    ∀ b ∈ (db.without a).blobs.rows, b.blobHash ≠ h := by
  intro b hb e
  have := (List.mem_filter.1 hm).2
  rw [Bool.not_eq_true', List.any_eq_false] at this
  exact this b hb (by simpa using e)

/-- The deleted account has no row left. -/
theorem without_self (db : Db) (a : String) : (db.without a).tenant a = .empty := by
  have h : ∀ {ρ κ : Type} {key : ρ → κ} (t : Table key) (p : ρ → Bool),
      (t.keep fun r => !p r).keep p = .empty := by
    intro ρ κ key t p
    apply Table.ext'
    show (t.rows.filter _).filter _ = []
    rw [List.filter_filter, List.filter_eq_nil_iff]
    intro r _
    cases p r <;> simp
  have hp : ((db.without a).tenant a).uploadParts = .empty := by
    have hown : ∀ u, (db.without a).ownsUpload a u = false := by
      intro u
      have : (db.without a).ownsUpload a u =
          (db.dropSessions fun s => s.accountId = a).ownsUpload a u :=
        rfl
      rw [this, owns_dropSessions]
      unfold Db.ownsUpload
      cases db.uploadSessions.find u <;> simp
    apply Table.ext'
    show List.filter _ _ = []
    rw [List.filter_eq_nil_iff]
    intro r _
    rw [hown]; exact Bool.false_ne_true
  exact Db.ext (h _ _) (h _ _) (h _ _) (h _ _) (h _ _) (h _ _) (h _ _) hp (h _ _) (h _ _)

/-- Every other account keeps its rows. -/
theorem without_other {a b : String} (hab : a ≠ b) (db : Db) :
    (db.without a).tenant b = db.tenant b := by
  have h : ∀ {ρ κ : Type} {key : ρ → κ} (t : Table key) (f : ρ → String),
      (t.keep fun r => !decide (f r = a)).keep (fun r => decide (f r = b)) = t.keep fun r =>
        decide (f r = b) :=
    fun t f => Table.keep_keep_of fun r _ hr => by
      have : f r = b := by simpa using hr
      simp [this, Ne.symm hab]
  have hsessions : ∀ s ∈ db.uploadSessions.rows, s.accountId = b →
      decide (s.accountId = a) = false :=
    fun s _ hs => by simp [hs, Ne.symm hab]
  have hd := dropSessions_other hsessions
  have hp : ((db.without a).tenant b).uploadParts = (db.tenant b).uploadParts := by
    rw [← hd]; rfl
  exact Db.ext (h _ _) (h _ _) (h _ _) (h _ _) (h _ _) (h _ _) (h _ _) hp (h _ _) (h _ _)

end GlanceVault.L2
