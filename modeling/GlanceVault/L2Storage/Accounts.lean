import GlanceVault.L2Storage.Parts
/-!
# The registry of accounts

An account is created with a key, rekeyed or deleted; nothing else touches
the registry. `AccountStep` says once what an operation of the store that
mints a key hash does to it.

* `account_step`: every store operation takes such a step.
* `keysUnique_step`: no two accounts ever share a key hash.
* `holder_step`: no step binds a hash it does not mint.
* `capped_step`: creations stop at the cap.
-/
namespace GlanceVault.L2
open GlanceVault.Core GlanceVault.L1

/-- What an operation that mints the key hash `hash` does to the accounts. -/
inductive AccountStep (cap : Option Nat) (hash : String) (db : Db) : Table Account.accountId → Prop
  | same : AccountStep cap hash db db.accounts
  | create (r : Account) (hr : r.keyHash = hash)
      (new : ∀ x ∈ db.accounts.rows, x.keyHash ≠ hash ∧ x.accountId ≠ r.accountId)
      (room : ∀ m, cap = some m → db.accounts.rows.length < m) :
        AccountStep cap hash db (db.accounts.upsert r)
  | rekey (a now : String) (free : ∀ x ∈ db.accounts.rows, x.keyHash = hash → x.accountId = a) :
      AccountStep cap hash db (db.rekey a hash now).accounts
  | remove (a : String) : AccountStep cap hash db (db.without a).accounts

theorem createAccount_accounts (a : String) (label : Option String) (keyHash : String)
    (cap : Option Nat) (now : String) :
    (createAccount a label keyHash cap now).Moves fun db db' =>
      AccountStep cap keyHash db db'.accounts := by
  intro db res db' e
  rcases createAccount_eval e with ⟨_, _, rfl⟩ | ⟨-, hnew, hroom, rfl⟩
  · exact .same
  · exact .create _ rfl hnew hroom

theorem rotateAccountKey_accounts (cap : Option Nat) (a keyHash : String) (revokeDevices : Bool)
    (now : String) :
    (rotateAccountKey a keyHash revokeDevices now).Moves fun db db' =>
      AccountStep cap keyHash db db'.accounts := by
  intro db res db' e
  rcases rotateAccountKey_cases e with ⟨-, rfl, -⟩ | ⟨r, -, -, -, huniq, -, rfl⟩
  · exact .same
  · cases revokeDevices <;> exact .rekey a now huniq

theorem deleteAccount_accounts (cap : Option Nat) (hash a : String) :
    (deleteAccount a).Moves fun db db' => AccountStep cap hash db db'.accounts := by
  intro db res db' e
  rw [deleteAccount_eval] at e
  split at e <;> cases e
  · exact .same
  · exact .remove a

theorem issueCredential_accounts (id a d hash now : String) :
    (issueCredential id a d hash now).Keeps Db.accounts := by
  intro db r db' e
  obtain ⟨-, -, rfl⟩ := issueCredential_eval e
  rfl

/-- **Every operation of the store takes an `AccountStep`.** -/
theorem account_step (o : StoreOp) :
    o.tx.Moves fun db db' => ∃ cap hash, AccountStep cap hash db db'.accounts := by
  have hkeep : ∀ {m : DbTx Unit}, m.Keeps Db.accounts →
      m.Moves fun db db' => ∃ cap hash, AccountStep cap hash db db'.accounts := by
    intro m h db r db' e
    refine ⟨none, "", ?_⟩
    rw [h db r db' e]
    exact .same
  cases o with
  | createAccount a label keyHash cap now =>
    intro db r db' e
    obtain ⟨res, e⟩ := Tx.eval_void_ok _ e
    exact ⟨cap, keyHash, createAccount_accounts a label keyHash cap now db res db' e⟩
  | rotateAccountKey a keyHash revokeDevices now =>
    intro db r db' e
    obtain ⟨res, e⟩ := Tx.eval_void_ok _ e
    exact ⟨none, keyHash, rotateAccountKey_accounts none a keyHash revokeDevices now db res db' e⟩
  | deleteAccount a =>
    intro db r db' e
    obtain ⟨res, e⟩ := Tx.eval_void_ok _ e
    exact ⟨none, "", deleteAccount_accounts none "" a db res db' e⟩
  | issueCredential id a d hash now =>
    refine hkeep fun db r db' e => ?_
    obtain ⟨res, e⟩ := Tx.eval_void_ok _ e
    exact issueCredential_accounts id a d hash now db res db' e
  | revokeCredential id now =>
    refine hkeep fun db r db' e => ?_
    obtain ⟨res, e⟩ := Tx.eval_void_ok _ e
    unfold stampRevoked at e
    rw [Tx.eval_write] at e
    cases e
    rfl
  | _ => exact hkeep (StoreOp.keeps _ fun _ => rfl)

/-! ## What every step preserves -/

section Steps
variable {cap : Option Nat} {hash : String} {db : Db} {t : Table Account.accountId}

/-- No two accounts share a key hash. -/
def KeysUnique (t : Table Account.accountId) : Prop :=
  ∀ x ∈ t.rows, ∀ y ∈ t.rows, x.keyHash = y.keyHash → x = y

/-- A rekeyed row is the account's, with the new hash, or an old row of another. -/
theorem mem_rekey {a keyHash now : String} {r : Account}
    (h : r ∈ (db.rekey a keyHash now).accounts.rows) :
    (r.accountId = a ∧ r.keyHash = keyHash) ∨ (r ∈ db.accounts.rows ∧ r.accountId ≠ a) := by
  obtain ⟨x, hx, rfl⟩ := List.mem_map.1 h
  by_cases ha : x.accountId = a
  · rw [if_pos (by simpa using ha)]
    exact .inl ⟨ha, rfl⟩
  · rw [if_neg (by simpa using ha)]
    exact .inr ⟨hx, ha⟩

theorem keysUnique_step (h : KeysUnique db.accounts) (hs : AccountStep cap hash db t) :
    KeysUnique t := by
  cases hs with
  | same => exact h
  | create r hr new room =>
    intro x hx y hy e
    rcases Table.mem_upsert.1 hx with hxr | ⟨hx', -⟩
    · rcases Table.mem_upsert.1 hy with hyr | ⟨hy', -⟩
      · rw [hxr, hyr]
      · exact absurd (e.symm.trans (hxr ▸ hr)) (new y hy').1
    · rcases Table.mem_upsert.1 hy with hyr | ⟨hy', -⟩
      · exact absurd (e.trans (hyr ▸ hr)) (new x hx').1
      · exact h x hx' y hy' e
  | rekey a now free =>
    intro x hx y hy e
    rcases mem_rekey hx with ⟨hxa, hxk⟩ | ⟨hx', hxa⟩
    · rcases mem_rekey hy with ⟨hya, -⟩ | ⟨hy', hya⟩
      · exact Table.eq_of_mem hx hy (hxa.trans hya.symm)
      · exact absurd (free y hy' (e.symm.trans hxk)) hya
    · rcases mem_rekey hy with ⟨-, hyk⟩ | ⟨hy', -⟩
      · exact absurd (free x hx' (e.trans hyk)) hxa
      · exact h x hx' y hy' e
  | remove a => exact fun x hx y hy => h x (Table.mem_keep.1 hx).1 y (Table.mem_keep.1 hy).1

/-- Who holds another hash than the minted one held it before. -/
theorem holder_step {r : Account} (hs : AccountStep cap hash db t) (hr : r ∈ t.rows)
    (hne : r.keyHash ≠ hash) :
    r ∈ db.accounts.rows := by
  cases hs with
  | same => exact hr
  | create x hx new room =>
    rcases Table.mem_upsert.1 hr with rfl | ⟨hr, -⟩
    · exact absurd hx hne
    · exact hr
  | rekey a now free =>
    rcases mem_rekey hr with ⟨-, hk⟩ | ⟨hr, -⟩
    · exact absurd hk hne
    · exact hr
  | remove a => exact (Table.mem_keep.1 hr).1

theorem capped_step {m : Nat} (h : db.accounts.rows.length ≤ m)
    (hs : AccountStep (some m) hash db t) :
    t.rows.length ≤ m := by
  cases hs with
  | same => exact h
  | create r hr new room =>
    have hfresh : db.accounts.has r.accountId = false :=
      Table.has_eq_false.2 (Table.find_none.2 fun x hx => (new x hx).2)
    rw [Table.rows_upsert, hfresh, if_neg Bool.false_ne_true, List.length_append,
      List.length_singleton]
    have := room m rfl
    omega
  | rekey a now free =>
    have hlen : (db.rekey a hash now).accounts.rows.length = db.accounts.rows.length :=
      List.length_map _
    omega
  | remove a => exact Nat.le_trans (List.length_filter_le _ _) h

end Steps

end GlanceVault.L2
