import GlanceVault.L3Http.Administration
/-!
# What an administration leaves of a credential and of an account

A credential is spent when its row is stamped or gone; an account is vacant
when no table has a row of it.

* `administers_spent`, `handleAdmin_vacant`: an operator's request leaves a
  spent credential spent, and a vacant account vacant unless it creates or
  enrolls it.
* `revokeWhere_spends`, `issued_spends`, `without_spends`: what ends a
  credential.
* `reclaimSweep_vacant`, `reapUploadSessions_vacant`, `perform_vacant`: no
  sweep, and no call for another account, adds a row.
-/
namespace GlanceVault.L3
open GlanceVault.Core GlanceVault.L1 GlanceVault.L1.Js GlanceVault.L2

/-- No table has a row of the account. -/
def Vacant (a : String) (db : Db) : Prop := db.tenant a = .empty

def Server.credentials (s : Server) : Table Credential.credentialId := s.db.deviceCredentials

variable {cfg : Config} {host : Host} {env : Env} {v v' : Server} {route : AdminRoute}

/-! ## Credentials -/

section Spent
variable {id : String} {db : Db}

theorem spent_revokeWhere (h : Spent id db) (p : Credential → Bool) (now : String) :
    Spent id (db.revokeWhere p now) := by
  intro x hx hid
  obtain ⟨c, hc, rfl⟩ := mem_revokeWhere.1 hx
  by_cases hp : (p c && c.active) = true
  · rw [if_pos hp]; rfl
  · rw [if_neg hp] at hid ⊢
    exact h c hc hid

theorem spent_putCredential (h : Spent id db) {c : Credential} (hc : c.credentialId ≠ id) :
    Spent id (db.putCredential c) := by
  intro x hx hid
  rcases Table.mem_upsert.1 hx with rfl | hx
  · exact absurd hid hc
  · exact h x hx.1 hid

/-- **An operator's request leaves a spent credential spent**, if its fresh id is another. -/
theorem administers_spent (hadm : Administers cfg host env v route v') (hid : env.uuid ≠ id)
    (h : Spent id v.db) :
    Spent id v'.db := by
  cases hadm with
  | declined => exact h
  | enroll => exact spent_putCredential (spent_revokeWhere h _ _) hid
  | revoke => exact spent_revokeWhere h _ _
  | revokeAgain => exact spent_revokeWhere h _ _
  | createAccount body step credentials =>
    unfold Spent
    rw [credentials]
    exact h
  | @rotateKey a body =>
    have hrekey : Spent id (v.db.rekey a (drawnKeyHash host env) (env.clock 0)) := h
    unfold rotated
    split
    · exact spent_revokeWhere hrekey _ _
    · exact hrekey
  | deleteAccount body store =>
    rw [store]
    exact fun c hc => h c (Table.mem_keep.1 hc).1

end Spent

/-! ## What ends a credential -/

theorem spent_of_inactive {db : Db} {c : Credential} (hc : c ∈ db.deviceCredentials.rows)
    (ha : c.active = false) :
    Spent c.credentialId db := by
  intro x hx e
  rw [Table.eq_of_mem hx hc e]
  exact ha

theorem revokeWhere_spends {db : Db} {p : Credential → Bool} {now : String} {c : Credential}
    (hc : c ∈ (db.revokeWhere p now).deviceCredentials.rows) (hp : p c = true) :
    c.active = false := by
  obtain ⟨x, hx, rfl⟩ := mem_revokeWhere.1 hc
  by_cases ha : (p x && x.active) = true
  · rw [if_pos ha]; rfl
  · rw [if_neg ha] at hp ⊢
    simpa [hp] using ha

/-- An enrollment leaves its device no active credential but the new one. -/
theorem issued_spends {db : Db} {a d : String} {c : Credential}
    (hc : c ∈ (issued host env db a d).deviceCredentials.rows)
    (hof : ofDevice a d c = true) (hne : c.credentialId ≠ env.uuid) : c.active = false := by
  rcases Table.mem_upsert.1 hc with rfl | ⟨hc, -⟩
  · exact absurd rfl hne
  · exact revokeWhere_spends hc hof

/-- A rotation that signs out the devices leaves the account no active credential. -/
theorem rotated_spends {db : Db} {a : String} {c : Credential}
    (hc : c ∈ (rotated host env db a true).deviceCredentials.rows)
    (ha : c.accountId = a) : c.active = false := by
  have hc :
      c ∈ ((db.rekey a (drawnKeyHash host env) (env.clock 0)).revokeWhere (fun c => c.accountId = a)
    (env.clock 0)).deviceCredentials.rows := hc
  exact revokeWhere_spends hc (by simpa using ha)

theorem without_spends {db : Db} {a : String} {c : Credential} (hc : c ∈ db.deviceCredentials.rows)
    (ha : c.accountId = a) :
    Spent c.credentialId (db.without a) := by
  intro x hx e
  obtain ⟨hx, hxa⟩ := Table.mem_keep.1 hx
  rw [Table.eq_of_mem hx hc e] at hxa
  simp [ha] at hxa

/-! ## Vacant accounts -/

section Vacant
variable {a : String} {db db' : Db}

/-- A database whose registry has no row of the account, and whose other tables are as before. -/
theorem vacant_registry (h : Vacant a db) (ho : db'.outsideRegistry = db.outsideRegistry)
    (hc : ∀ c ∈ db'.deviceCredentials.rows, c.accountId ≠ a)
    (hr : ∀ r ∈ db'.accounts.rows, r.accountId ≠ a) :
    Vacant a db' := by
  have hcred : (db'.tenant a).deviceCredentials = .empty :=
    Table.ext' (List.filter_eq_nil_iff.2 fun c hm => by simpa using hc c hm)
  have hacc : (db'.tenant a).accounts = .empty :=
    Table.ext' (List.filter_eq_nil_iff.2 fun r hm => by simpa using hr r hm)
  have hsame : (db'.tenant a).outsideRegistry = (db.tenant a).outsideRegistry :=
    congrArg (Db.tenant a) ho
  rw [h] at hsame
  have hfield : ∀ {γ : Type} (f : Db → γ), f (db'.tenant a).outsideRegistry =
      f Db.empty.outsideRegistry :=
    fun f => congrArg f hsame
  exact Db.ext (hfield Db.syncRows) (hfield Db.intentEvents) (hfield Db.devices)
    (hfield Db.accountSeq)
    (hfield Db.accountSalts) (hfield Db.blobs) (hfield Db.uploadSessions)
      (hfield Db.uploadParts) hcred hacc

theorem vacant_credentials (h : Vacant a db) :
    ∀ c ∈ db.deviceCredentials.rows, c.accountId ≠ a := by
  intro c hc e
  have hm : c ∈ (db.tenant a).deviceCredentials.rows := Table.mem_keep.2 ⟨hc, by simpa using e⟩
  rw [h] at hm
  cases hm

theorem vacant_accounts (h : Vacant a db) : ∀ r ∈ db.accounts.rows, r.accountId ≠ a := by
  intro r hr e
  have hm : r ∈ (db.tenant a).accounts.rows := Table.mem_keep.2 ⟨hr, by simpa using e⟩
  rw [h] at hm
  cases hm

theorem vacant_revokeWhere (h : Vacant a db) (p : Credential → Bool) (now : String) :
    Vacant a (db.revokeWhere p now) := by
  refine vacant_registry h rfl (fun c hc => ?_) fun r hr => vacant_accounts h r hr
  obtain ⟨x, hx, rfl⟩ := mem_revokeWhere.1 hc
  have := vacant_credentials h x hx
  split <;> exact this

theorem vacant_without (h : Vacant a db) (b : String) : Vacant a (db.without b) := by
  by_cases hab : b = a
  · subst hab; exact without_self db b
  · exact (without_other hab db).trans h

theorem vacant_rekey (h : Vacant a db) (b keyHash now : String) :
    Vacant a (db.rekey b keyHash now) := by
  refine vacant_registry h rfl (fun c hc => vacant_credentials h c hc) fun r hr => ?_
  obtain ⟨x, hx, rfl⟩ := List.mem_map.1 hr
  have := vacant_accounts h x hx
  split <;> exact this

theorem vacant_issued (h : Vacant a db) {b : String} (hb : b ≠ a) (d : String) :
    Vacant a (issued host env db b d) := by
  have hv := vacant_revokeWhere h (ofDevice b d) (env.clock 0)
  refine vacant_registry hv rfl (fun x hx => ?_) fun r hr => vacant_accounts h r hr
  rcases Table.mem_upsert.1 hx with rfl | hx
  · exact hb
  · exact vacant_credentials hv x hx.1

theorem vacant_rotated (h : Vacant a db) (b : String) (signOut : Bool) :
    Vacant a (rotated host env db b signOut) := by
  unfold rotated
  split
  · exact vacant_revokeWhere (vacant_rekey h _ _ _) _ _
  · exact vacant_rekey h _ _ _

/-- **An operator's request leaves a vacant account vacant, or founds it.** -/
theorem handleAdmin_vacant (header : Option String) (h : Vacant a v.db) :
    Vacant a (handleAdmin cfg host env header route v).state.db ∨
      ∃ r, (handleAdmin cfg host env header route v).result = .ok r ∧ r.founds a = true := by
  rcases handleAdmin_cases cfg host env v header route with ⟨e, -, -⟩ | e
  · rw [e]
    exact .inl h
  rw [e]
  cases route with
  | enroll body =>
    rcases enroll_cases cfg host env v body with hd | ⟨b, d, -, -, hs, r, hr, hfounds, -⟩
    · rw [AdminRoute.perform, hd.2]
      exact .inl h
    · by_cases hb : b = a
      · exact .inr ⟨r, hr, hb ▸ hfounds⟩
      · rw [AdminRoute.perform, hs]
        exact .inl (vacant_issued h hb d)
  | revoke id =>
    left
    rcases revokeCredential_cases env v id with hs | ⟨-, hs⟩
    · rw [AdminRoute.perform, hs]
      exact vacant_revokeWhere h _ _
    · rw [AdminRoute.perform, hs]
      exact vacant_revokeWhere h _ _
  | createAccount body =>
    rcases createAccountRoute_cases cfg host env v body with hs | ⟨r, -, -, -, hs, x, hx, hfounds⟩
    · rw [AdminRoute.perform, hs]
      exact .inl h
    · by_cases hb : r.accountId = a
      · exact .inr ⟨x, hx, hb ▸ hfounds⟩
      · rw [AdminRoute.perform, hs]
        refine .inl (vacant_registry h rfl (fun c hc => vacant_credentials h c hc) fun y hy => ?_)
        rcases Table.mem_upsert.1 hy with rfl | hy
        · exact hb
        · exact vacant_accounts h y hy.1
  | rotateKey b body =>
    left
    rcases rotateKeyRoute_cases host env v b body with hd | ⟨-, -, hs, -⟩
    · rw [AdminRoute.perform, hd.2]
      exact h
    · rw [AdminRoute.perform, hs]
      exact vacant_rotated h b _
  | deleteAccount b body =>
    left
    rcases deleteAccountRoute_cases v b body with hd | ⟨-, hs, -⟩
    · rw [AdminRoute.perform, hd.2]
      exact h
    · rw [AdminRoute.perform, hs]
      exact vacant_without h b

/-! ## Sweeps and calls -/

theorem reclaimSweep_vacant {P : Server → Prop} (policy : ReclaimPolicy) (nowMs : Int) :
    Prog.Follows Server.db (fun d d' => Vacant a d →
      Vacant a d') P (reclaimSweep policy nowMs) fun _ _ => True := by
  unfold reclaimSweep
  refine .ite (fun _ => ?_) fun _ => .pure fun _ _ => trivial
  refine Prog.Follows.bind (Q := fun _ _ => True) (.ofExcept fun _ _ _ _ => trivial) fun grace => ?_
  refine Prog.Follows.bind (Q := fun _ _ => True) (.ofExcept fun _ _ _ _ => trivial) fun dead =>
    .bind (.fetch _) fun E => ?_
  refine Prog.Follows.bind (Q := fun _ _ => True)
    (.each (I := fun _ _ => True) fun done b rest _ => ?_) fun _ => .pure fun _ _ => trivial
  refine .bind (deleteBytes_frame (fun _ _ => rfl) _).followsAny fun _ => ?_
  refine Prog.Follows.bind (Q := fun _ _ => True)
    (exec_follows fun s o db _ e => ⟨.inr fun h => ?_, trivial⟩) fun _ => .pure fun _ _ => trivial
  unfold deleteBlob at e
  rw [Tx.eval_write] at e
  cases e
  have hblobs : (s.db.blobs.keep fun x => !decide (x.key = (b.accountId, b.blobHash))).keep
      (fun x => decide (x.accountId = a)) = .empty := by
    rw [Table.keep_comm]
    exact congrArg (fun t : Table Blob.key => t.keep _) (congrArg Db.blobs h)
  have hfield : ∀ {γ : Type} (f : Db → γ), f (s.db.tenant a) = f .empty := fun f => congrArg f h
  exact Db.ext (hfield Db.syncRows) (hfield Db.intentEvents) (hfield Db.devices)
    (hfield Db.accountSeq)
    (hfield Db.accountSalts) hblobs (hfield Db.uploadSessions) (hfield Db.uploadParts)
      (hfield Db.deviceCredentials)
    (hfield Db.accounts)

theorem reapUploadSessions_vacant {P : Server → Prop} (ttlMs nowMs : Int) :
    Prog.Follows Server.db (fun d d' => Vacant a d →
      Vacant a d') P (reapUploadSessions ttlMs nowMs) fun _ _ => True := by
  unfold reapUploadSessions
  refine Prog.Follows.bind (Q := fun _ _ => True) (.ofExcept fun _ _ _ _ => trivial) fun cutoff =>
    .bind (.fetch _) fun stale => ?_
  refine Prog.Follows.bind (Q := fun _ _ => True)
    (.each (I := fun _ _ => True) fun done t rest _ => ?_) fun _ => .pure fun _ _ => trivial
  refine .bind (discardSession_frame (fun _ _ => rfl) _).followsAny fun _ => ?_
  refine exec_follows fun s o db _ e => ⟨.inr fun h => ?_, trivial⟩
  unfold deleteUploadSession at e
  rw [Tx.eval_write] at e
  cases e
  show (s.db.dropSessions _).tenant a = .empty
  rw [dropSessions_tenant, h]
  rfl

/-- A call for another account. -/
theorem perform_vacant {b : String} (hab : b ≠ a) (cfg : Config) (host : Host)
    (credential : Option Credential) (env : Env) (call : Call) :
    Prog.Lands (fun s => s.db.Attached ∧ Vacant a s.db) (perform cfg host credential env b call)
      (fun _ s => Vacant a s.db)
      fun s => Vacant a s.db := by
  refine ((perform_other hab cfg host credential env call).lands
    (I := fun v : View => v.rows = .empty)
    fun x y e _ => e.elim).conseq (fun s hs => ⟨hs.2, hs.1⟩) fun _ _ hs => hs.1

end Vacant

end GlanceVault.L3
