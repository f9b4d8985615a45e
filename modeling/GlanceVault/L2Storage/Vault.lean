import GlanceVault.L2Storage.Retry
import GlanceVault.L2Storage.Registry
/-!
# An account as a vault

What the server is for, without tables, numbers and statements: an account has
entrusted to it the contents of its entities, its pending events, a salt and the
cursors of its devices. `Vault.apply` is what a request may do to them.

* `vaultOf`: the vault the tables hold.
* `put_applies`, `remove_applies`, `send_applies`, `setSalt_applies`,
  `report_applies`, `erase_applies`: a transaction does what its deed says.
-/
namespace GlanceVault.L2
open GlanceVault.Core GlanceVault.L1 GlanceVault.L1.Js

/-! ## Vaults -/

/-- `entities`: by app and id; `events`: the envelope and the expiry, by id;
`salt`: with the time it was set; `cursors`: by device. -/
@[ext] structure Vault where
  entities : String → String → Option Content
  events : String → Option (Bytes × String)
  salt : Option (String × String)
  cursors : String → Option Nat

/-- What a request does to the vault of its account. -/
inductive Deed
  | put (app : String) (rows : List SyncRowInput)
  | remove (app entityId : String) (deletedAt : Option Nat)
  | send (events : List IntentEventInput) (clock : Nat → String)
  | setSalt (salt now : String)
  | report (deviceId : String) (seq : Nat)
  | erase

namespace Vault

def empty : Vault := ⟨fun _ _ => none, fun _ => none, none, fun _ => none⟩

/-- An entity is filled, replaced, or left, as the row asks. -/
def putRow (app : String) (v : Vault) (row : SyncRowInput) : Vault :=
  { v with entities := fun p e =>
      if p = app ∧ e = row.entityId then row.guarded.step Content.kind (v.entities p e)
      else v.entities p e }

/-- An entity that is there becomes a tombstone, and stays the one it is. -/
def remove (v : Vault) (app entityId : String) (deletedAt : Option Nat) : Vault :=
  { v with entities := fun p e =>
      if p = app ∧ e = entityId then
        (v.entities p e).map fun c =>
          if c.deleted then c else ⟨c.envelope, true, deletedAt.map fun n => (n : Rat)⟩
      else v.entities p e }

/-- An event that is not there is kept, with how many have been. -/
def sendEvent (p : Vault × Nat) (ev : IntentEventInput) : Vault × Nat :=
  if (p.1.events ev.eventId).isSome then p
  else
    ({ p.1 with
        events := fun e =>
          if e = ev.eventId then some (ev.envelope, ev.expiresAt) else p.1.events e }, p.2 + 1)

/-- Events that have expired at `now` are dropped. -/
def prune (v : Vault) (now : String) : Vault :=
  { v with events := fun e => (v.events e).filter fun x => decide (now < x.2) }

def send (v : Vault) (events : List IntentEventInput) (clock : Nat → String) : Vault :=
  let (w, n) := events.foldl sendEvent (v, 0)
  w.prune (clock n)

def apply (v : Vault) : Deed → Vault
  | .put app rows => rows.foldl (putRow app) v
  | .remove app entityId deletedAt => v.remove app entityId deletedAt
  | .send events clock => v.send events clock
  | .setSalt salt now => { v with salt := v.salt.or (some (salt, now)) }
  | .report deviceId seq =>
    { v with
      cursors := fun d =>
        if d = deviceId then some (max ((v.cursors d).getD seq) seq) else v.cursors d }
  | .erase => empty

end Vault

/-- The vault of an account, as the tables hold it. -/
def vaultOf (a : String) (db : Db) : Vault where
  entities app e := db.contentAt (a, app, e)
  events e := (db.intentEvents.find (a, e)).map fun r => (r.envelope, r.expiresAt)
  salt := (db.accountSalts.find a).map fun r => (r.salt, r.createdAt)
  cursors d := (db.devices.find (a, d)).map (·.lastSeenSeq)

section Deeds
variable {a b : String} {db db' : Db}

theorem vaultOf_tenant (a : String) (db : Db) : vaultOf a (db.tenant a) = vaultOf a db := by
  unfold vaultOf Db.contentAt
  simp only [tenant_syncRow, tenant_intentEvent, tenant_salt, tenant_device]

theorem vaultOf_rows (h : db'.tenant a = db.tenant a) : vaultOf a db' = vaultOf a db := by
  rw [← vaultOf_tenant, h, vaultOf_tenant]

/-! ### Rows -/

theorem put_entities (app : String) (p e : String) : ∀ (rows : List SyncRowInput) (v : Vault),
    (rows.foldl (Vault.putRow app) v).entities p e =
      if p = app then (writesTo e rows).foldl (Guarded.step Content.kind) (v.entities p e)
      else v.entities p e
  | [], v => by simp [writesTo]
  | row :: rows, v => by
    rw [List.foldl_cons, put_entities app p e rows, writesTo_cons, List.foldl_append]
    by_cases hp : p = app
    · rw [if_pos hp, if_pos hp]
      congr 1
      unfold Vault.putRow writesTo
      by_cases he : row.entityId = e
      · simp [hp, he]
      · have hne : ¬ e = row.entityId := fun h => he h.symm
        simp [he, hne]
    · rw [if_neg hp, if_neg hp]
      unfold Vault.putRow
      simp [hp]

theorem putRows_others (app : String) : ∀ (rows : List SyncRowInput) (v : Vault),
    (rows.foldl (Vault.putRow app) v).events = v.events ∧
    (rows.foldl (Vault.putRow app) v).salt = v.salt ∧
      (rows.foldl (Vault.putRow app) v).cursors = v.cursors
  | [], _ => ⟨rfl, rfl, rfl⟩
  | row :: rows, v => putRows_others app rows (Vault.putRow app v row)

theorem put_applies {app : String} {rows : List SyncRowInput} {now : Nat → String}
    {res : BatchResult} (h : (batchUpsert app a rows now).eval db = .ok (res, db')) :
    vaultOf a db' = (vaultOf a db).apply (.put app rows) := by
  obtain ⟨r, hbatch⟩ := batch_evals app a rows now db
  rw [h] at hbatch
  cases hbatch
  have hout := batchUpsert_frame app a rows now db res _ h
  obtain ⟨h1, h2, h3⟩ := putRows_others app rows (vaultOf a db)
  have hdb : ∀ {γ : Type} (π : Db → γ), (∀ d : Db, π d.outsideSync = π d) →
      π (db.batch app a rows now) = π db := fun π hπ => by rw [← hπ, hout, hπ]
  ext1
  · funext p e
    show (db.batch app a rows now).contentAt (a, p, e) =
      (rows.foldl (Vault.putRow app) (vaultOf a db)).entities p e
    rw [put_entities]
    by_cases hp : p = app
    · rw [if_pos hp, hp]
      exact batch_content rows now e db
    · rw [if_neg hp]
      unfold Db.contentAt
      rw [batch_others fun row _ hk => hp (congrArg (fun k : String × String × String => k.2.1) hk)]
      rfl
  · funext e
    show _ = (rows.foldl (Vault.putRow app) (vaultOf a db)).events e
    rw [h1]
    exact congrArg (fun t => (Table.find t (a, e)).map fun r => (r.envelope, r.expiresAt))
      (hdb Db.intentEvents fun _ => rfl)
  · show _ = (rows.foldl (Vault.putRow app) (vaultOf a db)).salt
    rw [h2]
    exact congrArg (fun t => (Table.find t a).map fun r => (r.salt, r.createdAt))
      (hdb Db.accountSalts fun _ => rfl)
  · funext d
    show _ = (rows.foldl (Vault.putRow app) (vaultOf a db)).cursors d
    rw [h3]
    exact congrArg (fun t => (Table.find t (a, d)).map Device.lastSeenSeq)
      (hdb Db.devices fun _ => rfl)

theorem remove_applies {app e : String} {deletedAt : Option Nat} {now : String}
    {o : Option SoftDeleteResult}
    (h : (softDeleteRow app a e (deletedAt.map .ofNat) now).eval db = .ok (o, db')) :
    vaultOf a db' = (vaultOf a db).apply (.remove app e deletedAt) := by
  have hout := softDeleteRow_frame app a e (deletedAt.map .ofNat) now db o db' h
  have hdb : ∀ {γ : Type} (π : Db → γ), (∀ d : Db, π d.outsideSync = π d) → π db' = π db :=
    fun π hπ => by rw [← hπ, hout, hπ]
  have hentities : ∀ p x, db'.contentAt (a, p, x) = if p = app ∧ x = e then
      (db.contentAt (a, p, x)).map fun c =>
        if c.deleted then c else ⟨c.envelope, true, deletedAt.map fun n => (n : Rat)⟩
      else db.contentAt (a, p, x) := by
    intro p x
    rw [softDeleteRow_eval] at h
    cases hf : db.syncRows.find (a, app, e) with
    | none =>
      rw [hf] at h
      cases h
      split
      · rename_i hpx
        unfold Db.contentAt
        rw [hpx.1, hpx.2, hf]
        rfl
      · rfl
    | some r =>
      rw [hf] at h
      by_cases hd : r.deleted = true
      · simp only [hd, if_true] at h
        cases h
        split
        · rename_i hpx
          unfold Db.contentAt
          rw [hpx.1, hpx.2, hf]
          simp [SyncRow.content, hd]
        · rfl
      · simp only [hd] at h
        cases h
        have hr : r.accountId = a := congrArg Prod.fst (Table.find_key hf)
        have hkey :
            (r.tombstoned (latestSeq db r.accountId + 1) now (deletedAt.map .ofNat)).key =
              (a, app, e) :=
          (Table.find_key hf : r.key = _)
        unfold Db.contentAt Db.tombstoneRow Db.putSyncRow
        dsimp only
        rw [Table.find_upsert, hkey]
        by_cases hpx : p = app ∧ x = e
        · rw [if_pos hpx, hpx.1, hpx.2, if_pos rfl, hf]
          cases deletedAt <;> simp [SyncRow.content, SyncRow.tombstoned, hd,
            JsNumber.ofNat, JsNumber.finite?]
        · rw [if_neg hpx, if_neg fun hk => hpx ?_]
          · rfl
          · simp only [Prod.mk.injEq] at hk
            exact ⟨hk.2.1.symm, hk.2.2.symm⟩
  ext1
  · funext p x
    exact hentities p x
  · funext x
    exact congrArg (fun t => (Table.find t (a, x)).map fun r => (r.envelope, r.expiresAt))
      (hdb Db.intentEvents fun _ => rfl)
  · exact congrArg (fun t => (Table.find t a).map fun r => (r.salt, r.createdAt))
      (hdb Db.accountSalts fun _ => rfl)
  · funext d
    exact congrArg (fun t => (Table.find t (a, d)).map Device.lastSeenSeq)
      (hdb Db.devices fun _ => rfl)

/-! ### Events -/

theorem sendEvent_applies {ev : IntentEventInput} {now : String} {o : Option Nat} {n : Nat}
    (h : (insertIntent a ev now).eval db = .ok (o, db')) :
    (vaultOf a db', n + o.toList.length) = Vault.sendEvent (vaultOf a db, n) ev := by
  rw [insertIntent_eval] at h
  unfold Vault.sendEvent
  have hheld : ((vaultOf a db).events ev.eventId).isSome = db.intentEvents.has (a, ev.eventId) := by
    unfold vaultOf Table.has
    rw [Option.isSome_map]
  rw [hheld]
  cases hin : db.intentEvents.has (a, ev.eventId) with
  | true =>
    rw [hin] at h
    cases h
    rfl
  | false =>
    rw [hin] at h
    cases h
    simp only [Bool.false_eq_true, if_false, Option.toList_some, List.length_singleton]
    congr 1
    unfold vaultOf
    congr 1
    funext e
    unfold Db.writeIntent Db.putIntent
    dsimp only
    rw [Table.find_upsert]
    by_cases he : e = ev.eventId
    · rw [if_pos he, he]
      show Option.map _ (if (a, ev.eventId) = (a, ev.eventId) then _ else _) = _
      rw [if_pos rfl]
      rfl
    · rw [if_neg he, if_neg fun hk => he (congrArg Prod.snd hk).symm]
      rfl

theorem intentLoop_applies {now : Nat → String} :
    ∀ {evs : List IntentEventInput} {acc res : BatchResult} {db db' : Db},
    (intentLoop a now evs acc).eval db = .ok (res, db') →
      (vaultOf a db', res.written) = evs.foldl Vault.sendEvent (vaultOf a db, acc.written)
  | [], acc, res, db, db', h => by
    cases h
    rfl
  | ev :: evs, acc, res, db, db', h => by
    rw [intentLoop] at h
    obtain ⟨o, x, h1, h2⟩ := Tx.eval_bind_ok h
    rw [List.foldl_cons, ← sendEvent_applies h1]
    cases o with
    | none => exact intentLoop_applies h2
    | some seq => exact intentLoop_applies h2

theorem prune_applies (a now : String) (db : Db) :
    vaultOf a (db.pruneIntents a now) = (vaultOf a db).prune now := by
  unfold vaultOf Vault.prune Db.pruneIntents Db.contentAt
  congr 1
  funext e
  dsimp only
  rw [Table.find_keep]
  cases hf : db.intentEvents.find (a, e) with
  | none => rfl
  | some r =>
    have ha : r.accountId = a := congrArg Prod.fst (Table.find_key hf)
    by_cases hn : now < r.expiresAt <;> simp [Option.filter, ha, hn]

theorem send_applies {evs : List IntentEventInput} {now : Nat → String} {res : BatchResult}
    (h : (insertIntents a evs now).eval db = .ok (res, db')) :
    vaultOf a db' = (vaultOf a db).apply (.send evs now) := by
  obtain ⟨acc, d, hloop, hall⟩ := insertIntents_eval a evs now db
  rw [hall] at h
  cases h
  rw [prune_applies]
  show _ = Vault.send _ evs now
  unfold Vault.send
  rw [← intentLoop_applies hloop]

/-! ### Salt, cursors, the whole account -/

theorem setSalt_applies {salt now : String} {res : SaltResult}
    (h : (putSaltIfAbsent a salt now).eval db = .ok (res, db')) :
    vaultOf a db' = (vaultOf a db).apply (.setSalt salt now) ∧
      res.record.map (fun r => (r.salt, r.createdAt)) = (vaultOf a db').salt := by
  rw [putSaltIfAbsent_eval] at h
  cases hf : db.accountSalts.find a with
  | some r =>
    rw [hf] at h
    cases h
    refine ⟨?_, by unfold vaultOf; rw [hf]⟩
    unfold Vault.apply vaultOf
    simp [hf]
  | none =>
    rw [hf] at h
    cases h
    have hself : (db.accountSalts.upsert ⟨a, salt, now⟩).find a = some ⟨a, salt, now⟩ :=
      Table.find_upsert_self db.accountSalts ⟨a, salt, now⟩
    refine ⟨?_, by unfold vaultOf; dsimp only; rw [hself]⟩
    unfold Vault.apply vaultOf Db.contentAt
    simp [hf, hself]

theorem report_applies {d now : String} {n : Nat} {u : Unit}
    (h : (updateDeviceCursor a d n now).eval db = .ok (u, db')) :
    vaultOf a db' = (vaultOf a db).apply (.report d n) := by
  unfold updateDeviceCursor at h
  rw [Tx.eval_write] at h
  cases h
  unfold Vault.apply vaultOf Db.contentAt
  congr 1
  funext x
  dsimp only
  rw [Table.find_upsert]
  by_cases hx : x = d
  · rw [if_pos hx, hx]
    show Option.map _ (if (a, d) = (a, d) then _ else _) = _
    rw [if_pos rfl]
    cases db.devices.find (a, d) with
    | none => simp
    | some r => rfl
  · rw [if_neg hx, if_neg fun hk => hx (congrArg Prod.snd hk).symm]

theorem erase_applies (a : String) (db : Db) : vaultOf a (db.without a) = .empty := by
  have hnone : ∀ {ρ κ : Type} [DecidableEq κ] {key : ρ → κ}
      (t : Table key) (owner : ρ → String) (k : κ),
      (∀ r, key r = k → owner r = a) → (t.keep fun r => !decide (owner r = a)).find k = none := by
    intro ρ κ _ key t owner k hk
    rw [Table.find_keep]
    cases hf : t.find k with
    | none => rfl
    | some r => simp [Option.filter, hk r (Table.find_key hf)]
  unfold vaultOf Vault.empty Db.contentAt Db.without
  dsimp only
  congr 1
  · funext p e
    rw [hnone db.syncRows SyncRow.accountId (a, p, e) fun r hk => congrArg Prod.fst hk]
    rfl
  · funext e
    rw [hnone db.intentEvents IntentEvent.accountId (a, e) fun r hk => congrArg Prod.fst hk]
    rfl
  · rw [hnone db.accountSalts AccountSalt.accountId a fun r hk => hk]
    rfl
  · funext d
    rw [hnone db.devices Device.accountId (a, d) fun r hk => congrArg Prod.fst hk]
    rfl

theorem erase_elsewhere (h : b ≠ a) (db : Db) : vaultOf a (db.without b) = vaultOf a db :=
  vaultOf_rows (without_other h db)

end Deeds
end GlanceVault.L2
