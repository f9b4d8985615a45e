import GlanceVault.L3Http.Router
/-!
# What quotas do not touch

A quota is asked by four calls only, and by each of them only on the branch
that adds to what the quota counts. Every other request is served as on a
server without quotas, whatever the account already holds.

* `Call.grows`: the calls that may be rejected.
* `perform_unlimited`: any other call runs alike with and without quotas.
* `quotas_transparent`: the same for whole requests, the operator's included.
-/
namespace GlanceVault.L3
open GlanceVault.Core GlanceVault.L1 GlanceVault.L1.Js GlanceVault.L2

/-- The same server without quotas. -/
def Config.unlimited (cfg : Config) : Config := { cfg with quotas := ⟨none, none, none, none⟩ }

/-- The call names something the account does not store yet: an entity of a
batch, an event, the hash of an upload. -/
def Call.grows (a : String) (db : Db) : Call → Bool
  | .batch app rows _ => rows.any fun row => !db.syncRows.has (a, app, row.entityId)
  | .intents events => events.any fun ev => !db.intentEvents.has (a, ev.eventId)
  | .initiate blobHash _ _ => (getBlob a blobHash db).isNone
  | .finalize u => (getUploadSession a u db).any fun session =>
    (getBlob a session.blobHash db).isNone
  | _ => false

/-! ## Gates that let a call pass -/

theorem gated_pass {cfg : Config} {rule : QuotaPolicy → Db → Option QuotaVerdict} {s : Server}
    (h : ∀ gate, makeQuotaGate cfg.quotas = some gate → rule gate s.db = none) :
    gated cfg rule s = ⟨.ok (), s, []⟩ := by
  unfold gated
  cases hg : makeQuotaGate cfg.quotas with
  | none => rfl
  | some gate =>
    unfold readDb
    simp only [Prog.get_bind, h gate hg]
    rfl

/-- A handler behind a gate that lets it pass does not see the configuration. -/
theorem gated_bind {α : Type} {cfg : Config} {rule : QuotaPolicy → Db → Option QuotaVerdict}
    {s : Server}
    (h : ∀ gate, makeQuotaGate cfg.quotas = some gate → rule gate s.db = none) (m : Handler α) :
    (do gated cfg rule; m) s = m s := by
  rw [Prog.bind_run, gated_pass h]
  simp

/-- Behind a gate that does not, it does not run. -/
theorem gated_stop {α : Type} {cfg : Config} {rule : QuotaPolicy → Db → Option QuotaVerdict}
    {s : Server} {gate : QuotaPolicy} {v : QuotaVerdict} (hg : makeQuotaGate cfg.quotas = some gate)
    (h : rule gate s.db = some v)
    (m : Handler α) : (do gated cfg rule; m) s = ⟨.error v.abort, s, []⟩ := by
  unfold gated readDb
  rw [hg, Prog.bind_run]
  simp only [Prog.get_bind, h, Prog.raise_run]

section Calls
variable {cfg : Config} {host : Host} {env : Env} {a : String} {s : Server}

theorem batch_unlimited {app : String} {rows : List SyncRowInput} {notify : Bool}
    (h : ∀ row ∈ rows, s.db.syncRows.has (a, app, row.entityId) = true) :
    batch cfg env a app rows notify s = batch cfg.unlimited env a app rows notify s := by
  have hnone : ∀ gate, admitSyncBatch gate a app (rows.map (·.entityId)) s.db = none := by
    refine fun gate => admit_stored ?_
    unfold newEntities
    rw [Finset.sdiff_eq_empty_iff_subset]
    intro e he
    obtain ⟨row, hrow, rfl⟩ := List.mem_map.1 (List.mem_toFinset.1 he)
    exact mem_storedEntities.2 (h row hrow)
  unfold batch
  rw [gated_bind fun gate _ => hnone gate, gated_bind fun gate _ => hnone gate]

theorem intentsBatch_unlimited {events : List IntentEventInput}
    (h : ∀ ev ∈ events, s.db.intentEvents.has (a, ev.eventId) = true) :
    intentsBatch cfg env a events s = intentsBatch cfg.unlimited env a events s := by
  have hnone : ∀ gate, admitIntents gate a (events.map (·.eventId)) env.quotaNow s.db = none := by
    refine fun gate => admit_resent fun e he => ?_
    obtain ⟨ev, hev, rfl⟩ := List.mem_map.1 he
    exact h ev hev
  unfold intentsBatch
  rw [gated_bind fun gate _ => hnone gate, gated_bind fun gate _ => hnone gate]

/-- An upload of an owned hash is answered before the gate. -/
theorem initiate_unlimited {blobHash : String} {size : Nat} {b : Blob}
    (h : getBlob a blobHash s.db = some b) :
    initiate cfg env a blobHash size s = initiate cfg.unlimited env a blobHash size s := by
  unfold initiate readDb
  simp only [Prog.get_bind, h]

/-- So is the finalize of an upload whose hash is owned by now. -/
theorem finalize_unlimited {u : String}
    (h : ∀ session, getUploadSession a u s.db = some session →
      (getBlob a session.blobHash s.db).isSome) :
    finalize cfg host env a u s = finalize cfg.unlimited host env a u s := by
  unfold finalize readDb
  simp only [Prog.get_bind]
  cases hu : getUploadSession a u s.db with
  | none => rfl
  | some session =>
    simp only [Prog.found, Prog.pure_bind, Prog.get_bind]
    cases hb : getBlob a session.blobHash s.db with
    | none =>
      have hown := h session hu
      rw [hb] at hown
      cases hown
    | some b => rfl

/-- **A call that adds nothing a quota counts runs as without quotas.** -/
theorem perform_unlimited {credential : Option Credential} {call : Call}
    (h : call.grows a s.db = false) :
    perform cfg host credential env a call s =
      perform cfg.unlimited host credential env a call s := by
  cases call with
  | batch app rows notify =>
    refine batch_unlimited fun row hrow => ?_
    have hall := List.any_eq_false.1 h row hrow
    simpa using hall
  | intents events =>
    refine intentsBatch_unlimited fun ev hev => ?_
    have hall := List.any_eq_false.1 h ev hev
    simpa using hall
  | initiate blobHash valid size =>
    have hown : (getBlob a blobHash s.db).isNone = false := h
    cases hb : getBlob a blobHash s.db with
    | none =>
      rw [hb] at hown
      cases hown
    | some b => exact initiate_unlimited hb
  | finalize u =>
    refine finalize_unlimited fun session hu => ?_
    have hown :
        ((getUploadSession a u s.db).any fun session => (getBlob a session.blobHash s.db).isNone) =
          false := h
    rw [hu] at hown
    simpa using hown
  | _ => rfl

end Calls

/-! ## Whole requests -/

theorem accept_unlimited (cfg : Config) (host : Host) (credential : Option Credential)
    (route : Route) :
    accept cfg host credential route = accept cfg.unlimited host credential route := by
  cases route <;> rfl

theorem handleAdmin_unlimited (cfg : Config) (host : Host) (env : Env) (header : Option String)
    (route : AdminRoute) :
    handleAdmin cfg host env header route = handleAdmin cfg.unlimited host env header route := by
  cases route <;> rfl

/-- **Quotas are transparent to everything that does not grow the account.** In
any state, however far over the limits, and for any limits: a request is
authenticated as without quotas; its handler has the same result, leaves the
same tables, files, streams and nudges, and takes the same storage steps, unless
it is let through to a call that names something not stored yet; and the
operator's requests have no exception. -/
theorem quotas_transparent (cfg : Config) (host : Host) :
    (∀ db header, authenticate cfg host db header = authenticate cfg.unlimited host db header) ∧
    (∀ credential env route s,
      (∀ a call, accept cfg host credential route = .ok (a, call) → call.grows a s.db = false) →
        handle cfg host credential env route s = handle cfg.unlimited host credential env route s) ∧
    ∀ env header route s, handleAdmin cfg host env header route s =
      handleAdmin cfg.unlimited host env header route s := by
  refine ⟨fun _ _ => rfl, fun credential env route s h => ?_, fun env header route s => ?_⟩
  · cases ha : accept cfg host credential route with
    | error e =>
      rw [handle_refused ha,
        handle_refused ((accept_unlimited cfg host credential route).symm.trans ha)]
    | ok r =>
      obtain ⟨a, call⟩ := r
      rw [handle_admitted ha,
        handle_admitted ((accept_unlimited cfg host credential route).symm.trans ha)]
      exact perform_unlimited (h a call ha)
  · rw [handleAdmin_unlimited]

end GlanceVault.L3
