import GlanceVault.L2Storage.Lifecycle
import GlanceVault.L3Http.Revocation
import GlanceVault.L4System.Nudges
/-!
# Actions and the hub

An action other than a teardown leaves the hub, fans a nudge out, opens a
stream or ends the streams of credentials it has ended (`HubStep`).

* `administers_evicts`: the streams an operator's request ends.
* `act_hubStep`: an action, seen from the hub.
* `HubStep.member`, `.left`, `.told`, `.heard`: who comes in, who goes, who is
  sent what.
* `HubStep.counted`: the counts stay exact.
-/
namespace GlanceVault.L4
open GlanceVault.Core GlanceVault.L1 GlanceVault.L2 GlanceVault.L3

/-- The teardown of a stream. -/
def Action.tears : Action → Bool
  | .close _ _ => true
  | .heartbeat _ _ => true
  | _ => false

def Action.administers : Action → Bool
  | .admin _ _ _ => true
  | _ => false

/-- The subscribers whose sockets refuse a delivery of the action. -/
def Action.dead : Action → Subscriber → Bool
  | .handle _ env => env.dead
  | _ => fun _ => false

/-- What an action may do to the hub: the streams it opens, and whether it
evicts credentials. -/
inductive HubStep (cfg : Config) (dead : Subscriber → Bool) (v w : Server) :
    List Stream → Bool → Prop
  | quiet (evicts : Bool) (same : w.wire = v.wire) : HubStep cfg dead v w [] evicts
  | nudge (a : String) (nudge : Nudge)
      (after : w.wire = (v.hub.publish dead a, v.nextId, v.published ++ [(a, nudge)],
        v.delivered ++ ((v.hub.set a).filter fun x => !dead x).map fun x => (x, nudge))) :
      HubStep cfg dead v w [] false
  | connect (a : String) (credential : Option Credential)
      (known : cfg.authMode = .perAccount → ∃ c, credential = some c)
      (after : w.wire = ((v.hub.subscribe cfg.maxSseConnectionsPerAccount cfg.maxSseConnections a
        ⟨v.nextId, credential.map (·.credentialId)⟩).2, v.nextId + 1, v.published, v.delivered)) :
      HubStep cfg dead v w (Call.opens cfg credential a v .connect) false
  | evict (ids : List String) (spent : ∀ id ∈ ids, Spent id w.db)
      (after : w.wire = (v.hub.disconnects ids, v.nextId, v.published, v.delivered)) :
      HubStep cfg dead v w [] true

theorem isCredentialActive_false {db : Db} {id : String} :
    isCredentialActive db id = false ↔ Spent id db := by
  unfold isCredentialActive getCredentialById
  cases hf : db.deviceCredentials.find id with
  | none => simpa [Spent] using fun c hc e => absurd e (Table.find_none.1 hf c hc)
  | some r =>
    obtain ⟨hr, hid⟩ := Table.find_some.1 hf
    refine ⟨fun h c hc e => ?_, fun h => ?_⟩
    · rw [Table.eq_of_mem hc hr (e.trans hid.symm)]
      simpa using h
    · simpa using h r hr hid

/-- **The streams an operator's request ends are those of credentials it ends.** -/
theorem administers_evicts {cfg : Config} {host : Host} {env : Env} {v w : Server}
    {route : AdminRoute} (h : Administers cfg host env v route w) :
    w.hub = v.hub ∨ ∃ ids, w.hub = v.hub.disconnects ids ∧ ∀ id ∈ ids, Spent id w.db := by
  cases h with
  | declined => exact .inl rfl
  | enroll => exact .inl rfl
  | revoke id =>
    refine .inr ⟨[id], rfl, fun x hx => ?_⟩
    rw [List.mem_singleton.1 hx]
    exact fun c hc e => revokeWhere_spends hc (by simpa using e)
  | revokeAgain => exact .inl rfl
  | createAccount => exact .inl rfl
  | @rotateKey a body =>
    cases hdev : rotatesDevices body with
    | false => exact .inl rfl
    | true =>
      refine .inr ⟨activeCredentialIds a v.db, rfl, fun id hid c hc e => ?_⟩
      obtain ⟨x, hx, hxid, hxa, -⟩ := mem_activeCredentialIds.1 hid
      have hc :
          c ∈ ((v.db.rekey a (drawnKeyHash host env) (env.clock 0)).revokeWhere
            (fun c => c.accountId = a)
        (env.clock 0)).deviceCredentials.rows := hc
      refine revokeWhere_spends hc ?_
      rw [decide_eq_true_eq]
      -- the row of the id keeps its account
      obtain ⟨y, hy, hyc⟩ := mem_revokeWhere.1 hc
      have hrows : y ∈ v.db.deviceCredentials.rows := hy
      have hyid : y.credentialId = x.credentialId := by
        rw [hxid, ← e, hyc]
        split <;> rfl
      have hya : y.accountId = a := (Table.eq_of_mem hrows hx hyid) ▸ hxa
      rw [hyc]
      split <;> exact hya
  | @deleteAccount a body w store streams =>
    refine .inr ⟨activeCredentialIds a v.db, streams, fun id hid => ?_⟩
    obtain ⟨x, hx, hxid, hxa, -⟩ := mem_activeCredentialIds.1 hid
    rw [store, ← hxid]
    exact without_spends hx hxa

/-- **What an action does to the hub.** -/
theorem act_hubStep (host : Host) (s : State) {act : Action} (h : act.tears = false) :
    HubStep s.cfg act.dead s.server (s.act host act).server (s.opens host act) act.administers := by
  have hnone : ∀ {act' : Action}, s.handled host act' = none → s.opens host act' = [] := fun e => by
    unfold State.opens
    rw [e]
  cases act with
  | arrive id req => exact .quiet false rfl
  | handle id env =>
    rcases handled_cases host s id env with ⟨w, a, call, hh, -, hs, -⟩ | ⟨hh, hs⟩
    · have hopens : s.opens host (.handle id env) = call.opens s.cfg w.credential a s.server := by
        unfold State.opens
        rw [hh]
      rw [hs, hopens]
      by_cases hc : call = .connect
      · subst hc
        refine .connect a w.credential (fun hm => ?_) ?_
        · obtain ⟨c, hc, -⟩ := accept_bound hm (handled_accept hh).2
          exact ⟨c, hc⟩
        · rw [perform_connect]
          rfl
      · have hnot : call.opens s.cfg w.credential a s.server = [] := by
          cases call <;> first | rfl | exact absurd rfl hc
        obtain ⟨db, disk, e⟩ := perform_wakes s.server s.cfg host env a w.credential hc
        rw [hnot, e]
        unfold Server.wake
        split
        · split
          · exact .nudge a _ rfl
          · exact .quiet false rfl
        · exact .quiet false rfl
    · rw [hnone hh, hs]
      exact .quiet false rfl
  | drop id => exact .quiet false rfl
  | admin authorization route env =>
    rw [hnone rfl, act_admin]
    have hkeep := (handleAdmin_inv (I := fun v => (v.nextId, v.published, v.delivered) =
      (s.server.nextId, s.server.published, s.server.delivered)) (fun _ _ h => h) (fun _ _ h => h)
      (fun _ _ h => h) s.cfg host env authorization route).state (s := s.server) rfl
    rcases administers_evicts
      (handleAdmin_administers s.cfg host env s.server authorization route) with hhub | ⟨ids, hhub,
        hids⟩
    · exact .quiet true (by unfold Server.wire; rw [hhub]; exact congrArg _ hkeep)
    · exact .evict ids hids (by unfold Server.wire; rw [hhub]; exact congrArg _ hkeep)
  | reclaim policy nowMs => exact .quiet false (reclaim_wire policy nowMs s.server).1
  | reap ttlMs nowMs => exact .quiet false (reap_wire ttlMs nowMs s.server).1
  | close a sub => cases h
  | heartbeat a sub => cases h

/-! ## What a hub step leaves -/

section HubStep
variable {cfg : Config} {dead : Subscriber → Bool} {v w : Server}
  {opened : List Stream} {evicts : Bool}

theorem wire_hub {h : Hub} {n : Nat} {p : List (String × Nudge)} {q : List (Subscriber × Nudge)}
    (e : w.wire = (h, n, p, q)) : w.hub = h ∧ w.nextId = n ∧ w.published = p ∧ w.delivered = q := by
  unfold Server.wire at e
  simpa using e

theorem counted_disconnects : ∀ (ids : List String) {hub : Hub},
    hub.Counted → (hub.disconnects ids).Counted
  | [], _, h => h
  | id :: ids, _, h => counted_disconnects ids (h.disconnectCredential id)

theorem HubStep.counted (h : HubStep cfg dead v w opened evicts)
    (below : ∀ a, ∀ sub ∈ v.hub.set a, sub.id < v.nextId) (hc : v.hub.Counted) : w.hub.Counted := by
  cases h with
  | quiet evicts same =>
    rw [(wire_hub same).1]
    exact hc
  | nudge a nudge after =>
    rw [(wire_hub after).1]
    exact hc.publish dead a
  | connect a credential known after =>
    rw [(wire_hub after).1]
    exact hc.subscribe _ _ a fun hm => Nat.lt_irrefl _ (below a _ hm)
  | evict ids spent after =>
    rw [(wire_hub after).1]
    exact counted_disconnects ids hc

/-- A step registers the streams it opens, and nobody else. -/
theorem HubStep.member (h : HubStep cfg dead v w opened evicts) {a : String} {sub : Subscriber}
    (hm : sub ∈ w.hub.set a) :
    sub ∈ v.hub.set a ∨ ∃ p ∈ opened, p.key = a ∧ p.listener = sub := by
  cases h with
  | quiet evicts same =>
    rw [(wire_hub same).1] at hm
    exact .inl hm
  | nudge b nudge after =>
    rw [(wire_hub after).1, Hub.set_publish] at hm
    split at hm
    · exact .inl (List.mem_filter.1 hm).1
    · exact .inl hm
  | connect b credential known after =>
    rw [(wire_hub after).1, Hub.set_subscribe] at hm
    split at hm
    · rename_i hjoin
      obtain ⟨hsub, rfl⟩ := hjoin
      split at hm
      · exact .inl hm
      · rcases List.mem_append.1 hm with hold | hnew
        · exact .inl hold
        · refine .inr ⟨⟨a, _, latestSeq v.db a⟩, ?_, rfl, (List.mem_singleton.1 hnew).symm⟩
          unfold Call.opens
          rw [if_pos hsub]
          exact List.mem_singleton.2 rfl
    · exact .inl hm
  | evict ids spent after =>
    rw [(wire_hub after).1] at hm
    exact .inl (Hub.mem_disconnects.1 hm).1

/-- A stream is opened under the next number, and registered. -/
theorem HubStep.opens (h : HubStep cfg dead v w opened evicts) :
    v.nextId ≤ w.nextId ∧ (opened = [] ∨ ∃ p, opened = [p] ∧
    p.listener.id = v.nextId ∧ v.nextId < w.nextId ∧ p.listener ∈ w.hub.set p.key ∧
    (cfg.authMode = .perAccount → ∃ id, p.listener.credentialId = some id)) := by
  cases h with
  | quiet evicts same => exact ⟨Nat.le_of_eq (wire_hub same).2.1.symm, .inl rfl⟩
  | nudge a nudge after => exact ⟨Nat.le_of_eq (wire_hub after).2.1.symm, .inl rfl⟩
  | connect a credential known after =>
    obtain ⟨hhub, hid, -⟩ := wire_hub after
    have hlt : v.nextId < w.nextId := hid ▸ Nat.lt_succ_self _
    refine ⟨Nat.le_of_lt hlt, ?_⟩
    unfold Call.opens
    dsimp only
    split
    · rename_i hsub
      refine .inr ⟨_, rfl, rfl, hlt, ?_, fun hm => ?_⟩
      · rw [hhub, Hub.set_subscribe, if_pos ⟨hsub, rfl⟩]
        split
        · assumption
        · exact List.mem_append_right _ (List.mem_singleton.2 rfl)
      · obtain ⟨c, hc⟩ := known hm
        exact ⟨c.credentialId, by rw [hc]; rfl⟩
    · exact .inl rfl
  | evict ids spent after => exact ⟨Nat.le_of_eq (wire_hub after).2.1.symm, .inl rfl⟩

/-- Frames go to registered subscribers. -/
theorem HubStep.told (h : HubStep cfg dead v w opened evicts) :
    ∃ told, w.delivered = v.delivered ++ told ∧ ∀ p ∈ told, ∃ a, p.1 ∈ v.hub.set a := by
  have hnone : w.delivered = v.delivered → ∃ told, w.delivered = v.delivered ++ told ∧
      ∀ p ∈ told, ∃ a, p.1 ∈ v.hub.set a :=
    fun e => ⟨[], by rw [e, List.append_nil], fun p hp => nomatch hp⟩
  cases h with
  | quiet evicts same => exact hnone (wire_hub same).2.2.2
  | nudge a nudge after =>
    refine ⟨_, (wire_hub after).2.2.2, fun p hp => ?_⟩
    obtain ⟨x, hx, rfl⟩ := List.mem_map.1 hp
    exact ⟨a, (List.mem_filter.1 hx).1⟩
  | connect a credential known after => exact hnone (wire_hub after).2.2.2
  | evict ids spent after => exact hnone (wire_hub after).2.2.2

/-- A subscriber is taken out for its credential or for its socket. -/
theorem HubStep.left (h : HubStep cfg dead v w opened evicts) {a : String} {sub : Subscriber}
    (hm : sub ∈ v.hub.set a)
    (hgone : sub ∉ w.hub.set a) :
    (evicts = true ∧ ∃ id, sub.credentialId = some id ∧ Spent id w.db) ∨ dead sub = true := by
  cases h with
  | quiet evicts same =>
    rw [(wire_hub same).1] at hgone
    exact absurd hm hgone
  | nudge b nudge after =>
    right
    rw [(wire_hub after).1, Hub.set_publish] at hgone
    by_contra hd
    refine hgone ?_
    split
    · exact List.mem_filter.2 ⟨hm, by simpa using hd⟩
    · exact hm
  | connect b credential known after =>
    rw [(wire_hub after).1, Hub.set_subscribe] at hgone
    refine absurd ?_ hgone
    split
    · rename_i hjoin
      obtain ⟨-, rfl⟩ := hjoin
      split
      · exact hm
      · exact List.mem_append_left _ hm
    · exact hm
  | evict ids spent after =>
    rw [(wire_hub after).1, Hub.mem_disconnects] at hgone
    left
    by_contra hno
    exact hgone ⟨hm, fun id hid e => hno ⟨rfl, id, e, spent id hid⟩⟩

/-- A registered subscriber whose socket works is sent what its account is told. -/
theorem HubStep.heard (h : HubStep cfg dead v w opened evicts) {a : String} {sub : Subscriber}
    (hm : sub ∈ v.hub.set a)
    (hd : dead sub = false) : ∃ new told, w.published = v.published ++ new ∧
      w.delivered = v.delivered ++ told ∧
      ∀ n, (a, n) ∈ new → (sub, n) ∈ told := by
  have hnone : w.published = v.published → w.delivered = v.delivered →
      ∃ new told, w.published = v.published ++ new ∧
      w.delivered = v.delivered ++ told ∧ ∀ n, (a, n) ∈ new → (sub, n) ∈ told :=
    fun hp hq =>
      ⟨[], [], by rw [hp, List.append_nil], by rw [hq, List.append_nil], fun n hn => nomatch hn⟩
  cases h with
  | quiet evicts same => exact hnone (wire_hub same).2.2.1 (wire_hub same).2.2.2
  | nudge b nudge after =>
    refine ⟨_, _, (wire_hub after).2.2.1, (wire_hub after).2.2.2, fun n hn => ?_⟩
    obtain ⟨rfl, rfl⟩ := Prod.mk.inj (List.mem_singleton.1 hn)
    exact List.mem_map.2 ⟨sub, List.mem_filter.2 ⟨hm, by rw [hd]; rfl⟩, rfl⟩
  | connect b credential known after => exact hnone (wire_hub after).2.2.1 (wire_hub after).2.2.2
  | evict ids spent after => exact hnone (wire_hub after).2.2.1 (wire_hub after).2.2.2

end HubStep

end GlanceVault.L4
