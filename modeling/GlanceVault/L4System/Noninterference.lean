import GlanceVault.L3Http.Locality
import GlanceVault.L4System.Finality
import GlanceVault.L4System.Survival
/-!
# Accounts do not interfere

Two runs of a per-account server from the same state, in which the requests of
one account and the runs of the upload reaper are the same and everything else
may differ. The account is answered the same, and its rows, staged bytes and
nudges end the same.

* `Schedule`: what is assumed of a run: which requests are the account's, and
  upload ids as random UUIDs are.
* `other_act`: a request of another account does not move what the account sees.
* `own_act`: its own requests and the reaper act alike on states it cannot tell
  apart.
* `noninterference`: the two runs; a request that claims another account is
  refused with 403 once it is past its own checks, and changes nothing.
* `malformed_mismatch`: before that it is refused by its checks.

## Hypotheses

* the hash is injective on what is stored and on the secrets;
* `Schedule`, which holds the upload ids that `randomUUID` draws to be new.
-/
namespace GlanceVault.L4
open GlanceVault.Core GlanceVault.L1 GlanceVault.L2 GlanceVault.L3

/-- The requests of the account, by their ids, and the upload reaper. -/
def concerns (mine : Nat → Bool) : Action → Bool
  | .arrive id _ => mine id
  | .handle id _ => mine id
  | .drop id => mine id
  | .reap _ _ => true
  | _ => false

/-- Neither an operator's request nor a reclaim. -/
def Action.served : Action → Bool
  | .admin .. => false
  | .reclaim .. => false
  | _ => true

/-- What is answered on all routes but the event streams. -/
def State.shows (host : Host) (s : State) (a : Action) : Option Response :=
  match a with
  | .handle id _ => if (s.waiting id).any fun w => w.route.streams then none else s.answer host a
  | _ => s.answer host a

/-- The ids the handlers of a run draw. -/
def drawn (as : List Action) : List String := as.filterMap fun
  | .handle _ env => some env.uuid
  | _ => none

/-- A request that arrives under a credential of the account is one of `mine`,
under another it is not. -/
def State.labels (host : Host) (s : State) (b : String) (mine : Nat → Bool) : Action → Bool
  | .arrive id req =>
    match authenticate s.cfg host s.server.db req.authorization with
    | .ok c => mine id == c.any fun c => decide (c.accountId = b)
    | .error _ => true
  | _ => true

/-- A run from `s` in which `mine` tells the requests of account `b`, and no
drawn id has been used before. -/
structure Schedule (host : Host) (b : String) (mine : Nat → Bool) (s : State)
    (as : List Action) : Prop where
  waiting : ∀ w ∈ s.pending, mine w.id = w.ofAccount b
  arrivals : ∀ a ∈ as, s.labels host b mine a = true
  served : ∀ a ∈ as, a.served = true
  distinct : (drawn as).Nodup
  valid : ∀ u ∈ drawn as, Js.isUploadId u = true
  unused : ∀ u, s.server.uses u → Js.isUploadId u = true ∧ u ∉ drawn as

/-- A schedule on a per-account server that has lost no bytes. -/
structure Ready (host : Host) (b : String) (mine : Nat → Bool) (s : State) (as : List Action) : Prop
    extends Schedule host b mine s as where
  mode : s.cfg.authMode = .perAccount
  genuine : Genuine host.sha256Hex s.sent s.server.media
  backed : Backed s.server.media

/-- What the account cannot tell apart. -/
structure Related (b : String) (mine : Nat → Bool) (s t : State) : Prop where
  cfg : s.cfg = t.cfg
  credentials : s.server.credentials = t.server.credentials
  view : s.server.view b = t.server.view b
  pending : (s.pending.filter fun w => mine w.id) = t.pending.filter fun w => mine w.id

theorem Related.symm {b : String} {mine : Nat → Bool} {s t : State} (h : Related b mine s t) :
    Related b mine t s :=
  ⟨h.cfg.symm, h.credentials.symm, h.view.symm, h.pending.symm⟩

theorem Related.trans {b : String} {mine : Nat → Bool} {s t u : State} (h1 : Related b mine s t)
    (h2 : Related b mine t u) : Related b mine s u :=
  ⟨h1.cfg.trans h2.cfg, h1.credentials.trans h2.credentials, h1.view.trans h2.view,
    h1.pending.trans h2.pending⟩

theorem authenticate_congr {cfg : Config} {host : Host} {db db' : Db}
    (h : db.deviceCredentials = db'.deviceCredentials)
    (header : Option String) :
    authenticate cfg host db header = authenticate cfg host db' header := by
  unfold authenticate credentialAuth getCredentialByHash
  rw [h]

/-! ## Upload ids -/

/-- The id an action may open a session with. -/
def Action.draws : Action → Option String
  | .handle _ env => some env.uuid
  | _ => none

def uploadsOf (m : Media) : Table UploadSession.uploadId × Table UploadPart.key × Disk :=
  (m.sessions, m.parts, m.disk)

section Ids
variable {fresh : Option String}

theorem drop_brings (m : Media) (p : UploadSession → Bool) :
    Brings fresh (uploadsOf m) (uploadsOf (m.drop p)) := by
  refine brings_of (fun u hu hnone => hu ?_) (fun q hq => (Table.mem_keep.1 hq).1) fun _ _ h => h
  have hnone : m.sessions.find u = none := hnone
  refine (Table.find_keep _ _ _).trans ?_
  rw [hnone]
  rfl

theorem erase_brings (m : Media) (h : String) :
    Brings fresh (uploadsOf m) (uploadsOf (m.onDisk fun d => d.remove (.blob h))) :=
  brings_of (fun _ h => h) (fun _ h => h) fun v i hf => by
    have hf : m.disk.remove (.blob h) (.part v i) ≠ none := hf
    rwa [Disk.remove_other _ (by simp)] at hf

theorem brings_purge : AllowsPurge fun m m' => Brings fresh (uploadsOf m) (uploadsOf m') where
  discard m u := brings_of (fun _ h => h) (fun _ h => h) fun v i h => by
    have h : m.disk.removeSession u (.part v i) ≠ none := h
    rw [Disk.removeSession_part] at h
    split at h
    · exact absurd rfl h
    · exact h
  drop := drop_brings
  purge m a := drop_brings (m.forget fun k => decide (k.1 = a)) _
  erase m h _ := erase_brings m h

/-- **An action brings no upload id into use but the one it draws.** -/
theorem work_brings (host : Host) (s : State) (a : Action) :
    Bringing a.draws (fun v => v = s.server) (s.work host a) := by
  cases a with
  | arrive id req => exact .pure fun _ _ => trivial
  | handle id env =>
    rcases work_cases host s id env with ⟨w, b, call, -, -, hwork⟩ | ⟨-, hwork | ⟨e, hwork⟩⟩
    · rw [hwork]
      exact ignore_follows (perform_brings s.cfg host w.credential env b call)
    · rw [hwork]
      exact .pure fun _ _ => trivial
    · rw [hwork]
      exact .raise e
  | drop id => exact .pure fun _ _ => trivial
  | admin authorization route env =>
    exact ignore_follows
      ((handleAdmin_follows brings_purge s.cfg host env authorization route).map uploadsOf
        fun _ _ h => h)
  | reclaim policy nowMs =>
    refine (reclaim_media host s policy nowMs).map uploadsOf fun m m' h => ?_
    cases h with
    | erase h => exact erase_brings m h
    | forget a h => exact brings_of (fun _ h => h) (fun _ h => h) fun _ _ h => h
  | reap ttlMs nowMs => exact ignore_follows (reapUploadSessions_brings ttlMs nowMs)
  | close a sub => exact .poke (fun _ => rfl) fun _ _ => trivial
  | heartbeat a sub =>
    refine .poke (fun v => ?_) fun _ _ => trivial
    rw [heartbeat_hub]
    rfl

end Ids

section Act
variable {host : Host} {b : String} {mine : Nat → Bool} {s t : State} {a : Action}
  {as : List Action}

/-! ## A schedule goes on -/

theorem served_keeps (h : a.served = true) :
    (s.act host a).server.credentials = s.server.credentials := by
  have hno : ∀ authorization route env, a ≠ .admin authorization route env := fun x y z e => by
    rw [e] at h
    cases h
  exact (registry_act host s hno).2

theorem uses_act {u : String} (hu : (s.act host a).server.uses u) :
    s.server.uses u ∨ u ∈ drawn [a] := by
  have hu : usedIn (s.work host a s.server).state.uploads u := hu
  have hused : s.server.uses u ∨ a.draws = some u :=
    Prog.reach_inv (I := fun x => usedIn x u → s.server.uses u ∨ a.draws = some u)
      (fun x y hxy hx hy => (hxy u hy).elim hx .inr) ((work_brings host s a).state rfl) .inl hu
  refine hused.imp_right fun e => ?_
  cases a with
  | handle id env =>
    cases e
    exact List.mem_singleton.2 rfl
  | _ => cases e

theorem Ready.next (h : Ready host b mine s (a :: as)) : Ready host b mine (s.act host a) as := by
  have hserved : a.served = true := h.served a List.mem_cons_self
  have hcred : (s.act host a).server.db.deviceCredentials = s.server.db.deviceCredentials :=
    served_keeps hserved
  have hsplit : drawn (a :: as) = drawn [a] ++ drawn as := by
    unfold drawn
    rw [← List.filterMap_append]
    rfl
  have hdistinct := h.distinct
  rw [hsplit, List.nodup_append] at hdistinct
  refine { waiting := fun w hw => ?_, arrivals := fun x hx => ?_,
           served := fun x hx => h.served x (List.mem_cons_of_mem _ hx),
           distinct := hdistinct.2.1, valid := fun u hu =>
             h.valid u (by rw [hsplit]; exact List.mem_append_right _ hu),
           unused := fun u hu =>
             ?_, mode := h.mode, genuine := genuine_next host s (.run a) h.genuine, backed := ?_ }
  · have hw : w ∈ s.queue host a := hw
    cases a with
    | arrive id req =>
      simp only [State.queue] at hw
      cases hauth : authenticate s.cfg host s.server.db req.authorization with
      | error r => rw [hauth] at hw; exact h.waiting w hw
      | ok c =>
        rw [hauth] at hw
        rcases List.mem_append.1 hw with hw | hw
        · exact h.waiting w hw
        · rw [List.mem_singleton] at hw
          subst hw
          have hmine := h.arrivals _ List.mem_cons_self
          simp only [State.labels, hauth, beq_iff_eq] at hmine
          exact hmine
    | handle id env => exact h.waiting w (List.mem_filter.1 hw).1
    | drop id => exact h.waiting w (List.mem_filter.1 hw).1
    | _ => exact h.waiting w hw
  · have hlabel := h.arrivals x (List.mem_cons_of_mem _ hx)
    unfold State.labels at hlabel ⊢
    cases x with
    | arrive id req =>
      simp only [authenticate_congr hcred] at hlabel ⊢
      exact hlabel
    | _ => rfl
  · rcases uses_act hu with hu | hu
    · obtain ⟨h1, h2⟩ := h.unused u hu
      exact ⟨h1, fun hm => h2 (by rw [hsplit]; exact List.mem_append_right _ hm)⟩
    · exact ⟨h.valid u (by rw [hsplit]; exact List.mem_append_left _ hu),
        fun hm => hdistinct.2.2 u hu u hm rfl⟩
  · refine (backed_next (.run a) h.genuine h.backed).2 (spares_other fun policy nowMs e => ?_)
    have e : a = .reclaim policy nowMs := e
    rw [e] at hserved
    cases hserved

/-! ## Other accounts -/

theorem filter_removed (f : Nat → Bool) (id : Nat) (ws : List Waiting) (h : f id = false) :
    ((ws.filter fun w => decide (w.id ≠ id)).filter fun w => f w.id) =
      ws.filter fun w => f w.id := by
  rw [List.filter_filter]
  apply List.filter_congr
  intro w _
  by_cases hw : w.id = id
  · simp [hw, h]
  · simp [hw]

/-- **A request of another account moves nothing the account sees.** -/
theorem other_act (h : Ready host b mine s (a :: as)) (ho : concerns mine a = false) :
    Related b mine s (s.act host a) := by
  have hserved : a.served = true := h.served a List.mem_cons_self
  refine ⟨rfl, (served_keeps hserved).symm, ?_, ?_⟩
  · show s.server.view b = (s.work host a s.server).state.view b
    cases a with
    | arrive id req => rfl
    | handle id env =>
      have ho : mine id = false := ho
      cases hw : s.waiting id with
      | none => rw [work_unknown host hw]; rfl
      | some w =>
        rw [work_handle host hw, Prog.state_bind_pure]
        have hmem : w ∈ s.pending := List.mem_of_find?_eq_some hw
        have hid : w.id = id := by simpa using List.find?_some hw
        cases ha : accept s.cfg host w.credential w.route with
        | error e => rw [handle_refused ha]; rfl
        | ok r =>
          obtain ⟨c, call⟩ := r
          rw [handle_admitted ha]
          obtain ⟨x, hx, hxc⟩ := accept_bound h.mode ha
          have hne : c ≠ b := by
            intro e
            have hlabel := h.waiting w hmem
            rw [hid, ho] at hlabel
            simp [Waiting.ofAccount, hx, hxc, e] at hlabel
          have hsteps := (perform_other hne s.cfg host w.credential env call).state h.genuine.owned
          exact (Prog.reach_inv (I := fun v => s.server.view b = v)
            (fun _ _ hf _ => hf.elim) hsteps rfl)
    | drop id => rfl
    | admin authorization route env => cases hserved
    | reclaim policy nowMs => cases hserved
    | reap ttlMs nowMs => cases ho
    | close c sub => rfl
    | heartbeat c sub =>
      show s.server.view b = (s.server.heartbeat s.cfg c sub).view b
      rw [heartbeat_hub]
      rfl
  · show _ = (s.queue host a).filter fun w => mine w.id
    cases a with
    | arrive id req =>
      have ho : mine id = false := ho
      simp only [State.queue]
      split
      · rw [List.filter_append]
        simp [ho]
      · rfl
    | handle id env => exact (filter_removed mine id s.pending ho).symm
    | drop id => exact (filter_removed mine id s.pending ho).symm
    | _ => rfl

/-! ## The account's own requests -/

/-- Its requests in flight are found alike. -/
theorem waiting_mine {id : Nat} (hm : mine id = true) (h : Related b mine s t) :
    s.waiting id = t.waiting id := by
  have hfind : ∀ v : State, v.waiting id =
      (v.pending.filter fun w => mine w.id).find? fun w => decide (w.id = id) := fun v => by
    unfold State.waiting
    rw [List.find?_filter]
    congr 1
    funext w
    by_cases hw : w.id = id
    · simp [hw, hm]
    · simp [hw]
  rw [hfind, hfind, h.pending]

theorem filter_removes (f : Nat → Bool) (id : Nat) (ws : List Waiting) :
    ((ws.filter fun w => decide (w.id ≠ id)).filter fun w => f w.id) =
      (ws.filter fun w => f w.id).filter fun w => decide (w.id ≠ id) := by
  rw [List.filter_filter, List.filter_filter]
  exact List.filter_congr fun w _ => Bool.and_comm _ _

/-- With the same view and no bytes lost, the bytes of the account's blobs are the same. -/
theorem alike_of_related (hinj : Function.Injective host.sha256Hex) {bs : List Action}
    (hs : Ready host b mine s as)
    (ht : Ready host b mine t bs) (h : Related b mine s t) :
    Alike host.sha256Hex b s.server t.server := by
  refine ⟨h.view, hs.genuine.addressed, ht.genuine.addressed, fun k hk => ?_⟩
  have hfind : getBlob b k s.server.db = getBlob b k t.server.db := by
    rw [show getBlob b k s.server.db = _ from (tenant_blob b s.server.db k).symm,
      show getBlob b k t.server.db = _ from (tenant_blob b t.server.db k).symm,
      show s.server.db.tenant b = t.server.db.tenant b from congrArg View.rows h.view]
  have hheld : ∀ {v : State} {cs : List Action}, Ready host b mine v cs →
      (getBlob b k v.server.db).isSome = true →
      ∃ x, v.server.disk (.blob k) = some x ∧ host.sha256Hex x = k := fun {v cs} hv hk => by
    obtain ⟨row, hrow⟩ := Option.isSome_iff_exists.1 hk
    have hhash : row.blobHash = k := congrArg Prod.snd (Table.find_key hrow : row.key = (b, k))
    obtain ⟨x, hx⟩ :=
      Option.isSome_iff_exists.1 (hv.backed _ (mem_media_held (Table.find_mem hrow)))
    have hx : v.server.disk (.blob row.blobHash) = some x := hx
    rw [hhash] at hx
    exact ⟨x, hx, hv.genuine.addressed k x hx⟩
  obtain ⟨x, hx, hxk⟩ := hheld hs hk
  obtain ⟨y, hy, hyk⟩ := hheld ht (hfind ▸ hk)
  rw [hx, hy, hinj (hxk.trans hyk.symm)]

/-- **The account's requests, and the reaper, act alike** on states it cannot tell apart. -/
theorem own_act (hinj : Function.Injective host.sha256Hex) {bs : List Action}
    (hs : Ready host b mine s (a :: as))
    (ht : Ready host b mine t (a :: bs)) (ho : concerns mine a = true) (h : Related b mine s t) :
    s.shows host a = t.shows host a ∧ Related b mine (s.act host a) (t.act host a) := by
  have hserved : a.served = true := hs.served a List.mem_cons_self
  have hcred : (s.act host a).server.credentials = (t.act host a).server.credentials :=
    (served_keeps hserved).trans (h.credentials.trans (served_keeps hserved).symm)
  cases a with
  | arrive id req =>
    have hauth : authenticate s.cfg host s.server.db req.authorization =
        authenticate t.cfg host t.server.db req.authorization := by
      rw [h.cfg]
      exact authenticate_congr h.credentials _
    refine ⟨?_, h.cfg, hcred, h.view, ?_⟩
    · simp only [State.shows, State.answer, hauth]
    · show (s.queue host (.arrive id req)).filter _ = (t.queue host (.arrive id req)).filter _
      simp only [State.queue, hauth]
      split
      · rw [List.filter_append, List.filter_append, h.pending]
      · exact h.pending
  | handle id env =>
    have ho : mine id = true := ho
    have hwait := waiting_mine ho h
    have hqueue : ((s.act host (.handle id env)).pending.filter fun w => mine w.id) =
        (t.act host (.handle id env)).pending.filter fun w => mine w.id := by
      show ((s.pending.filter fun w => decide (w.id ≠ id)).filter fun w => mine w.id) =
        (t.pending.filter fun w => decide (w.id ≠ id)).filter fun w => mine w.id
      rw [filter_removes, filter_removes, h.pending]
    cases hw : s.waiting id with
    | none =>
      have hwt : t.waiting id = none := hwait ▸ hw
      refine ⟨by simp [State.shows, State.answer, hw, hwt], h.cfg, hcred, ?_, hqueue⟩
      show (s.work host _ s.server).state.view b = (t.work host _ t.server).state.view b
      rw [work_unknown host hw, work_unknown host hwt]
      exact h.view
    | some w =>
      have hwt : t.waiting id = some w := hwait ▸ hw
      have hmem : w ∈ s.pending := List.mem_of_find?_eq_some hw
      have hid : w.id = id := by simpa using List.find?_some hw
      have hview : (s.work host (.handle id env) s.server).state =
          (handle s.cfg host w.credential env w.route s.server).state := by
        rw [work_handle host hw, Prog.state_bind_pure]
      have hviewt : (t.work host (.handle id env) t.server).state =
          (handle s.cfg host w.credential env w.route t.server).state := by
        rw [work_handle host hwt, Prog.state_bind_pure, h.cfg]
      -- what is left: the handler on the two servers
      suffices hrun :
          (w.route.streams = false → (handle s.cfg host w.credential env w.route s.server).result =
            (handle s.cfg host w.credential env w.route t.server).result) ∧
          (handle s.cfg host w.credential env w.route s.server).state.view b =
            (handle s.cfg host w.credential env w.route t.server).state.view b by
        refine ⟨?_, h.cfg, hcred, ?_, hqueue⟩
        · simp only [State.shows, hw, hwt, Option.any_some]
          cases hst : w.route.streams with
          | true => rfl
          | false =>
            rw [answer_handle host hw, answer_handle host hwt, ← h.cfg]
            simp only [Bool.false_eq_true, if_false]
            unfold finish
            rw [hrun.1 hst]
        · show (s.work host _ s.server).state.view b = (t.work host _ t.server).state.view b
          rw [hview, hviewt]
          exact hrun.2
      cases ha : accept s.cfg host w.credential w.route with
      | error e =>
        rw [handle_refused ha]
        exact ⟨fun _ => rfl, h.view⟩
      | ok r =>
        obtain ⟨c, call⟩ := r
        rw [handle_admitted ha]
        obtain ⟨x, hx, hxc⟩ := accept_bound hs.mode ha
        have hcb : c = b := by
          have hlabel := hs.waiting w hmem
          rw [hid, ho] at hlabel
          simp only [Waiting.ofAccount, hx, Option.any_some] at hlabel
          rw [← hxc]
          simpa using hlabel.symm
        subst hcb
        by_cases hcall : call = .connect
        · subst hcall
          refine ⟨fun hst => ?_, ?_⟩
          · obtain ⟨claimed, hcheck, -⟩ := accept_ok ha
            rw [check_connect hcheck] at hst
            cases hst
          · have hkeep := fun v : Server => ((connect_view (b := c) s.cfg w.credential c) v).1
            exact (hkeep s.server).trans (h.view.trans (hkeep t.server).symm)
        · have hfresh : ∀ {v : State} {cs : List Action},
              Ready host c mine v (.handle id env :: cs) →
              ¬ v.server.uses env.uuid := fun hv hu => (hv.unused _ hu).2 (by simp [drawn])
          have htwin := perform_alike s.cfg hinj w.credential env call hcall s.server t.server
            ⟨alike_of_related hinj hs ht h, hfresh hs, hfresh ht⟩
          refine ⟨fun _ => htwin.1, ?_⟩
          have hend := htwin.2
          cases hr : (perform s.cfg host w.credential env c call s.server).result with
          | ok r => rw [hr] at hend; exact hend.view
          | error e => rw [hr] at hend; exact hend.view
  | drop id =>
    refine ⟨rfl, h.cfg, hcred, h.view, ?_⟩
    show ((s.pending.filter fun w => decide (w.id ≠ id)).filter fun w => mine w.id) =
      (t.pending.filter fun w => decide (w.id ≠ id)).filter fun w => mine w.id
    rw [filter_removes, filter_removes, h.pending]
  | reap ttlMs nowMs =>
    refine ⟨rfl, h.cfg, hcred, ?_, h.pending⟩
    show (s.work host (.reap ttlMs nowMs) s.server).state.view b =
      (t.work host (.reap ttlMs nowMs) t.server).state.view b
    rw [State.work, State.work, Prog.state_bind_pure, Prog.state_bind_pure]
    exact reap_view (fun u hu => (hs.unused u hu).1)
      (fun u hu => (ht.unused u hu).1) h.view ttlMs nowMs
  | admin authorization route env => cases hserved
  | reclaim policy nowMs => cases hserved
  | close c sub => cases ho
  | heartbeat c sub => cases ho

end Act

/-! ## Two runs -/

/-- One action, with what is shown of its answer. -/
def observe (host : Host) (s : State) (a : Action) : State × Option Response :=
  (s.act host a, s.shows host a)

/-- A request whose checks do not yield its credential's account. -/
theorem mismatch_refused {host : Host} {s : State} {id : Nat} {w : Waiting} {c : Credential}
    (hm : s.cfg.authMode = .perAccount) (hw : s.waiting id = some w) (hc : w.credential = some c)
    (hne : ∀ call, check s.cfg host w.route ≠ .ok (c.accountId, call)) (env : Env) :
    (s.act host (.handle id env)).server = s.server ∧
      ∀ claimed call, check s.cfg host w.route = .ok (claimed, call) →
        (s.answer host (.handle id env)).map (·.status) = some 403 := by
  have hserver : (s.act host (.handle id env)).server =
      (handle s.cfg host w.credential env w.route s.server).state := by
    show (s.work host _ s.server).state = _
    rw [work_handle host hw, Prog.state_bind_pure]
  cases hcheck : check s.cfg host w.route with
  | error e =>
    have hadm : accept s.cfg host w.credential w.route = .error e := by
      unfold accept
      rw [hcheck]
      rfl
    refine ⟨?_, fun claimed call h => by cases h⟩
    rw [hserver, handle_refused hadm]
    rfl
  | ok r =>
    obtain ⟨claimed, call⟩ := r
    have hother : c.accountId ≠ claimed := fun e => hne call (by rw [hcheck, e])
    have hhandle := handle_mismatch hm hcheck hother env
    rw [← hc] at hhandle
    refine ⟨by rw [hserver, hhandle]; rfl, fun _ _ _ => ?_⟩
    rw [answer_handle host hw, hhandle]
    rfl

/-- **Accounts do not interfere.** A per-account server has seen any run
without a reclaim sweep, crashes included. Two runs go on from there without
operator's requests and reclaims, with the same requests of account `b` and the
same runs of the upload reaper, and anything else. Then `b` is answered the
same on every route but the event streams, and its rows, staged bytes and
nudges end the same. A request whose checks do not yield its credential's
account changes nothing, and is answered 403 if they pass. -/
theorem noninterference (host : Host) (hinj : Function.Injective host.sha256Hex)
    (cfg : Config) {es : List Event}
    (hes : ∀ e ∈ es, ∀ policy nowMs, e.action ≠ .reclaim policy nowMs)
    (hmode : (State.after host cfg es).cfg.authMode = .perAccount) (b : String) (mine : Nat → Bool)
    {as as' : List Action} (h : Schedule host b mine (State.after host cfg es) as)
    (h' : Schedule host b mine (State.after host cfg es) as')
    (hsame : as.filter (concerns mine) = as'.filter (concerns mine)) :
    answers (observe host) (concerns mine) (State.after host cfg es) as =
      answers (observe host) (concerns mine) (State.after host cfg es) as' ∧
    (run (State.act host) (State.after host cfg es) as).server.view b =
      (run (State.act host) (State.after host cfg es) as').server.view b ∧
    ∀ id env w c, (State.after host cfg es).waiting id = some w → w.credential = some c →
      (∀ call, check (State.after host cfg es).cfg host w.route ≠ .ok (c.accountId, call)) →
      ((State.after host cfg es).act host (.handle id env)).server =
        (State.after host cfg es).server ∧
      ∀ claimed call, check (State.after host cfg es).cfg host w.route = .ok (claimed, call) →
        ((State.after host cfg es).answer host (.handle id env)).map (·.status) = some 403 := by
  have hall : AllSteps (State.next host) State.spares (State.init cfg) es :=
    allSteps_mem es _ fun e he s => spares_other (hes e he)
  have hready : ∀ {bs}, Schedule host b mine (State.after host cfg es) bs →
      Ready host b mine (State.after host cfg es) bs :=
    fun hb => { hb with
      mode := hmode, genuine := genuine_after host cfg es,
      backed := backed_after host cfg hall }
  obtain ⟨h1, h2⟩ :=
    @purge _ _ _ (observe host) (concerns mine) (Related b mine) (Ready host b mine)
      (fun s a bs hb => hb.next)
      (fun s t a bs cs hs ht ho hR => own_act hinj hs ht ho hR)
      (fun s t a bs hs ho hR => (other_act hs ho).symm.trans hR)
      (fun s t a bs ht ho hR => hR.trans (other_act ht ho)) as as' _ _ (hready h) (hready h') hsame
      ⟨rfl, rfl, rfl, rfl⟩
  exact ⟨h1, h2.view, fun id env w c hw hc hne => mismatch_refused hmode hw hc hne env⟩

/-! ## Two accounts on one server -/

/-- A per-account server whose operator vouches for the accounts. -/
def vouchedConfig : Config :=
  { sampleConfig with authMode := .perAccount, enrollmentSecret := "secret" }

def enrollment (a : String) (env : Env) : Action :=
  .admin none
    (.enroll
      (.json (.obj [("enrollmentSecret", .str "secret"), ("accountId", .str a),
        ("deviceId", .str "d")]))) env

/-- A device of `a` and one of `b`. -/
def neighbours : List Event :=
  [.run (enrollment "a" (drawing "c0" '0')), .run (enrollment "b" (drawing "c1" '1'))]

/-- A request by the credential with this secret, answered at once. -/
def asks (id : Nat) (digit : Char) (route : Route) (u : String) : List Action :=
  [.arrive id ⟨some ("Bearer gvc_" ++ sampleSecret digit), route⟩, .handle id (drawing u '2')]

/-- `b` opens an upload and lists its rows. -/
def ownRequests : List Action :=
  asks 0 '1'
    (.uploadInitiate
      (.json (.obj [("accountId", .str "b"), ("blobHash", .str emptyHash),
        ("size", .nat 0)]))) "u0" ++
  asks 2 '1' (.syncList "dayglance" fun k => if k = "accountId" then some (.str "b") else none) "u2"

/-- Before that, `a` uploads the same bytes, and claims the account `b`. -/
def foreignRequests : List Action :=
  asks 1 '0'
    (.uploadInitiate
      (.json (.obj [("accountId", .str "a"), ("blobHash", .str emptyHash),
        ("size", .nat 0)]))) "u1" ++
  asks 3 '0' (.uploadFinalize "u1" (.json (.obj [("accountId", .str "a")]))) "u3" ++
  asks 5 '0'
    (.syncBatch "dayglance" (.json (.obj [("accountId", .str "b"), ("rows", .arr [])]))) "u5"

/-- A request of `a` that claims `b` and is not well formed is answered 400. -/
theorem malformed_mismatch :
    let s := State.after sampleHost vouchedConfig (neighbours ++
      [.run (.arrive 0 ⟨some ("Bearer gvc_" ++ sampleSecret '0'),
      .syncBatch "dayglance" (.json (.obj [("accountId", .str "b")]))⟩)])
    (s.waiting 0).map (fun w => w.ofAccount "a") = some true ∧
      (s.answer sampleHost (.handle 0 (drawing "u" '2'))).map (·.status) = some 400 := by
  decide +kernel

/-- `b` sees nothing of `a`. -/
theorem noninterference_neighbours :
    let s := State.after sampleHost vouchedConfig neighbours
    (run (State.act sampleHost) s (foreignRequests ++ ownRequests)).server.view "b" =
        (run (State.act sampleHost) s ownRequests).server.view "b" ∧
      answers (observe sampleHost) (concerns fun id => decide (id % 2 = 0)) s
        (foreignRequests ++ ownRequests) =
        answers (observe sampleHost) (concerns fun id => decide (id % 2 = 0)) s ownRequests := by
  intro s
  have hnone : ∀ u, ¬ s.server.uses u := by
    have hsessions : s.server.db.uploadSessions.rows = [] := by decide +kernel
    have hparts : s.server.db.uploadParts.rows = [] := by decide +kernel
    have hdisk : s.server.disk = Disk.empty := by rfl
    intro u hu
    rcases hu with hu | ⟨p, hp, -⟩ | ⟨i, hi⟩
    · refine hu (Table.find_none.2 fun r hr => ?_)
      have hr : r ∈ s.server.db.uploadSessions.rows := hr
      rw [hsessions] at hr
      cases hr
    · have hp : p ∈ s.server.db.uploadParts.rows := hp
      rw [hparts] at hp
      cases hp
    · exact hi (congrFun hdisk (.part u i))
  have hschedule :
      ∀ as, (∀ a ∈ as, s.labels sampleHost "b" (fun id => decide (id % 2 = 0)) a = true) →
      (∀ a ∈ as, a.served = true) → (drawn as).Nodup → (∀ u ∈ drawn as, Js.isUploadId u = true) →
      Schedule sampleHost "b" (fun id => decide (id % 2 = 0)) s as := fun as h1 h2 h3 h4 =>
    ⟨by decide +kernel, h1, h2, h3, h4, fun u hu => absurd hu (hnone u)⟩
  have hclean : ∀ e ∈ neighbours, ∀ policy nowMs,
      e.action ≠ .reclaim policy nowMs := fun e he policy nowMs h => by
    rcases List.mem_cons.1 he with rfl | he
    · cases h
    · rw [List.mem_singleton] at he
      subst he
      cases h
  obtain ⟨h1, h2, -⟩ := noninterference sampleHost sampleSha_injective vouchedConfig hclean
    (by decide +kernel) "b" (fun id => decide (id % 2 = 0))
    (hschedule (foreignRequests ++ ownRequests) (by decide +kernel) (by decide +kernel)
      (by decide +kernel) (by decide +kernel))
    (hschedule ownRequests (by decide +kernel) (by decide +kernel) (by decide +kernel)
      (by decide +kernel)) (by rfl)
  exact ⟨h2, h1⟩

end GlanceVault.L4
