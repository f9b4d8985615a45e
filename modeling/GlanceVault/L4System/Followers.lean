import GlanceVault.L3Http.Pages
import GlanceVault.L4System.HubSteps
import GlanceVault.L4System.Vaults
/-!
# Devices that follow an app

A device reads the frames of a stream and lists the rows of an app from its
cursor on, a page at a time. A frame and a page are on their way for any time.
The device takes itself to be settled when a page said that there is no more,
and it has read no frame since it asked for that page. Between two deletions of
its account, with any other requests, sweeps, stops and restarts in between, and
as long as nobody asks for a batch without a nudge, a settled device that has
read its stream holds exactly the rows of the server.

What carries the proof: a write that changes the rows of the app moves the
counter, so it is announced, and an announcement reaches every stream of the
account or drops it (`next_tells`).

* `follows_step`: one move.
* `quiet_settles`: pages settle the device.
* `settled_exact`: a run.
-/
namespace GlanceVault.L4
open GlanceVault.Core GlanceVault.L1 GlanceVault.L1.Js GlanceVault.L2 GlanceVault.L3

/-! ## The device -/

/-- What a device follows, the stream it listens to, and its requests. -/
structure Seat where
  account : String
  app : String
  stream : Subscriber
  sends : Nat → Bool

/-- `seen`: how many frames it has read; `asked`: how many it had read when it
asked for the page it waits for; `page`: the page that is on its way. -/
structure Follower where
  client : DrainClient
  seen : Nat
  asked : Option Nat
  page : Option (List (String × Entry) × Bool)
  settled : Bool

/-- A move of the server, or of the device: it asks for a page, reads a frame,
or takes in the page that has come. -/
inductive Move
  | server (e : Event)
  | ask
  | hear
  | take

/-- The frames a stream was sent. -/
def framesOf (sub : Subscriber) (v : Server) : Nat :=
  (v.delivered.filter fun t => decide (t.1 = sub)).length

/-- The answer to a page the device asks for from its cursor on. -/
def Seat.poll (d : Seat) (host : Host) (s : State) (since : Nat) : Event → Option Response
  | .run (.handle id env) =>
    match s.handled host (.handle id env) with
    | some (_, a, .list app n _) =>
      if d.sends id = true ∧ a = d.account ∧ app = d.app ∧ n = since then
        s.answer host (.handle id env)
      else none
    | _ => none
  | _ => none

/-- The stream is open. -/
def Seat.listens (d : Seat) (v : Server) : Bool := decide (d.stream ∈ v.hub.set d.account)

/-- The stream has been opened. -/
def Seat.ready (d : Seat) (v : Server) : Bool := decide (d.stream.id < v.nextId)

/-- The stream is open, and `n` frames were sent on it. -/
def Seat.Heard (d : Seat) (v : Server) (n : Nat) : Prop :=
  d.listens v = true ∧ framesOf d.stream v = n

def Seat.start (d : Seat) (s : State) : Follower :=
  ⟨.start, framesOf d.stream s.server, none, none, false⟩

/-- A page is sent to a device that waits for one. -/
def Follower.sent (f : Follower) (p : Option (List (String × Entry) × Bool)) : Follower :=
  match f.asked, f.page, p with
  | some _, none, some p => { f with page := some p }
  | _, _, _ => f

/-- It takes in the page that has come. -/
def Follower.take (f : Follower) : Follower :=
  match f.page with
  | some (entries, hasMore) =>
    ⟨absorb f.client entries, f.seen, none, none, !hasMore && decide (f.asked = some f.seen)⟩
  | none => f

/-- What an event is to the device: the page it waits for is on its way, or its
stream ends with the process, and it starts again with the next one. -/
def Seat.notice (d : Seat) (host : Host) (s : State) (f : Follower) : Event → Follower
  | .run act => f.sent ((d.poll host s f.client.since (.run act)).bind pageOf)
  | .stop _ _ _ => { f with seen := 0, asked := none, settled := false }

/-- What the device makes of a move. It asks for a page when its stream has been
opened, and then takes no other. -/
def Seat.next (d : Seat) (host : Host) (s : State) (f : Follower) : Move → Follower
  | .server e => d.notice host s f e
  | .ask => if d.ready s.server then { f with asked := some f.seen, page := none } else f
  | .hear =>
    if f.seen < framesOf d.stream s.server then { f with seen := f.seen + 1, settled := false }
    else f
  | .take => f.take

/-- The server and the device. -/
def Seat.step (d : Seat) (host : Host) (c : State × Follower) (m : Move) : State × Follower :=
  (match m with | .server e => c.1.next host e | _ => c.1, d.next host c.1 c.2 m)

/-- A batch of the account for the app that asks for no nudge. -/
def Seat.silent (d : Seat) (host : Host) (s : State) (e : Event) : Bool :=
  match s.handled host e.action with
  | some (_, a, .batch app _ notify) => decide (a = d.account ∧ app = d.app ∧ notify = false)
  | _ => false

/-! ## What an event tells a stream -/

section Step
variable {host : Host} {s : State} {a app : String}

theorem next_moves {e : Event} (h : ¬ s.deletes host a e) :
    RowsMove a s.server.db (s.next host e).server.db :=
  kept_next h (I := RowsMove a s.server.db)
    (fun o ho d d' he hd => hd.trans (rows_move o ho d () d' he)) (.refl _)

theorem next_sound {e : Event} (h : (s.server.db.line a).Sound) :
    ((s.next host e).server.db.line a).Sound := by
  refine next_inv (I := fun d => (d.line a).Sound) (fun o d d' _ he hd => ?_) h
  have hstep := sound_step (a := a) (o, none) d hd
  unfold StoreOp.commit at hstep
  rwa [Tx.commit_none he] at hstep

/-- Rows that change move the counter. -/
theorem shelf_moves {e : Event} (h : ¬ s.deletes host a e)
    (hs : ((s.next host e).server.db.line a).Sound)
    (hmove : (s.next host e).server.shelf a app ≠ s.server.shelf a app) :
    latestSeq s.server.db a < latestSeq (s.next host e).server.db a := by
  obtain ⟨x, hx⟩ := Function.ne_iff.1 hmove
  rcases (next_moves h).row app x with he | ⟨r, hr, hlt⟩
  · exact absurd he hx
  · have hle : r.seq ≤ latestSeq (s.next host e).server.db a := hs.le (.row app x) r.seq (by
      show ((s.next host e).server.db.syncRows.find (a, app, x)).map _ = _
      rw [hr]
      rfl)
    omega

/-- **An event that handles no write of the app** leaves its shelf alone. -/
theorem next_shelf {e : Event} (hd : ¬ s.deletes host a e)
    (h : ∀ w call, s.handled host e.action = some (w, a, call) → call.shelves ≠ some app) :
    (s.next host e).server.shelf a app = s.server.shelf a app := by
  by_cases hasked : e.deletes a
  · have hdb : (s.next host e).server.db = s.server.db := not_not.1 fun hdb => hd ⟨hasked, hdb⟩
    unfold Server.shelf
    rw [hdb]
  cases hact : e.action with
  | handle id env =>
    refine next_keeps (fun _ => rfl) ?_
    rw [hact]
    rcases work_cases host s id env with ⟨w, b, call, hw, ha, hwork⟩ | ⟨-, hwork | ⟨x, hwork⟩⟩
    · rw [hwork]
      refine .bind (perform_shelf s.cfg host w.credential env fun hc hb => ?_) fun _ => .pure ()
      subst hb
      rw [hact] at h
      exact h w call (handled_some hw ha env) hc
    · rw [hwork]
      exact .pure ()
    · rw [hwork]
      exact .raise x
  | admin header route env =>
    refine next_inv (I := fun d => (fun x => d.syncRows.find (a, app, x)) = s.server.shelf a app)
      (fun o d d' ho he hI => ?_) rfl
    rw [← hI]
    have hop := op_keeps hasked ho
    rw [hact] at ho
    cases route with
    | deleteAccount b body =>
      cases ho
      have hb : b ≠ a := fun hb => hop (by rw [hb])
      obtain ⟨r, he⟩ := Tx.eval_void_ok _ he
      rw [deleteAccount_eval] at he
      split at he <;> cases he
      · rfl
      · funext x
        rw [← tenant_syncRow, without_other hb, tenant_syncRow]
    | _ =>
      have hpart : o.part = .registry := ho
      refine StoreOp.keeps o (π := fun d x => d.syncRows.find (a, app, x)) (fun db => ?_) d () d' he
      rw [hpart]
      rfl
  | _ =>
    refine next_inv (I := fun d => (fun x => d.syncRows.find (a, app, x)) = s.server.shelf a app)
      (fun o d d' ho he hI => ?_) rfl
    rw [← hI]
    rw [hact] at ho
    refine StoreOp.keeps o (π := fun d x => d.syncRows.find (a, app, x)) (fun db => ?_) d () d' he
    rcases ho with ho | ho <;> rw [ho] <;> rfl

/-- An announcement reaches every stream of the account that stays open. -/
theorem announced_frames {act : Action} (h : act.deletesAccount = false) {n : Nudge}
    {sub : Subscriber} (hp : (s.act host act).server.published = s.server.published ++ [(a, n)])
    (hsub : sub ∈ (s.act host act).server.hub.set a) :
    framesOf sub s.server < framesOf sub (s.act host act).server := by
  have hnumbers : s.server.Numbers [] := nofun
  obtain ⟨hstep, -⟩ := act_feed host h hnumbers
  have hsame : s.server.published ++ [(a, n)] ≠ s.server.published := fun e => by
    have := congrArg List.length e
    simp at this
  cases hstep with
  | idle hl hlive hj ha ht => exact absurd (hp.symm.trans ha) hsame
  | join k x new hl hlive hj ha ht => exact absurd (hp.symm.trans ha) hsame
  | announce k m reached hk hm hl hlive hj ha ht =>
    have hkm : [(k, m)] = [(a, n)] :=
      List.append_cancel_left (ha.symm.trans hp : s.server.published ++ [(k, m)] = _)
    cases hkm
    have hin : sub ∈ (s.server.hub.set a).filter reached := by
      rcases hlive a with ⟨-, hne⟩ | ⟨-, hfil⟩
      · exact absurd rfl hne
      · exact hfil ▸ hsub
    have ht : (s.act host act).server.delivered =
        s.server.delivered ++ ((s.server.hub.set a).filter reached).map fun x => (x, n) := ht
    have hgot :
        (sub, n) ∈ (((s.server.hub.set a).filter reached).map fun x => (x, n)).filter fun t =>
          decide (t.1 = sub) :=
      List.mem_filter.2 ⟨List.mem_map.2 ⟨sub, hin, rfl⟩, by simp⟩
    unfold framesOf
    rw [ht, List.filter_append, List.length_append]
    have := List.length_pos_of_mem hgot
    omega

/-- **Rows do not change in silence**: a stream that stays open is sent a frame. -/
theorem next_tells {d : Seat} {e : Event} (hd : ¬ s.deletes host d.account e)
    (hs : ((s.next host e).server.db.line d.account).Sound)
    (hsilent : d.silent host s e = false) (hopen : d.listens (s.next host e).server = true)
    (hframes : framesOf d.stream (s.next host e).server = framesOf d.stream s.server) :
    (s.next host e).server.shelf d.account d.app = s.server.shelf d.account d.app := by
  by_contra hmove
  have hopen := of_decide_eq_true hopen
  cases e with
  | stop act n cfg => cases hopen
  | run act =>
    obtain ⟨w, call, hh, hcall⟩ : ∃ w call, s.handled host act = some (w, d.account, call) ∧
        call.shelves = some d.app := by
      by_contra hno
      exact hmove (next_shelf hd fun w call hh hc => hno ⟨w, call, hh, hc⟩)
    have hlt : latestSeq s.server.db d.account < latestSeq (s.act host act).server.db d.account :=
      shelf_moves hd hs hmove
    have hnudges : s.nudges host act = some (d.account, d.app) := by
      unfold State.nudges
      rw [hh]
      cases call with
      | batch app rows notify =>
        cases hcall
        cases notify with
        | true => rfl
        | false =>
          have htrue : d.silent host s (.run act) = true := by
            unfold Seat.silent
            rw [show (Event.run act).action = act from rfl, hh]
            exact decide_eq_true ⟨rfl, rfl, rfl⟩
          rw [htrue] at hsilent
          cases hsilent
      | deleteEntity app x deletedAt =>
        cases hcall
        rfl
      | _ => cases hcall
    have hp := act_publishes host s act
    rw [hnudges] at hp
    simp only [hlt, if_true] at hp
    have hkind : act.deletesAccount = false := by
      cases act with
      | admin header route env => cases hh
      | _ => rfl
    have hmore := announced_frames hkind hp hopen
    have hframes : framesOf d.stream (s.act host act).server = _ := hframes
    omega

end Step

/-! ## Pages -/

section Poll
variable {d : Seat} {host : Host} {s : State}

/-- A page leaves the server as it is, and is the list after the cursor. -/
theorem poll_page {since : Nat} {e : Event} {r : Response} (h : d.poll host s since e = some r) :
    ∃ limit, 1 ≤ limit ∧ (s.next host e).server = s.server ∧
      pageOf r =
        some ((listRows d.app d.account since limit s.server.db).rows.map
          (fun r => (r.entityId, r.entry)),
        (listRows d.app d.account since limit s.server.db).hasMore) := by
  unfold Seat.poll at h
  cases e with
  | stop act n cfg => cases h
  | run act =>
    cases act with
    | handle id env =>
      rcases handled_cases host s id env with ⟨w, a, call, hh, -, hs, hans⟩ | ⟨hh, -⟩
      · simp only [hh] at h
        cases call with
        | list app n limit =>
          dsimp only at h
          split at h
          · rename_i hask
            obtain ⟨-, rfl, rfl, rfl⟩ := hask
            rw [hans] at h
            cases h
            exact ⟨limit, accept_list (handled_accept hh).2, hs,
              pageOf_list d.account d.app n limit s.server⟩
          · cases h
        | _ => cases h
      · simp only [hh] at h
        cases h
    | _ => cases h

end Poll

/-! ## Streams -/

section Streams
variable {host : Host} {s : State} {d : Seat}

/-- An action opens streams under new numbers, and sends frames after those it
has sent. -/
theorem act_streams (host : Host) (s : State) (act : Action) :
    s.server.nextId ≤ (s.act host act).server.nextId ∧
    (∀ a sub, sub ∈ (s.act host act).server.hub.set a → sub.id < s.server.nextId →
      sub ∈ s.server.hub.set a) ∧
    ∃ told, (s.act host act).server.delivered = s.server.delivered ++ told := by
  cases ht : act.tears with
  | false =>
    have hstep := act_hubStep host s ht
    refine ⟨hstep.opens.1, fun a sub hm hlt => ?_, hstep.told.imp fun _ h => h.1⟩
    rcases hstep.member hm with hold | ⟨p, hp, -, rfl⟩
    · exact hold
    · rcases hstep.opens.2 with hnone | ⟨q, hq, hid, -⟩
      · rw [hnone] at hp
        cases hp
      · rw [hq, List.mem_singleton] at hp
        rw [hp, hid] at hlt
        exact absurd hlt (Nat.lt_irrefl _)
  | true =>
    have hclose : ∀ a sub, s.server.nextId ≤ (s.server.closeStream a sub).nextId ∧
        (∀ b x, x ∈ (s.server.closeStream a sub).hub.set b → x.id < s.server.nextId →
          x ∈ s.server.hub.set b) ∧
        ∃ told, (s.server.closeStream a sub).delivered = s.server.delivered ++ told := fun a sub =>
      ⟨Nat.le_refl _, fun b x hx _ => (unsubscribe_sublist s.server.hub a b sub).subset hx, [],
        (List.append_nil _).symm⟩
    have hsame : s.server.nextId ≤ s.server.nextId ∧
        (∀ b x, x ∈ s.server.hub.set b → x.id < s.server.nextId → x ∈ s.server.hub.set b) ∧
        ∃ told, s.server.delivered = s.server.delivered ++ told :=
      ⟨Nat.le_refl _, fun _ _ hx _ => hx, [], (List.append_nil _).symm⟩
    cases act with
    | close a sub => exact hclose a sub
    | heartbeat a sub =>
      rw [show (s.act host (.heartbeat a sub)).server = s.server.heartbeat s.cfg a sub from rfl]
      unfold Server.heartbeat
      split
      · split
        · exact hsame
        · exact hclose a sub
      · exact hsame
    | _ => cases ht

theorem frames_grow (host : Host) (s : State) (act : Action) (sub : Subscriber) :
    framesOf sub s.server ≤ framesOf sub (s.act host act).server := by
  obtain ⟨told, ht⟩ := (act_streams host s act).2.2
  unfold framesOf
  rw [ht, List.filter_append, List.length_append]
  exact Nat.le_add_right _ _

theorem ready_stays {act : Action} (h : d.ready s.server = true) :
    d.ready (s.act host act).server = true :=
  decide_eq_true (Nat.lt_of_lt_of_le (of_decide_eq_true h) (act_streams host s act).1)

/-- **A stream that is still open and still carries what it carried** has told
of every change: the rows are as they were. -/
theorem heard_still {act : Action} {n : Nat} (hd : ¬ s.deletes host d.account (.run act))
    (hs : ((s.act host act).server.db.line d.account).Sound)
    (hloud : d.silent host s (.run act) = false)
    (hready : d.ready s.server = true) (hn : n ≤ framesOf d.stream s.server)
    (h : d.Heard (s.act host act).server n) :
    d.Heard s.server n ∧ (s.act host act).server.shelf d.account d.app =
      s.server.shelf d.account d.app := by
  obtain ⟨hopen, hframes⟩ := h
  have hsame : framesOf d.stream s.server = n :=
    Nat.le_antisymm (hframes ▸ frames_grow host s act d.stream) hn
  have hlistens : d.listens s.server = true :=
    decide_eq_true ((act_streams host s act).2.1 _ _ (of_decide_eq_true hopen)
      (of_decide_eq_true hready))
  exact ⟨⟨hlistens, hsame⟩, next_tells (e := .run act) hd hs hloud hopen (hframes.trans hsame.symm)⟩

end Streams

/-! ## Runs -/

/-- The page is the list after the cursor of the table `db`, which the server
has had. -/
structure Seat.Listed (d : Seat) (v : Server) (f : Follower) (p : List (String × Entry) × Bool)
    (db : Db) (limit : Nat) : Prop where
  room : 1 ≤ limit
  page : p =
    ((listRows d.app d.account f.client.since limit db).rows.map (fun r => (r.entityId, r.entry)),
    (listRows d.app d.account f.client.since limit db).hasMore)
  inv : (⟨db, f.client⟩ : Drain).Inv d.app d.account
  moves : RowsMove d.account db v.db
  same : ∀ n, f.asked = some n → d.Heard v n →
    ∀ e, v.db.syncRows.find (d.account, d.app, e) = db.syncRows.find (d.account, d.app, e)

/-- What is true of a device. It has everything up to its cursor; the page on
its way was listed for it; and it has everything when it is settled and has
read its stream. -/
structure Follows (d : Seat) (v : Server) (f : Follower) : Prop where
  inv : (⟨v.db, f.client⟩ : Drain).Inv d.app d.account
  seen : f.seen ≤ framesOf d.stream v
  asked : ∀ n, f.asked = some n → n ≤ f.seen ∧ d.ready v = true
  page : ∀ p, f.page = some p → ∃ db limit, d.Listed v f p db limit
  settled : f.settled = true → d.ready v = true ∧
    (f.asked = some f.seen ∨ f.asked = none ∧ f.page = none)
  caught : f.settled = true → d.Heard v f.seen →
    ∀ e, f.client.map e = (v.db.syncRows.find (d.account, d.app, e)).map SyncRow.entry

section Run
variable {d : Seat} {host : Host} {s : State} {f : Follower}

theorem follows_start (hs : (s.server.db.line d.account).Sound) :
    Follows d s.server (d.start s) where
  inv := drain_start hs
  seen := Nat.le_refl _
  asked _ h := nomatch h
  page _ h := nomatch h
  settled h := nomatch h
  caught h := nomatch h

/-- An event that brings the device nothing. -/
theorem follows_act (h : Follows d s.server f) {act : Action}
    (hd : ¬ s.deletes host d.account (.run act))
    (hloud : d.silent host s (.run act) = false) : Follows d (s.act host act).server f := by
  have hsound : ((s.act host act).server.db.line d.account).Sound :=
    next_sound (e := .run act) h.inv.sound
  have hmoves : RowsMove d.account s.server.db (s.act host act).server.db :=
    next_moves (e := .run act) hd
  have hstill : ∀ {n}, d.ready s.server = true → n ≤ f.seen → d.Heard (s.act host act).server n →
      d.Heard s.server n ∧ (s.act host act).server.shelf d.account d.app =
        s.server.shelf d.account d.app :=
    fun hready hn => heard_still hd hsound hloud hready (Nat.le_trans hn h.seen)
  refine ⟨drain_moves h.inv hsound hmoves, Nat.le_trans h.seen (frames_grow host s act d.stream),
    fun n hn => ⟨(h.asked n hn).1, ready_stays (h.asked n hn).2⟩, fun p hp => ?_,
    fun hset => ⟨ready_stays (h.settled hset).1, (h.settled hset).2⟩, fun hset hheard e => ?_⟩
  · obtain ⟨db, limit, hl⟩ := h.page p hp
    refine ⟨db, limit, hl.room, hl.page, hl.inv, hl.moves.trans hmoves, fun n hn hheard e => ?_⟩
    obtain ⟨hbefore, hshelf⟩ := hstill (h.asked n hn).2 (h.asked n hn).1 hheard
    exact (congrFun hshelf e).trans (hl.same n hn hbefore e)
  · obtain ⟨hbefore, hshelf⟩ := hstill (h.settled hset).1 (Nat.le_refl _) hheard
    rw [h.caught hset hbefore e]
    exact congrArg _ (congrFun hshelf e).symm

/-- What a page that was taken in makes of the device. -/
theorem taken {v : Server} {p : List (String × Entry) × Bool} {db : Db} {limit : Nat}
    (h : d.Listed v f p db limit) :
    absorb f.client p.1 = f.client.pull (listRows d.app d.account f.client.since limit db) := by
  rw [h.page, absorb_pull]

theorem follows_take {v : Server} (h : Follows d v f) {p : List (String × Entry) × Bool}
    (hp : f.page = some p) :
    Follows d v ⟨absorb f.client p.1, f.seen, none, none,
      !p.2 && decide (f.asked = some f.seen)⟩ := by
  obtain ⟨db, limit, hl⟩ := h.page p hp
  rw [taken hl]
  have hsettled : (!p.2 && decide (f.asked = some f.seen)) = true →
      (listRows d.app d.account f.client.since limit db).hasMore = false ∧
      f.asked = some f.seen := fun hset => by
    rw [Bool.and_eq_true, Bool.not_eq_true', decide_eq_true_eq, hl.page] at hset
    exact hset
  refine ⟨drain_moves (hl.inv.pull limit) h.inv.sound hl.moves, h.seen, fun n hn => (nomatch hn),
    fun q hq => (nomatch hq), fun hset =>
      ⟨(h.asked _ (hsettled hset).2).2, .inr ⟨rfl, rfl⟩⟩, fun hset hheard e => ?_⟩
  obtain ⟨hmore, hasked⟩ := hsettled hset
  rw [hl.same _ hasked hheard e]
  exact drain_final hl.inv hmore e

/-- A page on its way, as it is listed. -/
theorem follows_page {act : Action} {r : Response} (h : Follows d s.server f)
    (hr : d.poll host s f.client.since (.run act) = some r)
    {p : List (String × Entry) × Bool} (hp : pageOf r = some p) {n : Nat}
    (hasked : f.asked = some n) :
    Follows d (s.act host act).server { f with page := some p } := by
  obtain ⟨limit, hl, hsame, hlist⟩ := poll_page hr
  have hsame : (s.act host act).server = s.server := hsame
  rw [hsame]
  refine ⟨h.inv, h.seen, h.asked, fun q hq => ?_, fun hset => ⟨(h.settled hset).1, ?_⟩, h.caught⟩
  · cases hq
    exact ⟨s.server.db, limit, hl, Option.some.inj (hp.symm.trans hlist), h.inv, .refl _,
      fun _ _ _ _ => rfl⟩
  · exact (h.settled hset).2.imp_right fun hno => absurd (hno.1.symm.trans hasked) (by simp)

/-- An event, as the device notices it. -/
theorem follows_notice (h : Follows d s.server f) {e : Event} (hd : ¬ s.deletes host d.account e)
    (hloud : d.silent host s e = false) :
    Follows d (s.next host e).server (d.notice host s f e) := by
  cases e with
  | run act =>
    show Follows d (s.act host act).server
      (f.sent ((d.poll host s f.client.since (.run act)).bind pageOf))
    unfold Follower.sent
    split
    · rename_i n p hasked hnone hpage
      obtain ⟨r, hr, hp⟩ := Option.bind_eq_some_iff.1 hpage
      exact follows_page h hr hp hasked
    · exact follows_act h hd hloud
  | stop act n cfg =>
    have hsound : ((s.next host (.stop act n cfg)).server.db.line d.account).Sound :=
      next_sound h.inv.sound
    have hmoves : RowsMove d.account s.server.db (s.next host (.stop act n cfg)).server.db :=
      next_moves hd
    refine ⟨drain_moves h.inv hsound hmoves, Nat.zero_le _,
      fun n hn => (nomatch hn), fun p hp => ?_,
      fun hset => (nomatch hset), fun hset => (nomatch hset)⟩
    obtain ⟨db, limit, hl⟩ := h.page p hp
    exact ⟨db, limit, hl.room, hl.page, hl.inv, hl.moves.trans hmoves, fun n hn => (nomatch hn)⟩

/-- What a run may not have: a deletion of the account, or a batch without a nudge. -/
def Seat.Fair (d : Seat) (host : Host) (c : State × Follower) (m : Move) : Prop :=
  ∀ e, m = .server e → ¬ c.1.deletes host d.account e ∧ d.silent host c.1 e = false

/-- **One move.** -/
theorem follows_step {c : State × Follower} (h : Follows d c.1.server c.2) {m : Move}
    (hm : d.Fair host c m) :
    Follows d (d.step host c m).1.server (d.step host c m).2 := by
  obtain ⟨s, f⟩ := c
  cases m with
  | server e => exact follows_notice h (hm e rfl).1 (hm e rfl).2
  | ask =>
    show Follows d s.server
      (if d.ready s.server then { f with asked := some f.seen, page := none } else f)
    split
    · rename_i hready
      refine ⟨h.inv, h.seen, fun n hn => ?_, fun p hp => (nomatch hp),
        fun hset => ⟨hready, .inl rfl⟩, h.caught⟩
      cases hn
      exact ⟨Nat.le_refl _, hready⟩
    · exact h
  | hear =>
    show Follows d s.server
      (if f.seen < framesOf d.stream s.server then { f with seen := f.seen + 1, settled := false }
        else f)
    split
    · rename_i hmore
      exact ⟨h.inv, hmore, fun n hn => ⟨Nat.le_succ_of_le (h.asked n hn).1, (h.asked n hn).2⟩,
        fun p hp => (h.page p hp).imp fun db ⟨limit, hl⟩ =>
          ⟨limit, hl.room, hl.page, hl.inv, hl.moves, hl.same⟩,
        fun hset => (nomatch hset), fun hset => (nomatch hset)⟩
    · exact h
  | take =>
    show Follows d s.server f.take
    unfold Follower.take
    split
    · rename_i entries hasMore hpage
      exact follows_take h hpage
    · exact h

theorem follows_run : ∀ {ms : List Move} {c : State × Follower}, Follows d c.1.server c.2 →
    AllSteps (d.step host) (d.Fair host) c ms →
      Follows d (run (d.step host) c ms).1.server (run (d.step host) c ms).2
  | [], _, h, _ => h
  | m :: ms, c, h, hfair => by
    rw [run_cons]
    exact follows_run (follows_step h hfair.1) hfair.2

/-- A move of a quiet stretch: besides, the stream stays open and carries no
more than the device has read. -/
structure Seat.Quiet (d : Seat) (host : Host) (c : State × Follower) (m : Move) : Prop where
  fair : d.Fair host c m
  still : d.Heard (d.step host c m).1.server c.2.seen

/-- The device takes in a page, and has read no frame since it asked for it. -/
def Follower.fresh (f : Follower) : Move → Bool
  | .take => f.page.isSome && decide (f.asked = some f.seen)
  | _ => false

/-- How many such pages there are. -/
def Seat.pages (d : Seat) (host : Host) : State × Follower → List Move → Nat
  | _, [] => 0
  | c, m :: ms => (if c.2.fresh m then 1 else 0) + d.pages host (d.step host c m) ms

/-- What the device still has to do when `k` pages are to come. -/
def Seat.Due (d : Seat) (v : Server) (f : Follower) (k : Nat) : Prop :=
  ahead d.app d.account f.client.since v.db = 0 ∧ f.settled = true ∨
  ahead d.app d.account f.client.since v.db < k

theorem due_take {v : Server} (h : Follows d v f) (hheard : d.Heard v f.seen) {k : Nat}
    (hdue : d.Due v f (k + if f.fresh .take then 1 else 0)) : d.Due v f.take k := by
  cases hp : f.page with
  | none =>
    have hfresh : f.fresh .take = false := by simp [Follower.fresh, hp]
    rw [hfresh] at hdue
    unfold Follower.take
    rw [hp]
    exact hdue
  | some p =>
    obtain ⟨db, limit, hl⟩ := h.page p hp
    have htake : f.take = ⟨f.client.pull (listRows d.app d.account f.client.since limit db),
        f.seen, none, none,
        !(listRows d.app d.account f.client.since limit db).hasMore && decide
          (f.asked = some f.seen)⟩ := by
      unfold Follower.take
      rw [hp]
      show (⟨absorb f.client p.1, _, _, _, !p.2 && _⟩ : Follower) = _
      rw [taken hl, hl.page]
    rw [htake]
    by_cases hasked : f.asked = some f.seen
    · -- the page is as it would be listed now
      have hahead : ∀ n, ahead d.app d.account n v.db = ahead d.app d.account n db :=
        ahead_congr (hl.same _ hasked hheard)
      have hfresh : f.fresh .take = true := by simp [Follower.fresh, hp, hasked]
      rw [hfresh] at hdue
      unfold Seat.Due at hdue ⊢
      simp only [hahead, if_true] at hdue ⊢
      rcases ahead_pull d.app d.account f.client db hl.room with ⟨hmore, hnone⟩ | hless
      · exact .inl ⟨hnone, by simp [hmore, hasked]⟩
      · right
        omega
    · have hfresh : f.fresh .take = false := by simp [Follower.fresh, hasked]
      rw [hfresh] at hdue
      rcases hdue with ⟨-, hset⟩ | hless
      · -- a settled device waits for a fresh page or for none
        rcases (h.settled hset).2 with e | ⟨-, e⟩
        · exact absurd e hasked
        · exact absurd (e.symm.trans hp) (by simp)
      · exact .inr
          (Nat.lt_of_le_of_lt
            (ahead_le (pull_forward d.app d.account f.client db limit) v.db) hless)

theorem due_step {c : State × Follower} (h : Follows d c.1.server c.2)
    (hheard : d.Heard c.1.server c.2.seen) {m : Move}
    (hq : d.Quiet host c m) {k : Nat}
    (hdue : d.Due c.1.server c.2 (k + if c.2.fresh m then 1 else 0)) :
    d.Heard (d.step host c m).1.server (d.step host c m).2.seen ∧
      d.Due (d.step host c m).1.server (d.step host c m).2 k := by
  obtain ⟨s, f⟩ := c
  obtain ⟨hopen, hframes⟩ := hq.still
  cases m with
  | server e =>
    obtain ⟨hd, hloud⟩ := hq.fair e rfl
    have hsound : ((s.next host e).server.db.line d.account).Sound := next_sound h.inv.sound
    have hshelf := next_tells hd hsound hloud hopen (hframes.trans hheard.2.symm)
    have hsame : (d.notice host s f e).client = f.client ∧ (d.notice host s f e).seen = f.seen ∧
        (d.notice host s f e).settled = f.settled := by
      cases e with
      | stop act n cfg => exact nomatch of_decide_eq_true hopen
      | run act =>
        show (f.sent _).client = _ ∧ (f.sent _).seen = _ ∧ (f.sent _).settled = _
        unfold Follower.sent
        split <;> exact ⟨rfl, rfl, rfl⟩
    obtain ⟨hclient, hseen, hsettled⟩ := hsame
    refine ⟨⟨hopen, hframes.trans hseen.symm⟩, ?_⟩
    show d.Due (s.next host e).server (d.notice host s f e) k
    unfold Seat.Due at hdue ⊢
    rw [hclient, hsettled, ahead_congr (congrFun hshelf)]
    exact hdue
  | ask =>
    show d.Heard s.server (if _ then _ else f : Follower).seen ∧
      d.Due s.server (if _ then _ else f) k
    split <;> exact ⟨hheard, hdue⟩
  | hear =>
    have hread : ¬ f.seen < framesOf d.stream s.server := Nat.not_lt.2 hheard.2.le
    show d.Heard s.server (if f.seen < framesOf d.stream s.server then _ else f : Follower).seen ∧
      d.Due s.server (if f.seen < framesOf d.stream s.server then _ else f) k
    rw [if_neg hread]
    exact ⟨hheard, hdue⟩
  | take =>
    refine ⟨?_, due_take h hheard hdue⟩
    show d.Heard s.server f.take.seen
    unfold Follower.take
    split <;> exact hheard

/-- **In quiet, more pages than there are rows ahead settle the device.** -/
theorem quiet_settles : ∀ {ms : List Move} {c : State × Follower},
    Follows d c.1.server c.2 → d.Heard c.1.server c.2.seen →
    AllSteps (d.step host) (d.Quiet host) c ms → d.Due c.1.server c.2 (d.pages host c ms) →
      (run (d.step host) c ms).2.settled = true
  | [], _, _, _, _, h => h.elim And.right fun h => absurd h (Nat.not_lt_zero _)
  | m :: ms, c, hf, hheard, hquiet, h => by
    rw [run_cons]
    have hpages : d.pages host c (m :: ms) =
        d.pages host (d.step host c m) ms + if c.2.fresh m then 1 else 0 :=
      Nat.add_comm _ _
    rw [hpages] at h
    obtain ⟨hheard', hdue⟩ := due_step hf hheard hquiet.1 h
    exact quiet_settles (follows_step hf hquiet.1.fair) hheard' hquiet.2 hdue

end Run

/-- **A settled device that has read its stream holds the rows of the server.**
A device starts at some point of a run, and from then on its account is not
deleted and nobody asks for a batch of its app without a nudge; everything else
may happen, stops and restarts too, and pages and frames reach the device when
they do. Whenever it is settled, its stream open and its frames read, its map is
the table. And in quiet it is settled when it has taken in more fresh pages than
there were rows ahead of it. -/
theorem settled_exact (host : Host) (cfg : Config) (before : List Event) (d : Seat) (ms : List Move)
    (hfair : AllSteps (d.step host) (d.Fair host) (State.after host cfg before,
      d.start (State.after host cfg before)) ms) :
    let c := run (d.step host) (State.after host cfg before,
      d.start (State.after host cfg before)) ms
    d.Heard c.1.server c.2.seen →
      (c.2.settled = true → ∀ e, c.2.client.map e =
        (c.1.server.db.syncRows.find (d.account, d.app, e)).map SyncRow.entry) ∧
      ∀ rest, AllSteps (d.step host) (d.Quiet host) c rest →
        ahead d.app d.account c.2.client.since c.1.server.db < d.pages host c rest →
          (run (d.step host) c rest).2.settled = true := by
  intro c hheard
  have hc : Follows d c.1.server c.2 :=
    follows_run (follows_start (after_sound host cfg before d.account)) hfair
  exact ⟨fun h => hc.caught h hheard,
    fun rest hquiet hlen => quiet_settles hc hheard hquiet (.inr hlen)⟩

/-- A device of the house listens to the first stream. -/
def kitchen : Seat := ⟨"house", "dayglance", ⟨1, none⟩, fun _ => true⟩

def pageAfter (since : String) : List Move :=
  let query : Js.Query := fun k =>
    if k = "accountId" then some (.str "house") else if k = "since" then some (.str since) else none
  (ask (.syncList "dayglance" query) (sampleEnv "" "t")).map fun act => .server (.run act)

def written (e : String) : List Move := (writeOne e).map fun act => .server (.run act)

/-- It connects, a row is written, and while the page with it is on its way
another row is written: the frame of the second row comes before the page. -/
def overtaken : List Move :=
  (ask (.events household) (sampleEnv "" "t")).map (fun act => .server (.run act)) ++
    written "e" ++ [.hear, .ask] ++
    pageAfter "0" ++ written "f" ++ [.hear, .take]

/-- It asks for two more pages. -/
def catchesUp : List Move := [.ask] ++ pageAfter "1" ++ [.take, .ask] ++ pageAfter "2" ++ [.take]

/-- No account is deleted, and no batch comes without a nudge. -/
def Seat.fairly (d : Seat) (host : Host) (c : State × Follower) : Move → Bool
  | .server e => !e.action.deletesAccount && !d.silent host c.1 e
  | _ => true

theorem fairly_fair {d : Seat} {host : Host} {c : State × Follower} {m : Move}
    (h : d.fairly host c m = true) :
    d.Fair host c m := by
  rintro e rfl
  simp only [Seat.fairly, Bool.and_eq_true, Bool.not_eq_true'] at h
  refine ⟨fun hd => ?_, h.2⟩
  obtain ⟨⟨header, body, env, hact⟩, -⟩ := hd
  rw [hact] at h
  cases h.1

/-- The page does not settle it, two more do. -/
theorem settled_exact_overtaken :
    let start :=
      (State.after sampleHost sampleConfig [],
        kitchen.start (State.after sampleHost sampleConfig []))
    let behind := run (kitchen.step sampleHost) start overtaken
    let settled := run (kitchen.step sampleHost) behind catchesUp
    (behind.2.settled, behind.2.client.since) = (false, 1) ∧ settled.2.settled = true ∧
      ∀ e, settled.2.client.map e =
        (settled.1.server.db.syncRows.find ("house", "dayglance", e)).map SyncRow.entry := by
  intro start behind settled
  have hfair : AllSteps (kitchen.step sampleHost) (kitchen.Fair sampleHost) start
      (overtaken ++ catchesUp) := by
    have hfairly : AllSteps (kitchen.step sampleHost)
        (fun c m => kitchen.fairly sampleHost c m = true) start
        (overtaken ++ catchesUp) := by decide +kernel
    exact hfairly.mono fun _ _ => fairly_fair
  have hquiet : AllSteps (kitchen.step sampleHost) (kitchen.Quiet sampleHost) behind catchesUp := by
    have hstill : AllSteps (kitchen.step sampleHost)
        (fun c m => kitchen.fairly sampleHost c m = true ∧
        kitchen.listens (kitchen.step sampleHost c m).1.server = true ∧
        framesOf kitchen.stream
          (kitchen.step sampleHost c m).1.server = c.2.seen) behind catchesUp := by decide +kernel
    exact hstill.mono fun _ _ h => ⟨fairly_fair h.1, h.2⟩
  have hbehind : (behind.2.settled, behind.2.client.since) = (false, 1) := by decide +kernel
  have hsettles :=
    (settled_exact sampleHost sampleConfig [] kitchen overtaken (allSteps_append.1 hfair).1
      ⟨by decide +kernel, by decide +kernel⟩).2 catchesUp hquiet (by decide +kernel)
  have hexact := (settled_exact sampleHost sampleConfig [] kitchen (overtaken ++ catchesUp) hfair
    ⟨by decide +kernel, by decide +kernel⟩).1
  rw [run_append] at hexact
  have hsettled :
      run (kitchen.step sampleHost) (run (kitchen.step sampleHost) start overtaken) catchesUp =
        settled := rfl
  rw [hsettled] at hsettles hexact
  clear_value settled
  exact ⟨hbehind, hsettles, hexact hsettles⟩

end GlanceVault.L4
