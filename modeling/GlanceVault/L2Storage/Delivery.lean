import GlanceVault.L1Encoding.IsoOrder
import GlanceVault.L2Storage.Parts
/-!
# The intents loop (`GET /intents/list`)

A receiver starts at cursor 0, asks for a page after its cursor, moves the
cursor to the last returned number and asks again, while others insert and
prune. A page leaves out what is expired at its own clock reading, so a row can
drop out between two pages.

What carries the proof is a statement about every stored row at or below the
cursor (`Delivery.Inv`): the loop has returned it, or it had expired when the
loop passed it, and then it stays expired, for the clock does not go back.

* `events_move`: an operation adds rows only above the counter.
* `Inv.pull`, `Inv.write`: a page and a write keep the invariant.
* `delivery_complete`: ordered, nothing expired, nothing missed.
-/
namespace GlanceVault.L2
open GlanceVault.Core GlanceVault.L1

/-! ## What a write does to the events -/

/-- Every event of the account was there before or has a number above the old
counter. -/
structure EventsMove (a : String) (d d' : Db) : Prop where
  counter : latestSeq d a ≤ latestSeq d' a
  event : ∀ r ∈ d'.intentEvents.rows, r.accountId = a → r ∈ d.intentEvents.rows ∨
    latestSeq d a < r.seq

section EventsMove
variable {a : String}

theorem EventsMove.refl (d : Db) : EventsMove a d d := ⟨Nat.le_refl _, fun _ h _ => .inl h⟩

theorem EventsMove.trans {x y z : Db} (h1 : EventsMove a x y) (h2 : EventsMove a y z) :
    EventsMove a x z := by
  refine ⟨Nat.le_trans h1.counter h2.counter, fun r hr ha => ?_⟩
  rcases h2.event r hr ha with h | h
  · exact h1.event r h ha
  · have hc := h1.counter
    exact .inr (by omega)

theorem eventsMove_write (db : Db) (b : String) (ev : IntentEventInput) (now : String) :
    EventsMove a db (db.writeIntent b ev now) := by
  refine ⟨?_, fun r hr ha => ?_⟩
  · show latestSeq db a ≤ latestSeq (db.bump b) a
    rw [latestSeq_bump]
    by_cases h : b = a
    · rw [if_pos h, h]
      omega
    · rw [if_neg h]
  · have hr : r ∈ (db.intentEvents.upsert (ev.stored b (latestSeq db b + 1) now)).rows := hr
    rcases Table.mem_upsert.1 hr with rfl | ⟨hr, -⟩
    · have hb : b = a := ha
      right
      show latestSeq db a < latestSeq db b + 1
      rw [hb]
      omega
    · exact .inl hr

/-- **What any operation but the account's deletion does to its events.** -/
theorem events_move (o : StoreOp) (ho : o ≠ .deleteAccount a) : o.tx.Moves (EventsMove a) := by
  have hcounter : ∀ {db u db'}, o.tx.eval db = .ok (u, db') → latestSeq db a ≤ latestSeq db' a :=
    fun e => Line.counter_le (line_reaches o ho _ _ _ e)
  have hkeep : o.tx.Keeps Db.intentEvents → o.tx.Moves (EventsMove a) := fun h db u db' e =>
    ⟨hcounter e, fun r hr _ => .inl (by rwa [h db u db' e] at hr)⟩
  cases o with
  | insertIntents b evs now =>
    refine Tx.Moves.void .refl .trans
      (insertIntents_moves .refl .trans (fun db ev t _ => eventsMove_write db b ev t)
      (fun db t => ⟨Nat.le_refl _, fun r hr _ => .inl (Table.mem_keep.1 hr).1⟩) evs now)
  | pruneExpiredIntents now =>
    intro db u db' e
    refine ⟨hcounter e, fun r hr _ => .inl ?_⟩
    obtain ⟨n, d, h1, h2⟩ := Tx.eval_bind_ok e
    have h1 : (L2.pruneExpiredIntents now).eval db = .ok (n, d) := h1
    unfold L2.pruneExpiredIntents at h1
    rw [Tx.eval_write] at h1
    cases h1
    cases h2
    exact (Table.mem_keep.1 hr).1
  | deleteAccount b =>
    intro db u db' e
    refine ⟨hcounter e, fun r hr _ => .inl ?_⟩
    obtain ⟨n, d, h1, h2⟩ := Tx.eval_bind_ok e
    have h1 : (L2.deleteAccount b).eval db = .ok (n, d) := h1
    rw [deleteAccount_eval] at h1
    cases h2
    split at h1 <;> cases h1
    · exact hr
    · exact (Table.mem_keep.1 hr).1
  | _ => exact hkeep (StoreOp.keeps _ fun _ => rfl)

end EventsMove

/-! ## The loop -/

/-- `clock` is the reading of the last page; `returned` has each event with the
reading it was returned at. -/
structure Delivery where
  db : Db
  clock : Int
  since : Nat
  returned : List (Int × IntentEvent)

def Delivery.start (db : Db) (clock : Int) : Delivery := ⟨db, clock, 0, []⟩

/-- The receiver's next page, at the clock's reading. -/
def Delivery.page (s : Delivery) (a : String) (limit : Nat) (now : Int) : Page IntentEvent :=
  listIntents a s.since limit (Iso.isoText now) s.db

/-- Take a page and move the cursor to its last number. -/
def Delivery.pull (s : Delivery) (a : String) (limit : Nat) (now : Int) : Delivery where
  db := s.db
  clock := now
  since := (s.page a limit now).rows.getLast?.elim s.since (·.seq)
  returned := s.returned ++ (s.page a limit now).rows.map fun r => (now, r)

/-- The loop asks for its next page, or some other client commits a write. -/
inductive DeliveryEvent
  | pull (now : Int)
  | write (o : StoreOp × Fault)

def deliveryStep (a : String) (limit : Nat) (s : Delivery) : DeliveryEvent → Delivery
  | .pull now => s.pull a limit now
  | .write o => { s with db := (StoreOp.commit o s.db).2 }

/-- A clock that does not go back, in the four-digit years; the account stays. -/
def Timely (a : String) (s : Delivery) : DeliveryEvent → Prop
  | .pull now => s.clock ≤ now ∧ Iso.FourDigit now
  | .write o => o.1 ≠ .deleteAccount a

/-- Past its expiry, at a reading of the clock. -/
def Expired (r : IntentEvent) (now : Int) : Prop := ¬ Iso.isoText now < r.expiresAt

theorem Expired.later {r : IntentEvent} {t now : Int} (h : Expired r t) (ht : Iso.FourDigit t)
    (hn : Iso.FourDigit now) (hle : t ≤ now) : Expired r now := by
  intro hlt
  by_cases he : t = now
  · exact h (he ▸ hlt)
  · exact h (lt_trans (Iso.isoText_lt ht hn (by omega)) hlt)

/-- For an expiry with a four-digit year, expired means that its time has come. -/
theorem expired_iff {r : IntentEvent} {expiry now : Int} (hr : r.expiresAt = Iso.isoText expiry)
    (he : Iso.FourDigit expiry) (hn : Iso.FourDigit now) : Expired r now ↔ expiry ≤ now := by
  unfold Expired
  rw [hr, Iso.isoText_lt_iff hn he]
  omega

/-- An event of a page is stored, of the account, after the cursor and unexpired. -/
theorem on_page {a : String} {limit : Nat} {now : Int} {s : Delivery} {r : IntentEvent}
    (h : r ∈ (s.page a limit now).rows) :
    r ∈ s.db.intentEvents.rows ∧ r.accountId = a ∧ s.since < r.seq ∧ ¬ Expired r now := by
  obtain ⟨hm, hs⟩ := page_mem h
  obtain ⟨hr, hp⟩ := List.mem_filter.1 hm
  obtain ⟨ha, ht⟩ := of_decide_eq_true hp
  exact ⟨hr, ha, hs, fun he => he ht⟩

theorem listable {a : String} {now : Int} {db : Db} {r : IntentEvent}
    (hr : r ∈ db.intentEvents.rows) (ha : r.accountId = a) (hu : ¬ Expired r now) :
    r ∈ db.intentEvents.rows.filter fun r => decide (r.accountId = a ∧
      Iso.isoText now < r.expiresAt) :=
  List.mem_filter.2 ⟨hr, by simpa [ha] using not_not.1 hu⟩

structure Delivery.Inv (a : String) (s : Delivery) : Prop where
  sound : (s.db.line a).Sound
  clock : Iso.FourDigit s.clock
  cursor : s.since ≤ latestSeq s.db a
  passed : ∀ r ∈ s.db.intentEvents.rows, r.accountId = a → r.seq ≤ s.since →
    r ∈ s.returned.map Prod.snd ∨ Expired r s.clock
  ordered : (s.returned.map fun x => x.2.seq).Pairwise (· < ·)
  bounded : ∀ x ∈ s.returned, x.2.seq ≤ s.since
  fresh : ∀ x ∈ s.returned, x.2.accountId = a ∧ Iso.FourDigit x.1 ∧ ¬ Expired x.2 x.1

section Inv
variable {a : String} {s : Delivery}

/-- Two events of the account with one number are one event. -/
theorem Delivery.Inv.seq_inj (h : s.Inv a) {r x : IntentEvent} (hr : r ∈ s.db.intentEvents.rows)
    (hx : x ∈ s.db.intentEvents.rows) (ha : r.accountId = a) (hxa : x.accountId = a)
    (hs : r.seq = x.seq) : r = x := by
  have h1 : s.db.stampOf a (.event r.eventId) = some r.seq := stamp_event hr ha
  have h2 : s.db.stampOf a (.event x.eventId) = some r.seq := by rw [stamp_event hx hxa, hs]
  have he : Holder.event r.eventId = .event x.eventId := h.sound.distinct _ _ r.seq h1 h2
  refine Table.eq_of_mem hr hx ?_
  unfold IntentEvent.key
  rw [ha, hxa]
  exact congrArg (Prod.mk a) (Holder.event.inj he)

theorem Delivery.Inv.seq_le (h : s.Inv a) {r : IntentEvent} (hr : r ∈ s.db.intentEvents.rows)
    (ha : r.accountId = a) :
    r.seq ≤ latestSeq s.db a := h.sound.le (.event r.eventId) r.seq (stamp_event hr ha)

/-- The numbers of a page go up. -/
theorem Delivery.Inv.page_ordered (h : s.Inv a) (limit : Nat) (now : Int) :
    ((s.page a limit now).rows.map (·.seq)).Pairwise (· < ·) := by
  have hsort : (s.page a limit now).rows.Pairwise fun x y => x.seq ≤ y.seq := page_sorted _ _ _ _
  have hnodup : (s.page a limit now).rows.Nodup := by
    refine List.Nodup.sublist (page_initial _ _ _ _).sublist ?_
    unfold after
    exact (List.perm_insertionSort _ _).nodup_iff.2
      (((List.Nodup.of_map _ s.db.intentEvents.unique).filter _).filter _)
  rw [List.pairwise_map]
  refine (hsort.and hnodup).imp_of_mem fun {x y} hx hy hxy => ?_
  rcases Nat.lt_or_eq_of_le hxy.1 with hlt | heq
  · exact hlt
  · obtain ⟨hx1, hx2, -⟩ := on_page hx
    obtain ⟨hy1, hy2, -⟩ := on_page hy
    exact absurd (h.seq_inj hx1 hy1 hx2 hy2 heq) hxy.2

theorem pull_cursor (s : Delivery) (a : String) (limit : Nat) (now : Int) :
    ((s.page a limit now).rows = [] ∧ (s.pull a limit now).since = s.since) ∨
      ∃ r ∈ (s.page a limit now).rows, (s.pull a limit now).since = r.seq ∧
        ∀ x ∈ (s.page a limit now).rows, x.seq ≤ r.seq := by
  unfold Delivery.pull
  cases hl : (s.page a limit now).rows.getLast? with
  | none => exact .inl ⟨List.getLast?_eq_none_iff.1 hl, rfl⟩
  | some y =>
    obtain ⟨l, hl'⟩ := List.getLast?_eq_some_iff.1 hl
    have hsort : (s.page a limit now).rows.Pairwise fun x y => x.seq ≤ y.seq := page_sorted _ _ _ _
    refine .inr ⟨y, List.mem_of_getLast? hl, rfl, fun x hx => ?_⟩
    rw [hl'] at hx hsort
    rcases List.mem_append.1 hx with hx | hx
    · exact (List.pairwise_append.1 hsort).2.2 x hx y List.mem_cons_self
    · rw [List.mem_singleton.1 hx]

/-- A page keeps the invariant. -/
theorem Delivery.Inv.pull (h : s.Inv a) {limit : Nat} {now : Int} (hle : s.clock ≤ now)
    (hn : Iso.FourDigit now) :
    (s.pull a limit now).Inv a := by
  have hsince : s.since ≤ (s.pull a limit now).since := by
    rcases pull_cursor s a limit now with ⟨-, e⟩ | ⟨r, hr, e, -⟩
    · rw [e]
    · rw [e]
      exact Nat.le_of_lt (on_page hr).2.2.1
  have hreturned : (s.pull a limit now).returned =
      s.returned ++ (s.page a limit now).rows.map fun r => (now, r) :=
    rfl
  refine ⟨h.sound, hn, ?_, fun r hr ha hs => ?_, ?_, fun x hx => ?_, fun x hx => ?_⟩
  · rcases pull_cursor s a limit now with ⟨-, e⟩ | ⟨r, hr, e, -⟩
    · rw [e]
      exact h.cursor
    · rw [e]
      exact h.seq_le (on_page hr).1 (on_page hr).2.1
  · have hr : r ∈ s.db.intentEvents.rows := hr
    rw [hreturned, List.map_append]
    by_cases hold : r.seq ≤ s.since
    · rcases h.passed r hr ha hold with hret | hexp
      · exact .inl (List.mem_append_left _ hret)
      · exact .inr (hexp.later h.clock hn hle)
    · -- above the old cursor: on this page, unless it has expired
      by_cases hexp : Expired r now
      · exact .inr hexp
      · left
        refine List.mem_append_right _ ?_
        rw [List.map_map]
        refine List.mem_map.2 ⟨r, ?_, rfl⟩
        have hin := listable hr ha hexp
        rcases pull_cursor s a limit now with ⟨-, e⟩ | ⟨y, hy, e, -⟩
        · omega
        · rw [e] at hs
          rcases Nat.lt_or_eq_of_le hs with hlt | heq
          · exact page_below hy hin (by omega) hlt
          · rw [h.seq_inj hr (on_page hy).1 ha (on_page hy).2.1 heq]
            exact hy
  · rw [hreturned, List.map_append, List.pairwise_append]
    refine ⟨h.ordered, ?_, fun m hm n hn => ?_⟩
    · rw [List.map_map]
      exact h.page_ordered limit now
    · obtain ⟨x, hx, rfl⟩ := List.mem_map.1 hm
      obtain ⟨y, hy, rfl⟩ := List.mem_map.1 hn
      obtain ⟨r, hr, rfl⟩ := List.mem_map.1 hy
      exact Nat.lt_of_le_of_lt (h.bounded x hx) (on_page hr).2.2.1
  · rw [hreturned] at hx
    rcases List.mem_append.1 hx with hx | hx
    · exact Nat.le_trans (h.bounded x hx) hsince
    · obtain ⟨r, hr, rfl⟩ := List.mem_map.1 hx
      rcases pull_cursor s a limit now with ⟨e, -⟩ | ⟨y, -, e, hmax⟩
      · rw [e] at hr
        cases hr
      · rw [e]
        exact hmax r hr
  · rw [hreturned] at hx
    rcases List.mem_append.1 hx with hx | hx
    · exact h.fresh x hx
    · obtain ⟨r, hr, rfl⟩ := List.mem_map.1 hx
      exact ⟨(on_page hr).2.1, hn, (on_page hr).2.2.2⟩

/-- A write by another client keeps the invariant. -/
theorem Delivery.Inv.write (h : s.Inv a) {o : StoreOp × Fault} (ho : o.1 ≠ .deleteAccount a) :
    ({ s with db := (StoreOp.commit o s.db).2 } : Delivery).Inv a := by
  have hm := (events_move o.1 ho).commit .refl o.2 s.db
  refine ⟨sound_step o s.db h.sound, h.clock, Nat.le_trans h.cursor hm.counter,
    fun r hr ha hs => ?_, h.ordered,
    h.bounded, h.fresh⟩
  rcases hm.event r hr ha with hold | hnew
  · exact h.passed r hold ha hs
  · have hc := h.cursor
    have hs : r.seq ≤ s.since := hs
    omega

theorem delivery_step {limit : Nat} {e : DeliveryEvent} (he : Timely a s e) (h : s.Inv a) :
    (deliveryStep a limit s e).Inv a := by
  cases e with
  | pull now => exact h.pull he.1 he.2
  | write o => exact h.write he

end Inv

/-- **Delivery is complete and ordered.** After any run of the store, a receiver
pages through an account's intents while others write. If the clock of its
calls does not go back: the numbers it is given go up over the whole loop; no
call gives it an event whose time has come; and when a call says that nothing is
left, it has been given every stored event of the account whose time has not
come. -/
theorem delivery_complete (before : List (StoreOp × Fault)) (a : String) (limit : Nat) (t0 : Int)
    (ht0 : Iso.FourDigit t0) (es : List DeliveryEvent)
    (hes : AllSteps (deliveryStep a limit) (Timely a) (.start (runOps .empty before) t0) es) :
    let s := run (deliveryStep a limit) (.start (runOps .empty before) t0) es
    (s.returned.map fun x => x.2.seq).Pairwise (· < ·) ∧
    (∀ x ∈ s.returned, x.2.accountId = a ∧
      ∀ expiry, Iso.FourDigit expiry → x.2.expiresAt = Iso.isoText expiry → x.1 < expiry) ∧
    ∀ now, s.clock ≤ now → Iso.FourDigit now → (s.page a limit now).hasMore = false →
      ∀ r ∈ s.db.intentEvents.rows, r.accountId = a →
        ∀ expiry, Iso.FourDigit expiry → r.expiresAt = Iso.isoText expiry → now < expiry →
          r ∈ (s.pull a limit now).returned.map Prod.snd := by
  intro s
  have hinv : s.Inv a := by
    refine run_inv_of (I := Delivery.Inv a) (fun s e he h => delivery_step he h) es _ hes ?_
    refine ⟨sound_run before, ht0, Nat.zero_le _, fun r hr ha hs => ?_, List.Pairwise.nil, ?_, ?_⟩
    · have hpos := (sound_run (a := a) before).pos (.event r.eventId) r.seq (stamp_event hr ha)
      have hs : r.seq ≤ 0 := hs
      omega
    · exact fun x hx => absurd hx List.not_mem_nil
    · exact fun x hx => absurd hx List.not_mem_nil
  refine ⟨hinv.ordered, fun x hx => ?_, fun now hle hn hmore r hr ha expiry he hexp hlt => ?_⟩
  · obtain ⟨ha, hclock, hfresh⟩ := hinv.fresh x hx
    refine ⟨ha, fun expiry he hexp => ?_⟩
    rw [expired_iff hexp he hclock] at hfresh
    omega
  · have hunexp : ¬ Expired r now := by
      rw [expired_iff hexp he hn]
      omega
    have hnext : (s.pull a limit now).Inv a := hinv.pull hle hn
    by_cases hpassed : r.seq ≤ s.since
    · rcases hinv.passed r hr ha hpassed with hret | hexp'
      · unfold Delivery.pull
        rw [List.map_append]
        exact List.mem_append_left _ hret
      · exact absurd (hexp'.later hinv.clock hn hle) hunexp
    · have hin : r ∈ (s.page a limit now).rows :=
        page_complete hmore (listable hr ha hunexp) (by omega)
      refine (hnext.passed r hr ha ?_).resolve_right hunexp
      rcases pull_cursor s a limit now with ⟨e, -⟩ | ⟨y, -, e, hmax⟩
      · rw [e] at hin
        cases hin
      · rw [e]
        exact hmax r hin

/-- Three intents, pages of one; the second expires between the pages and the
loop is complete without it. -/
theorem delivery_complete_expiring :
    let t : Int := 1735689600000
    let ev (id : String) (expiry : Int) : IntentEventInput := ⟨id, [], Iso.isoText expiry⟩
    let es : List DeliveryEvent :=
      [.write (.insertIntents "a" [ev "x" (t + 9000), ev "y" (t + 1000), ev "z" (t + 9000)]
      fun _ => Iso.isoText t, none), .pull t]
    let s := run (deliveryStep "a" 1) (.start (runOps .empty []) t) es
    ((s.pull "a" 1 (t + 2000)).returned.map fun x => x.2.eventId) = ["x", "z"] ∧
      (s.page "a" 1 (t + 2000)).hasMore = false ∧
      ∀ r ∈ s.db.intentEvents.rows, r.accountId = "a" → ∀ expiry, Iso.FourDigit expiry →
        r.expiresAt = Iso.isoText expiry → t + 2000 < expiry →
          r ∈ (s.pull "a" 1 (t + 2000)).returned.map Prod.snd := by
  intro t ev es s
  have hmore : (s.page "a" 1 (t + 2000)).hasMore = false := by decide +kernel
  have hes : AllSteps (deliveryStep "a" 1) (Timely "a") (.start (runOps .empty []) t) es :=
    ⟨StoreOp.noConfusion, ⟨Int.le_refl _, by decide⟩, trivial⟩
  obtain ⟨-, -, h⟩ := delivery_complete [] "a" 1 t (by decide) es hes
  exact ⟨by decide +kernel, hmore, h (t + 2000) (by decide +kernel) (by decide) hmore⟩

end GlanceVault.L2
