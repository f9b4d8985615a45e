import GlanceVault.L2Storage.Drain
import GlanceVault.L2Storage.ZeroPoint
import Mathlib.Data.List.MinMax
/-!
# Caught-up devices and reclaim

A device reports as its cursor the highest number it was given. A zero point is
a number that is given to nobody: a device gets past it only by a row or an
intent with a higher one.

What carries the proof is that the rows a device was given are still stored,
if under higher numbers (`Fleet.Inv`), so that what a caught-up device has seen
can be read off the store.

* `passes_iff`: a caught-up device is past a zero point if the account stores
  a row above it or the device was given an intent above it, and only then.
* `caught_up`: the same in every reachable state, down to the sweep's query.
* `deleted_row_blocks`: a row and its blob deleted, in the clients' order: no
  caught-up device is past the zero point.
-/
namespace GlanceVault.L2
open GlanceVault.Core GlanceVault.L1

/-! ## The devices -/

/-- A device's cursor in each list of the account, and the numbers it was given. -/
structure Puller where
  since : String → Nat
  sinceIntents : Nat
  rows : List Nat
  events : List Nat

def Puller.start : Puller := ⟨fun _ => 0, 0, [], []⟩

/-- The highest number it was given. -/
def Puller.highest (p : Puller) : Nat := (p.rows ++ p.events).foldr max 0

def Puller.pull (p : Puller) (app : String) (page : Page SyncRow) : Puller :=
  { p with
    since := fun x => if x = app then page.rows.getLast?.elim (p.since app) (·.seq) else p.since x
    rows := p.rows ++ page.rows.map (·.seq) }

def Puller.pullIntents (p : Puller) (page : Page IntentEvent) : Puller :=
  { p with
    sinceIntents := page.rows.getLast?.elim p.sinceIntents (·.seq)
    events := p.events ++ page.rows.map (·.seq) }

/-- The store and every account's devices. -/
structure Fleet where
  db : Db
  device : String → String → Puller

def Fleet.start : Fleet := ⟨.empty, fun _ _ => .start⟩

inductive FleetEvent
  | write (o : StoreOp × Fault)
  | pull (a deviceId app : String) (limit : Nat)
  | pullIntents (a deviceId : String) (limit : Nat) (now : String)

def Fleet.update (s : Fleet) (a deviceId : String) (p : Puller) : Fleet :=
  { s with device := fun b d => if b = a ∧ d = deviceId then p else s.device b d }

/-- An account's deletion restarts its numbers, and with them its devices. -/
def fleetStep (s : Fleet) : FleetEvent → Fleet
  | .write o =>
    ⟨(StoreOp.commit o s.db).2, fun a d => if deletes a s.db o then .start else s.device a d⟩
  | .pull a d app limit =>
    s.update a d ((s.device a d).pull app (listRows app a ((s.device a d).since app) limit s.db))
  | .pullIntents a d limit now =>
    s.update a d
      ((s.device a d).pullIntents (listIntents a (s.device a d).sinceIntents limit now s.db))

/-- Nothing is listed after the device's cursors. -/
structure Drained (db : Db) (a : String) (p : Puller) (now : String) : Prop where
  rows : ∀ app limit, (listRows app a (p.since app) limit db).rows = []
  events : ∀ limit, (listIntents a p.sinceIntents limit now db).rows = []

/-- Every device of the account has drained its lists and reported the highest
number they gave it. -/
def CaughtUp (s : Fleet) (a now : String) : Prop :=
  ∀ x ∈ s.db.devices.rows, x.accountId = a →
    Drained s.db a (s.device a x.deviceId) now ∧ x.lastSeenSeq = (s.device a x.deviceId).highest

theorem drained_rows {db : Db} {a : String} {p : Puller} :
    (∀ app limit, (listRows app a (p.since app) limit db).rows = []) ↔
      ∀ r ∈ db.syncRows.rows, r.accountId = a → r.seq ≤ p.since r.app := by
  constructor
  · intro h r hr ha
    by_contra hlt
    have hnil := h r.app 1
    have hmore : (listRows r.app a (p.since r.app) 1 db).hasMore = false := by
      by_contra hm
      exact page_ne_nil (Bool.not_eq_false _ ▸ hm) (Nat.le_refl 1) hnil
    have hin : r ∈ (listRows r.app a (p.since r.app) 1 db).rows :=
      page_complete hmore (List.mem_filter.2 ⟨hr, by simp [ha]⟩) (by omega)
    rw [hnil] at hin
    cases hin
  · intro h app limit
    refine page_nil fun r hr => ?_
    obtain ⟨hm, hp⟩ := List.mem_filter.1 hr
    have hp := of_decide_eq_true hp
    rw [← hp.2]
    exact h r hm hp.1

theorem foldr_max_mem : ∀ {l : List Nat}, 0 < l.foldr max 0 → l.foldr max 0 ∈ l
  | [], h => absurd h (Nat.lt_irrefl 0)
  | n :: l, h => by
    rw [List.foldr_cons] at h ⊢
    rcases Nat.le_total n (l.foldr max 0) with hle | hle
    · rw [Nat.max_eq_right hle] at h ⊢
      exact List.mem_cons_of_mem _ (foldr_max_mem h)
    · rw [Nat.max_eq_left hle]
      exact List.mem_cons_self

theorem Puller.le_highest {p : Puller} {n : Nat} (h : n ∈ p.rows ++ p.events) : n ≤ p.highest :=
  List.le_max_of_le' 0 h (Nat.le_refl n)

/-! ## What the devices were given -/

/-- The rows a device was given are stored, if under higher numbers by now. -/
structure Fleet.Inv (s : Fleet) : Prop where
  sound : ∀ a, (s.db.line a).Sound
  counted : s.db.Counted
  stored : ∀ a d, ∀ n ∈ (s.device a d).rows, ∃ r ∈ s.db.syncRows.rows, r.accountId = a ∧ n ≤ r.seq
  cursor : ∀ a d app, (s.device a d).since app ≤ (s.device a d).highest

/-- A stored row is replaced by one with a higher number, if at all. -/
theorem row_stays {a : String} {o : StoreOp × Fault} {db : Db} (hd : deletes a db o = false)
    (hs : (db.line a).Sound) {r : SyncRow} (hr : r ∈ db.syncRows.rows) (ha : r.accountId = a) :
    ∃ x ∈ (StoreOp.commit o db).2.syncRows.rows, x.accountId = a ∧ r.seq ≤ x.seq := by
  subst ha
  by_cases ho : o.1 = .deleteAccount r.accountId
  · obtain ⟨o, fault⟩ := o
    cases ho
    rw [commit_undeleted hd]
    exact ⟨r, hr, rfl, Nat.le_refl _⟩
  · have hmove := (rows_move o.1 ho).commit (fun _ => .refl _) o.2 db
    have hfind : db.syncRows.find (r.accountId, r.app, r.entityId) = some r :=
      Table.find_some.2 ⟨hr, rfl⟩
    rcases hmove.row r.app r.entityId with h | ⟨x, h, hlt⟩
    · rw [hfind] at h
      exact ⟨r, (Table.find_some.1 h).1, rfl, Nat.le_refl _⟩
    · have hle := hs.le (.row r.app r.entityId) r.seq (stamp_row hr rfl)
      have hle : r.seq ≤ latestSeq db r.accountId := hle
      exact ⟨x, (Table.find_some.1 h).1, congrArg Prod.fst (Table.find_some.1 h).2, by omega⟩

theorem Fleet.Inv.write {s : Fleet} (h : s.Inv) (o : StoreOp × Fault) :
    (fleetStep s (.write o)).Inv := by
  refine ⟨fun a => sound_step o s.db (h.sound a),
    fun a k b hb => counted_step h.counted (blob_commit o s.db) hb,
    fun a d n hn => ?_, fun a d app => ?_⟩
  · have hn : n ∈ (if deletes a s.db o then Puller.start else s.device a d).rows := hn
    cases hd : deletes a s.db o with
    | true =>
      rw [hd] at hn
      cases hn
    | false =>
      rw [hd] at hn
      obtain ⟨r, hr, ha, hle⟩ := h.stored a d n hn
      obtain ⟨x, hx, hxa, hxle⟩ := row_stays hd (h.sound a) hr ha
      exact ⟨x, hx, hxa, by omega⟩
  · show (if deletes a s.db o then Puller.start else s.device a d).since app ≤
      (if deletes a s.db o then Puller.start else s.device a d).highest
    split
    · exact Nat.le_refl 0
    · exact h.cursor a d app

theorem Fleet.Inv.update {s : Fleet} (h : s.Inv) {a d : String} {p : Puller}
    (hstored : ∀ n ∈ p.rows, ∃ r ∈ s.db.syncRows.rows, r.accountId = a ∧ n ≤ r.seq)
    (hcursor : ∀ app, p.since app ≤ p.highest) : (s.update a d p).Inv := by
  have hdevice : ∀ b e, (s.update a d p).device b e = if b = a ∧ e = d then p else s.device b e :=
    fun _ _ => rfl
  refine ⟨h.sound, h.counted, fun b e n hn => ?_, fun b e app => ?_⟩
  · rw [hdevice] at hn
    by_cases hb : b = a ∧ e = d
    · rw [if_pos hb] at hn
      rw [hb.1]
      exact hstored n hn
    · rw [if_neg hb] at hn
      exact h.stored b e n hn
  · rw [hdevice]
    by_cases hb : b = a ∧ e = d
    · rw [if_pos hb]
      exact hcursor app
    · rw [if_neg hb]
      exact h.cursor b e app

/-- A device that is given more has no lower highest number. -/
theorem Puller.highest_le {p q : Puller} (hr : p.rows ⊆ q.rows) (he : p.events ⊆ q.events) :
    p.highest ≤ q.highest := by
  by_cases h0 : 0 < p.highest
  · have hm : p.highest ∈ p.rows ++ p.events := foldr_max_mem h0
    refine q.le_highest ?_
    rcases List.mem_append.1 hm with hm | hm
    · exact List.mem_append_left _ (hr hm)
    · exact List.mem_append_right _ (he hm)
  · omega

theorem Fleet.Inv.pull {s : Fleet} (h : s.Inv) (a d app : String) (limit : Nat) :
    (fleetStep s (.pull a d app limit)).Inv := by
  refine h.update (fun n hn => ?_) fun x => ?_
  · rcases List.mem_append.1 hn with hn | hn
    · exact h.stored a d n hn
    · obtain ⟨r, hr, rfl⟩ := List.mem_map.1 hn
      have hin := List.mem_filter.1 (page_mem hr).1
      exact ⟨r, hin.1, (of_decide_eq_true hin.2).1, Nat.le_refl _⟩
  · have hold : (s.device a d).highest ≤ ((s.device a d).pull app
        (listRows app a ((s.device a d).since app) limit s.db)).highest :=
      Puller.highest_le (List.subset_append_left _ _) (List.Subset.refl _)
    unfold Puller.pull at hold ⊢
    dsimp only at hold ⊢
    split
    · cases hl : (listRows app a ((s.device a d).since app) limit s.db).rows.getLast? with
      | none => exact Nat.le_trans (h.cursor a d app) hold
      | some y =>
        have hy := List.mem_map_of_mem (f := SyncRow.seq) (List.mem_of_getLast? hl)
        exact Puller.le_highest (List.mem_append_left _ (List.mem_append_right _ hy))
    · exact Nat.le_trans (h.cursor a d x) hold

theorem Fleet.Inv.pullIntents {s : Fleet} (h : s.Inv) (a d : String) (limit : Nat) (now : String) :
    (fleetStep s (.pullIntents a d limit now)).Inv := by
  refine h.update (h.stored a d) fun app => Nat.le_trans (h.cursor a d app) ?_
  exact Puller.highest_le (List.Subset.refl _) (List.subset_append_left _ _)

theorem fleet_inv (es : List FleetEvent) : (run fleetStep Fleet.start es).Inv := by
  have hstart : Fleet.start.Inv := by
    refine ⟨fun a => ?_, fun a k b hb => ?_, fun a d n hn => ?_, fun a d app => Nat.le_refl 0⟩
    · show (Db.empty.line a).Sound
      rw [line_empty]
      exact sound_empty
    · cases hb
    · cases hn
  refine run_inv (fun s e h => ?_) es Fleet.start hstart
  cases e with
  | write o => exact h.write o
  | pull a d app limit => exact h.pull a d app limit
  | pullIntents a d limit now => exact h.pullIntents a d limit now

/-! ## Getting past a zero point -/

/-- The account stores a row above the number, or the device was given an
intent above it. -/
def Passed (s : Fleet) (a deviceId : String) (z : Nat) : Prop :=
  (∃ r ∈ s.db.syncRows.rows, r.accountId = a ∧ z < r.seq) ∨
  ∃ n ∈ (s.device a deviceId).events, z ≤ n

theorem passes_iff {s : Fleet} (h : s.Inv) {a now : String} (hc : CaughtUp s a now) {x : Device}
    (hx : x ∈ s.db.devices.rows) (hxa : x.accountId = a) {b : Blob} (hb : b ∈ s.db.blobs.rows)
    (hba : b.accountId = a) {z : Nat} (hz : b.zeroRefSeq = some z) :
    ¬ x.lastSeenSeq < z ↔ Passed s a x.deviceId z := by
  obtain ⟨hdrained, hreport⟩ := hc x hx hxa
  have hstamp := stamp_zero hb hba hz
  rw [hreport]
  constructor
  · intro hle
    have hpos := (h.sound a).pos (.zero b.blobHash) z hstamp
    have hpos : 1 ≤ z := hpos
    have hmem := foldr_max_mem (show 0 < (s.device a x.deviceId).highest by omega)
    rcases List.mem_append.1 hmem with hm | hm
    · obtain ⟨r, hr, hra, hrle⟩ := h.stored a x.deviceId _ hm
      have hrle : (s.device a x.deviceId).highest ≤ r.seq := hrle
      -- the zero point is no row's number
      have hne : r.seq ≠ z := by
        intro he
        have hd := (h.sound a).distinct (.row r.app r.entityId) (.zero b.blobHash) z
          (he ▸ stamp_row hr hra) hstamp
        cases hd
      exact .inl ⟨r, hr, hra, by omega⟩
    · exact .inr ⟨_, hm, by show z ≤ (s.device a x.deviceId).highest; omega⟩
  · rintro (⟨r, hr, hra, hlt⟩ | ⟨n, hn, hle⟩)
    · have hseq := drained_rows.1 hdrained.rows r hr hra
      have hcursor := h.cursor a x.deviceId r.app
      omega
    · have hn := Puller.le_highest (List.mem_append_right (s.device a x.deviceId).rows hn)
      omega

/-- **When caught-up devices free a blob.** In every reachable state in which
the devices of the account are caught up: none of them is behind a zero point
exactly if each has been given, or the account stores, something above it; and
then the sweep's query lists the blob once its grace period is over. -/
theorem caught_up (es : List FleetEvent) {a now : String}
    (hc : CaughtUp (run fleetStep Fleet.start es) a now) :
    let s := run fleetStep Fleet.start es
    ∀ b ∈ s.db.blobs.rows, b.accountId = a → ∀ z, b.zeroRefSeq = some z →
      ((∀ x ∈ s.db.devices.rows, x.accountId = a → ¬ x.lastSeenSeq < z) ↔
        ∀ x ∈ s.db.devices.rows, x.accountId = a → Passed s a x.deviceId z) ∧
      ((∀ x ∈ s.db.devices.rows, x.accountId = a → Passed s a x.deviceId z) →
        ∀ graceCutoff deadCutoff,
        ¬ graceCutoff < b.lastReferenceActivityAt →
        b ∈ listReclaimableBlobs graceCutoff deadCutoff s.db) := by
  intro s b hb hba z hz
  have hinv := fleet_inv es
  have hiff : ∀ x ∈ s.db.devices.rows, x.accountId = a →
      (¬ x.lastSeenSeq < z ↔ Passed s a x.deviceId z) :=
    fun x hx hxa => passes_iff hinv hc hx hxa hb hba hz
  refine ⟨forall₃_congr hiff, fun hpassed graceCutoff deadCutoff hgrace => ?_⟩
  have hcount : b.refCount = 0 := by
    have hget : getBlob b.accountId b.blobHash s.db = some b := Table.find_some.2 ⟨hb, rfl⟩
    exact (hinv.counted _ _ b hget).marked.1 (by rw [hz]; rfl)
  refine List.mem_filter.2 ⟨hb, ?_⟩
  unfold reclaimable
  rw [hz]
  simp only [hcount, decide_true, hgrace, decide_false, Bool.not_false,
    Bool.true_and, List.all_eq_true]
  intro x hx
  by_cases hxa : x.accountId = b.accountId
  · have hpast := (hiff x hx (hxa.trans hba)).2 (hpassed x hx (hxa.trans hba))
    simp [hpast]
  · simp [hxa]

theorem caughtUp_of {s : Fleet} {a : String} (now : String)
    (h : ∀ x ∈ s.db.devices.rows, x.accountId = a →
      (∀ r ∈ s.db.syncRows.rows, r.accountId = a → r.seq ≤ (s.device a x.deviceId).since r.app) ∧
      (∀ r ∈ s.db.intentEvents.rows, r.accountId = a →
        r.seq ≤ (s.device a x.deviceId).sinceIntents) ∧
      x.lastSeenSeq = (s.device a x.deviceId).highest) : CaughtUp s a now := by
  intro x hx hxa
  obtain ⟨hrows, hevents, hreport⟩ := h x hx hxa
  refine ⟨⟨drained_rows.2 hrows, fun limit => page_nil fun r hr => ?_⟩, hreport⟩
  obtain ⟨hm, hp⟩ := List.mem_filter.1 hr
  exact hevents r hm (of_decide_eq_true hp).1

/-- A blob, a row written after it, and a device that has it: the blob goes. -/
theorem caught_up_later_row :
    let es : List FleetEvent := [.write (.insertBlobIfAbsent "house" "h" 3 "t1", none),
      .write (.batchUpsert "dayglance" "house" [⟨"x", [], false, false, none⟩] fun _ => "t2", none),
      .pull "house" "phone" "dayglance" 10, .write
        (.updateDeviceCursor "house" "phone" 2 "t3", none)]
    (⟨"house", "h", 3, 0, some 1, "t1", "t1"⟩ : Blob) ∈
      listReclaimableBlobs "t4" "t0" (run fleetStep Fleet.start es).db := by
  intro es
  have hc : CaughtUp (run fleetStep Fleet.start es) "house" "t3" :=
    caughtUp_of "t3" (by decide +kernel)
  obtain ⟨-, hfree⟩ :=
    caught_up es hc ⟨"house", "h", 3, 0, some 1, "t1", "t1"⟩ (by decide +kernel) rfl 1 rfl
  refine hfree (fun x hx hxa => .inl ?_) "t4" "t0" (by decide +kernel)
  exact ⟨⟨"house", "dayglance", "x", 2, [], false, "t2", none⟩, by decide +kernel, rfl, by decide⟩

/-- A row that names a blob, and then the row and its reference deleted, in the
order the clients do it: a device that has drained everything, the tombstone
included, is behind the zero point. -/
theorem deleted_row_blocks :
    let es : List FleetEvent := [.write (.insertBlobIfAbsent "house" "h" 3 "t1", none),
      .write (.batchUpsert "dayglance" "house" [⟨"x", [], false, false, none⟩] fun _ => "t2", none),
      .write (.addBlobReference "house" "h" "t3", none),
      .write (.softDeleteRow "dayglance" "house" "x" none "t4", none),
      .write (.releaseBlobReference "house" "h" "t5", none),
      .pull "house" "phone" "dayglance" 10, .pullIntents "house" "phone" 10 "t6",
      .write (.updateDeviceCursor "house" "phone" 3 "t6", none)]
    let s := run fleetStep Fleet.start es
    CaughtUp s "house" "t6" ∧ (getBlob "house" "h" s.db).bind (·.zeroRefSeq) = some 4 ∧
      (s.db.devices.find ("house", "phone")).map (·.lastSeenSeq) = some 3 ∧
      listReclaimableBlobs "t9" "t0" s.db = [] := by
  intro es s
  exact ⟨caughtUp_of "t6" (by decide +kernel),
    by decide +kernel, by decide +kernel, by decide +kernel⟩

end GlanceVault.L2
