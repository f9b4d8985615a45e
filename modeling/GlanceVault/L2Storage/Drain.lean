import GlanceVault.L2Storage.SeqLine
/-!
# The incremental drain (`GET /sync/:app/list`)

A client starts at cursor 0 with an empty map, asks for a page after its
cursor, stores every returned row under its entity, moves the cursor to the
last returned number and repeats while the page says there is more. Other
clients write between the pages.

What carries the proof is a statement about everything at or below the
cursor (`Drain.Inv`): a row there is in the map as it is stored. A write
either leaves a row as it is or moves it above the counter, hence above the
cursor (`RowsMove`), so the statement survives every write.

* `rows_move`: what any operation of the store does to a row.
* `Inv.pull`, `Inv.write`: a page and a write keep the invariant.
* `drain_exact`: when a page says that nothing is left, the map is the table.
-/
namespace GlanceVault.L2
open GlanceVault.Core GlanceVault.L1

/-! ## What a write does to a row -/

/-- Every row is as it was or has a number above the old counter. -/
structure RowsMove (a : String) (d d' : Db) : Prop where
  counter : latestSeq d a ≤ latestSeq d' a
  row : ∀ app e, d'.syncRows.find (a, app, e) = d.syncRows.find (a, app, e) ∨
    ∃ r, d'.syncRows.find (a, app, e) = some r ∧ latestSeq d a < r.seq

section RowsMove
variable {a : String}

theorem RowsMove.refl (d : Db) : RowsMove a d d := ⟨Nat.le_refl _, fun _ _ => .inl rfl⟩

theorem RowsMove.trans {x y z : Db} (h1 : RowsMove a x y) (h2 : RowsMove a y z) :
    RowsMove a x z := by
  refine ⟨Nat.le_trans h1.counter h2.counter, fun app e => ?_⟩
  rcases h2.row app e with h | ⟨r, h, hr⟩
  · rw [h]; exact h1.row app e
  · have := h1.counter
    exact .inr ⟨r, h, by omega⟩

/-- A row once stored stays stored. -/
theorem RowsMove.stays {d d' : Db} (h : RowsMove a d d') {app e : String}
    (hd : (d.syncRows.find (a, app, e)).isSome) : (d'.syncRows.find (a, app, e)).isSome := by
  rcases h.row app e with h | ⟨r, h, -⟩
  · rw [h]; exact hd
  · rw [h]; rfl

theorem rowsMove_put (db : Db) (r : SyncRow) (hs : r.seq = latestSeq db a + 1) :
    RowsMove a db ((db.bump a).putSyncRow r) := by
  refine ⟨?_, fun app e => ?_⟩
  · show latestSeq db a ≤ latestSeq (db.bump a) a
    rw [latestSeq_bump_self]; omega
  · show (db.syncRows.upsert r).find (a, app, e) = _ ∨
      ∃ x, (db.syncRows.upsert r).find (a, app, e) = some x ∧ _
    rw [Table.find_upsert]
    split
    · exact .inr ⟨r, rfl, by omega⟩
    · exact .inl rfl

theorem rowsMove_of_eq {d d' : Db} (hl : LineReaches a d d')
    (h : ∀ app e, d'.syncRows.find (a, app, e) = d.syncRows.find (a, app, e)) : RowsMove a d d' :=
  ⟨Line.counter_le hl, fun app e => .inl (h app e)⟩

/-- An operation that writes no sync row of the account. -/
theorem rowsMove_outside {o : StoreOp} (ho : o ≠ .deleteAccount a)
    (h : ∀ db u db', o.tx.eval db = .ok (u, db') →
      ∀ app e, db'.syncRows.find (a, app, e) = db.syncRows.find (a, app, e)) :
    o.tx.Moves (RowsMove a) :=
  fun db u db' he => rowsMove_of_eq (line_reaches o ho db u db' he) (h db u db' he)

theorem void_rows {α : Type} {m : DbTx α} (h : m.Keeps Db.syncRows) :
    ∀ db u db', m.void.eval db = .ok (u, db') →
      ∀ app e, db'.syncRows.find (a, app, e) = db.syncRows.find (a, app, e) := by
  intro db u db' he app e
  obtain ⟨r, d, h1, h2⟩ := Tx.eval_bind_ok he
  cases h2
  rw [h db r _ h1]

theorem void_tenant {α : Type} {m : DbTx α} (h : m.Keeps (Db.tenant a)) :
    ∀ db u db', m.void.eval db = .ok (u, db') →
      ∀ app e, db'.syncRows.find (a, app, e) = db.syncRows.find (a, app, e) := by
  intro db u db' he app e
  obtain ⟨r, d, h1, h2⟩ := Tx.eval_bind_ok he
  cases h2
  rw [← tenant_syncRow, ← tenant_syncRow a db, h db r _ h1]

/-- **What any operation but the account's deletion does to its rows.** -/
theorem rows_move (o : StoreOp) (ho : o ≠ .deleteAccount a) : o.tx.Moves (RowsMove a) := by
  cases o with
  | batchUpsert app b rows now =>
    by_cases h : b = a
    · subst h
      exact Tx.Moves.void .refl .trans (batchUpsert_moves rows now .refl .trans
        fun db _ _ _ _ => rowsMove_put db _ rfl)
    · exact rowsMove_outside ho (void_tenant (batchUpsert_keeps h app rows now))
  | softDeleteRow app b e t now =>
    by_cases h : b = a
    · subst h
      exact Tx.Moves.void .refl .trans (softDeleteRow_moves .refl (fun db r t n _ ha _ => by
        unfold Db.tombstoneRow
        rw [ha]
        exact rowsMove_put db _ rfl) e t now)
    · exact rowsMove_outside ho (void_tenant (softDeleteRow_keeps h app e t now))
  | nextSeq b => exact rowsMove_outside ho (void_rows (.write fun _ => rfl))
  | insertIntents b evs now =>
    exact rowsMove_outside ho
      (void_rows ((insertIntents_frame b evs now).of Db.syncRows fun _ => rfl))
  | pruneExpiredIntents now => exact rowsMove_outside ho (void_rows (.write fun _ => rfl))
  | putSaltIfAbsent b salt now =>
    exact rowsMove_outside ho
      (void_rows ((putSaltIfAbsent_frame b salt now).of Db.syncRows fun _ => rfl))
  | updateDeviceCursor b d n now => exact rowsMove_outside ho (void_rows (.write fun _ => rfl))
  | insertBlobIfAbsent b h size now =>
    exact rowsMove_outside ho
      (void_rows ((insertBlobIfAbsent_frame b h size now).of Db.syncRows fun _ => rfl))
  | addBlobReference b h now =>
    exact rowsMove_outside ho
      (void_rows ((addBlobReference_frame b h now).of Db.syncRows fun _ => rfl))
  | releaseBlobReference b h now =>
    exact rowsMove_outside ho
      (void_rows ((releaseBlobReference_frame b h now).of Db.syncRows fun _ => rfl))
  | deleteBlob b h => exact rowsMove_outside ho (void_rows (.write fun _ => rfl))
  | createUploadSession b u h n now =>
    exact rowsMove_outside ho
      (void_rows ((createUploadSession_frame b u h n now).of Db.syncRows fun _ => rfl))
  | recordUploadPart b u i n now =>
    exact rowsMove_outside ho
      (void_rows ((recordUploadPart_frame b u i n now).of Db.syncRows fun _ => rfl))
  | deleteUploadSessionFor b u => exact rowsMove_outside ho (void_rows (.write fun _ => rfl))
  | deleteUploadSession u => exact rowsMove_outside ho (void_rows (.write fun _ => rfl))
  | issueCredential id b d hash now =>
    exact rowsMove_outside ho
      (void_rows ((issueCredential_frame id b d hash now).of Db.syncRows fun _ => rfl))
  | revokeCredential id now => exact rowsMove_outside ho (void_rows (.write fun _ => rfl))
  | createAccount b label keyHash cap now =>
    exact rowsMove_outside ho
      (void_rows ((createAccount_frame b label keyHash cap now).of Db.syncRows fun _ => rfl))
  | rotateAccountKey b keyHash revoke now =>
    exact rowsMove_outside ho
      (void_rows ((rotateAccountKey_frame b keyHash revoke now).of Db.syncRows fun _ => rfl))
  | deleteAccount b =>
    have hb : b ≠ a := fun e => ho (by rw [e])
    refine rowsMove_outside ho (void_tenant fun db r db' e => ?_)
    rw [deleteAccount_eval] at e
    split at e <;> cases e
    · rfl
    · exact without_other hb db

end RowsMove

/-! ## The paging loop -/

/-- What a client keeps of a row. -/
structure Entry where
  envelope : Bytes
  deleted : Bool
  deletedAt : Option Rat
  seq : Nat
  deriving DecidableEq

def SyncRow.entry (r : SyncRow) : Entry := ⟨r.envelope, r.deleted, r.deletedAt, r.seq⟩

structure DrainClient where
  since : Nat
  map : String → Option Entry

def DrainClient.start : DrainClient := ⟨0, fun _ => none⟩

/-- `map.set(row.entityId, ..)` -/
def setEntry (m : String → Option Entry) (r : SyncRow) : String → Option Entry :=
  fun e => if e = r.entityId then some r.entry else m e

/-- Store a page and move the cursor to its last number. -/
def DrainClient.pull (c : DrainClient) (p : Page SyncRow) : DrainClient where
  since := p.rows.getLast?.elim c.since (·.seq)
  map := p.rows.foldl setEntry c.map

/-- The loop calls for its next page, or some other client commits a write. -/
inductive DrainEvent
  | pull
  | write (o : StoreOp × Fault)

structure Drain where
  db : Db
  client : DrainClient

def drainStep (app a : String) (limit : Nat) (s : Drain) : DrainEvent → Drain
  | .pull => { s with client := s.client.pull (listRows app a s.client.since limit s.db) }
  | .write o => { s with db := (StoreOp.commit o s.db).2 }

theorem foldl_setEntry : ∀ (rows : List SyncRow) (m : String → Option Entry) (e : String),
    (rows.foldl setEntry m e = m e ∧ ∀ r ∈ rows, r.entityId ≠ e) ∨
      ∃ r ∈ rows, r.entityId = e ∧ rows.foldl setEntry m e = some r.entry
  | [], _, _ => .inl ⟨rfl, fun _ h => by cases h⟩
  | r :: rows, m, e => by
    rw [List.foldl_cons]
    rcases foldl_setEntry rows (setEntry m r) e with ⟨h, hn⟩ | ⟨x, hx, he, h⟩
    · by_cases hr : e = r.entityId
      · refine .inr ⟨r, List.mem_cons_self, hr.symm, ?_⟩
        rw [h]; unfold setEntry; rw [if_pos hr]
      · refine .inl ⟨?_, ?_⟩
        · rw [h]; unfold setEntry; rw [if_neg hr]
        · intro x hx
          rcases List.mem_cons.1 hx with rfl | hx
          · exact fun e' => hr e'.symm
          · exact hn x hx
    · exact .inr ⟨x, List.mem_cons_of_mem _ hx, he, h⟩

/-- A row of the listing is the stored row of its entity. -/
theorem listed {app a : String} {since limit : Nat} {db : Db} {r : SyncRow}
    (h : r ∈ (listRows app a since limit db).rows) :
    db.syncRows.find (a, app, r.entityId) = some r ∧ since < r.seq := by
  obtain ⟨hm, hs⟩ := page_mem h
  obtain ⟨h1, h2⟩ := List.mem_filter.1 hm
  have h2 := of_decide_eq_true h2
  refine ⟨Table.find_some.2 ⟨h1, ?_⟩, hs⟩
  unfold SyncRow.key
  rw [h2.1, h2.2]

theorem listed_of {app a e : String} {db : Db} {r : SyncRow}
    (h : db.syncRows.find (a, app, e) = some r) :
    r ∈ db.syncRows.rows.filter (fun r => decide (r.accountId = a ∧ r.app = app)) ∧
    r.entityId = e := by
  obtain ⟨hm, hk⟩ := Table.find_some.1 h
  cases hk
  exact ⟨List.mem_filter.2 ⟨hm, by simp⟩, rfl⟩

/-- The loop has everything at or below its cursor, as it is stored. -/
structure Drain.Inv (app a : String) (s : Drain) : Prop where
  sound : (s.db.line a).Sound
  cursor : s.client.since ≤ latestSeq s.db a
  below : ∀ e r, s.db.syncRows.find (a, app, e) = some r → r.seq ≤ s.client.since →
    s.client.map e = some r.entry
  stored : ∀ e, (s.client.map e).isSome → (s.db.syncRows.find (a, app, e)).isSome

section Inv
variable {app a : String} {s : Drain}

theorem Drain.Inv.seq_le (h : s.Inv app a) {e : String} {r : SyncRow}
    (hr : s.db.syncRows.find (a, app, e) = some r) : r.seq ≤ latestSeq s.db a :=
  h.sound.le (.row app e) r.seq (by show (s.db.syncRows.find (a, app, e)).map _ = _; rw [hr]; rfl)

/-- Two rows of the account with one number are one row. -/
theorem Drain.Inv.seq_inj (h : s.Inv app a) {e f : String} {r x : SyncRow}
    (hr : s.db.syncRows.find (a, app, e) = some r) (hx : s.db.syncRows.find (a, app, f) = some x)
    (hs : r.seq = x.seq) : r = x := by
  have h1 : s.db.stampOf a (.row app e) = some r.seq := by simp [Db.stampOf, hr]
  have h2 : s.db.stampOf a (.row app f) = some r.seq := by simp [Db.stampOf, hx, hs]
  have he : Holder.row app e = .row app f := h.sound.distinct _ _ r.seq h1 h2
  cases he
  rw [hr] at hx
  exact Option.some.inj hx

/-- The cursor after a page is the number of its last row. -/
theorem pull_since (p : Page SyncRow) (c : DrainClient) :
    (p.rows = [] ∧ (c.pull p).since = c.since) ∨ ∃ r ∈ p.rows, (c.pull p).since = r.seq := by
  unfold DrainClient.pull
  cases h : p.rows.getLast? with
  | none => exact .inl ⟨List.getLast?_eq_none_iff.1 h, rfl⟩
  | some r => exact .inr ⟨r, List.mem_of_getLast? h, rfl⟩

/-- A page keeps the invariant. -/
theorem Drain.Inv.pull (h : s.Inv app a) (limit : Nat) :
    (drainStep app a limit s .pull).Inv app a := by
  have hmap := foldl_setEntry (listRows app a s.client.since limit s.db).rows s.client.map
  refine ⟨h.sound, ?_, ?_, ?_⟩
  · rcases pull_since (listRows app a s.client.since limit s.db) s.client with ⟨-, e⟩ | ⟨r, hr, e⟩
    · show (s.client.pull _).since ≤ _
      rw [e]; exact h.cursor
    · show (s.client.pull _).since ≤ _
      rw [e]; exact h.seq_le (listed hr).1
  · intro e r hr hs
    have hr : s.db.syncRows.find (a, app, e) = some r := hr
    have hs : r.seq ≤ (s.client.pull (listRows app a s.client.since limit s.db)).since := hs
    show (listRows app a s.client.since limit s.db).rows.foldl setEntry s.client.map e =
      some r.entry
    rcases hmap e with ⟨hm, hn⟩ | ⟨x, hx, he, hm⟩
    · rw [hm]
      refine h.below e r hr ?_
      -- a row above the old cursor and up to the new one was on the page
      by_cases hlt : s.client.since < r.seq
      · exfalso
        obtain ⟨hmem, hre⟩ := listed_of hr
        rcases pull_since (listRows app a s.client.since limit s.db) s.client with
          ⟨-, e'⟩ | ⟨y, hy, e'⟩
        · omega
        · rw [e'] at hs
          have hin : r ∈ (listRows app a s.client.since limit s.db).rows := by
            rcases Nat.lt_or_eq_of_le hs with hl | he
            · exact page_below hy hmem hlt hl
            · rw [h.seq_inj hr (listed hy).1 he]; exact hy
          exact hn r hin hre
      · omega
    · rw [hm]
      have := (listed hx).1
      rw [he, hr] at this
      rw [Option.some.inj this]
  · intro e he
    have he :
        ((listRows app a s.client.since limit s.db).rows.foldl setEntry s.client.map e).isSome := he
    rcases hmap e with ⟨hm, -⟩ | ⟨x, hx, hxe, -⟩
    · rw [hm] at he; exact h.stored e he
    · rw [← hxe, show (drainStep app a limit s .pull).db = s.db from rfl, (listed hx).1]; rfl

/-- A write by another client keeps the invariant. -/
theorem Drain.Inv.write (h : s.Inv app a) {o : StoreOp × Fault} (ho : o.1 ≠ .deleteAccount a)
    (limit : Nat) :
    (drainStep app a limit s (.write o)).Inv app a := by
  have hm := (rows_move o.1 ho).commit .refl o.2 s.db
  refine ⟨sound_step o s.db h.sound, Nat.le_trans h.cursor hm.counter, ?_, ?_⟩
  · intro e r hr hs
    have hc := h.cursor
    rcases hm.row app e with h1 | ⟨x, h1, hx⟩
    · refine h.below e r ?_ hs
      rw [← h1]; exact hr
    · have hr : (o.1.tx.commit o.2 s.db).2.syncRows.find (a, app, e) = some r := hr
      have hs : r.seq ≤ s.client.since := hs
      rw [h1] at hr
      cases hr
      omega
  · intro e he
    exact hm.stays (h.stored e he)

theorem drain_inv (db : Db) (hdb : (db.line a).Sound) (limit : Nat) {es : List DrainEvent}
    (hes : ∀ o, DrainEvent.write o ∈ es → o.1 ≠ .deleteAccount a) :
    (run (drainStep app a limit) ⟨db, .start⟩ es).Inv app a := by
  have h0 : (⟨db, .start⟩ : Drain).Inv app a := by
    refine ⟨hdb, Nat.zero_le _, fun e r hr hs => ?_, fun e he => by cases he⟩
    have hp :=
      hdb.pos (.row app e) r.seq (by show (db.syncRows.find (a, app, e)).map _ = _; rw [hr]; rfl)
    have hs : r.seq ≤ 0 := hs
    omega
  generalize (⟨db, .start⟩ : Drain) = s at h0
  induction es generalizing s with
  | nil => exact h0
  | cons ev es ih =>
    refine ih (fun o ho => hes o (List.mem_cons_of_mem _ ho)) _ ?_
    cases ev with
    | pull => exact h0.pull limit
    | write o => exact h0.write (hes o List.mem_cons_self) limit

end Inv

/-- **The drain converges.** Whatever others write between the pages, when a
call returns `hasMore = false` the client's map is, entity by entity, the
table at that call: nothing missed, nothing stale, nothing extra. -/
theorem drain_exact (before : List (StoreOp × Fault)) (app a : String) (limit : Nat)
    (es : List DrainEvent)
    (hes : ∀ o, DrainEvent.write o ∈ es → o.1 ≠ .deleteAccount a) :
    let s := run (drainStep app a limit) ⟨runOps .empty before, .start⟩ es
    let p := listRows app a s.client.since limit s.db
    p.hasMore = false → ∀ e, (s.client.pull p).map e =
      (s.db.syncRows.find (a, app, e)).map SyncRow.entry := by
  intro s p hp e
  have hinv : s.Inv app a := drain_inv _ (sound_run before) limit hes
  have hnext : (drainStep app a limit s .pull).Inv app a := hinv.pull limit
  cases hr : s.db.syncRows.find (a, app, e) with
  | none =>
    cases hm : (s.client.pull p).map e with
    | none => rfl
    | some x =>
      have hst := hnext.stored e (by show ((s.client.pull p).map e).isSome; rw [hm]; rfl)
      have hst : (s.db.syncRows.find (a, app, e)).isSome := hst
      rw [hr] at hst; cases hst
  | some r =>
    have hbelow : r.seq ≤ (s.client.pull p).since := page_last hp (listed_of hr).1
    exact hnext.below e r hr hbelow

/-- A row of one page that another client rewrites before the next: the loop
sees both of its versions and ends with the last. -/
theorem drain_exact_rewritten :
    let row (e : String) (b : UInt8) : SyncRowInput := ⟨e, [b], false, false, none⟩
    let es : List DrainEvent :=
      [.write (.batchUpsert "dayglance" "house" [row "x" 1, row "y" 2] fun _ => "t", none), .pull,
        .write (.batchUpsert "dayglance" "house" [row "x" 3] fun _ => "t", none), .pull]
    let s := run (drainStep "dayglance" "house" 1) ⟨runOps .empty [], .start⟩ es
    let p := listRows "dayglance" "house" s.client.since 1 s.db
    p.hasMore = false ∧ (s.client.pull p).map "x" = some ⟨[3], false, none, 3⟩ ∧
      (s.client.pull p).map "y" = some ⟨[2], false, none, 2⟩ ∧
      (s.client.pull p).map "z" = none := by
  intro row es s p
  have hp : p.hasMore = false := by decide +kernel
  have hes : ∀ o, DrainEvent.write o ∈ es → o.1 ≠ .deleteAccount "house" := by
    intro o ho
    simp only [es, List.mem_cons, List.not_mem_nil, DrainEvent.write.injEq, reduceCtorEq,
      or_false, false_or] at ho
    rcases ho with rfl | rfl <;> exact fun h => nomatch h
  have h := drain_exact [] "dayglance" "house" 1 es hes hp
  refine ⟨hp, (h "x").trans ?_, (h "y").trans ?_, (h "z").trans ?_⟩ <;> decide +kernel

end GlanceVault.L2
