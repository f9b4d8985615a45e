import GlanceVault.L2Storage.Volume
import GlanceVault.L3Http.MediaRoutes
import GlanceVault.L3Http.UsageRoute
/-!
# The handlers and the volume

A part is written before it is recorded and a blob before its row, and an
account's rows go before its files: inside those three a stop leaves files no
row accounts for. Everything else removes files first.

* `perform_tallies`, `reap_tallies`, `reclaim_tallies`: what is accounted for
  stays so through every storage step.
* `Server.fills`: the files a request writes.
* `perform_squares`, `deleteAccountRoute_squares`: at its end it is accounted
  for again.
-/
namespace GlanceVault.L3
open GlanceVault.Core GlanceVault.L1 GlanceVault.L1.Js GlanceVault.L2

/-- There is no file `x`, or the rows say what it is. -/
def Server.Accounted (x : Path) (s : Server) : Prop := s.media.Accounted x

/-- Every storage step of `m` and its end leave `x` accounted for. -/
abbrev Tallies (x : Path) {α : Type} (m : Handler α) : Prop :=
  Prog.Triple (Server.Accounted x) (Server.Accounted x) m (fun _ => Server.Accounted x)
    (Server.Accounted x)

/-- The end of `m` does. -/
abbrev Squares (x : Path) {α : Type} (m : Handler α) : Prop :=
  Prog.Lands (Server.Accounted x) m (fun _ => Server.Accounted x) (Server.Accounted x)

section Tallies
variable {x : Path}

theorem tallies_keeps {α : Type} {m : Handler α} (h : Prog.Keeps Server.media m) : Tallies x m :=
  h.triple (Media.Accounted · x)

theorem tallies_squares {α : Type} {m : Handler α} (h : Tallies x m) : Squares x m :=
  h.crash fun _ _ => trivial

/-- A change of the files that leaves `x` alone. -/
theorem file_tallies {f : Disk → Disk} (hf : ∀ d : Disk, f d x = d x) : Tallies x (file f) :=
  file_triple fun s hs =>
    have h : Server.Accounted x { s with disk := f s.disk } := Media.Accounted.apart hs (hf s.disk)
    ⟨h, h⟩

/-! ## Taking down -/

theorem removeSession_fewer (d : Disk) (u : String) (p : Path) :
    d.removeSession u p = none ∨ d.removeSession u p = d p := by
  unfold Disk.removeSession
  split
  · exact .inl rfl
  · exact .inr rfl

theorem remove_fewer (d : Disk) (q p : Path) : d.remove q p = none ∨ d.remove q p = d p := by
  unfold Disk.remove
  split
  · exact .inl rfl
  · exact .inr rfl

theorem discardSession_empties (u : String) :
    Prog.Triple (Server.Accounted x) (Server.Accounted x) (discardSession u)
    (fun _ s => s.Accounted x ∧ ∀ i, s.disk (.part u i) = none) (Server.Accounted x) := by
  refine .bind (tallies_keeps (assert_keeps _)) fun _ => file_triple fun s hs => ?_
  have hfewer : Server.Accounted x { s with disk := s.disk.removeSession u } :=
    Media.Accounted.fewer hs (f := fun d => d.removeSession u) (removeSession_fewer s.disk u x)
  exact ⟨hfewer, hfewer, fun i => (Disk.removeSession_part s.disk u u i).trans (if_pos rfl)⟩

/-- Session rows go after the files. -/
theorem exec_drop {u : String} {m : DbTx Unit} {p : UploadSession → Bool}
    (hm : ∀ db, m.eval db = .ok ((), db.dropSessions p))
    (hp : ∀ t : UploadSession, p t = true → t.uploadId = u) :
    Prog.Triple (Server.Accounted x) (fun s => s.Accounted x ∧
      ∀ i, s.disk (.part u i) = none) (exec m)
      (fun _ => Server.Accounted x) (Server.Accounted x) := by
  refine exec_triple (fun s o db hs e => ?_) fun _ hs => hs.1
  rw [hm] at e
  cases e
  have hdrop : Server.Accounted x { s with db := s.db.dropSessions p } :=
    Media.Accounted.drop hs.1 fun v t i hv ht => by
      have hv : t.uploadId = v := Table.find_key hv
      rw [← hv, hp t ht]
      exact hs.2 i
  exact ⟨hdrop, hdrop⟩

theorem discardUploadSession_tallies (a u : String) : Tallies x (discardUploadSession a u) := by
  unfold discardUploadSession
  refine .bind (tallies_keeps (readDb_keeps _)) fun session => ?_
  cases session with
  | none => exact .pure fun _ hs => hs
  | some t =>
    refine .bind (discardSession_empties u) fun _ =>
      exec_drop (fun db => Tx.eval_write _ _) fun t ht => ?_
    simp only [decide_eq_true_eq] at ht
    exact ht.1

theorem cancel_tallies (a u : String) : Tallies x (cancel a u) :=
  .bind (tallies_keeps (readDb_keeps _)) fun _ => .bind (tallies_keeps (.found _ _)) fun _ =>
    .bind (discardUploadSession_tallies a _) fun _ => .pure fun _ hs => hs

/-- **A reap leaves everything accounted for.** -/
theorem reap_tallies (ttlMs nowMs : Int) : Tallies x (reapUploadSessions ttlMs nowMs) := by
  unfold reapUploadSessions
  refine .bind (tallies_keeps (.ofExcept _)) fun cutoff =>
    .bind (tallies_keeps (readDb_keeps _)) fun stale => ?_
  refine .bind
    (Prog.Triple.each (I := fun _ => Server.Accounted x) fun done t rest _ => ?_)
    fun _ => .pure fun _ hs => hs
  refine .bind (discardSession_empties t.uploadId) fun _ =>
    exec_drop (fun db => Tx.eval_write _ _) fun y hy => ?_
  simpa using hy

theorem deleteBytes_erases (h : String) :
    Prog.Triple (Server.Accounted x) (Server.Accounted x) (deleteBytes h)
    (fun _ s => s.Accounted x ∧ s.disk (.blob h) = none) (Server.Accounted x) := by
  refine .bind (tallies_keeps (assert_keeps _)) fun _ => file_triple fun s hs => ?_
  have hfewer : Server.Accounted x { s with disk := s.disk.remove (.blob h) } :=
    Media.Accounted.fewer hs (f := fun d => d.remove (.blob h)) (remove_fewer s.disk (.blob h) x)
  exact ⟨hfewer, hfewer, Disk.remove_self _ _⟩

/-- Blob rows go after the files. -/
theorem forget_accounted {s : Server} {p : String × String → Bool} {q : Blob → Bool}
    (hs : s.Accounted x) (hq : ∀ b, q b = !p b.key)
    (hgone : ∀ k, p k = true → s.disk (.blob k.2) = none) :
    Server.Accounted x { s with db := { s.db with blobs := s.db.blobs.keep q } } := by
  have hforget : (s.media.forget p).Accounted x := Media.Accounted.forget hs hgone
  refine Media.Accounted.more hforget rfl (fun y hy => ?_) fun _ hp => hp
  show y ∈ (s.db.blobs.keep q).rows.map fun b => (b.key, b.size)
  rw [held_keep s.db p q hq]
  exact hy

/-- **So does a reclaim.** -/
theorem reclaim_tallies (policy : ReclaimPolicy) (nowMs : Int) :
    Tallies x (reclaimSweep policy nowMs) := by
  unfold reclaimSweep
  refine .ite (fun _ => ?_) fun _ => .pure fun _ hs => hs
  refine .bind (tallies_keeps (.ofExcept _)) fun g =>
    .bind (tallies_keeps (.ofExcept _)) fun d => ?_
  refine .bind (tallies_keeps (readDb_keeps _)) fun E => ?_
  refine .bind
    (Prog.Triple.each (I := fun _ => Server.Accounted x) fun done b rest _ => ?_)
    fun _ => .pure fun _ hs => hs
  refine .bind (deleteBytes_erases b.blobHash) fun _ =>
    .bind (exec_triple (fun s o db hs e => ?_) fun _ hs => hs.1)
    fun _ => .pure fun _ hs => hs
  unfold deleteBlob at e
  rw [Tx.eval_write] at e
  cases e
  have hforget :
      Server.Accounted x { s with
        db := { s.db with
          blobs := s.db.blobs.keep fun r => !decide (r.key = (b.accountId, b.blobHash)) } } :=
    forget_accounted (p := fun k => decide (k = (b.accountId, b.blobHash))) hs.1
      (fun _ => rfl) fun k hk => by
      rw [show k = (b.accountId, b.blobHash) from of_decide_eq_true hk]
      exact hs.2
  exact ⟨hforget, hforget⟩

/-! ## Staging a part -/

theorem record_rows {a u : String} {i n : Nat} {now : String} {db db' : Db} {o : Unit}
    (e : (recordUploadPart a u i n now).eval db = .ok (o, db')) :
    db'.held = db.held ∧ ∀ p : UploadPart, p.key ≠ (u, i) →
    (p ∈ db'.uploadParts.rows ↔ p ∈ db.uploadParts.rows) := by
  unfold recordUploadPart at e
  rw [Tx.eval_write] at e
  cases e
  split
  · refine ⟨rfl, fun p hp => ⟨fun h => ?_, fun h => Table.mem_upsert.2 (.inr ⟨h, hp⟩)⟩⟩
    rcases Table.mem_upsert.1 h with rfl | ⟨h, -⟩
    · exact absurd rfl hp
    · exact h
  · exact ⟨rfl, fun _ _ => Iff.rfl⟩

theorem writePart_apart {u : String} {i : Nat} (htmp : x ≠ .partTmp u i) (hpart : x ≠ .part u i)
    (bytes : Bytes) :
    Tallies x (writePart u i bytes) :=
  .bind (tallies_keeps (assert_keeps _)) fun _ =>
    .bind (file_tallies fun d => Disk.write_other d htmp _) fun _ => file_tallies fun d =>
      Disk.rename_other d htmp hpart

theorem stageUploadPart_apart {u : String} {i : Nat} (htmp : x ≠ .partTmp u i)
    (hpart : x ≠ .part u i) (a : String) (bytes : Bytes) (now : String) :
    Tallies x (stageUploadPart a u i bytes now) := by
  refine .bind (tallies_keeps (readDb_keeps _)) fun _ =>
    .bind (tallies_keeps (.require _ _)) fun _ => ?_
  refine .bind (writePart_apart htmp hpart bytes) fun _ =>
    exec_triple (fun s o db hs e => ?_) fun _ hs => hs
  obtain ⟨hheld, hparts⟩ := record_rows e
  have hmore : Server.Accounted x { s with db := db } := by
    cases x with
    | blob k =>
      intro hfile
      obtain ⟨y, hy, e⟩ := hs hfile
      have hy : y ∈ db.held := hheld.symm ▸ hy
      exact ⟨y, hy, e⟩
    | part v j =>
      intro b hb
      obtain ⟨p, hp, hkey, hsize⟩ := hs b hb
      refine ⟨p, (hparts p fun e => hpart ?_).2 hp, hkey, hsize⟩
      obtain ⟨rfl, rfl⟩ := Prod.mk.inj (hkey.symm.trans e)
      rfl
    | blobTmp k => exact hs
    | partTmp v j => exact hs
  exact ⟨hmore, hmore⟩

/-- A part that is written is in its place, and there is no temporary file. -/
theorem writePart_lands (a u : String) (i : Nat) (bytes : Bytes) :
    Prog.Lands (fun s => s.Accounted x ∧ s.db.ownsUpload a u = true) (writePart u i bytes)
      (fun _ s => (s.disk (.partTmp u i) = none ∧ s.disk (.part u i) = some bytes) ∧
        s.db.ownsUpload a u = true)
      (Server.Accounted x) := by
  refine Prog.Triple.bind (Q := fun _ s => s.Accounted x ∧ s.db.ownsUpload a u = true)
    (assert_triple (fun _ _ hs => hs) fun _ hs => hs.1) fun _ => ?_
  refine Prog.Triple.bind (Q := fun _ s => s.disk (.partTmp u i) = some bytes ∧
    s.db.ownsUpload a u = true)
    (file_triple fun s hs => ⟨trivial, Disk.write_self _ _ _, hs.2⟩) fun _ =>
      file_triple fun s hs => ⟨trivial, ⟨?_, ?_⟩, hs.2⟩
  · exact Disk.rename_src s.disk (p := .partTmp u i) (q := .part u i) (by simp)
  · exact (Disk.rename_dst s.disk _ _).trans hs.1

theorem stageUploadPart_squares (a u : String) (i : Nat) (bytes : Bytes) (now : String) :
    Squares x (stageUploadPart a u i bytes now) := by
  by_cases hx : x ≠ .partTmp u i ∧ x ≠ .part u i
  · exact tallies_squares (stageUploadPart_apart hx.1 hx.2 a bytes now)
  have hx : x = .partTmp u i ∨ x = .part u i := by
    by_contra hno
    exact hx (not_or.1 hno)
  refine Prog.Triple.bind (Q := fun o s => s.Accounted x ∧ getUploadSession a u s.db = o)
    (.get fun s hs => ⟨hs, rfl⟩) fun o => ?_
  refine Prog.Triple.bind (Q := fun _ s => s.Accounted x ∧ s.db.ownsUpload a u = true)
    (.require (fun ho s hs => ⟨hs.1, ?_⟩) fun s hs => hs.1)
    fun _ => .bind (writePart_lands a u i bytes) fun _ => exec_commits fun s hs => ?_
  · obtain ⟨t, rfl⟩ := Option.isSome_iff_exists.1 ho
    exact owns_of_session hs.2
  obtain ⟨⟨htmp, hpart⟩, hown⟩ := hs
  refine ⟨(), _, Tx.eval_write _ _, ?_⟩
  rw [if_pos hown]
  rcases hx with rfl | rfl
  · exact htmp
  · intro b hb
    have hb : bytes = b := Option.some.inj (hpart.symm.trans hb)
    exact ⟨⟨u, i, bytes.length, now⟩, Table.mem_upsert.2 (.inl rfl), rfl, by rw [hb]⟩

/-- The index a part is put at. -/
def partIndex (index : String) : Option Nat := (JsNumber.ofString index).asNatural

/-- A part put by what stages it. -/
theorem putPart_stages {C : Server → Prop} {a u index : String} {bytes : Bytes} {env : Env}
    (hC : ∀ s : Server, s.Accounted x → C s)
    (h : ∀ i, partIndex index = some i →
      Prog.Triple C (Server.Accounted x) (stageUploadPart a u i bytes (env.clock 0))
      (fun _ => Server.Accounted x) (Server.Accounted x)) :
    Prog.Triple C (Server.Accounted x) (putPart env a u index bytes) (fun _ => Server.Accounted x)
      (Server.Accounted x) := by
  have hlook : ∀ {α : Type} {m : Handler α}, Prog.Keeps Server.media m →
      Prog.Triple C (Server.Accounted x) m (fun _ => Server.Accounted x)
        (Server.Accounted x) := fun hm => (tallies_keeps hm).crash hC
  refine Prog.Triple.bind (Q := fun o s => s.Accounted x ∧ ∀ t, o = some t → t.uploadId = u)
    (.get fun s hs => ⟨hs, fun t ht => ?_⟩) fun o => ?_
  · have hfind : s.db.uploadSessions.find u = some t := (getUploadSession_some.1 ht).1
    exact Table.find_key hfind
  refine Prog.Triple.bind (Q := fun t s => s.Accounted x ∧ t.uploadId = u)
    (.found (fun t ht s hs => ⟨hs.1, hs.2 t ht⟩) fun _ hs => hs.1) fun t => ?_
  by_cases ht : t.uploadId = u
  swap
  · exact fun s hs => absurd hs.2 ht
  refine Prog.Triple.pre (P := Server.Accounted x) ?_ fun _ hs => hs.1
  rw [ht]
  refine Prog.Triple.bind (Q := fun i s => s.Accounted x ∧ partIndex index = some i)
    (.found (fun i hi s hs => ⟨hs, hi⟩) fun _ hs => hs) fun i => ?_
  by_cases hi : partIndex index = some i
  swap
  · exact fun s hs => absurd hs.2 hi
  refine Prog.Triple.pre (P := Server.Accounted x) ?_ fun _ hs => hs.1
  exact .bind (hlook (readDb_keeps _)) fun parts => .bind (hlook (.require _ _)) fun _ =>
    .bind (h i hi) fun _ => .bind (hlook (readDb_keeps _)) fun _ => .pure fun _ hs => hs

theorem putPart_squares (env : Env) (a u index : String) (bytes : Bytes) :
    Squares x (putPart env a u index bytes) :=
  putPart_stages (fun _ _ => trivial) fun i _ => stageUploadPart_squares a u i bytes _

/-! ## Storing a blob -/

theorem insert_held {a h : String} {n : Nat} {now : String} {db db' : Db} {o : Option Blob × Bool}
    (e : (insertBlobIfAbsent a h n now).eval db = .ok (o, db')) :
    db'.uploadParts = db.uploadParts ∧ (∀ y ∈ db.held, y ∈ db'.held) ∧
    ∃ y ∈ db'.held, y.1.2 = h := by
  rw [insertBlobIfAbsent_eval] at e
  cases hf : db.blobs.find (a, h) with
  | some b =>
    rw [hf] at e
    cases e
    have hkey : b.key = (a, h) := Table.find_key hf
    exact ⟨rfl, fun _ hy => hy, (b.key, b.size),
      List.mem_map.2 ⟨b, Table.find_mem hf, rfl⟩, by rw [hkey]⟩
  | none =>
    rw [hf] at e
    cases e
    have hheld : ((db.bump a).putBlob (.fresh a h n (latestSeq db a + 1) now)).held =
        db.held ++ [((a, h), n)] :=
      held_putBlob_new (db.bump a) _ hf
    rw [hheld]
    exact ⟨rfl, fun y hy => List.mem_append_left _ hy, ((a, h), n), by simp, rfl⟩

theorem put_apart {h : String} (htmp : x ≠ .blobTmp h) (hblob : x ≠ .blob h) (bytes : Bytes) :
    Tallies x (put h bytes) := by
  unfold put
  refine .bind (tallies_keeps (assert_keeps _)) fun _ =>
    .bind (tallies_keeps (.get _)) fun present => ?_
  exact .ite (fun _ => .pure fun _ hs => hs) fun _ =>
    .bind (file_tallies fun d => Disk.write_other d htmp _) fun _ => file_tallies fun d =>
      Disk.rename_other d htmp hblob

/-- A put leaves no temporary file. -/
theorem put_lands (h : String) (bytes : Bytes) :
    Prog.Lands (Server.Accounted x) (put h bytes) (fun _ s => x = .blobTmp h →
      s.disk (.blobTmp h) = none)
      (Server.Accounted x) := by
  unfold put
  refine .bind (tallies_squares (tallies_keeps (assert_keeps _))) fun _ =>
    .bind (tallies_squares (tallies_keeps (.get _))) fun present => ?_
  refine .ite (fun _ => .pure fun s hs hx => ?_) fun _ => ?_
  · subst hx
    exact hs
  refine Prog.Triple.bind (Q := fun _ _ => True)
    (file_triple fun s _ => ⟨trivial, trivial⟩) fun _ => file_triple fun s _ =>
      ⟨trivial, fun _ => ?_⟩
  exact Disk.rename_src s.disk (p := .blobTmp h) (q := .blob h) (by simp)

theorem finalizeGate_tallies (cfg : Config) (a u : String) (size : Nat) :
    Tallies x (finalizeGate cfg a u size) := by
  unfold finalizeGate
  cases makeQuotaGate cfg.quotas with
  | none => exact .pure fun _ hs => hs
  | some gate =>
    refine .bind (tallies_keeps (readDb_keeps _)) fun rejected => ?_
    cases rejected with
    | none => exact .pure fun _ hs => hs
    | some v => exact .bind (discardUploadSession_tallies a u) fun _ => .raise fun _ hs => hs

/-- An upload stored by what puts its bytes and its row. -/
theorem storeUpload_stores {C : Server → Prop} {a : String} {t : UploadSession} {cfg : Config}
    {host : Host} {env : Env} (hC : ∀ s : Server, s.Accounted x → C s)
    (h : ∀ bytes, Prog.Triple C (Server.Accounted x) (do
      putBlobBytes t.blobHash bytes
      exec (insertBlobIfAbsent a t.blobHash bytes.length (env.clock 0))) (fun _ =>
        Server.Accounted x) (Server.Accounted x)) :
    Prog.Triple C (Server.Accounted x) (storeUpload cfg host env a t) (fun _ => Server.Accounted x)
      (Server.Accounted x) := by
  unfold storeUpload
  refine .bind ((tallies_keeps (assembleUpload_frame a _)).crash hC) fun bytes =>
    .bind ((tallies_keeps (.require _ _)).crash hC) fun _ => ?_
  refine .ite
    (fun _ => .bind ((discardUploadSession_tallies a _).crash hC) fun _ => .raise fun _ hs => hs)
    fun _ => ?_
  refine .bind ((finalizeGate_tallies cfg a _ _).crash hC) fun _ => ?_
  have hend : ∀ answer : Response, Prog.Triple C (Server.Accounted x) (do
      discardUploadSession a t.uploadId
      pure answer) (fun _ => Server.Accounted x) (Server.Accounted x) := fun answer =>
    .bind ((discardUploadSession_tallies a t.uploadId).crash hC) fun _ => .pure fun _ hs => hs
  have hstored := Prog.Triple.bind (h bytes) fun _ =>
    hend (.json 200 [("blobHash", .str t.blobHash), ("size", .nat bytes.length),
      ("stored", .bool true)])
  rw [Prog.bind_assoc] at hstored
  exact hstored

theorem storeUpload_apart {t : UploadSession} (htmp : x ≠ .blobTmp t.blobHash)
    (hblob : x ≠ .blob t.blobHash) (cfg : Config) (host : Host) (env : Env) (a : String) :
    Tallies x (storeUpload cfg host env a t) := by
  refine storeUpload_stores (fun _ hs => hs) fun bytes =>
    .bind (put_apart htmp hblob bytes) fun _ => ?_
  refine exec_triple (fun s o db hs e => ?_) fun _ hs => hs
  obtain ⟨hparts, hheld, -⟩ := insert_held e
  have hmore : Server.Accounted x { s with db := db } :=
    Media.Accounted.more hs rfl hheld fun p hp => by
    show p ∈ db.uploadParts.rows
    rw [hparts]
    exact hp
  exact ⟨hmore, hmore⟩

theorem storeUpload_squares (cfg : Config) (host : Host) (env : Env) (a : String)
    (t : UploadSession) :
    Squares x (storeUpload cfg host env a t) := by
  by_cases hx : x ≠ .blobTmp t.blobHash ∧ x ≠ .blob t.blobHash
  · exact tallies_squares (storeUpload_apart hx.1 hx.2 cfg host env a)
  have hx : x = .blobTmp t.blobHash ∨ x = .blob t.blobHash := by
    by_contra hno
    exact hx (not_or.1 hno)
  refine storeUpload_stores (fun _ _ => trivial) fun bytes => .bind (put_lands _ bytes) fun _ =>
    exec_commits fun s htmp => ?_
  obtain ⟨o, db, e⟩ :
      ∃ o db, (insertBlobIfAbsent a t.blobHash bytes.length (env.clock 0)).eval s.db =
        .ok (o, db) := by
    rw [insertBlobIfAbsent_eval]
    cases s.db.blobs.find (a, t.blobHash) with
    | some b => exact ⟨_, _, rfl⟩
    | none => exact ⟨_, _, rfl⟩
  refine ⟨o, db, e, ?_⟩
  rcases hx with rfl | rfl
  · exact htmp rfl
  · exact fun _ => (insert_held e).2.2

/-- The files a request of `a` writes. -/
def Server.fills (a : String) (s : Server) : Call → List Path
  | .putPart u index _ =>
    match partIndex index with
    | some i => [.partTmp u i, .part u i]
    | none => []
  | .finalize u =>
    match getUploadSession a u s.db with
    | some t => [.blobTmp t.blobHash, .blob t.blobHash]
    | none => []
  | _ => []

theorem finalize_apart (cfg : Config) (host : Host) (env : Env) (a u : String) :
    Prog.Triple (Server.Accounted x) (fun s => s.Accounted x ∧
      x ∉ s.fills a (.finalize u)) (finalize cfg host env a u)
      (fun _ => Server.Accounted x) (Server.Accounted x) := by
  let Apart : UploadSession → Prop := fun t => x ≠ .blobTmp t.blobHash ∧ x ≠ .blob t.blobHash
  unfold finalize
  refine Prog.Triple.bind (Q := fun o s => s.Accounted x ∧ ∀ t, o = some t → Apart t)
    (.get fun s hs => ⟨hs.1, fun t ht => ?_⟩) fun o => ?_
  · have hfills := hs.2
    simp only [Server.fills, ht, List.mem_cons, List.not_mem_nil, or_false, not_or] at hfills
    exact hfills
  refine Prog.Triple.bind (Q := fun t s => s.Accounted x ∧ Apart t)
    (.found (fun t ht s hs => ⟨hs.1, hs.2 t ht⟩) fun _ hs => hs.1)
    fun t => ?_
  by_cases hx : Apart t
  swap
  · exact fun s hs => absurd hs.2 hx
  refine Prog.Triple.pre (P := Server.Accounted x)
    (.bind (tallies_keeps (readDb_keeps _)) fun owned => ?_) fun _ hs => hs.1
  cases owned with
  | some b => exact .bind (discardUploadSession_tallies a _) fun _ => .pure fun _ hs => hs
  | none => exact storeUpload_apart hx.1 hx.2 cfg host env a

theorem finalize_squares (cfg : Config) (host : Host) (env : Env) (a u : String) :
    Squares x (finalize cfg host env a u) := by
  unfold finalize
  refine .bind (tallies_squares (tallies_keeps (readDb_keeps _))) fun o =>
    .bind (tallies_squares (tallies_keeps (.found _ _))) fun t => ?_
  refine .bind (tallies_squares (tallies_keeps (readDb_keeps _))) fun owned => ?_
  cases owned with
  | some b =>
    exact .bind (tallies_squares (discardUploadSession_tallies a _)) fun _ => .pure fun _ hs => hs
  | none => exact storeUpload_squares cfg host env a t

/-! ## Requests -/

theorem initiate_tallies (cfg : Config) (env : Env) (a h : String) (size : Nat) :
    Tallies x (initiate cfg env a h size) := by
  unfold initiate
  refine .bind (tallies_keeps (readDb_keeps _)) fun owned => ?_
  cases owned with
  | some b => exact .pure fun _ hs => hs
  | none =>
    refine .bind (tallies_keeps (gated_keeps cfg _)) fun _ =>
      .bind (exec_triple (fun s o db hs e => ?_) fun _ hs => hs)
      fun _ => .pure fun _ hs => hs
    rw [createUploadSession_eval] at e
    split at e <;> cases e
    have hmore :
        Server.Accounted x { s with db := s.db.putSession ⟨env.uuid, a, h, size, env.clock 0⟩ } :=
      Media.Accounted.more hs rfl (fun _ hy => hy) fun _ hp => hp
    exact ⟨hmore, hmore⟩

theorem perform_plain (cfg : Config) (host : Host) (credential : Option Credential) (env : Env)
    (a : String) {call : Call}
    (hw : ∀ area ∈ call.writes, area.plain = true) :
    Tallies x (perform cfg host credential env a call) :=
  tallies_keeps (perform_frame media_volatile cfg host credential env a call fun area h =>
    media_ignores (hw area h))

/-- **A request leaves everything accounted for but what it fills**, step by step. -/
theorem perform_tallies (cfg : Config) (host : Host) (credential : Option Credential) (env : Env)
    (a : String) (call : Call) :
    Prog.Triple (Server.Accounted x) (fun s => s.Accounted x ∧
      x ∉ s.fills a call) (perform cfg host credential env a call)
      (fun _ => Server.Accounted x) (Server.Accounted x) := by
  cases call with
  | putPart u index bytes =>
    refine fun s hs => putPart_stages (fun _ hs => hs) (fun i hi => ?_) s hs.1
    have hfills := hs.2
    simp only [Server.fills, hi, List.mem_cons, List.not_mem_nil, or_false, not_or] at hfills
    exact stageUploadPart_apart hfills.1 hfills.2 a bytes _
  | finalize u => exact finalize_apart cfg host env a u
  | initiate h valid size => exact (initiate_tallies cfg env a h size).pre fun _ hs => hs.1
  | cancel u => exact (cancel_tallies a u).pre fun _ hs => hs.1
  | refAdd h => exact (tallies_keeps (refAdd_media env a h)).pre fun _ hs => hs.1
  | refRelease h => exact (tallies_keeps (refRelease_media env a h)).pre fun _ hs => hs.1
  | _ =>
    exact (perform_plain cfg host credential env a (by simp [Call.writes, Area.plain])).pre
      fun _ hs => hs.1

/-- **At its end also that.** -/
theorem perform_squares (cfg : Config) (host : Host) (credential : Option Credential) (env : Env)
    (a : String) (call : Call) :
    Squares x (perform cfg host credential env a call) := by
  cases call with
  | putPart u index bytes => exact putPart_squares env a u index bytes
  | finalize u => exact finalize_squares cfg host env a u
  | initiate h valid size => exact tallies_squares (initiate_tallies cfg env a h size)
  | cancel u => exact tallies_squares (cancel_tallies a u)
  | refAdd h => exact tallies_squares (tallies_keeps (refAdd_media env a h))
  | refRelease h => exact tallies_squares (tallies_keeps (refRelease_media env a h))
  | _ =>
    exact tallies_squares
      (perform_plain cfg host credential env a (by simp [Call.writes, Area.plain]))

/-! ## Deleting an account -/

/-- A loop of which every round ends. -/
theorem each_lands {f : String → Handler Unit} {g : Server → String → Server}
    {P Q E : Server → Prop} {ks : List String}
    (h : ∀ k ∈ ks, ∀ s, (f k s).result = .ok () ∧ (f k s).state = g s k)
    (hq : ∀ s, P s → Q (ks.foldl g s)) :
    Prog.Lands P (Prog.each f ks) (fun _ => Q) E := by
  intro s hs
  obtain ⟨hok, hstate⟩ := Prog.each_run ks s h
  refine ⟨fun _ _ => trivial, ?_⟩
  rw [hok, hstate]
  exact hq s hs

theorem foldl_disk {f : Disk → String → Disk} : ∀ (ks : List String) (s : Server),
    (ks.foldl (fun s k => { s with disk := f s.disk k }) s) = { s with disk := ks.foldl f s.disk }
  | [], _ => rfl
  | k :: ks, s => foldl_disk ks { s with disk := f s.disk k }

/-- The files that are left when those of uploads and hashes are removed. -/
def cleared (uploadIds hashes : List String) (d : Disk) : Disk :=
  hashes.foldl (fun d h => d.remove (.blob h)) (uploadIds.foldl Disk.removeSession d)

theorem removals (hashes : List String) : ∀ (d : Disk) (p : Path),
    (hashes.foldl (fun d h => d.remove (.blob h)) d) p =
      if ∃ h ∈ hashes, p = .blob h then none else d p := by
  induction hashes with
  | nil => simp
  | cons h hashes ih =>
    intro d p
    rw [List.foldl_cons, ih]
    by_cases hp : p = .blob h
    · simp [hp]
    · simp [hp, Disk.remove_other d hp]

theorem sessions_removed (uploadIds : List String) : ∀ (d : Disk) (p : Path),
    (uploadIds.foldl Disk.removeSession d) p =
      if ∃ u ∈ uploadIds, Disk.inSession u p = true then none else d p := by
  induction uploadIds with
  | nil => simp
  | cons u uploadIds ih =>
    intro d p
    rw [List.foldl_cons, ih]
    by_cases hp : Disk.inSession u p = true
    · simp [hp, Disk.removeSession]
    · simp [hp, Disk.removeSession]

theorem cleared_eq (uploadIds hashes : List String) (d : Disk) (p : Path) :
    cleared uploadIds hashes d p =
    if (∃ h ∈ hashes, p = .blob h) ∨
    ∃ u ∈ uploadIds, Disk.inSession u p = true then none else d p := by
  unfold cleared
  rw [removals, sessions_removed]
  by_cases h1 : ∃ h ∈ hashes, p = .blob h
  · rw [if_pos h1, if_pos (.inl h1)]
  · by_cases h2 : ∃ u ∈ uploadIds, Disk.inSession u p = true
    · rw [if_neg h1, if_pos h2, if_pos (.inr h2)]
    · rw [if_neg h1, if_neg h2, if_neg (not_or.2 ⟨h1, h2⟩)]

/-- **Without the account's rows, and the files they alone account for.** -/
theorem without_accounted {a : String} {s : Server} (hs : s.Accounted x) :
    (mediaOf (s.db.without a)
      (cleared
        ((s.db.uploadSessions.rows.filter fun t => decide (t.accountId = a)).map (·.uploadId))
      (deletedHashes a s.db) s.disk)).Accounted x := by
  have hfewer : ∀ {p : Path} {b : Bytes},
      cleared ((s.db.uploadSessions.rows.filter fun t => decide (t.accountId = a)).map (·.uploadId))
      (deletedHashes a s.db) s.disk p = some b → s.disk p = some b ∧
        (∀ h ∈ deletedHashes a s.db, p ≠ .blob h) ∧
        ∀ t ∈ s.db.uploadSessions.rows, t.accountId = a → Disk.inSession t.uploadId p ≠ true := by
    intro p b hb
    rw [cleared_eq] at hb
    split at hb
    · cases hb
    · rename_i hkept
      rw [not_or] at hkept
      refine ⟨hb, fun h hh e => hkept.1 ⟨h, hh, e⟩,
        fun t ht ha hin => hkept.2 ⟨t.uploadId, ?_, hin⟩⟩
      exact List.mem_map_of_mem (List.mem_filter.2 ⟨ht, by simpa using ha⟩)
  cases x with
  | blob h =>
    intro hfile
    obtain ⟨b, hb⟩ := Option.ne_none_iff_exists'.1 hfile
    obtain ⟨hfile, hkept, -⟩ := hfewer hb
    obtain ⟨y, hy, rfl⟩ := hs (Option.ne_none_iff_exists'.2 ⟨b, hfile⟩)
    obtain ⟨row, hrow, rfl⟩ := List.mem_map.1 hy
    -- the hash is none the deletion reports, so a row of another account has it
    have hother : ∃ r ∈ (s.db.without a).blobs.rows, r.blobHash = row.blobHash := by
      by_contra hno
      by_cases ha : row.accountId = a
      · refine hkept row.blobHash
          (List.mem_filter.2 ⟨List.mem_map_of_mem (List.mem_filter.2 ⟨hrow, by simpa using ha⟩),
            ?_⟩) rfl
        rw [Bool.not_eq_true', List.any_eq_false]
        exact fun r hr e => hno ⟨r, hr, by simpa using e⟩
      · exact hno ⟨row, Table.mem_keep.2 ⟨hrow, by simpa using ha⟩, rfl⟩
    obtain ⟨r, hr, e⟩ := hother
    exact ⟨(r.key, r.size), List.mem_map.2 ⟨r, hr, rfl⟩, e⟩
  | part u i =>
    intro b hb
    obtain ⟨hfile, -, hkept⟩ := hfewer hb
    obtain ⟨p, hp, hkey, hsize⟩ := hs b hfile
    have hu : p.uploadId = u := congrArg Prod.fst hkey
    refine ⟨p, Table.mem_keep.2 ⟨hp, ?_⟩, hkey, hsize⟩
    rw [Bool.not_eq_true', Bool.eq_false_iff]
    intro hown
    obtain ⟨t, ht, ha⟩ := Db.ownsUpload_iff.1 hown
    have htu : t.uploadId = p.uploadId := Table.find_key ht
    exact hkept t (Table.find_mem ht) ha (by simp [Disk.inSession, htu, hu])
  | _ =>
    -- a temporary file that is there now was there before
    exact Option.eq_none_iff_forall_ne_some.2 fun b hb =>
      Option.some_ne_none b ((hfewer hb).1.symm.trans hs)

theorem discardSession_ends {u : String} (hu : isUploadId u = true) (s : Server) :
    (discardSession u s).result = .ok () ∧ (discardSession u s).state =
    { s with disk := s.disk.removeSession u } := by
  have hassert : Disk.assertUploadId u = .ok () := if_pos hu
  unfold discardSession
  rw [hassert]
  exact ⟨rfl, rfl⟩

theorem deleteBytes_ends {h : String} (hh : isHash h = true) (s : Server) :
    (deleteBytes h s).result = .ok () ∧ (deleteBytes h s).state =
    { s with disk := s.disk.remove (.blob h) } := by
  have hassert : Disk.assertHash h = .ok () := if_pos hh
  unfold deleteBytes
  rw [hassert]
  exact ⟨rfl, rfl⟩

/-- Hashes and upload ids that name files. -/
def Server.Named (s : Server) : Prop :=
  (∀ t ∈ s.db.uploadSessions.rows, isUploadId t.uploadId = true) ∧
  ∀ b ∈ s.db.blobs.rows, isHash b.blobHash = true

/-- **An account deletion that ends leaves everything accounted for.** -/
theorem deleteAccountRoute_squares (a : String) (body : Body) :
    Prog.Lands (fun s => s.Accounted x ∧ s.Named) (deleteAccountRoute a body)
      (fun _ => Server.Accounted x) (Server.Accounted x) := by
  unfold deleteAccountRoute
  refine Prog.Triple.bind (Q := fun _ s => s.Accounted x ∧ s.Named)
    (.ofExcept (fun _ _ _ hs => hs) fun _ hs => hs.1) fun body => ?_
  refine Prog.Triple.bind (Q := fun _ s => s.Accounted x ∧ s.Named)
    (.ofExcept (fun _ _ _ hs => hs) fun _ hs => hs.1) fun confirm => ?_
  refine Prog.Triple.bind (Q := fun _ s => s.Accounted x ∧ s.Named)
    (.require (fun _ _ hs => hs) fun _ hs => hs.1) fun _ => ?_
  let Due : DeletedAccount → Server → Prop :=
    fun r s => (s.media.onDisk (cleared r.uploadIds r.blobHashes)).Accounted x ∧
    (∀ u ∈ r.uploadIds, isUploadId u = true) ∧ ∀ h ∈ r.blobHashes, isHash h = true
  refine Prog.Triple.bind (Q := fun r s => (r = none → s.Accounted x) ∧ ∀ y, r = some y → Due y s)
    (exec_triple (fun s r db hs e => ⟨trivial, ?_⟩) fun _ hs => hs.1) fun r? => ?_
  · rw [deleteAccount_eval] at e
    cases hf : s.db.accounts.find a with
    | none => rw [hf] at e; cases e; exact ⟨fun _ => hs.1, fun y hy => nomatch hy⟩
    | some record =>
      rw [hf] at e
      cases e
      refine ⟨fun h => (nomatch h), fun y hy => ?_⟩
      cases hy
      refine ⟨without_accounted hs.1, fun u hu => ?_, fun h hh => ?_⟩
      · obtain ⟨t, ht, rfl⟩ := List.mem_map.1 hu
        exact hs.2.1 t (List.mem_filter.1 ht).1
      · obtain ⟨b, hb, rfl⟩ := List.mem_map.1 (List.mem_filter.1 hh).1
        exact hs.2.2 b (List.mem_filter.1 hb).1
  refine Prog.Triple.bind (Q := Due) ?_ fun r => ?_
  · cases r? with
    | none => exact .raise fun s hs => hs.1 rfl
    | some r => exact .pure fun s hs => hs.2 r rfl
  by_cases hnamed : (∀ u ∈ r.uploadIds, isUploadId u = true) ∧ ∀ h ∈ r.blobHashes, isHash h = true
  swap
  · exact fun s hs => absurd hs.2 hnamed
  let Left : Server → Prop :=
    fun s => (s.media.onDisk (cleared r.uploadIds r.blobHashes)).Accounted x
  have hrevoked : Prog.Lands Left (Prog.each onRevoked r.credentialIds) (fun _ => Left)
      (Server.Accounted x) :=
    .each (I := fun _ => Left) fun done id rest _ => .poke fun s hs => hs
  refine .bind (hrevoked.pre fun _ hs => hs.1) fun _ => ?_
  refine Prog.Triple.bind (Q :=
    fun _ s =>
      (s.media.onDisk fun d => r.blobHashes.foldl (fun d h => d.remove (.blob h)) d).Accounted x)
    (each_lands (fun u hu s => discardSession_ends (hnamed.1 u hu) s) fun s hs => ?_) fun _ => ?_
  · rw [foldl_disk]
    exact hs
  refine Prog.Triple.bind (Q := fun _ => Server.Accounted x)
    (each_lands (fun h hh s => deleteBytes_ends (hnamed.2 h hh) s) fun s hs => ?_) fun _ =>
      .pure fun _ hs => hs
  rw [foldl_disk (f := fun d h => d.remove (.blob h))]
  exact hs

/-! ## The report -/

/-- The bytes the report attributes are those of the rows, whoever is connected. -/
theorem report_bytes {db : Db} (ho : db.Owned) (now : String → String) (hub : Hub) :
    (adminUsage now db hub).totals.blobBytes = (db.blobs.rows.map (·.size)).sum ∧
      (adminUsage now db hub).totals.stagedBytes = (db.uploadParts.rows.map (·.size)).sum := by
  have hn : ((reportNames db hub).insertionSort Js.le16).Nodup :=
    (List.perm_insertionSort _ _).nodup_iff.2 nodup_reportNames
  have hall : ∀ a, db.Footprint a → a ∈ (reportNames db hub).insertionSort Js.le16 := fun a ha => by
    rw [List.mem_insertionSort]
    exact mem_reportNames.2 (.inl ha)
  have hdb := usage_conserves ho hn hall now
  have hblobs := hdb.blobBytes
  have hstaged := hdb.stagedBytes
  have htotals : (adminUsage now db hub).totals =
      (adminUsage now db hub).accounts.foldl .add ⟨0, 0, 0, 0, 0, 0, 0, 0⟩ :=
    rfl
  simp only [List.map_map, Function.comp_def] at hblobs hstaged
  simp only [htotals, foldl_totals, accounts_eq, List.map_map, Function.comp_def,
    entry, Nat.zero_add]
  exact ⟨hblobs, hstaged⟩

end Tallies

end GlanceVault.L3
