import GlanceVault.Core.Guarantee
import GlanceVault.L3Http.Frames
/-!
# The handlers and the life of a blob

Every storage step of every handler is a `MediaStep` of the uploads and blobs
or leaves them alone, so what `MediaStep` preserves holds after every request,
also one that was cut short.

* `perform_follows`: the account-scoped routes.
* `deleteAccountRoute_follows`: the account delete, whose rows go before the
  bytes nobody holds any more.
* `reapUploadSessions_follows`, `reclaimSweep_follows`: the sweeps; only a
  reclaim takes `ReclaimStep`s.
-/
namespace GlanceVault.L3
open GlanceVault.Core GlanceVault.L1 GlanceVault.L1.Js GlanceVault.L2

def Server.media (s : Server) : Media := mediaOf s.db s.disk

/-- The part a call sends into a session its account owns. -/
def sentBy (a : String) (call : Call) (db : Db) : List SentPart :=
  match call with
  | .putPart u index bytes =>
    match getUploadSession a u db, (JsNumber.ofString index).asNatural with
    | some _, some i => [⟨a, u, i, bytes⟩]
    | _, _ => []
  | _ => []

/-! ## Rules for the primitives -/

section Rules
variable {γ : Type} {π : Server → γ} {R : γ → γ → Prop} {P : Server → Prop}

theorem exec_follows {α : Type} {m : DbTx α} {Q : α → Server → Prop}
    (h : ∀ s a db, P s → m.eval s.db = .ok (a, db) →
      (π { s with db := db } = π s ∨ R (π s) (π { s with db := db })) ∧ Q a { s with db := db }) :
    Prog.Follows π R P (exec m) Q := by
  refine .step fun s a s' hs e => ?_
  cases he : m.eval s.db with
  | error x => rw [he] at e; cases e
  | ok r =>
    rw [he] at e
    cases e
    exact h s r.1 r.2 hs he

theorem file_follows {f : Disk → Disk} {Q : Unit → Server → Prop}
    (h : ∀ s, P s → R (π s) (π { s with disk := f s.disk }) ∧ Q () { s with disk := f s.disk }) :
    Prog.Follows π R P (file f) Q := by
  refine .step fun s a s' hs e => ?_
  cases e
  exact ⟨.inr (h s hs).1, (h s hs).2⟩

theorem assert_follows {r : Except String Unit} {Q : Unit → Server → Prop}
    (h : r = .ok () → ∀ s, P s → Q () s) :
    Prog.Follows π R P (assert r) Q := by
  cases r with
  | ok u => exact .pure (h rfl)
  | error e => exact .raise _

theorem assert_passes (r : Except String Unit) : Prog.Follows π R P (assert r) fun _ => P :=
  assert_follows fun _ _ hs => hs

theorem readDisk_follows {α : Type} {f : Disk → Except String α} {Q : α → Server → Prop}
    (h : ∀ s a, P s → f s.disk = .ok a → Q a s) : Prog.Follows π R P (readDisk f) Q := by
  refine Prog.Follows.bind (Q := fun r s => P s ∧ f s.disk = r)
    (.get fun s hs => ⟨hs, rfl⟩) fun r => ?_
  cases r with
  | ok a => exact .pure fun s hs => h s a hs.1 hs.2
  | error e => exact .raise _

theorem gated_follows (cfg : Config) (rule : QuotaPolicy → Db → Option QuotaVerdict) :
    Prog.Follows π R P (gated cfg rule) fun _ => P := by
  unfold gated
  cases makeQuotaGate cfg.quotas with
  | none => exact .pure fun s hs => hs
  | some gate =>
    refine Prog.Follows.bind (Q := fun _ => P) (.get fun s hs => hs) fun r => ?_
    cases r with
    | none => exact .pure fun s hs => hs
    | some v => exact .raise _

end Rules

/-! ## Calls that leave the media alone -/

theorem media_volatile : Volatile Server.media := fun _ _ _ _ _ => rfl

/-- The areas outside the uploads and blobs. -/
def Area.plain : Area → Bool
  | .sync | .intents | .devices | .salts | .registry => true
  | _ => false

theorem media_ignores {area : Area} (ha : area.plain = true) : Ignores Server.media area := by
  cases area with
  | sync => exact ignores_of fun _ => rfl
  | intents => exact ignores_of fun _ => rfl
  | devices => exact ignores_of (f := fun db => { db with devices := .empty }) fun _ => rfl
  | salts => exact ignores_of (f := fun db => { db with accountSalts := .empty }) fun _ => rfl
  | registry => exact ignores_of fun _ => rfl
  | blobs => cases ha
  | uploads => cases ha
  | files => cases ha

/-- Reference tracking leaves hash and size of every row alone. -/
theorem changeRef_media {a k : String} {change : DbTx (Option Blob)}
    (hc : ∀ db o db', change.eval db = .ok (o, db') → db' = db ∨
      ∃ (b b' : Blob) (d : Db), db.blobs.find (a, k) = some b ∧ b'.key = b.key ∧ b'.size = b.size ∧
        d.blobs = db.blobs ∧ d.uploadSessions = db.uploadSessions ∧ d.uploadParts = db.uploadParts ∧
        db' = d.putBlob b') : Prog.Keeps Server.media (changeRef change) := by
  refine .bind (.step fun s o s' e => ?_) fun _ => .bind (.found _ _) fun _ => .pure _
  cases he : change.eval s.db with
  | error x => rw [he] at e; cases e
  | ok r =>
    rw [he] at e
    cases e
    rcases hc s.db r.1 r.2 he with h | ⟨b, b', d, hf, hk, hn, e1, e2, e3, h⟩
    · rw [h]
    · rw [h]
      have hk' : b.key = (a, k) := Table.find_key hf
      have hheld : (d.putBlob b').held = d.held :=
        held_putBlob_old (show d.blobs.find b'.key = some b by rw [e1, hk, hk']; exact hf) hn
      have hd : d.held = s.db.held := by unfold Db.held; rw [e1]
      show (⟨(d.putBlob b').held, d.uploadSessions, d.uploadParts, s.disk⟩ : Media) =
        mediaOf s.db s.disk
      rw [hheld, hd, e2, e3]
      rfl

theorem refAdd_media (env : Env) (a h : String) : Prog.Keeps Server.media (refAdd env a h) := by
  refine changeRef_media (a := a) (k := h) fun db o db' e => ?_
  rw [addBlobReference_eval] at e
  split at e
  · cases e; exact .inl rfl
  · rename_i b hb
    cases e
    exact .inr ⟨b, b.referenced (env.clock 0), db, hb, rfl, rfl, rfl, rfl, rfl, rfl⟩

theorem refRelease_media (env : Env) (a h : String) :
    Prog.Keeps Server.media (refRelease env a h) := by
  refine changeRef_media (a := a) (k := h) fun db o db' e => ?_
  rw [releaseBlobReference_eval] at e
  split at e
  · cases e; exact .inl rfl
  · rename_i b hb
    split at e
    · cases e
      exact .inr ⟨b, b.touched (env.clock 0), db, hb, rfl, rfl, rfl, rfl, rfl, rfl⟩
    · split at e
      · cases e
        exact .inr ⟨b, b.released (some (latestSeq db a + 1)) (env.clock 0), db.bump a, hb, rfl,
          rfl, rfl, rfl, rfl, rfl⟩
      · cases e
        exact .inr ⟨b, b.released b.zeroRefSeq (env.clock 0), db, hb, rfl, rfl, rfl, rfl, rfl, rfl⟩

/-! ## Uploads -/

/-- A relation that allows the end of an upload session. -/
structure AllowsDrop (R : Media → Media → Prop) : Prop where
  discard : ∀ m u, R m (m.onDisk fun d => d.removeSession u)
  drop : ∀ m p, R m (m.drop p)

section Uploads
variable {sha256Hex : Bytes → String} {sent : List SentPart} {P : Server → Prop}

theorem mediaStep_drop : AllowsDrop (MediaStep sha256Hex sent) :=
  ⟨fun _ u => .discard u, fun _ p => .drop p⟩

theorem initiate_follows (cfg : Config) (env : Env) (a h : String) (valid : isHash h = true)
    (size : Nat) :
    Prog.Follows Server.media (MediaStep sha256Hex sent) P (initiate cfg env a h size) fun _ _ =>
      True := by
  unfold initiate
  refine Prog.Follows.bind (Q := fun _ _ => True) (.get fun _ _ => trivial) fun owned => ?_
  cases owned with
  | some b => exact .pure fun _ _ => trivial
  | none =>
    refine .bind (gated_follows cfg _) fun _ => ?_
    refine Prog.Follows.bind (Q := fun _ _ => True)
      (exec_follows fun s o db _ e => ⟨.inr ?_, trivial⟩) fun _ => .pure fun _ _ => trivial
    rw [createUploadSession_eval] at e
    cases hu : s.db.uploadSessions.has env.uuid with
    | true => rw [hu] at e; cases e
    | false =>
      rw [hu] at e
      cases e
      exact .openSession ⟨env.uuid, a, h, size, env.clock 0⟩ (Table.has_eq_false.1 hu) valid

theorem discardUploadSession_follows {R : Media → Media → Prop} (hR : AllowsDrop R) (a u : String) :
    Prog.Follows Server.media R P (discardUploadSession a u) fun _ _ => True := by
  unfold discardUploadSession discardSession
  refine Prog.Follows.bind (Q := fun _ _ => True) (.get fun _ _ => trivial) fun session => ?_
  cases session with
  | none => exact .pure fun _ _ => trivial
  | some s =>
    refine Prog.Follows.bind (Q := fun _ _ => True) (.bind (assert_passes _)
      fun _ => file_follows fun s _ => ⟨hR.discard s.media u, trivial⟩) fun _ => ?_
    refine exec_follows fun s o db _ e => ⟨.inr ?_, trivial⟩
    unfold deleteUploadSessionFor at e
    rw [Tx.eval_write] at e
    cases e
    exact hR.drop s.media _

/-- The bytes and the session a part is being written for. -/
def Staging (sent : List SentPart) (s : UploadSession) (i : Nat) (bytes : Bytes)
    (m : Media) : Prop :=
  m.sessions.find s.uploadId = some s ∧ ⟨s.accountId, s.uploadId, i, bytes⟩ ∈ sent

theorem stageUploadPart_follows {s : UploadSession} {i : Nat} {bytes : Bytes} (now : String) :
    Prog.Follows Server.media (MediaStep sha256Hex sent) (fun x => Staging sent s i bytes x.media)
      (stageUploadPart s.accountId s.uploadId i bytes now) fun _ _ => True := by
  unfold stageUploadPart writePart
  refine .bind (.fetch _) fun _ => .bind (.guard _ _) fun _ => ?_
  refine Prog.Follows.bind (Q := fun _ x => Staging sent s i bytes x.media ∧
    x.disk (.part s.uploadId i) = some bytes)
    ?_ fun _ => ?_
  · refine .bind (assert_passes _) fun _ => ?_
    refine Prog.Follows.bind
      (Q := fun _ x => Staging sent s i bytes x.media ∧ x.disk (.partTmp s.uploadId i) = some bytes)
      (file_follows fun x hx => ⟨.writeTmp _ _ ⟨by simp, by simp⟩, hx,
        Disk.write_self _ _ _⟩) fun _ => ?_
    exact file_follows fun x hx =>
      ⟨.stage s i bytes hx.1.1 hx.2 hx.1.2, hx.1, (Disk.rename_dst x.disk _ _).trans hx.2⟩
  · refine exec_follows fun x o db hx e => ⟨.inr ?_, trivial⟩
    unfold recordUploadPart at e
    rw [Tx.eval_write] at e
    cases e
    have hown : x.db.ownsUpload s.accountId s.uploadId = true :=
      Db.ownsUpload_iff.2 ⟨s, hx.1.1, rfl⟩
    rw [if_pos hown]
    exact .ack s i bytes now hx.1.1 hx.2 hx.1.2

theorem putPart_follows (env : Env) (a u index : String) (bytes : Bytes) :
    Prog.Follows Server.media (MediaStep sha256Hex sent)
      (fun s => ∀ p ∈ sentBy a (.putPart u index bytes) s.db, p ∈ sent)
    (putPart env a u index bytes)
      fun _ _ => True := by
  unfold putPart
  refine Prog.Follows.bind (Q := fun session s => getUploadSession a u s.db = session ∧
    ∀ p ∈ sentBy a (.putPart u index bytes) s.db, p ∈ sent) (.get fun s hs =>
      ⟨rfl, hs⟩) fun session? => ?_
  refine Prog.Follows.bind (Q := fun session s => getUploadSession a u s.db = some session ∧
    ∀ p ∈ sentBy a (.putPart u index bytes) s.db, p ∈ sent) (.found fun session e s hs =>
      ⟨by rw [hs.1, e], hs.2⟩)
    fun session => ?_
  refine Prog.Follows.bind (Q := fun i s => (getUploadSession a u s.db = some session) ∧
    (⟨a, u, i, bytes⟩ : SentPart) ∈ sent) (.found fun i e s hs => ⟨hs.1, ?_⟩) fun i => ?_
  · refine hs.2 _ ?_
    simp only [sentBy, hs.1, e]
    exact List.mem_singleton.2 rfl
  · refine .bind (.fetch _) fun parts => .bind (.guard _ _) fun _ => ?_
    refine Prog.Follows.bind (Q := fun _ _ => True) ?_ fun _ => ?_
    · intro x s hs
      obtain ⟨hf, ha⟩ := getUploadSession_some.1 hs.2.1
      have hu : session.uploadId = u := Table.find_key hf
      subst ha hu
      exact stageUploadPart_follows (env.clock 0) x s ⟨hs.1, hf, hs.2.2⟩
    · exact Prog.Follows.bind (Q := fun _ _ => True) (.get fun _ _ => trivial) fun _ =>
        .pure fun _ _ => trivial

/-- The assembled bytes of a live, complete upload. -/
def Ready (s : UploadSession) (bytes : Bytes) (m : Media) : Prop :=
  m.sessions.find s.uploadId = some s ∧
    (∀ p ∈ m.listed s.uploadId, (m.disk (.part s.uploadId p.partIndex)).isSome) ∧
    m.assembled s.uploadId = bytes

/-- Blob files do not matter to it. -/
theorem Ready.onDisk {s : UploadSession} {bytes : Bytes} {m : Media} (h : Ready s bytes m)
    {f : Disk → Disk}
    (hf : ∀ u i, f m.disk (.part u i) = m.disk (.part u i)) : Ready s bytes (m.onDisk f) := by
  obtain ⟨h1, h2, h3⟩ := h
  refine ⟨h1, fun p hp => ?_, ?_⟩
  · rw [Media.disk_onDisk, hf]; exact h2 p hp
  · rw [← h3]
    unfold Media.assembled Media.listed Media.onDisk
    simp only [hf]

theorem assembleUpload_follows (s : UploadSession) :
    Prog.Follows Server.media (MediaStep sha256Hex sent)
      (fun x => getUploadSession s.accountId s.uploadId x.db = some s)
    (assembleUpload s.accountId s.uploadId)
      fun bytes x => Ready s bytes x.media := by
  unfold assembleUpload
  refine .bind (.fetch _) fun _ => .bind (.guard _ _) fun _ => ?_
  refine Prog.Follows.bind
    (Q := fun parts x => getUploadSession s.accountId s.uploadId x.db = some s ∧
    parts = x.media.listed s.uploadId) (.get fun x hx =>
      ⟨hx, listUploadParts_eq x.disk hx⟩) fun parts => ?_
  refine readDisk_follows fun x bytes hx e => ?_
  obtain ⟨hx, rfl⟩ := hx
  obtain ⟨-, hall, rfl⟩ := Disk.assemble_ok.1 e
  refine ⟨(getUploadSession_some.1 hx).1, fun p hp => hall _ (List.mem_map.2 ⟨p, hp, rfl⟩), ?_⟩
  unfold Media.assembled
  rw [List.map_map]
  rfl

theorem finalizeGate_follows {I : Server → Prop} (cfg : Config) (a u : String) (size : Nat) :
    Prog.Follows Server.media (MediaStep sha256Hex sent) I (finalizeGate cfg a u size) fun _ =>
      I := by
  unfold finalizeGate
  cases makeQuotaGate cfg.quotas with
  | none => exact .pure fun _ hs => hs
  | some gate =>
    refine Prog.Follows.bind (Q := fun _ => I) (.get fun _ hs => hs) fun rejected => ?_
    cases rejected with
    | none => exact .pure fun _ hs => hs
    | some v => exact .bind (discardUploadSession_follows mediaStep_drop a u) fun _ => .raise _

theorem put_follows {s : UploadSession} {bytes : Bytes} (h : sha256Hex bytes = s.blobHash) :
    Prog.Follows Server.media (MediaStep sha256Hex sent) (fun x => Ready s bytes x.media)
      (put s.blobHash bytes)
      fun _ x => Ready s bytes x.media ∧ (x.disk (.blob s.blobHash)).isSome := by
  unfold put
  refine .bind (assert_passes _) fun _ => ?_
  refine Prog.Follows.bind (Q := fun present x => Ready s bytes x.media ∧
    (x.disk (.blob s.blobHash)).isSome = present)
    (.get fun x hx => ⟨hx, rfl⟩) fun present => ?_
  refine .ite (fun hp => .pure fun x hx => ⟨hx.1, hx.2.trans hp⟩) fun _ => ?_
  refine Prog.Follows.bind (Q := fun _ x => Ready s bytes x.media ∧
    x.disk (.blobTmp s.blobHash) = some bytes)
    (file_follows fun x hx => ⟨.writeTmp _ _ ⟨by simp, by simp⟩, ?_,
      Disk.write_self _ _ _⟩) fun _ => ?_
  · exact hx.1.onDisk (f := fun d => d.write _ bytes) fun u i =>
      Disk.write_other x.disk (p := .blobTmp s.blobHash) (q := .part u i) (by simp) _
  · refine file_follows fun x hx => ⟨.store s.blobHash bytes hx.2 h, ?_, ?_⟩
    · exact hx.1.onDisk (f := fun d => d.rename _ _) fun u i =>
        Disk.rename_other x.disk (p := .blobTmp s.blobHash) (q := .blob s.blobHash)
        (r := .part u i) (by simp) (by simp)
    · have hmoved : x.disk.rename (.blobTmp s.blobHash) (.blob s.blobHash)
          (.blob s.blobHash) = some bytes :=
        (Disk.rename_dst x.disk _ _).trans hx.2
      exact Option.isSome_iff_exists.2 ⟨bytes, hmoved⟩

theorem storeUpload_follows (cfg : Config) (host : Host) (env : Env) (s : UploadSession) :
    Prog.Follows Server.media (MediaStep host.sha256Hex sent)
      (fun x => getUploadSession s.accountId s.uploadId x.db = some s)
      (storeUpload cfg host env s.accountId s) fun _ _ => True := by
  unfold storeUpload
  refine .bind (assembleUpload_follows s) fun bytes => .bind (.guard _ _) fun _ => ?_
  refine .ite (fun _ => .bind (discardUploadSession_follows mediaStep_drop _ _) fun _ => .raise _)
    fun hsha => ?_
  have hsha : host.sha256Hex bytes = s.blobHash := by simpa using hsha
  refine .bind (finalizeGate_follows cfg _ _ _) fun _ => .bind (put_follows hsha) fun _ => ?_
  refine Prog.Follows.bind (Q := fun _ _ => True)
    (exec_follows fun x o db hx e => ⟨?_, trivial⟩) fun _ => ?_
  · obtain ⟨⟨hlive, hall, hbytes⟩, hstored⟩ := hx
    rw [insertBlobIfAbsent_eval] at e
    cases hf : x.db.blobs.find (s.accountId, s.blobHash) with
    | some b => rw [hf] at e; cases e; exact .inl rfl
    | none =>
      rw [hf] at e
      cases e
      have hstep : MediaStep host.sha256Hex sent x.media _ :=
        .insert s hlive hall (by rw [hbytes]; exact hsha) hstored
      have hheld := held_putBlob_new (x.db.bump s.accountId)
        (.fresh s.accountId s.blobHash bytes.length
          (latestSeq x.db s.accountId + 1) (env.clock 0)) hf
      right
      rw [hbytes] at hstep
      show MediaStep _ _ x.media ⟨((x.db.bump s.accountId).putBlob _).held, _, _, _⟩
      rw [hheld]
      exact hstep
  · exact .bind (discardUploadSession_follows mediaStep_drop _ _) fun _ => .pure fun _ _ => trivial

theorem finalize_follows (cfg : Config) (host : Host) (env : Env) (a u : String) :
    Prog.Follows Server.media (MediaStep host.sha256Hex sent) P
      (finalize cfg host env a u) fun _ _ => True := by
  unfold finalize
  refine Prog.Follows.bind (Q := fun session s => getUploadSession a u s.db = session)
    (.get fun _ _ => rfl)
    fun session? => ?_
  refine Prog.Follows.bind (Q := fun session s => getUploadSession a u s.db = some session)
    (.found fun session e s hs => by rw [hs, e]) fun session => ?_
  refine Prog.Follows.bind (Q := fun _ s => getUploadSession a u s.db = some session)
    (.get fun _ hs => hs)
    fun owned => ?_
  cases owned with
  | some b =>
    exact .bind (discardUploadSession_follows mediaStep_drop _ _) fun _ => .pure fun _ _ => trivial
  | none =>
    intro x s hs
    obtain ⟨hf, ha⟩ := getUploadSession_some.1 hs.2
    have hu : session.uploadId = u := Table.find_key hf
    subst ha hu
    exact storeUpload_follows cfg host env session x s hs

theorem cancel_follows {R : Media → Media → Prop} (hR : AllowsDrop R) (a u : String) :
    Prog.Follows Server.media R P (cancel a u) fun _ _ => True := by
  unfold cancel
  refine Prog.Follows.bind (Q := fun _ _ => True) (.get fun _ _ => trivial) fun _ => ?_
  refine Prog.Follows.bind (Q := fun _ _ => True) (.found fun _ _ _ _ => trivial) fun session => ?_
  exact .bind (discardUploadSession_follows hR _ _) fun _ => .pure fun _ _ => trivial

end Uploads

/-- **The account-scoped routes.** -/
theorem perform_follows (cfg : Config) (host : Host) (credential : Option Credential) (env : Env)
    (a : String) (call : Call) (sent : List SentPart) :
    Prog.Follows Server.media (MediaStep host.sha256Hex sent)
      (fun s => ∀ p ∈ sentBy a call s.db, p ∈ sent)
      (perform cfg host credential env a call) fun _ _ => True := by
  have hframe : (∀ area ∈ call.writes, area.plain = true) →
      Prog.Follows Server.media (MediaStep host.sha256Hex sent)
        (fun s => ∀ p ∈ sentBy a call s.db, p ∈ sent)
        (perform cfg host credential env a call) fun _ _ => True := fun hw =>
    (perform_frame media_volatile cfg host credential env a call fun area h => media_ignores
      (hw area h)).followsAny
  cases call with
  | initiate h valid size => exact initiate_follows cfg env a h valid size
  | putPart u index bytes => exact putPart_follows env a u index bytes
  | finalize u => exact finalize_follows cfg host env a u
  | cancel u => exact cancel_follows mediaStep_drop a u
  | refAdd h => exact (refAdd_media env a h).followsAny
  | refRelease h => exact (refRelease_media env a h).followsAny
  | _ => exact hframe (by simp [Call.writes, Area.plain])

/-! ## Administration and sweeps -/

section Admin
variable {R : Media → Media → Prop} {P : Server → Prop}

/-- A relation that allows an account delete. -/
structure AllowsPurge (R : Media → Media → Prop) : Prop extends AllowsDrop R where
  purge : ∀ m a, R m ((m.forget fun k => decide (k.1 = a)).drop fun s => decide (s.accountId = a))
  erase : ∀ m h, (∀ x ∈ m.held, x.1.2 ≠ h) → R m (m.onDisk fun d => d.remove (.blob h))

theorem mediaStep_purge {sha256Hex : Bytes → String} {sent : List SentPart} :
    AllowsPurge (MediaStep sha256Hex sent) :=
  { mediaStep_drop with purge := fun _ a => .purge a, erase := fun _ h free => .erase h free }

/-- A hash that no row of the media names. -/
def Unheld (hashes : List String) (m : Media) : Prop := ∀ h ∈ hashes, ∀ x ∈ m.held, x.1.2 ≠ h

theorem deleteAccountRoute_follows (hR : AllowsPurge R) (a : String) (body : Body) :
    Prog.Follows Server.media R P (deleteAccountRoute a body) fun _ _ => True := by
  unfold deleteAccountRoute
  refine Prog.Follows.bind (Q := fun _ _ => True) (.ofExcept fun _ _ _ _ => trivial) fun body => ?_
  refine Prog.Follows.bind (Q := fun _ _ => True) (.ofExcept fun _ _ _ _ => trivial) fun confirm =>
    ?_
  refine Prog.Follows.bind (Q := fun _ _ => True) (.require fun _ _ _ => trivial) fun _ => ?_
  refine Prog.Follows.bind (Q := fun r (s : Server) => ∀ x, r = some x →
    Unheld x.blobHashes s.media)
    (exec_follows fun s r db _ e => ?_) fun r? => ?_
  · rw [deleteAccount_eval] at e
    cases hf : s.db.accounts.find a with
    | none => rw [hf] at e; cases e; exact ⟨.inl rfl, fun x hx => (by cases hx)⟩
    | some record =>
      rw [hf] at e
      cases e
      have hheld : (s.db.without a).held = s.db.held.filter fun x => !decide (x.1.1 = a) :=
        held_keep s.db (fun k => decide (k.1 = a)) (fun r => !decide (r.accountId = a)) fun _ => rfl
      refine ⟨.inr ?_, fun x hx => ?_⟩
      · have hstep := hR.purge s.media a
        show R s.media ⟨(s.db.without a).held, _, _, _⟩
        rw [hheld]
        exact hstep
      · cases hx
        intro h hh x hx
        obtain ⟨b, hb, rfl⟩ := List.mem_map.1 hx
        exact deletedHashes_free hh b hb
  · refine Prog.Follows.bind (Q := fun r s => Unheld r.blobHashes s.media)
      (.found fun r e s hs => hs r e) fun r => ?_
    refine Prog.Follows.bind (Q := fun _ s => Unheld r.blobHashes s.media) ?_ fun _ => ?_
    · exact (Prog.Keeps.each (fun id => onRevoked_frame media_volatile id) _).follows _
    refine Prog.Follows.bind (Q := fun _ s => Unheld r.blobHashes s.media) ?_ fun _ => ?_
    · refine (Prog.Follows.each
        (I := fun _ (s : Server) => Unheld r.blobHashes s.media) fun done u rest _ => ?_)
      refine .bind (assert_passes _) fun _ => file_follows fun s hs => ⟨hR.discard s.media u, hs⟩
    refine Prog.Follows.bind (Q := fun _ _ => True) ?_ fun _ => .pure fun _ _ => trivial
    refine (Prog.Follows.each (I := fun _ (s : Server) => Unheld r.blobHashes s.media)
      fun done h rest e => ?_).conseq
      (fun _ hs => hs) fun _ _ _ => trivial
    refine .bind (assert_passes _) fun _ => file_follows fun s hs => ⟨hR.erase s.media h ?_, hs⟩
    exact hs h (by rw [e]; simp)

theorem handleAdmin_follows (hR : AllowsPurge R) (cfg : Config) (host : Host) (env : Env)
    (header : Option String)
    (route : AdminRoute) : Prog.Follows Server.media R P
      (handleAdmin cfg host env header route) fun _ _ => True := by
  have hr : Ignores Server.media .registry := media_ignores rfl
  unfold handleAdmin
  refine .ite (fun _ => ?_) fun _ => ?_
  · refine Prog.Follows.bind (Q := fun _ => P) (.ofExcept fun _ _ _ hs => hs) fun _ => ?_
    cases route with
    | enroll body => exact (enroll_frame hr cfg host env body).followsAny
    | revoke id => exact (revokeCredential_frame media_volatile hr env id).followsAny
    | createAccount body => exact (createAccountRoute_frame hr cfg host env body).followsAny
    | rotateKey a body => exact (rotateKeyRoute_frame media_volatile hr host env a body).followsAny
    | deleteAccount a body => exact deleteAccountRoute_follows hR a body
  · refine Prog.Follows.bind (Q := fun _ => P) (.ofExcept fun _ _ _ hs => hs) fun _ => ?_
    exact (unmounted_frame cfg host header).followsAny

theorem reapUploadSessions_follows (hR : AllowsDrop R) (ttlMs nowMs : Int) :
    Prog.Follows Server.media R P (reapUploadSessions ttlMs nowMs) fun _ _ => True := by
  unfold reapUploadSessions
  refine Prog.Follows.bind (Q := fun _ _ => True) (.ofExcept fun _ _ _ _ => trivial) fun cutoff =>
    ?_
  refine Prog.Follows.bind (Q := fun _ _ => True) (.get fun _ _ => trivial) fun stale => ?_
  refine Prog.Follows.bind (Q := fun _ _ => True)
    (.each (I := fun _ _ => True) fun done s rest _ => ?_)
    fun _ => .pure fun _ _ => trivial
  unfold reapSession discardSession
  refine Prog.Follows.bind (Q := fun _ _ => True) (.bind (assert_passes _)
    fun _ => file_follows fun x _ => ⟨hR.discard x.media _, trivial⟩) fun _ => ?_
  refine exec_follows fun x o db _ e => ⟨.inr ?_, trivial⟩
  unfold deleteUploadSession at e
  rw [Tx.eval_write] at e
  cases e
  exact hR.drop x.media _

theorem deleteBlob_media {a h : String} {s : Server} {o : Bool} {db : Db}
    (e : (deleteBlob a h).eval s.db = .ok (o, db)) :
    Server.media { s with db := db } = s.media.forget fun k => decide (k = (a, h)) := by
  unfold deleteBlob at e
  rw [Tx.eval_write] at e
  cases e
  have hheld := held_keep s.db (fun k => decide (k = (a, h)))
    (fun b => !decide (b.key = (a, h))) fun _ => rfl
  show (⟨_, _, _, _⟩ : Media) = _
  unfold Media.forget
  congr 1

theorem reclaimSweep_follows (hR : ∀ m m', ReclaimStep m m' → R m m') (policy : ReclaimPolicy)
    (nowMs : Int) :
    Prog.Follows Server.media R P (reclaimSweep policy nowMs) fun _ _ => True := by
  unfold reclaimSweep
  refine .ite (fun _ => ?_) fun _ => .pure fun _ _ => trivial
  refine Prog.Follows.bind (Q := fun _ _ => True) (.ofExcept fun _ _ _ _ => trivial) fun grace => ?_
  refine Prog.Follows.bind (Q := fun _ _ => True) (.ofExcept fun _ _ _ _ => trivial) fun dead => ?_
  refine Prog.Follows.bind (Q := fun _ _ => True) (.get fun _ _ => trivial) fun eligible => ?_
  refine Prog.Follows.bind (Q := fun _ _ => True)
    (.each (I := fun _ _ => True) fun done b rest _ => ?_)
    fun _ => .pure fun _ _ => trivial
  unfold reclaimBlob deleteBytes
  refine Prog.Follows.bind (Q := fun _ _ => True) (.bind (assert_passes _)
    fun _ => file_follows fun x _ => ⟨hR _ _ (.erase _), trivial⟩) fun _ => ?_
  refine Prog.Follows.bind (Q := fun _ _ => True)
    (exec_follows fun x o db _ e => ⟨.inr ?_, trivial⟩)
    fun _ => .pure fun _ _ => trivial
  rw [deleteBlob_media e]
  exact hR _ _ (.forget b.accountId b.blobHash)

end Admin

end GlanceVault.L3
