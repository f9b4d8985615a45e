import GlanceVault.L3Http.Fields
import GlanceVault.L3Http.Scope
/-!
# Blob routes (`routes/blobs.ts`)

Resumable upload in parts, verified against the declared hash at finalize,
reference tracking, the existence check and the ranged download.

* `parseRange_bounds`: a range that is served lies inside the blob.
* `download_present`, `download_absent`: what a download answers, with the row
  and the bytes there or one of them missing.
-/
namespace GlanceVault.L3
open GlanceVault.Core GlanceVault.L1 GlanceVault.L1.Js GlanceVault.L2

/-! ## Upload: initiate and status -/

structure InitiateCall where
  accountId : String
  blobHash : String
  valid : isHash blobHash = true
  size : Nat

/-- mirrors src/routes/blobs.ts:116-133 (`POST /uploads`, the checks) -/
def checkInitiate (cfg : Config) (body : Body) : Except Abort InitiateCall := do
  let body ← jsonBody body
  let accountId ← requiredText (← field body "accountId") "accountId is required"
  let blobHash ← requiredString
      (← field body "blobHash") "blobHash must be a 64-character hex sha256"
  if valid : isHash blobHash = true then do
    let size ← requiredNatural (← field body "size") "size must be a non-negative integer"
    if cfg.maxBlobSize < size then
      .error (.respond (.json 413 [("error", .str "blob exceeds maximum size"),
        ("maxBlobSize", .nat cfg.maxBlobSize)]))
    else pure ⟨accountId, blobHash, valid, size⟩
  else .error (.error 400 "blobHash must be a 64-character hex sha256")

/-- mirrors src/routes/blobs.ts:143-165 (`POST /uploads`) -/
def initiate (cfg : Config) (env : Env) (a blobHash : String) (size : Nat) : Handler Response := do
  let owned ← readDb (getBlob a blobHash)
  match owned with
  | some _ => pure (.json 200 [("exists", .bool true), ("blobHash", .str blobHash)])
  | none => do
    gated cfg fun gate => admitUpload gate a size
    exec (createUploadSession a env.uuid blobHash size (env.clock 0))
    pure (.json 201 [("uploadId", .str env.uuid), ("blobHash", .str blobHash),
      ("received", .arr [])])

def receivedJson (parts : List UploadPart) : List (String × Json) :=
  [("received",
    .arr (parts.map fun p => .obj [("index", .nat p.partIndex), ("size", .nat p.size)])),
    ("receivedBytes", .nat (parts.map (·.size)).sum)]

/-- mirrors src/routes/blobs.ts:177-192 (`GET /uploads/:uploadId`) -/
def uploadStatus (a u : String) : Handler Response := do
  let session ← readDb (getUploadSession a u)
  let session ← Prog.found session (.error 404 "unknown upload session")
  let parts ← readDb (listUploadParts a session.uploadId)
  pure (.json 200 ([("uploadId", .str session.uploadId), ("blobHash", .str session.blobHash),
    ("declaredSize", .nat session.declaredSize)] ++ receivedJson parts))

/-! ## Upload: parts -/

structure PartCall where
  accountId : String
  bytes : Bytes

/-- mirrors src/routes/blobs.ts:200-208 (`PUT /uploads/:uploadId/parts/:index`, the checks) -/
def checkPart (cfg : Config) (query : Query) (body : Body) : Except Abort PartCall := do
  let bytes ← rawBody cfg.maxBlobSize body
  let accountId ← requiredAccountId query
  pure ⟨accountId, bytes⟩

/-- The size the parts would have with the part `i` of `n` bytes put in.
mirrors src/routes/blobs.ts:222-226 -/
def totalWith (parts : List UploadPart) (i n : Nat) : Nat :=
  (parts.map (·.size)).sum - ((parts.find? fun p => p.partIndex = i).elim 0 (·.size)) + n

/-- mirrors src/routes/blobs.ts:209-239 (`PUT /uploads/:uploadId/parts/:index`) -/
def putPart (env : Env) (a u index : String) (bytes : Bytes) : Handler Response := do
  let session ← readDb (getUploadSession a u)
  let session ← Prog.found session (.error 404 "unknown upload session")
  let i ← Prog.found (JsNumber.ofString index).asNatural
      (.error 400 "part index must be a non-negative integer")
  let parts ← readDb (listUploadParts a session.uploadId)
  Prog.require (decide (totalWith parts i bytes.length ≤ session.declaredSize))
    (.error 400 "parts exceed declared blob size")
  stageUploadPart a session.uploadId i bytes (env.clock 0)
  let acked ← readDb (listUploadParts a session.uploadId)
  pure (.json 200 (receivedJson acked))

/-! ## Upload: finalize and cancel -/

/-- mirrors src/routes/blobs.ts:250-258 (`POST /uploads/:uploadId/finalize`, the checks) -/
def checkFinalize (body : Body) : Except Abort String := do
  let body ← jsonBody body
  requiredText (← field body "accountId") "accountId is required"

def hashMismatch (declared computed : String) : Abort := .respond <| .json 400
  [("error", .str "hash mismatch: reassembled bytes do not match declared blobHash"),
    ("declared", .str declared), ("computed", .str computed)]

/-- The quota check of a finalize, which cleans up before it rejects.
mirrors src/routes/blobs.ts:303-314 -/
def finalizeGate (cfg : Config) (a u : String) (size : Nat) : Handler Unit :=
  match makeQuotaGate cfg.quotas with
  | none => pure ()
  | some gate => do
    let rejected ← readDb (admitFinalize gate a size)
    match rejected with
    | none => pure ()
    | some v => do
      discardUploadSession a u
      .raise v.abort

/-- mirrors src/routes/blobs.ts:282-320, an upload of a blob the account does not have -/
def storeUpload (cfg : Config) (host : Host) (env : Env) (a : String) (session : UploadSession) :
    Handler Response := do
  let assembled ← assembleUpload a session.uploadId
  Prog.require (decide (assembled.length ≤ cfg.maxBlobSize)) <| .respond <|
    .json 413 [("error", .str "blob exceeds maximum size"), ("maxBlobSize", .nat cfg.maxBlobSize)]
  if host.sha256Hex assembled ≠ session.blobHash then do
    discardUploadSession a session.uploadId
    .raise (hashMismatch session.blobHash (host.sha256Hex assembled))
  else do
    finalizeGate cfg a session.uploadId assembled.length
    putBlobBytes session.blobHash assembled
    let _ ← exec (insertBlobIfAbsent a session.blobHash assembled.length (env.clock 0))
    discardUploadSession a session.uploadId
    pure (.json 200 [("blobHash", .str session.blobHash), ("size", .nat assembled.length),
      ("stored", .bool true)])

/-- mirrors src/routes/blobs.ts:259-320 (`POST /uploads/:uploadId/finalize`) -/
def finalize (cfg : Config) (host : Host) (env : Env) (a u : String) : Handler Response := do
  let session ← readDb (getUploadSession a u)
  let session ← Prog.found session (.error 404 "unknown upload session")
  let owned ← readDb (getBlob a session.blobHash)
  match owned with
  | some b => do
    discardUploadSession a session.uploadId
    pure (.json 200 [("blobHash", .str session.blobHash), ("size", .nat b.size),
      ("stored", .bool true),
      ("deduped", .bool true)])
  | none => storeUpload cfg host env a session

/-- mirrors src/routes/blobs.ts:333-347 (`DELETE /uploads/:uploadId`) -/
def cancel (a u : String) : Handler Response := do
  let session ← readDb (getUploadSession a u)
  let session ← Prog.found session (.error 404 "unknown upload session")
  discardUploadSession a session.uploadId
  pure (.json 200 [("uploadId", .str session.uploadId), ("cancelled", .bool true)])

/-! ## References -/

/-- mirrors src/routes/blobs.ts:354-363, 383-392 (the checks of both reference routes) -/
def checkRef (hash : String) (body : Body) : Except Abort String := do
  let body ← jsonBody body
  if isHash hash then requiredText (← field body "accountId") "accountId is required"
  else .error (.error 400 "hash must be a 64-character hex sha256")

def Blob.refJson (b : Blob) : Response := .json 200
  [("blobHash", .str b.blobHash), ("refCount", .int b.refCount),
    ("zeroRefSeq", .optNat b.zeroRefSeq),
    ("lastReferenceActivityAt", .str b.lastReferenceActivityAt)]

/-- Both reference routes, for the change of the count they make. -/
def changeRef (change : DbTx (Option Blob)) : Handler Response := do
  let rec? ← exec change
  let b ← Prog.found rec? (.error 404 "blob not found")
  pure (Blob.refJson b)

/-- mirrors src/routes/blobs.ts:354-375 (`POST /:hash/ref-add`) -/
def refAdd (env : Env) (a hash : String) : Handler Response :=
  changeRef (addBlobReference a hash (env.clock 0))

/-- mirrors src/routes/blobs.ts:383-404 (`POST /:hash/ref-release`) -/
def refRelease (env : Env) (a hash : String) : Handler Response :=
  changeRef (releaseBlobReference a hash (env.clock 0))

/-! ## Existence and download -/

/-- mirrors src/routes/blobs.ts:411-420 (`HEAD /:hash`, the checks) -/
def checkHead (hash : String) (query : Query) : Except Abort String :=
  match isHash hash, queryAccountId query with
  | true, some a => .ok a
  | _, _ => .error (.respond ⟨400, [], .empty⟩)

/-- mirrors src/routes/blobs.ts:421-429 (`HEAD /:hash`) -/
def head (a hash : String) : Handler Response := do
  let rec? ← readDb (getBlob a hash)
  let b ← Prog.found rec? (.respond ⟨404, [], .empty⟩)
  pure ⟨200, [("Accept-Ranges", "bytes"), ("X-Blob-Size", toString b.size)], .empty⟩

inductive RangeResult
  | whole
  | unsatisfiable
  | slice (start stop : Nat)
  deriving DecidableEq

/-- `Number(digits)` for decimal digits: an integer, or infinity (`none`). -/
def digitsNumber (ds : List Char) : Option Nat := (JsNumber.ofString (String.ofList ds)).asNatural

/-- The two digit runs of `/^bytes=(\d*)-(\d*)$/`. -/
def matchRange (header : String) : Option (List Char × List Char) :=
  match stripPrefix "bytes=".toList (trimChars header.toList) with
  | none => none
  | some cs =>
    match cs.dropWhile JsNumber.isDigit with
    | '-' :: rest =>
      if rest.all JsNumber.isDigit then some (cs.takeWhile JsNumber.isDigit, rest) else none
    | _ => none

/-- The last check and the clipping. mirrors src/routes/blobs.ts:67-73 -/
def clipRange (start stop : Option Nat) (size : Nat) : RangeResult :=
  match start with
  | none => .unsatisfiable
  | some start =>
    if stop.any (· < start) || size ≤ start then .unsatisfiable
    else .slice start ((stop.filter (· < size)).getD (size - 1))

/-- mirrors src/routes/blobs.ts:35-74 (`parseRange`) -/
def parseRange (header : Option String) (size : Nat) : RangeResult :=
  match header.bind matchRange with
  | none => .whole
  | some ([], []) => .whole
  | some ([], ds) =>
    if digitsNumber ds = some 0 then .unsatisfiable
    else clipRange (some (size - (digitsNumber ds).getD size)) (some (size - 1)) size
  | some (ss, []) => clipRange (digitsNumber ss) (some (size - 1)) size
  | some (ss, ds) => clipRange (digitsNumber ss) (digitsNumber ds) size

/-- mirrors src/routes/blobs.ts:437-446 (`GET /:hash`, the checks) -/
def checkGet (hash : String) (query : Query) : Except Abort String :=
  if isHash hash then requiredAccountId query
  else .error (.error 400 "hash must be a 64-character hex sha256")

theorem checkGet_status {hash : String} {query : Query} {e : Abort}
    (h : checkGet hash query = .error e) :
    e.response.status = 400 := by
  unfold checkGet requiredAccountId at h
  by_cases hv : isHash hash = true
  · rw [if_pos hv] at h
    cases ha : queryAccountId query with
    | none => rw [ha] at h; cases h; rfl
    | some a => rw [ha] at h; cases h
  · rw [if_neg hv] at h
    cases h
    rfl

def downloadHeaders : List (String × String) :=
  [("Accept-Ranges", "bytes"), ("Content-Type", "application/octet-stream")]

/-- mirrors src/routes/blobs.ts:447-476 (`GET /:hash`) -/
def download (a hash : String) (range : Option String) : Handler Response := do
  let stat ← statBlobBytes a hash
  let size ← Prog.found stat (.error 404 "not found")
  match parseRange range size with
  | .unsatisfiable => pure ⟨416, downloadHeaders ++ [("Content-Range", s!"bytes */{size}")], .empty⟩
  | .whole =>
    if size = 0 then pure ⟨200, downloadHeaders ++ [("Content-Length", toString size)], .bytes []⟩
    else do
      let bytes ← readBlobRange a hash 0 (size - 1)
      pure ⟨200, downloadHeaders ++ [("Content-Length", toString size)], .bytes bytes⟩
  | .slice start stop => do
    let bytes ← readBlobRange a hash start stop
    pure ⟨206, downloadHeaders ++ [("Content-Range", s!"bytes {start}-{stop}/{size}"),
      ("Content-Length", toString (stop - start + 1))], .bytes bytes⟩

theorem clipRange_bounds {start stop : Option Nat} {size i j : Nat}
    (h : clipRange start stop size = .slice i j) :
    i ≤ j ∧ j < size := by
  unfold clipRange at h
  cases start with
  | none => cases h
  | some start =>
    simp only at h
    split at h
    · cases h
    · rename_i hc
      simp only [Bool.or_eq_true, decide_eq_true_eq, not_or, Nat.not_le] at hc
      cases stop with
      | none => cases h; simp only [Option.filter, Option.getD]; omega
      | some stop =>
        simp only [Option.any, decide_eq_true_eq, Nat.not_lt] at hc
        by_cases hs : stop < size
        · simp only [Option.filter, hs, decide_true, if_true, Option.getD,
            RangeResult.slice.injEq] at h
          omega
        · simp only [Option.filter, hs, decide_false, Bool.false_eq_true, if_false, Option.getD,
            RangeResult.slice.injEq] at h
          omega

theorem parseRange_bounds {header : Option String} {size i j : Nat}
    (h : parseRange header size = .slice i j) :
    i ≤ j ∧ j < size := by
  unfold parseRange at h
  split at h
  · cases h
  · cases h
  · split at h
    · cases h
    · exact clipRange_bounds h
  · exact clipRange_bounds h
  · exact clipRange_bounds h

/-- The answer of a download of `b`. -/
def served (range : Option String) (b : Bytes) : Response :=
  match parseRange range b.length with
  | .unsatisfiable => ⟨416, downloadHeaders ++ [("Content-Range", s!"bytes */{b.length}")], .empty⟩
  | .whole => ⟨200, downloadHeaders ++ [("Content-Length", toString b.length)], .bytes b⟩
  | .slice start stop =>
    ⟨206, downloadHeaders ++ [("Content-Range", s!"bytes {start}-{stop}/{b.length}"),
      ("Content-Length", toString (stop - start + 1))],
        .bytes ((b.drop start).take (stop + 1 - start))⟩

theorem statBlobBytes_present {a hash : String} {s : Server} {row : Blob} {b : Bytes}
    (hrow : getBlob a hash s.db = some row) (hv : isHash hash = true)
    (hb : s.disk (.blob hash) = some b) :
    statBlobBytes a hash s = ⟨.ok (some b.length), s, []⟩ := by
  unfold statBlobBytes readDb readDisk
  simp only [Prog.get_bind, hrow]
  have hstat : s.disk.stat hash = .ok (some b.length) := by
    simp [Disk.stat, Disk.assertHash, hv, hb, bind, Except.bind, pure, Except.pure]
  rw [hstat]
  rfl

theorem readBlobRange_present {a hash : String} {s : Server} {row : Blob} {b : Bytes} {i j : Nat}
    (hrow : getBlob a hash s.db = some row) (hv : isHash hash = true)
    (hb : s.disk (.blob hash) = some b)
    (hij : i ≤ j) : readBlobRange a hash i j s = ⟨.ok ((b.drop i).take (j + 1 - i)), s, []⟩ := by
  unfold readBlobRange readDb readDisk
  simp only [Prog.get_bind, hrow, Option.isSome_some, Prog.require, if_true, Prog.pure_bind]
  have hread : s.disk.readRange hash i j = .ok ((b.drop i).take (j + 1 - i)) := by
    simp [Disk.readRange, Disk.assertHash, hv, hb, Nat.not_lt.2 hij, bind,
      Except.bind, pure, Except.pure]
  rw [hread]
  rfl

theorem download_present {a hash : String} {s : Server} {row : Blob} {b : Bytes}
    (range : Option String) (hrow : getBlob a hash s.db = some row) (hv : isHash hash = true)
    (hb : s.disk (.blob hash) = some b) :
    finish (download a hash range s) = served range b := by
  unfold download served
  rw [Prog.bind_run, statBlobBytes_present hrow hv hb]
  simp only [Prog.found, Prog.pure_bind]
  cases hr : parseRange range b.length with
  | unsatisfiable => rfl
  | whole =>
    by_cases h0 : b.length = 0
    · have hnil : b = [] := List.length_eq_zero_iff.1 h0
      subst hnil
      rfl
    · simp only [if_neg h0]
      rw [Prog.bind_run, readBlobRange_present hrow hv hb (Nat.zero_le _)]
      have htake : (b.drop 0).take (b.length - 1 + 1 - 0) = b := by
        rw [List.drop_zero]
        exact List.take_of_length_le (by omega)
      rw [htake]
      rfl
  | slice i j =>
    simp only
    rw [Prog.bind_run, readBlobRange_present hrow hv hb (parseRange_bounds hr).1]
    rfl

theorem statBlobBytes_absent {a hash : String} {s : Server}
    (h : getBlob a hash s.db = none ∨ isHash hash = false ∨ s.disk (.blob hash) = none) :
    statBlobBytes a hash s = ⟨.ok none, s, []⟩ ∨
    ∃ e, statBlobBytes a hash s = ⟨.error (.raise e), s, []⟩ := by
  unfold statBlobBytes readDb readDisk
  simp only [Prog.get_bind]
  cases hrow : getBlob a hash s.db with
  | none => exact .inl rfl
  | some row =>
    cases hv : isHash hash with
    | false =>
      have hstat : s.disk.stat hash = .error s!"invalid blob hash: {hash}" := by
        simp [Disk.stat, Disk.assertHash, hv, bind, Except.bind]
      refine .inr ⟨s!"invalid blob hash: {hash}", ?_⟩
      simp only [Prog.get_bind, hstat]
      rfl
    | true =>
      have hb : s.disk (.blob hash) = none := by simpa [hrow, hv] using h
      have hstat : s.disk.stat hash = .ok none := by
        simp [Disk.stat, Disk.assertHash, hv, hb, bind, Except.bind, pure, Except.pure]
      simp only [Prog.get_bind, hstat]
      exact .inl rfl

theorem download_absent {a hash : String} {s : Server} (range : Option String)
    (h : getBlob a hash s.db = none ∨ isHash hash = false ∨ s.disk (.blob hash) = none) :
    (finish (download a hash range s)).status = 404 ∨
    (finish (download a hash range s)).status = 500 := by
  unfold download
  rw [Prog.bind_run]
  rcases statBlobBytes_absent h with e | ⟨m, e⟩
  · rw [e]; exact .inl rfl
  · rw [e]; exact .inr rfl

/-- What a download that succeeds carries: the file's bytes, or a slice of them. -/
theorem download_bytes {a hash : String} {s : Server} {range : Option String} {r : Response}
    (h : finish (download a hash range s) = r) (hs : r.status = 200 ∨ r.status = 206) :
    ∃ b, s.disk (.blob hash) = some b ∧ (r.status = 200 → r.payload = .bytes b) ∧
      ∃ i n, i + n ≤ b.length ∧ r.payload = .bytes ((b.drop i).take n) := by
  subst h
  by_cases hgone : getBlob a hash s.db = none ∨ isHash hash = false ∨ s.disk (.blob hash) = none
  · have := download_absent range hgone
    omega
  · simp only [not_or, Bool.not_eq_false] at hgone
    obtain ⟨row, hrow⟩ := Option.ne_none_iff_exists'.1 hgone.1
    obtain ⟨b, hb⟩ := Option.ne_none_iff_exists'.1 hgone.2.2
    rw [download_present range hrow hgone.2.1 hb] at hs ⊢
    refine ⟨b, hb, ?_⟩
    unfold served at hs ⊢
    cases hr : parseRange range b.length with
    | unsatisfiable => simp [hr] at hs
    | whole => exact ⟨fun _ => rfl, 0, b.length, by omega, by simp⟩
    | slice i j =>
      obtain ⟨h1, h2⟩ := parseRange_bounds hr
      refine ⟨fun h => ?_, i, j + 1 - i, by omega, rfl⟩
      simp at h

end GlanceVault.L3
