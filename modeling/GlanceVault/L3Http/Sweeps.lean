import GlanceVault.L3Http.Http
/-!
# Sweeps (`reclaim.ts`, `upload-reaper.ts`)

The two periodic sweeps. A reclaim deletes, for each blob row its one query
finds, first the bytes of the hash and then the row; the reaper does the same
for stale upload sessions, with their staged files.
-/
namespace GlanceVault.L3
open GlanceVault.Core GlanceVault.L1 GlanceVault.L2

/-- mirrors src/reclaim.ts:23-33 (`ReclaimPolicy`) -/
structure ReclaimPolicy where
  reclaim : Bool
  gracePeriodMs : Int
  deadDevicePeriodMs : Int

/-- `new Date(ms).toISOString()` -/
def isoOf (ms : Int) : Except Abort String :=
  match Iso.toISOString ms with
  | .ok t => .ok t
  | .error e => .error (.raise e)

/-- Bytes first, then the row. mirrors src/reclaim.ts:84-85 -/
def reclaimBlob (b : Blob) : Handler Unit := do
  deleteBytes b.blobHash
  let _ ← exec (deleteBlob b.accountId b.blobHash)

/-- mirrors src/reclaim.ts:58-106 (`reclaimSweep`) -/
def reclaimSweep (policy : ReclaimPolicy) (nowMs : Int) : Handler (List Blob) :=
  if policy.reclaim then do
    let graceCutoff ← Prog.ofExcept (isoOf (nowMs - policy.gracePeriodMs))
    let deadCutoff ← Prog.ofExcept (isoOf (nowMs - policy.deadDevicePeriodMs))
    let eligible ← readDb (listReclaimableBlobs graceCutoff deadCutoff)
    Prog.each reclaimBlob eligible
    pure eligible
  else pure []

/-- mirrors src/upload-reaper.ts:44-45 -/
def reapSession (s : UploadSession) : Handler Unit := do
  discardSession s.uploadId
  exec (deleteUploadSession s.uploadId)

/-- mirrors src/upload-reaper.ts:31-53 (`reapUploadSessions`) -/
def reapUploadSessions (ttlMs nowMs : Int) : Handler Nat := do
  let cutoff ← Prog.ofExcept (isoOf (nowMs - ttlMs))
  let stale ← readDb (listStaleUploadSessions cutoff)
  Prog.each reapSession stale
  pure stale.length

end GlanceVault.L3
