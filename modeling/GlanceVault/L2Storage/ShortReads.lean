import GlanceVault.L2Storage.DiskBlobStore
/-!
# Positioned reads that come up short

`readSync` may deliver fewer bytes than it is asked for, and delivers none
only at the end of the file; `readRange` asks again for the rest until it has
them or nothing comes. What the file system grants at each call is a parameter
here.

* `readLoop_step`: one pass of the loop keeps what is read a prefix of the
  slice.
* `readLoop_run`: with a pass for each byte and one to stop, the loop ends with
  the slice, however the reads are split.
* `readSlices_eq`: the loop reads what `Disk.readRange` says.
-/
namespace GlanceVault.L2
open GlanceVault.L1

/-- `readSync(fd, buf, read, wanted, pos)`: between one and `wanted` of the
bytes from `pos` on, as `grant` has it; none when there are none. -/
def readSync (b : Bytes) (pos wanted grant : Nat) : Bytes :=
  ((b.drop pos).take wanted).take (max 1 grant)

/-- The loop of `readRange` with the buffer it fills; `none` when the fuel does
not do. mirrors src/storage/disk-blobstore.ts:88-97 -/
def readLoop (b : Bytes) (start length : Nat) (grants : Nat → Nat) :
    Nat → Nat → Nat → Bytes → Option Bytes
  | 0, _, _, _ => none
  | fuel + 1, k, read, buf =>
    if read < length then
      let chunk := readSync b (start + read) (length - read) (grants k)
      if chunk.length = 0 then some (buf.take read)
      else readLoop b start length grants fuel (k + 1) (read + chunk.length)
        (buf.take read ++ chunk ++ buf.drop (read + chunk.length))
    else some (if read = length then buf else buf.take read)

/-- mirrors src/storage/disk-blobstore.ts:80-101 (`readRange`), on a file of
the bytes `b` -/
def readSlices (b : Bytes) (start stop : Nat) (grants : Nat → Nat) : Option Bytes :=
  if stop < start then some []
  else
    readLoop b start (stop + 1 - start) grants (stop + 1 - start + 1) 0 0
      (List.replicate (stop + 1 - start) 0)

variable {b : Bytes} {start length read : Nat} {buf : Bytes} {grants : Nat → Nat}

/-- The loop has filled `read` bytes of a buffer of `length`. -/
structure Filled (b : Bytes) (start length read : Nat) (buf : Bytes) : Prop where
  size : buf.length = length
  within : read ≤ length
  inFile : read ≤ (b.drop start).length
  filled : buf.take read = (b.drop start).take read

theorem readSync_length (pos wanted grant : Nat) (b : Bytes) :
    (readSync b pos wanted grant).length ≤ wanted ∧
      ((readSync b pos wanted grant).length = 0 → (b.drop pos).take wanted = []) := by
  unfold readSync
  refine ⟨?_, fun h => ?_⟩
  · rw [List.length_take, List.length_take]
    omega
  · rw [List.length_take] at h
    apply List.length_eq_zero_iff.1
    omega

theorem readLoop_step (h : Filled b start length read buf) {k : Nat} :
    let chunk := readSync b (start + read) (length - read) (grants k)
    Filled b start length (read + chunk.length) (buf.take read ++ chunk ++
      buf.drop (read + chunk.length)) := by
  obtain ⟨hsize, hwithin, hin, hfilled⟩ := h
  intro chunk
  have hread : (buf.take read).length = read := by
    rw [List.length_take, hsize]
    omega
  -- the chunk is the next piece of the slice
  have hdrop : b.drop (start + read) = (b.drop start).drop read := by rw [List.drop_drop]
  have hchunk : chunk = ((b.drop start).drop read).take chunk.length := by
    show readSync b (start + read) (length - read) (grants k) = _
    have hpre : readSync b (start + read) (length - read) (grants k) <+:
        (b.drop start).drop read := by
      unfold readSync
      rw [hdrop]
      exact (List.take_prefix _ _).trans (List.take_prefix _ _)
    exact List.prefix_iff_eq_take.1 hpre
  have hlen : chunk.length ≤ length - read := (readSync_length _ _ _ b).1
  have hfile : chunk.length ≤ (b.drop start).length - read := by
    have := congrArg List.length hchunk
    rw [List.length_take, List.length_drop] at this
    omega
  have hpre : (buf.take read ++ chunk).length = read + chunk.length := by
    rw [List.length_append, hread]
  refine ⟨?_, by omega, by omega, ?_⟩
  · rw [List.length_append, hpre, List.length_drop, hsize]
    omega
  · rw [List.take_append_of_le_length (by omega), List.take_of_length_le (by omega), hfilled,
      List.take_add, ← hchunk]

theorem readLoop_run : ∀ (fuel k read : Nat) (buf : Bytes),
    Filled b start length read buf → length - read < fuel →
    readLoop b start length grants fuel k read buf = some ((b.drop start).take length)
  | 0, _, _, _, _, hfuel => absurd hfuel (Nat.not_lt_zero _)
  | fuel + 1, k, read, buf, h, hfuel => by
    rw [readLoop]
    split
    · rename_i hmore
      simp only
      split
      · -- the file has ended
        rename_i hend
        have hnone := (readSync_length (start + read) (length - read) (grants k) b).2 hend
        have hshort : (b.drop start).length ≤ read := by
          have := congrArg List.length hnone
          rw [List.length_take, List.length_drop, List.length_nil] at this
          rw [List.length_drop]
          omega
        rw [h.filled, List.take_of_length_le hshort, List.take_of_length_le (hshort.trans h.within)]
      · rename_i hchunk
        exact readLoop_run fuel (k + 1) _ _ (readLoop_step h) (by omega)
    · rename_i hdone
      have hread : read = length := Nat.le_antisymm h.within (Nat.not_lt.1 hdone)
      rw [if_pos hread, ← hread, ← h.filled, List.take_of_length_le (by rw [h.size, hread])]

theorem readSlices_eq (b : Bytes) (start stop : Nat) (grants : Nat → Nat) :
    readSlices b start stop grants =
      some (if stop < start then [] else (b.drop start).take (stop + 1 - start)) := by
  unfold readSlices
  split
  · rfl
  · exact readLoop_run _ 0 0 _ ⟨List.length_replicate, Nat.zero_le _, Nat.zero_le _, rfl⟩ (by omega)

end GlanceVault.L2
