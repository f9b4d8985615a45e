import GlanceVault.L1Encoding.Doubles
import GlanceVault.L2Storage.ShortReads
import GlanceVault.L3Http.Router
/-!
# Ranged downloads

What a `Range` header asks for is said here without the code: two decimal
numbers, one and the end, or a number of last bytes, of any size. The code
reads the digits as doubles, which are exact below `2 ^ 53`; a blob is
smaller, so a number that moved is past its end before and after.

* `matchRange_iff`: the headers the regular expression matches.
* `clipRange_spec`: the comparisons and the clipping.
* `parseRange_asks`, `parseRange_other`: what a header is parsed to.
* `range_served`: the answer of a download.
-/
namespace GlanceVault.L3
open GlanceVault.Core GlanceVault.L1 GlanceVault.L1.Js GlanceVault.L2

/-! ## What a header asks for -/

inductive Asked
  | span (first last : Nat)
  | onward (first : Nat)
  | last (count : Nat)

/-- The bytes of a blob of `n` bytes that are asked for. -/
def Asked.covers (n : Nat) : Asked → Nat → Prop
  | .span a b, i => a ≤ i ∧ i ≤ b
  | .onward a, i => a ≤ i
  | .last count, i => n ≤ i + count

def Digits (ds : List Char) : Prop := ds ≠ [] ∧ ∀ c ∈ ds, JsNumber.isDigit c = true

/-- The number that digits write. -/
def decimal (ds : List Char) : Nat := Nat.ofDigitChars 10 ds 0

/-- The header, trimmed, is `bytes=a-b`, `bytes=a-` or `bytes=-k`. -/
inductive Asks (header : String) : Asked → Prop
  | span (as bs : List Char) (ha : Digits as) (hb : Digits bs)
      (h : trimChars header.toList = "bytes=".toList ++ as ++ '-' :: bs) :
        Asks header (.span (decimal as) (decimal bs))
  | onward (as : List Char) (ha : Digits as)
      (h : trimChars header.toList = "bytes=".toList ++ as ++ ['-']) :
        Asks header (.onward (decimal as))
  | last (bs : List Char) (hb : Digits bs)
      (h : trimChars header.toList = "bytes=".toList ++ '-' :: bs) :
        Asks header (.last (decimal bs))

/-! ## Parsing -/

theorem stripPrefix_iff {cs : List Char} :
    ∀ {p rest : List Char}, stripPrefix p cs = some rest ↔ cs = p ++ rest
  | [], rest => by
    rw [stripPrefix, List.nil_append, Option.some.injEq]
  | p :: ps, rest => by
    cases cs with
    | nil => simp [stripPrefix]
    | cons c cs =>
      rw [stripPrefix, List.cons_append, List.cons.injEq]
      split
      · rename_i h
        rw [stripPrefix_iff]
        simp [h]
      · rename_i h
        simp [Ne.symm h]

theorem matchRange_iff {header : String} {as bs : List Char} : matchRange header = some (as, bs) ↔
    trimChars header.toList = "bytes=".toList ++ as ++ '-' :: bs ∧
    (∀ c ∈ as, JsNumber.isDigit c = true) ∧
      ∀ c ∈ bs, JsNumber.isDigit c = true := by
  have hdash : JsNumber.isDigit '-' = false := by decide
  unfold matchRange
  constructor
  · intro h
    split at h
    · cases h
    · rename_i cs hcs
      rw [stripPrefix_iff] at hcs
      split at h
      · rename_i rest hrest
        split at h
        · rename_i hall
          cases h
          refine ⟨?_, fun c hc => List.mem_takeWhile_imp hc,
            fun c hc => List.all_eq_true.1 hall c hc⟩
          rw [hcs, List.append_assoc, ← hrest, List.takeWhile_append_dropWhile]
        · cases h
      · cases h
  · rintro ⟨h, ha, hb⟩
    rw [List.append_assoc] at h
    rw [stripPrefix_iff.2 h]
    have hd : (as ++ '-' :: bs).dropWhile JsNumber.isDigit = '-' :: bs := by
      rw [List.dropWhile_append_of_pos ha, List.dropWhile_cons, hdash]
      rfl
    have ht : (as ++ '-' :: bs).takeWhile JsNumber.isDigit = as := by
      rw [List.takeWhile_append_of_pos ha, List.takeWhile_cons, hdash]
      simp
    simp only [hd, ht]
    rw [if_pos (List.all_eq_true.2 hb)]

/-- A bound as the code has it: the number itself below `2 ^ 53`, and none or
one that is not smaller from there on. -/
def Reads (x : Option Nat) (v : Nat) : Prop :=
  (v < 2 ^ 53 → x = some v) ∧ (2 ^ 53 ≤ v → ∀ w, x = some w → 2 ^ 53 ≤ w)

theorem reads_digits {ds : List Char} (h : Digits ds) : Reads (digitsNumber ds) (decimal ds) :=
  JsNumber.natural_digits h.1 h.2

theorem Reads.exact (v : Nat) : Reads (some v) v := ⟨fun _ => rfl, fun h w e => by cases e; exact h⟩

theorem Reads.any_lt {y : Option Nat} {v m : Nat} (h : Reads y v) (hm : m < 2 ^ 53) :
    y.any (fun w => decide (w < m)) = decide (v < m) := by
  by_cases hv : v < 2 ^ 53
  · rw [h.1 hv, Option.any_some]
  · have hv := Nat.not_lt.1 hv
    rw [decide_eq_false (by omega : ¬ v < m)]
    cases y with
    | none => rfl
    | some w =>
      have hw := h.2 hv w rfl
      rw [Option.any_some, decide_eq_false (by omega : ¬ w < m)]

theorem Reads.clip {y : Option Nat} {v size : Nat} (h : Reads y v) (hsize : size < 2 ^ 53)
    (hpos : 0 < size) :
    (y.filter fun w => decide (w < size)).getD (size - 1) = min v (size - 1) := by
  by_cases hv : v < 2 ^ 53
  · rw [h.1 hv]
    by_cases hlt : v < size
    · rw [Option.filter_some_pos (by simpa using hlt), Option.getD_some]
      omega
    · rw [Option.filter_some_neg (by simpa using hlt), Option.getD_none]
      omega
  · have hv := Nat.not_lt.1 hv
    cases y with
    | none =>
      rw [Option.filter_none, Option.getD_none]
      omega
    | some w =>
      have hlt : ¬ w < size := by
        have := h.2 hv w rfl
        omega
      rw [Option.filter_some_neg (by simpa using hlt), Option.getD_none]
      omega

/-- The comparisons and the clipping, on bounds that may have moved. -/
theorem clipRange_spec {x y : Option Nat} {a b size : Nat} (hx : Reads x a) (hy : Reads y b)
    (hsize : size < 2 ^ 53) : clipRange x y size =
      if a ≤ b ∧ a < size then .slice a (min b (size - 1)) else .unsatisfiable := by
  unfold clipRange
  by_cases ha : a < 2 ^ 53
  · rw [hx.1 ha]
    simp only
    rw [hy.any_lt ha]
    by_cases h : a ≤ b ∧ a < size
    · rw [if_neg (by simp only [Bool.or_eq_true, decide_eq_true_eq]; omega), if_pos h,
        hy.clip hsize (by omega)]
    · rw [if_pos (by simp only [Bool.or_eq_true, decide_eq_true_eq]; omega), if_neg h]
  · have ha := Nat.not_lt.1 ha
    rw [if_neg (by omega)]
    cases x with
    | none => rfl
    | some w =>
      have hw := hx.2 ha w rfl
      exact if_pos (by simp only [Bool.or_eq_true, decide_eq_true_eq]; omega)

/-- The slice of the bytes that are asked for, if there are any. -/
def Parsed (size : Nat) (x : Asked) (r : RangeResult) : Prop :=
  (∃ i j, i ≤ j ∧ j < size ∧ (∀ k < size, x.covers size k ↔ i ≤ k ∧ k ≤ j) ∧ r = .slice i j) ∨
    ((∀ k < size, ¬ x.covers size k) ∧ r = .unsatisfiable)

theorem parsed_span {a b size : Nat} {x : Asked}
    (hcovers : ∀ k < size, x.covers size k ↔ a ≤ k ∧ k ≤ b) :
    Parsed size x (if a ≤ b ∧ a < size then .slice a (min b (size - 1)) else .unsatisfiable) := by
  split
  · rename_i h
    refine .inl ⟨a, min b (size - 1), by omega, by omega, fun k hk => ?_, rfl⟩
    rw [hcovers k hk]
    omega
  · refine .inr ⟨fun k hk => ?_, rfl⟩
    rw [hcovers k hk]
    omega

/-- **A header of one of the three forms.** -/
theorem parseRange_asks {header : String} {x : Asked} {size : Nat} (h : Asks header x)
    (hsize : size < 2 ^ 53) :
    Parsed size x (parseRange (some header) size) := by
  unfold parseRange
  rw [Option.bind_some]
  cases h with
  | span as bs ha hb h =>
    rw [matchRange_iff.2 ⟨h, ha.2, hb.2⟩]
    cases as with
    | nil => exact absurd rfl ha.1
    | cons c cs =>
      cases bs with
      | nil => exact absurd rfl hb.1
      | cons d ds =>
        simp only
        rw [clipRange_spec (reads_digits ha) (reads_digits hb) hsize]
        exact parsed_span fun k _ => Iff.rfl
  | onward as ha h =>
    rw [matchRange_iff.2 ⟨h, ha.2, by simp⟩]
    cases as with
    | nil => exact absurd rfl ha.1
    | cons c cs =>
      simp only
      rw [clipRange_spec (reads_digits ha) (Reads.exact (size - 1)) hsize]
      refine parsed_span fun k hk => ?_
      show decimal (c :: cs) ≤ k ↔ _
      omega
  | last bs hb h =>
    rw [matchRange_iff.2 ⟨by rw [List.append_nil]; exact h, by simp, hb.2⟩]
    cases bs with
    | nil => exact absurd rfl hb.1
    | cons d ds =>
      have hreads := reads_digits hb
      simp only
      split
      · rename_i hzero
        -- the last no bytes
        refine .inr ⟨fun k hk => ?_, rfl⟩
        have : decimal (d :: ds) = 0 := by
          by_cases hlt : decimal (d :: ds) < 2 ^ 53
          · rw [hreads.1 hlt] at hzero
            exact Option.some.inj hzero
          · have := hreads.2 (Nat.not_lt.1 hlt) 0 hzero
            omega
        show ¬ size ≤ k + decimal (d :: ds)
        omega
      · rename_i hzero
        rw [clipRange_spec (Reads.exact _) (Reads.exact (size - 1)) hsize]
        refine parsed_span fun k hk => ?_
        show size ≤ k + decimal (d :: ds) ↔ _
        by_cases hlt : decimal (d :: ds) < 2 ^ 53
        · rw [hreads.1 hlt, Option.getD_some]
          omega
        · have hlt := Nat.not_lt.1 hlt
          cases hn : digitsNumber (d :: ds) with
          | none =>
            rw [Option.getD_none]
            omega
          | some w =>
            have := hreads.2 hlt w hn
            rw [Option.getD_some]
            omega

/-- Any other header, or none. -/
theorem parseRange_other {header : Option String} (h : ∀ t, header = some t → ∀ x, ¬ Asks t x)
    (size : Nat) :
    parseRange header size = .whole := by
  unfold parseRange
  cases header with
  | none => rfl
  | some t =>
    rw [Option.bind_some]
    cases hm : matchRange t with
    | none => rfl
    | some r =>
      obtain ⟨as, bs⟩ := r
      obtain ⟨ht, ha, hb⟩ := matchRange_iff.1 hm
      have hno := h t rfl
      cases as with
      | nil =>
        cases bs with
        | nil => rfl
        | cons d ds =>
          exact absurd (Asks.last (d :: ds) ⟨List.cons_ne_nil _ _, hb⟩ (by simpa using ht)) (hno _)
      | cons c cs =>
        cases bs with
        | nil => exact absurd (Asks.onward (c :: cs) ⟨List.cons_ne_nil _ _, ha⟩ ht) (hno _)
        | cons d ds =>
          exact absurd
            (Asks.span (c :: cs) (d :: ds) ⟨List.cons_ne_nil _ _, ha⟩ ⟨List.cons_ne_nil _ _, hb⟩ ht)
            (hno _)

/-! ## The answer -/

/-- What a download of `b` is to answer: the clipped slice, 416 when nothing is
covered, and the whole blob for any other header; the bytes are those the loop
of `readRange` yields, however its reads are split. -/
structure Ranged (header : Option String) (b : Bytes) (r : Response) : Prop where
  slice : ∀ t x, header = some t → Asks t x → (∃ k < b.length, x.covers b.length k) →
    ∃ start stop body, start ≤ stop ∧ stop < b.length ∧
      (∀ k < b.length, x.covers b.length k ↔ start ≤ k ∧ k ≤ stop) ∧
      body = (b.drop start).take (stop + 1 - start) ∧
      (∀ grants, readSlices b start stop grants = some body) ∧
      r = ⟨206, downloadHeaders ++ [("Content-Range", s!"bytes {start}-{stop}/{b.length}"),
        ("Content-Length", toString body.length)], .bytes body⟩
  none : ∀ t x, header = some t → Asks t x → (∀ k < b.length, ¬ x.covers b.length k) →
    r = ⟨416, downloadHeaders ++ [("Content-Range", s!"bytes */{b.length}")], .empty⟩
  whole : (∀ t, header = some t → ∀ x, ¬ Asks t x) →
    (b ≠ [] → ∀ grants, readSlices b 0 (b.length - 1) grants = some b) ∧
      r = ⟨200, downloadHeaders ++ [("Content-Length", toString b.length)], .bytes b⟩

theorem served_ranged (header : Option String) {b : Bytes} (hsize : b.length < 2 ^ 53) :
    Ranged header b (served header b) := by
  constructor
  case slice =>
    rintro t x rfl hasks ⟨k, hk, hcov⟩
    rcases parseRange_asks hasks hsize with ⟨i, j, hij, hj, hall, hr⟩ | ⟨hnone, -⟩
    · have hlen : ((b.drop i).take (j + 1 - i)).length = j - i + 1 := by
        rw [List.length_take, List.length_drop]
        omega
      refine ⟨i, j, _, hij, hj, hall, rfl, fun grants => ?_, ?_⟩
      · rw [readSlices_eq, if_neg (Nat.not_lt.2 hij)]
      · unfold served
        rw [hr, hlen]
    · exact absurd hcov (hnone k hk)
  case none =>
    rintro t x rfl hasks hnone
    rcases parseRange_asks hasks hsize with ⟨i, j, hij, hj, hall, -⟩ | ⟨-, hr⟩
    · exact absurd ((hall i (by omega)).2 ⟨le_refl i, hij⟩) (hnone i (by omega))
    · unfold served
      rw [hr]
  case whole =>
    intro hother
    refine ⟨fun hne grants => ?_, ?_⟩
    · have hpos : 0 < b.length := List.length_pos_of_ne_nil hne
      rw [readSlices_eq, if_neg (Nat.not_lt_zero _), List.drop_zero,
        List.take_of_length_le (by omega)]
    · unfold served
      rw [parseRange_other hother]

/-- **Range downloads serve exactly the requested slice.** -/
theorem range_served (cfg : Config) (host : Host) (credential : Option Credential)
    (env : Env) (s : Server)
    {hash a : String} {query : Query} {header : Option String} {row : Blob} {b : Bytes}
    (haccept : accept cfg host credential (.blobGet hash query header) =
      .ok (a, .download hash header))
    (hrow : getBlob a hash s.db = some row) (hb : s.disk (.blob hash) = some b)
      (hsize : b.length < 2 ^ 53) :
    Ranged header b (finish (handle cfg host credential env (.blobGet hash query header) s)) := by
  have hv : isHash hash = true := by
    obtain ⟨_, hcheck, -⟩ := bind_ok haccept
    obtain ⟨_, hget, -⟩ := bind_ok hcheck
    by_contra hv
    rw [checkGet, if_neg hv] at hget
    cases hget
  have hrun : handle cfg host credential env (.blobGet hash query header) s =
      download a hash header s := by
    unfold handle
    rw [haccept]
    rfl
  rw [hrun, download_present header hrow hv hb]
  exact served_ranged header hsize

/-- A vault with one blob of three bytes. -/
def oneBlob (hash : String) : Server :=
  { Server.fresh with
    db := { Db.empty with blobs := Table.empty.upsert ⟨"house", hash, 3, 0, none, "", ""⟩ }
    disk := Disk.empty.write (.blob hash) [7, 8, 9] }

def blobName : String := String.ofList (List.replicate 64 'a')

def ofHouse : Query := fun k => if k = "accountId" then some (.str "house") else none

def openVault : Config :=
  ⟨.shared, "token", .bootstrap, "", none, [], 1000, ⟨none, none, none, none⟩, 1, 1⟩

theorem range_served_tail : Ranged (some "bytes=1-") [7, 8, 9]
    (finish (handle openVault ⟨fun _ => "", fun _ => none⟩ none ⟨fun _ => "", "", "",
      "", fun _ => false⟩
      (.blobGet blobName ofHouse (some "bytes=1-")) (oneBlob blobName))) :=
  range_served openVault _ none _ (oneBlob blobName)
    (rfl : _ = Except.ok ("house", Call.download blobName (some "bytes=1-")))
    (show getBlob "house" blobName (oneBlob blobName).db =
      some ⟨"house", blobName, 3, 0, none, "", ""⟩ from rfl)
    rfl (by decide)

end GlanceVault.L3
