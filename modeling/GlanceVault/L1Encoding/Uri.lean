import GlanceVault.L1Encoding.Base64
/-!
# Paths and percent-encoding (ECMAScript `encodeURIComponent`)

A client puts a string into a path segment with `encodeURIComponent`; Express
reads a path parameter with `decodeURIComponent`, which fails on a stray `%`
and on bytes that are not UTF-8. A Lean string has no lone surrogates, on
which `encodeURIComponent` throws.

* `decode_encode`: every string comes back.
* `encode_ne_empty`, `encode_no_slash`: an encoded string is one segment.
* `decode_unescaped`, `encode_unreserved`: a text without `%` is read as it is,
  and one of unreserved characters is its own encoding.
* `split_join`: the segments of a path, joined, are split as they were.
-/
namespace GlanceVault.L1.Uri

/-- `A-Z a-z 0-9 - _ . ! ~ * ' ( )` -/
def unreserved (b : UInt8) : Bool :=
  let n := b.toNat
  (48 ≤ n && n ≤ 57) || (65 ≤ n && n ≤ 90) ||
    (97 ≤ n && n ≤ 122) || n == 45 || n == 95 || n == 46 ||
    n == 33 || n == 126 || n == 42 || n == 39 || n == 40 || n == 41

def hexDigit (v : Nat) : Char := if v < 10 then Char.ofNat (v + 48) else Char.ofNat (v + 55)

def hexValue (c : Char) : Option Nat :=
  let n := c.toNat
  if 48 ≤ n ∧ n ≤ 57 then some (n - 48)
  else if 65 ≤ n ∧ n ≤ 70 then some (n - 55)
  else if 97 ≤ n ∧ n ≤ 102 then some (n - 87)
  else none

def encodeByte (b : UInt8) : List Char :=
  if unreserved b then [Char.ofNat b.toNat]
  else ['%', hexDigit (b.toNat / 16), hexDigit (b.toNat % 16)]

/-- `encodeURIComponent(s)` -/
def encode (s : String) : String := String.ofList (s.toUTF8.data.toList.flatMap encodeByte)

/-- The bytes a text stands for. -/
def bytes : List Char → Option Bytes
  | [] => some []
  | c :: cs =>
    if c = '%' then
      match cs with
      | a :: b :: cs => do
        let x ← hexValue a
        let y ← hexValue b
        let rest ← bytes cs
        pure (UInt8.ofNat (x * 16 + y) :: rest)
      | _ => none
    else (bytes cs).map (String.utf8EncodeChar c ++ ·)

/-- `decodeURIComponent(s)`; `none` where it throws. -/
def decode (s : String) : Option String := do
  let bs ← bytes s.toList
  String.fromUTF8? ⟨bs.toArray⟩

/-! ## Round trip -/

theorem hexValue_hexDigit : ∀ v, v < 16 → hexValue (hexDigit v) = some v := by decide

theorem unreserved_char : ∀ n, n < 256 → unreserved (UInt8.ofNat n) = true →
    Char.ofNat n ≠ '%' ∧ Char.ofNat n ≠ '/' ∧
    String.utf8EncodeChar (Char.ofNat n) = [UInt8.ofNat n] := by
  decide +kernel

theorem hexDigit_ne_slash : ∀ v, v < 16 → hexDigit v ≠ '/' := by decide

theorem bytes_plain {c : Char} (h : c ≠ '%') (cs : List Char) :
    bytes (c :: cs) = (bytes cs).map (String.utf8EncodeChar c ++ ·) := by
  rw [bytes.eq_def]
  exact if_neg h

theorem bytes_encodeByte (b : UInt8) (cs : List Char) :
    bytes (encodeByte b ++ cs) = (bytes cs).map (b :: ·) := by
  have hb : b.toNat < 256 := b.toNat_lt
  have hof : UInt8.ofNat b.toNat = b := UInt8.ofNat_toNat
  unfold encodeByte
  split
  · rename_i hu
    obtain ⟨hp, -, hutf⟩ := unreserved_char b.toNat hb (by rwa [hof])
    rw [List.cons_append, List.nil_append, bytes_plain hp, hutf, hof]
    rfl
  · have hjoin : b.toNat / 16 * 16 + b.toNat % 16 = b.toNat := Nat.div_add_mod' ..
    show bytes ('%' :: hexDigit (b.toNat / 16) :: hexDigit (b.toNat % 16) :: cs) = _
    rw [bytes, if_pos rfl]
    simp only [hexValue_hexDigit _ (by omega : b.toNat / 16 < 16),
      hexValue_hexDigit _ (by omega : b.toNat % 16 < 16),
      Option.bind_eq_bind, Option.bind_some, hjoin, hof]
    cases bytes cs with
    | none => rfl
    | some rest => rfl

theorem bytes_flatMap : ∀ bs : Bytes, bytes (bs.flatMap encodeByte) = some bs
  | [] => rfl
  | b :: bs => by
    rw [List.flatMap_cons, bytes_encodeByte, bytes_flatMap bs]
    rfl

theorem decode_encode (s : String) : decode (encode s) = some s := by
  unfold decode encode
  rw [String.toList_ofList, bytes_flatMap]
  show String.fromUTF8? ⟨s.toUTF8.data.toList.toArray⟩ = some s
  rw [Array.toArray_toList]
  exact dif_pos s.isValidUTF8

/-! ## Texts without escapes -/

theorem utf8_flatMap (s : String) :
    s.toUTF8.data.toList = s.toList.flatMap String.utf8EncodeChar := by
  show s.toByteArray.data.toList = _
  rw [← String.utf8Encode_toList]
  unfold List.utf8Encode
  simp

theorem bytes_unescaped : ∀ {cs : List Char}, '%' ∉ cs → bytes cs = some
    (cs.flatMap String.utf8EncodeChar)
  | [], _ => rfl
  | c :: cs, h => by
    rw [List.mem_cons, not_or] at h
    rw [bytes_plain (Ne.symm h.1), bytes_unescaped h.2]
    rfl

theorem decode_unescaped {s : String} (h : '%' ∉ s.toList) : decode s = some s := by
  unfold decode
  rw [bytes_unescaped h, ← utf8_flatMap]
  show String.fromUTF8? ⟨s.toUTF8.data.toList.toArray⟩ = some s
  rw [Array.toArray_toList]
  exact dif_pos s.isValidUTF8

/-- What is its own encoding. -/
theorem encode_unescaped {s : String} (h : '%' ∉ (encode s).toList) : encode s = s := by
  have h1 := decode_unescaped h
  rw [decode_encode] at h1
  exact (Option.some.inj h1).symm

theorem encodeByte_unreserved : ∀ n, n < 128 → unreserved (UInt8.ofNat n) = true →
    (String.utf8EncodeChar (Char.ofNat n)).flatMap encodeByte = [Char.ofNat n] := by
  decide +kernel

theorem encode_unreserved {s : String}
    (h : ∀ c ∈ s.toList, c.toNat < 128 ∧ unreserved (UInt8.ofNat c.toNat) = true) :
    encode s = s := by
  have hchars : ∀ cs : List Char, (∀ c ∈ cs, c.toNat < 128 ∧
      unreserved (UInt8.ofNat c.toNat) = true) →
      (cs.flatMap String.utf8EncodeChar).flatMap encodeByte = cs := by
    intro cs hcs
    induction cs with
    | nil => rfl
    | cons c cs ih =>
      have hc := hcs c List.mem_cons_self
      have hone := encodeByte_unreserved c.toNat hc.1 hc.2
      rw [Char.ofNat_toNat] at hone
      rw [List.flatMap_cons, List.flatMap_append, hone,
        ih fun d hd => hcs d (List.mem_cons_of_mem _ hd)]
      rfl
  unfold encode
  rw [utf8_flatMap, hchars _ h, String.ofList_toList]
/-! ## One segment -/

theorem encode_ne_empty {s : String} (h : s ≠ "") : encode s ≠ "" := by
  intro he
  have := decode_encode s
  rw [he] at this
  exact h (Option.some.inj this).symm

theorem encode_no_slash (s : String) : '/' ∉ (encode s).toList := by
  unfold encode
  rw [String.toList_ofList, List.mem_flatMap]
  rintro ⟨b, -, hm⟩
  have hb : b.toNat < 256 := b.toNat_lt
  unfold encodeByte at hm
  split at hm
  · rename_i hu
    have := (unreserved_char b.toNat hb (by rwa [UInt8.ofNat_toNat])).2.1
    exact this (List.mem_singleton.1 hm).symm
  · simp only [List.mem_cons, List.not_mem_nil, or_false] at hm
    rcases hm with hm | hm | hm
    · cases hm
    · exact hexDigit_ne_slash (b.toNat / 16) (by omega) hm.symm
    · exact hexDigit_ne_slash (b.toNat % 16) (by omega) hm.symm

/-! ## Paths -/

/-- `path.split("/")` -/
def split (path : String) : List String := (path.toList.splitOn '/').map String.ofList

/-- `segments.join("/")` -/
def join (segments : List String) : String :=
  String.ofList (['/'].intercalate (segments.map String.toList))

theorem split_join {segments : List String} (h : ∀ s ∈ segments, '/' ∉ s.toList)
    (hne : segments ≠ []) :
    split (join segments) = segments := by
  have hmap : ∀ l ∈ segments.map String.toList, '/' ∉ l := by
    intro l hl
    obtain ⟨s, hs, rfl⟩ := List.mem_map.1 hl
    exact h s hs
  unfold split join
  rw [String.toList_ofList, List.splitOn_intercalate '/' hmap (by simpa using hne), List.map_map]
  simp

end GlanceVault.L1.Uri
