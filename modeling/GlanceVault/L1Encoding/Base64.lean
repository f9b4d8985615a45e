import Mathlib.Data.List.Basic
import GlanceVault.L1Encoding.Js
/-!
# Base64 as `Buffer` reads and writes it

An envelope travels as base64 text and is stored as the bytes it decodes to.
`Buffer.from(s, "base64")` is lenient: it accepts the standard and the
URL-safe alphabet, skips every other character and stops at the first `=`, and
of a code unit it looks at the low byte only; `buffer.toString("base64")` writes
the padded standard form.

* `decode_encode`: what the server writes decodes to the bytes it was
  written from.
* `Spells`, `spells_iff`: the texts of which the decoder uses every character,
  as a grammar and as a test.
-/
namespace GlanceVault.L1

abbrev Bytes : Type := List UInt8

namespace Base64

/-- The value of a letter of either alphabet. -/
def sextet (c : Char) : Option Nat :=
  let n := c.toNat
  if 65 ≤ n ∧ n ≤ 90 then some (n - 65)
  else if 97 ≤ n ∧ n ≤ 122 then some (n - 71)
  else if 48 ≤ n ∧ n ≤ 57 then some (n + 4)
  else if n = 43 ∨ n = 45 then some 62
  else if n = 47 ∨ n = 95 then some 63
  else none

/-- The letter of the standard alphabet for a value below 64. -/
def letter (v : Nat) : Char :=
  if v < 26 then Char.ofNat (v + 65)
  else if v < 52 then Char.ofNat (v + 71)
  else if v < 62 then Char.ofNat (v - 4)
  else if v = 62 then '+' else '/'

/-- The bytes of a sequence of sextets; a remainder of less than a byte is
dropped. -/
def ofSextets : List Nat → Bytes
  | a :: b :: c :: d :: rest =>
    .ofNat (a * 4 + b / 16) :: .ofNat (b % 16 * 16 + c / 4) :: .ofNat
      (c % 4 * 64 + d) :: ofSextets rest
  | [a, b, c] => [.ofNat (a * 4 + b / 16), .ofNat (b % 16 * 16 + c / 4)]
  | [a, b] => [.ofNat (a * 4 + b / 16)]
  | _ => []

/-- What the decoder sees of a character: the low byte of each code unit. A
character above U+00FF passes for the letter it shares that byte with. -/
def seen (c : Char) : List Char := (Js.unitsOfChar c).map fun u => Char.ofNat (u % 256)

/-- `Buffer.from(s, "base64")` -/
def decode (s : String) : Bytes :=
  ofSextets (((s.toList.flatMap seen).takeWhile (· != '=')).filterMap sextet)

def toSextets : Bytes → List Nat
  | x :: y :: z :: rest =>
    x.toNat / 4 :: (x.toNat % 4 * 16 + y.toNat / 16) :: (y.toNat % 16 * 4 + z.toNat / 64) ::
      z.toNat % 64 :: toSextets rest
  | [x, y] => [x.toNat / 4, x.toNat % 4 * 16 + y.toNat / 16, y.toNat % 16 * 4]
  | [x] => [x.toNat / 4, x.toNat % 4 * 16]
  | [] => []

def padding (n : Nat) : List Char :=
  if n % 3 = 1 then ['=', '='] else if n % 3 = 2 then ['='] else []

/-- `bytes.toString("base64")` -/
def encode (bytes : Bytes) : String :=
  String.ofList ((toSextets bytes).map letter ++ padding bytes.length)

/-! ## Round trip -/

theorem seen_byte {c : Char} (h : c.toNat < 256) : seen c = [c] := by
  have hbmp : c.toNat < 65536 := Nat.lt_trans h (by decide)
  unfold seen Js.unitsOfChar
  rw [if_pos hbmp, List.map_singleton, Nat.mod_eq_of_lt h, Char.ofNat_toNat]

/-- A text of such characters is read as it stands. -/
theorem decode_bytes {s : String} (h : ∀ c ∈ s.toList, c.toNat < 256) :
    decode s = ofSextets ((s.toList.takeWhile (· != '=')).filterMap sextet) := by
  have hseen : s.toList.flatMap seen = s.toList :=
    (List.flatMap_congr fun c hc => seen_byte (h c hc)).trans (List.flatMap_singleton' _)
  unfold decode
  rw [hseen]

theorem letter_byte : ∀ v, v < 64 → (letter v).toNat < 256 := by decide

theorem sextet_letter : ∀ v, v < 64 → sextet (letter v) = some v ∧ letter v ≠ '=' := by decide

theorem toSextets_lt : ∀ (bytes : Bytes), ∀ v ∈ toSextets bytes, v < 64
  | x :: y :: z :: rest => by
    have hx := x.toNat_lt; have hy := y.toNat_lt; have hz := z.toNat_lt
    have ih := toSextets_lt rest
    simp only [toSextets, List.mem_cons, forall_eq_or_imp]
    exact ⟨by omega, by omega, by omega, by omega, ih⟩
  | [x, y] => by
    have hx := x.toNat_lt; have hy := y.toNat_lt
    simp only [toSextets, List.mem_cons, List.not_mem_nil, or_false, forall_eq_or_imp, forall_eq]
    exact ⟨by omega, by omega, by omega⟩
  | [x] => by
    have hx := x.toNat_lt
    simp only [toSextets, List.mem_cons, List.not_mem_nil, or_false, forall_eq_or_imp, forall_eq]
    exact ⟨by omega, by omega⟩
  | [] => by simp [toSextets]

theorem byte_eq {n : Nat} {x : UInt8} (h : n % 256 = x.toNat) : UInt8.ofNat n = x := by
  apply UInt8.toNat_inj.mp; rw [UInt8.toNat_ofNat']; exact h

theorem ofSextets_toSextets : ∀ bytes : Bytes, ofSextets (toSextets bytes) = bytes
  | x :: y :: z :: rest => by
    have hx := x.toNat_lt; have hy := y.toNat_lt; have hz := z.toNat_lt
    simp only [toSextets, ofSextets, ofSextets_toSextets rest, List.cons.injEq, and_true]
    exact ⟨byte_eq (by omega), byte_eq (by omega), byte_eq (by omega)⟩
  | [x, y] => by
    have hx := x.toNat_lt; have hy := y.toNat_lt
    simp only [toSextets, ofSextets, List.cons.injEq, and_true]
    exact ⟨byte_eq (by omega), byte_eq (by omega)⟩
  | [x] => by
    have hx := x.toNat_lt
    simp only [toSextets, ofSextets, List.cons.injEq, and_true]
    exact byte_eq (by omega)
  | [] => rfl

theorem padding_stops (n : Nat) : (padding n).takeWhile (· != '=') = [] := by
  unfold padding
  split
  · rfl
  · split <;> rfl

theorem padding_pads {n : Nat} {c : Char} (h : c ∈ padding n) : c = '=' := by
  unfold padding at h
  grind

/-- Letters are kept, in order, up to the padding. -/
theorem letters_read : ∀ (vs : List Nat) (n : Nat), (∀ v ∈ vs, v < 64) →
    ((vs.map letter ++ padding n).takeWhile (· != '=')).filterMap sextet = vs
  | [], n, _ => by simp [padding_stops]
  | v :: vs, n, h => by
    obtain ⟨h1, h2⟩ := sextet_letter v (h v (by simp))
    have ih := letters_read vs n fun w hw => h w (List.mem_cons_of_mem _ hw)
    simp [h2, h1, ih]

/-- **What the server writes reads back.** -/
theorem decode_encode (bytes : Bytes) : decode (encode bytes) = bytes := by
  have hbytes : ∀ c ∈ (encode bytes).toList, c.toNat < 256 := fun c hc => by
    unfold encode at hc
    rw [String.toList_ofList, List.mem_append] at hc
    rcases hc with hc | hc
    · obtain ⟨v, hv, rfl⟩ := List.mem_map.1 hc
      exact letter_byte v (toSextets_lt bytes v hv)
    · rw [padding_pads hc]
      decide
  rw [decode_bytes hbytes]
  unfold encode
  rw [String.toList_ofList, letters_read _ _ (toSextets_lt bytes), ofSextets_toSextets]

/-! ## Texts that are read whole -/

/-- The padding that makes up four letters. -/
def completing (letters : Nat) : List Char :=
  if letters % 4 = 2 then ['=', '='] else if letters % 4 = 3 then ['='] else []

/-- The text spells the bytes, and no character of it is discarded: letters of
either alphabet, the last of which still makes up a byte, then no padding or
the one that makes up four. -/
def Spells (s : String) (b : Bytes) : Prop :=
  ∃ letters pad : List Char, s.toList = letters ++ pad ∧ (∀ c ∈ letters, (sextet c).isSome = true) ∧
    letters.length % 4 ≠ 1 ∧
    (pad = [] ∨ pad = completing letters.length) ∧ b = ofSextets (letters.filterMap sextet)

/-- Some bytes are spelled. -/
def isBase64 (s : String) : Bool :=
  let letters := s.toList.takeWhile (· != '=')
  let pad := s.toList.dropWhile (· != '=')
  letters.all (fun c => (sextet c).isSome) && decide (letters.length % 4 ≠ 1) &&
    (decide (pad = []) || decide (pad = completing letters.length))

theorem letter_ne_pad {c : Char} (h : (sextet c).isSome = true) : (c != '=') = true := by
  have hpad : sextet '=' = none := by decide
  rw [bne_iff_ne]
  rintro rfl
  rw [hpad] at h
  cases h

theorem sextet_byte {c : Char} (h : (sextet c).isSome = true) : c.toNat < 256 := by
  unfold sextet at h
  grind

theorem completing_pads {n : Nat} {c : Char} (h : c ∈ completing n) : c = '=' := by
  unfold completing at h
  grind

/-- No character of a spelled text is above U+00FF. -/
theorem spelled_bytes {letters pad : List Char} (hl : ∀ c ∈ letters, (sextet c).isSome = true)
    (hp : pad = [] ∨ pad = completing letters.length) : ∀ c ∈ letters ++ pad, c.toNat < 256 := by
  intro c hc
  rcases List.mem_append.1 hc with hc | hc
  · exact sextet_byte (hl c hc)
  · rcases hp with rfl | rfl
    · exact absurd hc List.not_mem_nil
    · rw [completing_pads hc]
      decide

theorem completing_stops (n : Nat) (rest : List Char) (h : rest = [] ∨ rest = completing n) :
    rest.takeWhile (· != '=') = [] ∧ rest.dropWhile (· != '=') = rest := by
  rcases h with rfl | rfl
  · exact ⟨rfl, rfl⟩
  · unfold completing
    split
    · exact ⟨rfl, rfl⟩
    · split <;> exact ⟨rfl, rfl⟩

/-- The letters are what precedes the padding. -/
theorem split_letters {letters pad : List Char} (hl : ∀ c ∈ letters, (sextet c).isSome = true)
    (hp : pad = [] ∨ pad = completing letters.length) :
    (letters ++ pad).takeWhile (· != '=') = letters ∧
      (letters ++ pad).dropWhile (· != '=') = pad := by
  have hall : ∀ c ∈ letters, (c != '=') = true := fun c hc => letter_ne_pad (hl c hc)
  obtain ⟨htake, hdrop⟩ := completing_stops letters.length pad hp
  rw [List.takeWhile_append_of_pos hall, List.dropWhile_append_of_pos hall, htake,
    hdrop, List.append_nil]
  exact ⟨rfl, rfl⟩

/-- **The grammar is decided by the test**, and the decoder reads what is spelled. -/
theorem spells_iff {s : String} {b : Bytes} : Spells s b ↔ isBase64 s = true ∧ decode s = b := by
  unfold isBase64
  simp only [Bool.and_eq_true, Bool.or_eq_true, decide_eq_true_eq, List.all_eq_true]
  constructor
  · rintro ⟨letters, pad, hs, hl, hn, hp, rfl⟩
    obtain ⟨htake, hdrop⟩ := split_letters hl hp
    rw [decode_bytes (hs ▸ spelled_bytes hl hp), hs, htake, hdrop]
    exact ⟨⟨⟨hl, hn⟩, hp⟩, rfl⟩
  · rintro ⟨⟨⟨hl, hn⟩, hp⟩, rfl⟩
    have hbytes := spelled_bytes hl hp
    rw [List.takeWhile_append_dropWhile] at hbytes
    exact ⟨_, _, List.takeWhile_append_dropWhile.symm, hl, hn, hp, decode_bytes hbytes⟩

theorem Spells.decode {s : String} {b : Bytes} (h : Spells s b) : Base64.decode s = b :=
  (spells_iff.1 h).2

example : isBase64 "aGVsbG8=" = true ∧ isBase64 "aGVsbG8" = true ∧
  isBase64 "aGVsbG8=d29ybGQ=" = false ∧ isBase64 "aGVsb" = false ∧
  decode "\u0141\u0141" = decode "AA" := by
  decide +kernel

end Base64
end GlanceVault.L1
