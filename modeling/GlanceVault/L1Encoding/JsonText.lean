import GlanceVault.L1Encoding.Doubles
/-!
# JSON as text (ECMA-404)

`JSON.stringify` and `JSON.parse`. A number is written if it is a natural number
below 2^53, which a double holds exactly; the server writes no other number but
a client's own timestamps. A lone surrogate is no character, and is not read.

* `chars_quote`: a string literal reads back, whatever characters it has.
* `number_text`: so does a number.
* `parse_stringify`: so does a value.
* `stringify_printable`: the text of a value is one line.
-/
namespace GlanceVault.L1.Js.JsonText

/-! ## Strings -/

/-- A character inside a string literal. -/
def escape (c : Char) : List Char :=
  if c = '"' then ['\\', '"'] else if c = '\\' then ['\\', '\\']
  else if c = '\x08' then ['\\', 'b'] else if c = '\x0c' then ['\\', 'f']
  else if c = '\n' then ['\\', 'n'] else if c = '\r' then ['\\', 'r']
  else if c = '\t' then ['\\', 't']
  else if c.toNat < 32 then
    ['\\', 'u', '0', '0', Nat.digitChar (c.toNat / 16), Nat.digitChar (c.toNat % 16)]
  else [c]

def quote (s : String) : List Char := '"' :: s.toList.flatMap escape ++ ['"']

/-- Four hexadecimal digits. -/
def hex4 : List Char → Option (Nat × List Char)
  | a :: b :: c :: d :: cs => do
    let a ← digit16 a
    let b ← digit16 b
    let c ← digit16 c
    let d ← digit16 d
    pure (((a * 16 + b) * 16 + c) * 16 + d, cs)
  | _ => none
where digit16 := JsNumber.digit 16

/-- What follows a backslash. A lone surrogate is no character. -/
def unescape : List Char → Option (Char × List Char)
  | '"' :: cs => some ('"', cs)
  | '\\' :: cs => some ('\\', cs)
  | '/' :: cs => some ('/', cs)
  | 'b' :: cs => some ('\x08', cs)
  | 'f' :: cs => some ('\x0c', cs)
  | 'n' :: cs => some ('\n', cs)
  | 'r' :: cs => some ('\r', cs)
  | 't' :: cs => some ('\t', cs)
  | 'u' :: cs => do
    let (n, cs) ← hex4 cs
    if n < 0xD800 ∨ 0xE000 ≤ n then pure (Char.ofNat n, cs)
    else
      let '\\' :: 'u' :: cs := cs | none
      let (m, cs) ← hex4 cs
      if n < 0xDC00 ∧ 0xDC00 ≤ m ∧ m < 0xE000 then
        pure (Char.ofNat (0x10000 + (n - 0xD800) * 0x400 + (m - 0xDC00)), cs)
      else none
  | _ => none

/-- The rest of a string literal. -/
def chars : Nat → List Char → Option (List Char × List Char)
  | 0, _ => none
  | _, [] => none
  | _, '"' :: cs => some ([], cs)
  | n + 1, '\\' :: cs => do
    let (c, cs) ← unescape cs
    let (s, cs) ← chars n cs
    pure (c :: s, cs)
  | n + 1, c :: cs =>
    if c.toNat < 32 then none
    else do
      let (s, cs) ← chars n cs
      pure (c :: s, cs)

theorem digit_digitChar : ∀ v, v < 16 → JsNumber.digit 16 (Nat.digitChar v) = some v := by decide

theorem unescape_control {n : Nat} (h : n < 32) (cs : List Char) :
    unescape ('u' :: '0' :: '0' :: Nat.digitChar (n / 16) :: Nat.digitChar (n % 16) :: cs) =
      some (Char.ofNat n, cs) := by
  have hhex : hex4 ('0' :: '0' :: Nat.digitChar (n / 16) :: Nat.digitChar (n % 16) :: cs) =
      some (n, cs) := by
    simp only [hex4, hex4.digit16, digit_digitChar (n / 16) (by omega),
      digit_digitChar (n % 16) (by omega)]
    show some (((0 * 16 + 0) * 16 + n / 16) * 16 + n % 16, cs) = _
    rw [show ((0 * 16 + 0) * 16 + n / 16) * 16 + n % 16 = n by omega]
  simp only [unescape, hhex]
  show (if n < 0xD800 ∨ 0xE000 ≤ n then some (Char.ofNat n, cs) else _) = _
  rw [if_pos (by omega)]

/-- A character is itself, or is read back behind its backslash. -/
theorem escape_cases (c : Char) : (escape c = [c] ∧ c ≠ '"' ∧ c ≠ '\\' ∧ 32 ≤ c.toNat) ∨
    ∃ cs, escape c = '\\' :: cs ∧ ∀ ds, unescape (cs ++ ds) = some (c, ds) := by
  unfold escape
  split
  · rename_i h; subst h; exact .inr ⟨_, rfl, fun _ => rfl⟩
  split
  · rename_i h; subst h; exact .inr ⟨_, rfl, fun _ => rfl⟩
  split
  · rename_i h; subst h; exact .inr ⟨_, rfl, fun _ => rfl⟩
  split
  · rename_i h; subst h; exact .inr ⟨_, rfl, fun _ => rfl⟩
  split
  · rename_i h; subst h; exact .inr ⟨_, rfl, fun _ => rfl⟩
  split
  · rename_i h; subst h; exact .inr ⟨_, rfl, fun _ => rfl⟩
  split
  · rename_i h; subst h; exact .inr ⟨_, rfl, fun _ => rfl⟩
  split
  · rename_i h
    refine .inr ⟨_, rfl, fun ds => ?_⟩
    rw [List.cons_append, List.cons_append, List.cons_append, List.cons_append, List.cons_append,
      List.nil_append, unescape_control h,
      Char.ofNat_toNat]
  · rename_i hquote hslash _ _ _ _ _ hlow
    exact .inl ⟨rfl, hquote, hslash, by omega⟩

/-- **A string literal reads back.** -/
theorem chars_quote (s rest : List Char) : ∀ {n : Nat}, s.length < n →
    chars n (s.flatMap escape ++ '"' :: rest) = some (s, rest) := by
  induction s with
  | nil =>
    intro n hn
    obtain ⟨k, rfl⟩ : ∃ k, n = k + 1 := ⟨n - 1, by simp at hn; omega⟩
    rfl
  | cons c s ih =>
    intro n hn
    obtain ⟨k, rfl⟩ : ∃ k, n = k + 1 := ⟨n - 1, by simp at hn; omega⟩
    have hrest := ih (n := k) (by simp at hn; omega)
    rw [List.flatMap_cons, List.append_assoc]
    rcases escape_cases c with ⟨he, hquote, hslash, hlow⟩ | ⟨cs, he, hread⟩
    · rw [he, List.singleton_append]
      simp [chars, Nat.not_lt.2 hlow, hrest]
    · rw [he, List.cons_append]
      simp [chars, hread, hrest]

/-! ## Numbers -/

/-- A natural number that a double holds exactly, in decimal. -/
def numberText (n : JsNumber) : Option (List Char) :=
  n.asNatural.bind fun k => if k < 2 ^ 53 then some (Nat.toDigits 10 k) else none

def isNumberChar (c : Char) : Bool :=
  JsNumber.isDigit c || c == '-' || c == '+' || c == '.' || c == 'e' || c == 'E'

def isExponent : List Char → Bool
  | [] => true
  | c :: cs =>
    (c == 'e' || c == 'E') && !(JsNumber.signed cs).2.isEmpty &&
      (JsNumber.signed cs).2.all JsNumber.isDigit

def isFraction : List Char → Bool
  | '.' :: cs =>
    !(cs.takeWhile JsNumber.isDigit).isEmpty && isExponent (cs.dropWhile JsNumber.isDigit)
  | cs => isExponent cs

/-- The number grammar: no leading zero, digits on both sides of the point. -/
def isUnsigned (cs : List Char) : Bool :=
  let whole := cs.takeWhile JsNumber.isDigit
  !whole.isEmpty && (whole == ['0'] || whole.head? != some '0') &&
    isFraction (cs.dropWhile JsNumber.isDigit)

def isNumeral : List Char → Bool
  | '-' :: cs => isUnsigned cs
  | cs => isUnsigned cs

def number (cs : List Char) : Option (JsNumber × List Char) :=
  if isNumeral (cs.takeWhile isNumberChar) then
    some (JsNumber.ofString (String.ofList (cs.takeWhile isNumberChar)), cs.dropWhile isNumberChar)
  else none

theorem isDigit_toDigits {k : Nat} {c : Char} (h : c ∈ Nat.toDigits 10 k) :
    JsNumber.isDigit c = true := by
  have hd := Nat.isDigit_of_mem_toDigits (by decide) (by decide) h
  simp only [Char.isDigit, Bool.and_eq_true, decide_eq_true_eq] at hd
  have h48 : 48 ≤ c.toNat := hd.1
  have h57 : c.toNat ≤ 57 := hd.2
  unfold JsNumber.isDigit JsNumber.digit
  simp only [h48, h57, and_self, if_true]
  rw [if_pos (by omega)]
  rfl

/-- The decimal numeral of a positive number does not start with a zero. -/
theorem toDigits_head {k : Nat} (hk : 0 < k) : (Nat.toDigits 10 k).head? ≠ some '0' := by
  induction k using Nat.strongRecOn with
  | ind k ih =>
    rw [Nat.toDigits_eq_if (by decide)]
    split
    · rename_i h
      have hdigit : ∀ k < 10, 0 < k → [Nat.digitChar k].head? ≠ some '0' := by decide
      exact hdigit k h hk
    · have hrest := ih (k / 10) (by omega) (by omega)
      rwa [List.head?_append_of_ne_nil _ Nat.toDigits_ne_nil]

/-- No number goes on here. -/
def Stops (rest : List Char) : Prop := ∀ c, rest.head? = some c → isNumberChar c = false

/-- **A number reads back.** -/
theorem number_text {k : Nat} (hk : k < 2 ^ 53) {rest : List Char} (hrest : Stops rest) :
    number (Nat.toDigits 10 k ++ rest) = some (.ofNat k, rest) := by
  have hdigits : ∀ c ∈ Nat.toDigits 10 k, JsNumber.isDigit c = true :=
    fun c hc => isDigit_toDigits hc
  have hchars : ∀ c ∈ Nat.toDigits 10 k, isNumberChar c = true := fun c hc => by
    unfold isNumberChar
    rw [hdigits c hc]
    rfl
  have htake : (Nat.toDigits 10 k ++ rest).takeWhile isNumberChar = Nat.toDigits 10 k := by
    rw [List.takeWhile_append_of_pos hchars]
    cases rest with
    | nil => simp
    | cons c rest => simp [hrest c rfl]
  have hdrop : (Nat.toDigits 10 k ++ rest).dropWhile isNumberChar = rest := by
    rw [List.dropWhile_append_of_pos hchars]
    cases rest with
    | nil => rfl
    | cons c rest => simp [hrest c rfl]
  have hunsigned : isUnsigned (Nat.toDigits 10 k) = true := by
    unfold isUnsigned
    have hall : (Nat.toDigits 10 k).takeWhile JsNumber.isDigit = Nat.toDigits 10 k :=
      List.takeWhile_eq_self_iff.2 hdigits
    have hnone : (Nat.toDigits 10 k).dropWhile JsNumber.isDigit = [] :=
      List.dropWhile_eq_nil_iff.2 hdigits
    rw [hall, hnone]
    have hzero : (Nat.toDigits 10 k == ['0'] || (Nat.toDigits 10 k).head? != some '0') = true := by
      rcases Nat.eq_zero_or_pos k with rfl | hpos
      · decide
      · simp [toDigits_head hpos]
    simp [hzero, isFraction, isExponent]
  have hnumeral : isNumeral (Nat.toDigits 10 k) = true := by
    unfold isNumeral
    split
    · rename_i cs e
      have hminus : JsNumber.isDigit '-' = true := hdigits '-' (by rw [e]; exact List.mem_cons_self)
      exact absurd hminus (by decide)
    · exact hunsigned
  have hvalue : JsNumber.ofString (String.ofList (Nat.toDigits 10 k)) = .ofNat k := by
    have hread := (JsNumber.natural_digits Nat.toDigits_ne_nil hdigits).1
    rw [Nat.ofDigitChars_ten_toDigits] at hread
    exact JsNumber.asNatural_some.1 (hread hk)
  unfold number
  rw [htake, hdrop, if_pos hnumeral, hvalue]

/-! ## Values -/

mutual

/-- `JSON.stringify(j)`. -/
def stringify : Json → Option (List Char)
  | .null => some ['n', 'u', 'l', 'l']
  | .bool true => some ['t', 'r', 'u', 'e']
  | .bool false => some ['f', 'a', 'l', 's', 'e']
  | .num n => numberText n
  | .str s => some (quote s)
  | .arr [] => some ['[', ']']
  | .arr (j :: js) => do
    let x ← stringify j
    let y ← elementsText js
    pure ('[' :: x ++ y)
  | .obj [] => some ['{', '}']
  | .obj ((k, j) :: fs) => do
    let x ← stringify j
    let y ← membersText fs
    pure ('{' :: quote k ++ ':' :: x ++ y)

/-- The elements after the first, and the end of the array. -/
def elementsText : List Json → Option (List Char)
  | [] => some [']']
  | j :: js => do
    let x ← stringify j
    let y ← elementsText js
    pure (',' :: x ++ y)

/-- The members after the first, and the end of the object. -/
def membersText : List (String × Json) → Option (List Char)
  | [] => some ['}']
  | (k, j) :: fs => do
    let x ← stringify j
    let y ← membersText fs
    pure (',' :: quote k ++ ':' :: x ++ y)

end

def isJsonSpace (c : Char) : Bool := c == ' ' || c == '\t' || c == '\n' || c == '\r'

def skip (cs : List Char) : List Char := cs.dropWhile isJsonSpace

/-- A string literal from its opening quote on. -/
def text (cs : List Char) : Option (String × List Char) :=
  match skip cs with
  | '"' :: cs => (chars (cs.length + 1) cs).map fun (s, cs) => (String.ofList s, cs)
  | _ => none

mutual

def value : Nat → List Char → Option (Json × List Char)
  | 0, _ => none
  | n + 1, cs =>
    match skip cs with
    | 'n' :: 'u' :: 'l' :: 'l' :: cs => some (.null, cs)
    | 't' :: 'r' :: 'u' :: 'e' :: cs => some (.bool true, cs)
    | 'f' :: 'a' :: 'l' :: 's' :: 'e' :: cs => some (.bool false, cs)
    | '"' :: cs => (text ('"' :: cs)).map fun (s, cs) => (.str s, cs)
    | '[' :: cs =>
      match skip cs with
      | ']' :: cs => some (.arr [], cs)
      | cs => do
        let (j, cs) ← value n cs
        let (js, cs) ← elements n cs
        pure (.arr (j :: js), cs)
    | '{' :: cs =>
      match skip cs with
      | '}' :: cs => some (.obj [], cs)
      | cs => do
        let (f, cs) ← pair n cs
        let (fs, cs) ← members n cs
        pure (.obj (f :: fs), cs)
    | cs => (number cs).map fun (x, cs) => (.num x, cs)

def elements : Nat → List Char → Option (List Json × List Char)
  | 0, _ => none
  | n + 1, cs =>
    match skip cs with
    | ']' :: cs => some ([], cs)
    | ',' :: cs => do
      let (j, cs) ← value n cs
      let (js, cs) ← elements n cs
      pure (j :: js, cs)
    | _ => none

def pair : Nat → List Char → Option ((String × Json) × List Char)
  | 0, _ => none
  | n + 1, cs => do
    let (k, cs) ← text cs
    let ':' :: cs := skip cs | none
    let (j, cs) ← value n cs
    pure ((k, j), cs)

def members : Nat → List Char → Option (List (String × Json) × List Char)
  | 0, _ => none
  | n + 1, cs =>
    match skip cs with
    | '}' :: cs => some ([], cs)
    | ',' :: cs => do
      let (f, cs) ← pair n cs
      let (fs, cs) ← members n cs
      pure (f :: fs, cs)
    | _ => none

end

/-- `JSON.parse(cs)`. -/
def parse (cs : List Char) : Option Json := do
  let (j, rest) ← value (cs.length + 1) cs
  if skip rest = [] then pure j else none

/-! ## The round trip -/

theorem skip_cons {c : Char} (h : isJsonSpace c = false) (cs : List Char) :
    skip (c :: cs) = c :: cs := by
  unfold skip
  rw [List.dropWhile_cons, h]
  rfl

theorem length_escape (s : List Char) : s.length ≤ (s.flatMap escape).length := by
  induction s with
  | nil => exact Nat.le_refl _
  | cons c s ih =>
    have hpos : 1 ≤ (escape c).length := by
      rcases escape_cases c with ⟨he, -⟩ | ⟨cs, he, -⟩ <;> rw [he] <;> simp
    simp only [List.flatMap_cons, List.length_append, List.length_cons]
    omega

theorem text_quote (s : String) (rest : List Char) : text (quote s ++ rest) = some (s, rest) := by
  have hsplit : quote s ++ rest = '"' :: (s.toList.flatMap escape ++ '"' :: rest) := by simp [quote]
  have hlen := length_escape s.toList
  have hread := chars_quote s.toList rest (n := (s.toList.flatMap escape ++ '"' :: rest).length + 1)
    (by simp only [List.length_append, List.length_cons]; omega)
  unfold text
  rw [hsplit, skip_cons (by decide)]
  simp only [hread, Option.map_some, String.ofList_toList]

theorem isJsonSpace_digit {c : Char} (h : JsNumber.isDigit c = true) : isJsonSpace c = false := by
  have hdigit := (JsNumber.digit_ten h).2
  unfold isJsonSpace
  simp only [Bool.or_eq_false_iff, beq_eq_false_iff_ne]
  refine ⟨⟨⟨?_, ?_⟩, ?_⟩, ?_⟩ <;> rintro rfl <;> exact absurd hdigit (by decide)

/-- The text of a value starts with no space, and with nothing that ends a list. -/
theorem stringify_head {j : Json} {t : List Char} (h : stringify j = some t) :
    ∃ c cs, t = c :: cs ∧ isJsonSpace c = false ∧ c ≠ ']' ∧ c ≠ '}' := by
  cases j with
  | null => cases h; exact ⟨_, _, rfl, by decide⟩
  | bool b => cases b <;> cases h <;> exact ⟨_, _, rfl, by decide⟩
  | str s => cases h; exact ⟨_, _, rfl, by decide⟩
  | num n =>
    obtain ⟨k, -, hk⟩ := Option.bind_eq_some_iff.1 (h : numberText n = some t)
    split at hk
    · cases hk
      obtain ⟨c, cs, e⟩ := List.exists_cons_of_ne_nil (Nat.toDigits_ne_nil (n := k) (b := 10))
      have hdigit : JsNumber.isDigit c = true :=
        isDigit_toDigits (k := k) (by rw [e]; exact List.mem_cons_self)
      refine ⟨c, cs, e, isJsonSpace_digit hdigit, ?_, ?_⟩
      · rintro rfl; exact absurd hdigit (by decide)
      · rintro rfl; exact absurd hdigit (by decide)
    · cases hk
  | arr js =>
    cases js with
    | nil => cases h; exact ⟨_, _, rfl, by decide⟩
    | cons j js =>
      rw [stringify] at h
      simp only [Option.bind_eq_bind, Option.bind_eq_some_iff] at h
      obtain ⟨x, -, y, -, h⟩ := h
      cases h
      exact ⟨_, _, rfl, by decide⟩
  | obj fs =>
    cases fs with
    | nil => cases h; exact ⟨_, _, rfl, by decide⟩
    | cons f fs =>
      obtain ⟨k, j⟩ := f
      rw [stringify] at h
      simp only [Option.bind_eq_bind, Option.bind_eq_some_iff] at h
      obtain ⟨x, -, y, -, h⟩ := h
      cases h
      exact ⟨_, _, rfl, by decide⟩

theorem tail_stops {c : Char} {cs rest : List Char} (h : isNumberChar c = false) :
    Stops (c :: cs ++ rest) := by
  intro d hd
  cases hd
  exact h

theorem elementsText_stops {js : List Json} {t : List Char} (h : elementsText js = some t)
    (rest : List Char) : Stops (t ++ rest) := by
  cases js with
  | nil => cases h; exact tail_stops (by decide)
  | cons j js =>
    rw [elementsText] at h
    simp only [Option.bind_eq_bind, Option.bind_eq_some_iff] at h
    obtain ⟨x, -, y, -, h⟩ := h
    cases h
    exact tail_stops (by decide)

theorem membersText_stops {fs : List (String × Json)} {t : List Char} (h : membersText fs = some t)
    (rest : List Char) :
    Stops (t ++ rest) := by
  cases fs with
  | nil => cases h; exact tail_stops (by decide)
  | cons f fs =>
    obtain ⟨k, j⟩ := f
    rw [membersText] at h
    simp only [Option.bind_eq_bind, Option.bind_eq_some_iff] at h
    obtain ⟨x, -, y, -, h⟩ := h
    cases h
    exact tail_stops (by decide)

theorem pair_text {k : String} {j : Json} {x rest : List Char} {n : Nat}
    (hx : value n (x ++ rest) = some (j, rest)) :
    pair (n + 1) (quote k ++ ':' :: (x ++ rest)) = some ((k, j), rest) := by
  unfold pair
  rw [text_quote]
  have hskip : skip (':' :: (x ++ rest)) = ':' :: (x ++ rest) := skip_cons (by decide) _
  simp [hskip, hx]

theorem value_number {c : Char} (hc : JsNumber.isDigit c = true) (cs : List Char) (n : Nat) :
    value (n + 1) (c :: cs) = (number (c :: cs)).map fun (x, cs) => (.num x, cs) := by
  have hspace : isJsonSpace c = false := isJsonSpace_digit hc
  have hne : ∀ {d : Char}, JsNumber.isDigit d = false → c ≠ d := by
    rintro d hd rfl
    rw [hd] at hc
    cases hc
  unfold value
  rw [skip_cons hspace]
  split
  · rename_i e; exact absurd (List.cons.inj e).1 (hne (by decide))
  · rename_i e; exact absurd (List.cons.inj e).1 (hne (by decide))
  · rename_i e; exact absurd (List.cons.inj e).1 (hne (by decide))
  · rename_i e; exact absurd (List.cons.inj e).1 (hne (by decide))
  · rename_i e; exact absurd (List.cons.inj e).1 (hne (by decide))
  · rename_i e; exact absurd (List.cons.inj e).1 (hne (by decide))
  · rfl

theorem value_elements {c : Char} (hspace : isJsonSpace c = false) (hclose : c ≠ ']')
    {cs rest rest' : List Char} {n : Nat} {j : Json}
    {js : List Json} (hj : value n (c :: cs) = some (j, rest))
    (hjs : elements n rest = some (js, rest')) :
    value (n + 1) ('[' :: c :: cs) = some (.arr (j :: js), rest') := by
  unfold value
  rw [skip_cons (by decide)]
  simp only [skip_cons hspace]
  split
  · rename_i e; exact absurd (List.cons.inj e).1 hclose
  · simp [hj, hjs]

theorem value_members {cs rest rest' : List Char} {n : Nat} {f : String × Json}
    {fs : List (String × Json)}
    (hf : pair n ('"' :: cs) = some (f, rest)) (hfs : members n rest = some (fs, rest')) :
    value (n + 1) ('{' :: '"' :: cs) = some (.obj (f :: fs), rest') := by
  have hquote : skip ('"' :: cs) = '"' :: cs := skip_cons (by decide) cs
  unfold value
  rw [skip_cons (by decide)]
  simp [hquote, hf, hfs]

mutual

/-- **A value reads back**, whatever follows it. -/
theorem value_text : ∀ (j : Json) {t rest : List Char} {n : Nat},
    stringify j = some t → Stops rest → t.length ≤ n →
    value n (t ++ rest) = some (j, rest)
  | .null, t, rest, n, h, hrest, hn => by
    cases h
    obtain ⟨m, rfl⟩ : ∃ m, n = m + 1 := ⟨n - 1, by simp at hn; omega⟩
    rfl
  | .bool b, t, rest, n, h, hrest, hn => by
    cases b <;> cases h <;> obtain ⟨m, rfl⟩ : ∃ m, n = m + 1 :=
      ⟨n - 1, by simp at hn; omega⟩ <;> rfl
  | .str s, t, rest, n, h, hrest, hn => by
    cases h
    obtain ⟨m, rfl⟩ : ∃ m, n = m + 1 := ⟨n - 1, by simp [quote] at hn; omega⟩
    have hsplit : quote s ++ rest = '"' :: (s.toList.flatMap escape ++ '"' :: rest) := by
      simp [quote]
    have hread := text_quote s rest
    rw [hsplit] at hread ⊢
    unfold value
    rw [skip_cons (by decide)]
    simp only [hread, Option.map_some]
  | .num x, t, rest, n, h, hrest, hn => by
    obtain ⟨k, hx, hk⟩ := Option.bind_eq_some_iff.1 (h : numberText x = some t)
    split at hk
    · rename_i hsafe
      cases hk
      have hread := number_text hsafe hrest
      obtain ⟨c, cs, e⟩ := List.exists_cons_of_ne_nil (Nat.toDigits_ne_nil (n := k) (b := 10))
      have hdigit : JsNumber.isDigit c = true :=
        isDigit_toDigits (k := k) (by rw [e]; exact List.mem_cons_self)
      rw [e] at hn hread ⊢
      obtain ⟨m, rfl⟩ : ∃ m, n = m + 1 := ⟨n - 1, by simp at hn; omega⟩
      rw [List.cons_append, value_number hdigit, ← List.cons_append, hread,
        JsNumber.asNatural_some.1 hx]
      rfl
    · cases hk
  | .arr [], t, rest, n, h, hrest, hn => by
    cases h
    obtain ⟨m, rfl⟩ : ∃ m, n = m + 1 := ⟨n - 1, by simp at hn; omega⟩
    rfl
  | .arr (j :: js), t, rest, n, h, hrest, hn => by
    rw [stringify] at h
    simp only [Option.bind_eq_bind, Option.bind_eq_some_iff] at h
    obtain ⟨x, hx, y, hy, h⟩ := h
    cases h
    obtain ⟨m, rfl⟩ : ∃ m, n = m + 1 := ⟨n - 1, by simp at hn; omega⟩
    have hj := value_text j (n := m) hx (elementsText_stops hy rest) (by simp at hn; omega)
    have hjs : elements m (y ++ rest) = some (js, rest) :=
      elements_text js hy (by simp at hn; omega)
    obtain ⟨c, cs, rfl, hspace, hclose, -⟩ := stringify_head hx
    have hsplit : '[' :: (c :: cs) ++ y ++ rest = '[' :: c :: (cs ++ (y ++ rest)) := by simp
    rw [hsplit]
    exact value_elements hspace hclose hj hjs
  | .obj [], t, rest, n, h, hrest, hn => by
    cases h
    obtain ⟨m, rfl⟩ : ∃ m, n = m + 1 := ⟨n - 1, by simp at hn; omega⟩
    rfl
  | .obj ((k, j) :: fs), t, rest, n, h, hrest, hn => by
    rw [stringify] at h
    simp only [Option.bind_eq_bind, Option.bind_eq_some_iff] at h
    obtain ⟨x, hx, y, hy, h⟩ := h
    cases h
    obtain ⟨m, rfl⟩ : ∃ m, n = m + 2 := ⟨n - 2, by simp [quote] at hn; omega⟩
    have hj := value_text j (n := m) hx (membersText_stops hy rest) (by simp [quote] at hn; omega)
    have hfs : members (m + 1) (y ++ rest) = some (fs, rest) :=
      members_text fs hy (by simp [quote] at hn; omega)
    have hsplit : '{' :: quote k ++ ':' :: x ++ y ++ rest =
        '{' :: (quote k ++ ':' :: (x ++ (y ++ rest))) := by
      simp
    rw [hsplit]
    exact value_members (pair_text hj) hfs

theorem elements_text : ∀ (js : List Json) {t rest : List Char} {n : Nat},
    elementsText js = some t → t.length ≤ n →
    elements n (t ++ rest) = some (js, rest)
  | [], t, rest, n, h, hn => by
    cases h
    obtain ⟨m, rfl⟩ : ∃ m, n = m + 1 := ⟨n - 1, by simp at hn; omega⟩
    rfl
  | j :: js, t, rest, n, h, hn => by
    rw [elementsText] at h
    simp only [Option.bind_eq_bind, Option.bind_eq_some_iff] at h
    obtain ⟨x, hx, y, hy, h⟩ := h
    cases h
    obtain ⟨m, rfl⟩ : ∃ m, n = m + 1 := ⟨n - 1, by simp at hn; omega⟩
    have hj := value_text j (n := m) hx (elementsText_stops hy rest) (by simp at hn; omega)
    have hjs : elements m (y ++ rest) = some (js, rest) :=
      elements_text js hy (by simp at hn; omega)
    have hsplit : ',' :: x ++ y ++ rest = ',' :: (x ++ (y ++ rest)) := by simp
    unfold elements
    rw [hsplit, skip_cons (by decide)]
    simp [hj, hjs]

theorem members_text : ∀ (fs : List (String × Json)) {t rest : List Char} {n : Nat},
    membersText fs = some t → t.length ≤ n →
    members n (t ++ rest) = some (fs, rest)
  | [], t, rest, n, h, hn => by
    cases h
    obtain ⟨m, rfl⟩ : ∃ m, n = m + 1 := ⟨n - 1, by simp at hn; omega⟩
    rfl
  | (k, j) :: fs, t, rest, n, h, hn => by
    rw [membersText] at h
    simp only [Option.bind_eq_bind, Option.bind_eq_some_iff] at h
    obtain ⟨x, hx, y, hy, h⟩ := h
    cases h
    obtain ⟨m, rfl⟩ : ∃ m, n = m + 2 := ⟨n - 2, by simp [quote] at hn; omega⟩
    have hj := value_text j (n := m) hx (membersText_stops hy rest) (by simp [quote] at hn; omega)
    have hfs : members (m + 1) (y ++ rest) = some (fs, rest) :=
      members_text fs hy (by simp [quote] at hn; omega)
    have hsplit : ',' :: quote k ++ ':' :: x ++ y ++ rest =
        ',' :: (quote k ++ ':' :: (x ++ (y ++ rest))) := by
      simp
    unfold members
    rw [hsplit, skip_cons (by decide)]
    simp [pair_text hj, hfs]

end

/-- **The text of a value reads back as the value.** -/
theorem parse_stringify {j : Json} {t : List Char} (h : stringify j = some t) :
    parse t = some j := by
  have hread : value (t.length + 1) (t ++ []) = some (j, []) :=
    value_text j h (fun _ hc => nomatch hc) (Nat.le_succ _)
  rw [List.append_nil] at hread
  unfold parse
  rw [hread]
  rfl

/-! ## The text is one line -/

/-- No control characters, so no line ends. -/
def Printable (t : List Char) : Prop := ∀ c ∈ t, 32 ≤ c.toNat

theorem Printable.cons {c : Char} {t : List Char} (hc : 32 ≤ c.toNat) (ht : Printable t) :
    Printable (c :: t) := by
  intro d hd
  rcases List.mem_cons.1 hd with rfl | hd
  · exact hc
  · exact ht d hd

theorem Printable.append {t u : List Char} (ht : Printable t) (hu : Printable u) :
    Printable (t ++ u) := fun c hc =>
  (List.mem_append.1 hc).elim (ht c) (hu c)

instance : DecidablePred Printable := fun t => List.decidableBAll (fun c : Char => 32 ≤ c.toNat) t

theorem digitChar_printable : ∀ v, v < 16 → 32 ≤ (Nat.digitChar v).toNat := by decide

theorem control_printable {n : Nat} (h : n < 32) :
    Printable ['\\', 'u', '0', '0', Nat.digitChar (n / 16), Nat.digitChar (n % 16)] := by
  have h1 : Printable [Nat.digitChar (n / 16)] := by
    simpa [Printable] using digitChar_printable (n / 16) (by omega)
  have h2 : Printable [Nat.digitChar (n % 16)] := by
    simpa [Printable] using digitChar_printable (n % 16) (by omega)
  exact (by decide : Printable ['\\', 'u', '0', '0']).append (h1.append h2)

theorem escape_printable (c : Char) : Printable (escape c) := by
  unfold escape
  split_ifs with h1 h2 h3 h4 h5 h6 h7 h8
  · decide
  · decide
  · decide
  · decide
  · decide
  · decide
  · decide
  · exact control_printable h8
  · simpa [Printable] using Nat.not_lt.1 h8

theorem quote_printable (s : String) : Printable (quote s) := by
  have hbody : ∀ cs : List Char, Printable (cs.flatMap escape) := fun cs c hc => by
    obtain ⟨d, -, hd⟩ := List.mem_flatMap.1 hc
    exact escape_printable d c hd
  exact .cons (by decide) ((hbody _).append (by decide))

mutual

/-- **The text of a value is one line.** -/
theorem stringify_printable : ∀ (j : Json) {t : List Char}, stringify j = some t → Printable t
  | .null, t, h => by cases h; decide
  | .bool b, t, h => by cases b <;> cases h <;> decide
  | .str s, t, h => by cases h; exact quote_printable s
  | .num x, t, h => by
    obtain ⟨k, -, hk⟩ := Option.bind_eq_some_iff.1 (h : numberText x = some t)
    split at hk
    · cases hk
      intro c hc
      have hdigit := (JsNumber.digit_ten (isDigit_toDigits hc)).2
      omega
    · cases hk
  | .arr [], t, h => by cases h; decide
  | .arr (j :: js), t, h => by
    rw [stringify] at h
    simp only [Option.bind_eq_bind, Option.bind_eq_some_iff] at h
    obtain ⟨x, hx, y, hy, h⟩ := h
    cases h
    exact .cons (by decide) ((stringify_printable j hx).append (elements_printable js hy))
  | .obj [], t, h => by cases h; decide
  | .obj ((k, j) :: fs), t, h => by
    rw [stringify] at h
    simp only [Option.bind_eq_bind, Option.bind_eq_some_iff] at h
    obtain ⟨x, hx, y, hy, h⟩ := h
    cases h
    have hpair : Printable (quote k ++ ':' :: x) :=
      (quote_printable k).append (.cons (by decide) (stringify_printable j hx))
    exact .cons (by decide) (hpair.append (members_printable fs hy))

theorem elements_printable : ∀ (js : List Json) {t : List Char},
    elementsText js = some t → Printable t
  | [], t, h => by cases h; decide
  | j :: js, t, h => by
    rw [elementsText] at h
    simp only [Option.bind_eq_bind, Option.bind_eq_some_iff] at h
    obtain ⟨x, hx, y, hy, h⟩ := h
    cases h
    exact .cons (by decide) ((stringify_printable j hx).append (elements_printable js hy))

theorem members_printable : ∀ (fs : List (String × Json)) {t : List Char},
    membersText fs = some t → Printable t
  | [], t, h => by cases h; decide
  | (k, j) :: fs, t, h => by
    rw [membersText] at h
    simp only [Option.bind_eq_bind, Option.bind_eq_some_iff] at h
    obtain ⟨x, hx, y, hy, h⟩ := h
    cases h
    have hpair : Printable (quote k ++ ':' :: x) :=
      (quote_printable k).append (.cons (by decide) (stringify_printable j hx))
    exact .cons (by decide) (hpair.append (members_printable fs hy))

end

end GlanceVault.L1.Js.JsonText
