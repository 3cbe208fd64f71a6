import Mathlib.Data.List.Basic
import GrpcGw.Text.Strings

/-!
# Percent-Coding of UTF-8 Text

Byte-level percent-decoding and percent-encoding, and the UTF-8 view of strings they act on.

`unescape` is the one-pass decoder: a `%` followed by two hexadecimal digits becomes one byte,
every other byte is copied. `escape` is the encoder that leaves the unreserved bytes alone.

- `unescape_escape`: decoding undoes encoding, for either case of the hexadecimal digits.
- `Reescaped.unescape_eq`: spelling unreserved characters as `%XX` does not change what the
  decoder reads, as long as no existing triplet is broken up.
-/

namespace GrpcGw.Text

/-! ## UTF-8 -/

/-- The UTF-8 bytes of a string. -/
def utf8 (s : String) : List UInt8 :=
  s.toList.flatMap String.utf8EncodeChar

/-- The string a byte sequence encodes, if it is valid UTF-8. -/
def fromUtf8 (bs : List UInt8) : Option String :=
  String.fromUTF8? bs.toByteArray

theorem toByteArray_utf8 (s : String) : (utf8 s).toByteArray = s.toByteArray := by
  rw [utf8, ← List.utf8Encode.eq_1, String.utf8Encode_toList]

theorem fromUtf8_utf8 (s : String) : fromUtf8 (utf8 s) = some s := by
  rw [fromUtf8, toByteArray_utf8, String.fromUTF8?, dif_pos s.isValidUTF8]
  rfl

@[simp] theorem utf8_append (s t : String) : utf8 (s ++ t) = utf8 s ++ utf8 t := by
  simp [utf8]

@[simp] theorem utf8_ofList_cons (c : Char) (cs : List Char) :
    utf8 (String.ofList (c :: cs)) = String.utf8EncodeChar c ++ utf8 (String.ofList cs) := by
  simp [utf8]

@[simp] theorem utf8_ofList_nil : utf8 (String.ofList []) = [] := by
  simp [utf8]

theorem utf8EncodeChar_ascii {c : Char} (h : c.toNat < 128) :
    String.utf8EncodeChar c = [UInt8.ofNat c.toNat] := by
  have hv : c.val.toNat ≤ 127 := by
    have : c.toNat = c.val.toNat := rfl
    omega
  simp only [String.utf8EncodeChar]
  rw [if_pos hv]
  rfl

/-- A character outside ASCII is spelled with bytes outside ASCII only. -/
theorem le_of_mem_utf8EncodeChar {c : Char} (h : 128 ≤ c.toNat) {b : UInt8}
    (hb : b ∈ String.utf8EncodeChar c) : 128 ≤ b.toNat := by
  have hv : ¬ c.val.toNat ≤ 127 := by
    have : c.toNat = c.val.toNat := rfl
    omega
  simp only [String.utf8EncodeChar, hv, if_false] at hb
  split at hb
  · simp only [List.mem_cons, List.not_mem_nil, or_false] at hb
    rcases hb with rfl | rfl <;> simp only [UInt8.toNat_ofNat'] <;> omega
  · split at hb
    · simp only [List.mem_cons, List.not_mem_nil, or_false] at hb
      rcases hb with rfl | rfl | rfl <;> simp only [UInt8.toNat_ofNat'] <;> omega
    · simp only [List.mem_cons, List.not_mem_nil, or_false] at hb
      rcases hb with rfl | rfl | rfl | rfl <;> simp only [UInt8.toNat_ofNat'] <;> omega

/-! ## Hexadecimal digits -/

/-- The byte of `%`. -/
def percent : UInt8 := 0x25

/-- The value of an ASCII hexadecimal digit of either case. -/
def hexDigit? (b : UInt8) : Option UInt8 :=
  if 0x30 ≤ b ∧ b ≤ 0x39 then some (b - 0x30)
  else if 0x41 ≤ b ∧ b ≤ 0x46 then some (b - 0x41 + 10)
  else if 0x61 ≤ b ∧ b ≤ 0x66 then some (b - 0x61 + 10)
  else none

/-- The case in which hexadecimal digits are written. -/
inductive HexCase where
  | upper
  | lower
  deriving DecidableEq, Repr

/-- The byte of a hexadecimal digit. -/
def HexCase.digit (hc : HexCase) (n : UInt8) : UInt8 :=
  if n < 10 then 0x30 + n
  else match hc with
    | .upper => 0x41 + (n - 10)
    | .lower => 0x61 + (n - 10)

theorem hexDigit?_digit (hc : HexCase) (n : Fin 16) :
    hexDigit? (hc.digit (UInt8.ofNat n)) = some (UInt8.ofNat n) := by
  cases hc <;> revert n <;> decide

/-- The two digits of a byte, read back. -/
theorem nibbles_eq (b : UInt8) :
    UInt8.ofNat (b.toNat / 16) * 16 + UInt8.ofNat (b.toNat % 16) = b := by
  apply UInt8.toNat_inj.mp
  have hb := b.toNat_lt
  simp only [UInt8.toNat_add, UInt8.toNat_mul, UInt8.toNat_ofNat', UInt8.reduceToNat]
  omega

/-- Only the character `%` is spelled with the byte `%`. -/
theorem ne_percent_of_mem_utf8EncodeChar {c : Char} (h : c ≠ '%') {b : UInt8}
    (hb : b ∈ String.utf8EncodeChar c) : b ≠ percent := by
  rintro rfl
  by_cases hlt : c.toNat < 128
  · rw [utf8EncodeChar_ascii hlt, List.mem_singleton] at hb
    have hnat : c.toNat = 37 := by
      have := congrArg UInt8.toNat hb
      simp only [percent, UInt8.toNat_ofNat', UInt8.reduceToNat] at this
      omega
    exact h (Char.toNat_inj.mp hnat)
  · exact absurd (le_of_mem_utf8EncodeChar (by omega) hb) (by decide)

/-! ## Decoding -/

/-- One-pass percent-decoding: `%XX` becomes the byte it spells, anything else is copied. -/
def unescape : List UInt8 → List UInt8
  | b :: h :: l :: rest =>
    if b = percent then
      match hexDigit? h, hexDigit? l with
      | some hi, some lo => (hi * 16 + lo) :: unescape rest
      -- a `%` without two digits stands for itself, and the scan goes on right behind it
      | _, _ => b :: unescape (h :: l :: rest)
    else b :: unescape (h :: l :: rest)
  | b :: rest => b :: unescape rest
  | [] => []

/-- Whether a byte sequence starts with a `%XX` triplet. -/
def startsTriplet : List UInt8 → Bool
  | b :: h :: l :: _ => b = percent && (hexDigit? h).isSome && (hexDigit? l).isSome
  | _ => false

@[simp] theorem unescape_nil : unescape [] = [] := rfl

theorem unescape_triplet {h l hi lo : UInt8} (hh : hexDigit? h = some hi)
    (hl : hexDigit? l = some lo) (rest : List UInt8) :
    unescape (percent :: h :: l :: rest) = (hi * 16 + lo) :: unescape rest := by
  simp [unescape, hh, hl]

theorem unescape_cons {b : UInt8} {rest : List UInt8} (h : startsTriplet (b :: rest) = false) :
    unescape (b :: rest) = b :: unescape rest := by
  match rest with
  | [] => rfl
  | [_] => rfl
  | x :: y :: r =>
    by_cases hb : b = percent
    · subst hb
      simp only [startsTriplet, decide_true, Bool.true_and, Bool.and_eq_false_iff,
        Option.isSome_eq_false_iff, Option.isNone_iff_eq_none] at h
      rcases h with h | h
      · simp [unescape, h]
      · cases hx : hexDigit? x <;> simp [unescape, h, hx]
    · simp [unescape, hb]

theorem startsTriplet_of_ne {b : UInt8} (h : b ≠ percent) (rest : List UInt8) :
    startsTriplet (b :: rest) = false := by
  match rest with
  | [] => rfl
  | [_] => rfl
  | _ :: _ :: _ => simp [startsTriplet, h]

theorem unescape_cons_of_ne {b : UInt8} (h : b ≠ percent) (rest : List UInt8) :
    unescape (b :: rest) = b :: unescape rest :=
  unescape_cons (startsTriplet_of_ne h rest)

/-- Bytes other than `%` are read as they stand. -/
theorem unescape_append_of_forall_ne (bs rest : List UInt8) (h : ∀ b ∈ bs, b ≠ percent) :
    unescape (bs ++ rest) = bs ++ unescape rest := by
  induction bs with
  | nil => rfl
  | cons b bs ih =>
    rw [List.cons_append, unescape_cons_of_ne (h b List.mem_cons_self),
      ih (fun x hx => h x (List.mem_cons_of_mem _ hx)), List.cons_append]

theorem unescape_eq_self {bs : List UInt8} (h : percent ∉ bs) : unescape bs = bs := by
  have := unescape_append_of_forall_ne bs [] (fun b hb hp => h (hp ▸ hb))
  simpa using this

/-! ## Encoding -/

/-- The bytes that need no escape: ASCII letters and digits, `-`, `.`, `_` and `~`. -/
def isUnreserved (b : UInt8) : Bool :=
  (0x41 ≤ b && b ≤ 0x5A) || (0x61 ≤ b && b ≤ 0x7A) || (0x30 ≤ b && b ≤ 0x39) ||
    b = 0x2D || b = 0x2E || b = 0x5F || b = 0x7E

/-- `%XX`. -/
def triplet (hc : HexCase) (b : UInt8) : List UInt8 :=
  [percent, hc.digit (UInt8.ofNat (b.toNat / 16)), hc.digit (UInt8.ofNat (b.toNat % 16))]

/-- Percent-encoding of one byte. -/
def escapeByte (hc : HexCase) (b : UInt8) : List UInt8 :=
  if isUnreserved b then [b] else triplet hc b

/-- Percent-encoding: every byte that is not unreserved becomes `%XX`. -/
def escape (hc : HexCase) (bs : List UInt8) : List UInt8 :=
  bs.flatMap (escapeByte hc)

theorem isUnreserved_ne_percent {b : UInt8} (h : isUnreserved b = true) : b ≠ percent := by
  rintro rfl
  exact absurd h (by decide)

theorem unescape_triplet_append (hc : HexCase) (b : UInt8) (rest : List UInt8) :
    unescape (triplet hc b ++ rest) = b :: unescape rest := by
  have hb := b.toNat_lt
  have hhi := hexDigit?_digit hc ⟨b.toNat / 16, by omega⟩
  have hlo := hexDigit?_digit hc ⟨b.toNat % 16, by omega⟩
  simp only [triplet, List.cons_append, List.nil_append]
  rw [unescape_triplet hhi hlo, nibbles_eq]

/-- Decoding undoes encoding, whatever follows. -/
theorem unescape_escape_append (hc : HexCase) (bs rest : List UInt8) :
    unescape (escape hc bs ++ rest) = bs ++ unescape rest := by
  induction bs with
  | nil => rfl
  | cons b bs ih =>
    rw [escape, List.flatMap_cons, List.append_assoc, ← escape, escapeByte]
    split
    · next hb =>
      rw [List.cons_append, List.nil_append, unescape_cons_of_ne (isUnreserved_ne_percent hb), ih,
        List.cons_append]
    · rw [unescape_triplet_append, ih, List.cons_append]

theorem unescape_escape (hc : HexCase) (bs : List UInt8) : unescape (escape hc bs) = bs := by
  have := unescape_escape_append hc bs []
  simpa using this

/-! ## Encoding strings -/

/-- Percent-encoding of a string, byte by byte of its UTF-8 form. -/
def percentEncode (hc : HexCase) (s : String) : String :=
  String.ofList ((escape hc (utf8 s)).map (fun b => Char.ofNat b.toNat))

theorem isUnreserved_digit (hc : HexCase) (n : Fin 16) :
    isUnreserved (hc.digit (UInt8.ofNat n)) = true := by
  cases hc <;> revert n <;> decide

/-- Encoded text consists of unreserved bytes and `%`. -/
theorem mem_escape {hc : HexCase} {bs : List UInt8} {b : UInt8} (h : b ∈ escape hc bs) :
    isUnreserved b = true ∨ b = percent := by
  obtain ⟨x, -, hb⟩ := List.mem_flatMap.mp h
  unfold escapeByte at hb
  split at hb
  · next hx =>
    rw [List.mem_singleton] at hb
    exact Or.inl (hb ▸ hx)
  · have hx := x.toNat_lt
    simp only [triplet, List.mem_cons, List.not_mem_nil, or_false] at hb
    rcases hb with rfl | rfl | rfl
    · exact Or.inr rfl
    · exact Or.inl (isUnreserved_digit hc ⟨x.toNat / 16, by omega⟩)
    · exact Or.inl (isUnreserved_digit hc ⟨x.toNat % 16, by omega⟩)

theorem isUnreserved_lt {b : UInt8} (h : isUnreserved b = true) : b.toNat < 128 := by
  simp only [isUnreserved, Bool.or_eq_true, Bool.and_eq_true, decide_eq_true_eq,
    UInt8.le_iff_toNat_le] at h
  rcases h with (((((h | h) | h) | h) | h) | h) | h
  · exact Nat.lt_of_le_of_lt h.2 (by decide)
  · exact Nat.lt_of_le_of_lt h.2 (by decide)
  · exact Nat.lt_of_le_of_lt h.2 (by decide)
  all_goals subst h; decide

theorem mem_escape_lt {hc : HexCase} {bs : List UInt8} {b : UInt8} (h : b ∈ escape hc bs) :
    b.toNat < 128 := by
  rcases mem_escape h with h | rfl
  · exact isUnreserved_lt h
  · decide

theorem toNat_ofNat_ascii {n : Nat} (h : n < 128) : (Char.ofNat n).toNat = n := by
  have hv : n.isValidChar := Or.inl (by omega)
  rw [Char.ofNat, dif_pos hv]
  rfl

theorem utf8_ascii (bs : List UInt8) (h : ∀ b ∈ bs, b.toNat < 128) :
    utf8 (String.ofList (bs.map (fun b => Char.ofNat b.toNat))) = bs := by
  induction bs with
  | nil => rfl
  | cons b bs ih =>
    have hb := h b List.mem_cons_self
    rw [List.map_cons, utf8_ofList_cons, ih (fun x hx => h x (List.mem_cons_of_mem _ hx)),
      utf8EncodeChar_ascii (by rw [toNat_ofNat_ascii hb]; exact hb), toNat_ofNat_ascii hb,
      UInt8.ofNat_toNat, List.singleton_append]

theorem utf8_percentEncode (hc : HexCase) (s : String) :
    utf8 (percentEncode hc s) = escape hc (utf8 s) :=
  utf8_ascii _ (fun _ hb => mem_escape_lt hb)

/-- A character that is neither unreserved nor `%` does not occur in encoded text. -/
theorem notMem_percentEncode {hc : HexCase} {s : String} {c : Char} (hlt : c.toNat < 128)
    (hun : isUnreserved (UInt8.ofNat c.toNat) = false) (hper : UInt8.ofNat c.toNat ≠ percent) :
    c ∉ (percentEncode hc s).toList := by
  intro hmem
  simp only [percentEncode, String.toList_ofList, List.mem_map] at hmem
  obtain ⟨b, hb, rfl⟩ := hmem
  rw [toNat_ofNat_ascii (mem_escape_lt hb), UInt8.ofNat_toNat] at hun hper
  rcases mem_escape hb with h | h
  · rw [h] at hun
    cases hun
  · exact hper h

/-! ## Spelling unreserved characters as triplets -/

/-- The value of a hexadecimal digit character. -/
def hexChar? (c : Char) : Option UInt8 :=
  if c.toNat < 128 then hexDigit? (UInt8.ofNat c.toNat) else none

/-- An ASCII letter, a digit, `-`, `.`, `_` or `~`. -/
def isUnreservedChar (c : Char) : Bool :=
  c.toNat < 128 && isUnreserved (UInt8.ofNat c.toNat)

/-- Whether a text starts with a `%XX` triplet. -/
def startsTripletChars : List Char → Bool
  | c :: h :: l :: _ => c = '%' && (hexChar? h).isSome && (hexChar? l).isSome
  | _ => false

/-- `Reescaped cs cs'`: `cs'` is `cs` with some unreserved characters that are not part of a
    `%XX` triplet replaced by the triplet that spells them. -/
inductive Reescaped : List Char → List Char → Prop where
  | nil : Reescaped [] []
  /-- An existing triplet stays as it is. -/
  | triplet {h l : Char} {r r' : List Char} (hh : (hexChar? h).isSome) (hl : (hexChar? l).isSome) :
      Reescaped r r' → Reescaped ('%' :: h :: l :: r) ('%' :: h :: l :: r')
  /-- Any other character may stay. -/
  | keep {c : Char} {r r' : List Char} (hc : startsTripletChars (c :: r) = false) :
      Reescaped r r' → Reescaped (c :: r) (c :: r')
  /-- An unreserved character may be spelled as a triplet, in either case of the digits. -/
  | escape {c h l : Char} {hi lo : UInt8} {r r' : List Char} (hc : isUnreservedChar c = true)
      (hh : hexChar? h = some hi) (hl : hexChar? l = some lo)
      (hv : (hi * 16 + lo).toNat = c.toNat) :
      Reescaped r r' → Reescaped (c :: r) ('%' :: h :: l :: r')

theorem hexChar?_spec {c : Char} {v : UInt8} (h : hexChar? c = some v) :
    c.toNat < 128 ∧ hexDigit? (UInt8.ofNat c.toNat) = some v := by
  unfold hexChar? at h
  split at h
  · next hlt => exact ⟨hlt, h⟩
  · cases h

theorem hexDigit?_lt {b v : UInt8} (h : hexDigit? b = some v) : b.toNat < 128 := by
  unfold hexDigit? at h
  split at h
  · next hb => exact Nat.lt_of_le_of_lt (UInt8.le_iff_toNat_le.mp hb.2) (by decide)
  · split at h
    · next hb => exact Nat.lt_of_le_of_lt (UInt8.le_iff_toNat_le.mp hb.2) (by decide)
    · split at h
      · next hb => exact Nat.lt_of_le_of_lt (UInt8.le_iff_toNat_le.mp hb.2) (by decide)
      · cases h

/-- The first byte of a text is a hexadecimal digit exactly when its first character is one. -/
theorem exists_utf8EncodeChar_cons (c : Char) :
    ∃ b bs, String.utf8EncodeChar c = b :: bs ∧ hexDigit? b = hexChar? c ∧
      (c.toNat < 128 → bs = []) := by
  by_cases hc : c.toNat < 128
  · exact ⟨_, [], utf8EncodeChar_ascii hc, by simp [hexChar?, hc], fun _ => rfl⟩
  · obtain ⟨b, bs, hbs⟩ := List.exists_cons_of_ne_nil (String.utf8EncodeChar_ne_nil (c := c))
    refine ⟨b, bs, hbs, ?_, fun h => absurd h hc⟩
    have hb : 128 ≤ b.toNat :=
      le_of_mem_utf8EncodeChar (by omega) (hbs ▸ List.mem_cons_self)
    cases hd : hexDigit? b with
    | none => simp [hexChar?, hc]
    | some v => exact absurd (hexDigit?_lt hd) (by omega)

theorem startsTriplet_utf8 (cs : List Char) :
    startsTriplet (percent :: utf8 (String.ofList cs)) = startsTripletChars ('%' :: cs) := by
  match cs with
  | [] => rfl
  | c :: rest =>
    obtain ⟨b, bs, hc, hb, hbs⟩ := exists_utf8EncodeChar_cons c
    rw [utf8_ofList_cons, hc]
    by_cases hlt : c.toNat < 128
    · rw [hbs hlt]
      match rest with
      | [] => rfl
      | d :: rest' =>
        obtain ⟨b', bs', hd, hb', -⟩ := exists_utf8EncodeChar_cons d
        rw [utf8_ofList_cons, hd]
        simp [startsTriplet, startsTripletChars, hb, hb']
    · -- a first character outside ASCII spells no hexadecimal digit
      have hnone : hexChar? c = none := by simp [hexChar?, hlt]
      rw [hnone] at hb
      have hleft : ∀ ys : List UInt8, startsTriplet (percent :: b :: ys) = false := by
        intro ys
        cases ys <;> simp [startsTriplet, hb]
      rw [List.cons_append, hleft]
      cases rest <;> simp [startsTripletChars, hnone]

/-- Respelling never builds a triplet behind a lone `%`. -/
theorem Reescaped.startsTriplet_false {r r' : List Char} (h : Reescaped r r')
    (hr : startsTripletChars ('%' :: r) = false) : startsTripletChars ('%' :: r') = false := by
  cases h with
  | nil => rfl
  | triplet hh hl h' => simp [startsTripletChars, show hexChar? '%' = none by decide]
  | escape hc hh hl hv h' => simp [startsTripletChars, show hexChar? '%' = none by decide]
  | @keep c s s' hc h' =>
    -- the first character behind the `%` stays, so the second one decides
    cases h' with
    | nil => rfl
    | triplet hh hl h'' => simp [startsTripletChars, show hexChar? '%' = none by decide]
    | escape hc hh hl hv h'' => simp [startsTripletChars, show hexChar? '%' = none by decide]
    | keep hd h'' => simpa [startsTripletChars] using hr

/-- **Decoding does not see how unreserved characters are spelled.** -/
theorem Reescaped.unescape_eq {cs cs' : List Char} (h : Reescaped cs cs') :
    unescape (utf8 (String.ofList cs)) = unescape (utf8 (String.ofList cs')) := by
  have hpercent : String.utf8EncodeChar '%' = [percent] := by decide
  induction h with
  | nil => rfl
  | @triplet h l r r' hh hl _ ih =>
    -- both sides start with the same triplet
    obtain ⟨hi, hhi⟩ := Option.isSome_iff_exists.mp hh
    obtain ⟨lo, hlo⟩ := Option.isSome_iff_exists.mp hl
    obtain ⟨hlt, hhi'⟩ := hexChar?_spec hhi
    obtain ⟨llt, hlo'⟩ := hexChar?_spec hlo
    simp only [utf8_ofList_cons, hpercent, utf8EncodeChar_ascii hlt, utf8EncodeChar_ascii llt,
      List.cons_append, List.nil_append]
    rw [unescape_triplet hhi' hlo', unescape_triplet hhi' hlo', ih]
  | @keep c r r' hc hr ih =>
    rw [utf8_ofList_cons, utf8_ofList_cons]
    by_cases hp : c = '%'
    · -- a lone `%` stays one: what follows it spells no two digits on either side
      subst hp
      rw [hpercent, List.singleton_append, List.singleton_append, unescape_cons, unescape_cons, ih]
      · rw [startsTriplet_utf8]
        exact hr.startsTriplet_false hc
      · rw [startsTriplet_utf8]
        exact hc
    · have hne : ∀ b ∈ String.utf8EncodeChar c, b ≠ percent :=
        fun _ hb => ne_percent_of_mem_utf8EncodeChar hp hb
      rw [unescape_append_of_forall_ne _ _ hne, unescape_append_of_forall_ne _ _ hne, ih]
  | @escape c h l hi lo r r' hc hh hl hv _ ih =>
    -- the triplet on the right reads as the byte of the character on the left
    obtain ⟨hlt, hhi'⟩ := hexChar?_spec hh
    obtain ⟨llt, hlo'⟩ := hexChar?_spec hl
    simp only [isUnreservedChar, Bool.and_eq_true, decide_eq_true_eq] at hc
    simp only [utf8_ofList_cons, hpercent, utf8EncodeChar_ascii hlt, utf8EncodeChar_ascii llt,
      utf8EncodeChar_ascii hc.1, List.cons_append, List.nil_append]
    rw [unescape_triplet hhi' hlo', unescape_cons_of_ne (isUnreserved_ne_percent hc.2), ih, ← hv,
      UInt8.ofNat_toNat]

/-! ### Separators -/

/-- A character that has no part in percent-encoding. -/
structure IsSeparator (c : Char) : Prop where
  ne_percent : c ≠ '%'
  not_hex : hexChar? c = none
  not_unreserved : isUnreservedChar c = false

theorem startsTripletChars_append {cs : List Char} (rest : List Char)
    (h : startsTripletChars (cs ++ rest) = false) : startsTripletChars cs = false := by
  match cs with
  | [] => rfl
  | [_] => rfl
  | [_, _] => rfl
  | _ :: _ :: _ :: _ => exact h

/-- Respelling does not produce a separator. -/
theorem Reescaped.notMem {sep : Char} (hsep : IsSeparator sep) {cs cs' : List Char}
    (h : Reescaped cs cs') (hmem : sep ∉ cs) : sep ∉ cs' := by
  -- a triplet consists of `%` and of digits
  have hne : ∀ x, (hexChar? x).isSome → sep ≠ x := by
    rintro x hx rfl
    rw [hsep.not_hex] at hx
    cases hx
  induction h with
  | nil => exact hmem
  | triplet hh hl _ ih =>
    simp only [List.mem_cons, not_or] at hmem ⊢
    exact ⟨hmem.1, hmem.2.1, hmem.2.2.1, ih hmem.2.2.2⟩
  | keep _ _ ih =>
    simp only [List.mem_cons, not_or] at hmem ⊢
    exact ⟨hmem.1, ih hmem.2⟩
  | escape _ hh hl _ _ ih =>
    simp only [List.mem_cons, not_or] at hmem ⊢
    exact ⟨hsep.ne_percent, hne _ (by simp [hh]), hne _ (by simp [hl]), ih hmem.2⟩

/-- Respelling works on the parts in front of and behind a separator. -/
theorem Reescaped.append_cons {sep : Char} (hsep : IsSeparator sep) :
    ∀ {a b cs' : List Char}, Reescaped (a ++ sep :: b) cs' →
      ∃ a' b', cs' = a' ++ sep :: b' ∧ Reescaped a a' ∧ Reescaped b b'
  | [], b, cs', h => by
    cases h with
    | triplet hh hl h' => exact absurd rfl hsep.ne_percent
    | keep hc h' => exact ⟨[], _, rfl, .nil, h'⟩
    | escape hc hh hl hv h' =>
      rw [hsep.not_unreserved] at hc
      cases hc
  | x :: a, b, cs', h => by
    generalize hcs : x :: a ++ sep :: b = cs at h
    cases h with
    | nil => cases hcs
    | @keep c r r' hc h' =>
      obtain ⟨rfl, rfl⟩ := List.cons.inj hcs
      obtain ⟨a', b', rfl, ha, hb⟩ := h'.append_cons hsep
      exact ⟨x :: a', b', rfl, .keep (startsTripletChars_append _ hc) ha, hb⟩
    | @escape c h l hi lo r r' hc hh hl hv h' =>
      obtain ⟨rfl, rfl⟩ := List.cons.inj hcs
      obtain ⟨a', b', rfl, ha, hb⟩ := h'.append_cons hsep
      exact ⟨'%' :: h :: l :: a', b', rfl, .escape hc hh hl hv ha, hb⟩
    | @triplet h l r r' hh hl h' =>
      -- a separator is not a digit, so the triplet lies in front of it
      cases a with
      | nil =>
        simp only [List.cons_append, List.nil_append, List.cons.injEq] at hcs
        obtain ⟨rfl, rfl, -⟩ := hcs
        rw [hsep.not_hex] at hh
        cases hh
      | cons y a =>
        cases a with
        | nil =>
          simp only [List.cons_append, List.nil_append, List.cons.injEq] at hcs
          obtain ⟨rfl, rfl, rfl, -⟩ := hcs
          rw [hsep.not_hex] at hl
          cases hl
        | cons z a =>
          simp only [List.cons_append, List.cons.injEq] at hcs
          obtain ⟨rfl, rfl, rfl, rfl⟩ := hcs
          obtain ⟨a', b', rfl, ha, hb⟩ := h'.append_cons hsep
          exact ⟨'%' :: y :: z :: a', b', rfl, .triplet hh hl ha, hb⟩

/-- Respelling works on the pieces between separators. -/
theorem Reescaped.splitOn {sep : Char} (hsep : IsSeparator sep) {cs cs' : List Char}
    (h : Reescaped cs cs') : List.Forall₂ Reescaped (cs.splitOn sep) (cs'.splitOn sep) := by
  induction cs using splitOn_induction (c := sep) generalizing cs' with
  | last cs hcs =>
    rw [List.splitOn_eq_singleton hcs, List.splitOn_eq_singleton (h.notMem hsep hcs)]
    exact .cons h .nil
  | piece a b ha ih =>
    -- the first separator is in the same place on both sides
    obtain ⟨a', b', rfl, haa, hbb⟩ := h.append_cons hsep
    rw [List.splitOn_append_cons_self_of_not_mem ha,
      List.splitOn_append_cons_self_of_not_mem (haa.notMem hsep ha)]
    exact .cons haa (ih hbb)

end GrpcGw.Text
