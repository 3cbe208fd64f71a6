import GrpcGw.Text.Percent

/-!
# Form Encoding

The spellings of a byte string in an `application/x-www-form-urlencoded` text, and how a decoder
that first turns every `+` into a space reads them back.

- `FormEncoded`: the spellings.
- `FormEncoded.unescape_eq`: decoding undoes encoding.
- `FormEncoded.notMem`: the separators of a form do not occur in encoded text.
- `formEncoded_percentEncode`: every string has a spelling.
-/

namespace GrpcGw.Text

/-- `FormEncoded bs cs`: the text `cs` spells the bytes `bs`. Every byte may be written as a
    triplet, an unreserved one also as itself and a space as `+`. -/
inductive FormEncoded : List UInt8 → List Char → Prop where
  | nil : FormEncoded [] []
  | plain {b : UInt8} {bs : List UInt8} {cs : List Char} (hb : isUnreserved b = true) :
      FormEncoded bs cs → FormEncoded (b :: bs) (Char.ofNat b.toNat :: cs)
  | plus {bs : List UInt8} {cs : List Char} :
      FormEncoded bs cs → FormEncoded (0x20 :: bs) ('+' :: cs)
  /-- `%XX`, each digit in either case. -/
  | triplet {h l : Char} {hi lo : UInt8} {bs : List UInt8} {cs : List Char}
      (hh : hexChar? h = some hi) (hl : hexChar? l = some lo) :
      FormEncoded bs cs → FormEncoded ((hi * 16 + lo) :: bs) ('%' :: h :: l :: cs)

/-- What a `+` is read as. -/
def plusToSpace (c : Char) : Char :=
  if c = '+' then ' ' else c

theorem plusToSpace_of_ne {c : Char} (h : c ≠ '+') : plusToSpace c = c :=
  if_neg h

theorem hexChar?_ne_plus {c : Char} {v : UInt8} (h : hexChar? c = some v) : c ≠ '+' := by
  rintro rfl
  rw [show hexChar? '+' = none by decide] at h
  cases h

/-- The character of an unreserved byte. -/
theorem isUnreservedChar_ofNat {b : UInt8} (h : isUnreserved b = true) :
    isUnreservedChar (Char.ofNat b.toNat) = true := by
  have hlt := isUnreserved_lt h
  rw [isUnreservedChar, toNat_ofNat_ascii hlt, UInt8.ofNat_toNat, h, Bool.and_true,
    decide_eq_true_eq]
  exact hlt

/-- **Decoding undoes form encoding.** -/
theorem FormEncoded.unescape_eq {bs : List UInt8} {cs : List Char} (h : FormEncoded bs cs) :
    unescape (utf8 (String.ofList (cs.map plusToSpace))) = bs := by
  have hpercent : String.utf8EncodeChar '%' = [percent] := by decide
  have hspace : String.utf8EncodeChar ' ' = [0x20] := by decide
  induction h with
  | nil => rfl
  | @plain b bs cs hb _ ih =>
    have hlt := isUnreserved_lt hb
    have hne : Char.ofNat b.toNat ≠ '+' := by
      intro heq
      have hun := isUnreservedChar_ofNat hb
      rw [heq] at hun
      exact absurd hun (by decide)
    rw [List.map_cons, plusToSpace_of_ne hne, utf8_ofList_cons,
      utf8EncodeChar_ascii (by rw [toNat_ofNat_ascii hlt]; exact hlt), toNat_ofNat_ascii hlt,
      UInt8.ofNat_toNat, List.singleton_append,
      unescape_cons_of_ne (isUnreserved_ne_percent hb), ih]
  | plus _ ih =>
    rw [List.map_cons, plusToSpace, if_pos rfl, utf8_ofList_cons, hspace, List.singleton_append,
      unescape_cons_of_ne (by decide), ih]
  | @triplet h l hi lo bs cs hh hl _ ih =>
    -- the digits are no `+`, so the triplet is read as it stands
    obtain ⟨hlt, hhi⟩ := hexChar?_spec hh
    obtain ⟨llt, hlo⟩ := hexChar?_spec hl
    simp only [List.map_cons, plusToSpace_of_ne (hexChar?_ne_plus hh),
      plusToSpace_of_ne (hexChar?_ne_plus hl), plusToSpace_of_ne (show '%' ≠ '+' by decide),
      utf8_ofList_cons, hpercent, utf8EncodeChar_ascii hlt, utf8EncodeChar_ascii llt,
      List.cons_append, List.nil_append]
    rw [unescape_triplet hhi hlo, ih]

/-- A separator does not occur in encoded text. -/
theorem FormEncoded.notMem {sep : Char} (hsep : IsSeparator sep) (hplus : sep ≠ '+')
    {bs : List UInt8} {cs : List Char} (h : FormEncoded bs cs) : sep ∉ cs := by
  induction h with
  | nil => simp
  | @plain b bs cs hb _ ih =>
    -- no separator is unreserved
    have hne : sep ≠ Char.ofNat b.toNat := by
      rintro rfl
      have hun := isUnreservedChar_ofNat hb
      rw [hsep.not_unreserved] at hun
      cases hun
    simp [hne, ih]
  | plus _ ih => simp [hplus, ih]
  | @triplet h l hi lo bs cs hh hl _ ih =>
    have hne : ∀ {x : Char} {v : UInt8}, hexChar? x = some v → sep ≠ x := by
      rintro x v hx rfl
      rw [hsep.not_hex] at hx
      cases hx
    simp [hsep.ne_percent, hne hh, hne hl, ih]

/-! ## Percent-encoded text -/

theorem hexChar?_digit (hc : HexCase) (n : Fin 16) :
    hexChar? (Char.ofNat (hc.digit (UInt8.ofNat n)).toNat) = some (UInt8.ofNat n) := by
  have hlt := isUnreserved_lt (isUnreserved_digit hc n)
  rw [hexChar?, toNat_ofNat_ascii hlt, if_pos hlt, UInt8.ofNat_toNat, hexDigit?_digit]

/-- Percent-encoding is a form encoding. -/
theorem formEncoded_escape (hc : HexCase) (bs : List UInt8) :
    FormEncoded bs ((escape hc bs).map fun b => Char.ofNat b.toNat) := by
  induction bs with
  | nil => exact .nil
  | cons b bs ih =>
    rw [escape, List.flatMap_cons, ← escape, List.map_append, escapeByte]
    split
    · next hb => exact .plain hb ih
    · have hb := b.toNat_lt
      have htriplet := FormEncoded.triplet (hexChar?_digit hc ⟨b.toNat / 16, by omega⟩)
        (hexChar?_digit hc ⟨b.toNat % 16, by omega⟩) ih
      rw [nibbles_eq] at htriplet
      exact htriplet

theorem formEncoded_percentEncode (hc : HexCase) (s : String) :
    FormEncoded (utf8 s) (percentEncode hc s).toList := by
  rw [percentEncode, String.toList_ofList]
  exact formEncoded_escape hc (utf8 s)

/-! ## Strings -/

/-- The UTF-8 bytes determine a string. -/
theorem utf8_injective {s t : String} (h : utf8 s = utf8 t) : s = t := by
  have hs := fromUtf8_utf8 s
  rw [h, fromUtf8_utf8] at hs
  exact (Option.some.inj hs).symm

/-- Text without `%` has no byte `%`. -/
theorem percent_notMem_utf8 {s : String} (h : '%' ∉ s.toList) : percent ∉ utf8 s := by
  intro hmem
  obtain ⟨c, hc, hb⟩ := List.mem_flatMap.mp hmem
  have hne : c ≠ '%' := fun heq => h (heq ▸ hc)
  exact ne_percent_of_mem_utf8EncodeChar hne hb rfl

end GrpcGw.Text
