import GrpcGw.Text.Number
import Mathlib.Algebra.Order.Archimedean.Basic
import Mathlib.Data.Int.Log
import Mathlib.Tactic.Ring

/-!
# Writing Numbers

A number of a binary format is a whole number of halves of halves, so it has a decimal that is
exact, and an exact decimal is read back as the number it was written for.

- `FloatFormat.ofQuotient_units`: a quotient that is a number of a format reads as that number.
- `FloatFormat.exists_parse_iff`: the numbers of a format that a text can stand for.
-/

namespace GrpcGw.Text

/-! ## Quotients -/

section Quotient

variable {n d : Nat}

theorem mul_two_pow_le_iff (hd : 0 < d) (k : Int) :
    d * 2 ^ k.toNat ≤ n * 2 ^ (-k).toNat ↔ (2 : ℚ) ^ k ≤ n / d := by
  have hd' : (0 : ℚ) < d := by exact_mod_cast hd
  obtain ⟨a, rfl | rfl⟩ := k.eq_nat_or_neg
  · have hnat : (-(a : Int)).toNat = 0 := by omega
    rw [le_div_iff₀ hd', zpow_natCast, Int.toNat_natCast, hnat, pow_zero, mul_one, mul_comm]
    exact_mod_cast Iff.rfl
  · have hnat : (-(a : Int)).toNat = 0 := by omega
    have hpow : (0 : ℚ) < 2 ^ a := by positivity
    rw [neg_neg, Int.toNat_natCast, hnat, pow_zero, mul_one, zpow_neg, zpow_natCast,
      le_div_iff₀ hd', inv_mul_le_iff₀ hpow, mul_comm]
    exact_mod_cast Iff.rfl

theorem two_pow_log2_le {n : Nat} (hn : 0 < n) : (2 : ℚ) ^ n.log2 ≤ n := by
  exact_mod_cast Nat.log2_self_le hn.ne'

theorem lt_two_pow_log2 (n : Nat) : (n : ℚ) < 2 ^ (n.log2 + 1) := by
  exact_mod_cast Nat.lt_log2_self

/-- The binary exponent is the logarithm, rounded down. -/
theorem floorLog2_eq (hn : 0 < n) (hd : 0 < d) : floorLog2 n d = Int.log 2 ((n : ℚ) / d) := by
  have hn' : (0 : ℚ) < n := by exact_mod_cast hn
  have hd' : (0 : ℚ) < d := by exact_mod_cast hd
  have hpos : (0 : ℚ) < n / d := by positivity
  have htwo : (2 : ℚ) ≠ 0 := by norm_num
  obtain ⟨k, hk⟩ : ∃ k : Int, k = (n.log2 : Int) - d.log2 := ⟨_, rfl⟩
  -- the quotient lies between the powers next to the difference of the logarithms
  have hupper : (n : ℚ) / d < 2 ^ (k + 1) := by
    rw [div_lt_iff₀ hd']
    calc (n : ℚ) < 2 ^ (n.log2 + 1) := lt_two_pow_log2 n
      _ = 2 ^ (k + 1) * 2 ^ d.log2 := by
          rw [← zpow_natCast, ← zpow_natCast, ← zpow_add₀ htwo, hk]
          congr 1
          push_cast
          ring
      _ ≤ 2 ^ (k + 1) * d :=
          mul_le_mul_of_nonneg_left (two_pow_log2_le hd) (zpow_nonneg (by norm_num) _)
  have hlower : (2 : ℚ) ^ (k - 1) ≤ n / d := by
    rw [le_div_iff₀ hd']
    calc (2 : ℚ) ^ (k - 1) * d
        ≤ 2 ^ (k - 1) * 2 ^ (d.log2 + 1) :=
          mul_le_mul_of_nonneg_left (lt_two_pow_log2 d).le (zpow_nonneg (by norm_num) _)
      _ = 2 ^ n.log2 := by
          rw [← zpow_natCast, ← zpow_natCast, ← zpow_add₀ htwo, hk]
          congr 1
          push_cast
          ring
      _ ≤ n := two_pow_log2_le hn
  have hle : ∀ z : Int, (2 : ℚ) ^ z ≤ n / d ↔ z ≤ Int.log 2 ((n : ℚ) / d) := fun z => by
    simpa using Int.zpow_le_iff_le_log (x := z) one_lt_two hpos
  rw [floorLog2, ← hk]
  split
  · next htest =>
    rw [mul_two_pow_le_iff hd] at htest
    apply le_antisymm
    · exact (hle k).mp htest
    · have hlog := mt (hle (k + 1)).mpr (not_le.mpr hupper)
      omega
  · next htest =>
    rw [mul_two_pow_le_iff hd] at htest
    apply le_antisymm
    · exact (hle (k - 1)).mp hlower
    · have hlog := mt (hle k).mpr htest
      omega

/-- A quotient that is exact is not rounded. -/
theorem roundHalfEven_mul (s : Nat) (hd : 0 < d) : roundHalfEven (s * d) d = s := by
  simp [roundHalfEven, Nat.mul_div_cancel _ hd, hd]

/-- The exponent of a number in units of a power of two. -/
theorem floorLog2_units {units c : Nat} (hunits : 0 < units) (hc : 0 < c) (k : Nat) :
    floorLog2 (units * c) (2 ^ k * c) = (units.log2 : Int) - k := by
  have hc' : (c : ℚ) ≠ 0 := by exact_mod_cast hc.ne'
  have hpos : (0 : ℚ) < units / 2 ^ k := by positivity
  have hquotient : ((units * c : Nat) : ℚ) / ((2 ^ k * c : Nat) : ℚ) = units / 2 ^ k := by
    push_cast
    rw [mul_div_mul_right _ _ hc']
  have hle : ∀ z : Int, (2 : ℚ) ^ z ≤ units / 2 ^ k ↔ z ≤ Int.log 2 ((units : ℚ) / 2 ^ k) :=
    fun z => by simpa using Int.zpow_le_iff_le_log (x := z) one_lt_two hpos
  have htwo : (2 : ℚ) ≠ 0 := by norm_num
  have hscaled : ∀ a : Nat, (2 : ℚ) ^ ((a : Int) - k) ≤ units / 2 ^ k ↔ 2 ^ a ≤ units := by
    intro a
    rw [zpow_sub₀ htwo, zpow_natCast, zpow_natCast, div_le_div_iff_of_pos_right (by positivity)]
    exact_mod_cast Iff.rfl
  rw [floorLog2_eq (by positivity) (by positivity), hquotient]
  apply le_antisymm
  · have hlog := mt (hle ((units.log2 + 1 : Nat) - k)).mpr
      (mt (hscaled _).mp (not_le.mpr Nat.lt_log2_self))
    push_cast at hlog
    omega
  · exact (hle _).mp ((hscaled _).mpr (Nat.log2_self_le hunits.ne'))

end Quotient

/-! ## Formats -/

namespace FloatFormat

/-- What the formats of the language have in common. -/
structure Sane (fmt : FloatFormat) : Prop where
  precision_pos : 0 < fmt.precision
  minExponent_le : fmt.minExponent ≤ 0
  infinity_lt : fmt.infinity < fmt.nan
  nan_lt : fmt.nan < fmt.signBit

theorem sane_binary32 : binary32.Sane := by
  constructor <;> decide

theorem sane_binary64 : binary64.Sane := by
  constructor <;> decide

variable (fmt : FloatFormat)

/-- A finite number without its sign, in units of the smallest positive number. -/
def units (magnitude : Nat) : Nat :=
  let exponent := magnitude / 2 ^ (fmt.precision - 1)
  let fraction := magnitude % 2 ^ (fmt.precision - 1)
  if exponent = 0 then fraction
  else (2 ^ (fmt.precision - 1) + fraction) * 2 ^ (exponent - 1)

variable {fmt}

theorem log2_eq {n a : Nat} (hlo : 2 ^ a ≤ n) (hhi : n < 2 ^ (a + 1)) : n.log2 = a := by
  have hn : n ≠ 0 := by
    have hpos : 0 < 2 ^ a := by positivity
    omega
  apply le_antisymm
  · exact Nat.lt_succ_iff.mp ((Nat.log2_lt hn).mpr hhi)
  · exact (Nat.le_log2 hn).mpr hlo

/-- A quotient that is a whole number of units of its last place is not rounded. -/
theorem ofQuotient_exact {k p s j c : Nat} (hk : fmt.minExponent = -(k : Int))
    (hp : fmt.precision = p + 1) (hs : 0 < s) (hc : 0 < c)
    (hulp : max (((s * 2 ^ j).log2 : Int) - k - p) (-(k : Int)) = j - k) :
    fmt.ofQuotient (s * 2 ^ j * c) (2 ^ k * c) = min (j * 2 ^ p + s) fmt.infinity := by
  have hunits : 0 < s * 2 ^ j := by positivity
  have hn : s * 2 ^ j * c ≠ 0 := by positivity
  have hexact : s * 2 ^ j * c * 2 ^ (-((j : Int) - k)).toNat =
      s * (2 ^ k * c * 2 ^ ((j : Int) - k).toNat) := by
    rcases le_total k j with hle | hle
    · have hneg : (-((j : Int) - k)).toNat = 0 := by omega
      have hnat : ((j : Int) - k).toNat = j - k := by omega
      have hpow : 2 ^ k * 2 ^ (j - k) = 2 ^ j := by rw [← pow_add, Nat.add_sub_cancel' hle]
      rw [hneg, hnat, pow_zero, mul_one, ← hpow]
      ring
    · have hneg : (-((j : Int) - k)).toNat = k - j := by omega
      have hnat : ((j : Int) - k).toNat = 0 := by omega
      have hpow : 2 ^ j * 2 ^ (k - j) = 2 ^ k := by rw [← pow_add, Nat.add_sub_cancel' hle]
      rw [hneg, hnat, pow_zero, mul_one, ← hpow]
      ring
  have hd : 0 < 2 ^ k * c * 2 ^ ((j : Int) - k).toNat := by positivity
  have hprecision : ((p + 1 : Nat) : Int) - 1 = p := by omega
  have hoffset : ((j : Int) - k - -(k : Int)).toNat = j := by omega
  rw [ofQuotient, if_neg hn]
  simp only [hp, floorLog2_units hunits hc, hk, hprecision, hulp, hexact, roundHalfEven_mul s hd,
    hoffset, Nat.add_sub_cancel]

/-- **A quotient that is a number of the format** reads as that number. -/
theorem ofQuotient_units (h : fmt.Sane) {m c : Nat} (hm : m < fmt.infinity) (hc : 0 < c) :
    fmt.ofQuotient (fmt.units m * c) (2 ^ (-fmt.minExponent).toNat * c) = m := by
  have hprecision := h.precision_pos
  have hexponent := h.minExponent_le
  obtain ⟨k, hk⟩ : ∃ k : Nat, fmt.minExponent = -(k : Int) := ⟨fmt.minExponent.natAbs, by omega⟩
  obtain ⟨p, hp⟩ : ∃ p : Nat, fmt.precision = p + 1 := ⟨fmt.precision - 1, by omega⟩
  have hnat : (-fmt.minExponent).toNat = k := by omega
  have hdiv := Nat.div_add_mod m (2 ^ p)
  have hmod : m % 2 ^ p < 2 ^ p := Nat.mod_lt m (by positivity)
  rw [hnat, units, hp, Nat.add_sub_cancel]
  by_cases he : m / 2 ^ p = 0
  · rw [if_pos he]
    have hm' : m % 2 ^ p = m := by simpa [he] using hdiv
    rw [hm'] at hmod ⊢
    rcases Nat.eq_zero_or_pos m with rfl | hpos
    · simp [ofQuotient]
    · -- a subnormal number is a number of the smallest units
      have hlog : m.log2 < p := (Nat.log2_lt hpos.ne').mpr hmod
      have hulp : max (((m * 2 ^ 0).log2 : Int) - k - p) (-(k : Int)) = (0 : Nat) - k := by
        rw [pow_zero, mul_one]
        omega
      have hexact := ofQuotient_exact hk hp hpos hc hulp
      rw [pow_zero, mul_one, zero_mul, zero_add] at hexact
      rw [hexact, min_eq_left hm.le]
  · rw [if_neg he]
    obtain ⟨j, hj⟩ := Nat.exists_eq_succ_of_ne_zero he
    have hpos : 0 < 2 ^ p + m % 2 ^ p := by positivity
    have hlog : ((2 ^ p + m % 2 ^ p) * 2 ^ j).log2 = p + j := by
      apply log2_eq
      · rw [pow_add]
        gcongr
        omega
      · rw [show p + j + 1 = p + 1 + j by omega, pow_add, pow_succ]
        gcongr
        omega
    have hsum : j * 2 ^ p + (2 ^ p + m % 2 ^ p) = m := by
      rw [hj, Nat.succ_eq_add_one] at hdiv
      calc j * 2 ^ p + (2 ^ p + m % 2 ^ p) = 2 ^ p * (j + 1) + m % 2 ^ p := by ring
        _ = m := hdiv
    rw [hj, Nat.succ_sub_one, ofQuotient_exact hk hp hpos hc (by rw [hlog]; push_cast; omega), hsum,
      min_eq_left hm.le]

end FloatFormat

/-! ## Texts -/

theorem toLower_of_isDigit {c : Char} (h : c.isDigit = true) : c.toLower = c := by
  have hrange : '0'.val ≤ c.val ∧ c.val ≤ '9'.val := by simpa [Char.isDigit] using h
  apply dif_neg
  intro hupper
  exact absurd (UInt32.le_trans hupper.1 hrange.2) (by decide)

theorem isDigit_of_mem_toDigits {n : Nat} {c : Char} (h : c ∈ Nat.toDigits 10 n) :
    c.isDigit = true :=
  Nat.isDigit_of_mem_toDigits (by decide) (by decide) h

theorem takeWhile_toDigits {n : Nat} {c : Char} (hc : c.isDigit = false) (cs : List Char) :
    (Nat.toDigits 10 n ++ c :: cs).takeWhile Char.isDigit = Nat.toDigits 10 n := by
  rw [List.takeWhile_append_of_pos fun _ => isDigit_of_mem_toDigits,
    List.takeWhile_cons_of_neg (by simp [hc]), List.append_nil]

theorem dropWhile_toDigits {n : Nat} {c : Char} (hc : c.isDigit = false) (cs : List Char) :
    (Nat.toDigits 10 n ++ c :: cs).dropWhile Char.isDigit = c :: cs := by
  rw [List.dropWhile_append_of_pos fun _ => isDigit_of_mem_toDigits,
    List.dropWhile_cons_of_neg (by simp [hc])]

theorem natOfDigits_toDigits (n : Nat) : natOfDigits (Nat.toDigits 10 n) = n := by
  rw [natOfDigits, ← Nat.ofDigitChars_eq_foldl, Nat.ofDigitChars_ten_toDigits]

/-- **A natural number within the range of a type is read back from its decimal.** -/
theorem parseUnsigned_repr {width n : Nat} (h : n < 2 ^ width) :
    parseUnsigned width n.repr = some n := by
  unfold parseUnsigned
  rw [Nat.toList_repr]
  split
  · next cs hcs =>
    have hplus : '+'.isDigit = true := isDigit_of_mem_toDigits (hcs ▸ List.mem_cons_self)
    cases hplus
  · simp [parseDigits_toDigits, h]

namespace FloatFormat

variable (fmt : FloatFormat)

/-- The decimal of a finite number without its sign. -/
def decimal (magnitude : Nat) : List Char :=
  Nat.toDigits 10 (fmt.units magnitude * 5 ^ (-fmt.minExponent).toNat) ++
    'e' :: '-' :: Nat.toDigits 10 (-fmt.minExponent).toNat

/-- The text of a number without its sign. -/
def magnitudeText (magnitude : Nat) : List Char :=
  if magnitude = fmt.infinity then "inf".toList
  else if magnitude = fmt.nan then "nan".toList
  else fmt.decimal magnitude

/-- The text of a number. -/
def text (bits : Nat) : String :=
  String.ofList (if bits < fmt.signBit then fmt.magnitudeText bits
    else '-' :: fmt.magnitudeText (bits - fmt.signBit))

variable {fmt}

/-- A text that begins with a digit is no word. -/
theorem parseMagnitude_of_isDigit {c : Char} (hc : c.isDigit = true) (cs : List Char) :
    String.ofList ((c :: cs).map Char.toLower) ≠ "inf" ∧
      String.ofList ((c :: cs).map Char.toLower) ≠ "infinity" ∧
      String.ofList ((c :: cs).map Char.toLower) ≠ "nan" := by
  have hhead : ∀ (d : Char) (ds : List Char), d.isDigit = false →
      String.ofList ((c :: cs).map Char.toLower) ≠ String.ofList (d :: ds) := by
    intro d ds hd heq
    have hlist := congrArg String.toList heq
    simp only [List.map_cons, String.toList_ofList, List.cons.injEq, toLower_of_isDigit hc] at hlist
    rw [hlist.1, hd] at hc
    cases hc
  exact ⟨hhead 'i' ['n', 'f'] rfl, hhead 'i' ['n', 'f', 'i', 'n', 'i', 't', 'y'] rfl,
    hhead 'n' ['a', 'n'] rfl⟩

/-- **A finite number is read back from its decimal.** -/
theorem parseMagnitude_decimal (h : fmt.Sane) {m : Nat} (hm : m < fmt.infinity) :
    fmt.parseMagnitude (fmt.decimal m) = some m := by
  obtain ⟨k, hk⟩ : ∃ k, k = (-fmt.minExponent).toNat := ⟨_, rfl⟩
  obtain ⟨c, cs, hdigits⟩ := List.exists_cons_of_ne_nil
    (Nat.toDigits_ne_nil (b := 10) (n := fmt.units m * 5 ^ k))
  have hc : c.isDigit = true := isDigit_of_mem_toDigits (hdigits ▸ List.mem_cons_self)
  have hlist : fmt.decimal m = c :: (cs ++ 'e' :: '-' :: Nat.toDigits 10 k) := by
    rw [decimal, ← hk, hdigits, List.cons_append]
  have hexponent : parseExponent ('e' :: '-' :: Nat.toDigits 10 k) = some (-(k : Int)) := by
    simp [parseExponent, parseDigits_toDigits]
  -- no word, and the point is missing
  obtain ⟨hinf, hinfinity, hnan⟩ := parseMagnitude_of_isDigit hc (cs ++ _)
  have hdecimal : fmt.decimal m =
      Nat.toDigits 10 (fmt.units m * 5 ^ k) ++ 'e' :: '-' :: Nat.toDigits 10 k := by
    rw [decimal, ← hk]
  have hword : ¬(String.ofList ((fmt.decimal m).map Char.toLower) = "inf" ∨
      String.ofList ((fmt.decimal m).map Char.toLower) = "infinity") := by
    rw [hlist]
    exact not_or.mpr ⟨hinf, hinfinity⟩
  have hword' : String.ofList ((fmt.decimal m).map Char.toLower) ≠ "nan" := by
    rw [hlist]
    exact hnan
  have hvalue : fmt.ofDecimal (fmt.units m * 5 ^ k) (-(k : Int)) = m := by
    have hquotient := ofQuotient_units h hm (c := 5 ^ k) (by positivity)
    rw [← hk, ← mul_pow] at hquotient
    simpa [ofDecimal] using hquotient
  rw [parseMagnitude]
  simp only [if_neg hword, if_neg hword']
  rw [hdecimal, takeWhile_toDigits rfl, dropWhile_toDigits rfl]
  simp [hexponent, natOfDigits_toDigits, hvalue, Nat.toDigits_ne_nil]

/-- A number without its sign that a text can stand for: it is finite or infinite, or it is the one
    that stands for all that are not a number. -/
def Readable (fmt : FloatFormat) (magnitude : Nat) : Prop :=
  magnitude ≤ fmt.infinity ∨ magnitude = fmt.nan

instance (magnitude : Nat) : Decidable (fmt.Readable magnitude) :=
  inferInstanceAs (Decidable (_ ∨ _))

theorem parseMagnitude_magnitudeText (h : fmt.Sane) {m : Nat} (hm : fmt.Readable m) :
    fmt.parseMagnitude (fmt.magnitudeText m) = some m := by
  have hlt := h.infinity_lt
  rw [magnitudeText]
  by_cases hinf : m = fmt.infinity
  · subst hinf
    rw [if_pos rfl]
    rfl
  · rw [if_neg hinf]
    by_cases hnan : m = fmt.nan
    · subst hnan
      rw [if_pos rfl]
      rfl
    · rw [if_neg hnan]
      exact parseMagnitude_decimal h (lt_of_le_of_ne (hm.resolve_right hnan) hinf)

/-- A text without a sign does not begin with one. -/
theorem magnitudeText_head (m : Nat) {c : Char} {cs : List Char}
    (h : fmt.magnitudeText m = c :: cs) : c ≠ '-' ∧ c ≠ '+' := by
  unfold magnitudeText at h
  split at h
  · cases h
    exact ⟨by decide, by decide⟩
  · split at h
    · cases h
      exact ⟨by decide, by decide⟩
    · have hc : c.isDigit = true := by
        obtain ⟨d, ds, hdigits⟩ := List.exists_cons_of_ne_nil
          (Nat.toDigits_ne_nil (b := 10) (n := fmt.units m * 5 ^ (-fmt.minExponent).toNat))
        rw [decimal, hdigits, List.cons_append] at h
        cases h
        exact isDigit_of_mem_toDigits (hdigits ▸ List.mem_cons_self)
      refine ⟨?_, ?_⟩
      · rintro rfl
        cases hc
      · rintro rfl
        cases hc

theorem parse_of_head {s : String} (h : ∀ c cs, s.toList = c :: cs → c ≠ '-' ∧ c ≠ '+') :
    fmt.parse s = fmt.parseMagnitude s.toList := by
  unfold parse
  split
  · next cs hcs => exact absurd rfl (h '-' cs hcs).1
  · next cs hcs => exact absurd rfl (h '+' cs hcs).2
  · rfl

/-- **A number is read back from its text.** -/
theorem parse_text (h : fmt.Sane) {bits : Nat} (hbits : bits < 2 * fmt.signBit)
    (hm : fmt.Readable (fmt.magnitude bits)) : fmt.parse (fmt.text bits) = some bits := by
  rw [text]
  split
  · next hlt =>
    have hmagnitude : fmt.magnitude bits = bits := Nat.mod_eq_of_lt hlt
    rw [hmagnitude] at hm
    rw [parse_of_head, String.toList_ofList, parseMagnitude_magnitudeText h hm]
    intro c cs hcs
    rw [String.toList_ofList] at hcs
    exact magnitudeText_head bits hcs
  · next hge =>
    have hmagnitude : fmt.magnitude bits = bits - fmt.signBit := by
      rw [magnitude, Nat.mod_eq_sub_mod (not_lt.mp hge)]
      exact Nat.mod_eq_of_lt (by omega)
    rw [hmagnitude] at hm
    unfold parse
    rw [String.toList_ofList]
    simp only [parseMagnitude_magnitudeText h hm, Option.map_some, Option.some.injEq]
    omega

theorem ofQuotient_le (n d : Nat) : fmt.ofQuotient n d ≤ fmt.infinity := by
  unfold ofQuotient
  split
  · exact Nat.zero_le _
  · exact min_le_right _ _

theorem readable_of_parseMagnitude {cs : List Char} {m : Nat}
    (h : fmt.parseMagnitude cs = some m) : fmt.Readable m := by
  unfold parseMagnitude at h
  simp only at h
  split at h
  · cases h
    exact .inl le_rfl
  · split at h
    · cases h
      exact .inr rfl
    · -- with or without a point, the number is a rounded quotient
      have hrounded : ∀ {x : Option Int} {digits : List Char} {places : Nat},
          (if digits = [] then none
            else x.map fun e => fmt.ofDecimal (natOfDigits digits) (e - places)) = some m →
          fmt.Readable m := by
        intro x digits places h
        split at h
        · cases h
        · obtain ⟨e, -, rfl⟩ := Option.map_eq_some_iff.mp h
          exact .inl (ofQuotient_le _ _)
      split at h
      · exact hrounded h
      · exact hrounded h

/-- **The numbers of a text**: every number is, but for those that are not a number. -/
theorem exists_parse_iff (h : fmt.Sane) {bits : Nat} :
    (∃ s, fmt.parse s = some bits) ↔
      bits < 2 * fmt.signBit ∧ fmt.Readable (fmt.magnitude bits) := by
  have hinf := h.infinity_lt
  have hnan := h.nan_lt
  constructor
  · rintro ⟨s, hs⟩
    have hcases : ∃ m, fmt.Readable m ∧ (bits = m ∨ bits = fmt.signBit + m) := by
      unfold parse at hs
      split at hs
      · obtain ⟨m, hm, rfl⟩ := Option.map_eq_some_iff.mp hs
        exact ⟨m, readable_of_parseMagnitude hm, .inr rfl⟩
      · exact ⟨bits, readable_of_parseMagnitude hs, .inl rfl⟩
      · exact ⟨bits, readable_of_parseMagnitude hs, .inl rfl⟩
    obtain ⟨m, hm, hbits⟩ := hcases
    have hlt : m < fmt.signBit := by
      rcases hm with hle | rfl
      · omega
      · exact hnan
    rcases hbits with rfl | rfl
    · exact ⟨by omega, by rwa [magnitude, Nat.mod_eq_of_lt hlt]⟩
    · exact ⟨by omega, by rwa [magnitude, Nat.add_mod_left, Nat.mod_eq_of_lt hlt]⟩
  · rintro ⟨hbits, hm⟩
    exact ⟨fmt.text bits, parse_text h hbits hm⟩

end FloatFormat

end GrpcGw.Text
