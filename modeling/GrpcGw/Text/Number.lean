import Mathlib.Algebra.Group.Int.Defs
import Mathlib.Algebra.Group.Nat.Defs
import Mathlib.Data.List.Basic

/-!
# Reading Numbers

`str::parse` for the integer and floating-point types. An integer is an optional sign and decimal
digits within the range of its type. A floating-point number is an optional sign in front of
`inf`, `infinity`, `nan` or a decimal with an optional exponent, and reads as the bit pattern of
the nearest representable number, ties to even.
-/

namespace GrpcGw.Text

/-! ## Integers -/

/-- The value of a string of decimal digits. -/
def natOfDigits (digits : List Char) : Nat :=
  digits.foldl (fun n c => 10 * n + (c.toNat - '0'.toNat)) 0

/-- One or more decimal digits. -/
def parseDigits (cs : List Char) : Option Nat :=
  if cs ≠ [] ∧ cs.all Char.isDigit then some (natOfDigits cs) else none

/-- `parse` at a signed type of the given width. -/
def parseSigned (width : Nat) (s : String) : Option Int :=
  match s.toList with
  | '-' :: cs => do
    let n ← parseDigits cs
    -- the range of a signed type reaches one further below zero
    if n ≤ 2 ^ (width - 1) then some (-n) else none
  | '+' :: cs => do
    let n ← parseDigits cs
    if n < 2 ^ (width - 1) then some n else none
  | cs => do
    let n ← parseDigits cs
    if n < 2 ^ (width - 1) then some n else none

/-- `parse` at an unsigned type of the given width. A minus sign is not a digit. -/
def parseUnsigned (width : Nat) (s : String) : Option Nat :=
  match s.toList with
  | '+' :: cs => do
    let n ← parseDigits cs
    if n < 2 ^ width then some n else none
  | cs => do
    let n ← parseDigits cs
    if n < 2 ^ width then some n else none

theorem parseDigits_toDigits (n : Nat) : parseDigits (Nat.toDigits 10 n) = some n := by
  have hdigits : (Nat.toDigits 10 n).all Char.isDigit = true := by
    rw [List.all_eq_true]
    intro c hc
    exact Nat.isDigit_of_mem_toDigits (by decide) (by decide) hc
  have hvalue : natOfDigits (Nat.toDigits 10 n) = n := by
    rw [natOfDigits, ← Nat.ofDigitChars_eq_foldl, Nat.ofDigitChars_ten_toDigits]
  rw [parseDigits, if_pos ⟨Nat.toDigits_ne_nil, hdigits⟩, hvalue]

/-- **An integer within the range of a type is read back from its decimal.** -/
theorem parseSigned_toString {width : Nat} {n : Int} (hlo : -2 ^ (width - 1) ≤ n)
    (hhi : n < 2 ^ (width - 1)) : parseSigned width (toString n) = some n := by
  have hcast : ((2 ^ (width - 1) : Nat) : Int) = 2 ^ (width - 1) := by simp
  rw [Int.toString_eq_repr, Int.repr_eq_if]
  split
  · next hn =>
    have hlt : n.toNat < 2 ^ (width - 1) := by omega
    have hdigit : ∀ c ∈ Nat.toDigits 10 n.toNat, c.isDigit = true := fun c hc =>
      Nat.isDigit_of_mem_toDigits (by decide) (by decide) hc
    unfold parseSigned
    rw [Nat.toList_repr]
    -- the first character is a digit and so no sign
    split
    · next cs hcs =>
      have := hdigit '-' (by simp [hcs])
      cases this
    · next cs hcs =>
      have := hdigit '+' (by simp [hcs])
      cases this
    · simp only [parseDigits_toDigits, Option.bind_eq_bind, Option.bind_some, if_pos hlt]
      congr 1
      omega
  · next hn =>
    have hle : (-n).toNat ≤ 2 ^ (width - 1) := by omega
    have hlist : ("-" ++ (-n).toNat.repr).toList = '-' :: Nat.toDigits 10 (-n).toNat := by simp
    unfold parseSigned
    rw [hlist]
    simp only [parseDigits_toDigits, Option.bind_eq_bind, Option.bind_some, if_pos hle]
    congr 1
    omega

/-! ## Floating-point numbers -/

/-- A binary interchange format. -/
structure FloatFormat where
  /-- The number of significant bits. -/
  precision : Nat
  /-- The exponent of the smallest positive number. -/
  minExponent : Int
  infinity : Nat
  nan : Nat
  signBit : Nat

/-- `f32`. -/
def binary32 : FloatFormat where
  precision := 24
  minExponent := -149
  infinity := 0x7F800000
  nan := 0x7FC00000
  signBit := 0x80000000

/-- `f64`. -/
def binary64 : FloatFormat where
  precision := 53
  minExponent := -1074
  infinity := 0x7FF0000000000000
  nan := 0x7FF8000000000000
  signBit := 0x8000000000000000

/-- A positive quotient rounded to the nearest integer, ties to even. -/
def roundHalfEven (n d : Nat) : Nat :=
  let q := n / d
  let r := n % d
  if 2 * r < d then q
  else if d < 2 * r then q + 1
  else q + q % 2

/-- The binary exponent of a positive quotient. -/
def floorLog2 (n d : Nat) : Int :=
  -- the difference of the logarithms is the exponent or one too large
  let k : Int := (n.log2 : Int) - d.log2
  if d * 2 ^ k.toNat ≤ n * 2 ^ (-k).toNat then k else k - 1

namespace FloatFormat

variable (fmt : FloatFormat)

/-- The bit pattern of a quotient: the significand is rounded in units of the last place, and a
    carry out of it moves on to the exponent. -/
def ofQuotient (n d : Nat) : Nat :=
  if n = 0 then 0
  else
    -- the unit of the last place; subnormal numbers share the smallest one
    let ulp := max (floorLog2 n d - (fmt.precision - 1)) fmt.minExponent
    let significand := roundHalfEven (n * 2 ^ (-ulp).toNat) (d * 2 ^ ulp.toNat)
    min ((ulp - fmt.minExponent).toNat * 2 ^ (fmt.precision - 1) + significand) fmt.infinity

/-- The bit pattern of `digits * 10 ^ exponent`. -/
def ofDecimal (digits : Nat) (exponent : Int) : Nat :=
  fmt.ofQuotient (digits * 10 ^ exponent.toNat) (10 ^ (-exponent).toNat)

/-- What may follow the digits of a number: nothing, or an exponent. -/
def parseExponent : List Char → Option Int
  | [] => some 0
  | e :: cs =>
    if e = 'e' ∨ e = 'E' then
      match cs with
      | '-' :: ds => (parseDigits ds).map fun n => -(n : Int)
      | '+' :: ds => (parseDigits ds).map fun n => (n : Int)
      | ds => (parseDigits ds).map fun n => (n : Int)
    else none

/-- A number without a sign. -/
def parseMagnitude (cs : List Char) : Option Nat :=
  let word := String.ofList (cs.map Char.toLower)
  if word = "inf" ∨ word = "infinity" then some fmt.infinity
  else if word = "nan" then some fmt.nan
  else
    let whole := cs.takeWhile Char.isDigit
    let (fraction, rest) := match cs.dropWhile Char.isDigit with
      | '.' :: cs => (cs.takeWhile Char.isDigit, cs.dropWhile Char.isDigit)
      | cs => ([], cs)
    -- a number has a digit on either side of the point
    if whole ++ fraction = [] then none
    else (parseExponent rest).map fun e =>
      fmt.ofDecimal (natOfDigits (whole ++ fraction)) (e - fraction.length)

/-- `parse` at a floating-point type, as a bit pattern. -/
def parse (s : String) : Option Nat :=
  match s.toList with
  | '-' :: cs => (fmt.parseMagnitude cs).map (fmt.signBit + ·)
  | '+' :: cs => fmt.parseMagnitude cs
  | cs => fmt.parseMagnitude cs

end FloatFormat

example : binary64.parse "-2.5e-1" = some 0xBFD0000000000000 := by decide

namespace FloatFormat

variable (fmt : FloatFormat)

/-- The bit pattern without its sign. -/
def magnitude (bits : Nat) : Nat :=
  bits % fmt.signBit

/-- `is_finite`, on a bit pattern. -/
def isFinite (bits : Nat) : Bool :=
  fmt.magnitude bits < fmt.infinity

end FloatFormat

/-- `f32 as f64`, on the bit pattern of a finite number. -/
def widen (bits : Nat) : Nat :=
  let exponent := binary32.magnitude bits / 2 ^ 23
  let fraction := binary32.magnitude bits % 2 ^ 23
  -- the number in units of `2 ^ -150`
  let units := if exponent = 0 then 2 * fraction else (2 ^ 23 + fraction) * 2 ^ exponent
  (if bits < binary32.signBit then 0 else binary64.signBit) + binary64.ofQuotient units (2 ^ 150)

example : widen 0xBF800000 = 0xBFF0000000000000 := by decide

end GrpcGw.Text
