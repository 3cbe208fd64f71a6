import Mathlib.Data.List.TakeWhile

/-!
# Slices of UTF-8 Text

Rust addresses a `str` by byte offsets, and a slice panics when an offset is out of range or lies
inside a character. Here a text is its list of characters, and a slice is `none` where Rust
panics.

- `sliceFrom_append`, `sliceTo_append`: slicing at the end of a prefix.
- `find_eq_some`, `slice_takeWhile`: the offset that `find` returns cuts the text in front of the
  character it found.
-/

namespace GrpcGw.Text

/-! ## Operations -/

/-- `str::len`: the length in bytes. -/
def byteLen : List Char → Nat
  | [] => 0
  | c :: text => c.utf8Size + byteLen text

/-- `&text[offset..]`. -/
def sliceFrom : (text : List Char) → (offset : Nat) → Option (List Char)
  | text, 0 => some text
  -- the offset is behind the end
  | [], _ + 1 => none
  | c :: text, offset + 1 =>
    -- the offset lies inside the first character
    if offset + 1 < c.utf8Size then none else sliceFrom text (offset + 1 - c.utf8Size)

/-- `&text[..offset]`. -/
def sliceTo : (text : List Char) → (offset : Nat) → Option (List Char)
  | _, 0 => some []
  | [], _ + 1 => none
  | c :: text, offset + 1 =>
    if offset + 1 < c.utf8Size then none
    else (sliceTo text (offset + 1 - c.utf8Size)).map (c :: ·)

/-- `str::find`: the offset of the first character that satisfies a predicate. -/
def find (p : Char → Bool) : List Char → Option Nat
  | [] => none
  | c :: text => if p c then some 0 else (find p text).map (c.utf8Size + ·)

example : sliceFrom "é/a".toList 1 = none := by decide

example : sliceFrom "é/a".toList 2 = some ['/', 'a'] := by decide

/-! ## Slicing at a prefix -/

@[simp] theorem byteLen_nil : byteLen [] = 0 := rfl

@[simp] theorem byteLen_cons (c : Char) (text : List Char) :
    byteLen (c :: text) = c.utf8Size + byteLen text := rfl

@[simp] theorem byteLen_append (a b : List Char) : byteLen (a ++ b) = byteLen a + byteLen b := by
  induction a with
  | nil => simp
  | cons c a ih => rw [List.cons_append, byteLen_cons, byteLen_cons, ih, Nat.add_assoc]

theorem sliceFrom_cons (c : Char) (text : List Char) (offset : Nat) :
    sliceFrom (c :: text) (c.utf8Size + offset) = sliceFrom text offset := by
  obtain ⟨n, hn⟩ : ∃ n, c.utf8Size + offset = n + 1 :=
    Nat.exists_eq_add_one.mpr (Nat.add_pos_left c.utf8Size_pos _)
  rw [hn, sliceFrom, ← hn, if_neg (Nat.not_lt.mpr (Nat.le_add_right _ _)), Nat.add_sub_cancel_left]

theorem sliceTo_cons (c : Char) (text : List Char) (offset : Nat) :
    sliceTo (c :: text) (c.utf8Size + offset) = (sliceTo text offset).map (c :: ·) := by
  obtain ⟨n, hn⟩ : ∃ n, c.utf8Size + offset = n + 1 :=
    Nat.exists_eq_add_one.mpr (Nat.add_pos_left c.utf8Size_pos _)
  rw [hn, sliceTo, ← hn, if_neg (Nat.not_lt.mpr (Nat.le_add_right _ _)), Nat.add_sub_cancel_left]

/-- Slicing from the end of a prefix. -/
@[simp] theorem sliceFrom_append (a b : List Char) : sliceFrom (a ++ b) (byteLen a) = some b := by
  induction a with
  | nil => cases b <;> rfl
  | cons c a ih => rw [List.cons_append, byteLen_cons, sliceFrom_cons, ih]

/-- Slicing up to the end of a prefix. -/
@[simp] theorem sliceTo_append (a b : List Char) : sliceTo (a ++ b) (byteLen a) = some a := by
  induction a with
  | nil => cases b <;> rfl
  | cons c a ih => rw [List.cons_append, byteLen_cons, sliceTo_cons, ih, Option.map_some]

/-! ## Searching -/

theorem find_eq_none_iff {p : Char → Bool} {text : List Char} :
    find p text = none ↔ ∀ c ∈ text, p c = false := by
  induction text with
  | nil => simp [find]
  | cons c text ih =>
    rw [find]
    by_cases hc : p c = true
    · simp [hc]
    · simp [hc, ih]

/-- What `find` returns is the length of the text in front of the character it found. -/
theorem find_eq_some {p : Char → Bool} {text : List Char} {offset : Nat}
    (h : find p text = some offset) : offset = byteLen (text.takeWhile fun c => !p c) := by
  induction text generalizing offset with
  | nil => cases h
  | cons c text ih =>
    rw [find] at h
    by_cases hc : p c = true
    · rw [if_pos hc, Option.some.injEq] at h
      rw [← h, List.takeWhile_cons_of_neg (by simp [hc])]
      rfl
    · rw [if_neg hc] at h
      obtain ⟨n, hn, rfl⟩ := Option.map_eq_some_iff.mp h
      rw [List.takeWhile_cons_of_pos (by simp [hc]), byteLen_cons, ih hn]

/-- The offset of the first hit, or the end of the text. -/
theorem find_getD (p : Char → Bool) (text : List Char) :
    (find p text).getD (byteLen text) = byteLen (text.takeWhile fun c => !p c) := by
  cases h : find p text with
  | some offset => rw [Option.getD_some, find_eq_some h]
  | none =>
    rw [find_eq_none_iff] at h
    have hall : text.takeWhile (fun c => !p c) = text :=
      List.takeWhile_eq_self_iff.mpr fun c hc => by simp [h c hc]
    rw [Option.getD_none, hall]

/-- Slicing in front of the characters behind a prefix of misses. -/
theorem slice_takeWhile (p : Char → Bool) (text : List Char) :
    sliceTo text (byteLen (text.takeWhile p)) = some (text.takeWhile p) ∧
      sliceFrom text (byteLen (text.takeWhile p)) = some (text.dropWhile p) := by
  have hto := sliceTo_append (text.takeWhile p) (text.dropWhile p)
  have hfrom := sliceFrom_append (text.takeWhile p) (text.dropWhile p)
  rw [List.takeWhile_append_dropWhile] at hto hfrom
  exact ⟨hto, hfrom⟩

end GrpcGw.Text
