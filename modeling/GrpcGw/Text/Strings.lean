import Mathlib.Data.List.Basic

/-!
# String Operations

The standard-library string operations the gateway is written with, on the character list of a
string: splitting at a separator, joining, ASCII case folding and debug formatting.
-/

namespace GrpcGw.Text

/-! ## Splitting and joining -/

/-- `str::split` at a character: always at least one piece. -/
def split (c : Char) (s : String) : List String :=
  (s.toList.splitOn c).map String.ofList

/-- `slice::join`. -/
def join (sep : String) (l : List String) : String :=
  String.intercalate sep l

/-- The parts before and after the first occurrence of a character. -/
def splitFirst (c : Char) : List Char → Option (List Char × List Char)
  | [] => none
  | x :: xs =>
    if x = c then some ([], xs)
    else (splitFirst c xs).map fun (a, b) => (x :: a, b)

/-- The parts before and after the last occurrence of a character. -/
def splitLast (c : Char) : List Char → Option (List Char × List Char)
  | [] => none
  | x :: xs =>
    match splitLast c xs with
    | some (a, b) => some (x :: a, b)
    | none => if x = c then some ([], xs) else none

/-- `str::split_once` at a character. -/
def splitOnce (c : Char) (s : String) : Option (String × String) :=
  (splitFirst c s.toList).map fun (a, b) => (String.ofList a, String.ofList b)

theorem split_ne_nil (c : Char) (s : String) : split c s ≠ [] := by
  simp [split, List.splitOn_ne_nil]

theorem toList_split (c : Char) (s : String) :
    (split c s).map String.toList = s.toList.splitOn c := by
  simp [split]

/-- Induction on the pieces of a text between separators. -/
@[elab_as_elim]
theorem splitOn_induction {c : Char} {P : List Char → Prop} (last : ∀ l, c ∉ l → P l)
    (piece : ∀ a b, c ∉ a → P b → P (a ++ c :: b)) (l : List Char) : P l := by
  by_cases hmem : c ∈ l
  · obtain ⟨a, b, hl, ha⟩ := List.eq_append_cons_of_mem hmem
    have hlt : b.length < l.length := by
      rw [hl, List.length_append, List.length_cons]
      omega
    rw [hl]
    exact piece a b ha (splitOn_induction last piece b)
  · exact last l hmem
termination_by l.length

theorem notMem_of_mem_splitOn {c : Char} {l x : List Char} (h : x ∈ l.splitOn c) : c ∉ x := by
  induction l using splitOn_induction (c := c) with
  | last l hl =>
    rw [List.splitOn_eq_singleton hl, List.mem_singleton] at h
    rwa [h]
  | piece a b ha ih =>
    rw [List.splitOn_append_cons_self_of_not_mem ha] at h
    rcases List.mem_cons.mp h with rfl | hb
    · exact ha
    · exact ih hb

/-- No piece contains the separator. -/
theorem notMem_of_mem_split {c : Char} {s piece : String} (h : piece ∈ split c s) :
    c ∉ piece.toList := by
  obtain ⟨x, hx, rfl⟩ := List.mem_map.mp h
  rw [String.toList_ofList]
  exact notMem_of_mem_splitOn hx

/-- Joining undoes splitting. -/
theorem join_split (c : Char) (s : String) : join (String.singleton c) (split c s) = s := by
  apply String.toList_inj.mp
  rw [join, String.toList_intercalate, toList_split]
  simp [List.intercalate_splitOn]

/-- Splitting undoes joining pieces that do not contain the separator. -/
theorem split_join (c : Char) {l : List String} (hl : l ≠ []) (hc : ∀ s ∈ l, c ∉ s.toList) :
    split c (join (String.singleton c) l) = l := by
  have hsplit : List.splitOn c ([c].intercalate (l.map String.toList)) = l.map String.toList := by
    apply List.splitOn_intercalate
    · intro x hx
      obtain ⟨s, hs, rfl⟩ := List.mem_map.mp hx
      exact hc s hs
    · simpa using hl
  simp [split, join, String.toList_intercalate, hsplit]

theorem length_splitOn (c : Char) (l : List Char) : (l.splitOn c).length = l.count c + 1 := by
  induction l using splitOn_induction (c := c) with
  | last l hl =>
    rw [List.splitOn_eq_singleton hl, List.count_eq_zero.mpr hl, List.length_singleton]
  | piece a b ha ih =>
    rw [List.splitOn_append_cons_self_of_not_mem ha, List.length_cons, ih, List.count_append,
      List.count_cons_self, List.count_eq_zero.mpr ha, Nat.zero_add]

/-- A joined text has a separator between any two pieces, and those inside the pieces. -/
theorem length_le_count_join (c : Char) {l : List String} (hl : l ≠ []) :
    l.length ≤ (join (String.singleton c) l).toList.count c + 1 ∧
      ((join (String.singleton c) l).toList.count c + 1 = l.length →
        ∀ s ∈ l, c ∉ s.toList) := by
  rw [join, String.toList_intercalate, String.toList_singleton]
  induction l with
  | nil => exact absurd rfl hl
  | cons s l ih =>
    cases l with
    | nil => simp [List.count_eq_zero]
    | cons t l =>
      obtain ⟨hle, heq⟩ := ih (List.cons_ne_nil t l)
      rw [List.map_cons, List.map_cons, List.intercalate_cons_cons, List.append_assoc,
        List.count_append, List.count_append, List.count_singleton_self, ← List.map_cons,
        List.length_cons]
      -- one separator between two pieces, and no other one if the count is tight
      refine ⟨by omega, ?_⟩
      intro hcount x hx
      rcases List.mem_cons.mp hx with rfl | hx
      · exact List.count_eq_zero.mp (by omega)
      · exact heq (by omega) x hx

/-- Joined pieces are split into as many pieces iff none of them contains the separator. -/
theorem length_split_join_iff (c : Char) {l : List String} (hl : l ≠ []) :
    (split c (join (String.singleton c) l)).length = l.length ↔ ∀ s ∈ l, c ∉ s.toList := by
  constructor
  · intro h
    rw [split, List.length_map, length_splitOn] at h
    exact (length_le_count_join c hl).2 h
  · intro h
    rw [split_join c hl h]

/-- The two sides of a character, by its position. -/
theorem take_drop_of_eq {α : Type*} {l before after : List α} {c : α}
    (h : l = before ++ c :: after) :
    l.take before.length = before ∧ l.drop (before.length + 1) = after := by
  rw [h, List.take_left, List.drop_append]
  simp

theorem splitFirst_append {c : Char} {a : List Char} (ha : c ∉ a) (b : List Char) :
    splitFirst c (a ++ c :: b) = some (a, b) := by
  induction a with
  | nil => simp [splitFirst]
  | cons x a ih =>
    simp only [List.mem_cons, not_or] at ha
    simp [splitFirst, Ne.symm ha.1, ih ha.2]

theorem splitLast_eq_none_iff {c : Char} {l : List Char} : splitLast c l = none ↔ c ∉ l := by
  induction l with
  | nil => simp [splitLast]
  | cons x xs ih =>
    rw [splitLast]
    cases h : splitLast c xs with
    | some p =>
      have hmem : c ∈ xs := by
        by_contra hc
        rw [ih.mpr hc] at h
        cases h
      simp [hmem]
    | none =>
      have hmem := ih.mp h
      by_cases hx : x = c
      · simp [hx]
      · simp [hx, hmem, Ne.symm hx]

theorem splitLast_append {c : Char} (a : List Char) {b : List Char} (hb : c ∉ b) :
    splitLast c (a ++ c :: b) = some (a, b) := by
  induction a with
  | nil => simp [splitLast, splitLast_eq_none_iff.mpr hb]
  | cons x a ih => simp [splitLast, ih]

theorem splitLast_eq_some {c : Char} {l a b : List Char} (h : splitLast c l = some (a, b)) :
    l = a ++ c :: b ∧ c ∉ b := by
  induction l generalizing a with
  | nil => cases h
  | cons x xs ih =>
    rw [splitLast] at h
    cases hs : splitLast c xs with
    | some p =>
      -- the last hit is further to the right
      obtain ⟨a', b'⟩ := p
      rw [hs] at h
      simp only [Option.some.injEq, Prod.mk.injEq] at h
      obtain ⟨rfl, rfl⟩ := h
      obtain ⟨rfl, hb⟩ := ih hs
      exact ⟨rfl, hb⟩
    | none =>
      rw [hs] at h
      simp only at h
      split at h
      · next hx =>
        simp only [Option.some.injEq, Prod.mk.injEq] at h
        obtain ⟨rfl, rfl⟩ := h
        exact ⟨by rw [hx]; rfl, splitLast_eq_none_iff.mp hs⟩
      · cases h

/-! ## ASCII case -/

/-- `str::to_ascii_uppercase`: only `a`–`z` change. -/
def toAsciiUppercase (s : String) : String :=
  String.ofList (s.toList.map Char.toUpper)

/-- `str::to_ascii_lowercase`, as the lowercasing of ASCII identifiers. -/
def toAsciiLowercase (s : String) : String :=
  String.ofList (s.toList.map Char.toLower)

/-- `str::eq_ignore_ascii_case`. -/
def eqIgnoreAsciiCase (s t : String) : Bool :=
  toAsciiUppercase s = toAsciiUppercase t

theorem toUpper_toUpper (c : Char) : c.toUpper.toUpper = c.toUpper := by
  unfold Char.toUpper
  split
  · next h =>
    split
    · next h' =>
      simp only [UInt32.le_iff_toNat_le, UInt32.toNat_add] at h h'
      simp at h h'
      omega
    · rfl
  · rfl

@[simp] theorem toAsciiUppercase_idem (s : String) :
    toAsciiUppercase (toAsciiUppercase s) = toAsciiUppercase s := by
  simp only [toAsciiUppercase, String.toList_ofList, List.map_map]
  congr 2
  funext c
  exact toUpper_toUpper c

/-! ## Debug formatting -/

/-- The lower-case hexadecimal digits of a number. -/
def hexDigits (n : Nat) : String :=
  String.ofList (Nat.toDigits 16 n)

/-- One character of a string under `{:?}`. Characters outside ASCII are copied, also those that
    Rust escapes because they do not print or extend the character before them. -/
def debugChar (c : Char) : String :=
  if c = '"' then "\\\""
  else if c = '\\' then "\\\\"
  else if c = '\n' then "\\n"
  else if c = '\r' then "\\r"
  else if c = '\t' then "\\t"
  else if c.toNat = 0 then "\\0"
  else if c.toNat < 0x20 || c.toNat = 0x7F then "\\u\x7b" ++ hexDigits c.toNat ++ "\x7d"
  else String.singleton c

/-- A string under `{:?}`. -/
def debugStr (s : String) : String :=
  "\"" ++ String.join (s.toList.map debugChar) ++ "\""

end GrpcGw.Text
