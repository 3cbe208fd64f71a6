import Mathlib.Logic.Function.Basic
import Mathlib.Data.List.Basic

/-!
# Slot Patterns

Patterns over sequences: a pattern is a list of slots, each a literal, a one-letter wildcard or
a final wildcard for everything that is left. The letters of a sequence are not the literals
themselves; a letter is *read* as a literal by a function `reads`.

- `overlap_iff`: the pairwise walk `overlap` decides whether two patterns share a sequence,
  when every literal has a spelling.
- `accepts_append`: a pattern is matched in place, chunk by chunk.
-/

namespace GrpcGw.Pattern

/-- One position of a pattern. -/
inductive Slot (α : Type*) where
  /-- Exactly this literal. -/
  | lit (a : α)
  /-- Any one letter. -/
  | any
  /-- Everything that is left, possibly nothing. -/
  | rest
  deriving DecidableEq, Repr

variable {α β : Type*}

/-! ## Languages -/

/-- `Accepts reads p w`: the sequence `w` is consumed left to right by the pattern `p`. A `rest`
    that is not the last slot consumes nothing at all, so no sequence is accepted. -/
def Accepts (reads : β → α) : List (Slot α) → List β → Prop
  | [], [] => True
  | [], _ :: _ => False
  | .lit a :: p, x :: w => reads x = a ∧ Accepts reads p w
  | .lit _ :: _, [] => False
  | .any :: p, _ :: w => Accepts reads p w
  | .any :: _, [] => False
  | .rest :: p, _ => p = []

/-- No `rest` occurs in the pattern: it matches sequences of one length only. -/
def RestFree (p : List (Slot α)) : Prop :=
  Slot.rest ∉ p

/-- A `rest` occurs at the last position only. -/
def RestLast : List (Slot α) → Prop
  | [] => True
  | .rest :: p => p = []
  | .lit _ :: p => RestLast p
  | .any :: p => RestLast p

/-- Whether a slot other than `rest` takes a letter. -/
def Slot.Takes (reads : β → α) : Slot α → β → Prop
  | .lit a, x => reads x = a
  | .any, _ => True
  | .rest, _ => False

/-- A slot other than `rest` takes the first letter. -/
theorem accepts_cons_iff {reads : β → α} {s : Slot α} (hs : s ≠ .rest) {p : List (Slot α)}
    {w : List β} :
    Accepts reads (s :: p) w ↔ ∃ x v, w = x :: v ∧ s.Takes reads x ∧ Accepts reads p v := by
  cases s with
  | rest => exact absurd rfl hs
  | lit a => cases w <;> simp [Accepts, Slot.Takes]
  | any => cases w <;> simp [Accepts, Slot.Takes]

theorem RestFree.head_ne {s : Slot α} {p : List (Slot α)} (h : RestFree (s :: p)) : s ≠ .rest := by
  intro hs
  apply h
  rw [hs]
  exact List.mem_cons_self

theorem RestFree.tail {s : Slot α} {p : List (Slot α)} (h : RestFree (s :: p)) : RestFree p :=
  fun hp => h (List.mem_cons_of_mem _ hp)

/-- Behind a slot other than `rest`, a `rest` may only stand last. -/
theorem restLast_cons_iff {s : Slot α} (hs : s ≠ .rest) {p : List (Slot α)} :
    RestLast (s :: p) ↔ RestLast p := by
  cases s with
  | rest => exact absurd rfl hs
  | lit a => rfl
  | any => rfl

/-- Appending to a pattern without `rest` keeps `rest` last. -/
theorem RestFree.restLast_append {p q : List (Slot α)} (hp : RestFree p) (hq : RestLast q) :
    RestLast (p ++ q) := by
  induction p with
  | nil => exact hq
  | cons s p ih =>
    apply (restLast_cons_iff hp.head_ne).mpr
    exact ih hp.tail

theorem RestFree.restLast {p : List (Slot α)} (h : RestFree p) : RestLast p := by
  have happend : RestLast (p ++ []) := h.restLast_append trivial
  rwa [List.append_nil] at happend

/-- A pattern without `rest` accepts sequences of its own length. -/
theorem Accepts.length_eq {reads : β → α} {p : List (Slot α)} {w : List β}
    (h : Accepts reads p w) (hp : RestFree p) : w.length = p.length := by
  induction p generalizing w with
  | nil =>
    cases w with
    | nil => rfl
    | cons x w => exact h.elim
  | cons s p ih =>
    -- the head takes one letter, the tail takes as many as it is long
    obtain ⟨x, v, rfl, -, hv⟩ := (accepts_cons_iff hp.head_ne).mp h
    rw [List.length_cons, List.length_cons, ih hv hp.tail]

/-- A pattern whose head part has no `rest` is matched chunk by chunk. -/
theorem accepts_append {reads : β → α} {p q : List (Slot α)} (hp : RestFree p) (w : List β) :
    Accepts reads (p ++ q) w ↔ ∃ u v, w = u ++ v ∧ Accepts reads p u ∧ Accepts reads q v := by
  induction p generalizing w with
  | nil =>
    constructor
    · intro h
      exact ⟨[], w, rfl, trivial, h⟩
    · rintro ⟨u, v, rfl, hu, hv⟩
      cases u with
      | nil => exact hv
      | cons x u => exact hu.elim
  | cons s p ih =>
    rw [List.cons_append, accepts_cons_iff hp.head_ne]
    constructor
    · -- the first letter goes to the head, and in front of the chunk of the tail
      rintro ⟨x, w', rfl, hx, hw'⟩
      obtain ⟨u, v, rfl, hu, hv⟩ := (ih hp.tail w').mp hw'
      exact ⟨x :: u, v, rfl, (accepts_cons_iff hp.head_ne).mpr ⟨x, u, rfl, hx, hu⟩, hv⟩
    · rintro ⟨u, v, rfl, hu, hv⟩
      obtain ⟨x, u', rfl, hx, hu'⟩ := (accepts_cons_iff hp.head_ne).mp hu
      exact ⟨x, u' ++ v, rfl, hx, (ih hp.tail _).mpr ⟨u', v, rfl, hu', hv⟩⟩

/-- Every pattern with `rest` last accepts some sequence. -/
theorem exists_accepts {reads : β → α} (hreads : Function.Surjective reads)
    {p : List (Slot α)} (hp : RestLast p) (b : β) : ∃ w, Accepts reads p w := by
  induction p with
  | nil => exact ⟨[], trivial⟩
  | cons s p ih =>
    cases s with
    | lit a =>
      obtain ⟨x, hx⟩ := hreads a
      obtain ⟨w, hw⟩ := ih hp
      exact ⟨x :: w, hx, hw⟩
    | any =>
      obtain ⟨w, hw⟩ := ih hp
      exact ⟨b :: w, hw⟩
    | rest => exact ⟨[], hp⟩

/-! ## Overlap -/

/-- Whether two slots admit a common letter. -/
def Slot.compatible [DecidableEq α] : Slot α → Slot α → Bool
  | .lit l, .lit r => l = r
  | _, _ => true

/-- The pairwise walk over two patterns: whether both could match some sequence. -/
def overlap [DecidableEq α] : List (Slot α) → List (Slot α) → Bool
  | [], [] => true
  | .rest :: _, _ => true
  | _, .rest :: _ => true
  | [], _ :: _ => false
  | _ :: _, [] => false
  | x :: a, y :: b => x.compatible y && overlap a b

section Overlap

variable [DecidableEq α]

theorem Slot.compatible_comm (x y : Slot α) : x.compatible y = y.compatible x := by
  cases x <;> cases y <;> simp [Slot.compatible, eq_comm]

@[simp] theorem overlap_rest_left (p q : List (Slot α)) : overlap (.rest :: p) q = true := by
  cases q <;> simp [overlap]

@[simp] theorem overlap_rest_right (p q : List (Slot α)) : overlap p (.rest :: q) = true := by
  cases p with
  | nil => simp [overlap]
  | cons s p => cases s <;> simp [overlap]

theorem overlap_cons_cons {x y : Slot α} (hx : x ≠ .rest) (hy : y ≠ .rest) (p q : List (Slot α)) :
    overlap (x :: p) (y :: q) = (x.compatible y && overlap p q) := by
  cases x <;> cases y <;> first | rfl | exact absurd rfl hx | exact absurd rfl hy

theorem overlap_comm (p q : List (Slot α)) : overlap p q = overlap q p := by
  induction p generalizing q with
  | nil =>
    cases q with
    | nil => rfl
    | cons y q => cases y <;> simp [overlap]
  | cons x p ih =>
    cases q with
    | nil => cases x <;> simp [overlap]
    | cons y q =>
      by_cases hx : x = .rest
      · rw [hx, overlap_rest_left, overlap_rest_right]
      · by_cases hy : y = .rest
        · rw [hy, overlap_rest_left, overlap_rest_right]
        · rw [overlap_cons_cons hx hy, overlap_cons_cons hy hx, Slot.compatible_comm, ih]

/-- Every pattern overlaps itself. -/
theorem overlap_self (p : List (Slot α)) : overlap p p = true := by
  induction p with
  | nil => rfl
  | cons x p ih => cases x <;> simp [overlap, Slot.compatible, ih]

theorem overlap_nil_cons {y : Slot α} (hy : y ≠ .rest) (q : List (Slot α)) :
    overlap [] (y :: q) = false := by
  cases y <;> first | rfl | exact absurd rfl hy

theorem Slot.compatible_of_takes {reads : β → α} {x y : Slot α} {z : β} (hx : x.Takes reads z)
    (hy : y.Takes reads z) : x.compatible y = true := by
  cases x with
  | rest => exact hx.elim
  | any => rfl
  | lit a =>
    cases y with
    | rest => exact hy.elim
    | any => rfl
    | lit b => exact decide_eq_true (hx.symm.trans hy)

/-- Compatible slots take a common letter. -/
theorem Slot.exists_takes {reads : β → α} (hreads : Function.Surjective reads) (b : β)
    {x y : Slot α} (hx : x ≠ .rest) (hy : y ≠ .rest) (h : x.compatible y = true) :
    ∃ z, x.Takes reads z ∧ y.Takes reads z := by
  cases x with
  | rest => exact absurd rfl hx
  | lit a =>
    obtain ⟨z, hz⟩ := hreads a
    cases y with
    | rest => exact absurd rfl hy
    | lit c => exact ⟨z, hz, hz.trans (of_decide_eq_true h)⟩
    | any => exact ⟨z, hz, trivial⟩
  | any =>
    cases y with
    | rest => exact absurd rfl hy
    | lit c =>
      obtain ⟨z, hz⟩ := hreads c
      exact ⟨z, trivial, hz⟩
    | any => exact ⟨b, trivial, trivial⟩

/-- Completeness of the walk: patterns that share a sequence overlap. -/
theorem overlap_of_accepts {reads : β → α} {p q : List (Slot α)} {w : List β}
    (hp : Accepts reads p w) (hq : Accepts reads q w) : overlap p q = true := by
  induction p generalizing q w with
  | nil =>
    cases q with
    | nil => rfl
    | cons y q =>
      by_cases hy : y = .rest
      · rw [hy, overlap_rest_right]
      · -- the empty pattern accepts the empty sequence, a slot takes a letter
        obtain ⟨z, v, rfl, -⟩ := (accepts_cons_iff hy).mp hq
        exact hp.elim
  | cons x p ih =>
    by_cases hx : x = .rest
    · rw [hx, overlap_rest_left]
    · obtain ⟨z, v, rfl, hz, hv⟩ := (accepts_cons_iff hx).mp hp
      cases q with
      | nil => exact hq.elim
      | cons y q =>
        by_cases hy : y = .rest
        · rw [hy, overlap_rest_right]
        · obtain ⟨z', v', heq, hz', hv'⟩ := (accepts_cons_iff hy).mp hq
          -- both heads take the same letter
          cases heq
          rw [overlap_cons_cons hx hy, Slot.compatible_of_takes hz hz', ih hv hv']
          rfl

/-- Soundness of the walk: overlapping patterns share a sequence. -/
theorem exists_accepts_of_overlap {reads : β → α} (hreads : Function.Surjective reads)
    {p q : List (Slot α)} (hp : RestLast p) (hq : RestLast q) (b : β)
    (h : overlap p q = true) : ∃ w, Accepts reads p w ∧ Accepts reads q w := by
  induction p generalizing q with
  | nil =>
    cases q with
    | nil => exact ⟨[], trivial, trivial⟩
    | cons y q =>
      by_cases hy : y = .rest
      · subst hy
        exact ⟨[], trivial, hq⟩
      · rw [overlap_nil_cons hy] at h
        cases h
  | cons x p ih =>
    -- a `rest` on one side accepts whatever the other side accepts
    by_cases hx : x = .rest
    · subst hx
      obtain ⟨w, hw⟩ := exists_accepts hreads hq b
      exact ⟨w, hp, hw⟩
    · cases q with
      | nil =>
        rw [overlap_comm, overlap_nil_cons hx] at h
        cases h
      | cons y q =>
        by_cases hy : y = .rest
        · subst hy
          obtain ⟨w, hw⟩ := exists_accepts hreads hp b
          exact ⟨w, hw, hq⟩
        · -- otherwise a common letter stands in front of a common sequence of the tails
          rw [overlap_cons_cons hx hy, Bool.and_eq_true] at h
          obtain ⟨z, hz, hz'⟩ := Slot.exists_takes hreads b hx hy h.1
          obtain ⟨w, hw, hw'⟩ :=
            ih ((restLast_cons_iff hx).mp hp) ((restLast_cons_iff hy).mp hq) h.2
          exact ⟨z :: w, (accepts_cons_iff hx).mpr ⟨z, w, rfl, hz, hw⟩,
            (accepts_cons_iff hy).mpr ⟨z, w, rfl, hz', hw'⟩⟩

/-- **The walk decides language intersection.** -/
theorem overlap_iff {reads : β → α} (hreads : Function.Surjective reads)
    {p q : List (Slot α)} (hp : RestLast p) (hq : RestLast q) (b : β) :
    overlap p q = true ↔ ∃ w, Accepts reads p w ∧ Accepts reads q w :=
  ⟨exists_accepts_of_overlap hreads hp hq b, fun ⟨_, hw, hw'⟩ => overlap_of_accepts hw hw'⟩

end Overlap

end GrpcGw.Pattern
