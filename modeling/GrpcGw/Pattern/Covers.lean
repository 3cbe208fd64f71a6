import Mathlib.Data.Fintype.EquivFin
import GrpcGw.Pattern.Slots

/-!
# Coverage of Slot Patterns

When the language of one pattern is included in the union of the languages of others. Over
infinitely many literals a wildcard is only taken by wildcards, so a pattern without `rest` is
included in a union iff a single member covers it slot by slot. A final `rest` stands for any
number of wildcards, and only finitely many of these numbers have to be looked at.

- `covers`: the slot-by-slot test.
- `forall_exists_accepts_iff`: inclusion in a union, one number of wildcards at a time.
- `covered_iff`: the decision procedure for inclusion in a union.
-/

namespace GrpcGw.Pattern

variable {α β : Type*}

/-! ## The slot-by-slot test -/

/-- Whether a slot takes every letter that another one takes. Neither of them is a `rest`. -/
def Slot.covers [DecidableEq α] : Slot α → Slot α → Bool
  | .any, .lit _ => true
  | .any, .any => true
  | .lit a, .lit b => a = b
  | _, _ => false

/-- Whether a pattern takes every sequence that another one takes. -/
def covers [DecidableEq α] : List (Slot α) → List (Slot α) → Bool
  | .rest :: _, _ => true
  | [], [] => true
  | [], _ :: _ => false
  | _ :: _, [] => false
  | x :: q, y :: p => x.covers y && covers q p

/-- A pattern with `n` wildcards in place of its `rest`. -/
def unroll (n : Nat) (p : List (Slot α)) : List (Slot α) :=
  p.flatMap fun
    | .rest => List.replicate n .any
    | s => [s]

/-- The length of the longest pattern. -/
def longest (qs : List (List (Slot α))) : Nat :=
  (qs.map List.length).foldr max 0

/-- Whether the union of some patterns takes every sequence that a pattern takes: one member
    covers it, for every number of wildcards that a `rest` may have to stand for. -/
def covered [DecidableEq α] (qs : List (List (Slot α))) (p : List (Slot α)) : Bool :=
  (List.range (longest qs + 2)).all fun n => qs.any fun q => covers q (unroll n p)

/-! ## Unrolling -/

theorem restFree_nil : RestFree ([] : List (Slot α)) := List.not_mem_nil

theorem restFree_cons_iff {s : Slot α} (hs : s ≠ .rest) {p : List (Slot α)} :
    RestFree (s :: p) ↔ RestFree p := by
  simp [RestFree, Ne.symm hs]

theorem unroll_cons {s : Slot α} (hs : s ≠ .rest) (n : Nat) (p : List (Slot α)) :
    unroll n (s :: p) = s :: unroll n p := by
  cases s with
  | rest => exact absurd rfl hs
  | lit a => rfl
  | any => rfl

theorem unroll_rest (n : Nat) : unroll n [(Slot.rest : Slot α)] = List.replicate n .any := by
  simp [unroll]

theorem unroll_restFree {p : List (Slot α)} (n : Nat) : RestFree (unroll n p) := by
  intro hmem
  obtain ⟨s, -, hs⟩ := List.mem_flatMap.mp hmem
  cases s with
  | rest => cases List.eq_of_mem_replicate hs
  | lit a => simp at hs
  | any => simp at hs

/-- A pattern without `rest` is its own unrolling. -/
theorem RestFree.unroll_eq {p : List (Slot α)} (h : RestFree p) (n : Nat) : unroll n p = p := by
  induction p with
  | nil => rfl
  | cons s p ih => rw [unroll_cons h.head_ne, ih h.tail]

/-- A pattern with a final `rest` is a pattern without one in front of it. -/
theorem RestLast.exists_front {p : List (Slot α)} (h : RestLast p) (hrest : ¬RestFree p) :
    ∃ front, RestFree front ∧ p = front ++ [.rest] := by
  induction p with
  | nil => exact absurd restFree_nil hrest
  | cons s p ih =>
    by_cases hs : s = .rest
    · subst hs
      have hp : p = [] := h
      exact ⟨[], restFree_nil, by rw [hp]; rfl⟩
    · rw [restFree_cons_iff hs] at hrest
      obtain ⟨front, hfront, rfl⟩ := ih ((restLast_cons_iff hs).mp h) hrest
      exact ⟨s :: front, (restFree_cons_iff hs).mpr hfront, rfl⟩

theorem unroll_front {front : List (Slot α)} (h : RestFree front) (n : Nat) :
    unroll n (front ++ [.rest]) = front ++ List.replicate n .any := by
  rw [unroll, List.flatMap_append]
  have hfront : unroll n front = front := h.unroll_eq n
  rw [unroll] at hfront
  rw [hfront]
  congr 1
  exact unroll_rest n

theorem accepts_replicate_any_iff {reads : β → α} {n : Nat} {w : List β} :
    Accepts reads (List.replicate n .any) w ↔ w.length = n := by
  induction n generalizing w with
  | zero => cases w <;> simp [Accepts]
  | succ n ih => cases w <;> simp [Accepts, List.replicate_succ, ih]

/-- **A `rest` stands for any number of wildcards.** -/
theorem accepts_iff_unroll {reads : β → α} {p : List (Slot α)} (h : RestLast p) {w : List β} :
    Accepts reads p w ↔ ∃ n, Accepts reads (unroll n p) w := by
  by_cases hfree : RestFree p
  · simp only [hfree.unroll_eq, exists_const]
  · obtain ⟨front, hfront, rfl⟩ := h.exists_front hfree
    simp only [unroll_front hfront, accepts_append hfront, accepts_replicate_any_iff]
    constructor
    · rintro ⟨u, v, rfl, hu, -⟩
      exact ⟨v.length, u, v, rfl, hu, rfl⟩
    · rintro ⟨n, u, v, rfl, hu, -⟩
      exact ⟨u, v, rfl, hu, by cases v <;> rfl⟩

/-! ## Samples and lengths -/

/-- A literal that a slot takes: its own, or a given one for a wildcard. -/
def Slot.sample (fresh : α) : Slot α → α
  | .lit a => a
  | _ => fresh

/-- The literal of a slot. -/
def Slot.lit? : Slot α → Option α
  | .lit a => some a
  | _ => none

/-- A pattern without `rest` takes its samples. -/
theorem accepts_sample {reads : β → α} {spell : α → β} (hspell : ∀ a, reads (spell a) = a)
    (fresh : α) {p : List (Slot α)} (hp : RestFree p) :
    Accepts reads p (p.map fun s => spell (s.sample fresh)) := by
  induction p with
  | nil => trivial
  | cons s p ih =>
    refine (accepts_cons_iff hp.head_ne).mpr ⟨_, _, rfl, ?_, ih hp.tail⟩
    cases s with
    | rest => exact absurd rfl hp.head_ne
    | any => trivial
    | lit a => exact hspell a

theorem length_le_longest {q : List (Slot α)} {qs : List (List (Slot α))} (hq : q ∈ qs) :
    q.length ≤ longest qs := by
  induction qs with
  | nil => cases hq
  | cons q' qs ih =>
    rw [longest, List.map_cons, List.foldr_cons]
    rcases List.mem_cons.mp hq with rfl | hq
    · exact Nat.le_max_left _ _
    · exact Nat.le_trans (ih hq) (Nat.le_max_right _ _)

section Covers

variable [DecidableEq α] {reads : β → α} {q p : List (Slot α)} {qs : List (List (Slot α))}

theorem covers_cons_cons {x y : Slot α} (hx : x ≠ .rest) (q p : List (Slot α)) :
    covers (x :: q) (y :: p) = (x.covers y && covers q p) := by
  cases x with
  | rest => exact absurd rfl hx
  | lit a => rfl
  | any => rfl

theorem covers_cons_nil {x : Slot α} (hx : x ≠ .rest) (q : List (Slot α)) :
    covers (x :: q) [] = false := by
  cases x with
  | rest => exact absurd rfl hx
  | lit a => rfl
  | any => rfl

theorem Slot.takes_of_covers {x y : Slot α} {z : β} (h : x.covers y = true)
    (hz : y.Takes reads z) : x.Takes reads z := by
  cases x with
  | rest => cases h
  | any => trivial
  | lit a =>
    cases y with
    | rest => cases h
    | any => cases h
    | lit b => exact hz.trans (of_decide_eq_true h).symm

/-! ## The test is exact -/

/-- A pattern takes what the patterns it covers take. -/
theorem accepts_of_covers {w : List β} (hq : RestLast q) (h : covers q p = true)
    (hw : Accepts reads p w) : Accepts reads q w := by
  induction q generalizing p w with
  | nil =>
    cases p with
    | nil => exact hw
    | cons y p => cases h
  | cons x q ih =>
    by_cases hx : x = .rest
    · subst hx
      exact hq
    · cases p with
      | nil =>
        rw [covers_cons_nil hx] at h
        cases h
      | cons y p =>
        rw [covers_cons_cons hx, Bool.and_eq_true] at h
        -- what a slot covers is no `rest`
        have hy : y ≠ .rest := by
          rintro rfl
          cases x <;> cases h.1
        obtain ⟨z, v, rfl, hz, hv⟩ := (accepts_cons_iff hy).mp hw
        exact (accepts_cons_iff hx).mpr
          ⟨z, v, rfl, Slot.takes_of_covers h.1 hz, ih ((restLast_cons_iff hx).mp hq) h.2 hv⟩

/-- A pattern that takes the sample of another one under a literal of its own for the wildcards
    covers it. -/
theorem covers_of_accepts_sample {spell : α → β} (hspell : ∀ a, reads (spell a) = a) {fresh : α}
    (hfresh : Slot.lit fresh ∉ q) (hp : RestFree p)
    (h : Accepts reads q (p.map fun s => spell (s.sample fresh))) : covers q p = true := by
  induction q generalizing p with
  | nil =>
    cases p with
    | nil => rfl
    | cons y p => exact h.elim
  | cons x q ih =>
    simp only [List.mem_cons, not_or] at hfresh
    by_cases hx : x = .rest
    · rw [hx, covers]
    · obtain ⟨z, v, heq, hz, hv⟩ := (accepts_cons_iff hx).mp h
      cases p with
      | nil => cases heq
      | cons y p =>
        cases heq
        rw [covers_cons_cons hx, Bool.and_eq_true]
        refine ⟨?_, ih hfresh.2 hp.tail hv⟩
        cases x with
        | rest => exact absurd rfl hx
        | any =>
          cases y with
          | rest => exact absurd rfl hp.head_ne
          | any => rfl
          | lit b => rfl
        | lit a =>
          -- a literal takes the sample of a slot only if it is the literal of that slot
          have ha : y.sample fresh = a := (hspell _).symm.trans hz
          cases y with
          | rest => exact absurd rfl hp.head_ne
          | any => exact absurd (congrArg Slot.lit ha) hfresh.1
          | lit b => exact decide_eq_true ha.symm

theorem exists_fresh [Infinite α] (qs : List (List (Slot α))) :
    ∃ fresh : α, ∀ q ∈ qs, Slot.lit fresh ∉ q := by
  obtain ⟨fresh, hfresh⟩ :=
    Infinite.exists_notMem_finset (qs.flatten.filterMap Slot.lit?).toFinset
  refine ⟨fresh, ?_⟩
  intro q hq hmem
  apply hfresh
  rw [List.mem_toFinset, List.mem_filterMap]
  exact ⟨_, List.mem_flatten.mpr ⟨q, hq, hmem⟩, rfl⟩

/-! ## Inclusion in a union -/

/-- A pattern without `rest` is included in a union iff one member covers it. -/
theorem RestFree.forall_exists_accepts_iff [Infinite α] (hreads : Function.Surjective reads)
    (hqs : ∀ q ∈ qs, RestLast q) (hp : RestFree p) :
    (∀ w, Accepts reads p w → ∃ q ∈ qs, Accepts reads q w) ↔ ∃ q ∈ qs, covers q p = true := by
  constructor
  · -- whoever takes a sample with a literal that occurs nowhere covers the pattern
    intro h
    obtain ⟨fresh, hfresh⟩ := exists_fresh qs
    have hspell := Function.surjInv_eq hreads
    obtain ⟨q, hq, hw⟩ := h _ (accepts_sample hspell fresh hp)
    exact ⟨q, hq, covers_of_accepts_sample hspell (hfresh q hq) hp hw⟩
  · rintro ⟨q, hq, hcovers⟩ w hw
    exact ⟨q, hq, accepts_of_covers (hqs q hq) hcovers hw⟩

/-- **Inclusion in a union**: for every number of wildcards in place of a `rest`, one member
    covers the pattern. -/
theorem forall_exists_accepts_iff [Infinite α] (hreads : Function.Surjective reads)
    (hqs : ∀ q ∈ qs, RestLast q) (hp : RestLast p) :
    (∀ w, Accepts reads p w → ∃ q ∈ qs, Accepts reads q w) ↔
      ∀ n, ∃ q ∈ qs, covers q (unroll n p) = true := by
  simp only [← (unroll_restFree _).forall_exists_accepts_iff hreads hqs, accepts_iff_unroll hp]
  constructor
  · exact fun h n w hw => h w ⟨n, hw⟩
  · rintro h w ⟨n, hw⟩
    exact h n w hw

/-! ## Deciding inclusion -/

/-- A pattern that covers a longer one covers its continuations. -/
theorem covers_append (h : covers q p = true) (hlt : q.length < p.length) (r : List (Slot α)) :
    covers q (p ++ r) = true := by
  induction q generalizing p with
  | nil =>
    cases p with
    | nil => simp at hlt
    | cons y p => cases h
  | cons x q ih =>
    by_cases hx : x = .rest
    · rw [hx, covers]
    · cases p with
      | nil => simp at hlt
      | cons y p =>
        rw [covers_cons_cons hx, Bool.and_eq_true] at h
        rw [List.cons_append, covers_cons_cons hx, h.1, ih h.2 (by simpa using hlt)]
        rfl

/-- What covers a pattern with more wildcards than it is long covers it with any more of them. -/
theorem covers_unroll (hp : RestLast p) {n m : Nat} (h : covers q (unroll n p) = true)
    (hq : q.length < n) (hle : n ≤ m) : covers q (unroll m p) = true := by
  by_cases hfree : RestFree p
  · rw [hfree.unroll_eq] at h ⊢
    exact h
  · obtain ⟨front, hfront, rfl⟩ := hp.exists_front hfree
    obtain ⟨k, rfl⟩ := Nat.exists_eq_add_of_le hle
    rw [unroll_front hfront] at h
    rw [unroll_front hfront, List.replicate_add, ← List.append_assoc]
    refine covers_append h ?_ _
    rw [List.length_append, List.length_replicate]
    omega

/-- Looking at finitely many numbers of wildcards is enough. -/
theorem covered_iff_forall (hp : RestLast p) :
    covered qs p = true ↔ ∀ n, ∃ q ∈ qs, covers q (unroll n p) = true := by
  simp only [covered, List.all_eq_true, List.any_eq_true, List.mem_range]
  constructor
  · intro h n
    by_cases hn : n < longest qs + 2
    · exact h n hn
    · -- beyond the longest member only a `rest` can cover the wildcards
      obtain ⟨q, hq, hcovers⟩ := h (longest qs + 1) (by omega)
      have hlen := length_le_longest hq
      exact ⟨q, hq, covers_unroll hp hcovers (by omega) (by omega)⟩
  · exact fun h n _ => h n

/-- **The test decides inclusion in a union.** -/
theorem covered_iff [Infinite α] (hreads : Function.Surjective reads)
    (hqs : ∀ q ∈ qs, RestLast q) (hp : RestLast p) :
    covered qs p = true ↔ ∀ w, Accepts reads p w → ∃ q ∈ qs, Accepts reads q w :=
  (covered_iff_forall hp).trans (forall_exists_accepts_iff hreads hqs hp).symm

/-- Two patterns that cover a third one only together. -/
example : covered [[], [.any, .rest]] [(.rest : Slot Nat)] = true := by decide

end Covers

end GrpcGw.Pattern
