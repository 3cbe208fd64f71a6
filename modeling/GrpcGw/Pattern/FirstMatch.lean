import Mathlib.Data.List.Basic
import Mathlib.Data.List.Perm.Basic

/-!
# First-Match Rule Lists

A rule list is searched from the front and the first rule that takes a request wins. A *clash*
test compares two rules without looking at requests. When the test is exact (two rules clash iff
some request is taken by both), the first earlier clash of a rule is the rule that wins some of
its requests, and a list without clashes dispatches the same way in every order.

- `dispatch_of_firstClash_none`, `exists_dispatch_of_firstClash`: what the clash report says
  about dispatch.
- `findSome?_eq_of_perm`: a search with at most one hit does not depend on the order.
- `findIdx?_filterMap_eq_some_iff`: searching a filtered list is searching the list for a kept
  element.
-/

namespace GrpcGw.Pattern

variable {ρ ξ : Type*}

/-! ## Dispatch -/

/-- The position of the first rule that takes the request. -/
def dispatch (takes : ρ → ξ → Bool) (rules : List ρ) (x : ξ) : Option Nat :=
  rules.findIdx? (takes · x)

theorem dispatch_eq_some_iff {takes : ρ → ξ → Bool} {rules : List ρ} {x : ξ} {i : Nat} :
    dispatch takes rules x = some i ↔
      ∃ r, rules[i]? = some r ∧ takes r x = true ∧
        ∀ k < i, ∀ t, rules[k]? = some t → takes t x = false := by
  rw [dispatch, List.findIdx?_eq_some_iff_getElem]
  constructor
  · rintro ⟨hi, hx, hfirst⟩
    refine ⟨rules[i], List.getElem?_eq_getElem hi, hx, ?_⟩
    intro k hk t ht
    have := hfirst k hk
    rw [List.getElem?_eq_getElem (by omega)] at ht
    rw [← Option.some.inj ht]
    simpa using this
  · rintro ⟨r, hr, hx, hfirst⟩
    obtain ⟨hi, rfl⟩ := List.getElem?_eq_some_iff.mp hr
    refine ⟨hi, hx, ?_⟩
    intro k hk
    simpa using hfirst k hk _ (List.getElem?_eq_getElem (by omega))

/-! ## Clash reports -/

/-- The first earlier rule that clashes with the rule at position `j`. -/
def firstClash (clash : ρ → ρ → Bool) (rules : List ρ) (j : Nat) : Option Nat :=
  (List.range j).find? fun i =>
    match rules[i]?, rules[j]? with
    | some r, some s => clash r s
    | _, _ => false

section Clash

variable {clash : ρ → ρ → Bool} {rules : List ρ} {j : Nat} {s : ρ}

theorem firstClash_eq_some_iff {i : Nat} (hs : rules[j]? = some s) :
    firstClash clash rules j = some i ↔
      i < j ∧ ∃ r, rules[i]? = some r ∧ clash r s = true ∧
        ∀ k < i, ∀ t, rules[k]? = some t → clash t s = false := by
  have hj : j < rules.length := (List.getElem?_eq_some_iff.mp hs).1
  rw [firstClash, List.find?_range_eq_some]
  constructor
  · rintro ⟨hclash, hi, hfirst⟩
    have hi : i < j := List.mem_range.mp hi
    -- the range of the search lies inside the table, so every lookup succeeds
    have hget := List.getElem?_eq_getElem (show i < rules.length by omega)
    refine ⟨hi, rules[i], hget, by simpa [hget, hs] using hclash, ?_⟩
    intro k hk t ht
    simpa [ht, hs] using hfirst k hk
  · rintro ⟨hi, r, hr, hclash, hfirst⟩
    refine ⟨by simpa [hr, hs] using hclash, List.mem_range.mpr hi, ?_⟩
    intro k hk
    have hget := List.getElem?_eq_getElem (show k < rules.length by omega)
    simpa [hget, hs] using hfirst k hk _ hget

theorem firstClash_eq_none_iff (hs : rules[j]? = some s) :
    firstClash clash rules j = none ↔
      ∀ i < j, ∀ r, rules[i]? = some r → clash r s = false := by
  have hj : j < rules.length := (List.getElem?_eq_some_iff.mp hs).1
  rw [firstClash, List.find?_eq_none]
  constructor
  · intro h i hi r hr
    simpa [hr, hs] using h i (List.mem_range.mpr hi)
  · intro h i hi
    have hget := List.getElem?_eq_getElem (show i < rules.length by
      have := List.mem_range.mp hi
      omega)
    simpa [hget, hs] using h i (List.mem_range.mp hi) _ hget

variable {takes : ρ → ξ → Bool}
  (hclash : ∀ r ∈ rules, ∀ s ∈ rules, clash r s = true ↔ ∃ x, takes r x ∧ takes s x)

include hclash in
/-- A rule without an earlier clash gets every request it takes. -/
theorem dispatch_of_firstClash_none (hs : rules[j]? = some s)
    (hnone : firstClash clash rules j = none) {x : ξ} (hx : takes s x = true) :
    dispatch takes rules x = some j := by
  rw [firstClash_eq_none_iff hs] at hnone
  refine dispatch_eq_some_iff.mpr ⟨s, hs, hx, ?_⟩
  intro k hk t ht
  -- an earlier rule that takes the request would clash
  by_contra hne
  have hclash' : clash t s = true :=
    (hclash t (List.mem_of_getElem? ht) s (List.mem_of_getElem? hs)).mpr
      ⟨x, by simpa using hne, hx⟩
  rw [hnone k hk t ht] at hclash'
  cases hclash'

include hclash in
/-- The first earlier clash of a rule wins some request that the rule takes. -/
theorem exists_dispatch_of_firstClash {i : Nat} (hs : rules[j]? = some s)
    (hi : firstClash clash rules j = some i) :
    ∃ x, takes s x = true ∧ dispatch takes rules x = some i := by
  obtain ⟨-, r, hr, hrs, hfirst⟩ := (firstClash_eq_some_iff hs).mp hi
  have hs' := List.mem_of_getElem? hs
  obtain ⟨x, hrx, hsx⟩ := (hclash r (List.mem_of_getElem? hr) s hs').mp hrs
  refine ⟨x, hsx, dispatch_eq_some_iff.mpr ⟨r, hr, hrx, ?_⟩⟩
  -- a rule that takes it before the first clash would be an earlier clash
  intro k hk t ht
  by_contra hne
  have hclash' : clash t s = true :=
    (hclash t (List.mem_of_getElem? ht) s hs').mpr ⟨x, by simpa using hne, hsx⟩
  rw [hfirst k hk t ht] at hclash'
  cases hclash'

/-- Pairwise clash-freedom is the absence of reports. -/
theorem pairwise_iff_firstClash_none :
    rules.Pairwise (fun r s => clash r s = false) ↔ ∀ j, firstClash clash rules j = none := by
  rw [List.pairwise_iff_getElem]
  constructor
  · intro h j
    cases hs : rules[j]? with
    | none => simp [firstClash, hs]
    | some s =>
      rw [firstClash_eq_none_iff hs]
      intro i hi r hr
      obtain ⟨hj', rfl⟩ := List.getElem?_eq_some_iff.mp hs
      obtain ⟨hi', rfl⟩ := List.getElem?_eq_some_iff.mp hr
      exact h i j hi' hj' hi
  · intro h i j hi hj hij
    exact (firstClash_eq_none_iff (List.getElem?_eq_getElem hj)).mp (h j) i hij _
      (List.getElem?_eq_getElem hi)

end Clash

/-! ## Order -/

/-- A search with at most one hit does not depend on the order of the list. -/
theorem findSome?_eq_of_perm {α β : Type*} {f : α → Option β} {l l' : List α} (h : l.Perm l')
    (hone : l.Pairwise (fun a b => f a = none ∨ f b = none)) :
    l.findSome? f = l'.findSome? f := by
  induction h with
  | nil => rfl
  | cons x _ ih =>
    simp only [List.findSome?_cons]
    rw [ih (List.pairwise_cons.mp hone).2]
  | swap x y l =>
    obtain ⟨hy, -⟩ := List.pairwise_cons.mp hone
    have hxy := hy x List.mem_cons_self
    simp only [List.findSome?_cons]
    rcases hxy with h | h
    · rw [h]
    · rw [h]
  | trans h₁ _ ih₁ ih₂ =>
    -- the assumption is symmetric, so it holds of the list in the middle too
    have hsymm : ∀ {a b : α}, (f a = none ∨ f b = none) → (f b = none ∨ f a = none) := Or.symm
    rw [ih₁ hone, ih₂ ((h₁.pairwise_iff hsymm).mp hone)]

/-! ## Positions in a filtered list -/

section Rank

variable {α β : Type*} (f : α → Option β)

/-- The position in `l.filterMap f` of what becomes of the element at position `i` of `l`: the
    number of elements before it that are kept. -/
def rank (l : List α) (i : Nat) : Nat :=
  ((l.take i).filterMap f).length

variable {f} {l : List α} {i j p : Nat} {a : α} {b : β}

theorem rank_le (h : i ≤ j) : rank f l i ≤ rank f l j :=
  ((List.take_sublist_take_left h).filterMap f).length_le

/-- Positions of kept elements keep their order. -/
theorem rank_lt (h : i < j) (ha : l[i]? = some a) (hb : f a = some b) :
    rank f l i < rank f l j := by
  have hnext : rank f l (i + 1) = rank f l i + 1 := by
    simp [rank, List.take_add_one, ha, hb]
  have := rank_le (f := f) (l := l) (show i + 1 ≤ j from h)
  omega

theorem lt_of_rank_lt (h : rank f l i < rank f l j) : i < j := by
  by_contra hle
  have := rank_le (f := f) (l := l) (Nat.le_of_not_lt hle)
  omega

theorem getElem?_rank (ha : l[i]? = some a) (hb : f a = some b) :
    (l.filterMap f)[rank f l i]? = some b := by
  obtain ⟨hi, rfl⟩ := List.getElem?_eq_some_iff.mp ha
  have hsplit : l.filterMap f =
      (l.take i).filterMap f ++ b :: (l.drop (i + 1)).filterMap f := by
    conv_lhs => rw [← List.take_append_drop i l, List.drop_eq_getElem_cons hi]
    rw [List.filterMap_append, List.filterMap_cons_some hb]
  rw [hsplit, rank, List.getElem?_append_right (Nat.le_refl _)]
  simp

/-- If every element is kept, the positions are those of the list. -/
theorem rank_of_total (h : ∀ a ∈ l, (f a).isSome = true) (hi : i ≤ l.length) : rank f l i = i := by
  have hlen : ((l.take i).filterMap f).length = (l.take i).length :=
    List.filterMap_length_eq_length.mpr fun a ha => h a (List.mem_of_mem_take ha)
  rw [rank, hlen, List.length_take]
  exact Nat.min_eq_left hi

/-- Every position of the filtered list is the rank of a kept element. -/
theorem exists_rank (h : (l.filterMap f)[p]? = some b) :
    ∃ i a, l[i]? = some a ∧ f a = some b ∧ rank f l i = p := by
  induction l generalizing p with
  | nil => simp at h
  | cons x l ih =>
    cases hx : f x with
    | none =>
      -- a dropped element shifts the positions of the list only
      rw [List.filterMap_cons_none hx] at h
      obtain ⟨i, a, ha, hb, hp⟩ := ih h
      exact ⟨i + 1, a, ha, hb, by simpa [rank, hx] using hp⟩
    | some y =>
      rw [List.filterMap_cons_some hx] at h
      cases p with
      | zero =>
        refine ⟨0, x, rfl, ?_, by simp [rank]⟩
        rw [hx]
        exact h
      | succ p =>
        obtain ⟨i, a, ha, hb, hp⟩ := ih (by simpa using h)
        exact ⟨i + 1, a, ha, hb, by simp [rank, hx, ← hp]⟩

/-- A kept element is determined by its rank. -/
theorem rank_injective {a' : α} {b' : β} (ha : l[i]? = some a) (hb : f a = some b)
    (ha' : l[j]? = some a') (hb' : f a' = some b') (h : rank f l i = rank f l j) : i = j := by
  rcases Nat.lt_trichotomy i j with hlt | heq | hlt
  · have := rank_lt hlt ha hb
    omega
  · exact heq
  · have := rank_lt hlt ha' hb'
    omega

/-- The first hit of a filtered list is the rank of the first kept hit. -/
theorem findIdx?_filterMap_eq_some_iff {hit : β → Bool} :
    (l.filterMap f).findIdx? hit = some p ↔
      ∃ i a b, l[i]? = some a ∧ f a = some b ∧ rank f l i = p ∧ hit b = true ∧
        ∀ k < i, ∀ a', l[k]? = some a' → ∀ b', f a' = some b' → hit b' = false := by
  rw [show (l.filterMap f).findIdx? hit =
    dispatch (fun b (_ : Unit) => hit b) (l.filterMap f) () from rfl, dispatch_eq_some_iff]
  constructor
  · rintro ⟨b, hb, hhit, hfirst⟩
    obtain ⟨i, a, ha, hab, rfl⟩ := exists_rank hb
    refine ⟨i, a, b, ha, hab, rfl, hhit, ?_⟩
    intro k hk a' ha' b' hb'
    exact hfirst _ (rank_lt hk ha' hb') b' (getElem?_rank ha' hb')
  · rintro ⟨i, a, b, ha, hab, rfl, hhit, hfirst⟩
    refine ⟨b, getElem?_rank ha hab, hhit, ?_⟩
    intro q hq b' hb'
    obtain ⟨k, a', ha', hab', rfl⟩ := exists_rank hb'
    exact hfirst k (lt_of_rank_lt hq) a' ha' b' hab'

end Rank

end GrpcGw.Pattern
