import Mathlib.Data.List.Basic

/-!
# Reorderings by Key

Two lists that differ by moving elements with different keys past each other, and folds that
cannot tell them apart.

- `KeyedReorder`: the elements of every key come in the same order.
- `KeyedReorder.foldl_eq`: a fold whose steps commute for different keys gives the same result.
-/

namespace GrpcGw.Pattern

universe u v w

variable {α : Type u} {κ : Type v} {σ : Type w} [DecidableEq κ] {key : α → κ} {l l' : List α}

/-- The elements of every key come in the same order. -/
def KeyedReorder (key : α → κ) (l l' : List α) : Prop :=
  ∀ k, l.filter (key · = k) = l'.filter (key · = k)

theorem KeyedReorder.mem_iff (h : KeyedReorder key l l') {x : α} : x ∈ l ↔ x ∈ l' := by
  have hfilter : x ∈ l.filter (key · = key x) ↔ x ∈ l'.filter (key · = key x) := by
    rw [h (key x)]
  simpa [List.mem_filter] using hfilter

/-- The first element of one list stands in the other behind elements of other keys. -/
theorem KeyedReorder.exists_split {x : α} (h : KeyedReorder key (x :: l) l') :
    ∃ a b, l' = a ++ x :: b ∧ (∀ y ∈ a, key y ≠ key x) ∧ KeyedReorder key l (a ++ b) := by
  have hx := h (key x)
  rw [List.filter_cons_of_pos (by simp), eq_comm, List.filter_eq_cons_iff] at hx
  obtain ⟨a, b, rfl, ha, -, hb⟩ := hx
  have ha : ∀ y ∈ a, key y ≠ key x := fun y hy => by simpa using ha y hy
  refine ⟨a, b, rfl, ha, ?_⟩
  intro k
  by_cases hk : key x = k
  · -- the elements of this key all come behind the first one
    subst hk
    have hnil : a.filter (key · = key x) = [] := by simpa [List.filter_eq_nil_iff] using ha
    rw [List.filter_append, hnil, List.nil_append, hb]
  · have hk' := h k
    rw [List.filter_cons_of_neg (by simpa using hk), List.filter_append,
      List.filter_cons_of_neg (by simpa using hk)] at hk'
    rw [hk', List.filter_append]

/-- An element may be moved to the front past elements of other keys. -/
theorem KeyedReorder.cons_middle {x : α} {a b : List α} (h : KeyedReorder key (a ++ b) l)
    (ha : ∀ y ∈ a, key y ≠ key x) : KeyedReorder key (a ++ x :: b) (x :: l) := by
  intro k
  have hk := h k
  rw [List.filter_append] at hk ⊢
  by_cases hx : key x = k
  · have hnil : a.filter (key · = k) = [] := by
      rw [← hx]
      simpa [List.filter_eq_nil_iff] using ha
    rw [hnil, List.nil_append] at hk
    rw [hnil, List.nil_append, List.filter_cons_of_pos (by simpa using hx),
      List.filter_cons_of_pos (by simpa using hx), hk]
  · rw [List.filter_cons_of_neg (by simpa using hx), List.filter_cons_of_neg (by simpa using hx),
      hk]

/-- A step may be taken first if it commutes with the ones in front of it. -/
theorem foldl_move {f : σ → α → σ} {I : σ → Prop} {x : α} {a : List α} (b : List α)
    (hstep : ∀ s, I s → ∀ y ∈ a, I (f s y))
    (hcomm : ∀ s, I s → ∀ y ∈ a, f (f s y) x = f (f s x) y) {s : σ} (hs : I s) :
    (a ++ x :: b).foldl f s = (a ++ b).foldl f (f s x) := by
  induction a generalizing s with
  | nil => rfl
  | cons y a ih =>
    have hy : y ∈ y :: a := List.mem_cons_self
    rw [List.cons_append, List.cons_append, List.foldl_cons, List.foldl_cons,
      ih (fun s hs z hz => hstep s hs z (List.mem_cons_of_mem _ hz))
        (fun s hs z hz => hcomm s hs z (List.mem_cons_of_mem _ hz)) (hstep s hs y hy),
      hcomm s hs y hy]

/-- **A fold whose steps commute for different keys** gives the same result in both orders. The
    invariant `I` holds of every state that the fold passes. -/
theorem KeyedReorder.foldl_eq {f : σ → α → σ} {I : σ → Prop} (h : KeyedReorder key l l')
    (hstep : ∀ s, I s → ∀ y ∈ l, I (f s y))
    (hcomm : ∀ s, I s → ∀ y ∈ l, ∀ z ∈ l, key y ≠ key z → f (f s y) z = f (f s z) y)
    {s : σ} (hs : I s) : l.foldl f s = l'.foldl f s := by
  induction l generalizing l' s with
  | nil =>
    cases l' with
    | nil => rfl
    | cons x l' => exact absurd (h.mem_iff.mpr List.mem_cons_self) List.not_mem_nil
  | cons x l ih =>
    -- `x` stands somewhere in `l'`, behind steps with other keys: move it to the front
    obtain ⟨a, b, rfl, ha, hrest⟩ := h.exists_split
    have hmem : ∀ y ∈ a, y ∈ x :: l := fun y hy => h.mem_iff.mpr (List.mem_append_left _ hy)
    have hx : x ∈ x :: l := List.mem_cons_self
    rw [List.foldl_cons, foldl_move b (fun s hs y hy => hstep s hs y (hmem y hy))
      (fun s hs y hy => hcomm s hs y (hmem y hy) x hx (ha y hy)) hs]
    exact ih hrest (fun s hs y hy => hstep s hs y (List.mem_cons_of_mem _ hy))
      (fun s hs y hy z hz => hcomm s hs y (List.mem_cons_of_mem _ hy) z (List.mem_cons_of_mem _ hz))
      (hstep s hs x hx)

end GrpcGw.Pattern
