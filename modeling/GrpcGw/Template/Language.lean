import GrpcGw.Template.WellFormed
import GrpcGw.Pattern.Slots

/-!
# Path Templates: the Language of a Template

A template denotes the slot pattern it becomes when every variable is replaced in place by its
sub-pattern. The matcher counts segments and runs a second matcher for sub-patterns instead; the
two agree on every template with the parser's invariant.

- `Consumes`: left-to-right consumption in place, with the captures it yields.
- `matchSegments_eq_some_iff`: the matcher computes exactly `Consumes`.
- `PathTemplate.matches_isSome_iff`: a template matches the segments its slot pattern accepts.
-/

namespace GrpcGw.Template

open GrpcGw.Text
open GrpcGw.Pattern

/-! ## Slots of a template -/

/-- The slot of a segment that is not a variable. -/
def Segment.slot? : Segment → Option (Slot String)
  | .literal lit => some (.lit lit)
  | .single => some .any
  | .catchAll => some .rest
  | .variable _ => none

/-- `push_seg`: the slots a segment expands to. A variable inside a sub-pattern does not occur in
    a parsed template and expands to nothing. -/
def pushSeg (vars : List VarSpec) : Segment → List (Slot String)
  | .variable i =>
    match vars[i]? with
    | some var => var.sub.filterMap Segment.slot?
    | none => []
  | s => s.slot?.toList

/-- `template_slots`: the structural slots of a template. -/
def templateSlots (t : PathTemplate) : List (Slot String) :=
  t.segments.flatMap (pushSeg t.vars)

/-! ## Consumption in place -/

/-- The capture of a segment that has consumed a chunk of the path. -/
def Segment.captured (vars : List VarSpec) (s : Segment) (chunk : List String) : Captures :=
  match s with
  | .variable i =>
    match vars[i]? with
    | some var => [(var.fieldPath, join "/" (chunk.map decode))]
    | none => []
  | _ => []

/-- The path is consumed from left to right, each segment taking a chunk that the slots it
    expands to accept. -/
inductive Consumes (vars : List VarSpec) : List Segment → List String → Captures → Prop where
  | nil : Consumes vars [] [] []
  | cons {s : Segment} {segs : List Segment} {chunk input : List String} {caps : Captures} :
      Accepts decode (pushSeg vars s) chunk →
      Consumes vars segs input caps →
      Consumes vars (s :: segs) (chunk ++ input) (s.captured vars chunk ++ caps)

/-- Segment lists over a variable table as the parser builds them. -/
structure Matchable (vars : List VarSpec) (segs : List Segment) : Prop where
  bounded_dropLast : ∀ s ∈ segs.dropLast, s.Bounded vars
  vars_wellFormed : ∀ i, .variable i ∈ segs → ∃ var, vars[i]? = some var ∧ var.WellFormed

theorem PathTemplate.WellFormed.index_lt {t : PathTemplate} (h : t.WellFormed) {i : Nat}
    (hi : .variable i ∈ t.segments) : i < t.vars.length := by
  have : i ∈ t.segments.filterMap Segment.varIndex? := List.mem_filterMap.mpr ⟨_, hi, rfl⟩
  rw [h.variables_eq] at this
  exact List.mem_range.mp this

theorem PathTemplate.WellFormed.matchable {t : PathTemplate} (h : t.WellFormed) :
    Matchable t.vars t.segments := by
  refine ⟨h.bounded_dropLast, ?_⟩
  intro i hi
  have hlt := h.index_lt hi
  exact ⟨_, List.getElem?_eq_getElem hlt, h.vars_wellFormed _ (List.getElem_mem hlt)⟩

theorem Matchable.tail {vars : List VarSpec} {s : Segment} {segs : List Segment}
    (h : Matchable vars (s :: segs)) : Matchable vars segs := by
  refine ⟨?_, fun i hi => h.vars_wellFormed i (List.mem_cons_of_mem _ hi)⟩
  intro x hx
  cases segs with
  | nil => cases hx
  | cons s' segs => exact h.bounded_dropLast x (List.mem_cons_of_mem _ hx)

/-- A segment in front of another one is bounded. -/
theorem Matchable.bounded_head {vars : List VarSpec} {s : Segment} {segs : List Segment}
    (h : Matchable vars (s :: segs)) (hne : segs ≠ []) : s.Bounded vars := by
  cases segs with
  | nil => exact absurd rfl hne
  | cons s' segs => exact h.bounded_dropLast s List.mem_cons_self

/-! ## Sub-patterns -/

theorem slot?_eq_rest_iff {s : Segment} : s.slot? = some .rest ↔ s = .catchAll := by
  cases s <;> simp [Segment.slot?]

/-- The sub-pattern matcher decides the language of the sub-pattern's slots. -/
theorem subPatternMatches_iff {sub : List Segment} (hflat : ∀ s ∈ sub, s.varIndex? = none)
    (input : List String) :
    subPatternMatches sub input = true ↔ Accepts decode (sub.filterMap Segment.slot?) input := by
  induction sub generalizing input with
  | nil =>
    cases input with
    | nil => simp [subPatternMatches, Accepts]
    | cons x input => simp [subPatternMatches, Accepts]
  | cons s sub ih =>
    have ih := ih (fun s hs => hflat s (List.mem_cons_of_mem _ hs))
    cases s with
    | literal lit =>
      cases input with
      | nil => simp [subPatternMatches, Segment.slot?, Accepts]
      | cons x input => simp [subPatternMatches, Segment.slot?, Accepts, ih]
    | single =>
      cases input with
      | nil => simp [subPatternMatches, Segment.slot?, Accepts]
      | cons x input => simp [subPatternMatches, Segment.slot?, Accepts, ih]
    | catchAll =>
      -- `**` accepts everything exactly if no slot stands behind it
      have hnil : sub.filterMap Segment.slot? = [] ↔ sub = [] := by
        cases sub with
        | nil => simp
        | cons s' sub =>
          have hs' := hflat s' (by simp)
          cases s' <;> simp [Segment.slot?, Segment.varIndex?] at hs' ⊢
      cases input <;> simp [subPatternMatches, Segment.slot?, Accepts, hnil]
    | «variable» i => cases hflat _ List.mem_cons_self

/-- A sub-pattern accepts no fewer segments than it has slots besides a final `**`. -/
theorem countP_le_of_accepts {sub : List Segment} (hflat : ∀ s ∈ sub, s.varIndex? = none)
    {input : List String} (h : Accepts decode (sub.filterMap Segment.slot?) input) :
    sub.countP (· ≠ .catchAll) ≤ input.length := by
  -- in terms of the matcher, every segment but `**` takes one off the front
  rw [← subPatternMatches_iff hflat] at h
  induction sub generalizing input with
  | nil => simp
  | cons s sub ih =>
    have ih := @ih (fun s hs => hflat s (List.mem_cons_of_mem _ hs))
    cases s with
    | literal lit =>
      cases input with
      | nil => simp [subPatternMatches] at h
      | cons x input =>
        simp only [subPatternMatches, Bool.and_eq_true] at h
        simpa using ih h.2
    | single =>
      cases input with
      | nil => simp [subPatternMatches] at h
      | cons x input =>
        simp only [subPatternMatches] at h
        simpa using ih h
    | catchAll =>
      have hnil : sub = [] := by cases input <;> simpa [subPatternMatches] using h
      simp [hnil]
    | «variable» i => cases hflat _ List.mem_cons_self

/-- A variable captures as many segments as it takes, if its sub-pattern matches them. -/
theorem VarSpec.capture_eq_some_iff {var : VarSpec} {input : List String}
    {r : (List String × String) × List String} :
    var.capture input = some r ↔
      ∃ n, var.take input = some n ∧ subPatternMatches var.sub (input.take n) = true ∧
        r = ((var.fieldPath, join "/" ((input.take n).map decode)), input.drop n) := by
  unfold VarSpec.capture
  cases var.take input with
  | none => simp
  | some n =>
    simp only [Option.some.injEq, exists_eq_left']
    by_cases hsub : subPatternMatches var.sub (input.take n) = true
    · rw [if_pos hsub, Option.some.injEq]
      exact ⟨fun h => ⟨hsub, h.symm⟩, fun h => h.2.symm⟩
    · simp [hsub]

namespace VarSpec.WellFormed

variable {var : VarSpec}

theorem count_exact (h : var.WellFormed) {n : Nat} (hn : var.count = .exact n) :
    RestFree (var.sub.filterMap Segment.slot?) ∧
      n = (var.sub.filterMap Segment.slot?).length := by
  have hcount := h.count_eq
  unfold segmentCount at hcount
  split at hcount
  · rw [hn] at hcount
    cases hcount
  · next hcatch =>
    -- without `**` no slot is unbounded, and every segment counts
    rw [hn] at hcount
    constructor
    · intro hrest
      obtain ⟨s, hs, hslot⟩ := List.mem_filterMap.mp hrest
      exact hcatch (slot?_eq_rest_iff.mp hslot ▸ hs)
    · have hlen : (var.sub.filterMap Segment.slot?).length = var.sub.length := by
        rw [List.filterMap_length_eq_length]
        intro s hs
        have := h.sub_flat s hs
        cases s <;> simp [Segment.slot?, Segment.varIndex?] at this ⊢
      have hall : var.sub.countP (· ≠ .catchAll) = var.sub.length := by
        rw [List.countP_eq_length]
        intro s hs
        have : s ≠ .catchAll := fun heq => hcatch (heq ▸ hs)
        simpa using this
      rw [hlen, ← hall]
      exact SegmentCount.exact.inj hcount

theorem count_atLeast (h : var.WellFormed) {min : Nat} (hmin : var.count = .atLeast min) :
    min = var.sub.countP (· ≠ .catchAll) := by
  have hcount := h.count_eq
  unfold segmentCount at hcount
  split at hcount
  · rw [hmin] at hcount
    exact SegmentCount.atLeast.inj hcount
  · rw [hmin] at hcount
    cases hcount

/-- A variable of fixed length captures the prefix of that length. -/
theorem capture_exact (h : var.WellFormed) {n : Nat} (hn : var.count = .exact n)
    (input : List String) (r : (List String × String) × List String) :
    var.capture input = some r ↔
      ∃ chunk tail, input = chunk ++ tail ∧
        Accepts decode (var.sub.filterMap Segment.slot?) chunk ∧
        r = ((var.fieldPath, join "/" (chunk.map decode)), tail) := by
  obtain ⟨hfree, hlen⟩ := h.count_exact hn
  rw [capture_eq_some_iff]
  constructor
  · rintro ⟨k, htake, hsub, rfl⟩
    have hacc := (subPatternMatches_iff h.sub_flat _).mp hsub
    exact ⟨_, _, (List.take_append_drop k input).symm, hacc, rfl⟩
  · -- the chunk is as long as the sub-pattern, which is what the variable takes
    rintro ⟨chunk, tail, rfl, hchunk, rfl⟩
    have hchunk_len : chunk.length = n := by rw [hchunk.length_eq hfree, hlen]
    have hsub := (subPatternMatches_iff h.sub_flat chunk).mpr hchunk
    refine ⟨n, by simp [VarSpec.take, hn, hchunk_len], ?_, ?_⟩
    · rwa [List.take_left' hchunk_len]
    · rw [List.take_left' hchunk_len, List.drop_left' hchunk_len]

/-- A variable that ends in `**` captures all that is left. -/
theorem capture_atLeast (h : var.WellFormed) {min : Nat} (hmin : var.count = .atLeast min)
    (input : List String) (r : (List String × String) × List String) :
    var.capture input = some r ↔
      Accepts decode (var.sub.filterMap Segment.slot?) input ∧
        r = ((var.fieldPath, join "/" (input.map decode)), []) := by
  have hiff := subPatternMatches_iff h.sub_flat input
  -- whatever the minimum is, the variable takes the whole input
  have htake : ∀ k, var.take input = some k → k = input.length := by
    intro k hk
    simp only [VarSpec.take, hmin] at hk
    split at hk
    · cases hk
    · exact (Option.some.inj hk).symm
  rw [capture_eq_some_iff]
  constructor
  · rintro ⟨k, hk, hsub, rfl⟩
    obtain rfl := htake k hk
    rw [List.take_length] at hsub ⊢
    exact ⟨hiff.mp hsub, by rw [List.drop_length]⟩
  · rintro ⟨hacc, rfl⟩
    -- what the sub-pattern accepts is long enough
    have hlen : min ≤ input.length := by
      rw [h.count_atLeast hmin]
      exact countP_le_of_accepts h.sub_flat hacc
    refine ⟨input.length, by simp [VarSpec.take, hmin, hlen], ?_, ?_⟩
    · rw [List.take_length]
      exact hiff.mpr hacc
    · rw [List.take_length, List.drop_length]

end VarSpec.WellFormed

/-! ## The matcher -/

theorem consumes_nil_iff {vars : List VarSpec} {input : List String} {out : Captures} :
    Consumes vars [] input out ↔ input = [] ∧ out = [] := by
  constructor
  · intro h
    cases h
    exact ⟨rfl, rfl⟩
  · rintro ⟨rfl, rfl⟩
    exact .nil

theorem consumes_cons_iff {vars : List VarSpec} {s : Segment} {segs : List Segment}
    {input : List String} {out : Captures} :
    Consumes vars (s :: segs) input out ↔
      ∃ chunk tail caps, input = chunk ++ tail ∧ Accepts decode (pushSeg vars s) chunk ∧
        Consumes vars segs tail caps ∧ out = s.captured vars chunk ++ caps := by
  constructor
  · intro h
    cases h with
    | cons hchunk htail => exact ⟨_, _, _, rfl, hchunk, htail, rfl⟩
  · rintro ⟨chunk, tail, caps, rfl, hchunk, htail, rfl⟩
    exact .cons hchunk htail

/-- A segment with a single one-letter slot consumes one path segment. -/
theorem consumes_cons_one {vars : List VarSpec} {s : Segment} {segs : List Segment}
    {slot : Slot String} (hslot : pushSeg vars s = [slot]) (hrest : slot ≠ .rest)
    (hcap : ∀ chunk, s.captured vars chunk = []) {input : List String} {out : Captures} :
    Consumes vars (s :: segs) input out ↔
      ∃ x tail, input = x :: tail ∧ Accepts decode [slot] [x] ∧ Consumes vars segs tail out := by
  rw [consumes_cons_iff]
  constructor
  · rintro ⟨chunk, tail, caps, rfl, hchunk, htail, rfl⟩
    -- a chunk that one slot accepts has one segment, unless the slot is `**`
    rw [hslot] at hchunk
    have hlen : chunk.length = 1 := hchunk.length_eq (by simpa [RestFree] using hrest.symm)
    obtain ⟨x, rfl⟩ := List.length_eq_one_iff.mp hlen
    exact ⟨x, tail, rfl, hchunk, by rwa [hcap]⟩
  · rintro ⟨x, tail, rfl, hx, htail⟩
    exact ⟨[x], tail, out, rfl, by rwa [hslot], htail, by rw [hcap]; rfl⟩

/-- A final `**` consumes everything and captures nothing. -/
theorem consumes_catchAll_iff {vars : List VarSpec} {input : List String} {out : Captures} :
    Consumes vars [.catchAll] input out ↔ out = [] := by
  rw [consumes_cons_iff]
  constructor
  · rintro ⟨chunk, tail, caps, -, -, htail, rfl⟩
    obtain ⟨-, rfl⟩ := consumes_nil_iff.mp htail
    rfl
  · rintro rfl
    exact ⟨input, [], [], (List.append_nil input).symm, rfl, .nil, rfl⟩

section Variable

variable {vars : List VarSpec} {i : Nat} {var : VarSpec} {segs : List Segment}
  {input : List String}

/-- A variable consumes a chunk that its sub-pattern accepts, and captures it. -/
theorem consumes_variable_iff (hvar : vars[i]? = some var) {out : Captures} :
    Consumes vars (.variable i :: segs) input out ↔
      ∃ chunk tail caps, input = chunk ++ tail ∧
        Accepts decode (var.sub.filterMap Segment.slot?) chunk ∧ Consumes vars segs tail caps ∧
        out = (var.fieldPath, join "/" (chunk.map decode)) :: caps := by
  have hpush : pushSeg vars (.variable i) = var.sub.filterMap Segment.slot? := by
    simp [pushSeg, hvar]
  have hcapt : ∀ chunk, (Segment.variable i).captured vars chunk =
      [(var.fieldPath, join "/" (chunk.map decode))] := by
    intro chunk
    simp [Segment.captured, hvar]
  simp only [consumes_cons_iff, hpush, hcapt, List.singleton_append]

theorem matchSegments_variable_iff (hvar : vars[i]? = some var) {captures out : Captures} :
    matchSegments vars (.variable i :: segs) input captures = some out ↔
      ∃ r, var.capture input = some r ∧
        matchSegments vars segs r.2 (captures ++ [r.1]) = some out := by
  rw [matchSegments, hvar]
  cases hcap : var.capture input with
  | none => simp [hcap]
  | some r => simp [hcap]

/-- A variable at the front of a template has a fixed length, or is the last segment. -/
theorem Matchable.variable_cases (h : Matchable vars (.variable i :: segs)) :
    ∃ var, vars[i]? = some var ∧ var.WellFormed ∧
      ((∃ n, var.count = .exact n) ∨ (∃ min, var.count = .atLeast min) ∧ segs = []) := by
  obtain ⟨var, hvar, hwf⟩ := h.vars_wellFormed i List.mem_cons_self
  refine ⟨var, hvar, hwf, ?_⟩
  cases hcount : var.count with
  | exact n => exact .inl ⟨n, rfl⟩
  | atLeast min =>
    right
    refine ⟨⟨min, rfl⟩, ?_⟩
    -- in front of another segment the variable would be bounded
    by_contra hne
    obtain ⟨var', n, hvar', hn⟩ := h.bounded_head hne
    rw [hvar] at hvar'
    cases hvar'
    rw [hcount] at hn
    cases hn

end Variable

/-- **The matcher computes consumption in place.** -/
theorem matchSegments_eq_some_iff {vars : List VarSpec} {segs : List Segment}
    (h : Matchable vars segs) (input : List String) (captures out : Captures) :
    matchSegments vars segs input captures = some out ↔
      ∃ caps, Consumes vars segs input caps ∧ out = captures ++ caps := by
  -- the accumulator grows at the end, so it is generalized
  induction segs generalizing input captures with
  | nil =>
    cases input with
    | nil => simp [matchSegments, consumes_nil_iff, eq_comm]
    | cons x input => simp [matchSegments, consumes_nil_iff]
  | cons s segs ih =>
    have ih := ih h.tail
    cases s with
    | literal lit =>
      simp only [consumes_cons_one (s := .literal lit) rfl (by simp) (fun _ => rfl)]
      cases input with
      | nil => simp [matchSegments]
      | cons x input =>
        by_cases hx : decode x = lit
        · simp [matchSegments, Accepts, hx, ih]
        · simp [matchSegments, Accepts, hx]
    | single =>
      simp only [consumes_cons_one (s := .single) rfl (by simp) (fun _ => rfl)]
      cases input with
      | nil => simp [matchSegments]
      | cons x input => simp [matchSegments, Accepts, ih]
    | catchAll =>
      -- a bounded segment is no `**`, so nothing stands behind it
      have hnil : segs = [] := by
        by_contra hne
        exact h.bounded_head hne
      subst hnil
      have hmatch : matchSegments vars [.catchAll] input captures = some captures := by
        cases input <;> rfl
      simp [hmatch, consumes_catchAll_iff, eq_comm]
    | «variable» i =>
      obtain ⟨var, hvar, hwf, ⟨n, hcount⟩ | ⟨⟨min, hcount⟩, rfl⟩⟩ := h.variable_cases
      · -- the prefix of the fixed length is captured, and the rest is matched behind it
        simp only [matchSegments_variable_iff hvar, consumes_variable_iff hvar,
          hwf.capture_exact hcount, ih]
        constructor
        · rintro ⟨r, ⟨chunk, tail, rfl, hchunk, rfl⟩, caps, htail, rfl⟩
          exact ⟨_, ⟨chunk, tail, caps, rfl, hchunk, htail, rfl⟩, by simp⟩
        · rintro ⟨_, ⟨chunk, tail, caps, rfl, hchunk, htail, rfl⟩, rfl⟩
          exact ⟨_, ⟨chunk, tail, rfl, hchunk, rfl⟩, caps, htail, by simp⟩
      · -- everything is captured, and nothing is left
        simp only [matchSegments_variable_iff hvar, consumes_variable_iff hvar,
          hwf.capture_atLeast hcount, ih, consumes_nil_iff]
        constructor
        · rintro ⟨r, ⟨hacc, rfl⟩, caps, ⟨-, rfl⟩, rfl⟩
          exact ⟨_, ⟨input, [], [], by simp, hacc, ⟨rfl, rfl⟩, rfl⟩, by simp⟩
        · rintro ⟨_, ⟨chunk, tail, caps, rfl, hchunk, ⟨rfl, rfl⟩, rfl⟩, rfl⟩
          rw [List.append_nil]
          exact ⟨_, ⟨hchunk, rfl⟩, [], ⟨rfl, rfl⟩, by simp⟩

/-- **A match is consumption in place under the right verb.** -/
theorem PathTemplate.matches_eq_some_iff {t : PathTemplate} (h : t.WellFormed)
    (segments : List String) (verb : Option String) (out : Captures) :
    t.matches segments verb = some out ↔
      t.verb = verb ∧ Consumes t.vars t.segments segments out := by
  unfold PathTemplate.matches
  by_cases hverb : t.verb = verb
  · rw [if_neg (by simpa using hverb), matchSegments_eq_some_iff h.matchable]
    simp [hverb]
  · rw [if_pos hverb]
    simp [hverb]

/-! ## The captured variables -/

theorem Segment.map_fst_captured (vars : List VarSpec) (s : Segment) (chunk : List String) :
    (s.captured vars chunk).map Prod.fst =
      (s.varIndex?.bind fun i => (vars[i]?).map VarSpec.fieldPath).toList := by
  cases s with
  | «variable» i => cases hvar : vars[i]? <;> simp [Segment.captured, Segment.varIndex?, hvar]
  | literal lit => rfl
  | single => rfl
  | catchAll => rfl

theorem Consumes.map_fst {vars : List VarSpec} {segs : List Segment} {input : List String}
    {caps : Captures} (h : Consumes vars segs input caps) :
    caps.map Prod.fst = (segs.filterMap Segment.varIndex?).filterMap
      (fun i => (vars[i]?).map VarSpec.fieldPath) := by
  induction h with
  | nil => rfl
  | @cons s segs chunk input caps _ _ ih =>
    rw [List.map_append, Segment.map_fst_captured, ih]
    cases hs : s.varIndex? with
    | none => simp [List.filterMap_cons_none hs]
    | some i =>
      rw [List.filterMap_cons_some hs, List.filterMap_cons]
      cases hvar : (vars[i]?).map VarSpec.fieldPath <;> simp [hvar]

theorem filterMap_range_getElem? {α β : Type*} (g : α → β) (l : List α) :
    (List.range l.length).filterMap (fun i => (l[i]?).map g) = l.map g := by
  induction l with
  | nil => rfl
  | cons x l ih =>
    simp only [List.length_cons, List.range_succ_eq_map, List.filterMap_cons,
      List.getElem?_cons_zero, Option.map_some, List.filterMap_map, List.map_cons]
    rw [← ih]
    rfl

/-- **A match captures every variable once, in template order.** -/
theorem PathTemplate.WellFormed.map_fst_captures {t : PathTemplate} (h : t.WellFormed)
    {segments : List String} {verb : Option String} {caps : Captures}
    (hmatch : t.matches segments verb = some caps) :
    caps.map Prod.fst = t.vars.map VarSpec.fieldPath := by
  rw [((PathTemplate.matches_eq_some_iff h segments verb caps).mp hmatch).2.map_fst,
    h.variables_eq, filterMap_range_getElem?]

/-- A captured value belongs to a variable of the template. -/
theorem PathTemplate.WellFormed.exists_var_of_mem_captures {t : PathTemplate} (h : t.WellFormed)
    {segments : List String} {verb : Option String} {caps : Captures}
    (hmatch : t.matches segments verb = some caps) {c : List String × String} (hc : c ∈ caps) :
    ∃ var ∈ t.vars, var.fieldPath = c.1 ∧ c.1 ≠ [] := by
  have hfst : c.1 ∈ caps.map Prod.fst := List.mem_map_of_mem hc
  rw [h.map_fst_captures hmatch] at hfst
  obtain ⟨var, hvar, heq⟩ := List.mem_map.mp hfst
  refine ⟨var, hvar, heq, ?_⟩
  rw [← heq]
  exact (h.vars_wellFormed var hvar).fieldPath_ne_nil

/-! ## The language -/

/-- A sub-pattern has a slot. -/
theorem VarSpec.WellFormed.slots_ne_nil {var : VarSpec} (h : var.WellFormed) :
    var.sub.filterMap Segment.slot? ≠ [] := by
  obtain ⟨s, sub, hsub⟩ := List.exists_cons_of_ne_nil h.sub_ne_nil
  have hflat := h.sub_flat s (by simp [hsub])
  rw [hsub]
  cases s <;> simp [Segment.slot?, Segment.varIndex?] at hflat ⊢

theorem pushSeg_ne_nil {vars : List VarSpec} {s : Segment}
    (hwf : ∀ k, s = .variable k → ∃ var, vars[k]? = some var ∧ var.WellFormed) :
    pushSeg vars s ≠ [] := by
  cases s with
  | literal lit => simp [pushSeg, Segment.slot?]
  | single => simp [pushSeg, Segment.slot?]
  | catchAll => simp [pushSeg, Segment.slot?]
  | «variable» k =>
    obtain ⟨var, hvar, hwf⟩ := hwf k rfl
    simp only [pushSeg, hvar]
    exact hwf.slots_ne_nil

theorem Segment.Bounded.restFree {vars : List VarSpec} {s : Segment} (h : s.Bounded vars)
    (hwf : ∀ i, s = .variable i → ∃ var, vars[i]? = some var ∧ var.WellFormed) :
    RestFree (pushSeg vars s) := by
  cases s with
  | literal lit => simp [RestFree, pushSeg, Segment.slot?]
  | single => simp [RestFree, pushSeg, Segment.slot?]
  | catchAll => exact h.elim
  | «variable» i =>
    obtain ⟨var, n, hvar, hn⟩ := h
    obtain ⟨var', hvar', hvwf⟩ := hwf i rfl
    rw [hvar] at hvar'
    cases hvar'
    simp only [pushSeg, hvar]
    exact (hvwf.count_exact hn).1

theorem exists_consumes_cons_iff {vars : List VarSpec} {s : Segment} {segs : List Segment}
    {input : List String} :
    (∃ caps, Consumes vars (s :: segs) input caps) ↔
      ∃ chunk tail, input = chunk ++ tail ∧ Accepts decode (pushSeg vars s) chunk ∧
        ∃ caps, Consumes vars segs tail caps := by
  simp only [consumes_cons_iff]
  constructor
  · rintro ⟨_, chunk, tail, caps, rfl, hchunk, htail, rfl⟩
    exact ⟨chunk, tail, rfl, hchunk, caps, htail⟩
  · rintro ⟨chunk, tail, rfl, hchunk, caps, htail⟩
    exact ⟨_, chunk, tail, caps, rfl, hchunk, htail, rfl⟩

/-- What is consumed in place is what the concatenated slots accept. -/
theorem exists_consumes_iff {vars : List VarSpec} {segs : List Segment} (h : Matchable vars segs)
    (input : List String) :
    (∃ caps, Consumes vars segs input caps) ↔
      Accepts decode (segs.flatMap (pushSeg vars)) input := by
  induction segs generalizing input with
  | nil =>
    cases input with
    | nil => simp [consumes_nil_iff, Accepts]
    | cons x input => simp [consumes_nil_iff, Accepts]
  | cons s segs ih =>
    simp only [exists_consumes_cons_iff, ih h.tail]
    rw [List.flatMap_cons]
    by_cases hne : segs = []
    · -- the last segment may be unbounded
      subst hne
      constructor
      · rintro ⟨chunk, tail, rfl, hchunk, htail⟩
        cases tail with
        | nil => simpa using hchunk
        | cons x tail => exact htail.elim
      · intro hacc
        exact ⟨input, [], by simp, by simpa using hacc, trivial⟩
    · -- in front of other segments the slots are bounded, and the split is unique
      have hfree := (h.bounded_head hne).restFree
        (fun i hi => h.vars_wellFormed i (hi ▸ List.mem_cons_self))
      rw [accepts_append hfree]

/-- **The language of a template is the language of its slots.** -/
theorem PathTemplate.matches_isSome_iff {t : PathTemplate} (h : t.WellFormed)
    (segments : List String) (verb : Option String) :
    (t.matches segments verb).isSome ↔
      t.verb = verb ∧ Accepts decode (templateSlots t) segments := by
  simp only [Option.isSome_iff_exists, PathTemplate.matches_eq_some_iff h, exists_and_left,
    exists_consumes_iff h.matchable, templateSlots]

/-- **The matcher is the template's language**: a parsed template matches the segments that it
    accepts with every variable replaced in place by its sub-pattern, and then captures every
    variable once, in template order, with what its sub-pattern has consumed. -/
theorem PathTemplate.matches_language {s : String} {t : PathTemplate}
    (hparse : PathTemplate.parse s = .ok t) (segments : List String) (verb : Option String) :
    ((t.matches segments verb).isSome ↔
        t.verb = verb ∧ Accepts decode (templateSlots t) segments) ∧
      ∀ caps, t.matches segments verb = some caps →
        Consumes t.vars t.segments segments caps ∧
          caps.map Prod.fst = t.vars.map VarSpec.fieldPath := by
  have hwf := PathTemplate.parse_wellFormed hparse
  refine ⟨PathTemplate.matches_isSome_iff hwf segments verb, ?_⟩
  intro caps hmatch
  have hconsumes := ((PathTemplate.matches_eq_some_iff hwf segments verb caps).mp hmatch).2
  exact ⟨hconsumes, hwf.map_fst_captures hmatch⟩

/-- The language of a template with a sub-pattern and a verb. -/
theorem matches_language_shelves :
    ∃ t, PathTemplate.parse "/v1/{name=shelves/*}/**:get" = .ok t ∧
      Consumes t.vars t.segments ["v1", "shelves", "a%20b", "x"] [(["name"], "shelves/a b")] := by
  refine ⟨_, rfl, ?_⟩
  exact ((PathTemplate.matches_language (s := "/v1/{name=shelves/*}/**:get") rfl
    ["v1", "shelves", "a%20b", "x"] (some "get")).2 _ (by decide)).1

/-- `**` is the last slot of a sub-pattern. -/
theorem restLast_filterMap_slot {sub : List Segment} (hlast : .catchAll ∉ sub.dropLast) :
    RestLast (sub.filterMap Segment.slot?) := by
  induction sub with
  | nil => trivial
  | cons s sub ih =>
    cases sub with
    | nil => cases s <;> trivial
    | cons s' sub =>
      simp only [List.dropLast_cons_cons, List.mem_cons, not_or] at hlast
      have ih := ih hlast.2
      -- in front of another segment there is no `**`
      cases s with
      | catchAll => exact absurd rfl hlast.1
      | literal lit => exact ih
      | single => exact ih
      | «variable» i => exact ih

theorem VarSpec.WellFormed.restLast {var : VarSpec} (h : var.WellFormed) :
    RestLast (var.sub.filterMap Segment.slot?) :=
  restLast_filterMap_slot h.sub_catchAll_last

/-- `**` is the last slot of a template. -/
theorem Matchable.restLast {vars : List VarSpec} {segs : List Segment} (h : Matchable vars segs) :
    RestLast (segs.flatMap (pushSeg vars)) := by
  induction segs with
  | nil => trivial
  | cons s segs ih =>
    rw [List.flatMap_cons]
    by_cases hne : segs = []
    · subst hne
      rw [List.flatMap_nil, List.append_nil]
      cases s with
      | literal lit => trivial
      | single => trivial
      | catchAll => rfl
      | «variable» i =>
        obtain ⟨var, hvar, hwf⟩ := h.vars_wellFormed i List.mem_cons_self
        simp only [pushSeg, hvar]
        exact hwf.restLast
    · -- the slots of a segment in front of others are bounded
      have hfree := (h.bounded_head hne).restFree
        (fun i hi => h.vars_wellFormed i (hi ▸ List.mem_cons_self))
      exact hfree.restLast_append (ih h.tail)

theorem PathTemplate.WellFormed.restLast_slots {t : PathTemplate} (h : t.WellFormed) :
    RestLast (templateSlots t) :=
  h.matchable.restLast

end GrpcGw.Template
