import GrpcGw.Fallible
import GrpcGw.Template.Parser

/-!
# Path Templates: the Parser's Invariant

What every parsed template satisfies and the matcher, the overlap test and the binder rely on.

- `WellFormed`: the invariant.
- `parseSegmentsWith_inv`: the invariant rule for the segment loop.
- `PathTemplate.parse_wellFormed`: parsing establishes the invariant.
- `Parser.parseSegmentsWith_fuel`: the loop's fuel does not matter.
-/

namespace GrpcGw.Template

open GrpcGw.Text

/-! ## The invariant -/

/-- The index of a capture. -/
def Segment.varIndex? : Segment → Option Nat
  | .variable i => some i
  | _ => none

/-- What holds of every entry of the variable table. -/
structure VarSpec.WellFormed (var : VarSpec) : Prop where
  fieldPath_ne_nil : var.fieldPath ≠ []
  fieldPath_names : "" ∉ var.fieldPath
  sub_ne_nil : var.sub ≠ []
  sub_flat : ∀ s ∈ var.sub, s.varIndex? = none
  sub_catchAll_last : Segment.catchAll ∉ var.sub.dropLast
  count_eq : var.count = segmentCount var.sub

/-- Whether a segment matches a fixed number of path segments. A variable does if its table entry
    says so. -/
def Segment.Bounded (vars : List VarSpec) : Segment → Prop
  | .literal _ => True
  | .single => True
  | .catchAll => False
  | .variable i => ∃ var n, vars[i]? = some var ∧ var.count = .exact n

/-- What holds of every parsed template. -/
structure PathTemplate.WellFormed (t : PathTemplate) : Prop where
  segments_ne_nil : t.segments ≠ []
  /-- The variables are numbered from left to right, each used once. -/
  variables_eq : t.segments.filterMap Segment.varIndex? = List.range t.vars.length
  /-- Whatever is unbounded stands last. -/
  bounded_dropLast : ∀ s ∈ t.segments.dropLast, s.Bounded t.vars
  vars_wellFormed : ∀ var ∈ t.vars, var.WellFormed
  verb_ne_empty : ∀ v ∈ t.verb, v ≠ ""
  verb_slash : ∀ v ∈ t.verb, '/' ∉ v.toList

theorem Segment.Bounded.append {vars : List VarSpec} {s : Segment} (h : s.Bounded vars)
    (more : List VarSpec) : s.Bounded (vars ++ more) := by
  cases s with
  | literal lit => trivial
  | single => trivial
  | catchAll => exact h.elim
  | «variable» i =>
    obtain ⟨var, n, hvar, hn⟩ := h
    have hi : i < vars.length := (List.getElem?_eq_some_iff.mp hvar).1
    exact ⟨var, n, by rw [List.getElem?_append_left hi, hvar], hn⟩

/-! ## The segment loop -/

namespace Parser

/-- The invariant rule of the segment loop: `I` holds in front of a segment, `J` behind one, and
    the loop goes from `J` to `I` over a `/` that does not follow an unbounded segment. -/
theorem parseSegmentsWith_inv
    {parseSegment : Parser → Except TemplateError (Segment × Parser)}
    {I J : List Segment → Parser → Prop}
    (hsegment : ∀ segs p seg p', I segs p → parseSegment p = .ok (seg, p') → J (segs ++ [seg]) p')
    (hslash : ∀ segs seg p rest, J (segs ++ [seg]) p → p.rest = '/' :: rest →
      p.isCatchAll seg = false → I (segs ++ [seg]) { p with rest := rest })
    {fuel : Nat} {p p' : Parser} {segs out : List Segment} (hI : I segs p)
    (h : parseSegmentsWith parseSegment fuel p segs = .ok (out, p')) : J out p' := by
  induction fuel generalizing p segs with
  | zero => cases h
  | succ fuel ih =>
    -- one round: a segment, then either another round behind a `/` or the end
    rw [parseSegmentsWith] at h
    obtain ⟨⟨seg, p₁⟩, hseg, h⟩ := bind_eq_ok_iff.mp h
    have hJ := hsegment segs p seg p₁ hI hseg
    simp only at h
    split at h
    · next rest hrest =>
      split at h
      · cases h
      · next hcatch => exact ih (hslash segs seg p₁ rest hJ hrest (by simpa using hcatch)) h
    · cases h
      exact hJ

/-! ## Segments outside variables -/

theorem parseLiteral_eq_ok {p p' : Parser} {seg : Segment} (h : p.parseLiteral = .ok (seg, p')) :
    p'.vars = p.vars ∧ ∃ lit, seg = .literal lit := by
  unfold parseLiteral at h
  simp only at h
  split at h
  · cases h
  · split at h
    · cases h
    · cases h
      exact ⟨rfl, _, rfl⟩

/-- What a segment parser can return, beyond what it does at an opening brace. -/
theorem parseSegmentWith_cases {onBrace : Parser → Except TemplateError (Segment × Parser)}
    {p p' : Parser} {seg : Segment} (h : parseSegmentWith onBrace p = .ok (seg, p')) :
    (p'.vars = p.vars ∧ seg.varIndex? = none) ∨ onBrace p = .ok (seg, p') := by
  unfold parseSegmentWith at h
  split at h
  · cases h
    exact .inl ⟨rfl, rfl⟩
  · cases h
    exact .inl ⟨rfl, rfl⟩
  · exact .inr h
  · obtain ⟨hvars, lit, rfl⟩ := parseLiteral_eq_ok h
    exact .inl ⟨hvars, rfl⟩

theorem isCatchAll_eq_false_of_flat {p : Parser} {seg : Segment} (hflat : seg.varIndex? = none)
    (h : p.isCatchAll seg = false) : seg ≠ .catchAll := by
  rintro rfl
  cases h

/-- Sub-patterns: no variables, and `**` at the end only. -/
theorem parseSubPattern_eq_ok {p p' : Parser} {sub : List Segment}
    (h : p.parseSubPattern = .ok (sub, p')) :
    p'.vars = p.vars ∧ sub ≠ [] ∧ (∀ s ∈ sub, s.varIndex? = none) ∧ .catchAll ∉ sub.dropLast := by
  refine parseSegmentsWith_inv
    (I := fun segs q => q.vars = p.vars ∧ (∀ s ∈ segs, s.varIndex? = none) ∧ .catchAll ∉ segs)
    (J := fun segs q => q.vars = p.vars ∧ segs ≠ [] ∧ (∀ s ∈ segs, s.varIndex? = none) ∧
      .catchAll ∉ segs.dropLast) ?_ ?_ ⟨rfl, by simp, by simp⟩ h
  · intro segs q seg q' hI hseg
    obtain ⟨hvars, hflat, hcatch⟩ := hI
    rcases parseSegmentWith_cases hseg with ⟨hvars', hseg'⟩ | hbrace
    · refine ⟨hvars'.trans hvars, by simp, ?_, by simpa using hcatch⟩
      intro s hs
      rcases List.mem_append.mp hs with hs | hs
      · exact hflat s hs
      · rw [List.mem_singleton.mp hs]
        exact hseg'
    · -- braces are refused inside a variable
      cases hbrace
  · intro segs seg q rest hJ _ hcatch
    obtain ⟨hvars, -, hflat, hlast⟩ := hJ
    refine ⟨hvars, hflat, ?_⟩
    have hne := isCatchAll_eq_false_of_flat (hflat seg (by simp)) hcatch
    simpa [hne.symm] using hlast

/-! ## Variables -/

theorem parseFieldPath_eq_ok {p p' : Parser} {fieldPath : List String}
    (h : p.parseFieldPath = .ok (fieldPath, p')) :
    p'.vars = p.vars ∧ fieldPath ≠ [] ∧ "" ∉ fieldPath := by
  unfold parseFieldPath at h
  simp only at h
  split at h
  · cases h
  · split at h
    · cases h
    · split at h
      · cases h
      · next hempty =>
        cases h
        refine ⟨rfl, by simp [List.splitOn_ne_nil], ?_⟩
        simpa using hempty

theorem parseSub_eq_ok {p p' : Parser} {sub : List Segment} (h : p.parseSub = .ok (sub, p')) :
    p'.vars = p.vars ∧ sub ≠ [] ∧ (∀ s ∈ sub, s.varIndex? = none) ∧ .catchAll ∉ sub.dropLast := by
  unfold parseSub at h
  split at h
  · have hsub := parseSubPattern_eq_ok h
    exact hsub
  · cases h
    refine ⟨rfl, by simp, ?_, by simp⟩
    intro s hs
    rw [List.mem_singleton.mp hs]
    rfl

/-- A parsed variable is the new last entry of the table. -/
theorem parseVariable_eq_ok {p p' : Parser} {seg : Segment}
    (h : p.parseVariable = .ok (seg, p')) :
    ∃ var : VarSpec, var.WellFormed ∧ p'.vars = p.vars ++ [var] ∧
      seg = .variable p.vars.length := by
  unfold parseVariable at h
  obtain ⟨⟨fieldPath, p₁⟩, hpath, h⟩ := bind_eq_ok_iff.mp h
  obtain ⟨⟨sub, p₂⟩, hsub, h⟩ := bind_eq_ok_iff.mp h
  obtain ⟨hvars₁, hne, hnames⟩ := parseFieldPath_eq_ok hpath
  obtain ⟨hvars₂, hsub_ne, hflat, hlast⟩ := parseSub_eq_ok hsub
  have hvars : p₂.vars = p.vars := hvars₂.trans hvars₁
  simp only at h
  split at h
  · split at h
    · cases h
    · cases h
      exact ⟨{ fieldPath := fieldPath, sub := sub, count := segmentCount sub },
        ⟨hne, hnames, hsub_ne, hflat, hlast, rfl⟩, by rw [hvars], by rw [hvars]⟩
  · cases h

/-! ## The top level -/

/-- The invariant of the top-level loop, without the clause on unbounded segments. -/
structure Numbered (segs : List Segment) (p : Parser) : Prop where
  variables_eq : segs.filterMap Segment.varIndex? = List.range p.vars.length
  vars_wellFormed : ∀ var ∈ p.vars, var.WellFormed

theorem Numbered.index_lt {segs : List Segment} {p : Parser} (h : Numbered segs p) {i : Nat}
    (hi : .variable i ∈ segs) : i < p.vars.length := by
  have : i ∈ segs.filterMap Segment.varIndex? := List.mem_filterMap.mpr ⟨_, hi, rfl⟩
  rw [h.variables_eq] at this
  exact List.mem_range.mp this

/-- A segment of the top level extends the numbering. -/
theorem Numbered.parseSegment {segs : List Segment} {p p' : Parser} {seg : Segment}
    (h : Numbered segs p) (hseg : parseSegmentWith parseVariable p = .ok (seg, p')) :
    Numbered (segs ++ [seg]) p' ∧ ∃ more, p'.vars = p.vars ++ more := by
  rcases parseSegmentWith_cases hseg with ⟨hvars, hflat⟩ | hbrace
  · -- any other segment leaves the table and the numbering as they are
    refine ⟨⟨?_, by rw [hvars]; exact h.vars_wellFormed⟩, [], by simp [hvars]⟩
    simp [List.filterMap_append, hflat, hvars, h.variables_eq]
  · -- a variable gets the next number
    obtain ⟨var, hwf, hvars, rfl⟩ := parseVariable_eq_ok hbrace
    refine ⟨⟨?_, ?_⟩, [var], hvars⟩
    · simp [List.filterMap_append, Segment.varIndex?, hvars, h.variables_eq, List.range_succ]
    · intro v hv
      rw [hvars] at hv
      rcases List.mem_append.mp hv with hv | hv
      · exact h.vars_wellFormed v hv
      · rw [List.mem_singleton.mp hv]
        exact hwf

/-- A numbered segment that does not stop the loop is bounded. -/
theorem Numbered.bounded {segs : List Segment} {p : Parser} {seg : Segment}
    (h : Numbered (segs ++ [seg]) p) (hcatch : p.isCatchAll seg = false) :
    seg.Bounded p.vars := by
  cases seg with
  | literal lit => trivial
  | single => trivial
  | catchAll => cases hcatch
  | «variable» i =>
    have hi : i < p.vars.length := h.index_lt (by simp)
    have hget := List.getElem?_eq_getElem hi
    refine ⟨p.vars[i], ?_⟩
    simp only [isCatchAll, hget, Option.any_some] at hcatch
    cases hcount : p.vars[i].count with
    | exact n => exact ⟨n, hget, rfl⟩
    | atLeast n =>
      rw [hcount] at hcatch
      cases hcatch

theorem parseSegments_eq_ok {p p' : Parser} {segs : List Segment} (hp : p.vars = [])
    (h : p.parseSegments = .ok (segs, p')) :
    Numbered segs p' ∧ segs ≠ [] ∧ ∀ s ∈ segs.dropLast, s.Bounded p'.vars := by
  refine parseSegmentsWith_inv
    (I := fun segs q => Numbered segs q ∧ ∀ s ∈ segs, s.Bounded q.vars)
    (J := fun segs q => Numbered segs q ∧ segs ≠ [] ∧ ∀ s ∈ segs.dropLast, s.Bounded q.vars)
    ?_ ?_ ⟨⟨by simp [hp], by simp [hp]⟩, by simp⟩ h
  · intro segs q seg q' hI hseg
    obtain ⟨hnum, hbounded⟩ := hI
    -- the table only grows, so what was bounded stays bounded
    obtain ⟨hnum', more, hmore⟩ := hnum.parseSegment hseg
    refine ⟨hnum', by simp, ?_⟩
    intro s hs
    rw [hmore]
    exact (hbounded s (by simpa using hs)).append more
  · intro segs seg q rest hJ _ hcatch
    obtain ⟨hnum, -, hbounded⟩ := hJ
    refine ⟨⟨hnum.variables_eq, hnum.vars_wellFormed⟩, ?_⟩
    intro s hs
    rcases List.mem_append.mp hs with hs | hs
    · exact hbounded s (by simpa using hs)
    · rw [List.mem_singleton.mp hs]
      exact hnum.bounded hcatch

/-! ## Templates -/

theorem splitVerb_eq_ok {p p' : Parser} {verb : Option String}
    (h : p.splitVerb = .ok (verb, p')) :
    p'.vars = p.vars ∧ ∀ v ∈ verb, v ≠ "" ∧ '/' ∉ v.toList := by
  unfold splitVerb at h
  split at h
  · cases h
    exact ⟨rfl, by simp⟩
  · simp only at h
    split at h
    · cases h
    · next hne =>
      split at h
      · cases h
      · next hslash =>
        cases h
        refine ⟨rfl, ?_⟩
        intro v hv
        cases hv
        exact ⟨by simpa using hne, by simpa using hslash⟩

end Parser

/-- **Parsing establishes the invariant.** -/
theorem PathTemplate.parse_wellFormed {s : String} {t : PathTemplate}
    (h : PathTemplate.parse s = .ok t) : t.WellFormed := by
  unfold PathTemplate.parse Parser.parse at h
  split at h
  · cases h
  · obtain ⟨⟨verb, p₁⟩, hverb, h⟩ := bind_eq_ok_iff.mp h
    obtain ⟨⟨segs, p₂⟩, hsegs, h⟩ := bind_eq_ok_iff.mp h
    obtain ⟨hvars, hverb_ok⟩ := Parser.splitVerb_eq_ok hverb
    have hempty : ({ p₁ with rest := p₁.rest.tail } : Parser).vars = [] := hvars
    obtain ⟨hnum, hne, hbounded⟩ := Parser.parseSegments_eq_ok hempty hsegs
    simp only at h
    split at h
    · cases h
    · cases h
      exact ⟨hne, hnum.variables_eq, hbounded, hnum.vars_wellFormed,
        fun v hv => (hverb_ok v hv).1, fun v hv => (hverb_ok v hv).2⟩

/-! ## Fuel -/

namespace Parser

variable {p p' : Parser} {seg : Segment}

theorem parseLiteral_rest_le (h : p.parseLiteral = .ok (seg, p')) :
    p'.rest.length ≤ p.rest.length := by
  unfold parseLiteral at h
  simp only at h
  split at h
  · cases h
  · split at h
    · cases h
    · cases h
      exact (List.dropWhile_suffix _).length_le

theorem parseSegmentWith_rest_le {onBrace : Parser → Except TemplateError (Segment × Parser)}
    (hbrace : ∀ {p seg p'}, onBrace p = .ok (seg, p') → p'.rest.length ≤ p.rest.length)
    (h : parseSegmentWith onBrace p = .ok (seg, p')) : p'.rest.length ≤ p.rest.length := by
  unfold parseSegmentWith at h
  split at h
  · next rest hrest =>
    cases h
    simp only [hrest, List.length_cons]
    omega
  · next rest _ hrest =>
    cases h
    simp only [hrest, List.length_cons]
    omega
  · exact hbrace h
  · exact parseLiteral_rest_le h

section Loop

variable {parseSegment : Parser → Except TemplateError (Segment × Parser)}

theorem parseSegmentsWith_rest_le
    (hsegment : ∀ {p seg p'}, parseSegment p = .ok (seg, p') → p'.rest.length ≤ p.rest.length)
    {fuel : Nat} {segs out : List Segment}
    (h : parseSegmentsWith parseSegment fuel p segs = .ok (out, p')) :
    p'.rest.length ≤ p.rest.length := by
  refine parseSegmentsWith_inv (I := fun _ q => q.rest.length ≤ p.rest.length)
    (J := fun _ q => q.rest.length ≤ p.rest.length) ?_ ?_ (Nat.le_refl _) h
  · intro segs q seg q' hI hseg
    exact Nat.le_trans (hsegment hseg) hI
  · intro segs seg q rest hJ hrest _
    rw [hrest, List.length_cons] at hJ
    simp only
    omega

/-- **The fuel of the segment loop does not matter**, as long as there is more of it than there is
    input: every round but the last one consumes a `/`. -/
theorem parseSegmentsWith_fuel
    (hsegment : ∀ {p seg p'}, parseSegment p = .ok (seg, p') → p'.rest.length ≤ p.rest.length)
    {fuel fuel' : Nat} (hfuel : p.rest.length < fuel) (hfuel' : p.rest.length < fuel')
    (segs : List Segment) :
    parseSegmentsWith parseSegment fuel p segs = parseSegmentsWith parseSegment fuel' p segs := by
  induction fuel generalizing fuel' p segs with
  | zero => omega
  | succ fuel ih =>
    cases fuel' with
    | zero => omega
    | succ fuel' =>
      rw [parseSegmentsWith, parseSegmentsWith]
      cases hseg : parseSegment p with
      | error e => rfl
      | ok r =>
        -- the next round starts behind a `/`, with less input left
        obtain ⟨seg, p₁⟩ := r
        have hle := hsegment hseg
        simp only [bind, Except.bind]
        split
        · next rest hrest =>
          rw [hrest, List.length_cons] at hle
          split
          · rfl
          · exact ih (by simp only; omega) (by simp only; omega) _
        · rfl

end Loop

theorem parseSubPattern_rest_le {sub : List Segment} (h : p.parseSubPattern = .ok (sub, p')) :
    p'.rest.length ≤ p.rest.length :=
  parseSegmentsWith_rest_le (parseSegmentWith_rest_le fun h => by cases h) h

theorem parseFieldPath_rest_le {fieldPath : List String}
    (h : p.parseFieldPath = .ok (fieldPath, p')) : p'.rest.length ≤ p.rest.length := by
  unfold parseFieldPath at h
  simp only at h
  split at h
  · cases h
  · split at h
    · cases h
    · split at h
      · cases h
      · cases h
        exact (List.dropWhile_suffix _).length_le

theorem parseSub_rest_le {sub : List Segment} (h : p.parseSub = .ok (sub, p')) :
    p'.rest.length ≤ p.rest.length := by
  unfold parseSub at h
  split at h
  · next rest hrest =>
    have hle := parseSubPattern_rest_le h
    rw [hrest, List.length_cons]
    simp only at hle
    omega
  · cases h
    exact Nat.le_refl _

theorem parseVariable_rest_le (h : p.parseVariable = .ok (seg, p')) :
    p'.rest.length ≤ p.rest.length := by
  unfold parseVariable at h
  obtain ⟨⟨fieldPath, p₁⟩, hpath, h⟩ := bind_eq_ok_iff.mp h
  obtain ⟨⟨sub, p₂⟩, hsub, h⟩ := bind_eq_ok_iff.mp h
  have hle₁ := parseFieldPath_rest_le hpath
  have hle₂ := parseSub_rest_le hsub
  simp only at h
  split at h
  · next rest hrest =>
    split at h
    · cases h
    · cases h
      rw [hrest, List.length_cons] at hle₂
      rw [List.length_tail] at hle₁
      simp only
      omega
  · cases h

/-- The top level of a template is parsed with enough fuel. -/
theorem parseSegments_eq {fuel : Nat} (hfuel : p.rest.length < fuel) :
    p.parseSegments = parseSegmentsWith (parseSegmentWith parseVariable) fuel p [] :=
  parseSegmentsWith_fuel (parseSegmentWith_rest_le parseVariable_rest_le) (Nat.lt_succ_self _)
    hfuel []

/-- The sub-pattern of a variable is parsed with enough fuel. -/
theorem parseSubPattern_eq {fuel : Nat} (hfuel : p.rest.length < fuel) :
    p.parseSubPattern =
      parseSegmentsWith
        (parseSegmentWith fun p => .error (p.err "nested variable '\x7b' inside a variable"))
        fuel p [] :=
  parseSegmentsWith_fuel (parseSegmentWith_rest_le fun h => by cases h) (Nat.lt_succ_self _)
    hfuel []

end Parser

end GrpcGw.Template
