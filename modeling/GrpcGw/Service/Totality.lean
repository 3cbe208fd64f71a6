import GrpcGw.Template.Checked
import GrpcGw.Transcode.BindLaws

/-!
# Parsed Templates and Panics

The matcher, the overlap test and the binder look up what the parser has put into a template
without asking whether it is there. What the parser establishes is enough for all of them.

- `PathTemplate.Representation`: what the matcher relies on, clause by clause.
- `parse_total`: parsing ends without a panic, establishes these clauses, and rules out the panics
  behind it.
-/

namespace GrpcGw.Service

open GrpcGw.Text
open GrpcGw.Pattern
open GrpcGw.Reflect
open GrpcGw.Template
open GrpcGw.Transcode

/-- The clauses that the matcher, the overlap test and the binder rely on. -/
structure Representation (t : PathTemplate) : Prop where
  segments_ne_nil : t.segments ≠ []
  /-- The variables stand for the entries of the table, in order and each once. -/
  variables_eq : t.segments.filterMap Segment.varIndex? = List.range t.vars.length
  /-- Sub-patterns are not empty and do not nest. -/
  sub_flat : ∀ var ∈ t.vars, var.sub ≠ [] ∧ ∀ i, .variable i ∉ var.sub
  /-- `**` stands last, in a sub-pattern and in the template. -/
  catchAll_last : .catchAll ∉ t.segments.dropLast ∧ ∀ var ∈ t.vars, .catchAll ∉ var.sub.dropLast
  /-- So does an unbounded variable. -/
  atLeast_last : ∀ i var min, t.vars[i]? = some var → var.count = .atLeast min →
    t.segments.getLast? = some (.variable i)
  /-- A count is that of the segments other than `**`, and unbounded if there is a final `**`. -/
  count_eq : ∀ var ∈ t.vars, var.count =
    if var.sub.getLast? = some .catchAll then .atLeast (var.sub.countP (· ≠ .catchAll))
    else .exact (var.sub.countP (· ≠ .catchAll))
  /-- Field paths are non-empty lists of non-empty names. -/
  fieldPath_names : ∀ var ∈ t.vars, var.fieldPath ≠ [] ∧ "" ∉ var.fieldPath

/-- A segment is the last one, or one in front of it. -/
theorem mem_dropLast_or_getLast? {α : Type*} {l : List α} {x : α} (h : x ∈ l) :
    x ∈ l.dropLast ∨ l.getLast? = some x := by
  obtain ⟨init, last, rfl⟩ := (List.eq_nil_or_concat l).resolve_left (List.ne_nil_of_mem h)
  rw [List.concat_eq_append] at h ⊢
  rw [List.dropLast_concat, List.getLast?_concat]
  rcases List.mem_append.mp h with hmem | hmem
  · exact .inl hmem
  · rw [List.mem_singleton.mp hmem]
    exact .inr rfl

theorem count_eq_of_wellFormed {var : VarSpec} (h : var.WellFormed) :
    var.count =
      if var.sub.getLast? = some .catchAll then .atLeast (var.sub.countP (· ≠ .catchAll))
      else .exact (var.sub.countP (· ≠ .catchAll)) := by
  rw [h.count_eq, segmentCount]
  by_cases hmem : .catchAll ∈ var.sub
  · have hlast := (mem_dropLast_or_getLast? hmem).resolve_left h.sub_catchAll_last
    rw [if_pos hmem, if_pos hlast]
  · have hlast : var.sub.getLast? ≠ some .catchAll := fun heq => hmem (List.mem_of_getLast? heq)
    rw [if_neg hmem, if_neg hlast]

/-- **A well-formed template satisfies every clause.** -/
theorem representation_of_wellFormed {t : PathTemplate} (h : t.WellFormed) :
    Representation t where
  segments_ne_nil := h.segments_ne_nil
  variables_eq := h.variables_eq
  sub_flat var hvar := by
    refine ⟨(h.vars_wellFormed var hvar).sub_ne_nil, ?_⟩
    intro i hi
    cases (h.vars_wellFormed var hvar).sub_flat _ hi
  catchAll_last :=
    ⟨fun hmem => h.bounded_dropLast _ hmem,
      fun var hvar => (h.vars_wellFormed var hvar).sub_catchAll_last⟩
  atLeast_last i var min hvar hcount := by
    have hi : i ∈ List.range t.vars.length :=
      List.mem_range.mpr (List.getElem?_eq_some_iff.mp hvar).1
    rw [← h.variables_eq] at hi
    obtain ⟨s, hs, hindex⟩ := List.mem_filterMap.mp hi
    obtain rfl : s = .variable i := by
      cases s <;> simp [Segment.varIndex?] at hindex
      rw [hindex]
    -- in front of another segment the variable would be bounded
    refine (mem_dropLast_or_getLast? hs).resolve_left fun hmem => ?_
    obtain ⟨var', n, hvar', hexact⟩ := h.bounded_dropLast _ hmem
    rw [hvar] at hvar'
    cases hvar'
    rw [hcount] at hexact
    cases hexact
  count_eq var hvar := count_eq_of_wellFormed (h.vars_wellFormed var hvar)
  fieldPath_names var hvar :=
    ⟨(h.vars_wellFormed var hvar).fieldPath_ne_nil, (h.vars_wellFormed var hvar).fieldPath_names⟩

/-- **Parsing is total and establishes what the matcher relies on**: with fuel for every character
    it ends without a panic, and on what it returns neither the matcher nor the overlap test leaves
    the variable table, and no captured value is bound at an empty path. -/
theorem parse_total (s : String) :
    (∀ fuel, s.toList.length < fuel →
        (Checked.parse fuel (Parser.new s)).run = some (PathTemplate.parse s)) ∧
      ∀ t, PathTemplate.parse s = .ok t →
        Representation t ∧
        (∀ segments verb, Checked.matches t segments verb = some (t.matches segments verb)) ∧
        (∀ depth, Checked.templateSlots (depth + 1) t = some (templateSlots t)) ∧
        ∀ segments verb captures, t.matches segments verb = some captures → ∀ c ∈ captures,
          ∀ (pool : DescriptorPool) (msg : DynamicMessage) (mode : BindMode),
            (bindFieldPath pool msg c.1 c.2 mode).2 ≠ .panic := by
  refine ⟨fun fuel hfuel => Checked.parse_eq hfuel, ?_⟩
  intro t ht
  have hwf := PathTemplate.parse_wellFormed ht
  refine ⟨representation_of_wellFormed hwf, Checked.matches_eq hwf, Checked.templateSlots_eq hwf,
    ?_⟩
  intro segments verb captures hmatch c hc pool msg mode
  -- a value is bound at the path of a variable, which is not empty
  obtain ⟨-, -, -, hne⟩ := hwf.exists_var_of_mem_captures hmatch hc
  exact bindInner_ne_panic hne msg

/-- A template with a character of more than one byte, a catch-all and a verb. -/
theorem parse_total_shelves :
    ∃ t, PathTemplate.parse "/é/{name=shelves/**}:get" = .ok t ∧
      (Checked.parse 30 (Parser.new "/é/{name=shelves/**}:get")).run = some (.ok t) ∧
      Representation t := by
  have hparse : ∃ t, PathTemplate.parse "/é/{name=shelves/**}:get" = .ok t := ⟨_, rfl⟩
  obtain ⟨t, ht⟩ := hparse
  obtain ⟨hfuel, hok⟩ := parse_total "/é/{name=shelves/**}:get"
  have hrun := hfuel 30 (by decide)
  rw [ht] at hrun
  exact ⟨t, ht, hrun, (hok t ht).1⟩

end GrpcGw.Service
