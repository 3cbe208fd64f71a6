import Mathlib.Data.List.Forall2
import GrpcGw.Template.Language

/-!
# Path Templates: Captured Values

What a captured value says about the path segments it was made from. The value is the `/`-join of
the decoded segments, so the segments can be read off it unless one of them decodes to a text
with a `/` of its own.

- `Consumes.chunks`: every variable has a chunk of the path of its own.
- `PathTemplate.captured_pieces`: when a captured value splits into the pieces of its sub-pattern.
-/

namespace GrpcGw.Template

open GrpcGw.Text
open GrpcGw.Pattern

/-! ## Chunks -/

/-- A capture holds the decoded segments of a chunk of the path that the variable's sub-pattern
    accepts. -/
structure CapturedFrom (var : VarSpec) (capture : List String × String)
    (chunk : List String) : Prop where
  accepts : Accepts decode (var.sub.filterMap Segment.slot?) chunk
  eq_join : capture = (var.fieldPath, join "/" (chunk.map decode))

/-- **Every variable has a chunk of the path of its own**, in template order. -/
theorem Consumes.chunks {vars : List VarSpec} {segs : List Segment} {input : List String}
    {caps : Captures} (h : Consumes vars segs input caps) :
    List.Forall₂ (fun var capture => ∃ chunk, chunk <:+: input ∧ CapturedFrom var capture chunk)
      ((segs.filterMap Segment.varIndex?).filterMap (vars[·]?)) caps := by
  induction h with
  | nil => exact .nil
  | @cons s segs chunk input caps hchunk _ ih =>
    have ih : List.Forall₂
        (fun var capture => ∃ c, c <:+: chunk ++ input ∧ CapturedFrom var capture c)
        ((segs.filterMap Segment.varIndex?).filterMap (vars[·]?)) caps :=
      ih.imp fun _ _ ⟨c, hin, hc⟩ => ⟨c, hin.trans (List.suffix_append _ _).isInfix, hc⟩
    cases s with
    | «variable» i =>
      rw [List.filterMap_cons_some (show (Segment.variable i).varIndex? = some i from rfl)]
      cases hvar : vars[i]? with
      | none => simpa [List.filterMap_cons_none hvar, Segment.captured, hvar] using ih
      | some var =>
        -- the chunk in front is the one of this variable
        rw [List.filterMap_cons_some hvar]
        simp only [pushSeg, hvar] at hchunk
        simp only [Segment.captured, hvar, List.singleton_append]
        exact .cons ⟨chunk, (List.prefix_append _ _).isInfix, hchunk, rfl⟩ ih
    | literal lit => exact ih
    | single => exact ih
    | catchAll => exact ih

/-- The chunk of one variable of a matched template. -/
theorem PathTemplate.WellFormed.exists_chunk {t : PathTemplate} (h : t.WellFormed)
    {segments : List String} {verb : Option String} {caps : Captures}
    (hmatch : t.matches segments verb = some caps) {i : Nat} {var : VarSpec}
    (hvar : t.vars[i]? = some var) :
    ∃ capture chunk, caps[i]? = some capture ∧ chunk <:+: segments ∧
      CapturedFrom var capture chunk := by
  have hchunks := ((PathTemplate.matches_eq_some_iff h segments verb caps).mp hmatch).2.chunks
  have hvars : (t.segments.filterMap Segment.varIndex?).filterMap (t.vars[·]?) = t.vars := by
    have := filterMap_range_getElem? id t.vars
    simpa [h.variables_eq] using this
  rw [hvars] at hchunks
  obtain ⟨hlen, hget⟩ := List.forall₂_iff_get.mp hchunks
  obtain ⟨hi, rfl⟩ := List.getElem?_eq_some_iff.mp hvar
  obtain ⟨chunk, hin, hfrom⟩ := hget i hi (hlen ▸ hi)
  exact ⟨_, chunk, List.getElem?_eq_getElem (hlen ▸ hi), hin, hfrom⟩

/-! ## Pieces -/

/-- Decoding the letters first changes nothing for the pattern. -/
theorem accepts_map {α β : Type*} {reads : β → α} (p : List (Slot α)) (w : List β) :
    Accepts id p (w.map reads) ↔ Accepts reads p w := by
  induction p generalizing w with
  | nil => cases w <;> simp [Accepts]
  | cons slot p ih =>
    cases slot with
    | lit a => cases w <;> simp [Accepts, ih]
    | any => cases w <;> simp [Accepts, ih]
    | rest => cases w <;> simp [Accepts]

/-- **When a captured value conforms to its own pattern**: it splits into as many pieces as the
    sub-pattern is long iff none of the captured segments decodes to a text with a `/`, and then
    the pieces satisfy the sub-pattern position by position. -/
theorem PathTemplate.captured_pieces {s : String} {t : PathTemplate}
    (hparse : PathTemplate.parse s = .ok t) {segments : List String} {verb : Option String}
    {caps : Captures} (hmatch : t.matches segments verb = some caps) {i n : Nat} {var : VarSpec}
    (hvar : t.vars[i]? = some var) (hcount : var.count = .exact n) :
    ∃ value chunk, caps[i]? = some (var.fieldPath, value) ∧ chunk <:+: segments ∧
      chunk.length = n ∧ value = join "/" (chunk.map decode) ∧
      ((split '/' value).length = n ↔ ∀ segment ∈ chunk, '/' ∉ (decode segment).toList) ∧
      ((∀ segment ∈ chunk, '/' ∉ (decode segment).toList) →
        Accepts id (var.sub.filterMap Segment.slot?) (split '/' value)) := by
  have hwf := PathTemplate.parse_wellFormed hparse
  have hvwf := hwf.vars_wellFormed var (List.mem_of_getElem? hvar)
  obtain ⟨capture, chunk, hcap, hin, haccepts, rfl⟩ := hwf.exists_chunk hmatch hvar
  -- a sub-pattern of fixed length has as many slots as its chunk has segments
  obtain ⟨hfree, hslots⟩ := hvwf.count_exact hcount
  have hlen : chunk.length = n := by rw [haccepts.length_eq hfree, hslots]
  have hne : chunk.map decode ≠ [] := by
    intro hnil
    rw [List.map_eq_nil_iff] at hnil
    rw [hnil, List.length_nil] at hlen
    rw [← hlen] at hslots
    exact hvwf.slots_ne_nil (List.length_eq_zero_iff.mp hslots.symm)
  refine ⟨_, chunk, hcap, hin, hlen, rfl, ?_, ?_⟩
  · have hiff := length_split_join_iff '/' hne
    rw [List.length_map, hlen, List.forall_mem_map] at hiff
    exact hiff
  · intro hslash
    have hsplit : split '/' (join "/" (chunk.map decode)) = chunk.map decode :=
      split_join '/' hne (List.forall_mem_map.mpr hslash)
    rw [hsplit]
    exact (accepts_map _ _).mpr haccepts

/-- A value that splits into the two pieces of its sub-pattern. -/
theorem captured_pieces_shelves :
    ∃ t value, PathTemplate.parse "/v1/{name=shelves/*}" = .ok t ∧
      t.matches ["v1", "shelves", "a%20b"] none = some [(["name"], value)] ∧
      (split '/' value).length = 2 := by
  have hparse : ∃ t, PathTemplate.parse "/v1/{name=shelves/*}" = .ok t ∧
      t.vars[0]?.map (·.count) = some (.exact 2) := ⟨_, rfl, rfl⟩
  obtain ⟨t, ht, hcount⟩ := hparse
  obtain ⟨var, hvar, hcount⟩ := Option.map_eq_some_iff.mp hcount
  have hmatch : t.matches ["v1", "shelves", "a%20b"] none = some [(["name"], "shelves/a b")] := by
    cases ht
    decide
  refine ⟨t, "shelves/a b", ht, hmatch, ?_⟩
  obtain ⟨value, chunk, hcap, hin, -, -, hiff, -⟩ :=
    PathTemplate.captured_pieces ht hmatch hvar hcount
  have hvalue : value = "shelves/a b" := by
    simp only [List.getElem?_cons_zero, Option.some.injEq, Prod.mk.injEq] at hcap
    exact hcap.2.symm
  rw [hvalue] at hiff
  apply hiff.mpr
  intro segment hsegment
  have hplain : ∀ x ∈ ["v1", "shelves", "a%20b"], '/' ∉ (decode x).toList := by decide
  exact hplain segment (hin.subset hsegment)

/-- A `%2F` in the second segment makes a third piece. -/
theorem not_captured_pieces : ¬∀ (s : String) (t : PathTemplate) (segments : List String)
    (verb : Option String) (caps : Captures) (i n : Nat) (var : VarSpec) (value : String),
    PathTemplate.parse s = .ok t → t.matches segments verb = some caps →
    t.vars[i]? = some var → var.count = .exact n → 2 ≤ n →
    caps[i]? = some (var.fieldPath, value) →
      (split '/' value).length = n ∧
        Accepts id (var.sub.filterMap Segment.slot?) (split '/' value) := by
  intro h
  have hpieces := (h "/v1/{name=shelves/*}" _ ["v1", "shelves", "a%2Fb"] none
    [(["name"], "shelves/a/b")] 0 2 _ "shelves/a/b" rfl (by decide) rfl rfl (by decide) rfl).1
  exact absurd hpieces (by decide)

end GrpcGw.Template
