import GrpcGw.Template.Language

/-!
# Path Templates: Requests Built from a Template

A request path for a template: the `/`-join of its percent-encoded literals and of percent-encoded
values for its wildcards, and the verb. Splitting and matching such a path gives the values back.

- `splitRequestPath_join`: splitting undoes joining.
- `PathTemplate.matches_requestPath`: the template matches its own requests and captures the
  values they were built from.
-/

namespace GrpcGw.Template

open GrpcGw.Text
open GrpcGw.Pattern

/-! ## Building a path -/

/-- A value for every `*`, addressed by its segment and its place in the sub-pattern, and the
    values of a final `**`. -/
structure Assignment where
  star : Nat → Nat → String
  tail : List String

/-- The unencoded path segments of a segment that is not a variable. -/
def Segment.fill (a : Assignment) (i j : Nat) : Segment → List String
  | .literal lit => [lit]
  | .single => [a.star i j]
  | .catchAll => a.tail
  | .variable _ => []

/-- The unencoded path segments of the segment at position `i`. -/
def fillSeg (vars : List VarSpec) (a : Assignment) (i : Nat) : Segment → List String
  | .variable k =>
    match vars[k]? with
    | some var => (var.sub.mapIdx fun j s => s.fill a i j).flatten
    | none => []
  | s => s.fill a i 0

/-- The unencoded path segments of a template. -/
def PathTemplate.fill (t : PathTemplate) (a : Assignment) : List String :=
  (t.segments.mapIdx (fillSeg t.vars a)).flatten

/-- The value under the variable that a segment stands for, with its field path. -/
def valueUnder (vars : List VarSpec) (a : Assignment) (i : Nat) (s : Segment) : Captures :=
  match s with
  | .variable k =>
    match vars[k]? with
    | some var => [(var.fieldPath, join "/" (fillSeg vars a i s))]
    | none => []
  | _ => []

/-- The values under the variables of a template, in template order. -/
def PathTemplate.values (t : PathTemplate) (a : Assignment) : Captures :=
  (t.segments.mapIdx (valueUnder t.vars a)).flatten

/-- `:verb`, if there is a verb. -/
def verbSuffix : Option String → String
  | some verb => ":" ++ verb
  | none => ""

/-- The request path of a template under an assignment. -/
def requestPath (hc : HexCase) (t : PathTemplate) (a : Assignment) : String :=
  "/" ++ join "/" ((t.fill a).map (percentEncode hc)) ++ verbSuffix t.verb

/-! ## Splitting -/

theorem join_append_suffix (init : List String) (last suffix : String) :
    join "/" (init ++ [last]) ++ suffix = join "/" (init ++ [last ++ suffix]) := by
  unfold join
  cases init with
  | nil => simp
  | cons x init =>
    rw [String.intercalate_append_of_ne_nil (by simp) (by simp),
      String.intercalate_append_of_ne_nil (by simp) (by simp)]
    simp [String.append_assoc]

/-- Splitting undoes joining; what is left is the verb of the last segment. -/
theorem splitRequestPath_join (init : List String) (last : String)
    (hslash : ∀ s ∈ init ++ [last], '/' ∉ s.toList) :
    splitRequestPath ("/" ++ join "/" (init ++ [last])) =
      match splitLast ':' last.toList with
      | some (seg, verb) => (init ++ [String.ofList seg], some (String.ofList verb))
      | none => (init ++ [last], none) := by
  have hchars : stripSlash ("/" ++ join "/" (init ++ [last])).toList =
      (join "/" (init ++ [last])).toList := by
    simp [stripSlash]
  -- splitting at `/` undoes the joining
  have hsplit : (join "/" (init ++ [last])).toList.splitOn '/' =
      init.map String.toList ++ [last.toList] := by
    have := congrArg (List.map String.toList)
      (split_join '/' (l := init ++ [last]) (by simp) hslash)
    rw [toList_split, List.map_append] at this
    exact this
  unfold splitRequestPath
  simp only [hchars, hsplit, List.getLast?_append, List.getLast?_singleton, Option.some_or,
    List.dropLast_concat, List.map_append, List.map_map, List.map_cons, List.map_nil]
  cases splitLast ':' last.toList with
  | none => simp
  | some r => simp

/-- Splitting a joined path with its verb. -/
theorem splitRequestPath_join_verb (init : List String) (last : String) (verb : Option String)
    (hslash : ∀ s ∈ init ++ [last], '/' ∉ s.toList) (hcolon : ':' ∉ last.toList)
    (hverb : ∀ v ∈ verb, '/' ∉ v.toList ∧ ':' ∉ v.toList) :
    splitRequestPath ("/" ++ join "/" (init ++ [last]) ++ verbSuffix verb) =
      (init ++ [last], verb) := by
  cases verb with
  | none =>
    -- without a verb the last segment has no `:` either
    rw [verbSuffix, String.append_empty, splitRequestPath_join init last hslash,
      splitLast_eq_none_iff.mpr hcolon]
  | some v =>
    -- the verb joins the last segment, and the split takes it off at the last `:`
    obtain ⟨hv, hvc⟩ := hverb v rfl
    rw [String.append_assoc, join_append_suffix, splitRequestPath_join]
    · have hlast : (last ++ verbSuffix (some v)).toList = last.toList ++ ':' :: v.toList := by
        simp [verbSuffix]
      rw [hlast, splitLast_append _ hvc]
      simp
    · intro s hs
      rcases List.mem_append.mp hs with hs | hs
      · exact hslash s (List.mem_append_left _ hs)
      · rw [List.mem_singleton.mp hs]
        have := hslash last (by simp)
        simp [verbSuffix, this, hv]

/-! ## Matching -/

/-- A flat segment accepts its own values. A `**` has to be the last one. -/
theorem accepts_fill (hc : HexCase) (a : Assignment) (i j : Nat) {s : Segment} {slot : Slot String}
    (hslot : s.slot? = some slot) (rest : List (Slot String)) (input : List String)
    (hlast : slot = .rest → rest = []) (h : Accepts decode rest input) :
    Accepts decode (slot :: rest) ((s.fill a i j).map (percentEncode hc) ++ input) := by
  cases s with
  | literal lit =>
    cases hslot
    exact ⟨decode_percentEncode hc lit, h⟩
  | single =>
    cases hslot
    exact h
  | catchAll =>
    -- the final `**` accepts its values together with whatever follows
    cases hslot
    cases a.tail.map (percentEncode hc) ++ input <;> exact hlast rfl
  | «variable» k => cases hslot

/-- A sub-pattern accepts its own values. -/
theorem accepts_sub_fill (hc : HexCase) (a : Assignment) (i : Nat) {sub : List Segment}
    (hflat : ∀ s ∈ sub, s.varIndex? = none) (hlast : .catchAll ∉ sub.dropLast) (off : Nat) :
    Accepts decode (sub.filterMap Segment.slot?)
      ((sub.mapIdx fun j s => s.fill a i (j + off)).flatten.map (percentEncode hc)) := by
  -- the places of the tail are counted from one further on
  induction sub generalizing off with
  | nil => trivial
  | cons s sub ih =>
    have hs := hflat s List.mem_cons_self
    have hlast' : .catchAll ∉ sub.dropLast := by
      cases sub with
      | nil => simp
      | cons s' sub =>
        rw [List.dropLast_cons_cons] at hlast
        exact fun hmem => hlast (List.mem_cons_of_mem _ hmem)
    have ih := ih (fun s hs => hflat s (List.mem_cons_of_mem _ hs)) hlast' (off + 1)
    have hsplit : ((s :: sub).mapIdx fun j s => s.fill a i (j + off)).flatten.map
          (percentEncode hc) =
        (s.fill a i off).map (percentEncode hc) ++
          ((sub.mapIdx fun j s => s.fill a i (j + (off + 1))).flatten.map (percentEncode hc)) := by
      have hfun : (fun j (s : Segment) => s.fill a i (j + 1 + off)) =
          fun j s => s.fill a i (j + (off + 1)) := by
        funext j s
        rw [Nat.add_right_comm, Nat.add_assoc]
      simp [List.mapIdx_cons, hfun]
    obtain ⟨slot, hslot⟩ : ∃ slot, s.slot? = some slot := by
      cases s <;> simp [Segment.slot?, Segment.varIndex?] at hs ⊢
    rw [hsplit, List.filterMap_cons_some hslot]
    refine accepts_fill hc a i off hslot _ _ ?_ ih
    -- a `**` in front of another segment contradicts `hlast`
    rintro rfl
    have hcatch := slot?_eq_rest_iff.mp hslot
    subst hcatch
    cases sub with
    | nil => rfl
    | cons s' sub => exact absurd (by simp) hlast

/-- A segment of a template accepts its own values. -/
theorem accepts_fillSeg (hc : HexCase) (a : Assignment) {vars : List VarSpec} {s : Segment}
    (hwf : ∀ k, s = .variable k → ∃ var, vars[k]? = some var ∧ var.WellFormed) (i : Nat) :
    Accepts decode (pushSeg vars s) ((fillSeg vars a i s).map (percentEncode hc)) := by
  cases s with
  | «variable» k =>
    obtain ⟨var, hvar, hwf⟩ := hwf k rfl
    simp only [pushSeg, fillSeg, hvar]
    exact accepts_sub_fill hc a i hwf.sub_flat hwf.sub_catchAll_last 0
  | literal lit =>
    have := accepts_fill hc a i 0 (s := .literal lit) rfl [] [] (fun h => by cases h) trivial
    simpa [pushSeg, fillSeg, Segment.slot?] using this
  | single =>
    have := accepts_fill hc a i 0 (s := .single) rfl [] [] (fun h => by cases h) trivial
    simpa [pushSeg, fillSeg, Segment.slot?] using this
  | catchAll =>
    have := accepts_fill hc a i 0 (s := .catchAll) rfl [] [] (fun _ => rfl) trivial
    simpa [pushSeg, fillSeg, Segment.slot?] using this

theorem captured_fillSeg (hc : HexCase) (a : Assignment) (vars : List VarSpec) (i : Nat)
    (s : Segment) :
    s.captured vars ((fillSeg vars a i s).map (percentEncode hc)) = valueUnder vars a i s := by
  cases s with
  | «variable» k =>
    cases hvar : vars[k]? with
    | none => simp [Segment.captured, valueUnder, hvar]
    | some var => simp [Segment.captured, valueUnder, hvar, Function.comp_def]
  | literal lit => rfl
  | single => rfl
  | catchAll => rfl

/-- Chunks that the segments accept one by one are consumed together. -/
theorem consumes_mapIdx {vars : List VarSpec} {segs : List Segment}
    (chunk : Nat → Segment → List String)
    (h : ∀ i, ∀ s ∈ segs, Accepts decode (pushSeg vars s) (chunk i s)) :
    Consumes vars segs (segs.mapIdx chunk).flatten
      (segs.mapIdx fun i s => s.captured vars (chunk i s)).flatten := by
  induction segs generalizing chunk with
  | nil => exact .nil
  | cons s segs ih =>
    simp only [List.mapIdx_cons, List.flatten_cons]
    exact .cons (h 0 s List.mem_cons_self)
      (ih (fun i => chunk (i + 1)) (fun i s' hs' => h (i + 1) s' (List.mem_cons_of_mem _ hs')))

theorem PathTemplate.WellFormed.variable_wellFormed {t : PathTemplate} (h : t.WellFormed)
    {s : Segment} (hs : s ∈ t.segments) :
    ∀ k, s = .variable k → ∃ var, t.vars[k]? = some var ∧ var.WellFormed :=
  fun k hk => h.matchable.vars_wellFormed k (hk ▸ hs)

theorem map_mapIdx {α β γ : Type*} (g : β → γ) (f : Nat → α → β) (l : List α) :
    (l.mapIdx f).map g = l.mapIdx fun i x => g (f i x) := by
  simp [List.mapIdx_eq_zipIdx_map, Function.comp_def]

/-- A template consumes its own values. -/
theorem PathTemplate.consumes_fill {t : PathTemplate} (h : t.WellFormed) (hc : HexCase)
    (a : Assignment) :
    Consumes t.vars t.segments ((t.fill a).map (percentEncode hc)) (t.values a) := by
  have hconsumes := consumes_mapIdx
    (fun i s => (fillSeg t.vars a i s).map (percentEncode hc))
    (fun i s hs => accepts_fillSeg hc a (h.variable_wellFormed hs) i)
  have hflat : (t.segments.mapIdx fun i s =>
        (fillSeg t.vars a i s).map (percentEncode hc)).flatten =
      (t.fill a).map (percentEncode hc) := by
    rw [PathTemplate.fill, List.map_flatten, map_mapIdx]
  simp only [captured_fillSeg, hflat] at hconsumes
  exact hconsumes

/-! ## The empty path -/

theorem accepts_nil_eq_rest {p : List (Slot String)} (hp : p ≠ []) (h : Accepts decode p []) :
    p = [.rest] := by
  cases p with
  | nil => exact absurd rfl hp
  | cons slot p =>
    cases slot with
    | lit a => exact h.elim
    | any => exact h.elim
    | rest =>
      have : p = [] := h
      rw [this]

/-- A template that consumes nothing also consumes one empty segment, with the same captures:
    this is how the path `/` is matched. -/
theorem Consumes.singleton_empty {vars : List VarSpec} {segs : List Segment} {caps : Captures}
    (hm : Matchable vars segs) (hne : segs ≠ []) (h : Consumes vars segs [] caps) :
    Consumes vars segs [""] caps := by
  obtain ⟨s, segs, rfl⟩ := List.exists_cons_of_ne_nil hne
  have hwf : ∀ k, s = .variable k → ∃ var, vars[k]? = some var ∧ var.WellFormed :=
    fun k hk => hm.vars_wellFormed k (hk ▸ List.mem_cons_self)
  obtain ⟨chunk, tail, caps', heq, hchunk, htail, rfl⟩ := consumes_cons_iff.mp h
  obtain ⟨rfl, rfl⟩ := List.append_eq_nil_iff.mp heq.symm
  -- only a lone `**` accepts nothing, so this is the last segment
  have hrest := accepts_nil_eq_rest (pushSeg_ne_nil hwf) hchunk
  have hnil : segs = [] := by
    by_contra hne
    have hfree := (hm.bounded_head hne).restFree hwf
    exact hfree (by simp [hrest])
  subst hnil
  have hcap : s.captured vars [""] = s.captured vars [] := by
    cases s with
    | «variable» k =>
      have hjoin : join "/" ([""].map decode) = join "/" (([] : List String).map decode) := by
        decide
      simp only [Segment.captured, hjoin]
    | literal lit => rfl
    | single => rfl
    | catchAll => rfl
  refine consumes_cons_iff.mpr ⟨[""], [], caps', rfl, ?_, htail, by rw [hcap]⟩
  rw [hrest]
  rfl

/-! ## Round trip -/

theorem slash_notMem_percentEncode (hc : HexCase) (s : String) :
    '/' ∉ (percentEncode hc s).toList :=
  notMem_percentEncode (by decide) (by decide) (by decide)

theorem colon_notMem_percentEncode (hc : HexCase) (s : String) :
    ':' ∉ (percentEncode hc s).toList :=
  notMem_percentEncode (by decide) (by decide) (by decide)

/-- Splitting a request path gives the encoded values, or one empty segment if there are none. -/
theorem splitRequestPath_requestPath (hc : HexCase) {t : PathTemplate} (h : t.WellFormed)
    (hverb : ∀ v ∈ t.verb, ':' ∉ v.toList) (a : Assignment) :
    splitRequestPath (requestPath hc t a) =
      (if t.fill a = [] then [""] else (t.fill a).map (percentEncode hc), t.verb) := by
  have hverb' : ∀ v ∈ t.verb, '/' ∉ v.toList ∧ ':' ∉ v.toList :=
    fun v hv => ⟨h.verb_slash v hv, hverb v hv⟩
  by_cases hnil : t.fill a = []
  · -- the path is `/`, which splits into one empty segment
    have hjoin : join "/" ((t.fill a).map (percentEncode hc)) = join "/" ([] ++ [""]) := by
      rw [hnil, List.map_nil]
      decide
    rw [requestPath, hjoin, if_pos hnil]
    exact splitRequestPath_join_verb [] "" t.verb (by simp) (by simp) hverb'
  · rw [if_neg hnil]
    obtain ⟨init, last, hfill⟩ := (List.eq_nil_or_concat (t.fill a)).resolve_left hnil
    have hmap : (t.fill a).map (percentEncode hc) =
        init.map (percentEncode hc) ++ [percentEncode hc last] := by
      simp [hfill]
    rw [requestPath, hmap]
    refine splitRequestPath_join_verb _ _ t.verb ?_ (colon_notMem_percentEncode hc last) hverb'
    intro s hs
    rw [← hmap] at hs
    obtain ⟨x, -, rfl⟩ := List.mem_map.mp hs
    exact slash_notMem_percentEncode hc x

/-! ## Routing back -/

/-- A template matches the requests built from it. -/
theorem PathTemplate.WellFormed.matches_own {t : PathTemplate} (h : t.WellFormed)
    (hverb : ∀ v ∈ t.verb, ':' ∉ v.toList) (hc : HexCase) (a : Assignment) :
    t.matches (splitRequestPath (requestPath hc t a)).1 (splitRequestPath (requestPath hc t a)).2 =
      some (t.values a) := by
  rw [splitRequestPath_requestPath hc h hverb, PathTemplate.matches_eq_some_iff h]
  refine ⟨rfl, ?_⟩
  have hfill := PathTemplate.consumes_fill h hc a
  by_cases hnil : t.fill a = []
  · rw [hnil, List.map_nil] at hfill
    simp only [hnil, if_true]
    exact hfill.singleton_empty h.matchable h.segments_ne_nil
  · simp only [hnil, if_false]
    exact hfill

/-- **A template matches the requests built from it, and captures the values they were built
    from.** -/
theorem PathTemplate.matches_requestPath {s : String} {t : PathTemplate}
    (hparse : PathTemplate.parse s = .ok t) (hverb : ∀ v ∈ t.verb, ':' ∉ v.toList)
    (hc : HexCase) (a : Assignment) :
    t.matches (splitRequestPath (requestPath hc t a)).1 (splitRequestPath (requestPath hc t a)).2 =
        some (t.values a) ∧
      (t.values a).map Prod.fst = t.vars.map VarSpec.fieldPath := by
  have hwf := PathTemplate.parse_wellFormed hparse
  have hmatch := hwf.matches_own hverb hc a
  exact ⟨hmatch, hwf.map_fst_captures hmatch⟩

/-- The round trip on a template with a sub-pattern, a catch-all and a verb. -/
theorem matches_requestPath_shelves :
    ∃ t, PathTemplate.parse "/v1/{name=shelves/*}/**:get" = .ok t ∧
      t.matches
          (splitRequestPath (requestPath .upper t ⟨fun _ _ => "a/b: %é", ["", "x"]⟩)).1
          (splitRequestPath (requestPath .upper t ⟨fun _ _ => "a/b: %é", ["", "x"]⟩)).2 =
        some [(["name"], "shelves/a/b: %é")] := by
  refine ⟨_, rfl, ?_⟩
  exact (PathTemplate.matches_requestPath (s := "/v1/{name=shelves/*}/**:get") rfl
    (by decide) .upper ⟨fun _ _ => "a/b: %é", ["", "x"]⟩).1

end GrpcGw.Template
