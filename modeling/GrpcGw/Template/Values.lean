import GrpcGw.Template.Captures
import GrpcGw.Template.Requests

/-!
# Path Templates: The Values of the Variables

What a template can capture: each variable takes the texts that its sub-pattern reads n as
pieces, whatever the other variables take, and nothing else.

- `VarSpec.Takes`: the texts of a variable.
- `PathTemplate.WellFormed.exists_assignment`: values for all variables at once.
- `PathTemplate.exists_captures_iff`: the captures of a template, exactly.
-/

namespace GrpcGw.Template

open GrpcGw.Text
open GrpcGw.Pattern

/-! ## Texts -/

/-- A text that a variable can capture: its pieces satisfy the sub-pattern. A piece may hold a `/`
    of its own. -/
def VarSpec.Takes (var : VarSpec) (text : String) : Prop :=
  ∃ pieces, Accepts id (var.sub.filterMap Segment.slot?) pieces ∧ join "/" pieces = text

/-- A bare variable takes every text. -/
theorem VarSpec.takes_of_single {var : VarSpec} (h : var.sub = [.single]) (text : String) :
    var.Takes text := by
  refine ⟨[text], ?_, by simp [join]⟩
  rw [h]
  trivial

/-- So does one that stands for the rest of the path. -/
theorem VarSpec.takes_of_catchAll {var : VarSpec} (h : var.sub = [.catchAll]) (text : String) :
    var.Takes text := by
  refine ⟨split '/' text, ?_, join_split '/' text⟩
  rw [h]
  rfl

/-- A value with the field path of its variable. -/
def VarSpec.MayCapture (var : VarSpec) (capture : List String × String) : Prop :=
  capture.1 = var.fieldPath ∧ var.Takes capture.2

/-- A captured value is a text that its variable takes. -/
theorem CapturedFrom.mayCapture {var : VarSpec} {capture : List String × String}
    {chunk : List String} (h : CapturedFrom var capture chunk) : var.MayCapture capture := by
  obtain ⟨haccepts, rfl⟩ := h
  exact ⟨rfl, chunk.map decode, (accepts_map _ _).mpr haccepts, rfl⟩

/-! ## Filling -/

section Fill

variable {a : Assignment} {i n : Nat} {s : Segment} {sub : List Segment}

theorem notMem_dropLast_of_cons (h : .catchAll ∉ (s :: sub).dropLast) :
    .catchAll ∉ sub.dropLast := by
  cases sub with
  | nil => simp
  | cons s' sub =>
    rw [List.dropLast_cons_cons] at h
    exact fun hmem => h (List.mem_cons_of_mem _ hmem)

/-- The places behind the first one are counted from one further on. -/
theorem flatten_fill_cons :
    ((s :: sub).mapIdx fun j s => s.fill a i (j + n)).flatten =
      s.fill a i n ++ (sub.mapIdx fun j s => s.fill a i (j + (n + 1))).flatten := by
  have hfun : (fun j (s : Segment) => s.fill a i (j + 1 + n)) =
      fun j s => s.fill a i (j + (n + 1)) := by
    funext j s
    rw [Nat.add_right_comm, Nat.add_assoc]
  simp [List.mapIdx_cons, hfun]

/-- A sub-pattern is filled with its pieces, one for each place, and what is left for a final
    `**`. -/
theorem fill_of_accepts (hflat : ∀ s ∈ sub, s.varIndex? = none) (hlast : .catchAll ∉ sub.dropLast)
    {pieces : List String} (haccepts : Accepts id (sub.filterMap Segment.slot?) pieces)
    (hstar : ∀ j, a.star i (j + n) = pieces[j]?.getD "")
    (htail : .catchAll ∈ sub → a.tail = pieces.drop (sub.length - 1)) :
    (sub.mapIdx fun j s => s.fill a i (j + n)).flatten = pieces := by
  induction sub generalizing pieces n with
  | nil =>
    cases pieces with
    | nil => rfl
    | cons x pieces => exact haccepts.elim
  | cons s sub ih =>
    have hs := hflat s List.mem_cons_self
    -- a place takes the piece in front, and the rest is filled from the next one on
    have hrest : ∀ x rest, pieces = x :: rest → Accepts id (sub.filterMap Segment.slot?) rest →
        (sub.mapIdx fun j s => s.fill a i (j + (n + 1))).flatten = rest := by
      rintro x rest rfl haccepts
      apply ih (fun s hs => hflat s (List.mem_cons_of_mem _ hs)) (notMem_dropLast_of_cons hlast)
        haccepts
      · intro j
        have hj := hstar (j + 1)
        rw [Nat.add_right_comm, Nat.add_assoc] at hj
        simpa using hj
      · intro hmem
        obtain ⟨m, hm⟩ := Nat.exists_eq_add_of_lt (List.length_pos_of_mem hmem)
        rw [htail (List.mem_cons_of_mem _ hmem), List.length_cons, Nat.add_sub_cancel]
        simp [hm]
    rw [flatten_fill_cons]
    cases s with
    | «variable» k => cases hs
    | literal lit =>
      cases pieces with
      | nil => exact haccepts.elim
      | cons x rest =>
        obtain ⟨hx, haccepts⟩ := haccepts
        rw [hrest x rest rfl haccepts, Segment.fill, ← hx]
        rfl
    | single =>
      cases pieces with
      | nil => exact haccepts.elim
      | cons x rest =>
        have hx := hstar 0
        rw [Nat.zero_add] at hx
        rw [hrest x rest rfl haccepts, Segment.fill, hx]
        rfl
    | catchAll =>
      -- nothing stands behind a `**`
      cases sub with
      | nil => simpa [Segment.fill] using htail List.mem_cons_self
      | cons s' sub => exact absurd (by simp) hlast

end Fill

/-! ## Captures -/

section Values

variable {t : PathTemplate} {pieces : Nat → List String}

/-- The assignment that gives every variable its pieces. -/
def PathTemplate.assign (t : PathTemplate) (pieces : Nat → List String) : Assignment where
  star i j :=
    match t.segments[i]? with
    | some (.variable k) => (pieces k)[j]?.getD ""
    | _ => ""
  tail :=
    match t.segments.getLast? with
    | some (.variable k) =>
      match t.vars[k]? with
      | some var => (pieces k).drop (var.sub.length - 1)
      | none => []
    | _ => []

/-- A variable with a `**` is the last segment. -/
theorem PathTemplate.WellFormed.getLast?_of_catchAll (h : t.WellFormed) {i k : Nat} {var : VarSpec}
    (hi : t.segments[i]? = some (.variable k)) (hvar : t.vars[k]? = some var)
    (hcatch : .catchAll ∈ var.sub) : t.segments.getLast? = some (.variable k) := by
  have hlt : i < t.segments.length := (List.getElem?_eq_some_iff.mp hi).1
  have hlast : i = t.segments.length - 1 := by
    by_contra hne
    -- an earlier segment would match a fixed number of path segments
    have hmem : Segment.variable k ∈ t.segments.dropLast := by
      apply List.mem_of_getElem? (i := i)
      rw [List.getElem?_dropLast, if_pos (by omega), hi]
    obtain ⟨var', n, hvar', hcount⟩ := h.bounded_dropLast _ hmem
    cases hvar.symm.trans hvar'
    rw [(h.vars_wellFormed var (List.mem_of_getElem? hvar)).count_eq, segmentCount,
      if_pos hcatch] at hcount
    cases hcount
  rw [List.getLast?_eq_getElem?, ← hlast, hi]

/-- A variable is filled with its pieces. -/
theorem PathTemplate.WellFormed.fillSeg_assign (h : t.WellFormed) {i k : Nat} {var : VarSpec}
    (hi : t.segments[i]? = some (.variable k)) (hvar : t.vars[k]? = some var)
    (haccepts : Accepts id (var.sub.filterMap Segment.slot?) (pieces k)) :
    fillSeg t.vars (t.assign pieces) i (.variable k) = pieces k := by
  have hwf := h.vars_wellFormed var (List.mem_of_getElem? hvar)
  simp only [fillSeg, hvar]
  refine fill_of_accepts (n := 0) hwf.sub_flat hwf.sub_catchAll_last haccepts ?_ ?_
  · intro j
    simp [PathTemplate.assign, hi]
  · intro hcatch
    simp [PathTemplate.assign, h.getLast?_of_catchAll hi hvar hcatch, hvar]

theorem filterMap_range_mapIdx {α β : Type*} (f : Nat → α → β) (l : List α) :
    (List.range l.length).filterMap (fun k => (l[k]?).map (f k)) = l.mapIdx f := by
  induction l generalizing f with
  | nil => rfl
  | cons x l ih =>
    simp only [List.length_cons, List.range_succ_eq_map, List.filterMap_cons,
      List.getElem?_cons_zero, Option.map_some, List.filterMap_map, List.mapIdx_cons]
    exact congrArg _ (ih fun k => f (k + 1))

/-- The captures of a template that is filled with the pieces of its variables. -/
theorem PathTemplate.WellFormed.values_assign (h : t.WellFormed)
    (hpieces : ∀ k var, t.vars[k]? = some var →
      Accepts id (var.sub.filterMap Segment.slot?) (pieces k)) :
    t.values (t.assign pieces) =
      t.vars.mapIdx fun k var => (var.fieldPath, join "/" (pieces k)) := by
  have hvalue : t.segments.mapIdx (valueUnder t.vars (t.assign pieces)) =
      t.segments.map fun s => (s.varIndex?.bind fun k =>
        (t.vars[k]?).map fun var => (var.fieldPath, join "/" (pieces k))).toList := by
    apply List.ext_getElem?
    intro i
    rw [List.getElem?_mapIdx, List.getElem?_map]
    cases hi : t.segments[i]? with
    | none => rfl
    | some s =>
      rw [Option.map_some, Option.map_some]
      cases s with
      | «variable» k =>
        cases hvar : t.vars[k]? with
        | none => simp [valueUnder, Segment.varIndex?, hvar]
        | some var =>
          simp [valueUnder, Segment.varIndex?, hvar, h.fillSeg_assign hi hvar (hpieces k var hvar)]
      | literal lit => rfl
      | single => rfl
      | catchAll => rfl
  rw [PathTemplate.values, hvalue, ← List.flatMap_def, ← List.filterMap_eq_flatMap_toList,
    ← List.filterMap_filterMap, h.variables_eq, filterMap_range_mapIdx]

/-- **Values for all variables at once**: each variable may have any text that it takes. -/
theorem PathTemplate.WellFormed.exists_assignment (h : t.WellFormed) {caps : Captures}
    (hcaps : List.Forall₂ VarSpec.MayCapture t.vars caps) :
    ∃ a, t.values a = caps := by
  obtain ⟨hlen, hget⟩ := List.forall₂_iff_get.mp hcaps
  have hpieces : ∀ k : Nat, ∃ pieces : List String, ∀ var : VarSpec, t.vars[k]? = some var →
      ∃ c : List String × String, caps[k]? = some c ∧ c.1 = var.fieldPath ∧
        Accepts id (var.sub.filterMap Segment.slot?) pieces ∧ join "/" pieces = c.2 := by
    intro k
    by_cases hk : k < t.vars.length
    · obtain ⟨hfst, pieces, haccepts, hjoin⟩ := hget k hk (hlen ▸ hk)
      refine ⟨pieces, fun var hvar => ⟨_, List.getElem?_eq_getElem (hlen ▸ hk), ?_⟩⟩
      obtain ⟨_, rfl⟩ := List.getElem?_eq_some_iff.mp hvar
      exact ⟨hfst, haccepts, hjoin⟩
    · exact ⟨[], fun var hvar => absurd (List.getElem?_eq_some_iff.mp hvar).1 hk⟩
  choose pieces hpieces using hpieces
  refine ⟨t.assign pieces, ?_⟩
  rw [h.values_assign]
  · apply List.ext_getElem?
    intro k
    rw [List.getElem?_mapIdx]
    cases hvar : t.vars[k]? with
    | none =>
      rw [List.getElem?_eq_none_iff, hlen] at hvar
      rw [Option.map_none, List.getElem?_eq_none hvar]
    | some var =>
      obtain ⟨c, hc, hfst, -, hjoin⟩ := hpieces k var hvar
      rw [Option.map_some, hc, hjoin, ← hfst]
  · intro k var hvar
    obtain ⟨c, -, -, haccepts, -⟩ := hpieces k var hvar
    exact haccepts

/-- Every variable of a match takes its value. -/
theorem PathTemplate.WellFormed.captures_take (h : t.WellFormed) {segments : List String}
    {verb : Option String} {caps : Captures} (hmatch : t.matches segments verb = some caps) :
    List.Forall₂ VarSpec.MayCapture t.vars caps := by
  have hchunks := ((PathTemplate.matches_eq_some_iff h segments verb caps).mp hmatch).2.chunks
  have hvars : (t.segments.filterMap Segment.varIndex?).filterMap (t.vars[·]?) = t.vars := by
    have := filterMap_range_getElem? id t.vars
    simpa [h.variables_eq] using this
  rw [hvars] at hchunks
  exact hchunks.imp fun var c ⟨chunk, _, hfrom⟩ => hfrom.mayCapture

end Values

/-- **The captures of a template, exactly**: some request is matched with given captures iff each
    variable, in template order, takes its value. -/
theorem PathTemplate.exists_captures_iff {s : String} {t : PathTemplate}
    (hparse : PathTemplate.parse s = .ok t) (hverb : ∀ v ∈ t.verb, ':' ∉ v.toList)
    (caps : Captures) :
    (∃ path, t.matches (splitRequestPath path).1 (splitRequestPath path).2 = some caps) ↔
      List.Forall₂ VarSpec.MayCapture t.vars caps := by
  have hwf := PathTemplate.parse_wellFormed hparse
  constructor
  · rintro ⟨path, hmatch⟩
    exact hwf.captures_take hmatch
  · intro hcaps
    obtain ⟨a, rfl⟩ := hwf.exists_assignment hcaps
    exact ⟨requestPath .upper t a, hwf.matches_own hverb .upper a⟩

/-- Both variables of a template may have a `/` in their values. -/
theorem exists_captures_files :
    ∃ t, PathTemplate.parse "/v1/{shelf}/files/{name=**}" = .ok t ∧
      ∃ path, t.matches (splitRequestPath path).1 (splitRequestPath path).2 =
        some [(["shelf"], "a/b"), (["name"], "c//d")] := by
  refine ⟨_, rfl, ?_⟩
  refine (PathTemplate.exists_captures_iff (s := "/v1/{shelf}/files/{name=**}") rfl (by decide)
    _).mpr ?_
  exact .cons ⟨rfl, VarSpec.takes_of_single rfl "a/b"⟩
    (.cons ⟨rfl, VarSpec.takes_of_catchAll rfl "c//d"⟩ .nil)

end GrpcGw.Template
