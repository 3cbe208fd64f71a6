import Mathlib.Algebra.GroupWithZero.Nat
import GrpcGw.Pattern.FirstMatch
import GrpcGw.Rules.Http
import GrpcGw.Template.Language

/-!
# The Route Table

`routes.rs`: the decoded rules, and the defaults of methods without a rule, are lowered into a
table of HTTP bindings, and the table reports the bindings that collide with an earlier one.
-/

namespace GrpcGw.Routes

open GrpcGw.Text
open GrpcGw.Pattern
open GrpcGw.Template
open GrpcGw.Rules

/-! ## Bindings and routes -/

/-- Where the request body comes from. -/
inductive BodySelector where
  /-- `body: "*"`: the whole request message. -/
  | wildcard
  /-- No body is read. -/
  | none
  /-- `body: "field"`: a single field. -/
  | field (name : String)
  deriving DecidableEq, Repr

/-- One HTTP entry point of a method. -/
structure RouteBinding where
  httpMethod : String
  httpPath : String
  body : BodySelector
  /-- The `response_body` selector, if any. -/
  responseBody : Option String
  /-- Whether the binding is the default of a method without a rule. -/
  synthesized : Bool
  deriving DecidableEq, Repr

/-- A method and the HTTP bindings that reach it. -/
structure Route where
  service : String
  method : String
  grpcPath : String
  serverStreaming : Bool
  bindings : List RouteBinding
  deriving DecidableEq, Repr

/-- The routes of a descriptor set. -/
structure RouteTable where
  routes : List Route
  deriving DecidableEq, Repr

/-- `RouteTable::binding_count`. -/
def RouteTable.bindingCount (table : RouteTable) : Nat :=
  (table.routes.map (·.bindings.length)).sum

/-- Every binding of the table with its route, in declaration order. -/
def RouteTable.bindings (table : RouteTable) : List (Route × RouteBinding) :=
  table.routes.flatMap fun route => route.bindings.map (route, ·)

/-! ## Lowering -/

/-- `body_selector`: an empty `body` means no body for `GET` and `DELETE`, and the whole message
    for every other method. -/
def bodySelector (pattern : HttpPattern) (body : String) : BodySelector :=
  if body = "*" then .wildcard
  else if body = "" then
    match pattern with
    | .get _ | .delete _ => .none
    -- a custom verb is read like `POST`
    | _ => .wildcard
  else .field body

/-- `primary_binding`: the binding of a rule's own pattern, if it has one. -/
def primaryBinding (rule : HttpRule) : Option RouteBinding :=
  rule.pattern.map fun pattern =>
    { httpMethod := pattern.method
      httpPath := pattern.path
      body := bodySelector pattern rule.body
      responseBody := if rule.responseBody = "" then none else some rule.responseBody
      synthesized := false }

/-- `lower_rule`: the primary binding and one level of additional bindings. -/
def lowerRule (rule : HttpRule) : List RouteBinding :=
  (primaryBinding rule).toList ++ rule.additionalBindings.filterMap primaryBinding

/-- `default_binding`: `POST /pkg.Svc/Method` with the whole message as body. -/
def defaultBinding (grpcPath : String) : RouteBinding :=
  { httpMethod := "POST"
    httpPath := grpcPath
    body := .wildcard
    responseBody := none
    synthesized := true }

/-- `lower_method`. -/
def lowerMethod (unboundMethods : Bool) (method : MethodHttp) : Route :=
  { service := method.service
    method := method.method
    grpcPath := method.grpcPath
    serverStreaming := method.serverStreaming
    bindings :=
      match method.httpRule with
      | some rule => lowerRule rule
      | none => if unboundMethods then [defaultBinding method.grpcPath] else [] }

/-- `RouteTable::from_methods`. -/
def RouteTable.fromMethods (methods : List MethodHttp) (unboundMethods : Bool) : RouteTable :=
  { routes := methods.map (lowerMethod unboundMethods) }

/-! ## Conflicts -/

/-- How two overlapping bindings relate. -/
inductive ConflictKind where
  /-- Both have the same method and the same template. Always an error. -/
  | duplicate
  /-- The later one is shadowed by an earlier one. An error under `strict_routes`. -/
  | shadowed
  deriving DecidableEq, Repr

/-- A binding that collides with an earlier one. -/
structure RouteConflict where
  kind : ConflictKind
  httpMethod : String
  /-- The path template of the later binding. -/
  httpPath : String
  /-- The gRPC paths of the colliding methods: `[earlier, later]`. -/
  grpcPaths : List String
  deriving DecidableEq, Repr

/-- `RouteConflict::is_error`. -/
def RouteConflict.isError (c : RouteConflict) (strictRoutes : Bool) : Bool :=
  c.kind = .duplicate || strictRoutes

/-- `Display` of a conflict. -/
def RouteConflict.toText (c : RouteConflict) : String :=
  match c.kind with
  | .duplicate =>
    c.httpMethod ++ " " ++ c.httpPath ++ " is claimed by " ++ join ", " c.grpcPaths
  | .shadowed =>
    c.httpMethod ++ " " ++ c.httpPath ++ " (" ++ c.grpcPaths.getLast?.getD "" ++
      ") is shadowed by earlier route " ++ c.grpcPaths.head?.getD ""

/-- A binding whose template is compiled, as `conflicts` flattens the table. -/
structure CompiledBinding where
  httpMethod : String
  httpPath : String
  grpcPath : String
  template : PathTemplate
  deriving DecidableEq, Repr

/-- Compile the template of one binding; a template that fails to parse is skipped. -/
def compileBinding (rb : Route × RouteBinding) : Option CompiledBinding :=
  match PathTemplate.parse rb.2.httpPath with
  | .ok template =>
    some
      { httpMethod := rb.2.httpMethod
        httpPath := rb.2.httpPath
        grpcPath := rb.1.grpcPath
        template := template }
  | .error _ => none

/-- The flattened and compiled bindings, in declaration order. -/
def RouteTable.entries (table : RouteTable) : List CompiledBinding :=
  table.bindings.filterMap compileBinding

/-- `templates_overlap`: whether two templates could both match some request path. -/
def templatesOverlap (a b : PathTemplate) : Bool :=
  overlap (templateSlots a) (templateSlots b)

/-- The test of the inner loop: the same method, the same verb and overlapping templates. -/
def clash (earlier later : CompiledBinding) : Bool :=
  earlier.httpMethod = later.httpMethod &&
    earlier.template.verb = later.template.verb &&
    templatesOverlap earlier.template later.template

/-- The conflict between two clashing bindings. -/
def conflict (earlier later : CompiledBinding) : RouteConflict :=
  { kind := if earlier.httpPath = later.httpPath then .duplicate else .shadowed
    httpMethod := later.httpMethod
    httpPath := later.httpPath
    grpcPaths := [earlier.grpcPath, later.grpcPath] }

/-- One round of the outer loop: binding `j` against the first earlier one it clashes with. -/
def conflictAt (entries : List CompiledBinding) (j : Nat) : Option RouteConflict :=
  match firstClash clash entries j with
  | none => none
  | some i =>
    match entries[i]?, entries[j]? with
    | some earlier, some later => some (conflict earlier later)
    | _, _ => none

/-- `RouteTable::conflicts`. -/
def RouteTable.conflicts (table : RouteTable) : List RouteConflict :=
  -- the outer loop starts at the second binding
  (List.range' 1 (table.entries.length - 1)).filterMap (conflictAt table.entries)

/-! ## Compiled bindings -/

theorem compileBinding_eq_some_iff {rb : Route × RouteBinding} {e : CompiledBinding} :
    compileBinding rb = some e ↔
      PathTemplate.parse rb.2.httpPath = .ok e.template ∧ e.httpMethod = rb.2.httpMethod ∧
        e.httpPath = rb.2.httpPath ∧ e.grpcPath = rb.1.grpcPath := by
  unfold compileBinding
  cases PathTemplate.parse rb.2.httpPath with
  | error err => simp
  | ok template =>
    obtain ⟨method, path, grpc, t⟩ := e
    simp only [Option.some.injEq, CompiledBinding.mk.injEq, Except.ok.injEq]
    constructor
    · rintro ⟨rfl, rfl, rfl, rfl⟩
      exact ⟨rfl, rfl, rfl, rfl⟩
    · rintro ⟨rfl, rfl, rfl, rfl⟩
      exact ⟨rfl, rfl, rfl, rfl⟩

theorem CompiledBinding.wellFormed_of_compile {rb : Route × RouteBinding} {e : CompiledBinding}
    (h : compileBinding rb = some e) : e.template.WellFormed :=
  PathTemplate.parse_wellFormed (compileBinding_eq_some_iff.mp h).1

theorem RouteTable.wellFormed_of_mem_entries {table : RouteTable} {e : CompiledBinding}
    (h : e ∈ table.entries) : e.template.WellFormed := by
  obtain ⟨rb, -, hrb⟩ := List.mem_filterMap.mp h
  exact CompiledBinding.wellFormed_of_compile hrb

theorem mem_bindings_fromMethods {methods : List MethodHttp} {u : Bool}
    {rb : Route × RouteBinding} :
    rb ∈ (RouteTable.fromMethods methods u).bindings ↔
      ∃ m ∈ methods, rb.1 = lowerMethod u m ∧ rb.2 ∈ (lowerMethod u m).bindings := by
  obtain ⟨route, binding⟩ := rb
  simp only [RouteTable.bindings, RouteTable.fromMethods, List.mem_flatMap, List.mem_map]
  constructor
  · rintro ⟨r, ⟨m, hm, rfl⟩, b, hb, heq⟩
    cases heq
    exact ⟨m, hm, rfl, hb⟩
  · rintro ⟨m, hm, rfl, hb⟩
    exact ⟨_, ⟨m, hm, rfl⟩, binding, hb, rfl⟩

/-! ## The language of a clash -/

/-- **The overlap test is exact**: two templates overlap iff some segment list is matched by both
    of them under their verbs. -/
theorem templatesOverlap_iff {a b : PathTemplate} (ha : a.WellFormed) (hb : b.WellFormed) :
    templatesOverlap a b = true ↔
      ∃ segments, (a.matches segments a.verb).isSome ∧ (b.matches segments b.verb).isSome := by
  rw [templatesOverlap, overlap_iff decode_surjective ha.restLast_slots hb.restLast_slots ""]
  simp only [PathTemplate.matches_isSome_iff ha, PathTemplate.matches_isSome_iff hb, true_and]

/-- **The overlap test decides language intersection** on parsed templates with one verb. -/
theorem templatesOverlap_decides {s s' : String} {a b : PathTemplate}
    (ha : PathTemplate.parse s = .ok a) (hb : PathTemplate.parse s' = .ok b)
    (hverb : a.verb = b.verb) :
    templatesOverlap a b = true ↔
      ∃ segments, (a.matches segments a.verb).isSome ∧ (b.matches segments a.verb).isSome := by
  rw [templatesOverlap_iff (PathTemplate.parse_wellFormed ha) (PathTemplate.parse_wellFormed hb),
    hverb]

/-- Two templates that share the path of a literal under a catch-all. -/
theorem templatesOverlap_decides_files :
    ∃ a b, PathTemplate.parse "/v1/{path=files/**}:get" = .ok a ∧
      PathTemplate.parse "/v1/*/a%2Fb:get" = .ok b ∧
      ∃ segments, (a.matches segments a.verb).isSome ∧ (b.matches segments a.verb).isSome := by
  have hfiles : ∃ t, PathTemplate.parse "/v1/{path=files/**}:get" = .ok t := ⟨_, rfl⟩
  have hliteral : ∃ t, PathTemplate.parse "/v1/*/a%2Fb:get" = .ok t := ⟨_, rfl⟩
  obtain ⟨a, ha⟩ := hfiles
  obtain ⟨b, hb⟩ := hliteral
  refine ⟨a, b, ha, hb, (templatesOverlap_decides ha hb ?_).mp ?_⟩
  · cases ha
    cases hb
    rfl
  · cases ha
    cases hb
    decide

/-- A request as the templates of one HTTP method see it. -/
abbrev Target := String × List String × Option String

/-- Whether a compiled binding takes a target: its method, and its template matches. -/
def CompiledBinding.takes (e : CompiledBinding) (x : Target) : Bool :=
  e.httpMethod = x.1 && (e.template.matches x.2.1 x.2.2).isSome

/-- **A clash is a common target.** -/
theorem clash_iff {e e' : CompiledBinding} (h : e.template.WellFormed)
    (h' : e'.template.WellFormed) : clash e e' = true ↔ ∃ x, e.takes x ∧ e'.takes x := by
  simp only [clash, CompiledBinding.takes, Bool.and_eq_true, decide_eq_true_eq,
    templatesOverlap_iff h h']
  constructor
  · -- the common segments under the common verb
    rintro ⟨⟨hmethod, hverb⟩, segments, hs, hs'⟩
    refine ⟨(e.httpMethod, segments, e.template.verb), ⟨rfl, hs⟩, hmethod.symm, ?_⟩
    rw [hverb]
    exact hs'
  · rintro ⟨⟨method, segments, verb⟩, ⟨hm, hs⟩, hm', hs'⟩
    -- a match fixes the verb, so the two verbs agree
    have hverb := ((PathTemplate.matches_isSome_iff h segments verb).mp hs).1
    have hverb' := ((PathTemplate.matches_isSome_iff h' segments verb).mp hs').1
    refine ⟨⟨hm.trans hm'.symm, hverb.trans hverb'.symm⟩, segments, ?_, ?_⟩
    · rw [hverb]
      exact hs
    · rw [hverb']
      exact hs'

/-! ## The reports -/

theorem conflictAt_eq_some_iff {entries : List CompiledBinding} {j : Nat} {c : RouteConflict} :
    conflictAt entries j = some c ↔
      ∃ i e e', firstClash clash entries j = some i ∧ entries[i]? = some e ∧
        entries[j]? = some e' ∧ c = conflict e e' := by
  unfold conflictAt
  cases hfirst : firstClash clash entries j with
  | none => simp
  | some i =>
    constructor
    · -- both positions lie in the table, or there is no report
      intro h
      cases hi : entries[i]? with
      | none => simp [hi] at h
      | some e =>
        cases hj : entries[j]? with
        | none => simp [hi, hj] at h
        | some e' => exact ⟨i, e, e', rfl, hi, rfl, by simpa [hi, hj] using h.symm⟩
    · rintro ⟨k, e, e', hk, he, he', rfl⟩
      cases hk
      simp [he, he']

/-- Binding `j` is reported iff it clashes with some earlier binding. -/
theorem conflictAt_isSome_iff {entries : List CompiledBinding} {j : Nat} :
    (conflictAt entries j).isSome ↔ (firstClash clash entries j).isSome := by
  constructor
  · intro h
    obtain ⟨c, hc⟩ := Option.isSome_iff_exists.mp h
    obtain ⟨i, -, -, hi, -⟩ := conflictAt_eq_some_iff.mp hc
    simp [hi]
  · intro h
    obtain ⟨i, hi⟩ := Option.isSome_iff_exists.mp h
    cases hj : entries[j]? with
    | none => simp [firstClash, hj] at hi
    | some e' =>
      obtain ⟨-, e, he, -⟩ := (firstClash_eq_some_iff hj).mp hi
      exact Option.isSome_iff_exists.mpr ⟨_, conflictAt_eq_some_iff.mpr ⟨i, e, e', hi, he, hj, rfl⟩⟩

/-- The conflicts are the reports of all bindings: the first binding has none. -/
theorem RouteTable.mem_conflicts {table : RouteTable} {c : RouteConflict} :
    c ∈ table.conflicts ↔ ∃ j, conflictAt table.entries j = some c := by
  simp only [RouteTable.conflicts, List.mem_filterMap, List.mem_range'_1]
  constructor
  · rintro ⟨j, -, hj⟩
    exact ⟨j, hj⟩
  · rintro ⟨j, hc⟩
    refine ⟨j, ?_, hc⟩
    obtain ⟨i, e, e', hi, -, he', -⟩ := conflictAt_eq_some_iff.mp hc
    have hlt := ((firstClash_eq_some_iff he').mp hi).1
    have hlen := (List.getElem?_eq_some_iff.mp he').1
    omega

/-- A table without conflicts has pairwise disjoint bindings. -/
theorem RouteTable.conflicts_eq_nil_iff {table : RouteTable} :
    table.conflicts = [] ↔ table.entries.Pairwise (fun e e' => clash e e' = false) := by
  rw [pairwise_iff_firstClash_none, List.eq_nil_iff_forall_not_mem]
  simp only [RouteTable.mem_conflicts, not_exists]
  constructor
  · intro h j
    by_contra hne
    have hsome : (conflictAt table.entries j).isSome :=
      conflictAt_isSome_iff.mpr (Option.isSome_iff_ne_none.mpr hne)
    obtain ⟨c, hc⟩ := Option.isSome_iff_exists.mp hsome
    exact h c j hc
  · intro h c j hc
    obtain ⟨i, -, -, hi, -⟩ := conflictAt_eq_some_iff.mp hc
    rw [h j] at hi
    cases hi

end GrpcGw.Routes
