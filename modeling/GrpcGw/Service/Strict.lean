import GrpcGw.Service.Declared
import GrpcGw.Service.Order
import GrpcGw.Service.Sending

/-!
# Strict Routes

A strict build accepts only declarations that are apart. Each of them then has the requests that
it is meant for to itself, wherever it is declared.

- `strict_select_iff`: a request is routed to the declaration that is meant.
- `strict_handle_leaves`: a message of a unary method arrives through every binding of the method
  that does not take the whole body and whose HTTP method is in upper case.
-/

namespace GrpcGw.Service

open GrpcGw.Text
open GrpcGw.Pattern
open GrpcGw.Reflect
open GrpcGw.Template
open GrpcGw.Rules
open GrpcGw.Routes
open GrpcGw.Transcode

/-- A search whose hits exclude each other finds every hit. -/
theorem findSome?_of_pairwise {α β : Type*} {p : α → Option β} {l : List α}
    (h : l.Pairwise fun a b => p a = none ∨ p b = none) {a : α} {b : β} (ha : a ∈ l)
    (hp : p a = some b) : l.findSome? p = some b := by
  induction l with
  | nil => cases ha
  | cons x l ih =>
    obtain ⟨hx, hl⟩ := List.pairwise_cons.mp h
    rw [List.findSome?_cons]
    rcases List.mem_cons.mp ha with rfl | ha
    · rw [hp]
    · -- an earlier hit would exclude this one
      have hnone : p x = none := by
        apply (hx a ha).resolve_right
        rw [hp]
        simp
      rw [hnone]
      exact ih hl ha

section Strict

variable {codec : Codec} {b : GatewayBuilder} {g : Gateway}

/-- A declaration is meant by the requests of its method that its binding matches. -/
theorem serves_eq_none_or {d : Declaration} {m : String} {segments : List String}
    {verb : Option String} :
    d.serves m segments verb = none ∨
      d.binding.httpMethod = m ∧ ∀ route, BindingMatches (route, d.binding) segments verb := by
  unfold Declaration.serves BindingMatches
  split
  · next hm =>
    cases hparse : PathTemplate.parse d.binding.httpPath with
    | error e => exact .inl rfl
    | ok t =>
      cases hmatch : t.matches segments verb with
      | none => exact .inl (by simp [hmatch])
      | some captures => exact .inr ⟨hm, fun _ => ⟨t, hparse, by simp [hmatch]⟩⟩
  · exact .inl rfl

/-- No request is matched by the bindings of both declarations. -/
def Declaration.Apart (d d' : Declaration) : Prop :=
  ∀ route route', Service.Apart (route, d.binding) (route', d'.binding)

/-- A pool has no conflicts iff its declarations are apart. -/
theorem conflicts_eq_nil_iff_declarations {pool : DescriptorPool} {unboundMethods : Bool} :
    (RouteTable.fromMethods (extractHttpRules pool) unboundMethods).conflicts = [] ↔
      (declarations pool unboundMethods).Pairwise Declaration.Apart := by
  rw [conflicts_eq_nil_iff_apart, bindings_eq_declarations, List.pairwise_map]
  apply List.Pairwise.iff
  intro d d'
  -- the routes play no part
  exact ⟨fun h _ _ => h, fun h => h _ _⟩

/-- A strict build has checked that the declarations are apart. -/
theorem pairwise_apart (h : b.build codec = .ok g) (hstrict : b.options.strictRoutes = true) :
    (declarations g.pool b.options.unboundMethods).Pairwise Declaration.Apart := by
  rw [← conflicts_eq_nil_iff_declarations, List.eq_nil_iff_forall_not_mem]
  intro c hc
  have herror := (checks_of_build h).2.1 c hc
  rw [hstrict, RouteConflict.isError, Bool.or_true] at herror
  cases herror

/-- So no request is meant by two declarations. -/
theorem pairwise_serves (h : b.build codec = .ok g) (hstrict : b.options.strictRoutes = true)
    (m : String) (segments : List String) (verb : Option String) :
    (declarations g.pool b.options.unboundMethods).Pairwise fun d d' =>
      d.serves m segments verb = none ∨ d'.serves m segments verb = none := by
  refine (pairwise_apart h hstrict).imp fun {d d'} hapart => ?_
  rcases serves_eq_none_or (d := d) (m := m) with hnone | ⟨hm, hmatch⟩
  · exact .inl hnone
  · rcases serves_eq_none_or (d := d') with hnone' | ⟨hm', hmatch'⟩
    · exact .inr hnone'
    · -- a route of either one will do
      let route := d.route g.pool true
      exact absurd (hmatch' route)
        (hapart route route (hm.trans hm'.symm) segments verb (hmatch route))

/-- What is selected is an endpoint of a declaration that is meant, whether routes are strict or
    not. -/
theorem Gateway.exists_serves_of_select (h : b.build codec = .ok g)
    (hpaths : (grpcPaths g.pool).Nodup) {method path : String} {found : Entry × Captures}
    (hselect : g.select method path = some found) :
    ∃ d ∈ declarations g.pool b.options.unboundMethods,
      d.serves (toAsciiUppercase method) (requestTarget path).1 (requestTarget path).2 =
        some found := by
  have hlookup := lookup_eq_findSome? (compile_of_build h) hpaths (toAsciiUppercase method)
    (requestTarget path).1 (requestTarget path).2
  exact List.exists_of_findSome?_eq_some (hlookup.symm.trans hselect)

theorem strict_select (h : b.build codec = .ok g) (hstrict : b.options.strictRoutes = true)
    (hpaths : (grpcPaths g.pool).Nodup) {d : Declaration}
    (hd : d ∈ declarations g.pool b.options.unboundMethods) {method path : String}
    {found : Entry × Captures}
    (hserves : d.serves (toAsciiUppercase method) (requestTarget path).1 (requestTarget path).2 =
      some found) : g.select method path = some found := by
  have hlookup := lookup_eq_findSome? (compile_of_build h) hpaths (toAsciiUppercase method)
    (requestTarget path).1 (requestTarget path).2
  exact hlookup.trans (findSome?_of_pairwise (pairwise_serves h hstrict _ _ _) hd hserves)

/-- **Under strict routes there is no order of declarations**: a request is routed to an endpoint
    iff some declaration is meant, and to that one. -/
theorem strict_select_iff (h : b.build codec = .ok g) (hstrict : b.options.strictRoutes = true)
    (hpaths : (grpcPaths g.pool).Nodup) (method path : String) (found : Entry × Captures) :
    g.select method path = some found ↔
      ∃ d ∈ declarations g.pool b.options.unboundMethods,
        d.serves (toAsciiUppercase method) (requestTarget path).1 (requestTarget path).2 =
          some found := by
  constructor
  · exact Gateway.exists_serves_of_select h hpaths
  · rintro ⟨d, hd, hserves⟩
    exact strict_select h hstrict hpaths hd hserves

/-- The own requests of a declaration are meant for it. -/
theorem serves_own {d : Declaration} {t : PathTemplate}
    (hparse : PathTemplate.parse d.binding.httpPath = .ok t)
    (hverb : ∀ v ∈ t.verb, ':' ∉ v.toList) (hc : HexCase) (a : Assignment) :
    d.serves d.binding.httpMethod (splitRequestPath (requestPath hc t a)).1
      (splitRequestPath (requestPath hc t a)).2 = some (d.entry t, t.values a) := by
  have hmatch := (PathTemplate.parse_wellFormed hparse).matches_own hverb hc a
  rw [Declaration.serves, if_pos rfl, hparse]
  simp only [hmatch, Option.map_some]

/-- A request that is built from the template of a declaration is routed to it. -/
theorem strict_select_own (hbuild : b.build codec = .ok g)
    (hstrict : b.options.strictRoutes = true) (hpaths : (grpcPaths g.pool).Nodup) {d : Declaration}
    (hd : d ∈ declarations g.pool b.options.unboundMethods)
    (hupper : toAsciiUppercase d.binding.httpMethod = d.binding.httpMethod)
    {t : PathTemplate} (hparse : PathTemplate.parse d.binding.httpPath = .ok t)
    (hverb : ∀ v ∈ t.verb, ':' ∉ v.toList) {hc : HexCase} {a : Assignment} {path : String}
    {query : Option String} (hsplit : splitQuery path = (requestPath hc t a, query)) :
    g.select d.binding.httpMethod path = some (d.entry t, t.values a) := by
  apply strict_select hbuild hstrict hpaths hd
  rw [requestTarget, hsplit, hupper]
  exact serves_own hparse hverb hc a

/-- **Under strict routes a message arrives through every binding** whose HTTP method is in upper
    case, whatever else is declared: a client that fills the variables of the binding and spells the
    rest of its message as parameters, or as parameters and a body, has the method called with that
    very message, if the leaves outside the body complete it. -/
theorem strict_handle_leaves (hbuild : b.build codec = .ok g)
    (hstrict : b.options.strictRoutes = true) (hpaths : (grpcPaths g.pool).Nodup) {d : Declaration}
    (hd : d ∈ declarations g.pool b.options.unboundMethods)
    (hupper : toAsciiUppercase d.binding.httpMethod = d.binding.httpMethod)
    (hunary : d.method.isServerStreaming = false) (hselector : d.binding.body ≠ .wildcard)
    {t : PathTemplate} (hparse : PathTemplate.parse d.binding.httpPath = .ok t)
    (hverb : ∀ v ∈ t.verb, ':' ∉ v.toList ∧ '?' ∉ v.toList) {msg : DynamicMessage}
    {p : Nat → Bool} (hsend : SendableOutside g.pool msg p) (hwt : WellTyped g.pool msg)
    (hdesc : msg.desc = d.method.input) {body : Bytes}
    (hbody : (d.entry t).decodeBody codec g.pool body g.json = .ok (restrict msg p))
    (hc : HexCase) (a : Assignment) {params : List (String × String)} {query : String}
    (hquery : FormQuery params query) {l : List Binding}
    (hl : List.Forall₂ SpelledBy (leavesOutside g.pool msg p) l)
    (hreorder : KeyedReorder Binding.path l
      (captureBindings (t.values a) ++ parameterBindings params))
    (headers : Headers) :
    g.handle codec d.binding.httpMethod (requestPath hc t a ++ "?" ++ query) headers body =
      match g.backend.unary (grpcPath d.service d.method) (codec.encodeMessage g.pool msg)
          (forwardedMetadata headers) with
      | .error err => some (errorResponse .unavailable err)
      | .ok reply => some ((d.entry t).renderReply codec g.pool reply g.json) := by
  have hsplit := splitQuery_append
    (question_notMem_requestPath hc (fun v hv => (hverb v hv).2) a) query
  have hselect := strict_select_own hbuild hstrict hpaths hd hupper hparse
    (fun v hv => (hverb v hv).1) hsplit
  have hentry : (d.entry t).body ≠ .wildcard := hselector
  exact Gateway.handle_of_leaves hselect hunary hentry hsend hwt hdesc hbody hquery hsplit hl
    hreorder headers

end Strict

/-- A builder with strict routes for the reviews. -/
def strictBuilder : GatewayBuilder :=
  { reviewBuilder with options := { strictRoutes := true } }

/-- The declaration of the only method of the reviews. -/
def reviewDeclaration : Declaration where
  service := serviceOf "demo.Reviews"
    [{ name := "Find"
       input := ⟨3⟩
       output := ⟨3⟩
       rule := some (.mk "" (some (.get "/v1/reviews/\x7bstars\x7d")) "" "" []) }]
  method := AnnotatedMethod.toDescriptor
    { name := "Find"
      input := ⟨3⟩
      output := ⟨3⟩
      rule := some (.mk "" (some (.get "/v1/reviews/\x7bstars\x7d")) "" "" []) }
  binding :=
    { httpMethod := "GET"
      httpPath := "/v1/reviews/\x7bstars\x7d"
      body := .none
      responseBody := none
      synthesized := false }

theorem strict_build : ∃ g, strictBuilder.build (.ofPool reviewPool) = .ok g ∧
    g.pool = reviewPool ∧ g.backend = .down ∧ (grpcPaths g.pool).Nodup := by
  obtain ⟨g, hg⟩ : ∃ g, strictBuilder.build (.ofPool reviewPool) = .ok g :=
    exists_build_iff.mpr ⟨⟨_, rfl⟩, reviewPool, rfl, by decide, by decide⟩
  obtain ⟨backend, pool, routes, hbackend, hpool, -, rfl⟩ := build_eq_ok_iff.mp hg
  cases hpool
  cases hbackend
  have hpaths : (grpcPaths reviewPool).Nodup := by decide
  exact ⟨_, hg, rfl, rfl, hpaths⟩

theorem mem_reviewDeclaration :
    reviewDeclaration ∈ declarations reviewPool strictBuilder.options.unboundMethods :=
  List.mem_cons_self

theorem parse_reviewDeclaration :
    PathTemplate.parse reviewDeclaration.binding.httpPath = .ok reviewEntry.template := rfl

/-- The reviews are found without a body. -/
theorem decodeBody_reviewDeclaration (pool : DescriptorPool) (json : JsonOptions) :
    (reviewDeclaration.entry reviewEntry.template).decodeBody (.ofPool reviewPool) pool [] json =
      .ok (restrict annsReview fun _ => false) := by
  rw [restrict_none]
  rfl

/-- The reviews under strict routes. -/
theorem strict_select_review : ∃ g, strictBuilder.build (.ofPool reviewPool) = .ok g ∧
    ∀ method path found, g.select method path = some found ↔
      ∃ d ∈ declarations g.pool true,
        d.serves (toAsciiUppercase method) (requestTarget path).1 (requestTarget path).2 =
          some found := by
  obtain ⟨g, hg, -, -, hpaths⟩ := strict_build
  exact ⟨g, hg, strict_select_iff hg rfl hpaths⟩

/-- The review is found by its stars under strict routes. -/
theorem strict_handle_review : ∃ g, strictBuilder.build (.ofPool reviewPool) = .ok g ∧
    g.handle (.ofPool reviewPool) "GET"
        (requestPath .upper reviewEntry.template ⟨fun _ _ => "5", []⟩ ++ "?" ++
          encodeQuery .upper [("author.alias", "Ann"), ("tags", "a&b"), ("tags", "c")]) [] [] =
      some (errorResponse .unavailable "down") := by
  obtain ⟨g, hg, hpool, hbackend, hpaths⟩ := strict_build
  refine ⟨g, hg, ?_⟩
  have hhandle := strict_handle_leaves hg rfl hpaths (hpool ▸ mem_reviewDeclaration) rfl rfl
    (by simp [reviewDeclaration]) parse_reviewDeclaration (by simp [reviewEntry])
    (hpool ▸ sendable_annsReview.outside _) (hpool ▸ wellTyped_annsReview) rfl
    (decodeBody_reviewDeclaration g.pool g.json) .upper ⟨fun _ _ => "5", []⟩
    (formQuery_encodeQuery .upper _) (hpool ▸ reviewBindings_spelled) reviewBindings_reorder []
  rw [hbackend] at hhandle
  exact hhandle

end GrpcGw.Service
