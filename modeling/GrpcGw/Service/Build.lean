import GrpcGw.Service.Status
import GrpcGw.Routes.Table

/-!
# Building a Gateway

`GatewayBuilder::build` (`gateway.rs`): the route table of a descriptor set is checked for
conflicts and compiled into one list of endpoints for each HTTP method.

- `compile_eq_ok_iff`: compilation succeeds iff every template parses, and the list of a method
  holds its bindings in declaration order.
- `build_eq_ok_iff`: what a successful build has checked, and what it returns.
-/

namespace GrpcGw.Service

open GrpcGw.Text
open GrpcGw.Pattern
open GrpcGw.Reflect
open GrpcGw.Template
open GrpcGw.Rules
open GrpcGw.Routes
open GrpcGw.Transcode

/-! ## Gateways -/

/-- Routing and transcoding options. -/
structure GatewayOptions where
  unboundMethods : Bool := true
  strictRoutes : Bool := false
  json : JsonOptions := {}
  deriving DecidableEq, Repr

/-- One resolved endpoint: a compiled template and the call it maps to. -/
structure Entry where
  template : PathTemplate
  grpcPath : String
  input : MessageDescriptor
  output : MessageDescriptor
  serverStreaming : Bool
  body : BodySelector
  responseBody : Option String
  deriving DecidableEq, Repr

/-- HTTP method to endpoints in declaration order; a method without endpoints has no list. -/
abbrev Routes := String → List Entry

/-- The outcome of a unary call that the backend has answered. -/
structure GrpcReply where
  status : Code
  message : String
  messageBytes : Option Bytes
  deriving DecidableEq, Repr

/-- Header names with their values. -/
abbrev Headers := List (String × String)

/-- The client of a backend: a unary call, which may fail before it is answered. -/
structure GrpcClient where
  unary : String → Bytes → Headers → Except String GrpcReply

/-- A backend that never answers. -/
def GrpcClient.down : GrpcClient where
  unary _ _ _ := .error "down"

/-- A transcoding gateway. Message types are handles into `pool`. -/
structure Gateway where
  pool : DescriptorPool
  routes : Routes
  backend : GrpcClient
  json : JsonOptions

/-- Failure building a gateway. -/
inductive BuildError where
  /-- The descriptor set failed to decode. -/
  | descriptor (e : String)
  | missingBackend
  /-- A path template failed to parse. -/
  | template (e : TemplateError)
  /-- Two routes are in conflict. -/
  | shadowedRoute (conflict : String)
  deriving DecidableEq, Repr

/-- `Display` of a build error. -/
def BuildError.toText : BuildError → String
  | .descriptor e => "failed to decode descriptor set: " ++ e
  | .missingBackend => "no backend was configured on the gateway builder"
  | .template e => e.toText
  | .shadowedRoute s => s

/-- The builder of a gateway. -/
structure GatewayBuilder where
  descriptorSet : Bytes
  options : GatewayOptions := {}
  backend : Option GrpcClient := none

/-! ## The method index -/

/-- The message types of a method, and whether it streams. -/
structure MethodTypes where
  input : MessageDescriptor
  output : MessageDescriptor
  serverStreaming : Bool
  deriving DecidableEq, Repr

/-- Method types by gRPC wire path. -/
abbrev MethodIndex := String → Option MethodTypes

/-- Every method of a pool with its wire path, in the order of the index loop. -/
def allMethods (pool : DescriptorPool) : List (String × MethodTypes) :=
  pool.services.flatMap fun service =>
    service.methods.map fun method =>
      (grpcPath service method,
        { input := method.input
          output := method.output
          serverStreaming := method.isServerStreaming })

/-- The index of a pool. A later method with the same path replaces the earlier one. -/
def methodIndex (pool : DescriptorPool) : MethodIndex :=
  (allMethods pool).foldl (fun index m => Function.update index m.1 (some m.2)) fun _ => none

/-! ## Compilation -/

/-- The endpoint of a binding whose template is compiled. -/
def mkEntry (route : Route) (types : MethodTypes) (binding : RouteBinding)
    (template : PathTemplate) : Entry :=
  { template := template
    grpcPath := route.grpcPath
    input := types.input
    output := types.output
    serverStreaming := types.serverStreaming
    body := binding.body
    responseBody := binding.responseBody }

/-- The inner loop: compile one binding and push its endpoint onto the list of its method. -/
def pushBinding (route : Route) (types : MethodTypes) (routes : Routes) (binding : RouteBinding) :
    Except TemplateError Routes :=
  match PathTemplate.parse binding.httpPath with
  | .error e => .error e
  | .ok template =>
    let entry := mkEntry route types binding template
    .ok (Function.update routes binding.httpMethod (routes binding.httpMethod ++ [entry]))

/-- The outer loop: a route whose method is not in the index is skipped. -/
def pushRoute (index : MethodIndex) (routes : Routes) (route : Route) :
    Except TemplateError Routes :=
  match index route.grpcPath with
  -- `let Some(..) = index.get(..) else { continue }`
  | none => .ok routes
  | some types => route.bindings.foldlM (pushBinding route types) routes

/-- Compile every binding of a table. -/
def compile (index : MethodIndex) (table : RouteTable) : Except TemplateError Routes :=
  table.routes.foldlM (pushRoute index) fun _ => []

/-- The build once the table is there: the first conflict that counts as an error is reported,
    then every template is compiled. -/
def resolve (strictRoutes : Bool) (index : MethodIndex) (table : RouteTable) :
    Except BuildError Routes :=
  match table.conflicts.find? (·.isError strictRoutes) with
  | some conflict => .error (.shadowedRoute conflict.toText)
  | none => (compile index table).mapError .template

/-- `RouteTable::build`. -/
def tableOfDescriptorSet (codec : Codec) (descriptorSet : Bytes) (unboundMethods : Bool) :
    Except String RouteTable :=
  (codec.decodePool descriptorSet).map fun pool =>
    RouteTable.fromMethods (extractHttpRules pool) unboundMethods

/-- `GatewayBuilder::build`. -/
def GatewayBuilder.build (codec : Codec) (b : GatewayBuilder) : Except BuildError Gateway :=
  match b.backend with
  | none => .error .missingBackend
  | some backend =>
    match codec.decodePool b.descriptorSet with
    | .error e => .error (.descriptor e)
    | .ok pool =>
      match tableOfDescriptorSet codec b.descriptorSet b.options.unboundMethods with
      | .error e => .error (.descriptor e)
      | .ok table =>
        (resolve b.options.strictRoutes (methodIndex pool) table).map fun routes =>
          { pool := pool, routes := routes, backend := backend, json := b.options.json }

/-! ## What compilation does -/

/-- The endpoint a binding is compiled to, if its method is in the index and its template
    parses. -/
def endpoint? (index : MethodIndex) (rb : Route × RouteBinding) : Option Entry :=
  match index rb.1.grpcPath, PathTemplate.parse rb.2.httpPath with
  | some types, .ok template => some (mkEntry rb.1 types rb.2 template)
  | _, _ => none

/-- The endpoint of a binding under an HTTP method, if it is one of that method. -/
def endpointFor? (index : MethodIndex) (httpMethod : String) (rb : Route × RouteBinding) :
    Option Entry :=
  if rb.2.httpMethod = httpMethod then endpoint? index rb else none

/-- Whether compilation gets past a binding. -/
def Compiles (index : MethodIndex) (rb : Route × RouteBinding) : Prop :=
  (index rb.1.grpcPath).isSome = true → ∃ t, PathTemplate.parse rb.2.httpPath = .ok t

theorem endpointFor?_eq_some_iff {index : MethodIndex} {m : String} {rb : Route × RouteBinding}
    {e : Entry} :
    endpointFor? index m rb = some e ↔
      rb.2.httpMethod = m ∧ ∃ types t, index rb.1.grpcPath = some types ∧
        PathTemplate.parse rb.2.httpPath = .ok t ∧ e = mkEntry rb.1 types rb.2 t := by
  unfold endpointFor? endpoint?
  split
  · next hm =>
    cases index rb.1.grpcPath with
    | none => simp
    | some types =>
      cases PathTemplate.parse rb.2.httpPath with
      | error err => simp
      | ok t => simp [hm, eq_comm]
  · next hm => simp [hm]

/-- The two loops, as one loop over the flattened bindings. -/
def pushFlat (index : MethodIndex) (routes : Routes) (rb : Route × RouteBinding) :
    Except TemplateError Routes :=
  match index rb.1.grpcPath with
  | none => .ok routes
  | some types => pushBinding rb.1 types routes rb.2

theorem foldlM_skip {bindings : List RouteBinding} {route : Route} {index : MethodIndex}
    (h : index route.grpcPath = none) (routes : Routes) :
    (bindings.map (route, ·)).foldlM (pushFlat index) routes = .ok routes := by
  induction bindings with
  | nil => rfl
  | cons b bindings ih =>
    have hb : pushFlat index routes (route, b) = .ok routes := by
      unfold pushFlat
      rw [h]
    rw [List.map_cons, List.foldlM_cons, hb]
    exact ih

theorem compile_eq_foldlM (index : MethodIndex) (table : RouteTable) :
    compile index table = table.bindings.foldlM (pushFlat index) fun _ => [] := by
  unfold compile RouteTable.bindings
  generalize (fun _ => [] : Routes) = routes
  induction table.routes generalizing routes with
  | nil => rfl
  | cons route rest ih =>
    -- the bindings of one route are a run of the flat list
    have hroute : pushRoute index routes route =
        (route.bindings.map (route, ·)).foldlM (pushFlat index) routes := by
      unfold pushRoute
      cases h : index route.grpcPath with
      | none => rw [foldlM_skip h]
      | some types =>
        have hpush : pushBinding route types =
            fun routes b => pushFlat index routes (route, b) := by
          funext routes b
          unfold pushFlat
          rw [h]
        simp only [List.foldlM_map, hpush]
    rw [List.foldlM_cons, List.flatMap_cons, List.foldlM_append, hroute]
    congr 1
    funext routes'
    exact ih routes'

/-- One round: it fails iff the binding does not compile, and pushes its endpoint otherwise. -/
theorem pushFlat_eq_ok_iff {index : MethodIndex} {routes routes' : Routes}
    {rb : Route × RouteBinding} :
    pushFlat index routes rb = .ok routes' ↔
      Compiles index rb ∧
        routes' = fun m => routes m ++ (endpointFor? index m rb).toList := by
  obtain ⟨route, b⟩ := rb
  simp only [pushFlat, Compiles, endpointFor?, endpoint?]
  cases index route.grpcPath with
  | none => simp [eq_comm]
  | some types =>
    simp only [pushBinding, Option.isSome_some, true_implies]
    cases PathTemplate.parse b.httpPath with
    | error e => simp
    | ok t =>
      have hupdate : Function.update routes b.httpMethod
          (routes b.httpMethod ++ [mkEntry route types b t]) =
            fun m => routes m ++
              (if b.httpMethod = m then some (mkEntry route types b t) else none).toList := by
        -- only the list under the method of the binding grows
        funext m
        by_cases hm : b.httpMethod = m
        · subst hm
          simp
        · simp [Function.update_of_ne (Ne.symm hm), hm]
      simp [hupdate, eq_comm]

/-- The loop over the bindings, from lists that may already hold endpoints. -/
theorem foldlM_pushFlat_eq_ok_iff {index : MethodIndex} {routes : Routes}
    (l : List (Route × RouteBinding)) (start : Routes) :
    l.foldlM (pushFlat index) start = .ok routes ↔
      (∀ rb ∈ l, Compiles index rb) ∧
        routes = fun m => start m ++ l.filterMap (endpointFor? index m) := by
  induction l generalizing start with
  | nil => simp [pure, Except.pure, eq_comm]
  | cons rb l ih =>
    rw [List.foldlM_cons]
    cases hpush : pushFlat index start rb with
    | error e =>
      -- a round that fails is one whose binding does not compile
      have hnot : ¬Compiles index rb := by
        intro hc
        have hok : pushFlat index start rb =
            .ok fun m => start m ++ (endpointFor? index m rb).toList :=
          pushFlat_eq_ok_iff.mpr ⟨hc, rfl⟩
        rw [hpush] at hok
        cases hok
      simp [bind, Except.bind, hnot]
    | ok next =>
      obtain ⟨hc, hnext⟩ := pushFlat_eq_ok_iff.mp hpush
      have happend : ∀ m, next m ++ l.filterMap (endpointFor? index m) =
          start m ++ (rb :: l).filterMap (endpointFor? index m) := by
        intro m
        rw [hnext]
        cases h : endpointFor? index m rb with
        | none => simp [h]
        | some e => simp [h]
      simp only [bind, Except.bind, List.mem_cons, forall_eq_or_imp, hc, true_and, ih next,
        happend]

/-- **Compilation**: it succeeds iff every binding compiles, and the list of a method is the
    endpoints of its bindings in declaration order. -/
theorem compile_eq_ok_iff {index : MethodIndex} {table : RouteTable} {routes : Routes} :
    compile index table = .ok routes ↔
      (∀ rb ∈ table.bindings, Compiles index rb) ∧
        routes = fun m => table.bindings.filterMap (endpointFor? index m) := by
  rw [compile_eq_foldlM]
  simpa using foldlM_pushFlat_eq_ok_iff table.bindings fun _ => []

/-- A table whose templates all parse compiles. -/
theorem exists_compile (index : MethodIndex) {table : RouteTable}
    (hparse : ∀ rb ∈ table.bindings, ∃ t, PathTemplate.parse rb.2.httpPath = .ok t) :
    ∃ routes, compile index table = .ok routes :=
  ⟨_, compile_eq_ok_iff.mpr ⟨fun rb hrb _ => hparse rb hrb, rfl⟩⟩

/-! ## What a build checks -/

theorem resolve_eq_ok_iff {strict : Bool} {index : MethodIndex} {table : RouteTable}
    {routes : Routes} :
    resolve strict index table = .ok routes ↔
      (∀ c ∈ table.conflicts, c.isError strict = false) ∧ compile index table = .ok routes := by
  unfold resolve
  cases hfind : table.conflicts.find? (·.isError strict) with
  | some c =>
    -- a conflict that is an error ends the build
    have hmem := List.mem_of_find?_eq_some hfind
    have herror := List.find?_some hfind
    simp only [reduceCtorEq, false_iff, not_and]
    intro h
    rw [h c hmem] at herror
    cases herror
  | none =>
    have hnone : ∀ c ∈ table.conflicts, c.isError strict = false := by
      simpa using List.find?_eq_none.mp hfind
    rw [mapError_eq_ok_iff]
    exact ⟨fun h => ⟨hnone, h⟩, fun h => h.2⟩

/-- **A successful build**: there is a backend, the descriptor set decodes, no conflict is an
    error and every template compiles. -/
theorem build_eq_ok_iff {codec : Codec} {b : GatewayBuilder} {g : Gateway} :
    b.build codec = .ok g ↔
      ∃ backend pool routes, b.backend = some backend ∧
        codec.decodePool b.descriptorSet = .ok pool ∧
        resolve b.options.strictRoutes (methodIndex pool)
          (RouteTable.fromMethods (extractHttpRules pool) b.options.unboundMethods) = .ok routes ∧
        g = { pool := pool, routes := routes, backend := backend, json := b.options.json } := by
  unfold GatewayBuilder.build tableOfDescriptorSet
  cases b.backend with
  | none => simp
  | some backend =>
    cases codec.decodePool b.descriptorSet with
    | error e => simp
    | ok pool =>
      rw [Except.map, map_eq_ok_iff]
      constructor
      · rintro ⟨routes, hroutes, rfl⟩
        exact ⟨backend, pool, routes, rfl, rfl, hroutes, rfl⟩
      · rintro ⟨backend', pool', routes, hbackend, hpool, hroutes, rfl⟩
        cases hbackend
        cases hpool
        exact ⟨routes, hroutes, rfl⟩

/-! ## Every route is in the index -/

theorem isSome_foldl_update {α : Type*} (l : List (String × α)) (index : String → Option α)
    (k : String) (h : (index k).isSome = true ∨ ∃ m ∈ l, m.1 = k) :
    (l.foldl (fun (index : String → Option α) m => Function.update index m.1 (some m.2)) index
      k).isSome = true := by
  induction l generalizing index with
  | nil =>
    rcases h with h | ⟨m, hm, -⟩
    · exact h
    · cases hm
  | cons m l ih =>
    rw [List.foldl_cons]
    -- the key is there after this step, or still to come
    apply ih
    by_cases hk : m.1 = k
    · -- a key stays in the index, whatever value replaces its own
      left
      rw [hk, Function.update_self]
      rfl
    · rcases h with h | ⟨m', hm', hk'⟩
      · left
        rwa [Function.update_of_ne (Ne.symm hk)]
      · rcases List.mem_cons.mp hm' with rfl | hm'
        · exact absurd hk' hk
        · exact .inr ⟨m', hm', hk'⟩

/-- The routes of a pool lead to methods of the pool: compilation skips none of them. -/
theorem isSome_methodIndex {pool : DescriptorPool} {u : Bool} {rb : Route × RouteBinding}
    (h : rb ∈ (RouteTable.fromMethods (extractHttpRules pool) u).bindings) :
    (methodIndex pool rb.1.grpcPath).isSome = true := by
  obtain ⟨m, hm, hroute, -⟩ := mem_bindings_fromMethods.mp h
  simp only [extractHttpRules, List.mem_flatMap, List.mem_map] at hm
  obtain ⟨service, hservice, method, hmethod, rfl⟩ := hm
  apply isSome_foldl_update
  right
  rw [hroute]
  refine ⟨(grpcPath service method, ⟨method.input, method.output, method.isServerStreaming⟩), ?_,
    rfl⟩
  exact List.mem_flatMap.mpr ⟨service, hservice, List.mem_map.mpr ⟨method, hmethod, rfl⟩⟩

/-- A build has decoded its descriptor set, found no conflict that is an error, and parsed every
    template. -/
theorem checks_of_build {codec : Codec} {b : GatewayBuilder} {g : Gateway}
    (h : b.build codec = .ok g) :
    codec.decodePool b.descriptorSet = .ok g.pool ∧
      (∀ c ∈ (RouteTable.fromMethods (extractHttpRules g.pool) b.options.unboundMethods).conflicts,
        c.isError b.options.strictRoutes = false) ∧
      ∀ rb ∈ (RouteTable.fromMethods (extractHttpRules g.pool) b.options.unboundMethods).bindings,
        ∃ t, PathTemplate.parse rb.2.httpPath = .ok t := by
  obtain ⟨backend, pool, routes, -, hpool, hresolve, rfl⟩ := build_eq_ok_iff.mp h
  obtain ⟨hconflicts, hcompile⟩ := resolve_eq_ok_iff.mp hresolve
  refine ⟨hpool, hconflicts, ?_⟩
  intro rb hrb
  exact (compile_eq_ok_iff.mp hcompile).1 rb hrb (isSome_methodIndex hrb)

/-- **When a build succeeds**: there is a backend, the descriptor set decodes, no conflict of its
    route table is an error and every template parses. -/
theorem exists_build_iff {codec : Codec} {b : GatewayBuilder} :
    (∃ g, b.build codec = .ok g) ↔
      (∃ backend, b.backend = some backend) ∧ ∃ pool, codec.decodePool b.descriptorSet = .ok pool ∧
        (∀ c ∈ (RouteTable.fromMethods (extractHttpRules pool) b.options.unboundMethods).conflicts,
          c.isError b.options.strictRoutes = false) ∧
        ∀ rb ∈ (RouteTable.fromMethods (extractHttpRules pool) b.options.unboundMethods).bindings,
          ∃ t, PathTemplate.parse rb.2.httpPath = .ok t := by
  constructor
  · rintro ⟨g, hg⟩
    obtain ⟨backend, -, -, hbackend, -⟩ := build_eq_ok_iff.mp hg
    exact ⟨⟨backend, hbackend⟩, g.pool, checks_of_build hg⟩
  · rintro ⟨⟨backend, hbackend⟩, pool, hpool, hconflicts, hparse⟩
    obtain ⟨routes, hcompile⟩ := exists_compile (methodIndex pool) hparse
    exact ⟨_, build_eq_ok_iff.mpr ⟨backend, pool, routes, hbackend, hpool,
      resolve_eq_ok_iff.mpr ⟨hconflicts, hcompile⟩, rfl⟩⟩

end GrpcGw.Service
