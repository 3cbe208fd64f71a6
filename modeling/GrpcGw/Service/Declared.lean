import GrpcGw.Service.Routing

/-!
# Routing by Annotation

`build` sorts the endpoints by HTTP method, compiles their templates, and looks the types of a
method up by its gRPC path. This module reads a request against the declared methods one after
another, and the gateway answers as if it did just that.

- `Gateway.select_eq_scan`: the compiled router is the scan of the declarations.
- `Gateway.select_of_grown`: methods that are declared later do not take requests away.
-/

namespace GrpcGw.Service

open GrpcGw.Text
open GrpcGw.Pattern
open GrpcGw.Reflect
open GrpcGw.Template
open GrpcGw.Rules
open GrpcGw.Routes
open GrpcGw.Transcode

/-! ## Declarations -/

/-- Every method of a pool with its service, in declaration order. -/
def poolMethods (pool : DescriptorPool) : List (ServiceDescriptor × MethodDescriptor) :=
  pool.services.flatMap fun service => service.methods.map (service, ·)

/-- The rule of a method, if it is annotated. -/
def ruleOf (pool : DescriptorPool) (method : MethodDescriptor) : Option HttpRule :=
  (pool.getExtensionByName httpRuleExtension).bind (extractRule pool method.options)

/-- The bindings of a method: those of its rule, or its default. -/
def bindingsOf (unboundMethods : Bool) (path : String) : Option HttpRule → List RouteBinding
  | some rule => lowerRule rule
  | none => if unboundMethods then [defaultBinding path] else []

/-- A method with one of its bindings. -/
structure Declaration where
  service : ServiceDescriptor
  method : MethodDescriptor
  binding : RouteBinding

/-- Every binding of a pool, in declaration order. -/
def declarations (pool : DescriptorPool) (unboundMethods : Bool) : List Declaration :=
  (poolMethods pool).flatMap fun (service, method) =>
    (bindingsOf unboundMethods (grpcPath service method) (ruleOf pool method)).map
      (⟨service, method, ·⟩)

/-- The endpoint of a declaration whose template is compiled. -/
def Declaration.entry (d : Declaration) (template : PathTemplate) : Entry where
  template := template
  grpcPath := grpcPath d.service d.method
  input := d.method.input
  output := d.method.output
  serverStreaming := d.method.isServerStreaming
  body := d.binding.body
  responseBody := d.binding.responseBody

/-- What a declaration makes of a request: its endpoint and the captures, if it is meant. -/
def Declaration.serves (d : Declaration) (httpMethod : String) (segments : List String)
    (verb : Option String) : Option (Entry × Captures) :=
  if d.binding.httpMethod = httpMethod then
    match PathTemplate.parse d.binding.httpPath with
    | .ok t => (t.matches segments verb).map (d.entry t, ·)
    | .error _ => none
  else none

/-- The first declaration that is meant. -/
def scan (l : List Declaration) (method path : String) : Option (Entry × Captures) :=
  l.findSome? fun d =>
    d.serves (toAsciiUppercase method) (requestTarget path).1 (requestTarget path).2

/-! ## The route table of the declarations -/

section Table

variable {pool : DescriptorPool} {unboundMethods : Bool}

/-- The route that a declaration belongs to. -/
def Declaration.route (pool : DescriptorPool) (unboundMethods : Bool) (d : Declaration) : Route :=
  lowerMethod unboundMethods
    { service := d.service.fullName
      method := d.method.name
      grpcPath := grpcPath d.service d.method
      serverStreaming := d.method.isServerStreaming
      httpRule := ruleOf pool d.method }

/-- The bindings of the route table are the declarations. -/
theorem bindings_eq_declarations :
    (RouteTable.fromMethods (extractHttpRules pool) unboundMethods).bindings =
      (declarations pool unboundMethods).map
        fun d => (d.route pool unboundMethods, d.binding) := by
  have hmethods : extractHttpRules pool = (poolMethods pool).map fun (service, method) =>
      { service := service.fullName
        method := method.name
        grpcPath := grpcPath service method
        serverStreaming := method.isServerStreaming
        httpRule := ruleOf pool method } := by
    rw [poolMethods, List.map_flatMap]
    simp only [List.map_map]
    rfl
  rw [RouteTable.bindings, RouteTable.fromMethods, hmethods, declarations, List.map_flatMap]
  simp only [List.flatMap_map, List.map_map]
  apply List.flatMap_congr
  intro m _
  -- the bindings of a route are those of its method, by cases on the rule
  rfl

/-- A key that occurs once is found with its value. -/
theorem foldl_update_of_notMem {α : Type*} {l : List (String × α)} {k : String}
    (h : k ∉ l.map Prod.fst) (index : String → Option α) :
    l.foldl (fun (index : String → Option α) m => Function.update index m.1 (some m.2)) index k =
      index k := by
  induction l generalizing index with
  | nil => rfl
  | cons m l ih =>
    rw [List.map_cons, List.mem_cons, not_or] at h
    rw [List.foldl_cons, ih h.2, Function.update_of_ne h.1]

theorem foldl_update_of_mem {α : Type*} {l : List (String × α)} (h : (l.map Prod.fst).Nodup)
    {k : String} {v : α} (hmem : (k, v) ∈ l) (index : String → Option α) :
    l.foldl (fun (index : String → Option α) m => Function.update index m.1 (some m.2)) index k =
      some v := by
  induction l generalizing index with
  | nil => cases hmem
  | cons m l ih =>
    rw [List.map_cons, List.nodup_cons] at h
    rw [List.foldl_cons]
    rcases List.mem_cons.mp hmem with rfl | hmem
    · -- nothing behind it replaces the value
      rw [foldl_update_of_notMem h.1, Function.update_self]
    · exact ih h.2 hmem _

/-- The gRPC paths of a pool. -/
def grpcPaths (pool : DescriptorPool) : List String :=
  (poolMethods pool).map fun (service, method) => grpcPath service method

/-- The index has the types of every method, if no two methods share their path. -/
theorem methodIndex_grpcPath (hpaths : (grpcPaths pool).Nodup) {service : ServiceDescriptor}
    {method : MethodDescriptor} (h : (service, method) ∈ poolMethods pool) :
    methodIndex pool (grpcPath service method) =
      some ⟨method.input, method.output, method.isServerStreaming⟩ := by
  have hall : allMethods pool = (poolMethods pool).map fun (service, method) =>
      (grpcPath service method, ⟨method.input, method.output, method.isServerStreaming⟩) := by
    rw [poolMethods, List.map_flatMap]
    simp only [List.map_map]
    rfl
  rw [methodIndex, hall]
  apply foldl_update_of_mem
  · rw [List.map_map]
    exact hpaths
  · exact List.mem_map.mpr ⟨(service, method), h, rfl⟩

end Table

/-! ## The compiled router -/

theorem findSome?_filterMap {α β γ : Type*} (f : α → Option β) (p : β → Option γ) (l : List α) :
    (l.filterMap f).findSome? p = l.findSome? fun a => (f a).bind p := by
  induction l with
  | nil => rfl
  | cons a l ih =>
    cases h : f a with
    | none => simp [h, ih]
    | some b => simp [h, List.findSome?_cons, ih]

theorem findSome?_congr {α β : Type*} {p q : α → Option β} {l : List α}
    (h : ∀ a ∈ l, p a = q a) : l.findSome? p = l.findSome? q := by
  induction l with
  | nil => rfl
  | cons a l ih =>
    rw [List.findSome?_cons, List.findSome?_cons, h a List.mem_cons_self,
      ih fun a' ha' => h a' (List.mem_cons_of_mem _ ha')]

theorem mem_poolMethods_of_mem_declarations {pool : DescriptorPool} {unboundMethods : Bool}
    {d : Declaration} (h : d ∈ declarations pool unboundMethods) :
    (d.service, d.method) ∈ poolMethods pool := by
  obtain ⟨m, hm, hd⟩ := List.mem_flatMap.mp h
  obtain ⟨binding, -, rfl⟩ := List.mem_map.mp hd
  exact hm

/-- The search in the list of a method is the scan of all declarations. -/
theorem lookup_eq_findSome? {pool : DescriptorPool} {unboundMethods : Bool} {routes : Routes}
    (hcompile : compile (methodIndex pool)
      (RouteTable.fromMethods (extractHttpRules pool) unboundMethods) = .ok routes)
    (hpaths : (grpcPaths pool).Nodup) (httpMethod : String) (segments : List String)
    (verb : Option String) :
    lookup routes httpMethod segments verb =
      (declarations pool unboundMethods).findSome? fun d => d.serves httpMethod segments verb := by
  rw [lookup, (compile_eq_ok_iff.mp hcompile).2, findSome?_filterMap, bindings_eq_declarations,
    List.findSome?_map]
  apply findSome?_congr
  intro d hd
  -- the index has the types of the method, so only the binding decides
  have hindex := methodIndex_grpcPath hpaths (mem_poolMethods_of_mem_declarations hd)
  have hpath : (d.route pool unboundMethods).grpcPath = grpcPath d.service d.method := rfl
  simp only [Function.comp_apply, endpointFor?, endpoint?, Declaration.serves, hpath, hindex]
  by_cases hm : d.binding.httpMethod = httpMethod
  · rw [if_pos hm, if_pos hm]
    cases PathTemplate.parse d.binding.httpPath with
    | error e => rfl
    | ok t => rfl
  · rw [if_neg hm, if_neg hm]
    rfl

/-- **The compiled router is the scan of the declarations**: sorting endpoints by HTTP method,
    compiling templates and looking up types ahead of time changes no route. -/
theorem Gateway.select_eq_scan {codec : Codec} {b : GatewayBuilder} {g : Gateway}
    (h : b.build codec = .ok g) (hpaths : (grpcPaths g.pool).Nodup) (method path : String) :
    g.select method path = scan (declarations g.pool b.options.unboundMethods) method path :=
  lookup_eq_findSome? (compile_of_build h) hpaths _ _ _

/-- The doors are routed by their annotations. -/
theorem select_eq_scan_doors : ∃ g, doorsBuilder.build (.ofPool doorsPool) = .ok g ∧
    ∀ method path, g.select method path = scan (declarations g.pool true) method path := by
  obtain ⟨g, hg, hpool⟩ := doors_build
  have hpaths : (grpcPaths g.pool).Nodup := by
    rw [hpool]
    decide
  exact ⟨g, hg, Gateway.select_eq_scan hg hpaths⟩

/-! ## Growing services -/

/-- The declarations of some of the methods of a pool. -/
def declarationsOf (pool : DescriptorPool) (unboundMethods : Bool)
    (methods : List (ServiceDescriptor × MethodDescriptor)) : List Declaration :=
  methods.flatMap fun (service, method) =>
    (bindingsOf unboundMethods (grpcPath service method) (ruleOf pool method)).map
      (⟨service, method, ·⟩)

section Grown

variable {pool pool' : DescriptorPool} {unboundMethods : Bool}
  {methods later : List (ServiceDescriptor × MethodDescriptor)}

theorem declarationsOf_poolMethods :
    declarationsOf pool unboundMethods (poolMethods pool) = declarations pool unboundMethods :=
  rfl

/-- A pool enters its declarations through the rules that are read with it. -/
theorem declarationsOf_congr (h : ∀ m ∈ methods, ruleOf pool' m.2 = ruleOf pool m.2) :
    declarationsOf pool' unboundMethods methods = declarationsOf pool unboundMethods methods := by
  apply List.flatMap_congr
  rintro ⟨service, method⟩ hm
  have hrule : ruleOf pool' method = ruleOf pool method := h _ hm
  simp only [hrule]

/-- The declarations of a pool that has more methods. -/
theorem declarations_of_grown (hmethods : poolMethods pool' = poolMethods pool ++ later)
    (hrules : ∀ m ∈ poolMethods pool, ruleOf pool' m.2 = ruleOf pool m.2) :
    declarations pool' unboundMethods =
      declarations pool unboundMethods ++ declarationsOf pool' unboundMethods later := by
  have happend : declarationsOf pool' unboundMethods (poolMethods pool ++ later) =
      declarationsOf pool' unboundMethods (poolMethods pool) ++
        declarationsOf pool' unboundMethods later :=
    List.flatMap_append
  rw [← declarationsOf_poolMethods, hmethods, happend, declarationsOf_congr hrules,
    declarationsOf_poolMethods]

theorem nodup_grpcPaths_of_grown (hmethods : poolMethods pool' = poolMethods pool ++ later)
    (h : (grpcPaths pool').Nodup) : (grpcPaths pool).Nodup := by
  rw [grpcPaths, hmethods, List.map_append] at h
  exact h.of_append_left

theorem scan_append (l l' : List Declaration) (method path : String) :
    scan (l ++ l') method path = (scan l method path).or (scan l' method path) :=
  List.findSome?_append

/-- **Methods that are declared later do not take requests away**: if a pool has the methods of
    another one and then more, and the same rules are read for those they share, a request that has
    a route keeps it, with its captures, and only a request without one is read against the later
    declarations. -/
theorem Gateway.select_of_grown {codec codec' : Codec} {b b' : GatewayBuilder} {g g' : Gateway}
    (h : b.build codec = .ok g) (h' : b'.build codec' = .ok g')
    (hunbound : b'.options.unboundMethods = b.options.unboundMethods)
    (hmethods : poolMethods g'.pool = poolMethods g.pool ++ later)
    (hrules : ∀ m ∈ poolMethods g.pool, ruleOf g'.pool m.2 = ruleOf g.pool m.2)
    (hpaths : (grpcPaths g'.pool).Nodup) (method path : String) :
    g'.select method path =
      (g.select method path).or
        (scan (declarationsOf g'.pool b.options.unboundMethods later) method path) := by
  have hpaths' : (grpcPaths g.pool).Nodup := nodup_grpcPaths_of_grown hmethods hpaths
  have hscan : g.select method path =
      scan (declarations g.pool b.options.unboundMethods) method path :=
    lookup_eq_findSome? (compile_of_build h) hpaths' _ _ _
  have hscan' : g'.select method path =
      scan (declarations g'.pool b'.options.unboundMethods) method path :=
    lookup_eq_findSome? (compile_of_build h') hpaths _ _ _
  rw [hscan, hscan', hunbound, declarations_of_grown hmethods hrules]
  exact scan_append _ _ method path

end Grown

/-! ### Annotated services -/

/-- The pool of annotated services. -/
def poolOf (messages : List MessageDef) (services : List (String × List AnnotatedMethod)) :
    DescriptorPool :=
  annotatedPool messages (services.map fun s => serviceOf s.1 s.2)

theorem poolMethods_poolOf {messages : List MessageDef}
    {services : List (String × List AnnotatedMethod)} :
    poolMethods (poolOf messages services) =
      services.flatMap fun s => s.2.map fun m => (serviceOf s.1 s.2, m.toDescriptor) := by
  show (services.map fun s => serviceOf s.1 s.2).flatMap _ = _
  rw [List.flatMap_map]
  apply List.flatMap_congr
  intro s _
  show (s.2.map AnnotatedMethod.toDescriptor).map _ = _
  rw [List.map_map]
  rfl

/-- Every annotation is read back. -/
theorem ruleOf_poolOf (messages : List MessageDef) (services : List (String × List AnnotatedMethod))
    (m : AnnotatedMethod) : ruleOf (poolOf messages services) m.toDescriptor = m.rule :=
  extractRule_optionsOf messages _ m.rule

/-- The service of the doors. -/
def doorsServices : List (String × List AnnotatedMethod) :=
  [("demo.Doors",
    [{ name := "List"
       input := httpRuleDesc
       output := httpRuleDesc
       rule := some (.mk "" (some (.get "/v1/doors")) "" "" []) },
      { name := "Lock"
        input := httpRuleDesc
        output := httpRuleDesc
        rule := some (.mk "" (some (.custom "lock" "/v1/doors")) "*" "" []) }])]

/-- A service that would take everything under `/v1`. -/
def windowsServices : List (String × List AnnotatedMethod) :=
  [("demo.Windows",
    [{ name := "Find"
       input := httpRuleDesc
       output := httpRuleDesc
       rule := some (.mk "" (some (.get "/v1/{selector=**}")) "" "" []) }])]

/-- The windows do not take the requests for the doors. -/
theorem select_of_grown_doors : ∃ g g',
    doorsBuilder.build (.ofPool doorsPool) = .ok g ∧
      doorsBuilder.build (.ofPool (poolOf [] (doorsServices ++ windowsServices))) = .ok g' ∧
      ∀ method path, g'.select method path =
        (g.select method path).or (scan
          (declarationsOf g'.pool true (poolMethods (poolOf [] windowsServices))) method path) := by
  obtain ⟨g, hg, hpool⟩ : ∃ g, doorsBuilder.build (.ofPool doorsPool) = .ok g ∧
      g.pool = poolOf [] doorsServices := doors_build
  obtain ⟨g', hg'⟩ : ∃ g',
      doorsBuilder.build (.ofPool (poolOf [] (doorsServices ++ windowsServices))) = .ok g' :=
    exists_build_iff.mpr ⟨⟨_, rfl⟩, _, rfl, by decide, by decide⟩
  have hpool' : g'.pool = poolOf [] (doorsServices ++ windowsServices) :=
    (Except.ok.inj (checks_of_build hg').1).symm
  have hmethods : poolMethods g'.pool =
      poolMethods g.pool ++ poolMethods (poolOf [] windowsServices) := by
    rw [hpool, hpool', poolMethods_poolOf, poolMethods_poolOf, poolMethods_poolOf,
      List.flatMap_append]
  have hrules : ∀ m ∈ poolMethods g.pool, ruleOf g'.pool m.2 = ruleOf g.pool m.2 := by
    rw [hpool, hpool', poolMethods_poolOf]
    intro m hm
    obtain ⟨s, -, hm⟩ := List.mem_flatMap.mp hm
    obtain ⟨m, -, rfl⟩ := List.mem_map.mp hm
    rw [ruleOf_poolOf, ruleOf_poolOf]
  have hpaths : (grpcPaths g'.pool).Nodup := by
    rw [hpool']
    decide
  refine ⟨g, g', hg, hg', fun method path => ?_⟩
  exact Gateway.select_of_grown hg hg' rfl hmethods hrules hpaths method path

end GrpcGw.Service
