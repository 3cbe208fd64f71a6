import GrpcGw.Service.Declared
import GrpcGw.Service.Order
import GrpcGw.Template.Rendering
import GrpcGw.Template.Requests

/-!
# Services without Annotations

A method without a rule is bound to `POST` on its gRPC path, with its whole message as the body.
A gateway for services without annotations therefore speaks JSON on the very paths of the gRPC
methods.

- `unbound_select_iff`: which requests reach which method.
- `unbound_handle`: what becomes of a request for a method.
-/

namespace GrpcGw.Service

open GrpcGw.Text
open GrpcGw.Pattern
open GrpcGw.Reflect
open GrpcGw.Template
open GrpcGw.Rules
open GrpcGw.Routes
open GrpcGw.Transcode

/-! ## Names -/

/-- A name of a protobuf service or method: identifiers, with dots between them. -/
def IsName (s : String) : Prop :=
  s ≠ "" ∧ s.toList.all (fun c => c.isAlphanum || c = '_' || c = '.') = true

instance (s : String) : Decidable (IsName s) :=
  inferInstanceAs (Decidable (_ ∧ _))

section Names

variable {s : String}

/-- A name has none of the other characters. -/
theorem IsName.notMem (h : IsName s) {c : Char}
    (hc : (c.isAlphanum || c = '_' || c = '.') = false) : c ∉ s.toList := by
  intro hmem
  have hname := List.all_eq_true.mp h.2 c hmem
  rw [hc] at hname
  cases hname

/-- A name stands for itself in a path. -/
theorem IsName.decode (h : IsName s) : decode s = s := by
  have hpercent : '%' ∉ s.toList := h.notMem (by decide)
  rw [decode_eq, unescape_eq_self (Template.percent_notMem_utf8 hpercent), fromUtf8_utf8,
    Option.getD_some]

theorem IsName.plain (h : IsName s) : (Atom.literal s).Plain := by
  refine ⟨h.1, fun c hc hstop => ?_⟩
  have hname := List.all_eq_true.mp h.2 c hc
  simp only [List.mem_cons, List.not_mem_nil, or_false] at hstop
  rcases hstop with rfl | rfl | rfl | rfl | rfl
  all_goals exact absurd hname (by decide)

end Names

/-! ## Default templates -/

section Template

variable {service : ServiceDescriptor} {method : MethodDescriptor}

/-- The template tree of a gRPC path. -/
def defaultTree (service : ServiceDescriptor) (method : MethodDescriptor) : TemplateTree where
  nodes := [.atom (.literal service.fullName), .atom (.literal method.name)]
  verb := none

/-- The template of a gRPC path. -/
def defaultTemplate (service : ServiceDescriptor) (method : MethodDescriptor) : PathTemplate :=
  (defaultTree service method).template (grpcPath service method)

theorem defaultTree_wellFormed (hservice : IsName service.fullName) (hmethod : IsName method.name) :
    (defaultTree service method).WellFormed where
  nodes_ne_nil := by simp [defaultTree]
  parsable := by
    intro n hn
    simp only [defaultTree, List.mem_cons, List.not_mem_nil, or_false] at hn
    rcases hn with rfl | rfl
    · exact hservice.plain
    · exact hmethod.plain
  quiet := by
    intro n hn
    simp only [defaultTree, List.mem_cons, List.not_mem_nil, or_false] at hn
    rcases hn with rfl | rfl
    · exact hservice.notMem (by decide)
    · exact hmethod.notMem (by decide)
  bounded_dropLast := by simp [defaultTree, Node.unbounded]
  verb := by simp [defaultTree]

theorem defaultTree_renders : (defaultTree service method).Renders (grpcPath service method) := by
  refine ⟨[service.fullName.toList, method.name.toList], ?_, ?_⟩
  · exact .cons (.atom _) (.cons (.atom _) .nil)
  · simp [grpcPath, slashed, verbText, defaultTree, List.intercalate]

/-- A gRPC path is its own template. -/
theorem parse_grpcPath (hservice : IsName service.fullName) (hmethod : IsName method.name) :
    PathTemplate.parse (grpcPath service method) = .ok (defaultTemplate service method) :=
  (defaultTree_wellFormed hservice hmethod).parse defaultTree_renders

/-- A default template matches two segments that decode to the names. -/
theorem matches_defaultTemplate_iff {segments : List String} {verb : Option String}
    {captures : Captures} :
    (defaultTemplate service method).matches segments verb = some captures ↔
      verb = none ∧ segments.map decode = [service.fullName, method.name] ∧ captures = [] := by
  have hmatches : (defaultTemplate service method).matches segments verb =
      if none ≠ verb then none
      else matchSegments [] [.literal service.fullName, .literal method.name] segments [] := rfl
  rw [hmatches]
  cases verb with
  | some v => simp
  | none =>
    rcases segments with _ | ⟨a, _ | ⟨b, _ | ⟨c, rest⟩⟩⟩
    · simp [matchSegments]
    · by_cases ha : decode a = service.fullName
      · simp [matchSegments, ha]
      · simp [matchSegments, ha]
    · by_cases ha : decode a = service.fullName
      · by_cases hb : decode b = method.name
        · simp [matchSegments, ha, hb, eq_comm]
        · simp [matchSegments, ha, hb]
      · simp [matchSegments, ha]
    · by_cases ha : decode a = service.fullName
      · by_cases hb : decode b = method.name
        · simp [matchSegments, ha, hb]
        · simp [matchSegments, ha, hb]
      · simp [matchSegments, ha]

/-- The gRPC path of a method, as a request target, is split into the two names. -/
theorem splitRequestPath_grpcPath (hservice : IsName service.fullName)
    (hmethod : IsName method.name) :
    splitRequestPath (grpcPath service method) = ([service.fullName, method.name], none) := by
  have hpath : grpcPath service method =
      "/" ++ join "/" ([service.fullName] ++ [method.name]) ++ verbSuffix none := by
    simp [grpcPath, join, verbSuffix, String.append_assoc]
  rw [hpath]
  apply splitRequestPath_join_verb
  · intro s hs
    simp only [List.singleton_append, List.mem_cons, List.not_mem_nil, or_false] at hs
    rcases hs with rfl | rfl
    · exact hservice.notMem (by decide)
    · exact hmethod.notMem (by decide)
  · exact hmethod.notMem (by decide)
  · simp

end Template

/-! ## Pools without annotations -/

/-- A pool whose methods have no rules, proper names and paths of their own. -/
structure Unannotated (pool : DescriptorPool) : Prop where
  rules : ∀ m ∈ poolMethods pool, ruleOf pool m.2 = none
  names : ∀ m ∈ poolMethods pool, IsName m.1.fullName ∧ IsName m.2.name
  paths : (grpcPaths pool).Nodup

/-- The only declaration of a method without a rule. -/
def defaultDeclaration (service : ServiceDescriptor) (method : MethodDescriptor) : Declaration where
  service := service
  method := method
  binding := defaultBinding (grpcPath service method)

/-- The endpoint of a method without a rule. -/
def defaultEntry (service : ServiceDescriptor) (method : MethodDescriptor) : Entry :=
  (defaultDeclaration service method).entry (defaultTemplate service method)

section Pool

variable {pool : DescriptorPool} {service : ServiceDescriptor} {method : MethodDescriptor}
  {m : String} {segments : List String} {verb : Option String} {e : Entry} {captures : Captures}

theorem Unannotated.declarations_eq (h : Unannotated pool) :
    declarations pool true =
      (poolMethods pool).map fun m => defaultDeclaration m.1 m.2 := by
  rw [declarations, List.map_eq_flatMap]
  apply List.flatMap_congr
  intro m hmem
  simp only [h.rules _ hmem, bindingsOf, if_true]
  rfl

/-- What the default of a method takes. -/
theorem serves_defaultDeclaration_iff (hservice : IsName service.fullName)
    (hmethod : IsName method.name) :
    (defaultDeclaration service method).serves m segments verb = some (e, captures) ↔
      m = "POST" ∧ verb = none ∧ segments.map decode = [service.fullName, method.name] ∧
        captures = [] ∧ e = defaultEntry service method := by
  have hparse : PathTemplate.parse (defaultDeclaration service method).binding.httpPath =
      .ok (defaultTemplate service method) := parse_grpcPath hservice hmethod
  have hpost : (defaultDeclaration service method).binding.httpMethod = "POST" := rfl
  rw [Declaration.serves, hparse, hpost]
  by_cases hm : m = "POST"
  · simp only [hm, if_true, Option.map_eq_some_iff, matches_defaultTemplate_iff, Prod.mk.injEq,
      true_and]
    constructor
    · rintro ⟨c, ⟨hverb, hsegments, hnil⟩, hentry, rfl⟩
      exact ⟨hverb, hsegments, hnil, hentry.symm⟩
    · rintro ⟨hverb, hsegments, hnil, hentry⟩
      exact ⟨captures, ⟨hverb, hsegments, hnil⟩, hentry.symm, rfl⟩
  · simp [hm, Ne.symm hm]

/-- Methods with the same names are the same method. -/
theorem Unannotated.eq_of_names (h : Unannotated pool) {service' : ServiceDescriptor}
    {method' : MethodDescriptor} (hmem : (service, method) ∈ poolMethods pool)
    (hmem' : (service', method') ∈ poolMethods pool)
    (hnames : [service.fullName, method.name] = [service'.fullName, method'.name]) :
    service = service' ∧ method = method' := by
  have hpath : grpcPath service method = grpcPath service' method' := by
    simp only [List.cons.injEq, and_true] at hnames
    rw [grpcPath, grpcPath, hnames.1, hnames.2]
  exact Prod.mk.inj (List.inj_on_of_nodup_map h.paths hmem hmem' hpath)

/-- The scan finds the method that the path names. -/
theorem Unannotated.findSome?_iff (h : Unannotated pool) :
    (declarations pool true).findSome? (fun d => d.serves m segments verb) =
        some (e, captures) ↔
      m = "POST" ∧ verb = none ∧ captures = [] ∧
        ∃ service method, (service, method) ∈ poolMethods pool ∧
          segments.map decode = [service.fullName, method.name] ∧
          e = defaultEntry service method := by
  rw [h.declarations_eq, List.findSome?_map]
  constructor
  · intro hfind
    obtain ⟨⟨service, method⟩, hmem, hserves⟩ := List.exists_of_findSome?_eq_some hfind
    obtain ⟨hservice, hmethod⟩ := h.names _ hmem
    obtain ⟨hm, hverb, hsegments, hnil, hentry⟩ :=
      (serves_defaultDeclaration_iff hservice hmethod).mp hserves
    exact ⟨hm, hverb, hnil, service, method, hmem, hsegments, hentry⟩
  · rintro ⟨hm, hverb, hnil, service, method, hmem, hsegments, hentry⟩
    obtain ⟨hservice, hmethod⟩ := h.names _ hmem
    have hserves : (defaultDeclaration service method).serves m segments verb =
        some (e, captures) :=
      (serves_defaultDeclaration_iff hservice hmethod).mpr ⟨hm, hverb, hsegments, hnil, hentry⟩
    -- something is found, and it has the same names
    have hsome : ((poolMethods pool).findSome? ((fun d : Declaration => d.serves m segments verb) ∘
        fun m => defaultDeclaration m.1 m.2)).isSome = true := by
      rw [List.findSome?_isSome_iff]
      exact ⟨(service, method), hmem, by rw [Function.comp_apply, hserves]; rfl⟩
    obtain ⟨⟨e', captures'⟩, hfind⟩ := Option.isSome_iff_exists.mp hsome
    obtain ⟨⟨service', method'⟩, hmem', hserves'⟩ := List.exists_of_findSome?_eq_some hfind
    obtain ⟨hservice', hmethod'⟩ := h.names _ hmem'
    obtain ⟨-, -, hsegments', rfl, rfl⟩ :=
      (serves_defaultDeclaration_iff hservice' hmethod').mp hserves'
    obtain ⟨rfl, rfl⟩ := h.eq_of_names hmem hmem' (hsegments.symm.trans hsegments')
    rw [hfind, hentry, hnil]

/-- The defaults of a pool are apart: a request names one method at most. -/
theorem Unannotated.conflicts_eq_nil (h : Unannotated pool) :
    (RouteTable.fromMethods (extractHttpRules pool) true).conflicts = [] := by
  rw [conflicts_eq_nil_iff_apart, bindings_eq_declarations, h.declarations_eq, List.map_map,
    List.pairwise_map]
  refine (List.pairwise_map.mp h.paths).imp_of_mem ?_
  intro a b ha hb hne hm segments verb hmatch hmatch'
  obtain ⟨hservice, hmethod⟩ := h.names a ha
  obtain ⟨hservice', hmethod'⟩ := h.names b hb
  -- both templates are those of gRPC paths
  obtain ⟨t, ht, hmatch⟩ := hmatch
  obtain ⟨t', ht', hmatch'⟩ := hmatch'
  obtain rfl : defaultTemplate a.1 a.2 = t :=
    Except.ok.inj ((parse_grpcPath hservice hmethod).symm.trans ht)
  obtain rfl : defaultTemplate b.1 b.2 = t' :=
    Except.ok.inj ((parse_grpcPath hservice' hmethod').symm.trans ht')
  obtain ⟨c, hc⟩ := Option.isSome_iff_exists.mp hmatch
  obtain ⟨c', hc'⟩ := Option.isSome_iff_exists.mp hmatch'
  have hsegments := (matches_defaultTemplate_iff.mp hc).2.1
  have hsegments' := (matches_defaultTemplate_iff.mp hc').2.1
  obtain ⟨hs, hn⟩ := h.eq_of_names ha hb (hsegments.symm.trans hsegments')
  have heq : a = b := Prod.ext hs hn
  apply hne
  rw [heq]

/-- Every template of a pool without annotations parses. -/
theorem Unannotated.exists_parse (h : Unannotated pool) {rb : Route × RouteBinding}
    (hrb : rb ∈ (RouteTable.fromMethods (extractHttpRules pool) true).bindings) :
    ∃ t, PathTemplate.parse rb.2.httpPath = .ok t := by
  rw [bindings_eq_declarations, h.declarations_eq, List.map_map] at hrb
  obtain ⟨⟨service, method⟩, hmem, rfl⟩ := List.mem_map.mp hrb
  obtain ⟨hservice, hmethod⟩ := h.names _ hmem
  exact ⟨_, parse_grpcPath hservice hmethod⟩

end Pool

/-! ## Gateways without annotations -/

section Built

variable {codec : Codec} {b : GatewayBuilder} {g : Gateway}

/-- A gateway for a pool without annotations is built, under strict routes too. -/
theorem Unannotated.exists_build {pool : DescriptorPool} (h : Unannotated pool)
    {backend : GrpcClient} (hbackend : b.backend = some backend)
    (hpool : codec.decodePool b.descriptorSet = .ok pool)
    (hunbound : b.options.unboundMethods = true) :
    ∃ routes, b.build codec =
      .ok { pool := pool, routes := routes, backend := backend, json := b.options.json } := by
  obtain ⟨routes, hcompile⟩ := exists_compile (methodIndex pool) fun rb => h.exists_parse
  refine ⟨routes, build_eq_ok_iff.mpr ⟨backend, pool, routes, hbackend, hpool, ?_, rfl⟩⟩
  rw [hunbound, resolve_eq_ok_iff, h.conflicts_eq_nil]
  exact ⟨by simp, hcompile⟩

/-- The router of a pool without annotations is the scan of its defaults. -/
theorem Unannotated.select_eq (h : Unannotated g.pool) (hbuild : b.build codec = .ok g)
    (hunbound : b.options.unboundMethods = true) (method path : String) :
    g.select method path = (declarations g.pool true).findSome? fun d =>
      d.serves (toAsciiUppercase method) (requestTarget path).1 (requestTarget path).2 := by
  have hcompile := compile_of_build hbuild
  rw [GatewayBuilder.table, hunbound] at hcompile
  exact lookup_eq_findSome? hcompile h.paths _ _ _

/-- **The routes of services without annotations**: `POST` on the gRPC path of a method reaches
    that method, however the path is percent-encoded, and nothing else reaches anything. -/
theorem unbound_select_iff (hbuild : b.build codec = .ok g)
    (hunbound : b.options.unboundMethods = true) (hpool : Unannotated g.pool)
    (method path : String) (e : Entry) (captures : Captures) :
    g.select method path = some (e, captures) ↔
      toAsciiUppercase method = "POST" ∧ (requestTarget path).2 = none ∧ captures = [] ∧
        ∃ service m, (service, m) ∈ poolMethods g.pool ∧
          (requestTarget path).1.map decode = [service.fullName, m.name] ∧
          e = defaultEntry service m := by
  rw [hpool.select_eq hbuild hunbound, hpool.findSome?_iff]

/-- **Services without annotations are served as they are**: the gateway is built, whether routes
    are strict or not, and what is posted to the path of a method, with or without a query, is the
    JSON of its input. The backend is called on that very path, and the JSON of its output is the
    response. -/
theorem unbound_handle {pool : DescriptorPool} (hpool : Unannotated pool) {backend : GrpcClient}
    (hbackend : b.backend = some backend) (hdecode : codec.decodePool b.descriptorSet = .ok pool)
    (hunbound : b.options.unboundMethods = true) :
    ∃ g, b.build codec = .ok g ∧
      ∀ service m, (service, m) ∈ poolMethods pool →
        ∀ (method target : String) (headers : Headers) (body : Bytes),
          toAsciiUppercase method = "POST" → (splitQuery target).1 = grpcPath service m →
          g.handle codec method target headers body =
            if m.isServerStreaming then
              some (errorResponse .unimplemented "server-streaming methods are not supported yet")
            else
              match decodeRequestBody codec pool m.input body b.options.json with
              | .error e => some (errorResponse .invalidArgument e.toText)
              | .ok input =>
                match backend.unary (grpcPath service m) (codec.encodeMessage pool input)
                    (forwardedMetadata headers) with
                | .error e => some (errorResponse .unavailable e)
                | .ok reply =>
                  some ((defaultEntry service m).renderReply codec pool reply b.options.json) := by
  obtain ⟨routes, hbuild⟩ := hpool.exists_build hbackend hdecode hunbound
  refine ⟨_, hbuild, ?_⟩
  intro service m hmem method target headers body hpost hpath
  obtain ⟨hservice, hmethod⟩ := hpool.names _ hmem
  have htarget : requestTarget target = ([service.fullName, m.name], none) := by
    rw [requestTarget, hpath, splitRequestPath_grpcPath hservice hmethod]
  have hnames : [service.fullName, m.name].map decode = [service.fullName, m.name] := by
    rw [List.map_cons, List.map_singleton, hservice.decode, hmethod.decode]
  unfold Gateway.handle
  rw [hpool.select_eq hbuild hunbound, htarget,
    hpool.findSome?_iff.mpr ⟨hpost, rfl, rfl, service, m, hmem, hnames, rfl⟩]
  show (if m.isServerStreaming = true then _ else _) = _
  by_cases hstreaming : m.isServerStreaming = true
  · rw [if_pos hstreaming, if_pos hstreaming]
  · rw [if_neg hstreaming, if_neg hstreaming]
    -- the whole body is the message; there are no captures, and the query is not read
    have hbody : (defaultEntry service m).decodeBody codec pool body b.options.json =
        (decodeRequestBody codec pool m.input body b.options.json).mapError .body := rfl
    simp only [Entry.buildRequest, hbody]
    cases decodeRequestBody codec pool m.input body b.options.json with
    | error e => rfl
    | ok input => rfl

end Built

/-- Two methods without annotations; the second one streams. -/
def vaultsMethods : List AnnotatedMethod :=
  [{ name := "Open", input := httpRuleDesc, output := httpRuleDesc },
    { name := "Watch", input := httpRuleDesc, output := httpRuleDesc, serverStreaming := true }]

/-- Their pool. -/
def vaultsPool : DescriptorPool :=
  poolOf [] [("demo.Vaults", vaultsMethods)]

/-- A builder with strict routes. -/
def vaultsBuilder : GatewayBuilder :=
  { descriptorSet := [], options := { strictRoutes := true }, backend := some .down }

theorem mem_vaults {m : ServiceDescriptor × MethodDescriptor} (h : m ∈ poolMethods vaultsPool) :
    ∃ method ∈ vaultsMethods, m = (serviceOf "demo.Vaults" vaultsMethods, method.toDescriptor) := by
  rw [vaultsPool, poolMethods_poolOf] at h
  obtain ⟨s, hs, hm⟩ := List.mem_flatMap.mp h
  obtain rfl := List.mem_singleton.mp hs
  obtain ⟨method, hmethod, rfl⟩ := List.mem_map.mp hm
  exact ⟨method, hmethod, rfl⟩

theorem unannotated_vaults : Unannotated vaultsPool where
  rules := by
    intro m hm
    obtain ⟨method, hmethod, rfl⟩ := mem_vaults hm
    simp only [vaultsMethods, List.mem_cons, List.not_mem_nil, or_false] at hmethod
    rcases hmethod with rfl | rfl
    · rfl
    · rfl
  names := by
    intro m hm
    obtain ⟨method, hmethod, rfl⟩ := mem_vaults hm
    have hservice : IsName "demo.Vaults" := by decide
    simp only [vaultsMethods, List.mem_cons, List.not_mem_nil, or_false] at hmethod
    rcases hmethod with rfl | rfl
    · exact ⟨hservice, show IsName "Open" by decide⟩
    · exact ⟨hservice, show IsName "Watch" by decide⟩
  paths := by decide

/-- What reaches a method of the vaults. -/
theorem unbound_select_vaults : ∃ g, vaultsBuilder.build (.ofPool vaultsPool) = .ok g ∧
    ∀ method path e captures, g.select method path = some (e, captures) ↔
      toAsciiUppercase method = "POST" ∧ (requestTarget path).2 = none ∧ captures = [] ∧
        ∃ service m, (service, m) ∈ poolMethods g.pool ∧
          (requestTarget path).1.map decode = [service.fullName, m.name] ∧
          e = defaultEntry service m := by
  have hdecode : (Codec.ofPool vaultsPool).decodePool vaultsBuilder.descriptorSet =
      .ok vaultsPool := rfl
  obtain ⟨routes, hbuild⟩ := unannotated_vaults.exists_build rfl hdecode rfl
  exact ⟨_, hbuild, unbound_select_iff hbuild rfl unannotated_vaults⟩

/-- The vault is opened on its gRPC path, the query is not read. -/
theorem unbound_handle_vaults : ∃ g,
    vaultsBuilder.build (.ofPool vaultsPool) = .ok g ∧
      g.handle (.ofPool vaultsPool) "post" "/demo.Vaults/Open?x=1" [] [] =
        some (errorResponse .unavailable "down") := by
  have hdecode : (Codec.ofPool vaultsPool).decodePool vaultsBuilder.descriptorSet =
      .ok vaultsPool := rfl
  obtain ⟨g, hbuild, hhandle⟩ := unbound_handle unannotated_vaults rfl hdecode rfl
  have hmem : (serviceOf "demo.Vaults" vaultsMethods,
      AnnotatedMethod.toDescriptor ⟨"Open", httpRuleDesc, httpRuleDesc, false, none⟩) ∈
        poolMethods vaultsPool := List.mem_cons_self
  refine ⟨g, hbuild, ?_⟩
  rw [hhandle _ _ hmem "post" "/demo.Vaults/Open?x=1" [] [] (by decide) (by decide)]
  rfl

end GrpcGw.Service
