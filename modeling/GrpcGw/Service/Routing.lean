import Mathlib.Data.Nat.Find
import GrpcGw.Rules.Annotations
import GrpcGw.Service.Handle

/-!
# Routing by Declaration

The router searches one list for each HTTP method. These lists refine the flat list of bindings
in declaration order: an endpoint stands for the binding it was made from.

- `picks_iff`: the router picks the first declared binding of the method that matches.
- `select_first_declared_iff`: when this is the first declared binding whose method agrees up to
  case.
-/

namespace GrpcGw.Service

open GrpcGw.Text
open GrpcGw.Pattern
open GrpcGw.Reflect
open GrpcGw.Template
open GrpcGw.Rules
open GrpcGw.Routes
open GrpcGw.Transcode

/-! ## Picking a binding -/

/-- Whether the template of a binding parses and matches. -/
def BindingMatches (rb : Route × RouteBinding) (segments : List String) (verb : Option String) :
    Prop :=
  ∃ t, PathTemplate.parse rb.2.httpPath = .ok t ∧ (t.matches segments verb).isSome = true

instance (rb : Route × RouteBinding) (segments : List String) (verb : Option String) :
    Decidable (BindingMatches rb segments verb) :=
  decidable_of_iff ((PathTemplate.parse rb.2.httpPath).toOption.any fun t =>
      (t.matches segments verb).isSome) <| by
    unfold BindingMatches
    cases PathTemplate.parse rb.2.httpPath <;> simp [Except.toOption]

theorem BindingMatches.exists_parse {rb : Route × RouteBinding} {segments : List String}
    {verb : Option String} (h : BindingMatches rb segments verb) :
    ∃ t, PathTemplate.parse rb.2.httpPath = .ok t :=
  h.imp fun _ hmatch => hmatch.1

/-- The router picks the binding at position `i` of the table: the search under `httpMethod`
    finds the endpoint that was made from it, at the list position it was pushed to. -/
def Picks (index : MethodIndex) (table : RouteTable) (routes : Routes) (httpMethod : String)
    (segments : List String) (verb : Option String) (i : Nat) : Prop :=
  ∃ rb e captures, table.bindings[i]? = some rb ∧ endpointFor? index httpMethod rb = some e ∧
    lookup routes httpMethod segments verb = some (e, captures) ∧
    (routes httpMethod).findIdx? (fun e => (e.template.matches segments verb).isSome) =
      some (rank (endpointFor? index httpMethod) table.bindings i)

/-- The binding at position `i` is the first one that satisfies `P` and matches. -/
def FirstMatching (P : Route × RouteBinding → Prop) (table : RouteTable) (segments : List String)
    (verb : Option String) (i : Nat) : Prop :=
  ∃ rb, table.bindings[i]? = some rb ∧ P rb ∧ BindingMatches rb segments verb ∧
    ∀ k < i, ∀ rb', table.bindings[k]? = some rb' → P rb' → ¬BindingMatches rb' segments verb

section Picks

variable {index : MethodIndex} {table : RouteTable} {routes : Routes} {m : String}
  {segments : List String} {verb : Option String}

theorem FirstMatching.unique {P : Route × RouteBinding → Prop} {i j : Nat}
    (hi : FirstMatching P table segments verb i) (hj : FirstMatching P table segments verb j) :
    i = j := by
  obtain ⟨rb, hrb, hP, hmatch, hfirst⟩ := hi
  obtain ⟨rb', hrb', hP', hmatch', hfirst'⟩ := hj
  rcases Nat.lt_trichotomy i j with hlt | heq | hlt
  · exact absurd hmatch (hfirst' i hlt rb hrb hP)
  · exact heq
  · exact absurd hmatch' (hfirst j hlt rb' hrb' hP')

/-- Some binding is the first matching one, unless none matches. -/
theorem exists_firstMatching_iff {P : Route × RouteBinding → Prop} :
    (∃ i, FirstMatching P table segments verb i) ↔
      ∃ rb ∈ table.bindings, P rb ∧ BindingMatches rb segments verb := by
  classical
  constructor
  · rintro ⟨i, rb, hrb, hP, hmatch, -⟩
    exact ⟨rb, List.mem_of_getElem? hrb, hP, hmatch⟩
  · rintro ⟨rb, hmem, hP, hmatch⟩
    obtain ⟨n, hn, hrb⟩ := List.mem_iff_getElem.mp hmem
    have hex : ∃ i, ∃ rb, table.bindings[i]? = some rb ∧ P rb ∧ BindingMatches rb segments verb :=
      ⟨n, rb, List.getElem?_eq_some_iff.mpr ⟨hn, hrb⟩, hP, hmatch⟩
    obtain ⟨rb', hrb', hP', hmatch'⟩ := Nat.find_spec hex
    refine ⟨Nat.find hex, rb', hrb', hP', hmatch', ?_⟩
    intro k hk rb'' hrb'' hP'' hmatch''
    exact Nat.find_min hex hk ⟨rb'', hrb'', hP'', hmatch''⟩

/-- An endpoint matches what its binding matches. -/
theorem matches_of_endpointFor? {rb : Route × RouteBinding} {e : Entry}
    (h : endpointFor? index m rb = some e) :
    (e.template.matches segments verb).isSome = true ↔ BindingMatches rb segments verb := by
  obtain ⟨-, types, t, -, hparse, rfl⟩ := endpointFor?_eq_some_iff.mp h
  unfold BindingMatches
  rw [hparse]
  constructor
  · intro hmatch
    exact ⟨t, rfl, hmatch⟩
  · rintro ⟨t', ht', hmatch⟩
    cases ht'
    exact hmatch

/-- A binding of the method that matches is compiled to an endpoint. -/
theorem exists_endpointFor? (hindex : ∀ rb ∈ table.bindings, (index rb.1.grpcPath).isSome = true)
    {rb : Route × RouteBinding} (hrb : rb ∈ table.bindings) (hm : rb.2.httpMethod = m)
    (hmatch : BindingMatches rb segments verb) : ∃ e, endpointFor? index m rb = some e := by
  obtain ⟨t, ht⟩ := hmatch.exists_parse
  obtain ⟨types, htypes⟩ := Option.isSome_iff_exists.mp (hindex rb hrb)
  exact ⟨_, endpointFor?_eq_some_iff.mpr ⟨hm, types, t, htypes, ht, rfl⟩⟩

/-- **The router picks the first declared binding of the method that matches.** -/
theorem picks_iff (hcompile : compile index table = .ok routes)
    (hindex : ∀ rb ∈ table.bindings, (index rb.1.grpcPath).isSome = true) {i : Nat} :
    Picks index table routes m segments verb i ↔
      FirstMatching (fun rb => rb.2.httpMethod = m) table segments verb i := by
  have hroutes : routes m = table.bindings.filterMap (endpointFor? index m) := by
    rw [(compile_eq_ok_iff.mp hcompile).2]
  constructor
  · rintro ⟨rb, e, captures, hrb, he, -, hidx⟩
    rw [hroutes] at hidx
    obtain ⟨k, rb', e', hrb', he', hrank, hhit, hfirst⟩ := findIdx?_filterMap_eq_some_iff.mp hidx
    -- the hit is the binding at `i`: its rank names it
    have hk := rank_injective hrb' he' hrb he hrank
    subst hk
    rw [hrb] at hrb'
    cases hrb'
    refine ⟨rb, hrb, (endpointFor?_eq_some_iff.mp he).1, (matches_of_endpointFor? he').mp hhit, ?_⟩
    intro j hj rb'' hrb'' hm hmatch
    obtain ⟨e'', he''⟩ := exists_endpointFor? hindex (List.mem_of_getElem? hrb'') hm hmatch
    have hfalse := hfirst j hj rb'' hrb'' e'' he''
    rw [(matches_of_endpointFor? he'').mpr hmatch] at hfalse
    cases hfalse
  · rintro ⟨rb, hrb, hm, hmatch, hfirst⟩
    obtain ⟨e, he⟩ := exists_endpointFor? hindex (List.mem_of_getElem? hrb) hm hmatch
    have hhit := (matches_of_endpointFor? he).mpr hmatch
    obtain ⟨captures, hcaptures⟩ := Option.isSome_iff_exists.mp hhit
    have hidx : (routes m).findIdx? (fun e => (e.template.matches segments verb).isSome) =
        some (rank (endpointFor? index m) table.bindings i) := by
      rw [hroutes]
      refine findIdx?_filterMap_eq_some_iff.mpr ⟨i, rb, e, hrb, he, rfl, hhit, ?_⟩
      intro k hk rb' hrb' e' he'
      rw [← Bool.not_eq_true, matches_of_endpointFor? he']
      exact hfirst k hk rb' hrb' (endpointFor?_eq_some_iff.mp he').1
    refine ⟨rb, e, captures, hrb, he, lookup_eq_some_iff.mpr ⟨hcaptures, _, hidx, ?_⟩, hidx⟩
    rw [hroutes]
    exact getElem?_rank hrb he

/-- The router finds nothing iff it picks no binding. -/
theorem lookup_eq_none_iff_not_picks (hcompile : compile index table = .ok routes)
    (hindex : ∀ rb ∈ table.bindings, (index rb.1.grpcPath).isSome = true) :
    lookup routes m segments verb = none ↔
      ∀ i, ¬FirstMatching (fun rb => rb.2.httpMethod = m) table segments verb i := by
  constructor
  · -- a binding that comes first would be picked
    intro hnone i hi
    obtain ⟨rb, e, captures, -, -, hlookup, -⟩ := (picks_iff hcompile hindex).mpr hi
    rw [hnone] at hlookup
    cases hlookup
  · intro h
    apply lookup_eq_none_iff.mpr
    intro e he
    -- an endpoint that matches stands for a binding that does, so some binding comes first
    by_contra hne
    rw [(compile_eq_ok_iff.mp hcompile).2] at he
    obtain ⟨rb, hrb, hentry⟩ := List.mem_filterMap.mp he
    have hmatch := (matches_of_endpointFor? hentry).mp (Option.isSome_iff_ne_none.mpr hne)
    obtain ⟨i, hi⟩ := (exists_firstMatching_iff (P := fun rb => rb.2.httpMethod = m)).mpr
      ⟨rb, hrb, (endpointFor?_eq_some_iff.mp hentry).1, hmatch⟩
    exact h i hi

end Picks

/-! ## Methods up to case -/

/-- The route table of a built gateway. -/
def GatewayBuilder.table (b : GatewayBuilder) (g : Gateway) : RouteTable :=
  RouteTable.fromMethods (extractHttpRules g.pool) b.options.unboundMethods

theorem compile_of_build {codec : Codec} {b : GatewayBuilder} {g : Gateway}
    (h : b.build codec = .ok g) : compile (methodIndex g.pool) (b.table g) = .ok g.routes := by
  obtain ⟨backend, pool, routes, -, -, hresolve, rfl⟩ := build_eq_ok_iff.mp h
  exact (resolve_eq_ok_iff.mp hresolve).2

/-- The binding at position `i` is the first declared one whose method agrees with the request
    method up to ASCII case and whose template matches. -/
def FirstDeclared (table : RouteTable) (method : String) (segments : List String)
    (verb : Option String) (i : Nat) : Prop :=
  FirstMatching (fun rb => eqIgnoreAsciiCase rb.2.httpMethod method = true) table segments verb i

section Case

variable {table : RouteTable} {method : String} {segments : List String} {verb : Option String}

/-- The search under the upper-cased request method agrees with the search up to case iff the
    binding that comes first up to case has an upper-case method. -/
theorem firstMatching_upper_iff :
    (∀ i, FirstMatching (fun rb => rb.2.httpMethod = toAsciiUppercase method) table segments
          verb i ↔
        FirstDeclared table method segments verb i) ↔
      ∀ i rb, FirstDeclared table method segments verb i → table.bindings[i]? = some rb →
        toAsciiUppercase rb.2.httpMethod = rb.2.httpMethod := by
  have hcase : ∀ rb : Route × RouteBinding, rb.2.httpMethod = toAsciiUppercase method →
      eqIgnoreAsciiCase rb.2.httpMethod method = true := by
    intro rb hrb
    simp [eqIgnoreAsciiCase, hrb]
  constructor
  · intro h i rb hi hrb
    obtain ⟨rb', hrb', hm, -⟩ := (h i).mpr hi
    rw [hrb] at hrb'
    cases hrb'
    -- its method is the upper-cased request method, and that is upper case
    rw [hm, toAsciiUppercase_idem]
  · intro h i
    -- a binding that comes first up to case has the upper-cased request method itself
    have hup : ∀ i, FirstDeclared table method segments verb i →
        FirstMatching (fun rb => rb.2.httpMethod = toAsciiUppercase method) table segments
          verb i := by
      intro i hi
      obtain ⟨rb, hrb, hm, hmatch, hfirst⟩ := hi
      have hupper := h i rb ⟨rb, hrb, hm, hmatch, hfirst⟩ hrb
      have hkey : rb.2.httpMethod = toAsciiUppercase method := by
        rw [← hupper]
        simpa [eqIgnoreAsciiCase] using hm
      exact ⟨rb, hrb, hkey, hmatch, fun k hk rb' hrb' hm' => hfirst k hk rb' hrb' (hcase rb' hm')⟩
    constructor
    · intro hi
      have ⟨rb, hrb, hm, hmatch, _⟩ := hi
      -- the first binding up to case is an exact one, so it is the first exact one
      obtain ⟨j, hj⟩ : ∃ j, FirstDeclared table method segments verb j :=
        exists_firstMatching_iff.mpr ⟨rb, List.mem_of_getElem? hrb, hcase rb hm, hmatch⟩
      have hij : i = j := FirstMatching.unique hi (hup j hj)
      rw [hij]
      exact hj
    · exact hup i

end Case

/-- **Declaration order up to the case of methods**: the gateway selects the first declared
    binding that agrees with the request, and finds no route exactly when there is none, iff that
    binding, if there is one, has an upper-case method. -/
theorem select_first_declared_iff {codec : Codec} {b : GatewayBuilder} {g : Gateway}
    (h : b.build codec = .ok g) (method path : String) :
    let segments := (requestTarget path).1
    let verb := (requestTarget path).2
    ((∀ i, Picks (methodIndex g.pool) (b.table g) g.routes (toAsciiUppercase method) segments
            verb i ↔
          FirstDeclared (b.table g) method segments verb i) ∧
        (g.select method path = none ↔ ∀ i, ¬FirstDeclared (b.table g) method segments verb i)) ↔
      ∀ i rb, FirstDeclared (b.table g) method segments verb i →
        (b.table g).bindings[i]? = some rb →
        toAsciiUppercase rb.2.httpMethod = rb.2.httpMethod := by
  intro segments verb
  have hcompile := compile_of_build h
  have hindex : ∀ rb ∈ (b.table g).bindings, (methodIndex g.pool rb.1.grpcPath).isSome = true :=
    fun rb hrb => isSome_methodIndex hrb
  have hselect : g.select method path = lookup g.routes (toAsciiUppercase method) segments verb :=
    rfl
  rw [← firstMatching_upper_iff, hselect, lookup_eq_none_iff_not_picks hcompile hindex]
  simp only [picks_iff hcompile hindex]
  constructor
  · exact fun hboth => hboth.1
  · -- when nothing is selected follows from what is
    intro hfirst
    exact ⟨hfirst, forall_congr' fun i => not_congr (hfirst i)⟩

/-- A service with a `GET` method, and with a method that is bound to a custom HTTP method in
    lower case. -/
def doorsPool : DescriptorPool :=
  annotatedPool []
    [serviceOf "demo.Doors"
      [{ name := "List"
         input := httpRuleDesc
         output := httpRuleDesc
         rule := some (.mk "" (some (.get "/v1/doors")) "" "" []) },
        { name := "Lock"
          input := httpRuleDesc
          output := httpRuleDesc
          rule := some (.mk "" (some (.custom "lock" "/v1/doors")) "*" "" []) }]]

/-- A builder with the default options. -/
def doorsBuilder : GatewayBuilder :=
  { descriptorSet := [], backend := some .down }

theorem doors_build : ∃ g, doorsBuilder.build (.ofPool doorsPool) = .ok g ∧ g.pool = doorsPool := by
  obtain ⟨g, hg⟩ : ∃ g, doorsBuilder.build (.ofPool doorsPool) = .ok g :=
    exists_build_iff.mpr ⟨⟨_, rfl⟩, doorsPool, rfl, by decide, by decide⟩
  exact ⟨g, hg, (Except.ok.inj (checks_of_build hg).1).symm⟩

/-- A lower-case request for the `GET` method. -/
theorem select_first_declared_doors : ∃ g, doorsBuilder.build (.ofPool doorsPool) = .ok g ∧
    ∀ i, Picks (methodIndex g.pool) (doorsBuilder.table g) g.routes (toAsciiUppercase "get")
        (requestTarget "/v1/doors").1 (requestTarget "/v1/doors").2 i ↔
      FirstDeclared (doorsBuilder.table g) "get" (requestTarget "/v1/doors").1
        (requestTarget "/v1/doors").2 i := by
  obtain ⟨g, hg, hpool⟩ := doors_build
  refine ⟨g, hg, ((select_first_declared_iff hg "get" "/v1/doors").mpr ?_).1⟩
  intro i rb ⟨rb', hrb', hcase, _⟩ hrb
  rw [hrb] at hrb'
  cases hrb'
  have hall : ∀ rb ∈ (RouteTable.fromMethods (extractHttpRules doorsPool) true).bindings,
      eqIgnoreAsciiCase rb.2.httpMethod "get" = true →
        toAsciiUppercase rb.2.httpMethod = rb.2.httpMethod := by decide
  rw [← hpool] at hall
  exact hall rb (List.mem_of_getElem? hrb) hcase

/-- A request with the declared custom method finds no route: the request method is upper-cased,
    the declared one is not. -/
theorem not_select_first_declared : ¬∀ (codec : Codec) (b : GatewayBuilder) (g : Gateway),
    b.build codec = .ok g → ∀ method path : String,
      (∀ i, Picks (methodIndex g.pool) (b.table g) g.routes (toAsciiUppercase method)
            (requestTarget path).1 (requestTarget path).2 i ↔
          FirstDeclared (b.table g) method (requestTarget path).1 (requestTarget path).2 i) ∧
        (g.select method path = none ↔
          ∀ i, ¬FirstDeclared (b.table g) method (requestTarget path).1
            (requestTarget path).2 i) := by
  intro h
  obtain ⟨g, hg, hpool⟩ := doors_build
  have hdeclared : FirstDeclared (doorsBuilder.table g) "lock" ["v1", "doors"] none 1 := by
    unfold GatewayBuilder.table
    rw [hpool]
    refine ⟨_, rfl, by decide, by decide, ?_⟩
    intro k hk rb hrb hcase
    obtain rfl : k = 0 := by omega
    cases hrb
    exact absurd hcase (by decide)
  obtain ⟨rb, e, captures, hrb, hentry, -⟩ :=
    ((h _ doorsBuilder g hg "lock" "/v1/doors").1 1).mpr hdeclared
  -- the key of the search is `LOCK`, the binding is listed under `lock`
  have hkey := (endpointFor?_eq_some_iff.mp hentry).1
  unfold GatewayBuilder.table at hrb
  rw [hpool] at hrb
  cases hrb
  exact absurd hkey (by decide)

end GrpcGw.Service
