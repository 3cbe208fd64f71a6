import GrpcGw.Service.Conflicts

/-!
# Declaration Order under Strict Routes

A strict build accepts a table only if its bindings are apart: no request is matched by two
bindings of one method. Such a table routes in the same way in every order of declaration.

- `conflicts_eq_nil_iff_apart`: a table without conflicts is a table of bindings that are apart.
- `strict_resolve_perm`: the order of declaration does not matter.
-/

namespace GrpcGw.Service

open GrpcGw.Text
open GrpcGw.Pattern
open GrpcGw.Reflect
open GrpcGw.Template
open GrpcGw.Rules
open GrpcGw.Routes
open GrpcGw.Transcode

/-! ## Bindings that are apart -/

/-- No request is matched by both bindings under one method. -/
def Apart (rb rb' : Route × RouteBinding) : Prop :=
  rb.2.httpMethod = rb'.2.httpMethod → ∀ segments verb,
    BindingMatches rb segments verb → ¬BindingMatches rb' segments verb

theorem Apart.symm {rb rb' : Route × RouteBinding} (h : Apart rb rb') : Apart rb' rb :=
  fun hm segments verb hmatch' hmatch => h hm.symm segments verb hmatch hmatch'

theorem clash_eq_false_iff_apart {rb rb' : Route × RouteBinding} {e e' : CompiledBinding}
    (h : compileBinding rb = some e) (h' : compileBinding rb' = some e') :
    clash e e' = false ↔ Apart rb rb' := by
  rw [← Bool.not_eq_true, clash_compile_iff h h']
  unfold Apart
  push Not
  rfl

/-- **A table without conflicts is a table of bindings that are apart.** -/
theorem conflicts_eq_nil_iff_apart {table : RouteTable} :
    table.conflicts = [] ↔ table.bindings.Pairwise Apart := by
  rw [RouteTable.conflicts_eq_nil_iff, RouteTable.entries, List.pairwise_filterMap]
  apply List.Pairwise.iff
  intro rb rb'
  constructor
  · -- a binding that matches has a template that parses, so it is compiled
    intro h hm segments verb hmatch hmatch'
    obtain ⟨t, ht⟩ := hmatch.exists_parse
    obtain ⟨t', ht'⟩ := hmatch'.exists_parse
    obtain ⟨e, he⟩ := exists_compileBinding ht
    obtain ⟨e', he'⟩ := exists_compileBinding ht'
    exact (clash_eq_false_iff_apart he he').mp (h e he e' he') hm segments verb hmatch hmatch'
  · intro h e he e' he'
    exact (clash_eq_false_iff_apart he he').mpr h

/-- A strict build accepts exactly the tables whose bindings are apart and compile. -/
theorem strict_resolve_eq_ok_iff {index : MethodIndex} {table : RouteTable} {routes : Routes} :
    resolve true index table = .ok routes ↔
      table.bindings.Pairwise Apart ∧ (∀ rb ∈ table.bindings, Compiles index rb) ∧
        routes = fun m => table.bindings.filterMap (endpointFor? index m) := by
  rw [resolve_eq_ok_iff, compile_eq_ok_iff, ← conflicts_eq_nil_iff_apart,
    List.eq_nil_iff_forall_not_mem]
  simp [RouteConflict.isError]

/-- Of endpoints that are apart, one at most matches a request. -/
theorem pairwise_endpoints {index : MethodIndex} {table : RouteTable}
    (h : table.bindings.Pairwise Apart) (m : String) (segments : List String)
    (verb : Option String) :
    (table.bindings.filterMap (endpointFor? index m)).Pairwise fun e e' =>
      (e.template.matches segments verb).map (e, ·) = none ∨
        (e'.template.matches segments verb).map (e', ·) = none := by
  rw [List.pairwise_filterMap]
  refine h.imp fun {rb rb'} hapart e he e' he' => ?_
  have hm := (endpointFor?_eq_some_iff.mp he).1.trans (endpointFor?_eq_some_iff.mp he').1.symm
  cases hmatch : e.template.matches segments verb with
  | none => exact .inl rfl
  | some captures =>
    -- both match: the bindings they come from are not apart
    right
    cases hmatch' : e'.template.matches segments verb with
    | none => rfl
    | some captures' =>
      exact absurd ((matches_of_endpointFor? he').mp (by simp [hmatch']))
        (hapart hm segments verb ((matches_of_endpointFor? he).mp (by simp [hmatch])))

/-! ## Reordering -/

theorem bindings_perm {l l' : List MethodHttp} (h : l.Perm l') (u : Bool) :
    (RouteTable.fromMethods l u).bindings.Perm (RouteTable.fromMethods l' u).bindings :=
  (h.map _).flatMap_right _

theorem strict_resolve_isOk_of_perm {l l' : List MethodHttp} (h : l.Perm l') (u : Bool)
    (index : MethodIndex) {routes : Routes}
    (hok : resolve true index (RouteTable.fromMethods l u) = .ok routes) :
    ∃ routes', resolve true index (RouteTable.fromMethods l' u) = .ok routes' := by
  obtain ⟨hapart, hcompiles, -⟩ := strict_resolve_eq_ok_iff.mp hok
  have hperm := bindings_perm h u
  refine ⟨_, strict_resolve_eq_ok_iff.mpr ⟨(hperm.pairwise_iff Apart.symm).mp hapart, ?_, rfl⟩⟩
  exact fun rb hrb => hcompiles rb (hperm.mem_iff.mpr hrb)

/-- **Under strict routes the order of declaration does not matter**: both orders are accepted or
    both are rejected; if they are accepted, no request is matched by two bindings, and both
    routers select the same endpoint with the same captures for every request. -/
theorem strict_resolve_perm {l l' : List MethodHttp} (h : l.Perm l') (u : Bool)
    (index : MethodIndex) :
    ((∃ routes, resolve true index (RouteTable.fromMethods l u) = .ok routes) ↔
        ∃ routes, resolve true index (RouteTable.fromMethods l' u) = .ok routes) ∧
      ∀ routes routes', resolve true index (RouteTable.fromMethods l u) = .ok routes →
        resolve true index (RouteTable.fromMethods l' u) = .ok routes' →
        ∀ (m : String) (segments : List String) (verb : Option String),
          (∀ (i j : Nat) rb rb', (RouteTable.fromMethods l u).bindings[i]? = some rb →
            (RouteTable.fromMethods l u).bindings[j]? = some rb' →
            rb.2.httpMethod = m → rb'.2.httpMethod = m →
            BindingMatches rb segments verb → BindingMatches rb' segments verb → i = j) ∧
          lookup routes m segments verb = lookup routes' m segments verb := by
  refine ⟨⟨fun ⟨_, hok⟩ => strict_resolve_isOk_of_perm h u index hok,
    fun ⟨_, hok⟩ => strict_resolve_isOk_of_perm h.symm u index hok⟩, ?_⟩
  intro routes routes' hok hok' m segments verb
  obtain ⟨hapart, -, rfl⟩ := strict_resolve_eq_ok_iff.mp hok
  obtain ⟨-, -, rfl⟩ := strict_resolve_eq_ok_iff.mp hok'
  constructor
  · intro i j rb rb' hrb hrb' hm hm' hmatch hmatch'
    obtain ⟨hi, rfl⟩ := List.getElem?_eq_some_iff.mp hrb
    obtain ⟨hj, rfl⟩ := List.getElem?_eq_some_iff.mp hrb'
    -- two bindings at different positions are apart
    have hpair := List.pairwise_iff_getElem.mp hapart
    rcases Nat.lt_trichotomy i j with hlt | heq | hlt
    · exact absurd hmatch' (hpair i j hi hj hlt (hm.trans hm'.symm) segments verb hmatch)
    · exact heq
    · exact absurd hmatch (hpair j i hj hi hlt (hm'.trans hm.symm) segments verb hmatch')
  · exact findSome?_eq_of_perm ((bindings_perm h u).filterMap _)
      (pairwise_endpoints hapart m segments verb)

/-- Two methods in both orders. -/
theorem strict_resolve_perm_shelves :
    let l := [getMethod "Get" "/v1/{x}", getMethod "List" "/v1/foo/*"]
    let l' := [getMethod "List" "/v1/foo/*", getMethod "Get" "/v1/{x}"]
    ∃ routes routes', resolve true anyMethod (RouteTable.fromMethods l true) = .ok routes ∧
      resolve true anyMethod (RouteTable.fromMethods l' true) = .ok routes' ∧
      ∀ m segments verb, lookup routes m segments verb = lookup routes' m segments verb := by
  intro l l'
  have hperm : l.Perm l' := List.Perm.swap _ _ _
  obtain ⟨routes, hok⟩ : ∃ routes, resolve true anyMethod (RouteTable.fromMethods l true) =
      .ok routes := by
    refine ⟨_, resolve_eq_ok_iff.mpr ⟨by decide, compile_eq_ok_iff.mpr ⟨?_, rfl⟩⟩⟩
    intro rb hrb _
    revert rb
    decide
  obtain ⟨routes', hok'⟩ := (strict_resolve_perm hperm true anyMethod).1.mp ⟨routes, hok⟩
  refine ⟨routes, routes', hok, hok', fun m segments verb => ?_⟩
  exact ((strict_resolve_perm hperm true anyMethod).2 routes routes' hok hok' m segments verb).2

end GrpcGw.Service
