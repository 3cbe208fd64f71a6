import Mathlib.Data.List.Flatten
import GrpcGw.Service.Strict
import GrpcGw.Service.Unbound

/-!
# Defaults beside Annotations

The option for unbound methods in a pool where some methods are annotated and some are not. Under
strict routes it adds the gRPC paths of the methods without a rule, and touches nothing else.

- `mem_declarations_true_iff`: what the option adds to the declarations.
- `strict_unbound_select_iff`: what it adds to the routes.
-/

namespace GrpcGw.Service

open GrpcGw.Text
open GrpcGw.Pattern
open GrpcGw.Reflect
open GrpcGw.Template
open GrpcGw.Rules
open GrpcGw.Routes
open GrpcGw.Transcode

/-! ## Declarations -/

section Declarations

variable {pool : DescriptorPool}

/-- Without defaults the other declarations stay, in their order. -/
theorem declarations_sublist :
    (declarations pool false).Sublist (declarations pool true) := by
  refine List.Sublist.flatMap_right _ fun m _ => List.Sublist.map _ ?_
  cases ruleOf pool m.2 with
  | none => exact List.nil_sublist _
  | some rule => exact List.Sublist.refl _

/-- **The option adds the defaults of the methods without a rule.** -/
theorem mem_declarations_true_iff {d : Declaration} :
    d ∈ declarations pool true ↔ d ∈ declarations pool false ∨
      ∃ service method, (service, method) ∈ poolMethods pool ∧ ruleOf pool method = none ∧
        d = defaultDeclaration service method := by
  constructor
  · intro hd
    obtain ⟨m, hm, hd⟩ := List.mem_flatMap.mp hd
    cases hrule : ruleOf pool m.2 with
    | none =>
      right
      simp only [hrule, bindingsOf, if_true, List.map_singleton, List.mem_singleton] at hd
      exact ⟨m.1, m.2, hm, hrule, hd⟩
    | some rule =>
      left
      simp only [hrule, bindingsOf] at hd
      refine List.mem_flatMap.mpr ⟨m, hm, ?_⟩
      simp only [hrule, bindingsOf]
      exact hd
  · rintro (hd | ⟨service, method, hm, hrule, rfl⟩)
    · exact declarations_sublist.subset hd
    · refine List.mem_flatMap.mpr ⟨(service, method), hm, ?_⟩
      simp only [hrule, bindingsOf, if_true, List.map_singleton, List.mem_singleton]
      rfl

end Declarations

/-! ## Routes -/

/-- The same builder with the option turned off. -/
def GatewayBuilder.annotatedOnly (b : GatewayBuilder) : GatewayBuilder :=
  { b with options := { b.options with unboundMethods := false } }

section Routes

variable {codec : Codec} {b : GatewayBuilder} {g : Gateway}

/-- A strict build goes through without the defaults, too. -/
theorem exists_build_annotatedOnly (h : b.build codec = .ok g)
    (hstrict : b.options.strictRoutes = true) (hunbound : b.options.unboundMethods = true) :
    ∃ g', b.annotatedOnly.build codec = .ok g' ∧ g'.pool = g.pool := by
  obtain ⟨hpool, -, hparse⟩ := checks_of_build h
  have hbackend := (exists_build_iff.mp ⟨g, h⟩).1
  have hapart := pairwise_apart h hstrict
  rw [hunbound] at hparse hapart
  obtain ⟨g', hg'⟩ : ∃ g', b.annotatedOnly.build codec = .ok g' := by
    refine exists_build_iff.mpr ⟨hbackend, g.pool, hpool, ?_, ?_⟩
    · have hnil : (RouteTable.fromMethods (extractHttpRules g.pool) false).conflicts = [] := by
        rw [conflicts_eq_nil_iff_declarations]
        exact hapart.sublist declarations_sublist
      change ∀ c ∈ (RouteTable.fromMethods (extractHttpRules g.pool) false).conflicts, _
      simp [hnil]
    · intro rb hrb
      change rb ∈ (RouteTable.fromMethods (extractHttpRules g.pool) false).bindings at hrb
      rw [bindings_eq_declarations] at hrb hparse
      obtain ⟨d, hd, rfl⟩ := List.mem_map.mp hrb
      exact hparse (d.route g.pool true, d.binding)
        (List.mem_map.mpr ⟨d, declarations_sublist.subset hd, rfl⟩)
  exact ⟨g', hg', Except.ok.inj ((checks_of_build hg').1.symm.trans hpool)⟩

/-- **The option adds the gRPC paths of the methods without a rule**, and nothing else: a strict
    build with it goes through without it, and a request has a route in the one gateway iff it has
    the same route in the other, or posts to the gRPC path of a method without a rule. -/
theorem strict_unbound_select_iff (hbuild : b.build codec = .ok g)
    (hstrict : b.options.strictRoutes = true) (hunbound : b.options.unboundMethods = true)
    (hpaths : (grpcPaths g.pool).Nodup)
    (hnames : ∀ m ∈ poolMethods g.pool, ruleOf g.pool m.2 = none →
      IsName m.1.fullName ∧ IsName m.2.name) :
    ∃ g', b.annotatedOnly.build codec = .ok g' ∧
      ∀ method path e captures, g.select method path = some (e, captures) ↔
        g'.select method path = some (e, captures) ∨
          toAsciiUppercase method = "POST" ∧ (requestTarget path).2 = none ∧ captures = [] ∧
            ∃ service m, (service, m) ∈ poolMethods g.pool ∧ ruleOf g.pool m = none ∧
              (requestTarget path).1.map decode = [service.fullName, m.name] ∧
              e = defaultEntry service m := by
  obtain ⟨g', hg', hpool⟩ := exists_build_annotatedOnly hbuild hstrict hunbound
  have hpaths' : (grpcPaths g'.pool).Nodup := hpool ▸ hpaths
  refine ⟨g', hg', ?_⟩
  intro method path e captures
  constructor
  · intro hselect
    obtain ⟨d, hd, hserves⟩ := Gateway.exists_serves_of_select hbuild hpaths hselect
    rw [hunbound] at hd
    rcases mem_declarations_true_iff.mp hd with hd | ⟨service, m, hm, hrule, rfl⟩
    · -- the declaration is there without the option
      left
      rw [← hpool] at hd
      exact strict_select hg' hstrict hpaths' hd hserves
    · right
      obtain ⟨hservice, hmethod⟩ := hnames _ hm hrule
      obtain ⟨hpost, hverb, hsegments, hnil, hentry⟩ :=
        (serves_defaultDeclaration_iff hservice hmethod).mp hserves
      exact ⟨hpost, hverb, hnil, service, m, hm, hrule, hsegments, hentry⟩
  · rintro (hselect | ⟨hpost, hverb, hnil, service, m, hm, hrule, hsegments, hentry⟩)
    · obtain ⟨d, hd, hserves⟩ := Gateway.exists_serves_of_select hg' hpaths' hselect
      rw [hpool] at hd
      refine strict_select hbuild hstrict hpaths (d := d) ?_ hserves
      rw [hunbound]
      exact declarations_sublist.subset hd
    · obtain ⟨hservice, hmethod⟩ := hnames _ hm hrule
      refine strict_select hbuild hstrict hpaths (d := defaultDeclaration service m) ?_ ?_
      · rw [hunbound]
        exact mem_declarations_true_iff.mpr (.inr ⟨service, m, hm, hrule, rfl⟩)
      · exact (serves_defaultDeclaration_iff hservice hmethod).mpr
          ⟨hpost, hverb, hsegments, hnil, hentry⟩

end Routes

/-- The doors are annotated, the vaults are not. -/
def housePool : DescriptorPool :=
  poolOf [] (doorsServices ++ [("demo.Vaults", vaultsMethods)])

theorem housePool_names : ∀ m ∈ poolMethods housePool, ruleOf housePool m.2 = none →
    IsName m.1.fullName ∧ IsName m.2.name := by
  intro m hm _
  rw [housePool, poolMethods_poolOf] at hm
  obtain ⟨s, hs, hm⟩ := List.mem_flatMap.mp hm
  obtain ⟨method, hmethod, rfl⟩ := List.mem_map.mp hm
  have hnames : ∀ s ∈ doorsServices ++ [("demo.Vaults", vaultsMethods)],
      ∀ method ∈ s.2, IsName s.1 ∧ IsName method.name := by
    decide
  exact hnames s hs method hmethod

/-- The vaults are added to the doors. -/
theorem strict_unbound_select_house : ∃ g g',
    vaultsBuilder.build (.ofPool housePool) = .ok g ∧
      vaultsBuilder.annotatedOnly.build (.ofPool housePool) = .ok g' ∧
      ∀ method path e captures, g.select method path = some (e, captures) ↔
        g'.select method path = some (e, captures) ∨
          toAsciiUppercase method = "POST" ∧ (requestTarget path).2 = none ∧ captures = [] ∧
            ∃ service m, (service, m) ∈ poolMethods g.pool ∧ ruleOf g.pool m = none ∧
              (requestTarget path).1.map decode = [service.fullName, m.name] ∧
              e = defaultEntry service m := by
  obtain ⟨g, hg⟩ : ∃ g, vaultsBuilder.build (.ofPool housePool) = .ok g :=
    exists_build_iff.mpr ⟨⟨_, rfl⟩, housePool, rfl, by decide, by decide⟩
  have hpool : g.pool = housePool := (Except.ok.inj (checks_of_build hg).1).symm
  have hpaths : (grpcPaths g.pool).Nodup := by
    rw [hpool]
    decide
  obtain ⟨g', hg', hselect⟩ := strict_unbound_select_iff hg rfl rfl hpaths
    (hpool ▸ housePool_names)
  exact ⟨g, g', hg, hg', hselect⟩

end GrpcGw.Service
