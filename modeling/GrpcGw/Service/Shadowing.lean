import GrpcGw.Pattern.Covers
import GrpcGw.Service.Conflicts

/-!
# Shadowed and Unreachable Bindings

A `Shadowed` report says that an earlier binding takes some of the requests of a later one. The
later binding is unreachable only if the earlier ones together take all of them, and this is a
property of the templates: for every number of segments under a final `**`, a single earlier
template is at least as general, place by place.

- `coveredAt`: the earlier bindings cover a binding.
- `coveredAt_iff`: this is the inclusion of the languages.
- `shadowed_unreachable_iff`: a reported binding is unreachable iff it is covered.
-/

namespace GrpcGw.Service

open GrpcGw.Text
open GrpcGw.Pattern
open GrpcGw.Reflect
open GrpcGw.Template
open GrpcGw.Rules
open GrpcGw.Routes
open GrpcGw.Transcode

/-! ## Covered bindings -/

/-- The slots of the bindings before position `j` with the method and the verb of a binding. -/
def rivals (entries : List CompiledBinding) (j : Nat) (e : CompiledBinding) :
    List (List (Slot String)) :=
  ((entries.take j).filter fun r =>
    r.httpMethod = e.httpMethod && r.template.verb = e.template.verb).map fun r =>
      templateSlots r.template

/-- Whether the bindings before position `j` cover the one at `j`. -/
def coveredAt (entries : List CompiledBinding) (j : Nat) : Bool :=
  (entries[j]?).any fun e => covered (rivals entries j e) (templateSlots e.template)

theorem mem_rivals_iff {entries : List CompiledBinding} {j : Nat} {e : CompiledBinding}
    {q : List (Slot String)} :
    q ∈ rivals entries j e ↔ ∃ i < j, ∃ r, entries[i]? = some r ∧ r.httpMethod = e.httpMethod ∧
      r.template.verb = e.template.verb ∧ q = templateSlots r.template := by
  simp only [rivals, List.mem_map, List.mem_filter, Bool.and_eq_true, decide_eq_true_eq,
    List.mem_take_iff_getElem]
  constructor
  · rintro ⟨r, ⟨⟨i, hi, rfl⟩, hmethod, hverb⟩, rfl⟩
    exact ⟨i, by omega, _, List.getElem?_eq_getElem (by omega), hmethod, hverb, rfl⟩
  · rintro ⟨i, hi, r, hr, hmethod, hverb, rfl⟩
    obtain ⟨hlt, rfl⟩ := List.getElem?_eq_some_iff.mp hr
    exact ⟨_, ⟨⟨i, by omega, rfl⟩, hmethod, hverb⟩, rfl⟩

/-- What a well-formed binding takes. -/
theorem CompiledBinding.takes_iff_accepts {e : CompiledBinding} (h : e.template.WellFormed)
    (x : Target) :
    e.takes x = true ↔ e.httpMethod = x.1 ∧ e.template.verb = x.2.2 ∧
      Accepts decode (templateSlots e.template) x.2.1 := by
  rw [CompiledBinding.takes, Bool.and_eq_true, decide_eq_true_eq,
    PathTemplate.matches_isSome_iff h]

/-- **A binding is covered iff the earlier ones take everything it takes.** -/
theorem coveredAt_iff {entries : List CompiledBinding}
    (hwf : ∀ e ∈ entries, e.template.WellFormed) {j : Nat} {e : CompiledBinding}
    (he : entries[j]? = some e) :
    coveredAt entries j = true ↔
      ∀ x : Target, e.takes x = true → ∃ i < j, ∃ r, entries[i]? = some r ∧ r.takes x = true := by
  have hmem := List.mem_of_getElem? he
  have hrivals : ∀ q ∈ rivals entries j e, RestLast q := by
    intro q hq
    obtain ⟨i, -, r, hr, -, -, rfl⟩ := mem_rivals_iff.mp hq
    exact (hwf r (List.mem_of_getElem? hr)).restLast_slots
  rw [coveredAt, he, Option.any_some,
    covered_iff decode_surjective hrivals (hwf e hmem).restLast_slots]
  constructor
  · intro h x hx
    obtain ⟨hm, hv, hw⟩ := (CompiledBinding.takes_iff_accepts (hwf e hmem) x).mp hx
    obtain ⟨q, hq, hqw⟩ := h x.2.1 hw
    obtain ⟨i, hi, r, hr, hmethod, hverb, rfl⟩ := mem_rivals_iff.mp hq
    have hrwf := hwf r (List.mem_of_getElem? hr)
    exact ⟨i, hi, r, hr, (CompiledBinding.takes_iff_accepts hrwf x).mpr
      ⟨hmethod.trans hm, hverb.trans hv, hqw⟩⟩
  · intro h w hw
    -- the segments under the method and the verb of the binding itself
    obtain ⟨i, hi, r, hr, hx⟩ := h (e.httpMethod, w, e.template.verb)
      ((CompiledBinding.takes_iff_accepts (hwf e hmem) _).mpr ⟨rfl, rfl, hw⟩)
    obtain ⟨hm, hv, hrw⟩ :=
      (CompiledBinding.takes_iff_accepts (hwf r (List.mem_of_getElem? hr)) _).mp hx
    exact ⟨_, mem_rivals_iff.mpr ⟨i, hi, r, hr, hm, hv, rfl⟩, hrw⟩

theorem exists_binding_of_coveredAt {table : RouteTable} {j : Nat}
    (h : coveredAt table.entries j = true) : ∃ rb, table.bindings[j]? = some rb := by
  unfold coveredAt at h
  cases he : table.entries[j]? with
  | none =>
    rw [he] at h
    cases h
  | some e =>
    have hj : j < table.entries.length := (List.getElem?_eq_some_iff.mp he).1
    have hle : table.entries.length ≤ table.bindings.length := List.length_filterMap_le _ _
    exact ⟨_, List.getElem?_eq_getElem (by omega)⟩

/-! ## Unreachable bindings -/

/-- Some binding before position `j` with the same method as `rb` matches. -/
def MatchedBefore (table : RouteTable) (j : Nat) (rb : Route × RouteBinding)
    (segments : List String) (verb : Option String) : Prop :=
  ∃ i < j, ∃ rb', table.bindings[i]? = some rb' ∧ rb'.2.httpMethod = rb.2.httpMethod ∧
    BindingMatches rb' segments verb

/-- The router never picks the binding at position `j`. -/
def Unreachable (index : MethodIndex) (table : RouteTable) (routes : Routes) (j : Nat) : Prop :=
  ∀ m segments verb, ¬Picks index table routes m segments verb j

section Unreachable

variable {index : MethodIndex} {table : RouteTable} {routes : Routes} {rb : Route × RouteBinding}
  {j : Nat}
  (hparse : ∀ rb ∈ table.bindings, ∃ t, PathTemplate.parse rb.2.httpPath = .ok t)

include hparse in
/-- A binding is covered iff every request it matches is matched before. -/
theorem coveredAt_iff_matchedBefore (hrb : table.bindings[j]? = some rb) :
    coveredAt table.entries j = true ↔
      ∀ segments verb, BindingMatches rb segments verb →
        MatchedBefore table j rb segments verb := by
  obtain ⟨e, hej, he⟩ := exists_entry hparse hrb
  rw [coveredAt_iff (fun _ => RouteTable.wellFormed_of_mem_entries) hej]
  constructor
  · intro h segments verb hmatch
    obtain ⟨i, hi, r, hr, hx⟩ := h (rb.2.httpMethod, segments, verb)
      ((takes_iff he _ segments verb).mpr ⟨rfl, hmatch⟩)
    -- every entry stands for the binding at its own position
    have hlt : i < table.bindings.length :=
      Nat.lt_trans hi (List.getElem?_eq_some_iff.mp hrb).1
    have hrb' := List.getElem?_eq_getElem hlt
    obtain ⟨r', hr', he'⟩ := exists_entry hparse hrb'
    rw [hr] at hr'
    cases hr'
    obtain ⟨hm, hmatch'⟩ := (takes_iff he' _ segments verb).mp hx
    exact ⟨i, hi, _, hrb', hm, hmatch'⟩
  · rintro h ⟨m, segments, verb⟩ hx
    obtain ⟨rfl, hmatch⟩ := (takes_iff he m segments verb).mp hx
    obtain ⟨i, hi, rb', hrb', hm, hmatch'⟩ := h segments verb hmatch
    obtain ⟨r, hr, he'⟩ := exists_entry hparse hrb'
    exact ⟨i, hi, r, hr, (takes_iff he' _ segments verb).mpr ⟨hm, hmatch'⟩⟩

variable (hindex : ∀ rb ∈ table.bindings, (index rb.1.grpcPath).isSome = true)
  (hcompile : compile index table = .ok routes)

include hindex hcompile in
/-- A binding is unreachable iff every request it matches is matched before. -/
theorem unreachable_iff_matchedBefore (hrb : table.bindings[j]? = some rb) :
    Unreachable index table routes j ↔
      ∀ segments verb, BindingMatches rb segments verb →
        MatchedBefore table j rb segments verb := by
  constructor
  · intro h segments verb hmatch
    by_contra hbefore
    -- a request that is not matched before is picked
    apply h rb.2.httpMethod segments verb
    refine (picks_iff hcompile hindex).mpr ⟨rb, hrb, rfl, hmatch, ?_⟩
    intro i hi rb' hrb' hm hmatch'
    exact hbefore ⟨i, hi, rb', hrb', hm, hmatch'⟩
  · intro h m segments verb hpick
    obtain ⟨rb', hrb', rfl, hmatch, hfirst⟩ := (picks_iff hcompile hindex).mp hpick
    rw [hrb] at hrb'
    cases hrb'
    obtain ⟨i, hi, rb', hrb', hm, hmatch'⟩ := h segments verb hmatch
    exact hfirst i hi rb' hrb' hm hmatch'

include hparse hindex hcompile in
theorem unreachable_iff_coveredAt (hrb : table.bindings[j]? = some rb) :
    Unreachable index table routes j ↔ coveredAt table.entries j = true :=
  (unreachable_iff_matchedBefore hindex hcompile hrb).trans
    (coveredAt_iff_matchedBefore hparse hrb).symm

include hcompile in
/-- Under `strict_routes` a table that compiles is rejected iff two of its bindings clash. -/
theorem resolve_strict_iff :
    (∃ text, resolve true index table = .error (.shadowedRoute text)) ↔
      ¬table.entries.Pairwise fun e e' => clash e e' = false := by
  rw [← RouteTable.conflicts_eq_nil_iff, resolve]
  cases hconflicts : table.conflicts with
  | nil => simp [hcompile, Except.mapError]
  | cons c cs => simp [RouteConflict.isError]

end Unreachable

/-! ## Shadowed reports -/

/-- **When a `Shadowed` report means an unreachable route**: the requests of a reported binding are
    all matched before iff the earlier bindings cover it, and then the router never picks it. The
    tables that `strict_routes` rejects contain an unreachable binding iff some binding is covered,
    unless no two bindings clash. -/
theorem shadowed_unreachable_iff {table : RouteTable}
    (hparse : ∀ rb ∈ table.bindings, ∃ t, PathTemplate.parse rb.2.httpPath = .ok t) :
    (∀ j rb c, table.bindings[j]? = some rb → conflictAt table.entries j = some c →
      c.kind = .shadowed →
        ((∀ segments verb, BindingMatches rb segments verb →
            MatchedBefore table j rb segments verb) ↔ coveredAt table.entries j = true)) ∧
    ∀ index : MethodIndex, (∀ rb ∈ table.bindings, (index rb.1.grpcPath).isSome = true) →
      ∃ routes, compile index table = .ok routes ∧
        (∀ j rb c, table.bindings[j]? = some rb → conflictAt table.entries j = some c →
          c.kind = .shadowed →
            (Unreachable index table routes j ↔ coveredAt table.entries j = true)) ∧
        (((∃ text, resolve true index table = .error (.shadowedRoute text)) →
            ∃ j rb, table.bindings[j]? = some rb ∧ Unreachable index table routes j) ↔
          (∃ j, coveredAt table.entries j = true) ∨
            table.entries.Pairwise fun e e' => clash e e' = false) := by
  refine ⟨fun j rb c hrb _ _ => (coveredAt_iff_matchedBefore hparse hrb).symm, ?_⟩
  intro index hindex
  obtain ⟨routes, hcompile⟩ := exists_compile index hparse
  -- the unreachable positions are the covered ones
  have hunreachable : (∃ j rb, table.bindings[j]? = some rb ∧ Unreachable index table routes j) ↔
      ∃ j, coveredAt table.entries j = true := by
    apply exists_congr
    intro j
    constructor
    · rintro ⟨rb, hrb, h⟩
      exact (unreachable_iff_coveredAt hparse hindex hcompile hrb).mp h
    · intro h
      obtain ⟨rb, hrb⟩ := exists_binding_of_coveredAt h
      exact ⟨rb, hrb, (unreachable_iff_coveredAt hparse hindex hcompile hrb).mpr h⟩
  refine ⟨routes, hcompile, ?_, ?_⟩
  · intro j rb c hrb _ _
    exact unreachable_iff_coveredAt hparse hindex hcompile hrb
  · rw [resolve_strict_iff hcompile, hunreachable, imp_iff_or_not, not_not]

/-- The second binding of the table is reported as shadowed, and the first one covers it. -/
theorem shadowed_unreachable_iff_shelves :
    ∃ routes, compile anyMethod shelvesTable = .ok routes ∧
      Unreachable anyMethod shelvesTable routes 1 := by
  have hparse : ∀ rb ∈ shelvesTable.bindings, ∃ t, PathTemplate.parse rb.2.httpPath = .ok t := by
    decide
  have hindex : ∀ rb ∈ shelvesTable.bindings, (anyMethod rb.1.grpcPath).isSome = true :=
    fun _ _ => rfl
  obtain ⟨-, hroutes⟩ := shadowed_unreachable_iff hparse
  obtain ⟨routes, hcompile, hreport, -⟩ := hroutes anyMethod hindex
  have hconflict : ∃ c, conflictAt shelvesTable.entries 1 = some c ∧ c.kind = .shadowed :=
    ⟨_, rfl, by decide⟩
  obtain ⟨c, hc, hkind⟩ := hconflict
  exact ⟨routes, hcompile, (hreport 1 _ c rfl hc hkind).mpr (by decide)⟩

/-- A literal in front of a variable that takes it. -/
def literalFirstTable : RouteTable :=
  RouteTable.fromMethods [getMethod "Foo" "/v1/foo", getMethod "Any" "/v1/\x7bx\x7d"] true

/-- A literal in front of a variable is reported to shadow it, and the variable still takes every
    other segment. -/
theorem not_shadowed_unreachable :
    ¬∀ table : RouteTable,
      (∀ rb ∈ table.bindings, ∃ t, PathTemplate.parse rb.2.httpPath = .ok t) →
      ∀ j rb c, table.bindings[j]? = some rb → conflictAt table.entries j = some c →
        c.kind = .shadowed → ∀ segments verb, BindingMatches rb segments verb →
          MatchedBefore table j rb segments verb := by
  intro h
  have hparse : ∀ rb ∈ literalFirstTable.bindings,
      ∃ t, PathTemplate.parse rb.2.httpPath = .ok t := by decide
  have hconflict : ∃ c, conflictAt literalFirstTable.entries 1 = some c ∧ c.kind = .shadowed :=
    ⟨_, rfl, by decide⟩
  obtain ⟨c, hc, hkind⟩ := hconflict
  obtain ⟨i, hi, rb', hrb', -, hmatch⟩ :=
    h literalFirstTable hparse 1 _ c rfl hc hkind ["v1", "bar"] none (by decide)
  obtain rfl : i = 0 := by omega
  cases hrb'
  revert hmatch
  decide

end GrpcGw.Service
