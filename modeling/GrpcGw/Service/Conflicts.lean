import GrpcGw.Service.Routing

/-!
# Conflicts and the Router

What the conflict report of a route table says about the router that is built from it.

- `conflicts_agree_with_router`: a binding is reported iff an earlier one wins some of its
  requests, and the report names a winner.
- `duplicates_rejected_iff`: when an exact duplicate is reported as one.
-/

namespace GrpcGw.Service

open GrpcGw.Text
open GrpcGw.Pattern
open GrpcGw.Reflect
open GrpcGw.Template
open GrpcGw.Rules
open GrpcGw.Routes
open GrpcGw.Transcode

section Entries

variable {table : RouteTable} {rb : Route × RouteBinding} {e : CompiledBinding} {i : Nat}

/-! ## Compiled bindings as rules -/

/-- A compiled binding takes what its method and its template take. -/
theorem takes_iff (h : compileBinding rb = some e) (m : String) (segments : List String)
    (verb : Option String) :
    e.takes (m, segments, verb) = true ↔ rb.2.httpMethod = m ∧ BindingMatches rb segments verb := by
  obtain ⟨hparse, hmethod, -, -⟩ := compileBinding_eq_some_iff.mp h
  unfold CompiledBinding.takes BindingMatches
  rw [hparse, hmethod]
  simp

theorem entries_clash_iff : ∀ r ∈ table.entries, ∀ s ∈ table.entries,
    clash r s = true ↔ ∃ x : Target, r.takes x ∧ s.takes x :=
  fun _ hr _ hs =>
    clash_iff (RouteTable.wellFormed_of_mem_entries hr) (RouteTable.wellFormed_of_mem_entries hs)

theorem exists_compileBinding {t : PathTemplate}
    (h : PathTemplate.parse rb.2.httpPath = .ok t) : ∃ e, compileBinding rb = some e := by
  unfold compileBinding
  rw [h]
  exact ⟨_, rfl⟩

/-- If every template parses, no binding is skipped. -/
theorem rank_compileBinding
    (hparse : ∀ rb ∈ table.bindings, ∃ t, PathTemplate.parse rb.2.httpPath = .ok t)
    (hrb : table.bindings[i]? = some rb) : rank compileBinding table.bindings i = i := by
  refine rank_of_total ?_ (Nat.le_of_lt (List.getElem?_eq_some_iff.mp hrb).1)
  intro rb hmem
  obtain ⟨t, ht⟩ := hparse rb hmem
  exact Option.isSome_iff_exists.mpr (exists_compileBinding ht)

/-- If every template parses, each binding is compiled to the entry at its own position. -/
theorem exists_entry
    (hparse : ∀ rb ∈ table.bindings, ∃ t, PathTemplate.parse rb.2.httpPath = .ok t)
    (hrb : table.bindings[i]? = some rb) :
    ∃ e, table.entries[i]? = some e ∧ compileBinding rb = some e := by
  obtain ⟨t, ht⟩ := hparse rb (List.mem_of_getElem? hrb)
  obtain ⟨e, he⟩ := exists_compileBinding ht
  refine ⟨e, ?_, he⟩
  rw [RouteTable.entries, ← rank_compileBinding hparse hrb]
  exact getElem?_rank hrb he

end Entries

/-! ## The report and the router -/

section Router

variable {index : MethodIndex} {table : RouteTable} {routes : Routes} {rb : Route × RouteBinding}
  {i j : Nat}
  (hparse : ∀ rb ∈ table.bindings, ∃ t, PathTemplate.parse rb.2.httpPath = .ok t)

include hparse in
/-- If every template parses, the rule list dispatches to the first matching binding. -/
theorem dispatch_entries_iff {m : String} {segments : List String} {verb : Option String} :
    dispatch CompiledBinding.takes table.entries (m, segments, verb) = some i ↔
      FirstMatching (fun rb => rb.2.httpMethod = m) table segments verb i := by
  rw [dispatch, RouteTable.entries, findIdx?_filterMap_eq_some_iff]
  constructor
  · rintro ⟨k, rb, e, hrb, he, hrank, htakes, hfirst⟩
    -- every binding compiles, so entries and bindings have the same positions
    rw [rank_compileBinding hparse hrb] at hrank
    subst hrank
    obtain ⟨hm, hmatch⟩ := (takes_iff he m segments verb).mp htakes
    refine ⟨rb, hrb, hm, hmatch, ?_⟩
    intro n hn rb' hrb' hm' hmatch'
    obtain ⟨e', -, he'⟩ := exists_entry hparse hrb'
    have hfalse := hfirst n hn rb' hrb' e' he'
    rw [(takes_iff he' m segments verb).mpr ⟨hm', hmatch'⟩] at hfalse
    cases hfalse
  · rintro ⟨rb, hrb, hm, hmatch, hfirst⟩
    obtain ⟨e, -, he⟩ := exists_entry hparse hrb
    refine ⟨i, rb, e, hrb, he, rank_compileBinding hparse hrb,
      (takes_iff he m segments verb).mpr ⟨hm, hmatch⟩, ?_⟩
    intro k hk rb' hrb' e' he'
    rw [← Bool.not_eq_true, takes_iff he']
    exact fun h => hfirst k hk rb' hrb' h.1 h.2

variable (hindex : ∀ rb ∈ table.bindings, (index rb.1.grpcPath).isSome = true)
  (hcompile : compile index table = .ok routes)

include hparse hindex hcompile

/-- Every pick of the router is a dispatch in the rule list of the conflict report. -/
theorem picks_iff_dispatch {m : String} {segments : List String} {verb : Option String} :
    Picks index table routes m segments verb i ↔
      dispatch CompiledBinding.takes table.entries (m, segments, verb) = some i := by
  rw [picks_iff hcompile hindex, dispatch_entries_iff hparse]

/-- The first clash of a binding wins a request that the binding matches. -/
theorem exists_picks_of_firstClash (hrb : table.bindings[j]? = some rb)
    (hi : firstClash clash table.entries j = some i) :
    ∃ segments verb, BindingMatches rb segments verb ∧
      Picks index table routes rb.2.httpMethod segments verb i := by
  obtain ⟨e, hej, he⟩ := exists_entry hparse hrb
  obtain ⟨⟨m, segments, verb⟩, hx, hdispatch⟩ :=
    exists_dispatch_of_firstClash entries_clash_iff hej hi
  obtain ⟨rfl, hmatch⟩ := (takes_iff he m segments verb).mp hx
  exact ⟨segments, verb, hmatch, (picks_iff_dispatch hparse hindex hcompile).mpr hdispatch⟩

/-- A binding without a report gets every request it matches. -/
theorem picks_of_conflictAt_none (hrb : table.bindings[j]? = some rb)
    (hnone : conflictAt table.entries j = none) {segments : List String} {verb : Option String}
    (hmatch : BindingMatches rb segments verb) :
    Picks index table routes rb.2.httpMethod segments verb j := by
  obtain ⟨e, hej, he⟩ := exists_entry hparse hrb
  have hfirst : firstClash clash table.entries j = none := by
    rw [← Option.not_isSome_iff_eq_none, ← conflictAt_isSome_iff, hnone]
    simp
  apply (picks_iff_dispatch hparse hindex hcompile).mpr
  apply dispatch_of_firstClash_none entries_clash_iff hej hfirst
  exact (takes_iff he _ segments verb).mpr ⟨rfl, hmatch⟩

/-- A binding is reported iff an earlier one wins some request that it matches. -/
theorem conflictAt_isSome_iff_picks (hrb : table.bindings[j]? = some rb) :
    (conflictAt table.entries j).isSome ↔
      ∃ segments verb, BindingMatches rb segments verb ∧
        ∃ i < j, Picks index table routes rb.2.httpMethod segments verb i := by
  obtain ⟨e, hej, -⟩ := exists_entry hparse hrb
  constructor
  · intro hsome
    obtain ⟨i, hi⟩ := Option.isSome_iff_exists.mp (conflictAt_isSome_iff.mp hsome)
    obtain ⟨segments, verb, hmatch, hpick⟩ :=
      exists_picks_of_firstClash hparse hindex hcompile hrb hi
    exact ⟨segments, verb, hmatch, i, ((firstClash_eq_some_iff hej).mp hi).1, hpick⟩
  · rintro ⟨segments, verb, hmatch, i, hlt, hpick⟩
    by_contra hnot
    -- without a report the binding wins the request itself, and a request has one winner
    have hj := picks_of_conflictAt_none hparse hindex hcompile hrb
      (Option.not_isSome_iff_eq_none.mp hnot) hmatch
    have heq : i = j := FirstMatching.unique ((picks_iff hcompile hindex).mp hpick)
      ((picks_iff hcompile hindex).mp hj)
    omega

/-- A report names a winner and the binding that it is about. -/
theorem exists_picks_of_conflictAt (hrb : table.bindings[j]? = some rb) {c : RouteConflict}
    (hc : conflictAt table.entries j = some c) :
    ∃ i < j, ∃ rb', table.bindings[i]? = some rb' ∧
      c.grpcPaths = [rb'.1.grpcPath, rb.1.grpcPath] ∧
      ∃ segments verb, BindingMatches rb segments verb ∧
        Picks index table routes rb.2.httpMethod segments verb i := by
  obtain ⟨i, earlier, later, hi, hearlier, hlater, rfl⟩ := conflictAt_eq_some_iff.mp hc
  obtain ⟨e, hej, he⟩ := exists_entry hparse hrb
  rw [hlater] at hej
  cases hej
  have hlt := ((firstClash_eq_some_iff hlater).mp hi).1
  obtain ⟨segments, verb, hmatch, hpick⟩ :=
    exists_picks_of_firstClash hparse hindex hcompile hrb hi
  obtain ⟨rb', hrb', -⟩ := (picks_iff hcompile hindex).mp hpick
  obtain ⟨e', hei, he'⟩ := exists_entry hparse hrb'
  rw [hearlier] at hei
  cases hei
  refine ⟨i, hlt, rb', hrb', ?_, segments, verb, hmatch, hpick⟩
  -- the report names the paths of the two bindings
  obtain ⟨-, -, -, hpath⟩ := compileBinding_eq_some_iff.mp he
  obtain ⟨-, -, -, hpath'⟩ := compileBinding_eq_some_iff.mp he'
  simp only [conflict, hpath, hpath']

end Router

/-- **The conflict report agrees with the router**: a binding is reported as the later side of a
    conflict iff the router picks an earlier one for a request its template matches; the report
    names one that is picked; and a binding without a report gets every request it matches. -/
theorem conflicts_agree_with_router {index : MethodIndex} {table : RouteTable}
    (hparse : ∀ rb ∈ table.bindings, ∃ t, PathTemplate.parse rb.2.httpPath = .ok t)
    (hindex : ∀ rb ∈ table.bindings, (index rb.1.grpcPath).isSome = true) :
    ∃ routes, compile index table = .ok routes ∧
      ∀ j rb, table.bindings[j]? = some rb →
        ((conflictAt table.entries j).isSome ↔
          ∃ segments verb, BindingMatches rb segments verb ∧
            ∃ i < j, Picks index table routes rb.2.httpMethod segments verb i) ∧
        (∀ c, conflictAt table.entries j = some c →
          c ∈ table.conflicts ∧ ∃ i < j, ∃ rb', table.bindings[i]? = some rb' ∧
            c.grpcPaths = [rb'.1.grpcPath, rb.1.grpcPath] ∧
            ∃ segments verb, BindingMatches rb segments verb ∧
              Picks index table routes rb.2.httpMethod segments verb i) ∧
        (conflictAt table.entries j = none → ∀ segments verb, BindingMatches rb segments verb →
          Picks index table routes rb.2.httpMethod segments verb j) := by
  obtain ⟨routes, hcompile⟩ := exists_compile index hparse
  refine ⟨routes, hcompile, ?_⟩
  intro j rb hrb
  refine ⟨conflictAt_isSome_iff_picks hparse hindex hcompile hrb, ?_, ?_⟩
  · intro c hc
    exact ⟨RouteTable.mem_conflicts.mpr ⟨j, hc⟩,
      exists_picks_of_conflictAt hparse hindex hcompile hrb hc⟩
  · intro hnone segments verb hmatch
    exact picks_of_conflictAt_none hparse hindex hcompile hrb hnone hmatch

/-- A method that is bound to a `GET` path. -/
def getMethod (name path : String) : MethodHttp :=
  { service := "demo.Shelves"
    method := name
    grpcPath := "/demo.Shelves/" ++ name
    serverStreaming := false
    httpRule := some (.mk "" (some (.get path)) "" "" []) }

/-- Two methods on one path, behind a method whose variable takes that path too. -/
def shelvesTable : RouteTable :=
  RouteTable.fromMethods
    [getMethod "Any" "/v1/{x}", getMethod "First" "/v1/foo", getMethod "Second" "/v1/foo"] true

/-- An index that knows every method. -/
def anyMethod : MethodIndex := fun _ =>
  some { input := httpRuleDesc, output := httpRuleDesc, serverStreaming := false }

/-- The second binding of the table is reported, so an earlier one wins some of its requests. -/
theorem conflicts_agree_with_router_shelves :
    ∃ routes, compile anyMethod shelvesTable = .ok routes ∧
      ∃ rb segments verb, shelvesTable.bindings[1]? = some rb ∧ BindingMatches rb segments verb ∧
        ∃ i < 1, Picks anyMethod shelvesTable routes rb.2.httpMethod segments verb i := by
  have hparse : ∀ rb ∈ shelvesTable.bindings, ∃ t, PathTemplate.parse rb.2.httpPath = .ok t := by
    decide
  have hindex : ∀ rb ∈ shelvesTable.bindings, (anyMethod rb.1.grpcPath).isSome = true :=
    fun _ _ => rfl
  obtain ⟨routes, hcompile, hagree⟩ := conflicts_agree_with_router hparse hindex
  obtain ⟨segments, verb, hmatch, hpick⟩ := (hagree 1 _ rfl).1.mp (by decide)
  exact ⟨routes, hcompile, _, segments, verb, rfl, hmatch, hpick⟩

/-! ## Exact duplicates -/

/-- Two bindings at different positions with the same method and the same path, which parses. -/
def DuplicatePair (table : RouteTable) (i j : Nat) : Prop :=
  i < j ∧ ∃ rb rb', table.bindings[i]? = some rb ∧ table.bindings[j]? = some rb' ∧
    rb.2.httpMethod = rb'.2.httpMethod ∧ rb.2.httpPath = rb'.2.httpPath ∧
    ∃ t, PathTemplate.parse rb.2.httpPath = .ok t

/-- No binding before position `i` with the same method matches a request that the one at `i`
    matches. -/
def Unobstructed (table : RouteTable) (i : Nat) : Prop :=
  ∀ k < i, ∀ rb rb', table.bindings[k]? = some rb → table.bindings[i]? = some rb' →
    rb.2.httpMethod = rb'.2.httpMethod → ∀ segments verb,
      BindingMatches rb segments verb → ¬BindingMatches rb' segments verb

section Duplicates

variable {table : RouteTable}

/-- Two compiled bindings clash iff their bindings have one method and match a common request. -/
theorem clash_compile_iff {rb rb' : Route × RouteBinding} {e e' : CompiledBinding}
    (h : compileBinding rb = some e) (h' : compileBinding rb' = some e') :
    clash e e' = true ↔ rb.2.httpMethod = rb'.2.httpMethod ∧
      ∃ segments verb, BindingMatches rb segments verb ∧ BindingMatches rb' segments verb := by
  rw [clash_iff (CompiledBinding.wellFormed_of_compile h)
    (CompiledBinding.wellFormed_of_compile h')]
  constructor
  · rintro ⟨⟨m, segments, verb⟩, hx, hx'⟩
    obtain ⟨hm, hmatch⟩ := (takes_iff h m segments verb).mp hx
    obtain ⟨hm', hmatch'⟩ := (takes_iff h' m segments verb).mp hx'
    exact ⟨hm.trans hm'.symm, segments, verb, hmatch, hmatch'⟩
  · rintro ⟨hm, segments, verb, hmatch, hmatch'⟩
    exact ⟨(rb.2.httpMethod, segments, verb), (takes_iff h _ segments verb).mpr ⟨rfl, hmatch⟩,
      (takes_iff h' _ segments verb).mpr ⟨hm.symm, hmatch'⟩⟩

/-- The second of two equal bindings is reported against the first one iff that one is not
    obstructed. -/
theorem firstClash_rank_iff {i j : Nat} {rb rb' : Route × RouteBinding} {e e' : CompiledBinding}
    (hlt : i < j) (hrb : table.bindings[i]? = some rb) (hrb' : table.bindings[j]? = some rb')
    (he : compileBinding rb = some e) (he' : compileBinding rb' = some e')
    (hmethods : rb.2.httpMethod = rb'.2.httpMethod) (hpaths : rb.2.httpPath = rb'.2.httpPath) :
    firstClash clash table.entries (rank compileBinding table.bindings j) =
        some (rank compileBinding table.bindings i) ↔
      Unobstructed table i := by
  have hsame : ∀ segments verb,
      BindingMatches rb segments verb ↔ BindingMatches rb' segments verb := by
    intro segments verb
    unfold BindingMatches
    rw [hpaths]
  rw [RouteTable.entries, firstClash_eq_some_iff (getElem?_rank hrb' he')]
  constructor
  · rintro ⟨-, -, -, -, hmin⟩ k hk rbk rbi hrbk hrbi hm segments verb hmatch hmatchi
    rw [hrb] at hrbi
    cases hrbi
    -- a binding that obstructs the first one clashes with the second one, before the first one
    obtain ⟨t, ht⟩ := hmatch.exists_parse
    obtain ⟨ek, hek⟩ := exists_compileBinding ht
    have hnot := hmin _ (rank_lt hk hrbk hek) ek (getElem?_rank hrbk hek)
    rw [(clash_compile_iff hek he').mpr
      ⟨hm.trans hmethods, segments, verb, hmatch, (hsame segments verb).mp hmatchi⟩] at hnot
    cases hnot
  · intro hfree
    have hclash : clash e e' = true := by
      obtain ⟨hparse, hmethod, -, -⟩ := compileBinding_eq_some_iff.mp he
      obtain ⟨hparse', hmethod', -, -⟩ := compileBinding_eq_some_iff.mp he'
      have htemplates : e.template = e'.template := by
        rw [← hpaths, hparse] at hparse'
        exact Except.ok.inj hparse'
      simp [clash, hmethod, hmethod', hmethods, htemplates, templatesOverlap, overlap_self]
    refine ⟨rank_lt hlt hrb he, e, getElem?_rank hrb he, hclash, ?_⟩
    intro p hp s hs
    obtain ⟨k, rbk, hrbk, hek, rfl⟩ := exists_rank hs
    rw [← Bool.not_eq_true, clash_compile_iff hek he']
    rintro ⟨hm, segments, verb, hmatch, hmatch'⟩
    exact hfree k (lt_of_rank_lt hp) rbk rb hrbk hrb (hm.trans hmethods.symm) segments verb hmatch
      ((hsame segments verb).mpr hmatch')

/-- A `Duplicate` is reported iff the first of some two duplicates is not obstructed. -/
theorem exists_duplicate_iff :
    (∃ c ∈ table.conflicts, c.kind = .duplicate) ↔
      ∃ i j, DuplicatePair table i j ∧ Unobstructed table i := by
  constructor
  · rintro ⟨c, hc, hkind⟩
    obtain ⟨q, hq⟩ := RouteTable.mem_conflicts.mp hc
    obtain ⟨p, e, e', hfirst, he, he', rfl⟩ := conflictAt_eq_some_iff.mp hq
    obtain ⟨i, rb, hrb, hcompile, rfl⟩ := exists_rank he
    obtain ⟨j, rb', hrb', hcompile', rfl⟩ := exists_rank he'
    obtain ⟨hlt, r, hr, hclash, -⟩ := (firstClash_eq_some_iff he').mp hfirst
    rw [he] at hr
    cases hr
    -- a clash is about one method, and the report is a duplicate: the two paths agree
    have hmethods := ((clash_compile_iff hcompile hcompile').mp hclash).1
    obtain ⟨hparse, -, hpath, -⟩ := compileBinding_eq_some_iff.mp hcompile
    obtain ⟨-, -, hpath', -⟩ := compileBinding_eq_some_iff.mp hcompile'
    have heq : e.httpPath = e'.httpPath := by
      by_contra hne
      simp [conflict, hne] at hkind
    have hpaths : rb.2.httpPath = rb'.2.httpPath := by rw [← hpath, heq, hpath']
    have hij := lt_of_rank_lt hlt
    exact ⟨i, j, ⟨hij, rb, rb', hrb, hrb', hmethods, hpaths, _, hparse⟩,
      (firstClash_rank_iff hij hrb hrb' hcompile hcompile' hmethods hpaths).mp hfirst⟩
  · rintro ⟨i, j, ⟨hlt, rb, rb', hrb, hrb', hmethods, hpaths, t, ht⟩, hfree⟩
    obtain ⟨e, he⟩ := exists_compileBinding ht
    obtain ⟨e', he'⟩ : ∃ e', compileBinding rb' = some e' :=
      exists_compileBinding (by rw [← hpaths, ht])
    have hfirst := (firstClash_rank_iff hlt hrb hrb' he he' hmethods hpaths).mpr hfree
    obtain ⟨-, -, hpath, -⟩ := compileBinding_eq_some_iff.mp he
    obtain ⟨-, -, hpath', -⟩ := compileBinding_eq_some_iff.mp he'
    refine ⟨conflict e e', RouteTable.mem_conflicts.mpr
      ⟨rank compileBinding table.bindings j, ?_⟩, ?_⟩
    · exact conflictAt_eq_some_iff.mpr
        ⟨_, e, e', hfirst, getElem?_rank hrb he, getElem?_rank hrb' he', rfl⟩
    · simp [conflict, hpath, hpath', hpaths]

/-- A duplicate in the report fails every build of the table, strict or not. -/
theorem build_error_of_duplicate {codec : Codec} {b : GatewayBuilder}
    (htable : tableOfDescriptorSet codec b.descriptorSet b.options.unboundMethods = .ok table)
    (hdup : ∃ c ∈ table.conflicts, c.kind = .duplicate) : ∃ e, b.build codec = .error e := by
  cases hbuild : b.build codec with
  | error e => exact ⟨e, rfl⟩
  | ok g =>
    obtain ⟨-, pool, hpool, hconflicts, -⟩ := exists_build_iff.mp ⟨g, hbuild⟩
    unfold tableOfDescriptorSet at htable
    rw [hpool] at htable
    cases htable
    obtain ⟨c, hc, hkind⟩ := hdup
    have := hconflicts c hc
    simp [RouteConflict.isError, hkind] at this

/-- **When exact duplicates are rejected**: a `Duplicate` is reported, and every build of the table
    fails, iff the first of some two equal bindings is not obstructed by an earlier binding. -/
theorem duplicates_rejected_iff :
    ((∃ c ∈ table.conflicts, c.kind = .duplicate) ∧
        ∀ (codec : Codec) (b : GatewayBuilder),
          tableOfDescriptorSet codec b.descriptorSet b.options.unboundMethods = .ok table →
            ∃ e, b.build codec = .error e) ↔
      ∃ i j, DuplicatePair table i j ∧ Unobstructed table i := by
  rw [← exists_duplicate_iff]
  constructor
  · exact fun h => h.1
  · intro h
    exact ⟨h, fun codec b htable => build_error_of_duplicate htable h⟩

end Duplicates

/-- Behind a variable the second of two equal bindings is reported as shadowed only, and the
    duplicate goes unnoticed. -/
theorem not_duplicates_rejected : ¬∀ table : RouteTable, (∃ i j, DuplicatePair table i j) →
    (∃ c ∈ table.conflicts, c.kind = .duplicate) ∧
      ∀ (codec : Codec) (b : GatewayBuilder),
        tableOfDescriptorSet codec b.descriptorSet b.options.unboundMethods = .ok table →
          ∃ e, b.build codec = .error e := by
  intro h
  have hpair : DuplicatePair shelvesTable 1 2 := ⟨by decide, _, _, rfl, rfl, rfl, rfl, by decide⟩
  obtain ⟨c, hc, hkind⟩ := (h shelvesTable ⟨1, 2, hpair⟩).1
  have hshadowed : ∀ c ∈ shelvesTable.conflicts, c.kind = .shadowed := by decide
  rw [hshadowed c hc] at hkind
  cases hkind

end GrpcGw.Service
