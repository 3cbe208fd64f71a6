import GrpcGw.Rules.Annotations
import GrpcGw.Service.Build

/-!
# The Offline Check

`run_check` (`bin/grpc-gw.rs`): the command collects every problem of a descriptor set, where the
build of a gateway ends with the first one.

- `checkProblems_eq_nil_iff`: what a check without problems has found.
- `runCheck_ok_iff`: the check passes iff the gateway builds and every rule has a pattern.
-/

namespace GrpcGw.Service

open GrpcGw.Text
open GrpcGw.Reflect
open GrpcGw.Template
open GrpcGw.Rules
open GrpcGw.Routes
open GrpcGw.Transcode

/-! ## The command -/

/-- The arguments that name a descriptor set, here by its bytes. -/
structure LoadArgs where
  descriptor : Bytes
  /-- Do not synthesize default bindings for methods without a rule. -/
  noUnboundMethods : Bool := false
  deriving DecidableEq, Repr

/-- The arguments of the command. -/
structure CheckArgs where
  load : LoadArgs
  /-- Treat a shadowed route as an error, not a warning. -/
  strictRoutes : Bool := false
  deriving DecidableEq, Repr

/-- `LoadArgs::load`. -/
def LoadArgs.load (codec : Codec) (args : LoadArgs) : Except String RouteTable :=
  (tableOfDescriptorSet codec args.descriptor !args.noUnboundMethods).mapError fun e =>
    (BuildError.descriptor e).toText

/-- A problem the command reports. -/
inductive Problem where
  /-- A method whose rule resolved to no binding. -/
  | noPattern (grpcPath : String)
  /-- A template that does not parse. -/
  | template (grpcPath : String) (e : TemplateError)
  | conflict (c : RouteConflict)
  deriving DecidableEq, Repr

/-- The text of a problem. -/
def Problem.toText : Problem → String
  | .noPattern grpcPath =>
    grpcPath ++ " has a google.api.http rule with no pattern (unreachable)"
  | .template grpcPath e => grpcPath ++ ": " ++ e.toText
  | .conflict c => "route conflict: " ++ c.toText

/-- The first loop: the methods without a binding. -/
def noPatternProblems (table : RouteTable) : List Problem :=
  (table.routes.filter (·.bindings.isEmpty)).map fun route => .noPattern route.grpcPath

/-- The body of the second loop: a template that does not parse. -/
def templateProblem (rb : Route × RouteBinding) : Option Problem :=
  match PathTemplate.parse rb.2.httpPath with
  | .error e => some (.template rb.1.grpcPath e)
  | .ok _ => none

/-- The second loop. -/
def templateProblems (table : RouteTable) : List Problem :=
  table.bindings.filterMap templateProblem

/-- The third loop: the conflicts that count as errors. -/
def conflictProblems (strictRoutes : Bool) (table : RouteTable) : List Problem :=
  (table.conflicts.filter (·.isError strictRoutes)).map .conflict

/-- The problems of a table. Without default bindings a method without a binding is none. -/
def checkProblems (args : CheckArgs) (table : RouteTable) : List Problem :=
  (if args.load.noUnboundMethods then [] else noPatternProblems table) ++
    templateProblems table ++ conflictProblems args.strictRoutes table

/-- The conflicts that are no errors. -/
def checkWarnings (args : CheckArgs) (table : RouteTable) : List String :=
  (table.conflicts.filter (!·.isError args.strictRoutes)).map fun c =>
    "route shadowing: " ++ c.toText

/-- How the command ends, given its problems. -/
def report (problems : List Problem) : Except String Unit :=
  if problems.isEmpty then .ok ()
  else
    .error (toString problems.length ++ " problem(s) found:\n  - " ++
      join "\n  - " (problems.map Problem.toText))

/-- `run_check`: the lines on standard error, and how the command ends. -/
def runCheck (codec : Codec) (args : CheckArgs) : List String × Except String Unit :=
  match args.load.load codec with
  | .error e => ([], .error e)
  | .ok table =>
    let problems := checkProblems args table
    let warnings := checkWarnings args table
    let lines := warnings.map ("warning: " ++ ·)
    let ok := "ok: " ++ toString table.routes.length ++ " method(s), " ++
      toString table.bindingCount ++ " binding(s), " ++ toString warnings.length ++ " warning(s)"
    (if problems.isEmpty then lines ++ [ok] else lines, report problems)

/-- The builder with the arguments of the command, as `run_serve` sets it up. -/
def CheckArgs.builder (args : CheckArgs) (json : JsonOptions) (backend : GrpcClient) :
    GatewayBuilder :=
  { descriptorSet := args.load.descriptor
    options :=
      { unboundMethods := !args.load.noUnboundMethods
        strictRoutes := args.strictRoutes
        json := json }
    backend := some backend }

/-! ## Problems -/

/-- A rule without a pattern, neither its own nor one of an additional binding. -/
def HasNoPattern (rule : HttpRule) : Prop :=
  rule.pattern = none ∧ ∀ r ∈ rule.additionalBindings, r.pattern = none

section Problems

variable {args : CheckArgs} {table : RouteTable} {methods : List MethodHttp} {p : Problem}

theorem report_eq_ok_iff {problems : List Problem} : report problems = .ok () ↔ problems = [] := by
  unfold report
  cases problems with
  | nil => simp
  | cons p ps => simp

theorem templateProblems_eq_nil_iff :
    templateProblems table = [] ↔
      ∀ rb ∈ table.bindings, ∃ t, PathTemplate.parse rb.2.httpPath = .ok t := by
  unfold templateProblems
  rw [List.filterMap_eq_nil_iff]
  apply forall₂_congr
  intro rb _
  unfold templateProblem
  cases PathTemplate.parse rb.2.httpPath with
  | ok t => simp
  | error e => simp

theorem conflictProblems_eq_nil_iff {strict : Bool} :
    conflictProblems strict table = [] ↔ ∀ c ∈ table.conflicts, c.isError strict = false := by
  simp [conflictProblems]

theorem lowerRule_eq_nil_iff {rule : HttpRule} : lowerRule rule = [] ↔ HasNoPattern rule := by
  simp [lowerRule, primaryBinding, HasNoPattern]

/-- With default bindings, a method without a binding has a rule without a pattern. -/
theorem mem_noPatternProblems_iff :
    p ∈ noPatternProblems (RouteTable.fromMethods methods true) ↔
      ∃ m ∈ methods, ∃ rule, m.httpRule = some rule ∧ HasNoPattern rule ∧
        p = .noPattern m.grpcPath := by
  simp only [noPatternProblems, RouteTable.fromMethods, List.mem_map, List.mem_filter]
  constructor
  · rintro ⟨route, ⟨⟨m, hm, rfl⟩, hempty⟩, rfl⟩
    refine ⟨m, hm, ?_⟩
    cases hrule : m.httpRule with
    -- a method without a rule has its default binding
    | none => simp [lowerMethod, hrule] at hempty
    | some rule =>
      have hnil : lowerRule rule = [] := by simpa [lowerMethod, hrule] using hempty
      exact ⟨rule, rfl, lowerRule_eq_nil_iff.mp hnil, rfl⟩
  · rintro ⟨m, hm, rule, hrule, hnone, rfl⟩
    refine ⟨_, ⟨⟨m, hm, rfl⟩, ?_⟩, rfl⟩
    simpa [lowerMethod, hrule] using lowerRule_eq_nil_iff.mpr hnone

/-- **A check without problems** has found a pattern in every rule, only templates that parse and
    no conflict that is an error. -/
theorem checkProblems_eq_nil_iff :
    checkProblems args (RouteTable.fromMethods methods !args.load.noUnboundMethods) = [] ↔
      (args.load.noUnboundMethods = false →
          ∀ m ∈ methods, ∀ rule, m.httpRule = some rule → ¬HasNoPattern rule) ∧
        (∀ rb ∈ (RouteTable.fromMethods methods !args.load.noUnboundMethods).bindings,
          ∃ t, PathTemplate.parse rb.2.httpPath = .ok t) ∧
        ∀ c ∈ (RouteTable.fromMethods methods !args.load.noUnboundMethods).conflicts,
          c.isError args.strictRoutes = false := by
  unfold checkProblems
  rw [List.append_eq_nil_iff, List.append_eq_nil_iff, templateProblems_eq_nil_iff,
    conflictProblems_eq_nil_iff, and_assoc]
  -- templates and conflicts are done; the first part depends on the option
  refine and_congr ?_ Iff.rfl
  cases args.load.noUnboundMethods with
  | true => simp
  | false =>
    simp only [Bool.false_eq_true, if_false, Bool.not_false, true_implies,
      List.eq_nil_iff_forall_not_mem, mem_noPatternProblems_iff]
    constructor
    · intro h m hm rule hrule hnone
      exact h _ ⟨m, hm, rule, hrule, hnone, rfl⟩
    · rintro h p ⟨m, hm, rule, hrule, hnone, -⟩
      exact h m hm rule hrule hnone

/-- Without other problems, every problem is a method whose rule has no pattern. -/
theorem eq_noPattern_of_mem_checkProblems
    (hparse : templateProblems
      (RouteTable.fromMethods methods !args.load.noUnboundMethods) = [])
    (hconflicts : conflictProblems args.strictRoutes
      (RouteTable.fromMethods methods !args.load.noUnboundMethods) = [])
    (h : p ∈ checkProblems args (RouteTable.fromMethods methods !args.load.noUnboundMethods)) :
    ∃ m ∈ methods, ∃ rule, m.httpRule = some rule ∧ HasNoPattern rule ∧
      p = .noPattern m.grpcPath := by
  unfold checkProblems at h
  rw [hparse, hconflicts, List.append_nil, List.append_nil] at h
  cases hunbound : args.load.noUnboundMethods with
  | true => simp [hunbound] at h
  | false =>
    rw [hunbound] at h
    exact mem_noPatternProblems_iff.mp h

end Problems

/-! ## The check and the build -/

section Gate

variable {codec : Codec} {args : CheckArgs} {json : JsonOptions} {backend : GrpcClient}

theorem load_eq_ok_iff {table : RouteTable} :
    args.load.load codec = .ok table ↔
      ∃ pool, codec.decodePool args.load.descriptor = .ok pool ∧
        table = RouteTable.fromMethods (extractHttpRules pool) !args.load.noUnboundMethods := by
  rw [LoadArgs.load, mapError_eq_ok_iff, tableOfDescriptorSet, map_eq_ok_iff]
  simp only [eq_comm]

theorem runCheck_snd {table : RouteTable} (h : args.load.load codec = .ok table) :
    (runCheck codec args).2 = report (checkProblems args table) := by
  unfold runCheck
  rw [h]

/-- **When the check passes**: the gateway builds, and with default bindings every rule has a
    pattern. -/
theorem runCheck_ok_iff :
    (runCheck codec args).2 = .ok () ↔
      ∃ g, (args.builder json backend).build codec = .ok g ∧
        (args.load.noUnboundMethods = false →
          ∀ m ∈ extractHttpRules g.pool, ∀ rule, m.httpRule = some rule → ¬HasNoPattern rule) := by
  constructor
  · intro h
    cases hload : args.load.load codec with
    | error e =>
      unfold runCheck at h
      rw [hload] at h
      cases h
    | ok table =>
      rw [runCheck_snd hload, report_eq_ok_iff] at h
      obtain ⟨pool, hpool, rfl⟩ := load_eq_ok_iff.mp hload
      obtain ⟨hpattern, hparse, hconflicts⟩ := checkProblems_eq_nil_iff.mp h
      -- the three empty lists are the conditions of the build
      obtain ⟨g, hg⟩ : ∃ g, (args.builder json backend).build codec = .ok g :=
        exists_build_iff.mpr ⟨⟨backend, rfl⟩, pool, hpool, hconflicts, hparse⟩
      refine ⟨g, hg, ?_⟩
      rwa [show g.pool = pool from Except.ok.inj ((checks_of_build hg).1.symm.trans hpool)]
  · rintro ⟨g, hg, hpattern⟩
    obtain ⟨hpool, hconflicts, hparse⟩ := checks_of_build hg
    rw [runCheck_snd (load_eq_ok_iff.mpr ⟨g.pool, hpool, rfl⟩), report_eq_ok_iff]
    exact checkProblems_eq_nil_iff.mpr ⟨hpattern, hparse, hconflicts⟩

/-- **The check gates the server**: if it passes, the gateway builds with any backend, and if the
    gateway builds, every problem of the check is a method whose rule has no pattern. -/
theorem check_gates_build (codec : Codec) (args : CheckArgs) (json : JsonOptions)
    (backend : GrpcClient) :
    ((runCheck codec args).2 = .ok () → ∃ g, (args.builder json backend).build codec = .ok g) ∧
      ∀ g, (args.builder json backend).build codec = .ok g →
        ∃ table, args.load.load codec = .ok table ∧
          (runCheck codec args).2 = report (checkProblems args table) ∧
          ∀ p ∈ checkProblems args table, ∃ m ∈ extractHttpRules g.pool, ∃ rule,
            m.httpRule = some rule ∧ HasNoPattern rule ∧ p = .noPattern m.grpcPath := by
  refine ⟨?_, ?_⟩
  · intro h
    obtain ⟨g, hg, -⟩ := runCheck_ok_iff.mp h
    exact ⟨g, hg⟩
  · intro g hg
    -- a build leaves neither template problems nor conflict problems
    obtain ⟨hpool, hconflicts, hparse⟩ := checks_of_build hg
    have hload := load_eq_ok_iff.mpr ⟨g.pool, hpool, rfl⟩
    refine ⟨_, hload, runCheck_snd hload, ?_⟩
    exact fun p => eq_noPattern_of_mem_checkProblems (templateProblems_eq_nil_iff.mpr hparse)
      (conflictProblems_eq_nil_iff.mpr hconflicts)

end Gate

/-- A service with a method whose rule has no pattern, next to one that is bound. -/
def gatesPool : DescriptorPool :=
  annotatedPool []
    [serviceOf "demo.Gates"
      [{ name := "Open"
         input := httpRuleDesc
         output := httpRuleDesc
         rule := some (.mk "" (some (.post "/v1/gates")) "*" "" []) },
        { name := "Close"
          input := httpRuleDesc
          output := httpRuleDesc
          rule := some (.mk "" none "" "" []) }]]

/-- Without default bindings the check passes and the gateway builds; with them, the check reports
    the method without a pattern, and that one only. -/
theorem check_gates_build_gates :
    (∃ g, (CheckArgs.builder ⟨⟨[], true⟩, true⟩ {} .down).build (.ofPool gatesPool) = .ok g) ∧
      ∀ p ∈ checkProblems ⟨⟨[], false⟩, true⟩
          (RouteTable.fromMethods (extractHttpRules gatesPool) true),
        ∃ m ∈ extractHttpRules gatesPool, ∃ rule, m.httpRule = some rule ∧ HasNoPattern rule ∧
          p = .noPattern m.grpcPath := by
  refine ⟨(check_gates_build (.ofPool gatesPool) ⟨⟨[], true⟩, true⟩ {} .down).1 rfl, ?_⟩
  obtain ⟨g, hg⟩ : ∃ g, (CheckArgs.builder ⟨⟨[], false⟩, true⟩ {} .down).build
      (.ofPool gatesPool) = .ok g :=
    exists_build_iff.mpr ⟨⟨_, rfl⟩, gatesPool, rfl, by decide, by decide⟩
  obtain ⟨table, htable, -, hproblems⟩ :=
    (check_gates_build (.ofPool gatesPool) ⟨⟨[], false⟩, true⟩ {} .down).2 g hg
  cases htable
  rwa [show g.pool = gatesPool from Except.ok.inj (checks_of_build hg).1.symm] at hproblems

end GrpcGw.Service
