import GrpcGw.Rules.Http

/-!
# Writing Annotations

The schema of `google.api.http` as descriptors, and rules written down in it, as the decoder of a
descriptor set leaves them: fields without presence are stored only if they are not empty. A method
that is annotated with a rule reads back as a method with that rule.

- `httpRuleFromMessage_toValue`: reading a rule undoes writing it.
- `extractRule_optionsOf`: so does reading the options of a method.
-/

namespace GrpcGw.Rules

open GrpcGw.Reflect

/-! ## The schema -/

/-- `google.api.HttpRule`. -/
def httpRuleDesc : MessageDescriptor := ⟨0⟩

/-- `google.api.CustomHttpPattern`. -/
def customPatternDesc : MessageDescriptor := ⟨1⟩

/-- `google.protobuf.MethodOptions`. -/
def methodOptionsDesc : MessageDescriptor := ⟨2⟩

/-- A string field without presence. -/
def plainString (number : Nat) (name : String) : FieldDescriptor :=
  .plain number name .string

/-- A member of the `pattern` oneof. -/
def patternMember (number : Nat) (name : String) (kind : Kind) : FieldDescriptor :=
  .member 0 number name kind

/-- The nested rules. -/
def additionalField : FieldDescriptor :=
  { number := 11
    name := "additional_bindings"
    kind := .message httpRuleDesc
    cardinality := .list
    supportsPresence := false }

/-- The message types the annotation is made of. -/
def annotationMessages : List MessageDef :=
  [{ fullName := "google.api.HttpRule"
     fields :=
      [plainString 1 "selector",
        patternMember 2 "get" .string,
        patternMember 3 "put" .string,
        patternMember 4 "post" .string,
        patternMember 5 "delete" .string,
        patternMember 6 "patch" .string,
        plainString 7 "body",
        patternMember 8 "custom" (.message customPatternDesc),
        additionalField,
        plainString 12 "response_body"] },
    { fullName := "google.api.CustomHttpPattern"
      fields := [plainString 1 "kind", plainString 2 "path"] },
    { fullName := "google.protobuf.MethodOptions", fields := [] }]

/-- The extension of `MethodOptions` that holds the rule. -/
def httpExtension : ExtensionDescriptor :=
  { fullName := httpRuleExtension
    field := .plain 72295728 "http" (.message httpRuleDesc) }

/-! ## Writing -/

/-- The fields of a message, from a list of their numbers and values. -/
def storedFields (fields : List (Nat × Value)) (n : Nat) : Option Value :=
  (fields.find? (·.1 = n)).map Prod.snd

/-- A string without presence: an empty one is not stored. -/
def storedString (number : Nat) (s : String) : List (Nat × Value) :=
  if s = "" then [] else [(number, .string s)]

/-- A list: an empty one is not stored. -/
def storedList (number : Nat) : List Value → List (Nat × Value)
  | [] => []
  | items => [(number, .list items)]

/-- The member of the `pattern` oneof that a pattern sets. Members have presence, so they are
    stored also when they are empty. -/
def HttpPattern.toField : HttpPattern → Nat × Value
  | .get path => (2, .string path)
  | .put path => (3, .string path)
  | .post path => (4, .string path)
  | .delete path => (5, .string path)
  | .patch path => (6, .string path)
  | .custom kind path =>
    (8, .message customPatternDesc (storedFields (storedString 1 kind ++ storedString 2 path)))

/-- The fields of a rule message. -/
def ruleFields (selector : String) (pattern : Option HttpPattern) (body responseBody : String)
    (additional : List Value) : List (Nat × Value) :=
  storedString 1 selector ++ (pattern.map HttpPattern.toField).toList ++ storedString 7 body ++
    storedList 11 additional ++ storedString 12 responseBody

mutual

/-- A rule as the message of an annotation. -/
def HttpRule.toValue : HttpRule → Value
  | .mk selector pattern body responseBody additional =>
    .message httpRuleDesc
      (storedFields (ruleFields selector pattern body responseBody (toValues additional)))

/-- Rules as the messages of a list. -/
def toValues : List HttpRule → List Value
  | [] => []
  | rule :: rules => rule.toValue :: toValues rules

end

/-- The options of a method with the given rule. -/
def optionsOf (rule : Option HttpRule) : DynamicMessage :=
  { desc := methodOptionsDesc
    fields := fun n => if n = httpExtension.field.number then rule.map HttpRule.toValue else none }

/-- A pool with the annotation schema in front of its own message types. -/
def annotatedPool (messages : List MessageDef) (services : List ServiceDescriptor) :
    DescriptorPool :=
  { messages := annotationMessages ++ messages
    services := services
    extensions := [httpExtension] }

/-- A method with a rule, as it is declared in a service. -/
structure AnnotatedMethod where
  name : String
  input : MessageDescriptor
  output : MessageDescriptor
  serverStreaming : Bool := false
  rule : Option HttpRule := none

/-- The descriptor of a declared method. -/
def AnnotatedMethod.toDescriptor (m : AnnotatedMethod) : MethodDescriptor :=
  { name := m.name
    input := m.input
    output := m.output
    isServerStreaming := m.serverStreaming
    options := optionsOf m.rule }

/-- A service with declared methods. -/
def serviceOf (fullName : String) (methods : List AnnotatedMethod) : ServiceDescriptor :=
  { fullName := fullName, methods := methods.map AnnotatedMethod.toDescriptor }

/-! ## Reading back -/

section Stored

theorem storedFields_append (l l' : List (Nat × Value)) (n : Nat) :
    storedFields (l ++ l') n = (storedFields l n).or (storedFields l' n) := by
  rw [storedFields, List.find?_append, Option.map_or]
  rfl

/-- A string is stored under its own number. -/
theorem storedFields_storedString (number : Nat) (s : String) (n : Nat) :
    storedFields (storedString number s) n =
      if number = n ∧ s ≠ "" then some (.string s) else none := by
  unfold storedString
  by_cases hs : s = ""
  · simp [hs, storedFields]
  · by_cases hn : number = n <;> simp [hs, hn, storedFields]

theorem storedFields_storedList (number : Nat) (items : List Value) (n : Nat) :
    storedFields (storedList number items) n =
      if number = n ∧ items ≠ [] then some (.list items) else none := by
  cases items with
  | nil => simp [storedList, storedFields]
  | cons item items => by_cases hn : number = n <;> simp [hn, storedList, storedFields]

variable {pool : DescriptorPool} {msg : DynamicMessage}

/-- A string that is not stored reads as the empty one. -/
theorem stringField_of_stored (number : Nat) {name s : String}
    (hfield : pool.getFieldByName msg.desc name = some (plainString number name))
    (hstored : msg.fields number = if s ≠ "" then some (.string s) else none) :
    stringField pool msg name = s := by
  have hget : msg.getField (plainString number name) = .string s := by
    rw [DynamicMessage.getField, show (plainString number name).number = number from rfl, hstored]
    split
    · rfl
    · next hs =>
      rw [Decidable.of_not_not hs]
      rfl
  rw [stringField, DynamicMessage.getFieldByName, hfield, Option.map_some, hget]

end Stored

section Read

variable (messages : List MessageDef) (services : List ServiceDescriptor)

/-- The pattern of a rule is read from the members of the oneof. -/
theorem patternOf_congr {fields fields' : Nat → Option Value}
    (h : ∀ n ∈ [2, 3, 4, 5, 6, 8], fields n = fields' n) :
    patternOf (annotatedPool messages services) { desc := httpRuleDesc, fields := fields } =
      patternOf (annotatedPool messages services) { desc := httpRuleDesc, fields := fields' } := by
  have hmembers : ∀ fields : Nat → Option Value,
      patternOf (annotatedPool messages services) { desc := httpRuleDesc, fields := fields } =
        patternOf (annotatedPool messages services)
          { desc := httpRuleDesc
            fields := fun n => if n ∈ [2, 3, 4, 5, 6, 8] then fields n else none } :=
    fun _ => rfl
  rw [hmembers fields, hmembers fields']
  congr 2
  funext n
  split
  · next hn => exact h n hn
  · rfl

/-- The parts of a written custom pattern. -/
theorem read_customFields (kind path : String) :
    let pool := annotatedPool messages services
    let msg : DynamicMessage :=
      { desc := customPatternDesc
        fields := storedFields (storedString 1 kind ++ storedString 2 path) }
    stringField pool msg "kind" = kind ∧ stringField pool msg "path" = path := by
  constructor
  · exact stringField_of_stored 1 rfl (by simp [storedFields_append, storedFields_storedString])
  · exact stringField_of_stored 2 rfl (by simp [storedFields_append, storedFields_storedString])

/-- A pattern reads back from the member that it sets. -/
theorem patternOf_toField (pattern : Option HttpPattern) :
    patternOf (annotatedPool messages services)
      { desc := httpRuleDesc
        fields := storedFields (pattern.map HttpPattern.toField).toList } = pattern := by
  cases pattern with
  | none => rfl
  | some pattern =>
    cases pattern with
    | custom kind path =>
      obtain ⟨hkind, hpath⟩ := read_customFields messages services kind path
      -- of the members only the custom pattern is set
      change some (HttpPattern.custom (stringField _ _ "kind") (stringField _ _ "path")) = _
      rw [hkind, hpath]
    | _ => rfl

/-- No pattern is stored under the numbers of the other fields. -/
theorem storedFields_toField (pattern : Option HttpPattern) {n : Nat} (hn : n ∈ [1, 7, 11, 12]) :
    storedFields (pattern.map HttpPattern.toField).toList n = none := by
  simp only [List.mem_cons, List.not_mem_nil, or_false] at hn
  cases pattern with
  | none => rfl
  | some pattern => rcases hn with rfl | rfl | rfl | rfl <;> cases pattern <;> rfl

/-- The parts of a written rule. -/
theorem read_ruleFields (selector body responseBody : String) (pattern : Option HttpPattern)
    (additional : List Value) :
    let pool := annotatedPool messages services
    let msg : DynamicMessage :=
      { desc := httpRuleDesc
        fields := storedFields (ruleFields selector pattern body responseBody additional) }
    stringField pool msg "selector" = selector ∧ stringField pool msg "body" = body ∧
      stringField pool msg "response_body" = responseBody ∧ patternOf pool msg = pattern ∧
      msg.fields 11 = if additional ≠ [] then some (.list additional) else none := by
  have hfields : ∀ n, storedFields (ruleFields selector pattern body responseBody additional) n =
      ((((if 1 = n ∧ selector ≠ "" then some (.string selector) else none).or
        (storedFields (pattern.map HttpPattern.toField).toList n)).or
        (if 7 = n ∧ body ≠ "" then some (.string body) else none)).or
        (if 11 = n ∧ additional ≠ [] then some (.list additional) else none)).or
        (if 12 = n ∧ responseBody ≠ "" then some (.string responseBody) else none) := by
    intro n
    simp only [ruleFields, storedFields_append, storedFields_storedString, storedFields_storedList]
  refine ⟨?_, ?_, ?_, ?_, ?_⟩
  · exact stringField_of_stored 1 rfl (by simp [hfields, storedFields_toField pattern])
  · exact stringField_of_stored 7 rfl (by simp [hfields, storedFields_toField pattern])
  · exact stringField_of_stored 12 rfl (by simp [hfields, storedFields_toField pattern])
  · refine (patternOf_congr messages services fun n hn => ?_).trans
      (patternOf_toField messages services pattern)
    rw [hfields]
    simp only [List.mem_cons, List.not_mem_nil, or_false] at hn
    rcases hn with rfl | rfl | rfl | rfl | rfl | rfl <;> simp
  · simp [hfields, storedFields_toField pattern]

mutual

/-- **Reading undoes writing.** -/
theorem httpRuleFromMessage_toValue : ∀ rule : HttpRule,
    httpRuleFromMessage (annotatedPool messages services) rule.toValue = some rule
  | .mk selector pattern body responseBody additional => by
    obtain ⟨hselector, hbody, hresponse, hpattern, hadditional⟩ :=
      read_ruleFields messages services selector body responseBody pattern
        (toValues additional)
    have hrules := rulesOf_toValues additional
    rw [HttpRule.toValue, httpRuleFromMessage]
    have hfield : (annotatedPool messages services).getFieldByName httpRuleDesc
        "additional_bindings" = some additionalField := rfl
    have hnumber : additionalField.number = 11 := rfl
    simp only at hadditional
    simp only [hselector, hbody, hresponse, hpattern, hfield, DynamicMessage.hasField, hnumber,
      hadditional]
    -- an empty list is not stored, and reads back as no rules
    cases additional with
    | nil => rfl
    | cons rule rules =>
      have hne : toValues (rule :: rules) ≠ [] := by simp [toValues]
      have hsticks : additionalField.sticks (.list (toValues (rule :: rules))) = true := by
        rw [toValues]
        rfl
      rw [if_pos hne, Option.any_some, hsticks, if_pos rfl, nestedRules, hrules]

theorem rulesOf_toValues : ∀ rules : List HttpRule,
    rulesOf (annotatedPool messages services) (toValues rules) = rules
  | [] => by rw [toValues, rulesOf]
  | rule :: rules => by
    rw [toValues, rulesOf, httpRuleFromMessage_toValue rule, rulesOf_toValues rules]
    rfl

end

theorem extractRule_optionsOf (rule : Option HttpRule) :
    extractRule (annotatedPool messages services) (optionsOf rule) httpExtension = rule := by
  cases rule with
  | none => rfl
  | some rule => exact httpRuleFromMessage_toValue messages services rule

end Read

end GrpcGw.Rules
