import GrpcGw.Reflect.Message
import GrpcGw.Text.Strings

/-!
# HTTP Rules

`descriptor.rs`: reading the `google.api.http` annotation of every method off a descriptor pool.
An annotation is an extension field of the method's options and holds an `HttpRule` message.
-/

namespace GrpcGw.Rules

open GrpcGw.Text
open GrpcGw.Reflect

/-! ## Rules -/

/-- `HTTP_RULE_EXTENSION`. -/
def httpRuleExtension : String := "google.api.http"

/-- The HTTP method and path of a rule. -/
inductive HttpPattern where
  | get (path : String)
  | put (path : String)
  | post (path : String)
  | delete (path : String)
  | patch (path : String)
  /-- A custom verb. -/
  | custom (kind path : String)
  deriving DecidableEq, Repr

/-- `HttpPattern::path`. -/
def HttpPattern.path : HttpPattern → String
  | .get p | .put p | .post p | .delete p | .patch p | .custom _ p => p

/-- `HttpPattern::method`: custom verbs return their kind. -/
def HttpPattern.method : HttpPattern → String
  | .get _ => "GET"
  | .put _ => "PUT"
  | .post _ => "POST"
  | .delete _ => "DELETE"
  | .patch _ => "PATCH"
  | .custom kind _ => kind

/-- A decoded `google.api.http` rule. -/
inductive HttpRule where
  | mk (selector : String) (pattern : Option HttpPattern) (body responseBody : String)
    (additionalBindings : List HttpRule)

namespace HttpRule

/-- The selector of a rule. -/
def selector : HttpRule → String
  | .mk s _ _ _ _ => s

/-- The pattern of a rule; a malformed rule has none. -/
def pattern : HttpRule → Option HttpPattern
  | .mk _ p _ _ _ => p

/-- The `body` of a rule. -/
def body : HttpRule → String
  | .mk _ _ b _ _ => b

/-- The `response_body` of a rule. -/
def responseBody : HttpRule → String
  | .mk _ _ _ r _ => r

/-- The additional bindings of a rule. -/
def additionalBindings : HttpRule → List HttpRule
  | .mk _ _ _ _ l => l

end HttpRule

/-- One method's identity plus its decoded rule, if it carries one. -/
structure MethodHttp where
  service : String
  method : String
  /-- The gRPC wire path, `/pkg.Service/Method`. -/
  grpcPath : String
  serverStreaming : Bool
  httpRule : Option HttpRule

/-! ## Reading a rule message -/

section Read

variable (pool : DescriptorPool)

/-- `string_field`: a string field by name, defaulting to empty. -/
def stringField (msg : DynamicMessage) (name : String) : String :=
  match msg.getFieldByName pool name with
  | some (.string s) => s
  | _ => ""

/-- `pattern_field`: the pattern under the named string field, if it is set. -/
def patternField (msg : DynamicMessage) (name : String) (ctor : String → HttpPattern) :
    Option HttpPattern :=
  if msg.hasFieldByName pool name then
    match msg.getFieldByName pool name with
    | some (.string path) => some (ctor path)
    | _ => none
  else none

/-- `custom_pattern_field`: the `custom` pattern, if it is set. -/
def customPatternField (msg : DynamicMessage) : Option HttpPattern :=
  if msg.hasFieldByName pool "custom" then
    match msg.getFieldByName pool "custom" with
    | some (.message desc fields) =>
      let custom : DynamicMessage := { desc := desc, fields := fields }
      some (.custom (stringField pool custom "kind") (stringField pool custom "path"))
    | _ => none
  else none

/-- The pattern of a rule message: the first member of the `pattern` oneof that is set. -/
def patternOf (msg : DynamicMessage) : Option HttpPattern :=
  (patternField pool msg "get" .get).or <|
  (patternField pool msg "put" .put).or <|
  (patternField pool msg "post" .post).or <|
  (patternField pool msg "delete" .delete).or <|
  (patternField pool msg "patch" .patch).or <|
  customPatternField pool msg

mutual

/-- `http_rule_from_message`, on a value that may be no message. -/
def httpRuleFromMessage : Value → Option HttpRule
  | .message desc fields =>
    let msg : DynamicMessage := { desc := desc, fields := fields }
    let additional :=
      -- a nested value that is no message is dropped, not an error
      match pool.getFieldByName desc "additional_bindings" with
      | some field => if msg.hasField field then nestedRules (fields field.number) else []
      | none => []
    some (.mk (stringField pool msg "selector") (patternOf pool msg) (stringField pool msg "body")
      (stringField pool msg "response_body") additional)
  | _ => none

/-- The rules stored in the `additional_bindings` of a message. -/
def nestedRules : Option Value → List HttpRule
  | some (.list items) => rulesOf items
  | _ => []

/-- The rules among the items of a list. -/
def rulesOf : List Value → List HttpRule
  | [] => []
  | item :: items => (httpRuleFromMessage item).toList ++ rulesOf items

end

/-! ## Extraction -/

/-- `extract_rule`: the annotation of a method, if there is one. -/
def extractRule (options : DynamicMessage) (ext : ExtensionDescriptor) : Option HttpRule :=
  if options.hasField ext.field then httpRuleFromMessage pool (options.getField ext.field)
  else none

/-- The gRPC wire path of a method. -/
def grpcPath (service : ServiceDescriptor) (method : MethodDescriptor) : String :=
  "/" ++ service.fullName ++ "/" ++ method.name

/-- `extract_http_rules`: every method of the pool, in declaration order. -/
def extractHttpRules : List MethodHttp :=
  let httpExt := pool.getExtensionByName httpRuleExtension
  pool.services.flatMap fun service =>
    service.methods.map fun method =>
      { service := service.fullName
        method := method.name
        grpcPath := grpcPath service method
        serverStreaming := method.isServerStreaming
        httpRule := httpExt.bind (extractRule pool method.options) }

end Read

end GrpcGw.Rules
