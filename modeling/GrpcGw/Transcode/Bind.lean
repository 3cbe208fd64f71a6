import GrpcGw.Reflect.Message
import GrpcGw.Text.Number
import GrpcGw.Text.Strings

/-!
# Binding Strings into Message Fields

`bind_field_path` and `coerce_scalar` (`transcode.rs`): a string from a path variable or a query
parameter is coerced to the type of the field that a dotted path leads to, and written there.

A call mutates the message it is given and may fail halfway down, so every binding function
returns the message together with the outcome.
-/

namespace GrpcGw.Transcode

open GrpcGw.Text
open GrpcGw.Reflect

/-! ## Errors and modes -/

/-- A failure binding a string value into a message field. -/
inductive BindError where
  /-- The field path named a field that does not exist on the message. -/
  | unknownField (path field : String)
  /-- A non-leaf path component is not a message. -/
  | notAMessage (path field : String)
  /-- The value could not be coerced to the leaf field's type. -/
  | invalidValue (path kind value : String)
  /-- The leaf field's type is not supported for binding. -/
  | unsupportedField (path kind : String)
  deriving DecidableEq, Repr

/-- `Display` of a binding error. -/
def BindError.toText : BindError → String
  | .unknownField path field =>
    "unknown field " ++ debugStr field ++ " in field path " ++ debugStr path
  | .notAMessage path field =>
    "field " ++ debugStr field ++ " in path " ++ debugStr path ++ " is not a message"
  | .invalidValue path kind value =>
    "cannot bind " ++ debugStr value ++ " to " ++ kind ++ " field " ++ debugStr path
  | .unsupportedField path kind =>
    "binding into " ++ kind ++ " field " ++ debugStr path ++ " is unsupported"

/-- Whether an error is `UnknownField`. -/
def BindError.isUnknownField : BindError → Bool
  | .unknownField _ _ => true
  | _ => false

/-- How a binding interacts with a field that is already set. -/
inductive BindMode where
  /-- Always set the value. -/
  | overwrite
  /-- Only set the value if the field is currently unset. -/
  | fillIfUnset
  deriving DecidableEq, Repr

/-- How a call ends. An empty field path panics. -/
inductive BindOutcome where
  | ok
  | error (e : BindError)
  | panic
  deriving DecidableEq, Repr

/-! ## Coercion -/

/-- `{kind:?}` in lower case: the name of a scalar type or of an enum. Message types are turned
    away before a value of theirs can be invalid. -/
def kindText : Kind → String
  | .double => "double"
  | .float => "float"
  | .int32 => "int32"
  | .int64 => "int64"
  | .uint32 => "uint32"
  | .uint64 => "uint64"
  | .sint32 => "sint32"
  | .sint64 => "sint64"
  | .fixed32 => "fixed32"
  | .fixed64 => "fixed64"
  | .sfixed32 => "sfixed32"
  | .sfixed64 => "sfixed64"
  | .bool => "bool"
  | .string => "string"
  | .bytes => "bytes"
  | .message _ => "message"
  | .enum e => toAsciiLowercase e.fullName

/-- The spellings of a boolean. -/
def parseBool (value : String) : Option Bool :=
  if value ∈ ["true", "1", "t", "T", "TRUE", "True"] then some true
  else if value ∈ ["false", "0", "f", "F", "FALSE", "False"] then some false
  else none

/-- An enum value by number or by name. -/
def parseEnum (desc : EnumDescriptor) (value : String) : Option Int32 :=
  match parseSigned 32 value with
  | some n => some (Int32.ofInt n)
  | none => desc.getValueByName value

/-- The value a string stands for at a scalar kind, if there is one. -/
def parseScalar (kind : Kind) (value : String) : Option Value :=
  match kind with
  | .bool => (parseBool value).map .bool
  | .int32 | .sint32 | .sfixed32 => (parseSigned 32 value).map fun n => .i32 (Int32.ofInt n)
  | .int64 | .sint64 | .sfixed64 => (parseSigned 64 value).map fun n => .i64 (Int64.ofInt n)
  | .uint32 | .fixed32 => (parseUnsigned 32 value).map fun n => .u32 (UInt32.ofNat n)
  | .uint64 | .fixed64 => (parseUnsigned 64 value).map fun n => .u64 (UInt64.ofNat n)
  | .float => (binary32.parse value).map fun n => .f32 (UInt32.ofNat n)
  | .double => (binary64.parse value).map fun n => .f64 (UInt64.ofNat n)
  | .string => some (.string value)
  | .enum desc => (parseEnum desc value).map .enumNumber
  | .bytes | .message _ => none

/-- `coerce_scalar`: coerce a string to a scalar value of the given kind. -/
def coerceScalar (kind : Kind) (value path : String) : Except BindError Value :=
  match kind with
  | .bytes => .error (.unsupportedField path "bytes")
  | .message _ => .error (.unsupportedField path "message")
  | kind =>
    match parseScalar kind value with
    | some v => .ok v
    | none => .error (.invalidValue path (kindText kind) value)

/-- A coerced value is of the variant that represents its kind. -/
theorem admits_of_coerceScalar {kind : Kind} {value path : String} {v : Value}
    (h : coerceScalar kind value path = .ok v) :
    kind.isMessage = false ∧ kind.admits v = true := by
  have hparse : parseScalar kind value = some v ∧ kind.isMessage = false := by
    unfold coerceScalar at h
    split at h
    · cases h
    · cases h
    · next hbytes hmessage =>
      split at h
      · next w hw =>
        cases h
        refine ⟨hw, ?_⟩
        cases kind <;> simp [Kind.isMessage]
        next d => exact hmessage d rfl
      · cases h
  obtain ⟨hparse, hkind⟩ := hparse
  refine ⟨hkind, ?_⟩
  -- every scalar kind is parsed to its own variant
  cases kind <;> simp only [parseScalar, Option.map_eq_some_iff, reduceCtorEq, Option.some.injEq]
    at hparse
  case string =>
    subst hparse
    rfl
  all_goals
    obtain ⟨n, -, rfl⟩ := hparse
    rfl

/-! ## Binding -/

section Bind

variable (pool : DescriptorPool) (mode : BindMode) (fullPath : List String) (value : String)

/-- `bind_leaf`: a list field is appended to, a singular field is set as the mode says. -/
def bindLeaf (msg : DynamicMessage) (field : FieldDescriptor) : DynamicMessage × BindOutcome :=
  let path := join "." fullPath
  if field.isMap then (msg, .error (.unsupportedField path "map"))
  else
    match coerceScalar field.kind value path with
    | .error e => (msg, .error e)
    | .ok coerced =>
      if field.isList then
        -- the mode is not asked: every value of a list field is appended
        let msg := msg.materialize pool field
        match msg.fields field.number with
        | some (.list items) => (msg.store field (.list (items ++ [coerced])), .ok)
        | _ => (msg.store field (.list [coerced]), .ok)
      else if mode = .fillIfUnset ∧ msg.hasField field then (msg, .ok)
      else (msg.setField pool field coerced, .ok)

/-- `bind_inner`: descend along the remaining components, creating unset messages on the way. -/
def bindInner : (remaining : List String) → DynamicMessage → DynamicMessage × BindOutcome
  -- `split_first().expect(..)` in the source
  | [], msg => (msg, .panic)
  | head :: rest, msg =>
    match pool.getFieldByName msg.desc head with
    | none => (msg, .error (.unknownField (join "." fullPath) head))
    | some field =>
      match rest with
      | [] => bindLeaf pool mode fullPath value msg field
      | _ :: _ =>
        if !field.kind.isMessage || field.isList || field.isMap then
          (msg, .error (.notAMessage (join "." fullPath) head))
        else
          -- the field is materialized before the rest of the path is looked up
          let msg := msg.materialize pool field
          match msg.fields field.number with
          | some (.message desc fields) =>
            let (child, outcome) := bindInner rest { desc := desc, fields := fields }
            (msg.store field (.message child.desc child.fields), outcome)
          | _ => (msg, .error (.notAMessage (join "." fullPath) head))

end Bind

/-- `bind_field_path`: bind one string into a message at a field path. -/
def bindFieldPath (pool : DescriptorPool) (msg : DynamicMessage) (fieldPath : List String)
    (value : String) (mode : BindMode) : DynamicMessage × BindOutcome :=
  bindInner pool mode fieldPath value fieldPath msg

end GrpcGw.Transcode
