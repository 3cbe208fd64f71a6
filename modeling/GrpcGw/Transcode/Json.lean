import GrpcGw.Fallible
import GrpcGw.Reflect.Message
import GrpcGw.Text.Number
import GrpcGw.Text.Strings

/-!
# JSON at the Edges

The JSON side of `transcode.rs`. Parsing and printing JSON, the canonical JSON mapping of
messages, the protobuf wire format and the decoding of descriptor sets belong to the libraries
the gateway is written with; a `Codec` is what they offer, with what the gateway relies on.
-/

namespace GrpcGw.Transcode

open GrpcGw.Text
open GrpcGw.Reflect

/-- A byte string. -/
abbrev Bytes := List UInt8

/-! ## Options and errors -/

/-- JSON marshaling options. -/
structure JsonOptions where
  emitDefaultFields : Bool := false
  useProtoFieldNames : Bool := false
  useEnumNumbers : Bool := false
  stringify64BitIntegers : Bool := true
  denyUnknownFields : Bool := true
  deriving DecidableEq, Repr

/-- A transcoding failure, with the text of the underlying JSON error. -/
inductive TranscodeError where
  /-- The request body was no JSON for the input message. -/
  | requestJson (e : String)
  /-- The output message could not be rendered. -/
  | responseJson (e : String)
  deriving DecidableEq, Repr

/-- `Display` of a transcoding failure. -/
def TranscodeError.toText : TranscodeError → String
  | .requestJson e => "invalid JSON request body: " ++ e
  | .responseJson e => "failed to encode JSON response: " ++ e

/-! ## JSON values -/

/-- A JSON number: an integer, or a finite float by its bit pattern. -/
inductive JsonNumber where
  | int (n : Int)
  | float (bits : UInt64)
  deriving DecidableEq, Repr

/-- A parsed JSON document. -/
inductive JsonValue where
  | null
  | bool (b : Bool)
  | number (n : JsonNumber)
  | string (s : String)
  | array (items : List JsonValue)
  | object (members : List (String × JsonValue))

/-! ## The libraries -/

/-- What the gateway calls in its libraries. A message that a library hands out is of the type
    that was asked for, and well-typed. -/
structure Codec where
  /-- `DescriptorPool::decode`. -/
  decodePool : Bytes → Except String DescriptorPool
  /-- `DynamicMessage::deserialize_with_options` and `Deserializer::end`; the flag is
      `deny_unknown_fields`. -/
  deserialize : DescriptorPool → MessageDescriptor → Bool → Bytes → Except String DynamicMessage
  /-- `DynamicMessage::serialize_with_options`. -/
  serialize : DescriptorPool → JsonOptions → DynamicMessage → Except String Bytes
  /-- `DynamicMessage::decode`. -/
  decodeMessage : DescriptorPool → MessageDescriptor → Bytes → Except String DynamicMessage
  /-- `DynamicMessage::encode_to_vec`. -/
  encodeMessage : DescriptorPool → DynamicMessage → Bytes
  /-- `serde_json::from_slice`. -/
  readJson : Bytes → Except String JsonValue
  /-- `serde_json::to_vec`. -/
  writeJson : JsonValue → Except String Bytes
  /-- A value under `{:?}`. -/
  debugValue : Value → String
  deserialize_typed : ∀ {pool desc deny body msg},
    deserialize pool desc deny body = .ok msg → msg.desc = desc ∧ WellTyped pool msg
  decodeMessage_typed : ∀ {pool desc body msg},
    decodeMessage pool desc body = .ok msg → msg.desc = desc ∧ WellTyped pool msg

/-- Libraries that know one descriptor set and the empty message, and fail on everything else. -/
def Codec.ofPool (pool : DescriptorPool) : Codec where
  decodePool _ := .ok pool
  deserialize _ _ _ _ := .error "unsupported"
  serialize _ _ _ := .error "unsupported"
  decodeMessage _ desc bytes := if bytes = [] then .ok (.new desc) else .error "unsupported"
  encodeMessage _ _ := []
  readJson _ := .error "unsupported"
  writeJson _ := .error "unsupported"
  debugValue _ := ""
  deserialize_typed h := nomatch h
  decodeMessage_typed h := by
    split at h
    · cases h
      exact ⟨rfl, wellTyped_new _⟩
    · cases h

/-! ## Whole messages -/

/-- `u8::is_ascii_whitespace`. -/
def isAsciiWhitespace (b : UInt8) : Bool :=
  b = 0x20 || b = 0x09 || b = 0x0A || b = 0x0C || b = 0x0D

section Codec

variable (codec : Codec) (pool : DescriptorPool)

/-- `decode_request_body`: a blank body is the empty message. -/
def decodeRequestBody (input : MessageDescriptor) (body : Bytes) (opts : JsonOptions) :
    Except TranscodeError DynamicMessage :=
  if body.all isAsciiWhitespace then .ok (.new input)
  else (codec.deserialize pool input opts.denyUnknownFields body).mapError .requestJson

/-- `encode_response_json`. -/
def encodeResponseJson (msg : DynamicMessage) (opts : JsonOptions) : Except TranscodeError Bytes :=
  (codec.serialize pool opts msg).mapError .responseJson

/-! ## Single fields -/

/-- A `body: "field"` selector fails on the JSON or on the field. -/
inductive Resolve where
  | transcode (e : TranscodeError)
  /-- The selected field does not exist. -/
  | field (message : String)
  deriving DecidableEq, Repr

/-- `decode_body_into_field`: the body is wrapped as the one member of an object, and the object
    is decoded as a whole message. -/
def decodeBodyIntoField (input : MessageDescriptor) (field : String) (body : Bytes)
    (opts : JsonOptions) : Except Resolve DynamicMessage :=
  if (pool.getFieldByName input field).isNone then
    .error (.field ("body field " ++ debugStr field ++ " not found"))
  else if body.all isAsciiWhitespace then .ok (.new input)
  else
    match codec.readJson body with
    | .error e => .error (.transcode (.requestJson e))
    | .ok value =>
      match codec.writeJson (.object [(field, value)]) with
      | .error e => .error (.transcode (.requestJson e))
      | .ok wrapper => (decodeRequestBody codec pool input wrapper opts).mapError .transcode

/-- The JSON of a float, given as a bit pattern; only finite ones are numbers. -/
def floatJson (fmt : FloatFormat) (toDouble : Nat → Nat) (bits : Nat) : JsonValue :=
  if fmt.isFinite bits then .number (.float (UInt64.ofNat (toDouble bits))) else .null

/-- The JSON of a scalar value under `response_body`; the other kinds have none. -/
def scalarJson (field : FieldDescriptor) (opts : JsonOptions) : Value → Option JsonValue
  | .bool b => some (.bool b)
  | .i32 n => some (.number (.int n.toInt))
  | .u32 n => some (.number (.int n.toNat))
  | .f32 bits => some (floatJson binary32 widen bits.toNat)
  | .f64 bits => some (floatJson binary64 id bits.toNat)
  | .i64 n =>
    if opts.stringify64BitIntegers then some (.string (toString n.toInt))
    else some (.number (.int n.toInt))
  | .u64 n =>
    if opts.stringify64BitIntegers then some (.string (toString n.toNat))
    else some (.number (.int n.toNat))
  | .string s => some (.string s)
  | .enumNumber n =>
    match opts.useEnumNumbers, field.kind with
    | false, .enum desc =>
      match desc.getValue n with
      | some name => some (.string name)
      | none => some (.number (.int n.toInt))
    | _, _ => some (.number (.int n.toInt))
  | .bytes _ | .message _ _ | .list _ | .map _ => none

/-- `encode_field_json`: a message field is encoded like a whole message. -/
def encodeFieldJson (field : FieldDescriptor) (value : Value) (opts : JsonOptions) :
    Except TranscodeError Bytes :=
  match value with
  | .message desc fields => encodeResponseJson codec pool { desc := desc, fields := fields } opts
  | value =>
    match scalarJson field opts value with
    | some json => (codec.writeJson json).mapError .responseJson
    | none =>
      .error (.responseJson
        ("response_body for this field kind is unsupported: " ++ codec.debugValue value))

end Codec

/-! ## What is decoded -/

section Decoded

variable {codec : Codec} {pool : DescriptorPool} {input : MessageDescriptor} {body : Bytes}
  {opts : JsonOptions} {msg : DynamicMessage}

theorem decodeRequestBody_typed (h : decodeRequestBody codec pool input body opts = .ok msg) :
    msg.desc = input ∧ WellTyped pool msg := by
  unfold decodeRequestBody at h
  split at h
  · cases h
    exact ⟨rfl, wellTyped_new input⟩
  · exact codec.deserialize_typed (mapError_eq_ok_iff.mp h)

theorem decodeBodyIntoField_typed {field : String}
    (h : decodeBodyIntoField codec pool input field body opts = .ok msg) :
    msg.desc = input ∧ WellTyped pool msg := by
  unfold decodeBodyIntoField at h
  split at h
  · cases h
  · split at h
    · cases h
      exact ⟨rfl, wellTyped_new input⟩
    · split at h
      · cases h
      · split at h
        · cases h
        · exact decodeRequestBody_typed (mapError_eq_ok_iff.mp h)

end Decoded

end GrpcGw.Transcode
