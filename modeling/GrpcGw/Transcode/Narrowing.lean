import GrpcGw.Text.Percent
import GrpcGw.Transcode.Json

/-!
# Narrowed Replies

`response_body` renders one field of a reply, and `encode_field_json` does so with an encoder of
its own. What the field looks like in the JSON of the whole reply is laid down by the canonical
JSON mapping, which the library follows.

- `JsonMapping`: the canonical JSON mapping; `JsonMapping.Follows`: a library that encodes by it.
- `scalarJson_canonical_iff`: the scalars whose narrowed JSON is canonical.
- `encodeFieldJson_agrees_iff`: when the two renderings of a field agree.
-/

namespace GrpcGw.Transcode

open GrpcGw.Text
open GrpcGw.Reflect

/-! ## Values up to digits -/

/-- A JSON value without the digits of a finite float. -/
def JsonValue.forgetDigits : JsonValue → JsonValue
  | .number (.float _) => .number (.float 0)
  | json => json

/-- The scalars of JSON. The integers are those of 64 bits. -/
def JsonValue.IsScalar : JsonValue → Prop
  | .number (.int n) => -2 ^ 63 ≤ n ∧ n < 2 ^ 64
  | .array _ | .object _ => False
  | _ => True

/-! ## The canonical mapping -/

/-- The message types with a JSON form of their own. -/
def ownForms : List String :=
  ["google.protobuf.Any", "google.protobuf.Timestamp", "google.protobuf.Duration",
    "google.protobuf.FieldMask", "google.protobuf.Struct", "google.protobuf.ListValue",
    "google.protobuf.Value", "google.protobuf.BoolValue", "google.protobuf.Int32Value",
    "google.protobuf.Int64Value", "google.protobuf.UInt32Value", "google.protobuf.UInt64Value",
    "google.protobuf.FloatValue", "google.protobuf.DoubleValue", "google.protobuf.StringValue",
    "google.protobuf.BytesValue"]

/-- Whether a message type has a JSON form of its own. Every other message is an object with its
    fields as members. -/
def hasOwnForm (pool : DescriptorPool) (desc : MessageDescriptor) : Bool :=
  ownForms.contains (pool.fullName desc)

/-- Whether the values of a field are the null of JSON. -/
def isNullValue (f : FieldDescriptor) : Bool :=
  match f.kind with
  | .enum desc => desc.fullName = "google.protobuf.NullValue"
  | _ => false

/-- Whether a value is a NaN or an infinity. -/
def isNonFinite : Value → Bool
  | .f32 bits => !binary32.isFinite bits.toNat
  | .f64 bits => !binary64.isFinite bits.toNat
  | _ => false

/-- The canonical JSON mapping, with what it leaves open. -/
structure JsonMapping where
  /-- The value of a JSON text. -/
  textValue : Bytes → Option JsonValue
  /-- `FieldDescriptor::json_name`. -/
  jsonName : MessageDescriptor → FieldDescriptor → String
  /-- What the digits of a finite float denote. -/
  digits : FloatFormat → Nat → UInt64
  message : JsonOptions → DynamicMessage → JsonValue
  /-- The JSON of bytes, lists and maps. -/
  compound : JsonOptions → FieldDescriptor → Value → JsonValue

namespace JsonMapping

variable (mapping : JsonMapping) (opts : JsonOptions)

/-- A float is a number or the name of what it is instead. -/
def float (fmt : FloatFormat) (bits : Nat) : JsonValue :=
  if fmt.isFinite bits then .number (.float (mapping.digits fmt bits))
  else if fmt.infinity < fmt.magnitude bits then .string "NaN"
  else if bits < fmt.signBit then .string "Infinity"
  else .string "-Infinity"

/-- The value of an enum is its name, or its number where it has none. -/
def enumValue (desc : EnumDescriptor) (n : Int32) : JsonValue :=
  if desc.fullName = "google.protobuf.NullValue" then .null
  else if opts.useEnumNumbers then .number (.int n.toInt)
  else
    match desc.getValue n with
    | some name => .string name
    | none => .number (.int n.toInt)

/-- The JSON of the value of a field. -/
def value (f : FieldDescriptor) : Value → JsonValue
  | .bool b => .bool b
  | .i32 n => .number (.int n.toInt)
  | .u32 n => .number (.int n.toNat)
  | .i64 n =>
    if opts.stringify64BitIntegers then .string (toString n.toInt) else .number (.int n.toInt)
  | .u64 n =>
    if opts.stringify64BitIntegers then .string (toString n.toNat) else .number (.int n.toNat)
  | .f32 bits => mapping.float binary32 bits.toNat
  | .f64 bits => mapping.float binary64 bits.toNat
  | .string s => .string s
  | .enumNumber n =>
    match f.kind with
    | .enum desc => enumValue opts desc n
    | _ => .number (.int n.toInt)
  | .message desc fields => mapping.message opts ⟨desc, fields⟩
  | v => mapping.compound opts f v

/-- The key of a field. -/
def key (desc : MessageDescriptor) (f : FieldDescriptor) : String :=
  if opts.useProtoFieldNames then f.name else mapping.jsonName desc f

/-- What the JSON text of a whole message has under the key of a field. -/
def fieldValue (pool : DescriptorPool) (desc : MessageDescriptor) (f : FieldDescriptor)
    (text : Bytes) : Option JsonValue :=
  match mapping.textValue text with
  | some (.object members) =>
    -- the members of a type with a JSON form of its own are not its fields
    if hasOwnForm pool desc then none else members.lookup (mapping.key opts desc f)
  | _ => none

/-- The libraries follow the mapping. -/
structure Follows (codec : Codec) (pool : DescriptorPool) : Prop where
  /-- A message is encoded as its JSON form. -/
  serialize_text {opts : JsonOptions} {msg : DynamicMessage} {text : Bytes} :
    codec.serialize pool opts msg = .ok text →
      mapping.textValue text = some (mapping.message opts msg)
  /-- An encoded message is an object with a member for every field that is set. -/
  serialize_object {opts : JsonOptions} {msg : DynamicMessage} {text : Bytes} :
    codec.serialize pool opts msg = .ok text → WellTyped pool msg →
      hasOwnForm pool msg.desc = false →
      ∃ members, mapping.message opts msg = .object members ∧
        ∀ f ∈ pool.fields msg.desc, msg.hasField f = true →
          members.lookup (mapping.key opts msg.desc f) =
            some (mapping.value opts f (msg.getField f))
  /-- The messages inside an encoded message can be encoded themselves. -/
  serialize_child {opts : JsonOptions} {msg : DynamicMessage} {text : Bytes} :
    codec.serialize pool opts msg = .ok text → hasOwnForm pool msg.desc = false →
      ∀ f ∈ pool.fields msg.desc, msg.hasField f = true →
        ∀ desc fields, msg.getField f = .message desc fields →
          ∃ text, codec.serialize pool opts ⟨desc, fields⟩ = .ok text
  /-- A scalar is printed as a text of its value. -/
  write_scalar {json : JsonValue} : json.IsScalar →
    ∃ text read, codec.writeJson json = .ok text ∧ mapping.textValue text = some read ∧
      read.forgetDigits = json.forgetDigits

end JsonMapping

/-! ## Scalars -/

section Scalars

variable {mapping : JsonMapping} {f : FieldDescriptor} {opts : JsonOptions} {v : Value}
  {json : JsonValue}

/-- Floats that are no numbers are narrowed to null. -/
theorem floatJson_canonical_iff (fmt : FloatFormat) (toDouble : Nat → Nat) (bits : Nat) :
    (floatJson fmt toDouble bits).forgetDigits = (mapping.float fmt bits).forgetDigits ↔
      fmt.isFinite bits = true := by
  unfold floatJson JsonMapping.float
  by_cases hfinite : fmt.isFinite bits = true
  · simp [hfinite, JsonValue.forgetDigits]
  · rw [if_neg hfinite, if_neg hfinite]
    constructor
    · intro h
      split at h
      · cases h
      · split at h <;> cases h
    · intro h
      exact absurd h hfinite

/-- The values of `google.protobuf.NullValue` are narrowed to their name or number. -/
theorem enumJson_canonical_iff {desc : EnumDescriptor} (hkind : f.kind = .enum desc) {n : Int32}
    (hjson : scalarJson f opts (.enumNumber n) = some json) :
    json.forgetDigits = (JsonMapping.enumValue opts desc n).forgetDigits ↔
      desc.fullName ≠ "google.protobuf.NullValue" := by
  have hnarrow : json = if opts.useEnumNumbers then .number (.int n.toInt)
      else match desc.getValue n with
        | some name => .string name
        | none => .number (.int n.toInt) := by
    simp only [scalarJson, hkind] at hjson
    cases hnumbers : opts.useEnumNumbers with
    | true => simpa [hnumbers] using hjson.symm
    | false =>
      rw [hnumbers] at hjson
      cases hname : desc.getValue n <;> simpa [hname] using hjson.symm
  unfold JsonMapping.enumValue
  by_cases hnull : desc.fullName = "google.protobuf.NullValue"
  · -- a name or a number is not null
    rw [if_pos hnull, hnarrow]
    refine iff_of_false ?_ (fun h => h hnull)
    cases opts.useEnumNumbers with
    | true => intro h; cases h
    | false => cases desc.getValue n <;> (intro h; cases h)
  · rw [if_neg hnull, hnarrow]
    exact iff_of_true rfl hnull

/-- Only the value of an enum field is a number of `google.protobuf.NullValue`. -/
theorem isNullValue_eq_false (hadmits : f.kind.admits v = true)
    (henum : ∀ n, v ≠ .enumNumber n) : isNullValue f = false := by
  unfold isNullValue
  cases hkind : f.kind with
  | enum desc =>
    rw [hkind] at hadmits
    cases v with
    | enumNumber n => exact absurd rfl (henum n)
    | _ => cases hadmits
  | _ => rfl

/-- **Scalars are canonical** except for the floats that are no numbers and the values of
    `google.protobuf.NullValue`. -/
theorem scalarJson_canonical_iff (hadmits : f.kind.admits v = true)
    (hjson : scalarJson f opts v = some json) :
    json.forgetDigits = (mapping.value opts f v).forgetDigits ↔
      isNonFinite v = false ∧ isNullValue f = false := by
  cases v with
  | enumNumber n =>
    cases hkind : f.kind with
    | enum desc =>
      simp only [JsonMapping.value, hkind, enumJson_canonical_iff hkind hjson, isNonFinite,
        isNullValue, true_and, decide_eq_false_iff_not, ne_eq]
    | _ =>
      rw [hkind] at hadmits
      cases hadmits
  | f32 _ | f64 _ =>
    cases hjson
    have hnull : isNullValue f = false := isNullValue_eq_false hadmits (by simp)
    simp [JsonMapping.value, floatJson_canonical_iff, isNonFinite, hnull]
  | bool _ | i32 _ | u32 _ | string _ =>
    cases hjson
    exact iff_of_true rfl ⟨rfl, isNullValue_eq_false hadmits (by simp)⟩
  | i64 n =>
    -- a string or a number, in both of them
    have hvalue : scalarJson f opts (.i64 n) = some (mapping.value opts f (.i64 n)) := by
      cases hopt : opts.stringify64BitIntegers <;> simp [scalarJson, JsonMapping.value, hopt]
    rw [hvalue] at hjson
    cases hjson
    exact iff_of_true rfl ⟨rfl, isNullValue_eq_false hadmits (by simp)⟩
  | u64 n =>
    have hvalue : scalarJson f opts (.u64 n) = some (mapping.value opts f (.u64 n)) := by
      cases hopt : opts.stringify64BitIntegers <;> simp [scalarJson, JsonMapping.value, hopt]
    rw [hvalue] at hjson
    cases hjson
    exact iff_of_true rfl ⟨rfl, isNullValue_eq_false hadmits (by simp)⟩
  | bytes _ | message _ _ | list _ | map _ => cases hjson

/-- What is narrowed is a scalar of JSON. -/
theorem scalarJson_isScalar (hjson : scalarJson f opts v = some json) : json.IsScalar := by
  have h32 : ∀ n : Int32, JsonValue.IsScalar (.number (.int n.toInt)) := fun n =>
    ⟨by have := n.le_toInt; omega, by have := n.toInt_lt; omega⟩
  -- integers of the value types stay within 64 bits
  cases v with
  | bool _ | string _ =>
    cases hjson
    trivial
  | i32 n =>
    cases hjson
    exact h32 n
  | u32 n =>
    cases hjson
    exact ⟨by omega, by have := n.toNat_lt; omega⟩
  | f32 _ | f64 _ =>
    cases hjson
    unfold floatJson
    split <;> trivial
  | i64 n =>
    simp only [scalarJson] at hjson
    split at hjson
    · cases hjson
      trivial
    · cases hjson
      exact ⟨by have := n.le_toInt; omega, by have := n.toInt_lt; omega⟩
  | u64 n =>
    simp only [scalarJson] at hjson
    split at hjson
    · cases hjson
      trivial
    · cases hjson
      exact ⟨by omega, by have := n.toNat_lt; omega⟩
  | enumNumber n =>
    simp only [scalarJson] at hjson
    split at hjson
    · split at hjson
      · cases hjson
        trivial
      · cases hjson
        exact h32 n
    · cases hjson
      exact h32 n
  | bytes _ | message _ _ | list _ | map _ => cases hjson

end Scalars

/-! ## The two renderings of a field -/

section Renderings

variable {mapping : JsonMapping} {codec : Codec} {pool : DescriptorPool} {msg : DynamicMessage}
  {f : FieldDescriptor} {opts : JsonOptions} {whole : Bytes}

/-- The narrowed JSON of a field has the value that the JSON of the whole message has under the
    key of the field, up to the digits of a finite float. -/
def NarrowingAgrees (mapping : JsonMapping) (codec : Codec) (pool : DescriptorPool)
    (msg : DynamicMessage) (f : FieldDescriptor) (opts : JsonOptions) (whole : Bytes) : Prop :=
  ∃ narrowed a b, encodeFieldJson codec pool f (msg.getField f) opts = .ok narrowed ∧
    mapping.textValue narrowed = some a ∧
    mapping.fieldValue opts pool msg.desc f whole = some b ∧
    a.forgetDigits = b.forgetDigits

theorem narrowingAgrees_iff {narrowed : Bytes} {a b : JsonValue}
    (hnarrowed : encodeFieldJson codec pool f (msg.getField f) opts = .ok narrowed)
    (ha : mapping.textValue narrowed = some a)
    (hb : mapping.fieldValue opts pool msg.desc f whole = some b) :
    NarrowingAgrees mapping codec pool msg f opts whole ↔ a.forgetDigits = b.forgetDigits := by
  constructor
  · rintro ⟨narrowed', a', b', hnarrowed', ha', hb', heq⟩
    rw [hnarrowed] at hnarrowed'
    cases hnarrowed'
    rw [ha] at ha'
    cases ha'
    rw [hb] at hb'
    cases hb'
    exact heq
  · intro heq
    exact ⟨narrowed, a, b, hnarrowed, ha, hb, heq⟩

/-- The whole message has the canonical JSON of a field under its key. -/
theorem fieldValue_of_serialize (hfollows : mapping.Follows codec pool) (hwt : WellTyped pool msg)
    (hown : hasOwnForm pool msg.desc = false) (hf : f ∈ pool.fields msg.desc)
    (hset : msg.hasField f = true) (hwhole : codec.serialize pool opts msg = .ok whole) :
    mapping.fieldValue opts pool msg.desc f whole =
      some (mapping.value opts f (msg.getField f)) := by
  obtain ⟨members, hobject, hmembers⟩ := hfollows.serialize_object hwhole hwt hown
  have htext := hfollows.serialize_text hwhole
  rw [hobject] at htext
  simp only [JsonMapping.fieldValue, htext, hown, Bool.false_eq_true, if_false]
  exact hmembers f hf hset

/-- A scalar is narrowed to a text of its JSON. -/
theorem encodeFieldJson_scalar (hfollows : mapping.Follows codec pool) {v : Value}
    {json : JsonValue} (hjson : scalarJson f opts v = some json) :
    ∃ narrowed a, encodeFieldJson codec pool f v opts = .ok narrowed ∧
      mapping.textValue narrowed = some a ∧ a.forgetDigits = json.forgetDigits := by
  obtain ⟨text, read, hwrite, htext, hread⟩ := hfollows.write_scalar (scalarJson_isScalar hjson)
  refine ⟨text, read, ?_, htext, hread⟩
  cases v with
  | message d fields => cases hjson
  | _ => simp only [encodeFieldJson, hjson, hwrite, Except.mapError]

/-- A message is narrowed to a text of its JSON form. -/
theorem encodeFieldJson_message (hfollows : mapping.Follows codec pool)
    (hown : hasOwnForm pool msg.desc = false) (hf : f ∈ pool.fields msg.desc)
    (hset : msg.hasField f = true) (hwhole : codec.serialize pool opts msg = .ok whole)
    {desc : MessageDescriptor} {fields : Nat → Option Value}
    (hvalue : msg.getField f = .message desc fields) :
    ∃ narrowed, encodeFieldJson codec pool f (msg.getField f) opts = .ok narrowed ∧
      mapping.textValue narrowed = some (mapping.value opts f (msg.getField f)) := by
  obtain ⟨text, hchild⟩ := hfollows.serialize_child hwhole hown f hf hset desc fields hvalue
  refine ⟨text, ?_, ?_⟩
  · simp only [hvalue, encodeFieldJson, encodeResponseJson, hchild, Except.mapError]
  · rw [hvalue, JsonMapping.value]
    exact hfollows.serialize_text hchild

/-- A scalar of any kind but `bytes` has a narrowed JSON. -/
theorem exists_scalarJson (opts : JsonOptions) {v : Value} (hadmits : f.kind.admits v = true)
    (hbytes : f.kind ≠ .bytes) (hmessage : ∀ desc fields, v ≠ .message desc fields) :
    ∃ json, scalarJson f opts v = some json := by
  -- lists and maps are values of no kind
  cases v with
  | message desc fields => exact absurd rfl (hmessage desc fields)
  | bytes b =>
    cases hkind : f.kind <;> simp [hkind, Kind.admits] at hadmits
    exact absurd hkind hbytes
  | list items => cases hkind : f.kind <;> simp [hkind, Kind.admits] at hadmits
  | map entries => cases hkind : f.kind <;> simp [hkind, Kind.admits] at hadmits
  | i64 n => cases hopt : opts.stringify64BitIntegers <;> simp [scalarJson, hopt]
  | u64 n => cases hopt : opts.stringify64BitIntegers <;> simp [scalarJson, hopt]
  | enumNumber n =>
    simp only [scalarJson]
    split
    · split <;> exact ⟨_, rfl⟩
    · exact ⟨_, rfl⟩
  | _ => exact ⟨_, rfl⟩

/-- **The two renderings of a field that is set agree** exactly if the message is rendered field
    by field and the value is neither a float that is no number nor of
    `google.protobuf.NullValue`. -/
theorem encodeFieldJson_agrees_iff (hfollows : mapping.Follows codec pool)
    (hwt : WellTyped pool msg) (hf : f ∈ pool.fields msg.desc)
    (hsingular : f.cardinality = .singular) (hbytes : f.kind ≠ .bytes)
    (hset : msg.hasField f = true) (hwhole : encodeResponseJson codec pool msg opts = .ok whole) :
    NarrowingAgrees mapping codec pool msg f opts whole ↔
      hasOwnForm pool msg.desc = false ∧ isNonFinite (msg.getField f) = false ∧
        isNullValue f = false := by
  have hserialize : codec.serialize pool opts msg = .ok whole := mapError_eq_ok_iff.mp hwhole
  have hadmits : f.kind.admits (msg.getField f) = true := by
    simpa [FieldDescriptor.admits, hsingular] using (hwt.getField hf).admits
  cases hown : hasOwnForm pool msg.desc with
  | true =>
    -- no member stands for the field
    constructor
    · rintro ⟨_, _, b, _, _, hb, _⟩
      unfold JsonMapping.fieldValue at hb
      split at hb
      · rw [if_pos hown] at hb
        cases hb
      · cases hb
    · rintro ⟨h, -⟩
      cases h
  | false =>
    have hfield := fieldValue_of_serialize hfollows hwt hown hf hset hserialize
    simp only [true_and]
    by_cases hmessage : ∃ desc fields, msg.getField f = .message desc fields
    · obtain ⟨desc, fields, hvalue⟩ := hmessage
      obtain ⟨narrowed, hnarrowed, ha⟩ :=
        encodeFieldJson_message hfollows hown hf hset hserialize hvalue
      refine iff_of_true ((narrowingAgrees_iff hnarrowed ha hfield).mpr rfl) ⟨?_, ?_⟩
      · rw [hvalue]
        rfl
      · exact isNullValue_eq_false hadmits (by simp [hvalue])
    · have hscalar : ∀ desc fields, msg.getField f ≠ .message desc fields :=
        fun desc fields h => hmessage ⟨desc, fields, h⟩
      obtain ⟨json, hjson⟩ := exists_scalarJson opts hadmits hbytes hscalar
      obtain ⟨narrowed, a, hnarrowed, ha, hread⟩ := encodeFieldJson_scalar hfollows hjson
      rw [narrowingAgrees_iff hnarrowed ha hfield, hread]
      exact scalarJson_canonical_iff hadmits hjson

end Renderings

/-! ## A reading -/

def titleField : FieldDescriptor :=
  .plain 1 "title" .string

def ratioField : FieldDescriptor :=
  .plain 2 "ratio" .double

/-- A message with the fields `title` and `ratio`. -/
def readingPool : DescriptorPool where
  messages := [{ fullName := "demo.Reading", fields := [titleField, ratioField] }]
  services := []
  extensions := []

/-- A message with a title and a ratio that is no number. -/
def reading : DynamicMessage where
  desc := ⟨0⟩
  fields
    | 1 => some (.string "a")
    | 2 => some (.f64 0x7FF8000000000000)
    | _ => none

/-- The JSON text of the message. -/
def readingText : String :=
  "\x7b\"title\":\"a\",\"ratio\":\"NaN\"\x7d"

/-- The message is the only one that is printed. -/
def printReading (msg : DynamicMessage) : Except String Bytes :=
  match msg.desc.index, msg.fields 1, msg.fields 2 with
  | 0, some (.string "a"), some (.f64 0x7FF8000000000000) => .ok (utf8 readingText)
  | _, _, _ => .error "unsupported"

/-- The text of a scalar. All floats have the same digits. -/
def printScalar : JsonValue → Except String Bytes
  | .null => .ok (utf8 "null")
  | .bool true => .ok (utf8 "true")
  | .bool false => .ok (utf8 "false")
  | .number (.int n) => .ok (utf8 (toString n))
  | .number (.float _) => .ok (utf8 "0.5")
  | .string s => .ok (utf8 ("\"" ++ s ++ "\""))
  | .array _ | .object _ => .error "unsupported"

/-- Libraries that print the message and the scalars of JSON. -/
def readingCodec : Codec :=
  { Codec.ofPool readingPool with
    serialize := fun _ _ msg => printReading msg
    writeJson := printScalar }

/-- The value of a text that is printed. -/
def readingValue (s : String) : JsonValue :=
  match s.toList with
  | '\x22' :: cs => .string (String.ofList cs.dropLast)
  | _ =>
    match parseSigned 65 s with
    | some n => .number (.int n)
    | none =>
      if s = "null" then .null
      else if s = "true" then .bool true
      else if s = "false" then .bool false
      else if s = "0.5" then .number (.float 0x3FE0000000000000)
      else .object [("title", .string "a"), ("ratio", .string "NaN")]

/-- The JSON of the message. -/
def readingMapping : JsonMapping where
  textValue bytes := (fromUtf8 bytes).map readingValue
  jsonName _ f := f.name
  digits _ _ := 0x3FE0000000000000
  message _ _ := .object [("title", .string "a"), ("ratio", .string "NaN")]
  compound _ _ _ := .null

theorem readingValue_int {n : Int} (hlo : -2 ^ 64 ≤ n) (hhi : n < 2 ^ 64) :
    readingValue (toString n) = .number (.int n) := by
  have hparse : parseSigned 65 (toString n) = some n := parseSigned_toString hlo hhi
  unfold readingValue
  split
  · next cs hcs =>
    -- a quote does not start a number
    unfold parseSigned at hparse
    rw [hcs] at hparse
    simp [parseDigits] at hparse
  · simp only [hparse]

theorem readingValue_string (s : String) : readingValue ("\"" ++ s ++ "\"") = .string s := by
  have hlist : ("\"" ++ s ++ "\"").toList = '\x22' :: (s.toList ++ ['\x22']) := by simp
  simp only [readingValue, hlist, List.dropLast_concat, String.ofList_toList]

theorem textValue_utf8 (s : String) :
    readingMapping.textValue (utf8 s) = some (readingValue s) := by
  simp [readingMapping, fromUtf8_utf8]

theorem printReading_eq_ok {msg : DynamicMessage} {text : Bytes} (h : printReading msg = .ok text) :
    readingPool.fields msg.desc = [titleField, ratioField] ∧
      msg.getField titleField = .string "a" ∧
      msg.getField ratioField = .f64 0x7FF8000000000000 ∧ text = utf8 readingText := by
  unfold printReading at h
  split at h
  · next hdesc htitle hratio =>
    cases h
    have hfields : readingPool.fields msg.desc = [titleField, ratioField] := by
      simp [DescriptorPool.fields, readingPool, hdesc]
    have hone : msg.fields titleField.number = some (.string "a") := htitle
    have htwo : msg.fields ratioField.number = some (.f64 0x7FF8000000000000) := hratio
    exact ⟨hfields, DynamicMessage.getField_of_stored hone, DynamicMessage.getField_of_stored htwo,
      rfl⟩
  · cases h

theorem readingMapping_key (opts : JsonOptions) (desc : MessageDescriptor) (f : FieldDescriptor) :
    readingMapping.key opts desc f = f.name :=
  ite_self _

theorem readingMapping_follows : readingMapping.Follows readingCodec readingPool where
  serialize_text h := by
    obtain ⟨-, -, -, rfl⟩ := printReading_eq_ok h
    rw [textValue_utf8]
    rfl
  serialize_object h _ _ := by
    obtain ⟨hfields, htitle, hratio, -⟩ := printReading_eq_ok h
    refine ⟨_, rfl, ?_⟩
    intro f hf _
    simp only [hfields, List.mem_cons, List.not_mem_nil, or_false] at hf
    rw [readingMapping_key]
    obtain rfl | rfl := hf
    · rw [htitle]
      rfl
    · rw [hratio]
      rfl
  serialize_child h _ f hf _ desc fields hvalue := by
    obtain ⟨hfields, htitle, hratio, -⟩ := printReading_eq_ok h
    simp only [hfields, List.mem_cons, List.not_mem_nil, or_false] at hf
    -- neither field is a message
    obtain rfl | rfl := hf
    · rw [htitle] at hvalue
      cases hvalue
    · rw [hratio] at hvalue
      cases hvalue
  write_scalar {json} h := by
    cases json with
    | null => exact ⟨_, _, rfl, textValue_utf8 _, rfl⟩
    | bool b => cases b <;> exact ⟨_, _, rfl, textValue_utf8 _, rfl⟩
    | string s => exact ⟨_, _, rfl, textValue_utf8 _, by rw [readingValue_string]⟩
    | number n =>
      cases n with
      | float bits => exact ⟨_, _, rfl, textValue_utf8 _, rfl⟩
      | int n =>
        have hvalue := readingValue_int (n := n) (by have := h.1; omega) h.2
        exact ⟨_, _, rfl, textValue_utf8 _, by rw [hvalue]⟩
    | array items => cases h
    | object members => cases h

theorem wellTyped_reading : WellTyped readingPool reading := by
  intro f hf v hv
  have hfields : readingPool.fields reading.desc = [titleField, ratioField] := rfl
  simp only [hfields, List.mem_cons, List.not_mem_nil, or_false] at hf
  obtain rfl | rfl := hf
  · cases hv
    exact validField_scalar rfl rfl rfl
  · cases hv
    exact validField_scalar rfl rfl rfl

theorem encodeFieldJson_agrees_title :
    NarrowingAgrees readingMapping readingCodec readingPool reading titleField {}
      (utf8 readingText) := by
  have hf : titleField ∈ readingPool.fields reading.desc := List.mem_cons_self
  refine (encodeFieldJson_agrees_iff readingMapping_follows wellTyped_reading hf rfl
    (by decide) rfl rfl).mpr ⟨?_, ?_, ?_⟩
  · decide
  · rfl
  · rfl

/-- The ratio is narrowed to null, and is the string `NaN` in the whole message. -/
theorem not_encodeFieldJson_agrees : ¬∀ (mapping : JsonMapping) (codec : Codec)
    (pool : DescriptorPool) (msg : DynamicMessage) (f : FieldDescriptor) (opts : JsonOptions)
    (whole : Bytes), mapping.Follows codec pool → WellTyped pool msg → f ∈ pool.fields msg.desc →
    f.cardinality = .singular → f.kind ≠ .bytes → msg.hasField f = true →
    encodeResponseJson codec pool msg opts = .ok whole →
    NarrowingAgrees mapping codec pool msg f opts whole := by
  intro h
  have hf : ratioField ∈ readingPool.fields reading.desc :=
    List.mem_cons_of_mem _ List.mem_cons_self
  obtain ⟨narrowed, a, b, hnarrowed, ha, hb, heq⟩ := h readingMapping readingCodec readingPool
    reading ratioField {} (utf8 readingText) readingMapping_follows wellTyped_reading hf rfl
    (by decide) rfl rfl
  -- narrowed, the NaN is null; in the whole message it is a string
  have hnull : encodeFieldJson readingCodec readingPool ratioField
      (reading.getField ratioField) {} = .ok (utf8 "null") := rfl
  rw [hnull] at hnarrowed
  cases hnarrowed
  rw [textValue_utf8] at ha
  cases ha
  have hnan : readingMapping.fieldValue {} readingPool reading.desc ratioField
      (utf8 readingText) = some (.string "NaN") := by
    rw [JsonMapping.fieldValue, textValue_utf8]
    rfl
  rw [hnan] at hb
  cases hb
  cases heq

end GrpcGw.Transcode
