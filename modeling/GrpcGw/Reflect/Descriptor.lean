import Mathlib.Data.List.Nodup

/-!
# Descriptors and Values

The part of a protobuf reflection library that the gateway is written against: kinds, dynamic
values, field and message descriptors, and the descriptor pool.

A message descriptor is a handle into the pool, so that message types may refer to each other. A
descriptor carries what a pool guarantees about it: the numbers of a message's fields are
distinct, only singular fields track presence, members of a oneof do, and so do singular
message fields.
-/

namespace GrpcGw.Reflect

/-! ## Kinds and values -/

/-- A message type: a handle into the descriptor pool. -/
structure MessageDescriptor where
  index : Nat
  deriving DecidableEq, Repr

/-- An enum type with its values, in declaration order. -/
structure EnumDescriptor where
  fullName : String
  values : List (String × Int32)
  deriving DecidableEq, Repr

/-- `EnumDescriptor::get_value_by_name`, as the number of the value. -/
def EnumDescriptor.getValueByName (e : EnumDescriptor) (name : String) : Option Int32 :=
  (e.values.find? (·.1 = name)).map Prod.snd

/-- `EnumDescriptor::get_value`, as the name of the value. -/
def EnumDescriptor.getValue (e : EnumDescriptor) (number : Int32) : Option String :=
  (e.values.find? (·.2 = number)).map Prod.fst

/-- The type of a single protobuf value. -/
inductive Kind where
  | double
  | float
  | int32
  | int64
  | uint32
  | uint64
  | sint32
  | sint64
  | fixed32
  | fixed64
  | sfixed32
  | sfixed64
  | bool
  | string
  | bytes
  | message (desc : MessageDescriptor)
  | enum (desc : EnumDescriptor)
  deriving DecidableEq, Repr

/-- Whether a kind is a message type. -/
def Kind.isMessage : Kind → Bool
  | .message _ => true
  | _ => false

/-- The key of a map entry. -/
inductive MapKey where
  | bool (b : Bool)
  | i32 (n : Int32)
  | i64 (n : Int64)
  | u32 (n : UInt32)
  | u64 (n : UInt64)
  | string (s : String)
  deriving DecidableEq, Repr

/-- A dynamically-typed value. Floats are their bit patterns. A message is its type and the
    values stored under its field numbers. -/
inductive Value where
  | bool (b : Bool)
  | i32 (n : Int32)
  | i64 (n : Int64)
  | u32 (n : UInt32)
  | u64 (n : UInt64)
  | f32 (bits : UInt32)
  | f64 (bits : UInt64)
  | string (s : String)
  | bytes (b : List UInt8)
  | enumNumber (n : Int32)
  | message (desc : MessageDescriptor) (fields : Nat → Option Value)
  | list (items : List Value)
  | map (entries : List (MapKey × Value))

/-- The value of an unset field of a kind. The default of an enum is its first value. -/
def Kind.defaultValue : Kind → Value
  | .double => .f64 0
  | .float => .f32 0
  | .int32 | .sint32 | .sfixed32 => .i32 0
  | .int64 | .sint64 | .sfixed64 => .i64 0
  | .uint32 | .fixed32 => .u32 0
  | .uint64 | .fixed64 => .u64 0
  | .bool => .bool false
  | .string => .string ""
  | .bytes => .bytes []
  | .message d => .message d (fun _ => none)
  | .enum e => .enumNumber ((e.values.head?.map Prod.snd).getD 0)

/-- Whether a value is of the variant that represents a kind. -/
def Kind.admits : Kind → Value → Bool
  | .double, .f64 _ => true
  | .float, .f32 _ => true
  | .int32, .i32 _ | .sint32, .i32 _ | .sfixed32, .i32 _ => true
  | .int64, .i64 _ | .sint64, .i64 _ | .sfixed64, .i64 _ => true
  | .uint32, .u32 _ | .fixed32, .u32 _ => true
  | .uint64, .u64 _ | .fixed64, .u64 _ => true
  | .bool, .bool _ => true
  | .string, .string _ => true
  | .bytes, .bytes _ => true
  | .message d, .message d' _ => d = d'
  | .enum _, .enumNumber _ => true
  | _, _ => false

@[simp] theorem Kind.admits_defaultValue (k : Kind) : k.admits k.defaultValue = true := by
  cases k <;> simp [Kind.admits, Kind.defaultValue]

/-- Whether a value equals the default of its field, for a field without presence. The two float
    zeros are equal. -/
def Value.isDefault (kind : Kind) : Value → Bool
  | .bool b => !b
  | .i32 n => n = 0
  | .i64 n => n = 0
  | .u32 n => n = 0
  | .u64 n => n = 0
  | .f32 bits => bits = 0 || bits = 0x80000000
  | .f64 bits => bits = 0 || bits = 0x8000000000000000
  | .string s => s = ""
  | .bytes b => b.isEmpty
  | .enumNumber n =>
    match kind.defaultValue with
    | .enumNumber m => n = m
    | _ => false
  | .message _ _ => false
  | .list items => items.isEmpty
  | .map entries => entries.isEmpty

/-! ## Fields and messages -/

/-- How many values a field holds. A map field also names the kinds of its entries. -/
inductive Cardinality where
  | singular
  | list
  | map (key value : Kind)
  deriving DecidableEq, Repr

/-- A field of a message type. -/
structure FieldDescriptor where
  number : Nat
  name : String
  kind : Kind
  cardinality : Cardinality := .singular
  /-- Whether the field distinguishes *unset* from *set to the default*. -/
  supportsPresence : Bool
  /-- The oneof the field is a member of, by its index in the message. -/
  containingOneof : Option Nat := none
  /-- An explicit default value. -/
  default? : Option Value := none
  presence_singular : supportsPresence = true → cardinality = .singular := by decide
  oneof_presence : containingOneof.isSome = true → supportsPresence = true := by decide
  message_presence : cardinality = .singular → kind.isMessage = true → supportsPresence = true := by
    decide
  default_admitted : ∀ v ∈ default?, kind.isMessage = false ∧ kind.admits v = true := by simp

namespace FieldDescriptor

variable (f : FieldDescriptor)

/-- `FieldDescriptor::is_list`. -/
def isList : Bool :=
  f.cardinality = .list

/-- `FieldDescriptor::is_map`. -/
def isMap : Bool :=
  match f.cardinality with
  | .map _ _ => true
  | _ => false

/-- The message type of a singular message field: what a field path may descend into. -/
def child? : Option MessageDescriptor :=
  match f.kind, f.cardinality with
  | .message d, .singular => some d
  | _, _ => none

/-- `FieldDescriptor::default_value`. -/
def defaultValue : Value :=
  match f.cardinality with
  | .singular => f.default?.getD f.kind.defaultValue
  | .list => .list []
  | .map _ _ => .map []

/-- Whether setting a value leaves the field set, as `has_field` sees it. -/
def sticks (v : Value) : Bool :=
  f.supportsPresence || !v.isDefault f.kind

variable {f}

theorem child?_eq_some_iff {d : MessageDescriptor} :
    f.child? = some d ↔ f.kind = .message d ∧ f.cardinality = .singular := by
  unfold child?
  split
  · next h₁ h₂ => simp [h₁, h₂]
  · next h =>
    simp only [reduceCtorEq, false_iff, not_and]
    intro hkind hcard
    exact h d hkind hcard

theorem defaultValue_of_child {d : MessageDescriptor} (h : f.child? = some d) :
    f.defaultValue = .message d (fun _ => none) := by
  obtain ⟨hkind, hcard⟩ := child?_eq_some_iff.mp h
  have hnone : f.default? = none := by
    cases hdef : f.default? with
    | none => rfl
    | some v =>
      have := (f.default_admitted v hdef).1
      rw [hkind] at this
      cases this
  simp [defaultValue, hcard, hnone, hkind, Kind.defaultValue]

/-- A singular field outside every oneof: a message field has presence, any other field has not. -/
def plain (number : Nat) (name : String) (kind : Kind) : FieldDescriptor where
  number := number
  name := name
  kind := kind
  supportsPresence := kind.isMessage
  containingOneof := none
  presence_singular _ := rfl
  oneof_presence h := absurd h Bool.false_ne_true
  message_presence _ h := h
  default_admitted := by simp

theorem presence_list : false = true → Cardinality.list = .singular :=
  fun h => absurd h Bool.false_ne_true

theorem presence_no_oneof : (none : Option Nat).isSome = true → false = true :=
  id

/-- A list field. -/
def repeated (number : Nat) (name : String) (kind : Kind) : FieldDescriptor where
  number := number
  name := name
  kind := kind
  cardinality := .list
  supportsPresence := false
  containingOneof := none
  presence_singular := presence_list
  oneof_presence := presence_no_oneof
  message_presence h := absurd h (by simp)
  default_admitted := by simp

/-- A member of a oneof. -/
def member (oneof number : Nat) (name : String) (kind : Kind) : FieldDescriptor where
  number := number
  name := name
  kind := kind
  supportsPresence := true
  containingOneof := some oneof
  presence_singular _ := rfl
  oneof_presence _ := rfl
  message_presence _ _ := rfl
  default_admitted := by simp

end FieldDescriptor

/-- The definition of a message type. -/
structure MessageDef where
  fullName : String
  fields : List FieldDescriptor
  numbers_nodup : (fields.map FieldDescriptor.number).Nodup := by decide

/-- A message value: its type and the values stored under its field numbers. -/
@[ext] structure DynamicMessage where
  desc : MessageDescriptor
  fields : Nat → Option Value

/-- `DynamicMessage::new`. -/
def DynamicMessage.new (desc : MessageDescriptor) : DynamicMessage :=
  { desc := desc, fields := fun _ => none }

/-! ## The pool -/

/-- A method of a service. -/
structure MethodDescriptor where
  name : String
  input : MessageDescriptor
  output : MessageDescriptor
  isServerStreaming : Bool
  /-- The `MethodOptions` message, with its extension fields. -/
  options : DynamicMessage

/-- A service. -/
structure ServiceDescriptor where
  fullName : String
  methods : List MethodDescriptor

/-- An extension: a field that is declared outside the message that carries it. -/
structure ExtensionDescriptor where
  fullName : String
  field : FieldDescriptor

/-- A set of resolved message types, services and extensions. -/
structure DescriptorPool where
  messages : List MessageDef
  services : List ServiceDescriptor
  extensions : List ExtensionDescriptor

namespace DescriptorPool

variable (pool : DescriptorPool)

/-- The fields of a message type. A handle outside the pool denotes the type without fields. -/
def fields (desc : MessageDescriptor) : List FieldDescriptor :=
  match pool.messages[desc.index]? with
  | some m => m.fields
  | none => []

/-- The full name of a message type. -/
def fullName (desc : MessageDescriptor) : String :=
  match pool.messages[desc.index]? with
  | some m => m.fullName
  | none => ""

/-- `MessageDescriptor::get_field_by_name`. -/
def getFieldByName (desc : MessageDescriptor) (name : String) : Option FieldDescriptor :=
  (pool.fields desc).find? (·.name = name)

/-- `DescriptorPool::get_extension_by_name`. -/
def getExtensionByName (name : String) : Option ExtensionDescriptor :=
  pool.extensions.find? (·.fullName = name)

variable {pool}

theorem mem_fields_of_getFieldByName {desc : MessageDescriptor} {name : String}
    {f : FieldDescriptor} (h : pool.getFieldByName desc name = some f) : f ∈ pool.fields desc :=
  List.mem_of_find?_eq_some h

theorem name_of_getFieldByName {desc : MessageDescriptor} {name : String}
    {f : FieldDescriptor} (h : pool.getFieldByName desc name = some f) : f.name = name := by
  simpa using List.find?_some h

/-- Field numbers identify the fields of a message type. -/
theorem eq_of_number_eq {desc : MessageDescriptor} {f g : FieldDescriptor}
    (hf : f ∈ pool.fields desc) (hg : g ∈ pool.fields desc) (h : f.number = g.number) : f = g := by
  unfold fields at hf hg
  split at hf
  · next m hm =>
    rw [hm] at hg
    exact List.inj_on_of_nodup_map m.numbers_nodup hf hg h
  · cases hf

end DescriptorPool

end GrpcGw.Reflect
