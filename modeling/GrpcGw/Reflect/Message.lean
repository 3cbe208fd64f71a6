import Mathlib.Logic.Function.Basic
import GrpcGw.Reflect.Laws

/-!
# Dynamic Messages

The messages of a descriptor pool. They obey the laws of reflection, which give what is said here of
reading back what was written, of the frame of a write, and of the other members of a oneof.

- `DynamicMessage.laws`: the operations obey the laws of reflection.
- `ValidValue`, `WellTyped`: every stored value is valid for its field.
-/

namespace GrpcGw.Reflect

namespace DynamicMessage

variable (pool : DescriptorPool) (msg : DynamicMessage) (f : FieldDescriptor)

/-- Whether a number belongs to another member of the field's oneof. -/
def isSibling (n : Nat) : Bool :=
  (pool.fields msg.desc).any fun g => g.number = n && f.sameOneof g && g.number ≠ f.number

/-! ## Operations -/

/-- `DynamicMessage::has_field`: a stored value counts unless the field has no presence and the
    value is its default. -/
def hasField : Bool :=
  (msg.fields f.number).any f.sticks

/-- `DynamicMessage::get_field`: the stored value, or the default. -/
def getField : Value :=
  (msg.fields f.number).getD f.defaultValue

/-- Clear the other members of the field's oneof. -/
def clearOneof : DynamicMessage :=
  { msg with fields := fun n => if msg.isSibling pool f n then none else msg.fields n }

/-- Write a value into a field and nothing else: a write through the reference that
    `get_field_mut` hands out. -/
def store (v : Value) : DynamicMessage :=
  { msg with fields := Function.update msg.fields f.number (some v) }

/-- `DynamicMessage::set_field`. -/
def setField (v : Value) : DynamicMessage :=
  (msg.clearOneof pool f).store f v

/-- `DynamicMessage::get_field_mut`, as far as it changes the message: an unset field is set to
    its default, and the other members of its oneof are cleared. -/
def materialize : DynamicMessage :=
  (msg.clearOneof pool f).store f (msg.getField f)

/-- `DynamicMessage::has_field_by_name`. -/
def hasFieldByName (name : String) : Bool :=
  (pool.getFieldByName msg.desc name).any msg.hasField

/-- `DynamicMessage::get_field_by_name`. -/
def getFieldByName (name : String) : Option Value :=
  (pool.getFieldByName msg.desc name).map msg.getField

/-! ## Laws -/

@[simp] theorem store_desc (v : Value) : (msg.store f v).desc = msg.desc := rfl

@[simp] theorem setField_desc (v : Value) : (msg.setField pool f v).desc = msg.desc := rfl

@[simp] theorem materialize_desc : (msg.materialize pool f).desc = msg.desc := rfl

@[simp] theorem new_desc (d : MessageDescriptor) : (DynamicMessage.new d).desc = d := rfl

@[simp] theorem new_fields (d : MessageDescriptor) (n : Nat) :
    (DynamicMessage.new d).fields n = none := rfl

/-- The messages of a pool, with their operations. -/
def reflection : Reflection DynamicMessage where
  fields := pool.fields
  fieldByName := pool.getFieldByName
  new := .new
  desc := DynamicMessage.desc
  stored := DynamicMessage.fields
  has := hasField
  get := getField
  set := setField pool
  materialize := materialize pool
  store := store

/-- What setting a field stores under every number. -/
theorem setField_apply (v : Value) (n : Nat) :
    (msg.setField pool f v).fields n =
      if n = f.number then some v else if msg.isSibling pool f n then none else msg.fields n := by
  by_cases hn : n = f.number
  · simp [setField, store, hn]
  · simp [setField, store, hn, clearOneof]

/-- **The messages of a pool obey the laws of reflection.** -/
theorem laws : (reflection pool).Laws where
  ext hdesc hstored := DynamicMessage.ext hdesc (funext hstored)
  eq_of_number_eq := pool.eq_of_number_eq
  mem_of_fieldByName := DescriptorPool.mem_fields_of_getFieldByName
  name_of_fieldByName := DescriptorPool.name_of_getFieldByName
  desc_new _ := rfl
  stored_new _ _ := rfl
  has_eq _ _ := rfl
  get_eq _ _ := rfl
  desc_set _ _ _ := rfl
  stored_set msg f v n := setField_apply pool msg f v n
  materialize_eq _ _ := rfl
  store_set msg f v w := by
    change (msg.setField pool f v).store f w = msg.setField pool f w
    simp [setField, store]

variable {msg f pool} {g : FieldDescriptor}

theorem getField_of_stored {v : Value} (h : msg.fields f.number = some v) : msg.getField f = v := by
  rw [getField, h, Option.getD_some]

theorem getField_of_unset (h : msg.fields f.number = none) : msg.getField f = f.defaultValue := by
  rw [getField, h, Option.getD_none]

theorem hasField_of_unset (h : msg.fields f.number = none) : msg.hasField f = false := by
  rw [hasField, h, Option.any_none]

/-- What a field reads as depends on what is stored under its number. -/
theorem getField_congr {msg' : DynamicMessage} (h : msg'.fields f.number = msg.fields f.number) :
    msg'.getField f = msg.getField f := by
  rw [getField, h, getField]

theorem hasField_congr {msg' : DynamicMessage} (h : msg'.fields f.number = msg.fields f.number) :
    msg'.hasField f = msg.hasField f := by
  rw [hasField, h, hasField]

@[simp] theorem getField_new (d : MessageDescriptor) :
    (DynamicMessage.new d).getField f = f.defaultValue :=
  rfl

@[simp] theorem hasField_new (d : MessageDescriptor) :
    (DynamicMessage.new d).hasField f = false :=
  rfl

theorem setField_fields (hg : g ∈ pool.fields msg.desc) (v : Value) :
    (msg.setField pool f v).fields g.number =
      if g.number = f.number then some v
      else if f.sameOneof g then none
      else msg.fields g.number :=
  (laws pool).stored_set_of_mem hg v

theorem setField_fields_apart (hg : g ∈ pool.fields msg.desc) (hne : g.number ≠ f.number)
    (hone : f.sameOneof g = false) (v : Value) :
    (msg.setField pool f v).fields g.number = msg.fields g.number :=
  (laws pool).stored_set_apart hg hne hone v

@[simp] theorem setField_fields_self (v : Value) :
    (msg.setField pool f v).fields f.number = some v :=
  (laws pool).stored_set_self v

@[simp] theorem getField_setField (v : Value) : (msg.setField pool f v).getField f = v :=
  (laws pool).get_set v

@[simp] theorem hasField_setField (v : Value) :
    (msg.setField pool f v).hasField f = f.sticks v :=
  (laws pool).has_set v

theorem getField_setField_of_ne (hg : g ∈ pool.fields msg.desc) (hne : g.number ≠ f.number)
    (v : Value) :
    (msg.setField pool f v).getField g =
      if f.sameOneof g then g.defaultValue else msg.getField g :=
  (laws pool).get_set_of_ne hg hne v

theorem setField_setField (v w : Value) :
    (msg.setField pool f v).setField pool f w = msg.setField pool f w :=
  (laws pool).set_set v w

theorem setField_comm (hf : f ∈ pool.fields msg.desc) (hg : g ∈ pool.fields msg.desc)
    (hne : f.number ≠ g.number) (hone : f.sameOneof g = false) (v w : Value) :
    (msg.setField pool f v).setField pool g w = (msg.setField pool g w).setField pool f v :=
  (laws pool).set_comm hf hg hne hone v w

theorem setField_eq_self_iff {v : Value} :
    msg.setField pool f v = msg ↔
      msg.fields f.number = some v ∧
        ∀ g ∈ pool.fields msg.desc, f.sameOneof g = true → g.number ≠ f.number →
          msg.fields g.number = none :=
  (laws pool).set_eq_self_iff

@[simp] theorem materialize_fields_self :
    (msg.materialize pool f).fields f.number = some (msg.getField f) :=
  (laws pool).stored_materialize_self

@[simp] theorem store_materialize (v : Value) :
    (msg.materialize pool f).store f v = msg.setField pool f v :=
  (laws pool).store_materialize v

end DynamicMessage

/-- A field has only one name. -/
theorem DescriptorPool.name_injective {pool : DescriptorPool} {desc : MessageDescriptor}
    {name name' : String} {f : FieldDescriptor} (h : pool.getFieldByName desc name = some f)
    (h' : pool.getFieldByName desc name' = some f) : name = name' :=
  (DynamicMessage.laws pool).fieldByName_injective h h'

/-! ## Well-typed messages -/

/-- Whether a value is of the variant that represents the kind of a map key. -/
def MapKey.isOf : MapKey → Kind → Bool
  | .bool _, .bool => true
  | .i32 _, .int32 | .i32 _, .sint32 | .i32 _, .sfixed32 => true
  | .i64 _, .int64 | .i64 _, .sint64 | .i64 _, .sfixed64 => true
  | .u32 _, .uint32 | .u32 _, .fixed32 => true
  | .u64 _, .uint64 | .u64 _, .fixed64 => true
  | .string _, .string => true
  | _, _ => false

namespace FieldDescriptor

/-- Whether a value has the shape of its field: a list, a map, or a value of the field's kind. -/
def admits (f : FieldDescriptor) (v : Value) : Bool :=
  match f.cardinality, v with
  | .singular, v => f.kind.admits v
  | .list, .list _ => true
  | .map key _, .map entries => entries.all (·.1.isOf key)
  | _, _ => false

/-- The single values a field holds, each with the kind it has to be valid for. -/
def parts (f : FieldDescriptor) (v : Value) : List (Kind × Value) :=
  match f.cardinality, v with
  | .singular, v => [(f.kind, v)]
  | .list, .list items => items.map (f.kind, ·)
  | .map _ value, .map entries => entries.map (value, ·.2)
  | _, _ => []

/-- `Value::is_valid_for_field`: what `set_field` asserts of its argument. It looks at the single
    values, and not into the messages among them. -/
def isValid (f : FieldDescriptor) (v : Value) : Bool :=
  f.admits v && (f.parts v).all fun part => part.1.admits part.2

end FieldDescriptor

/-- A value is valid for a kind: it is of the right variant, and the values stored in a message
    are valid for their fields, part by part. -/
inductive ValidValue (pool : DescriptorPool) : Kind → Value → Prop where
  | scalar {k : Kind} {v : Value} : k.isMessage = false → k.admits v = true → ValidValue pool k v
  | message {d : MessageDescriptor} {fields : Nat → Option Value} :
      (∀ f ∈ pool.fields d, ∀ v, fields f.number = some v → f.admits v = true) →
      (∀ f ∈ pool.fields d, ∀ v, fields f.number = some v →
        ∀ part ∈ f.parts v, ValidValue pool part.1 part.2) →
      ValidValue pool (.message d) (.message d fields)

/-- A value is valid for a field. -/
structure ValidField (pool : DescriptorPool) (f : FieldDescriptor) (v : Value) : Prop where
  admits : f.admits v = true
  parts : ∀ part ∈ f.parts v, ValidValue pool part.1 part.2

/-- A message is well-typed: every stored value is valid for its field. -/
def WellTyped (pool : DescriptorPool) (msg : DynamicMessage) : Prop :=
  ∀ f ∈ pool.fields msg.desc, ∀ v, msg.fields f.number = some v → ValidField pool f v

section WellTyped

variable {pool : DescriptorPool} {msg : DynamicMessage} {f : FieldDescriptor}

theorem validValue_message_iff {d d' : MessageDescriptor} {fields : Nat → Option Value} :
    ValidValue pool (.message d) (.message d' fields) ↔
      d' = d ∧ WellTyped pool ⟨d, fields⟩ := by
  constructor
  · intro h
    cases h with
    | scalar hkind _ => cases hkind
    | message hadmits hparts =>
      exact ⟨rfl, fun f hf v hv => ⟨hadmits f hf v hv, hparts f hf v hv⟩⟩
  · rintro ⟨rfl, h⟩
    exact .message (fun f hf v hv => (h f hf v hv).admits) (fun f hf v hv => (h f hf v hv).parts)

theorem ValidValue.admits {k : Kind} {v : Value} (h : ValidValue pool k v) : k.admits v = true := by
  cases h with
  | scalar _ hadmits => exact hadmits
  | message _ _ => simp [Kind.admits]

/-- A valid value passes the assertion of `set_field`. -/
theorem ValidField.isValid {v : Value} (h : ValidField pool f v) : f.isValid v = true := by
  rw [FieldDescriptor.isValid, h.admits, Bool.true_and, List.all_eq_true]
  exact fun part hpart => (h.parts part hpart).admits

theorem wellTyped_new (d : MessageDescriptor) : WellTyped pool (DynamicMessage.new d) := by
  intro f _ v hv
  cases hv

/-- A singular message field holds well-typed messages of its type. -/
theorem validField_child_iff {d : MessageDescriptor} (hchild : f.child? = some d) {v : Value} :
    ValidField pool f v ↔ ∃ fields, v = .message d fields ∧ WellTyped pool ⟨d, fields⟩ := by
  obtain ⟨hkind, hcard⟩ := FieldDescriptor.child?_eq_some_iff.mp hchild
  constructor
  · rintro ⟨hadmits, hparts⟩
    have hvalid : ValidValue pool f.kind v :=
      hparts (f.kind, v) (by simp [FieldDescriptor.parts, hcard])
    have hshape : f.kind.admits v = true := by simpa [FieldDescriptor.admits, hcard] using hadmits
    rw [hkind] at hvalid hshape
    -- no other variant is admitted by a message kind
    cases v with
    | message d' fields =>
      obtain ⟨rfl, hmsg⟩ := validValue_message_iff.mp hvalid
      exact ⟨fields, rfl, hmsg⟩
    | _ => simp [Kind.admits] at hshape
  · rintro ⟨fields, rfl, hmsg⟩
    refine ⟨by simp [FieldDescriptor.admits, hcard, hkind, Kind.admits], ?_⟩
    intro part hpart
    have hpart : part = (f.kind, .message d fields) := by
      simpa [FieldDescriptor.parts, hcard] using hpart
    subst hpart
    rw [hkind]
    exact validValue_message_iff.mpr ⟨rfl, hmsg⟩

theorem validField_message {m : DynamicMessage} {d : MessageDescriptor}
    (hchild : f.child? = some d) (hdesc : m.desc = d) (h : WellTyped pool m) :
    ValidField pool f (.message m.desc m.fields) := by
  subst hdesc
  exact (validField_child_iff hchild).mpr ⟨m.fields, rfl, h⟩

/-- A value of the right variant is valid for a singular field that is no message field. -/
theorem validField_scalar (hcard : f.cardinality = .singular) (hkind : f.kind.isMessage = false)
    {v : Value} (hv : f.kind.admits v = true) : ValidField pool f v := by
  refine ⟨by simpa [FieldDescriptor.admits, hcard] using hv, ?_⟩
  intro part hpart
  have hpart : part = (f.kind, v) := by simpa [FieldDescriptor.parts, hcard] using hpart
  subst hpart
  exact .scalar hkind hv

/-- A list field holds lists of valid elements. -/
theorem validField_list_iff (hcard : f.cardinality = .list) {v : Value} :
    ValidField pool f v ↔ ∃ items, v = .list items ∧ ∀ x ∈ items, ValidValue pool f.kind x := by
  constructor
  · rintro ⟨hadmits, hparts⟩
    cases v with
    | list items =>
      refine ⟨items, rfl, fun x hx => hparts (f.kind, x) ?_⟩
      simpa [FieldDescriptor.parts, hcard] using hx
    | _ => simp [FieldDescriptor.admits, hcard] at hadmits
  · rintro ⟨items, rfl, hitems⟩
    refine ⟨by simp [FieldDescriptor.admits, hcard], ?_⟩
    intro part hpart
    obtain ⟨x, hx, rfl⟩ : ∃ x ∈ items, (f.kind, x) = part := by
      simpa [FieldDescriptor.parts, hcard] using hpart
    exact hitems x hx

/-- The default value of a field is valid for it. -/
theorem validField_defaultValue (f : FieldDescriptor) : ValidField pool f f.defaultValue := by
  cases hcard : f.cardinality with
  | list =>
    have hdef : f.defaultValue = .list [] := by simp [FieldDescriptor.defaultValue, hcard]
    rw [hdef]
    exact (validField_list_iff hcard).mpr ⟨[], rfl, by simp⟩
  | map key value =>
    have hdef : f.defaultValue = .map [] := by simp [FieldDescriptor.defaultValue, hcard]
    rw [hdef]
    exact ⟨by simp [FieldDescriptor.admits, hcard], by simp [FieldDescriptor.parts, hcard]⟩
  | singular =>
    cases hchild : f.child? with
    | some d =>
      rw [FieldDescriptor.defaultValue_of_child hchild]
      exact (validField_child_iff hchild).mpr ⟨_, rfl, wellTyped_new d⟩
    | none =>
      -- a singular field without a child type is of a scalar kind
      have hkind : f.kind.isMessage = false := by
        cases hk : f.kind <;> simp [Kind.isMessage]
        next d => simp [FieldDescriptor.child?, hk, hcard] at hchild
      apply validField_scalar hcard hkind
      cases hdef : f.default? with
      | none => simp [FieldDescriptor.defaultValue, hcard, hdef]
      | some v =>
        have := (f.default_admitted v hdef).2
        simpa [FieldDescriptor.defaultValue, hcard, hdef] using this

/-- What is read from a well-typed message is valid. -/
theorem WellTyped.getField (h : WellTyped pool msg) (hf : f ∈ pool.fields msg.desc) :
    ValidField pool f (msg.getField f) := by
  unfold DynamicMessage.getField
  cases hv : msg.fields f.number with
  | none => exact validField_defaultValue f
  | some v => exact h f hf v hv

/-- **Setting a field to a valid value keeps a message well-typed.** -/
theorem WellTyped.setField (h : WellTyped pool msg) (hf : f ∈ pool.fields msg.desc) {v : Value}
    (hv : ValidField pool f v) : WellTyped pool (msg.setField pool f v) := by
  intro g hg w hw
  rw [DynamicMessage.setField_desc] at hg
  rw [DynamicMessage.setField_fields hg] at hw
  split at hw
  · next hnum =>
    -- the field itself: numbers identify the fields of a message
    cases hw
    rw [pool.eq_of_number_eq hg hf hnum]
    exact hv
  · split at hw
    · cases hw
    · exact h g hg w hw

end WellTyped

end GrpcGw.Reflect
