import GrpcGw.Transcode.BindLaws

/-!
# The Writes of a Binding

The binding functions once more, now with the values they hand to the message: the arguments of
`set_field` and the elements pushed to lists.

- `bindFieldPathLogged_eq`: recording the writes changes nothing.
- `bindInnerLogged_valid`: every value that is written is valid for its field.
-/

namespace GrpcGw.Transcode

open GrpcGw.Text
open GrpcGw.Reflect

/-! ## Recording -/

/-- A value that a binding hands to a message. -/
inductive Write where
  /-- The argument of `set_field`. -/
  | set (field : FieldDescriptor) (v : Value)
  /-- The argument of `push` on the list of a field. -/
  | push (field : FieldDescriptor) (v : Value)
  /-- What is assigned through `get_field_mut`. -/
  | assign (field : FieldDescriptor) (v : Value)

/-- The value is valid: for the field it is set in, or as an element of its list. -/
def Write.Valid (pool : DescriptorPool) : Write → Prop
  | .set field v => ValidField pool field v
  | .push field v => field.cardinality = .list ∧ ValidValue pool field.kind v
  | .assign field v => ValidField pool field v

/-- Whether the write passes the assertion of `set_field`. -/
def Write.passes : Write → Bool
  | .set field v => field.isValid v
  | _ => true

section Logged

variable (pool : DescriptorPool) (mode : BindMode) (fullPath : List String) (value : String)

/-- `bind_leaf`, with its writes. -/
def bindLeafLogged (msg : DynamicMessage) (field : FieldDescriptor) :
    DynamicMessage × BindOutcome × List Write :=
  let path := join "." fullPath
  if field.isMap then (msg, .error (.unsupportedField path "map"), [])
  else
    match coerceScalar field.kind value path with
    | .error e => (msg, .error e, [])
    | .ok coerced =>
      if field.isList then
        let msg := msg.materialize pool field
        match msg.fields field.number with
        | some (.list items) =>
          (msg.store field (.list (items ++ [coerced])), .ok, [.push field coerced])
        | _ => (msg.store field (.list [coerced]), .ok, [.assign field (.list [coerced])])
      else if mode = .fillIfUnset ∧ msg.hasField field then (msg, .ok, [])
      else (msg.setField pool field coerced, .ok, [.set field coerced])

/-- `bind_inner`, with its writes. -/
def bindInnerLogged :
    (remaining : List String) → DynamicMessage → DynamicMessage × BindOutcome × List Write
  | [], msg => (msg, .panic, [])
  | head :: rest, msg =>
    match pool.getFieldByName msg.desc head with
    | none => (msg, .error (.unknownField (join "." fullPath) head), [])
    | some field =>
      match rest with
      | [] => bindLeafLogged pool mode fullPath value msg field
      | _ :: _ =>
        if !field.kind.isMessage || field.isList || field.isMap then
          (msg, .error (.notAMessage (join "." fullPath) head), [])
        else
          let msg := msg.materialize pool field
          match msg.fields field.number with
          | some (.message desc fields) =>
            let (child, outcome, writes) := bindInnerLogged rest { desc := desc, fields := fields }
            (msg.store field (.message child.desc child.fields), outcome, writes)
          | _ => (msg, .error (.notAMessage (join "." fullPath) head), [])

end Logged

/-- `bind_field_path`, with its writes. -/
def bindFieldPathLogged (pool : DescriptorPool) (msg : DynamicMessage) (fieldPath : List String)
    (value : String) (mode : BindMode) : DynamicMessage × BindOutcome × List Write :=
  bindInnerLogged pool mode fieldPath value fieldPath msg

section Laws

variable {pool : DescriptorPool} {mode : BindMode} {fullPath : List String} {value : String}

/-! ## Recording changes nothing -/

theorem bindLeafLogged_eq (msg : DynamicMessage) (field : FieldDescriptor) :
    ((bindLeafLogged pool mode fullPath value msg field).1,
        (bindLeafLogged pool mode fullPath value msg field).2.1) =
      bindLeaf pool mode fullPath value msg field := by
  unfold bindLeafLogged bindLeaf
  by_cases hmap : field.isMap = true
  · simp only [hmap, if_true]
  · cases hcoerce : coerceScalar field.kind value (join "." fullPath) with
    | error e => simp only [hmap, hcoerce, Bool.false_eq_true, if_false]
    | ok coerced =>
      simp only [hmap, hcoerce, Bool.false_eq_true, if_false]
      by_cases hlist : field.isList = true
      · simp only [hlist, if_true, DynamicMessage.materialize_fields_self]
        cases msg.getField field <;> rfl
      · simp only [hlist, Bool.false_eq_true, if_false]
        split
        · rfl
        · rfl

theorem bindInnerLogged_eq (path : List String) (msg : DynamicMessage) :
    ((bindInnerLogged pool mode fullPath value path msg).1,
        (bindInnerLogged pool mode fullPath value path msg).2.1) =
      bindInner pool mode fullPath value path msg := by
  induction path generalizing msg with
  | nil => rfl
  | cons head rest ih =>
    rw [bindInnerLogged, bindInner]
    cases pool.getFieldByName msg.desc head with
    | none => rfl
    | some field =>
      cases rest with
      | nil => exact bindLeafLogged_eq msg field
      | cons next rest =>
        simp only [DynamicMessage.materialize_fields_self]
        split
        · rfl
        · cases msg.getField field with
          | message desc fields => simp only [← ih]
          | _ => rfl

/-- **Recording the writes changes nothing.** -/
theorem bindFieldPathLogged_eq (msg : DynamicMessage) (path : List String) (value : String)
    (mode : BindMode) :
    ((bindFieldPathLogged pool msg path value mode).1,
        (bindFieldPathLogged pool msg path value mode).2.1) =
      bindFieldPath pool msg path value mode :=
  bindInnerLogged_eq path msg

/-! ## Every write is valid -/

theorem Write.Valid.passes {w : Write} (h : w.Valid pool) : w.passes = true := by
  cases w with
  | set field v => exact ValidField.isValid h
  | push field v => rfl
  | assign field v => rfl

/-- **A leaf is written with values of its kind**: a singular field is set to one, and one is put
    into the list of a list field. -/
theorem bindLeafLogged_valid (msg : DynamicMessage) (field : FieldDescriptor) :
    ∀ w ∈ (bindLeafLogged pool mode fullPath value msg field).2.2, w.Valid pool := by
  unfold bindLeafLogged
  simp only
  split
  · simp
  · next hmap =>
    split
    · simp
    · next coerced hcoerce =>
      obtain ⟨hkind, hadmits⟩ := admits_of_coerceScalar hcoerce
      have hvalid : ValidValue pool field.kind coerced := .scalar hkind hadmits
      split
      · next hlist =>
        have hcard : field.cardinality = .list := of_decide_eq_true hlist
        split
        · intro w hw
          rw [List.mem_singleton.mp hw]
          exact ⟨hcard, hvalid⟩
        · intro w hw
          rw [List.mem_singleton.mp hw]
          refine (validField_list_iff hcard).mpr ⟨[coerced], rfl, ?_⟩
          intro x hx
          rw [List.mem_singleton.mp hx]
          exact hvalid
      · next hlist =>
        split
        · simp
        · intro w hw
          rw [List.mem_singleton.mp hw]
          -- neither a map nor a list
          have hcard : field.cardinality = .singular := by
            cases hc : field.cardinality with
            | singular => rfl
            | list => simp [FieldDescriptor.isList, hc] at hlist
            | map key value => simp [FieldDescriptor.isMap, hc] at hmap
          exact validField_scalar hcard hkind hadmits

/-- **Every value that a binding writes is valid for its field**, whatever the message holds. -/
theorem bindInnerLogged_valid (path : List String) (msg : DynamicMessage) :
    ∀ w ∈ (bindInnerLogged pool mode fullPath value path msg).2.2, w.Valid pool := by
  induction path generalizing msg with
  | nil => simp [bindInnerLogged]
  | cons head rest ih =>
    rw [bindInnerLogged]
    split
    · simp
    · next field _ =>
      cases rest with
      | nil => exact bindLeafLogged_valid msg field
      | cons next rest =>
        simp only
        split
        · simp
        · split
          · -- the writes are those of the rest of the path
            exact ih _
          · simp

end Laws

end GrpcGw.Transcode
