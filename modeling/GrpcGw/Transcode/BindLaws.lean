import GrpcGw.Transcode.Bind

/-!
# Laws of Binding

What a binding does to a well-typed message, from one step lemma for each function.

- `path_induction`: the induction rule along a field path.
- `bindInner_outcome`: whether a binding succeeds, and how it fails, depends on the message type
  and the path only.
- `bindInner_wellTyped`: bindings keep messages well-typed, failing ones included.
- `bindInner_unknown_eq_self_iff`: when a binding with an unknown key changes nothing.
-/

namespace GrpcGw.Transcode

open GrpcGw.Text
open GrpcGw.Reflect

variable {pool : DescriptorPool} {mode : BindMode} {fullPath : List String} {value : String}

/-! ## Outcomes read off the message type -/

/-- The outcome of binding a leaf field. -/
def leafOutcome (fullPath : List String) (value : String) (field : FieldDescriptor) :
    BindOutcome :=
  if field.isMap then .error (.unsupportedField (join "." fullPath) "map")
  else
    match coerceScalar field.kind value (join "." fullPath) with
    | .error e => .error e
    | .ok _ => .ok

/-- The outcome of binding along a path from a message of the given type. -/
def pathOutcome (pool : DescriptorPool) (fullPath : List String) (value : String) :
    List String → MessageDescriptor → BindOutcome
  | [], _ => .panic
  | head :: rest, desc =>
    match pool.getFieldByName desc head with
    | none => .error (.unknownField (join "." fullPath) head)
    | some field =>
      match rest with
      | [] => leafOutcome fullPath value field
      | _ :: _ =>
        match field.child? with
        | some d => pathOutcome pool fullPath value rest d
        | none => .error (.notAMessage (join "." fullPath) head)

/-! ## One step -/

/-- The message stored in a singular message field, or an empty one. -/
def child (msg : DynamicMessage) (field : FieldDescriptor) (d : MessageDescriptor) :
    DynamicMessage :=
  match msg.getField field with
  | .message _ fields => { desc := d, fields := fields }
  | _ => .new d

@[simp] theorem child_desc (msg : DynamicMessage) (field : FieldDescriptor)
    (d : MessageDescriptor) : (child msg field d).desc = d := by
  unfold child
  split <;> rfl

theorem notAMessage_iff {field : FieldDescriptor} :
    (!field.kind.isMessage || field.isList || field.isMap) = field.child?.isNone := by
  cases hkind : field.kind <;> cases hcard : field.cardinality <;>
    simp [FieldDescriptor.child?, FieldDescriptor.isList, FieldDescriptor.isMap, Kind.isMessage,
      hkind, hcard]

/-- **The induction rule along a field path**: a path ends, fails at its first component, or goes
    on in the message that its first component leads to. -/
theorem path_induction (pool : DescriptorPool) {motive : List String → DynamicMessage → Prop}
    (nil : ∀ msg, motive [] msg)
    (unknown : ∀ {msg : DynamicMessage} {head : String} {rest : List String},
      pool.getFieldByName msg.desc head = none → motive (head :: rest) msg)
    (leaf : ∀ {msg : DynamicMessage} {head : String} {field : FieldDescriptor},
      pool.getFieldByName msg.desc head = some field → motive [head] msg)
    (notAMessage : ∀ {msg : DynamicMessage} {head next : String} {rest : List String}
      {field : FieldDescriptor}, pool.getFieldByName msg.desc head = some field →
      field.child? = none → motive (head :: next :: rest) msg)
    (descend : ∀ {msg : DynamicMessage} {head next : String} {rest : List String}
      {field : FieldDescriptor} {d : MessageDescriptor},
      pool.getFieldByName msg.desc head = some field → field.child? = some d →
      motive (next :: rest) (child msg field d) → motive (head :: next :: rest) msg)
    (path : List String) (msg : DynamicMessage) : motive path msg := by
  induction path generalizing msg with
  | nil => exact nil msg
  | cons head rest ih =>
    cases hfield : pool.getFieldByName msg.desc head with
    | none => exact unknown hfield
    | some field =>
      cases rest with
      | nil => exact leaf hfield
      | cons next rest =>
        cases hchild : field.child? with
        | none => exact notAMessage hfield hchild
        | some d => exact descend hfield hchild (ih (child msg field d))

section Step

variable {msg : DynamicMessage} {field : FieldDescriptor}

theorem getField_eq_child (h : WellTyped pool msg) (hf : field ∈ pool.fields msg.desc)
    {d : MessageDescriptor} (hchild : field.child? = some d) :
    msg.getField field = .message d (child msg field d).fields ∧
      WellTyped pool (child msg field d) := by
  obtain ⟨fields, hget, hwt⟩ := (validField_child_iff hchild).mp (h.getField hf)
  have heq : child msg field d = ⟨d, fields⟩ := by
    unfold child
    rw [hget]
  rw [heq]
  exact ⟨hget, hwt⟩

variable (mode fullPath value) in
/-- Everything that binding a leaf field of a well-typed message can do. -/
theorem bindLeaf_cases (h : WellTyped pool msg) (hf : field ∈ pool.fields msg.desc) :
    (∃ e, leafOutcome fullPath value field = .error e ∧
        bindLeaf pool mode fullPath value msg field = (msg, .error e)) ∨
      ∃ coerced, leafOutcome fullPath value field = .ok ∧
        coerceScalar field.kind value (join "." fullPath) = .ok coerced ∧
        ((field.cardinality = .list ∧ ∃ items, msg.getField field = .list items ∧
            bindLeaf pool mode fullPath value msg field =
              (msg.setField pool field (.list (items ++ [coerced])), .ok)) ∨
          (field.cardinality = .singular ∧
            bindLeaf pool mode fullPath value msg field =
              (if mode = .fillIfUnset ∧ msg.hasField field then msg
                else msg.setField pool field coerced, .ok))) := by
  unfold bindLeaf leafOutcome
  cases hcoerce : coerceScalar field.kind value (join "." fullPath) with
  | error e =>
    left
    by_cases hmap : field.isMap = true
    · exact ⟨_, by rw [if_pos hmap], by simp [hmap]⟩
    · exact ⟨e, by rw [if_neg hmap], by simp [hmap, hcoerce]⟩
  | ok coerced =>
    cases hcard : field.cardinality with
    | map key v =>
      left
      have hmap : field.isMap = true := by simp [FieldDescriptor.isMap, hcard]
      exact ⟨_, by rw [if_pos hmap], by simp [hmap]⟩
    | list =>
      -- `get_field_mut` hands out the stored list, or an empty one
      right
      obtain ⟨items, hitems, -⟩ := (validField_list_iff hcard).mp (h.getField hf)
      refine ⟨coerced, by simp [FieldDescriptor.isMap, hcard], rfl, .inl ⟨rfl, items, hitems, ?_⟩⟩
      simp [FieldDescriptor.isMap, FieldDescriptor.isList, hcard, hcoerce, hitems]
    | singular =>
      right
      refine ⟨coerced, by simp [FieldDescriptor.isMap, hcard], rfl, .inr ⟨rfl, ?_⟩⟩
      simp only [FieldDescriptor.isMap, FieldDescriptor.isList, hcard, hcoerce,
        Bool.false_eq_true, if_false, reduceCtorEq, decide_false]
      split <;> rfl

/-- Descending into a singular message field of a well-typed message sets the field to the
    message that the rest of the path leaves. -/
theorem bindInner_descend (h : WellTyped pool msg) {head next : String} {rest : List String}
    (hfield : pool.getFieldByName msg.desc head = some field) {d : MessageDescriptor}
    (hchild : field.child? = some d) :
    bindInner pool mode fullPath value (head :: next :: rest) msg =
      (msg.setField pool field (.message
          (bindInner pool mode fullPath value (next :: rest) (child msg field d)).1.desc
          (bindInner pool mode fullPath value (next :: rest) (child msg field d)).1.fields),
        (bindInner pool mode fullPath value (next :: rest) (child msg field d)).2) := by
  obtain ⟨hget, -⟩ := getField_eq_child h (pool.mem_fields_of_getFieldByName hfield) hchild
  -- the field holds a message of its declared type, so the match of the source never fails
  have heta : (⟨d, (child msg field d).fields⟩ : DynamicMessage) = child msg field d := by
    cases hc : child msg field d with
    | mk desc fields =>
      have := child_desc msg field d
      rw [hc] at this
      rw [← this]
  rw [bindInner, hfield]
  simp only [notAMessage_iff, hchild, Option.isNone_some, Bool.false_eq_true, if_false,
    DynamicMessage.materialize_fields_self, hget, heta, DynamicMessage.store_materialize]

theorem bindInner_unknown {head : String} {rest : List String}
    (hfield : pool.getFieldByName msg.desc head = none) :
    bindInner pool mode fullPath value (head :: rest) msg =
      (msg, .error (.unknownField (join "." fullPath) head)) := by
  rw [bindInner, hfield]

theorem bindInner_leaf {head : String} (hfield : pool.getFieldByName msg.desc head = some field) :
    bindInner pool mode fullPath value [head] msg =
      bindLeaf pool mode fullPath value msg field := by
  rw [bindInner, hfield]

theorem bindInner_notAMessage {head next : String} {rest : List String}
    (hfield : pool.getFieldByName msg.desc head = some field) (hchild : field.child? = none) :
    bindInner pool mode fullPath value (head :: next :: rest) msg =
      (msg, .error (.notAMessage (join "." fullPath) head)) := by
  rw [bindInner, hfield]
  simp [notAMessage_iff, hchild]

end Step

/-! ## Outcomes -/

theorem bindLeaf_outcome {msg : DynamicMessage} {field : FieldDescriptor} (h : WellTyped pool msg)
    (hf : field ∈ pool.fields msg.desc) :
    (bindLeaf pool mode fullPath value msg field).2 = leafOutcome fullPath value field := by
  rcases bindLeaf_cases mode fullPath value h hf with
    ⟨e, hout, hbind⟩ | ⟨c, hout, -, ⟨-, items, -, hbind⟩ | ⟨-, hbind⟩⟩
  · rw [hout, hbind]
  · rw [hout, hbind]
  · rw [hout, hbind]

theorem bindLeaf_desc {msg : DynamicMessage} {field : FieldDescriptor} (h : WellTyped pool msg)
    (hf : field ∈ pool.fields msg.desc) :
    (bindLeaf pool mode fullPath value msg field).1.desc = msg.desc := by
  rcases bindLeaf_cases mode fullPath value h hf with
    ⟨e, -, hbind⟩ | ⟨c, -, -, ⟨-, items, -, hbind⟩ | ⟨-, hbind⟩⟩
  · rw [hbind]
  · rw [hbind, DynamicMessage.setField_desc]
  · rw [hbind]
    split
    · rfl
    · rw [DynamicMessage.setField_desc]

/-- **Whether a binding succeeds, and how it fails, depends on the message type, the path and the
    value only.** -/
theorem bindInner_outcome (path : List String) {msg : DynamicMessage} (h : WellTyped pool msg) :
    (bindInner pool mode fullPath value path msg).2 =
      pathOutcome pool fullPath value path msg.desc := by
  induction path, msg using path_induction pool with
  | nil msg => rfl
  | unknown hfield => rw [bindInner_unknown hfield, pathOutcome, hfield]
  | leaf hfield =>
    rw [bindInner_leaf hfield, pathOutcome, hfield]
    exact bindLeaf_outcome h (pool.mem_fields_of_getFieldByName hfield)
  | notAMessage hfield hchild =>
    rw [bindInner_notAMessage hfield hchild, pathOutcome, hfield]
    simp only [hchild]
  | descend hfield hchild ih =>
    obtain ⟨-, hwt⟩ := getField_eq_child h (pool.mem_fields_of_getFieldByName hfield) hchild
    rw [bindInner_descend h hfield hchild, pathOutcome, hfield]
    simp only [hchild]
    rw [ih hwt, child_desc]

variable (mode fullPath value) in
theorem bindInner_desc (path : List String) {msg : DynamicMessage} (h : WellTyped pool msg) :
    (bindInner pool mode fullPath value path msg).1.desc = msg.desc := by
  induction path, msg using path_induction pool with
  | nil msg => rfl
  | unknown hfield => rw [bindInner_unknown hfield]
  | leaf hfield =>
    rw [bindInner_leaf hfield]
    exact bindLeaf_desc h (pool.mem_fields_of_getFieldByName hfield)
  | notAMessage hfield hchild => rw [bindInner_notAMessage hfield hchild]
  | descend hfield hchild ih => rw [bindInner_descend h hfield hchild, DynamicMessage.setField_desc]

theorem bindLeaf_ne_panic (msg : DynamicMessage) (field : FieldDescriptor) :
    (bindLeaf pool mode fullPath value msg field).2 ≠ .panic := by
  unfold bindLeaf
  simp only
  split
  · simp
  · split
    · simp
    · split
      · split <;> simp
      · split <;> simp

/-- **Only the empty path panics**, whatever the message holds. -/
theorem bindInner_ne_panic {path : List String} (hne : path ≠ []) (msg : DynamicMessage) :
    (bindInner pool mode fullPath value path msg).2 ≠ .panic := by
  induction path generalizing msg with
  | nil => exact absurd rfl hne
  | cons head rest ih =>
    rw [bindInner]
    split
    · simp
    · split
      · exact bindLeaf_ne_panic msg _
      · split
        · simp
        · simp only
          split
          · -- what is left of the path is not empty
            exact ih (by simp) _
          · simp

/-! ## Well-typedness -/

theorem bindLeaf_wellTyped {msg : DynamicMessage} {field : FieldDescriptor}
    (h : WellTyped pool msg) (hf : field ∈ pool.fields msg.desc) :
    WellTyped pool (bindLeaf pool mode fullPath value msg field).1 := by
  rcases bindLeaf_cases mode fullPath value h hf with
    ⟨e, -, hbind⟩ | ⟨c, -, hc, ⟨hcard, items, hitems, hbind⟩ | ⟨hcard, hbind⟩⟩
  · rw [hbind]
    exact h
  · -- the list as it was, and a valid element behind it
    rw [hbind]
    obtain ⟨hkind, hadmits⟩ := admits_of_coerceScalar hc
    obtain ⟨items', hitems', hvalid⟩ := (validField_list_iff hcard).mp (h.getField hf)
    rw [hitems] at hitems'
    cases hitems'
    refine h.setField hf ((validField_list_iff hcard).mpr ⟨_, rfl, ?_⟩)
    intro x hx
    rcases List.mem_append.mp hx with hx | hx
    · exact hvalid x hx
    · rw [List.mem_singleton.mp hx]
      exact .scalar hkind hadmits
  · rw [hbind]
    obtain ⟨hkind, hadmits⟩ := admits_of_coerceScalar hc
    split
    · exact h
    · exact h.setField hf (validField_scalar hcard hkind hadmits)

/-- **Bindings keep messages well-typed**, failing ones included. -/
theorem bindInner_wellTyped (path : List String) {msg : DynamicMessage} (h : WellTyped pool msg) :
    WellTyped pool (bindInner pool mode fullPath value path msg).1 := by
  induction path, msg using path_induction pool with
  | nil msg => exact h
  | unknown hfield =>
    rw [bindInner_unknown hfield]
    exact h
  | leaf hfield =>
    rw [bindInner_leaf hfield]
    exact bindLeaf_wellTyped h (pool.mem_fields_of_getFieldByName hfield)
  | notAMessage hfield hchild =>
    rw [bindInner_notAMessage hfield hchild]
    exact h
  | @descend msg head next rest field d hfield hchild ih =>
    have hf := pool.mem_fields_of_getFieldByName hfield
    obtain ⟨-, hwt⟩ := getField_eq_child h hf hchild
    rw [bindInner_descend h hfield hchild]
    -- what comes back from the rest of the path is a well-typed message of the same type
    have hdesc := bindInner_desc mode fullPath value (next :: rest) hwt
    rw [child_desc] at hdesc
    exact h.setField hf (validField_message hchild hdesc (ih hwt))

theorem bindFieldPath_wellTyped {msg : DynamicMessage} (h : WellTyped pool msg)
    (path : List String) (value : String) (mode : BindMode) :
    WellTyped pool (bindFieldPath pool msg path value mode).1 ∧
      (bindFieldPath pool msg path value mode).1.desc = msg.desc :=
  ⟨bindInner_wellTyped path h, bindInner_desc mode path value path h⟩

/-! ## Unknown keys -/

/-- Whether a path does not resolve in a message type: descending through singular message
    fields, some component names no field. -/
def unknownKey (pool : DescriptorPool) : List String → MessageDescriptor → Bool
  | [], _ => false
  | head :: rest, desc =>
    match pool.getFieldByName desc head with
    | none => true
    | some field =>
      match rest with
      | [] => false
      | _ :: _ =>
        match field.child? with
        | some d => unknownKey pool rest d
        | none => false

/-- Whether a field is stored while the rest of its oneof is not. -/
def storedAlone (pool : DescriptorPool) (msg : DynamicMessage) (field : FieldDescriptor) : Bool :=
  (msg.fields field.number).isSome &&
    (pool.fields msg.desc).all fun g =>
      !field.sameOneof g || g.number = field.number || (msg.fields g.number).isNone

/-- Whether a path descends only into message fields that are already there. -/
def descendsStored (pool : DescriptorPool) : List String → DynamicMessage → Bool
  | [], _ => true
  | head :: rest, msg =>
    match pool.getFieldByName msg.desc head with
    | none => true
    | some field =>
      match rest with
      | [] => true
      | _ :: _ =>
        match field.child? with
        | some d => storedAlone pool msg field && descendsStored pool rest (child msg field d)
        | none => true

theorem coerceScalar_ne_unknownField {kind : Kind} {v path p f : String} :
    coerceScalar kind v path ≠ .error (.unknownField p f) := by
  unfold coerceScalar
  split
  · simp
  · simp
  · split <;> simp

/-- A leaf never fails with an unknown field. -/
theorem leafOutcome_ne_unknownField {field : FieldDescriptor} {p f : String} :
    leafOutcome fullPath value field ≠ .error (.unknownField p f) := by
  unfold leafOutcome
  split
  · simp
  · cases hcoerce : coerceScalar field.kind value (join "." fullPath) with
    | ok v => simp
    | error e =>
      intro heq
      cases heq
      exact coerceScalar_ne_unknownField hcoerce

/-- An unknown key is exactly one whose binding ends in `UnknownField`. -/
theorem unknownKey_iff (path : List String) (desc : MessageDescriptor) :
    unknownKey pool path desc = true ↔
      ∃ p f, pathOutcome pool fullPath value path desc = .error (.unknownField p f) := by
  induction path generalizing desc with
  | nil => simp [unknownKey, pathOutcome]
  | cons head rest ih =>
    cases hfield : pool.getFieldByName desc head with
    | none => simp [unknownKey, pathOutcome, hfield]
    | some field =>
      cases rest with
      | nil =>
        simp [unknownKey, pathOutcome, hfield, leafOutcome_ne_unknownField]
      | cons next rest =>
        cases hchild : field.child? with
        | none => simp [unknownKey, pathOutcome, hfield, hchild]
        | some d => simpa [unknownKey, pathOutcome, hfield, hchild] using ih d

theorem storedAlone_iff {msg : DynamicMessage} {field : FieldDescriptor} :
    storedAlone pool msg field = true ↔
      (msg.fields field.number).isSome = true ∧
        ∀ g ∈ pool.fields msg.desc, field.sameOneof g = true → g.number ≠ field.number →
          msg.fields g.number = none := by
  unfold storedAlone
  rw [Bool.and_eq_true, List.all_eq_true]
  refine and_congr_right fun _ => forall₂_congr fun g _ => ?_
  by_cases hone : field.sameOneof g = true <;> by_cases hnum : g.number = field.number <;>
    simp [hone, hnum]

theorem setField_eq_self_iff_storedAlone {msg : DynamicMessage} {field : FieldDescriptor}
    {v : Value} :
    msg.setField pool field v = msg ↔
      storedAlone pool msg field = true ∧ msg.getField field = v := by
  rw [DynamicMessage.setField_eq_self_iff, storedAlone_iff]
  cases hv : msg.fields field.number with
  | none => simp
  | some w =>
    simp only [DynamicMessage.getField_of_stored hv, Option.some.injEq, Option.isSome_some,
      true_and]
    exact and_comm

/-- **A binding with an unknown key changes nothing exactly if it descends only into message
    fields that are already there.** -/
theorem bindInner_unknown_eq_self_iff (path : List String) {msg : DynamicMessage}
    (h : WellTyped pool msg) (hunknown : unknownKey pool path msg.desc = true) :
    (bindInner pool mode fullPath value path msg).1 = msg ↔
      descendsStored pool path msg = true := by
  induction path, msg using path_induction pool with
  | nil msg => cases hunknown
  | unknown hfield => simp [bindInner_unknown hfield, descendsStored, hfield]
  | leaf hfield => simp [unknownKey, hfield] at hunknown
  | notAMessage hfield hchild => simp [unknownKey, hfield, hchild] at hunknown
  | @descend msg head next rest field d hfield hchild ih =>
    obtain ⟨hget, hwt⟩ := getField_eq_child h (pool.mem_fields_of_getFieldByName hfield) hchild
    have hunknown' : unknownKey pool (next :: rest) (child msg field d).desc = true := by
      simpa [unknownKey, hfield, hchild] using hunknown
    have ih := ih hwt hunknown'
    have hdesc := bindInner_desc mode fullPath value (next :: rest) hwt
    -- the field is set to what comes back, which is what it held iff the rest changes nothing
    rw [bindInner_descend h hfield hchild, descendsStored, hfield]
    simp only [hchild, Bool.and_eq_true, ← ih, setField_eq_self_iff_storedAlone, hget,
      Value.message.injEq]
    apply and_congr_right
    intro _
    constructor
    · rintro ⟨-, hfields⟩
      exact DynamicMessage.ext hdesc hfields.symm
    · intro heq
      rw [heq, child_desc]
      exact ⟨rfl, rfl⟩

end GrpcGw.Transcode
