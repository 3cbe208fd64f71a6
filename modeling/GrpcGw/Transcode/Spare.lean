import GrpcGw.Transcode.View

/-!
# What a Binding Spares

When a binding that does not fail leaves a message as it is, and when it leaves the value of one
field as it is, read off the state in front of it.

- `bindInner_eq_self_iff`: a binding changes nothing iff it is idle.
- `getField_bindInner_eq_iff`: a binding keeps the value of a field iff it spares the field.
-/

namespace GrpcGw.Transcode

open GrpcGw.Text
open GrpcGw.Reflect

variable {pool : DescriptorPool} {mode : BindMode} {fullPath : List String} {value : String}

/-! ## Idle bindings -/

/-- A binding finds nothing to do: its path ends in an unknown name or at a singular leaf that is
    kept or holds the bound value already, and every message field on the way is stored while the
    rest of its oneof is not. -/
def Idle (pool : DescriptorPool) (mode : BindMode) (value : String) :
    List String → DynamicMessage → Prop
  | [], _ => True
  | head :: rest, msg =>
    match pool.getFieldByName msg.desc head with
    | none => True
    | some f =>
      match rest with
      | [] => f.cardinality = .singular ∧
          ((mode = .fillIfUnset ∧ msg.hasField f = true) ∨
            (storedAlone pool msg f = true ∧ parseScalar f.kind value = some (msg.getField f)))
      | _ :: _ =>
        match f.child? with
        | some d => storedAlone pool msg f = true ∧ Idle pool mode value rest (child msg f d)
        | none => True

section Leaf

variable {msg : DynamicMessage} {f : FieldDescriptor}

theorem bindLeaf_eq_self_iff (h : WellTyped pool msg) (hf : f ∈ pool.fields msg.desc)
    (hout : (bindLeaf pool mode fullPath value msg f).2.Proceeds) :
    (bindLeaf pool mode fullPath value msg f).1 = msg ↔
      f.cardinality = .singular ∧
        ((mode = .fillIfUnset ∧ msg.hasField f = true) ∨
          (storedAlone pool msg f = true ∧ parseScalar f.kind value = some (msg.getField f))) := by
  obtain ⟨c, hc, ⟨hcard, items, hitems, hbind⟩ | ⟨hcard, hbind⟩⟩ := bindLeaf_proceeds h hf hout
  · -- a list always grows
    rw [hbind, setField_eq_self_iff_storedAlone, hitems, hcard]
    simp
  · rw [hbind]
    by_cases hkeep : mode = .fillIfUnset ∧ msg.hasField f = true
    · simp [hkeep, hcard]
    · rw [if_neg hkeep, setField_eq_self_iff_storedAlone, hc, Option.some.injEq]
      simp only [hcard, hkeep, true_and, false_or]
      exact and_congr_right fun _ => eq_comm

end Leaf

/-- A message field is set to the message it holds iff that message is the same. -/
theorem message_eq_child_iff {msg m : DynamicMessage} {f : FieldDescriptor}
    {d : MessageDescriptor} :
    Value.message m.desc m.fields = .message d (child msg f d).fields ↔ m = child msg f d := by
  rw [Value.message.injEq, DynamicMessage.ext_iff, child_desc]

/-- **A binding changes nothing iff it is idle**, if it does not fail. -/
theorem bindInner_eq_self_iff (path : List String) {msg : DynamicMessage} (h : WellTyped pool msg)
    (hout : (bindInner pool mode fullPath value path msg).2.Proceeds) :
    (bindInner pool mode fullPath value path msg).1 = msg ↔ Idle pool mode value path msg := by
  induction path, msg using path_induction pool with
  | nil msg => exact hout.elim
  | unknown hfield => simp [bindInner_unknown hfield, Idle, hfield]
  | leaf hfield =>
    rw [bindInner_leaf hfield] at hout ⊢
    rw [bindLeaf_eq_self_iff h (pool.mem_fields_of_getFieldByName hfield) hout, Idle, hfield]
  | notAMessage hfield hchild =>
    rw [bindInner_notAMessage hfield hchild] at hout
    exact hout.elim
  | @descend msg head next rest f d hfield hchild ih =>
    obtain ⟨hget, hwt⟩ := getField_eq_child h (pool.mem_fields_of_getFieldByName hfield) hchild
    rw [bindInner_descend h hfield hchild] at hout
    -- the field is set to what comes back, which is what it held iff the rest changes nothing
    rw [bindInner_descend h hfield hchild, setField_eq_self_iff_storedAlone, hget, Idle, hfield]
    simp only [hchild, ← ih hwt hout]
    exact and_congr_right fun _ => eq_comm.trans message_eq_child_iff

/-! ## Sparing a field -/

/-- A binding whose path starts with a field leaves the value of the field as it is: it keeps a
    singular leaf or writes the value that is there, or goes on in the message of the field and is
    idle there. -/
def SparesFirst (pool : DescriptorPool) (f : FieldDescriptor) (mode : BindMode)
    (rest : List String) (value : String) (msg : DynamicMessage) : Prop :=
  match rest with
  | [] => f.cardinality = .singular ∧
      ((mode = .fillIfUnset ∧ msg.hasField f = true) ∨
        parseScalar f.kind value = some (msg.getField f))
  | _ :: _ => ∀ d, f.child? = some d → Idle pool mode value rest (child msg f d)

/-- A binding leaves the value of a field `f` as it is, wherever its path starts. If it starts with
    another member of the oneof of `f`, that member is kept, or `f` has its default value. -/
def Spares (pool : DescriptorPool) (f : FieldDescriptor) (mode : BindMode) (path : List String)
    (value : String) (msg : DynamicMessage) : Prop :=
  match path with
  | [] => True
  | head :: rest =>
    match pool.getFieldByName msg.desc head with
    | none => True
    | some g =>
      if g.number = f.number then SparesFirst pool f mode rest value msg
      else g.sameOneof f = true →
        (rest = [] ∧ mode = .fillIfUnset ∧ msg.hasField g = true) ∨
          msg.getField f = f.defaultValue

section Spares

variable {msg : DynamicMessage} {f g : FieldDescriptor} {head : String} {rest : List String}

/-- A binding through another field of the message. -/
theorem getField_bindInner_apart (h : WellTyped pool msg) (hf : f ∈ pool.fields msg.desc)
    (hfield : pool.getFieldByName msg.desc head = some g) (hne : g.number ≠ f.number)
    (hout : (bindInner pool mode fullPath value (head :: rest) msg).2.Proceeds) :
    (bindInner pool mode fullPath value (head :: rest) msg).1.getField f = msg.getField f ↔
      (g.sameOneof f = true →
        (rest = [] ∧ mode = .fillIfUnset ∧ msg.hasField g = true) ∨
          msg.getField f = f.defaultValue) := by
  have hset := DynamicMessage.getField_setField_of_ne hf (Ne.symm hne)
  have hg := pool.mem_fields_of_getFieldByName hfield
  cases rest with
  | nil =>
    rw [bindInner_leaf hfield] at hout ⊢
    obtain ⟨c, -, ⟨hcard, items, -, hbind⟩ | ⟨-, hbind⟩⟩ := bindLeaf_proceeds h hg hout
    · rw [hbind, hset, FieldDescriptor.sameOneof_of_list hcard]
      simp
    · -- the leaf is kept as it is, or set
      rw [hbind]
      by_cases hkeep : mode = .fillIfUnset ∧ msg.hasField g = true
      · simp [hkeep]
      · rw [if_neg hkeep, hset]
        by_cases hone : g.sameOneof f = true
        · simp only [hone, if_true, true_imp_iff, true_and, hkeep, false_or]
          exact eq_comm
        · simp [hone]
  | cons next rest =>
    cases hchild : g.child? with
    | none =>
      rw [bindInner_notAMessage hfield hchild] at hout
      exact hout.elim
    | some d =>
      rw [bindInner_descend h hfield hchild]
      simp only [hset]
      by_cases hone : g.sameOneof f = true
      · simp only [hone, if_true, true_imp_iff, reduceCtorEq, false_and, false_or]
        exact eq_comm
      · simp [hone]

/-- A binding through the field itself. -/
theorem getField_bindInner_self (h : WellTyped pool msg)
    (hfield : pool.getFieldByName msg.desc head = some f)
    (hout : (bindInner pool mode fullPath value (head :: rest) msg).2.Proceeds) :
    (bindInner pool mode fullPath value (head :: rest) msg).1.getField f = msg.getField f ↔
      SparesFirst pool f mode rest value msg := by
  have hf := pool.mem_fields_of_getFieldByName hfield
  unfold SparesFirst
  cases rest with
  | nil =>
    rw [bindInner_leaf hfield] at hout ⊢
    obtain ⟨c, hc, ⟨hcard, items, hitems, hbind⟩ | ⟨hcard, hbind⟩⟩ := bindLeaf_proceeds h hf hout
    · -- a list always grows
      rw [hbind, DynamicMessage.getField_setField, hitems, hcard]
      simp
    · rw [hbind, hc, Option.some.injEq]
      by_cases hkeep : mode = .fillIfUnset ∧ msg.hasField f = true
      · simp [hkeep, hcard]
      · rw [if_neg hkeep, DynamicMessage.getField_setField]
        simp only [hcard, hkeep, true_and, false_or]
  | cons next rest =>
    cases hchild : f.child? with
    | none =>
      rw [bindInner_notAMessage hfield hchild] at hout
      exact hout.elim
    | some d =>
      obtain ⟨hget, hwt⟩ := getField_eq_child h hf hchild
      rw [bindInner_descend h hfield hchild] at hout ⊢
      have hidle := bindInner_eq_self_iff (next :: rest) hwt hout
      rw [DynamicMessage.getField_setField, hget, message_eq_child_iff, hidle]
      simp only [Option.some.injEq, forall_eq']

end Spares

/-- **A binding keeps the value of a field iff it spares the field**, if it does not fail. -/
theorem getField_bindInner_eq_iff (path : List String) {msg : DynamicMessage}
    {f : FieldDescriptor} (h : WellTyped pool msg) (hf : f ∈ pool.fields msg.desc)
    (hout : (bindInner pool mode fullPath value path msg).2.Proceeds) :
    (bindInner pool mode fullPath value path msg).1.getField f = msg.getField f ↔
      Spares pool f mode path value msg := by
  cases path with
  | nil => exact hout.elim
  | cons head rest =>
    cases hfield : pool.getFieldByName msg.desc head with
    | none => simp [bindInner_unknown hfield, Spares, hfield]
    | some g =>
      have hg := pool.mem_fields_of_getFieldByName hfield
      -- the path begins with the field itself or with another one
      by_cases hnum : g.number = f.number
      · cases pool.eq_of_number_eq hg hf hnum
        simp only [Spares, hfield, if_true]
        exact getField_bindInner_self h hfield hout
      · simp only [Spares, hfield, hnum, if_false]
        exact getField_bindInner_apart h hf hfield hnum hout

end GrpcGw.Transcode
