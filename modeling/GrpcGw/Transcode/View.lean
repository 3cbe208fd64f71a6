import GrpcGw.Transcode.BindLaws

/-!
# Reading Along a Field Path

What a binding does to the value that is read at some other field path. A binding at the path
itself sets or keeps the value, a binding that passes another member of a oneof on the path
clears it, and every other binding leaves it alone.

- `readPath`, `view`: the value read at a field path, and whether the leaf is set.
- `view_bindInner`: one binding, seen from a path.
-/

namespace GrpcGw.Transcode

open GrpcGw.Text
open GrpcGw.Reflect

variable {pool : DescriptorPool} {mode : BindMode} {fullPath : List String} {value : String}

/-! ## Reading -/

/-- The message that holds the leaf of a path, with the leaf's field. Unset messages on the way
    are read as empty ones. -/
def locate (pool : DescriptorPool) :
    List String → DynamicMessage → Option (DynamicMessage × FieldDescriptor)
  | [], _ => none
  | head :: rest, msg =>
    match pool.getFieldByName msg.desc head with
    | none => none
    | some field =>
      match rest with
      | [] => some (msg, field)
      | _ :: _ =>
        match field.child? with
        | some d => locate pool rest (child msg field d)
        | none => none

/-- The value read at a field path with `get_field`. -/
def readPath (pool : DescriptorPool) (path : List String) (msg : DynamicMessage) : Option Value :=
  (locate pool path msg).map fun (m, field) => m.getField field

/-- The value read at a field path, and whether the leaf is set. -/
def view (pool : DescriptorPool) (path : List String) (msg : DynamicMessage) :
    Option (Value × Bool) :=
  (locate pool path msg).map fun (m, field) => (m.getField field, m.hasField field)

/-- The leaf field of a path, read off the message type. -/
def leafField (pool : DescriptorPool) : List String → MessageDescriptor → Option FieldDescriptor
  | [], _ => none
  | head :: rest, desc =>
    match pool.getFieldByName desc head with
    | none => none
    | some field =>
      match rest with
      | [] => some field
      | _ :: _ =>
        match field.child? with
        | some d => leafField pool rest d
        | none => none

theorem leafField_leaf (head : String) (desc : MessageDescriptor) :
    leafField pool [head] desc = pool.getFieldByName desc head := by
  rw [leafField]
  cases pool.getFieldByName desc head with
  | none => rfl
  | some f => rfl

theorem leafField_descend {head next : String} {rest : List String} {desc : MessageDescriptor}
    {leaf : FieldDescriptor} :
    leafField pool (head :: next :: rest) desc = some leaf ↔
      ∃ f d, pool.getFieldByName desc head = some f ∧ f.child? = some d ∧
        leafField pool (next :: rest) d = some leaf := by
  rw [leafField]
  cases pool.getFieldByName desc head with
  | none => simp
  | some f => cases hchild : f.child? <;> simp [hchild]

/-- A path with a leaf starts with a field of the message type. -/
theorem exists_field_of_leafField {head : String} {rest : List String} {desc : MessageDescriptor}
    {leaf : FieldDescriptor} (h : leafField pool (head :: rest) desc = some leaf) :
    ∃ f, pool.getFieldByName desc head = some f := by
  cases rest with
  | nil =>
    rw [leafField_leaf] at h
    exact ⟨leaf, h⟩
  | cons next rest =>
    obtain ⟨f, -, hfield, -, -⟩ := leafField_descend.mp h
    exact ⟨f, hfield⟩

theorem readPath_eq_view (path : List String) (msg : DynamicMessage) :
    readPath pool path msg = (view pool path msg).map Prod.fst := by
  unfold readPath view
  rw [Option.map_map]
  rfl

section Cons

variable {msg : DynamicMessage} {field : FieldDescriptor} {head next : String}
  {rest : List String}

theorem view_leaf (hfield : pool.getFieldByName msg.desc head = some field) :
    view pool [head] msg = some (msg.getField field, msg.hasField field) := by
  simp [view, locate, hfield]

theorem view_descend (hfield : pool.getFieldByName msg.desc head = some field)
    {d : MessageDescriptor} (hchild : field.child? = some d) :
    view pool (head :: next :: rest) msg = view pool (next :: rest) (child msg field d) := by
  simp [view, locate, hfield, hchild]

/-- A view depends on the type of the message and on the first field of the path only. -/
theorem view_congr {msg' : DynamicMessage} (hdesc : msg'.desc = msg.desc)
    (hfield : pool.getFieldByName msg.desc head = some field)
    (hfields : msg'.fields field.number = msg.fields field.number) :
    view pool (head :: rest) msg' = view pool (head :: rest) msg := by
  have hfield' : pool.getFieldByName msg'.desc head = some field := by rw [hdesc, hfield]
  have hget : msg'.getField field = msg.getField field := DynamicMessage.getField_congr hfields
  have hhas : msg'.hasField field = msg.hasField field := DynamicMessage.hasField_congr hfields
  cases rest with
  | nil => rw [view_leaf hfield, view_leaf hfield', hget, hhas]
  | cons next rest =>
    cases hchild : field.child? with
    | none => simp [view, locate, hfield, hfield', hchild]
    | some d =>
      rw [view_descend hfield hchild, view_descend hfield' hchild]
      simp only [child, hget]

end Cons

/-- An unset message field reads as the empty message. -/
theorem child_of_unset {msg : DynamicMessage} {field : FieldDescriptor} {d : MessageDescriptor}
    (hchild : field.child? = some d) (hnone : msg.fields field.number = none) :
    child msg field d = .new d := by
  have hget : msg.getField field = .message d (fun _ => none) := by
    rw [DynamicMessage.getField_of_unset hnone, FieldDescriptor.defaultValue_of_child hchild]
  rw [child, hget]
  rfl

/-- An empty message reads as unset. -/
theorem view_new {path : List String} {desc : MessageDescriptor} {leaf : FieldDescriptor}
    (hleaf : leafField pool path desc = some leaf) :
    view pool path (.new desc) = some (leaf.defaultValue, false) := by
  induction path generalizing desc with
  | nil => cases hleaf
  | cons head rest ih =>
    cases rest with
    | nil =>
      rw [leafField_leaf] at hleaf
      have hfield : pool.getFieldByName (DynamicMessage.new desc).desc head = some leaf := hleaf
      rw [view_leaf hfield, DynamicMessage.getField_new, DynamicMessage.hasField_new]
    | cons next rest =>
      obtain ⟨f, d, hf, hchild, hleaf⟩ := leafField_descend.mp hleaf
      have hfield : pool.getFieldByName (DynamicMessage.new desc).desc head = some f := hf
      -- an unset message field is read as an empty message
      rw [view_descend hfield hchild, child_of_unset hchild rfl]
      exact ih hleaf

/-! ## Oneofs along a path -/

/-- Whether binding at `q` clears the leaf of `p`: where the two paths part, they pass different
    members of one oneof. -/
def clears (pool : DescriptorPool) :
    (q p : List String) → MessageDescriptor → Bool
  | qhead :: qrest, phead :: prest, desc =>
    match pool.getFieldByName desc qhead, pool.getFieldByName desc phead with
    | some g, some f =>
      -- through the same field the two paths go on together
      if g.number = f.number then
        match f.child? with
        | some d => clears pool qrest prest d
        | none => false
      else g.sameOneof f
    | _, _ => false
  | _, _, _ => false

/-- Every field that is stored along a path is the only one of its oneof that is. -/
def Locked (pool : DescriptorPool) : List String → DynamicMessage → Prop
  | [], _ => True
  | head :: rest, msg =>
    match pool.getFieldByName msg.desc head with
    | none => True
    | some field =>
      ((msg.fields field.number).isSome → storedAlone pool msg field = true) ∧
        match field.child? with
        | some d => Locked pool rest (child msg field d)
        | none => True

/-- How one binding changes what is read at a path with a singular scalar leaf: `q` and `value`
    are bound, `p` is the path and `state` what was read there. -/
def viewStep (pool : DescriptorPool) (mode : BindMode) (p : List String) (leaf : FieldDescriptor)
    (desc : MessageDescriptor) (q : List String) (value : String) (state : Value × Bool) :
    Value × Bool :=
  if q = p then
    match parseScalar leaf.kind value with
    | some coerced =>
      if mode = .fillIfUnset ∧ state.2 then state else (coerced, leaf.sticks coerced)
    | none => state
  else if clears pool q p desc then (leaf.defaultValue, false)
  else state

/-! ## Setting one field -/

section SetField

variable {msg : DynamicMessage} {f g : FieldDescriptor} {head : String} {rest : List String}

/-- A field that has just been set is the only one of its oneof that is. -/
theorem storedAlone_setField_self (v : Value) :
    storedAlone pool (msg.setField pool f v) f = true := by
  refine storedAlone_iff.mpr ⟨by simp, ?_⟩
  intro h hh hone hne
  rw [DynamicMessage.setField_desc] at hh
  rw [DynamicMessage.setField_fields hh, if_neg hne, if_pos hone]

/-- Setting a field outside the oneof keeps it that way. -/
theorem storedAlone_setField_of_ne (hf : f ∈ pool.fields msg.desc) (hg : g ∈ pool.fields msg.desc)
    (hne : f.number ≠ g.number) (hone : g.sameOneof f = false) (v : Value)
    (h : storedAlone pool msg f = true) : storedAlone pool (msg.setField pool g v) f = true := by
  obtain ⟨hstored, halone⟩ := storedAlone_iff.mp h
  refine storedAlone_iff.mpr ⟨?_, ?_⟩
  · rw [DynamicMessage.setField_fields_apart hf hne hone]
    exact hstored
  · intro k hk hfk hkf
    rw [DynamicMessage.setField_desc] at hk
    rw [DynamicMessage.setField_fields hk]
    have hkg : k.number ≠ g.number := by
      intro heq
      rw [pool.eq_of_number_eq hk hg heq, FieldDescriptor.sameOneof_comm, hone] at hfk
      cases hfk
    rw [if_neg hkg, halone k hk hfk hkf]
    split <;> rfl

theorem child_congr {msg' : DynamicMessage} (hfields : msg'.fields f.number = msg.fields f.number)
    (d : MessageDescriptor) : child msg' f d = child msg f d := by
  rw [child, DynamicMessage.getField_congr hfields, child]

theorem child_setField_self (m : DynamicMessage) :
    child (msg.setField pool f (.message m.desc m.fields)) f m.desc = m := by
  rw [child, DynamicMessage.getField_setField]

/-! ### Locked paths -/

theorem locked_cons (hfield : pool.getFieldByName msg.desc head = some f) :
    Locked pool (head :: rest) msg ↔
      ((msg.fields f.number).isSome → storedAlone pool msg f = true) ∧
        ∀ d, f.child? = some d → Locked pool rest (child msg f d) := by
  rw [Locked, hfield]
  simp only
  apply and_congr_right
  intro _
  cases hchild : f.child? with
  | none => simp
  | some d => simp

theorem locked_new (path : List String) (desc : MessageDescriptor) :
    Locked pool path (.new desc) := by
  induction path generalizing desc with
  | nil => trivial
  | cons head rest ih =>
    cases hfield : pool.getFieldByName desc head with
    | none => simp [Locked, hfield]
    | some f =>
      refine (locked_cons hfield).mpr ⟨by simp, ?_⟩
      intro d hchild
      rw [child_of_unset hchild rfl]
      exact ih d

/-- An unset first field locks the path. -/
theorem locked_of_unset (hfield : pool.getFieldByName msg.desc head = some f)
    (hnone : msg.fields f.number = none) : Locked pool (head :: rest) msg := by
  refine (locked_cons hfield).mpr ⟨by simp [hnone], ?_⟩
  intro d hchild
  rw [child_of_unset hchild hnone]
  exact locked_new rest d

/-! ### The first field of the path -/

section Child

variable {next : String} {d : MessageDescriptor} {m : DynamicMessage}

theorem view_setField_child (hfield : pool.getFieldByName msg.desc head = some f)
    (hchild : f.child? = some d) (hdesc : m.desc = d) :
    view pool (head :: next :: rest) (msg.setField pool f (.message m.desc m.fields)) =
      view pool (next :: rest) m := by
  subst hdesc
  have hfield' : pool.getFieldByName
      (msg.setField pool f (.message m.desc m.fields)).desc head = some f := hfield
  rw [view_descend hfield' hchild, child_setField_self]

theorem locked_setField_child (hfield : pool.getFieldByName msg.desc head = some f)
    (hchild : f.child? = some d) (hdesc : m.desc = d) (hlock : Locked pool rest m) :
    Locked pool (head :: rest) (msg.setField pool f (.message m.desc m.fields)) := by
  subst hdesc
  have hfield' : pool.getFieldByName
      (msg.setField pool f (.message m.desc m.fields)).desc head = some f := hfield
  refine (locked_cons hfield').mpr ⟨fun _ => storedAlone_setField_self _, ?_⟩
  intro d hd
  rw [hchild] at hd
  cases hd
  rw [child_setField_self]
  exact hlock

end Child

/-! ### Another field of the message -/

/-- A path whose first field is unset reads as unset. -/
theorem view_of_unset (hfield : pool.getFieldByName msg.desc head = some f)
    (hnone : msg.fields f.number = none) {leaf : FieldDescriptor}
    (hleaf : leafField pool (head :: rest) msg.desc = some leaf) :
    view pool (head :: rest) msg = some (leaf.defaultValue, false) := by
  have hfield' : pool.getFieldByName (DynamicMessage.new msg.desc).desc head = some f := hfield
  have hempty : view pool (head :: rest) msg = view pool (head :: rest) (.new msg.desc) :=
    view_congr rfl hfield' hnone
  rw [hempty, view_new hleaf]

/-- Setting another field than the first one of a path: the path is cleared if the two fields
    share a oneof, and otherwise reads as before. -/
theorem view_setField_of_ne (hfield : pool.getFieldByName msg.desc head = some f)
    (hg : g ∈ pool.fields msg.desc) (hne : f.number ≠ g.number)
    (hlock : Locked pool (head :: rest) msg) {leaf : FieldDescriptor}
    (hleaf : leafField pool (head :: rest) msg.desc = some leaf) (v : Value) :
    Locked pool (head :: rest) (msg.setField pool g v) ∧
      view pool (head :: rest) (msg.setField pool g v) =
        if g.sameOneof f then some (leaf.defaultValue, false)
        else view pool (head :: rest) msg := by
  have hf := pool.mem_fields_of_getFieldByName hfield
  have hfield' : pool.getFieldByName (msg.setField pool g v).desc head = some f := hfield
  have hfields := DynamicMessage.setField_fields (f := g) hf v
  rw [if_neg hne] at hfields
  by_cases hone : g.sameOneof f = true
  · -- the first field of the path has been cleared
    rw [if_pos hone] at hfields ⊢
    exact ⟨locked_of_unset hfield' hfields, view_of_unset hfield' hfields hleaf⟩
  · -- it is stored as before, and so is everything behind it
    rw [if_neg hone] at hfields ⊢
    obtain ⟨halone, hrest⟩ := (locked_cons hfield).mp hlock
    refine ⟨(locked_cons hfield').mpr ⟨?_, ?_⟩, view_congr rfl hfield hfields⟩
    · intro hstored
      rw [hfields] at hstored
      exact storedAlone_setField_of_ne hf hg hne (by simpa using hone) v (halone hstored)
    · intro d hchild
      rw [child_congr hfields]
      exact hrest d hchild

/-- If another member of the oneof is set, a locked path reads as unset. -/
theorem view_of_sibling_set (hfield : pool.getFieldByName msg.desc head = some f)
    (hg : g ∈ pool.fields msg.desc) (hne : f.number ≠ g.number) (hone : g.sameOneof f = true)
    (hset : msg.hasField g = true) (hlock : Locked pool (head :: rest) msg)
    {leaf : FieldDescriptor} (hleaf : leafField pool (head :: rest) msg.desc = some leaf) :
    view pool (head :: rest) msg = some (leaf.defaultValue, false) := by
  refine view_of_unset hfield ?_ hleaf
  cases hv : msg.fields f.number with
  | none => rfl
  | some v =>
    -- a locked field is stored alone, but the other member is set
    obtain ⟨halone, -⟩ := (locked_cons hfield).mp hlock
    have halone := (storedAlone_iff.mp (halone (by simp [hv]))).2 g hg
      (by rw [FieldDescriptor.sameOneof_comm]; exact hone) (Ne.symm hne)
    rw [DynamicMessage.hasField_of_unset halone] at hset
    cases hset

end SetField

/-! ## One binding -/

theorem coerceScalar_eq_ok_iff {kind : Kind} {v path : String} {w : Value} :
    coerceScalar kind v path = .ok w ↔ parseScalar kind v = some w := by
  unfold coerceScalar
  split
  · simp [parseScalar]
  · simp [parseScalar]
  · cases parseScalar kind v <;> simp

/-- The outcomes after which a request is still being built. -/
def BindOutcome.Proceeds : BindOutcome → Prop
  | .ok => True
  | .error (.unknownField _ _) => True
  | _ => False

theorem leafOutcome_proceeds {field : FieldDescriptor}
    (h : (leafOutcome fullPath value field).Proceeds) : leafOutcome fullPath value field = .ok := by
  cases hout : leafOutcome fullPath value field with
  | ok => rfl
  | panic =>
    rw [hout] at h
    exact h.elim
  | error e =>
    rw [hout] at h
    cases e with
    | unknownField p f => exact absurd hout leafOutcome_ne_unknownField
    | _ => exact h.elim

/-- What binding a leaf field can do, if it does not fail. -/
theorem bindLeaf_proceeds {msg : DynamicMessage} {f : FieldDescriptor} (h : WellTyped pool msg)
    (hf : f ∈ pool.fields msg.desc)
    (hout : (bindLeaf pool mode fullPath value msg f).2.Proceeds) :
    ∃ coerced, parseScalar f.kind value = some coerced ∧
      ((f.cardinality = .list ∧ ∃ items, msg.getField f = .list items ∧
          (bindLeaf pool mode fullPath value msg f).1 =
            msg.setField pool f (.list (items ++ [coerced]))) ∨
        (f.cardinality = .singular ∧
          (bindLeaf pool mode fullPath value msg f).1 =
            if mode = .fillIfUnset ∧ msg.hasField f then msg
            else msg.setField pool f coerced)) := by
  rcases bindLeaf_cases mode fullPath value h hf with
    ⟨e, hleaf, hbind⟩ | ⟨c, -, hc, ⟨hcard, items, hitems, hbind⟩ | ⟨hcard, hbind⟩⟩
  · -- a leaf never fails on an unknown field, so it does not fail here
    rw [hbind, ← hleaf] at hout
    rw [leafOutcome_proceeds hout] at hleaf
    cases hleaf
  · exact ⟨c, coerceScalar_eq_ok_iff.mp hc, .inl ⟨hcard, items, hitems, by rw [hbind]⟩⟩
  · exact ⟨c, coerceScalar_eq_ok_iff.mp hc, .inr ⟨hcard, by rw [hbind]⟩⟩

theorem child?_of_scalar {f : FieldDescriptor} (hkind : f.kind.isMessage = false) :
    f.child? = none := by
  cases hchild : f.child? with
  | none => rfl
  | some d =>
    rw [(FieldDescriptor.child?_eq_some_iff.mp hchild).1] at hkind
    cases hkind

theorem leafOutcome_of_child {f : FieldDescriptor} {d : MessageDescriptor}
    (hchild : f.child? = some d) :
    leafOutcome fullPath value f = .error (.unsupportedField (join "." fullPath) "message") := by
  obtain ⟨hkind, hcard⟩ := FieldDescriptor.child?_eq_some_iff.mp hchild
  simp [leafOutcome, FieldDescriptor.isMap, hcard, hkind, coerceScalar]

/-- A leaf that has just been set locks its path. -/
theorem locked_setField_leaf {msg : DynamicMessage} {f : FieldDescriptor} {head : String}
    (hfield : pool.getFieldByName msg.desc head = some f) (hnochild : f.child? = none) (v : Value) :
    Locked pool [head] (msg.setField pool f v) := by
  have hfield' : pool.getFieldByName (msg.setField pool f v).desc head = some f := hfield
  refine (locked_cons hfield').mpr ⟨fun _ => storedAlone_setField_self v, ?_⟩
  intro d hchild
  rw [hnochild] at hchild
  cases hchild

theorem locked_bindLeaf {msg : DynamicMessage} {f : FieldDescriptor} {head : String}
    (h : WellTyped pool msg) (hlock : Locked pool [head] msg)
    (hfield : pool.getFieldByName msg.desc head = some f) (hnochild : f.child? = none) :
    Locked pool [head] (bindLeaf pool mode fullPath value msg f).1 := by
  have hset := locked_setField_leaf hfield hnochild
  rcases bindLeaf_cases mode fullPath value h (pool.mem_fields_of_getFieldByName hfield) with
    ⟨e, -, hbind⟩ | ⟨c, -, -, ⟨-, items, -, hbind⟩ | ⟨-, hbind⟩⟩
  · rw [hbind]
    exact hlock
  · rw [hbind]
    exact hset _
  · rw [hbind]
    split
    · exact hlock
    · exact hset c

/-- A singular scalar leaf is bound: it is set, or kept if the mode says so. -/
theorem view_bindLeaf_self {msg : DynamicMessage} {f : FieldDescriptor} {head : String}
    (h : WellTyped pool msg) (hfield : pool.getFieldByName msg.desc head = some f)
    (hcard : f.cardinality = .singular)
    (hok : leafOutcome fullPath value f = .ok) (desc : MessageDescriptor) :
    view pool [head] (bindLeaf pool mode fullPath value msg f).1 =
      some (viewStep pool mode [head] f desc [head] value (msg.getField f, msg.hasField f)) := by
  have hf := pool.mem_fields_of_getFieldByName hfield
  rcases bindLeaf_cases mode fullPath value h hf with
    ⟨e, hout, -⟩ | ⟨c, -, hc, ⟨hlist, -⟩ | ⟨-, hbind⟩⟩
  · rw [hok] at hout
    cases hout
  · rw [hcard] at hlist
    cases hlist
  · rw [coerceScalar_eq_ok_iff] at hc
    rw [hbind, viewStep, if_pos rfl, hc]
    simp only
    by_cases hkeep : mode = .fillIfUnset ∧ msg.hasField f = true
    · rw [if_pos hkeep, if_pos hkeep, view_leaf hfield]
    · have hfield' : pool.getFieldByName (msg.setField pool f c).desc head = some f := hfield
      rw [if_neg hkeep, if_neg hkeep, view_leaf hfield', DynamicMessage.getField_setField,
        DynamicMessage.hasField_setField]

/-- A step on two paths through one field is the step on what follows. -/
theorem viewStep_cons {head : String} {p q : List String} {desc d : MessageDescriptor}
    {f leaf : FieldDescriptor} (hfield : pool.getFieldByName desc head = some f)
    (hchild : f.child? = some d) (state : Value × Bool) :
    viewStep pool mode (head :: p) leaf desc (head :: q) value state =
      viewStep pool mode p leaf d q value state := by
  have hclears : clears pool (head :: q) (head :: p) desc = clears pool q p d := by
    simp [clears, hfield, hchild]
  simp only [viewStep, List.cons.injEq, true_and, hclears]

/-! ### Where the paths part -/

section Apart

variable {msg : DynamicMessage} {f g leaf : FieldDescriptor} {phead qhead : String}
  {prest qrest : List String} {state : Value × Bool}

/-- What a binding that proceeds does to the message it starts from: its first field is set, or
    the field is a leaf that is set already and is kept. -/
theorem bindInner_proceeds (h : WellTyped pool msg)
    (hqfield : pool.getFieldByName msg.desc qhead = some g)
    (hout : (bindInner pool mode fullPath value (qhead :: qrest) msg).2.Proceeds) :
    (∃ v, (bindInner pool mode fullPath value (qhead :: qrest) msg).1 = msg.setField pool g v) ∨
      msg.hasField g = true ∧
        (bindInner pool mode fullPath value (qhead :: qrest) msg).1 = msg := by
  have hg := pool.mem_fields_of_getFieldByName hqfield
  cases qrest with
  | nil =>
    rw [bindInner_leaf hqfield] at hout ⊢
    obtain ⟨c, -, ⟨-, items, -, hbind⟩ | ⟨-, hbind⟩⟩ := bindLeaf_proceeds h hg hout
    · exact .inl ⟨_, hbind⟩
    · -- a leaf that is filled is set already, or is set now
      rw [hbind]
      split
      · next hkeep => exact .inr ⟨hkeep.2, rfl⟩
      · exact .inl ⟨c, rfl⟩
  | cons next qrest =>
    cases hchild : g.child? with
    | none =>
      rw [bindInner_notAMessage hqfield hchild] at hout
      exact hout.elim
    | some d =>
      rw [bindInner_descend h hqfield hchild]
      exact .inl ⟨_, rfl⟩

theorem viewStep_unknown (hpfield : pool.getFieldByName msg.desc phead = some f)
    (hqfield : pool.getFieldByName msg.desc qhead = none) :
    viewStep pool mode (phead :: prest) leaf msg.desc (qhead :: qrest) value state = state := by
  have hne : qhead :: qrest ≠ phead :: prest := by
    intro heq
    cases heq
    rw [hqfield] at hpfield
    cases hpfield
  have hclears : clears pool (qhead :: qrest) (phead :: prest) msg.desc = false := by
    simp [clears, hqfield]
  rw [viewStep, if_neg hne, hclears]
  rfl

theorem viewStep_apart (hpfield : pool.getFieldByName msg.desc phead = some f)
    (hqfield : pool.getFieldByName msg.desc qhead = some g) (hnum : g.number ≠ f.number) :
    viewStep pool mode (phead :: prest) leaf msg.desc (qhead :: qrest) value state =
      if g.sameOneof f then (leaf.defaultValue, false) else state := by
  have hne : qhead :: qrest ≠ phead :: prest := by
    intro heq
    cases heq
    rw [hqfield] at hpfield
    cases hpfield
    exact hnum rfl
  have hclears : clears pool (qhead :: qrest) (phead :: prest) msg.desc = g.sameOneof f := by
    simp [clears, hqfield, hpfield, hnum]
  rw [viewStep, if_neg hne, hclears]

/-- A binding that starts with another field than the path clears the path or leaves it alone. -/
theorem view_bindInner_apart (h : WellTyped pool msg) (hlock : Locked pool (phead :: prest) msg)
    (hleaf : leafField pool (phead :: prest) msg.desc = some leaf)
    (hpfield : pool.getFieldByName msg.desc phead = some f)
    (hqfield : pool.getFieldByName msg.desc qhead = some g) (hnum : g.number ≠ f.number)
    (hout : (bindInner pool mode fullPath value (qhead :: qrest) msg).2.Proceeds)
    (hview : view pool (phead :: prest) msg = some state) :
    Locked pool (phead :: prest) (bindInner pool mode fullPath value (qhead :: qrest) msg).1 ∧
      view pool (phead :: prest) (bindInner pool mode fullPath value (qhead :: qrest) msg).1 =
        some (viewStep pool mode (phead :: prest) leaf msg.desc (qhead :: qrest) value state) := by
  have hg := pool.mem_fields_of_getFieldByName hqfield
  rw [viewStep_apart hpfield hqfield hnum]
  rcases bindInner_proceeds h hqfield hout with ⟨v, hset⟩ | ⟨hkeep, hsame⟩
  · obtain ⟨hlock', hview'⟩ := view_setField_of_ne hpfield hg (Ne.symm hnum) hlock hleaf v
    rw [hset]
    refine ⟨hlock', ?_⟩
    rw [hview', hview]
    split <;> rfl
  · -- the other field is kept as set; if it shares a oneof, the path was unset before
    rw [hsame]
    refine ⟨hlock, ?_⟩
    by_cases hone : g.sameOneof f = true
    · rw [if_pos hone]
      exact view_of_sibling_set hpfield hg (Ne.symm hnum) hone hkeep hlock hleaf
    · rw [if_neg hone]
      exact hview

end Apart

/-! ### Along the path -/

/-- A binding that passes a singular scalar field, seen from that field: it goes no further, and
    sets or keeps it. -/
theorem view_bindInner_leaf {msg : DynamicMessage} (h : WellTyped pool msg) {head : String}
    {rest : List String} (hlock : Locked pool [head] msg) {leaf : FieldDescriptor}
    (hfield : pool.getFieldByName msg.desc head = some leaf)
    (hcard : leaf.cardinality = .singular) (hkind : leaf.kind.isMessage = false)
    (hout : (bindInner pool mode fullPath value (head :: rest) msg).2.Proceeds)
    {state : Value × Bool} (hview : view pool [head] msg = some state) :
    Locked pool [head] (bindInner pool mode fullPath value (head :: rest) msg).1 ∧
      view pool [head] (bindInner pool mode fullPath value (head :: rest) msg).1 =
        some (viewStep pool mode [head] leaf msg.desc (head :: rest) value state) := by
  have hf := pool.mem_fields_of_getFieldByName hfield
  have hnochild : leaf.child? = none := child?_of_scalar hkind
  cases rest with
  | nil =>
    rw [bindInner_leaf hfield] at hout ⊢
    have hok := leafOutcome_proceeds (bindLeaf_outcome h hf ▸ hout)
    rw [view_leaf hfield, Option.some.injEq] at hview
    subst hview
    exact ⟨locked_bindLeaf h hlock hfield hnochild,
      view_bindLeaf_self h hfield hcard hok msg.desc⟩
  | cons next rest =>
    rw [bindInner_notAMessage hfield hnochild] at hout
    exact hout.elim

/-- **One binding, seen from a path with a singular scalar leaf.** -/
theorem view_bindInner (p q : List String) {msg : DynamicMessage} (h : WellTyped pool msg)
    (hlock : Locked pool p msg) {leaf : FieldDescriptor}
    (hleaf : leafField pool p msg.desc = some leaf) (hcard : leaf.cardinality = .singular)
    (hkind : leaf.kind.isMessage = false)
    (hout : (bindInner pool mode fullPath value q msg).2.Proceeds) {state : Value × Bool}
    (hview : view pool p msg = some state) :
    Locked pool p (bindInner pool mode fullPath value q msg).1 ∧
      view pool p (bindInner pool mode fullPath value q msg).1 =
        some (viewStep pool mode p leaf msg.desc q value state) := by
  induction p generalizing q msg with
  | nil => cases hleaf
  | cons phead prest ih =>
    cases q with
    | nil => exact hout.elim
    | cons qhead qrest =>
      obtain ⟨f, hpfield⟩ := exists_field_of_leafField hleaf
      have hf := pool.mem_fields_of_getFieldByName hpfield
      cases hqfield : pool.getFieldByName msg.desc qhead with
      | none =>
        -- an unknown name changes nothing
        rw [bindInner_unknown hqfield, viewStep_unknown hpfield hqfield]
        exact ⟨hlock, hview⟩
      | some g =>
        have hg := pool.mem_fields_of_getFieldByName hqfield
        by_cases hnum : g.number = f.number
        · -- both paths pass the same field
          cases pool.eq_of_number_eq hg hf hnum
          cases pool.name_injective hqfield hpfield
          cases prest with
          | nil =>
            rw [leafField_leaf, hpfield, Option.some.injEq] at hleaf
            subst hleaf
            exact view_bindInner_leaf h hlock hpfield hcard hkind hout hview
          | cons pnext prest =>
            obtain ⟨f', d, hf', hchild, hleaf⟩ := leafField_descend.mp hleaf
            cases hpfield.symm.trans hf'
            cases qrest with
            | nil =>
              -- a message field is no leaf
              rw [bindInner_leaf hqfield] at hout
              have hok := leafOutcome_proceeds (bindLeaf_outcome h hg ▸ hout)
              rw [leafOutcome_of_child hchild] at hok
              cases hok
            | cons qnext qrest =>
              -- both paths go on in the message that the field holds
              obtain ⟨-, hwt⟩ := getField_eq_child h hg hchild
              obtain ⟨-, hrest⟩ := (locked_cons hpfield).mp hlock
              rw [bindInner_descend h hqfield hchild] at hout ⊢
              rw [view_descend hpfield hchild] at hview
              rw [← child_desc msg f d] at hleaf
              obtain ⟨hlock', hview'⟩ := ih (qnext :: qrest) hwt (hrest d hchild) hleaf hout hview
              have hdesc := bindInner_desc mode fullPath value (qnext :: qrest) hwt
              rw [child_desc] at hdesc hview'
              refine ⟨locked_setField_child hpfield hchild hdesc hlock', ?_⟩
              rw [view_setField_child hpfield hchild hdesc, hview', viewStep_cons hpfield hchild]
        · exact view_bindInner_apart h hlock hleaf hpfield hqfield hnum hout hview

/-- An overwriting binding sets a singular leaf to the coerced value. -/
theorem view_overwrite_leaf {msg : DynamicMessage} (h : WellTyped pool msg) {head : String}
    {leaf : FieldDescriptor} (hfield : pool.getFieldByName msg.desc head = some leaf)
    (hcard : leaf.cardinality = .singular)
    (hout : (bindLeaf pool .overwrite fullPath value msg leaf).2 = .ok) :
    ∃ coerced, parseScalar leaf.kind value = some coerced ∧
      Locked pool [head] (bindLeaf pool .overwrite fullPath value msg leaf).1 ∧
      view pool [head] (bindLeaf pool .overwrite fullPath value msg leaf).1 =
        some (coerced, leaf.sticks coerced) := by
  have hf := pool.mem_fields_of_getFieldByName hfield
  rcases bindLeaf_cases .overwrite fullPath value h hf with
    ⟨e, -, hbind⟩ | ⟨c, -, hc, ⟨hlist, -⟩ | ⟨-, hbind⟩⟩
  · rw [hbind] at hout
    cases hout
  · rw [hcard] at hlist
    cases hlist
  · have hfield' : pool.getFieldByName (msg.setField pool leaf c).desc head = some leaf := hfield
    have hnochild := child?_of_scalar (admits_of_coerceScalar hc).1
    rw [if_neg (by simp)] at hbind
    rw [hbind]
    refine ⟨c, coerceScalar_eq_ok_iff.mp hc, locked_setField_leaf hfield hnochild c, ?_⟩
    rw [view_leaf hfield', DynamicMessage.getField_setField, DynamicMessage.hasField_setField]

/-- **An overwriting binding, seen from its own path**: the coerced value is read, and the path
    is locked, whatever was there before. -/
theorem view_overwrite_self (p : List String) {msg : DynamicMessage} (h : WellTyped pool msg)
    {leaf : FieldDescriptor} (hleaf : leafField pool p msg.desc = some leaf)
    (hcard : leaf.cardinality = .singular)
    (hout : (bindInner pool .overwrite fullPath value p msg).2 = .ok) :
    ∃ coerced, parseScalar leaf.kind value = some coerced ∧
      Locked pool p (bindInner pool .overwrite fullPath value p msg).1 ∧
      view pool p (bindInner pool .overwrite fullPath value p msg).1 =
        some (coerced, leaf.sticks coerced) := by
  induction p, msg using path_induction pool with
  | nil msg => cases hleaf
  | unknown hfield => simp [leafField, hfield] at hleaf
  | leaf hfield =>
    rw [leafField_leaf] at hleaf
    rw [bindInner_leaf hleaf] at hout ⊢
    exact view_overwrite_leaf h hleaf hcard hout
  | notAMessage hfield hchild => simp [leafField, hfield, hchild] at hleaf
  | @descend msg head next rest f d hfield hchild ih =>
    obtain ⟨-, hwt⟩ := getField_eq_child h (pool.mem_fields_of_getFieldByName hfield) hchild
    have hleaf' : leafField pool (next :: rest) (child msg f d).desc = some leaf := by
      simpa [leafField, hfield, hchild] using hleaf
    rw [bindInner_descend h hfield hchild] at hout ⊢
    obtain ⟨c, hc, hlock, hview⟩ := ih hwt hleaf' hout
    have hdesc := bindInner_desc .overwrite fullPath value (next :: rest) hwt
    rw [child_desc] at hdesc
    -- the child that comes back is set into the field
    refine ⟨c, hc, locked_setField_child hfield hchild hdesc hlock, ?_⟩
    rw [view_setField_child hfield hchild hdesc, hview]

end GrpcGw.Transcode
