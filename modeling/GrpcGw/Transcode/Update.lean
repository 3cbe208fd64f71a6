import GrpcGw.Transcode.View

/-!
# Field-Path Updates

`bind_field_path` as an update along a path: what it leaves at the leaf, and what it leaves alone
at every message on the way.

- `bindInner_reads`: what is read at the path after a binding that succeeds.
- `bindInner_frame`: every message along the path keeps its other fields, up to oneofs.
- `bindFieldPath_lawful`: both, and that the outcome depends on the message type only.
-/

namespace GrpcGw.Transcode

open GrpcGw.Text
open GrpcGw.Reflect

variable {pool : DescriptorPool} {mode : BindMode} {fullPath : List String} {value : String}

/-! ## Locating -/

section Locate

variable {msg : DynamicMessage} {f : FieldDescriptor} {d : MessageDescriptor} {head : String}
  {rest : List String}

theorem locate_leaf (hfield : pool.getFieldByName msg.desc head = some f) :
    locate pool [head] msg = some (msg, f) := by
  simp [locate, hfield]

theorem locate_descend (hfield : pool.getFieldByName msg.desc head = some f)
    (hchild : f.child? = some d) (hrest : rest ≠ []) :
    locate pool (head :: rest) msg = locate pool rest (child msg f d) := by
  obtain ⟨next, rest, rfl⟩ := List.exists_cons_of_ne_nil hrest
  simp [locate, hfield, hchild]

/-- Locating a leaf behind a message field that has just been set. -/
theorem locate_setField_child (hfield : pool.getFieldByName msg.desc head = some f)
    (hchild : f.child? = some d) {m : DynamicMessage} (hdesc : m.desc = d) (hrest : rest ≠ []) :
    locate pool (head :: rest) (msg.setField pool f (.message m.desc m.fields)) =
      locate pool rest m := by
  subst hdesc
  have hfield' : pool.getFieldByName
      (msg.setField pool f (.message m.desc m.fields)).desc head = some f := hfield
  rw [locate_descend hfield' hchild hrest, child_setField_self]

end Locate

/-! ## The leaf -/

/-- How the value of a leaf field changes: a list grows by the coerced value, and a singular field
    is set to it or, if the mode says so, kept. -/
def LeafUpdate (mode : BindMode) (leaf : FieldDescriptor) (coerced old : Value) (set : Bool)
    (new : Value) : Prop :=
  (leaf.cardinality = .list ∧ ∃ items, old = .list items ∧ new = .list (items ++ [coerced])) ∨
    (leaf.cardinality = .singular ∧ new = if mode = .fillIfUnset ∧ set then old else coerced)

theorem bindLeaf_reads {msg : DynamicMessage} {f : FieldDescriptor} (h : WellTyped pool msg)
    (hf : f ∈ pool.fields msg.desc) (hok : (bindLeaf pool mode fullPath value msg f).2 = .ok) :
    ∃ coerced, coerceScalar f.kind value (join "." fullPath) = .ok coerced ∧
      LeafUpdate mode f coerced (msg.getField f) (msg.hasField f)
        ((bindLeaf pool mode fullPath value msg f).1.getField f) := by
  rcases bindLeaf_cases mode fullPath value h hf with
    ⟨e, -, hbind⟩ | ⟨c, -, hc, ⟨hcard, items, hitems, hbind⟩ | ⟨hcard, hbind⟩⟩
  · rw [hbind] at hok
    cases hok
  · refine ⟨c, hc, .inl ⟨hcard, items, hitems, ?_⟩⟩
    rw [hbind, DynamicMessage.getField_setField]
  · refine ⟨c, hc, .inr ⟨hcard, ?_⟩⟩
    rw [hbind]
    split
    · rfl
    · rw [DynamicMessage.getField_setField]

/-- **What is read at the path after a binding that succeeds.** -/
theorem bindInner_reads (path : List String) {msg : DynamicMessage} (h : WellTyped pool msg)
    (hok : (bindInner pool mode fullPath value path msg).2 = .ok) :
    ∃ leaf coerced old set new, leafField pool path msg.desc = some leaf ∧
      coerceScalar leaf.kind value (join "." fullPath) = .ok coerced ∧
      view pool path msg = some (old, set) ∧
      readPath pool path (bindInner pool mode fullPath value path msg).1 = some new ∧
      LeafUpdate mode leaf coerced old set new := by
  induction path, msg using path_induction pool with
  | nil msg => cases hok
  | unknown hfield =>
    rw [bindInner_unknown hfield] at hok
    cases hok
  | @leaf msg head f hfield =>
    have hf := pool.mem_fields_of_getFieldByName hfield
    rw [bindInner_leaf hfield] at hok ⊢
    obtain ⟨c, hc, hupdate⟩ := bindLeaf_reads h hf hok
    have hfield' : pool.getFieldByName (bindLeaf pool mode fullPath value msg f).1.desc head =
        some f := by rw [bindLeaf_desc h hf, hfield]
    refine ⟨f, c, _, _, _, by rw [leafField_leaf, hfield], hc, view_leaf hfield, ?_, hupdate⟩
    rw [readPath, locate_leaf hfield', Option.map_some]
  | notAMessage hfield hchild =>
    rw [bindInner_notAMessage hfield hchild] at hok
    cases hok
  | @descend msg head next rest f d hfield hchild ih =>
    obtain ⟨-, hwt⟩ := getField_eq_child h (pool.mem_fields_of_getFieldByName hfield) hchild
    rw [bindInner_descend h hfield hchild] at hok ⊢
    obtain ⟨leaf, c, old, set, new, hleaf, hc, hview, hread, hupdate⟩ := ih hwt hok
    have hdesc := bindInner_desc mode fullPath value (next :: rest) hwt
    rw [child_desc] at hdesc hleaf
    -- seen along the path, the message is what the rest of the path leaves
    refine ⟨leaf, c, old, set, new, leafField_descend.mpr ⟨f, d, hfield, hchild, hleaf⟩, hc, ?_, ?_,
      hupdate⟩
    · rw [view_descend hfield hchild, hview]
    · rw [readPath_eq_view, view_setField_child hfield hchild hdesc, ← readPath_eq_view, hread]

/-! ## The frame -/

/-- What a message keeps when a field of it is bound: its type, and the value and presence of
    every field outside the oneof of that field. -/
structure KeepsOthers (pool : DescriptorPool) (f : FieldDescriptor) (m m' : DynamicMessage) :
    Prop where
  desc_eq : m'.desc = m.desc
  others : ∀ g ∈ pool.fields m.desc, g.number ≠ f.number → f.sameOneof g = false →
    m'.getField g = m.getField g ∧ m'.hasField g = m.hasField g

theorem keepsOthers_self (f : FieldDescriptor) (m : DynamicMessage) : KeepsOthers pool f m m :=
  ⟨rfl, fun _ _ _ _ => ⟨rfl, rfl⟩⟩

theorem keepsOthers_setField (f : FieldDescriptor) (m : DynamicMessage) (v : Value) :
    KeepsOthers pool f m (m.setField pool f v) := by
  refine ⟨rfl, ?_⟩
  intro g hg hne hone
  have hfields := DynamicMessage.setField_fields_apart hg hne hone v
  exact ⟨DynamicMessage.getField_congr hfields, DynamicMessage.hasField_congr hfields⟩

/-- **Every message along the path keeps its other fields.** The part `pre` of the path leads to
    the message, and `head` is the field of it that the path goes through. -/
theorem bindInner_frame (path : List String) {msg : DynamicMessage} (h : WellTyped pool msg)
    (hok : (bindInner pool mode fullPath value path msg).2 = .ok) {pre rest : List String}
    {head : String} (hpath : path = pre ++ head :: rest) :
    ∃ m m' f, locate pool (pre ++ [head]) msg = some (m, f) ∧
      locate pool (pre ++ [head]) (bindInner pool mode fullPath value path msg).1 = some (m', f) ∧
      KeepsOthers pool f m m' := by
  induction pre generalizing path msg with
  | nil =>
    -- the message that the binding starts from: its first field is set, or kept
    rw [List.nil_append] at hpath
    subst hpath
    cases hfield : pool.getFieldByName msg.desc head with
    | none =>
      rw [bindInner_unknown hfield] at hok
      cases hok
    | some f =>
      have hproceeds : (bindInner pool mode fullPath value (head :: rest) msg).2.Proceeds := by
        rw [hok]
        trivial
      rcases bindInner_proceeds h hfield hproceeds with ⟨v, hset⟩ | ⟨-, hsame⟩
      · have hfield' : pool.getFieldByName (msg.setField pool f v).desc head = some f := hfield
        rw [hset]
        exact ⟨msg, _, f, locate_leaf hfield, locate_leaf hfield', keepsOthers_setField f msg v⟩
      · rw [hsame]
        exact ⟨msg, msg, f, locate_leaf hfield, locate_leaf hfield, keepsOthers_self f msg⟩
  | cons first pre ih =>
    -- a message further down: the binding goes on from the child
    obtain ⟨next, rest', hrest⟩ := List.exists_cons_of_ne_nil
      (show pre ++ head :: rest ≠ [] by simp)
    rw [List.cons_append, hrest] at hpath
    subst hpath
    cases hfield : pool.getFieldByName msg.desc first with
    | none =>
      rw [bindInner_unknown hfield] at hok
      cases hok
    | some f =>
      cases hchild : f.child? with
      | none =>
        rw [bindInner_notAMessage hfield hchild] at hok
        cases hok
      | some d =>
        obtain ⟨-, hwt⟩ := getField_eq_child h (pool.mem_fields_of_getFieldByName hfield) hchild
        rw [bindInner_descend h hfield hchild] at hok ⊢
        obtain ⟨m, m', g, hlocate, hlocate', hkeeps⟩ := ih (next :: rest') hwt hok hrest.symm
        have hdesc := bindInner_desc mode fullPath value (next :: rest') hwt
        rw [child_desc] at hdesc
        have hne : pre ++ [head] ≠ [] := by simp
        refine ⟨m, m', g, ?_, ?_, hkeeps⟩
        · rw [List.cons_append, locate_descend hfield hchild hne, hlocate]
        · rw [List.cons_append, locate_setField_child hfield hchild hdesc hne, hlocate']

/-! ## Both together -/

/-- **`bind_field_path` is a lawful update along a field path.** -/
theorem bindFieldPath_lawful {msg : DynamicMessage} (h : WellTyped pool msg) (path : List String)
    (value : String) (mode : BindMode) :
    (∀ msg' mode', WellTyped pool msg' → msg'.desc = msg.desc →
      (bindFieldPath pool msg' path value mode').2 = (bindFieldPath pool msg path value mode).2) ∧
    ((bindFieldPath pool msg path value mode).2 = .ok →
      (∃ leaf coerced old set new, leafField pool path msg.desc = some leaf ∧
        coerceScalar leaf.kind value (join "." path) = .ok coerced ∧
        view pool path msg = some (old, set) ∧
        readPath pool path (bindFieldPath pool msg path value mode).1 = some new ∧
        LeafUpdate mode leaf coerced old set new) ∧
      ∀ pre head rest, path = pre ++ head :: rest →
        ∃ m m' f, locate pool (pre ++ [head]) msg = some (m, f) ∧
          locate pool (pre ++ [head]) (bindFieldPath pool msg path value mode).1 = some (m', f) ∧
          KeepsOthers pool f m m') := by
  refine ⟨?_, fun hok => ⟨bindInner_reads path h hok, fun pre head rest hpath =>
    bindInner_frame path h hok hpath⟩⟩
  intro msg' mode' h' hdesc
  rw [bindFieldPath, bindFieldPath, bindInner_outcome path h, bindInner_outcome path h', hdesc]

/-- `repeated string tags = 2`. -/
def tagsField : FieldDescriptor :=
  .repeated 2 "tags" .string

/-- `message Note { int32 id = 1; repeated string tags = 2; Note reply = 3; }`. -/
def notePool : DescriptorPool where
  messages :=
    [{ fullName := "demo.Note"
       fields := [.plain 1 "id" .int32, tagsField, .plain 3 "reply" (.message ⟨0⟩)] }]
  services := []
  extensions := []

/-- A tag of a reply that is not there yet. -/
theorem bindFieldPath_lawful_note :
    ∃ old set new, view notePool ["reply", "tags"] (.new ⟨0⟩) = some (old, set) ∧
      readPath notePool ["reply", "tags"]
        (bindFieldPath notePool (.new ⟨0⟩) ["reply", "tags"] "a" .fillIfUnset).1 = some new ∧
      ∃ items, old = .list items ∧ new = .list (items ++ [.string "a"]) := by
  have hok : (bindFieldPath notePool (.new ⟨0⟩) ["reply", "tags"] "a" .fillIfUnset).2 = .ok := by
    decide
  obtain ⟨⟨leaf, coerced, old, set, new, hleaf, hc, hview, hread, hupdate⟩, -⟩ :=
    (bindFieldPath_lawful (wellTyped_new ⟨0⟩) ["reply", "tags"] "a" .fillIfUnset).2 hok
  refine ⟨old, set, new, hview, hread, ?_⟩
  cases hleaf
  cases hc
  rcases hupdate with ⟨-, hlist⟩ | ⟨hcard, -⟩
  · exact hlist
  · cases hcard

end GrpcGw.Transcode
