import GrpcGw.Pattern.Reorder
import GrpcGw.Service.BodyField
import GrpcGw.Transcode.Leaves

/-!
# Messages Sent as Parameters

A client that spells the leaves of a message as path variables and query parameters sends the
message itself: the gateway builds it from them, in whatever order they come.

- `runBindings_leaves`: binding the leaves that are missing from a message completes it.
-/

namespace GrpcGw.Service

open GrpcGw.Text
open GrpcGw.Pattern
open GrpcGw.Reflect
open GrpcGw.Template
open GrpcGw.Routes
open GrpcGw.Transcode

/-! ## Spelling -/

/-- A binding that the gateway reads as a leaf, in either mode. -/
def SpelledBy (leaf : Leaf) (b : Binding) : Prop :=
  b.path = leaf.path ∧ parseScalar leaf.kind b.value = some leaf.value

/-- A binding behind one more field. -/
def Binding.under (name : String) (b : Binding) : Binding :=
  { b with path := name :: b.path }

theorem exists_leaf_of_spelled {ls : List Leaf} {l : List Binding}
    (h : List.Forall₂ SpelledBy ls l) {b : Binding} (hb : b ∈ l) :
    ∃ leaf ∈ ls, SpelledBy leaf b := by
  induction h with
  | nil => cases hb
  | cons hspelled _ ih =>
    rcases List.mem_cons.mp hb with rfl | hb
    · exact ⟨_, List.mem_cons_self, hspelled⟩
    · obtain ⟨leaf, hleaf, hspelled⟩ := ih hb
      exact ⟨leaf, List.mem_cons_of_mem _ hleaf, hspelled⟩

/-- The bindings that spell the leaves behind a field are bindings behind the field. -/
theorem exists_inner_of_spelled {name : String} {ls : List Leaf} {l : List Binding}
    (h : List.Forall₂ SpelledBy (ls.map (Leaf.under name)) l) :
    ∃ inner, l = inner.map (Binding.under name) ∧ List.Forall₂ SpelledBy ls inner := by
  induction ls generalizing l with
  | nil =>
    cases h
    exact ⟨[], rfl, .nil⟩
  | cons leaf ls ih =>
    obtain ⟨b, l, ⟨hpath, hparse⟩, hrest, rfl⟩ := List.forall₂_cons_left_iff.mp h
    obtain ⟨inner, rfl, hinner⟩ := ih hrest
    refine ⟨{ b with path := leaf.path } :: inner, ?_, .cons ⟨rfl, hparse⟩ hinner⟩
    rw [List.map_cons, List.cons.injEq]
    exact ⟨by cases b; cases hpath; rfl, rfl⟩

theorem forall₂_append_left {α β : Type*} {R : α → β → Prop} {l₁ l₂ : List α} {m : List β}
    (h : List.Forall₂ R (l₁ ++ l₂) m) :
    ∃ m₁ m₂, m = m₁ ++ m₂ ∧ List.Forall₂ R l₁ m₁ ∧ List.Forall₂ R l₂ m₂ := by
  refine ⟨m.take l₁.length, m.drop l₁.length, (List.take_append_drop _ _).symm, ?_, ?_⟩
  · simpa using List.forall₂_take l₁.length h
  · simpa using List.forall₂_drop l₁.length h

theorem admits_of_parseScalar {kind : Kind} {text : String} {v : Value}
    (h : parseScalar kind text = some v) : kind.isMessage = false ∧ kind.admits v = true := by
  have hcoerce : coerceScalar kind text "" = .ok v := coerceScalar_eq_ok_iff.mpr h
  exact admits_of_coerceScalar hcoerce

/-! ## One field -/

section Field

variable {pool : DescriptorPool} {mode : BindMode} {msg : DynamicMessage} {f : FieldDescriptor}

/-- The full path appears in error messages only. -/
theorem bindInner_fullPath {fullPath : List String} (fullPath' : List String) {value : String}
    (path : List String) (h : WellTyped pool msg) :
    (bindInner pool mode fullPath' value path msg).1 =
      (bindInner pool mode fullPath value path msg).1 := by
  induction path, msg using path_induction pool with
  | nil msg => rfl
  | unknown hfield => rw [bindInner_unknown hfield, bindInner_unknown hfield]
  | @leaf msg head field hfield =>
    rw [bindInner_leaf hfield, bindInner_leaf hfield]
    unfold bindLeaf
    by_cases hmap : field.isMap = true
    · simp only [hmap, if_true]
    · cases hparse : parseScalar field.kind value with
      | some v =>
        have hcoerce : ∀ path, coerceScalar field.kind value path = .ok v :=
          fun path => coerceScalar_eq_ok_iff.mpr hparse
        simp only [hmap, hcoerce, Bool.false_eq_true, if_false]
      | none =>
        -- a text that is not read changes nothing, whatever the message says
        have hcoerce : ∀ path, ∃ e, coerceScalar field.kind value path = .error e := by
          intro path
          cases hc : coerceScalar field.kind value path with
          | error e => exact ⟨e, rfl⟩
          | ok v =>
            rw [coerceScalar_eq_ok_iff, hparse] at hc
            cases hc
        obtain ⟨e, he⟩ := hcoerce (join "." fullPath)
        obtain ⟨e', he'⟩ := hcoerce (join "." fullPath')
        simp only [hmap, he, he', Bool.false_eq_true, if_false]
  | notAMessage hfield hchild =>
    rw [bindInner_notAMessage hfield hchild, bindInner_notAMessage hfield hchild]
  | descend hfield hchild ih =>
    obtain ⟨-, hwt⟩ := getField_eq_child h (pool.mem_fields_of_getFieldByName hfield) hchild
    rw [bindInner_descend h hfield hchild, bindInner_descend h hfield hchild, ih hwt]

/-- **A run behind one message field** is a run in the message of the field. -/
theorem runBindings_under {d : MessageDescriptor} {l : List Binding} (h : WellTyped pool msg)
    {name : String} (hfield : pool.getFieldByName msg.desc name = some f)
    (hchild : f.child? = some d) (hl : l ≠ []) (hpaths : ∀ b ∈ l, b.path ≠ []) :
    runBindings pool (l.map (Binding.under name)) msg =
      msg.setField pool f (.message (runBindings pool l (child msg f d)).desc
        (runBindings pool l (child msg f d)).fields) := by
  induction l generalizing msg with
  | nil => exact absurd rfl hl
  | cons b l ih =>
    obtain ⟨mode, path, value⟩ := b
    obtain ⟨next, rest, rfl⟩ := List.exists_cons_of_ne_nil (hpaths _ List.mem_cons_self)
    obtain ⟨-, hwt⟩ := getField_eq_child h (pool.mem_fields_of_getFieldByName hfield) hchild
    obtain ⟨hwt₁, -⟩ := bindFieldPath_wellTyped h (name :: next :: rest) value mode
    obtain ⟨-, hdesc⟩ := bindFieldPath_wellTyped hwt (next :: rest) value mode
    -- the first binding sets the field to what the first step of the inner run leaves
    have hstep : (bindFieldPath pool msg (name :: next :: rest) value mode).1 =
        msg.setField pool f (.message
          (bindFieldPath pool (child msg f d) (next :: rest) value mode).1.desc
          (bindFieldPath pool (child msg f d) (next :: rest) value mode).1.fields) := by
      rw [bindFieldPath, bindInner_descend h hfield hchild,
        bindInner_fullPath (name :: next :: rest) _ hwt]
      rfl
    rw [child_desc] at hdesc
    rw [hstep] at hwt₁
    change runBindings pool (l.map (Binding.under name))
        (bindFieldPath pool msg (name :: next :: rest) value mode).1 =
      let m := runBindings pool l (bindFieldPath pool (child msg f d) (next :: rest) value mode).1
      msg.setField pool f (.message m.desc m.fields)
    rw [hstep]
    generalize (bindFieldPath pool (child msg f d) (next :: rest) value mode).1 = m₁ at *
    subst hdesc
    cases l with
    | nil => rfl
    | cons b l =>
      rw [ih hwt₁ hfield (by simp) (fun b' hb' => hpaths b' (List.mem_cons_of_mem _ hb')),
        child_setField_self, DynamicMessage.setField_setField]

/-- One leaf of a field that holds no message. -/
theorem bindFieldPath_scalar {text : String} {v : Value} (h : WellTyped pool msg)
    (hfield : pool.getFieldByName msg.desc f.name = some f)
    (hparse : parseScalar f.kind text = some v) :
    (f.cardinality = .list → ∀ items, msg.getField f = .list items →
        (bindFieldPath pool msg [f.name] text mode).1 =
          msg.setField pool f (.list (items ++ [v]))) ∧
      (f.cardinality = .singular → msg.hasField f = false →
        (bindFieldPath pool msg [f.name] text mode).1 = msg.setField pool f v) := by
  have hf := pool.mem_fields_of_getFieldByName hfield
  have hcoerce : coerceScalar f.kind text (join "." [f.name]) = .ok v :=
    coerceScalar_eq_ok_iff.mpr hparse
  rw [bindFieldPath, bindInner_leaf hfield]
  rcases bindLeaf_cases mode [f.name] text h hf with
    ⟨e, hout, hbind⟩ | ⟨c, -, hc, ⟨hcard, items, hitems, hbind⟩ | ⟨hcard, hbind⟩⟩
  · -- only maps and texts that are not read fail
    constructor
    · intro hcard
      simp [leafOutcome, FieldDescriptor.isMap, hcard, hcoerce] at hout
    · intro hcard
      simp [leafOutcome, FieldDescriptor.isMap, hcard, hcoerce] at hout
  · rw [hcoerce] at hc
    cases hc
    constructor
    · intro _ items' hitems'
      rw [hitems] at hitems'
      cases hitems'
      rw [hbind]
    · intro hsingular
      rw [hcard] at hsingular
      cases hsingular
  · rw [hcoerce] at hc
    cases hc
    constructor
    · intro hlist
      rw [hcard] at hlist
      cases hlist
    · intro _ hunset
      rw [hbind, if_neg (by simp [hunset])]

/-- The elements of a list are appended one by one. -/
theorem runBindings_items {items : List Value} {l : List Binding} {before : List Value}
    (h : WellTyped pool msg) (hfield : pool.getFieldByName msg.desc f.name = some f)
    (hcard : f.cardinality = .list) (hbefore : msg.getField f = .list before) (hitems : items ≠ [])
    (hl : List.Forall₂ SpelledBy
      (items.map fun v => { path := [f.name], kind := f.kind, value := v }) l) :
    runBindings pool l msg = msg.setField pool f (.list (before ++ items)) := by
  induction items generalizing msg l before with
  | nil => exact absurd rfl hitems
  | cons v items ih =>
    rw [List.map_cons] at hl
    obtain ⟨⟨mode, path, text⟩, l, ⟨hpath, hparse⟩, hrest, rfl⟩ :=
      List.forall₂_cons_left_iff.mp hl
    cases hpath
    have hstep : (bindFieldPath pool msg [f.name] text mode).1 =
        msg.setField pool f (.list (before ++ [v])) :=
      (bindFieldPath_scalar h hfield hparse).1 hcard before hbefore
    have hwt := (bindFieldPath_wellTyped h [f.name] text mode).1
    rw [hstep] at hwt
    change runBindings pool l (bindFieldPath pool msg [f.name] text mode).1 = _
    rw [hstep]
    cases items with
    | nil =>
      cases hrest
      rfl
    | cons w items =>
      rw [ih hwt hfield (DynamicMessage.getField_setField _) (by simp) hrest,
        DynamicMessage.setField_setField, List.append_assoc, List.singleton_append]

theorem leavesOf_scalar {v : Value} (hkind : f.kind.isMessage = false)
    (hadmits : f.kind.admits v = true) :
    leavesOf pool f v = [{ path := [f.name], kind := f.kind, value := v }] := by
  cases v with
  | message d fields =>
    cases hk : f.kind <;> simp [hk, Kind.admits, Kind.isMessage] at hadmits hkind
  | list items => cases hk : f.kind <;> simp [hk, Kind.admits] at hadmits
  | _ =>
    rw [leavesOf]
    all_goals simp

/-- A map has no spelling. -/
theorem not_spelled_map {key value : Kind} {v : Value} (hvalid : ValidField pool f v)
    (hcard : f.cardinality = .map key value) (l : List Binding) :
    ¬List.Forall₂ SpelledBy (leavesOf pool f v) l := by
  intro hl
  have hadmits := hvalid.admits
  cases v with
  | map entries =>
    rw [leavesOf] at hl
    · obtain ⟨b, -, ⟨-, hparse⟩, -, -⟩ := List.forall₂_cons_left_iff.mp hl
      have hkind := (admits_of_parseScalar hparse).2
      cases hk : f.kind <;> simp [hk, Kind.admits] at hkind
    all_goals simp
  | _ => simp [FieldDescriptor.admits, hcard] at hadmits

/-- **Binding the leaves of one field** stores the field. -/
theorem runBindings_leavesAt {p : Nat → Bool} {l : List Binding}
    (hsend : SendableOutside pool msg p) (h : WellTyped pool msg) (hf : f ∈ pool.fields msg.desc)
    (hp : p f.number = false)
    (hnested : ∀ d fields, msg.fields f.number = some (.message d fields) →
      ∀ l, List.Forall₂ SpelledBy (leaves pool { desc := d, fields := fields }) l →
        runBindings pool l (.new d) = { desc := d, fields := fields })
    (hl : List.Forall₂ SpelledBy (leavesAt pool f (msg.fields f.number)) l) :
    runBindings pool l (restrict msg p) = restrict msg (fun n => p n || n == f.number) := by
  have hwt := wellTyped_restrict h p
  have hunset : (restrict msg p).fields f.number = none := restrict_fields_of_not hp
  cases hv : msg.fields f.number with
  | none =>
    -- the field holds nothing, so there is nothing to bind
    rw [hv, leavesAt] at hl
    cases hl
    refine DynamicMessage.ext rfl (funext fun n => ?_)
    by_cases hn : n = f.number
    · simp [runBindings, restrict, hn, hv]
    · simp [runBindings, restrict, hn]
  | some v =>
    obtain ⟨hname, halone, hleaf⟩ := hsend.stored f hf hp (by simp [hv])
    have hfield : pool.getFieldByName (restrict msg p).desc f.name = some f := hname
    have hvalid := h f hf v hv
    rw [← setField_restrict hv halone]
    rw [hv, leavesAt] at hl hleaf
    cases hcard : f.cardinality with
    | list =>
      obtain ⟨items, rfl, -⟩ := (validField_list_iff hcard).mp hvalid
      rw [leavesOf] at hl hleaf
      have hempty : (restrict msg p).getField f = .list [] := by
        simp [DynamicMessage.getField_of_unset hunset, FieldDescriptor.defaultValue, hcard]
      exact runBindings_items hwt hfield hcard hempty (by simpa using hleaf) hl
    | map key value => exact absurd hl (not_spelled_map hvalid hcard l)
    | singular =>
      cases hchild : f.child? with
      | some d =>
        -- the leaves lie in the message of the field
        obtain ⟨fields, rfl, -⟩ := (validField_child_iff hchild).mp hvalid
        rw [leavesOf_message] at hl hleaf
        obtain ⟨inner, rfl, hinner⟩ := exists_inner_of_spelled hl
        have hpaths : ∀ b ∈ inner, b.path ≠ [] := by
          intro b hb
          obtain ⟨leaf, hmem, hpath, -⟩ := exists_leaf_of_spelled hinner hb
          rw [hpath]
          exact path_ne_nil_of_mem_leaves hmem
        have hne : inner ≠ [] := by
          rintro rfl
          rw [List.forall₂_nil_right_iff.mp hinner] at hleaf
          exact hleaf rfl
        rw [runBindings_under hwt hfield hchild hne hpaths, child_of_unset hchild hunset,
          hnested d fields hv inner hinner]
      | none =>
        have hadmits : f.kind.admits v = true := by
          simpa [FieldDescriptor.admits, hcard] using hvalid.admits
        have hkind : f.kind.isMessage = false := by
          cases hk : f.kind with
          | message d => simp [FieldDescriptor.child?, hk, hcard] at hchild
          | _ => rfl
        rw [leavesOf_scalar hkind hadmits] at hl
        obtain ⟨⟨mode, path, text⟩, rest, ⟨hpath, hparse⟩, hrest, rfl⟩ :=
          List.forall₂_cons_left_iff.mp hl
        cases hrest
        cases hpath
        have hhas : (restrict msg p).hasField f = false := DynamicMessage.hasField_of_unset hunset
        exact (bindFieldPath_scalar hwt hfield hparse).2 hcard hhas

end Field

/-! ## Whole messages -/

section Message

variable {pool : DescriptorPool} {msg : DynamicMessage}

/-- The leaves of a message outside some of its fields. -/
def leavesOutside (pool : DescriptorPool) (msg : DynamicMessage) (p : Nat → Bool) : List Leaf :=
  ((pool.fields msg.desc).filter fun f => !p f.number).flatMap fun f =>
    leavesAt pool f (msg.fields f.number)

theorem leavesOutside_none : leavesOutside pool msg (fun _ => false) = leaves pool msg := by
  simp [leavesOutside, leaves]

/-- These are the leaves of the rest of the message. -/
theorem leaves_restrict {p : Nat → Bool} :
    leaves pool (restrict msg fun n => !p n) = leavesOutside pool msg p := by
  rw [leaves, leavesOutside, restrict_desc]
  induction pool.fields msg.desc with
  | nil => rfl
  | cons f fs ih =>
    rw [List.flatMap_cons, ih]
    cases hp : p f.number with
    | false => simp [restrict, hp]
    | true => simp [restrict, hp, leavesAt]

theorem runBindings_append (l l' : List Binding) :
    runBindings pool (l ++ l') msg = runBindings pool l' (runBindings pool l msg) :=
  List.foldl_append

/-- The fields of a message one after the other. -/
theorem runBindings_fields {p : Nat → Bool} (hsend : SendableOutside pool msg p)
    (h : WellTyped pool msg) {fs : List FieldDescriptor}
    (hnested : ∀ f ∈ fs, ∀ d fields, msg.fields f.number = some (.message d fields) →
      ∀ l, List.Forall₂ SpelledBy (leaves pool { desc := d, fields := fields }) l →
        runBindings pool l (.new d) = { desc := d, fields := fields })
    (hfs : ∀ f ∈ fs, f ∈ pool.fields msg.desc) (hnodup : (fs.map FieldDescriptor.number).Nodup)
    (hp : ∀ f ∈ fs, p f.number = false) {l : List Binding}
    (hl : List.Forall₂ SpelledBy (fs.flatMap fun f => leavesAt pool f (msg.fields f.number)) l) :
    runBindings pool l (restrict msg p) =
      restrict msg (fun n => p n || (fs.map FieldDescriptor.number).contains n) := by
  induction fs generalizing p l with
  | nil =>
    cases hl
    simp [runBindings]
  | cons f fs ih =>
    rw [List.flatMap_cons] at hl
    obtain ⟨l₁, l₂, rfl, hl₁, hl₂⟩ := forall₂_append_left hl
    rw [List.map_cons, List.nodup_cons] at hnodup
    have hf := hfs f List.mem_cons_self
    have hp' : ∀ g ∈ fs, (p g.number || g.number == f.number) = false := by
      intro g hg
      have hne : g.number ≠ f.number := fun heq => hnodup.1 (heq ▸ List.mem_map_of_mem hg)
      simp [hp g (List.mem_cons_of_mem _ hg), hne]
    have hsend' : SendableOutside pool msg (fun n => p n || n == f.number) :=
      hsend.mono fun n hn => (Bool.or_eq_false_iff.mp hn).1
    rw [runBindings_append, runBindings_leavesAt hsend h hf (hp f List.mem_cons_self)
      (hnested f List.mem_cons_self) hl₁,
      ih hsend' (fun g hg => hnested g (List.mem_cons_of_mem _ hg))
        (fun g hg => hfs g (List.mem_cons_of_mem _ hg)) hnodup.2 hp' hl₂]
    congr 1
    funext n
    rw [List.map_cons, List.contains_cons, Bool.or_assoc]

theorem numbers_nodup (desc : MessageDescriptor) :
    ((pool.fields desc).map FieldDescriptor.number).Nodup := by
  unfold DescriptorPool.fields
  split
  · next m _ => exact m.numbers_nodup
  · exact List.nodup_nil

/-- The leaves of a message outside some of its fields, in the order of the fields. -/
theorem runBindings_leavesOutside {p : Nat → Bool} (hsend : SendableOutside pool msg p)
    (h : WellTyped pool msg)
    (hnested : ∀ f ∈ pool.fields msg.desc, p f.number = false → ∀ d fields,
      msg.fields f.number = some (.message d fields) →
      ∀ l, List.Forall₂ SpelledBy (leaves pool { desc := d, fields := fields }) l →
        runBindings pool l (.new d) = { desc := d, fields := fields })
    {l : List Binding} (hl : List.Forall₂ SpelledBy (leavesOutside pool msg p) l) :
    runBindings pool l (restrict msg p) = msg := by
  have houtside : ∀ f ∈ (pool.fields msg.desc).filter fun f => !p f.number,
      f ∈ pool.fields msg.desc ∧ p f.number = false := by
    intro f hf
    simpa using List.mem_filter.mp hf
  have hnodup : (((pool.fields msg.desc).filter fun f => !p f.number).map
      FieldDescriptor.number).Nodup :=
    (numbers_nodup msg.desc).sublist (List.filter_sublist.map _)
  rw [runBindings_fields hsend h (fun f hf => hnested f (houtside f hf).1 (houtside f hf).2)
    (fun f hf => (houtside f hf).1) hnodup (fun f hf => (houtside f hf).2) hl]
  refine (hsend.mono fun n hn => (Bool.or_eq_false_iff.mp hn).1).restrict_all ?_
  intro f hf
  rw [Bool.or_eq_true, List.contains_iff_mem]
  by_cases hpf : p f.number = true
  · exact .inl hpf
  · exact .inr (List.mem_map_of_mem (List.mem_filter.mpr ⟨hf, by simpa using hpf⟩))

/-- A message is bound from its leaves, at every depth. -/
theorem runBindings_new (hsend : Sendable pool msg) (h : WellTyped pool msg) :
    ∀ l, List.Forall₂ SpelledBy (leaves pool msg) l →
      runBindings pool l (.new msg.desc) = msg := by
  induction hsend with
  | @intro msg hdeclared hstored hnested ih =>
    intro l hl
    have hsend : Sendable pool msg := .intro hdeclared hstored hnested
    rw [← leavesOutside_none] at hl
    rw [← restrict_none]
    refine runBindings_leavesOutside (hsend.outside _) h ?_ hl
    intro f hf _ d fields hv l hl
    exact ih f hf d fields hv (wellTyped_of_validField (h f hf _ hv)) l hl

/-- **Bindings at different paths can be reordered**, in whatever modes they are. -/
theorem runBindings_reorder {l l' : List Binding} (h : WellTyped pool msg)
    (hreorder : KeyedReorder Binding.path l l')
    (hclears : ∀ b ∈ l, ∀ b' ∈ l, clears pool b.path b'.path msg.desc = false)
    (hproceeds : ∀ b ∈ l, (pathOutcome pool b.path b.value b.path msg.desc).Proceeds) :
    runBindings pool l msg = runBindings pool l' msg := by
  refine KeyedReorder.foldl_eq (I := fun m => WellTyped pool m ∧ m.desc = msg.desc) hreorder
    ?_ ?_ ⟨h, rfl⟩
  · rintro m ⟨hm, hdesc⟩ b -
    obtain ⟨hwt, hdesc'⟩ := bindFieldPath_wellTyped hm b.path b.value b.mode
    exact ⟨hwt, hdesc'.trans hdesc⟩
  · rintro m ⟨hm, hdesc⟩ b hb b' hb' hne
    apply bindInner_comm b.path b'.path hm hne
    · rw [hdesc]
      exact hclears b hb b' hb'
    · rw [hdesc]
      exact hproceeds b hb
    · rw [hdesc]
      exact hproceeds b' hb'

/-- **A message is its leaves**: a run of bindings that spell the leaves outside some fields, in any
    order that keeps the elements of each list in theirs, completes the message that holds these
    fields, and each binding succeeds. -/
theorem runBindings_leaves {p : Nat → Bool} (hsend : SendableOutside pool msg p)
    (h : WellTyped pool msg) {l l' : List Binding}
    (hl : List.Forall₂ SpelledBy (leavesOutside pool msg p) l)
    (hreorder : KeyedReorder Binding.path l l') :
    runBindings pool l' (restrict msg p) = msg ∧
      ∀ b ∈ l', pathOutcome pool b.path b.value b.path msg.desc = .ok := by
  -- the leaves are those of a message of its own, which has nothing but them
  have hrest : Addressable pool (restrict msg fun n => !p n) := hsend.sendable_restrict.addressable
  have hwt := wellTyped_restrict h fun n => !p n
  have hleaf : ∀ b ∈ l, ∃ leaf ∈ leaves pool (restrict msg fun n => !p n), SpelledBy leaf b := by
    rw [leaves_restrict]
    exact fun b hb => exists_leaf_of_spelled hl hb
  have hok : ∀ b ∈ l, pathOutcome pool b.path b.value b.path msg.desc = .ok := by
    intro b hb
    obtain ⟨leaf, hmem, hpath, hparse⟩ := hleaf b hb
    have hout := hrest.pathOutcome_leaf hwt leaf hmem b.value hparse b.path
    rw [hpath]
    rwa [hpath] at hout
  refine ⟨?_, fun b hb => hok b (hreorder.mem_iff.mpr hb)⟩
  rw [← runBindings_reorder (wellTyped_restrict h p) hreorder]
  · refine runBindings_leavesOutside hsend h ?_ hl
    intro f hf hp d fields hv l hl
    exact runBindings_new (hsend.nested f hf hp d fields hv)
      (wellTyped_of_validField (h f hf _ hv)) l hl
  · intro b hb b' hb'
    obtain ⟨leaf, hmem, hpath, -⟩ := hleaf b hb
    obtain ⟨leaf', hmem', hpath', -⟩ := hleaf b' hb'
    rw [hpath, hpath']
    exact hrest.clears_leaves hwt leaf hmem leaf' hmem'
  · intro b hb
    rw [restrict_desc, hok b hb]
    trivial

end Message

end GrpcGw.Service
