import GrpcGw.Transcode.Commute
import GrpcGw.Transcode.Spare

/-!
# The Leaves of a Message

A client that has a message and wants to send it as parameters names each scalar of the message
by the field path that leads to it, and writes the scalar as text.

- `leaves`: the scalars of a message with their field paths.
- `Addressable`: the messages whose leaves are reached by their paths.
- `clears_leaves`: no leaf clears another one when it is bound.
- `Sendable`, `SendableOutside`: the messages whose leaves tell everything about them, or about
  some of their fields.
-/

namespace GrpcGw.Transcode

open GrpcGw.Text
open GrpcGw.Reflect

/-! ## Leaves -/

/-- One scalar of a message: the field path that leads to it, the kind of its field and its value.
    A list has a leaf for each of its elements. -/
structure Leaf where
  path : List String
  kind : Kind
  value : Value

/-- A leaf of a nested message, seen from the message that holds it. -/
def Leaf.under (name : String) (leaf : Leaf) : Leaf :=
  { leaf with path := name :: leaf.path }

section Leaves

variable (pool : DescriptorPool)

mutual

/-- The leaves of what is stored in a field. -/
def leavesAt (f : FieldDescriptor) : Option Value → List Leaf
  | none => []
  | some v => leavesOf f v

/-- The leaves of the value of a field. -/
def leavesOf (f : FieldDescriptor) : Value → List Leaf
  | .list items => items.map fun v => { path := [f.name], kind := f.kind, value := v }
  | .message desc fields =>
    ((pool.fields desc).flatMap fun g => leavesAt g (fields g.number)).map (Leaf.under f.name)
  | v => [{ path := [f.name], kind := f.kind, value := v }]

end

/-- The leaves of a message, in the order of its fields. -/
def leaves (msg : DynamicMessage) : List Leaf :=
  (pool.fields msg.desc).flatMap fun f => leavesAt pool f (msg.fields f.number)

/-- A message whose leaves are reached by their paths: the fields that it stores are found under
    their names, and at most one member of a oneof is stored, at every depth. -/
inductive Addressable : DynamicMessage → Prop where
  | intro {msg : DynamicMessage} :
      (∀ f ∈ pool.fields msg.desc, (msg.fields f.number).isSome →
        pool.getFieldByName msg.desc f.name = some f ∧ storedAlone pool msg f = true) →
      (∀ f ∈ pool.fields msg.desc, ∀ d fields, msg.fields f.number = some (.message d fields) →
        Addressable { desc := d, fields := fields }) →
      Addressable msg

/-- A message that its leaves determine: what it stores belongs to declared fields that are found
    under their names, at most one member of a oneof is stored, and every stored field has a leaf,
    at every depth. -/
inductive Sendable : DynamicMessage → Prop where
  | intro {msg : DynamicMessage} :
      (∀ n, (msg.fields n).isSome → ∃ f ∈ pool.fields msg.desc, f.number = n) →
      (∀ f ∈ pool.fields msg.desc, (msg.fields f.number).isSome →
        pool.getFieldByName msg.desc f.name = some f ∧ storedAlone pool msg f = true ∧
          leavesAt pool f (msg.fields f.number) ≠ []) →
      (∀ f ∈ pool.fields msg.desc, ∀ d fields, msg.fields f.number = some (.message d fields) →
        Sendable { desc := d, fields := fields }) →
      Sendable msg

end Leaves

section Laws

variable {pool : DescriptorPool} {msg : DynamicMessage} {f : FieldDescriptor}

theorem leavesOf_message (f : FieldDescriptor) (d : MessageDescriptor)
    (fields : Nat → Option Value) :
    leavesOf pool f (.message d fields) =
      (leaves pool { desc := d, fields := fields }).map (Leaf.under f.name) := by
  rw [leavesOf, leaves]

/-- The leaves of a field are reached through its name. -/
theorem path_of_mem_leavesAt {v : Option Value} {leaf : Leaf} (h : leaf ∈ leavesAt pool f v) :
    ∃ rest, leaf.path = f.name :: rest := by
  cases v with
  | none =>
    rw [leavesAt] at h
    cases h
  | some v =>
    rw [leavesAt] at h
    cases v with
    | list items =>
      rw [leavesOf] at h
      obtain ⟨v, -, rfl⟩ := List.mem_map.mp h
      exact ⟨[], rfl⟩
    | message d fields =>
      rw [leavesOf_message] at h
      obtain ⟨inner, -, rfl⟩ := List.mem_map.mp h
      exact ⟨inner.path, rfl⟩
    | _ =>
      rw [leavesOf] at h
      · rw [List.mem_singleton.mp h]
        exact ⟨[], rfl⟩
      all_goals simp

theorem path_ne_nil_of_mem_leaves {leaf : Leaf} (h : leaf ∈ leaves pool msg) : leaf.path ≠ [] := by
  obtain ⟨f, -, hleaf⟩ := List.mem_flatMap.mp h
  obtain ⟨rest, hpath⟩ := path_of_mem_leavesAt hleaf
  simp [hpath]

namespace Sendable

theorem declared (h : Sendable pool msg) {n : Nat} (hn : (msg.fields n).isSome) :
    ∃ f ∈ pool.fields msg.desc, f.number = n := by
  cases h with
  | intro hdeclared _ _ => exact hdeclared n hn

theorem stored (h : Sendable pool msg) (hf : f ∈ pool.fields msg.desc)
    (hv : (msg.fields f.number).isSome) :
    pool.getFieldByName msg.desc f.name = some f ∧ storedAlone pool msg f = true ∧
      leavesAt pool f (msg.fields f.number) ≠ [] := by
  cases h with
  | intro _ hstored _ => exact hstored f hf hv

theorem nested (h : Sendable pool msg) (hf : f ∈ pool.fields msg.desc) {d : MessageDescriptor}
    {fields : Nat → Option Value} (hv : msg.fields f.number = some (.message d fields)) :
    Sendable pool { desc := d, fields := fields } := by
  cases h with
  | intro _ _ hnested => exact hnested f hf d fields hv

/-- The leaves that determine a message are reached by their paths. -/
theorem addressable (h : Sendable pool msg) : Addressable pool msg := by
  induction h with
  | intro _ hstored _ ih =>
    refine .intro (fun f hf hv => ?_) ih
    obtain ⟨hname, halone, -⟩ := hstored f hf hv
    exact ⟨hname, halone⟩

end Sendable

/-- A message that is valid for a field is well-typed. -/
theorem wellTyped_of_validField {d : MessageDescriptor} {fields : Nat → Option Value}
    (h : ValidField pool f (.message d fields)) :
    WellTyped pool { desc := d, fields := fields } := by
  have hadmits := h.admits
  cases hcard : f.cardinality with
  | singular =>
    have hvalid : ValidValue pool f.kind (.message d fields) :=
      h.parts (f.kind, .message d fields) (by simp [FieldDescriptor.parts, hcard])
    cases hk : f.kind with
    | message d' =>
      rw [hk] at hvalid
      obtain ⟨rfl, hwt⟩ := validValue_message_iff.mp hvalid
      exact hwt
    | _ => simp [FieldDescriptor.admits, hcard, hk, Kind.admits] at hadmits
  | list => simp [FieldDescriptor.admits, hcard] at hadmits
  | map key value => simp [FieldDescriptor.admits, hcard] at hadmits

theorem isSome_of_mem_leavesAt {v : Option Value} {leaf : Leaf} (h : leaf ∈ leavesAt pool f v) :
    v.isSome := by
  cases v with
  | none =>
    rw [leavesAt] at h
    cases h
  | some v => rfl

/-- A leaf of a field is the field itself, or a leaf of the message that the field holds. -/
theorem leavesOf_cases {v : Value} (hvalid : ValidField pool f v) {leaf : Leaf}
    (h : leaf ∈ leavesOf pool f v) :
    (leaf.path = [f.name] ∧ leaf.kind = f.kind ∧ (f.cardinality = .singular → leaf.value = v) ∧
        (f.isMap = false ∨ ∃ entries, leaf.value = .map entries)) ∨
      ∃ d fields inner, f.child? = some d ∧ v = .message d fields ∧
        inner ∈ leaves pool { desc := d, fields := fields } ∧ leaf = inner.under f.name := by
  have hadmits := hvalid.admits
  cases v with
  | list items =>
    rw [leavesOf] at h
    obtain ⟨v, -, rfl⟩ := List.mem_map.mp h
    have hcard : f.cardinality = .list := by
      cases hcard : f.cardinality with
      | list => rfl
      | singular =>
        cases hk : f.kind <;> simp [FieldDescriptor.admits, hcard, hk, Kind.admits] at hadmits
      | map key value => simp [FieldDescriptor.admits, hcard] at hadmits
    exact .inl ⟨rfl, rfl, by simp [hcard], .inl (by simp [FieldDescriptor.isMap, hcard])⟩
  | message d fields =>
    rw [leavesOf_message] at h
    obtain ⟨inner, hinner, rfl⟩ := List.mem_map.mp h
    refine .inr ⟨d, fields, inner, ?_, rfl, hinner, rfl⟩
    -- only a singular message field admits a message
    cases hcard : f.cardinality with
    | singular =>
      have hkind : f.kind.admits (.message d fields) = true := by
        simpa [FieldDescriptor.admits, hcard] using hadmits
      cases hk : f.kind <;> simp [hk, Kind.admits] at hkind
      next d' =>
        rw [FieldDescriptor.child?_eq_some_iff, hk, hkind]
        exact ⟨rfl, hcard⟩
    | list => simp [FieldDescriptor.admits, hcard] at hadmits
    | map key value => simp [FieldDescriptor.admits, hcard] at hadmits
  | map entries =>
    rw [leavesOf] at h
    · rw [List.mem_singleton.mp h]
      exact .inl ⟨rfl, rfl, fun _ => rfl, .inr ⟨entries, rfl⟩⟩
    all_goals simp
  | _ =>
    rw [leavesOf] at h
    · rw [List.mem_singleton.mp h]
      refine .inl ⟨rfl, rfl, fun _ => rfl, .inl ?_⟩
      cases hcard : f.cardinality with
      | map key value => simp [FieldDescriptor.admits, hcard] at hadmits
      | _ => simp [FieldDescriptor.isMap, hcard]
    all_goals simp

/-- **Binding a leaf succeeds**, whatever text is read as its value. -/
theorem Addressable.pathOutcome_leaf (h : Addressable pool msg) (hwt : WellTyped pool msg) :
    ∀ leaf ∈ leaves pool msg, ∀ text, parseScalar leaf.kind text = some leaf.value →
      ∀ fullPath, pathOutcome pool fullPath text leaf.path msg.desc = .ok := by
  induction h with
  | @intro msg hstored _ ih =>
    intro leaf hleaf text hparse fullPath
    obtain ⟨f, hf, hleaf⟩ := List.mem_flatMap.mp hleaf
    obtain ⟨hname, -⟩ := hstored f hf (isSome_of_mem_leavesAt hleaf)
    cases hv : msg.fields f.number with
    | none =>
      rw [hv, leavesAt] at hleaf
      cases hleaf
    | some v =>
      rw [hv, leavesAt] at hleaf
      rcases leavesOf_cases (hwt f hf v hv) hleaf with
        ⟨hpath, hkind, -, hmap⟩ | ⟨d, fields, inner, hchild, rfl, hinner, rfl⟩
      · -- a map has no spelling, so the field is no map
        rw [hkind] at hparse
        have hnomap : f.isMap = false := by
          rcases hmap with hmap | ⟨entries, hvalue⟩
          · exact hmap
          · rw [hvalue] at hparse
            have hcoerce : coerceScalar f.kind text "" = .ok (.map entries) :=
              coerceScalar_eq_ok_iff.mpr hparse
            have hadmits := (admits_of_coerceScalar hcoerce).2
            cases hk : f.kind <;> simp [hk, Kind.admits] at hadmits
        have hcoerce : coerceScalar f.kind text (join "." fullPath) = .ok leaf.value :=
          coerceScalar_eq_ok_iff.mpr hparse
        rw [hpath, pathOutcome, hname]
        simp [leafOutcome, hnomap, hcoerce]
      · have hinnerwt := wellTyped_of_validField (hwt f hf _ hv)
        have hih := ih f hf d fields hv hinnerwt inner hinner text hparse fullPath
        obtain ⟨next, rest, hpath⟩ := List.exists_cons_of_ne_nil (path_ne_nil_of_mem_leaves hinner)
        rw [hpath] at hih
        rw [Leaf.under, hpath, pathOutcome, hname]
        simpa [hchild] using hih

/-- Writing the value of a singular leaf once more changes nothing. -/
theorem Addressable.idle_leaf (h : Addressable pool msg) (hwt : WellTyped pool msg)
    (mode : BindMode) {text : String} : ∀ leaf ∈ leaves pool msg,
      parseScalar leaf.kind text = some leaf.value →
      ∀ f, leafField pool leaf.path msg.desc = some f →
      f.cardinality = .singular → Idle pool mode text leaf.path msg := by
  induction h with
  | @intro msg hstored _ ih =>
    intro leaf hleaf hparse f hf hcard
    obtain ⟨g, hg, hleaf⟩ := List.mem_flatMap.mp hleaf
    obtain ⟨hname, halone⟩ := hstored g hg (isSome_of_mem_leavesAt hleaf)
    cases hv : msg.fields g.number with
    | none =>
      rw [hv, leavesAt] at hleaf
      cases hleaf
    | some v =>
      rw [hv, leavesAt] at hleaf
      rcases leavesOf_cases (hwt g hg v hv) hleaf with
        ⟨hpath, hkind, hvalue, -⟩ | ⟨d, fields, inner, hchild, rfl, hinner, rfl⟩
      · rw [hpath, leafField_leaf, hname, Option.some.injEq] at hf
        subst hf
        rw [hpath, Idle, hname]
        refine ⟨hcard, .inr ⟨halone, ?_⟩⟩
        rw [DynamicMessage.getField_of_stored hv, ← hkind, hparse, hvalue hcard]
      · have hinnerwt := wellTyped_of_validField (hwt g hg _ hv)
        obtain ⟨next, rest, hpath⟩ := List.exists_cons_of_ne_nil (path_ne_nil_of_mem_leaves hinner)
        have hunder : (inner.under g.name).path = g.name :: next :: rest := by
          rw [Leaf.under, hpath]
        rw [hunder] at hf ⊢
        obtain ⟨g', d', hg', hchild', hf⟩ := leafField_descend.mp hf
        rw [hname] at hg'
        cases hg'
        rw [hchild] at hchild'
        cases hchild'
        have hih := ih g hg d fields hv hinnerwt inner hinner hparse f (hpath ▸ hf) hcard
        rw [hpath] at hih
        have hchildmsg : child msg g d = { desc := d, fields := fields } := by
          rw [child, DynamicMessage.getField_of_stored hv]
        rw [Idle, hname]
        simp only [hchild]
        exact ⟨halone, hchildmsg ▸ hih⟩

/-! ## Leaves do not clear each other -/

@[simp] theorem clears_nil (p : List String) (desc : MessageDescriptor) :
    clears pool [] p desc = false := by
  cases p <;> rfl

/-- A leaf that is reached through a message field lies in the message that the field holds. -/
theorem mem_leaves_of_descend {v : Value} {leaf : Leaf} (h : leaf ∈ leavesOf pool f v)
    {next : String} {rest : List String} (hpath : leaf.path = f.name :: next :: rest) :
    ∃ d fields, v = .message d fields ∧
      ∃ inner ∈ leaves pool { desc := d, fields := fields }, inner.path = next :: rest := by
  cases v with
  | message d fields =>
    rw [leavesOf_message] at h
    obtain ⟨inner, hinner, rfl⟩ := List.mem_map.mp h
    exact ⟨d, fields, rfl, inner, hinner, (List.cons.inj hpath).2⟩
  | list items =>
    rw [leavesOf] at h
    obtain ⟨v, -, rfl⟩ := List.mem_map.mp h
    cases hpath
  | _ =>
    rw [leavesOf] at h
    · rw [List.mem_singleton.mp h] at hpath
      cases hpath
    all_goals simp

/-- **No leaf clears another one.** -/
theorem Addressable.clears_leaves (h : Addressable pool msg) (hwt : WellTyped pool msg) :
    ∀ x ∈ leaves pool msg, ∀ y ∈ leaves pool msg,
      clears pool x.path y.path msg.desc = false := by
  induction h with
  | @intro msg hstored hnested ih =>
    intro x hx y hy
    obtain ⟨f, hf, hx⟩ := List.mem_flatMap.mp hx
    obtain ⟨g, hg, hy⟩ := List.mem_flatMap.mp hy
    obtain ⟨xrest, hxpath⟩ := path_of_mem_leavesAt hx
    obtain ⟨yrest, hypath⟩ := path_of_mem_leavesAt hy
    obtain ⟨hfname, hfalone⟩ := hstored f hf (isSome_of_mem_leavesAt hx)
    obtain ⟨hgname, -⟩ := hstored g hg (isSome_of_mem_leavesAt hy)
    rw [hxpath, hypath, clears, hfname, hgname]
    simp only
    split
    · next hnum =>
      -- both leaves lie in the message of one field, or the field itself is the leaf
      cases pool.eq_of_number_eq hf hg hnum
      cases hchild : f.child? with
      | none => rfl
      | some d =>
        cases hv : msg.fields f.number with
        | none => simp [hv, leavesAt] at hx
        | some v =>
          rw [hv, leavesAt] at hx hy
          cases xrest with
          | nil => exact clears_nil yrest d
          | cons xnext xrest =>
            obtain ⟨d', fields, rfl, x', hx', hxp⟩ := mem_leaves_of_descend hx hxpath
            cases yrest with
            | nil => rfl
            | cons ynext yrest =>
              obtain ⟨_, _, heq, y', hy', hyp⟩ := mem_leaves_of_descend hy hypath
              cases heq
              obtain ⟨fields', heq, hwt'⟩ := (validField_child_iff hchild).mp (hwt f hf _ hv)
              cases heq
              rw [← hxp, ← hyp]
              exact ih f hf _ _ hv hwt' x' hx' y' hy'
    · next hnum =>
      -- of one oneof only one member is stored
      rw [← Bool.not_eq_true]
      intro hone
      have hnone := (storedAlone_iff.mp hfalone).2 g hg hone (Ne.symm hnum)
      have hsome := isSome_of_mem_leavesAt hy
      rw [hnone] at hsome
      cases hsome

end Laws

/-! ## Some of the fields -/

section Restrict

/-- A message with the fields that are asked for, and no others. -/
def restrict (msg : DynamicMessage) (p : Nat → Bool) : DynamicMessage :=
  { msg with fields := fun n => if p n then msg.fields n else none }

variable {pool : DescriptorPool} {msg : DynamicMessage} {f : FieldDescriptor} {p : Nat → Bool}

@[simp] theorem restrict_desc : (restrict msg p).desc = msg.desc := rfl

theorem wellTyped_restrict (h : WellTyped pool msg) (p : Nat → Bool) :
    WellTyped pool (restrict msg p) := by
  intro f hf v hv
  apply h f hf v
  simp only [restrict] at hv
  split at hv
  · exact hv
  · cases hv

theorem restrict_fields_of_not {n : Nat} (h : p n = false) : (restrict msg p).fields n = none := by
  simp [restrict, h]

/-- The empty message holds none of the fields. -/
theorem restrict_none : restrict msg (fun _ => false) = .new msg.desc := by
  simp [restrict, DynamicMessage.new]

/-- A message that the leaves of its fields outside `p` complete: what it stores there is as in a
    message that its leaves determine. In `p` it may store anything. -/
structure SendableOutside (pool : DescriptorPool) (msg : DynamicMessage) (p : Nat → Bool) :
    Prop where
  declared : ∀ n, p n = false → (msg.fields n).isSome → ∃ f ∈ pool.fields msg.desc, f.number = n
  stored : ∀ f ∈ pool.fields msg.desc, p f.number = false → (msg.fields f.number).isSome →
    pool.getFieldByName msg.desc f.name = some f ∧ storedAlone pool msg f = true ∧
      leavesAt pool f (msg.fields f.number) ≠ []
  nested : ∀ f ∈ pool.fields msg.desc, p f.number = false → ∀ d fields,
    msg.fields f.number = some (.message d fields) → Sendable pool { desc := d, fields := fields }

/-- A message that its leaves determine is completed by those outside any of its fields. -/
theorem Sendable.outside (h : Sendable pool msg) (p : Nat → Bool) : SendableOutside pool msg p where
  declared _ _ hn := h.declared hn
  stored _ hf _ hv := h.stored hf hv
  nested _ hf _ _ _ hv := h.nested hf hv

namespace SendableOutside

/-- More fields may store anything. -/
theorem mono (h : SendableOutside pool msg p) {q : Nat → Bool}
    (hpq : ∀ n, q n = false → p n = false) : SendableOutside pool msg q where
  declared n hn := h.declared n (hpq n hn)
  stored f hf hn := h.stored f hf (hpq _ hn)
  nested f hf hn := h.nested f hf (hpq _ hn)

/-- The fields outside make up a message of their own, which its leaves determine. -/
theorem sendable_restrict (h : SendableOutside pool msg p) :
    Sendable pool (restrict msg fun n => !p n) := by
  have houtside : ∀ {n : Nat} {v : Value}, (restrict msg fun n => !p n).fields n = some v →
      p n = false ∧ msg.fields n = some v := by
    intro n v hv
    simpa [restrict, ← Bool.not_eq_true] using hv
  refine .intro ?_ ?_ ?_
  · intro n hn
    obtain ⟨v, hv⟩ := Option.isSome_iff_exists.mp hn
    obtain ⟨hp, hv⟩ := houtside hv
    exact h.declared n hp (by simp [hv])
  · intro f hf hn
    obtain ⟨v, hv⟩ := Option.isSome_iff_exists.mp hn
    obtain ⟨hp, hstored⟩ := houtside hv
    obtain ⟨hname, halone, hleaf⟩ := h.stored f hf hp (by simp [hstored])
    rw [hv, ← hstored]
    refine ⟨hname, storedAlone_iff.mpr ⟨by simp [hv], ?_⟩, hleaf⟩
    -- what is not stored in the message is not stored in a part of it
    intro g hg hone hne
    have hnone := (storedAlone_iff.mp halone).2 g hg hone hne
    simp [restrict, hnone]
  · intro f hf d fields hv
    obtain ⟨hp, hv⟩ := houtside hv
    exact h.nested f hf hp d fields hv

/-- Fields outside the message type hold nothing, so the declared fields are all of it. -/
theorem restrict_all (h : SendableOutside pool msg p)
    (hall : ∀ f ∈ pool.fields msg.desc, p f.number = true) : restrict msg p = msg := by
  refine DynamicMessage.ext rfl (funext fun n => ?_)
  simp only [restrict]
  split
  · rfl
  · next hn =>
    cases hv : msg.fields n with
    | none => rfl
    | some v =>
      obtain ⟨f, hf, rfl⟩ := h.declared n (by simpa using hn) (by simp [hv])
      exact absurd (hall f hf) hn

end SendableOutside

/-- Setting one more field to its value. -/
theorem setField_restrict {v : Value} (hv : msg.fields f.number = some v)
    (halone : storedAlone pool msg f = true) :
    (restrict msg p).setField pool f v = restrict msg (fun n => p n || n == f.number) := by
  refine DynamicMessage.ext rfl (funext fun n => ?_)
  have hsib : (restrict msg p).isSibling pool f n = msg.isSibling pool f n := rfl
  rw [DynamicMessage.setField_apply, hsib]
  by_cases hn : n = f.number
  · simp [restrict, hn, hv]
  · rw [if_neg hn]
    split
    · next hsibling =>
      -- the other members of the oneof are unset
      obtain ⟨g, hg, hcond⟩ := List.any_eq_true.mp hsibling
      simp only [Bool.and_eq_true, decide_eq_true_eq] at hcond
      have hnone := (storedAlone_iff.mp halone).2 g hg hcond.1.2 hcond.2
      rw [hcond.1.1] at hnone
      simp [restrict, hnone]
    · simp [restrict, hn]

end Restrict

end GrpcGw.Transcode
