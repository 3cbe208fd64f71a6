import GrpcGw.Reflect.Descriptor

/-!
# The Laws of Reflection

What the gateway relies on in `prost-reflect`: the operations on the fields of messages and their
laws, over whatever stands for messages. The messages that the gateway is modelled with obey them,
and what is said of these messages comes from here.

- `Reflection`, `Reflection.Laws`: the operations and their laws.
- `stored_set_of_mem`: what setting a field does to every field.
- `set_comm`, `set_eq_self_iff`: when the order of two writes, or a write, does not matter.
-/

namespace GrpcGw.Reflect

/-! ## Oneofs -/

/-- Whether two fields are members of one oneof. -/
def FieldDescriptor.sameOneof (f g : FieldDescriptor) : Bool :=
  f.containingOneof.isSome && f.containingOneof = g.containingOneof

theorem FieldDescriptor.sameOneof_comm (f g : FieldDescriptor) : f.sameOneof g = g.sameOneof f := by
  unfold sameOneof
  by_cases h : f.containingOneof = g.containingOneof
  · simp [h]
  · simp [h, Ne.symm h]

/-- A list is no member of a oneof. -/
theorem FieldDescriptor.sameOneof_of_list {f : FieldDescriptor} (h : f.cardinality = .list)
    (g : FieldDescriptor) : f.sameOneof g = false := by
  cases hmember : f.containingOneof.isSome with
  | false => simp [sameOneof, hmember]
  | true =>
    have hsingular := f.presence_singular (f.oneof_presence hmember)
    rw [h] at hsingular
    cases hsingular

/-! ## Operations -/

/-- The operations of reflection, on messages of some type. -/
structure Reflection (M : Type*) where
  fields : MessageDescriptor → List FieldDescriptor
  fieldByName : MessageDescriptor → String → Option FieldDescriptor
  new : MessageDescriptor → M
  desc : M → MessageDescriptor
  /-- What a message stores under a field number. -/
  stored : M → Nat → Option Value
  has : M → FieldDescriptor → Bool
  get : M → FieldDescriptor → Value
  set : M → FieldDescriptor → Value → M
  /-- What a message becomes when a mutable reference to a field is handed out. -/
  materialize : M → FieldDescriptor → M
  /-- A write through such a reference. -/
  store : M → FieldDescriptor → Value → M

namespace Reflection

variable {M : Type*} (R : Reflection M)

/-- Whether a number belongs to another member of the field's oneof. -/
def isSibling (m : M) (f : FieldDescriptor) (n : Nat) : Bool :=
  (R.fields (R.desc m)).any fun g => g.number = n && f.sameOneof g && g.number ≠ f.number

/-- The laws of reflection: a message is what it stores, reading gives what is stored or the
    default, and setting a field clears the other members of its oneof and nothing else. -/
structure Laws : Prop where
  ext : ∀ {m m' : M}, R.desc m = R.desc m' → (∀ n, R.stored m n = R.stored m' n) → m = m'
  eq_of_number_eq : ∀ {d f g}, f ∈ R.fields d → g ∈ R.fields d → f.number = g.number → f = g
  mem_of_fieldByName : ∀ {d name f}, R.fieldByName d name = some f → f ∈ R.fields d
  name_of_fieldByName : ∀ {d name f}, R.fieldByName d name = some f → f.name = name
  desc_new : ∀ d, R.desc (R.new d) = d
  stored_new : ∀ d n, R.stored (R.new d) n = none
  has_eq : ∀ m f, R.has m f = (R.stored m f.number).any f.sticks
  get_eq : ∀ m f, R.get m f = (R.stored m f.number).getD f.defaultValue
  desc_set : ∀ m f v, R.desc (R.set m f v) = R.desc m
  stored_set : ∀ m f v n, R.stored (R.set m f v) n =
    if n = f.number then some v else if R.isSibling m f n then none else R.stored m n
  /-- A reference to a field sets it to what it reads as. -/
  materialize_eq : ∀ m f, R.materialize m f = R.set m f (R.get m f)
  /-- A write through a reference takes the place of the value that was set before. -/
  store_set : ∀ m f v w, R.store (R.set m f v) f w = R.set m f w

/-! ## What follows from the laws -/

namespace Laws

variable {R} {m : M} {f g : FieldDescriptor} (h : R.Laws)

include h

theorem fieldByName_injective {d : MessageDescriptor} {name name' : String}
    (hname : R.fieldByName d name = some f) (hname' : R.fieldByName d name' = some f) :
    name = name' :=
  (h.name_of_fieldByName hname).symm.trans (h.name_of_fieldByName hname')

theorem isSibling_iff (hg : g ∈ R.fields (R.desc m)) :
    R.isSibling m f g.number = true ↔ f.sameOneof g = true ∧ g.number ≠ f.number := by
  unfold isSibling
  rw [List.any_eq_true]
  constructor
  · rintro ⟨g', hg', hcond⟩
    simp only [Bool.and_eq_true, decide_eq_true_eq] at hcond
    have heq := h.eq_of_number_eq hg' hg hcond.1.1
    subst heq
    exact ⟨hcond.1.2, hcond.2⟩
  · rintro ⟨hone, hne⟩
    exact ⟨g, hg, by simp [hone, hne]⟩

/-- A write leaves the siblings of a field as they are. -/
theorem isSibling_set (v : Value) (g : FieldDescriptor) (n : Nat) :
    R.isSibling (R.set m f v) g n = R.isSibling m g n := by
  rw [isSibling, isSibling, h.desc_set]

theorem stored_set_self (v : Value) : R.stored (R.set m f v) f.number = some v := by
  rw [h.stored_set, if_pos rfl]

/-- **What setting a field does to every field of the message.** -/
theorem stored_set_of_mem (hg : g ∈ R.fields (R.desc m)) (v : Value) :
    R.stored (R.set m f v) g.number =
      if g.number = f.number then some v
      else if f.sameOneof g then none
      else R.stored m g.number := by
  rw [h.stored_set]
  by_cases hnum : g.number = f.number
  · rw [if_pos hnum, if_pos hnum]
  · -- the write is elsewhere: what is left is whether the field is cleared
    have hsib : R.isSibling m f g.number = f.sameOneof g := by
      rw [Bool.eq_iff_iff, h.isSibling_iff hg]
      simp [hnum]
    rw [if_neg hnum, if_neg hnum, hsib]

/-- A field outside the oneof keeps what is stored in it. -/
theorem stored_set_apart (hg : g ∈ R.fields (R.desc m)) (hne : g.number ≠ f.number)
    (hone : f.sameOneof g = false) (v : Value) :
    R.stored (R.set m f v) g.number = R.stored m g.number := by
  rw [h.stored_set_of_mem hg, if_neg hne, hone]
  rfl

theorem get_set (v : Value) : R.get (R.set m f v) f = v := by
  rw [h.get_eq, h.stored_set_self, Option.getD_some]

theorem has_set (v : Value) : R.has (R.set m f v) f = f.sticks v := by
  rw [h.has_eq, h.stored_set_self, Option.any_some]

/-- What another field reads as when a field is set. -/
theorem get_set_of_ne (hg : g ∈ R.fields (R.desc m)) (hne : g.number ≠ f.number) (v : Value) :
    R.get (R.set m f v) g = if f.sameOneof g then g.defaultValue else R.get m g := by
  rw [h.get_eq, h.stored_set_of_mem hg, if_neg hne, h.get_eq]
  split
  · rfl
  · rfl

/-- The second write to a field stands. -/
theorem set_set (v w : Value) : R.set (R.set m f v) f w = R.set m f w := by
  apply h.ext
  · rw [h.desc_set, h.desc_set, h.desc_set]
  · intro n
    rw [h.stored_set, h.stored_set, h.stored_set, h.isSibling_set]
    by_cases hn : n = f.number
    · simp [hn]
    · by_cases hs : R.isSibling m f n = true
      · simp [hn, hs]
      · simp [hn, hs]

/-- **Writes to two fields commute** unless the fields share a oneof. -/
theorem set_comm (hf : f ∈ R.fields (R.desc m)) (hg : g ∈ R.fields (R.desc m))
    (hne : f.number ≠ g.number) (hone : f.sameOneof g = false) (v w : Value) :
    R.set (R.set m f v) g w = R.set (R.set m g w) f v := by
  -- neither field is cleared by the write to the other
  have hgf : R.isSibling m f g.number = false := by
    rw [← Bool.not_eq_true, h.isSibling_iff hg, hone]
    simp
  have hfg : R.isSibling m g f.number = false := by
    rw [← Bool.not_eq_true, h.isSibling_iff hf, FieldDescriptor.sameOneof_comm, hone]
    simp
  apply h.ext
  · rw [h.desc_set, h.desc_set, h.desc_set, h.desc_set]
  · intro n
    rw [h.stored_set, h.stored_set, h.stored_set, h.stored_set, h.isSibling_set, h.isSibling_set]
    by_cases hnf : n = f.number
    · subst hnf
      simp [hne, hfg]
    · by_cases hng : n = g.number
      · subst hng
        simp [hnf, hgf]
      · by_cases hs : R.isSibling m f n = true <;> simp [hnf, hng, hs]

/-- Setting a field to its stored value changes nothing if the rest of its oneof is unset. -/
theorem set_eq_self_iff {v : Value} :
    R.set m f v = m ↔
      R.stored m f.number = some v ∧
        ∀ g ∈ R.fields (R.desc m), f.sameOneof g = true → g.number ≠ f.number →
          R.stored m g.number = none := by
  constructor
  · intro heq
    refine ⟨by rw [← heq, h.stored_set_self], ?_⟩
    intro g hg hone hne
    rw [← heq, h.stored_set_of_mem hg, if_neg hne, if_pos hone]
  · rintro ⟨hv, hnone⟩
    apply h.ext (h.desc_set m f v)
    intro n
    rw [h.stored_set]
    split
    · next hn => rw [hn, hv]
    · split
      · next hsib =>
        -- the number of a sibling, which holds nothing anyway
        obtain ⟨g, hg, hcond⟩ := List.any_eq_true.mp hsib
        simp only [Bool.and_eq_true, decide_eq_true_eq] at hcond
        rw [← hcond.1.1, hnone g hg hcond.1.2 hcond.2]
      · rfl

theorem stored_materialize_self :
    R.stored (R.materialize m f) f.number = some (R.get m f) := by
  rw [h.materialize_eq, h.stored_set_self]

/-- Writing through the reference is setting the field. -/
theorem store_materialize (v : Value) : R.store (R.materialize m f) f v = R.set m f v := by
  rw [h.materialize_eq, h.store_set]

end Laws

end Reflection

end GrpcGw.Reflect
