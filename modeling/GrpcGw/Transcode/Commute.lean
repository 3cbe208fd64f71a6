import GrpcGw.Transcode.View

/-!
# Bindings at Different Paths

Two bindings at different field paths can be swapped, if neither passes another member of a oneof
on the path of the other.

- `bindInner_local`: what a binding does depends on the first field of its path only.
- `bindInner_comm`: two bindings commute.
-/

namespace GrpcGw.Transcode

open GrpcGw.Text
open GrpcGw.Reflect

variable {pool : DescriptorPool} {mode : BindMode} {fullPath : List String} {value : String}

/-! ## One field decides -/

section Local

variable {msg msg' : DynamicMessage} {f : FieldDescriptor}

theorem bindLeaf_local (h : WellTyped pool msg) (h' : WellTyped pool msg')
    (hdesc : msg'.desc = msg.desc) (hf : f ∈ pool.fields msg.desc)
    (hfields : msg'.fields f.number = msg.fields f.number) :
    (∃ v, (bindLeaf pool mode fullPath value msg f).1 = msg.setField pool f v ∧
        (bindLeaf pool mode fullPath value msg' f).1 = msg'.setField pool f v) ∨
      (bindLeaf pool mode fullPath value msg f).1 = msg ∧
        (bindLeaf pool mode fullPath value msg' f).1 = msg' := by
  have hget : msg'.getField f = msg.getField f := DynamicMessage.getField_congr hfields
  have hhas : msg'.hasField f = msg.hasField f := DynamicMessage.hasField_congr hfields
  have hf' : f ∈ pool.fields msg'.desc := hdesc ▸ hf
  -- both runs take the same branch, since the outcome depends on the field only
  rcases bindLeaf_cases mode fullPath value h hf with
    ⟨e, hout, hbind⟩ | ⟨c, hout, hc, hcase⟩
  · rcases bindLeaf_cases mode fullPath value h' hf' with
      ⟨e', -, hbind'⟩ | ⟨c', hout', -⟩
    · exact .inr ⟨by rw [hbind], by rw [hbind']⟩
    · rw [hout] at hout'
      cases hout'
  · rcases bindLeaf_cases mode fullPath value h' hf' with
      ⟨e', hout', -⟩ | ⟨c', -, hc', hcase'⟩
    · rw [hout] at hout'
      cases hout'
    · rw [hc] at hc'
      cases hc'
      rcases hcase with ⟨hcard, items, hitems, hbind⟩ | ⟨hcard, hbind⟩
      · rcases hcase' with ⟨-, items', hitems', hbind'⟩ | ⟨hcard', -⟩
        · rw [hget, hitems] at hitems'
          cases hitems'
          exact .inl ⟨_, by rw [hbind], by rw [hbind']⟩
        · rw [hcard] at hcard'
          cases hcard'
      · rcases hcase' with ⟨hcard', -⟩ | ⟨-, hbind'⟩
        · rw [hcard] at hcard'
          cases hcard'
        · rw [hbind, hbind', hhas]
          by_cases hkeep : mode = .fillIfUnset ∧ msg.hasField f = true
          · exact .inr ⟨by rw [if_pos hkeep], by rw [if_pos hkeep]⟩
          · exact .inl ⟨c, by rw [if_neg hkeep], by rw [if_neg hkeep]⟩

variable (mode fullPath value) in
/-- **What a binding does depends on the first field of its path only**: it sets the field to the
    same value in both messages, or changes neither. -/
theorem bindInner_local (h : WellTyped pool msg) (h' : WellTyped pool msg')
    (hdesc : msg'.desc = msg.desc) {head : String} (rest : List String)
    (hfield : pool.getFieldByName msg.desc head = some f)
    (hfields : msg'.fields f.number = msg.fields f.number) :
    (∃ v, (bindInner pool mode fullPath value (head :: rest) msg).1 = msg.setField pool f v ∧
        (bindInner pool mode fullPath value (head :: rest) msg').1 = msg'.setField pool f v) ∨
      (bindInner pool mode fullPath value (head :: rest) msg).1 = msg ∧
        (bindInner pool mode fullPath value (head :: rest) msg').1 = msg' := by
  have hfield' : pool.getFieldByName msg'.desc head = some f := by rw [hdesc, hfield]
  cases rest with
  | nil =>
    rw [bindInner_leaf hfield, bindInner_leaf hfield']
    exact bindLeaf_local h h' hdesc (pool.mem_fields_of_getFieldByName hfield) hfields
  | cons next rest =>
    cases hchild : f.child? with
    | none =>
      rw [bindInner_notAMessage hfield hchild, bindInner_notAMessage hfield' hchild]
      exact .inr ⟨rfl, rfl⟩
    | some d =>
      -- the child is read from the field
      rw [bindInner_descend h hfield hchild, bindInner_descend h' hfield' hchild,
        child_congr hfields]
      exact .inl ⟨_, rfl, rfl⟩

variable (mode fullPath value) in
/-- A binding keeps what is stored in the fields outside the oneof of its first field. -/
theorem bindInner_fields_apart (h : WellTyped pool msg) {head : String} (rest : List String)
    (hfield : pool.getFieldByName msg.desc head = some f) {g : FieldDescriptor}
    (hg : g ∈ pool.fields msg.desc) (hne : g.number ≠ f.number) (hone : f.sameOneof g = false) :
    (bindInner pool mode fullPath value (head :: rest) msg).1.fields g.number =
      msg.fields g.number := by
  rcases bindInner_local mode fullPath value h h rfl rest hfield rfl with ⟨v, hset, -⟩ | ⟨hsame, -⟩
  · rw [hset, DynamicMessage.setField_fields_apart hg hne hone]
  · rw [hsame]

end Local

/-! ## Two bindings -/

section Comm

variable {msg : DynamicMessage} {f g : FieldDescriptor} {phead qhead : String}
  {prest qrest pfull qfull : List String} {u v : String} {mode' : BindMode}

/-- Bindings that start with different fields commute, if the fields share no oneof. -/
theorem bindInner_comm_apart (h : WellTyped pool msg)
    (hpfield : pool.getFieldByName msg.desc phead = some f)
    (hqfield : pool.getFieldByName msg.desc qhead = some g) (hne : f.number ≠ g.number)
    (hone : f.sameOneof g = false) :
    (bindInner pool mode' qfull v (qhead :: qrest)
        (bindInner pool mode pfull u (phead :: prest) msg).1).1 =
      (bindInner pool mode pfull u (phead :: prest)
        (bindInner pool mode' qfull v (qhead :: qrest) msg).1).1 := by
  have hf := pool.mem_fields_of_getFieldByName hpfield
  have hg := pool.mem_fields_of_getFieldByName hqfield
  have hone' : g.sameOneof f = false := by rw [FieldDescriptor.sameOneof_comm, hone]
  have hwp : WellTyped pool (bindInner pool mode pfull u (phead :: prest) msg).1 :=
    bindInner_wellTyped _ h
  have hwq : WellTyped pool (bindInner pool mode' qfull v (qhead :: qrest) msg).1 :=
    bindInner_wellTyped _ h
  have hdp := bindInner_desc mode pfull u (phead :: prest) h
  have hdq := bindInner_desc mode' qfull v (qhead :: qrest) h
  -- neither binding touches the field that the other one starts with
  have hkeepq := bindInner_fields_apart mode pfull u h prest hpfield hg (Ne.symm hne) hone
  have hkeepp := bindInner_fields_apart mode' qfull v h qrest hqfield hf hne hone'
  rcases bindInner_local mode pfull u h hwq hdq prest hpfield hkeepp with
    ⟨x, hp, hp'⟩ | ⟨hp, hp'⟩
  · rcases bindInner_local mode' qfull v h hwp hdp qrest hqfield hkeepq with
      ⟨y, hq, hq'⟩ | ⟨hq, hq'⟩
    · rw [hp', hq', hp, hq]
      exact DynamicMessage.setField_comm hf hg hne hone x y
    · rw [hp', hq', hp, hq]
  · rw [hp']
    rcases bindInner_local mode' qfull v h hwp hdp qrest hqfield hkeepq with
      ⟨y, hq, hq'⟩ | ⟨hq, hq'⟩
    · rw [hq', hp, hq]
    · rw [hq', hp, hq]

theorem bindInner_unknown_fst {msg' : DynamicMessage}
    (hfield : pool.getFieldByName msg.desc phead = none) (hdesc : msg'.desc = msg.desc) :
    (bindInner pool mode pfull u (phead :: prest) msg').1 = msg' := by
  rw [bindInner_unknown (by rw [hdesc, hfield])]

/-- A path that proceeds behind its first field goes through a message field. -/
theorem proceeds_descend {desc : MessageDescriptor} {next : String}
    (hfield : pool.getFieldByName desc phead = some f)
    (h : (pathOutcome pool pfull u (phead :: next :: prest) desc).Proceeds) :
    ∃ d, f.child? = some d ∧ (pathOutcome pool pfull u (next :: prest) d).Proceeds := by
  rw [pathOutcome, hfield] at h
  cases hchild : f.child? with
  | none =>
    simp only [hchild] at h
    exact h.elim
  | some d =>
    simp only [hchild] at h
    exact ⟨d, rfl, h⟩

/-- A leaf that proceeds is no message field. -/
theorem child?_of_proceeds_leaf {desc : MessageDescriptor}
    (hfield : pool.getFieldByName desc phead = some f)
    (h : (pathOutcome pool pfull u [phead] desc).Proceeds) : f.child? = none := by
  rw [pathOutcome, hfield] at h
  cases hchild : f.child? with
  | none => rfl
  | some d =>
    have hok := leafOutcome_proceeds h
    rw [leafOutcome_of_child hchild] at hok
    cases hok

/-- Different paths that proceed behind the same field go on in its message, both of them. -/
theorem proceeds_same_field {desc : MessageDescriptor}
    (hfield : pool.getFieldByName desc phead = some f) (hne : prest ≠ qrest)
    (hp : (pathOutcome pool pfull u (phead :: prest) desc).Proceeds)
    (hq : (pathOutcome pool qfull v (phead :: qrest) desc).Proceeds) :
    ∃ d pnext ptail qnext qtail, prest = pnext :: ptail ∧ qrest = qnext :: qtail ∧
      f.child? = some d ∧ (pathOutcome pool pfull u (pnext :: ptail) d).Proceeds ∧
      (pathOutcome pool qfull v (qnext :: qtail) d).Proceeds := by
  cases prest with
  | nil =>
    -- a leaf is no message field, so the other path ends here too
    cases qrest with
    | nil => exact absurd rfl hne
    | cons qnext qtail =>
      obtain ⟨d, hchild, -⟩ := proceeds_descend hfield hq
      rw [child?_of_proceeds_leaf hfield hp] at hchild
      cases hchild
  | cons pnext ptail =>
    obtain ⟨d, hchild, hp'⟩ := proceeds_descend hfield hp
    cases qrest with
    | nil =>
      rw [child?_of_proceeds_leaf hfield hq] at hchild
      cases hchild
    | cons qnext qtail =>
      obtain ⟨d', hchild', hq'⟩ := proceeds_descend hfield hq
      rw [hchild] at hchild'
      cases hchild'
      exact ⟨d, pnext, ptail, qnext, qtail, rfl, rfl, hchild, hp', hq'⟩

/-- Two bindings that descend through one field are two bindings in its message. -/
theorem bindInner_descend_twice (h : WellTyped pool msg)
    (hfield : pool.getFieldByName msg.desc phead = some f) {d : MessageDescriptor}
    (hchild : f.child? = some d) {pnext qnext : String} :
    (bindInner pool mode' qfull v (phead :: qnext :: qrest)
        (bindInner pool mode pfull u (phead :: pnext :: prest) msg).1).1 =
      msg.setField pool f (.message
        (bindInner pool mode' qfull v (qnext :: qrest)
          (bindInner pool mode pfull u (pnext :: prest) (child msg f d)).1).1.desc
        (bindInner pool mode' qfull v (qnext :: qrest)
          (bindInner pool mode pfull u (pnext :: prest) (child msg f d)).1).1.fields) := by
  obtain ⟨-, hwt⟩ := getField_eq_child h (pool.mem_fields_of_getFieldByName hfield) hchild
  have hwt' : WellTyped pool (bindInner pool mode pfull u (phead :: pnext :: prest) msg).1 :=
    bindInner_wellTyped _ h
  have hdesc := bindInner_desc mode pfull u (pnext :: prest) hwt
  rw [child_desc] at hdesc
  rw [bindInner_descend h hfield hchild] at hwt' ⊢
  have hfield' : pool.getFieldByName (msg.setField pool f (.message
      (bindInner pool mode pfull u (pnext :: prest) (child msg f d)).1.desc
      (bindInner pool mode pfull u (pnext :: prest) (child msg f d)).1.fields)).desc phead =
      some f := hfield
  -- the second one finds what the first one has left there
  rw [bindInner_descend hwt' hfield' (hdesc ▸ hchild), child_setField_self,
    DynamicMessage.setField_setField]

/-- **Bindings at different paths commute**, if each of them proceeds and neither clears the path
    of the other. -/
theorem bindInner_comm (p q : List String) (h : WellTyped pool msg) (hne : p ≠ q)
    (hpq : clears pool p q msg.desc = false)
    (hp : (pathOutcome pool pfull u p msg.desc).Proceeds)
    (hq : (pathOutcome pool qfull v q msg.desc).Proceeds) :
    (bindInner pool mode' qfull v q (bindInner pool mode pfull u p msg).1).1 =
      (bindInner pool mode pfull u p (bindInner pool mode' qfull v q msg).1).1 := by
  induction p generalizing q msg with
  | nil => exact hp.elim
  | cons phead prest ih =>
    cases q with
    | nil => exact hq.elim
    | cons qhead qrest =>
      have hdp := bindInner_desc mode pfull u (phead :: prest) h
      have hdq := bindInner_desc mode' qfull v (qhead :: qrest) h
      cases hpfield : pool.getFieldByName msg.desc phead with
      | none =>
        -- an unknown name changes nothing, before or after the other binding
        rw [bindInner_unknown_fst hpfield rfl, bindInner_unknown_fst hpfield hdq]
      | some f =>
        cases hqfield : pool.getFieldByName msg.desc qhead with
        | none => rw [bindInner_unknown_fst hqfield rfl, bindInner_unknown_fst hqfield hdp]
        | some g =>
          have hf := pool.mem_fields_of_getFieldByName hpfield
          have hg := pool.mem_fields_of_getFieldByName hqfield
          by_cases hnum : f.number = g.number
          · -- both paths pass the same field, and part later
            cases pool.eq_of_number_eq hf hg hnum
            cases pool.name_injective hpfield hqfield
            have hrest : prest ≠ qrest := fun heq => hne (by rw [heq])
            obtain ⟨d, pnext, ptail, qnext, qtail, rfl, rfl, hchild, hp', hq'⟩ :=
              proceeds_same_field hpfield hrest hp hq
            obtain ⟨-, hwt⟩ := getField_eq_child h hf hchild
            have hclears : clears pool (pnext :: ptail) (qnext :: qtail) d = false := by
              simpa [clears, hpfield, hchild] using hpq
            have hcomm := ih (qnext :: qtail) hwt hrest (by rwa [child_desc])
              (by rwa [child_desc]) (by rwa [child_desc])
            rw [bindInner_descend_twice h hpfield hchild,
              bindInner_descend_twice h hpfield hchild, hcomm]
          · have hone : f.sameOneof g = false := by
              simpa [clears, hpfield, hqfield, hnum] using hpq
            exact bindInner_comm_apart h hpfield hqfield hnum hone

end Comm

end GrpcGw.Transcode
