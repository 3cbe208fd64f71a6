import GrpcGw.Service.Request
import GrpcGw.Transcode.Spare
import GrpcGw.Transcode.Update

/-!
# The Field a Body is Bound to

With `body: "field"`, the JSON body is decoded into one field. Captures are written over the rest
and the query fills what is unset, but nothing keeps them away from that field.

- `Entry.buildRequest_run`: a request is a run of bindings on what the body decodes to.
- `runBindings_kept_iff`: a run keeps the value of a field in every state iff every binding spares
  the field.
- `bodyField_kept_iff`: when the field of the body is kept.
-/

namespace GrpcGw.Service

open GrpcGw.Text
open GrpcGw.Reflect
open GrpcGw.Template
open GrpcGw.Routes
open GrpcGw.Transcode

/-! ## Runs of bindings -/

/-- One call of `bind_field_path` while a request is built. -/
structure Binding where
  mode : BindMode
  path : List String
  value : String

/-- The message that a run of bindings leaves. -/
def runBindings (pool : DescriptorPool) (l : List Binding) (msg : DynamicMessage) :
    DynamicMessage :=
  l.foldl (fun m b => (bindFieldPath pool m b.path b.value b.mode).1) msg

/-- The bindings of a request: the captures, then the parameters that are bound. -/
def Entry.bindings (entry : Entry) (captures : Captures) (query : Option String) : List Binding :=
  captures.map (fun c => ⟨.overwrite, c.1, c.2⟩) ++
    (entry.boundPairs query).map fun x => ⟨.fillIfUnset, x.1, x.2⟩

section Run

variable {pool : DescriptorPool} {l : List Binding} {msg : DynamicMessage}

theorem runBindings_typed (l : List Binding) (h : WellTyped pool msg) :
    WellTyped pool (runBindings pool l msg) ∧ (runBindings pool l msg).desc = msg.desc := by
  induction l generalizing msg with
  | nil => exact ⟨h, rfl⟩
  | cons b l ih =>
    obtain ⟨hwt, hdesc⟩ := bindFieldPath_wellTyped h b.path b.value b.mode
    obtain ⟨hwt', hdesc'⟩ := ih hwt
    exact ⟨hwt', hdesc'.trans hdesc⟩

theorem runBindings_take_succ {n : Nat} {b : Binding} (hb : l[n]? = some b) :
    runBindings pool (l.take (n + 1)) msg =
      (bindFieldPath pool (runBindings pool (l.take n) msg) b.path b.value b.mode).1 := by
  rw [runBindings, List.take_add_one, hb, Option.toList_some, List.foldl_append]
  rfl

/-- One more binding keeps the value of a field iff it spares the field. -/
theorem getField_runBindings_succ_iff (h : WellTyped pool msg) {f : FieldDescriptor}
    (hf : f ∈ pool.fields msg.desc)
    (hproceeds : ∀ b ∈ l, (pathOutcome pool b.path b.value b.path msg.desc).Proceeds) {n : Nat}
    {b : Binding} (hb : l[n]? = some b) :
    (runBindings pool (l.take (n + 1)) msg).getField f =
        (runBindings pool (l.take n) msg).getField f ↔
      Spares pool f b.mode b.path b.value (runBindings pool (l.take n) msg) := by
  obtain ⟨hwt, hdesc⟩ := runBindings_typed (l.take n) h
  rw [runBindings_take_succ hb]
  refine getField_bindInner_eq_iff b.path hwt (hdesc ▸ hf) ?_
  rw [bindInner_outcome b.path hwt, hdesc]
  exact hproceeds b (List.mem_of_getElem? hb)

/-- **A run keeps the value of a field in every state iff every binding spares the field** in the
    state it is run in. -/
theorem runBindings_kept_iff (h : WellTyped pool msg) {f : FieldDescriptor}
    (hf : f ∈ pool.fields msg.desc)
    (hproceeds : ∀ b ∈ l, (pathOutcome pool b.path b.value b.path msg.desc).Proceeds) :
    (∀ n, (runBindings pool (l.take n) msg).getField f = msg.getField f) ↔
      ∀ n b, l[n]? = some b →
        Spares pool f b.mode b.path b.value (runBindings pool (l.take n) msg) := by
  constructor
  · intro hkept n b hb
    rw [← getField_runBindings_succ_iff h hf hproceeds hb, hkept (n + 1), hkept n]
  · intro hspares n
    induction n with
    | zero => rfl
    | succ n ih =>
      cases hb : l[n]? with
      | none =>
        -- the run is over
        rw [List.take_add_one, hb, Option.toList_none, List.append_nil]
        exact ih
      | some b =>
        rw [(getField_runBindings_succ_iff h hf hproceeds hb).mpr (hspares n b hb)]
        exact ih

end Run

/-! ## Requests -/

section Request

variable {codec : Codec} {pool : DescriptorPool} {entry : Entry} {captures : Captures}
  {query : Option String} {body : Bytes} {json : JsonOptions} {msg decoded : DynamicMessage}

/-- **A request is a run of bindings**, none of which fails, on what its body decodes to. -/
theorem Entry.buildRequest_run
    (h : entry.buildRequest codec pool captures query body json = .ok msg)
    (hdecoded : entry.decodeBody codec pool body json = .ok decoded) :
    runBindings pool (entry.bindings captures query) decoded = msg ∧
      ∀ b ∈ entry.bindings captures query,
        (pathOutcome pool b.path b.value b.path entry.input).Proceeds := by
  obtain ⟨decoded', bound, hdecoded', hcaptures, hquery⟩ := Entry.buildRequest_eq_ok_iff.mp h
  rw [hdecoded] at hdecoded'
  cases hdecoded'
  obtain ⟨hdesc, hwt⟩ := Entry.decodeBody_typed hdecoded
  have hbound := bindCaptures_typed captures hwt
  rw [hcaptures] at hbound
  obtain ⟨hwt', hdesc'⟩ := hbound
  have hok := congrArg Prod.snd hcaptures
  have hok' := congrArg Prod.snd hquery
  -- a loop that ends well has gone through its whole list
  have hrun := bindAll_fst_of_ok hok
  have hrun' := bindAll_fst_of_ok hok'
  rw [← bindCaptures, hcaptures] at hrun
  rw [hquery] at hrun'
  simp only at hrun hrun'
  constructor
  · rw [runBindings, Entry.bindings, List.foldl_append, List.foldl_map, List.foldl_map, ← hrun,
      ← hrun']
  · intro b hb
    rcases List.mem_append.mp hb with hb | hb
    · obtain ⟨c, hc, rfl⟩ := List.mem_map.mp hb
      have hcontinues := (bindAll_ok_iff hwt).mp hok c hc
      rw [hdesc] at hcontinues
      exact proceeds_of_continues (fun _ he => absurd he Bool.false_ne_true) hcontinues
    · obtain ⟨x, hx, rfl⟩ := List.mem_map.mp hb
      have hcontinues := (bindAll_ok_iff hwt').mp hok' x hx
      rw [hdesc', hdesc] at hcontinues
      exact proceeds_of_continues (fun _ he => he) hcontinues

/-- **When the field of the body is kept**: if every capture and every bound parameter spares it,
    the request holds the value that the body alone decodes to; and the value is there in every
    state on the way iff they all do. -/
theorem bodyField_kept_iff {name : String} {f : FieldDescriptor}
    (h : entry.buildRequest codec pool captures query body json = .ok msg)
    (hbody : entry.body = .field name) (hfield : pool.getFieldByName entry.input name = some f)
    (hdecoded : decodeBodyIntoField codec pool entry.input name body json = .ok decoded) :
    ((∀ n b, (entry.bindings captures query)[n]? = some b →
        Spares pool f b.mode b.path b.value
          (runBindings pool ((entry.bindings captures query).take n) decoded)) →
      msg.getField f = decoded.getField f) ∧
    ((∀ n, (runBindings pool ((entry.bindings captures query).take n) decoded).getField f =
        decoded.getField f) ↔
      ∀ n b, (entry.bindings captures query)[n]? = some b →
        Spares pool f b.mode b.path b.value
          (runBindings pool ((entry.bindings captures query).take n) decoded)) := by
  have hdecoded' : entry.decodeBody codec pool body json = .ok decoded := by
    simp only [Entry.decodeBody, hbody, hdecoded]
  obtain ⟨hrun, hproceeds⟩ := Entry.buildRequest_run h hdecoded'
  obtain ⟨hdesc, hwt⟩ := Entry.decodeBody_typed hdecoded'
  rw [← hdesc] at hfield hproceeds
  have hiff := runBindings_kept_iff hwt (pool.mem_fields_of_getFieldByName hfield) hproceeds
  refine ⟨?_, hiff⟩
  intro hspares
  -- the request is the last state of the run
  have hlast := hiff.mpr hspares (entry.bindings captures query).length
  rwa [List.take_length, hrun] at hlast

end Request

/-! ## A list of tags -/

/-- The JSON of one note. -/
def noteText : String :=
  "\x7b\"tags\":[\"a\"]\x7d"

/-- Read the note, as a message of any type with such a field. -/
def readNote (pool : DescriptorPool) (desc : MessageDescriptor) (_ : Bool) (bytes : Bytes) :
    Except String DynamicMessage :=
  (pool.getFieldByName desc "tags").elim (.error "unsupported") fun f =>
    if f.cardinality = .list ∧ f.kind = .string ∧ bytes = utf8 noteText then
      .ok ((DynamicMessage.new desc).setField pool f (.list [.string "a"]))
    else .error "unsupported"

theorem readNote_typed {pool : DescriptorPool} {desc : MessageDescriptor} {deny : Bool}
    {bytes : Bytes} {msg : DynamicMessage} (h : readNote pool desc deny bytes = .ok msg) :
    msg.desc = desc ∧ WellTyped pool msg := by
  unfold readNote at h
  cases hf : pool.getFieldByName desc "tags" with
  | none =>
    rw [hf] at h
    cases h
  | some f =>
    rw [hf, Option.elim_some] at h
    split at h
    · next hcond =>
      cases h
      refine ⟨rfl, (wellTyped_new _).setField (DescriptorPool.mem_fields_of_getFieldByName hf) ?_⟩
      refine (validField_list_iff hcond.1).mpr ⟨_, rfl, ?_⟩
      intro x hx
      rw [List.mem_singleton.mp hx, hcond.2.1]
      exact .scalar rfl rfl
    · cases h

/-- Print the note. -/
def wrapTags : JsonValue → Except String Bytes
  | .object [("tags", .array [.string "a"])] => .ok (utf8 noteText)
  | _ => .error "unsupported"

/-- Libraries that know the JSON of one note. -/
def noteCodec : Codec :=
  { Codec.ofPool notePool with
    deserialize := readNote
    readJson := fun bytes =>
      if bytes = utf8 "[\"a\"]" then .ok (.array [.string "a"]) else .error "unsupported"
    writeJson := wrapTags
    deserialize_typed := readNote_typed }

/-- `POST /v1/notes` with `body: "tags"`. -/
def noteEntry : Entry where
  template :=
    { raw := "/v1/notes"
      segments := [.literal "v1", .literal "notes"]
      vars := []
      verb := none }
  grpcPath := "/demo.Notes/Tag"
  input := ⟨0⟩
  output := ⟨0⟩
  serverStreaming := false
  body := .field "tags"
  responseBody := none

/-- The elements of a list of strings. -/
def stringsOf : Value → List String
  | .list items => items.filterMap fun
    | .string s => some s
    | _ => none
  | _ => []

/-- A parameter for another field. -/
theorem bodyField_kept_id :
    ∃ msg decoded,
      noteEntry.buildRequest noteCodec notePool [] (some "id=7") (utf8 "[\"a\"]") {} = .ok msg ∧
      decodeBodyIntoField noteCodec notePool ⟨0⟩ "tags" (utf8 "[\"a\"]") {} = .ok decoded ∧
      msg.getField tagsField = decoded.getField tagsField := by
  cases hmsg : noteEntry.buildRequest noteCodec notePool [] (some "id=7") (utf8 "[\"a\"]") {} with
  | error e =>
    have hok : (noteEntry.buildRequest noteCodec notePool [] (some "id=7")
        (utf8 "[\"a\"]") {}).isOk = true := by decide
    rw [hmsg] at hok
    cases hok
  | ok msg =>
    refine ⟨msg, _, rfl, rfl, (bodyField_kept_iff hmsg rfl rfl rfl).1 ?_⟩
    -- the only binding goes to the field `id`
    intro n b hb
    have hbindings : noteEntry.bindings [] (some "id=7") = [⟨.fillIfUnset, ["id"], "7"⟩] := by
      have hpairs : queryPairs "id=7" = [(["id"], "7")] := by decide
      simp [Entry.bindings, Entry.boundPairs, noteEntry, hpairs]
    rw [hbindings] at hb ⊢
    cases n with
    | zero =>
      cases hb
      intro hone
      cases hone
    | succ n => cases hb

/-- A parameter with the name of the field is appended to the list from the body. -/
theorem not_bodyField_kept : ¬∀ (codec : Codec) (pool : DescriptorPool) (entry : Entry)
    (name : String) (f : FieldDescriptor) (captures : Captures) (query : Option String)
    (body : Bytes) (json : JsonOptions) (msg decoded : DynamicMessage),
    entry.body = .field name → pool.getFieldByName entry.input name = some f →
    body.all isAsciiWhitespace = false →
    decodeBodyIntoField codec pool entry.input name body json = .ok decoded →
    (∀ c ∈ captures, c.1.head? ≠ some name) →
    entry.buildRequest codec pool captures query body json = .ok msg →
    msg.getField f = decoded.getField f := by
  intro h
  have htags : (noteEntry.buildRequest noteCodec notePool [] (some "tags=b") (utf8 "[\"a\"]")
      {}).toOption.map (fun msg => stringsOf (msg.getField tagsField)) = some ["a", "b"] := by
    decide
  cases hmsg : noteEntry.buildRequest noteCodec notePool [] (some "tags=b") (utf8 "[\"a\"]") {} with
  | error e =>
    rw [hmsg] at htags
    cases htags
  | ok msg =>
    have hkept := h noteCodec notePool noteEntry "tags" tagsField [] (some "tags=b")
      (utf8 "[\"a\"]") {} msg _ rfl rfl (by decide) rfl (by simp) hmsg
    rw [hmsg, Except.toOption, Option.map_some, hkept] at htags
    exact absurd htags (by decide)

end GrpcGw.Service
