import GrpcGw.Rules.Annotations
import GrpcGw.Service.Handle
import GrpcGw.Service.Parameters
import GrpcGw.Service.QueryString
import GrpcGw.Template.Requests
import GrpcGw.Transcode.Scalars

/-!
# Calls Sent as HTTP Requests

How a client calls a method through the gateway: it spells the input message as a query string, as
path variables and query parameters, or as a body with the rest in parameters, and the backend
receives the message that the client has.

- `bindQuery_leaves`, `exists_query`: a message as a query string.
- `Entry.buildRequest_bodyField`: a field in the body, and the rest in parameters.
- `Entry.buildRequest_repeated`: path variables that repeat what the body says.
- `Gateway.handle_leaves`: the whole way from the request to the backend and back.
-/

namespace GrpcGw.Service

open GrpcGw.Text
open GrpcGw.Pattern
open GrpcGw.Reflect
open GrpcGw.Template
open GrpcGw.Rules
open GrpcGw.Routes
open GrpcGw.Transcode

/-! ## A message -/

/-- `message Review { int32 stars = 1; Author author = 2; repeated string tags = 3; }` and
    `message Author { string alias = 1; }`, with a method whose reviews are found by their stars. -/
def reviewPool : DescriptorPool :=
  annotatedPool
    [{ fullName := "demo.Review"
       fields :=
        [.plain 1 "stars" .int32,
          .plain 2 "author" (.message ⟨4⟩),
          .repeated 3 "tags" .string] },
      { fullName := "demo.Author"
        fields := [.plain 1 "alias" .string] }]
    [serviceOf "demo.Reviews"
      [{ name := "Find"
         input := ⟨3⟩
         output := ⟨3⟩
         rule := some (.mk "" (some (.get "/v1/reviews/\x7bstars\x7d")) "" "" []) }]]

/-- A review with a nested message and a list. -/
def annsReview : DynamicMessage where
  desc := ⟨3⟩
  fields := storedFields
    [(1, .i32 5), (2, .message ⟨4⟩ (storedFields [(1, .string "Ann")])),
      (3, .list [.string "a&b", .string "c"])]

section Review

/-- What a message of listed fields stores. -/
theorem mem_of_storedFields {fields : List (Nat × Value)} {n : Nat} {v : Value}
    (h : storedFields fields n = some v) : (n, v) ∈ fields := by
  obtain ⟨x, hx, rfl⟩ := Option.map_eq_some_iff.mp h
  have hn : x.1 = n := by simpa using List.find?_some hx
  subst hn
  exact List.mem_of_find?_eq_some hx

theorem reviewPool_fields : reviewPool.fields ⟨3⟩ =
    [.plain 1 "stars" .int32, .plain 2 "author" (.message ⟨4⟩), .repeated 3 "tags" .string] := rfl

theorem reviewPool_author : reviewPool.fields ⟨4⟩ = [.plain 1 "alias" .string] := rfl

theorem sendable_author :
    Sendable reviewPool { desc := ⟨4⟩, fields := storedFields [(1, .string "Ann")] } := by
  refine .intro ?_ ?_ ?_
  · intro n hn
    obtain ⟨v, hv⟩ := Option.isSome_iff_exists.mp hn
    have hmem := mem_of_storedFields hv
    simp only [List.mem_singleton, Prod.mk.injEq] at hmem
    exact ⟨.plain 1 "alias" .string, by simp [reviewPool_author], hmem.1.symm⟩
  · intro f hf _
    have hf : f = .plain 1 "alias" .string := by simpa [reviewPool_author] using hf
    subst hf
    refine ⟨rfl, rfl, ?_⟩
    simp [FieldDescriptor.plain, storedFields, leavesAt, leavesOf]
  · intro f _ d fields hv
    have hmem := mem_of_storedFields hv
    simp at hmem

theorem wellTyped_author :
    WellTyped reviewPool { desc := ⟨4⟩, fields := storedFields [(1, .string "Ann")] } := by
  intro f hf v hv
  have hf : f = .plain 1 "alias" .string := by simpa [reviewPool_author] using hf
  subst hf
  cases hv
  exact validField_scalar rfl rfl rfl

theorem sendable_annsReview : Sendable reviewPool annsReview := by
  refine .intro ?_ ?_ ?_
  · intro n hn
    obtain ⟨v, hv⟩ := Option.isSome_iff_exists.mp hn
    have hmem := mem_of_storedFields hv
    simp only [List.mem_cons, List.not_mem_nil, Prod.mk.injEq, or_false] at hmem
    change ∃ f ∈ reviewPool.fields ⟨3⟩, f.number = n
    rw [reviewPool_fields]
    rcases hmem with ⟨rfl, -⟩ | ⟨rfl, -⟩ | ⟨rfl, -⟩
    · exact ⟨_, List.mem_cons_self, rfl⟩
    · exact ⟨_, List.mem_cons_of_mem _ List.mem_cons_self, rfl⟩
    · exact ⟨_, List.mem_cons_of_mem _ (List.mem_cons_of_mem _ List.mem_cons_self), rfl⟩
  · intro f hf _
    change f ∈ reviewPool.fields ⟨3⟩ at hf
    simp only [reviewPool_fields, List.mem_cons, List.not_mem_nil, or_false] at hf
    rcases hf with rfl | rfl | rfl
    · refine ⟨rfl, rfl, ?_⟩
      simp [annsReview, FieldDescriptor.plain, storedFields, leavesAt, leavesOf]
    · refine ⟨rfl, rfl, ?_⟩
      simp [annsReview, FieldDescriptor.plain, storedFields, leavesAt, leavesOf, reviewPool_author]
    · refine ⟨rfl, rfl, ?_⟩
      simp [annsReview, FieldDescriptor.repeated, storedFields, leavesAt, leavesOf]
  · intro f _ d fields hv
    have hmem := mem_of_storedFields hv
    simp only [List.mem_cons, List.not_mem_nil, Prod.mk.injEq, or_false, reduceCtorEq, and_false,
      false_or, Value.message.injEq] at hmem
    obtain ⟨-, rfl, rfl⟩ := hmem
    exact sendable_author

theorem wellTyped_annsReview : WellTyped reviewPool annsReview := by
  intro f hf v hv
  change f ∈ reviewPool.fields ⟨3⟩ at hf
  simp only [reviewPool_fields, List.mem_cons, List.not_mem_nil, or_false] at hf
  rcases hf with rfl | rfl | rfl
  · cases hv
    exact validField_scalar rfl rfl rfl
  · cases hv
    exact validField_message rfl rfl wellTyped_author
  · cases hv
    refine (validField_list_iff rfl).mpr ⟨_, rfl, ?_⟩
    intro x hx
    simp only [List.mem_cons, List.not_mem_nil, or_false] at hx
    rcases hx with rfl | rfl
    · exact .scalar rfl rfl
    · exact .scalar rfl rfl

/-- The leaves of the review, as they are spelled in a query. -/
def annsBindings : List Binding :=
  [⟨.fillIfUnset, ["stars"], "5"⟩, ⟨.fillIfUnset, ["author", "alias"], "Ann"⟩,
    ⟨.fillIfUnset, ["tags"], "a&b"⟩, ⟨.fillIfUnset, ["tags"], "c"⟩]

theorem leaves_annsReview : leaves reviewPool annsReview =
    [⟨["stars"], .int32, .i32 5⟩, ⟨["author", "alias"], .string, .string "Ann"⟩,
      ⟨["tags"], .string, .string "a&b"⟩, ⟨["tags"], .string, .string "c"⟩] := by
  change (reviewPool.fields ⟨3⟩).flatMap
    (fun f => leavesAt reviewPool f (annsReview.fields f.number)) = _
  simp [reviewPool_fields, reviewPool_author, annsReview, FieldDescriptor.plain,
    FieldDescriptor.repeated, storedFields, leavesAt, leavesOf, Leaf.under]

/-- The author alone, bound by its name. -/
theorem author_of_review :
    runBindings reviewPool [⟨.overwrite, ["author", "alias"], "Ann"⟩] (.new ⟨3⟩) =
      restrict annsReview (fun n => n == 2) := by
  have hauthor : FieldDescriptor.plain 2 "author" (.message ⟨4⟩) ∈
      reviewPool.fields annsReview.desc := by
    change _ ∈ reviewPool.fields ⟨3⟩
    simp [reviewPool_fields]
  have hleaves : leavesAt reviewPool (.plain 2 "author" (.message ⟨4⟩)) (annsReview.fields 2) =
      [⟨["author", "alias"], .string, .string "Ann"⟩] := by
    simp [annsReview, reviewPool_author, FieldDescriptor.plain, storedFields, leavesAt, leavesOf,
      Leaf.under]
  have hrun := runBindings_leavesAt (sendable_annsReview.outside fun _ => false)
    wellTyped_annsReview hauthor rfl (l := [⟨.overwrite, ["author", "alias"], "Ann"⟩]) ?_ ?_
  · rw [restrict_none] at hrun
    simp only [Bool.false_or] at hrun
    exact hrun
  · intro d fields hv l hl
    cases hv
    exact runBindings_new sendable_author wellTyped_author l hl
  · change List.Forall₂ SpelledBy
      (leavesAt reviewPool (.plain 2 "author" (.message ⟨4⟩)) (annsReview.fields 2)) _
    rw [hleaves]
    exact .cons ⟨rfl, rfl⟩ .nil

/-- The review without its author. -/
theorem tags_spelled : List.Forall₂ SpelledBy
    (leavesOutside reviewPool annsReview fun n => n == 2)
    [⟨.overwrite, ["stars"], "5"⟩, ⟨.fillIfUnset, ["tags"], "a&b"⟩,
      ⟨.fillIfUnset, ["tags"], "c"⟩] := by
  have hleaves : leavesOutside reviewPool annsReview (fun n => n == 2) =
      [⟨["stars"], .int32, .i32 5⟩, ⟨["tags"], .string, .string "a&b"⟩,
        ⟨["tags"], .string, .string "c"⟩] := by
    change ((reviewPool.fields ⟨3⟩).filter fun f => !(f.number == 2)).flatMap
      (fun f => leavesAt reviewPool f (annsReview.fields f.number)) = _
    simp [reviewPool_fields, annsReview, FieldDescriptor.plain, FieldDescriptor.repeated,
      storedFields, leavesAt, leavesOf]
  rw [hleaves]
  exact .cons ⟨rfl, rfl⟩ (.cons ⟨rfl, rfl⟩ (.cons ⟨rfl, rfl⟩ .nil))

/-- The endpoint of `GET /v1/reviews/{stars}`. -/
def reviewEntry : Entry where
  template :=
    { raw := "/v1/reviews/\x7bstars\x7d"
      segments := [.literal "v1", .literal "reviews", .variable 0]
      vars := [{ fieldPath := ["stars"], sub := [.single], count := .exact 1 }]
      verb := none }
  grpcPath := "/demo.Reviews/Find"
  input := ⟨3⟩
  output := ⟨3⟩
  serverStreaming := false
  body := .none
  responseBody := none

/-- Libraries that know one descriptor set, and decode every JSON document to what some bindings
    build. -/
def Codec.ofBindings (pool : DescriptorPool) (l : List Binding) : Codec :=
  { Codec.ofPool pool with
    readJson := fun _ => .ok .null
    writeJson := fun _ => .ok [0x7B, 0x7D]
    deserialize := fun pool desc _ _ => .ok (runBindings pool l (.new desc))
    deserialize_typed := by
      intro pool desc deny body msg h
      cases h
      have hnew : WellTyped pool (.new desc) := wellTyped_new desc
      obtain ⟨hwt, hdesc⟩ := runBindings_typed l hnew
      exact ⟨hdesc, hwt⟩ }

theorem annsBindings_spelled :
    List.Forall₂ SpelledBy (leaves reviewPool annsReview) annsBindings := by
  rw [leaves_annsReview]
  exact .cons ⟨rfl, rfl⟩ (.cons ⟨rfl, rfl⟩ (.cons ⟨rfl, rfl⟩ (.cons ⟨rfl, rfl⟩ .nil)))

end Review

/-! ## Building the message -/

section Build

variable {codec : Codec} {pool : DescriptorPool} {entry : Entry} {captures : Captures}
  {query : Option String} {body : Bytes} {json : JsonOptions} {msg decoded : DynamicMessage}

/-- A run of bindings that all succeed builds the request. -/
theorem Entry.buildRequest_of_run (hdecoded : entry.decodeBody codec pool body json = .ok decoded)
    (hok : ∀ b ∈ entry.bindings captures query,
      pathOutcome pool b.path b.value b.path entry.input = .ok) :
    entry.buildRequest codec pool captures query body json =
      .ok (runBindings pool (entry.bindings captures query) decoded) := by
  obtain ⟨hdesc, hwt⟩ := Entry.decodeBody_typed hdecoded
  obtain ⟨hwt', hdesc'⟩ := bindCaptures_typed captures hwt
  have hcaptures : (bindCaptures pool decoded captures).2 = .ok := by
    refine (bindAll_ok_iff hwt).mpr fun x hx => ?_
    have hx := hok ⟨.overwrite, x.1, x.2⟩
      (List.mem_append_left _ (List.mem_map.mpr ⟨x, hx, rfl⟩))
    simp only at hx
    rw [hdesc, hx]
    rfl
  have hquery : (bindAll pool .fillIfUnset BindError.isUnknownField (entry.boundPairs query)
      (bindCaptures pool decoded captures).1).2 = .ok := by
    refine (bindAll_ok_iff hwt').mpr fun x hx => ?_
    have hx := hok ⟨.fillIfUnset, x.1, x.2⟩
      (List.mem_append_right _ (List.mem_map.mpr ⟨x, hx, rfl⟩))
    simp only at hx
    rw [hdesc', hdesc, hx]
    rfl
  refine Entry.buildRequest_eq_ok_iff.mpr
    ⟨decoded, (bindCaptures pool decoded captures).1, hdecoded, Prod.ext rfl hcaptures, ?_⟩
  -- both loops run to their ends, so together they are the run of all bindings
  refine Prod.ext ?_ hquery
  rw [bindAll_fst_of_ok hquery, bindCaptures, bindAll_fst_of_ok hcaptures, runBindings,
    Entry.bindings, List.foldl_append, List.foldl_map, List.foldl_map]

/-- **The leaves that the body leaves out complete the message.** -/
theorem Entry.buildRequest_of_leaves {p : Nat → Bool} (hsend : SendableOutside pool msg p)
    (hwt : WellTyped pool msg) (hdesc : msg.desc = entry.input)
    (hbody : entry.decodeBody codec pool body json = .ok (restrict msg p)) {l : List Binding}
    (hl : List.Forall₂ SpelledBy (leavesOutside pool msg p) l)
    (hreorder : KeyedReorder Binding.path l (entry.bindings captures query)) :
    entry.buildRequest codec pool captures query body json = .ok msg := by
  obtain ⟨hrun, hok⟩ := runBindings_leaves hsend hwt hl hreorder
  rw [hdesc] at hok
  rw [Entry.buildRequest_of_run hbody hok, hrun]

/-- The bindings of the parameters of a query. -/
def parameterBindings (params : List (String × String)) : List Binding :=
  params.map fun x => ⟨.fillIfUnset, split '.' x.1, x.2⟩

/-- The bindings of the values under the variables of a template. -/
def captureBindings (captures : Captures) : List Binding :=
  captures.map fun c => ⟨.overwrite, c.1, c.2⟩

theorem queryPairs_formQuery {params : List (String × String)} {query : String}
    (h : FormQuery params query) : queryPairs query = params.map fun x => (split '.' x.1, x.2) := by
  obtain ⟨pieces, hpieces, rfl⟩ := h
  rw [queryPairs_join (notMem_formPairs hpieces), pairsOf_formPairs hpieces]

/-- The query string of a client that percent-encodes every parameter. -/
def encodeQuery (hc : HexCase) (params : List (String × String)) : String :=
  join "&" (params.map fun x =>
    String.ofList ((percentEncode hc x.1).toList ++ '=' :: (percentEncode hc x.2).toList))

/-- Every list of parameters has a query string. -/
theorem formQuery_encodeQuery (hc : HexCase) (params : List (String × String)) :
    FormQuery params (encodeQuery hc params) := by
  refine ⟨_, ?_, rfl⟩
  induction params with
  | nil => exact .nil
  | cons x params ih =>
    exact .cons ⟨_, _, formEncoded_percentEncode hc x.1, formEncoded_percentEncode hc x.2, rfl⟩ ih

theorem Entry.bindings_formQuery {params : List (String × String)} {query : String}
    (h : FormQuery params query) (hbody : entry.body ≠ .wildcard) :
    entry.bindings captures (some query) =
      captureBindings captures ++ parameterBindings params := by
  have hpairs : entry.boundPairs (some query) = queryPairs query := by
    unfold Entry.boundPairs
    cases hb : entry.body with
    | wildcard => exact absurd hb hbody
    | none => rfl
    | field name => rfl
  rw [Entry.bindings, hpairs, queryPairs_formQuery h, List.map_map]
  rfl

/-- Parameters that all bind are bound one after another. -/
theorem bindQuery_of_run {desc : MessageDescriptor} {params : List (String × String)}
    {query : String} (hquery : FormQuery params query)
    (hok : ∀ b ∈ parameterBindings params, pathOutcome pool b.path b.value b.path desc = .ok) :
    bindQuery pool (.new desc) query =
      (runBindings pool (parameterBindings params) (.new desc), .ok) := by
  rw [bindQuery, queryPairs_formQuery hquery]
  have hends : (bindAll pool .fillIfUnset BindError.isUnknownField
      (params.map fun x => (split '.' x.1, x.2)) (.new desc)).2 = .ok := by
    refine (bindAll_ok_iff (wellTyped_new _)).mpr fun x hx => ?_
    obtain ⟨y, hy, rfl⟩ := List.mem_map.mp hx
    have hy := hok ⟨.fillIfUnset, split '.' y.1, y.2⟩ (List.mem_map.mpr ⟨y, hy, rfl⟩)
    simp only at hy
    rw [DynamicMessage.new_desc, hy]
    rfl
  refine Prod.ext ?_ hends
  rw [bindAll_fst_of_ok hends, runBindings, parameterBindings, List.foldl_map, List.foldl_map]

/-- **A message as a query string**: parameters that spell the leaves of a message, in any order
    that keeps the elements of each list in theirs, bind to the message. -/
theorem bindQuery_leaves (hsend : Sendable pool msg) (hwt : WellTyped pool msg)
    {params : List (String × String)} {l : List Binding}
    (hl : List.Forall₂ SpelledBy (leaves pool msg) l)
    (hreorder : KeyedReorder Binding.path l (parameterBindings params)) {query : String}
    (hquery : FormQuery params query) :
    bindQuery pool (.new msg.desc) query = (msg, .ok) := by
  rw [← leavesOutside_none] at hl
  obtain ⟨hrun, hok⟩ := runBindings_leaves (hsend.outside _) hwt hl hreorder
  rw [restrict_none] at hrun
  rw [bindQuery_of_run hquery hok, hrun]

/-- The review as a query, with the elements of the list apart. -/
theorem bindQuery_leaves_review :
    bindQuery reviewPool (.new ⟨3⟩)
        (encodeQuery .upper
          [("tags", "a&b"), ("author.alias", "Ann"), ("stars", "5"), ("tags", "c")]) =
      (annsReview, .ok) := by
  refine bindQuery_leaves sendable_annsReview wellTyped_annsReview annsBindings_spelled ?_
    (formQuery_encodeQuery .upper _)
  have hparams : parameterBindings
      [("tags", "a&b"), ("author.alias", "Ann"), ("stars", "5"), ("tags", "c")] =
      [⟨.fillIfUnset, ["tags"], "a&b"⟩, ⟨.fillIfUnset, ["author", "alias"], "Ann"⟩,
        ⟨.fillIfUnset, ["stars"], "5"⟩, ⟨.fillIfUnset, ["tags"], "c"⟩] := by
    simp [parameterBindings, show split '.' "tags" = ["tags"] by decide,
      show split '.' "author.alias" = ["author", "alias"] by decide,
      show split '.' "stars" = ["stars"] by decide]
  rw [hparams]
  intro k
  by_cases htags : ["tags"] = k
  · subst htags
    rfl
  · by_cases hstars : ["stars"] = k
    · subst hstars
      rfl
    · simp [annsBindings, List.filter_cons, htags, hstars]

/-- Parameters for leaves that can be written. -/
theorem exists_params {ls : List Leaf}
    (h : ∀ leaf ∈ ls, Spellable leaf.kind leaf.value ∧ leaf.path ≠ [] ∧
      ∀ name ∈ leaf.path, '.' ∉ name.toList) :
    ∃ params, List.Forall₂ SpelledBy ls (parameterBindings params) := by
  induction ls with
  | nil => exact ⟨[], .nil⟩
  | cons leaf ls ih =>
    obtain ⟨params, hparams⟩ := ih fun leaf hleaf => h leaf (List.mem_cons_of_mem _ hleaf)
    obtain ⟨hspellable, hne, hnames⟩ := h leaf List.mem_cons_self
    obtain ⟨text, htext⟩ := exists_parseScalar_of_spellable hspellable
    exact ⟨(join "." leaf.path, text) :: params, .cons ⟨split_join '.' hne hnames, htext⟩ hparams⟩

/-- **Every message has a query string**, if its leaves are values that can be written. -/
theorem exists_query (hsend : Sendable pool msg) (hwt : WellTyped pool msg)
    (hleaves : ∀ leaf ∈ leaves pool msg, Spellable leaf.kind leaf.value ∧
      ∀ name ∈ leaf.path, '.' ∉ name.toList) :
    ∃ query, bindQuery pool (.new msg.desc) query = (msg, .ok) := by
  obtain ⟨params, hparams⟩ := exists_params fun leaf hleaf =>
    ⟨(hleaves leaf hleaf).1, path_ne_nil_of_mem_leaves hleaf, (hleaves leaf hleaf).2⟩
  rw [← leavesOutside_none] at hparams
  obtain ⟨hrun, hok⟩ := runBindings_leaves (hsend.outside _) hwt hparams fun _ => rfl
  refine ⟨encodeQuery .upper params, ?_⟩
  rw [bindQuery_of_run (formQuery_encodeQuery .upper params) hok]
  rw [restrict_none] at hrun
  rw [hrun]

/-- The review has a query. -/
theorem exists_query_review :
    ∃ query, bindQuery reviewPool (.new ⟨3⟩) query = (annsReview, .ok) := by
  refine exists_query sendable_annsReview wellTyped_annsReview ?_
  rw [leaves_annsReview]
  intro leaf hleaf
  simp only [List.mem_cons, List.not_mem_nil, or_false] at hleaf
  rcases hleaf with rfl | rfl | rfl | rfl
  · exact ⟨rfl, by decide⟩
  · exact ⟨rfl, by decide⟩
  · exact ⟨rfl, by decide⟩
  · exact ⟨rfl, by decide⟩

/-- **A field in the body, the rest in parameters**: with `body: "field"`, the JSON of the field
    and parameters that spell the leaves outside it build the message. The field in the body may
    hold anything. -/
theorem Entry.buildRequest_bodyField (hwt : WellTyped pool msg) (hdesc : msg.desc = entry.input)
    {name : String} (hbody : entry.body = .field name) {f : FieldDescriptor}
    (hfield : pool.getFieldByName entry.input name = some f)
    (hsend : SendableOutside pool msg fun n => n == f.number) {value : JsonValue} {wrapper : Bytes}
    (hread : codec.readJson body = .ok value)
    (hwrite : codec.writeJson (.object [(name, value)]) = .ok wrapper)
    (hblank : body.all isAsciiWhitespace = false) (hblank' : wrapper.all isAsciiWhitespace = false)
    (hdecode : codec.deserialize pool entry.input json.denyUnknownFields wrapper =
      .ok (restrict msg fun n => n == f.number))
    {params : List (String × String)} {l : List Binding}
    (hl : List.Forall₂ SpelledBy (leavesOutside pool msg fun n => n == f.number) l)
    (hreorder : KeyedReorder Binding.path l (captureBindings captures ++ parameterBindings params))
    {target : String} (hquery : FormQuery params target) :
    entry.buildRequest codec pool captures (some target) body json = .ok msg := by
  have hne : entry.body ≠ .wildcard := by simp [hbody]
  rw [← Entry.bindings_formQuery hquery hne] at hreorder
  refine Entry.buildRequest_of_leaves hsend hwt hdesc ?_ hl hreorder
  -- the body decodes to the message with that field alone
  simp [Entry.decodeBody, hbody, decodeBodyIntoField, hfield, hblank, hread, hwrite,
    decodeRequestBody, hblank', hdecode, Except.mapError]

/-- The author of the review in the body, the rest in the path and the query. -/
theorem buildRequest_bodyField_review :
    Entry.buildRequest (Codec.ofBindings reviewPool [⟨.overwrite, ["author", "alias"], "Ann"⟩])
        reviewPool { reviewEntry with body := .field "author" } [(["stars"], "5")]
        (some (encodeQuery .upper [("tags", "a&b"), ("tags", "c")])) [0x22] {} =
      .ok annsReview := by
  have hread : (Codec.ofBindings reviewPool
      [⟨.overwrite, ["author", "alias"], "Ann"⟩]).readJson [0x22] = .ok .null := rfl
  have hwrite : (Codec.ofBindings reviewPool [⟨.overwrite, ["author", "alias"], "Ann"⟩]).writeJson
      (.object [("author", .null)]) = .ok [0x7B, 0x7D] := rfl
  refine Entry.buildRequest_bodyField wellTyped_annsReview rfl rfl
    (show reviewPool.getFieldByName ⟨3⟩ "author" = some (.plain 2 "author" (.message ⟨4⟩)) from rfl)
    (sendable_annsReview.outside _) hread hwrite rfl rfl (congrArg Except.ok author_of_review)
    tags_spelled ?_ (formQuery_encodeQuery .upper _)
  have hparams : captureBindings [(["stars"], "5")] ++
      parameterBindings [("tags", "a&b"), ("tags", "c")] =
      [⟨.overwrite, ["stars"], "5"⟩, ⟨.fillIfUnset, ["tags"], "a&b"⟩,
        ⟨.fillIfUnset, ["tags"], "c"⟩] := by
    simp [captureBindings, parameterBindings, show split '.' "tags" = ["tags"] by decide]
  rw [hparams]
  intro k
  rfl

/-! ### Path variables that repeat the body -/

/-- **Path variables may repeat what the body says**: with `body: "*"`, variables that spell leaves
    of the message in the body change nothing. -/
theorem Entry.buildRequest_repeated (haddr : Addressable pool msg) (hbody : entry.body = .wildcard)
    (hdecode : decodeRequestBody codec pool entry.input body json = .ok msg)
    (hcaptures : ∀ c ∈ captures, ∃ leaf ∈ leaves pool msg, leaf.path = c.1 ∧
      parseScalar leaf.kind c.2 = some leaf.value ∧
      ∃ f, leafField pool c.1 entry.input = some f ∧ f.cardinality = .singular)
    (query : Option String) :
    entry.buildRequest codec pool captures query body json = .ok msg := by
  obtain ⟨hdesc, hwt⟩ := decodeRequestBody_typed hdecode
  have hbody' : entry.decodeBody codec pool body json = .ok msg := by
    simp [Entry.decodeBody, hbody, hdecode, Except.mapError]
  have hbindings : entry.bindings captures query = captureBindings captures := by
    simp [Entry.bindings, Entry.boundPairs, hbody, captureBindings]
  have hok : ∀ b ∈ captureBindings captures,
      pathOutcome pool b.path b.value b.path entry.input = .ok := by
    intro b hb
    obtain ⟨c, hc, rfl⟩ := List.mem_map.mp hb
    obtain ⟨leaf, hleaf, hpath, hparse, -⟩ := hcaptures c hc
    have hout := haddr.pathOutcome_leaf hwt leaf hleaf c.2 hparse c.1
    rwa [hpath, hdesc] at hout
  rw [Entry.buildRequest_of_run hbody' (hbindings ▸ hok), hbindings]
  congr 1
  -- every capture is bound in the message that the body says, and leaves it as it is
  clear hbindings
  induction captures with
  | nil => rfl
  | cons c captures ih =>
    obtain ⟨leaf, hleaf, hpath, hparse, f, hf, hcard⟩ := hcaptures c List.mem_cons_self
    have hout := hok ⟨.overwrite, c.1, c.2⟩ (List.mem_map.mpr ⟨c, List.mem_cons_self, rfl⟩)
    rw [← hdesc] at hf hout
    have hidle := haddr.idle_leaf hwt .overwrite leaf hleaf hparse f (hpath ▸ hf) hcard
    have hsame : (bindFieldPath pool msg c.1 c.2 .overwrite).1 = msg := by
      refine (bindInner_eq_self_iff c.1 hwt ?_).mpr (hpath ▸ hidle)
      rw [bindInner_outcome c.1 hwt, hout]
      trivial
    change runBindings pool (captureBindings captures)
      (bindFieldPath pool msg c.1 c.2 .overwrite).1 = msg
    rw [hsame]
    exact ih (fun c hc => hcaptures c (List.mem_cons_of_mem _ hc))
      (fun b hb => hok b (List.mem_cons_of_mem _ hb))

/-- The stars of the review in its path and in its body. -/
theorem buildRequest_repeated_review :
    Entry.buildRequest (Codec.ofBindings reviewPool annsBindings) reviewPool
        { reviewEntry with body := .wildcard } [(["stars"], "+5")] (some "stars=4") [0x22] {} =
      .ok annsReview := by
  have hrun : runBindings reviewPool annsBindings (.new ⟨3⟩) = annsReview :=
    runBindings_new sendable_annsReview wellTyped_annsReview _ annsBindings_spelled
  have hdecode : decodeRequestBody (Codec.ofBindings reviewPool annsBindings) reviewPool ⟨3⟩
      [0x22] {} = .ok annsReview := congrArg Except.ok hrun
  refine Entry.buildRequest_repeated sendable_annsReview.addressable rfl hdecode ?_ _
  intro c hmem
  obtain rfl := List.mem_singleton.mp hmem
  refine ⟨⟨["stars"], .int32, .i32 5⟩, ?_, rfl, rfl, .plain 1 "stars" .int32, rfl, rfl⟩
  rw [leaves_annsReview]
  exact List.mem_cons_self

end Build

/-! ## The whole way -/

section Target

theorem notMem_join {c : Char} {sep : String} (hsep : c ∉ sep.toList) {l : List String}
    (hl : ∀ s ∈ l, c ∉ s.toList) : c ∉ (join sep l).toList := by
  rw [join, String.toList_intercalate]
  induction l with
  | nil => simp
  | cons s l ih =>
    have hs := hl s List.mem_cons_self
    cases l with
    | nil => simpa using hs
    | cons t l =>
      rw [List.map_cons, List.map_cons, List.intercalate_cons_cons, ← List.map_cons]
      simp only [List.mem_append, not_or]
      exact ⟨⟨hs, hsep⟩, ih fun x hx => hl x (List.mem_cons_of_mem _ hx)⟩

/-- A request path holds no `?` of its own. -/
theorem question_notMem_requestPath (hc : HexCase) {t : PathTemplate}
    (hverb : ∀ v ∈ t.verb, '?' ∉ v.toList) (a : Assignment) :
    '?' ∉ (requestPath hc t a).toList := by
  have hjoin : '?' ∉ (join "/" ((t.fill a).map (percentEncode hc))).toList := by
    apply notMem_join (by decide)
    intro s hs
    obtain ⟨x, -, rfl⟩ := List.mem_map.mp hs
    exact notMem_percentEncode (by decide) (by decide) (by decide)
  have hsuffix : '?' ∉ (verbSuffix t.verb).toList := by
    cases hv : t.verb with
    | none => simp [verbSuffix]
    | some v => simpa [verbSuffix] using hverb v hv
  simp [requestPath, hjoin, hsuffix]

/-- The query of a target is cut off at its first `?`. -/
theorem splitQuery_append {path : String} (h : '?' ∉ path.toList) (query : String) :
    splitQuery (path ++ "?" ++ query) = (path, some query) := by
  have hlist : (path ++ "?" ++ query).toList = path.toList ++ '?' :: query.toList := by simp
  rw [splitQuery, splitOnce, hlist, splitFirst_append h]
  simp

/-- The endpoint behind those that do not match is the one that is selected. -/
theorem Gateway.select_of_first {g : Gateway} {method path : String} {e : Entry}
    {before after : List Entry} {captures : Captures}
    (hroutes : g.routes (toAsciiUppercase method) = before ++ e :: after)
    (hearlier : ∀ e' ∈ before,
      e'.template.matches (requestTarget path).1 (requestTarget path).2 = none)
    (hmatch : e.template.matches (requestTarget path).1 (requestTarget path).2 = some captures) :
    g.select method path = some (e, captures) := by
  have hnone : before.findSome? (fun e' =>
      (e'.template.matches (requestTarget path).1 (requestTarget path).2).map (e', ·)) = none := by
    rw [List.findSome?_eq_none_iff]
    intro e' he'
    rw [hearlier e' he', Option.map_none]
  change lookup g.routes (toAsciiUppercase method) (requestTarget path).1 (requestTarget path).2 = _
  rw [lookup, hroutes, List.findSome?_append, hnone, List.findSome?_cons, hmatch]
  rfl

end Target

/-- A request that is translated is a call, and the client gets what the backend answers. -/
theorem Gateway.handle_of_select {codec : Codec} {g : Gateway} {method path : String} {e : Entry}
    {captures : Captures} (hselect : g.select method path = some (e, captures))
    (hunary : e.serverStreaming = false) {body : Bytes} {msg : DynamicMessage}
    (hbuilt : e.buildRequest codec g.pool captures (splitQuery path).2 body g.json = .ok msg)
    (headers : Headers) :
    g.handle codec method path headers body =
      match g.backend.unary e.grpcPath (codec.encodeMessage g.pool msg)
          (forwardedMetadata headers) with
      | .error err => some (errorResponse .unavailable err)
      | .ok reply => some (e.renderReply codec g.pool reply g.json) := by
  unfold Gateway.handle
  rw [hselect]
  cases hreply : g.backend.unary e.grpcPath (codec.encodeMessage g.pool msg)
      (forwardedMetadata headers) with
  | error err => simp only [hunary, Bool.false_eq_true, if_false, hbuilt, hreply]
  | ok reply => simp only [hunary, Bool.false_eq_true, if_false, hbuilt, hreply]

/-- The leaves of a message, sent to an endpoint, are a call with that message. -/
theorem Gateway.handle_of_leaves {codec : Codec} {g : Gateway} {method path base : String}
    {e : Entry} {captures : Captures} (hselect : g.select method path = some (e, captures))
    (hunary : e.serverStreaming = false) (hselector : e.body ≠ .wildcard) {msg : DynamicMessage}
    {p : Nat → Bool} (hsend : SendableOutside g.pool msg p) (hwt : WellTyped g.pool msg)
    (hdesc : msg.desc = e.input) {body : Bytes}
    (hbody : e.decodeBody codec g.pool body g.json = .ok (restrict msg p))
    {params : List (String × String)} {query : String} (hquery : FormQuery params query)
    (hsplit : splitQuery path = (base, some query)) {l : List Binding}
    (hl : List.Forall₂ SpelledBy (leavesOutside g.pool msg p) l)
    (hreorder : KeyedReorder Binding.path l
      (captureBindings captures ++ parameterBindings params))
    (headers : Headers) :
    g.handle codec method path headers body =
      match g.backend.unary e.grpcPath (codec.encodeMessage g.pool msg)
          (forwardedMetadata headers) with
      | .error err => some (errorResponse .unavailable err)
      | .ok reply => some (e.renderReply codec g.pool reply g.json) := by
  apply Gateway.handle_of_select hselect hunary
  rw [← Entry.bindings_formQuery hquery hselector] at hreorder
  rw [hsplit]
  exact Entry.buildRequest_of_leaves hsend hwt hdesc hbody hl hreorder

/-- **A call reaches the backend as the client means it**: the client fills the variables of the
    template and spells the rest of its message as parameters, or as parameters and a body, and the
    backend is called with the encoding of that very message, if the leaves outside the body
    complete it. The client gets what the backend answers. -/
theorem Gateway.handle_leaves {codec : Codec} {b : GatewayBuilder} {g : Gateway}
    (hbuild : b.build codec = .ok g) {method : String} {e : Entry} {before after : List Entry}
    (hroutes : g.routes (toAsciiUppercase method) = before ++ e :: after)
    (hunary : e.serverStreaming = false) (hselector : e.body ≠ .wildcard) {msg : DynamicMessage}
    {p : Nat → Bool} (hsend : SendableOutside g.pool msg p) (hwt : WellTyped g.pool msg)
    (hdesc : msg.desc = e.input) {body : Bytes}
    (hbody : e.decodeBody codec g.pool body g.json = .ok (restrict msg p))
    (hc : HexCase) (a : Assignment)
    (hverb : ∀ v ∈ e.template.verb, ':' ∉ v.toList ∧ '?' ∉ v.toList)
    (hearlier : ∀ e' ∈ before,
      e'.template.matches (splitRequestPath (requestPath hc e.template a)).1
        (splitRequestPath (requestPath hc e.template a)).2 = none)
    {params : List (String × String)} {query : String} (hquery : FormQuery params query)
    {l : List Binding} (hl : List.Forall₂ SpelledBy (leavesOutside g.pool msg p) l)
    (hreorder : KeyedReorder Binding.path l
      (captureBindings (e.template.values a) ++ parameterBindings params))
    (headers : Headers) :
    g.handle codec method (requestPath hc e.template a ++ "?" ++ query) headers body =
      match g.backend.unary e.grpcPath (codec.encodeMessage g.pool msg)
          (forwardedMetadata headers) with
      | .error err => some (errorResponse .unavailable err)
      | .ok reply => some (e.renderReply codec g.pool reply g.json) := by
  have hmem : e ∈ g.routes (toAsciiUppercase method) := by
    rw [hroutes]
    exact List.mem_append_right _ List.mem_cons_self
  have hwf := template_wellFormed_of_build hbuild hmem
  have hsplit := splitQuery_append
    (question_notMem_requestPath hc (fun v hv => (hverb v hv).2) a) query
  have htarget : requestTarget (requestPath hc e.template a ++ "?" ++ query) =
      splitRequestPath (requestPath hc e.template a) := by
    rw [requestTarget, hsplit]
  have hmatch := hwf.matches_own (fun v hv => (hverb v hv).1) hc a
  have hselect : g.select method (requestPath hc e.template a ++ "?" ++ query) =
      some (e, e.template.values a) := by
    apply Gateway.select_of_first hroutes
    · rw [htarget]
      exact hearlier
    · rw [htarget]
      exact hmatch
  exact Gateway.handle_of_leaves hselect hunary hselector hsend hwt hdesc hbody hquery hsplit hl
    hreorder headers

/-- A builder with the default options. -/
def reviewBuilder : GatewayBuilder :=
  { descriptorSet := [], backend := some .down }

theorem review_build : ∃ g, reviewBuilder.build (.ofPool reviewPool) = .ok g ∧
    g.pool = reviewPool ∧ g.json = {} ∧ g.backend = .down ∧ g.routes "GET" = [reviewEntry] := by
  obtain ⟨g, hg⟩ : ∃ g, reviewBuilder.build (.ofPool reviewPool) = .ok g :=
    exists_build_iff.mpr ⟨⟨_, rfl⟩, reviewPool, rfl, by decide, by decide⟩
  obtain ⟨backend, pool, routes, hbackend, hpool, hresolve, rfl⟩ := build_eq_ok_iff.mp hg
  cases hpool
  cases hbackend
  refine ⟨_, hg, rfl, rfl, rfl, ?_⟩
  rw [(compile_eq_ok_iff.mp (resolve_eq_ok_iff.mp hresolve).2).2]
  change (RouteTable.fromMethods (extractHttpRules reviewPool) true).bindings.filterMap
    (endpointFor? (methodIndex reviewPool) "GET") = [reviewEntry]
  decide

/-- The bindings of a request for the review. -/
def reviewBindings : List Binding :=
  [⟨.overwrite, ["stars"], "5"⟩, ⟨.fillIfUnset, ["author", "alias"], "Ann"⟩,
    ⟨.fillIfUnset, ["tags"], "a&b"⟩, ⟨.fillIfUnset, ["tags"], "c"⟩]

theorem reviewBindings_eq :
    captureBindings (reviewEntry.template.values ⟨fun _ _ => "5", []⟩) ++
        parameterBindings [("author.alias", "Ann"), ("tags", "a&b"), ("tags", "c")] =
      reviewBindings := by
  have hvalues : reviewEntry.template.values ⟨fun _ _ => "5", []⟩ = [(["stars"], "5")] := by
    decide
  simp [reviewBindings, hvalues, captureBindings, parameterBindings,
    show split '.' "tags" = ["tags"] by decide,
    show split '.' "author.alias" = ["author", "alias"] by decide]

theorem reviewBindings_spelled :
    List.Forall₂ SpelledBy (leavesOutside reviewPool annsReview fun _ => false) reviewBindings := by
  rw [leavesOutside_none, leaves_annsReview]
  exact .cons ⟨rfl, rfl⟩ (.cons ⟨rfl, rfl⟩ (.cons ⟨rfl, rfl⟩ (.cons ⟨rfl, rfl⟩ .nil)))

theorem reviewBindings_reorder : KeyedReorder Binding.path reviewBindings
    (captureBindings (reviewEntry.template.values ⟨fun _ _ => "5", []⟩) ++
      parameterBindings [("author.alias", "Ann"), ("tags", "a&b"), ("tags", "c")]) := by
  rw [reviewBindings_eq]
  exact fun _ => rfl

/-- The review is found by its stars. -/
theorem handle_leaves_review : ∃ b g, GatewayBuilder.build (.ofPool reviewPool) b = .ok g ∧
    g.handle (.ofPool reviewPool) "get"
        (requestPath .upper reviewEntry.template ⟨fun _ _ => "5", []⟩ ++ "?" ++
          encodeQuery .upper [("author.alias", "Ann"), ("tags", "a&b"), ("tags", "c")]) [] [] =
      some (errorResponse .unavailable "down") := by
  obtain ⟨g, hg, hpool, hjson, hbackend, hroutes⟩ := review_build
  refine ⟨reviewBuilder, g, hg, ?_⟩
  have hroutes' : g.routes (toAsciiUppercase "get") = [] ++ reviewEntry :: [] := by
    rw [show toAsciiUppercase "get" = "GET" by decide]
    exact hroutes
  have hbody : reviewEntry.decodeBody (.ofPool reviewPool) g.pool [] g.json =
      .ok (restrict annsReview fun _ => false) := by
    rw [restrict_none]
    rfl
  rw [Gateway.handle_leaves hg hroutes' rfl (by decide) (hpool ▸ sendable_annsReview.outside _)
    (hpool ▸ wellTyped_annsReview) rfl hbody .upper ⟨fun _ _ => "5", []⟩ (by simp [reviewEntry])
    (by simp) (formQuery_encodeQuery .upper _) (hpool ▸ reviewBindings_spelled)
    reviewBindings_reorder, hbackend]
  rfl

end GrpcGw.Service
