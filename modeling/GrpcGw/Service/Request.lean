import GrpcGw.Service.Build
import GrpcGw.Transcode.View

/-!
# Building a Request

`Entry::build_request` and `bind_query` (`gateway.rs`): the input message of a call is decoded
from the body, then path captures are written into it, then query parameters fill what is unset.
-/

namespace GrpcGw.Service

open GrpcGw.Text
open GrpcGw.Reflect
open GrpcGw.Template
open GrpcGw.Routes
open GrpcGw.Transcode

/-! ## Loops of bindings -/

/-- Bind a list of values one after the other. The loop goes on after an error that is ignored
    and ends with the first other one. -/
def bindAll (pool : DescriptorPool) (mode : BindMode) (ignored : BindError → Bool) :
    List (List String × String) → DynamicMessage → DynamicMessage × BindOutcome
  | [], msg => (msg, .ok)
  | (path, value) :: rest, msg =>
    match bindFieldPath pool msg path value mode with
    | (msg, .ok) => bindAll pool mode ignored rest msg
    -- an ignored failure keeps what the binding has changed so far
    | (msg, .error e) =>
      if ignored e then bindAll pool mode ignored rest msg else (msg, .error e)
    | (msg, .panic) => (msg, .panic)

/-! ## Query strings -/

/-- `query_decode`: `+` is a space and `%XX` a byte. Text whose bytes are not UTF-8 keeps its
    triplets. -/
def queryDecode (s : String) : String :=
  let s := String.ofList (s.toList.map fun c => if c = '+' then ' ' else c)
  if '%' ∉ s.toList then s
  else (fromUtf8 (unescape (utf8 s))).getD s

/-- The field path and the value of one `key=value` piece; a piece without `=` is a key. -/
def queryPair (piece : String) : List String × String :=
  let (key, value) := (splitOnce '=' piece).getD (piece, "")
  (split '.' (queryDecode key), queryDecode value)

/-- The pairs of a query string, in order. Empty pieces are skipped. -/
def queryPairs (query : String) : List (List String × String) :=
  ((split '&' query).filter (· ≠ "")).map queryPair

/-- `bind_query`: unknown fields are ignored, any other failure ends the loop. -/
def bindQuery (pool : DescriptorPool) (msg : DynamicMessage) (query : String) :
    DynamicMessage × BindOutcome :=
  bindAll pool .fillIfUnset BindError.isUnknownField (queryPairs query) msg

/-! ## Requests -/

/-- The loop over the captures: the first failure ends it. -/
def bindCaptures (pool : DescriptorPool) (msg : DynamicMessage) (captures : Captures) :
    DynamicMessage × BindOutcome :=
  bindAll pool .overwrite (fun _ => false) captures msg

/-- Why a request is not translated. -/
inductive RequestError where
  | body (e : TranscodeError)
  /-- The field of a `body: "field"` selector does not exist. -/
  | bodyField (message : String)
  | capture (e : BindError)
  | query (e : BindError)
  /-- An empty field path was bound. -/
  | panic
  deriving DecidableEq, Repr

/-- The code and the message a failed translation is rendered with. -/
def RequestError.toStatus : RequestError → Option (Code × String)
  | .body e => some (.invalidArgument, e.toText)
  | .bodyField message => some (.internal, message)
  | .capture e => some (.invalidArgument, e.toText)
  | .query e => some (.invalidArgument, e.toText)
  | .panic => none

section Request

variable (codec : Codec) (pool : DescriptorPool) (entry : Entry)

/-- The first step of `build_request`: the message the body alone decodes to. -/
def Entry.decodeBody (body : Bytes) (json : JsonOptions) : Except RequestError DynamicMessage :=
  match entry.body with
  | .wildcard => (decodeRequestBody codec pool entry.input body json).mapError .body
  | .none => .ok (.new entry.input)
  | .field field =>
    match decodeBodyIntoField codec pool entry.input field body json with
    | .ok msg => .ok msg
    | .error (.transcode e) => .error (.body e)
    | .error (.field message) => .error (.bodyField message)

/-- `Entry::build_request`. -/
def Entry.buildRequest (captures : Captures) (query : Option String) (body : Bytes)
    (json : JsonOptions) : Except RequestError DynamicMessage :=
  match entry.decodeBody codec pool body json with
  | .error e => .error e
  | .ok msg =>
    match bindCaptures pool msg captures with
    | (_, .error e) => .error (.capture e)
    | (_, .panic) => .error .panic
    | (msg, .ok) =>
      match entry.body, query with
      -- `body: "*"` consumes the whole body, and the query is not read
      | .wildcard, _ => .ok msg
      | _, none => .ok msg
      | _, some query =>
        match bindQuery pool msg query with
        | (_, .error e) => .error (.query e)
        | (_, .panic) => .error .panic
        | (msg, .ok) => .ok msg

end Request

/-! ## The body -/

section Body

variable {codec : Codec} {pool : DescriptorPool} {entry : Entry} {body : Bytes}
  {json : JsonOptions} {msg : DynamicMessage}

theorem Entry.decodeBody_typed (h : entry.decodeBody codec pool body json = .ok msg) :
    msg.desc = entry.input ∧ WellTyped pool msg := by
  unfold Entry.decodeBody at h
  split at h
  · exact decodeRequestBody_typed (mapError_eq_ok_iff.mp h)
  · cases h
    exact ⟨rfl, wellTyped_new _⟩
  · split at h
    · next hd =>
      cases h
      exact decodeBodyIntoField_typed hd
    · cases h
    · cases h

end Body

/-! ## Runs of bindings -/

section Runs

variable {pool : DescriptorPool} {mode : BindMode} {ignored : BindError → Bool}

/-- Whether the loop goes on after an outcome. -/
def continues (ignored : BindError → Bool) : BindOutcome → Bool
  | .ok => true
  | .error e => ignored e
  | .panic => false

/-- One round of the loop. -/
theorem bindAll_cons (path : List String) (value : String) (rest : List (List String × String))
    (msg : DynamicMessage) :
    bindAll pool mode ignored ((path, value) :: rest) msg =
      if continues ignored (bindFieldPath pool msg path value mode).2 then
        bindAll pool mode ignored rest (bindFieldPath pool msg path value mode).1
      else bindFieldPath pool msg path value mode := by
  rw [bindAll]
  rcases bindFieldPath pool msg path value mode with ⟨m, outcome⟩
  cases outcome with
  | ok => rfl
  | panic => rfl
  | error e => rfl

theorem ne_ok_of_not_continues {outcome : BindOutcome} (h : continues ignored outcome = false) :
    outcome ≠ .ok := by
  rintro rfl
  cases h

theorem proceeds_of_continues (hignored : ∀ e, ignored e = true → e.isUnknownField = true)
    {outcome : BindOutcome} (h : continues ignored outcome = true) : outcome.Proceeds := by
  cases outcome with
  | ok => trivial
  | panic => cases h
  | error e =>
    have hunknown := hignored e h
    cases e with
    | unknownField path field => trivial
    | _ => cases hunknown

/-- Binding two lists one after the other. -/
theorem bindAll_append (l l' : List (List String × String)) (msg : DynamicMessage) :
    bindAll pool mode ignored (l ++ l') msg =
      if (bindAll pool mode ignored l msg).2 = .ok then
        bindAll pool mode ignored l' (bindAll pool mode ignored l msg).1
      else bindAll pool mode ignored l msg := by
  induction l generalizing msg with
  | nil => rfl
  | cons x l ih =>
    obtain ⟨path, value⟩ := x
    rw [List.cons_append, bindAll_cons, bindAll_cons]
    cases hc : continues ignored (bindFieldPath pool msg path value mode).2 with
    | true => simpa using ih _
    | false => simp [ne_ok_of_not_continues hc]

/-- A loop that ignores nothing and ends well has bound every value. -/
theorem bindAll_split_ok {before after : List (List String × String)} {path : List String}
    {value : String} {msg bound : DynamicMessage}
    (h : bindAll pool mode (fun _ => false) (before ++ (path, value) :: after) msg = (bound, .ok)) :
    ∃ m₁ m₂, bindAll pool mode (fun _ => false) before msg = (m₁, .ok) ∧
      bindFieldPath pool m₁ path value mode = (m₂, .ok) ∧
      bindAll pool mode (fun _ => false) after m₂ = (bound, .ok) := by
  rw [bindAll_append] at h
  rcases hbefore : bindAll pool mode (fun _ => false) before msg with ⟨m₁, outcome⟩
  rw [hbefore] at h
  split at h
  · next hok =>
    -- the loop is past the head, and ends well only if the binding itself does
    cases hok
    rw [bindAll] at h
    rcases hself : bindFieldPath pool m₁ path value mode with ⟨m₂, outcome⟩
    rw [hself] at h
    cases outcome with
    | ok => exact ⟨m₁, m₂, rfl, hself, h⟩
    | error e => cases h
    | panic => cases h
  · next hnot =>
    cases h
    exact absurd rfl hnot

/-- A loop ends well iff it goes on after every binding. The state does not matter for that. -/
theorem bindAll_ok_iff {l : List (List String × String)} {msg : DynamicMessage}
    (h : WellTyped pool msg) :
    (bindAll pool mode ignored l msg).2 = .ok ↔
      ∀ x ∈ l, continues ignored (pathOutcome pool x.1 x.2 x.1 msg.desc) = true := by
  induction l generalizing msg with
  | nil => simp [bindAll]
  | cons x l ih =>
    obtain ⟨path, value⟩ := x
    obtain ⟨hwt, hdesc⟩ := bindFieldPath_wellTyped h path value mode
    have hout : (bindFieldPath pool msg path value mode).2 =
        pathOutcome pool path value path msg.desc := bindInner_outcome path h
    rw [bindAll_cons, List.forall_mem_cons, ← hout]
    -- the loop goes on iff the outcome of this step lets it
    cases hc : continues ignored (bindFieldPath pool msg path value mode).2 with
    | true =>
      have ih' := ih hwt
      rw [hdesc] at ih'
      simpa using ih'
    | false => simp [ne_ok_of_not_continues hc]

/-- A loop that ends well has run every binding. -/
theorem bindAll_fst_of_ok {l : List (List String × String)} {msg : DynamicMessage}
    (h : (bindAll pool mode ignored l msg).2 = .ok) :
    (bindAll pool mode ignored l msg).1 =
      l.foldl (fun m x => (bindFieldPath pool m x.1 x.2 mode).1) msg := by
  induction l generalizing msg with
  | nil => rfl
  | cons x l ih =>
    obtain ⟨path, value⟩ := x
    rw [bindAll_cons] at h ⊢
    cases hc : continues ignored (bindFieldPath pool msg path value mode).2 with
    | true =>
      rw [hc] at h
      exact ih h
    | false =>
      rw [hc] at h
      exact absurd h (ne_ok_of_not_continues hc)

/-- A loop of bindings keeps a message well-typed, and its type. -/
theorem bindAll_typed (l : List (List String × String)) {msg : DynamicMessage}
    (h : WellTyped pool msg) :
    WellTyped pool (bindAll pool mode ignored l msg).1 ∧
      (bindAll pool mode ignored l msg).1.desc = msg.desc := by
  induction l generalizing msg with
  | nil => exact ⟨h, rfl⟩
  | cons x l ih =>
    obtain ⟨path, value⟩ := x
    obtain ⟨hwt, hdesc⟩ := bindFieldPath_wellTyped h path value mode
    rw [bindAll_cons]
    split
    · obtain ⟨hwt', hdesc'⟩ := ih hwt
      exact ⟨hwt', hdesc'.trans hdesc⟩
    · exact ⟨hwt, hdesc⟩

theorem bindCaptures_typed (captures : Captures) {msg : DynamicMessage} (h : WellTyped pool msg) :
    WellTyped pool (bindCaptures pool msg captures).1 ∧
      (bindCaptures pool msg captures).1.desc = msg.desc :=
  bindAll_typed captures h

end Runs

/-! ## What a request is built from -/

/-- The query parameters that are bound: none if there is no query, or if `body: "*"` has
    consumed the whole body. -/
def Entry.boundPairs (entry : Entry) (query : Option String) : List (List String × String) :=
  match entry.body, query with
  | .wildcard, _ => []
  | _, none => []
  | _, some query => queryPairs query

/-- **A request is built** from the decoded body by the captures and the bound parameters. -/
theorem Entry.buildRequest_eq_ok_iff {codec : Codec} {pool : DescriptorPool} {entry : Entry}
    {captures : Captures} {query : Option String} {body : Bytes} {json : JsonOptions}
    {msg : DynamicMessage} :
    entry.buildRequest codec pool captures query body json = .ok msg ↔
      ∃ decoded bound, entry.decodeBody codec pool body json = .ok decoded ∧
        bindCaptures pool decoded captures = (bound, .ok) ∧
        bindAll pool .fillIfUnset BindError.isUnknownField (entry.boundPairs query) bound =
          (msg, .ok) := by
  unfold Entry.buildRequest Entry.boundPairs bindQuery
  cases entry.decodeBody codec pool body json with
  | error e => simp
  | ok decoded =>
    rcases hcaps : bindCaptures pool decoded captures with ⟨bound, outcome⟩
    cases outcome with
    | error e => simp [hcaps]
    | panic => simp [hcaps]
    | ok =>
      -- the last step passes the outcome of the loop on
      have hpairs : ∀ q, (match bindAll pool .fillIfUnset BindError.isUnknownField
            (queryPairs q) bound with
          | (_, .error e) => Except.error (RequestError.query e)
          | (_, .panic) => .error .panic
          | (msg, .ok) => .ok msg) = Except.ok msg ↔
          bindAll pool .fillIfUnset BindError.isUnknownField (queryPairs q) bound = (msg, .ok) := by
        intro q
        rcases bindAll pool .fillIfUnset BindError.isUnknownField (queryPairs q) bound with ⟨m, o⟩
        cases o <;> simp
      cases entry.body <;> cases query <;> simp [hcaps, hpairs, bindAll]

/-- **How a request fails**: in its body, at a capture or at a bound parameter. -/
theorem Entry.buildRequest_error {codec : Codec} {pool : DescriptorPool} {entry : Entry}
    {captures : Captures} {query : Option String} {body : Bytes} {json : JsonOptions}
    {e : RequestError} (h : entry.buildRequest codec pool captures query body json = .error e) :
    entry.decodeBody codec pool body json = .error e ∨
      ∃ decoded, entry.decodeBody codec pool body json = .ok decoded ∧
        ((∃ be, e = .capture be ∧ (bindCaptures pool decoded captures).2 = .error be) ∨
          (∃ be, e = .query be ∧
            (bindAll pool .fillIfUnset BindError.isUnknownField (entry.boundPairs query)
              (bindCaptures pool decoded captures).1).2 = .error be) ∨
          e = .panic ∧ ((bindCaptures pool decoded captures).2 = .panic ∨
            (bindAll pool .fillIfUnset BindError.isUnknownField (entry.boundPairs query)
              (bindCaptures pool decoded captures).1).2 = .panic)) := by
  unfold Entry.buildRequest bindQuery at h
  cases hdecode : entry.decodeBody codec pool body json with
  | error e' => simpa [hdecode] using h
  | ok decoded =>
    right
    refine ⟨decoded, rfl, ?_⟩
    -- the captures come first, and only then the query
    rcases hcaps : bindCaptures pool decoded captures with ⟨bound, outcome⟩
    cases outcome with
    | error be => exact .inl ⟨be, by simpa [hdecode, hcaps] using h.symm, rfl⟩
    | panic => exact .inr (.inr ⟨by simpa [hdecode, hcaps] using h.symm, .inl rfl⟩)
    | ok =>
      right
      unfold Entry.boundPairs
      simp only [hdecode, hcaps] at h
      split at h
      · cases h
      · cases h
      · next query _ =>
        rcases hq : bindAll pool .fillIfUnset BindError.isUnknownField (queryPairs query) bound with
          ⟨m, outcome⟩
        cases outcome with
        | ok => simp [hq] at h
        | error be => exact .inl ⟨be, by simpa [hq] using h.symm, rfl⟩
        | panic => exact .inr ⟨by simpa [hq] using h.symm, .inr rfl⟩

/-- `message Book { int32 id = 1; oneof origin { Author author = 2; bool anonymous = 3; } }` and
    `message Author { string name = 1; }`. -/
def bookPool : DescriptorPool where
  messages :=
    [{ fullName := "demo.Book"
       fields :=
        [.plain 1 "id" .int32,
          .member 0 2 "author" (.message ⟨1⟩),
          .member 0 3 "anonymous" .bool] },
      { fullName := "demo.Author"
        fields := [.plain 1 "name" .string] }]
  services := []
  extensions := []

end GrpcGw.Service
