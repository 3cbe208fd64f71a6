import GrpcGw.Service.Request

/-!
# Handling a Request

`Gateway::handle` and `Entry::render_reply` (`gateway.rs`): a request is routed to the first
endpoint that matches it, translated, sent to the backend, and the reply is rendered as JSON.

- `lookup_eq_some_iff`: what the first-match search finds.
- `mem_routes_iff_of_build`: the endpoints of a built gateway are those of its bindings.
- `Gateway.handle_ne_none`: a built gateway answers every request.
-/

namespace GrpcGw.Service

open GrpcGw.Text
open GrpcGw.Pattern
open GrpcGw.Reflect
open GrpcGw.Template
open GrpcGw.Rules
open GrpcGw.Routes
open GrpcGw.Transcode

/-! ## Replies -/

/-- Why a reply is not rendered. -/
inductive RenderError where
  /-- The bytes of the backend are no message of the output type. -/
  | decode (e : String)
  /-- The `response_body` field does not exist. -/
  | missingField (field : String)
  | encode (e : TranscodeError)
  deriving DecidableEq, Repr

/-- The message of a reply that is not rendered. -/
def RenderError.toText : RenderError → String
  | .decode e => "failed to decode backend response: " ++ e
  | .missingField field => "response_body field " ++ debugStr field ++ " not found"
  | .encode e => e.toText

section Reply

variable (codec : Codec) (pool : DescriptorPool) (entry : Entry)

/-- The rendering of an OK reply: the output message, or its `response_body` field. -/
def Entry.encodeReply (reply : GrpcReply) (json : JsonOptions) : Except RenderError Bytes :=
  match codec.decodeMessage pool entry.output (reply.messageBytes.getD []) with
  | .error e => .error (.decode e)
  | .ok msg =>
    match entry.responseBody with
    | none => (encodeResponseJson codec pool msg json).mapError .encode
    | some field =>
      match pool.getFieldByName msg.desc field with
      | some fd => (encodeFieldJson codec pool fd (msg.getField fd) json).mapError .encode
      | none => .error (.missingField field)

/-- `Entry::render_reply`. -/
def Entry.renderReply (reply : GrpcReply) (json : JsonOptions) : Response :=
  if reply.status ≠ .ok then
    let env := ErrorEnvelope.new reply.status reply.message
    jsonResponse env.httpStatus (.envelope env)
  else
    match entry.encodeReply codec pool reply json with
    | .ok bytes => jsonResponse 200 (.json bytes)
    | .error e => errorResponse .internal e.toText

end Reply

/-! ## Requests -/

/-- `FORWARDED_HEADERS`. -/
def forwardedHeaders : List String :=
  ["authorization", "user-agent", "x-forwarded-for", "x-real-ip", "grpc-timeout", "x-request-id"]

/-- `forwarded_metadata`: every value of every header of the allow-list. -/
def forwardedMetadata (headers : Headers) : Headers :=
  forwardedHeaders.flatMap fun name => headers.filter (·.1 = name)

/-- The path and the query of a request target. -/
def splitQuery (path : String) : String × Option String :=
  match splitOnce '?' path with
  | some (p, q) => (p, some q)
  | none => (path, none)

/-- The search of `handle`: the first endpoint in the list of a method that matches. -/
def lookup (routes : Routes) (httpMethod : String) (segments : List String)
    (verb : Option String) : Option (Entry × Captures) :=
  (routes httpMethod).findSome? fun e => (e.template.matches segments verb).map (e, ·)

/-- The segments and the verb of a request target, without its query. -/
def requestTarget (path : String) : List String × Option String :=
  splitRequestPath (splitQuery path).1

/-- The endpoint that `handle` selects for a request, with the captures. -/
def Gateway.select (g : Gateway) (method path : String) : Option (Entry × Captures) :=
  let (segments, verb) := requestTarget path
  lookup g.routes (toAsciiUppercase method) segments verb

/-- `Gateway::handle`. A panic has no response. -/
def Gateway.handle (codec : Codec) (g : Gateway) (method path : String) (headers : Headers)
    (body : Bytes) : Option Response :=
  match g.select method path with
  -- the answer quotes the request target with its query
  | none => some (errorResponse .notFound ("no route for " ++ method ++ " " ++ path))
  | some (entry, captures) =>
    if entry.serverStreaming then
      some (errorResponse .unimplemented "server-streaming methods are not supported yet")
    else
      match entry.buildRequest codec g.pool captures (splitQuery path).2 body g.json with
      | .error e => e.toStatus.map fun (code, message) => errorResponse code message
      | .ok input =>
        match g.backend.unary entry.grpcPath (codec.encodeMessage g.pool input)
            (forwardedMetadata headers) with
        | .error e => some (errorResponse .unavailable e)
        | .ok reply => some (entry.renderReply codec g.pool reply g.json)

theorem Gateway.handle_of_select_none {codec : Codec} {g : Gateway} {method path : String}
    (h : g.select method path = none) (headers : Headers) (body : Bytes) :
    g.handle codec method path headers body =
      some (errorResponse .notFound ("no route for " ++ method ++ " " ++ path)) := by
  unfold Gateway.handle
  rw [h]

/-! ## The search -/

section Lookup

variable {routes : Routes} {m : String} {segments : List String} {verb : Option String}

/-- The endpoint that is found is the first of its list that matches. -/
theorem lookup_eq_some_iff {e : Entry} {captures : Captures} :
    lookup routes m segments verb = some (e, captures) ↔
      e.template.matches segments verb = some captures ∧
        ∃ p, (routes m).findIdx? (fun e => (e.template.matches segments verb).isSome) = some p ∧
          (routes m)[p]? = some e := by
  unfold lookup
  induction routes m with
  | nil => simp
  | cons x l ih =>
    rw [List.findSome?_cons, List.findIdx?_cons]
    cases hx : x.template.matches segments verb with
    | some c =>
      -- the head of the list is found at position zero
      simp only [Option.map_some, Option.some.injEq, Prod.mk.injEq, Option.isSome_some, if_true,
        exists_eq_left', List.getElem?_cons_zero]
      constructor
      · rintro ⟨rfl, rfl⟩
        exact ⟨hx, rfl⟩
      · rintro ⟨hm, rfl⟩
        rw [hx] at hm
        exact ⟨rfl, Option.some.inj hm⟩
    | none => simpa using ih

theorem lookup_eq_none_iff :
    lookup routes m segments verb = none ↔
      ∀ e ∈ routes m, e.template.matches segments verb = none := by
  simp [lookup, List.findSome?_eq_none_iff]

end Lookup

/-! ## Built gateways -/

section Built

variable {codec : Codec} {b : GatewayBuilder} {g : Gateway} {m : String} {e : Entry}

/-- The endpoints of a built gateway are those of the bindings of its route table. -/
theorem mem_routes_iff_of_build (h : b.build codec = .ok g) :
    e ∈ g.routes m ↔
      ∃ rb ∈ (RouteTable.fromMethods (extractHttpRules g.pool) b.options.unboundMethods).bindings,
        endpointFor? (methodIndex g.pool) m rb = some e := by
  obtain ⟨backend, pool, routes, -, -, hresolve, rfl⟩ := build_eq_ok_iff.mp h
  have hroutes := (compile_eq_ok_iff.mp (resolve_eq_ok_iff.mp hresolve).2).2
  rw [hroutes]
  exact List.mem_filterMap

theorem template_wellFormed_of_build (h : b.build codec = .ok g) (he : e ∈ g.routes m) :
    e.template.WellFormed := by
  obtain ⟨rb, -, hentry⟩ := (mem_routes_iff_of_build h).mp he
  obtain ⟨-, types, t, -, hparse, rfl⟩ := endpointFor?_eq_some_iff.mp hentry
  exact PathTemplate.parse_wellFormed hparse

theorem mem_routes_of_select {method path : String} {captures : Captures}
    (h : g.select method path = some (e, captures)) :
    e ∈ g.routes (toAsciiUppercase method) ∧
      ∃ segments verb, e.template.matches segments verb = some captures := by
  obtain ⟨hmatch, p, -, hp⟩ := lookup_eq_some_iff.mp h
  exact ⟨List.mem_of_getElem? hp, _, _, hmatch⟩

end Built

/-! ## No panic -/

section Panic

variable {pool : DescriptorPool} {mode : BindMode}

theorem pathOutcome_ne_panic {fullPath path : List String} {value : String}
    {desc : MessageDescriptor} (h : path ≠ []) :
    pathOutcome pool fullPath value path desc ≠ .panic := by
  induction path generalizing desc with
  | nil => exact absurd rfl h
  | cons head rest ih =>
    rw [pathOutcome]
    split
    · simp
    · split
      · unfold leafOutcome
        split
        · simp
        · split <;> simp
      · split
        · exact ih (by simp)
        · simp

theorem bindAll_ne_panic {ignored : BindError → Bool} {l : List (List String × String)}
    {msg : DynamicMessage} (hwt : WellTyped pool msg) (h : ∀ x ∈ l, x.1 ≠ []) :
    (bindAll pool mode ignored l msg).2 ≠ .panic := by
  induction l generalizing msg with
  | nil => simp [bindAll]
  | cons x l ih =>
    obtain ⟨path, value⟩ := x
    rw [bindAll_cons]
    split
    · exact ih (bindFieldPath_wellTyped hwt path value mode).1
        (fun y hy => h y (List.mem_cons_of_mem _ hy))
    · rw [bindFieldPath, bindInner_outcome path hwt]
      exact pathOutcome_ne_panic (h _ List.mem_cons_self)

theorem queryPair_ne_nil (piece : String) : (queryPair piece).1 ≠ [] := by
  unfold queryPair
  generalize (splitOnce '=' piece).getD (piece, "") = pair
  simp only
  exact split_ne_nil _ _

theorem queryPairs_ne_nil {query : String} {x : List String × String} (h : x ∈ queryPairs query) :
    x.1 ≠ [] := by
  rw [queryPairs, List.mem_map] at h
  obtain ⟨piece, -, hpiece⟩ := h
  rw [← hpiece]
  exact queryPair_ne_nil piece

theorem boundPairs_ne_nil {entry : Entry} {query : Option String} {x : List String × String}
    (h : x ∈ entry.boundPairs query) : x.1 ≠ [] := by
  unfold Entry.boundPairs at h
  split at h
  · cases h
  · cases h
  · exact queryPairs_ne_nil h

theorem Entry.decodeBody_ne_panic {codec : Codec} {entry : Entry} {body : Bytes}
    {json : JsonOptions} : entry.decodeBody codec pool body json ≠ .error .panic := by
  intro h
  unfold Entry.decodeBody at h
  split at h
  · obtain ⟨e, -, he⟩ := mapError_eq_error_iff.mp h
    cases he
  · cases h
  · split at h
    · cases h
    · cases h
    · cases h

/-- A request of a template without empty field paths is translated or fails without a panic. -/
theorem Entry.buildRequest_ne_panic {codec : Codec} {entry : Entry} {captures : Captures}
    {query : Option String} {body : Bytes} {json : JsonOptions} (h : ∀ c ∈ captures, c.1 ≠ []) :
    entry.buildRequest codec pool captures query body json ≠ .error .panic := by
  intro hpanic
  rcases Entry.buildRequest_error hpanic with hdecode | ⟨decoded, hdecode, hrest⟩
  · exact Entry.decodeBody_ne_panic hdecode
  · have hwt := (Entry.decodeBody_typed hdecode).2
    rcases hrest with ⟨be, he, -⟩ | ⟨be, he, -⟩ | ⟨-, hcaptures | hquery⟩
    · cases he
    · cases he
    · exact bindAll_ne_panic hwt h hcaptures
    · have hbound : WellTyped pool (bindCaptures pool decoded captures).1 :=
        (bindAll_typed captures hwt).1
      exact bindAll_ne_panic hbound (fun _ => boundPairs_ne_nil) hquery

/-- **A built gateway answers every request.** -/
theorem Gateway.handle_ne_none {codec : Codec} {b : GatewayBuilder} {g : Gateway}
    (h : b.build codec = .ok g) (method path : String) (headers : Headers) (body : Bytes) :
    g.handle codec method path headers body ≠ none := by
  unfold Gateway.handle
  split
  · simp
  · next entry captures hselect =>
    obtain ⟨hmem, segments, verb, hmatch⟩ := mem_routes_of_select hselect
    have hwf := template_wellFormed_of_build h hmem
    -- captures are bound at the field paths of the template, and these have names
    have hpaths : ∀ c ∈ captures, c.1 ≠ [] := by
      intro c hc
      obtain ⟨-, -, -, hne⟩ := hwf.exists_var_of_mem_captures hmatch hc
      exact hne
    split
    · simp
    · split
      · next e he =>
        have hne : entry.buildRequest codec g.pool captures (splitQuery path).2 body g.json ≠
            .error .panic := Entry.buildRequest_ne_panic hpaths
        rw [he] at hne
        cases e with
        | panic => exact absurd rfl hne
        | _ => simp [RequestError.toStatus]
      · split <;> simp

end Panic

end GrpcGw.Service
