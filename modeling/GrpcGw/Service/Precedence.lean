import Mathlib.Data.List.DropRight
import GrpcGw.Service.Request

/-!
# Path Variables, Body and Query

The captured path variables are written over what the body has set, and the query fills what is
unset afterwards. A captured value that its field does not keep as *set* can still be filled, and
a query key that passes another member of a oneof clears it.

- `view_bindAll`: a loop of bindings, seen from a field path.
- `foldl_viewStep_fill`: what a query leaves at a field path.
- `captures_win_iff`: when the captured values win.
-/

namespace GrpcGw.Service

open GrpcGw.Text
open GrpcGw.Reflect
open GrpcGw.Template
open GrpcGw.Routes
open GrpcGw.Transcode

/-! ## Loops, seen from a field path -/

section Loop

variable {pool : DescriptorPool} {mode : BindMode} {ignored : BindError → Bool}
  {p : List String} {leaf : FieldDescriptor} {desc : MessageDescriptor}

/-- **A loop of bindings, seen from a path with a singular scalar leaf**: every binding is one step
    on what is read there. -/
theorem view_bindAll (hignored : ∀ e, ignored e = true → e.isUnknownField = true)
    (hleaf : leafField pool p desc = some leaf) (hcard : leaf.cardinality = .singular)
    (hkind : leaf.kind.isMessage = false) (l : List (List String × String))
    {msg : DynamicMessage} (hwt : WellTyped pool msg) (hdesc : msg.desc = desc)
    (hlock : Locked pool p msg) {state : Value × Bool} (hview : view pool p msg = some state)
    (hok : (bindAll pool mode ignored l msg).2 = .ok) :
    Locked pool p (bindAll pool mode ignored l msg).1 ∧
      view pool p (bindAll pool mode ignored l msg).1 =
        some (l.foldl (fun state x => viewStep pool mode p leaf desc x.1 x.2 state) state) := by
  induction l generalizing msg state with
  | nil => exact ⟨hlock, hview⟩
  | cons x l ih =>
    obtain ⟨path, value⟩ := x
    rw [bindAll_cons] at hok ⊢
    cases hc : continues ignored (bindFieldPath pool msg path value mode).2 with
    | false =>
      -- the loop has ended with a failure
      rw [hc] at hok
      exact absurd hok (ne_ok_of_not_continues hc)
    | true =>
      rw [hc] at hok
      obtain ⟨hwt', hdesc'⟩ := bindFieldPath_wellTyped hwt path value mode
      have hproceeds := proceeds_of_continues hignored hc
      rw [← hdesc] at hleaf
      obtain ⟨hlock', hview'⟩ :=
        view_bindInner p path hwt hlock hleaf hcard hkind hproceeds hview
      rw [hdesc] at hleaf hview'
      exact ih hwt' (hdesc'.trans hdesc) hlock' hview' hok

/-- Bindings at other paths that pass no other member of a oneof leave what is read. -/
theorem foldl_viewStep_apart {l : List (List String × String)}
    (h : ∀ x ∈ l, x.1 ≠ p ∧ clears pool x.1 p desc = false) (state : Value × Bool) :
    l.foldl (fun state x => viewStep pool mode p leaf desc x.1 x.2 state) state = state := by
  induction l with
  | nil => rfl
  | cons x l ih =>
    obtain ⟨hne, hclears⟩ := h x List.mem_cons_self
    rw [List.foldl_cons, viewStep, if_neg hne, hclears]
    exact ih fun y hy => h y (List.mem_cons_of_mem _ hy)

end Loop

/-! ## What a query leaves -/

section Fill

variable {pool : DescriptorPool} {p : List String} {leaf : FieldDescriptor}
  {desc : MessageDescriptor}

theorem clears_self (p : List String) (desc : MessageDescriptor) :
    clears pool p p desc = false := by
  induction p generalizing desc with
  | nil => rfl
  | cons head rest ih =>
    rw [clears]
    cases pool.getFieldByName desc head with
    | none => rfl
    | some f =>
      simp only [if_true]
      cases f.child? with
      | none => rfl
      | some d => exact ih d

/-- Fill a field with values one after the other: the first one that sticks stays. -/
def fillAll (leaf : FieldDescriptor) (state : Value × Bool) (fills : List Value) : Value × Bool :=
  fills.foldl (fun state v => if state.2 then state else (v, leaf.sticks v)) state

/-- The value that is read after a field that reads `start` and is unset has been filled: the
    first value that sticks, or else the last one. -/
def lastingFill (leaf : FieldDescriptor) (start : Value) (fills : List Value) : Value :=
  ((fills.find? leaf.sticks).or fills.getLast?).getD start

theorem fillAll_of_set (v : Value) (fills : List Value) :
    fillAll leaf (v, true) fills = (v, true) := by
  induction fills with
  | nil => rfl
  | cons w fills ih => exact ih

theorem fillAll_of_unset (start : Value) (fills : List Value) :
    (fillAll leaf (start, false) fills).1 = lastingFill leaf start fills := by
  induction fills generalizing start with
  | nil => rfl
  | cons w fills ih =>
    have hstep : fillAll leaf (start, false) (w :: fills) = fillAll leaf (w, leaf.sticks w) fills :=
      rfl
    rw [hstep]
    cases hw : leaf.sticks w with
    | true => simp [fillAll_of_set, lastingFill, hw]
    | false =>
      rw [ih, lastingFill, lastingFill, List.find?_cons, hw, List.getLast?_cons]
      cases fills.find? leaf.sticks with
      | some u => rfl
      | none => cases fills.getLast? <;> rfl

/-- The values that pairs with the given key stand for. -/
def fillsOf (kind : Kind) (p : List String) (pairs : List (List String × String)) : List Value :=
  (pairs.filter (·.1 = p)).filterMap fun x => parseScalar kind x.2

theorem fillsOf_append (kind : Kind) (p : List String) (l l' : List (List String × String)) :
    fillsOf kind p (l ++ l') = fillsOf kind p l ++ fillsOf kind p l' := by
  simp [fillsOf]

theorem fillAll_append (state : Value × Bool) (l l' : List Value) :
    fillAll leaf state (l ++ l') = fillAll leaf (fillAll leaf state l) l' :=
  List.foldl_append

/-- One pair with the key of the path. -/
theorem viewStep_self (value : String) (state : Value × Bool) :
    viewStep pool .fillIfUnset p leaf desc p value state =
      fillAll leaf state (parseScalar leaf.kind value).toList := by
  rw [viewStep, if_pos rfl]
  cases parseScalar leaf.kind value with
  | none => rfl
  | some v => simp [fillAll]

/-- **What a query leaves at a field path**: its pairs fill the path, starting from the default
    after the last pair that clears it. -/
theorem foldl_viewStep_fill (pairs : List (List String × String)) (state : Value × Bool) :
    pairs.foldl (fun state x => viewStep pool .fillIfUnset p leaf desc x.1 x.2 state) state =
      if pairs.any (fun x => clears pool x.1 p desc) then
        fillAll leaf (leaf.defaultValue, false)
          (fillsOf leaf.kind p (pairs.rtakeWhile fun x => !clears pool x.1 p desc))
      else fillAll leaf state (fillsOf leaf.kind p pairs) := by
  -- the last pair decides whether the tail starts anew
  induction pairs using List.reverseRecOn with
  | nil => rfl
  | append_singleton pairs x ih =>
    rw [List.foldl_append, List.foldl_cons, List.foldl_nil, ih, List.any_append,
      List.rtakeWhile_concat]
    by_cases hp : x.1 = p
    · -- a pair with the key of the path fills it and does not clear it
      have hclears : clears pool x.1 p desc = false := by
        rw [hp]
        exact clears_self p desc
      have hfills : fillsOf leaf.kind p [x] = (parseScalar leaf.kind x.2).toList := by
        cases hv : parseScalar leaf.kind x.2 <;> simp [fillsOf, hp, hv]
      rw [hp, viewStep_self]
      rw [hp] at hclears
      simp only [List.any_cons, List.any_nil, hp, hclears, Bool.or_false, Bool.not_false, if_true]
      split
      · rw [fillsOf_append, hfills, fillAll_append]
      · rw [fillsOf_append, hfills, fillAll_append]
    · rw [viewStep, if_neg hp]
      cases hclears : clears pool x.1 p desc with
      | true => simp [hclears, fillsOf, fillAll]
      | false =>
        -- any other pair leaves the path alone
        have hfills : fillsOf leaf.kind p [x] = [] := by simp [fillsOf, hp]
        simp only [List.any_cons, List.any_nil, hclears, Bool.or_false, Bool.not_false, if_true,
          Bool.false_eq_true, if_false]
        split
        · rw [fillsOf_append, hfills, List.append_nil]
        · rw [fillsOf_append, hfills, List.append_nil]

end Fill

/-! ## Captures -/

/-- A capture at a path with a singular leaf that no later capture overwrites: none binds the same
    path, and none passes another member of a oneof on it. -/
def Standing (pool : DescriptorPool) (desc : MessageDescriptor) (captures : Captures)
    (p : List String) (value : String) (leaf : FieldDescriptor) : Prop :=
  leafField pool p desc = some leaf ∧ leaf.cardinality = .singular ∧
    ∃ before after, captures = before ++ (p, value) :: after ∧
      ∀ c ∈ after, c.1 ≠ p ∧ clears pool c.1 p desc = false

/-- The query leaves a captured value in place. If some key clears the path, the pairs behind the
    last such key bring the value back; otherwise the field keeps the value as set, or no pair
    with the same key leaves another one. -/
def Kept (pool : DescriptorPool) (desc : MessageDescriptor) (p : List String)
    (leaf : FieldDescriptor) (v : Value) (pairs : List (List String × String)) : Prop :=
  if pairs.any (fun x => clears pool x.1 p desc) then
    lastingFill leaf leaf.defaultValue
      (fillsOf leaf.kind p (pairs.rtakeWhile fun x => !clears pool x.1 p desc)) = v
  else leaf.sticks v = true ∨ lastingFill leaf v (fillsOf leaf.kind p pairs) = v

section Captures

variable {codec : Codec} {pool : DescriptorPool} {entry : Entry} {captures : Captures}
  {query : Option String} {body : Bytes} {json : JsonOptions} {msg : DynamicMessage}
  {p : List String} {value : String} {leaf : FieldDescriptor}

theorem isMessage_of_parseScalar {kind : Kind} {v : Value} (h : parseScalar kind value = some v) :
    kind.isMessage = false := by
  cases kind <;> first | rfl | cases h

/-- Behind the captures, a standing capture is read at its path. -/
theorem view_bindCaptures {desc : MessageDescriptor} {decoded bound : DynamicMessage}
    (hwt : WellTyped pool decoded) (hdesc : decoded.desc = desc)
    (hstanding : Standing pool desc captures p value leaf)
    (hbound : bindCaptures pool decoded captures = (bound, .ok)) :
    ∃ v, parseScalar leaf.kind value = some v ∧ Locked pool p bound ∧
      view pool p bound = some (v, leaf.sticks v) := by
  obtain ⟨hleaf, hcard, before, after, rfl, hafter⟩ := hstanding
  -- the captures before it, the capture itself, and the captures behind it
  obtain ⟨m₁, m₂, hbefore, hself, hrest⟩ := bindAll_split_ok hbound
  have htyped : WellTyped pool (bindAll pool .overwrite (fun _ => false) before decoded).1 ∧
      (bindAll pool .overwrite (fun _ => false) before decoded).1.desc = decoded.desc :=
    bindAll_typed before hwt
  rw [hbefore] at htyped
  obtain ⟨hwt₁, hdesc₁⟩ := htyped
  have hleaf₁ : leafField pool p m₁.desc = some leaf := by rw [hdesc₁, hdesc, hleaf]
  obtain ⟨v, hv, hlock, hview⟩ :=
    view_overwrite_self p hwt₁ hleaf₁ hcard (congrArg Prod.snd hself)
  obtain ⟨hwt₂, hdesc₂⟩ := bindFieldPath_wellTyped hwt₁ p value .overwrite
  rw [← bindFieldPath, hself] at hlock hview
  rw [hself] at hwt₂ hdesc₂
  -- the loop over the captures ignores no failure
  have hnone : ∀ e : BindError, (fun _ => false) e = true → e.isUnknownField = true :=
    fun _ h => absurd h Bool.false_ne_true
  obtain ⟨hlock', hview'⟩ := view_bindAll hnone hleaf hcard (isMessage_of_parseScalar hv) after
    hwt₂ (hdesc₂.trans (hdesc₁.trans hdesc)) hlock hview (congrArg Prod.snd hrest)
  rw [hrest] at hlock' hview'
  rw [foldl_viewStep_apart hafter] at hview'
  exact ⟨v, hv, hlock', hview'⟩

/-- A standing capture is read from the request iff the query keeps it. -/
theorem readPath_buildRequest_iff
    (h : entry.buildRequest codec pool captures query body json = .ok msg)
    (hstanding : Standing pool entry.input captures p value leaf) :
    ∃ v, parseScalar leaf.kind value = some v ∧
      (readPath pool p msg = some v ↔ Kept pool entry.input p leaf v (entry.boundPairs query)) := by
  obtain ⟨decoded, bound, hdecoded, hbound, hquery⟩ := Entry.buildRequest_eq_ok_iff.mp h
  obtain ⟨hdesc, hwt⟩ := Entry.decodeBody_typed hdecoded
  obtain ⟨v, hv, hlock, hview⟩ := view_bindCaptures hwt hdesc hstanding hbound
  have hcaptured := bindCaptures_typed captures hwt
  rw [hbound] at hcaptured
  obtain ⟨hwt', hdesc'⟩ := hcaptured
  have hok := congrArg Prod.snd hquery
  obtain ⟨-, hread⟩ := view_bindAll (fun _ h => h) hstanding.1 hstanding.2.1
    (isMessage_of_parseScalar hv) _ hwt' (hdesc'.trans hdesc) hlock hview hok
  rw [hquery] at hread
  refine ⟨v, hv, ?_⟩
  -- what is read is what the query has left of the captured value
  rw [readPath_eq_view, hread, foldl_viewStep_fill, Option.map_some, Option.some.injEq, Kept]
  split
  · rw [fillAll_of_unset]
  · cases hsticks : leaf.sticks v with
    | true => simp [fillAll_of_set]
    | false => simp [fillAll_of_unset]

/-- **When path variables win**: every captured value that no later capture overwrites is read from
    the request, iff the query keeps every one of them. -/
theorem captures_win_iff (h : entry.buildRequest codec pool captures query body json = .ok msg) :
    (∀ p value leaf, Standing pool entry.input captures p value leaf →
        readPath pool p msg = parseScalar leaf.kind value) ↔
      ∀ p value leaf v, Standing pool entry.input captures p value leaf →
        parseScalar leaf.kind value = some v →
        Kept pool entry.input p leaf v (entry.boundPairs query) := by
  constructor
  · intro hread p value leaf v hstanding hv
    obtain ⟨w, hw, hiff⟩ := readPath_buildRequest_iff h hstanding
    rw [hv] at hw
    cases hw
    exact hiff.mp ((hread p value leaf hstanding).trans hv)
  · intro hkept p value leaf hstanding
    obtain ⟨v, hv, hiff⟩ := readPath_buildRequest_iff h hstanding
    rw [hv]
    exact hiff.mpr (hkept p value leaf v hstanding hv)

end Captures

/-- `GET /v1/{id}` of a method that takes a book. -/
def bookEntry : Entry where
  template :=
    { raw := "/v1/\x7bid\x7d"
      segments := [.literal "v1", .variable 0]
      vars := [{ fieldPath := ["id"], sub := [.single], count := .exact 1 }]
      verb := none }
  grpcPath := "/demo.Library/GetBook"
  input := ⟨0⟩
  output := ⟨0⟩
  serverStreaming := false
  body := .none
  responseBody := none

/-- A captured `7` stays when the query holds a `5`. -/
theorem captures_win_book :
    ∃ msg, bookEntry.buildRequest (.ofPool bookPool) bookPool [(["id"], "7")]
        (some "id=5&anonymous=true") [] {} = .ok msg ∧
      readPath bookPool ["id"] msg = parseScalar .int32 "7" := by
  cases hmsg : bookEntry.buildRequest (.ofPool bookPool) bookPool [(["id"], "7")]
      (some "id=5&anonymous=true") [] {} with
  | error e =>
    have hok : (bookEntry.buildRequest (.ofPool bookPool) bookPool [(["id"], "7")]
        (some "id=5&anonymous=true") [] {}).isOk = true := by decide
    rw [hmsg] at hok
    cases hok
  | ok msg =>
    refine ⟨msg, rfl, (captures_win_iff hmsg).mpr ?_ ["id"] "7" _ ⟨rfl, rfl, [], [], rfl, by simp⟩⟩
    -- the only capture is a value that sticks
    intro p value leaf v hstanding hv
    obtain ⟨hleaf, -, before, after, hcaps, -⟩ := hstanding
    have hpv : (p, value) = (["id"], "7") := by
      have hmem : (p, value) ∈ [(["id"], "7")] := by simp [hcaps]
      simpa using hmem
    cases hpv
    cases hleaf
    cases hv
    exact Or.inl rfl

/-- A captured `0` is no set value of the field, so the query replaces it. -/
theorem not_captures_win : ¬∀ (codec : Codec) (pool : DescriptorPool) (entry : Entry)
    (segments : List String) (verb : Option String) (captures : Captures) (query : Option String)
    (body : Bytes) (json : JsonOptions) (msg : DynamicMessage),
    entry.template.matches segments verb = some captures →
    entry.buildRequest codec pool captures query body json = .ok msg →
    ∀ p value leaf, Standing pool entry.input captures p value leaf →
      readPath pool p msg = parseScalar leaf.kind value := by
  intro h
  -- the field reads the five of the query, which is not the default
  have hfive : ((bookEntry.buildRequest (.ofPool bookPool) bookPool [(["id"], "0")] (some "id=5") []
      {}).toOption.bind (readPath bookPool ["id"])).map (·.isDefault .int32) = some false := by
    decide
  cases hmsg : bookEntry.buildRequest (.ofPool bookPool) bookPool [(["id"], "0")] (some "id=5") []
      {} with
  | error e =>
    rw [hmsg] at hfive
    cases hfive
  | ok msg =>
    have hread := h (.ofPool bookPool) bookPool bookEntry ["v1", "0"] none [(["id"], "0")]
      (some "id=5") [] {} msg (by decide) hmsg ["id"] "0" _ ⟨rfl, rfl, [], [], rfl, by simp⟩
    rw [hmsg, Except.toOption, Option.bind_some, hread] at hfive
    exact absurd hfive (by decide)

end GrpcGw.Service
