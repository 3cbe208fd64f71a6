import GrpcGw.Text.Percent
import GrpcGw.Text.Strings

/-!
# Path Templates: Data and Matching

The compiled form of a `google.api.http` path template (`template.rs`) and the matcher that
routes a request path against it.

A template is a flat segment list in which variables appear as indices into a table of captured
variables. The matcher walks the list: a literal consumes one segment that percent-decodes to
it, `*` consumes one segment, a variable consumes the number of segments its sub-pattern needs,
and a final `**` consumes the remainder.
-/

namespace GrpcGw.Template

open GrpcGw.Text

/-! ## Compiled templates -/

/-- A single element of a compiled path template. -/
inductive Segment where
  /-- A literal path segment, matched exactly. -/
  | literal (lit : String)
  /-- `*`: exactly one path segment. -/
  | single
  /-- `**`: zero or more path segments. -/
  | catchAll
  /-- A capture; indexes into `PathTemplate.vars`. -/
  | variable (idx : Nat)
  deriving DecidableEq, Repr

/-- How many path segments a variable's sub-pattern consumes. -/
inductive SegmentCount where
  /-- A fixed number of segments. -/
  | exact (n : Nat)
  /-- At least `min` segments, unbounded above. -/
  | atLeast (min : Nat)
  deriving DecidableEq, Repr

/-- Whether the number of segments is unbounded above. -/
def SegmentCount.isAtLeast : SegmentCount → Bool
  | .exact _ => false
  | .atLeast _ => true

/-- A captured variable. -/
structure VarSpec where
  /-- The field path, e.g. `user.id` as `["user", "id"]`. -/
  fieldPath : List String
  /-- The sub-pattern segments. -/
  sub : List Segment
  /-- Number of request path segments this variable consumes. -/
  count : SegmentCount
  deriving DecidableEq, Repr

/-- A compiled path template. -/
structure PathTemplate where
  /-- The literal template string. -/
  raw : String
  /-- The top-level segment sequence. -/
  segments : List Segment
  /-- Captured variables, in left-to-right order. -/
  vars : List VarSpec
  /-- A trailing custom verb, if present. -/
  verb : Option String
  deriving DecidableEq, Repr

/-- A parse error with a human-readable reason. -/
structure TemplateError where
  template : String
  reason : String
  deriving DecidableEq, Repr

/-- `Display` of a parse error. -/
def TemplateError.toText (e : TemplateError) : String :=
  "invalid path template " ++ debugStr e.template ++ ": " ++ e.reason

/-- The captured variables of a match: `(fieldPath, value)` in template order. -/
abbrev Captures := List (List String × String)

/-! ## Percent-decoding of a segment -/

/-- `decode`: percent-decoding of one path segment. A segment without `%` is returned as it
    stands, and so is one whose decoded bytes are not UTF-8. -/
def decode (segment : String) : String :=
  if '%' ∉ segment.toList then segment
  else (fromUtf8 (unescape (utf8 segment))).getD segment

theorem percent_notMem_utf8 {s : String} (h : '%' ∉ s.toList) : percent ∉ utf8 s := by
  intro hmem
  obtain ⟨c, hc, hb⟩ := List.mem_flatMap.mp hmem
  have hne : c ≠ '%' := by
    rintro rfl
    exact h hc
  exact ne_percent_of_mem_utf8EncodeChar hne hb rfl

/-- The shortcut for segments without `%` changes nothing. -/
theorem decode_eq (segment : String) :
    decode segment = (fromUtf8 (unescape (utf8 segment))).getD segment := by
  unfold decode
  split
  · next h => rw [unescape_eq_self (percent_notMem_utf8 h), fromUtf8_utf8, Option.getD_some]
  · rfl

/-- Decoding undoes encoding. -/
@[simp] theorem decode_percentEncode (hc : HexCase) (s : String) :
    decode (percentEncode hc s) = s := by
  rw [decode_eq, utf8_percentEncode, unescape_escape, fromUtf8_utf8, Option.getD_some]

theorem decode_surjective : Function.Surjective decode :=
  fun s => ⟨percentEncode .upper s, decode_percentEncode _ s⟩

/-! ## Matching -/

/-- `sub_pattern_matches`: a captured segment slice against a variable's sub-pattern. -/
def subPatternMatches : List Segment → List String → Bool
  | [], input => input.isEmpty
  | .literal lit :: rest, head :: tail => decode head = lit && subPatternMatches rest tail
  | .literal _ :: _, [] => false
  | .single :: rest, _ :: tail => subPatternMatches rest tail
  | .single :: _, [] => false
  | .catchAll :: rest, _ => rest.isEmpty
  -- the parser refuses variables inside variables
  | .variable _ :: _, _ => false

/-- The number of segments `match_variable` takes from the input, if it has enough of them. -/
def VarSpec.take (var : VarSpec) (input : List String) : Option Nat :=
  match var.count with
  | .exact n => if input.length < n then none else some n
  -- an unbounded variable is greedy: it takes the whole input
  | .atLeast min => if input.length < min then none else some input.length

/-- The first half of `match_variable`: the capture of one variable and the input behind it. -/
def VarSpec.capture (var : VarSpec) (input : List String) :
    Option ((List String × String) × List String) :=
  match var.take input with
  | none => none
  | some n =>
    if subPatternMatches var.sub (input.take n) then
      some ((var.fieldPath, join "/" ((input.take n).map decode)), input.drop n)
    else none

/-- `match_segments`: match the segments against the input, accumulating captures. The input
    must be consumed exactly. A variable index outside the table panics in the source; it does
    not occur in a parsed template. -/
def matchSegments (vars : List VarSpec) : List Segment → List String → Captures → Option Captures
  | [], input, captures => if input.isEmpty then some captures else none
  | .literal lit :: rest, head :: tail, captures =>
    if decode head = lit then matchSegments vars rest tail captures else none
  | .literal _ :: _, [], _ => none
  | .single :: rest, _ :: tail, captures => matchSegments vars rest tail captures
  | .single :: _, [], _ => none
  -- `**` takes the remainder, whatever it is, and must be the last segment
  | .catchAll :: rest, _, captures => if rest.isEmpty then some captures else none
  | .variable idx :: rest, input, captures =>
    match vars[idx]? with
    | none => none
    | some var =>
      match var.capture input with
      | none => none
      | some (cap, tail) => matchSegments vars rest tail (captures ++ [cap])

/-- `PathTemplate::matches`: match raw path segments plus an optional verb. -/
def PathTemplate.matches (t : PathTemplate) (pathSegments : List String) (verb : Option String) :
    Option Captures :=
  if t.verb ≠ verb then none
  else matchSegments t.vars t.segments pathSegments []

/-! ## Splitting a request path -/

/-- `strip_prefix('/')`, or else the path itself. -/
def stripSlash : List Char → List Char
  | '/' :: rest => rest
  | path => path

/-- `split_request_path`: the segments of a request path, and the verb behind the final `:` of
    the last segment. -/
def splitRequestPath (path : String) : List String × Option String :=
  let segments := (stripSlash path.toList).splitOn '/'
  match segments.getLast? with
  | none => ([], none)
  | some last =>
    match splitLast ':' last with
    | some (seg, verb) =>
      ((segments.dropLast ++ [seg]).map String.ofList, some (String.ofList verb))
    | none => (segments.map String.ofList, none)

example : splitRequestPath "/v1/messages/7:undelete" =
    (["v1", "messages", "7"], some "undelete") := by decide

end GrpcGw.Template
