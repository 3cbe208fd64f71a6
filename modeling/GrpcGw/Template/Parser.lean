import GrpcGw.Template.Basic

/-!
# Path Templates: Parsing

The recursive-descent parser of `template.rs`. The parser state is the remaining text and the
table of variables found so far; every parsing function takes a state and returns a result
together with the next state.

Variables do not nest, so the two levels of the grammar are two instances of one segment parser
that differ in what they do at an opening brace. The segment loop carries a fuel argument; each
round consumes at least the `/` in front of the next segment, so the length of the text is
enough.
-/

namespace GrpcGw.Template

open GrpcGw.Text

/-- The parser state. -/
structure Parser where
  /-- The whole template, for error messages. -/
  raw : String
  /-- The remaining unparsed tail. -/
  rest : List Char
  vars : List VarSpec
  deriving DecidableEq, Repr

namespace Parser

/-- `Parser::new`. -/
def new (raw : String) : Parser :=
  { raw := raw, rest := raw.toList, vars := [] }

/-- `Parser::err`. -/
def err (p : Parser) (reason : String) : TemplateError :=
  { template := p.raw, reason := reason }

/-! ## The verb -/

/-- The position of the last `:` outside braces. -/
def verbColon : List Char → (depth i : Nat) → (found : Option Nat) → Option Nat
  | [], _, _, found => found
  | c :: cs, depth, i, found =>
    if c = '\x7b' then verbColon cs (depth + 1) (i + 1) found
    -- the depth saturates at zero under a stray closing brace
    else if c = '\x7d' then verbColon cs (depth - 1) (i + 1) found
    else if c = ':' ∧ depth = 0 then verbColon cs depth (i + 1) (some i)
    else verbColon cs depth (i + 1) found

/-- `split_verb`: detect and strip a trailing `:verb`. -/
def splitVerb (p : Parser) : Except TemplateError (Option String × Parser) :=
  match verbColon p.rest 0 0 none with
  | none => .ok (none, p)
  | some idx =>
    let verb := p.rest.drop (idx + 1)
    if verb = [] then .error (p.err "empty verb after ':'")
    else if '/' ∈ verb then .error (p.err "verb may not contain '/'")
    else .ok (some (String.ofList verb), { p with rest := p.rest.take idx })

/-! ## Segments -/

/-- The characters that end a literal. -/
def literalStop : List Char := ['/', '\x7b', '\x7d', '=']

/-- `parse_literal`. -/
def parseLiteral (p : Parser) : Except TemplateError (Segment × Parser) :=
  let lit := p.rest.takeWhile (· ∉ literalStop)
  if lit = [] then .error (p.err "empty path segment")
  else if '*' ∈ lit then
    .error (p.err ("invalid literal segment " ++ debugStr (String.ofList lit)))
  else .ok (.literal (String.ofList lit), { p with rest := p.rest.dropWhile (· ∉ literalStop) })

/-- `parse_segment`, given what to do at an opening brace. -/
def parseSegmentWith (onBrace : Parser → Except TemplateError (Segment × Parser)) (p : Parser) :
    Except TemplateError (Segment × Parser) :=
  match p.rest with
  | '*' :: '*' :: rest => .ok (.catchAll, { p with rest := rest })
  | '*' :: rest => .ok (.single, { p with rest := rest })
  | '\x7b' :: _ => onBrace p
  | _ => p.parseLiteral

/-- Whether a parsed segment matches an unbounded number of path segments. -/
def isCatchAll (p : Parser) : Segment → Bool
  | .catchAll => true
  | .variable i => (p.vars[i]?).any (·.count.isAtLeast)
  | _ => false

/-- `parse_segments`: the loop over `Segment { "/" Segment }`. -/
def parseSegmentsWith (parseSegment : Parser → Except TemplateError (Segment × Parser)) :
    (fuel : Nat) → Parser → List Segment → Except TemplateError (List Segment × Parser)
  -- not reached: the callers give one unit for every character and one more
  | 0, p, _ => .error (p.err "out of fuel")
  | fuel + 1, p, segments => do
    let (seg, p) ← parseSegment p
    match p.rest with
    | '/' :: rest =>
      if p.isCatchAll seg then .error (p.err "'**' must be the final segment")
      else parseSegmentsWith parseSegment fuel { p with rest := rest } (segments ++ [seg])
    | _ => .ok (segments ++ [seg], p)

/-- `parse_segments(true)`: the sub-pattern of a variable, where braces are refused. -/
def parseSubPattern (p : Parser) : Except TemplateError (List Segment × Parser) :=
  parseSegmentsWith
    (parseSegmentWith fun p => .error (p.err "nested variable '\x7b' inside a variable"))
    (p.rest.length + 1) p []

/-! ## Variables -/

/-- `parse_field_path`. -/
def parseFieldPath (p : Parser) : Except TemplateError (List String × Parser) :=
  let raw := p.rest.takeWhile (· ∉ ['=', '\x7d'])
  let rest := p.rest.dropWhile (· ∉ ['=', '\x7d'])
  if rest = [] then .error (p.err "unterminated variable field path")
  else if raw = [] then .error (p.err "empty variable field path")
  else if [] ∈ raw.splitOn '.' then
    .error (p.err ("invalid field path " ++ debugStr (String.ofList raw)))
  else .ok ((raw.splitOn '.').map String.ofList, { p with rest := rest })

end Parser

/-- `segment_count`: the number of request segments a sub-pattern consumes. -/
def segmentCount (sub : List Segment) : SegmentCount :=
  if .catchAll ∈ sub then .atLeast (sub.countP (· ≠ .catchAll))
  else .exact (sub.countP (· ≠ .catchAll))

namespace Parser

/-- The sub-pattern behind a field path: written out, or `*` for a bare `{name}`. -/
def parseSub (p : Parser) : Except TemplateError (List Segment × Parser) :=
  match p.rest with
  | '=' :: rest => parseSubPattern { p with rest := rest }
  | _ => .ok ([.single], p)

/-- `parse_variable`. -/
def parseVariable (p : Parser) : Except TemplateError (Segment × Parser) := do
  let (fieldPath, p) ← parseFieldPath { p with rest := p.rest.tail }
  let (sub, p) ← p.parseSub
  match p.rest with
  | '\x7d' :: rest =>
    -- the loop has refused `**` in front of a `/`, so this check never fails
    if (sub.findIdx? (· = .catchAll)).any (· ≠ sub.length - 1) then
      .error (p.err "'**' must be the final segment of a variable")
    else
      .ok (.variable p.vars.length,
        { p with
          rest := rest
          vars := p.vars ++ [{ fieldPath := fieldPath, sub := sub, count := segmentCount sub }] })
  | _ => .error (p.err "unterminated variable (expected '\x7d')")

/-- `parse_segments(false)`: the top level of a template. -/
def parseSegments (p : Parser) : Except TemplateError (List Segment × Parser) :=
  parseSegmentsWith (parseSegmentWith parseVariable) (p.rest.length + 1) p []

/-- `Parser::parse`. -/
def parse (p : Parser) : Except TemplateError PathTemplate := do
  if p.rest.head? ≠ some '/' then throw (p.err "must start with '/'")
  let (verb, p) ← p.splitVerb
  let (segments, p) ← parseSegments { p with rest := p.rest.tail }
  if p.rest ≠ [] then
    throw (p.err ("unexpected trailing input " ++ debugStr (String.ofList p.rest)))
  if segments = [] then throw (p.err "empty path")
  return { raw := p.raw, segments := segments, vars := p.vars, verb := verb }

end Parser

/-- `PathTemplate::parse`. -/
def PathTemplate.parse (template : String) : Except TemplateError PathTemplate :=
  (Parser.new template).parse

/-- Whether a string is a template is decided by parsing it. -/
instance (s : String) : Decidable (∃ t, PathTemplate.parse s = .ok t) :=
  decidable_of_iff ((PathTemplate.parse s).toBool = true) <| by
    cases PathTemplate.parse s <;> simp [Except.toBool]

end GrpcGw.Template
