import GrpcGw.Template.Language
import GrpcGw.Template.RoundTrip
import GrpcGw.Text.Slices

/-!
# Path Templates: Panics

The parser, the matcher and the overlap test of `template.rs` and `routes.rs` once more, now with
everything that panics: slices at byte offsets, indices into the variable table, `split_at` and
subtraction. A computation is `none` where the source panics, and where it would not end.

- `Checked.parse_eq`: the parser ends without a panic and computes `Parser.parse`.
- `Checked.matchSegments_eq`, `Checked.templateSlots_eq`: neither do the matcher and the overlap
  test panic on a table that holds all indices.
-/

namespace GrpcGw.Template

open GrpcGw.Text
open GrpcGw.Pattern

/-- A parsing step that panics (`none`) or returns a result. -/
abbrev Checked := ExceptT TemplateError Option

namespace Checked

/-! ## The parser -/

/-- The scan of `split_verb` over `char_indices`: the offset of the last `:` outside braces. -/
def verbColon : List Char → (depth offset : Nat) → (found : Option Nat) → Option Nat
  | [], _, _, found => found
  | c :: cs, depth, offset, found =>
    if c = '\x7b' then verbColon cs (depth + 1) (offset + c.utf8Size) found
    else if c = '\x7d' then verbColon cs (depth - 1) (offset + c.utf8Size) found
    else if c = ':' ∧ depth = 0 then verbColon cs depth (offset + c.utf8Size) (some offset)
    else verbColon cs depth (offset + c.utf8Size) found

/-- `split_verb`. -/
def splitVerb (p : Parser) : Checked (Option String × Parser) :=
  match verbColon p.rest 0 0 none with
  | none => return (none, p)
  | some idx => do
    let verb ← sliceFrom p.rest (idx + 1)
    if verb = [] then throw (p.err "empty verb after ':'")
    else if '/' ∈ verb then throw (p.err "verb may not contain '/'")
    else do
      let rest ← sliceTo p.rest idx
      return (some (String.ofList verb), { p with rest := rest })

/-- `parse_literal`. -/
def parseLiteral (p : Parser) : Checked (Segment × Parser) := do
  let stop := (find (· ∈ Parser.literalStop) p.rest).getD (byteLen p.rest)
  let lit ← sliceTo p.rest stop
  if lit = [] then throw (p.err "empty path segment")
  else if '*' ∈ lit then
    throw (p.err ("invalid literal segment " ++ debugStr (String.ofList lit)))
  else do
    let rest ← sliceFrom p.rest stop
    return (.literal (String.ofList lit), { p with rest := rest })

/-- `parse_segment`, given what to do at an opening brace. -/
def parseSegmentWith (onBrace : Parser → Checked (Segment × Parser)) (p : Parser) :
    Checked (Segment × Parser) :=
  match p.rest with
  | '*' :: '*' :: _ => do
    let rest ← sliceFrom p.rest 2
    return (.catchAll, { p with rest := rest })
  | '*' :: _ => do
    let rest ← sliceFrom p.rest 1
    return (.single, { p with rest := rest })
  | '\x7b' :: _ => onBrace p
  | _ => parseLiteral p

/-- Whether a parsed segment is unbounded: the entry of a variable is looked up by index. -/
def isCatchAll (p : Parser) : Segment → Option Bool
  | .catchAll => some true
  | .variable i => (p.vars[i]?).map (·.count.isAtLeast)
  | _ => some false

/-- `parse_segments`. Without fuel the loop has not ended. -/
def parseSegmentsWith (parseSegment : Parser → Checked (Segment × Parser)) :
    (fuel : Nat) → Parser → List Segment → Checked (List Segment × Parser)
  | 0, _, _ => ExceptT.mk none
  | fuel + 1, p, segments => do
    let (seg, p) ← parseSegment p
    let unbounded ← isCatchAll p seg
    match p.rest with
    | '/' :: _ =>
      if unbounded then throw (p.err "'**' must be the final segment")
      else do
        let rest ← sliceFrom p.rest 1
        parseSegmentsWith parseSegment fuel { p with rest := rest } (segments ++ [seg])
    | _ => return (segments ++ [seg], p)

/-- `parse_segments(true)`. -/
def parseSubPattern (fuel : Nat) (p : Parser) : Checked (List Segment × Parser) :=
  parseSegmentsWith
    (parseSegmentWith fun p => throw (p.err "nested variable '\x7b' inside a variable")) fuel p []

/-- `parse_field_path`. -/
def parseFieldPath (p : Parser) : Checked (List String × Parser) :=
  match find (· ∈ ['=', '\x7d']) p.rest with
  | none => throw (p.err "unterminated variable field path")
  | some stop => do
    let raw ← sliceTo p.rest stop
    let rest ← sliceFrom p.rest stop
    if raw = [] then throw (p.err "empty variable field path")
    else if (raw.splitOn '.').any List.isEmpty then
      throw (p.err ("invalid field path " ++ debugStr (String.ofList raw)))
    else return ((raw.splitOn '.').map String.ofList, { p with rest := rest })

/-- The sub-pattern behind a field path. -/
def parseSub (fuel : Nat) (p : Parser) : Checked (List Segment × Parser) :=
  match p.rest with
  | '=' :: _ => do
    let rest ← sliceFrom p.rest 1
    parseSubPattern fuel { p with rest := rest }
  | _ => return ([.single], p)

/-- `usize` subtraction. -/
def sub (a b : Nat) : Option Nat :=
  if b ≤ a then some (a - b) else none

/-- Whether a `**` stands in front of another segment of a sub-pattern. -/
def misplaced (segments : List Segment) : Option Bool :=
  match segments.findIdx? (· = .catchAll) with
  | none => some false
  | some pos => (sub segments.length 1).map fun last => pos ≠ last

/-- `parse_variable`. -/
def parseVariable (fuel : Nat) (p : Parser) : Checked (Segment × Parser) := do
  let rest ← sliceFrom p.rest 1
  let (fieldPath, p) ← parseFieldPath { p with rest := rest }
  let (segments, p) ← parseSub fuel p
  match p.rest with
  | '\x7d' :: _ => do
    let rest ← sliceFrom p.rest 1
    let wrong ← misplaced segments
    if wrong then throw (p.err "'**' must be the final segment of a variable")
    else
      return (.variable p.vars.length,
        { p with
          rest := rest
          vars := p.vars ++
            [{ fieldPath := fieldPath, sub := segments, count := segmentCount segments }] })
  | _ => throw (p.err "unterminated variable (expected '\x7d')")

/-- `parse_segments(false)`. -/
def parseSegments (fuel : Nat) (p : Parser) : Checked (List Segment × Parser) :=
  parseSegmentsWith (parseSegmentWith (parseVariable fuel)) fuel p []

/-- `Parser::parse`. -/
def parse (fuel : Nat) (p : Parser) : Checked PathTemplate :=
  if p.rest.head? ≠ some '/' then throw (p.err "must start with '/'")
  else do
    let (verb, p) ← splitVerb p
    let rest ← sliceFrom p.rest 1
    let (segments, p) ← parseSegments fuel { p with rest := rest }
    if p.rest ≠ [] then
      throw (p.err ("unexpected trailing input " ++ debugStr (String.ofList p.rest)))
    else if segments = [] then throw (p.err "empty path")
    else return { raw := p.raw, segments := segments, vars := p.vars, verb := verb }

/-! ## The matcher and the overlap test -/

/-- `slice::split_at`. -/
def splitAt {α : Type*} (n : Nat) (l : List α) : Option (List α × List α) :=
  if n ≤ l.length then some (l.take n, l.drop n) else none

/-- `match_segments` and `match_variable`. -/
def matchSegments (vars : List VarSpec) :
    List Segment → List String → Captures → Option (Option Captures)
  | [], input, captures => some (if input.isEmpty then some captures else none)
  | .literal lit :: rest, head :: tail, captures =>
    if decode head = lit then matchSegments vars rest tail captures else some none
  | .literal _ :: _, [], _ => some none
  | .single :: rest, _ :: tail, captures => matchSegments vars rest tail captures
  | .single :: _, [], _ => some none
  | .catchAll :: rest, _, captures => some (if rest.isEmpty then some captures else none)
  | .variable idx :: rest, input, captures => do
    let var ← vars[idx]?
    match var.take input with
    | none => return none
    | some n => do
      let (head, tail) ← splitAt n input
      if subPatternMatches var.sub head then
        matchSegments vars rest tail
          (captures ++ [(var.fieldPath, join "/" (head.map decode))])
      else return none

/-- `PathTemplate::matches`. -/
def «matches» (t : PathTemplate) (pathSegments : List String) (verb : Option String) :
    Option (Option Captures) :=
  if t.verb ≠ verb then some none
  else matchSegments t.vars t.segments pathSegments []

/-- `push_seg`, as deep as variables may nest. -/
def pushSeg (vars : List VarSpec) : (depth : Nat) → Segment → Option (List (Slot String))
  | _, .literal lit => some [.lit lit]
  | _, .single => some [.any]
  | _, .catchAll => some [.rest]
  | 0, .variable _ => none
  | depth + 1, .variable i => do
    let var ← vars[i]?
    let slots ← var.sub.mapM (pushSeg vars depth)
    return slots.flatten

/-- `template_slots`. -/
def templateSlots (depth : Nat) (t : PathTemplate) : Option (List (Slot String)) := do
  let slots ← t.segments.mapM (pushSeg t.vars depth)
  return slots.flatten

/-! ## The parser does not panic -/

/-- A computation that returns. -/
def returns {α : Type} (x : Except TemplateError α) : Checked α :=
  ExceptT.mk (some x)

/-- A step behind one that returns. -/
theorem returns_bind {α β : Type} {x : Except TemplateError α} {f : α → Checked β}
    {g : α → Except TemplateError β} (h : ∀ a, x = .ok a → f a = returns (g a)) :
    (returns x >>= f) = returns (x >>= g) := by
  cases x with
  | error e => rfl
  | ok a => exact h a rfl

theorem lift_some_bind {α β : Type} (a : α) (f : α → Checked β) :
    ((liftM (some a) : Checked α) >>= f) = f a := rfl

theorem verbColon_cons (c : Char) (cs : List Char) (depth offset : Nat) (found : Option Nat) :
    verbColon (c :: cs) depth offset found =
      verbColon cs (Parser.depthStep depth c) (offset + c.utf8Size)
        (if c = ':' ∧ depth = 0 then some offset else found) := by
  rw [verbColon, Parser.depthStep]
  by_cases hopen : c = '\x7b'
  · simp [hopen]
  · by_cases hclose : c = '\x7d'
    · simp [hclose]
    · by_cases hcolon : c = ':' ∧ depth = 0
      · simp [hcolon]
      · simp [hopen, hclose, hcolon]

/-- The offset that the scan finds is the length of the text in front of the `:`. -/
theorem verbColon_eq (pre text : List Char) (depth : Nat) (found : Option Nat) :
    verbColon text depth (byteLen pre) (found.map fun k => byteLen ((pre ++ text).take k)) =
      (Parser.verbColon text depth pre.length found).map fun k =>
        byteLen ((pre ++ text).take k) := by
  induction text generalizing pre depth found with
  | nil => rfl
  | cons c text ih =>
    have htext : pre ++ c :: text = (pre ++ [c]) ++ text := by simp
    have hlen : byteLen (pre ++ [c]) = byteLen pre + c.utf8Size := by simp
    rw [verbColon_cons, Parser.verbColon_cons, htext, ← hlen]
    have ih := ih (pre ++ [c]) (Parser.depthStep depth c)
      (if c = ':' ∧ depth = 0 then some pre.length else found)
    rw [List.length_append, List.length_singleton] at ih
    rw [← ih]
    congr 1
    -- a `:` that is found stands behind what has been read
    split
    · simp
    · rfl

theorem splitVerb_eq (p : Parser) : splitVerb p = returns p.splitVerb := by
  have hscan := verbColon_eq [] p.rest 0 none
  unfold splitVerb Parser.splitVerb
  rcases Parser.verbColon_spec p.rest 0 0 none with ⟨hnone, -⟩ | ⟨before, after, hrest, -, -, hsome⟩
  · simp only [List.length_nil, byteLen_nil, Option.map_none, hnone] at hscan ⊢
    rw [hscan]
    rfl
  · -- the text is `before`, the `:` of one byte, and `after`
    have hfrom : sliceFrom p.rest (byteLen before + 1) = some after := by
      have hcut := sliceFrom_append (before ++ [':']) after
      rw [byteLen_append, List.append_assoc] at hcut
      rw [hrest]
      exact hcut
    have hto : sliceTo p.rest (byteLen before) = some before := by rw [hrest, sliceTo_append]
    obtain ⟨htake, hdrop⟩ := take_drop_of_eq hrest
    simp only [List.length_nil, byteLen_nil, Option.map_none, hsome, Option.map_some,
      Nat.zero_add, List.nil_append, htake] at hscan
    simp only [hscan, hsome, Nat.zero_add, hfrom, hto, htake, hdrop, lift_some_bind]
    split
    · rfl
    · split
      · rfl
      · rfl

theorem parseLiteral_eq (p : Parser) : parseLiteral p = returns p.parseLiteral := by
  have hfind : (find (· ∈ Parser.literalStop) p.rest).getD (byteLen p.rest) =
      byteLen (p.rest.takeWhile (· ∉ Parser.literalStop)) := by
    rw [find_getD]
    simp
  obtain ⟨hto, hfrom⟩ := slice_takeWhile (fun c => decide (c ∉ Parser.literalStop)) p.rest
  unfold parseLiteral Parser.parseLiteral
  simp only [hfind, hto, hfrom, lift_some_bind]
  split
  · rfl
  · split
    · rfl
    · rfl

theorem parseSegmentWith_eq {onBrace : Parser → Except TemplateError (Segment × Parser)}
    {onBrace' : Parser → Checked (Segment × Parser)} {p : Parser}
    (hbrace : ∀ rest, p.rest = '\x7b' :: rest → onBrace' p = returns (onBrace p)) :
    parseSegmentWith onBrace' p = returns (Parser.parseSegmentWith onBrace p) := by
  unfold parseSegmentWith Parser.parseSegmentWith
  split
  · next rest hrest =>
    have hslice : sliceFrom ('*' :: '*' :: rest) 2 = some rest := sliceFrom_append ['*', '*'] rest
    simp only [hrest, hslice, lift_some_bind]
    rfl
  · next rest hne hrest =>
    have hslice : sliceFrom ('*' :: rest) 1 = some rest := sliceFrom_append ['*'] rest
    simp only [hrest, hslice, lift_some_bind]
    rfl
  · next rest hrest =>
    have heq := hbrace rest hrest
    simp only [*]
  · simp only [parseLiteral_eq]

theorem isCatchAll_eq {p : Parser} {seg : Segment}
    (hindex : ∀ i, seg = .variable i → i < p.vars.length) :
    isCatchAll p seg = some (p.isCatchAll seg) := by
  cases seg with
  | literal lit => rfl
  | single => rfl
  | catchAll => rfl
  | «variable» i =>
    rw [isCatchAll, Parser.isCatchAll, List.getElem?_eq_getElem (hindex i rfl)]
    rfl

/-- **The segment loop** ends without a panic if its segment parser does, and returns no index
    that is not in the table. -/
theorem parseSegmentsWith_eq {parseSegment : Parser → Except TemplateError (Segment × Parser)}
    {parseSegment' : Parser → Checked (Segment × Parser)}
    (hle : ∀ {p seg p'}, parseSegment p = .ok (seg, p') → p'.rest.length ≤ p.rest.length)
    (hindex : ∀ {p seg p'}, parseSegment p = .ok (seg, p') →
      ∀ i, seg = .variable i → i < p'.vars.length)
    {fuel : Nat} {p : Parser} (hfuel : p.rest.length < fuel)
    (heq : ∀ q : Parser, q.rest.length ≤ p.rest.length →
      parseSegment' q = returns (parseSegment q)) (segs : List Segment) :
    parseSegmentsWith parseSegment' fuel p segs =
      returns (Parser.parseSegmentsWith parseSegment fuel p segs) := by
  induction fuel generalizing p segs with
  | zero => omega
  | succ fuel ih =>
    rw [parseSegmentsWith, Parser.parseSegmentsWith, heq p (Nat.le_refl _)]
    apply returns_bind
    rintro ⟨seg, p₁⟩ hseg
    have hlen := hle hseg
    simp only [isCatchAll_eq (hindex hseg), lift_some_bind]
    split
    · next rest hrest =>
      have hslice : sliceFrom ('/' :: rest) 1 = some rest := sliceFrom_append ['/'] rest
      simp only [hrest, hslice, lift_some_bind]
      split
      · rfl
      · -- the next round starts behind the `/`, with less text left
        rw [hrest, List.length_cons] at hlen
        have hlt : rest.length < p.rest.length := by omega
        refine ih (Nat.lt_of_lt_of_le hlt (by omega)) ?_ _
        intro q hq
        exact heq q (Nat.le_trans hq (Nat.le_of_lt hlt))
    · simp only [returns]
      rfl

/-! ### Variables -/

/-- A parsed segment is no variable, or the last one of the table. -/
theorem index_lt_of_parseSegmentWith {p p' : Parser} {seg : Segment}
    (h : Parser.parseSegmentWith Parser.parseVariable p = .ok (seg, p')) :
    ∀ i, seg = .variable i → i < p'.vars.length := by
  rintro i rfl
  rcases Parser.parseSegmentWith_cases h with ⟨-, hflat⟩ | hbrace
  · cases hflat
  · obtain ⟨var, -, hvars, heq⟩ := Parser.parseVariable_eq_ok hbrace
    cases heq
    rw [hvars, List.length_append, List.length_singleton]
    omega

theorem parseSubPattern_eq {fuel : Nat} {p : Parser} (hfuel : p.rest.length < fuel) :
    parseSubPattern fuel p = returns p.parseSubPattern := by
  rw [Parser.parseSubPattern_eq hfuel, parseSubPattern]
  refine parseSegmentsWith_eq (Parser.parseSegmentWith_rest_le fun h => by cases h) ?_ hfuel ?_ _
  · rintro p seg p' h i rfl
    rcases Parser.parseSegmentWith_cases h with ⟨-, hflat⟩ | hbrace
    · cases hflat
    · cases hbrace
  · exact fun q _ => parseSegmentWith_eq fun _ _ => rfl

theorem any_isEmpty_iff {α : Type*} {l : List (List α)} :
    l.any List.isEmpty = true ↔ [] ∈ l := by
  simp

theorem parseFieldPath_eq (p : Parser) : parseFieldPath p = returns p.parseFieldPath := by
  obtain ⟨hto, hfrom⟩ := slice_takeWhile (fun c => decide (c ∉ ['=', '\x7d'])) p.rest
  unfold parseFieldPath Parser.parseFieldPath
  -- nothing is found iff nothing is left behind the characters that are passed over
  cases hfind : find (· ∈ ['=', '\x7d']) p.rest with
  | none =>
    rw [find_eq_none_iff] at hfind
    have hnil : p.rest.dropWhile (fun c => decide (c ∉ ['=', '\x7d'])) = [] :=
      List.dropWhile_eq_nil_iff.mpr fun c hc => by simpa using hfind c hc
    simp only [hnil, if_true]
    rfl
  | some stop =>
    have hstop : stop = byteLen (p.rest.takeWhile fun c => decide (c ∉ ['=', '\x7d'])) := by
      simpa using find_eq_some hfind
    have hne : p.rest.dropWhile (fun c => decide (c ∉ ['=', '\x7d'])) ≠ [] := by
      intro hnil
      rw [find_eq_none_iff.mpr] at hfind
      · cases hfind
      · intro c hc
        simpa using List.dropWhile_eq_nil_iff.mp hnil c hc
    simp only [hstop, hto, hfrom, lift_some_bind, if_neg hne, any_isEmpty_iff]
    split
    · rfl
    · split
      · rfl
      · rfl

theorem parseSub_eq {fuel : Nat} {p : Parser} (hfuel : p.rest.length < fuel) :
    parseSub fuel p = returns p.parseSub := by
  unfold parseSub Parser.parseSub
  split
  · next rest hrest =>
    have hslice : sliceFrom ('=' :: rest) 1 = some rest := sliceFrom_append ['='] rest
    have hlt : rest.length < fuel := by
      rw [hrest, List.length_cons] at hfuel
      omega
    simp only [hrest, hslice, lift_some_bind]
    exact parseSubPattern_eq hlt
  · simp only [returns]
    rfl

/-- A `**` that is found stands in a pattern that is not empty. -/
theorem misplaced_eq (segments : List Segment) :
    misplaced segments =
      some ((segments.findIdx? (· = .catchAll)).any (· ≠ segments.length - 1)) := by
  unfold misplaced
  cases hfind : segments.findIdx? (· = .catchAll) with
  | none => rfl
  | some pos =>
    have hpos := (List.findIdx?_eq_some_iff_getElem.mp hfind).1
    rw [sub, if_pos (by omega)]
    rfl

theorem parseVariable_eq {fuel : Nat} {p : Parser} {rest : List Char}
    (hrest : p.rest = '\x7b' :: rest) (hfuel : p.rest.length < fuel) :
    parseVariable fuel p = returns p.parseVariable := by
  have hslice : sliceFrom p.rest 1 = some p.rest.tail := by
    rw [hrest]
    exact sliceFrom_append ['\x7b'] rest
  unfold parseVariable Parser.parseVariable
  rw [hslice, lift_some_bind, parseFieldPath_eq]
  apply returns_bind
  rintro ⟨fieldPath, p₁⟩ hpath
  -- the sub-pattern is parsed from a shorter text
  have hle := Parser.parseFieldPath_rest_le hpath
  have hlt : p₁.rest.length < fuel := by
    simp only [List.length_tail] at hle
    omega
  simp only [parseSub_eq hlt]
  apply returns_bind
  rintro ⟨segments, p₂⟩ -
  simp only
  split
  · next rest₂ hrest₂ =>
    have hslice₂ : sliceFrom ('\x7d' :: rest₂) 1 = some rest₂ := sliceFrom_append ['\x7d'] rest₂
    simp only [hrest₂, hslice₂, misplaced_eq, lift_some_bind]
    split
    · rfl
    · rfl
  · simp only [returns]
    rfl

/-! ### Templates -/

theorem parseSegments_eq {fuel : Nat} {p : Parser} (hfuel : p.rest.length < fuel) :
    parseSegments fuel p = returns p.parseSegments := by
  rw [Parser.parseSegments_eq hfuel, parseSegments]
  refine parseSegmentsWith_eq (Parser.parseSegmentWith_rest_le Parser.parseVariable_rest_le)
    index_lt_of_parseSegmentWith hfuel ?_ _
  intro q hq
  exact parseSegmentWith_eq fun rest hrest => parseVariable_eq hrest (by omega)

/-- The `/` in front of a template stays in front of its verb. -/
theorem slash_of_splitVerb {p p' : Parser} {verb : Option String}
    (hslash : p.rest.head? = some '/') (h : p.splitVerb = .ok (verb, p')) :
    ∃ rest, p'.rest = '/' :: rest := by
  rcases Parser.splitVerb_cut h with ⟨-, rfl, -⟩ | ⟨v, -, hrest, -, -, -⟩
  · exact List.head?_eq_some_iff.mp hslash
  · cases hp : p'.rest with
    | nil =>
      rw [hrest, hp] at hslash
      cases hslash
    | cons c cs =>
      rw [hrest, hp] at hslash
      cases hslash
      exact ⟨cs, rfl⟩

/-- **The parser ends without a panic**: every slice is in range and cuts between characters, and
    every index is in the table. -/
theorem parse_eq {fuel : Nat} {p : Parser} (hfuel : p.rest.length < fuel) :
    parse fuel p = returns p.parse := by
  unfold parse Parser.parse
  split
  · rfl
  · next hhead =>
    have hslash : p.rest.head? = some '/' := by simpa using hhead
    rw [splitVerb_eq]
    apply returns_bind
    rintro ⟨verb, p₁⟩ hverb
    obtain ⟨rest, hrest⟩ := slash_of_splitVerb hslash hverb
    have hslice : sliceFrom p₁.rest 1 = some p₁.rest.tail := by
      rw [hrest]
      exact sliceFrom_append ['/'] rest
    -- what is left of the text without its verb is no longer than it was
    have hlen := congrArg List.length (Parser.splitVerb_advanced hverb).2.2.1
    rw [List.length_append] at hlen
    have hlt : p₁.rest.tail.length < fuel := by
      rw [List.length_tail]
      omega
    simp only [hslice, lift_some_bind, parseSegments_eq (p := { p₁ with rest := p₁.rest.tail }) hlt]
    apply returns_bind
    rintro ⟨segments, p₂⟩ -
    simp only
    split
    · rfl
    · split
      · rfl
      · rfl

/-! ## The matcher and the overlap test do not panic -/

theorem take_le {var : VarSpec} {input : List String} {n : Nat} (h : var.take input = some n) :
    n ≤ input.length := by
  unfold VarSpec.take at h
  split at h
  · split at h
    · cases h
    · cases h
      omega
  · split at h
    · cases h
    · cases h
      exact Nat.le_refl _

/-- **The matcher does not panic** if the table holds all indices. -/
theorem matchSegments_eq {vars : List VarSpec} {segs : List Segment}
    (hindex : ∀ i, .variable i ∈ segs → i < vars.length) (input : List String)
    (captures : Captures) :
    matchSegments vars segs input captures =
      some (GrpcGw.Template.matchSegments vars segs input captures) := by
  induction segs generalizing input captures with
  | nil => rfl
  | cons s segs ih =>
    have ih := ih fun i hi => hindex i (List.mem_cons_of_mem _ hi)
    cases s with
    | literal lit =>
      cases input with
      | nil => rfl
      | cons head tail =>
        rw [matchSegments, GrpcGw.Template.matchSegments, ih]
        split
        · rfl
        · rfl
    | single =>
      cases input with
      | nil => rfl
      | cons head tail => exact ih tail captures
    | catchAll => cases input <;> rfl
    | «variable» i =>
      have hi : i < vars.length := hindex i List.mem_cons_self
      obtain ⟨var, hvar⟩ : ∃ var, vars[i]? = some var := ⟨_, List.getElem?_eq_getElem hi⟩
      rw [matchSegments, GrpcGw.Template.matchSegments, hvar]
      simp only [Option.bind_eq_bind, Option.bind_some, VarSpec.capture]
      cases htake : var.take input with
      | none => rfl
      | some n =>
        -- `match_variable` has compared the length before it splits
        have hsplit : splitAt n input = some (input.take n, input.drop n) := if_pos (take_le htake)
        simp only [hsplit, Option.bind_some, ih]
        by_cases hsub : subPatternMatches var.sub (input.take n) = true
        · rw [if_pos hsub, if_pos hsub]
        · rw [if_neg hsub, if_neg hsub]
          rfl

theorem matches_eq {t : PathTemplate} (h : t.WellFormed) (segments : List String)
    (verb : Option String) : «matches» t segments verb = some (t.matches segments verb) := by
  unfold «matches» PathTemplate.matches
  split
  · rfl
  · exact matchSegments_eq (fun _ => h.index_lt) segments []

/-- A map all of whose steps return. -/
theorem mapM_eq_some_map {α β : Type*} {f : α → Option β} {g : α → β} {l : List α}
    (h : ∀ x ∈ l, f x = some (g x)) : l.mapM f = some (l.map g) := by
  induction l with
  | nil => rfl
  | cons x l ih =>
    rw [List.mapM_cons, h x List.mem_cons_self, ih fun y hy => h y (List.mem_cons_of_mem _ hy)]
    rfl

/-- Without variables there is one slot for each segment. -/
theorem mapM_pushSeg_flat {vars : List VarSpec} {segs : List Segment}
    (hflat : ∀ s ∈ segs, s.varIndex? = none) (depth : Nat) :
    segs.mapM (pushSeg vars depth) = some (segs.map fun s => s.slot?.toList) := by
  apply mapM_eq_some_map
  intro s hs
  cases s with
  | «variable» i => cases hflat _ hs
  | literal lit => cases depth <;> rfl
  | single => cases depth <;> rfl
  | catchAll => cases depth <;> rfl

theorem pushSeg_eq {vars : List VarSpec} {s : Segment}
    (hwf : ∀ i, s = .variable i → ∃ var, vars[i]? = some var ∧ var.WellFormed) (depth : Nat) :
    pushSeg vars (depth + 1) s = some (GrpcGw.Template.pushSeg vars s) := by
  cases s with
  | literal lit => rfl
  | single => rfl
  | catchAll => rfl
  | «variable» i =>
    obtain ⟨var, hvar, hvarwf⟩ := hwf i rfl
    rw [pushSeg, GrpcGw.Template.pushSeg, hvar]
    simp only [Option.bind_eq_bind, Option.bind_some, mapM_pushSeg_flat hvarwf.sub_flat,
      Option.pure_def, Option.some.injEq]
    rw [List.filterMap_eq_flatMap_toList, List.flatMap_def]

/-- **The overlap test does not panic**, and looks one level below a template. -/
theorem templateSlots_eq {t : PathTemplate} (h : t.WellFormed) (depth : Nat) :
    templateSlots (depth + 1) t = some (GrpcGw.Template.templateSlots t) := by
  have hslots : t.segments.mapM (pushSeg t.vars (depth + 1)) =
      some (t.segments.map (GrpcGw.Template.pushSeg t.vars)) := by
    apply mapM_eq_some_map
    intro s hs
    apply pushSeg_eq
    intro i hi
    exact h.matchable.vars_wellFormed i (hi ▸ hs)
  rw [templateSlots, hslots]
  rfl

end Checked

end GrpcGw.Template
