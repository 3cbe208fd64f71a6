import Mathlib.Data.List.Forall2
import GrpcGw.Template.Basic

/-!
# Path Templates: Spelling of the Request Path

How a match depends on the way a request path is percent-encoded. The matcher reads a segment
through `decode` only, while the verb is compared as it stands and a segment whose bytes are not
UTF-8 is read as it stands.

- `PathTemplate.matches_congr`: a match depends on the decoded segments only.
- `splitRequestPath_reescaped`: respelling unreserved characters respects the split.
- `matches_reescaped`: it does not change a match, the two exceptions above apart.
-/

namespace GrpcGw.Template

open GrpcGw.Text

/-! ## Matching reads decoded segments -/

/-- Segment lists that decode alike are empty, or start with segments that decode alike. -/
theorem map_decode_eq_cases {input input' : List String}
    (h : input.map decode = input'.map decode) :
    input = [] ∧ input' = [] ∨ ∃ x tail x' tail', input = x :: tail ∧ input' = x' :: tail' ∧
      decode x = decode x' ∧ tail.map decode = tail'.map decode := by
  cases input with
  | nil =>
    cases input' with
    | nil => exact .inl ⟨rfl, rfl⟩
    | cons x' tail' => cases h
  | cons x tail =>
    cases input' with
    | nil => cases h
    | cons x' tail' =>
      rw [List.map_cons, List.map_cons, List.cons.injEq] at h
      exact .inr ⟨x, tail, x', tail', rfl, rfl, h⟩

theorem subPatternMatches_congr {sub : List Segment} {input input' : List String}
    (h : input.map decode = input'.map decode) :
    subPatternMatches sub input = subPatternMatches sub input' := by
  induction sub generalizing input input' with
  | nil =>
    rcases map_decode_eq_cases h with ⟨rfl, rfl⟩ | ⟨x, tail, x', tail', rfl, rfl, -, -⟩
    · rfl
    · rfl
  | cons s sub ih =>
    rcases map_decode_eq_cases h with ⟨rfl, rfl⟩ | ⟨x, tail, x', tail', rfl, rfl, hx, htail⟩
    · rfl
    · cases s with
      | literal lit => rw [subPatternMatches, subPatternMatches, hx, ih htail]
      | single => rw [subPatternMatches, subPatternMatches, ih htail]
      | catchAll => rfl
      | «variable» k => rfl

/-- The capture of a variable depends on the decoded segments, and so does what it leaves. -/
theorem VarSpec.capture_congr (var : VarSpec) {input input' : List String}
    (h : input.map decode = input'.map decode) :
    (var.capture input).map (fun r => (r.1, r.2.map decode)) =
      (var.capture input').map (fun r => (r.1, r.2.map decode)) := by
  have hlen : input.length = input'.length := by simpa using congrArg List.length h
  have htake : var.take input = var.take input' := by
    simp only [VarSpec.take, hlen]
  unfold VarSpec.capture
  rw [htake]
  cases var.take input' with
  | none => rfl
  | some n =>
    -- both halves of the input decode alike
    have hhead : (input.take n).map decode = (input'.take n).map decode := by
      rw [List.map_take, List.map_take, h]
    have htail : (input.drop n).map decode = (input'.drop n).map decode := by
      rw [List.map_drop, List.map_drop, h]
    simp only [subPatternMatches_congr hhead, hhead]
    split
    · simp [htail]
    · rfl

theorem matchSegments_congr {vars : List VarSpec} {segs : List Segment}
    {input input' : List String} (h : input.map decode = input'.map decode) (caps : Captures) :
    matchSegments vars segs input caps = matchSegments vars segs input' caps := by
  induction segs generalizing input input' caps with
  | nil =>
    rcases map_decode_eq_cases h with ⟨rfl, rfl⟩ | ⟨x, tail, x', tail', rfl, rfl, -, -⟩
    · rfl
    · rfl
  | cons s segs ih =>
    cases s with
    | literal lit =>
      rcases map_decode_eq_cases h with ⟨rfl, rfl⟩ | ⟨x, tail, x', tail', rfl, rfl, hx, htail⟩
      · rfl
      · rw [matchSegments, matchSegments, hx, ih htail]
    | single =>
      rcases map_decode_eq_cases h with ⟨rfl, rfl⟩ | ⟨x, tail, x', tail', rfl, rfl, -, htail⟩
      · rfl
      · rw [matchSegments, matchSegments, ih htail]
    | catchAll => cases input <;> cases input' <;> simp [matchSegments]
    | «variable» k =>
      rw [matchSegments, matchSegments]
      cases vars[k]? with
      | none => rfl
      | some var =>
        -- the captures agree, and what they leave decodes alike
        have hcap := var.capture_congr h
        cases hl : var.capture input with
        | none =>
          cases hr : var.capture input' with
          | none => simp only [hl, hr]
          | some r' => simp [hl, hr] at hcap
        | some r =>
          cases hr : var.capture input' with
          | none => simp [hl, hr] at hcap
          | some r' =>
            simp only [hl, hr, Option.map_some, Option.some.injEq, Prod.mk.injEq] at hcap
            simp only [hl, hr, hcap.1, ih hcap.2]

/-- **A match depends on the decoded segments and the verb.** -/
theorem PathTemplate.matches_congr (t : PathTemplate) {input input' : List String}
    (h : input.map decode = input'.map decode) (verb : Option String) :
    t.matches input verb = t.matches input' verb := by
  unfold PathTemplate.matches
  rw [matchSegments_congr h]

/-! ## Splitting a respelled path -/

theorem slash_isSeparator : IsSeparator '/' := ⟨by decide, by decide, by decide⟩

theorem colon_isSeparator : IsSeparator ':' := ⟨by decide, by decide, by decide⟩

theorem stripSlash_cons_of_ne {c : Char} (hc : c ≠ '/') (r : List Char) :
    stripSlash (c :: r) = c :: r := by
  unfold stripSlash
  split
  · next heq => exact absurd (List.cons.inj heq).1 hc
  · rfl

/-- Respelling keeps the leading `/`, or its absence. -/
theorem reescaped_stripSlash {cs cs' : List Char} (h : Reescaped cs cs') :
    Reescaped (stripSlash cs) (stripSlash cs') := by
  cases h with
  | nil => exact .nil
  | triplet hh hl h' => exact .triplet hh hl h'
  | @keep c r r' hc h' =>
    by_cases hslash : c = '/'
    · subst hslash
      exact h'
    · rw [stripSlash_cons_of_ne hslash, stripSlash_cons_of_ne hslash]
      exact .keep hc h'
  | @escape c h l hi lo r r' hc hh hl hv h' =>
    -- an unreserved character is no `/`, and neither is the `%` of its triplet
    have hslash : c ≠ '/' := by
      rintro rfl
      exact absurd hc (by decide)
    rw [stripSlash_cons_of_ne hslash]
    exact .escape hc hh hl hv h'

theorem forall₂_concat {α β : Type*} {R : α → β → Prop} {init : List α} {last : α} {l : List β}
    (h : List.Forall₂ R (init ++ [last]) l) :
    ∃ init' last', l = init' ++ [last'] ∧ List.Forall₂ R init init' ∧ R last last' := by
  induction init generalizing l with
  | nil =>
    cases h with
    | cons hlast hnil =>
      cases hnil
      exact ⟨[], _, rfl, .nil, hlast⟩
  | cons x init ih =>
    cases h with
    | cons hx htail =>
      obtain ⟨init', last', rfl, hinit, hlast⟩ := ih htail
      exact ⟨_ :: init', last', rfl, .cons hx hinit, hlast⟩

theorem forall₂_map_ofList {l l' : List (List Char)} (h : List.Forall₂ Reescaped l l') :
    List.Forall₂ (fun s s' : String => Reescaped s.toList s'.toList)
      (l.map String.ofList) (l'.map String.ofList) := by
  induction h with
  | nil => exact .nil
  | cons hx _ ih => exact .cons (by simpa using hx) ih

/-- **The split of a respelled path is a respelled split.** -/
theorem splitRequestPath_reescaped {p p' : String} (h : Reescaped p.toList p'.toList) :
    List.Forall₂ (fun s s' : String => Reescaped s.toList s'.toList)
      (splitRequestPath p).1 (splitRequestPath p').1 := by
  have hsplit := (reescaped_stripSlash h).splitOn slash_isSeparator
  obtain ⟨init, last, hl⟩ :=
    (List.eq_nil_or_concat ((stripSlash p.toList).splitOn '/')).resolve_left
      (List.splitOn_ne_nil _ _)
  rw [List.concat_eq_append] at hl
  rw [hl] at hsplit
  obtain ⟨init', last', hl', hinit, hlast⟩ := forall₂_concat hsplit
  unfold splitRequestPath
  simp only [hl, hl', List.getLast?_append, List.getLast?_singleton, Option.some_or,
    List.dropLast_concat]
  -- the last segment has a verb on both sides or on neither
  cases hverb : splitLast ':' last with
  | none =>
    have hcolon := splitLast_eq_none_iff.mp hverb
    rw [splitLast_eq_none_iff.mpr (hlast.notMem colon_isSeparator hcolon)]
    exact forall₂_map_ofList (List.rel_append hinit (.cons hlast .nil))
  | some r =>
    obtain ⟨seg, verb⟩ := r
    obtain ⟨rfl, hcolon⟩ := splitLast_eq_some hverb
    obtain ⟨seg', verb', rfl, hseg, hverb'⟩ := hlast.append_cons colon_isSeparator
    rw [splitLast_append seg' (hverb'.notMem colon_isSeparator hcolon)]
    exact forall₂_map_ofList (List.rel_append hinit (.cons hseg .nil))

/-! ## Matching a respelled path -/

/-- What the respelling may touch: a segment whose bytes are not UTF-8 is read as it stands, so
    it has to be spelled the same. -/
def SpelledAlike (s s' : String) : Prop :=
  s = s' ∨ (fromUtf8 (unescape (utf8 s))).isSome

theorem decode_reescaped {s s' : String} (h : Reescaped s.toList s'.toList)
    (halike : SpelledAlike s s') : decode s = decode s' := by
  rcases halike with rfl | hutf8
  · rfl
  · obtain ⟨text, htext⟩ := Option.isSome_iff_exists.mp hutf8
    have hbytes := h.unescape_eq
    rw [String.ofList_toList, String.ofList_toList] at hbytes
    rw [decode_eq, decode_eq, ← hbytes, htext, Option.getD_some, Option.getD_some]

/-- **Respelling unreserved characters does not change a match**, as long as the verb and the
    segments that are not UTF-8 keep their spelling. -/
theorem PathTemplate.matches_reescaped (t : PathTemplate) {p p' : String}
    (h : Reescaped p.toList p'.toList)
    (hverb : (splitRequestPath p).2 = (splitRequestPath p').2)
    (halike : List.Forall₂ SpelledAlike (splitRequestPath p).1 (splitRequestPath p').1) :
    t.matches (splitRequestPath p).1 (splitRequestPath p).2 =
      t.matches (splitRequestPath p').1 (splitRequestPath p').2 := by
  rw [hverb]
  apply PathTemplate.matches_congr
  have hsplit := splitRequestPath_reescaped h
  generalize (splitRequestPath p).1 = l at hsplit halike
  generalize (splitRequestPath p').1 = l' at hsplit halike
  induction hsplit with
  | nil => rfl
  | cons hs _ ih =>
    cases halike with
    | cons ha halike =>
      rw [List.map_cons, List.map_cons, decode_reescaped hs ha, ih halike]

end GrpcGw.Template
