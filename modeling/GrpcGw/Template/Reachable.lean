import GrpcGw.Template.Requests
import GrpcGw.Template.RoundTrip

/-!
# Path Templates: Reachability

The two sides cut the verb by two rules: a template is cut at its last `:` outside braces, a
request path at the last `:` of its last segment. A template whose verb holds a `:` in braces is
accepted, and no request path leads to it.

- `PathTemplate.Reachable`: some request path is matched.
- `PathTemplate.reachable_iff`: an accepted template is reachable iff the two rules cut it at the
  same place.
-/

namespace GrpcGw.Template

open GrpcGw.Text

/-- Some request path splits into segments and a verb that the template matches. -/
def PathTemplate.Reachable (t : PathTemplate) : Prop :=
  ∃ path : String, path.toList.head? = some '/' ∧
    (t.matches (splitRequestPath path).1 (splitRequestPath path).2).isSome = true

/-- The last `:` of a text stands outside braces, unless every `:` stands in braces. -/
def CutsAtLastColon (text : List Char) : Prop :=
  Parser.ColonsInBraces 0 text ∨
    ∀ before after, text = before ++ ':' :: after → ':' ∉ after →
      Parser.braceDepth 0 before = 0

/-! ## The cut of a request path -/

/-- The verb of a request path holds no `:`. -/
theorem colon_notMem_verb {path v : String} (h : (splitRequestPath path).2 = some v) :
    ':' ∉ v.toList := by
  unfold splitRequestPath at h
  simp only at h
  split at h
  · cases h
  · next last hlast =>
    split at h
    · next seg verb hcut =>
      cases h
      rw [String.toList_ofList]
      exact (splitLast_eq_some hcut).2
    · cases h

/-! ## The cut of a template -/

/-- Where the verb of an accepted template comes from. -/
theorem PathTemplate.verb_of_parse {s : String} {t : PathTemplate}
    (h : PathTemplate.parse s = .ok t) :
    (t.verb = none ∧ Parser.ColonsInBraces 0 s.toList) ∨
      ∃ before v, t.verb = some v ∧ s.toList = before ++ ':' :: v.toList ∧
        Parser.braceDepth 0 before = 0 ∧ Parser.ColonsInBraces 0 v.toList := by
  unfold PathTemplate.parse Parser.parse at h
  split at h
  · cases h
  · obtain ⟨⟨verb, p₁⟩, hverb, h⟩ := bind_eq_ok_iff.mp h
    obtain ⟨⟨segs, p₂⟩, -, h⟩ := bind_eq_ok_iff.mp h
    simp only at h
    split at h
    · cases h
    · split at h
      · cases h
      · cases h
        -- the segments are parsed in front of the cut and leave the verb alone
        rcases Parser.splitVerb_cut hverb with ⟨rfl, -, hcolons⟩ | ⟨v, rfl, hrest, -, hdepth,
          hcolons⟩
        · exact .inl ⟨rfl, hcolons⟩
        · exact .inr ⟨p₁.rest, v, rfl, hrest, hdepth, hcolons⟩

theorem braceDepth_append (a b : List Char) (depth : Nat) :
    Parser.braceDepth depth (a ++ b) = Parser.braceDepth (Parser.braceDepth depth a) b :=
  List.foldl_append

/-- **The verb of an accepted template holds no `:` iff the two rules cut it at the same place.** -/
theorem PathTemplate.colon_notMem_verb_iff {s : String} {t : PathTemplate}
    (h : PathTemplate.parse s = .ok t) :
    (∀ v ∈ t.verb, ':' ∉ v.toList) ↔ CutsAtLastColon s.toList := by
  rcases PathTemplate.verb_of_parse h with ⟨hnone, hcolons⟩ | ⟨before, v, hverb, hs, hdepth,
    hcolons⟩
  · rw [hnone]
    exact ⟨fun _ => .inl hcolons, fun _ v hv => by cases hv⟩
  · rw [hverb, hs]
    constructor
    · -- the colon of the verb is the last one of the text
      intro hfree
      have hv := hfree v rfl
      right
      intro before' after' heq hafter
      have hcut := splitLast_append before hv
      rw [heq, splitLast_append before' hafter] at hcut
      cases hcut
      exact hdepth
    · intro hcut w hw hmem
      cases hw
      rcases hcut with hinside | hlast
      · exact hinside before v.toList rfl hdepth
      · -- the last `:` of the verb is the last one of the text, and it stands in braces
        obtain ⟨⟨a, b⟩, hsplit⟩ := Option.ne_none_iff_exists'.mp
          (fun hnone => splitLast_eq_none_iff.mp hnone hmem)
        obtain ⟨hv, hb⟩ := splitLast_eq_some hsplit
        have hzero := hlast (before ++ ':' :: a) b (by simp [hv]) hb
        rw [braceDepth_append, hdepth] at hzero
        exact hcolons a b hv hzero

/-! ## Reachability -/

/-- A well-formed template is reachable iff its verb holds no `:`. -/
theorem PathTemplate.WellFormed.reachable_iff_verb {t : PathTemplate} (h : t.WellFormed) :
    t.Reachable ↔ ∀ v ∈ t.verb, ':' ∉ v.toList := by
  constructor
  · rintro ⟨path, -, hmatch⟩ v hv
    have hverb := ((PathTemplate.matches_isSome_iff h _ _).mp hmatch).1
    exact colon_notMem_verb (hverb.symm.trans hv)
  · -- any request that is built from the template will do
    intro hverb
    let a : Assignment := ⟨fun _ _ => "x", []⟩
    refine ⟨requestPath .upper t a, by simp [requestPath], ?_⟩
    rw [h.matches_own hverb .upper a]
    rfl

/-- **Which accepted templates can be reached**: those whose last `:` stands outside braces, and
    those without a `:` outside braces. -/
theorem PathTemplate.reachable_iff {s : String} {t : PathTemplate}
    (h : PathTemplate.parse s = .ok t) : t.Reachable ↔ CutsAtLastColon s.toList :=
  (PathTemplate.parse_wellFormed h).reachable_iff_verb.trans (PathTemplate.colon_notMem_verb_iff h)

/-- A template with a `:` in a literal and one in front of the verb. -/
theorem PathTemplate.reachable_iff_shelves :
    ∃ t, PathTemplate.parse "/v1/a:b/\x7bname=shelves/*\x7d:get" = .ok t ∧ t.Reachable := by
  have hparse : ∃ t, PathTemplate.parse "/v1/a:b/\x7bname=shelves/*\x7d:get" = .ok t := ⟨_, rfl⟩
  obtain ⟨t, ht⟩ := hparse
  refine ⟨t, ht, (PathTemplate.reachable_iff ht).mpr (.inr ?_)⟩
  intro before after heq hafter
  have hcut : splitLast ':' "/v1/a:b/\x7bname=shelves/*\x7d:get".toList =
      some ("/v1/a:b/\x7bname=shelves/*\x7d".toList, "get".toList) := rfl
  rw [heq, splitLast_append before hafter] at hcut
  cases hcut
  decide

/-- A verb with a `:` in braces is accepted and never matched. -/
theorem PathTemplate.not_reachable :
    ¬∀ s t, PathTemplate.parse s = .ok t → t.Reachable := by
  intro h
  have hparse : ∃ t, PathTemplate.parse "/v1/x:\x7ba:b\x7d" = .ok t := ⟨_, rfl⟩
  obtain ⟨t, ht⟩ := hparse
  have hverb := (PathTemplate.parse_wellFormed ht).reachable_iff_verb.mp (h _ t ht)
  cases ht
  exact hverb "\x7ba:b\x7d" rfl (by decide)

end GrpcGw.Template
