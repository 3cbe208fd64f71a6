import Mathlib.Data.List.TakeWhile
import GrpcGw.Template.Rendering

/-!
# Path Templates: What the Parser has Read

The other half of the round trip: whatever the parser accepts is a rendering of what it returns.

- `Advanced`: from one state to the next, the parser has read a text and extended its table.
- `Parser.parseSegmentsWith_advanced`: the segment loop has read nodes with a `/` between them.
- `verbColon_spec`: the verb scan finds the last colon outside braces.
- `parse_renders`: parsing and rendering are inverse.
-/

namespace GrpcGw.Template

open GrpcGw.Text

/-! ## Texts -/

theorem slashed_append_slash {texts : List (List Char)} (hne : texts ≠ []) :
    slashed texts ++ ['/'] = texts.flatMap (· ++ ['/']) := by
  induction texts with
  | nil => exact absurd rfl hne
  | cons x texts ih =>
    cases texts with
    | nil => simp [slashed]
    | cons y texts =>
      rw [slashed_cons_cons, List.append_assoc, List.cons_append, ih (List.cons_ne_nil y texts)]
      simp

theorem dotted_splitOn (raw : List Char) : dotted ((raw.splitOn '.').map String.ofList) = raw := by
  rw [dotted, List.map_map]
  simp only [Function.comp_def, String.toList_ofList, List.map_id']
  exact List.intercalate_splitOn '.'

theorem mem_intercalate_of_mem {sep : List Char} {texts : List (List Char)} {text : List Char}
    (htext : text ∈ texts) {c : Char} (hc : c ∈ text) : c ∈ sep.intercalate texts := by
  induction texts with
  | nil => cases htext
  | cons x texts ih =>
    cases texts with
    | nil =>
      rw [List.intercalate_singleton]
      exact List.mem_singleton.mp htext ▸ hc
    | cons y texts =>
      rw [List.intercalate_cons_cons]
      rcases List.mem_cons.mp htext with rfl | htext
      · simp [hc]
      · simp [ih htext]

/-- The pieces of a split text hold no character that the text does not hold. -/
theorem mem_of_mem_splitOn {c x : Char} {raw piece : List Char} (hpiece : piece ∈ raw.splitOn c)
    (hx : x ∈ piece) : x ∈ raw := by
  have hmem : x ∈ [c].intercalate (raw.splitOn c) := mem_intercalate_of_mem hpiece hx
  rwa [List.intercalate_splitOn] at hmem

/-! ## Steps of the parser -/

namespace Parser

/-- From `p` to `p'`, the parser has read `text` and entered `specs` in its table. -/
structure Advanced (p p' : Parser) (text : List Char) (specs : List VarSpec) : Prop where
  raw_eq : p'.raw = p.raw
  rest_eq : p.rest = text ++ p'.rest
  vars_eq : p'.vars = p.vars ++ specs

theorem Advanced.trans {p p' p'' : Parser} {text text' : List Char} {specs specs' : List VarSpec}
    (h : Advanced p p' text specs) (h' : Advanced p' p'' text' specs') :
    Advanced p p'' (text ++ text') (specs ++ specs') where
  raw_eq := h'.raw_eq.trans h.raw_eq
  rest_eq := by rw [h.rest_eq, h'.rest_eq, List.append_assoc]
  vars_eq := by rw [h'.vars_eq, h.vars_eq, List.append_assoc]

/-- Stepping over a text. -/
theorem Advanced.skip {p : Parser} {text rest : List Char} (h : p.rest = text ++ rest) :
    Advanced p { p with rest := rest } text [] :=
  ⟨rfl, h, by simp⟩

theorem parseLiteral_advanced {p p' : Parser} {seg : Segment}
    (h : p.parseLiteral = .ok (seg, p')) :
    ∃ lit, (Atom.literal lit).Plain ∧ seg = .literal lit ∧ Advanced p p' lit.toList [] := by
  unfold parseLiteral at h
  simp only at h
  split at h
  · cases h
  · next hne =>
    split at h
    · cases h
    · next hstar =>
      cases h
      refine ⟨_, ⟨by simpa using hne, ?_⟩, rfl, .skip (by simp)⟩
      intro c hc hmem
      rw [String.toList_ofList] at hc
      have hstop : c ∉ literalStop := by simpa using List.mem_takeWhile_imp hc
      have hcstar : c ≠ '*' := fun heq => hstar (heq ▸ hc)
      simp only [literalStop, List.mem_cons, List.not_mem_nil, or_false] at hstop hmem
      -- these are the characters that a literal excludes
      tauto

/-- What a segment parser has read, beyond what it does at an opening brace. -/
theorem parseSegmentWith_advanced {onBrace : Parser → Except TemplateError (Segment × Parser)}
    {p p' : Parser} {seg : Segment} (h : parseSegmentWith onBrace p = .ok (seg, p')) :
    (∃ a : Atom, a.Plain ∧ seg = a.segment ∧ Advanced p p' a.text []) ∨
      (∃ rest, p.rest = '\x7b' :: rest) ∧ onBrace p = .ok (seg, p') := by
  unfold parseSegmentWith at h
  split at h
  · next hrest =>
    cases h
    exact .inl ⟨.catchAll, trivial, rfl, .skip (by simpa [Atom.text] using hrest)⟩
  · next hrest =>
    cases h
    exact .inl ⟨.single, trivial, rfl, .skip (by simpa [Atom.text] using hrest)⟩
  · next hrest => exact .inr ⟨⟨_, hrest⟩, h⟩
  · obtain ⟨lit, hplain, rfl, hadv⟩ := parseLiteral_advanced h
    exact .inl ⟨.literal lit, hplain, rfl, hadv⟩

/-- **What the segment loop has read**: nodes with a `/` between them, if every round of it has
    read a node. -/
theorem parseSegmentsWith_advanced
    {parseSegment : Parser → Except TemplateError (Segment × Parser)} {P : Node → Prop}
    (hsegment : ∀ {p seg p'}, parseSegment p = .ok (seg, p') → ∃ n text, P n ∧ n.Renders text ∧
      seg = n.segment p.vars.length ∧ Advanced p p' text n.specs)
    {fuel : Nat} {p p' : Parser} {out : List Segment}
    (h : parseSegmentsWith parseSegment fuel p [] = .ok (out, p')) :
    ∃ nodes texts, nodes ≠ [] ∧ (∀ n ∈ nodes, P n) ∧ List.Forall₂ Node.Renders nodes texts ∧
      out = numbered p.vars.length nodes ∧
      Advanced p p' (slashed texts) (nodes.flatMap Node.specs) := by
  refine parseSegmentsWith_inv
    (I := fun segs q => ∃ nodes texts, (∀ n ∈ nodes, P n) ∧
      List.Forall₂ Node.Renders nodes texts ∧ segs = numbered p.vars.length nodes ∧
      Advanced p q (texts.flatMap (· ++ ['/'])) (nodes.flatMap Node.specs))
    (J := fun segs q => ∃ nodes texts, nodes ≠ [] ∧ (∀ n ∈ nodes, P n) ∧
      List.Forall₂ Node.Renders nodes texts ∧ segs = numbered p.vars.length nodes ∧
      Advanced p q (slashed texts) (nodes.flatMap Node.specs))
    ?_ ?_ ⟨[], [], by simp, .nil, rfl, .skip rfl⟩ h
  · -- a round adds a node at the end
    intro segs q seg q' hI hseg
    obtain ⟨nodes, texts, hP, htexts, rfl, hadv⟩ := hI
    obtain ⟨n, text, hn, htext, rfl, hadv'⟩ := hsegment hseg
    refine ⟨nodes ++ [n], texts ++ [text], by simp, ?_, List.rel_append htexts (.cons htext .nil),
      ?_, ?_⟩
    · intro m hm
      rcases List.mem_append.mp hm with hm | hm
      · exact hP m hm
      · rw [List.mem_singleton.mp hm]
        exact hn
    · rw [numbered_append, hadv.vars_eq, List.length_append]
      rfl
    · rw [slashed_concat, List.flatMap_append]
      simpa using hadv.trans hadv'
  · -- and the loop steps over a `/`
    intro segs seg q rest hJ hrest _
    obtain ⟨nodes, texts, hne, hP, htexts, hsegs, hadv⟩ := hJ
    refine ⟨nodes, texts, hP, htexts, hsegs, ?_⟩
    have hne' : texts ≠ [] := by
      rintro rfl
      cases htexts
      exact hne rfl
    have hskip : Advanced q { q with rest := rest } ['/'] [] := .skip hrest
    have hstep := hadv.trans hskip
    rwa [slashed_append_slash hne', List.append_nil] at hstep

/-! ### Variables -/

/-- Nodes that are all atoms. -/
theorem exists_atoms {nodes : List Node} {texts : List (List Char)}
    (hatoms : ∀ n ∈ nodes, ∃ a : Atom, n = .atom a ∧ a.Plain)
    (htexts : List.Forall₂ Node.Renders nodes texts) :
    ∃ sub : List Atom, nodes = sub.map Node.atom ∧ texts = sub.map Atom.text ∧
      ∀ a ∈ sub, a.Plain := by
  induction htexts with
  | nil => exact ⟨[], rfl, rfl, by simp⟩
  | @cons n text nodes texts htext _ ih =>
    obtain ⟨sub, rfl, rfl, hplain⟩ := ih fun m hm => hatoms m (List.mem_cons_of_mem _ hm)
    obtain ⟨a, rfl, ha⟩ := hatoms n (by simp)
    cases htext
    exact ⟨a :: sub, rfl, rfl, List.forall_mem_cons.mpr ⟨ha, hplain⟩⟩

theorem parseSubPattern_advanced {p p' : Parser} {out : List Segment}
    (h : p.parseSubPattern = .ok (out, p')) :
    ∃ sub : List Atom, sub ≠ [] ∧ (∀ a ∈ sub, a.Plain) ∧ .catchAll ∉ sub.dropLast ∧
      out = sub.map Atom.segment ∧ Advanced p p' (slashed (sub.map Atom.text)) [] := by
  obtain ⟨-, -, -, hlast⟩ := parseSubPattern_eq_ok h
  obtain ⟨nodes, texts, hne, hatoms, htexts, rfl, hadv⟩ :=
    parseSegmentsWith_advanced (P := fun n => ∃ a : Atom, n = .atom a ∧ a.Plain) (by
      intro q seg q' hseg
      rcases parseSegmentWith_advanced hseg with ⟨a, ha, rfl, hadv⟩ | ⟨-, hbrace⟩
      · exact ⟨.atom a, a.text, ⟨a, rfl, ha⟩, .atom a, rfl, hadv⟩
      · cases hbrace) h
  obtain ⟨sub, rfl, rfl, hplain⟩ := exists_atoms hatoms htexts
  rw [numbered_atoms] at hlast ⊢
  rw [specs_atoms] at hadv
  refine ⟨sub, by simpa using hne, hplain, ?_, rfl, hadv⟩
  rw [← List.map_dropLast] at hlast
  exact fun hmem => hlast ((mem_map_segment (a := .catchAll)).mpr hmem)

theorem parseFieldPath_advanced {p p' : Parser} {fieldPath : List String}
    (h : p.parseFieldPath = .ok (fieldPath, p')) :
    fieldPath ≠ [] ∧
      (∀ name ∈ fieldPath, name ≠ "" ∧ ∀ c ∈ name.toList, c ∉ ['.', '=', '\x7d']) ∧
      (∃ c rest, p'.rest = c :: rest ∧ c ∈ ['=', '\x7d']) ∧
      Advanced p p' (dotted fieldPath) [] := by
  obtain ⟨-, hne, hnames⟩ := parseFieldPath_eq_ok h
  unfold parseFieldPath at h
  simp only at h
  split at h
  · cases h
  · next hrest =>
    split at h
    · cases h
    · split at h
      · cases h
      · cases h
        refine ⟨hne, ?_, ?_, ?_⟩
        · intro name hname
          refine ⟨fun heq => hnames (heq ▸ hname), ?_⟩
          obtain ⟨piece, hpiece, rfl⟩ := List.mem_map.mp hname
          intro c hc hmem
          rw [String.toList_ofList] at hc
          have hstop : c ∉ ['=', '\x7d'] := by
            simpa using List.mem_takeWhile_imp (mem_of_mem_splitOn hpiece hc)
          have hdot : c ≠ '.' := by
            rintro rfl
            exact notMem_of_mem_splitOn hpiece hc
          simp_all
        · -- the scan has stopped at a character
          obtain ⟨c, rest, hcons⟩ := List.exists_cons_of_ne_nil hrest
          have hhead := List.head_dropWhile_not (· ∉ ['=', '\x7d']) (l := p.rest) hrest
          refine ⟨c, rest, hcons, ?_⟩
          simp only [hcons, List.head_cons] at hhead
          exact Decidable.not_not.mp (of_decide_eq_false hhead)
        · rw [dotted_splitOn]
          exact .skip List.takeWhile_append_dropWhile.symm

theorem parseSub_advanced {p p' : Parser} {out : List Segment} (h : p.parseSub = .ok (out, p')) :
    ∃ sub : List Atom, sub ≠ [] ∧ (∀ a ∈ sub, a.Plain) ∧ .catchAll ∉ sub.dropLast ∧
      out = sub.map Atom.segment ∧
      (Advanced p p' ('=' :: slashed (sub.map Atom.text)) [] ∨
        sub = [.single] ∧ Advanced p p' [] []) := by
  unfold parseSub at h
  split at h
  · next rest hrest =>
    obtain ⟨sub, hne, hplain, hlast, hout, hadv⟩ := parseSubPattern_advanced h
    have hskip : Advanced p { p with rest := rest } ['='] [] := .skip hrest
    exact ⟨sub, hne, hplain, hlast, hout, .inl (hskip.trans hadv)⟩
  · cases h
    exact ⟨[.single], by simp, by simp [Atom.Plain], by simp, rfl, .inr ⟨rfl, .skip rfl⟩⟩

theorem parseVariable_advanced {p p' : Parser} {seg : Segment} {rest : List Char}
    (hrest : p.rest = '\x7b' :: rest) (h : p.parseVariable = .ok (seg, p')) :
    ∃ (n : Node) (text : List Char), n.Parsable ∧ n.Renders text ∧
      seg = n.segment p.vars.length ∧ Advanced p p' text n.specs := by
  unfold parseVariable at h
  obtain ⟨⟨fieldPath, p₁⟩, hpath, h⟩ := bind_eq_ok_iff.mp h
  obtain ⟨⟨out, p₂⟩, hsub, h⟩ := bind_eq_ok_iff.mp h
  obtain ⟨hne, hnames, -, hadv₁⟩ := parseFieldPath_advanced hpath
  obtain ⟨sub, hsub_ne, hplain, hlast, rfl, hadv₂⟩ := parseSub_advanced hsub
  have hopen : Advanced p { p with rest := p.rest.tail } ['\x7b'] [] :=
    .skip (by rw [hrest]; rfl)
  simp only at h
  split at h
  · next rest' hclose =>
    split at h
    · cases h
    · cases h
      -- both spellings end with the closing brace and the new entry of the table
      have hclose' : ∀ spec, Advanced p₂
          { p₂ with rest := rest', vars := p₂.vars ++ [spec] } ['\x7d'] [spec] := fun _ =>
        ⟨rfl, hclose, rfl⟩
      have hvars : p₂.vars = p.vars := by
        rcases hadv₂ with hadv₂ | ⟨-, hadv₂⟩
        · simpa using (hopen.trans (hadv₁.trans hadv₂)).vars_eq
        · simpa using (hopen.trans (hadv₁.trans hadv₂)).vars_eq
      have hspecs : (Node.variable fieldPath sub).specs =
          [{ fieldPath := fieldPath, sub := sub.map Atom.segment,
             count := segmentCount (sub.map Atom.segment) }] := by
        rw [Node.specs, segmentCount_map hlast]
      have hparsable : (Node.variable fieldPath sub).Parsable :=
        ⟨hne, hnames, hsub_ne, hplain, hlast⟩
      rcases hadv₂ with hadv₂ | ⟨rfl, hadv₂⟩
      · refine ⟨.variable fieldPath sub, _, hparsable, .full fieldPath sub,
          by rw [hvars]; rfl, ?_⟩
        rw [hspecs]
        simpa using hopen.trans (hadv₁.trans (hadv₂.trans (hclose' _)))
      · refine ⟨.variable fieldPath [.single], _, hparsable, .bare fieldPath,
          by rw [hvars]; rfl, ?_⟩
        rw [hspecs]
        simpa using hopen.trans (hadv₁.trans (hadv₂.trans (hclose' _)))
  · cases h

theorem parseSegments_advanced {p p' : Parser} {out : List Segment}
    (h : p.parseSegments = .ok (out, p')) :
    ∃ nodes texts, nodes ≠ [] ∧ (∀ n ∈ nodes, n.Parsable) ∧
      List.Forall₂ Node.Renders nodes texts ∧ out = numbered p.vars.length nodes ∧
      Advanced p p' (slashed texts) (nodes.flatMap Node.specs) := by
  refine parseSegmentsWith_advanced ?_ h
  intro q seg q' hseg
  rcases parseSegmentWith_advanced hseg with ⟨a, ha, rfl, hadv⟩ | ⟨⟨rest, hrest⟩, hvariable⟩
  · exact ⟨.atom a, a.text, ha, .atom a, rfl, hadv⟩
  · exact parseVariable_advanced hrest hvariable

/-! ### The verb -/

/-- How deep in braces the verb scan is behind a character. -/
def depthStep (depth : Nat) (c : Char) : Nat :=
  if c = '\x7b' then depth + 1 else if c = '\x7d' then depth - 1 else depth

/-- How deep in braces the verb scan is behind a text. -/
def braceDepth (depth : Nat) (text : List Char) : Nat :=
  text.foldl depthStep depth

theorem braceDepth_plain {text : List Char} (h : ∀ c ∈ text, c ∉ ['\x7b', '\x7d']) {depth : Nat} :
    braceDepth depth text = depth := by
  induction text with
  | nil => rfl
  | cons c text ih =>
    have hc := h c (by simp)
    simp only [List.mem_cons, List.not_mem_nil, or_false, not_or] at hc
    rw [braceDepth, List.foldl_cons, depthStep, if_neg hc.1, if_neg hc.2]
    exact ih fun x hx => h x (List.mem_cons_of_mem _ hx)

/-- Every `:` stands in braces. -/
def ColonsInBraces (depth : Nat) (text : List Char) : Prop :=
  ∀ before after, text = before ++ ':' :: after → braceDepth depth before ≠ 0

theorem colonsInBraces_cons {depth : Nat} {c : Char} {text : List Char}
    (hc : ¬ (c = ':' ∧ depth = 0)) (h : ColonsInBraces (depthStep depth c) text) :
    ColonsInBraces depth (c :: text) := by
  intro before after heq
  cases before with
  | nil =>
    simp only [List.nil_append, List.cons.injEq] at heq
    exact fun hdepth => hc ⟨heq.1, hdepth⟩
  | cons x before =>
    simp only [List.cons_append, List.cons.injEq] at heq
    obtain ⟨rfl, heq⟩ := heq
    exact h before after heq

theorem verbColon_cons (c : Char) (cs : List Char) (depth i : Nat) (found : Option Nat) :
    verbColon (c :: cs) depth i found =
      verbColon cs (depthStep depth c) (i + 1) (if c = ':' ∧ depth = 0 then some i else found) := by
  rw [verbColon, depthStep]
  by_cases hopen : c = '\x7b'
  · simp [hopen]
  · by_cases hclose : c = '\x7d'
    · simp [hclose]
    · by_cases hcolon : c = ':' ∧ depth = 0
      · simp [hcolon]
      · simp [hopen, hclose, hcolon]

/-- **The verb scan finds the last colon outside braces.** -/
theorem verbColon_spec (text : List Char) (depth i : Nat) (found : Option Nat) :
    (verbColon text depth i found = found ∧ ColonsInBraces depth text) ∨
      ∃ before after, text = before ++ ':' :: after ∧ braceDepth depth before = 0 ∧
        ColonsInBraces 0 after ∧ verbColon text depth i found = some (i + before.length) := by
  induction text generalizing depth i found with
  | nil => exact .inl ⟨rfl, fun before after heq => by simp at heq⟩
  | cons c text ih =>
    rw [verbColon_cons]
    rcases ih (depthStep depth c) (i + 1) (if c = ':' ∧ depth = 0 then some i else found) with
      ⟨hsame, hnone⟩ | ⟨before, after, rfl, hdepth, hafter, hlast⟩
    · by_cases hcolon : c = ':' ∧ depth = 0
      · -- this is the last colon
        obtain ⟨rfl, rfl⟩ := hcolon
        exact .inr ⟨[], text, rfl, rfl, hnone, by simpa using hsame⟩
      · rw [if_neg hcolon] at hsame ⊢
        exact .inl ⟨hsame, colonsInBraces_cons hcolon hnone⟩
    · refine .inr ⟨c :: before, after, rfl, hdepth, hafter, ?_⟩
      rw [hlast, List.length_cons]
      congr 1
      omega

/-- **Where `split_verb` cuts**: nowhere if every colon stands in braces, and otherwise at the last
    one that does not. -/
theorem splitVerb_cut {p p' : Parser} {verb : Option String}
    (h : p.splitVerb = .ok (verb, p')) :
    (verb = none ∧ p' = p ∧ ColonsInBraces 0 p.rest) ∨
      ∃ v, verb = some v ∧ p.rest = p'.rest ++ ':' :: v.toList ∧ p'.raw = p.raw ∧
        braceDepth 0 p'.rest = 0 ∧ ColonsInBraces 0 v.toList := by
  unfold splitVerb at h
  rcases verbColon_spec p.rest 0 0 none with ⟨hnone, hcolons⟩ | ⟨before, after, hrest, hdepth,
    hafter, hscan⟩
  · rw [hnone] at h
    cases h
    exact .inl ⟨rfl, rfl, hcolons⟩
  · obtain ⟨htake, hdrop⟩ := take_drop_of_eq hrest
    simp only [hscan, Nat.zero_add, hdrop, htake] at h
    split at h
    · cases h
    · split at h
      · cases h
      · cases h
        have htext : (String.ofList after).toList = after := String.toList_ofList
        exact .inr ⟨_, rfl, by rw [htext]; exact hrest, rfl, hdepth, by rwa [htext]⟩

/-- What `split_verb` leaves in front of the verb, and the verb. -/
theorem splitVerb_advanced {p p' : Parser} {verb : Option String}
    (h : p.splitVerb = .ok (verb, p')) :
    p'.raw = p.raw ∧ p'.vars = p.vars ∧ p.rest = p'.rest ++ verbText verb ∧
      ∀ v ∈ verb, v ≠ "" ∧ '/' ∉ v.toList ∧ ColonsInBraces 0 v.toList := by
  obtain ⟨hvars, hverb⟩ := splitVerb_eq_ok h
  rcases splitVerb_cut h with ⟨rfl, rfl, -⟩ | ⟨v, rfl, hrest, hraw, -, hcolons⟩
  · exact ⟨rfl, rfl, by simp [verbText], by simp⟩
  · refine ⟨hraw, hvars, hrest, ?_⟩
    intro w hw
    obtain ⟨hne, hslash⟩ := hverb w hw
    cases hw
    exact ⟨hne, hslash, hcolons⟩

end Parser

/-! ## The round trip -/

/-- **What the parser accepts is a rendering of what it returns**: the tree behind the result, the
    spelling of each of its nodes, and the verb. -/
theorem PathTemplate.exists_tree_of_parse {s : String} {t : PathTemplate}
    (h : PathTemplate.parse s = .ok t) :
    ∃ (tree : TemplateTree) (texts : List (List Char)), tree.template s = t ∧
      tree.nodes ≠ [] ∧ (∀ n ∈ tree.nodes, n.Parsable) ∧
      List.Forall₂ Node.Renders tree.nodes texts ∧
      s.toList = '/' :: (slashed texts ++ verbText tree.verb) ∧
      ∀ v ∈ tree.verb, v ≠ "" ∧ '/' ∉ v.toList ∧ Parser.ColonsInBraces 0 v.toList := by
  unfold PathTemplate.parse Parser.parse at h
  split at h
  · cases h
  · next hhead =>
    obtain ⟨⟨verb, p₁⟩, hverb, h⟩ := bind_eq_ok_iff.mp h
    obtain ⟨⟨segs, p₂⟩, hsegs, h⟩ := bind_eq_ok_iff.mp h
    obtain ⟨hraw, hvars, hrest, hcolons⟩ := Parser.splitVerb_advanced hverb
    obtain ⟨nodes, texts, hne, hparsable, htexts, hout, hadv⟩ := Parser.parseSegments_advanced hsegs
    simp only at h
    split at h
    · cases h
    · next hend =>
      split at h
      · cases h
      · cases h
        subst hout
        -- the leading `/` is not part of the verb
        have hslash : p₁.rest = '/' :: p₁.rest.tail := by
          have hhead : (Parser.new s).rest.head? = some '/' := by simpa using hhead
          cases hp : p₁.rest with
          | nil =>
            rw [hrest, hp, List.nil_append] at hhead
            cases verb with
            | none => cases hhead
            | some v => simp [verbText] at hhead
          | cons c cs =>
            rw [hrest, hp] at hhead
            cases hhead
            rfl
        have htail : p₁.rest.tail = slashed texts := by
          have hnil : p₂.rest = [] := by simpa using hend
          simpa [hnil] using hadv.rest_eq
        rw [htail] at hslash
        have hnil : p₁.vars = [] := hvars
        refine ⟨⟨nodes, verb⟩, texts, ?_, hne, hparsable, htexts, ?_, hcolons⟩
        · simp only [TemplateTree.template, hadv.raw_eq, hadv.vars_eq, hraw, hnil, List.nil_append,
            List.length_nil]
          rfl
        · rw [hslash] at hrest
          exact hrest

/-- **Parsing and rendering are inverse.** -/
theorem parse_renders (s : String) :
    (∀ tree : TemplateTree, tree.WellFormed → tree.Renders s →
        PathTemplate.parse s = .ok (tree.template s)) ∧
      ∀ t, PathTemplate.parse s = .ok t → ∃! tree : TemplateTree,
        tree.template s = t ∧ tree.Renders s := by
  refine ⟨fun tree hwf hrenders => hwf.parse hrenders, ?_⟩
  intro t h
  obtain ⟨tree, texts, htemplate, -, -, htexts, hs, -⟩ := PathTemplate.exists_tree_of_parse h
  refine ⟨tree, ⟨htemplate, texts, htexts, hs⟩, ?_⟩
  rintro tree' ⟨htemplate', -⟩
  exact TemplateTree.template_injective (htemplate'.trans htemplate.symm)

theorem parse_renders_shelves :
    PathTemplate.parse "/shelves/\x7bshelf\x7d:list" =
        .ok (TemplateTree.template
          ⟨[.atom (.literal "shelves"), .variable ["shelf"] [.single]], some "list"⟩
          "/shelves/\x7bshelf\x7d:list") ∧
      ∃ t, PathTemplate.parse "/shelves/\x7bshelf\x7d:list" = .ok t ∧
        ∃! tree : TemplateTree, tree.template "/shelves/\x7bshelf\x7d:list" = t ∧
          tree.Renders "/shelves/\x7bshelf\x7d:list" := by
  have hparse := (parse_renders "/shelves/\x7bshelf\x7d:list").1
    ⟨[.atom (.literal "shelves"), .variable ["shelf"] [.single]], some "list"⟩
    { nodes_ne_nil := by simp
      parsable := by simp [Node.Parsable, Atom.Plain]
      quiet := by simp [Node.Quiet, Atom.text]
      bounded_dropLast := by simp [Node.unbounded]
      verb := by simp }
    ⟨[_, _], .cons (.atom _) (.cons (.bare _) .nil), rfl⟩
  exact ⟨hparse, _, hparse, (parse_renders "/shelves/\x7bshelf\x7d:list").2 _ hparse⟩

end GrpcGw.Template
