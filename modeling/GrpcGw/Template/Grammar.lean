import GrpcGw.Template.RoundTrip

/-!
# Path Templates: the Documented Grammar

The grammar of the module documentation of `template.rs`, as derivations, and how far the parser
keeps to it. The parser checks neither the characters of the identifiers of a field path nor, past
`/`, those of a verb.

- `Derives`, `IsTemplate`: the grammar.
- `NamesAreIdents`, `VerbIsLiteral`: what the parser leaves unchecked.
- `PathTemplate.isTemplate_iff`: what it accepts is a template of the grammar iff both hold.
-/

namespace GrpcGw.Template

open GrpcGw.Text

/-! ## The grammar -/

/-- `IDENT`. -/
def isIdent : List Char → Bool
  | [] => false
  | c :: cs => (c.isAlpha || c = '_') && cs.all fun x => x.isAlphanum || x = '_'

/-- `LITERAL`. -/
def IsLiteral (w : List Char) : Prop :=
  w ≠ [] ∧ ∀ c ∈ w, c ∉ ['/', '*', '\x7b', '\x7d', '=']

/-- `FieldPath = IDENT { "." IDENT }`. -/
def IsFieldPath (w : List Char) : Prop :=
  ∃ names : List (List Char), names ≠ [] ∧ (∀ name ∈ names, isIdent name = true) ∧
    w = ['.'].intercalate names

/-- The nonterminals that refer to each other. -/
inductive Nonterminal where
  | segment
  | segments

/-- The derivations of `Segment` and `Segments`. -/
inductive Derives : Nonterminal → List Char → Prop where
  | single : Derives .segment ['*']
  | catchAll : Derives .segment ['*', '*']
  | literal {w : List Char} : IsLiteral w → Derives .segment w
  | variable {path : List Char} : IsFieldPath path →
      Derives .segment ('\x7b' :: (path ++ ['\x7d']))
  | variableSub {path w : List Char} : IsFieldPath path → Derives .segments w →
      Derives .segment ('\x7b' :: (path ++ '=' :: (w ++ ['\x7d'])))
  | one {w : List Char} : Derives .segment w → Derives .segments w
  | cons {w ws : List Char} : Derives .segment w → Derives .segments ws →
      Derives .segments (w ++ '/' :: ws)

/-- `Template = "/" Segments [ Verb ]` with `Verb = ":" LITERAL`. -/
def IsTemplate (s : String) : Prop :=
  ∃ w, Derives .segments w ∧
    (s.toList = '/' :: w ∨
      ∃ verb, IsLiteral verb ∧ ':' ∉ verb ∧ s.toList = '/' :: (w ++ ':' :: verb))

/-! ## What the parser leaves unchecked -/

/-- Behind every `{` stands a field path of identifiers, up to a `=` or `}`. -/
def NamesAreIdents (w : List Char) : Prop :=
  ∀ before after, w = before ++ '\x7b' :: after → ∃ path stop rest,
    after = path ++ stop :: rest ∧ stop ∈ ['=', '\x7d'] ∧ IsFieldPath path

/-- Behind a `:` outside braces and past the last `/` stands none of `*`, `{`, `}` and `=`. -/
def VerbIsLiteral (w : List Char) : Prop :=
  ∀ before after, w = before ++ ':' :: after →
    before.count '\x7b' = before.count '\x7d' → '/' ∉ after →
    ∀ c ∈ after, c ∉ ['*', '\x7b', '\x7d', '=']

/-! ## Texts -/

/-- Where a character of a concatenation stands. -/
theorem append_eq_append_cons {a b before after : List Char} {c : Char}
    (h : a ++ b = before ++ c :: after) :
    (∃ mid, a = before ++ c :: mid ∧ after = mid ++ b) ∨
      ∃ mid, before = a ++ mid ∧ b = mid ++ c :: after := by
  rcases List.append_eq_append_iff.mp h with ⟨mid, hbefore, hb⟩ | ⟨mid, ha, hc⟩
  · exact .inr ⟨mid, hbefore, hb⟩
  · cases mid with
    | nil => exact .inr ⟨[], by simpa using ha.symm, by simpa using hc.symm⟩
    | cons x mid =>
      simp only [List.cons_append, List.cons.injEq] at hc
      obtain ⟨rfl, hc⟩ := hc
      exact .inl ⟨mid, ha, hc⟩

theorem isIdent_plain {name : List Char} (h : isIdent name = true) :
    ∀ c ∈ name, c.isAlphanum ∨ c = '_' := by
  cases name with
  | nil => simp
  | cons c cs =>
    simp only [isIdent, Bool.and_eq_true, Bool.or_eq_true, decide_eq_true_eq,
      List.all_eq_true] at h
    intro x hx
    rcases List.mem_cons.mp hx with rfl | hx
    · exact h.1.imp_left fun halpha => by simp [Char.isAlphanum, halpha]
    · exact h.2 x hx

/-- The characters of the grammar do not occur in field paths. -/
theorem IsFieldPath.plain {w : List Char} (h : IsFieldPath w) :
    ∀ c ∈ w, c ∉ ['/', ':', '\x7b', '\x7d', '=', '*'] := by
  obtain ⟨names, -, hnames, rfl⟩ := h
  intro c hc hmem
  rcases mem_intercalate hc with rfl | ⟨name, hname, hcn⟩
  · exact absurd hmem (by decide)
  · have hword := isIdent_plain (hnames name hname) c hcn
    simp only [List.mem_cons, List.not_mem_nil, or_false] at hmem
    rcases hmem with rfl | rfl | rfl | rfl | rfl | rfl <;> exact absurd hword (by decide)

theorem IsFieldPath.notMem {w : List Char} (h : IsFieldPath w) {c : Char}
    (hc : c ∈ ['/', ':', '\x7b', '\x7d', '=', '*']) : c ∉ w :=
  fun hmem => h.plain c hmem hc

/-! ## Derivations are balanced -/

/-- As many opening as closing braces, and never more closing ones on the way. -/
structure Balanced (w : List Char) : Prop where
  le_of_prefix : ∀ p, p <+: w → p.count '\x7d' ≤ p.count '\x7b'
  count_eq : w.count '\x7b' = w.count '\x7d'

theorem balanced_plain {w stop : List Char} (h : ∀ c ∈ w, c ∉ stop) (hopen : '\x7b' ∈ stop)
    (hclose : '\x7d' ∈ stop) : Balanced w := by
  have hopen : '\x7b' ∉ w := fun hmem => h _ hmem hopen
  have hclose : '\x7d' ∉ w := fun hmem => h _ hmem hclose
  refine ⟨?_, by rw [List.count_eq_zero.mpr hopen, List.count_eq_zero.mpr hclose]⟩
  intro p hp
  rw [List.count_eq_zero.mpr fun hmem => hclose (hp.subset hmem)]
  exact Nat.zero_le _

theorem balanced_singleton {c : Char} (h : c ∉ ['\x7b', '\x7d']) : Balanced [c] :=
  balanced_plain (fun x hx => List.mem_singleton.mp hx ▸ h) (by simp) (by simp)

theorem Balanced.append {a b : List Char} (ha : Balanced a) (hb : Balanced b) :
    Balanced (a ++ b) := by
  refine ⟨?_, by rw [List.count_append, List.count_append, ha.count_eq, hb.count_eq]⟩
  rintro p ⟨rest, hp⟩
  rcases List.append_eq_append_iff.mp hp with ⟨q, hq, -⟩ | ⟨q, rfl, hq⟩
  · exact ha.le_of_prefix p ⟨q, hq.symm⟩
  · rw [List.count_append, List.count_append, ha.count_eq]
    exact Nat.add_le_add_left (hb.le_of_prefix q ⟨rest, hq.symm⟩) _

theorem Balanced.braces {w : List Char} (h : Balanced w) :
    Balanced ('\x7b' :: (w ++ ['\x7d'])) := by
  refine ⟨?_, by simp [h.count_eq]⟩
  intro p hp
  cases p with
  | nil => simp
  | cons c p =>
    obtain ⟨rfl, hp'⟩ := List.cons_prefix_cons.mp hp
    rcases List.prefix_concat_iff.mp hp' with rfl | hp'
    · simp [h.count_eq]
    · have hle := h.le_of_prefix p hp'
      rw [List.count_cons_self, List.count_cons_of_ne (by decide)]
      omega

theorem Derives.balanced {sym : Nonterminal} {w : List Char} (h : Derives sym w) : Balanced w := by
  induction h with
  | single => exact balanced_singleton (by decide)
  | catchAll =>
    have hstar : Balanced ['*'] := balanced_singleton (by decide)
    exact hstar.append hstar
  | literal hlit => exact balanced_plain hlit.2 (by simp) (by simp)
  | «variable» hpath => exact (balanced_plain hpath.plain (by simp) (by simp)).braces
  | variableSub hpath _ ih =>
    have hpath := balanced_plain hpath.plain (by simp) (by simp)
    have heq : Balanced ['='] := balanced_singleton (by decide)
    simpa using (hpath.append (heq.append ih)).braces
  | one _ ih => exact ih
  | cons _ _ ih ih' =>
    have hslash : Balanced ['/'] := balanced_singleton (by decide)
    exact ih.append (hslash.append ih')

/-! ## What the grammar derives passes the checks -/

theorem NamesAreIdents.append {a b : List Char} (ha : NamesAreIdents a) (hb : NamesAreIdents b) :
    NamesAreIdents (a ++ b) := by
  intro before after h
  rcases append_eq_append_cons h with ⟨mid, hmid, rfl⟩ | ⟨mid, -, hmid⟩
  · obtain ⟨path, stop, rest, rfl, hstop, hpath⟩ := ha before mid hmid
    exact ⟨path, stop, rest ++ b, by simp, hstop, hpath⟩
  · exact hb mid after hmid

theorem namesAreIdents_plain {w : List Char} (h : '\x7b' ∉ w) : NamesAreIdents w := by
  rintro before after rfl
  exact absurd (by simp) h

/-- A brace with its field path, in front of more text. -/
theorem namesAreIdents_brace {path rest : List Char} {stop : Char} (hpath : IsFieldPath path)
    (hstop : stop ∈ ['=', '\x7d']) (hrest : NamesAreIdents (stop :: rest)) :
    NamesAreIdents ('\x7b' :: (path ++ stop :: rest)) := by
  intro before after h
  cases before with
  | nil =>
    simp only [List.nil_append, List.cons.injEq, true_and] at h
    exact ⟨path, stop, rest, h.symm, hstop, hpath⟩
  | cons c before =>
    simp only [List.cons_append, List.cons.injEq] at h
    have hplain : NamesAreIdents path := namesAreIdents_plain (hpath.notMem (by simp))
    exact hplain.append hrest before after h.2

theorem Derives.namesAreIdents {sym : Nonterminal} {w : List Char} (h : Derives sym w) :
    NamesAreIdents w := by
  induction h with
  | single => exact namesAreIdents_plain (by decide)
  | catchAll => exact namesAreIdents_plain (by decide)
  | literal hlit => exact namesAreIdents_plain fun hmem => hlit.2 _ hmem (by simp)
  | «variable» hpath =>
    exact namesAreIdents_brace hpath (by simp) (namesAreIdents_plain (by decide))
  | @variableSub path w hpath _ ih =>
    have heq : NamesAreIdents ['='] := namesAreIdents_plain (by decide)
    have hclose : NamesAreIdents ['\x7d'] := namesAreIdents_plain (by decide)
    exact namesAreIdents_brace hpath (by simp) (heq.append (ih.append hclose))
  | one _ ih => exact ih
  | cons _ _ ih ih' =>
    have hslash : NamesAreIdents ['/'] := namesAreIdents_plain (by decide)
    exact ih.append (hslash.append ih')

/-- Every colon of a variable with a sub-pattern stands inside its braces. -/
theorem verbIsLiteral_braces {path w : List Char} (hpath : IsFieldPath path) (hw : Balanced w) :
    VerbIsLiteral ('\x7b' :: (path ++ '=' :: (w ++ ['\x7d']))) := by
  intro before after heq hcount
  have hfront : ':' ∉ '\x7b' :: (path ++ ['=']) := by
    simp [hpath.notMem (c := ':') (by simp)]
  have heq' : ('\x7b' :: (path ++ ['='])) ++ (w ++ ['\x7d']) = before ++ ':' :: after := by
    rw [← heq]
    simp
  rcases append_eq_append_cons heq' with ⟨mid, hmid, -⟩ | ⟨mid, rfl, hmid⟩
  · exact absurd (by rw [hmid]; simp) hfront
  · rcases append_eq_append_cons hmid with ⟨mid', rfl, -⟩ | ⟨mid', -, hmid'⟩
    · -- the opening brace is in front of the colon, the closing one behind it
      have hle := hw.le_of_prefix mid (List.prefix_append _ _)
      have hopen : path.count '\x7b' = 0 := List.count_eq_zero.mpr (hpath.notMem (by simp))
      have hclose : path.count '\x7d' = 0 := List.count_eq_zero.mpr (hpath.notMem (by simp))
      simp only [List.cons_append, List.count_append, List.count_cons, List.count_nil, hopen,
        hclose] at hcount
      simp at hcount
      omega
    · exact absurd (hmid' ▸ by simp : ':' ∈ ['\x7d']) (by decide)

/-- Behind the last `/` there is only the rest. -/
theorem VerbIsLiteral.slash {w ws : List Char} (hws : VerbIsLiteral ws) (hw : Balanced w) :
    VerbIsLiteral (w ++ '/' :: ws) := by
  intro before after heq hcount hslash
  rcases append_eq_append_cons heq with ⟨mid, -, rfl⟩ | ⟨mid, rfl, hmid⟩
  · exact absurd (by simp) hslash
  · cases mid with
    | nil => cases hmid
    | cons c mid =>
      simp only [List.cons_append, List.cons.injEq] at hmid
      obtain ⟨rfl, hmid⟩ := hmid
      refine hws mid after hmid ?_ hslash
      rw [List.count_append, List.count_append, hw.count_eq,
        List.count_cons_of_ne (by decide), List.count_cons_of_ne (by decide)] at hcount
      omega

theorem Derives.verbIsLiteral {sym : Nonterminal} {w : List Char} (h : Derives sym w) :
    VerbIsLiteral w := by
  induction h with
  | single => exact fun before after heq => absurd (heq ▸ by simp : ':' ∈ ['*']) (by decide)
  | catchAll =>
    exact fun before after heq => absurd (heq ▸ by simp : ':' ∈ ['*', '*']) (by decide)
  | literal hlit =>
    rintro before after rfl _ _ c hc
    exact notMem_mono (by simp) hlit.2 c (by simp [hc])
  | @«variable» path hpath =>
    -- no colon at all
    intro before after heq
    have hmem : ':' ∈ '\x7b' :: (path ++ ['\x7d']) := by simp [heq]
    simp [hpath.notMem (c := ':') (by simp)] at hmem
  | variableSub hpath hw _ => exact verbIsLiteral_braces hpath hw.balanced
  | one _ ih => exact ih
  | cons hw _ _ ih' => exact ih'.slash hw.balanced

theorem IsTemplate.namesAreIdents {s : String} (h : IsTemplate s) : NamesAreIdents s.toList := by
  have hslash : NamesAreIdents ['/'] := namesAreIdents_plain (by decide)
  obtain ⟨w, hw, hs | ⟨verb, hverb, -, hs⟩⟩ := h
  · rw [hs]
    exact hslash.append hw.namesAreIdents
  · have hcolon : NamesAreIdents [':'] := namesAreIdents_plain (by decide)
    have hverb' : NamesAreIdents verb :=
      namesAreIdents_plain fun hmem => hverb.2 _ hmem (by simp)
    rw [hs]
    exact hslash.append (hw.namesAreIdents.append (hcolon.append hverb'))

theorem IsTemplate.verbIsLiteral {s : String} (h : IsTemplate s) : VerbIsLiteral s.toList := by
  obtain ⟨w, hw, hs⟩ := h
  -- whatever comes behind the segments holds no character of the grammar
  obtain ⟨verb, hs, hverb⟩ : ∃ verb, s.toList = '/' :: (w ++ verb) ∧
      ∀ c ∈ verb, c ∉ ['*', '\x7b', '\x7d', '='] := by
    rcases hs with hs | ⟨verb, hverb, -, hs⟩
    · exact ⟨[], by simpa using hs, by simp⟩
    · refine ⟨':' :: verb, hs, ?_⟩
      intro c hc
      rcases List.mem_cons.mp hc with rfl | hc
      · simp
      · exact notMem_mono (by simp) hverb.2 c hc
  intro before after heq hcount hslash c hc
  rw [hs, ← List.cons_append] at heq
  rcases append_eq_append_cons heq with ⟨mid, hmid, rfl⟩ | ⟨mid, -, rfl⟩
  · rcases List.mem_append.mp hc with hc | hc
    · cases before with
      | nil => cases hmid
      | cons x before =>
        simp only [List.cons_append, List.cons.injEq] at hmid
        obtain ⟨rfl, hmid⟩ := hmid
        rw [List.count_cons_of_ne (by decide), List.count_cons_of_ne (by decide)] at hcount
        exact hw.verbIsLiteral before mid hmid hcount
          (fun h => hslash (List.mem_append_left _ h)) c hc
    · exact hverb c hc
  · exact hverb c (by simp [hc])

/-! ## What passes the checks is derived -/

/-- A scan up to the first stop character determines the text in front of it. -/
theorem eq_of_append_stop {stop a b rest rest' : List Char} {c d : Char}
    (ha : ∀ x ∈ a, x ∉ stop) (hb : ∀ x ∈ b, x ∉ stop) (hc : c ∈ stop) (hd : d ∈ stop)
    (h : a ++ c :: rest = b ++ d :: rest') : a = b := by
  have hcut : (a ++ c :: rest).takeWhile (· ∉ stop) = a :=
    (takeWhile_stop ha (by simpa using hc)).1
  have hcut' : (b ++ d :: rest').takeWhile (· ∉ stop) = b :=
    (takeWhile_stop hb (by simpa using hd)).1
  rw [← hcut, ← hcut', h]

/-- The field path of a variable in a text whose names are identifiers. -/
theorem isFieldPath_dotted {fieldPath : List String} {before rest : List Char} {stop : Char}
    (hnames : ∀ name ∈ fieldPath, name ≠ "" ∧ ∀ c ∈ name.toList, c ∉ ['.', '=', '\x7d'])
    (hstop : stop ∈ ['=', '\x7d'])
    (h : NamesAreIdents (before ++ '\x7b' :: (dotted fieldPath ++ stop :: rest))) :
    IsFieldPath (dotted fieldPath) := by
  obtain ⟨path, stop', rest', heq, hstop', hpath⟩ := h before _ rfl
  have hdotted : ∀ x ∈ dotted fieldPath, x ∉ ['=', '\x7d'] := by
    intro x hx hmem
    rcases mem_intercalate hx with rfl | ⟨text, htext, hxt⟩
    · exact absurd hmem (by decide)
    · obtain ⟨name, hname, rfl⟩ := List.mem_map.mp htext
      exact (hnames name hname).2 x hxt (List.mem_cons_of_mem _ hmem)
  have hplain : ∀ x ∈ path, x ∉ ['=', '\x7d'] := notMem_mono (by simp) hpath.plain
  rwa [eq_of_append_stop hdotted hplain hstop hstop' heq]

theorem Atom.derives {a : Atom} (ha : a.Plain) : Derives .segment a.text := by
  cases a with
  | literal lit =>
    exact .literal ⟨by simpa [Atom.text] using ha.1, notMem_mono (by simp) ha.2⟩
  | single => exact .single
  | catchAll => exact .catchAll

theorem derives_slashed {texts : List (List Char)} (hne : texts ≠ [])
    (h : ∀ x ∈ texts, Derives .segment x) : Derives .segments (slashed texts) := by
  induction texts with
  | nil => exact absurd rfl hne
  | cons x texts ih =>
    cases texts with
    | nil => simpa [slashed] using Derives.one (h x (by simp))
    | cons y texts =>
      rw [slashed_cons_cons]
      exact .cons (h x (by simp))
        (ih (List.cons_ne_nil y texts) fun z hz => h z (List.mem_cons_of_mem _ hz))

theorem Node.Renders.derives {n : Node} {text : List Char} (htext : n.Renders text)
    (hn : n.Parsable) {before after : List Char}
    (h : NamesAreIdents (before ++ (text ++ after))) : Derives .segment text := by
  cases htext with
  | atom a => exact a.derives hn
  | full fieldPath sub =>
    obtain ⟨-, hnames, hsub, hplain, -⟩ := hn
    have hpath : NamesAreIdents (before ++ '\x7b' :: (dotted fieldPath ++
        '=' :: (slashed (sub.map Atom.text) ++ '\x7d' :: after))) := by simpa using h
    refine .variableSub (isFieldPath_dotted hnames (by simp) hpath) ?_
    refine derives_slashed (by simpa using hsub) ?_
    intro x hx
    obtain ⟨a, ha, rfl⟩ := List.mem_map.mp hx
    exact a.derives (hplain a ha)
  | bare fieldPath =>
    obtain ⟨-, hnames, -⟩ := hn
    have hpath : NamesAreIdents (before ++ '\x7b' :: (dotted fieldPath ++ '\x7d' :: after)) := by
      simpa using h
    exact .variable (isFieldPath_dotted hnames (by simp) hpath)

/-- Every text of a list stands somewhere in the joined text. -/
theorem exists_slashed_eq {texts : List (List Char)} {x : List Char} (hx : x ∈ texts) :
    ∃ before after, slashed texts = before ++ (x ++ after) := by
  induction texts with
  | nil => cases hx
  | cons y texts ih =>
    rcases List.mem_cons.mp hx with rfl | hx
    · cases texts with
      | nil => exact ⟨[], [], by simp [slashed]⟩
      | cons z texts => exact ⟨[], '/' :: slashed (z :: texts), slashed_cons_cons x z texts⟩
    · obtain ⟨before, after, hsplit⟩ := ih hx
      cases texts with
      | nil => cases hx
      | cons z texts =>
        refine ⟨y ++ '/' :: before, after, ?_⟩
        rw [slashed_cons_cons, hsplit]
        simp

theorem derives_nodes {nodes : List Node} {texts : List (List Char)} (hne : nodes ≠ [])
    (hparsable : ∀ n ∈ nodes, n.Parsable) (htexts : List.Forall₂ Node.Renders nodes texts)
    {before after : List Char} (h : NamesAreIdents (before ++ (slashed texts ++ after))) :
    Derives .segments (slashed texts) := by
  have hne' : texts ≠ [] := by
    rintro rfl
    cases htexts
    exact hne rfl
  apply derives_slashed hne'
  intro x hx
  obtain ⟨i, hi, rfl⟩ := List.getElem_of_mem hx
  obtain ⟨before', after', hsplit⟩ := exists_slashed_eq hx
  have hlen := htexts.length_eq
  have hx' : NamesAreIdents ((before ++ before') ++ (texts[i] ++ (after' ++ after))) := by
    rw [hsplit] at h
    simpa using h
  exact (htexts.get (by omega) hi).derives (hparsable _ (List.get_mem _ _)) hx'

/-- **What the parser accepts is a template of the grammar iff** its names are identifiers and its
    verb is a literal. -/
theorem PathTemplate.isTemplate_iff {s : String} {t : PathTemplate}
    (h : PathTemplate.parse s = .ok t) :
    IsTemplate s ↔ NamesAreIdents s.toList ∧ VerbIsLiteral s.toList := by
  constructor
  · exact fun hs => ⟨hs.namesAreIdents, hs.verbIsLiteral⟩
  · rintro ⟨hnames, hverb⟩
    obtain ⟨tree, texts, -, hne, hparsable, htexts, hs, hcut⟩ :=
      PathTemplate.exists_tree_of_parse h
    have hnames' : NamesAreIdents (['/'] ++ (slashed texts ++ verbText tree.verb)) := by
      rwa [hs] at hnames
    have hbody : Derives .segments (slashed texts) :=
      derives_nodes hne hparsable htexts hnames'
    refine ⟨slashed texts, hbody, ?_⟩
    cases hv : tree.verb with
    | none =>
      rw [hv] at hs
      exact .inl (by simpa [verbText] using hs)
    | some v =>
      rw [hv] at hs
      obtain ⟨hv_ne, hslash, hcolons⟩ := hcut v hv
      -- the verb stands behind balanced braces, so it holds no character of the grammar
      have hplain := hverb ('/' :: slashed texts) v.toList (by simpa [verbText] using hs)
        (by simp [hbody.balanced.count_eq]) hslash
      refine .inr ⟨v.toList, ⟨by simpa using hv_ne, ?_⟩, ?_, hs⟩
      · intro c hc hmem
        rcases List.mem_cons.mp hmem with rfl | hmem
        · exact hslash hc
        · exact hplain c hc hmem
      · -- nor a second `:`, since the scan has cut at the last one outside braces
        intro hmem
        obtain ⟨front, back, hsplit⟩ := List.append_of_mem hmem
        refine hcolons front back hsplit (Parser.braceDepth_plain fun c hc => ?_)
        exact notMem_mono (by simp) hplain c (by simp [hsplit, hc])

theorem PathTemplate.isTemplate_iff_shelves :
    ∃ t, PathTemplate.parse "/shelves/\x7bshelf\x7d:list" = .ok t ∧
      (IsTemplate "/shelves/\x7bshelf\x7d:list" ↔
        NamesAreIdents "/shelves/\x7bshelf\x7d:list".toList ∧
          VerbIsLiteral "/shelves/\x7bshelf\x7d:list".toList) :=
  ⟨_, rfl, PathTemplate.isTemplate_iff rfl⟩

/-- The verb scan lets braces into a verb. -/
theorem PathTemplate.not_isTemplate :
    ¬ ∀ s t, PathTemplate.parse s = .ok t → IsTemplate s := by
  intro h
  have hverb := (h "/v1/books/\x7bid\x7d:\x7bop\x7d" _ rfl).verbIsLiteral
  exact hverb "/v1/books/\x7bid\x7d".toList "\x7bop\x7d".toList rfl (by decide) (by decide) '\x7b'
    (by decide) (by decide)

end GrpcGw.Template
