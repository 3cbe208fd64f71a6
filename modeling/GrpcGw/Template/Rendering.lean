import Mathlib.Data.List.Forall2
import GrpcGw.Template.WellFormed

/-!
# Path Templates: Trees and their Renderings

A path template as a tree, with its variables in place, and the strings it can be written as. A
variable for one arbitrary segment has two spellings, `{p}` and `{p=*}`; everything else has one.

- `TemplateTree.Renders`: the strings that a tree can be written as.
- `Parser.parseSegmentsWith_rendered`: the segment loop reads back what was written.
- `TemplateTree.WellFormed.parse`: a rendering of a well-formed tree parses to that tree.
-/

namespace GrpcGw.Template

open GrpcGw.Text

/-! ## Trees -/

/-- A segment outside variables. -/
inductive Atom where
  | literal (lit : String)
  | single
  | catchAll
  deriving DecidableEq, Repr

/-- A segment of a template tree. -/
inductive Node where
  | atom (a : Atom)
  | variable (fieldPath : List String) (sub : List Atom)
  deriving DecidableEq, Repr

/-- A template tree. -/
structure TemplateTree where
  nodes : List Node
  verb : Option String
  deriving DecidableEq, Repr

/-- The compiled form of an atom. -/
def Atom.segment : Atom → Segment
  | .literal lit => .literal lit
  | .single => .single
  | .catchAll => .catchAll

/-- The compiled form of a node; a variable gets the number `k`. -/
def Node.segment (k : Nat) : Node → Segment
  | .atom a => a.segment
  | .variable _ _ => .variable k

/-- How many path segments a sub-pattern stands for, where `**` comes last. -/
def subCount (sub : List Atom) : SegmentCount :=
  if .catchAll ∈ sub then .atLeast (sub.length - 1) else .exact sub.length

/-- The entry of a node in the variable table. -/
def Node.specs : Node → List VarSpec
  | .atom _ => []
  | .variable fieldPath sub =>
    [{ fieldPath := fieldPath
       sub := sub.map Atom.segment
       count := subCount sub }]

/-- The compiled form of a list of nodes, with the variables numbered from `k` on. -/
def numbered (k : Nat) : List Node → List Segment
  | [] => []
  | n :: ns => n.segment k :: numbered (k + n.specs.length) ns

/-- The compiled form of a tree. -/
def TemplateTree.template (tree : TemplateTree) (raw : String) : PathTemplate where
  raw := raw
  segments := numbered 0 tree.nodes
  vars := tree.nodes.flatMap Node.specs
  verb := tree.verb

/-! ## Renderings -/

/-- The spelling of an atom. -/
def Atom.text : Atom → List Char
  | .literal lit => lit.toList
  | .single => ['*']
  | .catchAll => ['*', '*']

/-- Texts with a `/` between them. -/
def slashed (texts : List (List Char)) : List Char :=
  ['/'].intercalate texts

/-- A field path with a `.` between its names. -/
def dotted (fieldPath : List String) : List Char :=
  ['.'].intercalate (fieldPath.map String.toList)

/-- The spellings of a node. -/
inductive Node.Renders : Node → List Char → Prop where
  | atom (a : Atom) : Renders (.atom a) a.text
  | full (fieldPath : List String) (sub : List Atom) :
      Renders (.variable fieldPath sub)
        ('\x7b' :: (dotted fieldPath ++ '=' :: (slashed (sub.map Atom.text) ++ ['\x7d'])))
  /-- `{name}` for `{name=*}`. -/
  | bare (fieldPath : List String) :
      Renders (.variable fieldPath [.single]) ('\x7b' :: (dotted fieldPath ++ ['\x7d']))

/-- `:verb`, if there is a verb. -/
def verbText : Option String → List Char
  | some verb => ':' :: verb.toList
  | none => []

/-- The spellings of a tree. -/
def TemplateTree.Renders (tree : TemplateTree) (s : String) : Prop :=
  ∃ texts, List.Forall₂ Node.Renders tree.nodes texts ∧
    s.toList = '/' :: (slashed texts ++ verbText tree.verb)

/-! ## Well-formed trees -/

/-- A literal is not empty and holds no character of the grammar. -/
def Atom.Plain : Atom → Prop
  | .literal lit => lit ≠ "" ∧ ∀ c ∈ lit.toList, c ∉ ['/', '\x7b', '\x7d', '=', '*']
  | _ => True

/-- What the segment parser asks of a node. -/
def Node.Parsable : Node → Prop
  | .atom a => a.Plain
  | .variable fieldPath sub =>
    fieldPath ≠ [] ∧
      (∀ name ∈ fieldPath, name ≠ "" ∧ ∀ c ∈ name.toList, c ∉ ['.', '=', '\x7d']) ∧
      sub ≠ [] ∧ (∀ a ∈ sub, a.Plain) ∧ .catchAll ∉ sub.dropLast

/-- What the verb scan asks of a node: no `:` outside braces, and no brace in a name. -/
def Node.Quiet : Node → Prop
  | .atom a => ':' ∉ a.text
  | .variable fieldPath _ => ∀ name ∈ fieldPath, '\x7b' ∉ name.toList

/-- Whether a node matches an unbounded number of path segments. -/
def Node.unbounded : Node → Bool
  | .atom a => a = .catchAll
  | .variable _ sub => .catchAll ∈ sub

/-- A well-formed template tree. -/
structure TemplateTree.WellFormed (tree : TemplateTree) : Prop where
  nodes_ne_nil : tree.nodes ≠ []
  parsable : ∀ n ∈ tree.nodes, n.Parsable
  quiet : ∀ n ∈ tree.nodes, n.Quiet
  /-- Whatever is unbounded stands last. -/
  bounded_dropLast : ∀ n ∈ tree.nodes.dropLast, n.unbounded = false
  verb : ∀ v ∈ tree.verb, v ≠ "" ∧ ∀ c ∈ v.toList, c ∉ ['/', ':', '\x7b', '\x7d']

/-! ## Texts -/

/-- A text without certain characters is one without fewer of them. -/
theorem notMem_mono {stop stop' text : List Char} (hsub : stop' ⊆ stop)
    (h : ∀ c ∈ text, c ∉ stop) : ∀ c ∈ text, c ∉ stop' :=
  fun c hc hmem => h c hc (hsub hmem)

theorem slashed_cons_cons (x y : List Char) (texts : List (List Char)) :
    slashed (x :: y :: texts) = x ++ '/' :: slashed (y :: texts) := by
  simp [slashed]

theorem slashed_concat (texts : List (List Char)) (x : List Char) :
    slashed (texts ++ [x]) = texts.flatMap (· ++ ['/']) ++ x := by
  induction texts with
  | nil => simp [slashed]
  | cons y texts ih =>
    cases texts with
    | nil => simp [slashed]
    | cons z texts =>
      rw [List.cons_append, List.cons_append, slashed_cons_cons, ← List.cons_append, ih]
      simp

theorem length_le_slashed (texts : List (List Char)) :
    texts.length ≤ (slashed texts).length + 1 := by
  induction texts with
  | nil => simp
  | cons x texts ih =>
    cases texts with
    | nil => simp
    | cons y texts =>
      rw [slashed_cons_cons]
      simp only [List.length_cons, List.length_append] at ih ⊢
      omega

/-- A character of a joined text is the separator or stands in one of the pieces. -/
theorem mem_intercalate {sep c : Char} {texts : List (List Char)}
    (h : c ∈ [sep].intercalate texts) : c = sep ∨ ∃ x ∈ texts, c ∈ x := by
  induction texts with
  | nil => simp at h
  | cons x texts ih =>
    cases texts with
    | nil => exact .inr ⟨x, by simp, by simpa using h⟩
    | cons y texts =>
      rw [List.intercalate_cons_cons, List.append_assoc, List.mem_append, List.mem_append,
        List.mem_singleton] at h
      rcases h with h | h | h
      · exact .inr ⟨x, by simp, h⟩
      · exact .inl h
      · rcases ih h with h | ⟨z, hz, hc⟩
        · exact .inl h
        · exact .inr ⟨z, List.mem_cons_of_mem _ hz, hc⟩

theorem Atom.segment_injective : Function.Injective Atom.segment := by
  intro a b h
  cases a <;> cases b <;> simp [Atom.segment] at h ⊢
  exact h

theorem mem_map_segment {a : Atom} {sub : List Atom} :
    a.segment ∈ sub.map Atom.segment ↔ a ∈ sub :=
  List.mem_map_of_injective Atom.segment_injective

theorem catchAll_notMem_dropLast {sub : List Atom} (hlast : .catchAll ∉ sub.dropLast) :
    Segment.catchAll ∉ (sub.map Atom.segment).dropLast := by
  rw [← List.map_dropLast]
  exact fun h => hlast ((mem_map_segment (a := .catchAll)).mp h)

/-- The count that the parser computes. -/
theorem segmentCount_map {sub : List Atom} (hlast : .catchAll ∉ sub.dropLast) :
    segmentCount (sub.map Atom.segment) = subCount sub := by
  have hmem : Segment.catchAll ∈ sub.map Atom.segment ↔ .catchAll ∈ sub :=
    mem_map_segment (a := .catchAll)
  unfold segmentCount subCount
  by_cases h : Atom.catchAll ∈ sub
  · rw [if_pos (hmem.mpr h), if_pos h]
    -- everything in front of the last segment counts
    obtain ⟨init, last, rfl⟩ := List.eq_nil_or_concat sub |>.resolve_left (by rintro rfl; cases h)
    rw [List.concat_eq_append, List.dropLast_concat] at hlast
    have hlast' : last = .catchAll := by
      rw [List.concat_eq_append, List.mem_append] at h
      exact (List.mem_singleton.mp (h.resolve_left hlast)).symm
    have hinit : (init.map Atom.segment).countP (· ≠ .catchAll) = init.length := by
      rw [List.countP_eq_length.mpr, List.length_map]
      intro s hs
      rw [decide_eq_true_eq]
      rintro rfl
      exact hlast ((mem_map_segment (a := .catchAll)).mp hs)
    simp only [List.concat_eq_append, List.map_append, List.countP_append, hinit, hlast',
      List.length_append]
    rfl
  · rw [if_neg (fun hc => h (hmem.mp hc)), if_neg h, List.countP_eq_length.mpr, List.length_map]
    intro s hs
    rw [decide_eq_true_eq]
    rintro rfl
    exact h (hmem.mp hs)

theorem numbered_append (k : Nat) (ns ms : List Node) :
    numbered k (ns ++ ms) =
      numbered k ns ++ numbered (k + (ns.flatMap Node.specs).length) ms := by
  induction ns generalizing k with
  | nil => rfl
  | cons n ns ih =>
    simp [numbered, ih, Nat.add_assoc]

theorem numbered_atoms (k : Nat) (sub : List Atom) :
    numbered k (sub.map Node.atom) = sub.map Atom.segment := by
  induction sub generalizing k with
  | nil => rfl
  | cons a sub ih => simp [numbered, Node.segment, Node.specs, ih]

theorem specs_atoms (sub : List Atom) : (sub.map Node.atom).flatMap Node.specs = [] := by
  induction sub with
  | nil => rfl
  | cons a sub ih => simp [Node.specs]

theorem numbered_injective {k : Nat} {ns ms : List Node} (hseg : numbered k ns = numbered k ms)
    (hspec : ns.flatMap Node.specs = ms.flatMap Node.specs) : ns = ms := by
  induction ns generalizing k ms with
  | nil =>
    cases ms with
    | nil => rfl
    | cons m ms => cases hseg
  | cons n ns ih =>
    cases ms with
    | nil => cases hseg
    | cons m ms =>
      simp only [numbered, List.cons.injEq] at hseg
      obtain ⟨hhead, htail⟩ := hseg
      cases n with
      | atom a =>
        cases m with
        | atom b =>
          cases Atom.segment_injective hhead
          rw [ih htail hspec]
        | «variable» path sub => cases a <;> cases hhead
      | «variable» path sub =>
        cases m with
        | atom b => cases b <;> cases hhead
        | «variable» path' sub' =>
          simp only [Node.specs, List.flatMap_cons, List.singleton_append, List.cons.injEq,
            VarSpec.mk.injEq] at hspec
          obtain ⟨⟨rfl, hsub, -⟩, hspec⟩ := hspec
          -- the sub-patterns agree atom by atom
          cases List.map_injective_iff.mpr Atom.segment_injective hsub
          rw [ih htail hspec]

/-- A compiled template determines its tree. -/
theorem TemplateTree.template_injective {tree tree' : TemplateTree} {raw : String}
    (h : tree.template raw = tree'.template raw) : tree = tree' := by
  obtain ⟨nodes, verb⟩ := tree
  obtain ⟨nodes', verb'⟩ := tree'
  simp only [TemplateTree.template, PathTemplate.mk.injEq, true_and] at h
  obtain ⟨hseg, hspec, rfl⟩ := h
  rw [numbered_injective hseg hspec]

/-! ## Reading a rendering -/

/-- What stands behind a segment: the end, or a character that ends a literal. -/
def Stops (rest : List Char) : Prop :=
  ∀ c ∈ rest.head?, c ∈ Parser.literalStop

theorem stops_cons {c : Char} (hc : c ∈ Parser.literalStop) (rest : List Char) :
    Stops (c :: rest) := by
  intro x hx
  cases hx
  exact hc

/-- A scan up to the first stop character takes a text without one. -/
theorem takeWhile_stop {stop text rest : List Char} (htext : ∀ c ∈ text, c ∉ stop)
    (hrest : ∀ c ∈ rest.head?, c ∈ stop) :
    (text ++ rest).takeWhile (· ∉ stop) = text ∧ (text ++ rest).dropWhile (· ∉ stop) = rest := by
  have hkeep : ∀ c ∈ text, decide (c ∉ stop) = true := fun c hc => decide_eq_true (htext c hc)
  rw [List.takeWhile_append_of_pos hkeep, List.dropWhile_append_of_pos hkeep]
  cases rest with
  | nil => simp
  | cons c rest =>
    have hc : c ∈ stop := hrest c rfl
    simp [hc]

namespace Parser

/-- A parsing function reads a node in front of any text that stops it. -/
def Reads (parseSegment : Parser → Except TemplateError (Segment × Parser)) (n : Node) : Prop :=
  ∀ text p rest, n.Renders text → Stops rest → p.rest = text ++ rest →
    parseSegment p =
      .ok (n.segment p.vars.length, { p with rest := rest, vars := p.vars ++ n.specs })

theorem parseLiteral_append {p : Parser} {lit : String} {rest : List Char}
    (hlit : (Atom.literal lit).Plain) (hrest : Stops rest) (hp : p.rest = lit.toList ++ rest) :
    p.parseLiteral = .ok (.literal lit, { p with rest := rest }) := by
  obtain ⟨hne, hplain⟩ := hlit
  have hstop : ∀ c ∈ lit.toList, c ∉ literalStop :=
    notMem_mono (by simp [literalStop]) hplain
  obtain ⟨htake, hdrop⟩ := takeWhile_stop hstop hrest
  have hstar : '*' ∉ lit.toList := fun hmem => hplain '*' hmem (by simp)
  unfold parseLiteral
  simp only [hp, htake, hdrop]
  rw [if_neg (by simpa using hne), if_neg hstar, String.ofList_toList]

theorem reads_atom (onBrace : Parser → Except TemplateError (Segment × Parser)) {a : Atom}
    (ha : a.Plain) : Reads (parseSegmentWith onBrace) (.atom a) := by
  rintro text p rest ⟨⟩ hrest hp
  have hsame : ({ p with rest := rest, vars := p.vars ++ (Node.atom a).specs } : Parser) =
      { p with rest := rest } := by simp [Node.specs]
  rw [hsame]
  cases a with
  | catchAll =>
    unfold parseSegmentWith
    rw [hp]
    rfl
  | single =>
    unfold parseSegmentWith
    rw [hp]
    cases rest with
    | nil => rfl
    | cons c rest =>
      -- what follows is no second `*`
      have hc : c ≠ '*' := by
        rintro rfl
        exact absurd (hrest '*' rfl) (by decide)
      simp only [Atom.text, List.singleton_append]
      split
      · next heq =>
        simp only [List.cons.injEq] at heq
        exact absurd heq.2.1 hc
      · next heq =>
        cases heq
        rfl
      · next heq => cases heq
      · next hstar _ => exact absurd rfl (hstar _)
  | literal lit =>
    -- the first character of the literal decides for `parse_literal`
    have hparse := parseLiteral_append (p := p) ha hrest hp
    obtain ⟨hne, hplain⟩ := ha
    unfold parseSegmentWith
    obtain ⟨c, cs, hcs⟩ := List.exists_cons_of_ne_nil (show lit.toList ≠ [] by simpa using hne)
    have hc := hplain c (by simp [hcs])
    have hhead : p.rest = c :: (cs ++ rest) := by rw [hp, Atom.text, hcs, List.cons_append]
    split
    · next heq =>
      rw [hhead, List.cons.injEq] at heq
      simp [heq.1] at hc
    · next heq =>
      rw [hhead, List.cons.injEq] at heq
      simp [heq.1] at hc
    · next heq =>
      rw [hhead, List.cons.injEq] at heq
      simp [heq.1] at hc
    · exact hparse

theorem isCatchAll_segment (p : Parser) (n : Node) (rest : List Char) :
    ({ p with rest := rest, vars := p.vars ++ n.specs } : Parser).isCatchAll
      (n.segment p.vars.length) = n.unbounded := by
  cases n with
  | atom a => cases a <;> rfl
  | «variable» path sub =>
    by_cases h : Atom.catchAll ∈ sub
    · simp [isCatchAll, Node.segment, Node.specs, Node.unbounded, subCount, h,
        SegmentCount.isAtLeast]
    · simp [isCatchAll, Node.segment, Node.specs, Node.unbounded, subCount, h,
        SegmentCount.isAtLeast]

/-- **The segment loop reads back what was written**, in front of a text that is no further
    segment. -/
theorem parseSegmentsWith_rendered
    {parseSegment : Parser → Except TemplateError (Segment × Parser)} {nodes : List Node}
    (hne : nodes ≠ []) (hreads : ∀ n ∈ nodes, Reads parseSegment n)
    (hbounded : ∀ n ∈ nodes.dropLast, n.unbounded = false) {texts : List (List Char)}
    (htexts : List.Forall₂ Node.Renders nodes texts) {p : Parser} {rest : List Char}
    (hp : p.rest = slashed texts ++ rest) (hrest : Stops rest) (hslash : rest.head? ≠ some '/')
    {fuel : Nat} (hfuel : nodes.length ≤ fuel) (segs : List Segment) :
    parseSegmentsWith parseSegment fuel p segs =
      .ok (segs ++ numbered p.vars.length nodes,
        { p with rest := rest, vars := p.vars ++ nodes.flatMap Node.specs }) := by
  induction htexts generalizing p fuel segs with
  | nil => exact absurd rfl hne
  | @cons n text nodes texts htext htexts ih =>
    obtain ⟨fuel, rfl⟩ : ∃ m, fuel = m + 1 :=
      Nat.exists_eq_add_one_of_ne_zero (by rw [List.length_cons] at hfuel; omega)
    rw [parseSegmentsWith]
    cases htexts with
    | nil =>
      -- the last segment, and the loop ends
      rw [hreads n (by simp) text p rest htext hrest (by simpa [slashed] using hp)]
      simp only [bind, Except.bind, numbered, List.flatMap_cons, List.flatMap_nil, List.append_nil]
      split
      · exact absurd rfl hslash
      · rfl
    | @cons m text' nodes texts hm htexts =>
      -- behind a bounded segment and a `/`, the loop goes on
      rw [slashed_cons_cons, List.append_assoc, List.cons_append] at hp
      rw [hreads n (by simp) text p _ htext (stops_cons (by decide) _) hp]
      have hcatch := isCatchAll_segment p n ('/' :: (slashed (text' :: texts) ++ rest))
      rw [hbounded n (by simp)] at hcatch
      simp only [bind, Except.bind, hcatch, Bool.false_eq_true, if_false]
      rw [ih (by simp) (fun k hk => hreads k (List.mem_cons_of_mem _ hk))
        (fun k hk => hbounded k (by
          rw [List.dropLast_cons_of_ne_nil (by simp)]
          exact List.mem_cons_of_mem _ hk))
        (p := { p with rest := slashed (text' :: texts) ++ rest, vars := p.vars ++ n.specs })
        rfl (by simpa using hfuel)]
      simp [numbered]

/-! ### Variables -/

/-- A dotted field path splits into its names. -/
theorem splitOn_dotted {fieldPath : List String} (hne : fieldPath ≠ [])
    (hdot : ∀ name ∈ fieldPath, '.' ∉ name.toList) :
    (dotted fieldPath).splitOn '.' = fieldPath.map String.toList := by
  apply List.splitOn_intercalate
  · intro name hname hmem
    obtain ⟨s, hs, rfl⟩ := List.mem_map.mp hname
    exact hdot s hs hmem
  · simpa using hne

theorem parseFieldPath_append {p : Parser} {fieldPath : List String} {rest : List Char}
    (hne : fieldPath ≠ [])
    (hnames : ∀ name ∈ fieldPath, name ≠ "" ∧ ∀ c ∈ name.toList, c ∉ ['.', '=', '\x7d'])
    (hrest : ∃ c tail, rest = c :: tail ∧ c ∈ ['=', '\x7d'])
    (hp : p.rest = dotted fieldPath ++ rest) :
    p.parseFieldPath = .ok (fieldPath, { p with rest := rest }) := by
  obtain ⟨c, tail, rfl, hc⟩ := hrest
  have hsplit := splitOn_dotted hne fun s hs hmem => (hnames s hs).2 '.' hmem (by simp)
  -- the scan passes over the path and stops behind it
  have hstop : ∀ x ∈ dotted fieldPath, x ∉ ['=', '\x7d'] := by
    intro x hx hmem
    rcases mem_intercalate hx with rfl | ⟨name, hname, hmem'⟩
    · exact absurd hmem (by decide)
    · obtain ⟨s, hs, rfl⟩ := List.mem_map.mp hname
      exact (hnames s hs).2 x hmem' (List.mem_cons_of_mem _ hmem)
  have hhead : ∀ x ∈ (c :: tail).head?, x ∈ ['=', '\x7d'] := by
    intro x hx
    cases hx
    exact hc
  obtain ⟨htake, hdrop⟩ := takeWhile_stop hstop hhead
  have hparts : [] ∉ (dotted fieldPath).splitOn '.' := by
    rw [hsplit]
    intro hmem
    obtain ⟨s, hs, hsnil⟩ := List.mem_map.mp hmem
    exact (hnames s hs).1 (by simpa using hsnil)
  -- the empty text has an empty part
  have hempty : dotted fieldPath ≠ [] := by
    intro hnil
    rw [hnil] at hparts
    exact hparts List.mem_cons_self
  unfold parseFieldPath
  simp only [hp, htake, hdrop]
  rw [if_neg (by simp), if_neg hempty, if_neg hparts, hsplit, List.map_map]
  simp [Function.comp_def]

theorem parseSubPattern_append {p : Parser} {sub : List Atom} {rest : List Char} (hne : sub ≠ [])
    (hplain : ∀ a ∈ sub, a.Plain) (hlast : .catchAll ∉ sub.dropLast)
    (hp : p.rest = slashed (sub.map Atom.text) ++ '\x7d' :: rest) :
    p.parseSubPattern = .ok (sub.map Atom.segment, { p with rest := '\x7d' :: rest }) := by
  have htexts : List.Forall₂ Node.Renders (sub.map Node.atom) (sub.map Atom.text) := by
    rw [List.forall₂_map_left_iff, List.forall₂_map_right_iff, List.forall₂_same]
    exact fun a _ => .atom a
  have hbounded : ∀ n ∈ (sub.map Node.atom).dropLast, n.unbounded = false := by
    intro n hn
    rw [← List.map_dropLast] at hn
    obtain ⟨a, ha, rfl⟩ := List.mem_map.mp hn
    have : a ≠ .catchAll := fun heq => hlast (heq ▸ ha)
    simpa [Node.unbounded] using this
  have hlen : (sub.map Node.atom).length ≤ p.rest.length + 1 := by
    have := length_le_slashed (sub.map Atom.text)
    rw [hp, List.length_append, List.length_map]
    rw [List.length_map] at this
    omega
  have hreads : ∀ n ∈ sub.map Node.atom, Reads (parseSegmentWith fun p =>
      .error (p.err "nested variable '\x7b' inside a variable")) n := by
    intro n hn
    obtain ⟨a, ha, rfl⟩ := List.mem_map.mp hn
    exact reads_atom _ (hplain a ha)
  have hloop := parseSegmentsWith_rendered (by simpa using hne) hreads hbounded htexts hp
    (stops_cons (by decide) _) (by simp) hlen []
  rw [parseSubPattern, hloop, numbered_atoms, specs_atoms, List.nil_append, List.append_nil]

/-- The check of `parse_variable` on the place of `**` passes. -/
theorem findIdx?_catchAll {sub : List Segment} (hlast : .catchAll ∉ sub.dropLast) :
    (sub.findIdx? (· = .catchAll)).any (· ≠ sub.length - 1) = false := by
  cases hfind : sub.findIdx? (· = .catchAll) with
  | none => rfl
  | some k =>
    obtain ⟨hk, hget, -⟩ := List.findIdx?_eq_some_iff_getElem.mp hfind
    have hge : ¬ k < sub.length - 1 := by
      intro hlt
      apply hlast
      have hmem := List.getElem_mem (l := sub.dropLast) (by rw [List.length_dropLast]; exact hlt)
      rw [List.getElem_dropLast] at hmem
      rwa [of_decide_eq_true hget] at hmem
    simp only [Option.any_some, ne_eq, decide_eq_false_iff_not, Decidable.not_not]
    omega

theorem parseSub_append {p : Parser} {sub : List Atom} {rest : List Char} (hne : sub ≠ [])
    (hplain : ∀ a ∈ sub, a.Plain) (hlast : .catchAll ∉ sub.dropLast)
    (hp : p.rest = '=' :: (slashed (sub.map Atom.text) ++ '\x7d' :: rest) ∨
      sub = [.single] ∧ p.rest = '\x7d' :: rest) :
    p.parseSub = .ok (sub.map Atom.segment, { p with rest := '\x7d' :: rest }) := by
  unfold parseSub
  rcases hp with hp | ⟨rfl, hp⟩
  · rw [hp]
    exact parseSubPattern_append hne hplain hlast rfl
  · have hsame : ({ p with rest := '\x7d' :: rest } : Parser) = p := by rw [← hp]
    rw [hsame, hp]
    rfl

theorem reads_variable {fieldPath : List String} {sub : List Atom}
    (hn : (Node.variable fieldPath sub).Parsable) :
    Reads parseVariable (.variable fieldPath sub) := by
  obtain ⟨hne, hnames, hsub, hplain, hlast⟩ := hn
  intro text p rest htext _ hp
  -- both spellings are a field path and what `parse_sub` reads
  obtain ⟨tail, htail, hpath, hrest⟩ : ∃ tail,
      (tail = '=' :: (slashed (sub.map Atom.text) ++ '\x7d' :: rest) ∨
        sub = [.single] ∧ tail = '\x7d' :: rest) ∧
      (∃ c cs, tail = c :: cs ∧ c ∈ ['=', '\x7d']) ∧
      p.rest.tail = dotted fieldPath ++ tail := by
    cases htext with
    | full => exact ⟨_, .inl rfl, ⟨_, _, rfl, by decide⟩, by simp [hp]⟩
    | bare => exact ⟨_, .inr ⟨rfl, rfl⟩, ⟨_, _, rfl, by decide⟩, by simp [hp]⟩
  unfold parseVariable
  rw [parseFieldPath_append (p := { p with rest := p.rest.tail }) hne hnames hpath hrest]
  simp only [bind, Except.bind]
  rw [parseSub_append (p := { p with rest := tail }) hsub hplain hlast htail]
  simp only [findIdx?_catchAll (catchAll_notMem_dropLast hlast), Bool.false_eq_true, if_false,
    segmentCount_map hlast]
  rfl

theorem reads_node {n : Node} (hn : n.Parsable) : Reads (parseSegmentWith parseVariable) n := by
  cases n with
  | atom a => exact reads_atom parseVariable hn
  | «variable» path sub =>
    intro text p rest htext hrest hp
    have hbrace : ∃ tail, p.rest = '\x7b' :: tail := by
      cases htext with
      | full => exact ⟨_, hp⟩
      | bare => exact ⟨_, hp⟩
    obtain ⟨tail, htail⟩ := hbrace
    rw [parseSegmentWith, htail]
    exact reads_variable hn text p rest htext hrest hp

theorem parseSegments_rendered {p : Parser} {nodes : List Node} (hne : nodes ≠ [])
    (hparsable : ∀ n ∈ nodes, n.Parsable)
    (hbounded : ∀ n ∈ nodes.dropLast, n.unbounded = false) {texts : List (List Char)}
    (htexts : List.Forall₂ Node.Renders nodes texts) (hp : p.rest = slashed texts) :
    p.parseSegments =
      .ok (numbered p.vars.length nodes,
        { p with rest := [], vars := p.vars ++ nodes.flatMap Node.specs }) := by
  have hlen : nodes.length ≤ p.rest.length + 1 := by
    rw [hp, htexts.length_eq]
    exact length_le_slashed texts
  have hstops : Stops [] := by simp [Stops]
  exact parseSegmentsWith_rendered hne (fun n hn => reads_node (hparsable n hn)) hbounded htexts
    (by simpa using hp) hstops (by simp) hlen []

/-! ### The verb -/

theorem verbColon_append {text : List Char} (hbrace : ∀ c ∈ text, c ∉ ['\x7b', '\x7d'])
    {depth : Nat} (hcolon : ':' ∉ text ∨ depth ≠ 0) (rest : List Char) (i : Nat)
    (found : Option Nat) :
    verbColon (text ++ rest) depth i found = verbColon rest depth (i + text.length) found := by
  induction text generalizing i with
  | nil => rfl
  | cons c text ih =>
    have hc := hbrace c (by simp)
    have hplain : ¬ (c = ':' ∧ depth = 0) := by
      rintro ⟨rfl, hdepth⟩
      rcases hcolon with hcolon | hcolon
      · exact hcolon (by simp)
      · exact hcolon hdepth
    simp only [List.mem_cons, List.not_mem_nil, or_false, not_or] at hc
    -- neither a brace nor a colon that counts
    rw [List.cons_append, verbColon, if_neg hc.1, if_neg hc.2, if_neg hplain,
      ih (fun x hx => hbrace x (List.mem_cons_of_mem _ hx))
        (hcolon.imp_left fun h hmem => h (List.mem_cons_of_mem _ hmem)), List.length_cons]
    congr 1
    omega

/-- The verb scan passes over a text: it finds no colon outside braces and is outside braces
    again behind it. -/
def Skips (text : List Char) : Prop :=
  ∀ rest i found, verbColon (text ++ rest) 0 i found = verbColon rest 0 (i + text.length) found

theorem skips_plain {text : List Char} (hbrace : ∀ c ∈ text, c ∉ ['\x7b', '\x7d'])
    (hcolon : ':' ∉ text) : Skips text :=
  verbColon_append hbrace (.inl hcolon)

theorem skips_braces {text : List Char} (hbrace : ∀ c ∈ text, c ∉ ['\x7b', '\x7d']) :
    Skips ('\x7b' :: (text ++ ['\x7d'])) := by
  intro rest i found
  rw [List.cons_append, List.append_assoc, List.singleton_append, verbColon, if_pos rfl,
    verbColon_append hbrace (.inr (Nat.succ_ne_zero 0)), verbColon, if_neg (by decide), if_pos rfl]
  congr 1
  simp only [List.length_cons, List.length_append, List.length_nil]
  omega

theorem Skips.append {text text' : List Char} (h : Skips text) (h' : Skips text') :
    Skips (text ++ text') := by
  intro rest i found
  rw [List.append_assoc, h, h', List.length_append, Nat.add_assoc]

theorem skips_slashed {texts : List (List Char)} (h : ∀ x ∈ texts, Skips x) :
    Skips (slashed texts) := by
  induction texts with
  | nil => exact skips_plain (by simp [slashed]) (by simp [slashed])
  | cons x texts ih =>
    cases texts with
    | nil => simpa [slashed] using h x (by simp)
    | cons y texts =>
      rw [slashed_cons_cons, ← List.singleton_append]
      exact (h x (by simp)).append ((skips_plain (by simp) (by simp)).append
        (ih fun z hz => h z (List.mem_cons_of_mem _ hz)))

/-- A plain atom is spelled without braces. -/
theorem not_brace_text {a : Atom} (ha : a.Plain) : ∀ c ∈ a.text, c ∉ ['\x7b', '\x7d'] := by
  cases a with
  | literal lit => exact notMem_mono (by simp) ha.2
  | single => simp [Atom.text]
  | catchAll => simp [Atom.text]

theorem not_brace_slashed {sub : List Atom} (hplain : ∀ a ∈ sub, a.Plain) :
    ∀ c ∈ slashed (sub.map Atom.text), c ∉ ['\x7b', '\x7d'] := by
  intro c hc
  rcases mem_intercalate hc with rfl | ⟨text, htext, hmem⟩
  · decide
  · obtain ⟨a, ha, rfl⟩ := List.mem_map.mp htext
    exact not_brace_text (hplain a ha) c hmem

/-- No field name holds a brace: the scan would have counted an opening one, and a closing one
    ends the path. -/
theorem not_brace_dotted {fieldPath : List String}
    (hnames : ∀ name ∈ fieldPath, name ≠ "" ∧ ∀ c ∈ name.toList, c ∉ ['.', '=', '\x7d'])
    (hopen : ∀ name ∈ fieldPath, '\x7b' ∉ name.toList) :
    ∀ c ∈ dotted fieldPath, c ∉ ['\x7b', '\x7d'] := by
  intro c hc hmem
  rcases mem_intercalate hc with rfl | ⟨text, htext, hct⟩
  · exact absurd hmem (by simp)
  · obtain ⟨name, hname, rfl⟩ := List.mem_map.mp htext
    rcases List.mem_cons.mp hmem with rfl | hmem
    · exact hopen name hname hct
    · exact notMem_mono (by simp) (hnames name hname).2 c hct hmem

theorem skips_node {n : Node} (hn : n.Parsable) (hquiet : n.Quiet) {text : List Char}
    (htext : n.Renders text) : Skips text := by
  cases htext with
  | atom a => exact skips_plain (not_brace_text hn) hquiet
  | full fieldPath sub =>
    obtain ⟨-, hnames, -, hplain, -⟩ := hn
    have hbody : ∀ c ∈ dotted fieldPath ++ '=' :: slashed (sub.map Atom.text),
        c ∉ ['\x7b', '\x7d'] := by
      intro c hc
      rcases List.mem_append.mp hc with hc | hc
      · exact not_brace_dotted hnames hquiet c hc
      · rcases List.mem_cons.mp hc with rfl | hc
        · decide
        · exact not_brace_slashed hplain c hc
    simpa using skips_braces hbody
  | bare fieldPath =>
    obtain ⟨-, hnames, -⟩ := hn
    exact skips_braces (not_brace_dotted hnames hquiet)

theorem skips_texts {nodes : List Node} {texts : List (List Char)}
    (htexts : List.Forall₂ Node.Renders nodes texts)
    (hnodes : ∀ n ∈ nodes, n.Parsable ∧ n.Quiet) : ∀ x ∈ texts, Skips x := by
  induction htexts with
  | nil => simp
  | @cons n text nodes texts htext htexts ih =>
    intro x hx
    rcases List.mem_cons.mp hx with rfl | hx
    · obtain ⟨hn, hquiet⟩ := hnodes n (by simp)
      exact skips_node hn hquiet htext
    · exact ih (fun m hm => hnodes m (List.mem_cons_of_mem _ hm)) x hx

theorem splitVerb_rendered {p : Parser} {body : List Char} {verb : Option String}
    (hbody : Skips body)
    (hverb : ∀ v ∈ verb, v ≠ "" ∧ ∀ c ∈ v.toList, c ∉ ['/', ':', '\x7b', '\x7d'])
    (hp : p.rest = body ++ verbText verb) :
    p.splitVerb = .ok (verb, { p with rest := body }) := by
  unfold splitVerb
  cases verb with
  | none =>
    have hscan : verbColon p.rest 0 0 none = none := by
      rw [hp, hbody]
      rfl
    have hrest : p.rest = body := by simpa [verbText] using hp
    rw [hscan, ← hrest]
  | some v =>
    obtain ⟨hne, hplain⟩ := hverb v rfl
    -- nothing in the verb moves the last colon on
    have hscan : verbColon p.rest 0 0 none = some body.length := by
      have hskip : Skips v.toList :=
        skips_plain (notMem_mono (by simp) hplain) (fun hmem => hplain ':' hmem (by simp))
      have hend := hskip [] (body.length + 1) (some body.length)
      rw [List.append_nil, verbColon] at hend
      rw [hp, hbody, verbText, verbColon, if_neg (by decide), if_neg (by decide),
        if_pos ⟨rfl, rfl⟩, Nat.zero_add, hend]
    obtain ⟨htake, hdrop⟩ := take_drop_of_eq hp
    have hslash : '/' ∉ v.toList := fun hmem => hplain '/' hmem (by simp)
    rw [hscan]
    simp only [hdrop, htake]
    rw [if_neg (by simpa using hne), if_neg hslash, String.ofList_toList]

end Parser

/-- **A rendering of a well-formed tree parses to that tree.** -/
theorem TemplateTree.WellFormed.parse {tree : TemplateTree} (hwf : tree.WellFormed) {s : String}
    (h : tree.Renders s) : PathTemplate.parse s = .ok (tree.template s) := by
  obtain ⟨texts, htexts, hs⟩ := h
  -- the scan for the verb passes over the segments
  have hskips := Parser.skips_texts htexts fun n hn => ⟨hwf.parsable n hn, hwf.quiet n hn⟩
  have hslash : Parser.Skips ['/'] := Parser.skips_plain (by simp) (by simp)
  have hbody : Parser.Skips ('/' :: slashed texts) :=
    hslash.append (Parser.skips_slashed hskips)
  have hverb := Parser.splitVerb_rendered (p := Parser.new s) hbody hwf.verb hs
  have hsegs := Parser.parseSegments_rendered (p := { Parser.new s with rest := slashed texts })
    hwf.nodes_ne_nil hwf.parsable hwf.bounded_dropLast htexts rfl
  have hne : numbered (Parser.new s).vars.length tree.nodes ≠ [] := by
    obtain ⟨n, ns, hns⟩ := List.exists_cons_of_ne_nil hwf.nodes_ne_nil
    simp [hns, numbered]
  have hhead : (Parser.new s).rest.head? = some '/' := by
    rw [Parser.new, hs]
    rfl
  unfold PathTemplate.parse Parser.parse
  rw [if_neg (by simp [hhead])]
  simp only [bind, Except.bind, pure, Except.pure, hverb, List.tail_cons, hsegs]
  rw [if_neg (by simp), if_neg hne]
  rfl

end GrpcGw.Template
