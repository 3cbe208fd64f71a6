import GrpcGw.Service.Strict
import GrpcGw.Template.Values

/-!
# What a Client Can Send

A client that has a message looks for a request: some of its leaves become the values of path
variables, the others become parameters.

- `exists_spelling`: the leaves of a message, dealt out to variables and parameters.
- `strict_exists_request`: under strict routes there is a request for the message.
-/

namespace GrpcGw.Service

open GrpcGw.Text
open GrpcGw.Pattern
open GrpcGw.Reflect
open GrpcGw.Template
open GrpcGw.Rules
open GrpcGw.Routes
open GrpcGw.Transcode

/-! ## Dealing out the leaves -/

/-- A variable stands for just one of the leaves, and takes a text of its value. -/
def StandsForLeaf (ls : List Leaf) (var : VarSpec) : Prop :=
  ∃ leaf text, ls.filter (·.path = var.fieldPath) = [leaf] ∧
    parseScalar leaf.kind text = some leaf.value ∧ var.Takes text

/-- A leaf that can be a parameter. -/
def Leaf.IsParameter (leaf : Leaf) : Prop :=
  Spellable leaf.kind leaf.value ∧ leaf.path ≠ [] ∧ ∀ name ∈ leaf.path, '.' ∉ name.toList

/-- **The leaves of a message, dealt out**: the variables get those that they stand for, and the
    parameters get the others. -/
theorem exists_spelling {vars : List VarSpec} (hnodup : (vars.map VarSpec.fieldPath).Nodup)
    {ls : List Leaf} (hvars : ∀ var ∈ vars, StandsForLeaf ls var)
    (hleaves : ∀ leaf ∈ ls, Leaf.IsParameter leaf) :
    ∃ caps params l, List.Forall₂ VarSpec.MayCapture vars caps ∧ List.Forall₂ SpelledBy ls l ∧
      KeyedReorder Binding.path l (captureBindings caps ++ parameterBindings params) := by
  induction vars generalizing ls with
  | nil =>
    obtain ⟨params, hparams⟩ := exists_params hleaves
    exact ⟨[], params, _, .nil, hparams, fun _ => rfl⟩
  | cons var vars ih =>
    rw [List.map_cons, List.nodup_cons] at hnodup
    obtain ⟨leaf, text, hfilter, htext, htakes⟩ := hvars var List.mem_cons_self
    -- take the leaf of the first variable out
    obtain ⟨ls₁, ls₂, rfl, hbefore, hpath, hafter⟩ := List.filter_eq_cons_iff.mp hfilter
    have hpath : leaf.path = var.fieldPath := by simpa using hpath
    have hbefore : ∀ x ∈ ls₁, x.path ≠ var.fieldPath := fun x hx => by simpa using hbefore x hx
    have hrest : ∀ var' ∈ vars, StandsForLeaf (ls₁ ++ ls₂) var' := by
      intro var' hvar'
      obtain ⟨leaf', text', hfilter', htext', htakes'⟩ := hvars var' (List.mem_cons_of_mem _ hvar')
      have hne : leaf.path ≠ var'.fieldPath := by
        intro heq
        exact hnodup.1 (hpath ▸ heq ▸ List.mem_map_of_mem hvar')
      refine ⟨leaf', text', ?_, htext', htakes'⟩
      rwa [List.filter_append, List.filter_cons_of_neg (by simpa using hne),
        ← List.filter_append] at hfilter'
    obtain ⟨caps, params, l, hcaps, hl, hreorder⟩ := ih hnodup.2 hrest fun x hx =>
      hleaves x (by simp only [List.mem_append, List.mem_cons] at hx ⊢; tauto)
    obtain ⟨l₁, l₂, rfl, hl₁, hl₂⟩ := forall₂_append_left hl
    refine ⟨(var.fieldPath, text) :: caps, params,
      l₁ ++ ⟨.overwrite, var.fieldPath, text⟩ :: l₂, .cons ⟨rfl, htakes⟩ hcaps, ?_, ?_⟩
    · exact List.rel_append hl₁ (.cons ⟨hpath.symm, htext⟩ hl₂)
    · refine hreorder.cons_middle fun b hb => ?_
      obtain ⟨x, hx, hspelled, -⟩ := exists_leaf_of_spelled hl₁ hb
      rw [hspelled]
      exact hbefore x hx

/-! ## A request -/

section Request

variable {codec : Codec} {b : GatewayBuilder} {g : Gateway}

/-- **Under strict routes there is a request for every message** that the leaves outside the body
    complete: if the variables of a binding stand for leaves of the message, and the leaves that the
    body leaves out can be parameters, then some path has the method called with that message. -/
theorem strict_exists_request (hbuild : b.build codec = .ok g)
    (hstrict : b.options.strictRoutes = true) (hpaths : (grpcPaths g.pool).Nodup) {d : Declaration}
    (hd : d ∈ declarations g.pool b.options.unboundMethods)
    (hupper : toAsciiUppercase d.binding.httpMethod = d.binding.httpMethod)
    (hunary : d.method.isServerStreaming = false) (hselector : d.binding.body ≠ .wildcard)
    {t : PathTemplate} (hparse : PathTemplate.parse d.binding.httpPath = .ok t)
    (hverb : ∀ v ∈ t.verb, ':' ∉ v.toList ∧ '?' ∉ v.toList)
    (hnodup : (t.vars.map VarSpec.fieldPath).Nodup) {msg : DynamicMessage}
    {p : Nat → Bool} (hsend : SendableOutside g.pool msg p) (hwt : WellTyped g.pool msg)
    (hdesc : msg.desc = d.method.input) {body : Bytes}
    (hbody : (d.entry t).decodeBody codec g.pool body g.json = .ok (restrict msg p))
    (hvars : ∀ var ∈ t.vars, StandsForLeaf (leavesOutside g.pool msg p) var)
    (hleaves : ∀ leaf ∈ leavesOutside g.pool msg p, Leaf.IsParameter leaf) (headers : Headers) :
    ∃ path, g.handle codec d.binding.httpMethod path headers body =
      match g.backend.unary (grpcPath d.service d.method) (codec.encodeMessage g.pool msg)
          (forwardedMetadata headers) with
      | .error err => some (errorResponse .unavailable err)
      | .ok reply => some ((d.entry t).renderReply codec g.pool reply g.json) := by
  obtain ⟨caps, params, l, hcaps, hl, hreorder⟩ := exists_spelling hnodup hvars hleaves
  obtain ⟨a, rfl⟩ := (PathTemplate.parse_wellFormed hparse).exists_assignment hcaps
  have hsplit := splitQuery_append
    (question_notMem_requestPath .upper (fun v hv => (hverb v hv).2) a) (encodeQuery .upper params)
  have hselect := strict_select_own hbuild hstrict hpaths hd hupper hparse
    (fun v hv => (hverb v hv).1) hsplit
  have hentry : (d.entry t).body ≠ .wildcard := hselector
  exact ⟨_, Gateway.handle_of_leaves hselect hunary hentry hsend hwt hdesc hbody
    (formQuery_encodeQuery .upper params) hsplit hl hreorder headers⟩

end Request

/-- There is a request for the review. -/
theorem strict_exists_request_review : ∃ g, strictBuilder.build (.ofPool reviewPool) = .ok g ∧
    ∃ path, g.handle (.ofPool reviewPool) "GET" path [] [] =
      some (errorResponse .unavailable "down") := by
  obtain ⟨g, hg, hpool, hbackend, hpaths⟩ := strict_build
  refine ⟨g, hg, ?_⟩
  have hvars : ∀ var ∈ reviewEntry.template.vars,
      StandsForLeaf (leavesOutside g.pool annsReview fun _ => false) var := by
    rw [hpool, leavesOutside_none, leaves_annsReview]
    intro var hvar
    rw [List.mem_singleton.mp hvar]
    exact ⟨_, "5", rfl, rfl, VarSpec.takes_of_single rfl "5"⟩
  have hleaves : ∀ leaf ∈ leavesOutside g.pool annsReview fun _ => false,
      Leaf.IsParameter leaf := by
    rw [hpool, leavesOutside_none, leaves_annsReview]
    intro leaf hleaf
    simp only [List.mem_cons, List.not_mem_nil, or_false] at hleaf
    rcases hleaf with rfl | rfl | rfl | rfl <;> exact ⟨rfl, by simp, by decide⟩
  obtain ⟨path, hhandle⟩ := strict_exists_request hg rfl hpaths (hpool ▸ mem_reviewDeclaration) rfl
    rfl (by simp [reviewDeclaration]) parse_reviewDeclaration (by simp [reviewEntry])
    (by simp [reviewEntry]) (hpool ▸ sendable_annsReview.outside _) (hpool ▸ wellTyped_annsReview)
    rfl (decodeBody_reviewDeclaration g.pool g.json) hvars hleaves []
  rw [hbackend] at hhandle
  exact ⟨path, hhandle⟩

end GrpcGw.Service
