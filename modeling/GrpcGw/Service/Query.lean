import GrpcGw.Service.Request

/-!
# Unknown Query Parameters

A query parameter whose key does not resolve in the message type is ignored, but its binding
runs: it descends through the message fields its key does name.

- `bindQuery_dropUnknown_iff`: when such a parameter has no effect.
-/

namespace GrpcGw.Service

open GrpcGw.Text
open GrpcGw.Reflect
open GrpcGw.Transcode

/-! ## Pieces of a query -/

/-- The pairs of the non-empty pieces. -/
def pairsOf (pieces : List String) : List (List String × String) :=
  (pieces.filter (· ≠ "")).map queryPair

/-- The first `n` pieces of a query. -/
def firstPieces (n : Nat) (query : String) : String :=
  join "&" ((split '&' query).take n)

/-- Whether the key of a piece resolves in a message type. -/
def knownPiece (pool : DescriptorPool) (desc : MessageDescriptor) (piece : String) : Bool :=
  !unknownKey pool (queryPair piece).1 desc

/-- A query without the pieces whose key does not resolve in the message type. -/
def dropUnknown (pool : DescriptorPool) (desc : MessageDescriptor) (query : String) : String :=
  join "&" ((split '&' query).filter (knownPiece pool desc))

theorem firstPieces_of_length_le {n : Nat} {query : String} (h : (split '&' query).length ≤ n) :
    firstPieces n query = query := by
  rw [firstPieces, List.take_of_length_le h]
  exact join_split '&' query

theorem queryPairs_join {pieces : List String} (h : ∀ s ∈ pieces, '&' ∉ s.toList) :
    queryPairs (join "&" pieces) = pairsOf pieces := by
  unfold queryPairs pairsOf
  cases pieces with
  | nil => decide
  | cons s pieces =>
    have hsplit : split '&' (join "&" (s :: pieces)) = s :: pieces :=
      split_join '&' (List.cons_ne_nil _ _) h
    rw [hsplit]

theorem queryPairs_firstPieces (n : Nat) (query : String) :
    queryPairs (firstPieces n query) = pairsOf ((split '&' query).take n) :=
  queryPairs_join fun _ hs => notMem_of_mem_split (List.mem_of_mem_take hs)

/-- Dropping commutes with taking the first pieces. -/
theorem queryPairs_dropUnknown {pool : DescriptorPool} {desc : MessageDescriptor} (n : Nat)
    (query : String) :
    queryPairs (dropUnknown pool desc (firstPieces n query)) =
      pairsOf (((split '&' query).take n).filter (knownPiece pool desc)) := by
  have hpieces : ∀ s ∈ (split '&' query).take n, '&' ∉ s.toList :=
    fun _ hs => notMem_of_mem_split (List.mem_of_mem_take hs)
  unfold dropUnknown firstPieces
  cases htake : (split '&' query).take n with
  | nil =>
    -- no piece is left but the empty one
    rw [queryPairs_join fun s hs => notMem_of_mem_split (List.mem_of_mem_filter hs)]
    simp [pairsOf, show split '&' (join "&" []) = [""] by decide, List.filter_cons]
  | cons s pieces =>
    rw [htake] at hpieces
    have hsplit : split '&' (join "&" (s :: pieces)) = s :: pieces :=
      split_join '&' (List.cons_ne_nil _ _) hpieces
    rw [hsplit]
    exact queryPairs_join fun x hx => hpieces x (List.mem_of_mem_filter hx)

/-! ## One more piece -/

section Pieces

variable {pool : DescriptorPool} {msg : DynamicMessage}

/-- The loop of `bind_query` over some pieces. -/
def bindPieces (pool : DescriptorPool) (msg : DynamicMessage) (pieces : List String) :
    DynamicMessage × BindOutcome :=
  bindAll pool .fillIfUnset BindError.isUnknownField (pairsOf pieces) msg

theorem bindPieces_typed (h : WellTyped pool msg) (pieces : List String) :
    WellTyped pool (bindPieces pool msg pieces).1 ∧
      (bindPieces pool msg pieces).1.desc = msg.desc :=
  bindAll_typed _ h

theorem pairsOf_append (l l' : List String) : pairsOf (l ++ l') = pairsOf l ++ pairsOf l' := by
  simp [pairsOf]

/-- A loop that ends after the first pieces ignores the further ones. -/
theorem bindPieces_append (l l' : List String) :
    bindPieces pool msg (l ++ l') =
      if (bindPieces pool msg l).2 = .ok then bindPieces pool (bindPieces pool msg l).1 l'
      else bindPieces pool msg l := by
  unfold bindPieces
  rw [pairsOf_append, bindAll_append]

/-- A further piece with an unknown key leaves what its binding leaves, and the loop goes on. -/
theorem bindPieces_unknown (h : WellTyped pool msg) {piece : String} (hne : piece ≠ "")
    (hunknown : unknownKey pool (queryPair piece).1 msg.desc = true) :
    bindPieces pool msg [piece] =
      ((bindFieldPath pool msg (queryPair piece).1 (queryPair piece).2 .fillIfUnset).1, .ok) := by
  obtain ⟨p, f, hpath⟩ : ∃ p f, pathOutcome pool (queryPair piece).1 (queryPair piece).2
      (queryPair piece).1 msg.desc = .error (.unknownField p f) :=
    (unknownKey_iff _ _).mp hunknown
  have hout : (bindFieldPath pool msg (queryPair piece).1 (queryPair piece).2 .fillIfUnset).2 =
      .error (.unknownField p f) := by
    rw [bindFieldPath, bindInner_outcome _ h, hpath]
  have hpairs : pairsOf [piece] = [((queryPair piece).1, (queryPair piece).2)] := by
    simp [pairsOf, hne]
  rw [bindPieces, hpairs, bindAll_cons, hout]
  rfl

/-- A further piece with an unknown key changes nothing iff it descends only into message fields
    that are already there. -/
theorem bindPieces_unknown_eq_self_iff (h : WellTyped pool msg) {piece : String}
    (hunknown : unknownKey pool (queryPair piece).1 msg.desc = true) :
    bindPieces pool msg [piece] = (msg, .ok) ↔
      descendsStored pool (queryPair piece).1 msg = true := by
  by_cases hne : piece = ""
  · -- an empty piece is skipped, and its key is unknown at the first component
    subst hne
    have hpair : queryPair "" = ([""], "") := by decide
    rw [hpair] at hunknown ⊢
    cases hfield : pool.getFieldByName msg.desc "" with
    | none => simp [descendsStored, hfield, bindPieces, pairsOf, bindAll]
    | some f => simp [unknownKey, hfield] at hunknown
  · rw [bindPieces_unknown h hne hunknown, Prod.mk.injEq, eq_self, and_true]
    exact bindInner_unknown_eq_self_iff _ h hunknown

/-- A known piece is kept, an unknown one is dropped. -/
theorem filter_known_concat (desc : MessageDescriptor) (pieces : List String) (piece : String) :
    (pieces ++ [piece]).filter (knownPiece pool desc) =
      pieces.filter (knownPiece pool desc) ++
        if unknownKey pool (queryPair piece).1 desc then [] else [piece] := by
  rw [List.filter_append, List.filter_cons]
  cases h : unknownKey pool (queryPair piece).1 desc with
  | true => simp [knownPiece, h]
  | false => simp [knownPiece, h]

/-- **One more piece**: where the runs with and without the unknown pieces agree, they agree after
    one more piece iff that piece is known, is not reached, or descends only into message fields
    that are already there. -/
theorem bindPieces_concat_iff (h : WellTyped pool msg) {pieces : List String} {piece : String}
    (heq : bindPieces pool msg pieces =
      bindPieces pool msg (pieces.filter (knownPiece pool msg.desc))) :
    bindPieces pool msg (pieces ++ [piece]) =
        bindPieces pool msg ((pieces ++ [piece]).filter (knownPiece pool msg.desc)) ↔
      (unknownKey pool (queryPair piece).1 msg.desc = true →
        (bindPieces pool msg pieces).2 = .ok →
        descendsStored pool (queryPair piece).1 (bindPieces pool msg pieces).1 = true) := by
  obtain ⟨hwt, hdesc⟩ := bindPieces_typed h pieces
  rw [filter_known_concat, bindPieces_append]
  cases hunknown : unknownKey pool (queryPair piece).1 msg.desc with
  | false =>
    -- both runs bind the piece in the same state
    simp [bindPieces_append, ← heq]
  | true =>
    rw [← hdesc] at hunknown
    simp only [if_true, List.append_nil, ← heq, true_implies]
    split
    · next hok =>
      -- the piece is dropped, so it may not change the state in front of it
      have hstate : bindPieces pool msg pieces = ((bindPieces pool msg pieces).1, .ok) := by
        rw [← hok]
      rw [← bindPieces_unknown_eq_self_iff hwt hunknown, ← hstate]
      exact ⟨fun hsame _ => hsame, fun hsame => hsame hok⟩
    · next hnot => simp [hnot]

end Pieces

/-! ## Unknown parameters -/

/-- **When unknown parameters have no effect**: after every piece, the outcome and the message are
    those of the query without the unknown parameters, iff every unknown one that is reached
    descends only into message fields that are already there. -/
theorem bindQuery_dropUnknown_iff {pool : DescriptorPool} {msg : DynamicMessage}
    (h : WellTyped pool msg) (query : String) :
    (∀ n, bindQuery pool msg (firstPieces n query) =
        bindQuery pool msg (dropUnknown pool msg.desc (firstPieces n query))) ↔
      ∀ n piece, (split '&' query)[n]? = some piece →
        unknownKey pool (queryPair piece).1 msg.desc = true →
        (bindQuery pool msg (firstPieces n query)).2 = .ok →
        descendsStored pool (queryPair piece).1
          (bindQuery pool msg (firstPieces n query)).1 = true := by
  have hfirst : ∀ n, bindQuery pool msg (firstPieces n query) =
      bindPieces pool msg ((split '&' query).take n) := by
    intro n
    rw [bindQuery, queryPairs_firstPieces, bindPieces]
  have hdropped : ∀ n, bindQuery pool msg (dropUnknown pool msg.desc (firstPieces n query)) =
      bindPieces pool msg (((split '&' query).take n).filter (knownPiece pool msg.desc)) := by
    intro n
    rw [bindQuery, queryPairs_dropUnknown, bindPieces]
  simp only [hfirst, hdropped]
  generalize split '&' query = pieces
  have hnext : ∀ {n piece}, pieces[n]? = some piece →
      pieces.take (n + 1) = pieces.take n ++ [piece] := by
    intro n piece hpiece
    rw [List.take_add_one, hpiece, Option.toList_some]
  constructor
  · -- agreement after `n` and after `n + 1` pieces is agreement over one more piece
    intro heq n piece hpiece
    apply (bindPieces_concat_iff h (heq n)).mp
    rw [← hnext hpiece]
    exact heq (n + 1)
  · intro hstored n
    induction n with
    | zero => rfl
    | succ n ih =>
      cases hpiece : pieces[n]? with
      | none =>
        -- there is no further piece
        rw [List.take_add_one, hpiece, Option.toList_none, List.append_nil]
        exact ih
      | some piece =>
        rw [hnext hpiece]
        exact (bindPieces_concat_iff h ih).mpr (hstored n piece hpiece)

/-- An unknown parameter between two known ones, on an empty message. -/
theorem bindQuery_dropUnknown_book :
    bindQuery bookPool (.new ⟨0⟩) (firstPieces 3 "id=5&shelf=2&anonymous=true") =
      bindQuery bookPool (.new ⟨0⟩)
        (dropUnknown bookPool ⟨0⟩ (firstPieces 3 "id=5&shelf=2&anonymous=true")) := by
  refine (bindQuery_dropUnknown_iff (wellTyped_new ⟨0⟩) "id=5&shelf=2&anonymous=true").mpr ?_ 3
  intro n piece hpiece hunknown _
  have hpieces : split '&' "id=5&shelf=2&anonymous=true" =
      ["id=5", "shelf=2", "anonymous=true"] := by decide
  rw [hpieces] at hpiece
  -- a key that fails at its first component descends nowhere
  have hkeys : ∀ piece ∈ ["id=5", "shelf=2", "anonymous=true"],
      unknownKey bookPool (queryPair piece).1 ⟨0⟩ = true → (queryPair piece).1 = ["shelf"] := by
    decide
  rw [hkeys piece (List.mem_of_getElem? hpiece) hunknown]
  have hfield : bookPool.getFieldByName (bindQuery bookPool (.new ⟨0⟩)
      (firstPieces n "id=5&shelf=2&anonymous=true")).1.desc "shelf" = none := by
    rw [bindQuery, (bindAll_typed _ (wellTyped_new ⟨0⟩)).2]
    decide
  simp [descendsStored, hfield]

/-- The binding of an unknown key stores an empty message on its way. -/
theorem not_bindQuery_dropUnknown : ¬∀ (pool : DescriptorPool) (msg : DynamicMessage)
    (query : String), WellTyped pool msg →
      bindQuery pool msg query = bindQuery pool msg (dropUnknown pool msg.desc query) := by
  intro h
  have heq := h bookPool (.new ⟨0⟩) "author.nope=1" (wellTyped_new ⟨0⟩)
  have hstored : ((bindQuery bookPool (.new ⟨0⟩) "author.nope=1").1.fields 2).isSome = true := by
    decide
  rw [heq] at hstored
  exact absurd hstored (by decide)

end GrpcGw.Service
