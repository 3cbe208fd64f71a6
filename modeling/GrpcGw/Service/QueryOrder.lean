import GrpcGw.Pattern.Reorder
import GrpcGw.Service.Request
import GrpcGw.Transcode.Commute

/-!
# The Order of Query Parameters

Parameters with one key are bound in the order they come in. Parameters with different keys can
be reordered, if no two keys pass different members of one oneof.

- `bindQuery_reorder`: two queries that are reorderings of each other bind to the same message.
-/

namespace GrpcGw.Service

open GrpcGw.Text
open GrpcGw.Pattern
open GrpcGw.Reflect
open GrpcGw.Transcode

variable {pool : DescriptorPool} {msg : DynamicMessage}

/-- Two bound parameters with different keys can be swapped. -/
theorem bindFieldPath_comm (h : WellTyped pool msg) {x y : List String × String}
    (hne : x.1 ≠ y.1) (hclears : clears pool x.1 y.1 msg.desc = false)
    (hx : continues BindError.isUnknownField (pathOutcome pool x.1 x.2 x.1 msg.desc) = true)
    (hy : continues BindError.isUnknownField (pathOutcome pool y.1 y.2 y.1 msg.desc) = true) :
    (bindFieldPath pool (bindFieldPath pool msg x.1 x.2 .fillIfUnset).1 y.1 y.2 .fillIfUnset).1 =
      (bindFieldPath pool (bindFieldPath pool msg y.1 y.2 .fillIfUnset).1 x.1 x.2
        .fillIfUnset).1 :=
  bindInner_comm x.1 y.1 h hne hclears (proceeds_of_continues (fun _ he => he) hx)
    (proceeds_of_continues (fun _ he => he) hy)

/-- **Query parameters with different keys commute.** -/
theorem bindQuery_reorder {query query' : String} (h : WellTyped pool msg)
    (hreorder : KeyedReorder Prod.fst (queryPairs query) (queryPairs query'))
    (hclears : ∀ x ∈ queryPairs query, ∀ y ∈ queryPairs query,
      clears pool x.1 y.1 msg.desc = false) :
    ((bindQuery pool msg query).2 = .ok ↔ (bindQuery pool msg query').2 = .ok) ∧
      ((bindQuery pool msg query).2 = .ok →
        (bindQuery pool msg query).1 = (bindQuery pool msg query').1) := by
  have hiff : (bindQuery pool msg query).2 = .ok ↔ (bindQuery pool msg query').2 = .ok := by
    rw [bindQuery, bindQuery, bindAll_ok_iff h, bindAll_ok_iff h]
    exact forall_congr' fun x => by rw [hreorder.mem_iff]
  refine ⟨hiff, ?_⟩
  intro hok
  have hcontinues := (bindAll_ok_iff h).mp hok
  have hfst : (bindQuery pool msg query).1 = (queryPairs query).foldl
      (fun m x => (bindFieldPath pool m x.1 x.2 .fillIfUnset).1) msg := bindAll_fst_of_ok hok
  have hfst' : (bindQuery pool msg query').1 = (queryPairs query').foldl
      (fun m x => (bindFieldPath pool m x.1 x.2 .fillIfUnset).1) msg :=
    bindAll_fst_of_ok (hiff.mp hok)
  rw [hfst, hfst']
  -- every state on the way is a well-typed message of the same type
  refine KeyedReorder.foldl_eq (I := fun m => WellTyped pool m ∧ m.desc = msg.desc) hreorder
    ?_ ?_ ⟨h, rfl⟩
  · rintro m ⟨hm, hdesc⟩ x -
    obtain ⟨hwt, hdesc'⟩ := bindFieldPath_wellTyped hm x.1 x.2 .fillIfUnset
    exact ⟨hwt, hdesc'.trans hdesc⟩
  · rintro m ⟨hm, hdesc⟩ x hx y hy hne
    apply bindFieldPath_comm hm hne
    · rw [hdesc]
      exact hclears x hx y hy
    · rw [hdesc]
      exact hcontinues x hx
    · rw [hdesc]
      exact hcontinues y hy

/-- Two parameters of a book in both orders. -/
theorem bindQuery_reorder_book :
    (bindQuery bookPool (.new ⟨0⟩) "id=5&author.name=A").2 = .ok ∧
      (bindQuery bookPool (.new ⟨0⟩) "id=5&author.name=A").1 =
        (bindQuery bookPool (.new ⟨0⟩) "author.name=A&id=5").1 := by
  have hpairs : queryPairs "id=5&author.name=A" = [(["id"], "5"), (["author", "name"], "A")] := by
    decide
  have hpairs' : queryPairs "author.name=A&id=5" = [(["author", "name"], "A"), (["id"], "5")] := by
    decide
  have hreorder : KeyedReorder Prod.fst (queryPairs "id=5&author.name=A")
      (queryPairs "author.name=A&id=5") := by
    intro k
    rw [hpairs, hpairs']
    by_cases hid : ["id"] = k
    · subst hid
      decide
    · simp [List.filter_cons, hid]
  have hclears : ∀ x ∈ queryPairs "id=5&author.name=A", ∀ y ∈ queryPairs "id=5&author.name=A",
      clears bookPool x.1 y.1 ⟨0⟩ = false := by
    rw [hpairs]
    decide
  have hok : (bindQuery bookPool (.new ⟨0⟩) "id=5&author.name=A").2 = .ok := by decide
  exact ⟨hok, (bindQuery_reorder (wellTyped_new ⟨0⟩) hreorder hclears).2 hok⟩

end GrpcGw.Service
