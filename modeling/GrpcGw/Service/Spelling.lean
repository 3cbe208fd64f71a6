import GrpcGw.Service.Conflicts
import GrpcGw.Template.Escaping

/-!
# Spelling of the Request Path

How the selection of an endpoint depends on the way a request path is percent-encoded.

- `lookup_reescaped`: spelling unreserved characters as triplets does not change the selection.
- `not_lookup_reescaped`: the two exceptions to it.
-/

namespace GrpcGw.Service

open GrpcGw.Text
open GrpcGw.Template
open GrpcGw.Rules
open GrpcGw.Routes

/-- **Spelling unreserved characters as triplets does not change the selection**: the same
    endpoint is found, with the same captures, as long as the verb keeps its spelling, and so do
    the segments whose bytes are not UTF-8. -/
theorem lookup_reescaped (routes : Routes) (m : String) {p p' : String}
    (h : Reescaped p.toList p'.toList)
    (hverb : (splitRequestPath p).2 = (splitRequestPath p').2)
    (halike : List.Forall₂ SpelledAlike (splitRequestPath p).1 (splitRequestPath p').1) :
    lookup routes m (splitRequestPath p).1 (splitRequestPath p).2 =
      lookup routes m (splitRequestPath p').1 (splitRequestPath p').2 := by
  unfold lookup
  congr 1
  funext e
  rw [PathTemplate.matches_reescaped e.template h hverb halike]

/-- One method that captures a segment, and one with a verb. -/
def spellingTable : RouteTable :=
  RouteTable.fromMethods [getMethod "Get" "/v1/{x}", getMethod "Find" "/v1/{x}:get"] true

/-- The router of the table. -/
def spellingRoutes : Routes := fun m => spellingTable.bindings.filterMap (endpointFor? anyMethod m)

theorem compile_spellingTable : compile anyMethod spellingTable = .ok spellingRoutes :=
  compile_eq_ok_iff.mpr ⟨fun rb hrb _ => (by decide :
    ∀ rb ∈ spellingTable.bindings, ∃ t, PathTemplate.parse rb.2.httpPath = .ok t) rb hrb, rfl⟩

/-- The letter of a segment is spelled as a triplet. -/
theorem lookup_reescaped_shelves :
    lookup spellingRoutes "GET" (splitRequestPath "/v1/a").1 (splitRequestPath "/v1/a").2 =
      lookup spellingRoutes "GET" (splitRequestPath "/v1/%61").1
        (splitRequestPath "/v1/%61").2 := by
  have h : Reescaped "/v1/a".toList "/v1/%61".toList :=
    .keep (by decide) (.keep (by decide) (.keep (by decide) (.keep (by decide)
      (.escape (by decide) (show hexChar? '6' = some 6 by decide)
        (show hexChar? '1' = some 1 by decide) (by decide) .nil))))
  apply lookup_reescaped spellingRoutes "GET" h (by decide)
  exact .cons (.inl (by decide)) (.cons (.inr (by decide)) .nil)

/-- **The exceptions**: a segment whose bytes are not UTF-8 is captured as it is spelled, and a
    verb is compared as it is spelled. -/
theorem not_lookup_reescaped :
    (¬∀ index table routes, compile index table = .ok routes → ∀ (m p p' : String),
      Reescaped p.toList p'.toList →
        lookup routes m (splitRequestPath p).1 (splitRequestPath p).2 =
          lookup routes m (splitRequestPath p').1 (splitRequestPath p').2) ∧
    (¬∀ index table routes, compile index table = .ok routes → ∀ (m p p' : String),
      Reescaped p.toList p'.toList → (splitRequestPath p).2 = (splitRequestPath p').2 →
        lookup routes m (splitRequestPath p).1 (splitRequestPath p).2 =
          lookup routes m (splitRequestPath p').1 (splitRequestPath p').2) ∧
    (¬∀ index table routes, compile index table = .ok routes → ∀ (m p p' : String),
      Reescaped p.toList p'.toList →
        List.Forall₂ SpelledAlike (splitRequestPath p).1 (splitRequestPath p').1 →
        lookup routes m (splitRequestPath p).1 (splitRequestPath p).2 =
          lookup routes m (splitRequestPath p').1 (splitRequestPath p').2) := by
  have hsegment : Reescaped "/v1/a%FF".toList "/v1/%61%FF".toList :=
    .keep (by decide) (.keep (by decide) (.keep (by decide) (.keep (by decide)
      (.escape (by decide) (show hexChar? '6' = some 6 by decide)
        (show hexChar? '1' = some 1 by decide) (by decide)
        (.triplet (by decide) (by decide) .nil)))))
  have hverb : Reescaped "/v1/a:get".toList "/v1/a:%67et".toList :=
    .keep (by decide) (.keep (by decide) (.keep (by decide) (.keep (by decide) (.keep (by decide)
      (.keep (by decide) (.escape (by decide) (show hexChar? '6' = some 6 by decide)
        (show hexChar? '7' = some 7 by decide) (by decide)
        (.keep (by decide) (.keep (by decide) .nil))))))))
  have hcaptures : lookup spellingRoutes "GET" (splitRequestPath "/v1/a%FF").1
      (splitRequestPath "/v1/a%FF").2 ≠ lookup spellingRoutes "GET"
        (splitRequestPath "/v1/%61%FF").1 (splitRequestPath "/v1/%61%FF").2 := by decide
  refine ⟨fun h => ?_, fun h => ?_, fun h => ?_⟩
  · exact hcaptures (h _ _ _ compile_spellingTable "GET" _ _ hsegment)
  · exact hcaptures (h _ _ _ compile_spellingTable "GET" _ _ hsegment (by decide))
  · have heq := h _ _ _ compile_spellingTable "GET" _ _ hverb
      (.cons (.inl (by decide)) (.cons (.inl (by decide)) .nil))
    exact absurd heq (by decide)

end GrpcGw.Service
