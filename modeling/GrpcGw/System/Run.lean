import Mathlib.Data.List.Induction

/-!
# Runs of a System

A system takes events one after another, and may refuse one. What a step keeps, a run keeps, and a
system whose steps are matched by runs of another one has only the runs that the other one has.

- `run_history`: what holds of a state and the events that led to it.
- `Simulates.run`: a simulation of steps is a simulation of runs.
-/

namespace GrpcGw.System

/-! ## Runs -/

section Run

variable {σ ε : Type*} {step : σ → ε → Option σ} {s s' : σ} {t : List ε}

/-- The state after some events; none if one of them is refused. -/
def run (step : σ → ε → Option σ) (s : σ) (t : List ε) : Option σ :=
  t.foldlM step s

@[simp] theorem run_nil : run step s [] = some s := rfl

theorem run_cons_eq_some_iff {e : ε} :
    run step s (e :: t) = some s' ↔ ∃ s₁, step s e = some s₁ ∧ run step s₁ t = some s' := by
  rw [run, List.foldlM_cons]
  exact Option.bind_eq_some_iff

@[simp] theorem run_singleton {e : ε} : run step s [e] = step s e := by
  simp [run]

/-- A run is a run of its first events, and of the others from there. -/
theorem run_append_eq_some_iff {t' : List ε} :
    run step s (t ++ t') = some s' ↔ ∃ s₁, run step s t = some s₁ ∧ run step s₁ t' = some s' := by
  rw [run, List.foldlM_append]
  exact Option.bind_eq_some_iff

theorem run_append {s'' : σ} {t' : List ε} (h : run step s t = some s')
    (h' : run step s' t' = some s'') : run step s (t ++ t') = some s'' :=
  run_append_eq_some_iff.mpr ⟨s', h, h'⟩

theorem run_cons {s'' : σ} {e : ε} (h : step s e = some s') (h' : run step s' t = some s'') :
    run step s (e :: t) = some s'' :=
  run_cons_eq_some_iff.mpr ⟨s', h, h'⟩

/-- **Histories**: what holds at the start and is kept by every step that extends the history holds
    of every run. -/
theorem run_history {P : List ε → σ → Prop} (hstart : P [] s)
    (hstep : ∀ t s₁ e s₂, P t s₁ → step s₁ e = some s₂ → P (t ++ [e]) s₂)
    (hrun : run step s t = some s') : P t s' := by
  induction t using List.reverseRecOn generalizing s' with
  | nil =>
    cases hrun
    exact hstart
  | append_singleton t e ih =>
    obtain ⟨s₁, hrun, hlast⟩ := run_append_eq_some_iff.mp hrun
    obtain ⟨s₂, he, hnil⟩ := run_cons_eq_some_iff.mp hlast
    cases hnil
    exact hstep t s₁ e s' (ih hrun) he

/-- **Invariants**: what every step keeps, every run keeps. -/
theorem run_invariant {P : σ → Prop} (hstart : P s)
    (hstep : ∀ s₁ e s₂, P s₁ → step s₁ e = some s₂ → P s₂) (hrun : run step s t = some s') :
    P s' :=
  run_history (P := fun _ => P) hstart (fun _ => hstep) hrun

/-- A map that every step respects is one that every run respects: events are refused in the one
    system iff they are in the other. -/
theorem run_map {τ φ : Type*} {step' : τ → φ → Option τ} {f : σ → τ} {h : ε → φ}
    (hstep : ∀ s e, step' (f s) (h e) = (step s e).map f) :
    run step' (f s) (t.map h) = (run step s t).map f := by
  induction t generalizing s with
  | nil => rfl
  | cons e t ih =>
    rw [run, run, List.map_cons, List.foldlM_cons, List.foldlM_cons, hstep]
    cases step s e with
    | none => rfl
    | some s₁ => exact ih

end Run

/-! ## Simulations -/

section Simulation

variable {σ ε τ φ : Type*}

/-- Every step of a system is matched by a run of another system: the events of that run are read
    off the state and the event of the step. -/
def Simulates (step : σ → ε → Option σ) (step' : τ → φ → Option τ) (rel : σ → τ → Prop)
    (events : σ → ε → List φ) : Prop :=
  ∀ ⦃s u e s₁⦄, rel s u → step s e = some s₁ →
    ∃ u₁, run step' u (events s e) = some u₁ ∧ rel s₁ u₁

/-- The events of a run, read as events of the other system. -/
def translate (step : σ → ε → Option σ) (events : σ → ε → List φ) : σ → List ε → List φ
  | _, [] => []
  | s, e :: t => events s e ++ (step s e).elim [] (translate step events · t)

variable {step : σ → ε → Option σ} {step' : τ → φ → Option τ} {rel : σ → τ → Prop}
  {events : σ → ε → List φ} {s s' : σ} {t : List ε}

theorem translate_cons {e : ε} (h : step s e = some s') :
    translate step events s (e :: t) = events s e ++ translate step events s' t := by
  rw [translate, h, Option.elim_some]

theorem translate_append (h : run step s t = some s') (t' : List ε) :
    translate step events s (t ++ t') =
      translate step events s t ++ translate step events s' t' := by
  induction t generalizing s with
  | nil =>
    cases h
    rfl
  | cons e t ih =>
    obtain ⟨s₁, hstep, hrun⟩ := run_cons_eq_some_iff.mp h
    rw [List.cons_append, translate_cons hstep, translate_cons hstep, ih hrun, List.append_assoc]

theorem exists_of_mem_translate {f : φ} (h : f ∈ translate step events s t) :
    ∃ s₁, ∃ e ∈ t, f ∈ events s₁ e := by
  induction t generalizing s with
  | nil => cases h
  | cons e t ih =>
    rw [translate, List.mem_append] at h
    rcases h with h | h
    · exact ⟨s, e, List.mem_cons_self, h⟩
    · cases hstep : step s e with
      | none =>
        rw [hstep] at h
        cases h
      | some s₁ =>
        rw [hstep] at h
        obtain ⟨s₂, e', he', hf⟩ := ih h
        exact ⟨s₂, e', List.mem_cons_of_mem e he', hf⟩

/-- **A simulation of steps is a simulation of runs.** -/
theorem Simulates.run (h : Simulates step step' rel events) {u : τ} (hrel : rel s u)
    (hrun : System.run step s t = some s') :
    ∃ u', System.run step' u (translate step events s t) = some u' ∧ rel s' u' := by
  induction t generalizing s u with
  | nil =>
    cases hrun
    exact ⟨u, rfl, hrel⟩
  | cons e t ih =>
    obtain ⟨s₁, hstep, hrun⟩ := run_cons_eq_some_iff.mp hrun
    obtain ⟨u₁, hfirst, hrel₁⟩ := h hrel hstep
    obtain ⟨u', hrest, hrel'⟩ := ih hrel₁ hrun
    exact ⟨u', translate_cons hstep ▸ run_append hfirst hrest, hrel'⟩

end Simulation

end GrpcGw.System
