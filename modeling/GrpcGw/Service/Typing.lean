import GrpcGw.Service.BodyField
import GrpcGw.Transcode.Writes

/-!
# Runs of Bindings are Typed

A run of bindings with all its writes: whether its calls succeed or fail, the message stays
well-typed after each of them, and every value that is written is valid for its field.

- `runBindingsLogged_eq`: recording the writes changes nothing.
- `runBindings_wellTyped`: every run keeps the message well-typed, and no write trips the assertion
  of `set_field`.
-/

namespace GrpcGw.Service

open GrpcGw.Reflect
open GrpcGw.Transcode

/-- One more call, with what it adds to the writes. -/
def Binding.logged (pool : DescriptorPool) (s : DynamicMessage × List Write) (b : Binding) :
    DynamicMessage × List Write :=
  let (msg, _, writes) := bindFieldPathLogged pool s.1 b.path b.value b.mode
  (msg, s.2 ++ writes)

/-- A run of bindings: the message that it leaves, and its writes in order. -/
def runBindingsLogged (pool : DescriptorPool) (l : List Binding) (msg : DynamicMessage) :
    DynamicMessage × List Write :=
  l.foldl (Binding.logged pool) (msg, [])

section Run

variable {pool : DescriptorPool}

/-- A call leaves the message that `bind_field_path` leaves. -/
theorem Binding.logged_fst (s : DynamicMessage × List Write) (b : Binding) :
    (b.logged pool s).1 = (bindFieldPath pool s.1 b.path b.value b.mode).1 := by
  rw [← bindFieldPathLogged_eq]
  rfl

theorem Binding.logged_snd (s : DynamicMessage × List Write) (b : Binding) :
    (b.logged pool s).2 =
      s.2 ++ (bindFieldPathLogged pool s.1 b.path b.value b.mode).2.2 := rfl

/-- The run from any writes that came before. -/
theorem foldl_logged_fst (l : List Binding) (s : DynamicMessage × List Write) :
    (l.foldl (Binding.logged pool) s).1 = runBindings pool l s.1 := by
  induction l generalizing s with
  | nil => rfl
  | cons b l ih =>
    rw [List.foldl_cons, ih, b.logged_fst]
    rfl

/-- **Recording the writes of a run changes nothing.** -/
theorem runBindingsLogged_eq (l : List Binding) (msg : DynamicMessage) :
    (runBindingsLogged pool l msg).1 = runBindings pool l msg :=
  foldl_logged_fst l (msg, [])

/-- One more call writes valid values only. -/
theorem Binding.logged_valid {s : DynamicMessage × List Write} (h : ∀ w ∈ s.2, w.Valid pool)
    (b : Binding) : ∀ w ∈ (b.logged pool s).2, w.Valid pool := by
  intro w hw
  rw [b.logged_snd] at hw
  rcases List.mem_append.mp hw with hw | hw
  · exact h w hw
  · exact bindInnerLogged_valid b.path s.1 w hw

/-- A run writes valid values only. -/
theorem foldl_logged_valid {s : DynamicMessage × List Write} (h : ∀ w ∈ s.2, w.Valid pool)
    (l : List Binding) : ∀ w ∈ (l.foldl (Binding.logged pool) s).2, w.Valid pool := by
  induction l generalizing s with
  | nil => exact h
  | cons b l ih => exact ih (b.logged_valid h)

/-- **Every run of bindings keeps the message well-typed**, after each of its calls, and writes
    only values that are valid for their fields: no call panics. -/
theorem runBindings_wellTyped {msg : DynamicMessage} (h : WellTyped pool msg) {l : List Binding}
    (hne : ∀ b ∈ l, b.path ≠ []) :
    (∀ n, WellTyped pool (runBindings pool (l.take n) msg) ∧
      (runBindings pool (l.take n) msg).desc = msg.desc) ∧
    (∀ n b, l[n]? = some b →
      (bindFieldPath pool (runBindings pool (l.take n) msg) b.path b.value b.mode).2 ≠ .panic) ∧
    (runBindingsLogged pool l msg).1 = runBindings pool l msg ∧
    ∀ w ∈ (runBindingsLogged pool l msg).2, w.Valid pool ∧ w.passes = true := by
  refine ⟨fun n => runBindings_typed (l.take n) h, ?_, runBindingsLogged_eq l msg, ?_⟩
  · intro n b hb
    exact bindInner_ne_panic (hne b (List.mem_of_getElem? hb)) _
  · intro w hw
    have hvalid : w.Valid pool := foldl_logged_valid (by simp) l w hw
    exact ⟨hvalid, hvalid.passes⟩

/-- A tag, a key that is not there in a reply that is not there, and a tag of that reply. -/
def noteRun : List Binding :=
  [⟨.overwrite, ["tags"], "a"⟩, ⟨.fillIfUnset, ["reply", "nope"], "b"⟩,
    ⟨.fillIfUnset, ["reply", "id"], "7"⟩]

/-- The second call fails after it has put an empty reply into the note. -/
theorem runBindings_wellTyped_note :
    WellTyped notePool (runBindings notePool (noteRun.take 2) (.new ⟨0⟩)) ∧
      (runBindings notePool (noteRun.take 2) (.new ⟨0⟩)).hasFieldByName notePool "reply" = true ∧
      (∀ w ∈ (runBindingsLogged notePool noteRun (.new ⟨0⟩)).2,
        w.Valid notePool ∧ w.passes = true) ∧
      (runBindingsLogged notePool noteRun (.new ⟨0⟩)).2.length = 2 := by
  obtain ⟨htyped, -, -, hwrites⟩ :=
    runBindings_wellTyped (@wellTyped_new notePool ⟨0⟩) (l := noteRun) (by decide)
  exact ⟨(htyped 2).1, by decide, hwrites, by decide⟩

end Run

end GrpcGw.Service
