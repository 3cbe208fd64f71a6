import GrpcGw.System.Run
import Mathlib.Data.List.Nodup

/-!
# Operations on a Remote Object

Clients perform operations on an object that is elsewhere. An operation is answered at once, or from
the result of one call. Calls wait on the wire until the object executes them, and results until
they are delivered. A client may be told a result that the object has not given, or may go away; its
call may still be executed then.

- `World.consistent_of_run`: every run is linearizable. Its operations take effect one after
  another, each at most once, and those that are not lost are answered as the object answers them
  there.
- `World.precedes_of_run`: an operation that is answered before another one is asked takes effect
  before it.
-/

namespace GrpcGw.System

/-! ## Operations -/

/-- An operation on a remote object. -/
structure Operation (ρ κ χ α : Type*) where
  /-- The answer to a request, or the call that is made for it. -/
  prepare : ρ → α ⊕ κ
  /-- The answer to a request from the result of its call. -/
  finish : ρ → χ → α

section Operation

variable {σ ρ κ χ α : Type*} (op : Operation ρ κ χ α) (serve : σ → κ → σ × χ)

/-- An operation on an object that no one else uses: the object afterwards, and the answer. -/
def Operation.perform (s : σ) (r : ρ) : σ × α :=
  match op.prepare r with
  | .inl a => (s, a)
  | .inr k => ((serve s k).1, op.finish r (serve s k).2)

/-- The object after operations that are performed one after another. -/
def Operation.after (s : σ) (l : List ρ) : σ :=
  l.foldl (fun s r => (op.perform serve s r).1) s

/-- In the order of a log, the request of a client is answered in this way. -/
def Operation.Takes {ι : Type*} (s : σ) (log : List (ι × ρ)) (i : ι) (r : ρ) (a : α) : Prop :=
  ∃ before after, log = before ++ (i, r) :: after ∧
    a = (op.perform serve (op.after serve s (before.map Prod.snd)) r).2

variable {op serve} {s : σ} {r : ρ}

theorem Operation.perform_of_inl {a : α} (h : op.prepare r = .inl a) :
    op.perform serve s r = (s, a) := by
  rw [Operation.perform, h]

theorem Operation.perform_of_inr {k : κ} (h : op.prepare r = .inr k) :
    op.perform serve s r = ((serve s k).1, op.finish r (serve s k).2) := by
  rw [Operation.perform, h]

@[simp] theorem Operation.after_nil : op.after serve s [] = s := rfl

@[simp] theorem Operation.after_concat (l : List ρ) :
    op.after serve s (l ++ [r]) = (op.perform serve (op.after serve s l) r).1 := by
  simp [Operation.after]

section Takes

variable {ι : Type*} {log : List (ι × ρ)} {i : ι} {a : α}

/-- What is last in a log is answered in the state that the others lead to. -/
theorem Operation.takes_concat :
    op.Takes serve s (log ++ [(i, r)]) i r
      (op.perform serve (op.after serve s (log.map Prod.snd)) r).2 :=
  ⟨log, [], rfl, rfl⟩

/-- What comes later in a log changes no answer. -/
theorem Operation.Takes.append (h : op.Takes serve s log i r a) (l : List (ι × ρ)) :
    op.Takes serve s (log ++ l) i r a := by
  obtain ⟨before, after, rfl, ha⟩ := h
  exact ⟨before, after ++ l, by simp, ha⟩

theorem Operation.Takes.mem (h : op.Takes serve s log i r a) : (i, r) ∈ log := by
  obtain ⟨before, after, rfl, -⟩ := h
  exact List.mem_append_right before List.mem_cons_self

end Takes

end Operation

/-! ## The system -/

/-- What is under way between a client and the object. -/
inductive Wire (κ χ : Type*) where
  | silent
  | sent (call : κ)
  | result (x : χ)
  deriving DecidableEq

/-- A wire whose results are read in another way. -/
def Wire.map {κ χ χ' : Type*} (f : χ → χ') : Wire κ χ → Wire κ χ'
  | .silent => .silent
  | .sent call => .sent call
  | .result x => .result (f x)

/-- How far a client is: it waits, has its answer, or has lost its call and may have been told an
    answer all the same. -/
inductive Outcome (α : Type*) where
  | pending
  | answered (a : α)
  | lost (a : Option α)
  deriving DecidableEq

/-- The operation of a client that has asked for one. -/
structure Task (ρ κ χ α : Type*) where
  request : ρ
  wire : Wire κ χ
  outcome : Outcome α

/-- The clients and the object; the log has the operations in the order in which they took
    effect. -/
structure World (ι σ ρ κ χ α : Type*) where
  clients : ι → Option (Task ρ κ χ α)
  object : σ
  log : List (ι × ρ)

/-- What can happen. -/
inductive Event (ι ρ χ : Type*) where
  | ask (i : ι) (r : ρ)
  | execute (i : ι)
  | deliver (i : ι)
  /-- The client is told a result that is not the object's. -/
  | fail (i : ι) (x : χ)
  | abandon (i : ι)

section Log

variable {ι σ ρ κ χ α : Type*} {op : Operation ρ κ χ α} {serve : σ → κ → σ × χ}
  {w : World ι σ ρ κ χ α} {s : σ} {i : ι} {c : Task ρ κ χ α}

/-- Nobody has asked for anything. -/
def World.init (s : σ) : World ι σ ρ κ χ α where
  clients := fun _ => none
  object := s
  log := []

/-! ## The log -/

/-- What holds of the task of a client, given the log. -/
structure Task.Valid (op : Operation ρ κ χ α) (serve : σ → κ → σ × χ) (s : σ)
    (log : List (ι × ρ)) (i : ι) (c : Task ρ κ χ α) : Prop where
  sent : ∀ k, c.wire = .sent k → op.prepare c.request = .inr k ∧ i ∉ log.map Prod.fst
  result : ∀ x, c.wire = .result x → op.Takes serve s log i c.request (op.finish c.request x)
  answered : ∀ a, c.outcome = .answered a → op.Takes serve s log i c.request a

/-- The log explains the world: the object, and all that clients have been told of it. -/
structure World.Consistent (op : Operation ρ κ χ α) (serve : σ → κ → σ × χ) (s : σ)
    (w : World ι σ ρ κ χ α) : Prop where
  object : w.object = op.after serve s (w.log.map Prod.snd)
  nodup : (w.log.map Prod.fst).Nodup
  logged : ∀ i r, (i, r) ∈ w.log → ∃ c, w.clients i = some c ∧ c.request = r
  valid : ∀ i c, w.clients i = some c → c.Valid op serve s w.log i

theorem World.consistent_init : (World.init s : World ι σ ρ κ χ α).Consistent op serve s where
  object := rfl
  nodup := List.nodup_nil
  logged := by simp [World.init]
  valid := by simp [World.init]

/-- The log grows by the operations of others. -/
theorem Task.Valid.concat {log : List (ι × ρ)} (h : c.Valid op serve s log i) {j : ι} {r : ρ}
    (hne : i ≠ j) : c.Valid op serve s (log ++ [(j, r)]) i where
  sent k hk := by
    obtain ⟨hprepare, hlog⟩ := h.sent k hk
    exact ⟨hprepare, by simpa [hne] using hlog⟩
  result x hx := (h.result x hx).append _
  answered a ha := (h.answered a ha).append _

theorem World.Consistent.notMem_log (h : w.Consistent op serve s) (hi : w.clients i = none) :
    i ∉ w.log.map Prod.fst := by
  intro hmem
  obtain ⟨⟨j, r⟩, hlog, rfl⟩ := List.mem_map.mp hmem
  obtain ⟨c, hc, -⟩ := h.logged j r hlog
  rw [hi] at hc
  cases hc

end Log

/-! ## Steps -/

section Step

variable {ι σ ρ κ χ α : Type*} [DecidableEq ι] (op : Operation ρ κ χ α) (serve : σ → κ → σ × χ)

/-- The world with another task for one client. -/
def World.set (w : World ι σ ρ κ χ α) (i : ι) (c : Task ρ κ χ α) : World ι σ ρ κ χ α :=
  { w with clients := Function.update w.clients i (some c) }

/-- One step. An operation that makes no call takes effect when it is asked for, any other one when
    its call is executed. -/
def World.step (w : World ι σ ρ κ χ α) : Event ι ρ χ → Option (World ι σ ρ κ χ α)
  | .ask i r =>
    match w.clients i, op.prepare r with
    | some _, _ => none
    | none, .inl a => some { w.set i ⟨r, .silent, .answered a⟩ with log := w.log ++ [(i, r)] }
    | none, .inr k => some (w.set i ⟨r, .sent k, .pending⟩)
  | .execute i =>
    match w.clients i with
    | some ⟨r, .sent k, outcome⟩ =>
      some { w.set i ⟨r, .result (serve w.object k).2, outcome⟩ with
        object := (serve w.object k).1
        log := w.log ++ [(i, r)] }
    | _ => none
  | .deliver i =>
    match w.clients i with
    | some ⟨r, .result x, .pending⟩ => some (w.set i ⟨r, .silent, .answered (op.finish r x)⟩)
    | _ => none
  | .fail i x =>
    match w.clients i with
    | some ⟨r, wire, .pending⟩ => some (w.set i ⟨r, wire, .lost (some (op.finish r x))⟩)
    | _ => none
  | .abandon i =>
    match w.clients i with
    | some ⟨r, wire, .pending⟩ => some (w.set i ⟨r, wire, .lost none⟩)
    | _ => none

variable {op serve} {w w' : World ι σ ρ κ χ α} {s : σ} {i : ι} {c : Task ρ κ χ α}

@[simp] theorem World.set_object : (w.set i c).object = w.object := rfl

@[simp] theorem World.set_log : (w.set i c).log = w.log := rfl

@[simp] theorem World.set_clients_self : (w.set i c).clients i = some c :=
  Function.update_self ..

@[simp] theorem World.set_clients_of_ne {j : ι} (h : j ≠ i) :
    (w.set i c).clients j = w.clients j :=
  Function.update_of_ne h ..

/-- The steps of the system, one by one. -/
theorem World.step_cases {e : Event ι ρ χ} (h : w.step op serve e = some w') :
    (∃ i r a, e = .ask i r ∧ w.clients i = none ∧ op.prepare r = .inl a ∧
      w' = { w.set i ⟨r, .silent, .answered a⟩ with log := w.log ++ [(i, r)] }) ∨
    (∃ i r k, e = .ask i r ∧ w.clients i = none ∧ op.prepare r = .inr k ∧
      w' = w.set i ⟨r, .sent k, .pending⟩) ∨
    (∃ i r k outcome, e = .execute i ∧ w.clients i = some ⟨r, .sent k, outcome⟩ ∧
      w' = { w.set i ⟨r, .result (serve w.object k).2, outcome⟩ with
        object := (serve w.object k).1
        log := w.log ++ [(i, r)] }) ∨
    (∃ i r x, e = .deliver i ∧ w.clients i = some ⟨r, .result x, .pending⟩ ∧
      w' = w.set i ⟨r, .silent, .answered (op.finish r x)⟩) ∨
    (∃ i r wire o, (e = .abandon i ∧ o = none ∨
        ∃ x, e = .fail i x ∧ o = some (op.finish r x)) ∧
      w.clients i = some ⟨r, wire, .pending⟩ ∧ w' = w.set i ⟨r, wire, .lost o⟩) := by
  cases e with
  | ask i r =>
    rw [World.step] at h
    split at h
    · cases h
    · next hnone ha => exact .inl ⟨i, r, _, rfl, hnone, ha, (Option.some.inj h).symm⟩
    · next hnone hk => exact .inr (.inl ⟨i, r, _, rfl, hnone, hk, (Option.some.inj h).symm⟩)
  | execute i =>
    rw [World.step] at h
    split at h
    · next r k outcome hc =>
      exact .inr (.inr (.inl ⟨i, r, k, outcome, rfl, hc, (Option.some.inj h).symm⟩))
    · cases h
  | deliver i =>
    rw [World.step] at h
    split at h
    · next r x hc =>
      exact .inr (.inr (.inr (.inl ⟨i, r, x, rfl, hc, (Option.some.inj h).symm⟩)))
    · cases h
  | fail i x =>
    rw [World.step] at h
    split at h
    · next r wire hc =>
      exact .inr (.inr (.inr (.inr
        ⟨i, r, wire, _, .inr ⟨x, rfl, rfl⟩, hc, (Option.some.inj h).symm⟩)))
    · cases h
  | abandon i =>
    rw [World.step] at h
    split at h
    · next r wire hc =>
      exact .inr (.inr (.inr (.inr
        ⟨i, r, wire, _, .inl ⟨rfl, rfl⟩, hc, (Option.some.inj h).symm⟩)))
    · cases h

/-- A client goes on without an effect on the object. -/
theorem World.Consistent.set (h : w.Consistent op serve s) (hc : c.Valid op serve s w.log i)
    (hsame : ∀ old, w.clients i = some old → c.request = old.request) :
    (w.set i c).Consistent op serve s where
  object := h.object
  nodup := h.nodup
  logged j r hmem := by
    obtain ⟨old, hold, hr⟩ := h.logged j r hmem
    by_cases hj : j = i
    · subst hj
      exact ⟨c, World.set_clients_self, (hsame old hold).trans hr⟩
    · exact ⟨old, (World.set_clients_of_ne hj).trans hold, hr⟩
  valid j c' hj := by
    by_cases hji : j = i
    · subst hji
      have hc' : c = c' := Option.some.inj (World.set_clients_self.symm.trans hj)
      exact hc' ▸ hc
    · exact h.valid j c' ((World.set_clients_of_ne hji).symm.trans hj)

/-- The operation of a client takes effect. -/
theorem World.Consistent.log (h : w.Consistent op serve s) (hlog : i ∉ w.log.map Prod.fst)
    (hc : c.Valid op serve s (w.log ++ [(i, c.request)]) i) :
    World.Consistent op serve s
      { w.set i c with
        object := (op.perform serve w.object c.request).1
        log := w.log ++ [(i, c.request)] } where
  object := by simp [h.object]
  nodup := by
    rw [List.map_append]
    exact h.nodup.append (List.nodup_singleton i) (by simpa using hlog)
  logged j r hmem := by
    rcases List.mem_append.mp hmem with hmem | hmem
    · obtain ⟨old, hold, hr⟩ := h.logged j r hmem
      have hj : j ≠ i := fun hj => hlog (hj ▸ List.mem_map.mpr ⟨_, hmem, rfl⟩)
      exact ⟨old, (World.set_clients_of_ne hj).trans hold, hr⟩
    · cases List.mem_singleton.mp hmem
      exact ⟨c, World.set_clients_self, rfl⟩
  valid j c' hj := by
    by_cases hji : j = i
    · subst hji
      have hc' : c = c' := Option.some.inj (World.set_clients_self.symm.trans hj)
      exact hc' ▸ hc
    · exact (h.valid j c' ((World.set_clients_of_ne hji).symm.trans hj)).concat hji

/-- **One step keeps the world consistent.** -/
theorem World.Consistent.step {e : Event ι ρ χ} (h : w.Consistent op serve s)
    (hstep : w.step op serve e = some w') : w'.Consistent op serve s := by
  obtain ⟨i, r, a, rfl, hi, hprepare, rfl⟩ | ⟨i, r, k, rfl, hi, hprepare, rfl⟩ |
    ⟨i, r, k, outcome, rfl, hi, rfl⟩ | ⟨i, r, x, rfl, hi, rfl⟩ | ⟨i, r, wire, o, -, hi, rfl⟩ :=
    World.step_cases hstep
  · -- an operation that is answered at once takes effect now, and leaves the object as it is
    have htakes : op.Takes serve s (w.log ++ [(i, r)]) i r a := by
      have hlast : op.Takes serve s (w.log ++ [(i, r)]) i r _ := Operation.takes_concat
      rwa [Operation.perform_of_inl hprepare] at hlast
    have hlogged := h.log (c := ⟨r, .silent, .answered a⟩) (h.notMem_log hi)
      ⟨by simp, by simp, by simpa using htakes⟩
    simpa only [Operation.perform_of_inl hprepare, World.set_object] using hlogged
  · -- a call is sent, and nothing has happened yet
    have hlog := h.notMem_log hi
    exact h.set ⟨by simpa using ⟨hprepare, by simpa using hlog⟩, by simp, by simp⟩ (by simp [hi])
  · -- the call is executed: the operation takes effect
    have hvalid := h.valid i _ hi
    obtain ⟨hprepare, hlog⟩ := hvalid.sent k rfl
    have htakes : op.Takes serve s (w.log ++ [(i, r)]) i r (op.finish r (serve w.object k).2) := by
      have hlast : op.Takes serve s (w.log ++ [(i, r)]) i r _ := Operation.takes_concat
      rwa [Operation.perform_of_inr hprepare, ← h.object] at hlast
    have hlogged := h.log (c := ⟨r, .result (serve w.object k).2, outcome⟩) hlog
      ⟨by simp, by simpa using htakes, fun a ha => (hvalid.answered a ha).append _⟩
    simpa only [Operation.perform_of_inr hprepare] using hlogged
  · -- the result is delivered: it is the one of the operation in the log
    have htakes := (h.valid i _ hi).result x rfl
    exact h.set ⟨by simp, by simp, by simpa using htakes⟩ (by simp [hi])
  · have hvalid := h.valid i _ hi
    exact h.set ⟨hvalid.sent, hvalid.result, by simp⟩ (by simp [hi])

end Step

/-! ## Runs -/

section Runs

variable {ι σ ρ κ χ α : Type*} [DecidableEq ι] {op : Operation ρ κ χ α} {serve : σ → κ → σ × χ}
  {w w' : World ι σ ρ κ χ α} {s : σ} {t : List (Event ι ρ χ)}

/-- **Every run is linearizable.** -/
theorem World.consistent_of_run (hrun : run (World.step op serve) (World.init s) t = some w) :
    w.Consistent op serve s :=
  run_invariant World.consistent_init (fun _ _ _ h hstep => h.step hstep) hrun

/-- What has taken effect is never undone. -/
theorem World.log_prefix_of_run (hrun : run (World.step op serve) w t = some w') :
    w.log <+: w'.log := by
  apply run_invariant (P := fun v => w.log <+: v.log) (List.prefix_refl w.log) _ hrun
  intro v e v' hprefix hstep
  obtain ⟨i, r, a, -, -, -, rfl⟩ | ⟨i, r, k, -, -, -, rfl⟩ | ⟨i, r, k, outcome, -, -, rfl⟩ |
    ⟨i, r, x, -, -, rfl⟩ | ⟨i, r, wire, o, -, -, rfl⟩ := World.step_cases hstep
  · exact hprefix.trans (List.prefix_append _ _)
  · exact hprefix
  · exact hprefix.trans (List.prefix_append _ _)
  · exact hprefix
  · exact hprefix

/-- **Real time**: an operation that is answered before another one is asked takes effect before
    it. -/
theorem World.precedes_of_run (h : w.Consistent op serve s)
    (hrun : run (World.step op serve) w t = some w') {i j : ι} {c : Task ρ κ χ α} {a : α}
    (hi : w.clients i = some c) (ha : c.outcome = .answered a) (hj : w.clients j = none)
    (hlater : j ∈ w'.log.map Prod.fst) : List.Sublist [i, j] (w'.log.map Prod.fst) := by
  obtain ⟨l, hl⟩ := World.log_prefix_of_run hrun
  have hearlier : i ∈ w.log.map Prod.fst :=
    List.mem_map.mpr ⟨_, ((h.valid i c hi).answered a ha).mem, rfl⟩
  rw [← hl, List.map_append] at hlater ⊢
  -- the log so far has one of them, and the rest has the other
  have hrest : j ∈ l.map Prod.fst :=
    (List.mem_append.mp hlater).resolve_left (h.notMem_log hj)
  exact (List.singleton_sublist.mpr hearlier).append (List.singleton_sublist.mpr hrest)

/-- Every call that is lost was lost in an event. -/
def World.Explained (op : Operation ρ κ χ α) (t : List (Event ι ρ χ)) (w : World ι σ ρ κ χ α) :
    Prop :=
  ∀ i c o, w.clients i = some c → c.outcome = .lost o →
    Event.abandon i ∈ t ∧ o = none ∨ ∃ x, Event.fail i x ∈ t ∧ o = some (op.finish c.request x)

/-- A client goes on in an event that explains what it loses, if it has not lost it before. -/
theorem World.Explained.concat (h : w.Explained op t) {e : Event ι ρ χ} {i : ι}
    {c : Task ρ κ χ α} (hclients : w'.clients = (w.set i c).clients)
    (hc : ∀ o, c.outcome = .lost o →
      (∃ old, w.clients i = some old ∧ old.request = c.request ∧ old.outcome = .lost o) ∨
      (e = .abandon i ∧ o = none ∨ ∃ x, e = .fail i x ∧ o = some (op.finish c.request x))) :
    w'.Explained op (t ++ [e]) := by
  have hbefore : ∀ j old o, w.clients j = some old → old.outcome = .lost o →
      Event.abandon j ∈ t ++ [e] ∧ o = none ∨
        ∃ x, Event.fail j x ∈ t ++ [e] ∧ o = some (op.finish old.request x) := by
    intro j old o hj ho
    rcases h j old o hj ho with ⟨hmem, hnone⟩ | ⟨x, hmem, hx⟩
    · exact .inl ⟨List.mem_append_left _ hmem, hnone⟩
    · exact .inr ⟨x, List.mem_append_left _ hmem, hx⟩
  intro j c' o hj ho
  rw [hclients] at hj
  by_cases hji : j = i
  · subst hji
    obtain rfl : c = c' := Option.some.inj (World.set_clients_self.symm.trans hj)
    rcases hc o ho with ⟨old, hold, hrequest, ho'⟩ | ⟨rfl, hnone⟩ | ⟨x, rfl, hx⟩
    · exact hrequest ▸ hbefore j old o hold ho'
    · exact .inl ⟨by simp, hnone⟩
    · exact .inr ⟨x, by simp, hx⟩
  · exact hbefore j c' o ((World.set_clients_of_ne hji).symm.trans hj) ho

/-- **A call is lost** only if the client goes away, or is told a result that is not the
    object's. -/
theorem World.explained_of_run (hrun : run (World.step op serve) (World.init s) t = some w) :
    w.Explained op t := by
  apply run_history (P := fun t v => World.Explained op t v) _ _ hrun
  · intro i c o hi
    cases hi
  · intro t v e v' h hstep
    obtain ⟨i, r, a, -, -, -, rfl⟩ | ⟨i, r, k, -, -, -, rfl⟩ | ⟨i, r, k, outcome, -, hi, rfl⟩ |
      ⟨i, r, x, -, -, rfl⟩ | ⟨i, r, wire, o, he, -, rfl⟩ := World.step_cases hstep
    · exact h.concat rfl (by simp)
    · exact h.concat rfl (by simp)
    · -- a call that is lost may still be executed
      exact h.concat rfl fun o ho => .inl ⟨_, hi, rfl, ho⟩
    · exact h.concat rfl (by simp)
    · refine h.concat rfl ?_
      intro o' ho'
      cases ho'
      exact .inr he

end Runs

end GrpcGw.System
