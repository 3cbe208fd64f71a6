import GrpcGw.Service.Sending
import GrpcGw.Service.Traffic

/-!
# Requests at the Same Time

What clients and the backend see of the tasks of a gateway, in whatever order their steps come.

- `Traffic.linearizable`: the backend and the responses are those of requests that are handled one
  after another.
- `Traffic.served_once`: each call is executed at most once, and it is the call of its request.
- `Traffic.can_finish`: every task can be brought to its response without the others.
-/

namespace GrpcGw.Service

open GrpcGw.System
open GrpcGw.Transcode

/-! ## One after another -/

section Serial

variable {σ : Type*} (codec : Codec) (g : Gateway) (parsePath : String → Except String Unit)
  (serve : σ → Call → σ × Except Status Bytes)

/-- The backend after a request that is handled alone. -/
def Gateway.served (st : σ) (r : Request) : σ :=
  match g.prepare codec parsePath r with
  | .inl _ => st
  | .inr (_, call) => (serve st call).1

/-- The backend after requests that are handled one after another. -/
def Gateway.servedAll (st : σ) (l : List Request) : σ :=
  l.foldl (g.served codec parsePath serve) st

/-- In an order, a request stands where the backend answers it in this way. -/
def InOrder {ι : Type*} (st : σ) (order : List (ι × Request)) (i : ι) (r : Request)
    (response : Option Response) : Prop :=
  ∃ before after, order = before ++ (i, r) :: after ∧
    response = (g.facing parsePath serve
      (g.servedAll codec parsePath serve st (before.map Prod.snd))).dispatch codec r

variable {codec g parsePath serve} {st : σ}

theorem Gateway.operation_perform_fst (r : Request) :
    ((g.operation codec parsePath).perform (replies serve) st r).1 =
      g.served codec parsePath serve st r := by
  rw [Gateway.served]
  cases hprepare : g.prepare codec parsePath r with
  | inl response => rw [Operation.perform_of_inl (Gateway.operation_prepare_of_inl hprepare)]
  | inr found =>
    obtain ⟨entry, call⟩ := found
    rw [Operation.perform_of_inr (Gateway.operation_prepare_of_inr hprepare)]
    rfl

theorem Gateway.operation_after (l : List Request) :
    (g.operation codec parsePath).after (replies serve) st l =
      g.servedAll codec parsePath serve st l := by
  rw [Operation.after, Gateway.servedAll]
  congr
  funext st r
  exact Gateway.operation_perform_fst r

/-- The place of a request in an order is where the response of `dispatch` comes from. -/
theorem Gateway.operation_takes_iff {ι : Type*} {order : List (ι × Request)} {i : ι} {r : Request}
    {response : Option Response} :
    (g.operation codec parsePath).Takes (replies serve) st order i r response ↔
      InOrder codec g parsePath serve st order i r response := by
  simp only [Operation.Takes, InOrder, Gateway.operation_perform, Gateway.operation_after]

end Serial

/-! ## All requests -/

section Runs

variable {ι σ : Type*} [DecidableEq ι] {codec : Codec} {g : Gateway}
  {parsePath : String → Except String Unit} {serve : σ → Call → σ × Except Status Bytes}
  {st : σ} {t : List (TrafficEvent ι)} {w : Traffic ι σ} {i : ι}

/-- The request of a client is left to the backend: its channel gets ready, its call is not cut
    off, and the client stays. -/
def Undisturbed (t : List (TrafficEvent ι)) (i : ι) : Prop :=
  ∀ e ∈ t, e.about = i → e.disturbs = false

omit [DecidableEq ι] in
theorem Traffic.abstracts_init :
    (Traffic.init st : Traffic ι σ).Abstracts codec g parsePath (World.init st) where
  backend := rfl
  tasks _ := .absent

/-- A run of the traffic is a run of operations on the backend. -/
theorem Traffic.abstracts_of_run
    (hrun : run (Traffic.step codec g parsePath serve) (Traffic.init st) t = some w) :
    ∃ u, run (World.step (g.operation codec parsePath) (replies serve)) (World.init st)
        (translate (Traffic.step codec g parsePath serve) Traffic.events (Traffic.init st) t) =
          some u ∧ w.Abstracts codec g parsePath u :=
  Traffic.simulates.run Traffic.abstracts_init hrun

/-- A channel as the task of a request has met it when it was not answered by the backend. -/
inductive BrokenChannel (parsePath : String → Except String Unit) (t : List (TrafficEvent ι))
    (i : ι) : Channel → Prop where
  | notReady {e : String} {call : Call → Except Status Bytes} (h : .notReady i e ∈ t) :
      BrokenChannel parsePath t i ⟨parsePath, .error e, call⟩
  | fault {status : Status} (h : .fault i status ∈ t) :
      BrokenChannel parsePath t i ⟨parsePath, .ok (), fun _ => .error status⟩

omit [DecidableEq ι] in
theorem BrokenChannel.not_undisturbed {channel : Channel}
    (h : BrokenChannel parsePath t i channel) : ¬Undisturbed t i := by
  intro hi
  cases h with
  | notReady hmem => cases hi _ hmem rfl
  | fault hmem => cases hi _ hmem rfl

omit [DecidableEq ι] in
/-- A client is told a result that is not the backend's only by the channel. -/
theorem Traffic.broken_of_fail {e : TrafficEvent ι} {x : Except ProxyError GrpcReply} (he : e ∈ t)
    (h : Event.fail i x ∈ w.events e) (r : Request) :
    ∃ channel, BrokenChannel parsePath t i channel ∧ (g.operation codec parsePath).finish r x =
      { g with backend := .withChannel channel }.dispatch codec r := by
  cases e with
  | drop j =>
    rw [Traffic.events] at h
    split at h
    · cases h
    · cases List.mem_singleton.mp h
  | endBody j => cases hj : w.sessions j <;> simp [Traffic.events, hj] at h
  | bodyFailed j => cases hj : w.sessions j <;> simp [Traffic.events, hj] at h
  | notReady j e =>
    cases List.mem_singleton.mp h
    refine ⟨⟨parsePath, .error e, fun _ => .ok []⟩, .notReady he, ?_⟩
    rw [Gateway.dispatch_withChannel]
    rfl
  | fault j status =>
    cases List.mem_singleton.mp h
    refine ⟨⟨parsePath, .ok (), fun _ => .error status⟩, .fault he, ?_⟩
    rw [Gateway.dispatch_withChannel]
    rfl
  | _ => simp [Traffic.events] at h

/-- **Where a response comes from**: the operation of its request is answered, or its task has met a
    broken channel. -/
theorem Traffic.Abstracts.answered_or_broken
    {u : World ι σ Request Call (Except ProxyError GrpcReply) (Option Response)}
    (habs : w.Abstracts codec g parsePath u)
    (hrun : run (World.step (g.operation codec parsePath) (replies serve)) (World.init st)
      (translate (Traffic.step codec g parsePath serve) Traffic.events (Traffic.init st) t) =
        some u)
    {r : Request} {response : Option Response}
    (hsession : w.sessions i = some ⟨r, .responded response⟩) :
    (∃ c, u.clients i = some c ∧ c.request = r ∧ c.outcome = .answered response) ∨
      ∃ channel, BrokenChannel parsePath t i channel ∧
        response = { g with backend := .withChannel channel }.dispatch codec r := by
  have hself := habs.tasks i
  rw [hsession] at hself
  obtain ⟨wire, htask | htask⟩ := hself.of_responded
  · exact .inl ⟨_, htask, rfl, rfl⟩
  · -- a lost call was lost in an event of the run
    rcases World.explained_of_run hrun i _ _ htask rfl with ⟨-, hnone⟩ | ⟨x, hmem, hx⟩
    · cases hnone
    · obtain ⟨v, e, he, hf⟩ := exists_of_mem_translate hmem
      obtain ⟨channel, hbroken, hfinish⟩ := Traffic.broken_of_fail he hf r
      exact .inr ⟨channel, hbroken, (Option.some.inj hx).trans hfinish⟩

/-- An order in which requests are handled one after another, as the clients and the backend of a
    run have seen it. -/
structure Traffic.SerialOrder (codec : Codec) (g : Gateway)
    (parsePath : String → Except String Unit) (serve : σ → Call → σ × Except Status Bytes) (st : σ)
    (t : List (TrafficEvent ι)) (w : Traffic ι σ) (order : List (ι × Request)) : Prop where
  /-- Each request is handled at most once. -/
  once : (order.map Prod.fst).Nodup
  requests : ∀ i r, (i, r) ∈ order → ∃ phase, w.sessions i = some ⟨r, phase⟩ ∧ phase ≠ .reading
  backend : w.backend = g.servedAll codec parsePath serve st (order.map Prod.snd)
  /-- A request that is not answered in the order has met a broken channel. -/
  responses : ∀ i r response, w.sessions i = some ⟨r, .responded response⟩ →
    InOrder codec g parsePath serve st order i r response ∨
      ∃ channel, BrokenChannel parsePath t i channel ∧
        response = { g with backend := .withChannel channel }.dispatch codec r
  /-- A request that has its response before the body of another one has ended comes first. -/
  realTime : ∀ t₁ t₂ w₁, t = t₁ ++ t₂ →
    run (Traffic.step codec g parsePath serve) (Traffic.init st) t₁ = some w₁ →
    ∀ i j r response, Undisturbed t₁ i → w₁.sessions i = some ⟨r, .responded response⟩ →
      (∀ s ∈ w₁.sessions j, s.phase = .reading) → j ∈ order.map Prod.fst →
        List.Sublist [i, j] (order.map Prod.fst)

/-- **Requests at the same time are requests one after another**: however the steps of the tasks
    come, the backend is left as if the requests had been handled in some order, one by one, and
    every request whose channel holds is answered as it is there. -/
theorem Traffic.linearizable
    (hrun : run (Traffic.step codec g parsePath serve) (Traffic.init st) t = some w) :
    ∃ order, Traffic.SerialOrder codec g parsePath serve st t w order := by
  obtain ⟨u, hurun, habs⟩ := Traffic.abstracts_of_run hrun
  have hcons := World.consistent_of_run hurun
  refine ⟨u.log, hcons.nodup, ?_, ?_, ?_, ?_⟩
  · intro i r hmem
    obtain ⟨c, hc, rfl⟩ := hcons.logged i r hmem
    exact (hc ▸ habs.tasks i).session_of_task
  · rw [habs.backend, hcons.object, Gateway.operation_after]
  · intro i r response hsession
    rcases habs.answered_or_broken hurun hsession with ⟨c, hc, rfl, hanswered⟩ | hbroken
    · exact .inl (Gateway.operation_takes_iff.mp ((hcons.valid i c hc).answered _ hanswered))
    · exact .inr hbroken
  · intro t₁ t₂ w₁ ht hrun₁ i j r response hi hsession hj hlater
    subst ht
    obtain ⟨u₁, hurun₁, habs₁⟩ := Traffic.abstracts_of_run hrun₁
    -- the run of the operations goes on from where the first events have led it
    rw [translate_append hrun₁] at hurun
    obtain ⟨u₁', hurun₁', hrest⟩ := run_append_eq_some_iff.mp hurun
    obtain rfl : u₁ = u₁' := Option.some.inj (hurun₁.symm.trans hurun₁')
    obtain ⟨c, hc, -, hanswered⟩ | ⟨channel, hbroken, -⟩ :=
      habs₁.answered_or_broken hurun₁ hsession
    · have hnone : u₁.clients j = none := by
        have hself := habs₁.tasks j
        cases hs : w₁.sessions j with
        | none =>
          rw [hs] at hself
          exact hself.of_none.2
        | some s =>
          obtain ⟨r', phase⟩ := s
          obtain rfl : phase = .reading := hj _ hs
          rw [hs] at hself
          exact hself.of_reading.2
      exact World.precedes_of_run (World.consistent_of_run hurun₁) hrest hc hanswered hnone hlater
    · exact absurd hi hbroken.not_undisturbed

/-- A gateway for reviews. -/
def reviewGateway : Gateway where
  pool := reviewPool
  routes := Function.update (fun _ => []) "GET" [reviewEntry]
  backend := .down
  json := {}

/-- A backend that counts its calls. -/
def countCalls (n : Nat) (_ : Call) : Nat × Except Status Bytes :=
  (n + 1, .ok [])

/-- Two requests at the same time: a review that is found, and a path without a route. -/
def twoRequests : List (TrafficEvent Nat) :=
  [.arrive 0 ⟨"GET", some "/v1/reviews/5", "/v1/reviews/5", []⟩, .arrive 1 ⟨"GET", none, "/", []⟩,
    .endBody 0, .ready 0, .endBody 1, .serve 0, .reply 0]

/-- The two requests are served. -/
theorem linearizable_twoRequests : ∃ w order,
    run (Traffic.step (.ofPool reviewPool) reviewGateway (fun _ => .ok ()) countCalls)
        (Traffic.init 0) twoRequests = some w ∧
      Traffic.SerialOrder (.ofPool reviewPool) reviewGateway (fun _ => .ok ()) countCalls 0
        twoRequests w order := by
  obtain ⟨w, hw⟩ : ∃ w, run (Traffic.step (.ofPool reviewPool) reviewGateway (fun _ => .ok ())
      countCalls) (Traffic.init 0) twoRequests = some w := ⟨_, rfl⟩
  obtain ⟨order, horder⟩ := Traffic.linearizable hw
  exact ⟨w, order, hw, horder⟩

end Runs

/-! ## Calls -/

/-- Whether a task is past its wait for the channel. -/
def Phase.Started : Phase → Prop
  | .reading | .readying _ _ => False
  | .calling _ | .responded _ | .dropped => True

/-- The client whose call is executed in an event. -/
def TrafficEvent.served? {ι : Type*} : TrafficEvent ι → Option ι
  | .serve i => some i
  | _ => none

/-- The clients whose calls the backend has executed, in order. -/
def servedIn {ι : Type*} (t : List (TrafficEvent ι)) : List ι :=
  t.filterMap TrafficEvent.served?

section Calls

variable {ι σ : Type*} {codec : Codec} {g : Gateway} {parsePath : String → Except String Unit}
  {serve : σ → Call → σ × Except Status Bytes} {st : σ} {t : List (TrafficEvent ι)}
  {w w' : Traffic ι σ} {i : ι}

/-- The call that a request is to be answered with. -/
def Gateway.callFor? (codec : Codec) (g : Gateway) (parsePath : String → Except String Unit)
    (r : Request) : Option Call :=
  match g.prepare codec parsePath r with
  | .inl _ => none
  | .inr (_, call) => some call

/-- The call of the request of a client. -/
def Traffic.callOf (codec : Codec) (g : Gateway) (parsePath : String → Except String Unit)
    (w : Traffic ι σ) (i : ι) : Option Call :=
  (w.sessions i).bind fun s => g.callFor? codec parsePath s.request

/-- The calls of a run are accounted for: each one that is executed is the call of a request, and
    each one that is sent is still to be executed. -/
structure Traffic.Accounted (codec : Codec) (g : Gateway)
    (parsePath : String → Except String Unit) (serve : σ → Call → σ × Except Status Bytes) (st : σ)
    (t : List (TrafficEvent ι)) (w : Traffic ι σ) : Prop where
  once : (servedIn t).Nodup
  calls : ∃ calls : List Call, (servedIn t).map (w.callOf codec g parsePath) = calls.map some ∧
    w.backend = calls.foldl (fun st call => (serve st call).1) st
  readying : ∀ i r entry call, w.sessions i = some ⟨r, .readying entry call⟩ →
    g.prepare codec parsePath r = .inr (entry, call)
  sent : ∀ i call, w.streams i = .sent call →
    w.callOf codec g parsePath i = some call ∧ i ∉ servedIn t
  started : ∀ i, w.streams i ≠ .silent ∨ i ∈ servedIn t →
    .ready i ∈ t ∧ ∃ s, w.sessions i = some s ∧ s.phase.Started

theorem servedIn_concat_of_none {e : TrafficEvent ι} (h : e.served? = none) :
    servedIn (t ++ [e]) = servedIn t := by
  simp [servedIn, h]

theorem servedIn_concat_serve : servedIn (t ++ [.serve i]) = servedIn t ++ [i] := by
  simp [servedIn, TrafficEvent.served?]

variable [DecidableEq ι]

/-- A task goes on without a call being executed. Its request is settled once it has started. -/
theorem Traffic.Accounted.concat (h : w.Accounted codec g parsePath serve st t)
    {e : TrafficEvent ι} (he : e.served? = none) {r : Request} {phase : Phase}
    (hsessions : w'.sessions = (w.set i r phase).sessions) (hbackend : w'.backend = w.backend)
    (hgo : ∀ s, w.sessions i = some s → s.phase.Started → s.request = r ∧ phase.Started)
    (hreadying : ∀ entry call, phase = .readying entry call →
      g.prepare codec parsePath r = .inr (entry, call))
    (hstreams : ∀ j, w'.streams j = w.streams j ∨ j = i ∧ (w'.streams j = .silent ∨
      ∃ call, w'.streams j = .sent call ∧ g.callFor? codec parsePath r = some call ∧
        i ∉ servedIn t ∧ phase.Started ∧ e = .ready i)) :
    w'.Accounted codec g parsePath serve st (t ++ [e]) := by
  have hself : w'.sessions i = some ⟨r, phase⟩ := by rw [hsessions, Traffic.set_sessions_self]
  have hother : ∀ j, j ≠ i → w'.sessions j = w.sessions j := by
    intro j hj
    rw [hsessions, Traffic.set_sessions_of_ne hj]
  -- a task that has started keeps its request, and with it its call
  have hkeeps : ∀ j s, w.sessions j = some s → s.phase.Started →
      (∃ s', w'.sessions j = some s' ∧ s'.phase.Started) ∧
        w'.callOf codec g parsePath j = w.callOf codec g parsePath j := by
    intro j s hs hstarted
    by_cases hj : j = i
    · subst hj
      obtain ⟨hrequest, hphase⟩ := hgo s hs hstarted
      refine ⟨⟨_, hself, hphase⟩, ?_⟩
      rw [Traffic.callOf, Traffic.callOf, hself, hs, Option.bind_some, Option.bind_some, hrequest]
    · refine ⟨⟨s, (hother j hj).trans hs, hstarted⟩, ?_⟩
      rw [Traffic.callOf, Traffic.callOf, hother j hj]
  refine ⟨?_, ?_, ?_, ?_, ?_⟩
  · rw [servedIn_concat_of_none he]
    exact h.once
  · obtain ⟨calls, hcalls, hfold⟩ := h.calls
    refine ⟨calls, ?_, hbackend.trans hfold⟩
    rw [servedIn_concat_of_none he, ← hcalls]
    apply List.map_congr_left
    intro j hj
    obtain ⟨-, s, hs, hstarted⟩ := h.started j (.inr hj)
    exact (hkeeps j s hs hstarted).2
  · intro j r' entry call hj
    by_cases hji : j = i
    · subst hji
      rw [hself] at hj
      cases hj
      exact hreadying entry call rfl
    · exact h.readying j r' entry call ((hother j hji).symm.trans hj)
  · intro j call hj
    rw [servedIn_concat_of_none he]
    rcases hstreams j with hsame | ⟨rfl, hsilent | ⟨call', hsent, hcall, hserved, -, -⟩⟩
    · rw [hsame] at hj
      obtain ⟨-, s, hs, hstarted⟩ := h.started j (.inl (by simp [hj]))
      rw [(hkeeps j s hs hstarted).2]
      exact h.sent j call hj
    · rw [hsilent] at hj
      cases hj
    · obtain rfl : call' = call := by simpa [hsent] using hj
      refine ⟨?_, hserved⟩
      rw [Traffic.callOf, hself, Option.bind_some, hcall]
  · intro j hj
    rw [servedIn_concat_of_none he] at hj
    have hbefore : w.streams j ≠ .silent ∨ j ∈ servedIn t →
        .ready j ∈ t ++ [e] ∧ ∃ s, w'.sessions j = some s ∧ s.phase.Started := by
      intro hj
      obtain ⟨hready, s, hs, hstarted⟩ := h.started j hj
      exact ⟨List.mem_append_left _ hready, (hkeeps j s hs hstarted).1⟩
    rcases hj with hj | hj
    · rcases hstreams j with hsame | ⟨rfl, hsilent | ⟨call', -, -, -, hstarted, rfl⟩⟩
      · exact hbefore (.inl (hsame ▸ hj))
      · exact absurd hsilent hj
      · exact ⟨by simp, _, hself, hstarted⟩
    · exact hbefore (.inr hj)

/-- The backend executes a call that is sent. -/
theorem Traffic.Accounted.execute (h : w.Accounted codec g parsePath serve st t) {call : Call}
    (hi : w.streams i = .sent call) :
    Traffic.Accounted codec g parsePath serve st (t ++ [.serve i])
      { w with
        streams := Function.update w.streams i (.result (serve w.backend call).2)
        backend := (serve w.backend call).1 } := by
  obtain ⟨hcall, hserved⟩ := h.sent i call hi
  refine ⟨?_, ?_, h.readying, ?_, ?_⟩
  · rw [servedIn_concat_serve]
    exact h.once.append (List.nodup_singleton i) (by simpa using hserved)
  · obtain ⟨calls, hcalls, hfold⟩ := h.calls
    refine ⟨calls ++ [call], ?_, ?_⟩
    · rw [servedIn_concat_serve, List.map_append, List.map_append]
      exact congrArg₂ (· ++ ·) hcalls (congrArg (fun c => [c]) hcall)
    · simp [hfold]
  · intro j call' hj
    by_cases hji : j = i
    · subst hji
      simp at hj
    · rw [servedIn_concat_serve]
      simp only [Function.update_of_ne hji] at hj
      obtain ⟨hcall', hserved'⟩ := h.sent j call' hj
      exact ⟨hcall', by simp [hserved', hji]⟩
  · intro j hj
    have hold : w.streams j ≠ .silent ∨ j ∈ servedIn t := by
      by_cases hji : j = i
      · subst hji
        exact .inl (by simp [hi])
      · simpa [servedIn_concat_serve, hji] using hj
    obtain ⟨hready, hstarted⟩ := h.started j hold
    exact ⟨List.mem_append_left _ hready, hstarted⟩

/-- **One step keeps the calls accounted for.** -/
theorem Traffic.Accounted.step (h : w.Accounted codec g parsePath serve st t) {e : TrafficEvent ι}
    (hstep : w.step codec g parsePath serve e = some w') :
    w'.Accounted codec g parsePath serve st (t ++ [e]) := by
  cases Traffic.steps_of_step hstep with
  | arrive hi =>
    exact h.concat rfl rfl rfl (by simp [hi]) (by simp) fun j => .inl rfl
  | frame hi =>
    exact h.concat rfl rfl rfl (by simp [hi, Phase.Started]) (by simp) fun j => .inl rfl
  | answer hi hprepare =>
    exact h.concat rfl rfl rfl (by simp [hi, Phase.Started]) (by simp) fun j => .inl rfl
  | prepare hi hprepare =>
    refine h.concat rfl rfl rfl (by simp [hi, Phase.Started]) ?_ fun j => .inl rfl
    intro entry call hphase
    cases hphase
    exact hprepare
  | bodyFailed hi =>
    exact h.concat rfl rfl rfl (by simp [hi, Phase.Started]) (by simp) fun j => .inl rfl
  | @ready i r entry call hi =>
    refine h.concat rfl rfl rfl (by simp [hi, Phase.Started]) (by simp) fun j => ?_
    by_cases hj : j = i
    · subst hj
      -- the call is the one that the task has prepared, and it has not been sent before
      have hcall : g.callFor? codec parsePath r = some call := by
        rw [Gateway.callFor?, h.readying j r entry call hi]
      have hserved : j ∉ servedIn t := by
        intro hmem
        obtain ⟨-, s, hs, hstarted⟩ := h.started j (.inr hmem)
        cases hi.symm.trans hs
        exact hstarted
      exact .inr ⟨rfl, .inr ⟨call, Function.update_self .., hcall, hserved, trivial, rfl⟩⟩
    · exact .inl (Function.update_of_ne hj ..)
  | notReady hi =>
    exact h.concat rfl rfl rfl (by simp [hi, Phase.Started]) (by simp) fun j => .inl rfl
  | serve hi => exact h.execute hi
  | @reply i r entry x hi hx =>
    refine h.concat rfl rfl rfl (by simp [hi, Phase.Started]) (by simp) fun j => ?_
    by_cases hj : j = i
    · subst hj
      exact .inr ⟨rfl, .inl (Function.update_self ..)⟩
    · exact .inl (Function.update_of_ne hj ..)
  | fault hi =>
    exact h.concat rfl rfl rfl (by simp [hi, Phase.Started]) (by simp) fun j => .inl rfl
  | drop hi hphase =>
    exact h.concat rfl rfl rfl (by simp [hi, Phase.Started]) (by simp) fun j => .inl rfl

omit [DecidableEq ι] in
theorem Traffic.accounted_init :
    (Traffic.init st : Traffic ι σ).Accounted codec g parsePath serve st [] where
  once := List.nodup_nil
  calls := ⟨[], rfl, rfl⟩
  readying := by simp [Traffic.init]
  sent := by simp [Traffic.init]
  started := by simp [Traffic.init, servedIn]

theorem Traffic.accounted_of_run
    (hrun : run (Traffic.step codec g parsePath serve) (Traffic.init st) t = some w) :
    w.Accounted codec g parsePath serve st t :=
  run_history Traffic.accounted_init (fun _ _ _ _ h hstep => h.step hstep) hrun

/-- **No call is lost, made up or made twice**: the backend executes the call of a request at most
    once, after its channel has become ready, and nothing else. -/
theorem Traffic.served_once
    (hrun : run (Traffic.step codec g parsePath serve) (Traffic.init st) t = some w) :
    (servedIn t).Nodup ∧ (∀ i ∈ servedIn t, .ready i ∈ t) ∧
      ∃ calls : List Call, (servedIn t).map (w.callOf codec g parsePath) = calls.map some ∧
        w.backend = calls.foldl (fun st call => (serve st call).1) st := by
  have haccounted := Traffic.accounted_of_run hrun
  exact ⟨haccounted.once, fun i hi => (haccounted.started i (.inr hi)).1, haccounted.calls⟩

/-- One of the two requests is executed. -/
theorem served_once_twoRequests : ∃ w : Traffic Nat Nat,
    run (Traffic.step (.ofPool reviewPool) reviewGateway (fun _ => .ok ()) countCalls)
        (Traffic.init 0) twoRequests = some w ∧
      (servedIn twoRequests).Nodup ∧ (∀ i ∈ servedIn twoRequests, .ready i ∈ twoRequests) ∧
      ∃ calls : List Call,
        (servedIn twoRequests).map (w.callOf (.ofPool reviewPool) reviewGateway fun _ => .ok ()) =
          calls.map some ∧
        w.backend = calls.foldl (fun st call => (countCalls st call).1) 0 := by
  obtain ⟨w, hw⟩ : ∃ w, run (Traffic.step (.ofPool reviewPool) reviewGateway (fun _ => .ok ())
      countCalls) (Traffic.init 0) twoRequests = some w := ⟨_, rfl⟩
  exact ⟨w, hw, Traffic.served_once hw⟩

end Calls

/-! ## Progress -/

section Progress

variable {ι σ : Type*} [DecidableEq ι] {codec : Codec} {b : GatewayBuilder} {g : Gateway}
  {parsePath : String → Except String Unit} {serve : σ → Call → σ × Except Status Bytes} {st : σ}
  {t : List (TrafficEvent ι)} {w w' : Traffic ι σ} {i : ι} {r : Request}

/-- A built gateway can do its work with any backend. -/
theorem build_withBackend (h : b.build codec = .ok g) (client : GrpcClient) :
    { b with backend := some client }.build codec = .ok { g with backend := client } := by
  obtain ⟨backend, pool, routes, -, hpool, hresolve, rfl⟩ := build_eq_ok_iff.mp h
  exact build_eq_ok_iff.mpr ⟨client, pool, routes, rfl, hpool, hresolve, rfl⟩

/-- The tasks of a built gateway do not panic. -/
theorem Gateway.prepare_ne_panic (h : b.build codec = .ok g) :
    g.prepare codec parsePath r ≠ .inl none := by
  intro hpanic
  have hdispatch : { g with backend := .withChannel ⟨parsePath, .ok (), fun _ => .ok []⟩ }.dispatch
      codec r = none := by
    rw [Gateway.dispatch_withChannel, hpanic]
  unfold Gateway.dispatch at hdispatch
  split at hdispatch
  · cases hdispatch
  · exact Gateway.handle_ne_none (build_withBackend h _) _ _ _ _ hdispatch

/-- Every task that waits for the reply has its call on the way. -/
def Traffic.Carried {ι σ : Type*} (w : Traffic ι σ) : Prop :=
  ∀ i r entry, w.sessions i = some ⟨r, .calling entry⟩ → w.streams i ≠ .silent

theorem Traffic.Carried.set (h : w.Carried) {phase : Phase}
    (hphase : ∀ entry, phase ≠ .calling entry) : (w.set i r phase).Carried := by
  intro j r' entry hj
  by_cases hji : j = i
  · subst hji
    rw [Traffic.set_sessions_self] at hj
    cases hj
    exact absurd rfl (hphase entry)
  · exact h j r' entry ((Traffic.set_sessions_of_ne hji).symm.trans hj)

theorem Traffic.Carried.step (h : w.Carried) {e : TrafficEvent ι}
    (hstep : w.step codec g parsePath serve e = some w') : w'.Carried := by
  cases Traffic.steps_of_step hstep with
  | arrive hi => exact h.set (by simp)
  | frame hi => exact h.set (by simp)
  | answer hi hprepare => exact h.set (by simp)
  | prepare hi hprepare => exact h.set (by simp)
  | bodyFailed hi => exact h.set (by simp)
  | @ready i r entry call hi =>
    intro j r' entry' hj
    by_cases hji : j = i
    · subst hji
      simp
    · have hj' : w.sessions j = some ⟨r', .calling entry'⟩ :=
        (Traffic.set_sessions_of_ne hji).symm.trans hj
      simpa [hji] using h j r' entry' hj'
  | notReady hi => exact h.set (by simp)
  | @serve i call hi =>
    intro j r' entry' hj
    by_cases hji : j = i
    · subst hji
      simp
    · simpa [hji] using h j r' entry' hj
  | @reply i r entry x hi hx =>
    intro j r' entry' hj
    by_cases hji : j = i
    · subst hji
      simp at hj
    · have hj' : w.sessions j = some ⟨r', .calling entry'⟩ :=
        (Traffic.set_sessions_of_ne hji).symm.trans hj
      simpa [hji] using h j r' entry' hj'
  | fault hi => exact h.set (by simp)
  | drop hi hphase => exact h.set (by simp)

theorem Traffic.carried_of_run
    (hrun : run (Traffic.step codec g parsePath serve) (Traffic.init st) t = some w) :
    w.Carried := by
  apply run_invariant (P := Traffic.Carried) _ (fun _ _ _ h hstep => h.step hstep) hrun
  intro i r entry hi
  cases hi

/-- The task of a request can be brought to its response by events of its own, and the other tasks
    are as they were. -/
def Traffic.CanRespond (codec : Codec) (g : Gateway) (parsePath : String → Except String Unit)
    (serve : σ → Call → σ × Except Status Bytes) (w : Traffic ι σ) (i : ι) (r : Request) : Prop :=
  ∃ t w' response, (∀ e ∈ t, e.about = i ∧ e.disturbs = false) ∧
    run (Traffic.step codec g parsePath serve) w t = some w' ∧
    w'.sessions i = some ⟨r, .responded (some response)⟩ ∧
    ∀ j, j ≠ i → w'.sessions j = w.sessions j ∧ w'.streams j = w.streams j

theorem Traffic.canRespond_of_responded {response : Response}
    (h : w.sessions i = some ⟨r, .responded (some response)⟩) :
    w.CanRespond codec g parsePath serve i r :=
  ⟨[], w, response, by simp, rfl, h, fun _ _ => ⟨rfl, rfl⟩⟩

/-- One more event of the task. -/
theorem Traffic.CanRespond.cons (h : w'.CanRespond codec g parsePath serve i r)
    {e : TrafficEvent ι} (he : e.about = i ∧ e.disturbs = false)
    (hstep : w.step codec g parsePath serve e = some w')
    (hothers : ∀ j, j ≠ i → w'.sessions j = w.sessions j ∧ w'.streams j = w.streams j) :
    w.CanRespond codec g parsePath serve i r := by
  obtain ⟨t, v, response, ht, hrun, hresponse, hsame⟩ := h
  refine ⟨e :: t, v, response, ?_, run_cons hstep hrun, hresponse, ?_⟩
  · intro e' he'
    rcases List.mem_cons.mp he' with rfl | he'
    · exact he
    · exact ht e' he'
  · intro j hj
    obtain ⟨hsessions, hstreams⟩ := hsame j hj
    obtain ⟨hsessions', hstreams'⟩ := hothers j hj
    exact ⟨hsessions.trans hsessions', hstreams.trans hstreams'⟩

/-- The reply is on the way. -/
theorem Traffic.canRespond_of_result {entry : Entry} {x : Except Status Bytes}
    (hi : w.sessions i = some ⟨r, .calling entry⟩) (hx : w.streams i = .result x) :
    w.CanRespond codec g parsePath serve i r := by
  have hstep : w.step codec g parsePath serve (.reply i) = some
      { w.set i r (.responded (some (g.finish codec entry (.ok (replyOf x))))) with
        streams := Function.update w.streams i .silent } := by
    simp only [Traffic.step, hi, hx]
  refine Traffic.CanRespond.cons ?_ ⟨rfl, rfl⟩ hstep ?_
  · apply Traffic.canRespond_of_responded
    exact Traffic.set_sessions_self
  · intro j hj
    simp [hj]

/-- The call is on the way. -/
theorem Traffic.canRespond_of_calling {entry : Entry}
    (hi : w.sessions i = some ⟨r, .calling entry⟩) (hstream : w.streams i ≠ .silent) :
    w.CanRespond codec g parsePath serve i r := by
  cases hs : w.streams i with
  | silent => exact absurd hs hstream
  | result x => exact Traffic.canRespond_of_result hi hs
  | sent call =>
    have hstep : w.step codec g parsePath serve (.serve i) = some
        { w with
          streams := Function.update w.streams i (.result (serve w.backend call).2)
          backend := (serve w.backend call).1 } := by
      simp only [Traffic.step, hs]
    refine Traffic.CanRespond.cons ?_ ⟨rfl, rfl⟩ hstep ?_
    · apply Traffic.canRespond_of_result
      · exact hi
      · exact Function.update_self ..
    · intro j hj
      simp [hj]

theorem Traffic.canRespond_of_readying {entry : Entry} {call : Call}
    (hi : w.sessions i = some ⟨r, .readying entry call⟩) :
    w.CanRespond codec g parsePath serve i r := by
  have hstep : w.step codec g parsePath serve (.ready i) = some
      { w.set i r (.calling entry) with streams := Function.update w.streams i (.sent call) } := by
    simp only [Traffic.step, hi]
  refine Traffic.CanRespond.cons ?_ ⟨rfl, rfl⟩ hstep ?_
  · apply Traffic.canRespond_of_calling
    · exact Traffic.set_sessions_self
    · simp
  · intro j hj
    simp [hj]

/-- **No task is stuck, and none waits for another one**: in every state of a built gateway, a task
    that is not done can be brought to its response by its own events, whatever the others do. -/
theorem Traffic.can_finish (hbuild : b.build codec = .ok g)
    (hrun : run (Traffic.step codec g parsePath serve) (Traffic.init st) t = some w) {phase : Phase}
    (hi : w.sessions i = some ⟨r, phase⟩)
    (hopen : (∀ response, phase ≠ .responded response) ∧ phase ≠ .dropped) :
    w.CanRespond codec g parsePath serve i r := by
  cases phase with
  | reading =>
    cases hprepare : g.prepare codec parsePath r with
    | inl response =>
      have hstep : w.step codec g parsePath serve (.endBody i) =
          some (w.set i r (.responded response)) := by
        simp only [Traffic.step, hi, hprepare]
      cases response with
      | none => exact absurd hprepare (Gateway.prepare_ne_panic hbuild)
      | some response =>
        refine Traffic.CanRespond.cons
          (Traffic.canRespond_of_responded Traffic.set_sessions_self) ⟨rfl, rfl⟩ hstep ?_
        intro j hj
        simp [hj]
    | inr found =>
      obtain ⟨entry, call⟩ := found
      have hstep : w.step codec g parsePath serve (.endBody i) =
          some (w.set i r (.readying entry call)) := by
        simp only [Traffic.step, hi, hprepare]
      refine Traffic.CanRespond.cons (Traffic.canRespond_of_readying Traffic.set_sessions_self)
        ⟨rfl, rfl⟩ hstep ?_
      intro j hj
      simp [hj]
  | readying entry call => exact Traffic.canRespond_of_readying hi
  | calling entry =>
    exact Traffic.canRespond_of_calling hi (Traffic.carried_of_run hrun i r entry hi)
  | responded response => exact absurd rfl (hopen.1 response)
  | dropped => exact absurd rfl hopen.2

/-- A request for a review has just arrived. -/
theorem can_finish_review : ∃ g, reviewBuilder.build (.ofPool reviewPool) = .ok g ∧
    Traffic.CanRespond (.ofPool reviewPool) g (fun _ => .ok ()) countCalls
      ((Traffic.init 0).set 0 ⟨⟨"GET", none, "/v1/reviews/5", []⟩, some []⟩ .reading) 0
      ⟨⟨"GET", none, "/v1/reviews/5", []⟩, some []⟩ := by
  obtain ⟨g, hg, -⟩ := review_build
  have hrun : run (Traffic.step (.ofPool reviewPool) g (fun _ => .ok ()) countCalls)
      (Traffic.init 0) [.arrive 0 ⟨"GET", none, "/v1/reviews/5", []⟩] =
      some ((Traffic.init 0).set 0 ⟨⟨"GET", none, "/v1/reviews/5", []⟩, some []⟩ .reading) := rfl
  exact ⟨g, hg, Traffic.can_finish hg hrun Traffic.set_sessions_self (by simp)⟩

end Progress

end GrpcGw.Service
