import GrpcGw.Service.Proxy

/-!
# The Tasks of a Gateway

A gateway serves many requests at once (`serve_connection`, `tower::Service::call`): each one runs
as a task of its own (`dispatch`), which waits for the body, for the channel and for the reply. The
tasks share the gateway and the backend, and their steps come in any order.

- `Traffic.steps_of_step`: the steps of the tasks, one by one.
- `Traffic.simulates`: the traffic is a system of operations on the backend.
-/

namespace GrpcGw.Service

open GrpcGw.System
open GrpcGw.Transcode

/-! ## Tasks -/

/-- How far the task of a request is; a task that is not done is at one of its waits. -/
inductive Phase where
  /-- `body.collect().await` -/
  | reading
  /-- `grpc.ready().await` -/
  | readying (entry : Entry) (call : Call)
  /-- `grpc.unary(..).await` -/
  | calling (entry : Entry)
  /-- A panic has no response. -/
  | responded (response : Option Response)
  | dropped
  deriving DecidableEq, Repr

/-- The task of a request, with the part of the body that is read. -/
structure Session where
  request : Request
  phase : Phase
  deriving DecidableEq, Repr

/-- The tasks, the streams of their calls, and the backend. -/
structure Traffic (ι σ : Type*) where
  sessions : ι → Option Session
  streams : ι → Wire Call (Except Status Bytes)
  backend : σ

/-- What can happen. -/
inductive TrafficEvent (ι : Type*) where
  | arrive (i : ι) (head : Head)
  | frame (i : ι) (data : Bytes)
  | endBody (i : ι)
  | bodyFailed (i : ι)
  | ready (i : ι)
  | notReady (i : ι) (e : String)
  /-- The backend executes the call of a request. -/
  | serve (i : ι)
  | reply (i : ι)
  /-- The transport reports a status of its own. -/
  | fault (i : ι) (status : Status)
  /-- The client goes away, and the task is dropped. -/
  | drop (i : ι)
  deriving DecidableEq, Repr

/-- The request that an event is about. -/
def TrafficEvent.about {ι : Type*} : TrafficEvent ι → ι
  | .arrive i _ | .frame i _ | .endBody i | .bodyFailed i | .ready i | .notReady i _ | .serve i
  | .reply i | .fault i _ | .drop i => i

/-- Whether an event keeps a request from its answer by the backend. -/
def TrafficEvent.disturbs {ι : Type*} : TrafficEvent ι → Bool
  | .notReady _ _ | .fault _ _ | .drop _ => true
  | _ => false

section Traffic

variable {ι σ : Type*} [DecidableEq ι] (codec : Codec) (g : Gateway)
  (parsePath : String → Except String Unit) (serve : σ → Call → σ × Except Status Bytes)

/-- No request has arrived. -/
def Traffic.init (st : σ) : Traffic ι σ where
  sessions := fun _ => none
  streams := fun _ => .silent
  backend := st

/-- The traffic after a task has gone on. -/
def Traffic.set (w : Traffic ι σ) (i : ι) (request : Request) (phase : Phase) : Traffic ι σ :=
  { w with sessions := Function.update w.sessions i (some ⟨request, phase⟩) }

/-- One step. -/
def Traffic.step (w : Traffic ι σ) : TrafficEvent ι → Option (Traffic ι σ)
  | .arrive i head =>
    match w.sessions i with
    | none => some (w.set i ⟨head, some []⟩ .reading)
    | some _ => none
  | .frame i data =>
    match w.sessions i with
    | some ⟨⟨head, some body⟩, .reading⟩ =>
      some (w.set i ⟨head, some (body ++ data)⟩ .reading)
    | _ => none
  | .endBody i =>
    match w.sessions i with
    | some ⟨r, .reading⟩ =>
      match g.prepare codec parsePath r with
      | .inl response => some (w.set i r (.responded response))
      | .inr (entry, call) => some (w.set i r (.readying entry call))
    | _ => none
  | .bodyFailed i =>
    match w.sessions i with
    | some ⟨r, .reading⟩ =>
      some (w.set i { r with body := none }
        (.responded (some (errorResponse .internal "failed to read request body"))))
    | _ => none
  | .ready i =>
    match w.sessions i with
    | some ⟨r, .readying entry call⟩ =>
      some { w.set i r (.calling entry) with
        streams := Function.update w.streams i (.sent call) }
    | _ => none
  | .notReady i e =>
    match w.sessions i with
    | some ⟨r, .readying entry _⟩ =>
      some (w.set i r (.responded (some (g.finish codec entry (.error (.notReady e))))))
    | _ => none
  | .serve i =>
    match w.streams i with
    | .sent call =>
      some { w with
        streams := Function.update w.streams i (.result (serve w.backend call).2)
        backend := (serve w.backend call).1 }
    | _ => none
  | .reply i =>
    match w.sessions i, w.streams i with
    | some ⟨r, .calling entry⟩, .result x =>
      some { w.set i r (.responded (some (g.finish codec entry (.ok (replyOf x))))) with
        streams := Function.update w.streams i .silent }
    | _, _ => none
  | .fault i status =>
    match w.sessions i with
    | some ⟨r, .calling entry⟩ =>
      some (w.set i r
        (.responded (some (g.finish codec entry (.ok (replyFromStatus status))))))
    | _ => none
  | .drop i =>
    match w.sessions i with
    | some ⟨r, .reading⟩ | some ⟨r, .readying _ _⟩ | some ⟨r, .calling _⟩ =>
      some (w.set i r .dropped)
    | _ => none

end Traffic

/-! ## What a step does -/

section Set

variable {ι σ : Type*} [DecidableEq ι] {w : Traffic ι σ} {i : ι} {r : Request} {phase : Phase}

@[simp] theorem Traffic.set_streams : (w.set i r phase).streams = w.streams := rfl

@[simp] theorem Traffic.set_backend : (w.set i r phase).backend = w.backend := rfl

@[simp] theorem Traffic.set_sessions_self : (w.set i r phase).sessions i = some ⟨r, phase⟩ :=
  Function.update_self ..

@[simp] theorem Traffic.set_sessions_of_ne {j : ι} (h : j ≠ i) :
    (w.set i r phase).sessions j = w.sessions j :=
  Function.update_of_ne h ..

end Set

section Step

variable {ι σ : Type*} [DecidableEq ι] {codec : Codec} {g : Gateway}
  {parsePath : String → Except String Unit} {serve : σ → Call → σ × Except Status Bytes}
  {w w' : Traffic ι σ} {i : ι}

/-- The steps, one by one. -/
inductive Traffic.Steps (codec : Codec) (g : Gateway) (parsePath : String → Except String Unit)
    (serve : σ → Call → σ × Except Status Bytes) (w : Traffic ι σ) :
    TrafficEvent ι → Traffic ι σ → Prop where
  | arrive {i : ι} {head : Head} (hi : w.sessions i = none) :
      Steps codec g parsePath serve w (.arrive i head) (w.set i ⟨head, some []⟩ .reading)
  | frame {i : ι} {head : Head} {body data : Bytes}
      (hi : w.sessions i = some ⟨⟨head, some body⟩, .reading⟩) :
      Steps codec g parsePath serve w (.frame i data)
        (w.set i ⟨head, some (body ++ data)⟩ .reading)
  | answer {i : ι} {r : Request} {response : Option Response}
      (hi : w.sessions i = some ⟨r, .reading⟩)
      (hprepare : g.prepare codec parsePath r = .inl response) :
      Steps codec g parsePath serve w (.endBody i) (w.set i r (.responded response))
  | prepare {i : ι} {r : Request} {entry : Entry} {call : Call}
      (hi : w.sessions i = some ⟨r, .reading⟩)
      (hprepare : g.prepare codec parsePath r = .inr (entry, call)) :
      Steps codec g parsePath serve w (.endBody i) (w.set i r (.readying entry call))
  | bodyFailed {i : ι} {r : Request} (hi : w.sessions i = some ⟨r, .reading⟩) :
      Steps codec g parsePath serve w (.bodyFailed i)
        (w.set i { r with body := none }
          (.responded (some (errorResponse .internal "failed to read request body"))))
  | ready {i : ι} {r : Request} {entry : Entry} {call : Call}
      (hi : w.sessions i = some ⟨r, .readying entry call⟩) :
      Steps codec g parsePath serve w (.ready i)
        { w.set i r (.calling entry) with streams := Function.update w.streams i (.sent call) }
  | notReady {i : ι} {r : Request} {entry : Entry} {call : Call} {e : String}
      (hi : w.sessions i = some ⟨r, .readying entry call⟩) :
      Steps codec g parsePath serve w (.notReady i e)
        (w.set i r (.responded (some (g.finish codec entry (.error (.notReady e))))))
  | serve {i : ι} {call : Call} (hi : w.streams i = .sent call) :
      Steps codec g parsePath serve w (.serve i)
        { w with
          streams := Function.update w.streams i (.result (serve w.backend call).2)
          backend := (serve w.backend call).1 }
  | reply {i : ι} {r : Request} {entry : Entry} {x : Except Status Bytes}
      (hi : w.sessions i = some ⟨r, .calling entry⟩) (hx : w.streams i = .result x) :
      Steps codec g parsePath serve w (.reply i)
        { w.set i r (.responded (some (g.finish codec entry (.ok (replyOf x))))) with
          streams := Function.update w.streams i .silent }
  | fault {i : ι} {r : Request} {entry : Entry} {status : Status}
      (hi : w.sessions i = some ⟨r, .calling entry⟩) :
      Steps codec g parsePath serve w (.fault i status)
        (w.set i r (.responded (some (g.finish codec entry (.ok (replyFromStatus status))))))
  | drop {i : ι} {r : Request} {phase : Phase} (hi : w.sessions i = some ⟨r, phase⟩)
      (hphase : (∀ response, phase ≠ .responded response) ∧ phase ≠ .dropped) :
      Steps codec g parsePath serve w (.drop i) (w.set i r .dropped)

theorem Traffic.steps_of_step {e : TrafficEvent ι}
    (h : w.step codec g parsePath serve e = some w') :
    w.Steps codec g parsePath serve e w' := by
  cases e with
  | arrive i head =>
    rw [Traffic.step] at h
    split at h
    · next hi => exact Option.some.inj h ▸ .arrive hi
    · cases h
  | frame i data =>
    rw [Traffic.step] at h
    split at h
    · next head body hi => exact Option.some.inj h ▸ .frame hi
    · cases h
  | endBody i =>
    rw [Traffic.step] at h
    split at h
    · next r hi =>
      split at h
      · next hprepare => exact Option.some.inj h ▸ .answer hi hprepare
      · next hprepare => exact Option.some.inj h ▸ .prepare hi hprepare
    · cases h
  | bodyFailed i =>
    rw [Traffic.step] at h
    split at h
    · next r hi => exact Option.some.inj h ▸ .bodyFailed hi
    · cases h
  | ready i =>
    rw [Traffic.step] at h
    split at h
    · next r entry call hi => exact Option.some.inj h ▸ .ready hi
    · cases h
  | notReady i e =>
    rw [Traffic.step] at h
    split at h
    · next r entry call hi => exact Option.some.inj h ▸ .notReady hi
    · cases h
  | serve i =>
    rw [Traffic.step] at h
    split at h
    · next call hi => exact Option.some.inj h ▸ .serve hi
    · cases h
  | reply i =>
    rw [Traffic.step] at h
    split at h
    · next r entry x hi hx => exact Option.some.inj h ▸ .reply hi hx
    · cases h
  | fault i status =>
    rw [Traffic.step] at h
    split at h
    · next r entry hi => exact Option.some.inj h ▸ .fault hi
    · cases h
  | drop i =>
    rw [Traffic.step] at h
    split at h
    · next r hi => exact Option.some.inj h ▸ .drop hi (by simp)
    · next r entry call hi => exact Option.some.inj h ▸ .drop hi (by simp)
    · next r entry hi => exact Option.some.inj h ▸ .drop hi (by simp)
    · cases h

end Step

/-! ## The simulation -/

/-- The events of the operations of the clients in an event of the traffic. A client asks when its
    body has ended, and gives up only after that. -/
def Traffic.events {ι σ : Type*} (w : Traffic ι σ) :
    TrafficEvent ι → List (Event ι Request (Except ProxyError GrpcReply))
  | .endBody i => (w.sessions i).elim [] fun s => [.ask i s.request]
  | .bodyFailed i => (w.sessions i).elim [] fun s => [.ask i { s.request with body := none }]
  | .notReady i e => [.fail i (.error (.notReady e))]
  | .serve i => [.execute i]
  | .reply i => [.deliver i]
  | .fault i status => [.fail i (.ok (replyFromStatus status))]
  | .drop i =>
    match w.sessions i with
    | some ⟨_, .reading⟩ => []
    | _ => [.abandon i]
  | _ => []

section Simulation

variable {ι σ : Type*} [DecidableEq ι] {codec : Codec} {g : Gateway}
  {parsePath : String → Except String Unit} {serve : σ → Call → σ × Except Status Bytes}
  {w w' : Traffic ι σ} {i : ι}
  {u : World ι σ Request Call (Except ProxyError GrpcReply) (Option Response)}

/-- A stream as the operation sees it: its call counts as sent before the channel is ready, and the
    stream of a call that is never made stays silent. -/
def StreamMatches (stream : Wire Call (Except Status Bytes))
    (wire : Wire Call (Except ProxyError GrpcReply)) : Prop :=
  stream = .silent ∨ wire = stream.map fun x => .ok (replyOf x)

/-- A task and its stream as an operation. -/
inductive Traffic.Matches (codec : Codec) (g : Gateway) (parsePath : String → Except String Unit) :
    Option Session → Wire Call (Except Status Bytes) →
      Option (Task Request Call (Except ProxyError GrpcReply) (Option Response)) → Prop where
  | absent : Matches codec g parsePath none .silent none
  | reading {r : Request} : Matches codec g parsePath (some ⟨r, .reading⟩) .silent none
  /-- The client goes away before its body has ended. -/
  | left {r : Request} : Matches codec g parsePath (some ⟨r, .dropped⟩) .silent none
  | readying {r : Request} {entry : Entry} {call : Call}
      (hprepare : g.prepare codec parsePath r = .inr (entry, call)) :
      Matches codec g parsePath (some ⟨r, .readying entry call⟩) .silent
        (some ⟨r, .sent call, .pending⟩)
  | calling {r : Request} {entry : Entry} {call : Call}
      {stream : Wire Call (Except Status Bytes)}
      {wire : Wire Call (Except ProxyError GrpcReply)}
      (hprepare : g.prepare codec parsePath r = .inr (entry, call))
      (hstream : StreamMatches stream wire) :
      Matches codec g parsePath (some ⟨r, .calling entry⟩) stream (some ⟨r, wire, .pending⟩)
  | answered {r : Request} {response : Option Response}
      {stream : Wire Call (Except Status Bytes)}
      {wire : Wire Call (Except ProxyError GrpcReply)} (hstream : StreamMatches stream wire) :
      Matches codec g parsePath (some ⟨r, .responded response⟩) stream
        (some ⟨r, wire, .answered response⟩)
  | failed {r : Request} {response : Option Response}
      {stream : Wire Call (Except Status Bytes)}
      {wire : Wire Call (Except ProxyError GrpcReply)} (hstream : StreamMatches stream wire) :
      Matches codec g parsePath (some ⟨r, .responded response⟩) stream
        (some ⟨r, wire, .lost (some response)⟩)
  | dropped {r : Request} {stream : Wire Call (Except Status Bytes)}
      {wire : Wire Call (Except ProxyError GrpcReply)} (hstream : StreamMatches stream wire) :
      Matches codec g parsePath (some ⟨r, .dropped⟩) stream (some ⟨r, wire, .lost none⟩)

section Matches

variable {session : Option Session} {stream : Wire Call (Except Status Bytes)}
  {task : Option (Task Request Call (Except ProxyError GrpcReply) (Option Response))}
  {r : Request} {entry : Entry} {call : Call}

theorem Traffic.Matches.of_none (h : Traffic.Matches codec g parsePath none stream task) :
    stream = .silent ∧ task = none := by
  cases h
  exact ⟨rfl, rfl⟩

theorem Traffic.Matches.of_reading
    (h : Traffic.Matches codec g parsePath (some ⟨r, .reading⟩) stream task) :
    stream = .silent ∧ task = none := by
  cases h
  exact ⟨rfl, rfl⟩

theorem Traffic.Matches.of_readying
    (h : Traffic.Matches codec g parsePath (some ⟨r, .readying entry call⟩) stream task) :
    stream = .silent ∧ task = some ⟨r, .sent call, .pending⟩ ∧
      g.prepare codec parsePath r = .inr (entry, call) := by
  cases h with
  | readying hprepare => exact ⟨rfl, rfl, hprepare⟩

theorem Traffic.Matches.of_calling
    (h : Traffic.Matches codec g parsePath (some ⟨r, .calling entry⟩) stream task) :
    ∃ call wire, task = some ⟨r, wire, .pending⟩ ∧ StreamMatches stream wire ∧
      g.prepare codec parsePath r = .inr (entry, call) := by
  cases h with
  | calling hprepare hstream => exact ⟨_, _, rfl, hstream, hprepare⟩

theorem Traffic.Matches.of_responded {response : Option Response}
    (h : Traffic.Matches codec g parsePath (some ⟨r, .responded response⟩) stream task) :
    ∃ wire, task = some ⟨r, wire, .answered response⟩ ∨
      task = some ⟨r, wire, .lost (some response)⟩ := by
  cases h with
  | answered hstream => exact ⟨_, .inl rfl⟩
  | failed hstream => exact ⟨_, .inr rfl⟩

/-- An operation is the one of a request whose body has ended. -/
theorem Traffic.Matches.session_of_task
    {c : Task Request Call (Except ProxyError GrpcReply) (Option Response)}
    (h : Traffic.Matches codec g parsePath session stream (some c)) :
    ∃ phase, session = some ⟨c.request, phase⟩ ∧ phase ≠ .reading := by
  cases h with
  | readying hprepare => exact ⟨_, rfl, by simp⟩
  | calling hprepare hstream => exact ⟨_, rfl, by simp⟩
  | answered hstream => exact ⟨_, rfl, by simp⟩
  | failed hstream => exact ⟨_, rfl, by simp⟩
  | dropped hstream => exact ⟨_, rfl, by simp⟩

/-- A call that is sent is the call of an operation, and so is its result. -/
theorem Traffic.Matches.of_sent
    (h : Traffic.Matches codec g parsePath session (.sent call) task) :
    ∃ r outcome, task = some ⟨r, .sent call, outcome⟩ ∧ ∀ x,
      Traffic.Matches codec g parsePath session (.result x)
        (some ⟨r, .result (.ok (replyOf x)), outcome⟩) := by
  have hwire : ∀ {wire : Wire Call (Except ProxyError GrpcReply)},
      StreamMatches (.sent call) wire → wire = .sent call := by
    intro wire hstream
    rcases hstream with hsilent | hwire
    · cases hsilent
    · exact hwire
  cases h with
  | calling hprepare hstream =>
    cases hwire hstream
    exact ⟨_, _, rfl, fun x => .calling hprepare (.inr rfl)⟩
  | answered hstream =>
    cases hwire hstream
    exact ⟨_, _, rfl, fun x => .answered (.inr rfl)⟩
  | failed hstream =>
    cases hwire hstream
    exact ⟨_, _, rfl, fun x => .failed (.inr rfl)⟩
  | dropped hstream =>
    cases hwire hstream
    exact ⟨_, _, rfl, fun x => .dropped (.inr rfl)⟩

end Matches

/-- The traffic as operations on the backend. -/
structure Traffic.Abstracts (codec : Codec) (g : Gateway)
    (parsePath : String → Except String Unit) (w : Traffic ι σ)
    (u : World ι σ Request Call (Except ProxyError GrpcReply) (Option Response)) : Prop where
  backend : w.backend = u.object
  tasks : ∀ i, Traffic.Matches codec g parsePath (w.sessions i) (w.streams i) (u.clients i)

/-- One task goes on, and the others stay as they are. -/
theorem Traffic.Abstracts.update (h : w.Abstracts codec g parsePath u)
    {u' : World ι σ Request Call (Except ProxyError GrpcReply) (Option Response)} (i : ι)
    (hbackend : w'.backend = u'.object)
    (hself : Traffic.Matches codec g parsePath (w'.sessions i) (w'.streams i) (u'.clients i))
    (hothers : ∀ j, j ≠ i → w'.sessions j = w.sessions j ∧ w'.streams j = w.streams j ∧
      u'.clients j = u.clients j) :
    w'.Abstracts codec g parsePath u' where
  backend := hbackend
  tasks j := by
    by_cases hj : j = i
    · exact hj ▸ hself
    · obtain ⟨hsession, hstream, hclient⟩ := hothers j hj
      rw [hsession, hstream, hclient]
      exact h.tasks j

omit [DecidableEq ι] in
/-- The operation of a session. -/
theorem Traffic.Abstracts.task (h : w.Abstracts codec g parsePath u) {session : Option Session}
    (hi : w.sessions i = session) :
    Traffic.Matches codec g parsePath session (w.streams i) (u.clients i) :=
  hi ▸ h.tasks i

/-- A task goes on, and the operations stay as they are. -/
theorem Traffic.Abstracts.stay (h : w.Abstracts codec g parsePath u) {r : Request} {phase : Phase}
    (hself : Traffic.Matches codec g parsePath (some ⟨r, phase⟩) (w.streams i) (u.clients i)) :
    (w.set i r phase).Abstracts codec g parsePath u := by
  refine h.update i h.backend ?_ fun j hj => ⟨by simp [hj], rfl, rfl⟩
  rw [Traffic.set_sessions_self, Traffic.set_streams]
  exact hself

/-- A task goes on with its operation, and the streams stay as they are. -/
theorem Traffic.Abstracts.advance (h : w.Abstracts codec g parsePath u) {r : Request}
    {phase : Phase} {c : Task Request Call (Except ProxyError GrpcReply) (Option Response)}
    (hself : Traffic.Matches codec g parsePath (some ⟨r, phase⟩) (w.streams i) (some c))
    (log : List (ι × Request)) :
    (w.set i r phase).Abstracts codec g parsePath { u.set i c with log := log } := by
  refine h.update i h.backend ?_ fun j hj => ⟨by simp [hj], rfl, by simp [hj]⟩
  rw [Traffic.set_sessions_self, Traffic.set_streams]
  change Traffic.Matches codec g parsePath _ _ ((u.set i c).clients i)
  rw [World.set_clients_self]
  exact hself

/-- **The traffic is a system of operations on the backend.** -/
theorem Traffic.simulates :
    Simulates (Traffic.step codec g parsePath serve)
      (World.step (g.operation codec parsePath) (replies serve))
      (Traffic.Abstracts (ι := ι) codec g parsePath) Traffic.events := by
  intro w u e w' habs hstep
  cases Traffic.steps_of_step hstep with
  | @arrive i head hi =>
    obtain ⟨hstream, hclient⟩ := (habs.task hi).of_none
    refine ⟨u, rfl, habs.stay ?_⟩
    rw [hstream, hclient]
    exact .reading
  | @frame i head body data hi =>
    obtain ⟨hstream, hclient⟩ := (habs.task hi).of_reading
    refine ⟨u, rfl, habs.stay ?_⟩
    rw [hstream, hclient]
    exact .reading
  | @answer i r response hi hprepare =>
    obtain ⟨hstream, hclient⟩ := (habs.task hi).of_reading
    refine ⟨_, ?_, habs.advance (c := ⟨r, .silent, _⟩) (.answered (.inl hstream))
      (u.log ++ [(i, r)])⟩
    simp only [Traffic.events, hi, Option.elim_some, run_singleton, World.step, hclient,
      Gateway.operation_prepare_of_inl hprepare]
  | @prepare i r entry call hi hprepare =>
    obtain ⟨hstream, hclient⟩ := (habs.task hi).of_reading
    have hself : Traffic.Matches codec g parsePath (some ⟨r, .readying entry call⟩) (w.streams i)
        (some ⟨r, .sent call, .pending⟩) := hstream ▸ .readying hprepare
    refine ⟨_, ?_, habs.advance hself u.log⟩
    simp only [Traffic.events, hi, Option.elim_some, run_singleton, World.step, hclient,
      Gateway.operation_prepare_of_inr hprepare]
    rfl
  | @bodyFailed i r hi =>
    obtain ⟨hstream, hclient⟩ := (habs.task hi).of_reading
    have hprepare : g.prepare codec parsePath { r with body := none } =
        .inl (some (errorResponse .internal "failed to read request body")) := rfl
    refine ⟨_, ?_, habs.advance (c := ⟨_, .silent, _⟩) (.answered (.inl hstream))
      (u.log ++ [(i, { r with body := none })])⟩
    simp only [Traffic.events, hi, Option.elim_some, run_singleton, World.step, hclient,
      Gateway.operation_prepare_of_inl hprepare]
  | @ready i r entry call hi =>
    obtain ⟨-, hclient, hprepare⟩ := (habs.task hi).of_readying
    refine ⟨u, rfl, habs.update i habs.backend ?_ fun j hj => ⟨by simp [hj], by simp [hj], rfl⟩⟩
    -- the operation has sent its call already
    change Traffic.Matches codec g parsePath ((w.set i r (.calling entry)).sessions i)
      (Function.update w.streams i (.sent call) i) (u.clients i)
    rw [Traffic.set_sessions_self, Function.update_self, hclient]
    exact .calling hprepare (.inr rfl)
  | @notReady i r entry call e hi =>
    obtain ⟨hstream, hclient, hprepare⟩ := (habs.task hi).of_readying
    refine ⟨_, ?_, habs.advance (c := ⟨r, .sent call, _⟩) (.failed (.inl hstream)) u.log⟩
    simp only [Traffic.events, run_singleton, World.step, hclient,
      Gateway.operation_finish hprepare]
    rfl
  | @serve i call hi =>
    have hself := habs.tasks i
    rw [hi] at hself
    obtain ⟨r, outcome, hclient, hresult⟩ := hself.of_sent
    refine ⟨{ u.set i ⟨r, .result (replies serve u.object call).2, outcome⟩ with
        object := (replies serve u.object call).1
        log := u.log ++ [(i, r)] }, ?_,
      habs.update i ?_ ?_ fun j hj => ⟨rfl, by simp [hj], by simp [hj]⟩⟩
    · simp only [Traffic.events, run_singleton, World.step, hclient]
    · simp [replies, habs.backend]
    · change Traffic.Matches codec g parsePath (w.sessions i)
        (Function.update w.streams i (.result (serve w.backend call).2) i) _
      rw [Function.update_self, World.set_clients_self, replies, ← habs.backend]
      exact hresult (serve w.backend call).2
  | @reply i r entry x hi hx =>
    have hself := habs.task hi
    rw [hx] at hself
    obtain ⟨call, wire, hclient, hstream, hprepare⟩ := hself.of_calling
    have hwire : wire = .result (.ok (replyOf x)) := hstream.resolve_left (by simp)
    subst hwire
    refine ⟨u.set i ⟨r, .silent, .answered (some (g.finish codec entry (.ok (replyOf x))))⟩, ?_,
      habs.update i habs.backend ?_ fun j hj => ⟨by simp [hj], by simp [hj], by simp [hj]⟩⟩
    · simp only [Traffic.events, run_singleton, World.step, hclient,
        Gateway.operation_finish hprepare]
    · rw [World.set_clients_self]
      change Traffic.Matches codec g parsePath
        ((w.set i r (.responded (some (g.finish codec entry (.ok (replyOf x)))))).sessions i)
        (Function.update w.streams i .silent i) _
      rw [Traffic.set_sessions_self, Function.update_self]
      exact .answered (.inl rfl)
  | @fault i r entry status hi =>
    obtain ⟨call, wire, hclient, hstream, hprepare⟩ := (habs.task hi).of_calling
    refine ⟨_, ?_, habs.advance (.failed hstream) u.log⟩
    simp only [Traffic.events, run_singleton, World.step, hclient,
      Gateway.operation_finish hprepare]
    rfl
  | @drop i r phase hi hphase =>
    have hself := habs.task hi
    cases phase with
    | reading =>
      -- the operation has not begun
      obtain ⟨hstream, hclient⟩ := hself.of_reading
      refine ⟨u, by simp [Traffic.events, hi], habs.stay ?_⟩
      rw [hstream, hclient]
      exact .left
    | readying entry call =>
      obtain ⟨hstream, hclient, -⟩ := hself.of_readying
      refine ⟨_, ?_, habs.advance (c := ⟨r, .sent call, _⟩) (.dropped (.inl hstream)) u.log⟩
      simp only [Traffic.events, hi, run_singleton, World.step, hclient]
      rfl
    | calling entry =>
      obtain ⟨call, wire, hclient, hstream, -⟩ := hself.of_calling
      refine ⟨_, ?_, habs.advance (.dropped hstream) u.log⟩
      simp only [Traffic.events, hi, run_singleton, World.step, hclient]
      rfl
    | responded response => exact absurd rfl (hphase.1 response)
    | dropped => exact absurd rfl hphase.2

end Simulation

end GrpcGw.Service
