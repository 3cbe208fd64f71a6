import GrpcGw.Service.Concurrent

/-!
# Headers That Are Not Forwarded

`forwarded_metadata` copies the headers of an allow-list. The other headers of a request have no
influence at all: not on any response, not on the backend, and not on any other request.

- `Traffic.step_forwarded`: a step without these headers is the same step.
- `Traffic.headers_noninterference`: traffic that differs in these headers only looks the same.
-/

namespace GrpcGw.Service

open GrpcGw.System
open GrpcGw.Transcode

/-! ## Requests -/

/-- The headers on the allow-list. -/
def Head.forwarded (head : Head) : Head :=
  { head with headers := head.headers.filter fun h => forwardedHeaders.contains h.1 }

/-- A request without the other headers. -/
def Request.forwarded (r : Request) : Request :=
  { r with head := r.head.forwarded }

@[simp] theorem Request.forwarded_mk (head : Head) (body : Option Bytes) :
    Request.forwarded ⟨head, body⟩ = ⟨head.forwarded, body⟩ := rfl

/-- Only the allow-list is copied. -/
theorem forwardedMetadata_filter (headers : Headers) :
    forwardedMetadata (headers.filter fun h => forwardedHeaders.contains h.1) =
      forwardedMetadata headers := by
  unfold forwardedMetadata
  apply List.flatMap_congr
  intro name hname
  rw [List.filter_filter]
  apply List.filter_congr
  intro h _
  by_cases heq : h.1 = name
  · simp [heq, hname]
  · simp [heq]

section Prepare

variable {codec : Codec} {g : Gateway} {parsePath : String → Except String Unit}

/-- The gateway prepares the same answer, or the same call. -/
@[simp] theorem Gateway.prepare_forwarded (r : Request) :
    g.prepare codec parsePath r.forwarded = g.prepare codec parsePath r := by
  obtain ⟨head, body⟩ := r
  have hmetadata : forwardedMetadata head.forwarded.headers = forwardedMetadata head.headers :=
    forwardedMetadata_filter head.headers
  have hmethod : head.forwarded.method = head.method := rfl
  have htarget : head.forwarded.target = head.target := rfl
  simp only [Gateway.prepare, Request.forwarded, hmethod, htarget, hmetadata]

end Prepare

/-! ## Traffic -/

section Traffic

variable {ι σ : Type*}

/-- A session without the other headers. -/
def Session.forwarded (s : Session) : Session :=
  { s with request := s.request.forwarded }

@[simp] theorem Session.forwarded_mk (r : Request) (phase : Phase) :
    Session.forwarded ⟨r, phase⟩ = ⟨r.forwarded, phase⟩ := rfl

/-- An event without the other headers. -/
def TrafficEvent.forwarded : TrafficEvent ι → TrafficEvent ι
  | .arrive i head => .arrive i head.forwarded
  | e => e

/-- Traffic without the other headers. -/
def Traffic.forwarded (w : Traffic ι σ) : Traffic ι σ :=
  { w with sessions := fun i => (w.sessions i).map Session.forwarded }

/-- What is seen of the traffic: how far each request is, with its response, what is on the
    streams, and the state of the backend. -/
def Traffic.observed (w : Traffic ι σ) :
    (ι → Option Phase) × (ι → Wire Call (Except Status Bytes)) × σ :=
  (fun i => (w.sessions i).map Session.phase, w.streams, w.backend)

theorem Traffic.observed_forwarded (w : Traffic ι σ) : w.forwarded.observed = w.observed := by
  simp only [Traffic.observed, Traffic.forwarded, Option.map_map]
  rfl

@[simp] theorem Traffic.forwarded_sessions (w : Traffic ι σ) (i : ι) :
    w.forwarded.sessions i = (w.sessions i).map Session.forwarded := rfl

@[simp] theorem Traffic.forwarded_streams (w : Traffic ι σ) : w.forwarded.streams = w.streams := rfl

@[simp] theorem Traffic.forwarded_backend (w : Traffic ι σ) : w.forwarded.backend = w.backend := rfl

variable [DecidableEq ι]

@[simp] theorem Traffic.set_forwarded (w : Traffic ι σ) (i : ι) (r : Request) (phase : Phase) :
    (w.set i r phase).forwarded = w.forwarded.set i r.forwarded phase := by
  unfold Traffic.set Traffic.forwarded
  congr
  funext j
  exact Function.apply_update (fun _ => Option.map Session.forwarded) w.sessions i _ j

variable {codec : Codec} {g : Gateway} {parsePath : String → Except String Unit}
  {serve : σ → Call → σ × Except Status Bytes}

/-- **A step without these headers is the same step.** -/
theorem Traffic.step_forwarded (w : Traffic ι σ) (e : TrafficEvent ι) :
    w.forwarded.step codec g parsePath serve e.forwarded =
      (w.step codec g parsePath serve e).map Traffic.forwarded := by
  cases e with
  | arrive i head =>
    cases hi : w.sessions i <;> simp [Traffic.step, TrafficEvent.forwarded, hi]
  | frame i data =>
    rcases hi : w.sessions i with _ | ⟨⟨head, _ | body⟩, phase⟩
    · simp [Traffic.step, TrafficEvent.forwarded, hi]
    · simp [Traffic.step, TrafficEvent.forwarded, hi]
    · cases phase <;> simp [Traffic.step, TrafficEvent.forwarded, hi]
  | endBody i =>
    rcases hi : w.sessions i with _ | ⟨r, phase⟩
    · simp [Traffic.step, TrafficEvent.forwarded, hi]
    · cases phase with
      | reading =>
        -- what is prepared does not depend on these headers
        cases hprepare : g.prepare codec parsePath r <;>
          simp [Traffic.step, TrafficEvent.forwarded, hi, hprepare]
      | _ => simp [Traffic.step, TrafficEvent.forwarded, hi]
  | bodyFailed i =>
    rcases hi : w.sessions i with _ | ⟨⟨head, body⟩, phase⟩
    · simp [Traffic.step, TrafficEvent.forwarded, hi]
    · cases phase <;> simp [Traffic.step, TrafficEvent.forwarded, hi]
  | ready i =>
    rcases hi : w.sessions i with _ | ⟨r, phase⟩
    · simp [Traffic.step, TrafficEvent.forwarded, hi]
    · cases phase with
      | readying entry call =>
        simp only [Traffic.step, TrafficEvent.forwarded, Traffic.forwarded_sessions, hi,
          Option.map_some, Session.forwarded_mk, ← Traffic.set_forwarded]
        rfl
      | _ => simp [Traffic.step, TrafficEvent.forwarded, hi]
  | notReady i e =>
    rcases hi : w.sessions i with _ | ⟨r, phase⟩
    · simp [Traffic.step, TrafficEvent.forwarded, hi]
    · cases phase <;> simp [Traffic.step, TrafficEvent.forwarded, hi]
  | serve i =>
    -- the backend has no more than the call
    cases hi : w.streams i with
    | sent call =>
      simp only [Traffic.step, TrafficEvent.forwarded, Traffic.forwarded_streams, hi]
      rfl
    | _ => simp [Traffic.step, TrafficEvent.forwarded, hi]
  | reply i =>
    rcases hi : w.sessions i with _ | ⟨r, phase⟩
    · simp [Traffic.step, TrafficEvent.forwarded, hi]
    · cases phase with
      | calling entry =>
        cases hx : w.streams i with
        | result x =>
          simp only [Traffic.step, TrafficEvent.forwarded, Traffic.forwarded_sessions,
            Traffic.forwarded_streams, hi, hx, Option.map_some, Session.forwarded_mk,
            ← Traffic.set_forwarded]
          rfl
        | _ => simp [Traffic.step, TrafficEvent.forwarded, hi, hx]
      | _ => simp [Traffic.step, TrafficEvent.forwarded, hi]
  | fault i status =>
    rcases hi : w.sessions i with _ | ⟨r, phase⟩
    · simp [Traffic.step, TrafficEvent.forwarded, hi]
    · cases phase <;> simp [Traffic.step, TrafficEvent.forwarded, hi]
  | drop i =>
    rcases hi : w.sessions i with _ | ⟨r, phase⟩
    · simp [Traffic.step, TrafficEvent.forwarded, hi]
    · cases phase <;> simp [Traffic.step, TrafficEvent.forwarded, hi]

/-- A run without these headers is the same run. -/
theorem Traffic.run_forwarded (t : List (TrafficEvent ι)) (st : σ) :
    run (Traffic.step codec g parsePath serve) (Traffic.init st) (t.map TrafficEvent.forwarded) =
      (run (Traffic.step codec g parsePath serve) (Traffic.init st) t).map Traffic.forwarded :=
  run_map (s := Traffic.init st) Traffic.step_forwarded

/-- **Traffic that differs in headers that are not forwarded looks the same**: the same events can
    happen, every request is as far and has the same response, and the streams and the backend are
    the same. -/
theorem Traffic.headers_noninterference {t t' : List (TrafficEvent ι)}
    (h : t.map TrafficEvent.forwarded = t'.map TrafficEvent.forwarded) (st : σ) :
    (run (Traffic.step codec g parsePath serve) (Traffic.init st) t).map Traffic.observed =
      (run (Traffic.step codec g parsePath serve) (Traffic.init st) t').map Traffic.observed := by
  have hrun : ∀ t : List (TrafficEvent ι),
      (run (Traffic.step codec g parsePath serve) (Traffic.init st) t).map Traffic.observed =
        (run (Traffic.step codec g parsePath serve) (Traffic.init st)
          (t.map TrafficEvent.forwarded)).map Traffic.observed := by
    intro t
    rw [Traffic.run_forwarded, Option.map_map]
    exact Option.map_congr fun w _ => w.observed_forwarded.symm
  rw [hrun t, hrun t', h]

end Traffic

/-- A request with a cookie. -/
def cookieRequest (cookie : String) : List (TrafficEvent Nat) :=
  [.arrive 0 ⟨"GET", some "/v1/reviews/5", "/v1/reviews/5", [("cookie", cookie)]⟩, .endBody 0,
    .ready 0, .serve 0, .reply 0]

/-- Nobody sees the cookie. -/
theorem headers_noninterference_cookie :
    (run (Traffic.step (.ofPool reviewPool) reviewGateway (fun _ => .ok ()) countCalls)
        (Traffic.init 0) (cookieRequest "a")).map Traffic.observed =
      (run (Traffic.step (.ofPool reviewPool) reviewGateway (fun _ => .ok ()) countCalls)
        (Traffic.init 0) (cookieRequest "b")).map Traffic.observed := by
  have hforwarded : (cookieRequest "a").map TrafficEvent.forwarded =
      (cookieRequest "b").map TrafficEvent.forwarded := by decide
  exact Traffic.headers_noninterference hforwarded 0

end GrpcGw.Service
