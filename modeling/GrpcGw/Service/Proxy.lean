import GrpcGw.Service.Handle
import GrpcGw.System.Remote

/-!
# The Client of a Backend

`GrpcClient::unary` (`proxy.rs`) over a channel: the call is sent once the channel is ready, and a
status that is not OK is an answer like any other. `dispatch` (`gateway.rs`) waits for the body and
for that call; this module has the part of it before the call and the part after.

- `Gateway.dispatch_withChannel`: the two parts are the whole.
-/

namespace GrpcGw.Service

open GrpcGw.System
open GrpcGw.Transcode

/-! ## Calls -/

/-- What is sent to a backend. -/
structure Call where
  grpcPath : String
  message : Bytes
  metadata : Headers
  deriving DecidableEq, Repr

/-- The status of a call that has failed. -/
structure Status where
  code : Int32
  message : String
  deriving DecidableEq, Repr

/-- Why a call is not answered. -/
inductive ProxyError where
  | endpoint (e : String)
  | invalidPath (e : String)
  | notReady (e : String)
  deriving DecidableEq, Repr

/-- `Display` of a proxy error. -/
def ProxyError.toText : ProxyError → String
  | .endpoint e => "invalid backend endpoint: " ++ e
  | .invalidPath e => "invalid gRPC method path: " ++ e
  | .notReady e => "backend channel not ready: " ++ e

/-- `reply_from_status`. -/
def replyFromStatus (status : Status) : GrpcReply where
  status := .fromI32 status.code
  message := status.message
  messageBytes := none

/-- The reply of `unary` for what the channel gives back. -/
def replyOf : Except Status Bytes → GrpcReply
  | .ok bytes => { status := .ok, message := "", messageBytes := some bytes }
  | .error status => replyFromStatus status

/-- What a client relies on: the parser of URI paths, and a channel that becomes ready and carries
    calls. -/
structure Channel where
  parsePath : String → Except String Unit
  ready : Except String Unit
  call : Call → Except Status Bytes

/-- `GrpcClient::unary`. -/
def Channel.unary (channel : Channel) (call : Call) : Except ProxyError GrpcReply :=
  match channel.parsePath call.grpcPath with
  | .error e => .error (.invalidPath e)
  | .ok () =>
    match channel.ready with
    | .error e => .error (.notReady e)
    | .ok () => .ok (replyOf (channel.call call))

/-- `GrpcClient::with_channel`; the gateway shows its failures as text. -/
def GrpcClient.withChannel (channel : Channel) : GrpcClient where
  unary grpcPath message metadata :=
    (channel.unary ⟨grpcPath, message, metadata⟩).mapError ProxyError.toText

/-! ## Requests -/

/-- The head of an HTTP request. Its URI may have no path and query, but has a path. -/
structure Head where
  method : String
  pathAndQuery : Option String
  path : String
  headers : Headers
  deriving DecidableEq, Repr

/-- The request target that `dispatch` passes on. -/
def Head.target (head : Head) : String :=
  head.pathAndQuery.getD head.path

/-- A request with what is read of its body; none if the body cannot be read. -/
structure Request where
  head : Head
  body : Option Bytes
  deriving DecidableEq, Repr

section Handle

variable (codec : Codec) (g : Gateway)

/-- `dispatch`. -/
def Gateway.dispatch (r : Request) : Option Response :=
  match r.body with
  | none => some (errorResponse .internal "failed to read request body")
  | some body => g.handle codec r.head.method r.head.target r.head.headers body

/-- `dispatch` before the call: the answer, or the endpoint and the call that is made for it. -/
def Gateway.prepare (parsePath : String → Except String Unit) (r : Request) :
    Option Response ⊕ (Entry × Call) :=
  match r.body with
  | none => .inl (some (errorResponse .internal "failed to read request body"))
  | some body =>
    match g.select r.head.method r.head.target with
    | none =>
      .inl (some (errorResponse .notFound
        ("no route for " ++ r.head.method ++ " " ++ r.head.target)))
    | some (entry, captures) =>
      if entry.serverStreaming then
        .inl (some (errorResponse .unimplemented "server-streaming methods are not supported yet"))
      else
        match entry.buildRequest codec g.pool captures (splitQuery r.head.target).2 body g.json with
        | .error e => .inl (e.toStatus.map fun (code, message) => errorResponse code message)
        | .ok input =>
          match parsePath entry.grpcPath with
          | .error e => .inl (some (errorResponse .unavailable (ProxyError.invalidPath e).toText))
          | .ok () =>
            .inr (entry, ⟨entry.grpcPath, codec.encodeMessage g.pool input,
              forwardedMetadata r.head.headers⟩)

/-- `dispatch` after the call. -/
def Gateway.finish (entry : Entry) : Except ProxyError GrpcReply → Response
  | .error e => errorResponse .unavailable e.toText
  | .ok reply => entry.renderReply codec g.pool reply g.json

/-- A request is an operation on the backend. -/
def Gateway.operation (parsePath : String → Except String Unit) :
    Operation Request Call (Except ProxyError GrpcReply) (Option Response) where
  prepare r := (g.prepare codec parsePath r).map id Prod.snd
  finish r x :=
    match g.prepare codec parsePath r with
    | .inl response => response
    | .inr (entry, _) => some (g.finish codec entry x)

variable {codec g}

/-- **The two parts of `dispatch` are the whole**, for any channel under the client. -/
theorem Gateway.dispatch_withChannel (channel : Channel) (r : Request) :
    { g with backend := .withChannel channel }.dispatch codec r =
      match g.prepare codec channel.parsePath r with
      | .inl response => response
      | .inr (entry, call) =>
        some (g.finish codec entry
          (match channel.ready with
          | .error e => .error (.notReady e)
          | .ok () => .ok (replyOf (channel.call call)))) := by
  have hselect : Gateway.select { g with backend := .withChannel channel } r.head.method
      r.head.target = g.select r.head.method r.head.target := rfl
  unfold Gateway.dispatch Gateway.prepare
  cases r.body with
  | none => rfl
  | some body =>
    simp only [Gateway.handle, hselect]
    cases g.select r.head.method r.head.target with
    | none => rfl
    | some found =>
      obtain ⟨entry, captures⟩ := found
      simp only
      split
      · rfl
      · cases entry.buildRequest codec g.pool captures (splitQuery r.head.target).2 body g.json with
        | error e => rfl
        | ok input =>
          simp only [GrpcClient.withChannel, Channel.unary]
          -- the client fails before the call, while it waits for the channel, or not at all
          cases channel.parsePath entry.grpcPath with
          | error e => rfl
          | ok _ =>
            cases channel.ready with
            | error e => rfl
            | ok _ => rfl

/-- The gateway with its backend in a given state. -/
def Gateway.facing (g : Gateway) {σ : Type*} (parsePath : String → Except String Unit)
    (serve : σ → Call → σ × Except Status Bytes) (st : σ) : Gateway :=
  { g with backend := .withChannel ⟨parsePath, .ok (), fun call => (serve st call).2⟩ }

/-- The backend as the client of a channel sees it. -/
def replies {σ : Type*} (serve : σ → Call → σ × Except Status Bytes) (st : σ) (call : Call) :
    σ × Except ProxyError GrpcReply :=
  ((serve st call).1, .ok (replyOf (serve st call).2))

section Operation

variable {parsePath : String → Except String Unit} {r : Request} {response : Option Response}
  {entry : Entry} {call : Call}

theorem Gateway.operation_prepare_of_inl (h : g.prepare codec parsePath r = .inl response) :
    (g.operation codec parsePath).prepare r = .inl response := by
  simp [Gateway.operation, h]

theorem Gateway.operation_prepare_of_inr (h : g.prepare codec parsePath r = .inr (entry, call)) :
    (g.operation codec parsePath).prepare r = .inr call := by
  simp [Gateway.operation, h]

theorem Gateway.operation_finish (h : g.prepare codec parsePath r = .inr (entry, call))
    (x : Except ProxyError GrpcReply) :
    (g.operation codec parsePath).finish r x = some (g.finish codec entry x) := by
  simp [Gateway.operation, h]

/-- The operation of a request is answered as `dispatch` answers the request. -/
theorem Gateway.operation_perform {σ : Type*} (serve : σ → Call → σ × Except Status Bytes)
    (st : σ) (r : Request) :
    ((g.operation codec parsePath).perform (replies serve) st r).2 =
      (g.facing parsePath serve st).dispatch codec r := by
  rw [Gateway.facing, Gateway.dispatch_withChannel]
  cases hprepare : g.prepare codec parsePath r with
  | inl response => rw [Operation.perform_of_inl (Gateway.operation_prepare_of_inl hprepare)]
  | inr found =>
    obtain ⟨entry, call⟩ := found
    rw [Operation.perform_of_inr (Gateway.operation_prepare_of_inr hprepare),
      Gateway.operation_finish hprepare]
    rfl

end Operation

end Handle

end GrpcGw.Service
