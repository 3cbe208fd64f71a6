import GrpcGw.Transcode.Json

/-!
# Statuses and Responses

`status.rs` and the response builders of `gateway.rs`: gRPC status codes, their HTTP mapping and
the JSON error envelope.
-/

namespace GrpcGw.Service

open GrpcGw.Transcode

/-! ## Codes -/

/-- A gRPC status code, in the order of its numbers 0–16. -/
inductive Code where
  | ok
  | cancelled
  | unknown
  | invalidArgument
  | deadlineExceeded
  | notFound
  | alreadyExists
  | permissionDenied
  | resourceExhausted
  | failedPrecondition
  | aborted
  | outOfRange
  | unimplemented
  | internal
  | unavailable
  | dataLoss
  | unauthenticated
  deriving DecidableEq, Repr

/-- `Code::as_i32`. -/
def Code.asI32 (c : Code) : Int32 :=
  Int32.ofNat c.ctorIdx

/-- `Code::from_i32`: numbers out of range fold to `unknown`. -/
def Code.fromI32 (n : Int32) : Code :=
  if n = 0 then .ok
  else if n = 1 then .cancelled
  else if n = 2 then .unknown
  else if n = 3 then .invalidArgument
  else if n = 4 then .deadlineExceeded
  else if n = 5 then .notFound
  else if n = 6 then .alreadyExists
  else if n = 7 then .permissionDenied
  else if n = 8 then .resourceExhausted
  else if n = 9 then .failedPrecondition
  else if n = 10 then .aborted
  else if n = 11 then .outOfRange
  else if n = 12 then .unimplemented
  else if n = 13 then .internal
  else if n = 14 then .unavailable
  else if n = 15 then .dataLoss
  else if n = 16 then .unauthenticated
  else .unknown

/-- `Code::http_status`. -/
def Code.httpStatus : Code → Nat
  | .ok => 200
  | .cancelled => 499
  | .unknown => 500
  | .invalidArgument => 400
  | .deadlineExceeded => 504
  | .notFound => 404
  | .alreadyExists => 409
  | .permissionDenied => 403
  | .resourceExhausted => 429
  | .failedPrecondition => 400
  | .aborted => 409
  | .outOfRange => 400
  | .unimplemented => 501
  | .internal => 500
  | .unavailable => 503
  | .dataLoss => 500
  | .unauthenticated => 401

/-- Reading back the number of a code gives the code. -/
@[simp] theorem Code.fromI32_asI32 (c : Code) : Code.fromI32 c.asI32 = c := by
  cases c <;> decide

/-! ## Responses -/

/-- The error envelope; it has no details. -/
structure ErrorEnvelope where
  code : Int32
  message : String
  deriving DecidableEq, Repr

/-- `ErrorEnvelope::new`. -/
def ErrorEnvelope.new (code : Code) (message : String) : ErrorEnvelope :=
  { code := code.asI32, message := message }

/-- `ErrorEnvelope::http_status`. -/
def ErrorEnvelope.httpStatus (env : ErrorEnvelope) : Nat :=
  (Code.fromI32 env.code).httpStatus

/-- The body of a response: an error envelope, or JSON that is already rendered. -/
inductive ResponseBody where
  | envelope (env : ErrorEnvelope)
  | json (bytes : Bytes)
  deriving DecidableEq, Repr

/-- A response; its content type is always `application/json`. -/
structure Response where
  status : Nat
  body : ResponseBody
  deriving DecidableEq, Repr

/-- `json_response`. -/
def jsonResponse (status : Nat) (body : ResponseBody) : Response :=
  { status := status, body := body }

/-- `error_response`. -/
def errorResponse (code : Code) (message : String) : Response :=
  let env := ErrorEnvelope.new code message
  jsonResponse env.httpStatus (.envelope env)

/-- An error response is served with the HTTP status of its code. -/
@[simp] theorem errorResponse_status (code : Code) (message : String) :
    (errorResponse code message).status = code.httpStatus := by
  simp [errorResponse, jsonResponse, ErrorEnvelope.httpStatus, ErrorEnvelope.new]

end GrpcGw.Service
