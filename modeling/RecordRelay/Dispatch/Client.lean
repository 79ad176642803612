/-! One encoded batch on its way to a peer, the status a peer answers with and what can keep a
request from being answered. -/
namespace RecordRelay

def forwardingPath : String := "/event/forward"

structure ForwardRequest where
  destination : String
  pipeline : String
  plugin : String
  payload : List UInt8
  deriving DecidableEq

inductive ForwardStatus where
  | ok
  | badRequest
  | notFound
  | requestTimeout
  | payloadTooLarge
  | tooManyRequests
  | internalError
  | serviceUnavailable
  | other (code : UInt16)
  deriving DecidableEq, Repr

namespace ForwardStatus

def ofCode (code : UInt16) : ForwardStatus :=
  if code = 200 then ok
  else if code = 400 then badRequest
  else if code = 404 then notFound
  else if code = 408 then requestTimeout
  else if code = 413 then payloadTooLarge
  else if code = 429 then tooManyRequests
  else if code = 500 then internalError
  else if code = 503 then serviceUnavailable
  else other code

def code : ForwardStatus → UInt16
  | ok => 200
  | badRequest => 400
  | notFound => 404
  | requestTimeout => 408
  | payloadTooLarge => 413
  | tooManyRequests => 429
  | internalError => 500
  | serviceUnavailable => 503
  | other code => code

/-- The codes from 200 to 299 say that the batch was taken. -/
def isSuccess (status : ForwardStatus) : Bool := 200 ≤ status.code && status.code < 300

def render : ForwardStatus → String
  | ok => "Ok"
  | badRequest => "BadRequest"
  | notFound => "NotFound"
  | requestTimeout => "RequestTimeout"
  | payloadTooLarge => "PayloadTooLarge"
  | tooManyRequests => "TooManyRequests"
  | internalError => "InternalError"
  | serviceUnavailable => "ServiceUnavailable"
  | other code => s!"Other({code.toNat})"

@[simp] theorem code_ofCode (code : UInt16) : (ofCode code).code = code := by
  grind [ofCode, ForwardStatus.code]

end ForwardStatus

inductive ClientError where
  | connection (destination reason : String)
  | timeout (destination : String)
  | unknownPeer (destination : String)
  deriving DecidableEq, Repr

def ClientError.message : ClientError → String
  | connection destination reason => s!"connection to peer {destination} failed: {reason}"
  | timeout destination => s!"request to peer {destination} timed out"
  | unknownPeer destination => s!"no route to peer {destination}"

abbrev Outcome := Except ClientError ForwardStatus

def Outcome.isSuccess : Outcome → Bool
  | .ok status => status.isSuccess
  | .error _ => false

end RecordRelay
