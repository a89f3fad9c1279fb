import StateMaster.Proto.Messages

/-!
# How `smdb-sdk` reads a reply

The reader task finds the caller a reply belongs to by the request id in its body
(`extractRequestId`); the caller then decodes the reply. `TransitionBuilder.decodeReply` is what
`send` makes of it for a transition.
-/

open Framework

namespace StateMaster

/-- The tags for which the reader task looks for a waiting caller. -/
def FrameTag.isReply : FrameTag → Bool
  | .result | .rejection | .error => true
  | _ => false

namespace Sdk

/-- The errors of `smdb-sdk` that a reply can lead to. -/
inductive SdkError where
  | rejected (code message : String) (currentState : Option String) (version : Option ℕ)
  | proto (e : ProtoError)
  | internal (message : String)
deriving DecidableEq, Repr

structure TransitionResponse where
  entityId : String
  machine : String
  fromState : String
  toState : String
  version : ℕ
  transitionId : String
  sequence : ℕ
  timestamp : DateTime
deriving DecidableEq, Repr

/-- `WithRequestId`, the helper struct of `extract_request_id`. -/
def readRequestId : Reader ℕ := fun doc => do
  let fields ← readFields "WithRequestId" [field "request_id" (Reader.unsigned 64)] doc
  required fields "request_id" (Reader.unsigned 64)

/-- `extract_request_id`. -/
def extractRequestId (F : Formats) (frame : Frame) : Option ℕ :=
  (fromSlice F readRequestId frame.body).toOption

/-- The `match resp.tag` of `TransitionBuilder::send`. -/
def TransitionBuilder.decodeReply (F : Formats) (resp : Frame) :
    Except SdkError TransitionResponse :=
  match resp.tag with
  | .result => do
    let resultMsg ← (decodeMessage F ResultMessage.read resp).mapError SdkError.proto
    let cr ← (ChangeRecord.read F resultMsg.payload).mapError fun e =>
      .internal ("deserialize transition result: " ++ F.renderJson e)
    return { entityId := cr.entityId
             machine := cr.machine
             fromState := cr.fromState
             toState := cr.toState
             version := cr.version
             transitionId := cr.transitionId
             sequence := cr.sequence
             timestamp := cr.timestamp }
  | .rejection => do
    let rej ← (decodeMessage F RejectionMessage.read resp).mapError SdkError.proto
    .error (.rejected rej.code rej.message rej.currentState rej.version)
  | .error =>
    match decodeMessage F ErrorMessage.read resp with
    | .ok errMsg => .error (.internal errMsg.message)
    | .error _ => .error (.internal "unknown server error")
  | other => .error (.internal ("unexpected response tag: " ++ other.debugText))

end Sdk

end StateMaster
