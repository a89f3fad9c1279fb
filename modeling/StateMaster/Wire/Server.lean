import StateMaster.Engine.Transition
import StateMaster.Proto.Messages

/-!
# The command handler of `smdb-wire`

`handle_frame` decodes a command, makes one call of the engine, and builds the reply. It runs on a
worker thread, with the engine's state as it finds it; what that state is made of, as far as the
four commands read or write it, is `ServerState`. The draws and the storage faults of the call are
arguments, and so are the failures of the encoders.
-/

open Framework

namespace StateMaster

/-- The call a `Transition` message asks for. -/
def TransitionMessage.toCall (msg : TransitionMessage) (draws : Draws) (faults : CallFaults) :
    Call where
  entityId := msg.entityId
  machine := msg.machine
  event := msg.event
  actor := msg.actor
  ctx := msg.ctx
  expectedVersion := msg.expectedVersion
  idempotencyKey := msg.idempotencyKey
  draws := draws
  faults := faults

namespace Wire

/-- The engine behind the handler, and its counter of transitions. -/
structure ServerState where
  store : Store
  guards : GuardRegistry
  shutdown : Bool
  transitionsTotal : ℕ

/-- What a fresh server starts from. -/
def ServerState.initial : ServerState := ⟨Store.empty, ∅, false, 0⟩

/-- The failures one command meets: in its storage calls, in turning a value into JSON, in encoding
the reply, and in encoding an error. -/
structure HandlerFaults where
  storage : Option Fault
  call : CallFaults
  toValue : Option String
  encode : Option String
  encodeError : Option String

/-- A command that meets no failure. -/
def HandlerFaults.none : HandlerFaults := ⟨.none, .none, .none, .none, .none⟩

/-! ### Replies -/

/-- The bytes of `"encoding error"`. -/
def encodingErrorBody : List UInt8 :=
  [101, 110, 99, 111, 100, 105, 110, 103, 32, 101, 114, 114, 111, 114]

/-- `make_error_frame`. -/
def makeErrorFrame (F : Formats) (faults : HandlerFaults) (message : String) (fatal : Bool) :
    Frame :=
  match encodeMessage F faults.encodeError .error (ErrorMessage.toDoc ⟨message, fatal⟩) with
  | .ok frame => frame
  | .error _ => ⟨.error, encodingErrorBody⟩

/-- A reply, or an error frame with the encoder's message. -/
def replyFrame (F : Formats) (faults : HandlerFaults) (tag : FrameTag) (doc : Json) : Frame :=
  match encodeMessage F faults.encode tag doc with
  | .ok frame => frame
  | .error e => makeErrorFrame F faults e.toText false

/-- A `Result` frame. -/
def resultFrame (F : Formats) (faults : HandlerFaults) (requestId : ℕ) (payload : Json) : Frame :=
  replyFrame F faults .result (ResultMessage.toDoc ⟨requestId, payload⟩)

/-- The payload of `make_transition_result_frame`. -/
def transitionPayload (F : Formats) (result : TransitionResult) : Json :=
  .ofMembers
    [("entity_id", .string result.entityId), ("machine", .string result.machine),
      ("from", .string result.fromState), ("state", .string result.toState),
      ("version", .ofNat result.version), ("transition_id", .string result.transitionId),
      ("sequence", .ofNat result.sequence), ("ts", .string (F.toRfc3339 result.timestamp))]

/-- `make_transition_result_frame`. -/
def makeTransitionResultFrame (F : Formats) (faults : HandlerFaults) (requestId : ℕ)
    (result : TransitionResult) : Frame :=
  resultFrame F faults requestId (transitionPayload F result)

/-- The message of a rejection: the code of the error, its text, and what the client may retry
with. -/
def rejectionMessage (requestId : ℕ) (err : EngineError) : RejectionMessage :=
  match err with
  | .core (.illegalTransition _ _ _ currentState) =>
    ⟨requestId, "illegal_transition", err.toText, some currentState, none⟩
  | .core (.guardFailed _ _) => ⟨requestId, "guard_failed", err.toText, none, none⟩
  | .core (.versionConflict _ _ _ actual) =>
    ⟨requestId, "version_conflict", err.toText, none, some actual⟩
  | .core (.unknownMachine _) | .machineNotFound _ =>
    ⟨requestId, "unknown_machine", err.toText, none, none⟩
  | .core (.unknownEntity _ _) => ⟨requestId, "unknown_entity", err.toText, none, none⟩
  | _ => ⟨requestId, "internal_error", err.toText, none, none⟩

/-- `make_rejection_frame`. -/
def makeRejectionFrame (F : Formats) (faults : HandlerFaults) (requestId : ℕ)
    (err : EngineError) : Frame :=
  replyFrame F faults .rejection (rejectionMessage requestId err).toDoc

/-! ### The commands -/

/-- `serde_json::to_value`, with the failure it meets, if any. -/
def toValue (fault : Option String) (doc : Json) : Except String Json :=
  match fault with
  | some e => .error e
  | none => .ok doc.canonical

def handleDefineMachine (F : Formats) (s : ServerState) (faults : HandlerFaults)
    (msg : DefineMachineMessage) : List Frame × ServerState :=
  match Engine.defineMachine s.store msg.definition faults.storage with
  | .ok store =>
    ([resultFrame F faults msg.requestId (.ofMembers [("ok", .bool true)])], { s with store })
  | .error e => ([makeErrorFrame F faults e.toText false], s)

def handleTransition (F : Formats) (s : ServerState) (draws : Draws) (faults : HandlerFaults)
    (msg : TransitionMessage) : List Frame × ServerState :=
  match Engine.transition s.store s.guards s.shutdown (msg.toCall draws faults.call) with
  | .ok (result, store) =>
    ([makeTransitionResultFrame F faults msg.requestId result],
      { s with store, transitionsTotal := s.transitionsTotal + 1 })
  | .error e => ([makeRejectionFrame F faults msg.requestId e], s)

/-- The reply to a query: its answer as the payload of a `Result`, or an error. -/
def queryReply (F : Formats) (faults : HandlerFaults) (requestId : ℕ)
    (answer : Except EngineError Json) : Frame :=
  match answer with
  | .ok doc =>
    match toValue faults.toValue doc with
    | .ok payload => resultFrame F faults requestId payload
    | .error e => makeErrorFrame F faults e false
  | .error e => makeErrorFrame F faults e.toText false

def handleCurrent (F : Formats) (s : ServerState) (faults : HandlerFaults) (msg : CurrentMessage) :
    List Frame × ServerState :=
  let answer := Engine.current s.store msg.entityId msg.machine faults.storage
  ([queryReply F faults msg.requestId (answer.map fun state => state.toDoc F)], s)

def handleHistory (F : Formats) (s : ServerState) (faults : HandlerFaults) (msg : HistoryMessage) :
    List Frame × ServerState :=
  let answer := Engine.history s.store msg.entityId msg.machine msg.limit msg.afterSequence
    faults.storage
  ([queryReply F faults msg.requestId
    (answer.map fun records => .array (records.map fun r => r.toDoc F))], s)

/-- Decode, and handle what was decoded; a body that does not decode is an error. -/
def decoded {α : Type} (F : Formats) (s : ServerState) (faults : HandlerFaults) (read : Reader α)
    (frame : Frame) (handle : α → List Frame × ServerState) : List Frame × ServerState :=
  match decodeMessage F read frame with
  | .ok msg => handle msg
  | .error e => ([makeErrorFrame F faults e.toText false], s)

/-- `handle_frame`. -/
def handleFrame (F : Formats) (s : ServerState) (draws : Draws) (faults : HandlerFaults)
    (frame : Frame) : List Frame × ServerState :=
  match frame.tag with
  | .ping => ([⟨.pong, []⟩], s)
  | .defineMachine =>
    decoded F s faults (DefineMachineMessage.read F) frame (handleDefineMachine F s faults)
  | .transition =>
    decoded F s faults TransitionMessage.read frame (handleTransition F s draws faults)
  | .current => decoded F s faults CurrentMessage.read frame (handleCurrent F s faults)
  | .history => decoded F s faults HistoryMessage.read frame (handleHistory F s faults)
  | .ack => decoded F s faults AckMessage.read frame fun _ => ([], s)
  | other => ([makeErrorFrame F faults ("unexpected frame " ++ other.debugText) false], s)

end Wire

end StateMaster
