import StateMaster.Core.Machine
import StateMaster.Framework.Serde

/-!
# Frames and messages of `smdb-proto`

A frame is a tag and a body; the body is a message, written as a map of its fields by name. The
binary format, the texts of dates and of errors come from libraries and are the parameter
`Formats`; the derived readers of the messages are written out over `Framework.Serde`.

An encoder can fail for reasons of its own, so `encodeMessage` takes the failure it meets, if any.
-/

open Framework

namespace StateMaster

/-! ### Frames -/

inductive FrameTag where
  | startup
  | auth
  | defineMachine
  | transition
  | current
  | history
  | subscribe
  | ack
  | unsubscribe
  | ping
  | terminate
  | ready
  | authOk
  | authError
  | result
  | rejection
  | changeRecord
  | notice
  | error
  | pong
deriving DecidableEq, Repr

/-- The `Debug` text of a tag. -/
def FrameTag.debugText : FrameTag → String
  | .startup => "Startup"
  | .auth => "Auth"
  | .defineMachine => "DefineMachine"
  | .transition => "Transition"
  | .current => "Current"
  | .history => "History"
  | .subscribe => "Subscribe"
  | .ack => "Ack"
  | .unsubscribe => "Unsubscribe"
  | .ping => "Ping"
  | .terminate => "Terminate"
  | .ready => "Ready"
  | .authOk => "AuthOk"
  | .authError => "AuthError"
  | .result => "Result"
  | .rejection => "Rejection"
  | .changeRecord => "ChangeRecord"
  | .notice => "Notice"
  | .error => "Error"
  | .pong => "Pong"

structure Frame where
  tag : FrameTag
  body : List UInt8
deriving DecidableEq, Repr

/-- The errors of `smdb-proto`. -/
inductive ProtoError where
  | io (e : String)
  | invalidFrameType (byte : UInt8)
  | frameTooLarge (size max : ℕ)
  | deserializationError (e : String)
  | serializationError (e : String)
  | incompleteFrame
  | invalidHandshake (reason : String)
deriving DecidableEq, Repr

/-- A byte as `{:02X}` writes it. -/
def hexByte (byte : UInt8) : String :=
  String.ofList [(Nat.digitChar (byte.toNat / 16)).toUpper, (Nat.digitChar (byte.toNat % 16)).toUpper]

/-- The `Display` text of a `ProtoError`. -/
def ProtoError.toText : ProtoError → String
  | .io e => "io error: " ++ e
  | .invalidFrameType byte => "invalid frame type: 0x" ++ hexByte byte
  | .frameTooLarge size max =>
    "frame too large: " ++ toString size ++ " bytes exceeds maximum " ++ toString max ++ " bytes"
  | .deserializationError e => "deserialization error: " ++ e
  | .serializationError e => "serialization error: " ++ e
  | .incompleteFrame => "incomplete frame"
  | .invalidHandshake reason => "invalid handshake: " ++ reason

/-- What the protocol takes from its libraries: `rmp_serde`, the error texts of `serde_json`, and
the two texts of a date in `chrono` with the reader of one. -/
structure Formats where
  codec : Codec
  renderJson : DecodeError → String
  toRfc3339 : DateTime → String
  writeDate : DateTime → String
  readDate : String → Except DecodeError DateTime

/-! ### Records as documents -/

def EntityState.toDoc (F : Formats) (state : EntityState) : Json :=
  .object
    [("entity_id", .string state.entityId), ("machine", .string state.machine),
      ("current_state", .string state.currentState), ("version", Json.ofNat state.version),
      ("updated_at", .string (F.writeDate state.updatedAt)),
      ("created_at", .string (F.writeDate state.createdAt))]

def TransitionRecord.toDoc (F : Formats) (record : TransitionRecord) : Json :=
  .object
    [("id", .string record.id), ("sequence", Json.ofNat record.sequence),
      ("entity_id", .string record.entityId), ("machine", .string record.machine),
      ("from_state", .string record.fromState), ("to_state", .string record.toState),
      ("event", .string record.event), ("actor", .string record.actor), ("ctx", record.ctx),
      ("idempotency_key", Json.ofOption .string record.idempotencyKey),
      ("version", Json.ofNat record.version),
      ("timestamp", .string (F.writeDate record.timestamp))]

def EffectPayload.toDoc (payload : EffectPayload) : Json :=
  .object [("effect_name", .string payload.effectName), ("payload", payload.payload)]

def ChangeRecord.toDoc (F : Formats) (record : ChangeRecord) : Json :=
  .object
    [("sequence", Json.ofNat record.sequence), ("transition_id", .string record.transitionId),
      ("entity_id", .string record.entityId), ("machine", .string record.machine),
      ("from_state", .string record.fromState), ("to_state", .string record.toState),
      ("event", .string record.event), ("actor", .string record.actor),
      ("version", Json.ofNat record.version),
      ("timestamp", .string (F.writeDate record.timestamp)), ("ctx", record.ctx),
      ("effects", .array (record.effects.map EffectPayload.toDoc))]

/-! ### Records from documents -/

/-- The reader of a `DateTime<Utc>`. -/
def Formats.date (F : Formats) : Reader DateTime
  | .string s => F.readDate s
  | doc => .error (.invalidType doc "an RFC 3339 formatted date and time string")

def TransitionRule.read : Reader TransitionRule := fun doc => do
  let fields ← readFields "TransitionRule"
    [field "event" Reader.string, field "from_states" (Reader.list Reader.string),
      field "to_state" Reader.string, field "guards" (Reader.list Reader.string)] doc
  let event ← required fields "event" Reader.string
  let fromStates ← required fields "from_states" (Reader.list Reader.string)
  let toState ← required fields "to_state" Reader.string
  let guards ← required fields "guards" (Reader.list Reader.string)
  return { event, fromStates, toState, guards }

def EffectRule.read : Reader EffectRule := fun doc => do
  let fields ← readFields "EffectRule"
    [field "on_event" Reader.string, field "effect" Reader.string,
      field "payload" (Reader.option Reader.value)] doc
  let onEvent ← required fields "on_event" Reader.string
  let effect ← required fields "effect" Reader.string
  let payload ← optional fields "payload" Reader.value
  return { onEvent, effect, payload }

def MachineDefinition.read (F : Formats) : Reader MachineDefinition := fun doc => do
  let fields ← readFields "MachineDefinition"
    [field "name" Reader.string, field "version" (Reader.unsigned 32),
      field "states" (Reader.list Reader.string), field "initial_state" Reader.string,
      field "transitions" (Reader.list TransitionRule.read),
      field "effects" (Reader.list EffectRule.read), field "created_at" F.date] doc
  let name ← required fields "name" Reader.string
  let version ← required fields "version" (Reader.unsigned 32)
  let states ← required fields "states" (Reader.list Reader.string)
  let initialState ← required fields "initial_state" Reader.string
  let transitions ← required fields "transitions" (Reader.list TransitionRule.read)
  let effects ← required fields "effects" (Reader.list EffectRule.read)
  let createdAt ← required fields "created_at" F.date
  return { name, version, states, initialState, transitions, effects, createdAt }

def EffectPayload.read : Reader EffectPayload := fun doc => do
  let fields ← readFields "EffectPayload"
    [field "effect_name" Reader.string, field "payload" Reader.value] doc
  let effectName ← required fields "effect_name" Reader.string
  let payload ← required fields "payload" Reader.value
  return { effectName, payload }

/-- The fields of a `ChangeRecord`. -/
def ChangeRecord.checks (F : Formats) : FieldChecks :=
  [field "sequence" (Reader.unsigned 64), field "transition_id" Reader.string,
    field "entity_id" Reader.string, field "machine" Reader.string,
    field "from_state" Reader.string, field "to_state" Reader.string,
    field "event" Reader.string, field "actor" Reader.string,
    field "version" (Reader.unsigned 64), field "timestamp" F.date, field "ctx" Reader.value,
    field "effects" (Reader.list EffectPayload.read)]

def ChangeRecord.read (F : Formats) : Reader ChangeRecord := fun doc => do
  let fields ← readFields "ChangeRecord" (ChangeRecord.checks F) doc
  let sequence ← required fields "sequence" (Reader.unsigned 64)
  let transitionId ← required fields "transition_id" Reader.string
  let entityId ← required fields "entity_id" Reader.string
  let machine ← required fields "machine" Reader.string
  let fromState ← required fields "from_state" Reader.string
  let toState ← required fields "to_state" Reader.string
  let event ← required fields "event" Reader.string
  let actor ← required fields "actor" Reader.string
  let version ← required fields "version" (Reader.unsigned 64)
  let timestamp ← required fields "timestamp" F.date
  let ctx ← required fields "ctx" Reader.value
  let effects ← required fields "effects" (Reader.list EffectPayload.read)
  return { sequence, transitionId, entityId, machine, fromState, toState, event, actor, version,
           timestamp, ctx, effects }

/-! ### Messages of the client -/

structure StartupMessage where
  protocolVersion : ℕ
  capabilities : List String
deriving DecidableEq, Repr

structure AuthMessage where
  token : String
deriving DecidableEq, Repr

structure DefineMachineMessage where
  requestId : ℕ
  name : String
  version : ℕ
  definition : MachineDefinition
deriving DecidableEq, Repr

structure TransitionMessage where
  requestId : ℕ
  entityId : String
  machine : String
  event : String
  expectedVersion : Option ℕ
  idempotencyKey : Option String
  ctx : Json
  actor : String
deriving DecidableEq, Repr

structure CurrentMessage where
  requestId : ℕ
  entityId : String
  machine : String
deriving DecidableEq, Repr

structure HistoryMessage where
  requestId : ℕ
  entityId : String
  machine : String
  limit : Option ℕ
  afterSequence : Option ℕ
deriving DecidableEq, Repr

structure SubscribeMessage where
  requestId : ℕ
  subscriptionId : String
  machineFilter : Option String
  afterSequence : ℕ
deriving DecidableEq, Repr

structure UnsubscribeMessage where
  subscriptionId : String
deriving DecidableEq, Repr

structure AckMessage where
  subscriptionId : String
  upToSequence : ℕ
deriving DecidableEq, Repr

def StartupMessage.read : Reader StartupMessage := fun doc => do
  let fields ← readFields "StartupMessage"
    [field "protocol_version" (Reader.unsigned 32),
      field "capabilities" (Reader.list Reader.string)] doc
  let protocolVersion ← required fields "protocol_version" (Reader.unsigned 32)
  let capabilities ← required fields "capabilities" (Reader.list Reader.string)
  return { protocolVersion, capabilities }

def AuthMessage.read : Reader AuthMessage := fun doc => do
  let fields ← readFields "AuthMessage" [field "token" Reader.string] doc
  let token ← required fields "token" Reader.string
  return { token }

def DefineMachineMessage.read (F : Formats) : Reader DefineMachineMessage := fun doc => do
  let fields ← readFields "DefineMachineMessage"
    [field "request_id" (Reader.unsigned 64), field "name" Reader.string,
      field "version" (Reader.unsigned 32), field "definition" (MachineDefinition.read F)] doc
  let requestId ← required fields "request_id" (Reader.unsigned 64)
  let name ← required fields "name" Reader.string
  let version ← required fields "version" (Reader.unsigned 32)
  let definition ← required fields "definition" (MachineDefinition.read F)
  return { requestId, name, version, definition }

def TransitionMessage.read : Reader TransitionMessage := fun doc => do
  let fields ← readFields "TransitionMessage"
    [field "request_id" (Reader.unsigned 64), field "entity_id" Reader.string,
      field "machine" Reader.string, field "event" Reader.string,
      field "expected_version" (Reader.option (Reader.unsigned 64)),
      field "idempotency_key" (Reader.option Reader.string), field "ctx" Reader.value,
      field "actor" Reader.string] doc
  let requestId ← required fields "request_id" (Reader.unsigned 64)
  let entityId ← required fields "entity_id" Reader.string
  let machine ← required fields "machine" Reader.string
  let event ← required fields "event" Reader.string
  let expectedVersion ← optional fields "expected_version" (Reader.unsigned 64)
  let idempotencyKey ← optional fields "idempotency_key" Reader.string
  let ctx ← required fields "ctx" Reader.value
  let actor ← required fields "actor" Reader.string
  return { requestId, entityId, machine, event, expectedVersion, idempotencyKey, ctx, actor }

def CurrentMessage.read : Reader CurrentMessage := fun doc => do
  let fields ← readFields "CurrentMessage"
    [field "request_id" (Reader.unsigned 64), field "entity_id" Reader.string,
      field "machine" Reader.string] doc
  let requestId ← required fields "request_id" (Reader.unsigned 64)
  let entityId ← required fields "entity_id" Reader.string
  let machine ← required fields "machine" Reader.string
  return { requestId, entityId, machine }

def HistoryMessage.read : Reader HistoryMessage := fun doc => do
  let fields ← readFields "HistoryMessage"
    [field "request_id" (Reader.unsigned 64), field "entity_id" Reader.string,
      field "machine" Reader.string, field "limit" (Reader.option (Reader.unsigned 32)),
      field "after_sequence" (Reader.option (Reader.unsigned 64))] doc
  let requestId ← required fields "request_id" (Reader.unsigned 64)
  let entityId ← required fields "entity_id" Reader.string
  let machine ← required fields "machine" Reader.string
  let limit ← optional fields "limit" (Reader.unsigned 32)
  let afterSequence ← optional fields "after_sequence" (Reader.unsigned 64)
  return { requestId, entityId, machine, limit, afterSequence }

def SubscribeMessage.read : Reader SubscribeMessage := fun doc => do
  let fields ← readFields "SubscribeMessage"
    [field "request_id" (Reader.unsigned 64), field "subscription_id" Reader.string,
      field "machine_filter" (Reader.option Reader.string),
      field "after_sequence" (Reader.unsigned 64)] doc
  let requestId ← required fields "request_id" (Reader.unsigned 64)
  let subscriptionId ← required fields "subscription_id" Reader.string
  let machineFilter ← optional fields "machine_filter" Reader.string
  let afterSequence ← required fields "after_sequence" (Reader.unsigned 64)
  return { requestId, subscriptionId, machineFilter, afterSequence }

def UnsubscribeMessage.read : Reader UnsubscribeMessage := fun doc => do
  let fields ← readFields "UnsubscribeMessage" [field "subscription_id" Reader.string] doc
  let subscriptionId ← required fields "subscription_id" Reader.string
  return { subscriptionId }

def AckMessage.read : Reader AckMessage := fun doc => do
  let fields ← readFields "AckMessage"
    [field "subscription_id" Reader.string, field "up_to_sequence" (Reader.unsigned 64)] doc
  let subscriptionId ← required fields "subscription_id" Reader.string
  let upToSequence ← required fields "up_to_sequence" (Reader.unsigned 64)
  return { subscriptionId, upToSequence }

/-! ### Messages of the server -/

structure ReadyMessage where
  sessionId : String
  serverVersion : String
  protocolVersion : ℕ
  capabilities : List String
deriving DecidableEq, Repr

structure ResultMessage where
  requestId : ℕ
  payload : Json
deriving DecidableEq, Repr

structure RejectionMessage where
  requestId : ℕ
  code : String
  message : String
  currentState : Option String
  version : Option ℕ
deriving DecidableEq, Repr

structure ChangeRecordMessage where
  subscriptionId : String
  record : ChangeRecord
deriving DecidableEq, Repr

structure ErrorMessage where
  message : String
  fatal : Bool
deriving DecidableEq, Repr

def ReadyMessage.toDoc (msg : ReadyMessage) : Json :=
  .object
    [("session_id", .string msg.sessionId), ("server_version", .string msg.serverVersion),
      ("protocol_version", .ofNat msg.protocolVersion),
      ("capabilities", .array (msg.capabilities.map .string))]

def ResultMessage.toDoc (msg : ResultMessage) : Json :=
  .object [("request_id", .ofNat msg.requestId), ("payload", msg.payload)]

def RejectionMessage.toDoc (msg : RejectionMessage) : Json :=
  .object
    [("request_id", .ofNat msg.requestId), ("code", .string msg.code),
      ("message", .string msg.message), ("current_state", .ofOption .string msg.currentState),
      ("version", .ofOption .ofNat msg.version)]

def ChangeRecordMessage.toDoc (F : Formats) (msg : ChangeRecordMessage) : Json :=
  .object [("subscription_id", .string msg.subscriptionId), ("record", msg.record.toDoc F)]

def ErrorMessage.toDoc (msg : ErrorMessage) : Json :=
  .object [("message", .string msg.message), ("fatal", .bool msg.fatal)]

def ResultMessage.read : Reader ResultMessage := fun doc => do
  let fields ← readFields "ResultMessage"
    [field "request_id" (Reader.unsigned 64), field "payload" Reader.value] doc
  let requestId ← required fields "request_id" (Reader.unsigned 64)
  let payload ← required fields "payload" Reader.value
  return { requestId, payload }

def RejectionMessage.read : Reader RejectionMessage := fun doc => do
  let fields ← readFields "RejectionMessage"
    [field "request_id" (Reader.unsigned 64), field "code" Reader.string,
      field "message" Reader.string, field "current_state" (Reader.option Reader.string),
      field "version" (Reader.option (Reader.unsigned 64))] doc
  let requestId ← required fields "request_id" (Reader.unsigned 64)
  let code ← required fields "code" Reader.string
  let message ← required fields "message" Reader.string
  let currentState ← optional fields "current_state" Reader.string
  let version ← optional fields "version" (Reader.unsigned 64)
  return { requestId, code, message, currentState, version }

def ChangeRecordMessage.read (F : Formats) : Reader ChangeRecordMessage := fun doc => do
  let fields ← readFields "ChangeRecordMessage"
    [field "subscription_id" Reader.string, field "record" (ChangeRecord.read F)] doc
  let subscriptionId ← required fields "subscription_id" Reader.string
  let record ← required fields "record" (ChangeRecord.read F)
  return { subscriptionId, record }

def ErrorMessage.read : Reader ErrorMessage := fun doc => do
  let fields ← readFields "ErrorMessage"
    [field "message" Reader.string, field "fatal" Reader.bool] doc
  let message ← required fields "message" Reader.string
  let fatal ← required fields "fatal" Reader.bool
  return { message, fatal }

/-! ### Encoding and decoding -/

/-- `encode_message`, with the failure the encoder meets, if any. -/
def encodeMessage (F : Formats) (fault : Option String) (tag : FrameTag) (doc : Json) :
    Except ProtoError Frame :=
  match fault with
  | some e => .error (.serializationError e)
  | none => .ok ⟨tag, F.codec.toVecNamed doc⟩

/-- `rmp_serde::from_slice`. -/
def fromSlice {α : Type} (F : Formats) (read : Reader α) (body : List UInt8) :
    Except DecodeError α := do
  let doc ← F.codec.fromSlice body
  read doc

/-- `decode_message`. -/
def decodeMessage {α : Type} (F : Formats) (read : Reader α) (frame : Frame) :
    Except ProtoError α :=
  (fromSlice F read frame.body).mapError fun e => .deserializationError (F.codec.render e)

/-- What was encoded is read from its document, unless that is nested too deep. -/
theorem fromSlice_toVecNamed {α : Type} {F : Formats} (hF : F.codec.Lawful) (read : Reader α)
    {doc : Json} (hdepth : doc.depth ≤ nestingLimit) :
    fromSlice F read (F.codec.toVecNamed doc) = read doc := by
  unfold fromSlice
  rw [hF.round_trip doc hdepth]
  rfl

theorem fromSlice_too_deep {α : Type} {F : Formats} (hF : F.codec.Lawful) (read : Reader α)
    {doc : Json} (hdepth : nestingLimit < doc.depth) :
    ∃ e, fromSlice F read (F.codec.toVecNamed doc) = .error e := by
  obtain ⟨e, he⟩ := hF.too_deep doc hdepth
  unfold fromSlice
  rw [he]
  exact ⟨e, rfl⟩

/-- A frame whose body was encoded is decoded to what its document is read as. -/
theorem decodeMessage_toVecNamed {α : Type} {F : Formats} (hF : F.codec.Lawful) {read : Reader α}
    (tag : FrameTag) {doc : Json} (hdepth : doc.depth ≤ nestingLimit) {msg : α}
    (h : read doc = .ok msg) :
    decodeMessage F read ⟨tag, F.codec.toVecNamed doc⟩ = .ok msg := by
  unfold decodeMessage
  rw [fromSlice_toVecNamed hF read hdepth, h]
  rfl

end StateMaster
