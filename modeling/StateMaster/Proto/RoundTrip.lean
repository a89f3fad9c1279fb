import StateMaster.Framework.MessagePack
import StateMaster.Framework.Record
import StateMaster.Proto.Frame

/-!
# Messages on the wire

Both ends of a connection write their messages with one derived writer and read them with one derived
reader; between them lie the binary format, the frames and a stream of bytes that arrives in pieces.
`messages_round_trip` goes through all of it: the messages read are the messages written, up to two
things that are not kept (`Message.settled`). A document that a message carries comes back with its
maps in key order, which is how the program holds documents anyway. And the payload of an effect rule
that is there and null comes back as no payload at all. A body that is nested deeper than
`nestingLimit` is written and never read, so the frames are asked not to be.

The reader does not insist on what this version writes. The fields of a message may come in any order
and among others, as a peer of another version may send them (`Message.CarriedBy`).

* `Message` — the messages by the tag of their frame, `Message.ofFrame` — how a frame is read;
* `Message.read_carried` — one frame;
* `messages_round_trip` — a stream.
-/

open Framework

namespace StateMaster

/-! ### Written records -/

def TransitionRule.toDoc (rule : TransitionRule) : Json :=
  .object
    [("event", .string rule.event), ("from_states", .array (rule.fromStates.map .string)),
      ("to_state", .string rule.toState), ("guards", .array (rule.guards.map .string))]

def EffectRule.toDoc (rule : EffectRule) : Json :=
  .object
    [("on_event", .string rule.onEvent), ("effect", .string rule.effect),
      ("payload", .ofOption id rule.payload)]

def MachineDefinition.toDoc (F : Formats) (definition : MachineDefinition) : Json :=
  .object
    [("name", .string definition.name), ("version", .ofNat definition.version),
      ("states", .array (definition.states.map .string)),
      ("initial_state", .string definition.initialState),
      ("transitions", .array (definition.transitions.map TransitionRule.toDoc)),
      ("effects", .array (definition.effects.map EffectRule.toDoc)),
      ("created_at", .string (F.writeDate definition.createdAt))]

def StartupMessage.toDoc (msg : StartupMessage) : Json :=
  .object
    [("protocol_version", .ofNat msg.protocolVersion),
      ("capabilities", .array (msg.capabilities.map .string))]

def AuthMessage.toDoc (msg : AuthMessage) : Json := .object [("token", .string msg.token)]

def DefineMachineMessage.toDoc (F : Formats) (msg : DefineMachineMessage) : Json :=
  .object
    [("request_id", .ofNat msg.requestId), ("name", .string msg.name),
      ("version", .ofNat msg.version), ("definition", msg.definition.toDoc F)]

def TransitionMessage.toDoc (msg : TransitionMessage) : Json :=
  .object
    [("request_id", .ofNat msg.requestId), ("entity_id", .string msg.entityId),
      ("machine", .string msg.machine), ("event", .string msg.event),
      ("expected_version", .ofOption .ofNat msg.expectedVersion),
      ("idempotency_key", .ofOption .string msg.idempotencyKey), ("ctx", msg.ctx),
      ("actor", .string msg.actor)]

def CurrentMessage.toDoc (msg : CurrentMessage) : Json :=
  .object
    [("request_id", .ofNat msg.requestId), ("entity_id", .string msg.entityId),
      ("machine", .string msg.machine)]

def HistoryMessage.toDoc (msg : HistoryMessage) : Json :=
  .object
    [("request_id", .ofNat msg.requestId), ("entity_id", .string msg.entityId),
      ("machine", .string msg.machine), ("limit", .ofOption .ofNat msg.limit),
      ("after_sequence", .ofOption .ofNat msg.afterSequence)]

def SubscribeMessage.toDoc (msg : SubscribeMessage) : Json :=
  .object
    [("request_id", .ofNat msg.requestId), ("subscription_id", .string msg.subscriptionId),
      ("machine_filter", .ofOption .string msg.machineFilter),
      ("after_sequence", .ofNat msg.afterSequence)]

def AckMessage.toDoc (msg : AckMessage) : Json :=
  .object
    [("subscription_id", .string msg.subscriptionId), ("up_to_sequence", .ofNat msg.upToSequence)]

def UnsubscribeMessage.toDoc (msg : UnsubscribeMessage) : Json :=
  .object [("subscription_id", .string msg.subscriptionId)]

structure NoticeMessage where
  message : String
deriving DecidableEq, Repr

def NoticeMessage.toDoc (msg : NoticeMessage) : Json := .object [("message", .string msg.message)]

def NoticeMessage.read : Reader NoticeMessage := fun doc => do
  let fields ← readFields "NoticeMessage" [field "message" Reader.string] doc
  let message ← required fields "message" Reader.string
  return { message }

def ReadyMessage.read : Reader ReadyMessage := fun doc => do
  let fields ← readFields "ReadyMessage"
    [field "session_id" Reader.string, field "server_version" Reader.string,
      field "protocol_version" (Reader.unsigned 32),
      field "capabilities" (Reader.list Reader.string)] doc
  let sessionId ← required fields "session_id" Reader.string
  let serverVersion ← required fields "server_version" Reader.string
  let protocolVersion ← required fields "protocol_version" (Reader.unsigned 32)
  let capabilities ← required fields "capabilities" (Reader.list Reader.string)
  return { sessionId, serverVersion, protocolVersion, capabilities }

/-! ### What comes back -/

/-- The date is read back as it was written. -/
def Formats.Keeps (F : Formats) (date : DateTime) : Prop := F.readDate (F.writeDate date) = .ok date

/-- A payload that is null reads as none. -/
def EffectRule.settled (rule : EffectRule) : EffectRule :=
  { rule with payload := rule.stored.payload.map Json.canonical }

def MachineDefinition.settled (definition : MachineDefinition) : MachineDefinition :=
  { definition with effects := definition.effects.map EffectRule.settled }

def EffectPayload.settled (payload : EffectPayload) : EffectPayload :=
  { payload with payload := payload.payload.canonical }

def ChangeRecord.settled (record : ChangeRecord) : ChangeRecord :=
  { record with ctx := record.ctx.canonical, effects := record.effects.map EffectPayload.settled }

section Read

variable {F : Formats} {members' : List (String × Json)}

theorem TransitionRule.read_toDoc (rule : TransitionRule) :
    TransitionRule.read rule.toDoc = .ok rule := by
  refine read_extends (by simp [field]) ?_ (.refl rule.toDoc.members) _ fun fields h => ?_
  · exact .cons (field_ok rfl) <| .cons (field_ok (Reader.list_strings _)) <| .cons (field_ok rfl)
      <| .cons (field_ok (Reader.list_strings _)) .nil
  · simp only [required_congr h]
    simp [required, Json.members, TransitionRule.toDoc, List.lookup, Reader.string,
      Reader.list_strings]
    rfl

theorem EffectRule.read_toDoc (rule : EffectRule) : EffectRule.read rule.toDoc = .ok rule.settled := by
  have hpayload : Reader.option Reader.value (.ofOption id rule.payload) = .ok rule.settled.payload := by
    cases hp : rule.payload with
    | none => simp [EffectRule.settled, EffectRule.stored, hp, Json.ofOption, Reader.option]
    | some doc =>
      cases doc with
      | null => simp [EffectRule.settled, EffectRule.stored, hp, Json.ofOption, Reader.option]
      | _ =>
        simp [EffectRule.settled, EffectRule.stored, hp, Json.ofOption, Reader.option, Reader.value,
          Except.map]
  refine read_extends (by simp [field]) ?_ (.refl rule.toDoc.members) _ fun fields h => ?_
  · exact .cons (field_ok rfl) <| .cons (field_ok rfl) <| .cons (field_ok hpayload) .nil
  · simp only [required_congr h, optional_congr h]
    simp [required, Framework.optional, Json.members, EffectRule.toDoc, List.lookup, Reader.string,
      hpayload]
    rfl

/-- The numbers and the date of a definition survive the wire. -/
def MachineDefinition.InRange (F : Formats) (definition : MachineDefinition) : Prop :=
  definition.version < 2 ^ 32 ∧ F.Keeps definition.createdAt

theorem MachineDefinition.read_toDoc {definition : MachineDefinition} (hr : definition.InRange F) :
    MachineDefinition.read F (definition.toDoc F) = .ok definition.settled := by
  have htransitions : Reader.list TransitionRule.read
      (.array (definition.transitions.map TransitionRule.toDoc)) = .ok definition.transitions := by
    have h : Reader.list TransitionRule.read (.array (definition.transitions.map TransitionRule.toDoc))
        = .ok (definition.transitions.map id) := Reader.list_map fun rule _ => rule.read_toDoc
    rwa [List.map_id] at h
  have heffects : Reader.list EffectRule.read (.array (definition.effects.map EffectRule.toDoc))
      = .ok definition.settled.effects := Reader.list_map fun rule _ => rule.read_toDoc
  obtain ⟨hversion, hdate⟩ := hr
  have hdate : F.date (.string (F.writeDate definition.createdAt)) = .ok definition.createdAt := hdate
  refine read_extends (by simp [field]) ?_ (.refl (definition.toDoc F).members) _ fun fields h => ?_
  · exact .cons (field_ok rfl) <| .cons (field_ok (Reader.unsigned_ofNat hversion))
      <| .cons (field_ok (Reader.list_strings _)) <| .cons (field_ok rfl)
      <| .cons (field_ok htransitions) <| .cons (field_ok heffects) <| .cons (field_ok hdate) .nil
  · simp only [required_congr h]
    simp [required, Json.members, MachineDefinition.toDoc, List.lookup, Reader.string,
      Reader.list_strings, Reader.unsigned_ofNat hversion, htransitions, heffects, hdate]
    rfl

theorem EffectPayload.read_toDoc (payload : EffectPayload) :
    EffectPayload.read payload.toDoc = .ok payload.settled := by
  refine read_extends (by simp [field]) ?_ (.refl payload.toDoc.members) _ fun fields h => ?_
  · exact .cons (field_ok rfl) <| .cons (field_ok rfl) .nil
  · simp only [required_congr h]
    simp [required, Json.members, EffectPayload.toDoc, List.lookup, Reader.string, Reader.value]
    rfl

/-- The numbers and the date of a record survive the wire. -/
def ChangeRecord.InRange (F : Formats) (record : ChangeRecord) : Prop :=
  record.sequence < 2 ^ 64 ∧ record.version < 2 ^ 64 ∧ F.Keeps record.timestamp

theorem ChangeRecord.read_toDoc {record : ChangeRecord} (hr : record.InRange F) :
    ChangeRecord.read F (record.toDoc F) = .ok record.settled := by
  have heffects : Reader.list EffectPayload.read (.array (record.effects.map EffectPayload.toDoc))
      = .ok record.settled.effects := Reader.list_map fun payload _ => payload.read_toDoc
  obtain ⟨hseq, hver, hdate⟩ := hr
  have hdate : F.date (.string (F.writeDate record.timestamp)) = .ok record.timestamp := hdate
  refine read_extends (by simp [ChangeRecord.checks, field]) ?_ (.refl (record.toDoc F).members) _
    fun fields h => ?_
  · exact .cons (field_ok (Reader.unsigned_ofNat hseq)) <| .cons (field_ok rfl) <| .cons (field_ok rfl)
      <| .cons (field_ok rfl) <| .cons (field_ok rfl) <| .cons (field_ok rfl) <| .cons (field_ok rfl)
      <| .cons (field_ok rfl) <| .cons (field_ok (Reader.unsigned_ofNat hver))
      <| .cons (field_ok hdate) <| .cons (field_ok rfl) <| .cons (field_ok heffects) .nil
  · simp only [required_congr h]
    simp [required, Json.members, ChangeRecord.toDoc, List.lookup, Reader.string, Reader.value,
      Reader.unsigned_ofNat hseq, Reader.unsigned_ofNat hver, heffects, hdate]
    rfl

end Read

/-! ### Messages by their tags -/

/-- A message of the protocol: what the body of a frame with this tag holds. -/
inductive Message where
  | startup (msg : StartupMessage)
  | auth (msg : AuthMessage)
  | defineMachine (msg : DefineMachineMessage)
  | transition (msg : TransitionMessage)
  | current (msg : CurrentMessage)
  | history (msg : HistoryMessage)
  | subscribe (msg : SubscribeMessage)
  | ack (msg : AckMessage)
  | unsubscribe (msg : UnsubscribeMessage)
  | ping
  | terminate
  | ready (msg : ReadyMessage)
  | authOk (msg : ErrorMessage)
  | authError (msg : ErrorMessage)
  | result (msg : ResultMessage)
  | rejection (msg : RejectionMessage)
  | changeRecord (msg : ChangeRecordMessage)
  | notice (msg : NoticeMessage)
  | error (msg : ErrorMessage)
  | pong
deriving DecidableEq, Repr

namespace Message

def tag : Message → FrameTag
  | startup _ => .startup
  | auth _ => .auth
  | defineMachine _ => .defineMachine
  | transition _ => .transition
  | current _ => .current
  | history _ => .history
  | subscribe _ => .subscribe
  | ack _ => .ack
  | unsubscribe _ => .unsubscribe
  | ping => .ping
  | terminate => .terminate
  | ready _ => .ready
  | authOk _ => .authOk
  | authError _ => .authError
  | result _ => .result
  | rejection _ => .rejection
  | changeRecord _ => .changeRecord
  | notice _ => .notice
  | error _ => .error
  | pong => .pong

/-- What is written into the body; three messages have an empty one. -/
def toDoc (F : Formats) : Message → Option Json
  | startup msg => some msg.toDoc
  | auth msg => some msg.toDoc
  | defineMachine msg => some (msg.toDoc F)
  | transition msg => some msg.toDoc
  | current msg => some msg.toDoc
  | history msg => some msg.toDoc
  | subscribe msg => some msg.toDoc
  | ack msg => some msg.toDoc
  | unsubscribe msg => some msg.toDoc
  | ready msg => some msg.toDoc
  | authOk msg | authError msg | error msg => some msg.toDoc
  | result msg => some msg.toDoc
  | rejection msg => some msg.toDoc
  | changeRecord msg => some (msg.toDoc F)
  | notice msg => some msg.toDoc
  | ping | terminate | pong => none

/-- A frame read by its tag. The body of a frame that carries nothing is not looked at. -/
def ofFrame (F : Formats) (frame : Frame) : Except ProtoError Message :=
  match frame.tag with
  | .startup => (decodeMessage F StartupMessage.read frame).map startup
  | .auth => (decodeMessage F AuthMessage.read frame).map auth
  | .defineMachine => (decodeMessage F (DefineMachineMessage.read F) frame).map defineMachine
  | .transition => (decodeMessage F TransitionMessage.read frame).map transition
  | .current => (decodeMessage F CurrentMessage.read frame).map current
  | .history => (decodeMessage F HistoryMessage.read frame).map history
  | .subscribe => (decodeMessage F SubscribeMessage.read frame).map subscribe
  | .ack => (decodeMessage F AckMessage.read frame).map ack
  | .unsubscribe => (decodeMessage F UnsubscribeMessage.read frame).map unsubscribe
  | .ping => .ok ping
  | .terminate => .ok terminate
  | .ready => (decodeMessage F ReadyMessage.read frame).map ready
  | .authOk => (decodeMessage F ErrorMessage.read frame).map authOk
  | .authError => (decodeMessage F ErrorMessage.read frame).map authError
  | .result => (decodeMessage F ResultMessage.read frame).map result
  | .rejection => (decodeMessage F RejectionMessage.read frame).map rejection
  | .changeRecord => (decodeMessage F (ChangeRecordMessage.read F) frame).map changeRecord
  | .notice => (decodeMessage F NoticeMessage.read frame).map notice
  | .error => (decodeMessage F ErrorMessage.read frame).map error
  | .pong => .ok pong

/-- The numbers of a message are those of its types, and its date survives the wire. -/
def InRange (F : Formats) : Message → Prop
  | startup msg => msg.protocolVersion < 2 ^ 32
  | defineMachine msg =>
    msg.requestId < 2 ^ 64 ∧ msg.version < 2 ^ 32 ∧ msg.definition.InRange F
  | transition msg => msg.requestId < 2 ^ 64 ∧ ∀ v, msg.expectedVersion = some v → v < 2 ^ 64
  | current msg => msg.requestId < 2 ^ 64
  | history msg => msg.requestId < 2 ^ 64 ∧ (∀ n, msg.limit = some n → n < 2 ^ 32) ∧
    ∀ n, msg.afterSequence = some n → n < 2 ^ 64
  | subscribe msg => msg.requestId < 2 ^ 64 ∧ msg.afterSequence < 2 ^ 64
  | ack msg => msg.upToSequence < 2 ^ 64
  | ready msg => msg.protocolVersion < 2 ^ 32
  | result msg => msg.requestId < 2 ^ 64
  | rejection msg => msg.requestId < 2 ^ 64 ∧ ∀ v, msg.version = some v → v < 2 ^ 64
  | changeRecord msg => msg.record.InRange F
  | auth _ | unsubscribe _ | authOk _ | authError _ | notice _ | error _ | ping | terminate | pong =>
    True

/-- A message as it comes back. -/
def settled : Message → Message
  | defineMachine msg => defineMachine { msg with definition := msg.definition.settled }
  | transition msg => transition { msg with ctx := msg.ctx.canonical }
  | result msg => result { msg with payload := msg.payload.canonical }
  | changeRecord msg => changeRecord { msg with record := msg.record.settled }
  | m => m

/-- The frame carries the message: its body has the fields of the message, in any order and among
others, and is not nested too deep to be read. -/
def CarriedBy (F : Formats) (m : Message) (frame : Frame) : Prop :=
  frame.tag = m.tag ∧ ∀ doc, m.toDoc F = some doc →
    ∃ members', Extends doc.members members' ∧ (Json.object members').depth ≤ nestingLimit ∧
      frame.body = F.codec.toVecNamed (.object members')

end Message

section Carried

variable {F : Formats} {members' : List (String × Json)}

theorem StartupMessage.read_extends {msg : StartupMessage} (hr : msg.protocolVersion < 2 ^ 32)
    (hext : Extends msg.toDoc.members members') :
    StartupMessage.read (.object members') = .ok msg := by
  have hversion := Reader.unsigned_ofNat hr
  refine Framework.read_extends (by simp [field]) ?_ hext _ fun fields h => ?_
  · exact .cons (field_ok hversion) <| .cons (field_ok (Reader.list_strings _)) .nil
  · simp only [required_congr h]
    simp [required, Json.members, StartupMessage.toDoc, List.lookup, hversion, Reader.list_strings]
    rfl

theorem AuthMessage.read_extends {msg : AuthMessage} (hext : Extends msg.toDoc.members members') :
    AuthMessage.read (.object members') = .ok msg := by
  refine Framework.read_extends (by simp [field]) ?_ hext _ fun fields h => ?_
  · exact .cons (field_ok rfl) .nil
  · simp only [required_congr h]
    simp [required, Json.members, AuthMessage.toDoc, Reader.string]

theorem DefineMachineMessage.read_extends {msg : DefineMachineMessage}
    (hr : (Message.defineMachine msg).InRange F) (hext : Extends (msg.toDoc F).members members') :
    DefineMachineMessage.read F (.object members')
      = .ok { msg with definition := msg.definition.settled } := by
  obtain ⟨hid, hversion, hdef⟩ := hr
  have hid := Reader.unsigned_ofNat hid
  have hversion := Reader.unsigned_ofNat hversion
  have hdef := MachineDefinition.read_toDoc hdef
  refine Framework.read_extends (by simp [field]) ?_ hext _ fun fields h => ?_
  · exact .cons (field_ok hid) <| .cons (field_ok rfl) <| .cons (field_ok hversion)
      <| .cons (field_ok hdef) .nil
  · simp only [required_congr h]
    simp [required, Json.members, DefineMachineMessage.toDoc, List.lookup, Reader.string, hid,
      hversion, hdef]
    rfl

theorem TransitionMessage.read_extends {msg : TransitionMessage}
    (hr : (Message.transition msg).InRange F) (hext : Extends msg.toDoc.members members') :
    TransitionMessage.read (.object members') = .ok { msg with ctx := msg.ctx.canonical } := by
  have hid := Reader.unsigned_ofNat hr.1
  have hversion := Reader.option_unsigned hr.2
  have hkey := Reader.option_string msg.idempotencyKey
  refine Framework.read_extends (by simp [field]) ?_ hext _ fun fields h => ?_
  · exact .cons (field_ok hid) <| .cons (field_ok rfl) <| .cons (field_ok rfl) <| .cons (field_ok rfl)
      <| .cons (field_ok hversion) <| .cons (field_ok hkey) <| .cons (field_ok rfl)
      <| .cons (field_ok rfl) .nil
  · simp only [required_congr h, optional_congr h]
    simp [required, Framework.optional, Json.members, TransitionMessage.toDoc, List.lookup,
      Reader.string, Reader.value, hid, hversion, hkey]
    rfl

theorem CurrentMessage.read_extends {msg : CurrentMessage} (hr : msg.requestId < 2 ^ 64)
    (hext : Extends msg.toDoc.members members') :
    CurrentMessage.read (.object members') = .ok msg := by
  have hid := Reader.unsigned_ofNat hr
  refine Framework.read_extends (by simp [field]) ?_ hext _ fun fields h => ?_
  · exact .cons (field_ok hid) <| .cons (field_ok rfl) <| .cons (field_ok rfl) .nil
  · simp only [required_congr h]
    simp [required, Json.members, CurrentMessage.toDoc, List.lookup, Reader.string, hid]
    rfl

theorem HistoryMessage.read_extends {msg : HistoryMessage} (hr : (Message.history msg).InRange F)
    (hext : Extends msg.toDoc.members members') :
    HistoryMessage.read (.object members') = .ok msg := by
  have hid := Reader.unsigned_ofNat hr.1
  have hlimit := Reader.option_unsigned hr.2.1
  have hafter := Reader.option_unsigned hr.2.2
  refine Framework.read_extends (by simp [field]) ?_ hext _ fun fields h => ?_
  · exact .cons (field_ok hid) <| .cons (field_ok rfl) <| .cons (field_ok rfl)
      <| .cons (field_ok hlimit) <| .cons (field_ok hafter) .nil
  · simp only [required_congr h, optional_congr h]
    simp [required, Framework.optional, Json.members, HistoryMessage.toDoc, List.lookup, Reader.string,
      hid, hlimit, hafter]
    rfl

theorem SubscribeMessage.read_extends {msg : SubscribeMessage} (hr : (Message.subscribe msg).InRange F)
    (hext : Extends msg.toDoc.members members') :
    SubscribeMessage.read (.object members') = .ok msg := by
  have hid := Reader.unsigned_ofNat hr.1
  have hafter := Reader.unsigned_ofNat hr.2
  have hfilter := Reader.option_string msg.machineFilter
  refine Framework.read_extends (by simp [field]) ?_ hext _ fun fields h => ?_
  · exact .cons (field_ok hid) <| .cons (field_ok rfl) <| .cons (field_ok hfilter)
      <| .cons (field_ok hafter) .nil
  · simp only [required_congr h, optional_congr h]
    simp [required, Framework.optional, Json.members, SubscribeMessage.toDoc, List.lookup,
      Reader.string, hid, hfilter, hafter]
    rfl

theorem AckMessage.read_extends {msg : AckMessage} (hr : msg.upToSequence < 2 ^ 64)
    (hext : Extends msg.toDoc.members members') : AckMessage.read (.object members') = .ok msg := by
  have hseq := Reader.unsigned_ofNat hr
  refine Framework.read_extends (by simp [field]) ?_ hext _ fun fields h => ?_
  · exact .cons (field_ok rfl) <| .cons (field_ok hseq) .nil
  · simp only [required_congr h]
    simp [required, Json.members, AckMessage.toDoc, List.lookup, Reader.string, hseq]
    rfl

theorem UnsubscribeMessage.read_extends {msg : UnsubscribeMessage}
    (hext : Extends msg.toDoc.members members') :
    UnsubscribeMessage.read (.object members') = .ok msg := by
  refine Framework.read_extends (by simp [field]) ?_ hext _ fun fields h => ?_
  · exact .cons (field_ok rfl) .nil
  · simp only [required_congr h]
    simp [required, Json.members, UnsubscribeMessage.toDoc, Reader.string]

theorem ReadyMessage.read_extends {msg : ReadyMessage} (hr : msg.protocolVersion < 2 ^ 32)
    (hext : Extends msg.toDoc.members members') : ReadyMessage.read (.object members') = .ok msg := by
  have hversion := Reader.unsigned_ofNat hr
  refine Framework.read_extends (by simp [field]) ?_ hext _ fun fields h => ?_
  · exact .cons (field_ok rfl) <| .cons (field_ok rfl) <| .cons (field_ok hversion)
      <| .cons (field_ok (Reader.list_strings _)) .nil
  · simp only [required_congr h]
    simp [required, Json.members, ReadyMessage.toDoc, List.lookup, Reader.string, hversion,
      Reader.list_strings]
    rfl

theorem ResultMessage.read_extends {msg : ResultMessage} (hr : msg.requestId < 2 ^ 64)
    (hext : Extends msg.toDoc.members members') :
    ResultMessage.read (.object members') = .ok { msg with payload := msg.payload.canonical } := by
  have hid := Reader.unsigned_ofNat hr
  refine Framework.read_extends (by simp [field]) ?_ hext _ fun fields h => ?_
  · exact .cons (field_ok hid) <| .cons (field_ok rfl) .nil
  · simp only [required_congr h]
    simp [required, Json.members, ResultMessage.toDoc, List.lookup, Reader.value, hid]
    rfl

theorem RejectionMessage.read_extends {msg : RejectionMessage} (hr : (Message.rejection msg).InRange F)
    (hext : Extends msg.toDoc.members members') :
    RejectionMessage.read (.object members') = .ok msg := by
  have hid := Reader.unsigned_ofNat hr.1
  have hversion := Reader.option_unsigned hr.2
  have hstate := Reader.option_string msg.currentState
  refine Framework.read_extends (by simp [field]) ?_ hext _ fun fields h => ?_
  · exact .cons (field_ok hid) <| .cons (field_ok rfl) <| .cons (field_ok rfl)
      <| .cons (field_ok hstate) <| .cons (field_ok hversion) .nil
  · simp only [required_congr h, optional_congr h]
    simp [required, Framework.optional, Json.members, RejectionMessage.toDoc, List.lookup,
      Reader.string, hid, hstate, hversion]
    rfl

theorem ChangeRecordMessage.read_extends {msg : ChangeRecordMessage}
    (hr : msg.record.InRange F) (hext : Extends (msg.toDoc F).members members') :
    ChangeRecordMessage.read F (.object members') = .ok { msg with record := msg.record.settled } := by
  have hrecord := ChangeRecord.read_toDoc hr
  refine Framework.read_extends (by simp [field]) ?_ hext _ fun fields h => ?_
  · exact .cons (field_ok rfl) <| .cons (field_ok hrecord) .nil
  · simp only [required_congr h]
    simp [required, Json.members, ChangeRecordMessage.toDoc, List.lookup, Reader.string, hrecord]
    rfl

theorem NoticeMessage.read_extends {msg : NoticeMessage}
    (hext : Extends msg.toDoc.members members') :
    NoticeMessage.read (.object members') = .ok msg := by
  refine Framework.read_extends (by simp [field]) ?_ hext _ fun fields h => ?_
  · exact .cons (field_ok rfl) .nil
  · simp only [required_congr h]
    simp [required, Json.members, NoticeMessage.toDoc, Reader.string]

theorem ErrorMessage.read_extends {msg : ErrorMessage} (hext : Extends msg.toDoc.members members') :
    ErrorMessage.read (.object members') = .ok msg := by
  refine Framework.read_extends (by simp [field]) ?_ hext _ fun fields h => ?_
  · exact .cons (field_ok rfl) <| .cons (field_ok rfl) .nil
  · simp only [required_congr h]
    simp [required, Json.members, ErrorMessage.toDoc, List.lookup, Reader.string, Reader.bool]
    rfl

end Carried

namespace Message

variable {F : Formats}

/-- **A frame that carries a message is read as this message.** -/
theorem read_carried (hF : F.codec.Lawful) {m : Message} (hm : m.InRange F) {frame : Frame}
    (h : m.CarriedBy F frame) : ofFrame F frame = .ok m.settled := by
  obtain ⟨tag, body⟩ := frame
  obtain ⟨htag, hbody⟩ := h
  change tag = m.tag at htag
  subst htag
  -- a body that was encoded is read as its document is
  have hread : ∀ {α : Type} {read : Reader α} {members' : List (String × Json)} {msg : α},
      (Json.object members').depth ≤ nestingLimit → body = F.codec.toVecNamed (.object members') →
      read (.object members') = .ok msg → decodeMessage F read ⟨m.tag, body⟩ = .ok msg := by
    rintro α read members' msg hdepth rfl hmsg
    exact decodeMessage_toVecNamed hF _ hdepth hmsg
  cases m with
  | ping | terminate | pong => rfl
  | startup msg =>
    obtain ⟨members', hext, hdepth, hbody⟩ := hbody _ rfl
    exact congrArg (Except.map startup) (hread hdepth hbody (StartupMessage.read_extends hm hext))
  | auth msg =>
    obtain ⟨members', hext, hdepth, hbody⟩ := hbody _ rfl
    exact congrArg (Except.map auth) (hread hdepth hbody (AuthMessage.read_extends hext))
  | defineMachine msg =>
    obtain ⟨members', hext, hdepth, hbody⟩ := hbody _ rfl
    exact congrArg (Except.map defineMachine)
      (hread hdepth hbody (DefineMachineMessage.read_extends hm hext))
  | transition msg =>
    obtain ⟨members', hext, hdepth, hbody⟩ := hbody _ rfl
    exact congrArg (Except.map transition) (hread hdepth hbody (TransitionMessage.read_extends hm hext))
  | current msg =>
    obtain ⟨members', hext, hdepth, hbody⟩ := hbody _ rfl
    exact congrArg (Except.map current) (hread hdepth hbody (CurrentMessage.read_extends hm hext))
  | history msg =>
    obtain ⟨members', hext, hdepth, hbody⟩ := hbody _ rfl
    exact congrArg (Except.map history) (hread hdepth hbody (HistoryMessage.read_extends hm hext))
  | subscribe msg =>
    obtain ⟨members', hext, hdepth, hbody⟩ := hbody _ rfl
    exact congrArg (Except.map subscribe) (hread hdepth hbody (SubscribeMessage.read_extends hm hext))
  | ack msg =>
    obtain ⟨members', hext, hdepth, hbody⟩ := hbody _ rfl
    exact congrArg (Except.map ack) (hread hdepth hbody (AckMessage.read_extends hm hext))
  | unsubscribe msg =>
    obtain ⟨members', hext, hdepth, hbody⟩ := hbody _ rfl
    exact congrArg (Except.map unsubscribe) (hread hdepth hbody (UnsubscribeMessage.read_extends hext))
  | ready msg =>
    obtain ⟨members', hext, hdepth, hbody⟩ := hbody _ rfl
    exact congrArg (Except.map ready) (hread hdepth hbody (ReadyMessage.read_extends hm hext))
  | authOk msg =>
    obtain ⟨members', hext, hdepth, hbody⟩ := hbody _ rfl
    exact congrArg (Except.map authOk) (hread hdepth hbody (ErrorMessage.read_extends hext))
  | authError msg =>
    obtain ⟨members', hext, hdepth, hbody⟩ := hbody _ rfl
    exact congrArg (Except.map authError) (hread hdepth hbody (ErrorMessage.read_extends hext))
  | result msg =>
    obtain ⟨members', hext, hdepth, hbody⟩ := hbody _ rfl
    exact congrArg (Except.map result) (hread hdepth hbody (ResultMessage.read_extends hm hext))
  | rejection msg =>
    obtain ⟨members', hext, hdepth, hbody⟩ := hbody _ rfl
    exact congrArg (Except.map rejection) (hread hdepth hbody (RejectionMessage.read_extends hm hext))
  | changeRecord msg =>
    obtain ⟨members', hext, hdepth, hbody⟩ := hbody _ rfl
    exact congrArg (Except.map changeRecord)
      (hread hdepth hbody (ChangeRecordMessage.read_extends hm hext))
  | notice msg =>
    obtain ⟨members', hext, hdepth, hbody⟩ := hbody _ rfl
    exact congrArg (Except.map notice) (hread hdepth hbody (NoticeMessage.read_extends hext))
  | error msg =>
    obtain ⟨members', hext, hdepth, hbody⟩ := hbody _ rfl
    exact congrArg (Except.map error) (hread hdepth hbody (ErrorMessage.read_extends hext))

theorem map_ofFrame (hF : F.codec.Lawful) {frames : List Frame} {messages : List Message}
    (hcarried : List.Forall₂ (fun frame m => CarriedBy F m frame) frames messages)
    (hrange : ∀ m ∈ messages, m.InRange F) :
    frames.map (ofFrame F) = messages.map fun m => .ok m.settled := by
  induction hcarried with
  | nil => rfl
  | cons hhead _ ih =>
    rw [List.map_cons, List.map_cons, read_carried hF (hrange _ List.mem_cons_self) hhead,
      ih fun m hm => hrange m (List.mem_cons_of_mem _ hm)]

end Message

/-- **Messages go through the wire.** Frames within the limit that carry messages, written one after
the other and cut into pieces anywhere, are read as these messages, settled: all of them, in order, with
no byte left and no error. -/
theorem messages_round_trip {F : Formats} (hF : F.codec.Lawful) {frames : List Frame}
    {messages : List Message}
    (hcarried : List.Forall₂ (fun frame m => Message.CarriedBy F m frame) frames messages)
    (hrange : ∀ m ∈ messages, m.InRange F) (hfits : ∀ frame ∈ frames, frame.Fits)
    {chunks : List (List UInt8)} (hchunks : chunks.flatten = frames.flatMap FrameCodec.bytes) :
    ∃ received, Decoder.feed FrameCodec.decode [] chunks = ⟨received, none, []⟩ ∧
      received.map (Message.ofFrame F) = messages.map fun m => .ok m.settled := by
  refine ⟨frames, ?_, Message.map_ofFrame hF hcarried hrange⟩
  rw [frameCodec_incremental.feed_eq_drain, hchunks]
  -- the stream ends before the first byte of a next frame
  have hdrain := frameCodec_reads.drain_eq frameCodec_incremental (a := ⟨.ping, []⟩) hfits
    (by decide) List.nil_prefix (by decide)
  rwa [List.append_nil] at hdrain

/-- MessagePack, on a single date. -/
def oneDate : Formats where
  codec := MessagePack.codec
  renderJson := MessagePack.render
  toRfc3339 _ := "1970-01-01T00:00:00+00:00"
  writeDate _ := "1970-01-01T00:00:00Z"
  readDate _ := .ok 0

/-- A subscription that starts from the beginning. -/
def fromStart : SubscribeMessage := ⟨7, "s", none, 0⟩

/-- The same, from a client that also names the codecs it knows. -/
def newerSubscribe : Frame where
  tag := .subscribe
  body := MessagePack.codec.toVecNamed
    (.object [("subscription_id", .string "s"), ("codecs", .array [.string "zstd"]),
      ("request_id", .ofNat 7), ("machine_filter", .null), ("after_sequence", .ofNat 0)])

theorem messages_round_trip_newerSubscribe :
    ∃ received, Decoder.feed FrameCodec.decode []
        [(FrameCodec.bytes ⟨.ping, []⟩ ++ FrameCodec.bytes newerSubscribe).take 8,
          (FrameCodec.bytes ⟨.ping, []⟩ ++ FrameCodec.bytes newerSubscribe).drop 8]
      = ⟨received, none, []⟩ ∧
      received.map (Message.ofFrame oneDate) = [.ok .ping, .ok (.subscribe fromStart)] := by
  refine @messages_round_trip oneDate MessagePack.codec_lawful [⟨.ping, []⟩, newerSubscribe]
    [.ping, .subscribe fromStart] ?_ ?_ ?_ _ ?_
  · refine .cons ⟨rfl, fun doc hdoc => absurd hdoc (by simp [Message.toDoc])⟩ (.cons ⟨rfl, ?_⟩ .nil)
    rintro doc hdoc
    obtain rfl := Option.some.inj hdoc
    exact ⟨_, by decide, by decide, rfl⟩
  · simp [Message.InRange, fromStart]
  · decide
  · simp

end StateMaster
