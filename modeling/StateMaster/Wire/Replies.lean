import StateMaster.Framework.MessagePack
import StateMaster.Sdk.Client
import StateMaster.Wire.Server

/-!
# What a client makes of a reply

The server builds its replies with one crate, the SDK reads them with another.

* `Correlated` — one reply, and the reader task hands it to the caller that asked. An error frame
  has no request id (`extractRequestId_makeErrorFrame`), and none is read from a body that is nested
  too deep, so a command is answered in this sense just when its reply is a `Result` or a `Rejection`
  that can be read.
* `Agrees` — the caller of a successful transition gets the server's result. The payload the server
  writes has no member `from_state`, which the record type the SDK reads it through requires.
-/

open Framework

namespace StateMaster

namespace Wire

open Sdk

/-! ### Formats for small examples -/

/-- A time of the first day of the epoch, to the second. -/
def firstDayText (t : DateTime) : String :=
  let s := t.toNat / 10 ^ 9
  "1970-01-01T" ++ Text.padDecimal 2 (s / 3600) ++ ":" ++ Text.padDecimal 2 (s / 60 % 60) ++ ":"
    ++ Text.padDecimal 2 (s % 60)

/-- MessagePack, and dates as they are written on the first day of the epoch. -/
def firstDay : Formats where
  codec := MessagePack.codec
  renderJson := MessagePack.render
  toRfc3339 t := firstDayText t ++ "+00:00"
  writeDate t := firstDayText t ++ "Z"
  readDate text :=
    match (List.range 86400).find? fun s => firstDayText (s * 10 ^ 9) ++ "Z" = text with
    | some s => .ok (s * 10 ^ 9)
    | none => .error (.custom "input contains invalid characters")

theorem firstDay_lawful : firstDay.codec.Lawful := MessagePack.codec_lawful

/-! ### The request id of a reply -/

/-- A map that starts with a request id, and names it once, is read for it. -/
theorem readRequestId_cons {q : ℕ} (hq : q < 2 ^ 64) {rest : List (String × Json)}
    (hrest : ∀ p ∈ rest, p.1 ≠ "request_id") :
    readRequestId (.object (("request_id", .ofNat q) :: rest)) = .ok q := by
  have hnum : Reader.unsigned 64 (.ofNat q) = .ok q := if_pos hq
  have hskip : ∀ p ∈ rest, List.lookup p.1 [field "request_id" (Reader.unsigned 64)] = none := by
    intro p hp
    rw [field, List.lookup_cons, beq_false_of_ne (hrest p hp)]
    rfl
  have hknown : List.lookup "request_id" [field "request_id" (Reader.unsigned 64)]
      = some (field "request_id" (Reader.unsigned 64)).2 := List.lookup_cons_self
  unfold readRequestId
  rw [readFields_object, readMembers_cons hknown rfl ((field_eq_ok_iff "request_id").mpr ⟨q, hnum⟩),
    readMembers_of_unknown hskip]
  exact hnum

/-- **An error frame has no request id**, not even when its encoding fails. -/
theorem extractRequestId_makeErrorFrame {F : Formats} (hF : F.codec.Lawful)
    (faults : HandlerFaults) (message : String) (fatal : Bool) :
    extractRequestId F (makeErrorFrame F faults message fatal) = none := by
  unfold extractRequestId makeErrorFrame encodeMessage
  cases faults.encodeError with
  | none =>
    dsimp only
    rw [fromSlice_toVecNamed hF _ (by simp [ErrorMessage.toDoc, nestingLimit])]
    rfl
  | some e =>
    -- The fallback body is not a message: its first byte is the number 101.
    dsimp only
    unfold encodingErrorBody fromSlice
    rw [hF.fixint 101 _ (by decide)]
    rfl

theorem tag_makeErrorFrame (F : Formats) (faults : HandlerFaults) (message : String)
    (fatal : Bool) : (makeErrorFrame F faults message fatal).tag = .error := by
  unfold makeErrorFrame encodeMessage
  cases faults.encodeError <;> rfl

/-! ### Correlated replies -/

/-- One frame, which the reader task hands to the caller waiting for `q`. -/
def Correlated (F : Formats) (frames : List Frame) (q : ℕ) : Prop :=
  ∃ frame, frames = [frame] ∧ frame.tag.isReply = true ∧ extractRequestId F frame = some q

theorem correlated_singleton {F : Formats} {frame : Frame} {q : ℕ} :
    Correlated F [frame] q ↔ frame.tag.isReply = true ∧ extractRequestId F frame = some q := by
  constructor
  · rintro ⟨frame', hframe, h⟩
    obtain rfl := (List.cons.inj hframe).1
    exact h
  · intro h
    exact ⟨frame, rfl, h⟩

theorem not_correlated_error {F : Formats} (hF : F.codec.Lawful) (faults : HandlerFaults)
    (message : String) (fatal : Bool) (q : ℕ) :
    ¬ Correlated F [makeErrorFrame F faults message fatal] q := by
  rw [correlated_singleton, extractRequestId_makeErrorFrame hF]
  rintro ⟨-, h⟩
  exact absurd h (by simp)

/-- **A reply that starts with its request id is correlated**, unless its encoding fails or it is
nested too deep. -/
theorem correlated_replyFrame_iff {F : Formats} (hF : F.codec.Lawful) (faults : HandlerFaults)
    {tag : FrameTag} (htag : tag.isReply = true) {q : ℕ} (hq : q < 2 ^ 64)
    {rest : List (String × Json)} (hrest : ∀ p ∈ rest, p.1 ≠ "request_id") :
    Correlated F [replyFrame F faults tag (.object (("request_id", .ofNat q) :: rest))] q
      ↔ faults.encode = none ∧
        (Json.object (("request_id", .ofNat q) :: rest)).depth ≤ nestingLimit := by
  unfold replyFrame encodeMessage
  cases faults.encode with
  | none =>
    rw [correlated_singleton, and_iff_right htag, and_iff_right rfl]
    dsimp only [extractRequestId]
    by_cases hle : (Json.object (("request_id", .ofNat q) :: rest)).depth ≤ nestingLimit
    · rw [fromSlice_toVecNamed hF _ hle, readRequestId_cons hq hrest]
      exact iff_of_true rfl hle
    · obtain ⟨e, he⟩ := fromSlice_too_deep hF readRequestId (not_le.mp hle)
      rw [he]
      exact iff_of_false nofun hle
  | some e => exact iff_of_false (not_correlated_error hF _ _ _ _) (by simp)

theorem correlated_resultFrame_iff {F : Formats} (hF : F.codec.Lawful) (faults : HandlerFaults)
    {q : ℕ} (hq : q < 2 ^ 64) (payload : Json) :
    Correlated F [resultFrame F faults q payload] q
      ↔ faults.encode = none ∧ payload.depth < nestingLimit := by
  have hdepth : (Json.object [("request_id", .ofNat q), ("payload", payload)]).depth
      = payload.depth + 1 := by simp
  rw [← Nat.succ_le_iff, Nat.succ_eq_add_one, ← hdepth]
  exact correlated_replyFrame_iff hF faults rfl hq (by simp)

/-- A payload without arrays and maps in it. -/
theorem correlated_flatResult_iff {F : Formats} (hF : F.codec.Lawful) (faults : HandlerFaults)
    {q : ℕ} (hq : q < 2 ^ 64) {members : List (String × Json)}
    (hflat : Json.depthMembers members = 0) :
    Correlated F [resultFrame F faults q (.ofMembers members)] q ↔ faults.encode = none := by
  rw [correlated_resultFrame_iff hF faults hq]
  have hdepth := Json.depth_ofMembers_le members
  rw [hflat] at hdepth
  exact and_iff_left (hdepth.trans_lt (by decide))

theorem depth_rejection (msg : RejectionMessage) : msg.toDoc.depth = 1 := by
  unfold RejectionMessage.toDoc
  cases msg.currentState <;> cases msg.version <;> simp [Json.ofOption]

theorem correlated_makeRejectionFrame_iff {F : Formats} (hF : F.codec.Lawful)
    (faults : HandlerFaults) {q : ℕ} (hq : q < 2 ^ 64) (err : EngineError) :
    Correlated F [makeRejectionFrame F faults q err] q ↔ faults.encode = none := by
  -- Whatever the error, the message starts with the request id.
  have hid : (rejectionMessage q err).requestId = q := by
    unfold rejectionMessage
    split <;> rfl
  have hdepth := depth_rejection (rejectionMessage q err)
  unfold makeRejectionFrame
  unfold RejectionMessage.toDoc at hdepth ⊢
  rw [hid] at hdepth ⊢
  rw [correlated_replyFrame_iff hF faults rfl hq (by simp), hdepth]
  exact and_iff_left (by decide)

/-- A query is answered when its answer is there and nothing fails on the way out. -/
theorem correlated_queryReply_iff {F : Formats} (hF : F.codec.Lawful) (faults : HandlerFaults)
    {q : ℕ} (hq : q < 2 ^ 64) (answer : Except EngineError Json) :
    Correlated F [queryReply F faults q answer] q
      ↔ (∃ doc, answer = .ok doc ∧ doc.canonical.depth < nestingLimit) ∧
        faults.toValue = none ∧ faults.encode = none := by
  unfold queryReply toValue
  cases answer with
  | error e =>
    refine iff_of_false (not_correlated_error hF _ _ _ _) ?_
    rintro ⟨⟨doc, h, -⟩, -⟩
    exact absurd h (by simp)
  | ok doc =>
    cases faults.toValue with
    | some e => exact iff_of_false (not_correlated_error hF _ _ _ _) (by simp)
    | none =>
      dsimp only
      rw [correlated_resultFrame_iff hF faults hq]
      simp [and_comm]

/-! ### Commands -/

/-- The messages that carry a request id into `handle_frame`. -/
inductive Command where
  | defineMachine (msg : DefineMachineMessage)
  | transition (msg : TransitionMessage)
  | current (msg : CurrentMessage)
  | history (msg : HistoryMessage)

namespace Command

def requestId : Command → ℕ
  | .defineMachine msg => msg.requestId
  | .transition msg => msg.requestId
  | .current msg => msg.requestId
  | .history msg => msg.requestId

/-- The frame decodes to the command. -/
def DecodesTo (F : Formats) (frame : Frame) : Command → Prop
  | .defineMachine msg =>
    frame.tag = .defineMachine ∧ decodeMessage F (DefineMachineMessage.read F) frame = .ok msg
  | .transition msg =>
    frame.tag = .transition ∧ decodeMessage F TransitionMessage.read frame = .ok msg
  | .current msg => frame.tag = .current ∧ decodeMessage F CurrentMessage.read frame = .ok msg
  | .history msg => frame.tag = .history ∧ decodeMessage F HistoryMessage.read frame = .ok msg

/-- What `handle_frame` does once it has decoded the command. -/
def handle (F : Formats) (s : ServerState) (draws : Draws) (faults : HandlerFaults) :
    Command → List Frame × ServerState
  | .defineMachine msg => handleDefineMachine F s faults msg
  | .transition msg => handleTransition F s draws faults msg
  | .current msg => handleCurrent F s faults msg
  | .history msg => handleHistory F s faults msg

theorem DecodesTo.handleFrame_eq {F : Formats} {frame : Frame} {cmd : Command}
    (h : cmd.DecodesTo F frame) (s : ServerState) (draws : Draws) (faults : HandlerFaults) :
    handleFrame F s draws faults frame = cmd.handle F s draws faults := by
  unfold handleFrame decoded
  cases cmd <;>
    (obtain ⟨htag, hmsg⟩ := h
     rw [htag]
     dsimp only
     rw [hmsg]
     rfl)

/-- What the reply of a command rests on, besides its encoding. The contexts of a history stand three
levels deep in its reply. -/
def Answerable (s : ServerState) (faults : HandlerFaults) : Command → Prop
  | .defineMachine msg => msg.definition.validate = .ok () ∧ faults.storage = none
  | .transition _ => True
  | .current msg =>
    (s.store.entityStates[entityStateKey msg.entityId msg.machine]?).isSome = true ∧
      faults.storage = none ∧ faults.toValue = none
  | .history msg => faults.storage = none ∧ faults.toValue = none ∧
    ∀ r ∈ RedbEngine.getHistory s.store msg.entityId msg.machine msg.limit msg.afterSequence,
      r.ctx.canonical.depth + 3 ≤ nestingLimit

/-- A request id that was decoded is a `u64`. -/
theorem DecodesTo.requestId_lt {F : Formats} {frame : Frame} {cmd : Command}
    (h : cmd.DecodesTo F frame) : cmd.requestId < 2 ^ 64 := by
  -- In all four messages the id is the field read first.
  cases cmd with
  | defineMachine msg =>
    simp only [DecodesTo, decodeMessage, mapError_eq_ok_iff, fromSlice, bind_eq_ok_iff,
      DefineMachineMessage.read] at h
    obtain ⟨-, _, -, _, -, q, hq, _, -, _, -, _, -, hret⟩ := h
    obtain rfl := Except.ok.inj hret
    exact required_unsigned_eq_ok hq
  | transition msg =>
    simp only [DecodesTo, decodeMessage, mapError_eq_ok_iff, fromSlice, bind_eq_ok_iff,
      TransitionMessage.read] at h
    obtain ⟨-, _, -, _, -, q, hq, _, -, _, -, _, -, _, -, _, -, _, -, _, -, hret⟩ := h
    obtain rfl := Except.ok.inj hret
    exact required_unsigned_eq_ok hq
  | current msg =>
    simp only [DecodesTo, decodeMessage, mapError_eq_ok_iff, fromSlice, bind_eq_ok_iff,
      CurrentMessage.read] at h
    obtain ⟨-, _, -, _, -, q, hq, _, -, _, -, hret⟩ := h
    obtain rfl := Except.ok.inj hret
    exact required_unsigned_eq_ok hq
  | history msg =>
    simp only [DecodesTo, decodeMessage, mapError_eq_ok_iff, fromSlice, bind_eq_ok_iff,
      HistoryMessage.read] at h
    obtain ⟨-, _, -, _, -, q, hq, _, -, _, -, _, -, _, -, hret⟩ := h
    obtain rfl := Except.ok.inj hret
    exact required_unsigned_eq_ok hq

end Command

/-! ### What the engine answers -/

theorem exists_defineMachine_eq_ok_iff {S : Store} {definition : MachineDefinition}
    {fault : Option Fault} :
    (∃ S', Engine.defineMachine S definition fault = .ok S')
      ↔ definition.validate = .ok () ∧ fault = none := by
  simp [Engine.defineMachine_eq_ok_iff]

theorem current_eq_ok_iff {S : Store} {entityId machine : String} {fault : Option Fault} :
    (∃ state, Engine.current S entityId machine fault = .ok state)
      ↔ (S.entityStates[entityStateKey entityId machine]?).isSome = true ∧ fault = none := by
  unfold Engine.current
  cases fault with
  | some f => exact iff_of_false (by rintro ⟨S', h⟩; cases h) (by simp)
  | none =>
    rw [withFault_none, Engine.getEntityState_eq]
    cases S.entityStates[entityStateKey entityId machine]? with
    | some state => exact iff_of_true ⟨state, rfl⟩ ⟨rfl, rfl⟩
    | none => exact iff_of_false (by rintro ⟨S', h⟩; cases h) (by simp)

theorem history_eq_ok_iff {S : Store} {entityId machine : String} {limit after : Option ℕ}
    {fault : Option Fault} {records : List TransitionRecord} :
    Engine.history S entityId machine limit after fault = .ok records
      ↔ fault = none ∧ RedbEngine.getHistory S entityId machine limit after = records := by
  unfold Engine.history
  cases fault with
  | some f => exact iff_of_false nofun (by simp)
  | none => simp [withFault, Except.mapError]

theorem exists_map_eq_ok_iff {ε α β : Type} {x : Except ε α} {f : α → β} {P : β → Prop} :
    (∃ b, x.map f = .ok b ∧ P b) ↔ ∃ a, x = .ok a ∧ P (f a) := by
  cases x with
  | error e => exact iff_of_false (by rintro ⟨b, h, -⟩; cases h) (by rintro ⟨a, h, -⟩; cases h)
  | ok a => simp [Except.map]

/-! ### How deep the answers are nested -/

theorem depth_entityState (F : Formats) (state : EntityState) :
    (state.toDoc F).canonical.depth = 1 := by
  unfold EntityState.toDoc
  rw [Json.depth_canonical_object (by simp)]
  simp [Json.canonical, Json.ofNat]

theorem depth_transitionRecord (F : Formats) (r : TransitionRecord) :
    (r.toDoc F).canonical.depth = r.ctx.canonical.depth + 1 := by
  have hkey : (Json.ofOption Json.string r.idempotencyKey).canonical.depth = 0 := by
    cases r.idempotencyKey <;> simp [Json.ofOption, Json.canonical]
  unfold TransitionRecord.toDoc
  rw [Json.depth_canonical_object (by simp)]
  simp [Json.canonical, Json.ofNat, hkey]

theorem depth_history_lt_iff (F : Formats) (records : List TransitionRecord) :
    (Json.array (records.map fun r => r.toDoc F)).canonical.depth < nestingLimit
      ↔ ∀ r ∈ records, r.ctx.canonical.depth + 3 ≤ nestingLimit := by
  have hitems : Json.depthItems (Json.canonicalItems (records.map fun r => r.toDoc F)) ≤ 1021
      ↔ ∀ r ∈ records, r.ctx.canonical.depth + 1 ≤ 1021 := by
    rw [Json.canonicalItems_eq_map, Json.depthItems_le_iff]
    simp [depth_transitionRecord]
  rw [Json.canonical, Json.depth]
  unfold nestingLimit
  rw [show ∀ d, d + 1 < 1023 ↔ d ≤ 1021 by omega, hitems]
  exact forall₂_congr fun r _ => by omega

/-- **When a command gets its one correlated reply**: exactly when the engine's answer can be told
in a `Result` or a `Rejection` that is read. A refused definition, a missing entity and a failed read
are told in an error frame, which the reader task drops; and so is a history with a context so deep
that the reply cannot be read. -/
theorem handleFrame_correlated_iff {F : Formats} (hF : F.codec.Lawful) (s : ServerState)
    (draws : Draws) (faults : HandlerFaults) {frame : Frame} {cmd : Command}
    (hcmd : cmd.DecodesTo F frame) :
    Correlated F (handleFrame F s draws faults frame).1 cmd.requestId
      ↔ faults.encode = none ∧ cmd.Answerable s faults := by
  have hq := hcmd.requestId_lt
  rw [hcmd.handleFrame_eq]
  cases cmd with
  | defineMachine msg =>
    dsimp only [Command.requestId, Command.Answerable, Command.handle] at hq ⊢
    rw [← @exists_defineMachine_eq_ok_iff s.store]
    unfold handleDefineMachine
    cases Engine.defineMachine s.store msg.definition faults.storage with
    | ok S' =>
      rw [correlated_flatResult_iff hF faults hq (by simp)]
      simp
    | error e => exact iff_of_false (not_correlated_error hF _ _ _ _) (by simp)
  | transition msg =>
    -- Every error of the engine is a rejection, and a rejection has the id.
    dsimp only [Command.requestId, Command.Answerable, Command.handle] at hq ⊢
    rw [and_true]
    unfold handleTransition
    cases Engine.transition s.store s.guards s.shutdown (msg.toCall draws faults.call) with
    | ok p => exact correlated_flatResult_iff hF faults hq (by simp)
    | error e => exact correlated_makeRejectionFrame_iff hF faults hq e
  | current msg =>
    dsimp only [Command.requestId, Command.Answerable, Command.handle] at hq ⊢
    unfold handleCurrent
    dsimp only
    rw [correlated_queryReply_iff hF faults hq, exists_map_eq_ok_iff]
    simp only [depth_entityState, show 1 < nestingLimit by decide, and_true]
    rw [current_eq_ok_iff]
    tauto
  | history msg =>
    dsimp only [Command.requestId, Command.Answerable, Command.handle] at hq ⊢
    unfold handleHistory
    dsimp only
    rw [correlated_queryReply_iff hF faults hq, exists_map_eq_ok_iff]
    simp only [history_eq_ok_iff, depth_history_lt_iff, and_assoc, exists_and_left, exists_eq_left']
    tauto

/-- A client asks for the history of an order. -/
def historyOfOrder : Frame where
  tag := .history
  body := firstDay.codec.toVecNamed
    (.object [("request_id", .ofNat 7), ("entity_id", .string "order-1"),
      ("machine", .string "order"), ("limit", .null), ("after_sequence", .null)])

/-- On a fresh server the empty history is told. -/
theorem handleFrame_correlated_historyOfOrder :
    Correlated firstDay
      (handleFrame firstDay ServerState.initial (Draws.ofNat 0) HandlerFaults.none
        historyOfOrder).1 7 := by
  have hcmd : (Command.history ⟨7, "order-1", "order", none, none⟩).DecodesTo firstDay
      historyOfOrder :=
    ⟨rfl, decodeMessage_toVecNamed firstDay_lawful _ (by decide) rfl⟩
  exact (handleFrame_correlated_iff firstDay_lawful ServerState.initial (Draws.ofNat 0)
    HandlerFaults.none hcmd).mpr ⟨rfl, rfl, rfl, nofun⟩

/-- A client asks where an order stands. -/
def currentOfOrder : Frame where
  tag := .current
  body := firstDay.codec.toVecNamed
    (.object [("request_id", .ofNat 7), ("entity_id", .string "order-1"),
      ("machine", .string "order")])

/-- **A question about an unknown entity is never answered**: the reply is an error frame, and the
reader task finds no caller for it. -/
theorem currentOfOrder_not_correlated :
    (Command.current ⟨7, "order-1", "order"⟩).DecodesTo firstDay currentOfOrder ∧
      ¬ Correlated firstDay
        (handleFrame firstDay ServerState.initial (Draws.ofNat 0) HandlerFaults.none
          currentOfOrder).1 7 := by
  have hcmd : (Command.current ⟨7, "order-1", "order"⟩).DecodesTo firstDay currentOfOrder :=
    ⟨rfl, decodeMessage_toVecNamed firstDay_lawful _ (by decide) rfl⟩
  have hmissing : Engine.current Store.empty "order-1" "order" none
      = .error (.storage (.notFound "entity 'order-1' in machine 'order'")) := rfl
  refine ⟨hcmd, ?_⟩
  rw [hcmd.handleFrame_eq]
  dsimp only [Command.handle, handleCurrent, ServerState.initial, HandlerFaults.none]
  rw [hmissing, correlated_queryReply_iff firstDay_lawful _ (by decide)]
  rintro ⟨⟨doc, hdoc, -⟩, -⟩
  exact absurd hdoc nofun

/-! ### The result of a transition -/

/-- The caller of `send` gets the server's result. -/
def Agrees (F : Formats) (frame : Frame) (r : TransitionResult) : Prop :=
  ∃ resp, TransitionBuilder.decodeReply F frame = .ok resp ∧
    resp.entityId = r.entityId ∧ resp.machine = r.machine ∧ resp.fromState = r.fromState ∧
    resp.toState = r.toState ∧ resp.version = r.version ∧ resp.transitionId = r.transitionId ∧
    resp.sequence = r.sequence ∧ resp.timestamp = r.timestamp

/-- A change record is not read from a map without a state to come from. -/
theorem changeRecord_read_ne_ok {F : Formats} {members : List (String × Json)}
    (h : members.lookup "from_state" = none) (cr : ChangeRecord) :
    ChangeRecord.read F (.object members) ≠ .ok cr := by
  intro hread
  simp only [ChangeRecord.read, readFields_object, bind_eq_ok_iff] at hread
  obtain ⟨fields, hfields, _, -, _, -, _, -, _, -, _, hfrom, -⟩ := hread
  rw [required_eq_error (readMembers_lookup_eq_none hfields h rfl)] at hfrom
  exact absurd hfrom (by simp)

/-- The payload of a transition, as the client has it: a map without that name. -/
theorem transitionPayload_canonical (F : Formats) (r : TransitionResult) :
    ∃ members, (transitionPayload F r).canonical = .object members ∧
      members.lookup "from_state" = none := by
  unfold transitionPayload Json.ofMembers
  refine ⟨_, by rw [Json.canonical], Json.lookup_canonicalMembers_eq_none ?_ rfl⟩
  refine Json.lookup_foldl_insertMember_eq_none ?_ rfl
  simp

theorem depth_transitionResult (F : Formats) (q : ℕ) (r : TransitionResult) :
    (ResultMessage.toDoc ⟨q, transitionPayload F r⟩).depth ≤ nestingLimit := by
  have hpayload : (transitionPayload F r).depth ≤ 1 :=
    (Json.depth_ofMembers_le _).trans (by simp)
  simp only [ResultMessage.toDoc, Json.depth, Json.depthMembers, Json.depth_ofNat]
  unfold nestingLimit
  omega

/-- A `Result` that is read has the id and the payload it was written with. -/
theorem resultMessage_read_toDoc {q : ℕ} {payload : Json} {msg : ResultMessage}
    (h : ResultMessage.read (ResultMessage.toDoc ⟨q, payload⟩) = .ok msg) :
    msg = ⟨q, payload.canonical⟩ := by
  unfold ResultMessage.toDoc ResultMessage.read at h
  simp only [readFields_object, bind_eq_ok_iff] at h
  obtain ⟨fields, hfields, id, hid, doc, hdoc, hret⟩ := h
  -- Both members passed their checks, so they are what the fields are read from.
  have hid' := readMembers_check hfields List.mem_cons_self rfl
  have hpayload : Reader.value payload = .ok payload.canonical := rfl
  rw [readMembers_cons rfl rfl hid',
    readMembers_cons rfl rfl ((field_eq_ok_iff "payload").mpr ⟨_, hpayload⟩)] at hfields
  obtain rfl := Except.ok.inj hfields
  obtain rfl := Reader.unsigned_ofNat_eq_ok hid
  obtain rfl := Except.ok.inj hdoc
  exact (Except.ok.inj hret).symm

/-- **The caller of a successful transition never gets its result**: the server names the old state
`from`, the client asks for `from_state`. -/
theorem transition_result_not_decoded {F : Formats} (hF : F.codec.Lawful)
    (faults : HandlerFaults) (q : ℕ) (r : TransitionResult) :
    ¬ Agrees F (makeTransitionResultFrame F faults q r) r := by
  rintro ⟨resp, hresp, -⟩
  unfold makeTransitionResultFrame resultFrame replyFrame encodeMessage at hresp
  cases hfault : faults.encode with
  | some e =>
    -- The reply is an error frame, and `send` returns an error for it.
    rw [hfault] at hresp
    dsimp only at hresp
    unfold TransitionBuilder.decodeReply at hresp
    rw [tag_makeErrorFrame] at hresp
    dsimp only at hresp
    split at hresp <;> exact absurd hresp (by simp)
  | none =>
    rw [hfault] at hresp
    simp only [TransitionBuilder.decodeReply, decodeMessage, bind_eq_ok_iff, mapError_eq_ok_iff]
      at hresp
    obtain ⟨msg, hmsg, cr, hcr, -⟩ := hresp
    rw [fromSlice_toVecNamed hF _ (depth_transitionResult F q r)] at hmsg
    obtain rfl := resultMessage_read_toDoc hmsg
    obtain ⟨members, hmembers, hfrom⟩ := transitionPayload_canonical F r
    dsimp only at hcr
    rw [hmembers] at hcr
    exact changeRecord_read_ne_ok hfrom cr hcr

/-- The result of a payment. -/
def paidResult : TransitionResult :=
  ⟨"order-1", "order", "pending", "paid", 1, (Uuid.ofPair 0 0).text, 1, 0⟩

theorem transition_result_not_decoded_paid :
    firstDay.codec.Lawful ∧
      ¬ Agrees firstDay (makeTransitionResultFrame firstDay HandlerFaults.none 7 paidResult)
        paidResult :=
  ⟨firstDay_lawful,
    transition_result_not_decoded firstDay_lawful HandlerFaults.none 7 paidResult⟩

/-- **The payment went through, and `send` reports an internal error.** -/
theorem paidResult_refused :
    TransitionBuilder.decodeReply firstDay
        (makeTransitionResultFrame firstDay HandlerFaults.none 7 paidResult)
      = .error (.internal "deserialize transition result: missing field `from_state`") ∧
    ¬ Agrees firstDay (makeTransitionResultFrame firstDay HandlerFaults.none 7 paidResult)
      paidResult := by
  have hrefused : TransitionBuilder.decodeReply firstDay
        (makeTransitionResultFrame firstDay HandlerFaults.none 7 paidResult)
      = .error (.internal "deserialize transition result: missing field `from_state`") := by
    unfold makeTransitionResultFrame resultFrame replyFrame encodeMessage HandlerFaults.none
      TransitionBuilder.decodeReply decodeMessage
    dsimp only
    rw [fromSlice_toVecNamed firstDay_lawful _ (depth_transitionResult ..)]
    rfl
  refine ⟨hrefused, ?_⟩
  rintro ⟨resp, hresp, -⟩
  rw [hrefused] at hresp
  exact absurd hresp (by simp)

end Wire

end StateMaster
