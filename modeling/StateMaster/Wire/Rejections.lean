import StateMaster.Engine.Idempotency
import StateMaster.Engine.Linearizability
import StateMaster.Wire.Replies

/-!
# What a rejection is told

A refused transition goes through three error types before `make_rejection_frame` turns it into a
code. The planner's refusals arrive there as errors of the core and get a code of their own. A
machine without a definition is a `NotFound` of the storage layer, which no arm of the match
expects, so that it falls into the last one.

* `rejectionCause` — the reason for a refusal, read off the store;
* `CauseNamed` — every rejection among the replies carries the code of that reason;
* `rejection_names_cause_iff` — this holds for every message except those for a machine that is not
  defined.
-/

open Framework Framework.Text

namespace StateMaster

namespace Wire

/-! ### The cause -/

/-- The reasons for which a transition is refused. -/
inductive RejectionCause where
  | unknownMachine
  | versionConflict
  | illegalTransition
  | guardFailed
deriving DecidableEq, Repr

/-- The code the protocol has for a reason. -/
def RejectionCause.code : RejectionCause → String
  | .unknownMachine => "unknown_machine"
  | .versionConflict => "version_conflict"
  | .illegalTransition => "illegal_transition"
  | .guardFailed => "guard_failed"

/-- The reason for which a refused transition was refused, as the store shows it: the first of the
four that applies. An entity without a row is in the initial state, at version `0`. -/
def rejectionCause (S : Store) (msg : TransitionMessage) : RejectionCause :=
  match S.machines[msg.machine]? with
  | none => .unknownMachine
  | some definition =>
    let row := S.entityStates[entityStateKey msg.entityId msg.machine]?
    let version := (row.map EntityState.version).getD 0
    let state := (row.map EntityState.currentState).getD definition.initialState
    if msg.expectedVersion.any fun expected => expected ≠ version then .versionConflict
    else if definition.transitions.any fun rule => rule.answers state msg.event then .guardFailed
    else .illegalTransition

/-- The frame is an encoded rejection with this code. -/
def TellsCode (F : Formats) (frame : Frame) (code : String) : Prop :=
  ∃ rejection : RejectionMessage,
    encodeMessage F none .rejection rejection.toDoc = .ok frame ∧ rejection.code = code

/-- Every rejection among the frames carries the code of its cause. -/
def CauseNamed (F : Formats) (S : Store) (msg : TransitionMessage) (frames : List Frame) : Prop :=
  ∀ frame ∈ frames, frame.tag = .rejection → TellsCode F frame (rejectionCause S msg).code

/-- A frame carries one code: what was encoded can be read back. -/
theorem TellsCode.unique {F : Formats} (hF : F.codec.Lawful) {frame : Frame} {code code' : String}
    (h : TellsCode F frame code) (h' : TellsCode F frame code') : code = code' := by
  obtain ⟨r, hr, rfl⟩ := h
  obtain ⟨r', hr', rfl⟩ := h'
  have hbody : F.codec.toVecNamed r.toDoc = F.codec.toVecNamed r'.toDoc :=
    congrArg Frame.body ((Except.ok.inj hr).trans (Except.ok.inj hr').symm)
  have hdoc : r.toDoc = r'.toDoc := by
    have hread := congrArg F.codec.fromSlice hbody
    have hdepth : ∀ msg : RejectionMessage, msg.toDoc.depth ≤ nestingLimit :=
      fun msg => (depth_rejection msg).trans_le (by decide)
    rw [hF.round_trip _ (hdepth r), hF.round_trip _ (hdepth r')] at hread
    exact Except.ok.inj hread
  -- The code is the second member of the map.
  simp only [RejectionMessage.toDoc, Json.object.injEq, List.cons.injEq, Prod.mk.injEq,
    Json.string.injEq] at hdoc
  exact hdoc.2.1.2

theorem tellsCode_makeRejectionFrame {F : Formats} {faults : HandlerFaults}
    (hencode : faults.encode = none) (requestId : ℕ) (err : EngineError) :
    TellsCode F (makeRejectionFrame F faults requestId err)
      (rejectionMessage requestId err).code := by
  refine ⟨rejectionMessage requestId err, ?_, rfl⟩
  unfold makeRejectionFrame replyFrame
  rw [hencode]
  rfl

theorem tag_replyFrame {F : Formats} {faults : HandlerFaults} (hencode : faults.encode = none)
    (tag : FrameTag) (doc : Json) : (replyFrame F faults tag doc).tag = tag := by
  unfold replyFrame encodeMessage
  rw [hencode]

/-- A reply whose encoding fails is an error frame, whatever its tag was to be. -/
theorem tag_replyFrame_of_fault {F : Formats} {faults : HandlerFaults} {e : String}
    (hencode : faults.encode = some e) (tag : FrameTag) (doc : Json) :
    (replyFrame F faults tag doc).tag = .error := by
  unfold replyFrame encodeMessage
  rw [hencode]
  exact tag_makeErrorFrame ..

/-- Only a rejection is encoded as one. -/
theorem tag_replyFrame_ne {F : Formats} {faults : HandlerFaults} {tag : FrameTag}
    (htag : tag ≠ .rejection) (doc : Json) : (replyFrame F faults tag doc).tag ≠ .rejection := by
  cases hencode : faults.encode with
  | none => rwa [tag_replyFrame hencode]
  | some e =>
    rw [tag_replyFrame_of_fault hencode]
    decide

theorem causeNamed_of_ne {F : Formats} {S : Store} {msg : TransitionMessage} {frame : Frame}
    (htag : frame.tag ≠ .rejection) : CauseNamed F S msg [frame] := by
  intro reply hreply hrej
  obtain rfl := List.mem_singleton.mp hreply
  exact absurd hrej htag

/-! ### What the engine refuses -/

section Engine

variable {S : Store} {guards : GuardRegistry} {c : Call} {e : EngineError}

/-- Without a fault the definition read is a lookup. -/
theorem readDefinition_eq (hf : c.faults = CallFaults.none) :
    Engine.readDefinition S c =
      match S.machines[c.machine]? with
      | some definition => .ok definition
      | none => .error (.storage (.notFound ("machine '" ++ c.machine ++ "'"))) := by
  unfold Engine.readDefinition RedbEngine.getMachine
  rw [hf]
  cases S.machines[c.machine]? <;> rfl

/-- **A refused call read back**: its key is free, and the machine is not defined or the planner
refuses what was read. The commit is never what fails. -/
theorem transition_eq_error (hS : LogInvariant S) (hf : c.faults = CallFaults.none)
    (h : Engine.transition S guards false c = .error e) :
    S.KeyFree c ∧
      ((S.machines[c.machine]? = none ∧
          e = .storage (.notFound ("machine '" ++ c.machine ++ "'"))) ∨
        ∃ definition current, S.machines[c.machine]? = some definition ∧
          Engine.readCurrent S c definition = .ok current ∧
          Engine.planRequest guards c definition current = .error e) := by
  simp only [Engine.transition, Bool.false_eq_true, if_false] at h
  cases hmiss : Engine.findReplay S c with
  | some existing =>
    rw [hmiss] at h
    exact absurd h (by simp)
  | none =>
    have hfree := (findReplay_eq_none_iff hS hf).mp hmiss
    refine ⟨hfree, ?_⟩
    cases hget : S.machines[c.machine]? with
    | none =>
      have hdef := readDefinition_eq (S := S) hf
      rw [hget] at hdef
      simp only [hmiss, hdef, bind, Except.bind] at h
      exact Or.inl ⟨rfl, (Except.error.inj h).symm⟩
    | some definition =>
      have hdef : Engine.readDefinition S c = .ok definition := by rw [readDefinition_eq hf, hget]
      cases hread : Engine.readCurrent S c definition with
      | error e' => exact absurd hread (readCurrent_ne_error hf)
      | ok current =>
        cases hplan : Engine.planRequest guards c definition current with
        | error e' =>
          simp only [hmiss, hdef, hread, hplan, bind, Except.bind] at h
          exact Or.inr ⟨definition, current, rfl, hread, by rw [hplan, Except.error.inj h]⟩
        | ok plan =>
          -- What was planned from the reads is committed.
          obtain ⟨p, hcommit⟩ := commitPlan_succeeds hf hfree hread hplan
          simp only [hmiss, hdef, hread, hplan, hcommit, bind, Except.bind] at h
          exact absurd h (by simp)

/-- Behind a result is a bound key or a definition. -/
theorem bound_or_defined_of_transition_eq_ok {res : TransitionResult × Store}
    (h : Engine.transition S guards false c = .ok res) :
    (∃ key, c.idempotencyKey = some key ∧ S.idempotency[key]?.isSome = true) ∨
      S.machines[c.machine]?.isSome = true := by
  obtain ⟨existing, hfind, -⟩ | ⟨-, definition, _, _, hdef, -⟩ := (Engine.transition_eq_ok h).2
  · obtain ⟨key, n, hkey, -, hbound, -⟩ := Engine.findReplay_eq_some hfind
    exact Or.inl ⟨key, hkey, by rw [hbound]; rfl⟩
  · exact Or.inr (by rw [Engine.readDefinition_eq_ok hdef]; rfl)

end Engine

/-- What a call reads of the projection, in the terms of the cause. -/
theorem readCurrent_eq {S : Store} {c : Call} {definition : MachineDefinition} {current : Current}
    (h : Engine.readCurrent S c definition = .ok current) :
    current.version = (S.entityStates[c.stateKey]?.map EntityState.version).getD 0 ∧
      current.state
        = (S.entityStates[c.stateKey]?.map EntityState.currentState).getD
            definition.initialState := by
  obtain ⟨row, hrow, rfl⟩ | ⟨hnone, rfl⟩ := Engine.readCurrent_eq_ok h
  · rw [hrow]
    exact ⟨rfl, rfl⟩
  · rw [hnone]
    exact ⟨rfl, rfl⟩

/-- **The planner's refusals name their cause.** -/
theorem code_of_planRequest_eq_error {S : Store} {guards : GuardRegistry} {draws : Draws}
    {msg : TransitionMessage} {definition : MachineDefinition} {current : Current}
    {e : EngineError} (hget : S.machines[msg.machine]? = some definition)
    (hread : Engine.readCurrent S (msg.toCall draws CallFaults.none) definition = .ok current)
    (hplan : Engine.planRequest guards (msg.toCall draws CallFaults.none) definition current
      = .error e) :
    (rejectionMessage msg.requestId e).code = (rejectionCause S msg).code := by
  obtain ⟨hversion, hstate⟩ := readCurrent_eq hread
  change current.version
    = (S.entityStates[entityStateKey msg.entityId msg.machine]?.map EntityState.version).getD 0
    at hversion
  change current.state
    = (S.entityStates[entityStateKey msg.entityId msg.machine]?.map
        EntityState.currentState).getD definition.initialState at hstate
  have hconflict : msg.expectedVersion.any (fun expected => expected ≠ current.version) = true ↔
      ∃ expected, msg.expectedVersion = some expected ∧ expected ≠ current.version := by
    cases msg.expectedVersion with
    | none => simp
    | some expected => simp
  unfold rejectionCause
  rw [hget]
  dsimp only
  rw [← hversion, ← hstate]
  -- The checks of the planner come in the order of the reasons.
  obtain ⟨expected, hexp, hne, rfl⟩ | ⟨hexp, hrest⟩ := Engine.planRequest_eq_error hplan
  · rw [if_pos (hconflict.mpr ⟨expected, hexp, hne⟩)]
    rfl
  · have hno : ¬ msg.expectedVersion.any (fun expected => expected ≠ current.version) = true := by
      rw [hconflict]
      rintro ⟨expected, hsome, hne⟩
      exact hne (hexp expected hsome)
    rw [if_neg hno]
    obtain ⟨hnone, rfl⟩ | ⟨rule, hmem, hans, guard, -, rfl⟩ := hrest
    · -- no rule answers the event in this state
      rw [if_neg]
      · rfl
      · intro hany
        obtain ⟨rule, hmem, hans⟩ := List.any_eq_true.mp hany
        exact absurd (hans.symm.trans (hnone rule hmem)) (by decide)
    · -- a rule answers, and a guard of it refuses
      rw [if_pos (List.any_eq_true.mpr ⟨rule, hmem, hans⟩)]
      rfl

/-- **The error of an undefined machine falls into the last arm of the match**, and the rejection does
not name its cause. -/
theorem not_causeNamed_of_undefined {F : Formats} (hF : F.codec.Lawful) {S : Store}
    {msg : TransitionMessage} {faults : HandlerFaults} (hencode : faults.encode = none)
    (hnone : S.machines[msg.machine]? = none) (what : String) :
    ¬ CauseNamed F S msg
      [makeRejectionFrame F faults msg.requestId (.storage (.notFound what))] := by
  intro hnamed
  have htag : (makeRejectionFrame F faults msg.requestId (.storage (.notFound what))).tag
      = .rejection := tag_replyFrame hencode _ _
  have htells := tellsCode_makeRejectionFrame (F := F) hencode msg.requestId
    (.storage (.notFound what))
  have hcause : rejectionCause S msg = .unknownMachine := by
    unfold rejectionCause
    rw [hnone]
  have hcode := htells.unique hF (hnamed _ (List.mem_singleton_self _) htag)
  rw [hcause] at hcode
  have hlast : "internal_error" = "unknown_machine" := hcode
  exact absurd hlast (by decide)

/-- **Rejections name their cause, except for an undefined machine.** For every reachable store,
every guard registry and every `Transition` message handled without a storage fault and not during
shutdown: a rejection among the replies carries the code of its cause exactly if the reply cannot
be encoded (it is an error frame then), the message replays a bound key (it is a result then), or
the machine is defined. -/
theorem rejection_names_cause_iff {F : Formats} (hF : F.codec.Lawful) {s : ServerState}
    (hreach : EngineReachable s.store) (hup : s.shutdown = false) (draws : Draws)
    {faults : HandlerFaults} (hcall : faults.call = CallFaults.none) {frame : Frame}
    {msg : TransitionMessage} (hmsg : (Command.transition msg).DecodesTo F frame) :
    CauseNamed F s.store msg (handleFrame F s draws faults frame).1 ↔
      faults.encode.isSome = true ∨
      (∃ key, msg.idempotencyKey = some key ∧ s.store.idempotency[key]?.isSome = true) ∨
      s.store.machines[msg.machine]?.isSome = true := by
  obtain ⟨cfg, guards₀, ls, w, hrun, hstore⟩ := hreach
  have hlog : LogInvariant s.store := hstore ▸ (keyInvariant_of_run hrun).log
  rw [hmsg.handleFrame_eq]
  show CauseNamed F s.store msg (handleTransition F s draws faults msg).1 ↔ _
  unfold handleTransition
  rw [hup, hcall]
  cases hres : Engine.transition s.store s.guards false (msg.toCall draws CallFaults.none) with
  | ok p =>
    -- a result is no rejection, whether or not it can be encoded
    obtain ⟨res, S'⟩ := p
    exact iff_of_true (causeNamed_of_ne (tag_replyFrame_ne (by decide) _))
      (Or.inr (bound_or_defined_of_transition_eq_ok hres))
  | error e =>
    obtain ⟨hfree, hcases⟩ := transition_eq_error hlog rfl hres
    cases hencode : faults.encode with
    | some text =>
      -- the rejection cannot be encoded and becomes an error frame
      refine iff_of_true (causeNamed_of_ne ?_) (Or.inl rfl)
      rw [makeRejectionFrame, tag_replyFrame_of_fault hencode]
      decide
    | none =>
      obtain ⟨hnone, rfl⟩ | ⟨definition, current, hget, hread, hplan⟩ := hcases
      · refine iff_of_false (not_causeNamed_of_undefined hF hencode hnone _) ?_
        rintro (hsome | ⟨key, hkey, hbound⟩ | hdefined)
        · exact absurd hsome (by decide)
        · -- the call was not a replay, so its key is free
          rw [hfree key hkey] at hbound
          exact absurd hbound (by decide)
        · rw [show s.store.machines[msg.machine]? = none from hnone] at hdefined
          exact absurd hdefined (by decide)
      · refine iff_of_true ?_ (Or.inr (Or.inr ?_))
        · intro reply hreply _
          obtain rfl := List.mem_singleton.mp hreply
          rw [← code_of_planRequest_eq_error hget hread hplan]
          exact tellsCode_makeRejectionFrame hencode msg.requestId e
        · rw [show s.store.machines[msg.machine]? = some definition from hget]
          rfl

/-! ### Two rejections -/

/-- A server on which the order machine is defined. -/
def orderServer : ServerState :=
  { ServerState.initial with store := RedbEngine.storeMachine Store.empty orderMachine }

/-- A `Transition` message for order `o1` of a machine. -/
def orderMessage (machine event : String) : TransitionMessage where
  requestId := 7
  entityId := "o1"
  machine
  event
  expectedVersion := none
  idempotencyKey := none
  ctx := .null
  actor := "web"

def orderFrame (machine event : String) : Frame where
  tag := .transition
  body := firstDay.codec.toVecNamed
    (.object [("request_id", .ofNat 7), ("entity_id", .string "o1"), ("machine", .string machine),
      ("event", .string event), ("expected_version", .null), ("idempotency_key", .null),
      ("ctx", .null), ("actor", .string "web")])

theorem orderFrame_decodes (machine event : String) :
    (Command.transition (orderMessage machine event)).DecodesTo firstDay
      (orderFrame machine event) :=
  ⟨rfl, decodeMessage_toVecNamed firstDay_lawful _ (by simp [nestingLimit]) rfl⟩

theorem rejection_names_cause_iff_shipped :
    ∃ reply, (handleFrame firstDay orderServer (Draws.ofNat 0) HandlerFaults.none
        (orderFrame "order" "ship")).1 = [reply] ∧ reply.tag = .rejection ∧
      TellsCode firstDay reply "illegal_transition" := by
  have hreach : EngineReachable orderServer.store :=
    ⟨oneStripe, ∅, [.defineMachine orderMachine none], _, rfl, rfl⟩
  have hcall : HandlerFaults.none.call = CallFaults.none := rfl
  have hnamed := (rejection_names_cause_iff firstDay_lawful hreach rfl (Draws.ofNat 0) hcall
    (orderFrame_decodes "order" "ship")).mpr (Or.inr (Or.inr (by decide)))
  have hcause : rejectionCause orderServer.store (orderMessage "order" "ship")
      = .illegalTransition := by decide
  rw [(orderFrame_decodes "order" "ship").handleFrame_eq] at hnamed ⊢
  refine ⟨_, rfl, rfl, ?_⟩
  rw [show "illegal_transition" = RejectionCause.illegalTransition.code from rfl, ← hcause]
  exact hnamed _ (List.mem_singleton_self _) rfl

/-- **An unknown machine is an internal error**: a fresh server rejects a transition of a machine it
does not have with the code of the last arm. -/
theorem unknownMachine_internal_error :
    EngineReachable ServerState.initial.store ∧
    (∃ reply, (handleFrame firstDay ServerState.initial (Draws.ofNat 0) HandlerFaults.none
        (orderFrame "order" "pay")).1 = [reply] ∧ reply.tag = .rejection ∧
      TellsCode firstDay reply "internal_error") ∧
    ¬ CauseNamed firstDay ServerState.initial.store (orderMessage "order" "pay")
      (handleFrame firstDay ServerState.initial (Draws.ofNat 0) HandlerFaults.none
        (orderFrame "order" "pay")).1 := by
  rw [(orderFrame_decodes "order" "pay").handleFrame_eq]
  have htells : TellsCode firstDay
      (makeRejectionFrame firstDay HandlerFaults.none 7
        (.storage (.notFound "machine 'order'"))) "internal_error" :=
    tellsCode_makeRejectionFrame rfl 7 _
  refine ⟨⟨oneStripe, ∅, [], _, rfl, rfl⟩, ⟨_, rfl, rfl, htells⟩, fun hnamed => ?_⟩
  have hcode := htells.unique firstDay_lawful (hnamed _ (List.mem_singleton_self _) rfl)
  exact absurd hcode (by decide)

end Wire

end StateMaster
