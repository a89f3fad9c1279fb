import StateMaster.Engine.Isolation
import StateMaster.Engine.Linearizability
import StateMaster.Proto.Frame
import StateMaster.Wire.Replies

/-!
# A history that does not fit a frame

A `History` reply holds every record of its entity, up to a limit no client has to name, and a
record takes at least a byte. So a machine that ticks often enough has a history the server can
encode and no client can decode: `Ticked` follows a server through its ticks, and
`longHistory_refused` is the first history past the limit of a frame.
-/

open Framework Framework.Text

namespace StateMaster

/-- A history read lists every record of a log that is about its entity only. -/
theorem LogInvariant.sequence_le_selected {S : Store} (hS : LogInvariant S) {e m : String}
    (hlog : ∀ r ∈ S.log, r.entityId = e ∧ r.machine = m) :
    S.sequence ≤ (S.selected e m 0).length := by
  have hsub : S.log ⊆ S.selected e m 0 := by
    intro r hr
    obtain ⟨s, hs⟩ := mem_log.mp hr
    obtain ⟨he, hm⟩ := hlog r hr
    have hindex := (hS.byEntity _ s).mpr ⟨r, hs, rfl⟩
    rw [he, hm] at hindex
    refine List.mem_filterMap.mpr ⟨_, List.mem_filter.mpr
      ⟨S.entityTransitions.mem_toList.mpr hindex, ?_⟩, hs⟩
    have hself : startsWith (entityTransitionKey e m s) (entityTransitionPrefix e m) = true :=
      startsWith_entityTransitionKey_iff.mpr (startsWith_iff.mpr (List.prefix_refl _))
    simp only [hself, Bool.true_and, decide_eq_true_eq]
    exact (hS.le_sequence hs).1
  -- Sequences differ, so no record is counted twice.
  have hnodup : S.log.Nodup := by
    refine List.Nodup.of_map TransitionRecord.sequence ?_
    rw [hS.log_sequences]
    exact List.nodup_range'
  rw [← hS.length_log]
  exact (hnodup.subperm hsub).length_le

namespace Wire

/-- A machine that stays where it is. -/
def clockMachine : MachineDefinition where
  name := "clock"
  version := 1
  states := ["on"]
  initialState := "on"
  transitions := [⟨"tick", ["on"], "on", []⟩]
  effects := []
  createdAt := 0

/-- The server on which the clock is defined. -/
def clockServer : ServerState :=
  { ServerState.initial with store := RedbEngine.storeMachine Store.empty clockMachine }

/-- What a client asks for when it lets the clock tick. -/
def tickMessage : TransitionMessage where
  requestId := 1
  entityId := "c"
  machine := "clock"
  event := "tick"
  expectedVersion := none
  idempotencyKey := none
  ctx := .null
  actor := "cron"

def tickFrame : Frame where
  tag := .transition
  body := firstDay.codec.toVecNamed
    (.object [("request_id", .ofNat 1), ("entity_id", .string "c"), ("machine", .string "clock"),
      ("event", .string "tick"), ("expected_version", .null), ("idempotency_key", .null),
      ("ctx", .null), ("actor", .string "cron")])

def historyOfClock : Frame where
  tag := .history
  body := firstDay.codec.toVecNamed
    (.object [("request_id", .ofNat 7), ("entity_id", .string "c"), ("machine", .string "clock"),
      ("limit", .null), ("after_sequence", .null)])

/-- The server after `n` ticks. -/
def ticks : ℕ → ServerState
  | 0 => clockServer
  | n + 1 => (handleFrame firstDay (ticks n) (Draws.ofNat n) HandlerFaults.none tickFrame).2

theorem tickFrame_decodes : (Command.transition tickMessage).DecodesTo firstDay tickFrame :=
  ⟨rfl, decodeMessage_toVecNamed firstDay_lawful _ (by simp [nestingLimit]) rfl⟩

theorem historyOfClock_decodes :
    (Command.history ⟨7, "c", "clock", none, none⟩).DecodesTo firstDay historyOfClock :=
  ⟨rfl, decodeMessage_toVecNamed firstDay_lawful _ (by simp [nestingLimit]) rfl⟩

/-! ### The clock ticks -/

/-- The server after `n` ticks, as far as the next tick and the history depend on it. -/
structure Ticked (n : ℕ) (s : ServerState) : Prop where
  up : s.shutdown = false
  log : LogInvariant s.store
  sequence : s.store.sequence = n
  machine : s.store.machines["clock"]? = some clockMachine
  on : ∀ row, s.store.entityStates[entityStateKey "c" "clock"]? = some row →
    row.currentState = "on"
  records : ∀ r ∈ s.store.log, r.entityId = "c" ∧ r.machine = "clock"

theorem Ticked.zero : Ticked 0 clockServer where
  up := rfl
  log := (⟨rfl, rfl, rfl, rfl, rfl⟩ :
    KeepsLog Store.empty (RedbEngine.storeMachine Store.empty clockMachine)).invariant
      LogInvariant.empty
  sequence := rfl
  machine := Table.get_insert_self _ _ _
  on row h := by
    change (∅ : Table String EntityState)[entityStateKey "c" "clock"]? = some row at h
    exact absurd h (by simp)
  records r hr := by
    obtain ⟨s, hs⟩ := mem_log.mp hr
    change (∅ : Table ℕ TransitionRecord)[s]? = some r at hs
    exact absurd hs (by simp)

/-- A tick, from the state a ticking clock is in. -/
theorem planRequest_tick (guards : GuardRegistry) (draws : Draws) {current : Current}
    (hon : current.state = "on") :
    Engine.planRequest guards (tickMessage.toCall draws CallFaults.none) clockMachine current
      = .ok (Engine.buildPlan (tickMessage.toCall draws CallFaults.none) clockMachine current
        ⟨"tick", ["on"], "on", []⟩) := by
  obtain ⟨state, version, createdAt⟩ := current
  obtain rfl : state = "on" := hon
  rfl

theorem Ticked.tick {n : ℕ} {s : ServerState} (h : Ticked n s) (draws : Draws) :
    Ticked (n + 1) (handleFrame firstDay s draws HandlerFaults.none tickFrame).2 := by
  let c := tickMessage.toCall draws CallFaults.none
  have hmiss : Engine.findReplay s.store c = none := rfl
  have hdef : Engine.readDefinition s.store c = .ok clockMachine := by
    change (RedbEngine.getMachine s.store "clock" none).mapError EngineError.storage = _
    unfold RedbEngine.getMachine
    rw [h.machine]
    rfl
  -- The read finds the row of the last tick, or none: either way the clock is on.
  obtain ⟨current, hread, hon⟩ : ∃ current, Engine.readCurrent s.store c clockMachine = .ok current ∧
      current.state = "on" := by
    cases hread : Engine.readCurrent s.store c clockMachine with
    | error e => exact absurd hread (readCurrent_ne_error rfl)
    | ok current =>
      refine ⟨current, rfl, ?_⟩
      rcases Engine.readCurrent_eq_ok hread with ⟨row, hrow, rfl⟩ | ⟨-, rfl⟩
      · exact h.on row hrow
      · rfl
  have hplan : Engine.planRequest s.guards c clockMachine current = .ok _ :=
    planRequest_tick s.guards draws hon
  have hfree : s.store.KeyFree c := fun key hkey => absurd hkey (by simp [c, tickMessage,
    TransitionMessage.toCall])
  obtain ⟨⟨res, S'⟩, hok⟩ := commitPlan_succeeds rfl hfree hread hplan
  obtain ⟨-, hcommit, -⟩ := Engine.commitPlan_eq_ok hok
  have hserve : Engine.transition s.store s.guards s.shutdown c = .ok (res, S') := by
    rw [h.up]
    simp only [Engine.transition, hmiss, hdef, hread, hplan, hok, Bool.false_eq_true, if_false,
      bind, Except.bind]
  have hstate : (handleFrame firstDay s draws HandlerFaults.none tickFrame).2
      = { s with store := S', transitionsTotal := s.transitionsTotal + 1 } := by
    rw [tickFrame_decodes.handleFrame_eq]
    change (handleTransition firstDay s draws HandlerFaults.none tickMessage).2 = _
    unfold handleTransition
    rw [show tickMessage.toCall draws HandlerFaults.none.call = c from rfl, hserve]
  rw [hstate]
  refine ⟨h.up, hcommit.appends.invariant h.log, ?_, ?_, ?_, ?_⟩
  · change S'.sequence = n + 1
    rw [hcommit.appends.sequence, h.sequence]
  · change S'.machines["clock"]? = _
    rw [hcommit.machines]
    exact h.machine
  · intro row hrow
    change S'.entityStates[entityStateKey "c" "clock"]? = some row at hrow
    rw [hcommit.entityStates] at hrow
    obtain rfl := Option.some.inj ((Table.get_insert_self _ _ _).symm.trans hrow)
    rfl
  · intro r hr
    change r ∈ S'.log at hr
    rw [hcommit.appends.log h.log] at hr
    rcases List.mem_append.mp hr with hr | hr
    · exact h.records r hr
    · obtain rfl := List.mem_singleton.mp hr
      exact ⟨rfl, rfl⟩

theorem ticked_ticks (n : ℕ) : Ticked n (ticks n) := by
  induction n with
  | zero => exact Ticked.zero
  | succ n ih => exact ih.tick (Draws.ofNat n)

/-! ### The reply -/

theorem length_canonicalItems (items : List Json) :
    (Json.canonicalItems items).length = items.length := by
  induction items with
  | nil => rfl
  | cons d items ih => rw [Json.canonicalItems, List.length_cons, ih, List.length_cons]

/-- **The reply to a history of `n` ticks takes at least `n` bytes.** -/
theorem exists_historyReply (n : ℕ) (hn : n ≤ RedbEngine.maxLimit) :
    ∃ reply, (handleFrame firstDay (ticks n) (Draws.ofNat n) HandlerFaults.none historyOfClock).1
        = [reply] ∧ n ≤ reply.body.length := by
  have h := ticked_ticks n
  rw [historyOfClock_decodes.handleFrame_eq]
  refine ⟨_, rfl, ?_⟩
  change n ≤ (MessagePack.write (.object [("request_id", .ofNat 7), ("payload",
    (Json.array ((RedbEngine.getHistory (ticks n).store "c" "clock" none none).map
      fun r => r.toDoc firstDay)).canonical)])).length
  rw [Json.canonical]
  refine le_trans ?_ (MessagePack.length_write_le_object (List.mem_cons_of_mem _ List.mem_cons_self))
  refine le_trans ?_ (MessagePack.length_le_write_array _)
  rw [length_canonicalItems, List.length_map, RedbEngine.getHistory_eq, List.length_take]
  have hle := h.log.sequence_le_selected h.records
  rw [h.sequence] at hle
  exact le_min hn hle

/-- **The history of a clock that ticked once too often is not accepted**: the server encodes the
reply, and the client's decoder refuses it. -/
theorem longHistory_refused :
    ∃ reply bytes, (handleFrame firstDay (ticks (maxFrameSize + 1)) (Draws.ofNat 0)
        HandlerFaults.none historyOfClock).1 = [reply] ∧
      FrameCodec.encode reply [] = .ok bytes ∧
      FrameCodec.decode bytes ≠ (.ok (some reply), []) := by
  obtain ⟨reply, hreply, hlen⟩ := exists_historyReply (maxFrameSize + 1) (by decide)
  refine ⟨reply, FrameCodec.bytes reply, hreply, rfl, fun hdecode => ?_⟩
  have hfits := (frameCodec_reads.sound hdecode).2
  unfold Frame.Fits at hfits
  omega

end Wire

end StateMaster
