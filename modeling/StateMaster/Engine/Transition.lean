import StateMaster.Core.Planner
import StateMaster.Storage.Log

/-!
# One transition

The body of `Engine::transition` with nobody else running. It is cut at its storage steps, so that
the concurrent engine runs the same pieces one at a time:

* `findReplay` — the idempotency check, whose read error counts as a miss;
* `readDefinition`, `readCurrent` — the two reads the decision rests on;
* `planRequest` — the decision: version precondition, rule, guards, and what to write;
* `commitPlan` — `execute_transition` and the result.

What the source draws from outside (the clock, fresh ids) is part of the `Call`, and so are the
faults its storage steps meet: fixing them in advance loses no execution.

`transition_eq_ok` reads a successful call back: a replay of a logged record, or the commit of
`buildPlan` for a rule of the stored definition.
-/

open Framework Framework.Text

namespace StateMaster

/-- The errors of `smdb-engine`. -/
inductive EngineError where
  | core (e : CoreError)
  | storage (e : StorageError)
  | machineNotFound (name : String)
  | entityLocked (entityId : String)
  | shuttingDown
deriving DecidableEq, Repr

/-- The `Display` text of an `EngineError`. -/
def EngineError.toText : EngineError → String
  | .core e => "core error: " ++ e.toText
  | .storage e => "storage error: " ++ e.toText
  | .machineNotFound name => "machine not found: '" ++ name ++ "'"
  | .entityLocked entityId => "entity locked: '" ++ entityId ++ "'"
  | .shuttingDown => "engine is shutting down"

structure TransitionResult where
  entityId : EntityId
  machine : MachineName
  fromState : StateName
  toState : StateName
  version : ℕ
  transitionId : TransitionId
  sequence : ℕ
  timestamp : DateTime
deriving DecidableEq, Repr

/-! ### Guards -/

/-- A guard: a predicate of the entity state and the request's context. -/
abbrev GuardFn := EntityState → Context → Bool

/-- The named guards. -/
abbrev GuardRegistry := Table GuardName GuardFn

namespace GuardRegistry

/-- `GuardRegistry::register`. -/
def register (registry : GuardRegistry) (name : GuardName) (guard : GuardFn) : GuardRegistry :=
  registry.insert name guard

/-- `GuardRegistry::evaluate`: an unregistered guard passes. -/
def evaluate (registry : GuardRegistry) (name : GuardName) (state : EntityState)
    (ctx : Context) : Bool :=
  match registry[name]? with
  | some f => f state ctx
  | none => true

/-- The map of results `transition` collects for the guards of a rule. -/
def results (registry : GuardRegistry) (state : EntityState) (ctx : Context)
    (guards : List GuardName) : Table GuardName Bool :=
  guards.foldl (fun results g => results.insert g (registry.evaluate g state ctx)) ∅

end GuardRegistry

/-! ### A request, with what it draws and what it meets -/

/-- The characters of a hyphenated UUID. -/
def isUuidChar (ch : Char) : Bool := ch.isDigit || ('a' ≤ ch && ch ≤ 'f') || ch == '-'

/-- What `Uuid::new_v4().to_string()` returns. -/
structure Uuid where
  text : String
  hyphenated : text.toList.all isUuidChar = true

/-- A family of distinct UUIDs. -/
def Uuid.ofPair (n m : ℕ) : Uuid where
  text := padDecimal 20 n ++ "-" ++ padDecimal 20 m
  hyphenated := by
    have hdigits : ∀ k : ℕ, (padDecimal 20 k).toList.all isUuidChar = true := by
      intro k
      refine List.all_eq_true.mpr fun ch hch => ?_
      simp [isUuidChar, isDigit_of_mem_padDecimal hch]
    rw [String.toList_append, String.toList_append, List.all_append, List.all_append, hdigits,
      hdigits]
    decide

/-- The clock readings and fresh ids of one call. -/
structure Draws where
  now : DateTime
  guardUpdatedAt : DateTime
  guardCreatedAt : DateTime
  recordId : Uuid
  recordTimestamp : DateTime
  effectId : ℕ → Uuid
  effectCreatedAt : ℕ → DateTime

/-- Draws of the `n`-th call of a run, disjoint from those of the others. -/
def Draws.ofNat (n : ℕ) : Draws where
  now := n
  guardUpdatedAt := n
  guardCreatedAt := n
  recordId := Uuid.ofPair n 0
  recordTimestamp := n
  effectId m := Uuid.ofPair n (m + 1)
  effectCreatedAt _ := n

/-- The faults met by the four storage steps of one call. -/
structure CallFaults where
  checkIdempotency : Option Fault
  getMachine : Option Fault
  getEntityState : Option Fault
  executeTransition : Option Fault

/-- Storage steps that all go through. -/
def CallFaults.none : CallFaults := ⟨.none, .none, .none, .none⟩

/-- The arguments of `Engine::transition`. -/
structure Call where
  entityId : EntityId
  machine : MachineName
  event : EventName
  actor : ActorId
  ctx : Context
  expectedVersion : Option ℕ
  idempotencyKey : Option IdempotencyKey
  draws : Draws
  faults : CallFaults

/-- The storage key of the entity a call is about. -/
def Call.stateKey (c : Call) : String := entityStateKey c.entityId c.machine

/-- The state, version and creation time a call starts from. -/
structure Current where
  state : StateName
  version : ℕ
  createdAt : DateTime
deriving DecidableEq, Repr

/-- What a call is about to write. -/
structure Plan where
  record : TransitionRecord
  newState : EntityState
  effects : List Effect
deriving DecidableEq, Repr

/-- The result a logged record is replayed as. -/
def TransitionRecord.toResult (existing : TransitionRecord) : TransitionResult where
  entityId := existing.entityId
  machine := existing.machine
  fromState := existing.fromState
  toState := existing.toState
  version := existing.version
  transitionId := existing.id
  sequence := existing.sequence
  timestamp := existing.timestamp

namespace Engine

/-! ### The pieces of `Engine::transition` -/

/-- The idempotency check: `if let Ok(Some(existing))`, so that a failed read is a miss. -/
def findReplay (S : Store) (c : Call) : Option TransitionRecord :=
  match c.idempotencyKey with
  | none => none
  | some key =>
    match withFault c.faults.checkIdempotency (RedbEngine.checkIdempotency S key) with
    | .ok (some existing) => some existing
    | .ok none => none
    | .error _ => none

def readDefinition (S : Store) (c : Call) : Except EngineError MachineDefinition :=
  (withFault c.faults.getMachine (RedbEngine.getMachine S c.machine none)).mapError .storage

/-- The read of the projection; an entity without a row starts in the initial state. -/
def readCurrent (S : Store) (c : Call) (definition : MachineDefinition) :
    Except EngineError Current :=
  match withFault c.faults.getEntityState (RedbEngine.getEntityState S c.entityId c.machine) with
  | .ok state => .ok ⟨state.currentState, state.version, state.createdAt⟩
  | .error (.notFound _) => .ok ⟨definition.initialState, 0, c.draws.now⟩
  | .error e => .error (.storage e)

def checkExpectedVersion (c : Call) (current : Current) : Except EngineError Unit :=
  match c.expectedVersion with
  | some expected =>
    if expected ≠ current.version then
      .error (.core (.versionConflict c.entityId c.machine expected current.version))
    else .ok ()
  | none => .ok ()

/-- `dummy_state`, the state the guards see. -/
def guardState (c : Call) (current : Current) : EntityState where
  entityId := c.entityId
  machine := c.machine
  currentState := current.state
  version := current.version
  updatedAt := c.draws.guardUpdatedAt
  createdAt := c.draws.guardCreatedAt

/-- What a call writes once its rule is found and the guards have passed. The new version is a `u64`
sum in the source. In a database written by engines it counts the commits of the pair; only
`upsert_entity_state`, which no engine calls, can store a row at `u64::MAX`, where that sum wraps (a
debug build panics) and this one does not. -/
def buildPlan (c : Call) (definition : MachineDefinition) (current : Current)
    (rule : TransitionRule) : Plan :=
  let record := FsmPlanner.buildTransitionRecord c.draws.recordId.text c.draws.recordTimestamp
    c.entityId c.machine current.state rule.toState c.event c.actor c.ctx c.idempotencyKey
  let effects := (FsmPlanner.computeEffects definition c.event).mapIdx fun n er =>
    Effect.new (c.draws.effectId n).text (c.draws.effectCreatedAt n) record.id er.effect
      (er.payload.getD .null)
  let newVersion := current.version + 1
  { record := { record with version := newVersion }
    newState :=
      { entityId := c.entityId
        machine := c.machine
        currentState := rule.toState
        version := newVersion
        updatedAt := c.draws.now
        createdAt := current.createdAt }
    effects }

/-- The decision between the reads and the commit. -/
def planRequest (guards : GuardRegistry) (c : Call) (definition : MachineDefinition)
    (current : Current) : Except EngineError Plan := do
  checkExpectedVersion c current
  let rule ← (FsmPlanner.planTransition definition current.state c.event c.entityId).mapError
    EngineError.core
  let guardResults := guards.results (guardState c current) c.ctx rule.guards
  (FsmPlanner.validateGuards rule guardResults).mapError EngineError.core
  return buildPlan c definition current rule

/-- The result of a commit under `sequence`. -/
def planResult (c : Call) (plan : Plan) (sequence : ℕ) : TransitionResult where
  entityId := c.entityId
  machine := c.machine
  fromState := plan.record.fromState
  toState := plan.record.toState
  version := plan.newState.version
  transitionId := plan.record.id
  sequence := sequence
  timestamp := plan.record.timestamp

def commitPlan (S : Store) (c : Call) (plan : Plan) :
    Except EngineError (TransitionResult × Store) := do
  let (sequence, S') ← (withFault c.faults.executeTransition
    (RedbEngine.executeTransition S plan.record plan.newState plan.effects)).mapError
      EngineError.storage
  return (planResult c plan sequence, S')

/-- `Engine::transition`, alone. -/
def transition (S : Store) (guards : GuardRegistry) (shutdown : Bool) (c : Call) :
    Except EngineError (TransitionResult × Store) :=
  if shutdown then .error .shuttingDown
  else
    match findReplay S c with
    | some existing => .ok (existing.toResult, S)
    | none => do
      let definition ← readDefinition S c
      let current ← readCurrent S c definition
      let plan ← planRequest guards c definition current
      commitPlan S c plan

/-! ### The other calls of the engine -/

/-- `Engine::define_machine`. -/
def defineMachine (S : Store) (definition : MachineDefinition) (fault : Option Fault) :
    Except EngineError Store := do
  definition.validate.mapError EngineError.core
  (withFault fault (.ok (RedbEngine.storeMachine S definition))).mapError EngineError.storage

/-- `Engine::current`. -/
def current (S : Store) (entityId machine : String) (fault : Option Fault) :
    Except EngineError EntityState :=
  (withFault fault (RedbEngine.getEntityState S entityId machine)).mapError EngineError.storage

/-- `Engine::history`. -/
def history (S : Store) (entityId machine : String) (limit : Option ℕ)
    (afterSequence : Option ℕ) (fault : Option Fault) :
    Except EngineError (List TransitionRecord) :=
  (withFault fault (.ok (RedbEngine.getHistory S entityId machine limit afterSequence))).mapError
    EngineError.storage

end Engine

/-! ### What the pieces return -/

/-- A UUID holds no separator. -/
theorem Uuid.nulFree (id : Uuid) : NulFree id.text := by
  intro h
  have := List.all_eq_true.mp id.hyphenated nulChar h
  exact absurd this (by decide)

theorem Uuid.ofPair_inj {n m n' m' : ℕ} (h : (Uuid.ofPair n m).text = (Uuid.ofPair n' m').text) :
    n = n' ∧ m = m' := by
  -- A digit is not the hyphen between the two numbers.
  have hfree : ∀ k : ℕ, '-' ∉ (padDecimal 20 k).toList := fun k hk =>
    absurd (isDigit_of_mem_padDecimal hk) (by decide)
  have hsplit : ∀ k l : ℕ, (Uuid.ofPair k l).text.toList
      = (padDecimal 20 k).toList ++ '-' :: (padDecimal 20 l).toList := by
    intro k l
    change (padDecimal 20 k ++ "-" ++ padDecimal 20 l).toList = _
    rw [String.toList_append, String.toList_append, List.append_assoc]
    rfl
  have hlist := congrArg String.toList h
  rw [hsplit, hsplit] at hlist
  obtain ⟨h₁, h₂⟩ := append_sep_inj_left (hfree n) (hfree n') hlist
  exact ⟨padDecimal_injective 20 (String.toList_inj.mp h₁),
    padDecimal_injective 20 (String.toList_inj.mp h₂)⟩

/-- Folding a list of guards into the result map: the last write to a name wins, and every write
to it is the same. -/
theorem GuardRegistry.results_get {registry : GuardRegistry} {state : EntityState} {ctx : Context}
    {guards : List GuardName} {g : GuardName} (hg : g ∈ guards) :
    (registry.results state ctx guards)[g]? = some (registry.evaluate g state ctx) := by
  suffices ∀ (guards : List GuardName) (acc : Table GuardName Bool),
      (g ∈ guards ∨ acc[g]? = some (registry.evaluate g state ctx)) →
      (guards.foldl (fun results g => results.insert g (registry.evaluate g state ctx)) acc)[g]?
        = some (registry.evaluate g state ctx) from this guards ∅ (Or.inl hg)
  intro guards
  induction guards with
  | nil =>
    intro acc h
    exact h.resolve_left List.not_mem_nil
  | cons g' guards ih =>
    intro acc h
    refine ih _ ?_
    by_cases hgg : g' = g
    · subst hgg
      exact Or.inr (Table.get_insert_self _ _ _)
    · rw [Table.get_insert_of_ne _ _ hgg]
      refine h.imp_left fun hmem => ?_
      exact (List.mem_cons.mp hmem).resolve_left fun heq => hgg heq.symm

namespace Engine

/-- A replay read back: the key is bound, the read went through, and the record is there. -/
theorem findReplay_eq_some {S : Store} {c : Call} {existing : TransitionRecord}
    (h : findReplay S c = some existing) :
    ∃ (key : IdempotencyKey) (s : ℕ), c.idempotencyKey = some key ∧
      c.faults.checkIdempotency = none ∧ S.idempotency[key]? = some s ∧
      S.transitions[s]? = some existing := by
  unfold findReplay RedbEngine.checkIdempotency at h
  cases hkey : c.idempotencyKey with
  | none =>
    simp only [hkey] at h
    exact absurd h (by simp)
  | some key =>
    cases hf : c.faults.checkIdempotency with
    | some f =>
      simp only [hkey, hf, withFault] at h
      exact absurd h (by simp)
    | none =>
      cases hs : S.idempotency[key]? with
      | none =>
        simp only [hkey, hf, withFault_none, hs] at h
        exact absurd h (by simp)
      | some s =>
        cases hr : S.transitions[s]? with
        | none =>
          simp only [hkey, hf, withFault_none, hs, hr] at h
          exact absurd h (by simp)
        | some r =>
          simp only [hkey, hf, withFault_none, hs, hr] at h
          exact ⟨key, s, rfl, rfl, hs, by rw [hr]; exact h⟩

theorem readDefinition_eq_ok {S : Store} {c : Call} {definition : MachineDefinition}
    (h : readDefinition S c = .ok definition) : S.machines[c.machine]? = some definition := by
  unfold readDefinition at h
  have hget := withFault_eq_ok (mapError_eq_ok_iff.mp h)
  unfold RedbEngine.getMachine at hget
  split at hget
  · next d hd =>
    obtain rfl := Except.ok.inj hget
    exact hd
  · exact absurd hget (by simp)

theorem getEntityState_eq {S : Store} {entityId machine : String} :
    RedbEngine.getEntityState S entityId machine =
      match S.entityStates[entityStateKey entityId machine]? with
      | some state => .ok state
      | none => .error
        (.notFound ("entity '" ++ entityId ++ "' in machine '" ++ machine ++ "'")) := rfl

/-- **The projection read back**: the row as it stands, or the start of a fresh entity. A fault is
never taken for a missing row. -/
theorem readCurrent_eq_ok {S : Store} {c : Call} {definition : MachineDefinition}
    {current : Current} (h : readCurrent S c definition = .ok current) :
    (∃ row, S.entityStates[c.stateKey]? = some row ∧
      current = ⟨row.currentState, row.version, row.createdAt⟩) ∨
    (S.entityStates[c.stateKey]? = none ∧ current = ⟨definition.initialState, 0, c.draws.now⟩) := by
  unfold readCurrent at h
  cases hf : c.faults.getEntityState with
  | some f =>
    rw [hf] at h
    cases f <;> exact absurd h (by simp [withFault, Fault.toError])
  | none =>
    rw [hf, withFault_none, getEntityState_eq] at h
    cases hrow : S.entityStates[entityStateKey c.entityId c.machine]? with
    | some row =>
      rw [hrow] at h
      exact Or.inl ⟨row, hrow, (Except.ok.inj h).symm⟩
    | none =>
      rw [hrow] at h
      exact Or.inr ⟨hrow, (Except.ok.inj h).symm⟩

/-- **A plan read back**: a rule of the definition that answers the event, every registered guard
of it passing, and the plan built from it. -/
theorem planRequest_eq_ok {guards : GuardRegistry} {c : Call} {definition : MachineDefinition}
    {current : Current} {plan : Plan} (h : planRequest guards c definition current = .ok plan) :
    ∃ rule ∈ definition.transitions, rule.answers current.state c.event = true ∧
      (∀ g ∈ rule.guards, guards.evaluate g (guardState c current) c.ctx = true) ∧
      plan = buildPlan c definition current rule := by
  simp only [planRequest, bind_eq_ok_iff, mapError_eq_ok_iff] at h
  obtain ⟨_, -, rule, hrule, _, hguards, hplan⟩ := h
  obtain ⟨hmem, hans⟩ := FsmPlanner.planTransition_eq_ok hrule
  refine ⟨rule, hmem, hans, fun g hg => ?_, (Except.ok.inj hplan).symm⟩
  have hres := FsmPlanner.checkGuards_eq_ok_iff.mp hguards g hg
  rw [GuardRegistry.results_get hg] at hres
  exact Option.some.inj hres

/-- A version conflict read back. -/
theorem checkExpectedVersion_eq_error {c : Call} {current : Current} {e : EngineError}
    (h : checkExpectedVersion c current = .error e) :
    ∃ expected, c.expectedVersion = some expected ∧ expected ≠ current.version ∧
      e = .core (.versionConflict c.entityId c.machine expected current.version) := by
  unfold checkExpectedVersion at h
  split at h
  · next expected hexp =>
    split at h
    · next hne => exact ⟨expected, hexp, hne, (Except.error.inj h).symm⟩
    · exact absurd h (by simp)
  · exact absurd h (by simp)

theorem eq_of_checkExpectedVersion_eq_ok {c : Call} {current : Current} {expected : ℕ}
    (h : checkExpectedVersion c current = .ok ()) (hexp : c.expectedVersion = some expected) :
    expected = current.version := by
  unfold checkExpectedVersion at h
  rw [hexp] at h
  by_contra hne
  simp only [ne_eq, hne, not_false_eq_true, if_true] at h
  exact absurd h (by simp)

/-- **A refusal read back**, in the order of the checks: the expected version, a rule for the event,
the guards of the rule. -/
theorem planRequest_eq_error {guards : GuardRegistry} {c : Call} {definition : MachineDefinition}
    {current : Current} {e : EngineError}
    (h : planRequest guards c definition current = .error e) :
    (∃ expected, c.expectedVersion = some expected ∧ expected ≠ current.version ∧
      e = .core (.versionConflict c.entityId c.machine expected current.version)) ∨
    ((∀ expected, c.expectedVersion = some expected → expected = current.version) ∧
      (((∀ rule ∈ definition.transitions, rule.answers current.state c.event = false) ∧
        e = .core (.illegalTransition c.entityId definition.name c.event current.state)) ∨
      ∃ rule ∈ definition.transitions, rule.answers current.state c.event = true ∧
        ∃ guard ∈ rule.guards, e = .core (.guardFailed guard "guard evaluated to false"))) := by
  unfold planRequest at h
  cases hver : checkExpectedVersion c current with
  | error e' =>
    simp only [hver, bind, Except.bind] at h
    obtain rfl := Except.error.inj h
    exact Or.inl (checkExpectedVersion_eq_error hver)
  | ok u =>
    refine Or.inr ⟨fun expected hexp => eq_of_checkExpectedVersion_eq_ok hver hexp, ?_⟩
    cases hrule : FsmPlanner.planTransition definition current.state c.event c.entityId with
    | error e' =>
      -- no rule, and the guards are not asked
      simp only [hver, hrule, bind, Except.bind, Except.mapError] at h
      obtain rfl := Except.error.inj h
      obtain ⟨rfl, hno⟩ := FsmPlanner.planTransition_eq_error hrule
      exact Or.inl ⟨hno, rfl⟩
    | ok rule =>
      obtain ⟨hmem, hans⟩ := FsmPlanner.planTransition_eq_ok hrule
      cases hg : FsmPlanner.validateGuards rule
          (guards.results (guardState c current) c.ctx rule.guards) with
      | error e' =>
        simp only [hver, hrule, hg, bind, Except.bind, Except.mapError] at h
        obtain rfl := Except.error.inj h
        obtain ⟨guard, hguard, rfl⟩ := FsmPlanner.checkGuards_eq_error hg
        exact Or.inr ⟨rule, hmem, hans, guard, hguard, rfl⟩
      | ok u =>
        -- past the guards nothing fails
        simp only [hver, hrule, hg, bind, Except.bind, Except.mapError] at h
        exact absurd h (by simp [pure, Except.pure])

/-- A commit read back. -/
theorem commitPlan_eq_ok {S S' : Store} {c : Call} {plan : Plan} {res : TransitionResult}
    (h : commitPlan S c plan = .ok (res, S')) :
    c.faults.executeTransition = none ∧
      Commit S plan.record plan.newState plan.effects S' ∧
      res = planResult c plan (S.sequence + 1) := by
  simp only [commitPlan, bind_eq_ok_iff, mapError_eq_ok_iff] at h
  obtain ⟨⟨sequence, S₁⟩, hx, hret⟩ := h
  obtain ⟨rfl, rfl⟩ := Prod.mk.inj (Except.ok.inj hret)
  cases hf : c.faults.executeTransition with
  | some f =>
    rw [hf] at hx
    exact absurd hx (by simp [withFault])
  | none =>
    rw [hf, withFault_none] at hx
    obtain ⟨rfl, hc⟩ := RedbEngine.executeTransition_eq_ok_iff.mp hx
    exact ⟨rfl, hc, rfl⟩

theorem commitPlan_of_commit {S S' : Store} {c : Call} {plan : Plan}
    (hf : c.faults.executeTransition = none)
    (h : Commit S plan.record plan.newState plan.effects S') :
    commitPlan S c plan = .ok (planResult c plan (S.sequence + 1), S') := by
  have hx := RedbEngine.executeTransition_eq_ok_iff.mpr ⟨rfl, h⟩
  unfold commitPlan
  rw [hf, withFault_none, hx]
  rfl

/-- A definition goes through if it passes validation and the write meets no fault. -/
theorem defineMachine_eq_ok_iff {S S' : Store} {definition : MachineDefinition}
    {fault : Option Fault} : defineMachine S definition fault = .ok S' ↔
      definition.validate = .ok () ∧ fault = none ∧ S' = RedbEngine.storeMachine S definition := by
  simp only [defineMachine, bind_eq_ok_iff, mapError_eq_ok_iff]
  cases fault with
  | some f => simp [withFault]
  | none =>
    constructor
    · rintro ⟨_, hvalid, hstore⟩
      exact ⟨hvalid, rfl, (Except.ok.inj hstore).symm⟩
    · rintro ⟨hvalid, -, rfl⟩
      exact ⟨(), hvalid, rfl⟩

/-- **A successful call read back**: a replay that touches nothing, or a commit of what was
planned from the reads. -/
theorem transition_eq_ok {S S' : Store} {guards : GuardRegistry} {shutdown : Bool} {c : Call}
    {res : TransitionResult} (h : transition S guards shutdown c = .ok (res, S')) :
    shutdown = false ∧
    ((∃ existing, findReplay S c = some existing ∧ res = existing.toResult ∧ S' = S) ∨
      findReplay S c = none ∧ ∃ definition current plan, readDefinition S c = .ok definition ∧
        readCurrent S c definition = .ok current ∧
        planRequest guards c definition current = .ok plan ∧
        Commit S plan.record plan.newState plan.effects S' ∧
        res = planResult c plan (S.sequence + 1)) := by
  unfold transition at h
  cases shutdown with
  | true => exact absurd h (by simp)
  | false =>
    refine ⟨rfl, ?_⟩
    simp only [Bool.false_eq_true, if_false] at h
    cases hrep : findReplay S c with
    | some existing =>
      rw [hrep] at h
      obtain ⟨rfl, rfl⟩ := Prod.mk.inj (Except.ok.inj h)
      exact Or.inl ⟨existing, rfl, rfl, rfl⟩
    | none =>
      rw [hrep] at h
      simp only [bind_eq_ok_iff] at h
      obtain ⟨definition, hdef, current, hcur, plan, hplan, hcommit⟩ := h
      obtain ⟨-, hc, hres⟩ := commitPlan_eq_ok hcommit
      exact Or.inr ⟨rfl, definition, current, plan, hdef, hcur, hplan, hc, hres⟩

end Engine

end StateMaster
