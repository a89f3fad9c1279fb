import StateMaster.Engine.Idempotency

/-!
# The complete outcome of one transition

`Engine.Outcomes` lists every way a request can end when nobody else writes and no storage step
fails, in the priority the source tries them: the replay of a bound key, no definition, another
version than the expected one, no rule, a guard, and last the commit. Each constructor carries what
has to hold for it, in terms of the tables alone, so that they exclude each other; the commit says
what the tables are afterwards (`Store.plus`). `Engine.runAlone` is the sequential object they are the
outcomes of: one whole transition at a time.

Guards pass through two defaults: the registry lets an unregistered guard pass, the planner fails a
guard it has no result for. Every guard of the rule is evaluated first, so only the former shows
(`GuardRegistry.evaluate_eq_false_iff`).

* `transition_outcome` — a request ends in exactly the way listed.
-/

open Framework Framework.Text

namespace StateMaster

/-! ### What the outcome is a function of -/

/-- The stored row of the request's pair, or the start of a fresh entity. -/
def Store.currentOf (S : Store) (c : Call) (definition : MachineDefinition) : Current :=
  match S.entityStates[c.stateKey]? with
  | some row => ⟨row.currentState, row.version, row.createdAt⟩
  | none => ⟨definition.initialState, 0, c.draws.now⟩

/-- The request carries no key, or one that is not bound. -/
def Store.KeyFree (S : Store) (c : Call) : Prop :=
  ∀ key, c.idempotencyKey = some key → S.idempotency[key]? = none

/-- The tables after a commit: a log record and its two index entries, a row, the effects with their
index entries, the binding of a key if there is one, and the counter. -/
def Store.plus (S : Store) (record : TransitionRecord) (row : EntityState)
    (emitted : List Effect) : Store :=
  { S with
    transitions := S.transitions.insert record.sequence record
    transitionsById := S.transitionsById.insert record.id record.sequence
    entityTransitions := S.entityTransitions.insert
      (entityTransitionKey record.entityId record.machine record.sequence) record.sequence
    entityStates := S.entityStates.insert (entityStateKey row.entityId row.machine) row
    effects := emitted.foldl (fun tbl effect => tbl.insert effect.id effect) S.effects
    effectsByTxn := emitted.foldl
      (fun byTxn effect => byTxn.insert (effectByTxnKey effect.transitionId effect.id) effect.id)
      S.effectsByTxn
    idempotency := record.idempotencyKey.elim S.idempotency fun key =>
      S.idempotency.insert key record.sequence
    metaTable := S.metaTable.insert metaSequence record.sequence }

namespace Engine

/-- A request handled while nobody else writes: its outcome, and the store it leaves. -/
def runAlone (guards : GuardRegistry) (shutdown : Bool) (S : Store) (c : Call) : Outcome × Store :=
  match transition S guards shutdown c with
  | .ok (res, S') => (.ok res, S')
  | .error e => (.error e, S)

/-- A guard stops the request: it is registered, and false. -/
def Refuses (guards : GuardRegistry) (c : Call) (current : Current) (g : GuardName) : Prop :=
  ∃ f : GuardFn, guards[g]? = some f ∧ f (guardState c current) c.ctx = false

/-- The record a request logs under `sequence`. -/
def loggedRecord (c : Call) (current : Current) (rule : TransitionRule) (sequence : ℕ) :
    TransitionRecord where
  id := c.draws.recordId.text
  sequence := sequence
  entityId := c.entityId
  machine := c.machine
  fromState := current.state
  toState := rule.toState
  event := c.event
  actor := c.actor
  ctx := c.ctx
  idempotencyKey := c.idempotencyKey
  version := current.version + 1
  timestamp := c.draws.recordTimestamp

/-- The row a request leaves behind. -/
def writtenRow (c : Call) (current : Current) (rule : TransitionRule) : EntityState where
  entityId := c.entityId
  machine := c.machine
  currentState := rule.toState
  version := current.version + 1
  updatedAt := c.draws.now
  createdAt := current.createdAt

/-- One pending effect for each effect rule of the event, in the order of the rules. -/
def emittedEffects (c : Call) (definition : MachineDefinition) : List Effect :=
  (definition.effects.filter fun er => er.onEvent == c.event).mapIdx fun n er =>
    { id := (c.draws.effectId n).text
      transitionId := c.draws.recordId.text
      effectName := er.effect
      payload := er.payload.getD .null
      status := .pending
      createdAt := c.draws.effectCreatedAt n }

/-- **Every way a request can end**, with the tables it leaves. -/
inductive Outcomes (S : Store) (guards : GuardRegistry) (c : Call) :
    Except EngineError (TransitionResult × Store) → Prop where
  | replay (key : IdempotencyKey) (s : ℕ) (existing : TransitionRecord)
      (hkey : c.idempotencyKey = some key) (hbound : S.idempotency[key]? = some s)
      (hrecord : S.transitions[s]? = some existing) :
      Outcomes S guards c (.ok (existing.toResult, S))
  | notFound (hfree : S.KeyFree c) (hnone : S.machines[c.machine]? = none) :
      Outcomes S guards c (.error (.storage (.notFound ("machine '" ++ c.machine ++ "'"))))
  | versionConflict (definition : MachineDefinition) (expected : ℕ) (hfree : S.KeyFree c)
      (hdef : S.machines[c.machine]? = some definition)
      (hexpected : c.expectedVersion = some expected)
      (hne : expected ≠ (S.currentOf c definition).version) :
      Outcomes S guards c (.error (.core (.versionConflict c.entityId c.machine expected
        (S.currentOf c definition).version)))
  | illegalTransition (definition : MachineDefinition) (hfree : S.KeyFree c)
      (hdef : S.machines[c.machine]? = some definition)
      (hversion : ∀ expected, c.expectedVersion = some expected →
        expected = (S.currentOf c definition).version)
      (hnone : ∀ rule ∈ definition.transitions,
        rule.answers (S.currentOf c definition).state c.event = false) :
      Outcomes S guards c (.error (.core (.illegalTransition c.entityId definition.name c.event
        (S.currentOf c definition).state)))
  | guardFailed (definition : MachineDefinition) (rule : TransitionRule)
      (before : List GuardName) (g : GuardName) (after : List GuardName) (hfree : S.KeyFree c)
      (hdef : S.machines[c.machine]? = some definition)
      (hversion : ∀ expected, c.expectedVersion = some expected →
        expected = (S.currentOf c definition).version)
      (hrule : definition.transitions.find?
        (fun rule => rule.answers (S.currentOf c definition).state c.event) = some rule)
      (hguards : rule.guards = before ++ g :: after)
      (hbefore : ∀ g' ∈ before, ¬ Refuses guards c (S.currentOf c definition) g')
      (hrefuses : Refuses guards c (S.currentOf c definition) g) :
      Outcomes S guards c (.error (.core (.guardFailed g "guard evaluated to false")))
  | committed (definition : MachineDefinition) (rule : TransitionRule) (hfree : S.KeyFree c)
      (hdef : S.machines[c.machine]? = some definition)
      (hversion : ∀ expected, c.expectedVersion = some expected →
        expected = (S.currentOf c definition).version)
      (hrule : definition.transitions.find?
        (fun rule => rule.answers (S.currentOf c definition).state c.event) = some rule)
      (hguards : ∀ g ∈ rule.guards, ¬ Refuses guards c (S.currentOf c definition) g) :
      Outcomes S guards c (.ok
        ({ entityId := c.entityId
           machine := c.machine
           fromState := (S.currentOf c definition).state
           toState := rule.toState
           version := (S.currentOf c definition).version + 1
           transitionId := c.draws.recordId.text
           sequence := S.sequence + 1
           timestamp := c.draws.recordTimestamp },
         S.plus (loggedRecord c (S.currentOf c definition) rule (S.sequence + 1))
           (writtenRow c (S.currentOf c definition) rule) (emittedEffects c definition)))

end Engine

/-! ### The pieces, when no storage step fails -/

/-- The registry's default shows, the planner's does not. -/
theorem GuardRegistry.evaluate_eq_false_iff {guards : GuardRegistry} {c : Call}
    {current : Current} {g : GuardName} :
    guards.evaluate g (Engine.guardState c current) c.ctx = false ↔
      Engine.Refuses guards c current g := by
  unfold GuardRegistry.evaluate Engine.Refuses
  cases guards[g]? with
  | none => simp
  | some f => simp

namespace Engine

section Pieces

variable {S : Store} {c : Call} {guards : GuardRegistry} {definition : MachineDefinition}
  {current : Current}

theorem findReplay_of_keyFree (hfree : S.KeyFree c) : findReplay S c = none := by
  cases hfind : findReplay S c with
  | none => rfl
  | some existing =>
    obtain ⟨key, s, hkey, -, hbound, -⟩ := findReplay_eq_some hfind
    exact absurd ((hfree key hkey).symm.trans hbound) (by simp)

theorem findReplay_of_bound (hf : c.faults = CallFaults.none) {key : IdempotencyKey} {s : ℕ}
    {existing : TransitionRecord} (hkey : c.idempotencyKey = some key)
    (hbound : S.idempotency[key]? = some s) (hrecord : S.transitions[s]? = some existing) :
    findReplay S c = some existing := by
  unfold findReplay RedbEngine.checkIdempotency
  rw [hkey, hf]
  simp only [CallFaults.none, withFault_none, hbound, hrecord]

theorem readDefinition_of_stored (hf : c.faults = CallFaults.none)
    (hdef : S.machines[c.machine]? = some definition) : readDefinition S c = .ok definition := by
  unfold readDefinition RedbEngine.getMachine
  rw [hf]
  simp only [CallFaults.none, withFault_none, hdef]
  rfl

theorem readCurrent_of_stored (hf : c.faults = CallFaults.none) :
    readCurrent S c definition = .ok (S.currentOf c definition) := by
  unfold readCurrent Store.currentOf Call.stateKey
  rw [hf, getEntityState_eq]
  simp only [CallFaults.none, withFault_none]
  cases S.entityStates[entityStateKey c.entityId c.machine]? with
  | none => rfl
  | some row => rfl

theorem checkExpectedVersion_of_fits
    (hversion : ∀ expected, c.expectedVersion = some expected → expected = current.version) :
    checkExpectedVersion c current = .ok () := by
  unfold checkExpectedVersion
  cases hexp : c.expectedVersion with
  | none => rfl
  | some expected => exact if_neg (not_not.mpr (hversion expected hexp))

theorem planTransition_of_find {rule : TransitionRule}
    (hrule : definition.transitions.find? (fun rule => rule.answers current.state c.event)
      = some rule) :
    FsmPlanner.planTransition definition current.state c.event c.entityId = .ok rule := by
  unfold FsmPlanner.planTransition
  rw [hrule]

/-- The planner finds `true` for a guard that does not refuse. -/
theorem results_of_not_refuses {rule : TransitionRule} {g : GuardName} (hg : g ∈ rule.guards)
    (h : ¬ Refuses guards c current g) :
    (guards.results (guardState c current) c.ctx rule.guards)[g]? = some true := by
  rw [GuardRegistry.results_get hg]
  rw [← GuardRegistry.evaluate_eq_false_iff, Bool.not_eq_false] at h
  rw [h]

/-- Guards that pass are walked over. -/
theorem checkGuards_append {guardResults : Table GuardName Bool} {before rest : List GuardName}
    (h : ∀ g ∈ before, guardResults[g]? = some true) :
    FsmPlanner.checkGuards guardResults (before ++ rest)
      = FsmPlanner.checkGuards guardResults rest := by
  induction before with
  | nil => rfl
  | cons g before ih =>
    rw [List.cons_append, FsmPlanner.checkGuards, h g List.mem_cons_self]
    exact ih fun g' hg' => h g' (List.mem_cons_of_mem _ hg')

/-- **The planner names the first guard that refuses.** -/
theorem validateGuards_of_refused {rule : TransitionRule} {before after : List GuardName}
    {g : GuardName} (hguards : rule.guards = before ++ g :: after)
    (hbefore : ∀ g' ∈ before, ¬ Refuses guards c current g')
    (hrefuses : Refuses guards c current g) :
    FsmPlanner.validateGuards rule (guards.results (guardState c current) c.ctx rule.guards)
      = .error (.guardFailed g "guard evaluated to false") := by
  have hmem : g ∈ rule.guards := by
    rw [hguards]
    exact List.mem_append_right _ List.mem_cons_self
  have hpass : ∀ g' ∈ before,
      (guards.results (guardState c current) c.ctx rule.guards)[g']? = some true := by
    intro g' hg'
    refine results_of_not_refuses ?_ (hbefore g' hg')
    rw [hguards]
    exact List.mem_append_left _ hg'
  have hfalse : (guards.results (guardState c current) c.ctx rule.guards)[g]? = some false := by
    rw [GuardRegistry.results_get hmem, GuardRegistry.evaluate_eq_false_iff.mpr hrefuses]
  -- the walk stops at `g`, and the results do not change on the way
  generalize guards.results (guardState c current) c.ctx rule.guards = guardResults at hpass hfalse
  unfold FsmPlanner.validateGuards
  rw [hguards, checkGuards_append hpass, FsmPlanner.checkGuards, hfalse]
  rfl

theorem validateGuards_of_pass {rule : TransitionRule}
    (hguards : ∀ g ∈ rule.guards, ¬ Refuses guards c current g) :
    FsmPlanner.validateGuards rule (guards.results (guardState c current) c.ctx rule.guards)
      = .ok () :=
  FsmPlanner.checkGuards_eq_ok_iff.mpr fun g hg => results_of_not_refuses hg (hguards g hg)

/-- The commit of a plan, as the tables it leaves. -/
theorem commitPlan_eq_plus (hf : c.faults = CallFaults.none) (hfree : S.KeyFree c)
    (rule : TransitionRule) :
    commitPlan S c (buildPlan c definition (S.currentOf c definition) rule)
      = .ok (planResult c (buildPlan c definition (S.currentOf c definition) rule)
          (S.sequence + 1),
        S.plus (loggedRecord c (S.currentOf c definition) rule (S.sequence + 1))
          (writtenRow c (S.currentOf c definition) rule) (emittedEffects c definition)) := by
  refine commitPlan_of_commit (by rw [hf]; rfl) ⟨fun row hrow => ?_, hfree, rfl, rfl, rfl, rfl, rfl,
    rfl, rfl, rfl, rfl⟩
  -- the version in the row is the one the plan was made from
  change S.entityStates[c.stateKey]? = some row at hrow
  change row.version = (S.currentOf c definition).version + 1 - 1
  unfold Store.currentOf
  rw [hrow, Nat.add_sub_cancel]

theorem runAlone_of_eq {res : Except EngineError (TransitionResult × Store)}
    (h : transition S guards false c = res) :
    runAlone guards false S c = (res.map Prod.fst, (res.toOption.map Prod.snd).getD S) := by
  unfold runAlone
  rw [h]
  cases res with
  | error e => rfl
  | ok p => rfl

/-- What is left of a request that has no key to replay. -/
theorem transition_of_keyFree (hfree : S.KeyFree c) :
    transition S guards false c = (do
      let definition ← readDefinition S c
      let current ← readCurrent S c definition
      let plan ← planRequest guards c definition current
      commitPlan S c plan) := by
  unfold transition
  rw [findReplay_of_keyFree hfree]
  rfl

end Pieces

/-- Each way to end is the way the request ends. -/
theorem Outcomes.sound {S : Store} {guards : GuardRegistry} {c : Call}
    {res : Except EngineError (TransitionResult × Store)} (hf : c.faults = CallFaults.none)
    (h : Outcomes S guards c res) : transition S guards false c = res := by
  cases h with
  | replay key s existing hkey hbound hrecord =>
    unfold transition
    rw [findReplay_of_bound hf hkey hbound hrecord]
    rfl
  | notFound hfree hnone =>
    have hdef : readDefinition S c
        = .error (.storage (.notFound ("machine '" ++ c.machine ++ "'"))) := by
      unfold readDefinition RedbEngine.getMachine
      rw [hf]
      simp only [CallFaults.none, withFault_none, hnone]
      rfl
    rw [transition_of_keyFree hfree, hdef]
    rfl
  | versionConflict definition expected hfree hdef hexpected hne =>
    rw [transition_of_keyFree hfree, readDefinition_of_stored hf hdef]
    simp only [bind, Except.bind, readCurrent_of_stored hf, planRequest, checkExpectedVersion,
      hexpected, if_pos hne]
  | illegalTransition definition hfree hdef hversion hnone =>
    have hplan : FsmPlanner.planTransition definition (S.currentOf c definition).state c.event
        c.entityId = .error (.illegalTransition c.entityId definition.name c.event
          (S.currentOf c definition).state) := by
      unfold FsmPlanner.planTransition
      rw [List.find?_eq_none.mpr fun rule hrule => Bool.eq_false_iff.mp (hnone rule hrule)]
    rw [transition_of_keyFree hfree, readDefinition_of_stored hf hdef]
    simp only [bind, Except.bind, readCurrent_of_stored hf, planRequest,
      checkExpectedVersion_of_fits hversion, hplan, Except.mapError]
  | guardFailed definition rule before g after hfree hdef hversion hrule hguards hbefore hrefuses =>
    rw [transition_of_keyFree hfree, readDefinition_of_stored hf hdef]
    simp only [bind, Except.bind, readCurrent_of_stored hf, planRequest,
      checkExpectedVersion_of_fits hversion, planTransition_of_find hrule, Except.mapError,
      validateGuards_of_refused hguards hbefore hrefuses]
  | committed definition rule hfree hdef hversion hrule hguards =>
    rw [transition_of_keyFree hfree, readDefinition_of_stored hf hdef]
    simp only [bind, Except.bind, readCurrent_of_stored hf, planRequest,
      checkExpectedVersion_of_fits hversion, planTransition_of_find hrule, Except.mapError,
      validateGuards_of_pass hguards, pure, Except.pure, commitPlan_eq_plus hf hfree rule]
    rfl

/-- One of the ways to end applies, as long as bound keys point at records. -/
theorem Outcomes.exists {S : Store} (hS : LogInvariant S) (guards : GuardRegistry) (c : Call) :
    ∃ res, Outcomes S guards c res := by
  classical
  by_cases hfree : S.KeyFree c
  · cases hdef : S.machines[c.machine]? with
    | none => exact ⟨_, .notFound hfree hdef⟩
    | some definition =>
      by_cases hversion : ∀ expected, c.expectedVersion = some expected →
          expected = (S.currentOf c definition).version
      · cases hrule : definition.transitions.find?
          (fun rule => rule.answers (S.currentOf c definition).state c.event) with
        | none =>
          refine ⟨_, .illegalTransition definition hfree hdef hversion fun rule hmem => ?_⟩
          exact Bool.eq_false_iff.mpr (List.find?_eq_none.mp hrule rule hmem)
        | some rule =>
          -- the first guard that refuses, if one does
          cases hfirst : rule.guards.find?
              (fun g => decide (Refuses guards c (S.currentOf c definition) g)) with
          | none =>
            refine ⟨_, .committed definition rule hfree hdef hversion hrule fun g hg hrefuses => ?_⟩
            exact List.find?_eq_none.mp hfirst g hg (decide_eq_true hrefuses)
          | some g =>
            obtain ⟨hg, before, after, heq, hbefore⟩ := List.find?_eq_some_iff_append.mp hfirst
            refine ⟨_, .guardFailed definition rule before g after hfree hdef hversion hrule heq
              (fun g' hg' hrefuses => ?_) (of_decide_eq_true hg)⟩
            exact absurd (hbefore g' hg') (by simp [hrefuses])
      · push Not at hversion
        obtain ⟨expected, hexpected, hne⟩ := hversion
        exact ⟨_, .versionConflict definition expected hfree hdef hexpected hne⟩
  · unfold Store.KeyFree at hfree
    push Not at hfree
    obtain ⟨key, hkey, hbound⟩ := hfree
    obtain ⟨s, hs⟩ := Option.ne_none_iff_exists'.mp hbound
    obtain ⟨existing, hrecord, -⟩ := hS.keyed key s hs
    exact ⟨_, .replay key s existing hkey hs hrecord⟩

end Engine

/-- **The complete outcome of one transition.** In every reachable store, for every registry and
every request whose storage steps do not fail, the request ends in exactly the way `Outcomes` lists
for it. -/
theorem transition_outcome {S : Store} (hS : EngineReachable S) (guards : GuardRegistry) (c : Call)
    (hf : c.faults = CallFaults.none) (res : Except EngineError (TransitionResult × Store)) :
    Engine.transition S guards false c = res ↔ Engine.Outcomes S guards c res := by
  obtain ⟨cfg, guards₀, ls, w, hrun, rfl⟩ := hS
  have hlog := (keyInvariant_of_run hrun).log
  refine ⟨?_, Engine.Outcomes.sound hf⟩
  rintro rfl
  obtain ⟨res, hres⟩ := Engine.Outcomes.exists hlog guards c
  rw [hres.sound hf]
  exact hres

/-- A registry whose one guard refuses everything. -/
def unfunded : GuardRegistry := GuardRegistry.register ∅ "funded" fun _ _ => false

theorem transition_outcome_unfunded :
    Engine.Outcomes (RedbEngine.storeMachine Store.empty orderMachine) unfunded
      (payOrder 0 "o1" none) (.error (.core (.guardFailed "funded" "guard evaluated to false"))) :=
  (transition_outcome ⟨oneStripe, ∅, [.defineMachine orderMachine none], _, rfl, rfl⟩ unfunded
    (payOrder 0 "o1" none) rfl _).mp rfl

end StateMaster
