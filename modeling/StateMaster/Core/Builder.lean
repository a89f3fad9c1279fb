import StateMaster.Core.Machine

/-!
# The machine builder

`MachineBuilder` collects the parts of a definition in any order and hands them to `validate`. Two
of the parts are optional until the end, so `build` has two refusals of its own; past those it
refuses what `validate` refuses (`MachineBuilder.build_eq_validate`).

The setters reach every definition: `MachineBuilder.assemble` replays a definition through them, and
what it builds is the definition itself (`assemble_parts`).
-/

open Framework

namespace StateMaster

/-- The parts of a definition collected so far. -/
structure MachineBuilder where
  name : Option MachineName
  version : ℕ
  states : List StateName
  initialState : Option StateName
  transitions : List TransitionRule
  effects : List EffectRule
deriving DecidableEq, Repr

namespace MachineBuilder

/-- `MachineBuilder::new`. -/
def new : MachineBuilder where
  name := none
  version := 0
  states := []
  initialState := none
  transitions := []
  effects := []

/-! The setters that share their name with a field are called `with…` here. -/

/-- `MachineBuilder::name`. -/
def withName (b : MachineBuilder) (name : MachineName) : MachineBuilder :=
  { b with name := some name }

/-- `MachineBuilder::version`. -/
def withVersion (b : MachineBuilder) (version : ℕ) : MachineBuilder :=
  { b with version }

/-- `MachineBuilder::state`. -/
def state (b : MachineBuilder) (state : StateName) : MachineBuilder :=
  { b with states := b.states ++ [state] }

/-- `MachineBuilder::states`. -/
def withStates (b : MachineBuilder) (states : List StateName) : MachineBuilder :=
  { b with states := b.states ++ states }

/-- `MachineBuilder::initial_state`. -/
def withInitialState (b : MachineBuilder) (state : StateName) : MachineBuilder :=
  { b with initialState := some state }

/-- `MachineBuilder::transition_with_guards`. -/
def transitionWithGuards (b : MachineBuilder) (event : EventName) (fromStates : List StateName)
    (toState : StateName) (guards : List GuardName) : MachineBuilder :=
  { b with transitions := b.transitions ++ [{ event, fromStates, toState, guards }] }

/-- `MachineBuilder::transition`. -/
def transition (b : MachineBuilder) (event : EventName) (fromStates : List StateName)
    (toState : StateName) : MachineBuilder :=
  b.transitionWithGuards event fromStates toState []

/-- `MachineBuilder::effect`. -/
def effect (b : MachineBuilder) (onEvent : EventName) (effect : EffectName)
    (payload : Option Json) : MachineBuilder :=
  { b with effects := b.effects ++ [{ onEvent, effect, payload }] }

/-- `MachineBuilder::build`; `now` is the clock reading that becomes `created_at`. -/
def build (b : MachineBuilder) (now : DateTime) : Except CoreError MachineDefinition :=
  match b.name with
  | none => .error (.invalidDefinition "machine name is required")
  | some name =>
    match b.initialState with
    | none => .error (.invalidDefinition "initial_state is required")
    | some initialState => do
      let definition : MachineDefinition :=
        { name, version := b.version, states := b.states, initialState,
          transitions := b.transitions, effects := b.effects, createdAt := now }
      definition.validate
      return definition

/-- The definition a builder holds once it has a name and an initial state. -/
def definition (b : MachineBuilder) (name : MachineName) (initialState : StateName)
    (now : DateTime) : MachineDefinition where
  name := name
  version := b.version
  states := b.states
  initialState := initialState
  transitions := b.transitions
  effects := b.effects
  createdAt := now

/-- **Past its own two checks, `build` is `validate`.** -/
theorem build_eq_validate {b : MachineBuilder} {name : MachineName} {initialState : StateName}
    (hname : b.name = some name) (hinit : b.initialState = some initialState) (now : DateTime) :
    b.build now = (b.definition name initialState now).validate.map
      fun _ => b.definition name initialState now := by
  unfold build
  rw [hname, hinit]
  change ((b.definition name initialState now).validate >>= fun _ => _) = _
  cases (b.definition name initialState now).validate with
  | error e => rfl
  | ok u => rfl

/-- What `build` returns is what was collected, and is valid. -/
theorem build_eq_ok_iff {b : MachineBuilder} {name : MachineName} {initialState : StateName}
    (hname : b.name = some name) (hinit : b.initialState = some initialState) {now : DateTime}
    {d : MachineDefinition} :
    b.build now = .ok d ↔ d = b.definition name initialState now ∧ d.Valid := by
  rw [build_eq_validate hname hinit]
  cases hv : (b.definition name initialState now).validate with
  | error e =>
    refine iff_of_false (by simp [Except.map]) ?_
    rintro ⟨rfl, hd⟩
    rw [MachineDefinition.validate_eq_ok_iff.mpr hd] at hv
    exact absurd hv (by simp)
  | ok u =>
    have hvalid := MachineDefinition.validate_eq_ok_iff.mp hv
    constructor
    · intro h
      obtain rfl := Except.ok.inj h
      exact ⟨rfl, hvalid⟩
    · rintro ⟨rfl, -⟩
      rfl

/-! ### The setters reach every definition -/

/-- Replay the rules of a definition. -/
def replayRules (b : MachineBuilder) (rules : List TransitionRule) : MachineBuilder :=
  rules.foldl
    (fun b rule => b.transitionWithGuards rule.event rule.fromStates rule.toState rule.guards) b

/-- Replay the effects of a definition. -/
def replayEffects (b : MachineBuilder) (effects : List EffectRule) : MachineBuilder :=
  effects.foldl (fun b e => b.effect e.onEvent e.effect e.payload) b

/-- Replay a definition through the setters. -/
def assemble (d : MachineDefinition) : MachineBuilder :=
  (((new.withName d.name).withVersion d.version).withStates d.states).withInitialState
    d.initialState |>.replayRules d.transitions |>.replayEffects d.effects

theorem replayRules_eq (b : MachineBuilder) (rules : List TransitionRule) :
    b.replayRules rules = { b with transitions := b.transitions ++ rules } := by
  unfold replayRules
  induction rules generalizing b with
  | nil => simp
  | cons rule rules ih =>
    rw [List.foldl_cons, ih]
    simp [transitionWithGuards]

theorem replayEffects_eq (b : MachineBuilder) (effects : List EffectRule) :
    b.replayEffects effects = { b with effects := b.effects ++ effects } := by
  unfold replayEffects
  induction effects generalizing b with
  | nil => simp
  | cons e effects ih =>
    rw [List.foldl_cons, ih]
    simp [effect]

/-- The replayed builder holds exactly the parts of the definition. -/
theorem assemble_parts (d : MachineDefinition) :
    assemble d = ⟨some d.name, d.version, d.states, some d.initialState, d.transitions,
      d.effects⟩ := by
  unfold assemble
  rw [replayEffects_eq, replayRules_eq]
  rfl

/-- A definition goes through the builder unchanged, if it is valid. -/
theorem assemble_build_eq_ok_iff {d d' : MachineDefinition} :
    (assemble d).build d.createdAt = .ok d' ↔ d' = d ∧ d.Valid := by
  have hparts := assemble_parts d
  have hname : (assemble d).name = some d.name := by rw [hparts]
  have hinit : (assemble d).initialState = some d.initialState := by rw [hparts]
  have hd : (assemble d).definition d.name d.initialState d.createdAt = d := by
    unfold definition
    rw [hparts]
  rw [build_eq_ok_iff hname hinit, hd]
  constructor
  · rintro ⟨rfl, hv⟩
    exact ⟨rfl, hv⟩
  · rintro ⟨rfl, hv⟩
    exact ⟨rfl, hv⟩

end MachineBuilder

/-- **`validate` accepts exactly the deterministic, closed machines**, and so does `build` once the
name and the initial state are set: it then returns what was collected, or the error of `validate`.
Every definition can be collected, so nothing valid is out of the builder's reach. -/
theorem validate_accepts_exactly :
    (∀ d : MachineDefinition, d.validate = .ok () ↔
      d.states.Nodup ∧ d.initialState ∈ d.states ∧
      (∀ rule ∈ d.transitions, (∀ s ∈ rule.fromStates, s ∈ d.states) ∧ rule.toState ∈ d.states) ∧
      (d.transitions.flatMap fun rule => rule.fromStates.map fun s => (rule.event, s)).Nodup) ∧
    (∀ (b : MachineBuilder) (name : MachineName) (initialState : StateName) (now : DateTime),
      ((b.withName name).withInitialState initialState).build now
        = (b.definition name initialState now).validate.map
            fun _ => b.definition name initialState now) ∧
    (∀ d d' : MachineDefinition, (MachineBuilder.assemble d).build d.createdAt = .ok d' ↔
      d' = d ∧ d.validate = .ok ()) := by
  refine ⟨fun d => ?_, fun b name initialState now => ?_, fun d d' => ?_⟩
  · rw [MachineDefinition.validate_eq_ok_iff]
    constructor
    · intro hv
      refine ⟨hv.states_nodup, hv.initial_mem, ?_, hv.pairs_nodup⟩
      exact fun rule hrule => ⟨hv.from_mem rule hrule, hv.to_mem rule hrule⟩
    · rintro ⟨hstates, hinit, hrules, hpairs⟩
      exact ⟨hstates, hinit, fun rule hrule => (hrules rule hrule).1,
        fun rule hrule => (hrules rule hrule).2, hpairs⟩
  · exact MachineBuilder.build_eq_validate rfl rfl now
  · rw [MachineDefinition.validate_eq_ok_iff]
    exact MachineBuilder.assemble_build_eq_ok_iff

end StateMaster
