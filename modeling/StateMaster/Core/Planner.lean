import StateMaster.Core.Machine
import StateMaster.Framework.Table

/-!
# The planner

`FsmPlanner` of `smdb-core`: the lookup of a rule, the check of its guards against a map of
results, the effects an event emits, and the record of a transition.
-/

open Framework

namespace StateMaster

namespace FsmPlanner

/-- `FsmPlanner::plan_transition`: the first rule that answers the event in the current state. -/
def planTransition (definition : MachineDefinition) (currentState : StateName)
    (event : EventName) (entityId : EntityId) : Except CoreError TransitionRule :=
  match definition.transitions.find? fun rule => rule.answers currentState event with
  | some rule => .ok rule
  | none => .error (.illegalTransition entityId definition.name event currentState)

/-- The loop of `validate_guards`: a guard missing from the results counts as failed. -/
def checkGuards (guardResults : Table GuardName Bool) : List GuardName → Except CoreError Unit
  | [] => .ok ()
  | guard :: rest =>
    if guardResults[guard]?.getD false then checkGuards guardResults rest
    else .error (.guardFailed guard "guard evaluated to false")

/-- `FsmPlanner::validate_guards`. -/
def validateGuards (rule : TransitionRule) (guardResults : Table GuardName Bool) :
    Except CoreError Unit :=
  checkGuards guardResults rule.guards

/-- `FsmPlanner::compute_effects`. -/
def computeEffects (definition : MachineDefinition) (event : EventName) : List EffectRule :=
  definition.effects.filter fun e => e.onEvent == event

/-- `FsmPlanner::build_transition_record`: `sequence` and `version` are left unassigned. The id and
the timestamp are drawn by the caller of this model. -/
def buildTransitionRecord (id : TransitionId) (timestamp : DateTime) (entityId : EntityId)
    (machine : MachineName) (fromState toState : StateName) (event : EventName) (actor : ActorId)
    (ctx : Context) (idempotencyKey : Option IdempotencyKey) : TransitionRecord :=
  { id, sequence := 0, entityId, machine, fromState, toState, event, actor, ctx, idempotencyKey,
    version := 0, timestamp }

/-- A planned rule is one of the machine's rules and answers the event. -/
theorem planTransition_eq_ok {definition : MachineDefinition} {currentState : StateName}
    {event : EventName} {entityId : EntityId} {rule : TransitionRule}
    (h : planTransition definition currentState event entityId = .ok rule) :
    rule ∈ definition.transitions ∧ rule.answers currentState event = true := by
  unfold planTransition at h
  split at h
  · next r hfind =>
    obtain rfl := Except.ok.inj h
    have hans := List.find?_some hfind
    exact ⟨List.mem_of_find?_eq_some hfind, hans⟩
  · exact absurd h (by simp)

/-- Planning fails with `IllegalTransition` only, and only if no rule answers. -/
theorem planTransition_eq_error {definition : MachineDefinition} {currentState : StateName}
    {event : EventName} {entityId : EntityId} {e : CoreError}
    (h : planTransition definition currentState event entityId = .error e) :
    e = .illegalTransition entityId definition.name event currentState ∧
      ∀ rule ∈ definition.transitions, rule.answers currentState event = false := by
  unfold planTransition at h
  split at h
  · exact absurd h (by simp)
  · next hnone =>
    refine ⟨(Except.error.inj h).symm, fun rule hrule => ?_⟩
    exact Bool.eq_false_iff.mpr (List.find?_eq_none.mp hnone rule hrule)

/-- The guards pass exactly when each has a `true` result. -/
theorem checkGuards_eq_ok_iff {guardResults : Table GuardName Bool} {guards : List GuardName} :
    checkGuards guardResults guards = .ok () ↔
      ∀ guard ∈ guards, guardResults[guard]? = some true := by
  induction guards with
  | nil => simp [checkGuards]
  | cons guard guards ih =>
    unfold checkGuards
    cases hg : guardResults[guard]? with
    | none => simp [hg]
    | some b => cases b <;> simp [hg, ih]

/-- The guards fail with `GuardFailed` only, naming one of them. -/
theorem checkGuards_eq_error {guardResults : Table GuardName Bool} {guards : List GuardName}
    {e : CoreError} (h : checkGuards guardResults guards = .error e) :
    ∃ guard ∈ guards, e = .guardFailed guard "guard evaluated to false" := by
  induction guards with
  | nil => exact absurd h (by simp [checkGuards])
  | cons guard guards ih =>
    unfold checkGuards at h
    split at h
    · obtain ⟨g, hg, he⟩ := ih h
      exact ⟨g, List.mem_cons_of_mem guard hg, he⟩
    · exact ⟨guard, List.mem_cons_self, (Except.error.inj h).symm⟩

end FsmPlanner

end StateMaster
