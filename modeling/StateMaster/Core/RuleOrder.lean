import StateMaster.Core.Planner
import StateMaster.Framework.Lists

/-!
# Planning does not depend on the order of the rules

`plan_transition` takes the first rule that answers. In a validated machine there is at most one
(`MachineDefinition.Valid.filter_answers`), so what the search finds is determined by which rules
answer and not by where they stand. `Reordered` is the reordering: the rules are permuted, and so
are the `from_states` of each.

* `Reordered.perm_outcomes` — the rules that answer, read by what planning uses of them, are the
  same up to order;
* `Reordered.valid` — a reordered machine is again one that `validate` accepts;
* `planTransition_reordered` — hence the same plan, or the same refusal.
-/

open Framework

namespace StateMaster

/-- Two rules that differ in the order of their `from_states` only. -/
structure SameRule (rule rule' : TransitionRule) : Prop where
  event : rule'.event = rule.event
  fromStates : rule'.fromStates.Perm rule.fromStates
  toState : rule'.toState = rule.toState
  guards : rule'.guards = rule.guards

/-- The rules in another order, each with its `from_states` in another order. -/
def Reordered (rules rules' : List TransitionRule) : Prop :=
  ∃ turned, List.Forall₂ SameRule rules turned ∧ rules'.Perm turned

/-- What planning hands on of a rule: its event, target and guards. -/
def TransitionRule.outcome (rule : TransitionRule) : EventName × StateName × List GuardName :=
  (rule.event, rule.toState, rule.guards)

theorem SameRule.outcome_eq {rule rule' : TransitionRule} (h : SameRule rule rule') :
    rule'.outcome = rule.outcome := by
  unfold TransitionRule.outcome
  rw [h.event, h.toState, h.guards]

theorem SameRule.answers_eq {rule rule' : TransitionRule} (h : SameRule rule rule')
    (s : StateName) (event : EventName) : rule'.answers s event = rule.answers s event := by
  rw [Bool.eq_iff_iff, TransitionRule.answers_iff, TransitionRule.answers_iff, h.event,
    h.fromStates.mem_iff]

theorem SameRule.perm_pairs {rule rule' : TransitionRule} (h : SameRule rule rule') :
    rule'.pairs.Perm rule.pairs := by
  unfold TransitionRule.pairs
  rw [h.event]
  exact h.fromStates.map _

/-! ### The rules that answer -/

section Answers

variable {rules rules' turned : List TransitionRule}

/-- Turning the `from_states` changes neither which rules answer nor what they say. -/
theorem outcomes_eq_of_forall₂ (h : List.Forall₂ SameRule rules turned) (s : StateName)
    (event : EventName) :
    (turned.filter fun rule => rule.answers s event).map TransitionRule.outcome
      = (rules.filter fun rule => rule.answers s event).map TransitionRule.outcome := by
  induction h with
  | nil => rfl
  | @cons rule rule' rules turned hrule hrest ih =>
    rw [List.filter_cons, List.filter_cons, hrule.answers_eq s event]
    split
    · rw [List.map_cons, List.map_cons, hrule.outcome_eq, ih]
    · exact ih

/-- The answers of a reordered table are the answers of the table, in another order. -/
theorem Reordered.perm_outcomes (h : Reordered rules rules') (s : StateName) (event : EventName) :
    ((rules'.filter fun rule => rule.answers s event).map TransitionRule.outcome).Perm
      ((rules.filter fun rule => rule.answers s event).map TransitionRule.outcome) := by
  obtain ⟨turned, hturned, hperm⟩ := h
  rw [← outcomes_eq_of_forall₂ hturned]
  exact (hperm.filter _).map _

/-- So are its pairs. -/
theorem Reordered.perm_pairs (h : Reordered rules rules') :
    (rules'.flatMap TransitionRule.pairs).Perm (rules.flatMap TransitionRule.pairs) := by
  obtain ⟨turned, hturned, hperm⟩ := h
  refine (hperm.flatMap_right _).trans ?_
  clear hperm
  induction hturned with
  | nil => exact List.Perm.refl _
  | cons hrule _ ih =>
    rw [List.flatMap_cons, List.flatMap_cons]
    exact hrule.perm_pairs.append ih

/-- A rule of the reordered table is a rule of the table, up to the order of its `from_states`. -/
theorem Reordered.exists_sameRule (h : Reordered rules rules') {rule' : TransitionRule}
    (hrule' : rule' ∈ rules') : ∃ rule ∈ rules, SameRule rule rule' := by
  obtain ⟨turned, hturned, hperm⟩ := h
  exact exists_of_forall₂_mem hturned.flip (hperm.mem_iff.mp hrule')

end Answers

/-- **Validation does not see the order either.** -/
theorem Reordered.valid {d : MachineDefinition} {rules' : List TransitionRule}
    (h : Reordered d.transitions rules') (hd : d.Valid) :
    ({ d with transitions := rules' } : MachineDefinition).Valid where
  states_nodup := hd.states_nodup
  initial_mem := hd.initial_mem
  from_mem rule' hrule' s hs := by
    obtain ⟨rule, hrule, hsame⟩ := h.exists_sameRule hrule'
    exact hd.from_mem rule hrule s (hsame.fromStates.mem_iff.mp hs)
  to_mem rule' hrule' := by
    obtain ⟨rule, hrule, hsame⟩ := h.exists_sameRule hrule'
    rw [hsame.toState]
    exact hd.to_mem rule hrule
  pairs_nodup := h.perm_pairs.nodup_iff.mpr hd.pairs_nodup

/-! ### Plans -/

/-- The first of the answers, or the refusal. -/
def firstOutcome (e : CoreError) :
    List (EventName × StateName × List GuardName) →
      Except CoreError (EventName × StateName × List GuardName)
  | [] => .error e
  | outcome :: _ => .ok outcome

/-- A search reads the first of the answers. -/
theorem FsmPlanner.planTransition_map_outcome (d : MachineDefinition) (s : StateName)
    (event : EventName) (entityId : EntityId) :
    (planTransition d s event entityId).map TransitionRule.outcome
      = firstOutcome (.illegalTransition entityId d.name event s)
          ((d.transitions.filter fun rule => rule.answers s event).map TransitionRule.outcome) := by
  unfold planTransition
  rw [← List.head?_filter]
  cases d.transitions.filter fun rule => rule.answers s event with
  | nil => rfl
  | cons rule rest => rfl

/-- In a valid machine a reordering leaves the list of answers as it is: it has one member at
most. -/
theorem Reordered.outcomes_eq {d : MachineDefinition} {rules' : List TransitionRule}
    (h : Reordered d.transitions rules') (hd : d.Valid) (s : StateName) (event : EventName) :
    (rules'.filter fun rule => rule.answers s event).map TransitionRule.outcome
      = (d.transitions.filter fun rule => rule.answers s event).map TransitionRule.outcome := by
  have hperm := h.perm_outcomes s event
  cases hans : d.transitions.filter fun rule => rule.answers s event with
  | nil =>
    rw [hans] at hperm
    exact hperm.eq_nil
  | cons rule rest =>
    -- `rule` answers, so it is the only one
    have hmem : rule ∈ d.transitions.filter fun rule => rule.answers s event := by
      rw [hans]
      exact List.mem_cons_self
    obtain ⟨hrule, hrule_ans⟩ := List.mem_filter.mp hmem
    rw [← hans, hd.filter_answers hrule hrule_ans]
    rw [hd.filter_answers hrule hrule_ans] at hperm
    exact List.perm_singleton.mp hperm

/-- **Planning does not depend on rule order.** On a validated machine and any reordering of it, a
plan has the same event, target and guards, or both refuse with the same `IllegalTransition`. A plan
exists exactly when some rule has that event and that state among its `from_states`, and its target
is one of the states. The reordering is accepted by `validate` as well. -/
theorem planTransition_reordered {d : MachineDefinition} (hd : d.validate = .ok ())
    {rules' : List TransitionRule} (h : Reordered d.transitions rules') (s : StateName)
    (event : EventName) (entityId : EntityId) :
    (FsmPlanner.planTransition { d with transitions := rules' } s event entityId).map
        TransitionRule.outcome
      = (FsmPlanner.planTransition d s event entityId).map TransitionRule.outcome ∧
    ((∃ rule, FsmPlanner.planTransition d s event entityId = .ok rule) ↔
      ∃ rule ∈ d.transitions, rule.event = event ∧ s ∈ rule.fromStates) ∧
    (∀ rule, FsmPlanner.planTransition d s event entityId = .ok rule →
      rule.event = event ∧ rule.toState ∈ d.states) ∧
    (∀ e, FsmPlanner.planTransition d s event entityId = .error e →
      e = .illegalTransition entityId d.name event s) ∧
    ({ d with transitions := rules' } : MachineDefinition).validate = .ok () := by
  have hv := MachineDefinition.validate_eq_ok_iff.mp hd
  refine ⟨?_, ⟨?_, ?_⟩, ?_, ?_, MachineDefinition.validate_eq_ok_iff.mpr (h.valid hv)⟩
  · rw [FsmPlanner.planTransition_map_outcome, FsmPlanner.planTransition_map_outcome]
    exact congrArg _ (h.outcomes_eq hv s event)
  · rintro ⟨rule, hplan⟩
    obtain ⟨hrule, hans⟩ := FsmPlanner.planTransition_eq_ok hplan
    exact ⟨rule, hrule, TransitionRule.answers_iff.mp hans⟩
  · rintro ⟨rule, hrule, hans⟩
    cases hplan : FsmPlanner.planTransition d s event entityId with
    | ok rule' => exact ⟨rule', rfl⟩
    | error e =>
      have hnone := (FsmPlanner.planTransition_eq_error hplan).2 rule hrule
      rw [TransitionRule.answers_iff.mpr hans] at hnone
      exact absurd hnone (by simp)
  · intro rule hplan
    obtain ⟨hrule, hans⟩ := FsmPlanner.planTransition_eq_ok hplan
    exact ⟨(TransitionRule.answers_iff.mp hans).1, hv.to_mem rule hrule⟩
  · intro e hplan
    exact (FsmPlanner.planTransition_eq_error hplan).1

/-- A turnstile that can be closed from two states. -/
def gateMachine : MachineDefinition where
  name := "gate"
  version := 1
  states := ["shut", "open", "closed"]
  initialState := "shut"
  transitions := [⟨"push", ["shut"], "open", ["paid"]⟩, ⟨"close", ["shut", "open"], "closed", []⟩]
  effects := []
  createdAt := 0

/-- The same table, last rule first and its states turned round. -/
def gateRules : List TransitionRule :=
  [⟨"close", ["open", "shut"], "closed", []⟩, ⟨"push", ["shut"], "open", ["paid"]⟩]

theorem planTransition_reordered_gate :
    (FsmPlanner.planTransition { gateMachine with transitions := gateRules } "open" "close" "g").map
        TransitionRule.outcome
      = (FsmPlanner.planTransition gateMachine "open" "close" "g").map TransitionRule.outcome ∧
    ∃ rule, FsmPlanner.planTransition gateMachine "open" "close" "g" = .ok rule := by
  have hturned : Reordered gateMachine.transitions gateRules := by
    refine ⟨[⟨"push", ["shut"], "open", ["paid"]⟩, ⟨"close", ["open", "shut"], "closed", []⟩],
      ?_, List.Perm.swap _ _ _⟩
    refine .cons ⟨rfl, List.Perm.refl _, rfl, rfl⟩ (.cons ⟨rfl, List.Perm.swap _ _ _, rfl, rfl⟩ .nil)
  have h := planTransition_reordered (d := gateMachine) (by decide) hturned "open" "close" "g"
  exact ⟨h.1, h.2.1.mpr (by decide)⟩

end StateMaster
