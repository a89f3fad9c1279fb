import StateMaster.Core.Types

/-!
# Machine definitions and their validation

`MachineDefinition.validate` is two nested loops over growing sets with four early exits. The sets
are modelled by the list of what has been inserted so far, newest first; only membership is ever
asked of them.

`MachineDefinition.validate_eq_ok_iff` characterises what it accepts as `MachineDefinition.Valid`:
the states are distinct, the initial state is one of them, every state a rule mentions is one of
them, and no `(event, from_state)` pair occurs twice among all rules and their `from_states`. What
the planner needs of it is `Valid.filter_answers`: at most one rule answers an event in a state.
-/

open Framework

namespace StateMaster

/-- One row of a machine's transition table. -/
structure TransitionRule where
  event : EventName
  fromStates : List StateName
  toState : StateName
  guards : List GuardName
deriving DecidableEq, Repr

/-- An effect declared for an event. -/
structure EffectRule where
  onEvent : EventName
  effect : EffectName
  payload : Option Json
deriving DecidableEq, Repr

structure MachineDefinition where
  name : MachineName
  version : ℕ
  states : List StateName
  initialState : StateName
  transitions : List TransitionRule
  effects : List EffectRule
  createdAt : DateTime
deriving DecidableEq, Repr

/-! ### Encoding -/

/-- What is read back of a rule that was encoded: a payload that is null is written as nil, and nil is
read as none. -/
def EffectRule.stored (rule : EffectRule) : EffectRule :=
  { rule with payload := rule.payload.filter (· ≠ .null) }

/-- What is read back of a definition, from its row for example. -/
def MachineDefinition.stored (definition : MachineDefinition) : MachineDefinition :=
  { definition with effects := definition.effects.map EffectRule.stored }

theorem EffectRule.stored_eq_self_iff {rule : EffectRule} :
    rule.stored = rule ↔ rule.payload ≠ some .null := by
  obtain ⟨onEvent, effect, payload⟩ := rule
  cases payload with
  | none => simp [EffectRule.stored]
  | some payload => simp [EffectRule.stored, Option.filter]

theorem EffectRule.stored_idem (rule : EffectRule) : rule.stored.stored = rule.stored := by
  refine EffectRule.stored_eq_self_iff.mpr fun hnull => ?_
  exact absurd (Option.filter_eq_some_iff.mp hnull).2 (by simp)

namespace MachineDefinition

theorem stored_eq_self_iff {definition : MachineDefinition} :
    definition.stored = definition ↔ ∀ rule ∈ definition.effects, rule.payload ≠ some .null := by
  have hmap : definition.stored = definition ↔
      definition.effects.map EffectRule.stored = definition.effects.map id := by
    obtain ⟨name, version, states, initialState, transitions, effects, createdAt⟩ := definition
    simp [MachineDefinition.stored]
  rw [hmap, List.map_inj_left]
  exact forall₂_congr fun rule _ => EffectRule.stored_eq_self_iff

theorem stored_idem (definition : MachineDefinition) :
    definition.stored.stored = definition.stored := by
  unfold MachineDefinition.stored
  simp [EffectRule.stored_idem]

/-- The first loop of `validate`: collect the states, stopping at a repeated one. -/
def collectStates (seen : List StateName) : List StateName → Except CoreError (List StateName)
  | [] => .ok seen
  | state :: rest =>
    if state ∈ seen then .error (.duplicateState state) else collectStates (state :: seen) rest

/-- The inner loop of `validate` over the `from_states` of one rule. -/
def collectPairs (seenStates : List StateName) (event : EventName)
    (pairSeen : List (EventName × StateName)) :
    List StateName → Except CoreError (List (EventName × StateName))
  | [] => .ok pairSeen
  | frm :: rest =>
    if frm ∉ seenStates then
      .error (.invalidDefinition
        ("transition '" ++ event ++ "' references unknown from_state '" ++ frm ++ "'"))
    else if (event, frm) ∈ pairSeen then
      .error (.invalidDefinition
        ("duplicate (event, from_state) pair: ('" ++ event ++ "', '" ++ frm ++ "')"))
    else collectPairs seenStates event ((event, frm) :: pairSeen) rest

/-- The outer loop of `validate` over the rules. -/
def checkRules (seenStates : List StateName) (pairSeen : List (EventName × StateName)) :
    List TransitionRule → Except CoreError Unit
  | [] => .ok ()
  | rule :: rest => do
    let pairSeen ← collectPairs seenStates rule.event pairSeen rule.fromStates
    if rule.toState ∉ seenStates then
      .error (.invalidDefinition
        ("transition '" ++ rule.event ++ "' references unknown to_state '" ++ rule.toState ++ "'"))
    else checkRules seenStates pairSeen rest

/-- `MachineDefinition::validate`. -/
def validate (definition : MachineDefinition) : Except CoreError Unit := do
  let seenStates ← collectStates [] definition.states
  if definition.initialState ∉ seenStates then
    .error (.invalidDefinition
      ("initial_state '" ++ definition.initialState ++ "' is not in the states list"))
  else checkRules seenStates [] definition.transitions

end MachineDefinition

/-! ### What validation accepts -/

/-- The `(event, from_state)` pairs of one rule. -/
def TransitionRule.pairs (rule : TransitionRule) : List (EventName × StateName) :=
  rule.fromStates.map fun s => (rule.event, s)

/-- The rule answers `event` in state `s`; the test the planner's search makes. -/
def TransitionRule.answers (rule : TransitionRule) (s : StateName) (event : EventName) : Bool :=
  rule.event == event && rule.fromStates.any fun s' => s' == s

theorem TransitionRule.answers_iff {rule : TransitionRule} {s : StateName} {event : EventName} :
    rule.answers s event = true ↔ rule.event = event ∧ s ∈ rule.fromStates := by
  simp [answers]

theorem TransitionRule.mem_pairs_iff {rule : TransitionRule} {s : StateName} {event : EventName} :
    (event, s) ∈ rule.pairs ↔ rule.answers s event = true := by
  rw [answers_iff]
  simp [pairs, and_comm, eq_comm]

namespace MachineDefinition

/-- The closed, deterministic machines. -/
structure Valid (definition : MachineDefinition) : Prop where
  states_nodup : definition.states.Nodup
  initial_mem : definition.initialState ∈ definition.states
  from_mem : ∀ rule ∈ definition.transitions, ∀ s ∈ rule.fromStates, s ∈ definition.states
  to_mem : ∀ rule ∈ definition.transitions, rule.toState ∈ definition.states
  /-- No pair occurs twice, counting repetitions inside one rule. -/
  pairs_nodup : (definition.transitions.flatMap TransitionRule.pairs).Nodup

/-- The first loop succeeds on distinct unseen states, and then has seen them all. -/
theorem collectStates_eq_ok_iff {seen states seen' : List StateName} :
    collectStates seen states = .ok seen' ↔
      states.Nodup ∧ (∀ s ∈ states, s ∉ seen) ∧ seen' = states.reverse ++ seen := by
  induction states generalizing seen with
  | nil => simp [collectStates, eq_comm]
  | cons s states ih =>
    unfold collectStates
    split
    · next h => simp [h]
    · next h =>
      rw [ih, List.nodup_cons, List.reverse_cons, List.append_assoc, List.singleton_append]
      constructor
      · rintro ⟨hnd, hunseen, rfl⟩
        refine ⟨⟨fun hs => hunseen s hs List.mem_cons_self, hnd⟩, ?_, rfl⟩
        intro t ht
        rcases List.mem_cons.mp ht with rfl | ht
        · exact h
        · exact fun htseen => hunseen t ht (List.mem_cons_of_mem s htseen)
      · rintro ⟨⟨hs, hnd⟩, hunseen, rfl⟩
        refine ⟨hnd, fun t ht htseen => ?_, rfl⟩
        rcases List.mem_cons.mp htseen with rfl | htseen
        · exact hs ht
        · exact hunseen t (List.mem_cons_of_mem s ht) htseen

/-- The inner loop succeeds on known states whose pairs are distinct and unseen. -/
theorem collectPairs_eq_ok_iff {seenStates froms : List StateName} {event : EventName}
    {pairSeen pairSeen' : List (EventName × StateName)} :
    collectPairs seenStates event pairSeen froms = .ok pairSeen' ↔
      (∀ s ∈ froms, s ∈ seenStates) ∧ froms.Nodup ∧ (∀ s ∈ froms, (event, s) ∉ pairSeen) ∧
        pairSeen' = (froms.map fun s => (event, s)).reverse ++ pairSeen := by
  induction froms generalizing pairSeen with
  | nil => simp [collectPairs, eq_comm]
  | cons s froms ih =>
    unfold collectPairs
    split
    · next h => simp [h]
    · next h =>
      rw [not_not] at h
      split
      · next hseen => simp [hseen]
      · next hseen =>
        rw [ih, List.nodup_cons, List.map_cons, List.reverse_cons, List.append_assoc,
          List.singleton_append]
        -- The rest of the loop runs with `(event, s)` marked as seen: that it meets no pair twice
        -- is what keeps `s` out of the rest of the list.
        constructor
        · rintro ⟨hknown, hnd, hunseen, rfl⟩
          refine ⟨?_, ⟨fun hs => hunseen s hs List.mem_cons_self, hnd⟩, ?_, rfl⟩
          · intro t ht
            rcases List.mem_cons.mp ht with rfl | ht
            · exact h
            · exact hknown t ht
          · intro t ht
            rcases List.mem_cons.mp ht with rfl | ht
            · exact hseen
            · exact fun hm => hunseen t ht (List.mem_cons_of_mem _ hm)
        · rintro ⟨hknown, ⟨hs, hnd⟩, hunseen, rfl⟩
          refine ⟨fun t ht => hknown t (List.mem_cons_of_mem s ht), hnd, fun t ht hm => ?_, rfl⟩
          rcases List.mem_cons.mp hm with heq | hm
          · exact hs ((Prod.mk.inj heq).2 ▸ ht)
          · exact hunseen t (List.mem_cons_of_mem s ht) hm

/-- The outer loop succeeds exactly on closed rules whose pairs are globally distinct and disjoint
from the ones already seen. -/
theorem checkRules_eq_ok_iff {seenStates : List StateName} {rules : List TransitionRule}
    {pairSeen : List (EventName × StateName)} :
    checkRules seenStates pairSeen rules = .ok () ↔
      (∀ rule ∈ rules, ∀ s ∈ rule.fromStates, s ∈ seenStates) ∧
      (∀ rule ∈ rules, rule.toState ∈ seenStates) ∧
      (rules.flatMap TransitionRule.pairs).Nodup ∧
      (∀ p ∈ rules.flatMap TransitionRule.pairs, p ∉ pairSeen) := by
  induction rules generalizing pairSeen with
  | nil => simp [checkRules]
  | cons rule rules ih =>
    have hpairs : rule.pairs.Nodup ↔ rule.fromStates.Nodup :=
      List.nodup_map_iff fun a b h => (Prod.mk.inj h).2
    unfold checkRules
    cases hc : collectPairs seenStates rule.event pairSeen rule.fromStates with
    | error e =>
      -- the inner loop refuses, so one of its three conditions on this rule fails
      refine iff_of_false (by simp [bind, Except.bind]) ?_
      rintro ⟨hfrom, -, hnd, hunseen⟩
      rw [List.flatMap_cons, List.nodup_append] at hnd
      have hok : collectPairs seenStates rule.event pairSeen rule.fromStates
          = .ok ((rule.fromStates.map fun s => (rule.event, s)).reverse ++ pairSeen) := by
        refine collectPairs_eq_ok_iff.mpr ⟨hfrom rule List.mem_cons_self, hpairs.mp hnd.1, ?_, rfl⟩
        intro s hs
        refine hunseen _ (List.mem_flatMap.mpr ⟨rule, List.mem_cons_self, ?_⟩)
        exact List.mem_map.mpr ⟨s, hs, rfl⟩
      rw [hc] at hok
      exact absurd hok (by simp)
    | ok pairSeen' =>
      obtain ⟨hknown, hnd, hunseen, rfl⟩ := collectPairs_eq_ok_iff.mp hc
      simp only [bind, Except.bind]
      split
      · next hto =>
        refine iff_of_false (by simp) ?_
        rintro ⟨-, htos, -⟩
        exact hto (htos rule List.mem_cons_self)
      · next hto =>
        rw [not_not] at hto
        rw [ih, List.flatMap_cons, List.nodup_append]
        simp only [List.forall_mem_cons, List.mem_append, List.mem_reverse]
        constructor
        · rintro ⟨hfrom, htos, hnd', hun⟩
          refine ⟨⟨hknown, hfrom⟩, ⟨hto, htos⟩, ⟨hpairs.mpr hnd, hnd', ?_⟩, ?_⟩
          · rintro p hp q hq rfl
            exact hun p hq (Or.inl hp)
          · rintro p (hp | hp)
            · obtain ⟨s, hs, rfl⟩ := List.mem_map.mp hp
              exact hunseen s hs
            · exact fun hm => hun p hp (Or.inr hm)
        · rintro ⟨⟨-, hfrom⟩, ⟨-, htos⟩, ⟨-, hnd', hdisj⟩, hun⟩
          refine ⟨hfrom, htos, hnd', ?_⟩
          rintro p hp (hm | hm)
          · exact hdisj p hm p hp rfl
          · exact hun p (Or.inr hp) hm

/-- **What `validate` accepts**: exactly the closed, deterministic machines. -/
theorem validate_eq_ok_iff {definition : MachineDefinition} :
    definition.validate = .ok () ↔ definition.Valid := by
  unfold validate
  cases hc : collectStates [] definition.states with
  | error e =>
    refine iff_of_false (by simp [bind, Except.bind]) ?_
    intro hv
    have hok := collectStates_eq_ok_iff.mpr
      ⟨hv.states_nodup, fun _ _ => List.not_mem_nil, rfl⟩
    rw [hc] at hok
    exact absurd hok (by simp)
  | ok seen =>
    obtain ⟨hnd, -, rfl⟩ := collectStates_eq_ok_iff.mp hc
    simp only [bind, Except.bind, List.append_nil, List.mem_reverse]
    split
    · next hinit => exact iff_of_false (by simp) fun hv => hinit hv.initial_mem
    · next hinit =>
      rw [not_not] at hinit
      rw [checkRules_eq_ok_iff]
      simp only [List.mem_reverse, List.not_mem_nil, not_false_eq_true, implies_true, and_true]
      exact ⟨fun h => ⟨hnd, hinit, h.1, h.2.1, h.2.2⟩,
        fun hv => ⟨hv.from_mem, hv.to_mem, hv.pairs_nodup⟩⟩

/-- In a list of rules whose pairs are distinct, a rule that answers is the only one that does. -/
theorem filter_answers_of_nodup {rules : List TransitionRule} {rule : TransitionRule}
    {s : StateName} {event : EventName} (hnd : (rules.flatMap TransitionRule.pairs).Nodup)
    (hmem : rule ∈ rules) (hans : rule.answers s event = true) :
    (rules.filter fun r => r.answers s event) = [rule] := by
  induction rules with
  | nil => exact absurd hmem List.not_mem_nil
  | cons r rules ih =>
    rw [List.flatMap_cons, List.nodup_append] at hnd
    obtain ⟨-, hnd', hdisj⟩ := hnd
    by_cases hr : r.answers s event = true
    · -- `r` answers, so its pair cannot come back in the tail
      have hnone : ∀ r' ∈ rules, ¬ r'.answers s event = true := by
        intro r' hr' hans'
        refine hdisj (event, s) (TransitionRule.mem_pairs_iff.mpr hr) (event, s) ?_ rfl
        exact List.mem_flatMap.mpr ⟨r', hr', TransitionRule.mem_pairs_iff.mpr hans'⟩
      have hrule : rule = r := by
        rcases List.mem_cons.mp hmem with h | h
        · exact h
        · exact absurd hans (hnone rule h)
      rw [List.filter_cons, if_pos hr, List.filter_eq_nil_iff.mpr hnone, hrule]
    · have hrule : rule ∈ rules := by
        rcases List.mem_cons.mp hmem with rfl | h
        · exact absurd hans hr
        · exact h
      rw [List.filter_cons, if_neg hr]
      exact ih hnd' hrule

/-- **Determinism of a valid machine**: a rule that answers is the only one that does. -/
theorem Valid.filter_answers {definition : MachineDefinition} (hv : definition.Valid)
    {rule : TransitionRule} {s : StateName} {event : EventName}
    (hmem : rule ∈ definition.transitions) (hans : rule.answers s event = true) :
    (definition.transitions.filter fun r => r.answers s event) = [rule] :=
  filter_answers_of_nodup hv.pairs_nodup hmem hans

end MachineDefinition

end StateMaster
