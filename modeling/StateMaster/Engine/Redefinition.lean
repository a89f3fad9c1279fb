import StateMaster.Engine.Legality

/-!
# Redefinitions while a call is under way

A call decides by the definition it read, and commits later; `define_machine` takes no lock, so the
definition may have been replaced in between. `Decided` says of a record which call read which
definition at which moment, and what it planned from it; `decided_of_run` gives this for every
record of the log.

* `Label.defines` — the definition a label stores for a machine, if it stores one;
* `redefinitions` — the definitions stored for a machine between two moments;
* `allowed_at_commit_iff` — a record is allowed by the definition stored when it was committed
  exactly if the last of the redefinitions since the read allows it.
-/

open Framework Framework.Text

namespace StateMaster

/-- The definition has a rule for the move of a record. -/
def MachineDefinition.Allows (definition : MachineDefinition) (r : TransitionRecord) : Prop :=
  ∃ rule ∈ definition.transitions, rule.event = r.event ∧ r.fromState ∈ rule.fromStates ∧
    rule.toState = r.toState

instance (definition : MachineDefinition) (r : TransitionRecord) :
    Decidable (definition.Allows r) :=
  inferInstanceAs (Decidable (∃ rule ∈ definition.transitions, _ ∧ _ ∧ _))

/-- The definition a step stores for machine `name`: a `define_machine` call that is not refused
and meets no fault. -/
def Label.defines (name : MachineName) : Label → Option MachineDefinition
  | .defineMachine definition none =>
    if definition.validate = .ok () ∧ definition.name = name then some definition.stored else none
  | _ => none

theorem Label.defines_eq_some_iff {name : MachineName} {l : Label}
    {stored : MachineDefinition} : l.defines name = some stored ↔
      ∃ definition, l = .defineMachine definition none ∧ definition.validate = .ok () ∧
        definition.name = name ∧ definition.stored = stored := by
  fun_cases Label.defines name l <;> grind

/-- The definitions stored for machine `name` by the labels from `b` up to `t`. -/
def redefinitions (name : MachineName) (ls : List Label) (b t : ℕ) : List MachineDefinition :=
  ((ls.take t).drop b).filterMap (Label.defines name)

section Moments

variable (cfg : Config) (w₀ : World) (ls : List Label)

/-- The stored definition of machine `name` at `t`. -/
def StoredAt (name : MachineName) (definition : MachineDefinition) (t : ℕ) : Prop :=
  ∃ w, (engine cfg).stateAt w₀ ls t = some w ∧ w.store.machines[name]? = some definition

/-- The step of call `i` at `b` is the read of its definition. -/
structure ReadAt (i : ℕ) (c : Call) (definition : MachineDefinition) (b : ℕ) : Prop where
  step : ls[b]? = some (.step i)
  missed : ∃ w, (engine cfg).stateAt w₀ ls b = some w ∧ w.calls i = .missed c
  stored : StoredAt cfg w₀ ls c.machine definition b
  defined : ∃ w, (engine cfg).stateAt w₀ ls (b + 1) = some w ∧ w.calls i = .defined c definition

/-- Call `i` decided on `r` by the definition it read at `b`, and committed it at `t`. -/
structure Decided (r : TransitionRecord) (i : ℕ) (c : Call) (definition : MachineDefinition)
    (current : Current) (rule : TransitionRule) (b t : ℕ) : Prop where
  read : ReadAt cfg w₀ ls i c definition b
  lt : b < t
  rule_mem : rule ∈ definition.transitions
  answers : rule.answers current.state c.event = true
  planned : ∃ w, (engine cfg).stateAt w₀ ls t = some w ∧
    w.calls i = .planned c (Engine.buildPlan c definition current rule)
  committed : CommittedAt cfg w₀ ls i r t
  record : r = { (Engine.buildPlan c definition current rule).record with sequence := r.sequence }

/-- The definition a call has in hand is one it read. -/
def DecisionFact (i : ℕ) : Pc → Prop
  | .defined c definition => ∃ b, ReadAt cfg w₀ ls i c definition b
  | .read c definition _ => ∃ b, ReadAt cfg w₀ ls i c definition b
  | .planned c plan => ∃ definition current rule b, ReadAt cfg w₀ ls i c definition b ∧
    rule ∈ definition.transitions ∧ rule.answers current.state c.event = true ∧
    plan = Engine.buildPlan c definition current rule
  | _ => True

structure DecisionInvariant (w : World) : Prop where
  calls : ∀ i, DecisionFact cfg w₀ ls i (w.calls i)
  records : ∀ r ∈ w.store.log, ∃ i c definition current rule b t,
    Decided cfg w₀ ls r i c definition current rule b t

end Moments

/-! ### Moments survive in a longer run -/

section Extend

variable {cfg : Config} {w₀ : World} {ls : List Label} {i : ℕ} {c : Call}
  {definition : MachineDefinition}

theorem ReadAt.lt_length {b : ℕ} (h : ReadAt cfg w₀ ls i c definition b) : b < ls.length :=
  lt_length_of_label h.step

theorem ReadAt.extend {b : ℕ} (h : ReadAt cfg w₀ ls i c definition b) (l : Label) :
    ReadAt cfg w₀ (ls ++ [l]) i c definition b where
  step := label_extend h.step l
  missed := by
    rw [System.stateAt_append h.lt_length.le]
    exact h.missed
  stored := by
    unfold StoredAt
    rw [System.stateAt_append h.lt_length.le]
    exact h.stored
  defined := by
    rw [System.stateAt_append h.lt_length]
    exact h.defined

theorem Decided.extend {r : TransitionRecord} {current : Current} {rule : TransitionRule}
    {b t : ℕ} (h : Decided cfg w₀ ls r i c definition current rule b t) (l : Label) :
    Decided cfg w₀ (ls ++ [l]) r i c definition current rule b t where
  read := h.read.extend l
  lt := h.lt
  rule_mem := h.rule_mem
  answers := h.answers
  planned := by
    rw [System.stateAt_append (lt_length_of_label h.committed.step).le]
    exact h.planned
  committed := h.committed.extend l
  record := h.record

theorem DecisionFact.extend {pc : Pc} (h : DecisionFact cfg w₀ ls i pc) (l : Label) :
    DecisionFact cfg w₀ (ls ++ [l]) i pc := by
  cases pc with
  | defined c definition | read c definition current =>
    obtain ⟨b, hread⟩ := h
    exact ⟨b, hread.extend l⟩
  | planned c plan =>
    obtain ⟨definition, current, rule, b, hread, hplan⟩ := h
    exact ⟨definition, current, rule, b, hread.extend l, hplan⟩
  | _ => exact trivial

end Extend

/-! ### Steps and runs -/

section Step

variable {cfg : Config} {w₀ w w' : World} {ls : List Label} {l : Label}

theorem DecisionInvariant.calls_step (hw : DecisionInvariant cfg w₀ ls w)
    (hrun : (engine cfg).exec w₀ ls = some w) (hstep : (engine cfg).step w l = some w') :
    ∀ i, DecisionFact cfg w₀ (ls ++ [l]) i (w'.calls i) := by
  have hold : ∀ j, DecisionFact cfg w₀ (ls ++ [l]) j (w.calls j) := fun j => (hw.calls j).extend l
  have hnow := stateAt_length_concat (l := l) hrun
  have hnext := System.stateAt_succ label_length_concat hnow hstep
  cases step_sound hstep with
  | invoke i c hpc | ret i c res hpc => exact World.forall_setPc trivial fun j _ => hold j
  | call i w' h =>
    have hi := hold i
    cases h with
    | define c definition hpc hdef =>
      -- this is the read
      refine World.forall_setPc ⟨ls.length, label_length_concat, ⟨w, hnow, hpc⟩,
        ⟨w, hnow, Engine.readDefinition_eq_ok hdef⟩, _, hnext, ?_⟩ fun j _ => hold j
      exact World.setPc_calls_self ..
    | read c definition current hpc hread =>
      -- the definition stays in hand
      rw [hpc] at hi
      exact World.forall_setPc hi fun j _ => hold j
    | plan c definition current plan hpc hplan =>
      rw [hpc] at hi
      obtain ⟨b, hread⟩ := hi
      obtain ⟨rule, hmem, hans, -, hbuild⟩ := Engine.planRequest_eq_ok hplan
      exact World.forall_setPc ⟨definition, current, rule, b, hread, hmem, hans, hbuild⟩
        fun j _ => hold j
    | _ => exact World.forall_setPc trivial fun j _ => hold j
  | _ => exact hold

theorem DecisionInvariant.records_step (hw : DecisionInvariant cfg w₀ ls w)
    (hlog : LogInvariant w.store) (hrun : (engine cfg).exec w₀ ls = some w)
    (hstep : (engine cfg).step w l = some w') :
    ∀ r ∈ w'.store.log, ∃ i c definition current rule b t,
      Decided cfg w₀ (ls ++ [l]) r i c definition current rule b t := by
  intro r hr
  have hold : r ∈ w.store.log → ∃ i c definition current rule b t,
      Decided cfg w₀ (ls ++ [l]) r i c definition current rule b t := by
    intro hmem
    obtain ⟨i, c, definition, current, rule, b, t, hdec⟩ := hw.records r hmem
    exact ⟨i, c, definition, current, rule, b, t, hdec.extend l⟩
  cases step_sound hstep with
  | call i w' h =>
    cases h with
    | commit c plan res S' hpc hcommit =>
      have hc := (Engine.commitPlan_eq_ok hcommit).2.1
      change r ∈ S'.log at hr
      rw [hc.appends.log hlog, List.mem_append, List.mem_singleton] at hr
      obtain hmem | rfl := hr
      · exact hold hmem
      · -- the new record is the one that was planned from the definition in hand
        have hfact := hw.calls i
        rw [hpc] at hfact
        obtain ⟨definition, current, rule, b, hread, hmem, hans, rfl⟩ := hfact
        exact ⟨i, c, definition, current, rule, b, ls.length, hread.extend _, hread.lt_length,
          hmem, hans, ⟨w, stateAt_length_concat hrun, hpc⟩, .of_commit hrun hstep hlog hc, rfl⟩
    | _ => exact hold hr
  | _ => exact hold hr

end Step

section Run

variable {cfg : Config} {guards : GuardRegistry} {ls : List Label} {w : World}

theorem decisionInvariant_of_run
    (hrun : (engine cfg).exec (World.initial Store.empty guards) ls = some w) :
    DecisionInvariant cfg (World.initial Store.empty guards) ls w := by
  refine System.exec_induction_labels
    ⟨fun _ => trivial, fun r hr => absurd hr List.not_mem_nil⟩ ?_ hrun
  intro ls w l w' hrun hw hstep
  exact ⟨hw.calls_step hrun hstep,
    hw.records_step (projectionInvariant_of_run hrun).log hrun hstep⟩

/-- **Every record was decided by the definition its call read.** -/
theorem decided_of_run (hrun : (engine cfg).exec (World.initial Store.empty guards) ls = some w)
    {r : TransitionRecord} (hr : r ∈ w.store.log) : ∃ i c definition current rule b t,
      Decided cfg (World.initial Store.empty guards) ls r i c definition current rule b t :=
  (decisionInvariant_of_run hrun).records r hr

end Run

/-! ### What is stored when a record is committed -/

/-- The definition of a machine after a step is the one the step stores, or the one before it. -/
theorem get_machines_of_step {cfg : Config} {w w' : World} {l : Label} (name : MachineName)
    (hstep : (engine cfg).step w l = some w') :
    w'.store.machines[name]? = (l.defines name).or w.store.machines[name]? := by
  by_cases hl : ∃ definition, l = .defineMachine definition none ∧ definition.validate = .ok ()
  · obtain ⟨definition, rfl, hvalid⟩ := hl
    have hdef : Engine.defineMachine w.store definition none
        = .ok (RedbEngine.storeMachine w.store definition) :=
      Engine.defineMachine_eq_ok_iff.mpr ⟨hvalid, rfl, rfl⟩
    simp only [engine, World.step, hdef] at hstep
    obtain rfl := Option.some.inj hstep
    change (w.store.machines.insert definition.name definition.stored)[name]? = _
    rw [Table.get_insert]
    simp only [Label.defines, hvalid, true_and]
    split
    · rfl
    · rw [Option.none_or]
  · -- the label defines nothing, and no other step writes the table
    have hnone : l.defines name = none := by
      rw [Option.eq_none_iff_forall_not_mem]
      intro stored hmem
      obtain ⟨definition, rfl, hvalid, -⟩ := Label.defines_eq_some_iff.mp hmem
      exact hl ⟨definition, rfl, hvalid⟩
    rw [hnone, Option.none_or]
    cases step_sound hstep with
    | define definition hvalid => exact absurd ⟨definition, rfl, hvalid⟩ hl
    | call i w' h =>
      cases h with
      | commit c plan res S' hpc hcommit =>
        exact congrArg (·[name]?) (Engine.commitPlan_eq_ok hcommit).2.1.machines
      | _ => rfl
    | _ => rfl

/-- A stored definition was defined along the run. -/
theorem defined_of_stored {cfg : Config} {guards : GuardRegistry} {ls : List Label} {w : World}
    (hrun : (engine cfg).exec (World.initial Store.empty guards) ls = some w) {name : MachineName}
    {stored : MachineDefinition} (h : w.store.machines[name]? = some stored) :
    ∃ definition, Label.defineMachine definition none ∈ ls ∧ definition.stored = stored := by
  refine System.exec_induction_labels (I := fun ls w => w.store.machines[name]? = some stored →
    ∃ definition, Label.defineMachine definition none ∈ ls ∧ definition.stored = stored)
    (fun hnone => ?_) ?_ hrun h
  · change (∅ : Table MachineName MachineDefinition)[name]? = some stored at hnone
    exact absurd hnone (by simp)
  · intro ls w l w' _ ih hstep hget
    rw [get_machines_of_step name hstep, Option.or_eq_some_iff] at hget
    obtain hdef | ⟨-, hold⟩ := hget
    · obtain ⟨definition, rfl, -, -, heq⟩ := Label.defines_eq_some_iff.mp hdef
      exact ⟨definition, List.mem_append_right _ (List.mem_singleton_self _), heq⟩
    · obtain ⟨definition, hmem, heq⟩ := ih hold
      exact ⟨definition, List.mem_append_left _ hmem, heq⟩

theorem Decided.allows {cfg : Config} {w₀ : World} {ls : List Label} {r : TransitionRecord} {i : ℕ}
    {c : Call} {definition : MachineDefinition} {current : Current} {rule : TransitionRule}
    {b t : ℕ} (h : Decided cfg w₀ ls r i c definition current rule b t) : definition.Allows r := by
  obtain ⟨hevent, hfrom⟩ := TransitionRule.answers_iff.mp h.answers
  refine ⟨rule, h.rule_mem, ?_⟩
  rw [h.record]
  exact ⟨hevent, hfrom, rfl⟩

section Superseded

variable {cfg : Config} {guards : GuardRegistry} {ls : List Label} {w : World}

/-- **No commit under a superseded definition, unless the last redefinition since the read has no
rule for it.** Every record was allowed by the definition its call read at `b`. It is allowed by the
definition stored at its commit `t` exactly if there was no redefinition of its machine in between,
or the last of them allows it. -/
theorem allowed_at_commit_iff
    (hrun : (engine cfg).exec (World.initial Store.empty guards) ls = some w)
    {r : TransitionRecord} (hr : r ∈ w.store.log) :
    ∃ (i : ℕ) (c : Call) (definition : MachineDefinition) (b t : ℕ), b < t ∧
      ReadAt cfg (World.initial Store.empty guards) ls i c definition b ∧
      CommittedAt cfg (World.initial Store.empty guards) ls i r t ∧
      c.machine = r.machine ∧ definition.Allows r ∧
      ((∃ stored, StoredAt cfg (World.initial Store.empty guards) ls r.machine stored t ∧
          stored.Allows r) ↔
        ∀ last ∈ (redefinitions r.machine ls b t).getLast?, last.Allows r) := by
  obtain ⟨i, c, definition, current, rule, b, t, hdec⟩ := decided_of_run hrun hr
  have hmachine : c.machine = r.machine := by rw [hdec.record]; rfl
  refine ⟨i, c, definition, b, t, hdec.lt, hdec.read, hdec.committed, hmachine, hdec.allows, ?_⟩
  obtain ⟨wb, hwb, hread⟩ := hdec.read.stored
  obtain ⟨wt, hwt, -⟩ := hdec.committed.before
  have hstored : wt.store.machines[r.machine]?
      = (redefinitions r.machine ls b t).getLast?.or (some definition) := by
    let cell : World → Option MachineDefinition := fun v => v.store.machines[r.machine]?
    have hcell : ∀ v l v', (engine cfg).step v l = some v' →
        cell v' = (l.defines r.machine).or (cell v) :=
      fun _ _ _ => get_machines_of_step r.machine
    rw [← hread, hmachine]
    exact System.stateAt_last_write hcell hdec.lt.le hwb hwt
  -- What is stored at the commit is the last redefinition, or still what the call read.
  have hthen : (∃ stored, StoredAt cfg (World.initial Store.empty guards) ls r.machine stored t ∧
      stored.Allows r) ↔ ∃ stored, wt.store.machines[r.machine]? = some stored ∧
        stored.Allows r := by
    refine exists_congr fun stored => and_congr_left fun _ => ?_
    unfold StoredAt
    rw [hwt]
    simp
  rw [hthen, hstored]
  cases (redefinitions r.machine ls b t).getLast? with
  | none => simpa using hdec.allows
  | some last => simp

/-- The order machine with its payment taken out. -/
def closedMachine : MachineDefinition :=
  { orderMachine with
    version := 2
    transitions := [⟨"cancel", ["pending"], "paid", []⟩]
    effects := [] }

/-- A payment that is planned when the machine is defined again by `definition`. -/
def overtakenPayment (definition : MachineDefinition) : List Label :=
  [Label.defineMachine orderMachine none, Label.invoke 0 (payOrder 0 "o1" none)]
  ++ steps 0 6 ++ [Label.defineMachine definition none] ++ steps 0 1

/-- What it puts into the log. -/
def overtakenRecord : TransitionRecord :=
  { (Engine.buildPlan (payOrder 0 "o1" none) orderMachine ⟨"pending", 0, 0⟩
      ⟨"pay", ["pending"], "paid", ["funded"]⟩).record with sequence := 1 }

theorem allowed_at_commit_iff_overtakenPayment :
    ∃ w, (engine oneStripe).exec (World.initial Store.empty ∅) (overtakenPayment orderMachine)
        = some w ∧ overtakenRecord ∈ w.store.log ∧ ∃ i t stored,
      CommittedAt oneStripe (World.initial Store.empty ∅) (overtakenPayment orderMachine) i
        overtakenRecord t ∧
      StoredAt oneStripe (World.initial Store.empty ∅) (overtakenPayment orderMachine) "order"
        stored t ∧ stored.Allows overtakenRecord := by
  have heval : ((engine oneStripe).exec (World.initial Store.empty ∅)
    (overtakenPayment orderMachine)).map (fun w => w.store.log) = some [overtakenRecord] := by decide
  obtain ⟨w, hrun, hlog⟩ := Option.map_eq_some_iff.mp heval
  have hr : overtakenRecord ∈ w.store.log := by rw [hlog]; exact List.mem_singleton_self _
  obtain ⟨i, c, _, b, t, -, -, ht, -, -, hiff⟩ := allowed_at_commit_iff hrun hr
  -- Whichever of the two definitions comes last, it is the same.
  obtain ⟨stored, hstored, hallows⟩ := hiff.mpr fun last hlast => by
    obtain ⟨l, hl, hdef⟩ := List.mem_filterMap.mp (List.mem_of_getLast? hlast)
    obtain ⟨definition, rfl, -, -, rfl⟩ := Label.defines_eq_some_iff.mp hdef
    have hmem := List.mem_of_mem_take (List.mem_of_mem_drop hl)
    obtain rfl : definition = orderMachine := by simpa [overtakenPayment, steps] using hmem
    decide
  exact ⟨w, hrun, hr, i, t, stored, ht, hstored, hallows⟩

/-- **A commit under a superseded definition**: the payment is closed before the planned one
commits, and goes into the log all the same. -/
theorem overtakenPayment_not_allowed :
    ∃ w r, (engine oneStripe).exec (World.initial Store.empty ∅) (overtakenPayment closedMachine)
        = some w ∧ r ∈ w.store.log ∧
      CommittedAt oneStripe (World.initial Store.empty ∅) (overtakenPayment closedMachine) 0 r 9 ∧
      ¬ ∃ stored, StoredAt oneStripe (World.initial Store.empty ∅)
          (overtakenPayment closedMachine) r.machine stored 9 ∧ stored.Allows r := by
  have hbefore : ((engine oneStripe).stateAt (World.initial Store.empty ∅)
      (overtakenPayment closedMachine) 9).map
      (fun w => (w.store.machines["order"]?, w.store.transitions[1]?))
        = some (some closedMachine, none) := by decide
  have hafter : ((engine oneStripe).stateAt (World.initial Store.empty ∅)
      (overtakenPayment closedMachine) 10).map (fun w => w.store.transitions[1]?)
        = some (some overtakenRecord) := by decide
  obtain ⟨wt, hwt, heq⟩ := Option.map_eq_some_iff.mp hbefore
  obtain ⟨hstored, hnone⟩ := Prod.mk.inj heq
  obtain ⟨w, hw, hlogged⟩ := Option.map_eq_some_iff.mp hafter
  refine ⟨w, overtakenRecord, hw, mem_log.mpr ⟨1, hlogged⟩, ⟨rfl, ⟨wt, hwt, hnone⟩, w, hw,
    hlogged⟩, ?_⟩
  rintro ⟨stored, ⟨wt', hwt', hstored'⟩, hallows⟩
  obtain rfl := Option.some.inj (hwt.symm.trans hwt')
  obtain rfl := Option.some.inj (hstored.symm.trans hstored')
  exact absurd hallows (by decide)

end Superseded

end StateMaster
