import StateMaster.Engine.Projection

/-!
# Every logged transition is legal

A call reads its definition at one moment, has its guards evaluated at a later one and commits at
a third, and the definition and the guards may be replaced in between. What can be said of a record
is therefore said of *moments of the run*, so the invariant knows the labels seen so far:

* `DefinitionRead` — the definition was stored at some moment after the call was invoked;
* `GuardsPassed` — the moment at which the guards of the rule were evaluated;
* `CommittedAt` — the moment at which the record entered the log.

`LegalFact` carries the first two along with the call, and a commit turns them into `LegalRecord`.
The state a record starts from is the one the projection held, hence the end of the preceding
record (`Store.preceding`), by the fold invariant.
-/

open Framework Framework.Text

namespace StateMaster

/-- The record before `r` with the same storage key. -/
def Store.preceding (S : Store) (r : TransitionRecord) : Option TransitionRecord :=
  ((S.entries r.stateKey).filter fun r' => r'.sequence < r.sequence).getLast?

section Moments

variable (cfg : Config) (w₀ : World) (ls : List Label)

/-- Call `i` was invoked with `c` at `a`, and at a moment `b` not before it the stored definition
of its machine was `definition`, which passes validation. -/
structure DefinitionRead (i : ℕ) (c : Call) (definition : MachineDefinition) (a b : ℕ) : Prop where
  invoked : ls[a]? = some (.invoke i c)
  le : a ≤ b
  le_length : b ≤ ls.length
  stored : ∃ w, (engine cfg).stateAt w₀ ls b = some w ∧
    w.store.machines[c.machine]? = some definition
  valid : definition.validate = .ok ()

/-- At `g` call `i` evaluated the guards of `rule`, and those registered then returned `true`. -/
structure GuardsPassed (i : ℕ) (c : Call) (current : Current) (rule : TransitionRule) (g : ℕ) :
    Prop where
  step : ls[g]? = some (.step i)
  passed : ∃ w, (engine cfg).stateAt w₀ ls g = some w ∧
    ∀ name ∈ rule.guards, ∀ f, w.guards[name]? = some f →
      f (Engine.guardState c current) c.ctx = true

/-- The step of call `i` at `t` put `r` into the log. -/
structure CommittedAt (i : ℕ) (r : TransitionRecord) (t : ℕ) : Prop where
  step : ls[t]? = some (.step i)
  before : ∃ w, (engine cfg).stateAt w₀ ls t = some w ∧ w.store.transitions[r.sequence]? = none
  after : ∃ w, (engine cfg).stateAt w₀ ls (t + 1) = some w ∧
    w.store.transitions[r.sequence]? = some r

/-- What a call has gathered on its way to the commit. -/
def LegalFact (S : Store) (i : ℕ) : Pc → Prop
  | .idle => True
  | .defined c definition => ∃ a b, DefinitionRead cfg w₀ ls i c definition a b
  | .read c definition current => (∃ a b, DefinitionRead cfg w₀ ls i c definition a b) ∧
    (S.entityStates[c.stateKey]? = none → current.state = definition.initialState)
  | .planned c plan => ∃ definition current rule a b g,
    plan = Engine.buildPlan c definition current rule ∧ rule ∈ definition.transitions ∧
    rule.answers current.state c.event = true ∧ DefinitionRead cfg w₀ ls i c definition a b ∧
    b ≤ g ∧ GuardsPassed cfg w₀ ls i c current rule g ∧
    (S.entityStates[c.stateKey]? = none → current.state = definition.initialState)
  | pc => ∀ c, pc.call = some c → ∃ a : ℕ, ls[a]? = some (.invoke i c)

/-- How a record came into the log. -/
def LegalRecord (S : Store) (r : TransitionRecord) : Prop :=
  ∃ i c definition current rule a b g t, DefinitionRead cfg w₀ ls i c definition a b ∧ b ≤ g ∧
    GuardsPassed cfg w₀ ls i c current rule g ∧ g ≤ t ∧ CommittedAt cfg w₀ ls i r t ∧
    (c.entityId = r.entityId ∧ c.machine = r.machine ∧ current.state = r.fromState) ∧
    definition.transitions.filter (fun rule => rule.answers r.fromState r.event) = [rule] ∧
    rule.toState = r.toState ∧ r.toState ∈ definition.states ∧
    r.fromState = (S.preceding r).elim definition.initialState TransitionRecord.toState

structure LegalInvariant (w : World) : Prop where
  valid : ∀ (name : MachineName) (definition : MachineDefinition),
    w.store.machines[name]? = some definition → definition.validate = .ok ()
  calls : ∀ i, LegalFact cfg w₀ ls w.store i (w.calls i)
  records : ∀ r ∈ w.store.log, LegalRecord cfg w₀ ls w.store r

end Moments

/-! ### Moments survive in a longer run -/

section Extend

variable {cfg : Config} {w₀ : World} {ls : List Label} {i : ℕ} {c : Call}

/-- A label of a run is at a position inside it. -/
theorem lt_length_of_label {n : ℕ} {l : Label} (h : ls[n]? = some l) : n < ls.length :=
  (List.getElem?_eq_some_iff.mp h).1

theorem label_extend {n : ℕ} {l : Label} (h : ls[n]? = some l) (l' : Label) :
    (ls ++ [l'])[n]? = some l := by
  rw [List.getElem?_append_left (lt_length_of_label h)]
  exact h

theorem DefinitionRead.extend {definition : MachineDefinition} {a b : ℕ}
    (h : DefinitionRead cfg w₀ ls i c definition a b) (l : Label) :
    DefinitionRead cfg w₀ (ls ++ [l]) i c definition a b where
  invoked := label_extend h.invoked l
  le := h.le
  le_length := by
    rw [List.length_append]
    exact h.le_length.trans (Nat.le_add_right _ _)
  stored := by
    rw [System.stateAt_append h.le_length]
    exact h.stored
  valid := h.valid

theorem GuardsPassed.extend {current : Current} {rule : TransitionRule} {g : ℕ}
    (h : GuardsPassed cfg w₀ ls i c current rule g) (l : Label) :
    GuardsPassed cfg w₀ (ls ++ [l]) i c current rule g where
  step := label_extend h.step l
  passed := by
    rw [System.stateAt_append (lt_length_of_label h.step).le]
    exact h.passed

theorem CommittedAt.extend {r : TransitionRecord} {t : ℕ} (h : CommittedAt cfg w₀ ls i r t)
    (l : Label) : CommittedAt cfg w₀ (ls ++ [l]) i r t where
  step := label_extend h.step l
  before := by
    rw [System.stateAt_append (lt_length_of_label h.step).le]
    exact h.before
  after := by
    rw [System.stateAt_append (lt_length_of_label h.step)]
    exact h.after

/-- What a call has gathered stays gathered: a row that is missing now was missing before. -/
theorem LegalFact.extend {S S' : Store} {pc : Pc} (h : LegalFact cfg w₀ ls S i pc) (l : Label)
    (hrows : ∀ k : String, S'.entityStates[k]? = none → S.entityStates[k]? = none) :
    LegalFact cfg w₀ (ls ++ [l]) S' i pc := by
  cases pc with
  | idle => exact trivial
  | defined c definition =>
    obtain ⟨a, b, hd⟩ := h
    exact ⟨a, b, hd.extend l⟩
  | read c definition current =>
    obtain ⟨⟨a, b, hd⟩, hinit⟩ := h
    exact ⟨⟨a, b, hd.extend l⟩, fun hn => hinit (hrows _ hn)⟩
  | planned c plan =>
    obtain ⟨definition, current, rule, a, b, g, hplan, hmem, hans, hd, hbg, hg, hinit⟩ := h
    exact ⟨definition, current, rule, a, b, g, hplan, hmem, hans, hd.extend l, hbg, hg.extend l,
      fun hn => hinit (hrows _ hn)⟩
  | _ =>
    intro c' hc'
    obtain ⟨a, ha⟩ := h c' hc'
    exact ⟨a, label_extend ha l⟩

/-- Every fact says when the call was invoked. -/
theorem LegalFact.invoked {S : Store} {pc : Pc} (h : LegalFact cfg w₀ ls S i pc)
    (hc : pc.call = some c) : ∃ a : ℕ, ls[a]? = some (.invoke i c) := by
  cases pc with
  | idle => exact absurd hc (by simp [Pc.call])
  | defined c' definition =>
    obtain rfl := Option.some.inj hc
    obtain ⟨a, b, hd⟩ := h
    exact ⟨a, hd.invoked⟩
  | read c' definition current =>
    obtain rfl := Option.some.inj hc
    obtain ⟨⟨a, b, hd⟩, -⟩ := h
    exact ⟨a, hd.invoked⟩
  | planned c' plan =>
    obtain rfl := Option.some.inj hc
    obtain ⟨_, _, _, a, _, _, _, _, _, hd, _⟩ := h
    exact ⟨a, hd.invoked⟩
  | _ => exact h c hc

end Extend

/-! ### The preceding record -/

/-- Later appends do not change what precedes a record. -/
theorem Appends.preceding {S S' : Store} {record : TransitionRecord} (h : Appends S record S')
    (hS : LogInvariant S) {r : TransitionRecord} (hr : r ∈ S.log) :
    S'.preceding r = S.preceding r := by
  obtain ⟨s, hs⟩ := mem_log.mp hr
  have hle : r.sequence ≤ S.sequence := by
    rw [hS.sequence_eq s r hs]
    exact (hS.le_sequence hs).2
  unfold Store.preceding Store.entries
  rw [h.log hS, List.filter_append, List.filter_append]
  -- The new record is past `r`, so whichever way the key test goes the second filter drops it.
  have hnil : ((([{ record with sequence := S.sequence + 1 }] : List TransitionRecord).filter
      fun r' => r'.stateKey == r.stateKey).filter fun r' => r'.sequence < r.sequence) = [] := by
    rw [List.filter_eq_nil_iff]
    intro r' hr'
    obtain rfl := List.mem_singleton.mp (List.mem_of_mem_filter hr')
    simp only [decide_eq_true_eq]
    omega
  rw [hnil, List.append_nil]

/-- What precedes a record just appended is the last record of its key so far. -/
theorem Appends.preceding_self {S S' : Store} {record : TransitionRecord}
    (h : Appends S record S') (hS : LogInvariant S) :
    S'.preceding { record with sequence := S.sequence + 1 }
      = (S.entries record.stateKey).getLast? := by
  have hlt : ∀ r' ∈ S.log, r'.sequence < S.sequence + 1 := by
    intro r' hr'
    obtain ⟨s, hs⟩ := mem_log.mp hr'
    rw [hS.sequence_eq s r' hs]
    exact Nat.lt_succ_of_le (hS.le_sequence hs).2
  unfold Store.preceding Store.entries
  rw [h.log hS, List.filter_append, List.filter_append]
  have hnew : ((([{ record with sequence := S.sequence + 1 }] : List TransitionRecord).filter
      fun r' => r'.stateKey == record.stateKey).filter
      fun r' => r'.sequence < S.sequence + 1) = [] := by
    rw [List.filter_eq_nil_iff]
    intro r' hr'
    obtain rfl := List.mem_singleton.mp (List.mem_of_mem_filter hr')
    simp
  have hold : ((S.log.filter fun r' => r'.stateKey == record.stateKey).filter
      fun r' => r'.sequence < S.sequence + 1)
      = S.log.filter fun r' => r'.stateKey == record.stateKey := by
    rw [List.filter_eq_self]
    intro r' hr'
    exact decide_eq_true (hlt r' (List.mem_of_mem_filter hr'))
  exact congrArg List.getLast? ((congrArg₂ _ hold hnew).trans (List.append_nil _))

/-! ### Steps and runs -/

/-- What a step does to the stored definitions: nothing, or one that passed validation enters. -/
theorem Step.machines_cases {cfg : Config} {w w' : World} {l : Label} (h : Step cfg w l w') :
    w'.store.machines = w.store.machines ∨
    ∃ definition : MachineDefinition, definition.validate = .ok () ∧
      w'.store.machines = w.store.machines.insert definition.name definition.stored := by
  cases h with
  | define definition hvalid => exact Or.inr ⟨definition, hvalid, rfl⟩
  | call i w' h =>
    cases h with
    | commit c plan res S' hpc hcommit =>
      exact Or.inl (Engine.commitPlan_eq_ok hcommit).2.1.machines
    | _ => exact Or.inl rfl
  | _ => exact Or.inl rfl

/-- Rows are never removed. -/
theorem Step.row_none {cfg : Config} {w w' : World} {l : Label} (h : Step cfg w l w')
    {k : String} (hn : w'.store.entityStates[k]? = none) : w.store.entityStates[k]? = none := by
  rcases h.store_cases with ⟨-, hrows⟩ | ⟨i, c, plan, -, hcommit⟩
  · rwa [hrows] at hn
  · rw [hcommit.entityStates, Table.get_insert] at hn
    split at hn
    · exact absurd hn (by simp)
    · exact hn

section Step

variable {cfg : Config} {w₀ w w' : World} {ls : List Label} {l : Label}

theorem LegalInvariant.valid_step (hw : LegalInvariant cfg w₀ ls w) (h : Step cfg w l w')
    {name : MachineName} {definition : MachineDefinition}
    (hget : w'.store.machines[name]? = some definition) : definition.validate = .ok () := by
  rcases h.machines_cases with hm | ⟨definition', hvalid, hm⟩
  · rw [hm] at hget
    exact hw.valid name definition hget
  · rw [hm, Table.get_insert] at hget
    split at hget
    · obtain rfl := Option.some.inj hget
      -- the payloads of the effects are not validated
      exact hvalid
    · exact hw.valid name definition hget

/-- The moment before the last label is the state the last step starts from. -/
theorem stateAt_length_concat (hrun : (engine cfg).exec w₀ ls = some w) :
    (engine cfg).stateAt w₀ (ls ++ [l]) ls.length = some w := by
  rw [System.stateAt_append le_rfl, System.stateAt_length]
  exact hrun

theorem label_length_concat : (ls ++ [l])[ls.length]? = some l := by
  rw [List.getElem?_append_right le_rfl, Nat.sub_self]
  rfl

/-- A commit puts its record into the log, under the next number. -/
theorem CommittedAt.of_commit {i : ℕ} {record : TransitionRecord} {newState : EntityState}
    {effects : List Effect} (hrun : (engine cfg).exec w₀ ls = some w)
    (hstep : (engine cfg).step w (.step i) = some w') (hlog : LogInvariant w.store)
    (hcommit : Commit w.store record newState effects w'.store) :
    CommittedAt cfg w₀ (ls ++ [.step i]) i { record with sequence := w.store.sequence + 1 }
      ls.length where
  step := label_length_concat
  before := ⟨w, stateAt_length_concat hrun, hlog.next_free (Nat.lt_succ_self _)⟩
  after := by
    refine ⟨w', System.stateAt_succ label_length_concat (stateAt_length_concat hrun) hstep, ?_⟩
    rw [hcommit.appends.get]
    exact if_pos rfl

/-- A planned call read what its plan is built from. -/
theorem ProjectionInvariant.stale_of_planned (hproj : ProjectionInvariant w) {i : ℕ} {c : Call}
    {definition : MachineDefinition} {current : Current} {rule : TransitionRule}
    (hpc : w.calls i = .planned c (Engine.buildPlan c definition current rule)) :
    Stale w.store c.stateKey current := by
  obtain ⟨definition', current', rule', hplan, hstale⟩ := hproj.planned hpc
  -- The plan shows all three parts of the read, so there is only one read behind it.
  have hstate : current'.state = current.state :=
    congrArg (fun p => p.record.fromState) hplan.symm
  have hversion : current'.version = current.version :=
    Nat.succ.inj (congrArg (fun p => p.record.version) hplan.symm)
  have hcreated : current'.createdAt = current.createdAt :=
    congrArg (fun p => p.newState.createdAt) hplan.symm
  have heq : current' = current := by
    cases current'
    cases current
    simp_all
  rwa [heq] at hstale

/-- A commit starts where the last record of its key ended, or in the initial state. -/
theorem ProjectionInvariant.state_eq_last (hproj : ProjectionInvariant w) {c : Call}
    {definition : MachineDefinition} {current : Current} {rule : TransitionRule} {S' : Store}
    (hcommit : CommitsFrom w.store c definition current rule S')
    (hstale : Stale w.store c.stateKey current)
    (hinit : w.store.entityStates[c.stateKey]? = none →
      current.state = definition.initialState) :
    current.state = (w.store.entries c.stateKey).getLast?.elim definition.initialState
      TransitionRecord.toState := by
  have hk := hproj.projected c.stateKey
  -- Either the row is still the one that was read, and the fold says where it came from, or the
  -- entity has no record yet.
  rcases hcommit.row_cases hstale with ⟨row, hrow, -, hstate, -⟩ | ⟨hnone, -⟩
  · obtain ⟨r, hr, hto⟩ := Option.map_eq_some_iff.mp (hk.row row hrow).2
    rw [hr, Option.elim_some, hto, hstate]
  · rw [hk.entries_eq_nil hnone, List.getLast?_nil, Option.elim_none]
    exact hinit hnone

/-- **A commit is legal**: what its call gathered, with the fold invariant for the state it started
from, is what `LegalRecord` asks of the record it logs. -/
theorem LegalFact.commit {i : ℕ} {c : Call} {plan : Plan} {S' : Store}
    (hrun : (engine cfg).exec w₀ ls = some w)
    (hstep : (engine cfg).step w (.step i) = some w') (hstore : w'.store = S')
    (hproj : ProjectionInvariant w) (hpc : w.calls i = .planned c plan)
    (hfact : LegalFact cfg w₀ ls w.store i (.planned c plan))
    (hcommit : Commit w.store plan.record plan.newState plan.effects S') :
    LegalRecord cfg w₀ (ls ++ [.step i]) S'
      { plan.record with sequence := w.store.sequence + 1 } := by
  obtain ⟨definition, current, rule, a, b, g, rfl, hmem, hans, hd, hbg, hg, hinit⟩ := hfact
  have hvalid := MachineDefinition.validate_eq_ok_iff.mp hd.valid
  have hlast := hproj.state_eq_last hcommit (hproj.stale_of_planned hpc) hinit
  -- The commit is the last label of the run.
  refine ⟨i, c, definition, current, rule, a, b, g, ls.length, hd.extend _, hbg, hg.extend _,
    (lt_length_of_label hg.step).le, .of_commit hrun hstep hproj.log (hstore ▸ hcommit),
    ⟨rfl, rfl, rfl⟩, hvalid.filter_answers hmem hans, rfl, hvalid.to_mem rule hmem, ?_⟩
  rw [hcommit.appends.preceding_self hproj.log]
  exact hlast

theorem LegalRecord.extend {S S' : Store} {r : TransitionRecord}
    (h : LegalRecord cfg w₀ ls S r) (l : Label) (hprec : S'.preceding r = S.preceding r) :
    LegalRecord cfg w₀ (ls ++ [l]) S' r := by
  obtain ⟨i, c, definition, current, rule, a, b, g, t, hd, hbg, hg, hgt, ht, heq, huniq, hto,
    hmem, hfrom⟩ := h
  exact ⟨i, c, definition, current, rule, a, b, g, t, hd.extend l, hbg, hg.extend l, hgt,
    ht.extend l, heq, huniq, hto, hmem, by rw [hprec]; exact hfrom⟩

theorem LegalInvariant.records_step (hw : LegalInvariant cfg w₀ ls w)
    (hproj : ProjectionInvariant w) (hrun : (engine cfg).exec w₀ ls = some w)
    (hstep : (engine cfg).step w l = some w') :
    ∀ r ∈ w'.store.log, LegalRecord cfg w₀ (ls ++ [l]) w'.store r := by
  intro r hr
  have h := step_sound hstep
  cases h with
  | call i w' h =>
    cases h with
    | commit c plan res S' hpc hcommit =>
      have hc := (Engine.commitPlan_eq_ok hcommit).2.1
      change r ∈ S'.log at hr
      rw [hc.appends.log hproj.log, List.mem_append, List.mem_singleton] at hr
      rcases hr with hold | rfl
      · exact (hw.records r hold).extend _ (hc.appends.preceding hproj.log hold)
      · have hfact := hw.calls i
        rw [hpc] at hfact
        exact hfact.commit hrun hstep rfl hproj hpc hc
    | _ => exact (hw.records r hr).extend _ rfl
  | _ => exact (hw.records r hr).extend _ rfl

theorem LegalInvariant.calls_step (hw : LegalInvariant cfg w₀ ls w)
    (hrun : (engine cfg).exec w₀ ls = some w) (h : Step cfg w l w') :
    ∀ i, LegalFact cfg w₀ (ls ++ [l]) w'.store i (w'.calls i) := by
  have hold : ∀ j, LegalFact cfg w₀ (ls ++ [l]) w'.store j (w.calls j) :=
    fun j => (hw.calls j).extend l fun _ hn => h.row_none hn
  cases h with
  | invoke i c hpc =>
    -- the call begins with this label
    refine World.forall_setPc (fun c' hc' => ?_) fun j _ => hold j
    obtain rfl := Option.some.inj hc'
    exact ⟨ls.length, label_length_concat⟩
  | ret i c res hpc =>
    exact World.forall_setPc (fun c' hc' => (hold i).invoked (by rw [hpc]; exact hc'))
      fun j _ => hold j
  | call i w' h =>
    have hi := hold i
    cases h with
    | define c definition hpc hdef =>
      -- the definition is the one stored now, that is, after the labels so far
      refine World.forall_setPc ?_ fun j _ => hold j
      have hget := Engine.readDefinition_eq_ok hdef
      obtain ⟨a, ha⟩ := (hw.calls i).invoked (c := c) (by rw [hpc]; rfl)
      exact ⟨a, ls.length, label_extend ha _, (lt_length_of_label ha).le,
        by rw [List.length_append]; exact Nat.le_add_right _ _,
        ⟨w, stateAt_length_concat hrun, hget⟩, hw.valid _ _ hget⟩
    | read c definition current hpc hread =>
      refine World.forall_setPc ?_ fun j _ => hold j
      rw [hpc] at hi
      -- without a row, what was read is the initial state
      refine ⟨hi, fun hn => ?_⟩
      obtain ⟨row, hrow, -⟩ | ⟨-, rfl⟩ := Engine.readCurrent_eq_ok hread
      · exact absurd (hn.symm.trans hrow) (by simp)
      · rfl
    | plan c definition current plan hpc hplan =>
      refine World.forall_setPc ?_ fun j _ => hold j
      have hread := hw.calls i
      rw [hpc] at hread
      obtain ⟨⟨a, b, hd⟩, hinit⟩ := hread
      obtain ⟨rule, hmem, hans, hguards, hbuild⟩ := Engine.planRequest_eq_ok hplan
      refine ⟨definition, current, rule, a, b, ls.length, hbuild, hmem, hans, hd.extend _,
        hd.le_length, ⟨label_length_concat, w, stateAt_length_concat hrun, ?_⟩, hinit⟩
      -- a guard that is registered was evaluated, on the registry of this moment
      intro name hname f hf
      have heval := hguards name hname
      unfold GuardRegistry.evaluate at heval
      rwa [hf] at heval
    | refuse c hpc _ | enter c hpc _ | acquire c hpc _ | replay c _ hpc _ | miss c hpc _
    | noDefinition c _ hpc _ | readError c _ _ hpc _ | reject c _ _ _ hpc _ | commit c _ _ _ hpc _
    | commitError c _ _ hpc _ | release c _ hpc =>
      exact World.forall_setPc (fun c' hc' => hi.invoked (by rw [hpc]; exact hc'))
        fun j _ => hold j
  | _ => exact hold

end Step

theorem LegalInvariant.initial (cfg : Config) (guards : GuardRegistry) :
    LegalInvariant cfg (World.initial Store.empty guards) []
      (World.initial Store.empty guards) where
  valid name definition h := by
    change (∅ : Table MachineName MachineDefinition)[name]? = some definition at h
    exact absurd h (by simp)
  calls _ := trivial
  records r hr := absurd hr List.not_mem_nil

theorem legalInvariant_of_run {cfg : Config} {guards : GuardRegistry} {ls : List Label}
    {w : World} (hrun : (engine cfg).exec (World.initial Store.empty guards) ls = some w) :
    LegalInvariant cfg (World.initial Store.empty guards) ls w := by
  refine System.exec_induction_labels (LegalInvariant.initial cfg guards) ?_ hrun
  intro ls w l w' hrun hw hstep
  have hproj := projectionInvariant_of_run hrun
  have h := step_sound hstep
  exact ⟨fun _ _ hget => hw.valid_step h hget, hw.calls_step hrun h,
    hw.records_step hproj hrun hstep⟩

/-- **Every logged transition is legal.** For every record of the log there are a call `c`, invoked
at `a`, and a valid definition stored for its machine at `b`; the guards of a rule evaluated at
`g`, those then registered returning `true`; and the commit of the record at `t`, with
`a ≤ b ≤ g ≤ t`. That rule is the only one of the definition with the record's event whose
`from_states` contain its `from_state`, it leads to the record's `to_state`, a state of the
definition, and the record starts where the preceding record of its key ended, or in the initial
state. -/
theorem logged_transition_legal {cfg : Config} {guards : GuardRegistry} {ls : List Label}
    {w : World} (hrun : (engine cfg).exec (World.initial Store.empty guards) ls = some w)
    {r : TransitionRecord} (hr : r ∈ w.store.log) :
    ∃ (i : ℕ) (c : Call) (definition : MachineDefinition) (current : Current)
      (rule : TransitionRule) (a b g t : ℕ),
      DefinitionRead cfg (World.initial Store.empty guards) ls i c definition a b ∧ b ≤ g ∧
      GuardsPassed cfg (World.initial Store.empty guards) ls i c current rule g ∧ g ≤ t ∧
      CommittedAt cfg (World.initial Store.empty guards) ls i r t ∧
      (c.entityId = r.entityId ∧ c.machine = r.machine ∧ current.state = r.fromState) ∧
      definition.transitions.filter (fun rule => rule.answers r.fromState r.event) = [rule] ∧
      rule.toState = r.toState ∧ r.toState ∈ definition.states ∧
      r.fromState = (w.store.preceding r).elim definition.initialState
        TransitionRecord.toState :=
  (legalInvariant_of_run hrun).records r hr

/-- A payment under a registered guard, with the definition stored again before the commit. -/
def guardedPayment : List Label :=
  [Label.registerGuard "funded" fun state _ => state.version == 0,
    Label.defineMachine orderMachine none, Label.invoke 0 (payOrder 0 "o1" none)]
  ++ steps 0 6 ++ [Label.defineMachine orderMachine none] ++ steps 0 1

theorem logged_transition_legal_guardedPayment :
    ∃ w r, (engine oneStripe).exec (World.initial Store.empty ∅) guardedPayment = some w ∧
      r ∈ w.store.log ∧ ∃ t : ℕ,
        CommittedAt oneStripe (World.initial Store.empty ∅) guardedPayment 0 r t := by
  have heval : ((engine oneStripe).exec (World.initial Store.empty ∅) guardedPayment).map
    (fun w => w.store.log.length) = some 1 := by decide
  obtain ⟨w, hrun, hlen⟩ := Option.map_eq_some_iff.mp heval
  obtain ⟨r, hr⟩ := List.exists_mem_of_length_pos (l := w.store.log) (by omega)
  obtain ⟨i, c, _, _, _, _, _, g, t, -, -, hg, -, ht, -⟩ := logged_transition_legal hrun hr
  -- Call `0` is the only one that ever steps.
  have hi : i = 0 := by
    have hmem := List.mem_of_getElem? ht.step
    simpa [guardedPayment, steps] using hmem
  subst hi
  exact ⟨w, r, hrun, hr, t, ht⟩

end StateMaster
