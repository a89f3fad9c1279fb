import StateMaster.Engine.World

/-!
# The projection is the fold of the log

`entity_states` holds one row per key, written from values that were read in an earlier
transaction. What keeps it in step with the log is the version check inside `execute_transition`:
a read may be stale, but a stale read is then refused. The invariant says how stale a read can be
(`Stale`): never ahead of the row, and at the row's own version only with the row's own values. No
lock is used, so the result holds for the steps in any order.

* `Projected` — the row under a key is the fold of the records with that key;
* `ProjectionInvariant` — the log invariant, `Projected` at every key, and `Stale` at every call
  that has read;
* `projection_eq_fold` — the statement for every run from the empty store, with the creation time
  that never changes.
-/

open Framework Framework.Text

namespace StateMaster

/-- The log records of one storage key, in sequence order. -/
def Store.entries (S : Store) (k : String) : List TransitionRecord :=
  S.log.filter fun r => r.stateKey == k

/-- The row under `k` is the fold of the records under `k`. -/
structure Projected (S : Store) (k : String) : Prop where
  exists_iff : (∃ row, S.entityStates[k]? = some row) ↔ S.entries k ≠ []
  versions : (S.entries k).map TransitionRecord.version = List.range' 1 (S.entries k).length
  chain : (S.entries k).IsChain fun r r' => r'.fromState = r.toState
  row : ∀ row : EntityState, S.entityStates[k]? = some row →
    row.version = (S.entries k).length ∧
      (S.entries k).getLast?.map TransitionRecord.toState = some row.currentState

/-- What a call read of the row under `k` is not ahead of the row, and agrees with it unless the
row has moved on. -/
structure Stale (S : Store) (k : String) (current : Current) : Prop where
  absent : S.entityStates[k]? = none → current.version = 0
  le : ∀ row : EntityState, S.entityStates[k]? = some row → current.version ≤ row.version
  same : ∀ row : EntityState, S.entityStates[k]? = some row → row.version = current.version →
    row.currentState = current.state ∧ row.createdAt = current.createdAt

/-- What a call that has read knows about its row. -/
def ReadFact (S : Store) : Pc → Prop
  | .read c _ current => Stale S c.stateKey current
  | .planned c plan => ∃ definition current rule,
    plan = Engine.buildPlan c definition current rule ∧ Stale S c.stateKey current
  | _ => True

structure ProjectionInvariant (w : World) : Prop where
  log : LogInvariant w.store
  projected : ∀ k, Projected w.store k
  reads : ∀ i, ReadFact w.store (w.calls i)

/-! ### Reads -/

theorem Stale.of_read {S : Store} {c : Call} {definition : MachineDefinition} {current : Current}
    (h : Engine.readCurrent S c definition = .ok current) : Stale S c.stateKey current := by
  rcases Engine.readCurrent_eq_ok h with ⟨row, hrow, rfl⟩ | ⟨hnone, rfl⟩
  · refine ⟨fun hn => absurd (hrow.symm.trans hn) (by simp), fun row' hrow' => ?_,
      fun row' hrow' _ => ?_⟩
    · rw [hrow] at hrow'
      rw [Option.some.inj hrow']
    · rw [hrow] at hrow'
      rw [Option.some.inj hrow']
      exact ⟨rfl, rfl⟩
  · refine ⟨fun _ => rfl, fun row hrow => ?_, fun row hrow _ => ?_⟩
    · exact absurd (hnone.symm.trans hrow) (by simp)
    · exact absurd (hnone.symm.trans hrow) (by simp)

theorem Stale.congr {S S' : Store} {k : String} {current : Current} (h : Stale S k current)
    (hrow : S'.entityStates[k]? = S.entityStates[k]?) : Stale S' k current where
  absent := by rw [hrow]; exact h.absent
  le := by rw [hrow]; exact h.le
  same := by rw [hrow]; exact h.same

/-! ### Commits -/

section Commits

variable {S S' : Store} {c : Call} {definition : MachineDefinition} {current : Current}
  {rule : TransitionRule}

/-- A commit of a plan built from `current`. -/
def CommitsFrom (S : Store) (c : Call) (definition : MachineDefinition) (current : Current)
    (rule : TransitionRule) (S' : Store) : Prop :=
  Commit S (Engine.buildPlan c definition current rule).record
    (Engine.buildPlan c definition current rule).newState
    (Engine.buildPlan c definition current rule).effects S'

theorem CommitsFrom.get_row (h : CommitsFrom S c definition current rule S') (k : String) :
    S'.entityStates[k]? = if c.stateKey = k
      then some (Engine.buildPlan c definition current rule).newState
      else S.entityStates[k]? := by
  rw [h.entityStates, Table.get_insert]
  rfl

/-- The record a commit logs. -/
def committedRecord (S : Store) (c : Call) (definition : MachineDefinition) (current : Current)
    (rule : TransitionRule) : TransitionRecord :=
  { (Engine.buildPlan c definition current rule).record with sequence := S.sequence + 1 }

theorem CommitsFrom.entries (h : CommitsFrom S c definition current rule S')
    (hS : LogInvariant S) (k : String) :
    S'.entries k = if c.stateKey = k
      then S.entries k ++ [committedRecord S c definition current rule] else S.entries k := by
  have hlog : S'.log = S.log ++ [committedRecord S c definition current rule] :=
    h.appends.log hS
  have hkey : (committedRecord S c definition current rule).stateKey = c.stateKey := rfl
  unfold Store.entries
  rw [hlog, List.filter_append, List.filter_cons, List.filter_nil, hkey]
  by_cases hk : c.stateKey = k
  · rw [if_pos hk, if_pos (beq_iff_eq.mpr hk)]
  · rw [if_neg hk, if_neg (fun hb => hk (beq_iff_eq.mp hb)), List.append_nil]

/-- The version check leaves two cases: the row is still the one that was read, or there was none
then and there is none now. -/
theorem CommitsFrom.row_cases (h : CommitsFrom S c definition current rule S')
    (hstale : Stale S c.stateKey current) :
    (∃ row, S.entityStates[c.stateKey]? = some row ∧ row.version = current.version ∧
      row.currentState = current.state ∧ row.createdAt = current.createdAt) ∨
    (S.entityStates[c.stateKey]? = none ∧ current.version = 0) := by
  cases hrow : S.entityStates[c.stateKey]? with
  | none => exact Or.inr ⟨rfl, hstale.absent hrow⟩
  | some row =>
    have hver : row.version = current.version := h.version_ok row hrow
    exact Or.inl ⟨row, rfl, hver, hstale.same row hrow hver⟩

/-- A commit leaves the other calls' reads stale but not wrong. -/
theorem Stale.commit {k : String} {current' : Current} (hk : Stale S k current')
    (h : CommitsFrom S c definition current rule S') (hstale : Stale S c.stateKey current) :
    Stale S' k current' := by
  by_cases hkey : c.stateKey = k
  · subst hkey
    have hrow' := h.get_row c.stateKey
    rw [if_pos rfl] at hrow'
    -- The new row is past whatever anybody has read.
    have hlt : current'.version < current.version + 1 := by
      rcases h.row_cases hstale with ⟨row, hrow, hver, -⟩ | ⟨hnone, -⟩
      · have := hk.le row hrow
        omega
      · have := hk.absent hnone
        omega
    refine ⟨fun hn => absurd (hrow'.symm.trans hn) (by simp), fun row hrow => ?_,
      fun row hrow hver => ?_⟩
    · rw [hrow'] at hrow
      rw [← Option.some.inj hrow]
      exact hlt.le
    · rw [hrow'] at hrow
      rw [← Option.some.inj hrow] at hver
      exact absurd hver.symm hlt.ne
  · refine hk.congr ?_
    rw [h.get_row, if_neg hkey]

/-- Without a row there are no records. -/
theorem Projected.entries_eq_nil {k : String} (hk : Projected S k)
    (hnone : S.entityStates[k]? = none) : S.entries k = [] := by
  by_contra hne
  obtain ⟨row, hrow⟩ := hk.exists_iff.mpr hne
  exact absurd (hnone.symm.trans hrow) (by simp)

theorem Projected.congr {k : String} (hk : Projected S k) (hent : S'.entries k = S.entries k)
    (hrow : S'.entityStates[k]? = S.entityStates[k]?) : Projected S' k where
  exists_iff := by rw [hent, hrow]; exact hk.exists_iff
  versions := by rw [hent]; exact hk.versions
  chain := by rw [hent]; exact hk.chain
  row := by rw [hent, hrow]; exact hk.row

/-- **A commit extends the fold by one record.** -/
theorem Projected.commit {k : String} (hk : Projected S k)
    (h : CommitsFrom S c definition current rule S') (hS : LogInvariant S)
    (hstale : Stale S c.stateKey current) : Projected S' k := by
  by_cases hkey : c.stateKey = k
  · subst hkey
    have hent := h.entries hS c.stateKey
    have hrow' := h.get_row c.stateKey
    rw [if_pos rfl] at hent hrow'
    -- The version read is the number of records so far, and the state read is the last one's.
    have hlen : current.version = (S.entries c.stateKey).length := by
      rcases h.row_cases hstale with ⟨row, hrow, hver, -⟩ | ⟨hnone, hver⟩
      · rw [← hver, (hk.row row hrow).1]
      · rw [hver, hk.entries_eq_nil hnone, List.length_nil]
    have hlast : ∀ r ∈ (S.entries c.stateKey).getLast?, current.state = r.toState := by
      intro r hr
      rcases h.row_cases hstale with ⟨row, hrow, -, hstate, -⟩ | ⟨hnone, -⟩
      · have := (hk.row row hrow).2
        rw [Option.mem_def.mp hr, Option.map_some] at this
        rw [← hstate]
        exact (Option.some.inj this).symm
      · rw [hk.entries_eq_nil hnone] at hr
        exact absurd hr (by simp)
    refine ⟨⟨fun _ => by rw [hent]; simp, fun _ => ⟨_, hrow'⟩⟩, ?_, ?_, ?_⟩
    · have hver : (committedRecord S c definition current rule).version
          = 1 + 1 * (S.entries c.stateKey).length := by
        change current.version + 1 = _
        omega
      rw [hent, List.map_append, hk.versions, List.length_append, List.length_singleton,
        List.range'_concat, List.map_singleton, hver]
    · rw [hent]
      refine hk.chain.append (List.isChain_singleton _) fun r hr r' hr' => ?_
      obtain rfl := Option.some.inj hr'
      exact hlast r hr
    · intro row hrow
      rw [hrow'] at hrow
      obtain rfl := Option.some.inj hrow
      rw [hent, List.length_append, List.length_singleton, List.getLast?_concat]
      exact ⟨congrArg (· + 1) hlen, rfl⟩
  · have hent := h.entries hS k
    have hrow := h.get_row k
    rw [if_neg hkey] at hent hrow
    exact hk.congr hent hrow

end Commits

/-! ### Steps and runs -/

/-- What a planned call is about to commit. -/
theorem ProjectionInvariant.planned {w : World} (hw : ProjectionInvariant w) {i : ℕ} {c : Call}
    {plan : Plan} (hpc : w.calls i = .planned c plan) :
    ∃ definition current rule, plan = Engine.buildPlan c definition current rule ∧
      Stale w.store c.stateKey current := by
  have hi := hw.reads i
  rwa [hpc] at hi

/-- Every call that has read keeps knowing what `ReadFact` says, whatever the step does to the
store. -/
theorem ProjectionInvariant.readFact_step {cfg : Config} {w w' : World} {l : Label}
    (hw : ProjectionInvariant w) (h : Step cfg w l w') {pc : Pc} (hpc : ReadFact w.store pc) :
    ReadFact w'.store pc := by
  have hstale : ∀ k current, Stale w.store k current → Stale w'.store k current := by
    intro k current hk
    rcases h.store_cases with ⟨-, hrows⟩ | ⟨i, c, plan, hplanned, hcommit⟩
    · exact hk.congr (by rw [hrows])
    · obtain ⟨definition, cur, rule, rfl, hcur⟩ := hw.planned hplanned
      exact hk.commit hcommit hcur
  cases pc with
  | read c definition current => exact hstale _ _ hpc
  | planned c plan =>
    obtain ⟨definition, current, rule, hplan, hk⟩ := hpc
    exact ⟨definition, current, rule, hplan, hstale _ _ hk⟩
  | _ => exact trivial

theorem ProjectionInvariant.step {cfg : Config} {w w' : World} {l : Label}
    (hw : ProjectionInvariant w) (h : Step cfg w l w') : ProjectionInvariant w' := by
  have hfact : ∀ j, ReadFact w'.store (w.calls j) := fun j => hw.readFact_step h (hw.reads j)
  have hstore : LogInvariant w'.store ∧ ∀ k, Projected w'.store k := by
    rcases h.store_cases with ⟨hkeeps, hrows⟩ | ⟨i, c, plan, hplanned, hcommit⟩
    · refine ⟨hkeeps.invariant hw.log, fun k => ?_⟩
      have hent : w'.store.entries k = w.store.entries k := by
        unfold Store.entries
        rw [hkeeps.log]
      exact (hw.projected k).congr hent (by rw [hrows])
    · obtain ⟨definition, current, rule, rfl, hcur⟩ := hw.planned hplanned
      exact ⟨hcommit.appends.invariant hw.log,
        fun k => (hw.projected k).commit hcommit hw.log hcur⟩
  refine ⟨hstore.1, hstore.2, ?_⟩
  -- Only a read and a plan give a call something new to know.
  cases h with
  | invoke i c hpc => exact World.forall_setPc trivial fun j _ => hfact j
  | ret i c res hpc => exact World.forall_setPc trivial fun j _ => hfact j
  | call i w' h =>
    cases h with
    | read c definition current hpc hread =>
      exact World.forall_setPc (Stale.of_read hread) fun j _ => hfact j
    | plan c definition current plan hpc hplan =>
      obtain ⟨rule, -, -, -, hbuild⟩ := Engine.planRequest_eq_ok hplan
      have hread := hw.reads i
      rw [hpc] at hread
      exact World.forall_setPc ⟨definition, current, rule, hbuild, hread⟩ fun j _ => hfact j
    | _ => exact World.forall_setPc trivial fun j _ => hfact j
  | _ => exact hfact

theorem ProjectionInvariant.initial (guards : GuardRegistry) :
    ProjectionInvariant (World.initial Store.empty guards) where
  log := LogInvariant.empty
  projected k := by
    have hrow : (World.initial Store.empty guards).store.entityStates[k]? = none :=
      Table.get_empty k
    have hent : (World.initial Store.empty guards).store.entries k = [] := rfl
    refine ⟨?_, by rw [hent]; rfl, by rw [hent]; exact List.isChain_nil, fun row h => ?_⟩
    · rw [hrow, hent]
      simp
    · exact absurd (hrow.symm.trans h) (by simp)
  reads _ := trivial

theorem projectionInvariant_of_run {cfg : Config} {guards : GuardRegistry} {ls : List Label}
    {w : World} (hrun : (engine cfg).exec (World.initial Store.empty guards) ls = some w) :
    ProjectionInvariant w :=
  System.exec_induction (ProjectionInvariant.initial guards)
    (fun _ _ _ hw hstep => hw.step (step_sound hstep)) hrun

/-- A row, once there, stays and keeps its creation time. -/
theorem ProjectionInvariant.createdAt_step {cfg : Config} {w w' : World} {l : Label}
    (hw : ProjectionInvariant w) (h : Step cfg w l w') {k : String} {row : EntityState}
    (hrow : w.store.entityStates[k]? = some row) :
    ∃ row', w'.store.entityStates[k]? = some row' ∧ row'.createdAt = row.createdAt := by
  rcases h.store_cases with ⟨-, hrows⟩ | ⟨i, c, plan, hplanned, hcommit⟩
  · exact ⟨row, by rw [hrows]; exact hrow, rfl⟩
  · obtain ⟨definition, current, rule, rfl, hcur⟩ := hw.planned hplanned
    have hget := CommitsFrom.get_row (c := c) hcommit k
    by_cases hkey : c.stateKey = k
    · subst hkey
      rw [if_pos rfl] at hget
      refine ⟨_, hget, ?_⟩
      rcases CommitsFrom.row_cases hcommit hcur with ⟨row', hrow', -, -, hcreated⟩ | ⟨hnone, -⟩
      · rw [hrow] at hrow'
        rw [Option.some.inj hrow']
        exact hcreated.symm
      · exact absurd (hnone.symm.trans hrow) (by simp)
    · rw [if_neg hkey] at hget
      exact ⟨row, hget.trans hrow, rfl⟩

/-- **The projection is exactly the fold of the log**, at every key and after every run: a row
exists exactly when the key has records, their versions count from one, each starts where the one
before ended, the row is the last one's state and version, and a row seen at any earlier moment is
still there with the same creation time. -/
theorem projection_eq_fold {cfg : Config} {guards : GuardRegistry} {ls : List Label} {w : World}
    (hrun : (engine cfg).exec (World.initial Store.empty guards) ls = some w) (k : String) :
    ((∃ row, w.store.entityStates[k]? = some row) ↔ w.store.entries k ≠ []) ∧
    (w.store.entries k).map TransitionRecord.version
      = List.range' 1 (w.store.entries k).length ∧
    ((w.store.entries k).IsChain fun r r' => r'.fromState = r.toState) ∧
    (∀ row : EntityState, w.store.entityStates[k]? = some row →
      row.version = (w.store.entries k).length ∧
        (w.store.entries k).getLast?.map TransitionRecord.toState = some row.currentState) ∧
    (∀ (n : ℕ) (w₁ : World) (row₁ : EntityState),
      (engine cfg).stateAt (World.initial Store.empty guards) ls n = some w₁ →
      w₁.store.entityStates[k]? = some row₁ →
      ∃ row, w.store.entityStates[k]? = some row ∧ row.createdAt = row₁.createdAt) := by
  have hk := (projectionInvariant_of_run hrun).projected k
  refine ⟨hk.exists_iff, hk.versions, hk.chain, hk.row, ?_⟩
  intro n w₁ row₁ h₁ hrow₁
  obtain ⟨w₂, h₂, hrest⟩ := System.exec_split hrun n
  obtain rfl := Option.some.inj (h₁.symm.trans h₂)
  refine (System.exec_stable (I := fun w => ProjectionInvariant w ∧
      ∃ row, w.store.entityStates[k]? = some row ∧ row.createdAt = row₁.createdAt) ?_ hrest
    ⟨projectionInvariant_of_run h₁, row₁, hrow₁, rfl⟩).2
  rintro w l w' ⟨hw, row, hrow, hcreated⟩ hstep
  have hstep := step_sound hstep
  obtain ⟨row', hrow', hcreated'⟩ := hw.createdAt_step hstep hrow
  exact ⟨hw.step hstep, row', hrow', hcreated'.trans hcreated⟩

/-- Two calls on one order read the missing row side by side; the second commit is refused. -/
def lostRace : List Label :=
  [Label.defineMachine orderMachine none, Label.invoke 0 (payOrder 0 "o1" none),
    Label.invoke 1 (payOrder 1 "o1" none)] ++ steps 0 5 ++ steps 1 6 ++ steps 0 2 ++ steps 1 1

theorem projection_eq_fold_lostRace :
    ∃ w, (engine lockFree).exec (World.initial Store.empty ∅) lostRace = some w ∧
      (w.store.entries (entityStateKey "o1" "order")).length = 1 ∧
      ∃ row, w.store.entityStates[entityStateKey "o1" "order"]? = some row := by
  have heval : ((engine lockFree).exec (World.initial Store.empty ∅) lostRace).map
    (fun w => (w.store.entries (entityStateKey "o1" "order")).length) = some 1 := by decide
  obtain ⟨w, hrun, hlen⟩ := Option.map_eq_some_iff.mp heval
  refine ⟨w, hrun, hlen, (projection_eq_fold hrun _).1.mpr fun hnil => ?_⟩
  rw [hnil] at hlen
  exact absurd hlen (by decide)

end StateMaster
