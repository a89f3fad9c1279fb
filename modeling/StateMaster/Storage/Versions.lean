import StateMaster.Storage.Log

/-!
# The version rule of the two projection writers

Two operations write a row of `entity_states`: `upsert_entity_state`, and step 2 of
`execute_transition`. Both mean to replace a row only by its successor, which is `versionRule`. Step
2 follows it for every version. `upsert_entity_state` skips its check when the new version is `0` or
`1`, so it follows the rule except where a row of version `1` meets a row that has already been
written (`upsertEntityState_eq_versionRule_iff`): the row is then replaced whatever its version is.

Over a run of storage calls the same case decides (`StorageStep.growsByOne_iff`): rows move on by
one version at a time, unless one of the calls is a back-fill of that kind (`Rewinds`).
-/

open Framework Framework.Text

namespace StateMaster

/-- The key of a row of `entity_states`. -/
def EntityState.stateKey (state : EntityState) : String :=
  entityStateKey state.entityId state.machine

/-- The rule both writers are meant to follow on a row that is there: the new row is the next
version of it, or the write is refused. -/
def versionRule (S : Store) (state row : EntityState) : Except StorageError Store :=
  if row.version = state.version - 1 then
    .ok { S with entityStates := S.entityStates.insert state.stateKey state }
  else .error (.versionConflict state.entityId (state.version - 1) row.version)

section Writers

variable {S : Store} {state row : EntityState}

/-- Step 2 of `execute_transition` follows the rule. -/
theorem upsertProjection_eq_versionRule (hrow : S.entityStates[state.stateKey]? = some row) :
    RedbEngine.upsertProjection S state = versionRule S state row := by
  unfold EntityState.stateKey at hrow
  unfold RedbEngine.upsertProjection versionRule
  dsimp only
  rw [hrow]
  dsimp only
  by_cases hv : row.version = state.version - 1
  · rw [if_neg (not_not.mpr hv), if_pos hv]
    rfl
  · rw [if_pos hv, if_neg hv]

/-- Past version `1`, `upsert_entity_state` follows the rule too. -/
theorem upsertEntityState_of_one_lt (hrow : S.entityStates[state.stateKey]? = some row)
    (hv : 1 < state.version) :
    RedbEngine.upsertEntityState S state = versionRule S state row := by
  unfold EntityState.stateKey at hrow
  unfold RedbEngine.upsertEntityState versionRule
  dsimp only
  rw [hrow]
  dsimp only
  by_cases hver : row.version = state.version - 1
  · rw [if_neg fun h => h.2 hver, if_pos hver]
    rfl
  · rw [if_pos ⟨hv, hver⟩, if_neg hver]

/-- Up to version `1` it takes any row. -/
theorem upsertEntityState_of_le_one (hrow : S.entityStates[state.stateKey]? = some row)
    (hv : state.version ≤ 1) :
    RedbEngine.upsertEntityState S state
      = .ok { S with entityStates := S.entityStates.insert state.stateKey state } := by
  unfold EntityState.stateKey at hrow
  unfold RedbEngine.upsertEntityState
  dsimp only
  rw [hrow]
  dsimp only
  rw [if_neg fun h => absurd h.1 (not_lt.mpr hv)]
  rfl

/-- **Where `upsert_entity_state` follows the rule**: everywhere but at a first version over a row
that has a version already. -/
theorem upsertEntityState_eq_versionRule_iff (hrow : S.entityStates[state.stateKey]? = some row)
    (hv : 1 ≤ state.version) :
    RedbEngine.upsertEntityState S state = versionRule S state row ↔
      (state.version = 1 → row.version = 0) := by
  rcases Nat.lt_or_eq_of_le hv with hlt | hone
  · refine iff_of_true (upsertEntityState_of_one_lt hrow hlt) ?_
    intro hone
    exact absurd hone hlt.ne'
  · rw [upsertEntityState_of_le_one hrow hone.ge]
    unfold versionRule
    rw [← hone, Nat.sub_self]
    by_cases hzero : row.version = 0
    · rw [if_pos hzero]
      exact iff_of_true rfl fun _ => hzero
    · rw [if_neg hzero]
      refine iff_of_false nofun fun h => hzero (h rfl)

end Writers

/-! ### Runs of storage calls -/

/-- The row a call writes to the projection. -/
def WriteCall.projected : WriteCall → Option EntityState
  | .upsertEntityState state => some state
  | .executeTransition _ newState _ => some newState
  | _ => none

/-- What a successful call does to the projection, and what it has checked before. -/
inductive RowWrite (S : Store) : WriteCall → Store → Prop
  | kept {call : WriteCall} {S' : Store} (hcall : call.projected = none)
      (hrows : S'.entityStates = S.entityStates) : RowWrite S call S'
  | upserted {state : EntityState} {S' : Store}
      (hcheck : ∀ row : EntityState, S.entityStates[state.stateKey]? = some row →
        1 < state.version → row.version = state.version - 1)
      (hrows : S'.entityStates = S.entityStates.insert state.stateKey state) :
      RowWrite S (.upsertEntityState state) S'
  | committed {record : TransitionRecord} {state : EntityState} {effects : List Effect}
      {S' : Store}
      (hcheck : ∀ row : EntityState, S.entityStates[state.stateKey]? = some row →
        row.version = state.version - 1)
      (hrows : S'.entityStates = S.entityStates.insert state.stateKey state) :
      RowWrite S (.executeTransition record state effects) S'

theorem RowWrite.of_upsert {S S' : Store} {state : EntityState}
    (h : RedbEngine.upsertEntityState S state = .ok S') :
    RowWrite S (.upsertEntityState state) S' := by
  cases hrow : S.entityStates[state.stateKey]? with
  | none =>
    unfold RedbEngine.upsertEntityState at h
    unfold EntityState.stateKey at hrow
    dsimp only at h
    rw [hrow] at h
    obtain rfl := Except.ok.inj h
    refine .upserted (fun row hrow' => ?_) rfl
    exact absurd (hrow.symm.trans hrow') (by simp)
  | some row =>
    by_cases hv : 1 < state.version
    · rw [upsertEntityState_of_one_lt hrow hv] at h
      unfold versionRule at h
      split at h
      · next hver =>
        obtain rfl := Except.ok.inj h
        refine .upserted (fun row' hrow' _ => ?_) rfl
        rw [hrow] at hrow'
        rw [← Option.some.inj hrow']
        exact hver
      · exact absurd h (by simp)
    · rw [upsertEntityState_of_le_one hrow (not_lt.mp hv)] at h
      obtain rfl := Except.ok.inj h
      exact .upserted (fun _ _ hlt => absurd hlt hv) rfl

theorem updateEffectStatus_entityStates {S S' : Store} {effectId : String} {status : EffectStatus}
    (h : RedbEngine.updateEffectStatus S effectId status = .ok S') :
    S'.entityStates = S.entityStates := by
  unfold RedbEngine.updateEffectStatus at h
  split at h
  · obtain rfl := Except.ok.inj h
    rfl
  · exact absurd h (by simp)

theorem RowWrite.of_run {S S' : Store} {call : WriteCall} (h : call.run S = .ok S') :
    RowWrite S call S' := by
  cases call with
  | storeMachine machine =>
    obtain rfl := Except.ok.inj h
    exact .kept rfl rfl
  | upsertEntityState state => exact .of_upsert h
  | appendTransition record =>
    obtain rfl := Except.ok.inj h
    exact .kept rfl rfl
  | insertEffects effects =>
    obtain rfl := Except.ok.inj h
    exact .kept rfl rfl
  | markEffectPublished effectId =>
    exact .kept rfl (updateEffectStatus_entityStates h)
  | markEffectFailed effectId =>
    exact .kept rfl (updateEffectStatus_entityStates h)
  | executeTransition record newState effects =>
    have hcommit := WriteCall.commit_of_run h
    exact .committed hcommit.version_ok hcommit.entityStates

/-- Every row is still there, as it was or one version on. -/
def GrowsByOne (S S' : Store) : Prop :=
  ∀ (k : String) (row : EntityState), S.entityStates[k]? = some row →
    ∃ row' : EntityState, S'.entityStates[k]? = some row' ∧
      (row' = row ∨ row'.version = row.version + 1)

/-- A back-fill: `upsert_entity_state` with a first version, over another row that has a version
already. -/
def Rewinds (S : Store) (step : StorageStep) : Prop :=
  ∃ state row : EntityState, step = ⟨.upsertEntityState state, none⟩ ∧ state.version = 1 ∧
    S.entityStates[state.stateKey]? = some row ∧ row.version ≠ 0 ∧ row ≠ state

theorem GrowsByOne.of_eq {S S' : Store} (h : S'.entityStates = S.entityStates) :
    GrowsByOne S S' := by
  intro k row hrow
  exact ⟨row, by rw [h]; exact hrow, Or.inl rfl⟩

/-- One row written: the others stay, and so does the question about this one. -/
theorem growsByOne_insert_iff {S S' : Store} {state : EntityState}
    (h : S'.entityStates = S.entityStates.insert state.stateKey state) :
    GrowsByOne S S' ↔ ∀ row : EntityState, S.entityStates[state.stateKey]? = some row →
      state = row ∨ state.version = row.version + 1 := by
  constructor
  · intro hgrows row hrow
    obtain ⟨row', hrow', hnext⟩ := hgrows state.stateKey row hrow
    rw [h, Table.get_insert_self] at hrow'
    obtain rfl := Option.some.inj hrow'
    exact hnext
  · intro hnext k row hrow
    by_cases hk : state.stateKey = k
    · subst hk
      exact ⟨state, by rw [h, Table.get_insert_self], hnext row hrow⟩
    · exact ⟨row, by rw [h, Table.get_insert_of_ne _ _ hk, hrow], Or.inl rfl⟩

/-- An `upsert_entity_state` that went through grows the row, unless it is a back-fill. -/
theorem growsByOne_upsert_iff {S S' : Store} {state : EntityState} (hpos : 1 ≤ state.version)
    (hcheck : ∀ row : EntityState, S.entityStates[state.stateKey]? = some row →
      1 < state.version → row.version = state.version - 1)
    (hrows : S'.entityStates = S.entityStates.insert state.stateKey state) :
    GrowsByOne S S' ↔ ¬ Rewinds S ⟨.upsertEntityState state, none⟩ := by
  rw [growsByOne_insert_iff hrows]
  constructor
  · rintro hnext ⟨state', row, heq, hone, hrow, hzero, hne⟩
    obtain rfl := WriteCall.upsertEntityState.inj (StorageStep.mk.inj heq).1
    rcases hnext row hrow with rfl | hsucc
    · exact hne rfl
    · omega
  · intro hno row hrow
    by_cases hone : state.version = 1
    · by_contra hnot
      rw [not_or] at hnot
      refine hno ⟨state, row, rfl, hone, hrow, fun hzero => hnot.2 ?_, fun h => hnot.1 h.symm⟩
      rw [hone, hzero]
    · have := hcheck row hrow (by omega)
      exact Or.inr (by omega)

/-- **What one call does to the versions.** -/
theorem StorageStep.growsByOne_iff {S : Store} {step : StorageStep}
    (hv : ∀ state ∈ step.call.projected, 1 ≤ state.version) :
    GrowsByOne S (step.exec S) ↔ ¬ Rewinds S step := by
  unfold StorageStep.exec
  cases hout : step.outcome S with
  | error e =>
    -- a back-fill is never refused
    refine iff_of_true (GrowsByOne.of_eq rfl) ?_
    rintro ⟨state, row, rfl, hone, hrow, -⟩
    change RedbEngine.upsertEntityState S state = _ at hout
    rw [upsertEntityState_of_le_one hrow hone.le] at hout
    exact absurd hout (by simp)
  | ok S' =>
    have hrun : RowWrite S step.call S' := .of_run (withFault_eq_ok hout)
    obtain ⟨call, fault⟩ := step
    dsimp only at hrun hv ⊢
    cases hrun with
    | kept hcall hrows =>
      refine iff_of_true (GrowsByOne.of_eq hrows) ?_
      rintro ⟨state, row, heq, -⟩
      obtain ⟨rfl, -⟩ := StorageStep.mk.inj heq
      exact absurd hcall (by simp [WriteCall.projected])
    | @upserted state _ hcheck hrows =>
      have hpos : 1 ≤ state.version := hv state rfl
      have hfault : fault = none := by
        cases fault with
        | none => rfl
        | some f => exact absurd hout (by simp [StorageStep.outcome, withFault])
      subst hfault
      exact growsByOne_upsert_iff hpos hcheck hrows
    | @committed record state effects _ hcheck hrows =>
      have hpos : 1 ≤ state.version := hv state rfl
      refine iff_of_true ((growsByOne_insert_iff hrows).mpr fun row hrow => Or.inr ?_) ?_
      · have := hcheck row hrow
        omega
      · rintro ⟨state', row, heq, -⟩
        exact absurd (StorageStep.mk.inj heq).1 (by simp)

/-- **The two projection writers, and where they part.** On a row that is there, step 2 of
`execute_transition` follows the version rule for every version from `1` on. `upsert_entity_state`
follows it exactly when it is not given a first version over a row that has a version already. So
over any sequence of calls rows grow by one version at a time exactly when none of the calls is such
a back-fill. -/
theorem version_rule_iff_no_backfill (S₀ : Store) (steps : List StorageStep) :
    (∀ (S : Store) (state row : EntityState), 1 ≤ state.version →
      S.entityStates[state.stateKey]? = some row →
      RedbEngine.upsertProjection S state = versionRule S state row ∧
      (RedbEngine.upsertEntityState S state = versionRule S state row ↔
        (state.version = 1 → row.version = 0))) ∧
    ((∀ step ∈ steps, ∀ state ∈ step.call.projected, 1 ≤ state.version) →
      ((∀ (n : ℕ) (S S' : Store), storage.stateAt S₀ steps n = some S →
          storage.stateAt S₀ steps (n + 1) = some S' → GrowsByOne S S') ↔
        ∀ (n : ℕ) (step : StorageStep) (S : Store), steps[n]? = some step →
          storage.stateAt S₀ steps n = some S → ¬ Rewinds S step)) := by
  refine ⟨fun S state row hv hrow => ⟨upsertProjection_eq_versionRule hrow,
    upsertEntityState_eq_versionRule_iff hrow hv⟩, fun hv => ⟨?_, ?_⟩⟩
  · intro hgrows n step S hstep hS
    have hnext : storage.stateAt S₀ steps (n + 1) = some (step.exec S) :=
      System.stateAt_succ hstep hS rfl
    exact (StorageStep.growsByOne_iff (hv step (List.mem_of_getElem? hstep))).mp
      (hgrows n S _ hS hnext)
  · intro hno n S S' hS hS'
    cases hstep : steps[n]? with
    | none =>
      -- the run is over
      unfold System.stateAt at hS hS'
      rw [List.take_add_one, hstep, Option.toList_none, List.append_nil, hS] at hS'
      obtain rfl := Option.some.inj hS'
      exact GrowsByOne.of_eq rfl
    | some step =>
      obtain rfl : step.exec S = S' := Option.some.inj (System.step_of_stateAt hstep hS hS')
      exact (StorageStep.growsByOne_iff (hv step (List.mem_of_getElem? hstep))).mpr
        (hno n step S hstep hS)

/-- An order as it was first stored. -/
def firstRow : EntityState := ⟨"o1", "order", "pending", 1, 0, 0⟩

/-- The same order after it was paid. -/
def paidRow : EntityState := ⟨"o1", "order", "paid", 2, 1, 0⟩

/-- Storing an order, its successor, and the first row once more: the order is back where it
started, and step 2 of `execute_transition` would have refused. -/
theorem version_rule_backfill :
    ∃ S S' : Store,
      storage.exec Store.empty [⟨.upsertEntityState firstRow, none⟩,
        ⟨.upsertEntityState paidRow, none⟩] = some S ∧
      S.entityStates[firstRow.stateKey]? = some paidRow ∧
      RedbEngine.upsertProjection S firstRow = .error (.versionConflict "o1" 0 2) ∧
      RedbEngine.upsertEntityState S firstRow = .ok S' ∧
      S'.entityStates[firstRow.stateKey]? = some firstRow ∧ ¬ GrowsByOne S S' := by
  have hS : ∃ S, storage.exec Store.empty [⟨.upsertEntityState firstRow, none⟩,
      ⟨.upsertEntityState paidRow, none⟩] = some S ∧
      S.entityStates[firstRow.stateKey]? = some paidRow := by
    refine ⟨_, rfl, ?_⟩
    decide
  obtain ⟨S, hrun, hrow⟩ := hS
  have hwrite := upsertEntityState_of_le_one hrow (Nat.le_refl 1)
  refine ⟨S, _, hrun, hrow, ?_, hwrite, Table.get_insert_self _ _ _, ?_⟩
  · rw [upsertProjection_eq_versionRule hrow]
    rfl
  · intro hgrows
    exact absurd ((growsByOne_insert_iff rfl).mp hgrows paidRow hrow) (by decide)

end StateMaster
