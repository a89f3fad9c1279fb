import StateMaster.Framework.BoundedScan
import StateMaster.Framework.Run
import StateMaster.Storage.Store

/-!
# The operations of `RedbEngine`

Every operation is one database transaction. A read sees one snapshot, so it is a function of the
store. A write works on its own copy of the tables and returns it on success; on an error the copy
is dropped and the database is what it was before (`WriteCall.run`).

`executeTransition` is the write path of the engine. `Commit` says everything a successful call
does to the tables, guards included, and `executeTransition_eq_ok_iff` that it is exact, so later
proofs never unfold the operation.
-/

open Framework Framework.Text

namespace StateMaster

namespace RedbEngine

/-! ### Machine definitions -/

/-- `store_machine`: the definition is keyed by its name alone. -/
def storeMachine (S : Store) (machine : MachineDefinition) : Store :=
  { S with machines := S.machines.insert machine.name machine.stored }

/-- `get_machine`: the version argument is ignored. -/
def getMachine (S : Store) (name : String) (_version : Option ℕ) :
    Except StorageError MachineDefinition :=
  match S.machines[name]? with
  | some machine => .ok machine
  | none => .error (.notFound ("machine '" ++ name ++ "'"))

/-- `list_machines`. -/
def listMachines (S : Store) : List MachineDefinition := S.machines.values

/-! ### Entity state -/

/-- `get_entity_state`. -/
def getEntityState (S : Store) (entityId machine : String) : Except StorageError EntityState :=
  match S.entityStates[entityStateKey entityId machine]? with
  | some state => .ok state
  | none => .error (.notFound ("entity '" ++ entityId ++ "' in machine '" ++ machine ++ "'"))

/-- `upsert_entity_state`: the version check is skipped when the new version is `0` or `1`. -/
def upsertEntityState (S : Store) (state : EntityState) : Except StorageError Store :=
  let key := entityStateKey state.entityId state.machine
  let written : Store := { S with entityStates := S.entityStates.insert key state }
  match S.entityStates[key]? with
  | some existing =>
    if state.version > 1 ∧ existing.version ≠ state.version - 1 then
      .error (.versionConflict state.entityId (state.version - 1) existing.version)
    else .ok written
  | none => .ok written

/-- `list_entities_in_state`: a substring test on the key stands in front of the comparison. -/
def listEntitiesInState (S : Store) (machine stateName : String) : List EntityState :=
  S.entityStates.toList.filterMap fun p =>
    if contains p.1 (nul ++ machine) then
      if p.2.machine == machine && p.2.currentState == stateName then some p.2 else none
    else none

/-! ### The log -/

/-- `next_sequence_in_tx`. -/
def nextSequenceInTx (tx : Store) : ℕ × Store :=
  let next := tx.sequence + 1
  (next, { tx with metaTable := tx.metaTable.insert metaSequence next })

/-- The three insertions that write a record under its sequence: the log and its two indexes. -/
def writeRecord (tx : Store) (record : TransitionRecord) : Store :=
  { tx with
    transitions := tx.transitions.insert record.sequence record
    transitionsById := tx.transitionsById.insert record.id record.sequence
    entityTransitions := tx.entityTransitions.insert
      (entityTransitionKey record.entityId record.machine record.sequence) record.sequence }

/-- `append_transition`. The record's idempotency key is stored with it but not indexed. -/
def appendTransition (S : Store) (record : TransitionRecord) : ℕ × Store :=
  let (seq, tx) := nextSequenceInTx S
  (seq, writeRecord tx { record with sequence := seq })

/-- `get_transition`. -/
def getTransition (S : Store) (id : String) : Except StorageError TransitionRecord :=
  match S.transitionsById[id]? with
  | none => .error (.notFound ("transition '" ++ id ++ "'"))
  | some seq =>
    match S.transitions[seq]? with
    | some record => .ok record
    | none => .error (.notFound ("transition seq " ++ toString seq))

/-- The loop of `get_history` over the index, in key order. -/
def historyLoop (transitions : Table ℕ TransitionRecord) (keyPrefix : String)
    (limit : ℕ) (after : ℕ) :
    List (String × ℕ) → List TransitionRecord → List TransitionRecord
  | [], results => results
  | (key, seq) :: rest, results =>
    if startsWith key keyPrefix = false then
      historyLoop transitions keyPrefix limit after rest results
    else if seq ≤ after then historyLoop transitions keyPrefix limit after rest results
    else if limit ≤ results.length then results
    else
      match transitions[seq]? with
      | some record =>
        historyLoop transitions keyPrefix limit after rest (results ++ [record])
      | none => historyLoop transitions keyPrefix limit after rest results

/-- `u32::MAX`, the limit of a history read that names none. -/
def maxLimit : ℕ := 2 ^ 32 - 1

/-- `get_history`. -/
def getHistory (S : Store) (entityId machine : String) (limit : Option ℕ)
    (afterSequence : Option ℕ) : List TransitionRecord :=
  historyLoop S.transitions (entityTransitionPrefix entityId machine) (limit.getD maxLimit)
    (afterSequence.getD 0) S.entityTransitions.toList []

/-- `get_transitions_after`. The cursor comes from a client, so the addition wraps as `u64`'s. -/
def getTransitionsAfter (S : Store) (afterSequence : ℕ) (limit : ℕ) :
    List TransitionRecord :=
  let start := (afterSequence + 1) % 2 ^ 64
  ((S.transitions.rangeFrom start).take limit).map Prod.snd

/-! ### The outbox -/

/-- The loop of `insert_effects` (and of step 3 of `execute_transition`) over both tables. -/
def writeEffects (tx : Store) (effects : List Effect) : Store :=
  { tx with
    effects := effects.foldl (fun tbl effect => tbl.insert effect.id effect) tx.effects
    effectsByTxn := effects.foldl
      (fun byTxn effect => byTxn.insert (effectByTxnKey effect.transitionId effect.id) effect.id)
      tx.effectsByTxn }

/-- `insert_effects`. -/
def insertEffects (S : Store) (effects : List Effect) : Store := writeEffects S effects

/-- `get_pending_effects`: a scan in the order of the effect ids, up to the limit. -/
def getPendingEffects (S : Store) (limit : ℕ) : List Effect :=
  boundedScan (fun effect => effect.status == .pending) limit S.effects.values []

/-- `get_effects_for_transition`: the range scan stops at the first key without the prefix. -/
def getEffectsForTransition (S : Store) (transitionId : String) : List Effect :=
  let keyPrefix := effectByTxnPrefix transitionId
  ((S.effectsByTxn.rangeFrom keyPrefix).takeWhile fun p => startsWith p.1 keyPrefix).filterMap
    fun p => S.effects[p.2]?

/-- `update_effect_status`. -/
def updateEffectStatus (S : Store) (effectId : String) (status : EffectStatus) :
    Except StorageError Store :=
  match S.effects[effectId]? with
  | some effect => .ok { S with effects := S.effects.insert effectId { effect with status } }
  | none => .error (.notFound ("effect '" ++ effectId ++ "'"))

/-- `mark_effect_published`. -/
def markEffectPublished (S : Store) (effectId : String) : Except StorageError Store :=
  updateEffectStatus S effectId .published

/-- `mark_effect_failed`. -/
def markEffectFailed (S : Store) (effectId : String) : Except StorageError Store :=
  updateEffectStatus S effectId .failed

/-! ### Idempotency -/

/-- `check_idempotency`. -/
def checkIdempotency (S : Store) (key : String) : Except StorageError (Option TransitionRecord) :=
  match S.idempotency[key]? with
  | none => .ok none
  | some seq =>
    match S.transitions[seq]? with
    | some record => .ok (some record)
    | none => .error (.notFound ("transition seq " ++ toString seq))

/-! ### The atomic transition -/

/-- Step 2 of `execute_transition`: upsert the projection row, checking the version of a row that
is already there. -/
def upsertProjection (tx : Store) (newState : EntityState) : Except StorageError Store :=
  let key := entityStateKey newState.entityId newState.machine
  let written : Store := { tx with entityStates := tx.entityStates.insert key newState }
  match tx.entityStates[key]? with
  | some existing =>
    let expectedPrev := newState.version - 1
    if existing.version ≠ expectedPrev then
      .error (.versionConflict newState.entityId expectedPrev existing.version)
    else .ok written
  | none => .ok written

/-- Step 4 of `execute_transition`: bind the idempotency key, refusing one that is bound. -/
def bindIdempotencyKey (tx : Store) (record : TransitionRecord) : Except StorageError Store :=
  match record.idempotencyKey with
  | none => .ok tx
  | some key =>
    if tx.idempotency[key]?.isSome then
      .error (.alreadyExists ("idempotency key '" ++ key ++ "'"))
    else .ok { tx with idempotency := tx.idempotency.insert key record.sequence }

/-- `execute_transition`. The counter, the log and the projection are written before the last
check that can fail; the error then drops the whole transaction. -/
def executeTransition (S : Store) (record : TransitionRecord) (newState : EntityState)
    (effects : List Effect) : Except StorageError (ℕ × Store) := do
  let (seq, tx) := nextSequenceInTx S
  let record := { record with sequence := seq }
  let tx := writeRecord tx record
  let tx ← upsertProjection tx newState
  let tx := writeEffects tx effects
  let tx ← bindIdempotencyKey tx record
  return (seq, tx)

/-- `current_sequence`. -/
def currentSequence (S : Store) : ℕ := S.sequence

end RedbEngine

/-- The pending effects, in the order of the table. -/
def Store.pending (S : Store) : List Effect :=
  S.effects.values.filter fun effect => effect.status == .pending

/-- The scan returns the front of the pending effects. -/
theorem getPendingEffects_eq (S : Store) (limit : ℕ) :
    RedbEngine.getPendingEffects S limit = S.pending.take limit :=
  boundedScan_eq ..

/-! ### What a commit does -/

/-- Everything a successful `execute_transition` checks and does, table by table. -/
structure Commit (S : Store) (record : TransitionRecord) (newState : EntityState)
    (written : List Effect) (S' : Store) : Prop where
  /-- A row already there has the version the caller read. -/
  version_ok : ∀ row, S.entityStates[entityStateKey newState.entityId newState.machine]? = some row →
    row.version = newState.version - 1
  /-- The idempotency key, if there is one, is not bound yet. -/
  key_free : ∀ key, record.idempotencyKey = some key → S.idempotency[key]? = none
  machines : S'.machines = S.machines
  entityStates : S'.entityStates
    = S.entityStates.insert (entityStateKey newState.entityId newState.machine) newState
  transitions : S'.transitions
    = S.transitions.insert (S.sequence + 1) { record with sequence := S.sequence + 1 }
  transitionsById : S'.transitionsById = S.transitionsById.insert record.id (S.sequence + 1)
  entityTransitions : S'.entityTransitions = S.entityTransitions.insert
    (entityTransitionKey record.entityId record.machine (S.sequence + 1)) (S.sequence + 1)
  effects : S'.effects
    = written.foldl (fun tbl effect => tbl.insert effect.id effect) S.effects
  effectsByTxn : S'.effectsByTxn = written.foldl
    (fun byTxn effect => byTxn.insert (effectByTxnKey effect.transitionId effect.id) effect.id)
    S.effectsByTxn
  idempotency : S'.idempotency = record.idempotencyKey.elim S.idempotency fun key =>
    S.idempotency.insert key (S.sequence + 1)
  metaTable : S'.metaTable = S.metaTable.insert metaSequence (S.sequence + 1)

namespace RedbEngine

theorem upsertProjection_eq_ok_iff {tx tx' : Store} {newState : EntityState} :
    upsertProjection tx newState = .ok tx' ↔
      (∀ row, tx.entityStates[entityStateKey newState.entityId newState.machine]? = some row →
        row.version = newState.version - 1) ∧
      tx' = { tx with
        entityStates := tx.entityStates.insert
          (entityStateKey newState.entityId newState.machine) newState } := by
  unfold upsertProjection
  dsimp only
  cases tx.entityStates[entityStateKey newState.entityId newState.machine]? with
  | none => exact ⟨fun h => ⟨fun _ hrow => (nomatch hrow), (Except.ok.inj h).symm⟩,
      fun h => congrArg Except.ok h.2.symm⟩
  | some row =>
    dsimp only
    by_cases hv : row.version = newState.version - 1
    · rw [if_neg (not_not.mpr hv)]
      refine ⟨fun h => ⟨fun row' hrow => ?_, (Except.ok.inj h).symm⟩,
        fun h => congrArg Except.ok h.2.symm⟩
      exact Option.some.inj hrow ▸ hv
    · rw [if_pos hv]
      exact ⟨fun h => (nomatch h), fun h => absurd (h.1 row rfl) hv⟩

theorem bindIdempotencyKey_eq_ok_iff {tx tx' : Store} {record : TransitionRecord} :
    bindIdempotencyKey tx record = .ok tx' ↔
      (∀ key, record.idempotencyKey = some key → tx.idempotency[key]? = none) ∧
      tx' = { tx with
        idempotency := record.idempotencyKey.elim tx.idempotency fun key =>
          tx.idempotency.insert key record.sequence } := by
  unfold bindIdempotencyKey
  cases record.idempotencyKey with
  | none => exact ⟨fun h => ⟨fun _ hkey => (nomatch hkey), (Except.ok.inj h).symm⟩,
      fun h => congrArg Except.ok h.2.symm⟩
  | some key =>
    dsimp only
    cases h : tx.idempotency[key]? with
    | none =>
      rw [if_neg (by simp)]
      refine ⟨fun h' => ⟨fun key' hkey => ?_, (Except.ok.inj h').symm⟩,
        fun h' => congrArg Except.ok h'.2.symm⟩
      exact Option.some.inj hkey ▸ h
    | some s =>
      rw [if_pos (by simp)]
      exact ⟨fun h' => (nomatch h'), fun h' => (nomatch h.symm.trans (h'.1 key rfl))⟩

/-- **The write path, read off its success.** -/
theorem executeTransition_eq_ok_iff {S S' : Store} {record : TransitionRecord}
    {newState : EntityState} {effects : List Effect} {seq : ℕ} :
    executeTransition S record newState effects = .ok (seq, S') ↔
      seq = S.sequence + 1 ∧ Commit S record newState effects S' := by
  simp only [executeTransition, nextSequenceInTx, bind_eq_ok_iff, upsertProjection_eq_ok_iff,
    bindIdempotencyKey_eq_ok_iff]
  constructor
  · rintro ⟨_, ⟨hver, rfl⟩, _, ⟨hkey, rfl⟩, h⟩
    obtain ⟨rfl, rfl⟩ := Prod.mk.inj (Except.ok.inj h)
    exact ⟨rfl, hver, hkey, rfl, rfl, rfl, rfl, rfl, rfl, rfl, rfl, rfl⟩
  · rintro ⟨rfl, hver, hkey, hm, hes, ht, hid, het, he, het', hi, hmeta⟩
    refine ⟨_, ⟨hver, rfl⟩, _, ⟨hkey, rfl⟩, ?_⟩
    cases S'
    simp only at hm hes ht hid het he het' hi hmeta
    subst hm hes ht hid het he het' hi hmeta
    rfl

/-- The two checks of `execute_transition` are all that can stop it. -/
theorem commit_exists (S : Store) (record : TransitionRecord) (newState : EntityState)
    (written : List Effect)
    (hver : ∀ row : EntityState,
      S.entityStates[entityStateKey newState.entityId newState.machine]? = some row →
        row.version = newState.version - 1)
    (hkey : ∀ key, record.idempotencyKey = some key → S.idempotency[key]? = none) :
    ∃ S', Commit S record newState written S' := by
  let tx := writeRecord (nextSequenceInTx S).2 { record with sequence := S.sequence + 1 }
  exact ⟨{ writeEffects tx written with
    entityStates := S.entityStates.insert
      (entityStateKey newState.entityId newState.machine) newState
    idempotency := record.idempotencyKey.elim S.idempotency fun key =>
      S.idempotency.insert key (S.sequence + 1) },
    hver, hkey, rfl, rfl, rfl, rfl, rfl, rfl, rfl, rfl, rfl⟩

end RedbEngine

end StateMaster
