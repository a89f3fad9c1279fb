import StateMaster.Core.Machine
import StateMaster.Framework.Table
import StateMaster.Framework.Text

/-!
# The tables of `RedbEngine`

Nine ordered tables. In the database a record is stored as its MessagePack encoding; the model
stores what is read back from it. This is the record itself, except for a machine definition, where
a null payload comes back as none (`MachineDefinition.stored`). A codec failure is one of the faults
an operation may meet (`Fault`). A row nested deeper than `nestingLimit` is written like any other
and never read back: a read that comes across one is a failing read, and what is said here of a read
without a fault assumes that no such row is among those it visits.

The keys of the composite tables are flattened with U+0000 between the parts. Nothing keeps that
character out of the parts, and what can be read back from a key depends on it:

* `entityStateKey_injective_of_nulFree` — NUL-free entity ids make the pair readable;
* `entityTransitionKey_inj` — the sequence at the end is always readable, whatever the names are;
* `startsWith_entityTransitionKey_iff` — the prefix test of the history scan asks only about the
  names;
* `startsWith_entityTransitionPrefix_iff` — and NUL-free names pass it for their own pair only.
-/

open Framework Framework.Text

namespace StateMaster

/-- The errors of `smdb-storage`. -/
inductive StorageError where
  | notFound (what : String)
  | alreadyExists (what : String)
  | versionConflict (entityId : String) (expected actual : ℕ)
  | transactionFailed (reason : String)
  | corrupted (reason : String)
  | io (reason : String)
  | internal (reason : String)
deriving DecidableEq, Repr

/-- The `Display` text of a `StorageError`. -/
def StorageError.toText : StorageError → String
  | .notFound what => "not found: " ++ what
  | .alreadyExists what => "already exists: " ++ what
  | .versionConflict entityId expected actual =>
    "version conflict: entity '" ++ entityId ++ "' expected version " ++ toString expected
      ++ " but found " ++ toString actual
  | .transactionFailed reason => "transaction failed: " ++ reason
  | .corrupted reason => "corrupted data: " ++ reason
  | .io reason => "io error: " ++ reason
  | .internal reason => "internal error: " ++ reason

/-- What the database or the codec may fail with in the middle of any operation. The `From`
conversions of the source send every such failure to one of these four kinds, never to
`NotFound`, `AlreadyExists` or `VersionConflict`. -/
inductive Fault where
  | transactionFailed (reason : String)
  | corrupted (reason : String)
  | io (reason : String)
  | internal (reason : String)
deriving DecidableEq, Repr

/-- A fault as the error it surfaces as. -/
def Fault.toError : Fault → StorageError
  | .transactionFailed reason => .transactionFailed reason
  | .corrupted reason => .corrupted reason
  | .io reason => .io reason
  | .internal reason => .internal reason

/-- An operation that meets a fault fails with it; a write transaction is dropped uncommitted. -/
def withFault {α : Type} (fault : Option Fault) (op : Except StorageError α) :
    Except StorageError α :=
  match fault with
  | some f => .error f.toError
  | none => op

@[simp] theorem withFault_none {α : Type} (op : Except StorageError α) :
    withFault none op = op := rfl

/-- What a faulty operation returns was returned by the operation itself. -/
theorem withFault_eq_ok {α : Type} {fault : Option Fault} {op : Except StorageError α} {a : α}
    (h : withFault fault op = .ok a) : op = .ok a := by
  cases fault with
  | none => exact h
  | some f => exact absurd h (by simp [withFault])

/-- The database: one field per table of the source, and the `meta` table for the counter. -/
structure Store where
  machines : Table String MachineDefinition
  entityStates : Table String EntityState
  transitions : Table ℕ TransitionRecord
  transitionsById : Table String ℕ
  entityTransitions : Table String ℕ
  effects : Table String Effect
  effectsByTxn : Table String String
  idempotency : Table String ℕ
  metaTable : Table String ℕ

/-- The database `ensure_tables` leaves behind: every table there, and empty. -/
def Store.empty : Store where
  machines := ∅
  entityStates := ∅
  transitions := ∅
  transitionsById := ∅
  entityTransitions := ∅
  effects := ∅
  effectsByTxn := ∅
  idempotency := ∅
  metaTable := ∅

/-- `META_SEQUENCE`. -/
def metaSequence : String := "sequence"

/-- The counter in `META`, `0` before the first log write. -/
def Store.sequence (S : Store) : ℕ := S.metaTable[metaSequence]?.getD 0

/-- The log, in sequence order. -/
def Store.log (S : Store) : List TransitionRecord := S.transitions.values

/-! ### Keys -/

/-- The separator of the composite keys. -/
def nul : String := "\x00"

/-- The character of the separator. -/
def nulChar : Char := '\x00'

/-- A name without the separator. -/
def NulFree (s : String) : Prop := nulChar ∉ s.toList

instance (s : String) : Decidable (NulFree s) :=
  inferInstanceAs (Decidable (nulChar ∉ s.toList))

/-- `entity_state_key`. -/
def entityStateKey (entityId machine : String) : String :=
  entityId ++ nul ++ machine

/-- `entity_transition_key`: the sequence is zero-padded to 20 digits. -/
def entityTransitionKey (entityId machine : String) (seq : ℕ) : String :=
  entityId ++ nul ++ machine ++ nul ++ padDecimal 20 seq

/-- `entity_transition_prefix`. -/
def entityTransitionPrefix (entityId machine : String) : String :=
  entityId ++ nul ++ machine ++ nul

/-- `effect_by_txn_key`. -/
def effectByTxnKey (transitionId effectId : String) : String :=
  transitionId ++ nul ++ effectId

/-- `effect_by_txn_prefix`. -/
def effectByTxnPrefix (transitionId : String) : String :=
  transitionId ++ nul

/-- The storage key of the entity a record belongs to. -/
def TransitionRecord.stateKey (r : TransitionRecord) : String :=
  entityStateKey r.entityId r.machine

theorem nul_toList : nul.toList = [nulChar] := by decide

theorem entityStateKey_toList (entityId machine : String) :
    (entityStateKey entityId machine).toList
      = entityId.toList ++ nulChar :: machine.toList := by
  unfold entityStateKey
  rw [String.toList_append, String.toList_append, nul_toList, List.append_assoc,
    List.singleton_append]

theorem entityTransitionPrefix_toList (entityId machine : String) :
    (entityTransitionPrefix entityId machine).toList
      = (entityStateKey entityId machine).toList ++ [nulChar] := by
  unfold entityTransitionPrefix entityStateKey
  rw [String.toList_append, nul_toList]

theorem entityTransitionKey_toList (entityId machine : String) (seq : ℕ) :
    (entityTransitionKey entityId machine seq).toList
      = (entityStateKey entityId machine).toList ++ [nulChar] ++ (padDecimal 20 seq).toList := by
  rw [← entityTransitionPrefix_toList]
  unfold entityTransitionKey entityTransitionPrefix
  rw [String.toList_append]

theorem nulChar_notMem_padDecimal (width n : ℕ) : nulChar ∉ (padDecimal width n).toList :=
  fun h => absurd (isDigit_of_mem_padDecimal h) (by decide)

/-- With NUL-free entity ids the state key determines the pair. -/
theorem entityStateKey_injective_of_nulFree {e m e' m' : String} (he : NulFree e)
    (he' : NulFree e') (h : entityStateKey e m = entityStateKey e' m') : e = e' ∧ m = m' := by
  have hl := congrArg String.toList h
  rw [entityStateKey_toList, entityStateKey_toList] at hl
  obtain ⟨h₁, h₂⟩ := append_sep_inj_left he he' hl
  exact ⟨String.toList_inj.mp h₁, String.toList_inj.mp h₂⟩

/-- The index key determines the sequence at its end and the prefix before it, whatever the names
contain. -/
theorem entityTransitionKey_inj {e m e' m' : String} {s s' : ℕ}
    (h : entityTransitionKey e m s = entityTransitionKey e' m' s') :
    entityStateKey e m = entityStateKey e' m' ∧ s = s' := by
  have hl := congrArg String.toList h
  rw [entityTransitionKey_toList, entityTransitionKey_toList, ← List.append_cons,
    ← List.append_cons] at hl
  obtain ⟨h₁, h₂⟩ := append_sep_inj_right (nulChar_notMem_padDecimal 20 s)
    (nulChar_notMem_padDecimal 20 s') hl
  exact ⟨String.toList_inj.mp h₁, padDecimal_injective 20 (String.toList_inj.mp h₂)⟩

/-- **What the history scan selects.** An index key starts with the prefix of `(e, m)` exactly when
the names before its sequence do: the digits at the end hold no separator. -/
theorem startsWith_entityTransitionKey_iff {e m e' m' : String} {s : ℕ} :
    startsWith (entityTransitionKey e' m' s) (entityTransitionPrefix e m) = true ↔
      startsWith (entityTransitionPrefix e' m') (entityTransitionPrefix e m) = true := by
  rw [startsWith_iff, startsWith_iff, entityTransitionKey_toList,
    entityTransitionPrefix_toList, entityTransitionPrefix_toList]
  exact prefix_append_iff_of_notMem (nulChar_notMem_padDecimal 20 s)

/-- The names of a NUL-free pair are selected by that pair only, whatever the reader asks for. -/
theorem startsWith_entityTransitionPrefix_iff {e m e' m' : String} (he' : NulFree e')
    (hm' : NulFree m') :
    startsWith (entityTransitionPrefix e' m') (entityTransitionPrefix e m) = true ↔
      e' = e ∧ m' = m := by
  rw [startsWith_iff, entityTransitionPrefix_toList, entityTransitionPrefix_toList,
    entityStateKey_toList, entityStateKey_toList]
  constructor
  · intro h
    obtain ⟨he, hm⟩ := parts_eq_of_prefix he' hm' h
    exact ⟨String.toList_inj.mp he.symm, String.toList_inj.mp hm.symm⟩
  · rintro ⟨rfl, rfl⟩
    exact List.prefix_refl _

end StateMaster
