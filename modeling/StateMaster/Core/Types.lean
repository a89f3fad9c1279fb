import StateMaster.Framework.Json

/-!
# The data model of `smdb-core`

The records every other crate passes around. Names and machines are opaque strings: nothing in the
source restricts the characters they may contain.

Sequences and versions are `u64` in the source and `ℕ` here; the two agree as long as the numbers
computed from them stay below `2 ^ 64`. A sequence only grows, once per log write. So does a version
in a database the engine alone writes to, but `upsert_entity_state` of the storage interface stores
whatever version its caller gives. Where a number is chosen by a client and then computed with (a
stream cursor), the wrap-around of `u64` is written out at the place of the computation. A
`DateTime<Utc>` is its number of nanoseconds since the epoch.
-/

open Framework

namespace StateMaster

abbrev EntityId := String
abbrev MachineName := String
abbrev StateName := String
abbrev EventName := String
abbrev GuardName := String
abbrev EffectName := String
abbrev ActorId := String
abbrev TransitionId := String
abbrev IdempotencyKey := String
abbrev Context := Json
abbrev DateTime := ℤ

/-- The materialised position of one entity in one machine. -/
structure EntityState where
  entityId : EntityId
  machine : MachineName
  currentState : StateName
  version : ℕ
  updatedAt : DateTime
  createdAt : DateTime
deriving DecidableEq, Repr

/-- One immutable entry of the transition log. `sequence` is `0` until storage assigns it, and
`version` is the entity's version after the transition. -/
structure TransitionRecord where
  id : TransitionId
  sequence : ℕ
  entityId : EntityId
  machine : MachineName
  fromState : StateName
  toState : StateName
  event : EventName
  actor : ActorId
  ctx : Context
  idempotencyKey : Option IdempotencyKey
  version : ℕ
  timestamp : DateTime
deriving DecidableEq, Repr

inductive EffectStatus where
  | pending
  | published
  | failed
deriving DecidableEq, Repr

/-- A row of the outbox. -/
structure Effect where
  id : String
  transitionId : TransitionId
  effectName : EffectName
  payload : Json
  status : EffectStatus
  createdAt : DateTime
deriving DecidableEq, Repr

/-- `Effect::new`: the id and the time of creation are drawn by the caller of this model. -/
def Effect.new (id : String) (createdAt : DateTime) (transitionId : TransitionId)
    (effectName : EffectName) (payload : Json) : Effect :=
  { id, transitionId, effectName, payload, status := .pending, createdAt }

/-- An effect as it travels on the change stream. -/
structure EffectPayload where
  effectName : EffectName
  payload : Json
deriving DecidableEq, Repr

/-- The published form of a committed transition. -/
structure ChangeRecord where
  sequence : ℕ
  transitionId : TransitionId
  entityId : EntityId
  machine : MachineName
  fromState : StateName
  toState : StateName
  event : EventName
  actor : ActorId
  version : ℕ
  timestamp : DateTime
  ctx : Context
  effects : List EffectPayload
deriving DecidableEq, Repr

/-- The errors of `smdb-core`. -/
inductive CoreError where
  | illegalTransition (entityId : EntityId) (machine : MachineName) (event : EventName)
      (currentState : StateName)
  | guardFailed (guardName : GuardName) (reason : String)
  | versionConflict (entityId : EntityId) (machine : MachineName) (expected actual : ℕ)
  | unknownMachine (name : MachineName)
  | unknownEntity (entityId : EntityId) (machine : MachineName)
  | invalidDefinition (reason : String)
  | duplicateState (name : StateName)
  | duplicateEvent (name : EventName)
deriving DecidableEq, Repr

/-- The `Display` text of a `CoreError`. -/
def CoreError.toText : CoreError → String
  | .illegalTransition entityId machine event currentState =>
    "illegal transition: entity '" ++ entityId ++ "' in machine '" ++ machine
      ++ "' has no transition for event '" ++ event ++ "' from state '" ++ currentState ++ "'"
  | .guardFailed guardName reason => "guard '" ++ guardName ++ "' failed: " ++ reason
  | .versionConflict entityId machine expected actual =>
    "version conflict: entity '" ++ entityId ++ "' in machine '" ++ machine
      ++ "' expected version " ++ toString expected ++ " but found " ++ toString actual
  | .unknownMachine name => "unknown machine: '" ++ name ++ "'"
  | .unknownEntity entityId machine =>
    "unknown entity '" ++ entityId ++ "' in machine '" ++ machine ++ "'"
  | .invalidDefinition reason => "invalid machine definition: " ++ reason
  | .duplicateState name => "duplicate state: '" ++ name ++ "'"
  | .duplicateEvent name => "duplicate event: '" ++ name ++ "'"

end StateMaster
