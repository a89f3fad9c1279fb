import StateMaster.Storage.Redb

/-!
# The log representation

Five tables and a counter represent one append-only log. `WriteCall` is the write interface of the
storage engine; a call may meet a fault, and a call that fails is a dropped transaction.

Seven operations write the tables, but only two things can happen to the log: nothing (`KeepsLog`)
or one record appended under the next sequence (`Appends`). `WriteCall.run_cases` says so once, and
`LogInvariant` is preserved by either, whoever performs it: the storage interface here and the
engine's commits later.

* `LogInvariant` — dense keys, self-describing records, the entity index in bijection with the
  records, and idempotency entries that point at records carrying the key;
* `log_representation` — the invariant along every sequence of write calls, with the id index.
-/

open Framework Framework.Text

namespace StateMaster

/-! ### The write interface -/

/-- The write calls of `StorageEngine`. -/
inductive WriteCall where
  | storeMachine (machine : MachineDefinition)
  | upsertEntityState (state : EntityState)
  | appendTransition (record : TransitionRecord)
  | insertEffects (effects : List Effect)
  | markEffectPublished (effectId : String)
  | markEffectFailed (effectId : String)
  | executeTransition (record : TransitionRecord) (newState : EntityState) (effects : List Effect)

namespace WriteCall

/-- The tables a call would commit, the value it returns beside `Ok` left out. -/
def run (S : Store) : WriteCall → Except StorageError Store
  | .storeMachine machine => .ok (RedbEngine.storeMachine S machine)
  | .upsertEntityState state => RedbEngine.upsertEntityState S state
  | .appendTransition record => .ok (RedbEngine.appendTransition S record).2
  | .insertEffects effects => .ok (RedbEngine.insertEffects S effects)
  | .markEffectPublished effectId => RedbEngine.markEffectPublished S effectId
  | .markEffectFailed effectId => RedbEngine.markEffectFailed S effectId
  | .executeTransition record newState effects =>
    (RedbEngine.executeTransition S record newState effects).map Prod.snd

/-- The record a call writes to the log. -/
def record : WriteCall → Option TransitionRecord
  | .appendTransition record => some record
  | .executeTransition record _ _ => some record
  | _ => none

end WriteCall

/-- One call on the storage engine: what is asked, and the fault it may meet. -/
structure StorageStep where
  call : WriteCall
  fault : Option Fault

namespace StorageStep

/-- The outcome of the call. -/
def outcome (S : Store) (step : StorageStep) : Except StorageError Store :=
  withFault step.fault (step.call.run S)

/-- The database after the call: a failed call is a write transaction that was never committed. -/
def exec (S : Store) (step : StorageStep) : Store :=
  match step.outcome S with
  | .ok S' => S'
  | .error _ => S

/-- The id of the record a call logs, none if it fails or writes no log row. -/
def loggedId (S : Store) (step : StorageStep) : Option TransitionId :=
  match step.outcome S with
  | .ok _ => step.call.record.map TransitionRecord.id
  | .error _ => none

end StorageStep

/-- The storage engine as a system: every call is enabled in every state. -/
def storage : System Store StorageStep where
  step S step := some (step.exec S)

/-- The ids of the records a sequence of calls logs: one for each log write. -/
def loggedIds (S : Store) : List StorageStep → List TransitionId
  | [] => []
  | step :: steps => (step.loggedId S).toList ++ loggedIds (step.exec S) steps

/-! ### The two things that can happen to the log -/

/-- The log and its indexes are as before. -/
structure KeepsLog (S S' : Store) : Prop where
  transitions : S'.transitions = S.transitions
  transitionsById : S'.transitionsById = S.transitionsById
  entityTransitions : S'.entityTransitions = S.entityTransitions
  idempotency : S'.idempotency = S.idempotency
  metaTable : S'.metaTable = S.metaTable

/-- One record is appended under the next sequence, and its key may get bound to it. -/
structure Appends (S : Store) (record : TransitionRecord) (S' : Store) : Prop where
  transitions : S'.transitions
    = S.transitions.insert (S.sequence + 1) { record with sequence := S.sequence + 1 }
  transitionsById : S'.transitionsById = S.transitionsById.insert record.id (S.sequence + 1)
  entityTransitions : S'.entityTransitions = S.entityTransitions.insert
    (entityTransitionKey record.entityId record.machine (S.sequence + 1)) (S.sequence + 1)
  idempotency : S'.idempotency = S.idempotency ∨ ∃ key, record.idempotencyKey = some key ∧
    S'.idempotency = S.idempotency.insert key (S.sequence + 1)
  metaTable : S'.metaTable = S.metaTable.insert metaSequence (S.sequence + 1)

theorem KeepsLog.sequence {S S' : Store} (h : KeepsLog S S') : S'.sequence = S.sequence := by
  unfold Store.sequence
  rw [h.metaTable]

theorem Appends.sequence {S S' : Store} {record : TransitionRecord} (h : Appends S record S') :
    S'.sequence = S.sequence + 1 := by
  have hm := h.metaTable
  unfold Store.sequence at hm ⊢
  rw [hm, Table.get_insert_self, Option.getD_some]

theorem Commit.appends {S S' : Store} {record : TransitionRecord} {newState : EntityState}
    {effects : List Effect} (h : Commit S record newState effects S') :
    Appends S record S' where
  transitions := h.transitions
  transitionsById := h.transitionsById
  entityTransitions := h.entityTransitions
  idempotency := by
    rw [h.idempotency]
    cases hkey : record.idempotencyKey with
    | none => exact Or.inl rfl
    | some key => exact Or.inr ⟨key, rfl, rfl⟩
  metaTable := h.metaTable

theorem upsertEntityState_keepsLog {S S' : Store} {state : EntityState}
    (h : RedbEngine.upsertEntityState S state = .ok S') : KeepsLog S S' := by
  unfold RedbEngine.upsertEntityState at h
  dsimp only at h
  split at h
  · split at h
    · exact absurd h (by simp)
    · obtain rfl := Except.ok.inj h
      exact ⟨rfl, rfl, rfl, rfl, rfl⟩
  · obtain rfl := Except.ok.inj h
    exact ⟨rfl, rfl, rfl, rfl, rfl⟩

theorem updateEffectStatus_keepsLog {S S' : Store} {effectId : String} {status : EffectStatus}
    (h : RedbEngine.updateEffectStatus S effectId status = .ok S') : KeepsLog S S' := by
  unfold RedbEngine.updateEffectStatus at h
  split at h
  · obtain rfl := Except.ok.inj h
    exact ⟨rfl, rfl, rfl, rfl, rfl⟩
  · exact absurd h (by simp)

theorem upsertEntityState_effects {S S' : Store} {state : EntityState}
    (h : RedbEngine.upsertEntityState S state = .ok S') : S'.effects = S.effects := by
  unfold RedbEngine.upsertEntityState at h
  dsimp only at h
  split at h
  · split at h
    · exact absurd h (by simp)
    · obtain rfl := Except.ok.inj h
      rfl
  · obtain rfl := Except.ok.inj h
    rfl

/-- The call that runs `execute_transition` succeeds by a commit. -/
theorem WriteCall.commit_of_run {S S' : Store} {record : TransitionRecord}
    {newState : EntityState} {effects : List Effect}
    (h : (WriteCall.executeTransition record newState effects).run S = .ok S') :
    Commit S record newState effects S' := by
  change Except.map Prod.snd (RedbEngine.executeTransition S record newState effects) = _ at h
  cases hx : RedbEngine.executeTransition S record newState effects with
  | error e =>
    rw [hx] at h
    exact absurd h (by simp [Except.map])
  | ok p =>
    rw [hx] at h
    obtain rfl := Except.ok.inj h
    exact (RedbEngine.executeTransition_eq_ok_iff.mp hx).2

/-- **What a write call does to the log.** -/
theorem WriteCall.run_cases {S S' : Store} {call : WriteCall} (h : call.run S = .ok S') :
    (call.record = none ∧ KeepsLog S S') ∨
      ∃ record, call.record = some record ∧ Appends S record S' := by
  cases call with
  | storeMachine machine =>
    obtain rfl := Except.ok.inj h
    exact Or.inl ⟨rfl, rfl, rfl, rfl, rfl, rfl⟩
  | upsertEntityState state => exact Or.inl ⟨rfl, upsertEntityState_keepsLog h⟩
  | appendTransition record =>
    obtain rfl := Except.ok.inj h
    exact Or.inr ⟨record, rfl, rfl, rfl, rfl, Or.inl rfl, rfl⟩
  | insertEffects effects =>
    obtain rfl := Except.ok.inj h
    exact Or.inl ⟨rfl, rfl, rfl, rfl, rfl, rfl⟩
  | markEffectPublished effectId => exact Or.inl ⟨rfl, updateEffectStatus_keepsLog h⟩
  | markEffectFailed effectId => exact Or.inl ⟨rfl, updateEffectStatus_keepsLog h⟩
  | executeTransition record newState effects =>
    exact Or.inr ⟨record, rfl, (WriteCall.commit_of_run h).appends⟩

/-! ### The invariant -/

/-- The log is dense, its records know their place, the entity index lists each of them exactly
once, and an idempotency entry points at a record that carries its key. -/
structure LogInvariant (S : Store) : Prop where
  present : ∀ s : ℕ, (∃ r, S.transitions[s]? = some r) ↔ 1 ≤ s ∧ s ≤ S.sequence
  sequence_eq : ∀ (s : ℕ) (r : TransitionRecord), S.transitions[s]? = some r →
    r.sequence = s
  byEntity : ∀ (key : String) (s : ℕ), S.entityTransitions[key]? = some s ↔
    ∃ r : TransitionRecord, S.transitions[s]? = some r ∧
      key = entityTransitionKey r.entityId r.machine s
  keyed : ∀ (key : IdempotencyKey) (s : ℕ), S.idempotency[key]? = some s →
    ∃ r : TransitionRecord, S.transitions[s]? = some r ∧ r.idempotencyKey = some key

theorem LogInvariant.empty : LogInvariant Store.empty where
  present s := by
    change (∃ r, (∅ : Table ℕ TransitionRecord)[s]? = some r) ↔ 1 ≤ s ∧ s ≤ 0
    simp only [Table.get_empty, reduceCtorEq, exists_false, false_iff]
    omega
  sequence_eq s r h := by
    change (∅ : Table ℕ TransitionRecord)[s]? = some r at h
    exact absurd h (by simp)
  byEntity key s := by
    change (∅ : Table String ℕ)[key]? = some s ↔
      ∃ r, (∅ : Table ℕ TransitionRecord)[s]? = some r ∧ _
    simp
  keyed key s h := by
    change (∅ : Table String ℕ)[key]? = some s at h
    exact absurd h (by simp)

/-- The next sequence is not taken. -/
theorem LogInvariant.next_free {S : Store} (hS : LogInvariant S) {s : ℕ}
    (hs : S.sequence < s) : S.transitions[s]? = none := by
  cases h : S.transitions[s]? with
  | none => rfl
  | some r => exact absurd ((hS.present s).mp ⟨r, h⟩).2 (by omega)

theorem LogInvariant.le_sequence {S : Store} (hS : LogInvariant S) {s : ℕ}
    {r : TransitionRecord} (h : S.transitions[s]? = some r) : 1 ≤ s ∧ s ≤ S.sequence :=
  (hS.present s).mp ⟨r, h⟩

theorem KeepsLog.invariant {S S' : Store} (h : KeepsLog S S') (hS : LogInvariant S) :
    LogInvariant S' where
  present := by rw [h.transitions, h.sequence]; exact hS.present
  sequence_eq := by rw [h.transitions]; exact hS.sequence_eq
  byEntity := by rw [h.transitions, h.entityTransitions]; exact hS.byEntity
  keyed := by rw [h.transitions, h.idempotency]; exact hS.keyed

/-- The record just appended, and every other sequence as it was. -/
theorem Appends.get {S S' : Store} {record : TransitionRecord} (h : Appends S record S')
    (s : ℕ) : S'.transitions[s]? =
      if S.sequence + 1 = s then some { record with sequence := S.sequence + 1 }
      else S.transitions[s]? := by
  rw [h.transitions, Table.get_insert]

/-- **The log is append-only.** What is logged stays logged, unaltered. -/
theorem Appends.transitions_mono {S S' : Store} {record : TransitionRecord}
    (h : Appends S record S') (hS : LogInvariant S) {s : ℕ} {r : TransitionRecord}
    (hr : S.transitions[s]? = some r) : S'.transitions[s]? = some r := by
  have hle := (hS.le_sequence hr).2
  rw [h.get, if_neg (by omega), hr]

theorem Appends.invariant {S S' : Store} {record : TransitionRecord} (h : Appends S record S')
    (hS : LogInvariant S) : LogInvariant S' where
  present s := by
    rw [h.sequence, h.get]
    by_cases hs : S.sequence + 1 = s
    · rw [if_pos hs]
      exact ⟨fun _ => by omega, fun _ => ⟨_, rfl⟩⟩
    · rw [if_neg hs, hS.present s]
      omega
  sequence_eq s r hr := by
    rw [h.get] at hr
    split at hr
    · next hs =>
      obtain rfl := Option.some.inj hr
      exact hs
    · exact hS.sequence_eq s r hr
  byEntity key s := by
    -- A key ends in the sequence, so the new one is not among the old ones.
    rw [h.entityTransitions, h.transitions]
    refine Table.index_insert
      (fun s (r : TransitionRecord) => entityTransitionKey r.entityId r.machine s) hS.byEntity
      { record with sequence := S.sequence + 1 } (hS.next_free (Nat.lt_succ_self S.sequence))
      (fun s r hr heq => ?_) key s
    have hle := (hS.le_sequence hr).2
    exact absurd (entityTransitionKey_inj heq).2 (by omega)
  keyed key s hk := by
    rcases h.idempotency with hi | ⟨key', hkey', hi⟩
    · rw [hi] at hk
      obtain ⟨r, hr, hrk⟩ := hS.keyed key s hk
      exact ⟨r, h.transitions_mono hS hr, hrk⟩
    · rw [hi, Table.get_insert] at hk
      split at hk
      · next heq =>
        obtain rfl := Option.some.inj hk
        refine ⟨_, by rw [h.get, if_pos rfl], ?_⟩
        rw [← heq]
        exact hkey'
      · obtain ⟨r, hr, hrk⟩ := hS.keyed key s hk
        exact ⟨r, h.transitions_mono hS hr, hrk⟩

/-! ### The log as a list -/

theorem mem_log {S : Store} {r : TransitionRecord} :
    r ∈ S.log ↔ ∃ s : ℕ, S.transitions[s]? = some r := by
  unfold Store.log
  exact S.transitions.mem_values

theorem LogInvariant.sequence_le_of_mem {S : Store} (hS : LogInvariant S) {r : TransitionRecord}
    (hr : r ∈ S.log) : r.sequence ≤ S.sequence := by
  obtain ⟨s, hs⟩ := mem_log.mp hr
  rw [hS.sequence_eq s r hs]
  exact (hS.le_sequence hs).2

/-- An appended record is the last of the log. -/
theorem Appends.log {S S' : Store} {record : TransitionRecord} (h : Appends S record S')
    (hS : LogInvariant S) :
    S'.log = S.log ++ [{ record with sequence := S.sequence + 1 }] := by
  unfold Store.log Table.values
  rw [h.transitions, Table.toList_insert_of_forall_lt, List.map_append, List.map_singleton]
  intro s r hr
  have hle := (hS.le_sequence hr).2
  exact Nat.compare_eq_lt.mpr (by omega)

theorem KeepsLog.log {S S' : Store} (h : KeepsLog S S') : S'.log = S.log := by
  unfold Store.log
  rw [h.transitions]

/-- **The log is numbered from one.** -/
theorem LogInvariant.log_sequences {S : Store} (hS : LogInvariant S) :
    S.log.map TransitionRecord.sequence = List.range' 1 S.sequence := by
  -- A record's sequence is its key, so both lists are increasing; they have the same members.
  have hkeys : S.log.map TransitionRecord.sequence = S.transitions.toList.map Prod.fst := by
    unfold Store.log Table.values
    rw [List.map_map]
    refine List.map_congr_left fun p hp => ?_
    exact hS.sequence_eq p.1 p.2 (S.transitions.mem_toList.mp hp)
  have hsorted : (S.transitions.toList.map Prod.fst).Pairwise (· < ·) := by
    refine List.pairwise_map.mpr ((Table.toList_ordered S.transitions).imp ?_)
    intro a b hab
    exact Nat.compare_eq_lt.mp hab
  rw [hkeys]
  refine List.Perm.eq_of_pairwise (fun a b _ _ h h' => absurd h (by omega)) hsorted
    (List.pairwise_lt_range' ..) ((List.perm_ext_iff_of_nodup (hsorted.imp Nat.ne_of_lt)
      List.nodup_range').mpr fun s => ?_)
  rw [List.mem_range'_1, List.mem_map]
  constructor
  · rintro ⟨⟨k, r⟩, hp, rfl⟩
    have hle := hS.le_sequence (S.transitions.mem_toList.mp hp)
    exact ⟨hle.1, by omega⟩
  · rintro ⟨hpos, hle⟩
    obtain ⟨r, hr⟩ := (hS.present s).mpr ⟨hpos, by omega⟩
    exact ⟨(s, r), S.transitions.mem_toList.mpr hr, rfl⟩

theorem LogInvariant.length_log {S : Store} (hS : LogInvariant S) :
    S.log.length = S.sequence := by
  have h := congrArg List.length hS.log_sequences
  rwa [List.length_map, List.length_range'] at h

theorem LogInvariant.log_increasing {S : Store} (hS : LogInvariant S) :
    S.log.Pairwise fun r r' => r.sequence < r'.sequence := by
  have hsorted : (S.log.map TransitionRecord.sequence).Pairwise (· < ·) := by
    rw [hS.log_sequences]
    exact List.pairwise_lt_range' ..
  exact List.pairwise_map.mp hsorted

/-- Selecting the records past a number, in a list numbered from `k + 1`, drops the others. -/
theorem filter_lt_sequence {k : ℕ} {l : List TransitionRecord} (a : ℕ) (hka : k ≤ a)
    (hl : l.map TransitionRecord.sequence = List.range' (k + 1) l.length) :
    l.filter (fun r => decide (a < r.sequence)) = l.drop (a - k) := by
  induction l generalizing k with
  | nil => simp
  | cons r l ih =>
    rw [List.map_cons, List.length_cons, List.range'_succ] at hl
    obtain ⟨hr, hl⟩ := List.cons.inj hl
    by_cases hak : a = k
    · -- From here on every record is past `a`.
      subst hak
      rw [Nat.sub_self, List.drop_zero, List.filter_eq_self]
      intro r' hr'
      have hmem : r'.sequence ∈ (r :: l).map TransitionRecord.sequence :=
        List.mem_map_of_mem hr'
      rw [List.map_cons, hr, hl, ← List.range'_succ, List.mem_range'_1] at hmem
      exact decide_eq_true (by omega)
    · have hdrop : a - k = (a - (k + 1)) + 1 := by omega
      rw [List.filter_cons_of_neg (by simp only [hr, decide_eq_true_eq]; omega), hdrop,
        List.drop_succ_cons]
      exact ih (by omega) hl

/-- The records past a number are a suffix of the log. -/
theorem LogInvariant.filter_eq_drop {S : Store} (hS : LogInvariant S) (a : ℕ) :
    S.log.filter (fun r => decide (a < r.sequence)) = S.log.drop a := by
  have hnum := hS.log_sequences
  rw [← hS.length_log] at hnum
  exact filter_lt_sequence a (Nat.zero_le _) hnum

/-- Selecting the records up to a number takes them. -/
theorem filter_sequence_le {k : ℕ} {l : List TransitionRecord} (b : ℕ)
    (hl : l.map TransitionRecord.sequence = List.range' (k + 1) l.length) :
    l.filter (fun r => decide (r.sequence ≤ b)) = l.take (b - k) := by
  induction l generalizing k with
  | nil => simp
  | cons r l ih =>
    rw [List.map_cons, List.length_cons, List.range'_succ] at hl
    obtain ⟨hr, hl⟩ := List.cons.inj hl
    by_cases hbk : k < b
    · have htake : b - k = (b - (k + 1)) + 1 := by omega
      rw [List.filter_cons_of_pos (by simp only [hr, decide_eq_true_eq]; omega), htake,
        List.take_succ_cons, ih hl]
    · -- Nothing here or later is within `b`.
      rw [Nat.sub_eq_zero_of_le (by omega), List.take_zero, List.filter_eq_nil_iff]
      intro r' hr' hle
      have hmem : r'.sequence ∈ (r :: l).map TransitionRecord.sequence :=
        List.mem_map_of_mem hr'
      rw [List.map_cons, hr, hl, ← List.range'_succ, List.mem_range'_1] at hmem
      exact absurd (of_decide_eq_true hle) (by omega)

/-! ### The id index -/

/-- The id index lists exactly the records. It needs ids that differ, which storage does not
check. -/
def IdsIndexed (S : Store) : Prop :=
  ∀ (id : TransitionId) (s : ℕ), S.transitionsById[id]? = some s ↔
    ∃ r : TransitionRecord, S.transitions[s]? = some r ∧ r.id = id

theorem KeepsLog.idsIndexed {S S' : Store} (h : KeepsLog S S') (hS : IdsIndexed S) :
    IdsIndexed S' := by
  unfold IdsIndexed
  rw [h.transitions, h.transitionsById]
  exact hS

theorem Appends.idsIndexed {S S' : Store} {record : TransitionRecord} (h : Appends S record S')
    (hlog : LogInvariant S) (hS : IdsIndexed S)
    (hfresh : ∀ (s : ℕ) (r : TransitionRecord), S.transitions[s]? = some r →
      r.id ≠ record.id) : IdsIndexed S' := by
  intro id s
  rw [h.transitionsById, h.transitions]
  have hS' : ∀ (id : TransitionId) (s : ℕ), S.transitionsById[id]? = some s ↔
      ∃ r : TransitionRecord, S.transitions[s]? = some r ∧ id = r.id := by
    simpa only [IdsIndexed, eq_comm] using hS
  have hindex := Table.index_insert (fun _ (r : TransitionRecord) => r.id) hS'
    { record with sequence := S.sequence + 1 } (hlog.next_free (Nat.lt_succ_self S.sequence))
    (fun s r hr heq => hfresh s r hr heq.symm) id s
  simpa only [eq_comm] using hindex

/-! ### Runs of the storage engine -/

/-- **What one call does to the log**, with the record it adds to the list of log writes. -/
theorem StorageStep.exec_cases (S : Store) (step : StorageStep) :
    (step.loggedId S = none ∧ KeepsLog S (step.exec S)) ∨
      ∃ record, step.loggedId S = some record.id ∧ Appends S record (step.exec S) := by
  unfold StorageStep.exec StorageStep.loggedId
  cases hout : step.outcome S with
  | error e => exact Or.inl ⟨rfl, rfl, rfl, rfl, rfl, rfl⟩
  | ok S' =>
    rcases WriteCall.run_cases (withFault_eq_ok hout) with ⟨hrec, hkeeps⟩ | ⟨record, hrec, happ⟩
    · exact Or.inl ⟨by simp only [hrec, Option.map_none], hkeeps⟩
    · exact Or.inr ⟨record, by simp only [hrec, Option.map_some], happ⟩

theorem loggedIds_concat {S₀ S : Store} {steps : List StorageStep} (step : StorageStep)
    (hrun : storage.exec S₀ steps = some S) :
    loggedIds S₀ (steps ++ [step]) = loggedIds S₀ steps ++ (step.loggedId S).toList := by
  induction steps generalizing S₀ with
  | nil =>
    obtain rfl := Option.some.inj hrun
    simp only [List.nil_append, loggedIds, List.append_nil]
  | cons first rest ih =>
    simp only [List.cons_append, loggedIds, List.append_assoc]
    rw [ih hrun]

/-- What holds after every sequence of calls, whatever ids they carry: the invariant, a counter
that counts the log writes, and a log that holds no other ids than theirs. -/
theorem storage_run {steps : List StorageStep} {S : Store}
    (hrun : storage.exec Store.empty steps = some S) :
    LogInvariant S ∧ S.sequence = (loggedIds Store.empty steps).length ∧
      ∀ (s : ℕ) (r : TransitionRecord), S.transitions[s]? = some r →
        r.id ∈ loggedIds Store.empty steps := by
  refine System.exec_induction_labels
    (I := fun steps S => LogInvariant S ∧ S.sequence = (loggedIds Store.empty steps).length ∧
      ∀ (s : ℕ) (r : TransitionRecord), S.transitions[s]? = some r →
        r.id ∈ loggedIds Store.empty steps)
    ⟨LogInvariant.empty, rfl, fun s r h => ?_⟩ ?_ hrun
  · change (∅ : Table ℕ TransitionRecord)[s]? = some r at h
    exact absurd h (by simp)
  · rintro steps S step S' hrun ⟨hinv, hseq, hmem⟩ hstep
    obtain rfl := Option.some.inj hstep
    rw [loggedIds_concat step hrun]
    rcases step.exec_cases S with ⟨hid, hkeeps⟩ | ⟨record, hid, happ⟩
    · rw [hid, Option.toList_none, List.append_nil, hkeeps.sequence, hkeeps.transitions]
      exact ⟨hkeeps.invariant hinv, hseq, hmem⟩
    · rw [hid, Option.toList_some, happ.sequence, List.length_append, List.length_singleton]
      refine ⟨happ.invariant hinv, by rw [hseq], fun s r hr => ?_⟩
      rw [happ.get] at hr
      split at hr
      · obtain rfl := Option.some.inj hr
        exact List.mem_append_right _ List.mem_cons_self
      · exact List.mem_append_left _ (hmem s r hr)

/-- With pairwise distinct ids the id index is exact. -/
theorem storage_run_idsIndexed {steps : List StorageStep} {S : Store}
    (hrun : storage.exec Store.empty steps = some S)
    (hids : (loggedIds Store.empty steps).Nodup) : IdsIndexed S := by
  refine System.exec_induction_labels
    (I := fun steps S => (loggedIds Store.empty steps).Nodup → IdsIndexed S)
    (fun _ id s => ?_) ?_ hrun hids
  · change (∅ : Table String ℕ)[id]? = some s ↔
      ∃ r, (∅ : Table ℕ TransitionRecord)[s]? = some r ∧ _
    simp
  · intro steps S step S' hrun ih hstep hids
    obtain rfl := Option.some.inj hstep
    rw [loggedIds_concat step hrun] at hids
    have hS := ih (List.Nodup.of_append_left hids)
    obtain ⟨hinv, -, hmem⟩ := storage_run hrun
    rcases step.exec_cases S with ⟨-, hkeeps⟩ | ⟨record, hid, happ⟩
    · exact hkeeps.idsIndexed hS
    · refine happ.idsIndexed hinv hS fun s r hr heq => ?_
      rw [hid, Option.toList_some] at hids
      exact List.disjoint_of_nodup_append hids (hmem s r hr) (heq ▸ List.mem_cons_self)

/-- A call never alters or removes a logged record. -/
theorem StorageStep.transitions_mono {S : Store} (step : StorageStep) (hS : LogInvariant S)
    {s : ℕ} {r : TransitionRecord} (hr : S.transitions[s]? = some r) :
    (step.exec S).transitions[s]? = some r := by
  rcases step.exec_cases S with ⟨-, hkeeps⟩ | ⟨record, -, happ⟩
  · rw [hkeeps.transitions]
    exact hr
  · exact happ.transitions_mono hS hr

theorem StorageStep.invariant {S : Store} (step : StorageStep) (hS : LogInvariant S) :
    LogInvariant (step.exec S) := by
  rcases step.exec_cases S with ⟨-, hkeeps⟩ | ⟨record, -, happ⟩
  · exact hkeeps.invariant hS
  · exact happ.invariant hS

/-- **The log representation.** After every sequence of write calls, succeeding or failing, whose
logged ids are pairwise distinct: the log is dense and within `u64`, its records know their place
and were there unaltered at every earlier moment since they were written, both indexes hold exactly
one entry per record, every idempotency entry points at a record with its key, and a call that
fails leaves every table as it was. -/
theorem log_representation {steps : List StorageStep} {S : Store}
    (hrun : storage.exec Store.empty steps = some S)
    (hids : (loggedIds Store.empty steps).Nodup)
    (hlen : (loggedIds Store.empty steps).length < 2 ^ 64) :
    S.sequence < 2 ^ 64 ∧
    (∀ s : ℕ, (∃ r, S.transitions[s]? = some r) ↔ 1 ≤ s ∧ s ≤ S.sequence) ∧
    (∀ (s : ℕ) (r : TransitionRecord), S.transitions[s]? = some r → r.sequence = s) ∧
    (∀ (n : ℕ) (S₁ : Store) (s : ℕ) (r : TransitionRecord),
      storage.stateAt Store.empty steps n = some S₁ → S₁.transitions[s]? = some r →
        S.transitions[s]? = some r) ∧
    (∀ (id : TransitionId) (s : ℕ), S.transitionsById[id]? = some s ↔
      ∃ r : TransitionRecord, S.transitions[s]? = some r ∧ r.id = id) ∧
    (∀ (s : ℕ) (r : TransitionRecord), S.transitions[s]? = some r → ∀ key : String,
      S.entityTransitions[key]? = some s ↔ key = entityTransitionKey r.entityId r.machine s) ∧
    (∀ (key : String) (s : ℕ), S.entityTransitions[key]? = some s →
      ∃ r, S.transitions[s]? = some r) ∧
    (∀ (key : IdempotencyKey) (s : ℕ), S.idempotency[key]? = some s →
      ∃ r : TransitionRecord, S.transitions[s]? = some r ∧ r.idempotencyKey = some key) ∧
    (∀ (step : StorageStep) (e : StorageError), step.outcome S = .error e →
      step.exec S = S) := by
  obtain ⟨hinv, hseq, -⟩ := storage_run hrun
  refine ⟨hseq ▸ hlen, hinv.present, hinv.sequence_eq, ?_, storage_run_idsIndexed hrun hids, ?_,
    ?_, hinv.keyed, ?_⟩
  · intro n S₁ s r h₁ hr
    obtain ⟨S₂, h₂, hrest⟩ := System.exec_split hrun n
    obtain rfl := Option.some.inj (h₁.symm.trans h₂)
    -- The invariant travels with the record: it is what keeps the next sequence free.
    refine (System.exec_stable (I := fun T => LogInvariant T ∧ T.transitions[s]? = some r)
      ?_ hrest ⟨(storage_run h₁).1, hr⟩).2
    rintro T step T' ⟨hT, hTr⟩ hstep
    obtain rfl := Option.some.inj hstep
    exact ⟨step.invariant hT, step.transitions_mono hT hTr⟩
  · intro s r hr key
    rw [hinv.byEntity]
    constructor
    · rintro ⟨r', hr', hkey⟩
      rw [hr] at hr'
      obtain rfl := Option.some.inj hr'
      exact hkey
    · exact fun hkey => ⟨r, hr, hkey⟩
  · intro key s hk
    obtain ⟨r, hr, -⟩ := (hinv.byEntity key s).mp hk
    exact ⟨r, hr⟩
  · intro step e hout
    unfold StorageStep.exec
    rw [hout]

/-- A commit of order `o1` under an idempotency key. -/
def payCall (id : TransitionId) (version : ℕ) : WriteCall :=
  .executeTransition
    { id, sequence := 0, entityId := "o1", machine := "order", fromState := "pending",
      toState := "paid", event := "pay", actor := "web", ctx := .null,
      idempotencyKey := some "k", version, timestamp := 0 }
    { entityId := "o1", machine := "order", currentState := "paid", version, updatedAt := 0,
      createdAt := 0 } []

/-- Three calls, of which the second is refused for its bound key after it has bumped the counter
and written the log, and the third meets an I/O fault. -/
def refusedRetry : List StorageStep :=
  [⟨payCall "t1" 1, none⟩, ⟨payCall "t2" 2, none⟩, ⟨payCall "t3" 2, some (.io "disk full")⟩]

theorem log_representation_refusedRetry :
    ∃ S, storage.exec Store.empty refusedRetry = some S ∧
      ∀ s : ℕ, (∃ r, S.transitions[s]? = some r) ↔ 1 ≤ s ∧ s ≤ 1 := by
  obtain ⟨S, hS⟩ : ∃ S, storage.exec Store.empty refusedRetry = some S := ⟨_, rfl⟩
  have hids : loggedIds Store.empty refusedRetry = ["t1"] := by decide
  obtain ⟨-, hdense, -⟩ := log_representation hS (by rw [hids]; decide) (by rw [hids]; decide)
  have hseq := (storage_run hS).2.1
  rw [hids, List.length_singleton] at hseq
  exact ⟨S, hS, by rw [hseq] at hdense; exact hdense⟩

end StateMaster
