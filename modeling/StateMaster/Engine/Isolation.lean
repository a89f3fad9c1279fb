import StateMaster.Engine.Idempotency

/-!
# Isolation of `(entity, machine)` pairs

State is keyed by a pair, but the pair is flattened into one string with U+0000 between its parts,
and nothing keeps that character out of a part. The row of a pair is found by the whole string, its
history by a string-prefix test on a shared index. A transition on another pair is therefore
invisible exactly when the flattened pair does not *start with* the flattened reader's pair.

* `getHistory_eq` — the scan of `get_history` as a filter of the index, cut to the limit;
* `isolated_iff` — when a successful transition on one pair leaves the reads of another alone.
-/

open Framework Framework.Text

namespace StateMaster

/-! ### The history scan -/

/-- The records a history read selects, before the limit. -/
def Store.selected (S : Store) (entityId machine : String) (after : ℕ) : List TransitionRecord :=
  (S.entityTransitions.toList.filter fun p =>
    startsWith p.1 (entityTransitionPrefix entityId machine) && after < p.2).filterMap
    fun p => S.transitions[p.2]?

/-- The loop appends to what it has the selected records it meets, until the limit. -/
theorem RedbEngine.historyLoop_eq (transitions : Table ℕ TransitionRecord) (keyPrefix : String)
    (limit after : ℕ) (entries : List (String × ℕ)) (results : List TransitionRecord) :
    historyLoop transitions keyPrefix limit after entries results =
      results ++ ((entries.filter fun p => startsWith p.1 keyPrefix && after < p.2).filterMap
        fun p => transitions[p.2]?).take (limit - results.length) := by
  induction entries generalizing results with
  | nil => simp [historyLoop]
  | cons p entries ih =>
    obtain ⟨key, seq⟩ := p
    unfold historyLoop
    by_cases hpre : startsWith key keyPrefix = true
    · by_cases hseq : seq ≤ after
      · -- At or before the cursor: skipped by both.
        have hsel : ¬ (startsWith key keyPrefix && decide (after < seq)) = true := by
          simp only [Bool.and_eq_true, decide_eq_true_eq]
          omega
        rw [if_neg (by rw [hpre]; simp), if_pos hseq, ih, List.filter_cons, if_neg hsel]
      · have hsel : (startsWith key keyPrefix && decide (after < seq)) = true := by
          rw [hpre, Bool.true_and, decide_eq_true_eq]
          omega
        rw [if_neg (by rw [hpre]; simp), if_neg hseq, List.filter_cons, if_pos hsel]
        -- The limit is tested before the record is fetched, so a dangling index entry stops the
        -- loop like any other once the limit is reached.
        by_cases hlim : limit ≤ results.length
        · rw [if_pos hlim, Nat.sub_eq_zero_of_le hlim, List.take_zero, List.append_nil]
        · rw [if_neg hlim, List.filterMap_cons]
          cases hget : transitions[seq]? with
          | none =>
            dsimp only
            rw [ih]
          | some r =>
            have hsub : limit - results.length = limit - (results ++ [r]).length + 1 := by
              rw [List.length_append, List.length_singleton]
              omega
            dsimp only
            rw [ih, hsub, List.take_succ_cons, List.append_assoc, List.singleton_append]
    · rw [if_pos (by simpa using hpre), ih, List.filter_cons, if_neg (by simp [hpre])]

theorem RedbEngine.getHistory_eq (S : Store) (entityId machine : String) (limit after : Option ℕ) :
    getHistory S entityId machine limit after
      = (S.selected entityId machine (after.getD 0)).take (limit.getD maxLimit) := by
  unfold getHistory
  rw [historyLoop_eq]
  rfl

/-- The key of a record in the entity index. -/
def TransitionRecord.indexKey (r : TransitionRecord) : String :=
  entityTransitionKey r.entityId r.machine r.sequence

section Selected

variable {S : Store} {e m : String} {after : ℕ}

/-- An entry of the index stands under the key of the record it points at. -/
theorem LogInvariant.entry_eq (hS : LogInvariant S) {key : String} {s : ℕ} {r : TransitionRecord}
    (hentry : (key, s) ∈ S.entityTransitions.toList) (hr : S.transitions[s]? = some r) :
    key = r.indexKey := by
  obtain ⟨r', hr', rfl⟩ := (hS.byEntity key s).mp (S.entityTransitions.mem_toList.mp hentry)
  obtain rfl := Option.some.inj (hr.symm.trans hr')
  rw [TransitionRecord.indexKey, hS.sequence_eq s r hr]

/-- Selected are the records past the cursor whose pair starts with the reader's. -/
theorem LogInvariant.mem_selected_iff (hS : LogInvariant S) {r : TransitionRecord} :
    r ∈ S.selected e m after ↔ r ∈ S.log ∧
      startsWith (entityTransitionPrefix r.entityId r.machine) (entityTransitionPrefix e m) = true ∧
      after < r.sequence := by
  unfold Store.selected
  rw [List.mem_filterMap]
  constructor
  · rintro ⟨⟨key, s⟩, hp, hr⟩
    obtain ⟨hentry, hsel⟩ := List.mem_filter.mp hp
    rw [Bool.and_eq_true, decide_eq_true_eq] at hsel
    have hpre := hsel.1
    rw [hS.entry_eq hentry hr, TransitionRecord.indexKey, startsWith_entityTransitionKey_iff] at hpre
    exact ⟨mem_log.mpr ⟨s, hr⟩, hpre, by rw [hS.sequence_eq s r hr]; exact hsel.2⟩
  · rintro ⟨hmem, hpre, hafter⟩
    obtain ⟨s, hr⟩ := mem_log.mp hmem
    have hentry := (hS.byEntity _ s).mpr ⟨r, hr, rfl⟩
    refine ⟨(_, s), List.mem_filter.mpr ⟨S.entityTransitions.mem_toList.mpr hentry, ?_⟩, hr⟩
    rw [Bool.and_eq_true, decide_eq_true_eq, startsWith_entityTransitionKey_iff]
    exact ⟨hpre, by rw [← hS.sequence_eq s r hr]; exact hafter⟩

/-- They come in the order of their keys. -/
theorem LogInvariant.selected_ordered (hS : LogInvariant S) (e m : String) (after : ℕ) :
    (S.selected e m after).Pairwise fun r r' => r.indexKey < r'.indexKey := by
  unfold Store.selected
  refine List.pairwise_filterMap.mpr
    (((Table.toList_ordered S.entityTransitions).filter _).imp_of_mem ?_)
  rintro ⟨key, s⟩ ⟨key', s'⟩ hp hp' hlt r hr r' hr'
  have hkeys : key < key' := compareOfLessAndEq_eq_lt.mp hlt
  rwa [hS.entry_eq (List.mem_of_mem_filter hp) hr, hS.entry_eq (List.mem_of_mem_filter hp') hr']
    at hkeys

end Selected

/-! ### What an append adds to a selection -/

section Appends

variable {S S' : Store} {record : TransitionRecord} {e m : String}

/-- The entity index has no entry under the next sequence yet. -/
theorem LogInvariant.index_free (hS : LogInvariant S) (e m : String) :
    S.entityTransitions[entityTransitionKey e m (S.sequence + 1)]? = none := by
  cases hget : S.entityTransitions[entityTransitionKey e m (S.sequence + 1)]? with
  | none => rfl
  | some s =>
    obtain ⟨r, hr, hkey⟩ := (hS.byEntity _ s).mp hget
    have hs := (entityTransitionKey_inj hkey).2
    have hle := (hS.le_sequence hr).2
    omega

/-- An append whose pair does not start with the reader's is not selected. -/
theorem Appends.selected_of_not_prefix (h : Appends S record S') (hS : LogInvariant S)
    (hpre : startsWith (entityTransitionPrefix record.entityId record.machine)
      (entityTransitionPrefix e m) = false) (after : ℕ) :
    S'.selected e m after = S.selected e m after := by
  have hkey : startsWith (entityTransitionKey record.entityId record.machine (S.sequence + 1))
      (entityTransitionPrefix e m) = false := by
    rw [← Bool.not_eq_true, startsWith_entityTransitionKey_iff, Bool.not_eq_true]
    exact hpre
  unfold Store.selected
  rw [h.entityTransitions, Table.filter_toList_insert _ _ (hS.index_free _ _) (by rw [hkey]; rfl)]
  -- The entries that are left point at old records, which are where they were.
  refine List.filterMap_congr fun p hp => ?_
  have hentry := S.entityTransitions.mem_toList.mp (List.mem_of_mem_filter hp)
  obtain ⟨r, hr, -⟩ := (hS.byEntity p.1 p.2).mp hentry
  rw [hr]
  exact h.transitions_mono hS hr

/-- After the last sequence nothing is selected. -/
theorem LogInvariant.selected_end (hS : LogInvariant S) : S.selected e m S.sequence = [] := by
  unfold Store.selected
  have hnil : (S.entityTransitions.toList.filter fun p =>
      startsWith p.1 (entityTransitionPrefix e m) && decide (S.sequence < p.2)) = [] := by
    rw [List.filter_eq_nil_iff]
    intro p hp
    obtain ⟨r, hr, -⟩ := (hS.byEntity p.1 p.2).mp (S.entityTransitions.mem_toList.mp hp)
    have hle := (hS.le_sequence hr).2
    simp only [Bool.and_eq_true, decide_eq_true_eq, not_and]
    omega
  rw [hnil, List.filterMap_nil]

/-- An append whose pair starts with the reader's is selected. -/
theorem Appends.selected_of_prefix (h : Appends S record S')
    (hpre : startsWith (entityTransitionPrefix record.entityId record.machine)
      (entityTransitionPrefix e m) = true) : S'.selected e m S.sequence ≠ [] := by
  have hentry : (entityTransitionKey record.entityId record.machine (S.sequence + 1),
      S.sequence + 1) ∈ S'.entityTransitions.toList := by
    rw [Table.mem_toList, h.entityTransitions, Table.get_insert_self]
  refine List.ne_nil_of_mem (List.mem_filterMap.mpr ⟨_, List.mem_filter.mpr ⟨hentry, ?_⟩,
    (h.get _).trans (if_pos rfl)⟩)
  simp only [Bool.and_eq_true, decide_eq_true_eq]
  exact ⟨startsWith_entityTransitionKey_iff.mpr hpre, Nat.lt_succ_self _⟩

end Appends

/-! ### Isolation -/

/-- The reads of `(e, m)` cannot tell the two stores apart. -/
def SameReads (S S' : Store) (e m : String) : Prop :=
  Engine.current S' e m none = Engine.current S e m none ∧
    ∀ limit after, Engine.history S' e m limit after none = Engine.history S e m limit after none

/-- Equal storage keys are a special case of the prefix relation. -/
theorem startsWith_prefix_of_key_eq {e m e' m' : String}
    (h : entityStateKey e' m' = entityStateKey e m) :
    startsWith (entityTransitionPrefix e' m') (entityTransitionPrefix e m) = true := by
  rw [startsWith_iff, entityTransitionPrefix_toList, entityTransitionPrefix_toList, h]

/-- A commit seen from another pair. -/
theorem Commit.sameReads_iff {S S' : Store} {c : Call} {definition : MachineDefinition}
    {current : Current} {rule : TransitionRule} (hS : LogInvariant S)
    (h : Commit S (Engine.buildPlan c definition current rule).record
      (Engine.buildPlan c definition current rule).newState
      (Engine.buildPlan c definition current rule).effects S') (e m : String) :
    SameReads S S' e m ↔
      startsWith (entityTransitionPrefix c.entityId c.machine)
        (entityTransitionPrefix e m) = false := by
  constructor
  · intro hsame
    by_contra hpre
    rw [Bool.not_eq_false] at hpre
    -- Read from the old end of the log on: there was nothing, and now there is the new record.
    have hhist := hsame.2 none (some S.sequence)
    have hnew := h.appends.selected_of_prefix hpre
    unfold Engine.history at hhist
    rw [withFault_none, withFault_none, RedbEngine.getHistory_eq, RedbEngine.getHistory_eq,
      Option.getD_some, Option.getD_none, hS.selected_end, List.take_nil] at hhist
    have hnil := List.take_eq_nil_iff.mp (Except.ok.inj hhist)
    exact absurd hnil (by simp [hnew, RedbEngine.maxLimit])
  · intro hpre
    refine ⟨?_, fun limit after => ?_⟩
    · have hne : c.stateKey ≠ entityStateKey e m := fun heq =>
        absurd (startsWith_prefix_of_key_eq heq) (by rw [hpre]; simp)
      have hrow : S'.entityStates[entityStateKey e m]? = S.entityStates[entityStateKey e m]? := by
        rw [h.entityStates]
        exact Table.get_insert_of_ne _ _ hne
      unfold Engine.current
      rw [Engine.getEntityState_eq, Engine.getEntityState_eq, hrow]
    · unfold Engine.history
      rw [RedbEngine.getHistory_eq, RedbEngine.getHistory_eq,
        h.appends.selected_of_not_prefix hS hpre]

/-- **When a transition is isolated from another pair's reads**: it replays a bound key, or its
flattened pair does not start with the reader's. -/
theorem isolated_iff {S S' : Store} (hS : EngineReachable S) {guards : GuardRegistry}
    {shutdown : Bool} {c : Call} {res : TransitionResult}
    (hok : Engine.transition S guards shutdown c = .ok (res, S')) (e m : String) :
    SameReads S S' e m ↔
      (∃ key, c.idempotencyKey = some key ∧ S.idempotency[key]?.isSome) ∨
      startsWith (entityTransitionPrefix c.entityId c.machine)
        (entityTransitionPrefix e m) = false := by
  obtain ⟨cfg, guards₀, ls, w, hrun, rfl⟩ := hS
  have hlog := (keyInvariant_of_run hrun).log
  obtain ⟨rfl, hreplay | ⟨-, definition, current, plan, -, -, hplan, hcommit, -⟩⟩ :=
    Engine.transition_eq_ok hok
  · obtain ⟨existing, hfind, -, rfl⟩ := hreplay
    obtain ⟨key, s, hkey, -, hs, -⟩ := Engine.findReplay_eq_some hfind
    exact ⟨fun _ => Or.inl ⟨key, hkey, by rw [hs]; rfl⟩, fun _ => ⟨rfl, fun _ _ => rfl⟩⟩
  · obtain ⟨rule, -, -, -, rfl⟩ := Engine.planRequest_eq_ok hplan
    rw [hcommit.sameReads_iff hlog e m]
    refine ⟨Or.inr, fun h => h.resolve_left ?_⟩
    rintro ⟨key, hkey, hbound⟩
    rw [hcommit.key_free key hkey] at hbound
    exact absurd hbound (by simp)

/-- A machine whose name is the last part of a longer flattened pair. -/
def shortMachine : MachineDefinition := { orderMachine with name := "c" }

/-- A call on the entity `a\0b`, whose id holds the separator. -/
def shadowingCall : Call := { payOrder 0 ("a" ++ nul ++ "b") none with machine := "c" }

/-- The store in which only that machine is defined. -/
theorem reachable_shortMachine :
    EngineReachable (RedbEngine.storeMachine Store.empty shortMachine) :=
  ⟨oneStripe, ∅, [.defineMachine shortMachine none], _, rfl, rfl⟩

/-- The call is accepted there, and the pair `(a, b\0c)` then has a row. -/
theorem exists_shadowed :
    ∃ p, Engine.transition (RedbEngine.storeMachine Store.empty shortMachine) ∅ false shadowingCall
        = .ok p ∧
      (Engine.current p.2 "a" ("b" ++ nul ++ "c") none).toOption.isSome = true := by
  have hsome : ((Engine.transition (RedbEngine.storeMachine Store.empty shortMachine) ∅ false
    shadowingCall).toOption.map fun p =>
      (Engine.current p.2 "a" ("b" ++ nul ++ "c") none).toOption.isSome) = some true := by decide
  cases hok : Engine.transition (RedbEngine.storeMachine Store.empty shortMachine) ∅ false
    shadowingCall with
  | error e =>
    rw [hok] at hsome
    exact absurd hsome (by simp [Except.toOption])
  | ok p =>
    rw [hok] at hsome
    exact ⟨p, rfl, Option.some.inj hsome⟩

/-- The pairs `(a, b\0c)` and `(a\0b, c)` share their storage key: the first has no row, a payment
on the second succeeds, and the first then has one. -/
theorem not_isolated :
    ∃ S S' res, EngineReachable S ∧
      Engine.transition S ∅ false shadowingCall = .ok (res, S') ∧
      ("a", "b" ++ nul ++ "c") ≠ (shadowingCall.entityId, shadowingCall.machine) ∧
      ¬ SameReads S S' "a" ("b" ++ nul ++ "c") := by
  have hnone : (Engine.current (RedbEngine.storeMachine Store.empty shortMachine) "a"
    ("b" ++ nul ++ "c") none).toOption.isSome = false := by decide
  obtain ⟨p, hok, hsome⟩ := exists_shadowed
  refine ⟨_, p.2, p.1, reachable_shortMachine, hok, by decide, fun hsame => ?_⟩
  rw [hsame.1, hnone] at hsome
  exact absurd hsome (by decide)

theorem isolated_iff_shortMachine :
    ∃ S S' res, EngineReachable S ∧
      Engine.transition S ∅ false shadowingCall = .ok (res, S') ∧ SameReads S S' "a" "c" := by
  obtain ⟨p, hok, -⟩ := exists_shadowed
  exact ⟨_, p.2, p.1, reachable_shortMachine, hok,
    (isolated_iff reachable_shortMachine hok "a" "c").mpr (Or.inr (by decide))⟩

end StateMaster
