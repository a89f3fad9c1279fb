import StateMaster.Engine.Projection
import StateMaster.Storage.Versions

/-!
# The state query agrees with the log

`list_entities_in_state` scans the projection. In front of the comparison with the row it tests the
key for the separator followed by the machine name, as a substring. A key is the entity id, the
separator and the machine name, so the test passes for every row of the machine, and for others too:
where the name occurs in front of a longer one, or inside an entity id behind a separator. Whatever
it lets through is compared again, so the answer is the same as without it
(`listEntitiesInState_eq`).

That the rows agree with the log is `ProjectionInvariant`, which speaks of keys. `NamedBy` says whose
names the rows and records carry, and with separator-free entity ids a key stands for one entity on
one machine (`NamedBy.entries_eq`).
-/

open Framework Framework.Text

namespace StateMaster

/-! ### The substring test -/

/-- Every key of a machine passes the test for its name. -/
theorem contains_stateKey (row : EntityState) :
    contains row.stateKey (nul ++ row.machine) = true := by
  rw [contains_iff]
  refine ⟨row.entityId.toList, [], ?_⟩
  unfold EntityState.stateKey entityStateKey
  rw [List.append_nil, ← String.toList_append, String.append_assoc]

/-- **The substring test drops no matching row**, in a table whose rows stand under their keys. -/
theorem listEntitiesInState_eq {S : Store}
    (hkeyed : ∀ (k : String) (row : EntityState), S.entityStates[k]? = some row → row.stateKey = k)
    (machine stateName : String) :
    RedbEngine.listEntitiesInState S machine stateName
      = S.entityStates.values.filter fun row =>
          row.machine == machine && row.currentState == stateName := by
  unfold RedbEngine.listEntitiesInState Table.values
  rw [List.filter_map, ← List.filterMap_eq_map, ← List.filterMap_eq_filter, List.filterMap_filterMap]
  refine List.filterMap_congr fun p hp => ?_
  have hkey := hkeyed p.1 p.2 (S.entityStates.mem_toList.mp hp)
  by_cases hmatch : (p.2.machine == machine && p.2.currentState == stateName) = true
  · -- a matching row passes the test on its key
    have hmachine : p.2.machine = machine := beq_iff_eq.mp (Bool.and_eq_true_iff.mp hmatch).1
    have htest : contains p.1 (nul ++ machine) = true := by
      rw [← hkey, ← hmachine]
      exact contains_stateKey p.2
    simp [htest, hmatch]
  · simp [Option.guard, hmatch]

/-! ### Whose rows and records these are -/

/-- Rows stand under their keys, and rows and records carry names of which `P` holds. -/
structure NamedBy (P : EntityId → MachineName → Prop) (S : Store) : Prop where
  keyed : ∀ (k : String) (row : EntityState), S.entityStates[k]? = some row → row.stateKey = k
  rows : ∀ (k : String) (row : EntityState), S.entityStates[k]? = some row →
    P row.entityId row.machine
  records : ∀ r ∈ S.log, P r.entityId r.machine

theorem NamedBy.mono {P Q : EntityId → MachineName → Prop} {S : Store} (h : NamedBy P S)
    (hPQ : ∀ e m, P e m → Q e m) : NamedBy Q S where
  keyed := h.keyed
  rows k row hrow := hPQ _ _ (h.rows k row hrow)
  records r hr := hPQ _ _ (h.records r hr)

theorem NamedBy.congr {P : EntityId → MachineName → Prop} {S S' : Store} (h : NamedBy P S)
    (hlog : S'.log = S.log) (hrows : S'.entityStates = S.entityStates) : NamedBy P S' where
  keyed := by rw [hrows]; exact h.keyed
  rows := by rw [hrows]; exact h.rows
  records := by rw [hlog]; exact h.records

/-- A commit adds a row and a record of one name. -/
theorem NamedBy.commit {P : EntityId → MachineName → Prop} {S S' : Store} {c : Call}
    {definition : MachineDefinition} {current : Current} {rule : TransitionRule}
    (h : NamedBy P S) (hc : P c.entityId c.machine) (hS : LogInvariant S)
    (hcommit : CommitsFrom S c definition current rule S') : NamedBy P S' where
  keyed k row hrow := by
    rw [hcommit.get_row] at hrow
    split at hrow
    · next hk =>
      rw [← Option.some.inj hrow]
      exact hk
    · exact h.keyed k row hrow
  rows k row hrow := by
    rw [hcommit.get_row] at hrow
    split at hrow
    · rw [← Option.some.inj hrow]
      exact hc
    · exact h.rows k row hrow
  records r hr := by
    rw [hcommit.appends.log hS, List.mem_append, List.mem_singleton] at hr
    rcases hr with hr | rfl
    · exact h.records r hr
    · exact hc

/-- The names of the calls of a run. -/
def CallNames (ls : List Label) (e : EntityId) (m : MachineName) : Prop :=
  ∃ i c, Label.invoke i c ∈ ls ∧ c.entityId = e ∧ c.machine = m

/-- **After a run, rows and records carry names of its calls.** -/
theorem namedBy_of_run {cfg : Config} {guards : GuardRegistry} {ls : List Label} {w : World}
    (hrun : (engine cfg).exec (World.initial Store.empty guards) ls = some w) :
    NamedBy (CallNames ls) w.store := by
  refine System.exec_induction_labels (I := fun ls w => NamedBy (CallNames ls) w.store) ?_ ?_ hrun
  · refine ⟨fun k row hrow => ?_, fun k row hrow => ?_, fun r hr => ?_⟩
    · exact absurd ((Table.get_empty k).symm.trans hrow) (by simp)
    · exact absurd ((Table.get_empty k).symm.trans hrow) (by simp)
    · have hnil : (World.initial Store.empty guards).store.log = [] := rfl
      rw [hnil] at hr
      exact absurd hr List.not_mem_nil
  · intro ls w l w' hbefore hw hstep
    have hw : NamedBy (CallNames (ls ++ [l])) w.store := by
      refine hw.mono fun e m => ?_
      rintro ⟨i, c, hc, hnames⟩
      exact ⟨i, c, List.mem_append_left _ hc, hnames⟩
    have hproj := projectionInvariant_of_run hbefore
    rcases (step_sound hstep).store_cases with ⟨hkeeps, hrows⟩ | ⟨i, c, plan, hplanned, hcommit⟩
    · exact hw.congr hkeeps.log hrows
    · obtain ⟨definition, current, rule, rfl, -⟩ := hproj.planned hplanned
      -- the call that commits was invoked earlier in the run
      have hinvoked : Label.invoke i c ∈ ls := by
        refine (call_eq_some_iff hbefore i c).mp ?_
        rw [hplanned]
        rfl
      exact hw.commit ⟨i, c, List.mem_append_left _ hinvoked, rfl, rfl⟩ hproj.log hcommit

/-! ### The answer -/

/-- The last record of an entity on a machine. -/
def Store.lastRecord (S : Store) (e : EntityId) (m : MachineName) : Option TransitionRecord :=
  (S.log.filter fun r => r.entityId == e && r.machine == m).getLast?

section Answer

variable {P : EntityId → MachineName → Prop} {S : Store}

/-- With separator-free entity ids, the records under a key are those of one entity on one
machine. -/
theorem NamedBy.entries_eq (h : NamedBy P S) (hP : ∀ e m, P e m → NulFree e) {e : EntityId}
    (he : NulFree e) (m : MachineName) :
    S.entries (entityStateKey e m) = S.log.filter fun r => r.entityId == e && r.machine == m := by
  unfold Store.entries
  refine List.filter_congr fun r hr => ?_
  rw [Bool.eq_iff_iff, beq_iff_eq, Bool.and_eq_true_iff, beq_iff_eq, beq_iff_eq]
  constructor
  · exact entityStateKey_injective_of_nulFree (hP _ _ (h.records r hr)) he
  · rintro ⟨rfl, rfl⟩
    rfl

/-- The row of an entity on a machine is its last record's state. -/
theorem NamedBy.row_iff (h : NamedBy P S) (hproj : ∀ k, Projected S k)
    (hP : ∀ e m, P e m → NulFree e) (e : EntityId) (m : MachineName) (s : StateName) :
    (∃ (k : String) (row : EntityState), S.entityStates[k]? = some row ∧
        row.entityId = e ∧ row.machine = m ∧ row.currentState = s) ↔
      (S.lastRecord e m).map TransitionRecord.toState = some s := by
  constructor
  · rintro ⟨k, row, hrow, rfl, rfl, rfl⟩
    -- the log is asked about the key of the row, which are the names it carries
    have hlast := ((hproj k).row row hrow).2
    rw [← h.keyed k row hrow] at hlast
    rwa [EntityState.stateKey, h.entries_eq hP (hP _ _ (h.rows k row hrow))] at hlast
  · intro hlast
    obtain ⟨r, hr, hs⟩ := Option.map_eq_some_iff.mp hlast
    obtain ⟨hlog, hnames⟩ := List.mem_filter.mp (List.mem_of_getLast? hr)
    obtain ⟨rfl, rfl⟩ : r.entityId = e ∧ r.machine = m := by simpa using hnames
    have hentries := h.entries_eq hP (hP _ _ (h.records r hlog)) r.machine
    -- a record means a row, and the row's key is read back to the names of the record
    obtain ⟨row, hrow⟩ := (hproj r.stateKey).exists_iff.mpr fun hnil => by
      have hmem : r ∈ S.entries r.stateKey := List.mem_filter.mpr ⟨hlog, beq_self_eq_true _⟩
      rw [hnil] at hmem
      exact absurd hmem List.not_mem_nil
    obtain ⟨hid, hmachine⟩ := entityStateKey_injective_of_nulFree (hP _ _ (h.rows _ row hrow))
      (hP _ _ (h.records r hlog)) (h.keyed _ row hrow)
    refine ⟨r.stateKey, row, hrow, hid, hmachine, ?_⟩
    have hstate := ((hproj r.stateKey).row row hrow).2
    rw [TransitionRecord.stateKey, hentries] at hstate
    exact Option.some.inj (hstate.symm.trans hlast)

/-- No entity is listed twice. -/
theorem NamedBy.entityIds_nodup (h : NamedBy P S) (machine stateName : String) :
    ((RedbEngine.listEntitiesInState S machine stateName).map EntityState.entityId).Nodup := by
  rw [listEntitiesInState_eq h.keyed]
  refine List.pairwise_map.mpr
    (((S.entityStates.values_nodup h.keyed).filter _).imp_of_mem ?_)
  intro a b ha hb hab hid
  obtain ⟨ha, hmatch⟩ := List.mem_filter.mp ha
  obtain ⟨hb, hmatch'⟩ := List.mem_filter.mp hb
  obtain ⟨k, hk⟩ := S.entityStates.mem_values.mp ha
  obtain ⟨k', hk'⟩ := S.entityStates.mem_values.mp hb
  -- the same entity on the same machine has one key, and a key has one row
  have hmachine : a.machine = b.machine :=
    (beq_iff_eq.mp (Bool.and_eq_true_iff.mp hmatch).1).trans
      (beq_iff_eq.mp (Bool.and_eq_true_iff.mp hmatch').1).symm
  have hkey : k = k' := by
    rw [← h.keyed k a hk, ← h.keyed k' b hk', EntityState.stateKey, EntityState.stateKey, hid,
      hmachine]
  subst hkey
  exact hab (Option.some.inj (hk.symm.trans hk'))

end Answer

/-- **The state query agrees with the log.** After every run over names without U+0000, for every
machine `m` and state `s`: the query lists one row for each entity whose last record on `m` has
`to_state` `s`, and no other row. The substring test on the key drops nothing. -/
theorem listEntitiesInState_agrees {cfg : Config} {guards : GuardRegistry} {ls : List Label}
    {w : World} (hrun : (engine cfg).exec (World.initial Store.empty guards) ls = some w)
    (hnul : ∀ i c, Label.invoke i c ∈ ls → NulFree c.entityId ∧ NulFree c.machine)
    (m : MachineName) (s : StateName) :
    ((RedbEngine.listEntitiesInState w.store m s).map EntityState.entityId).Nodup ∧
    (∀ e, e ∈ (RedbEngine.listEntitiesInState w.store m s).map EntityState.entityId ↔
      (w.store.lastRecord e m).map TransitionRecord.toState = some s) ∧
    (∀ row ∈ RedbEngine.listEntitiesInState w.store m s,
      row.machine = m ∧ row.currentState = s) ∧
    RedbEngine.listEntitiesInState w.store m s = w.store.entityStates.values.filter fun row =>
      row.machine == m && row.currentState == s := by
  have hnamed := namedBy_of_run hrun
  have hproj := (projectionInvariant_of_run hrun).projected
  have hP : ∀ e m, CallNames ls e m → NulFree e := by
    rintro e m ⟨i, c, hc, rfl, rfl⟩
    exact (hnul i c hc).1
  have heq := listEntitiesInState_eq hnamed.keyed m s
  have hmem : ∀ row : EntityState, row ∈ RedbEngine.listEntitiesInState w.store m s ↔
      (∃ k : String, w.store.entityStates[k]? = some row) ∧ row.machine = m ∧
        row.currentState = s := by
    intro row
    rw [heq, List.mem_filter, Table.mem_values, Bool.and_eq_true_iff, beq_iff_eq, beq_iff_eq]
  refine ⟨hnamed.entityIds_nodup m s, fun e => ?_, fun row hrow => ((hmem row).mp hrow).2, heq⟩
  rw [← hnamed.row_iff hproj hP e m s, List.mem_map]
  constructor
  · rintro ⟨row, hrow, rfl⟩
    obtain ⟨⟨k, hk⟩, hmachine, hstate⟩ := (hmem row).mp hrow
    exact ⟨k, row, hk, rfl, hmachine, hstate⟩
  · rintro ⟨k, row, hk, rfl, hmachine, hstate⟩
    exact ⟨row, (hmem row).mpr ⟨⟨k, hk⟩, hmachine, hstate⟩, rfl⟩

/-- An order whose id holds the name of the machine, listed once it is paid. -/
theorem listEntitiesInState_agrees_paid : ∃ w,
    (engine lockFree).exec (World.initial Store.empty ∅)
      ([Label.defineMachine orderMachine none, Label.invoke 0 (payOrder 0 "order" none)]
        ++ steps 0 8) = some w ∧
    "order" ∈ (RedbEngine.listEntitiesInState w.store "order" "paid").map EntityState.entityId := by
  have heval : ((engine lockFree).exec (World.initial Store.empty ∅)
      ([Label.defineMachine orderMachine none, Label.invoke 0 (payOrder 0 "order" none)]
        ++ steps 0 8)).map
      (fun w => (w.store.lastRecord "order" "order").map TransitionRecord.toState)
      = some (some "paid") := by decide
  obtain ⟨w, hrun, hlast⟩ := Option.map_eq_some_iff.mp heval
  refine ⟨w, hrun, ((listEntitiesInState_agrees hrun ?_ "order" "paid").2.1 "order").mpr hlast⟩
  intro i c hc
  obtain ⟨-, rfl⟩ : i = 0 ∧ c = payOrder 0 "order" none := by simpa [steps] using hc
  exact ⟨by decide, by decide⟩

end StateMaster
