import StateMaster.Storage.Log

/-!
# The machine registry

The storage interface promises a store of definitions by name and version: an occupied pair is not
overwritten, reads select by version, and the latest version is the default. `Registry` is that
store. `RedbEngine` keeps one row for each *name*, overwrites it, and ignores the version it is
asked for; and what it reads back has none where the definition had a null payload.

`VersionedAt` says of a sequence of `store_machine` calls that the database it leaves answers for a
name and a version as the registry does. `registry_versioned_iff` gives exactly the sequences for
which this is so.
-/

open Framework

namespace StateMaster

/-- What the registry files a definition under. -/
def MachineDefinition.versionKey (d : MachineDefinition) : MachineName × ℕ := (d.name, d.version)

/-- One `store_machine` call: what is stored, and the fault the write may meet. -/
structure StoreCall where
  definition : MachineDefinition
  fault : Option Fault

/-- The call on the storage engine. -/
def StoreCall.step (call : StoreCall) : StorageStep := ⟨.storeMachine call.definition, call.fault⟩

/-- The definition a call writes, if its write goes through. -/
def StoreCall.written (call : StoreCall) : Option MachineDefinition :=
  match call.fault with
  | none => some call.definition
  | some _ => none

/-- The database after a sequence of `store_machine` calls. -/
def storeAll (calls : List StoreCall) : Store :=
  calls.foldl (fun S call => call.step.exec S) Store.empty

/-! ### The abstract registry -/

/-- A versioned store: every definition under its own name and version. -/
structure Registry where
  stored : List MachineDefinition
  distinct : (stored.map MachineDefinition.versionKey).Nodup

namespace Registry

def empty : Registry := ⟨[], List.nodup_nil⟩

/-- The definition stored as `(name, version)`. -/
def find? (R : Registry) (name : MachineName) (version : ℕ) : Option MachineDefinition :=
  R.stored.find? fun d => d.versionKey == (name, version)

/-- The definition of `name` with the highest version. -/
def latest (R : Registry) (name : MachineName) : Option MachineDefinition :=
  (R.stored.filter fun d => d.name == name).argmax MachineDefinition.version

theorem find?_eq_some_iff (R : Registry) {name : MachineName} {version : ℕ}
    {d : MachineDefinition} :
    R.find? name version = some d ↔ d ∈ R.stored ∧ d.name = name ∧ d.version = version := by
  constructor
  · intro h
    have hkey := List.find?_some h
    simp only [MachineDefinition.versionKey, beq_iff_eq, Prod.mk.injEq] at hkey
    exact ⟨List.mem_of_find?_eq_some h, hkey⟩
  · rintro ⟨hmem, rfl, rfl⟩
    cases hfind : R.find? d.name d.version with
    | none => exact absurd (beq_self_eq_true d.versionKey) (List.find?_eq_none.mp hfind d hmem)
    | some d' =>
      -- Whatever is found has the key of `d`, and keys are distinct.
      have hkey := List.find?_some hfind
      rw [beq_iff_eq] at hkey
      exact congrArg some
        (List.inj_on_of_nodup_map R.distinct (List.mem_of_find?_eq_some hfind) hmem hkey)

theorem find?_eq_none_iff (R : Registry) {name : MachineName} {version : ℕ} :
    R.find? name version = none ↔ ∀ d ∈ R.stored, d.name = name → d.version ≠ version := by
  rw [Option.eq_none_iff_forall_ne_some]
  constructor
  · intro h d hmem hname hversion
    exact h d (R.find?_eq_some_iff.mpr ⟨hmem, hname, hversion⟩)
  · intro h d hfind
    obtain ⟨hmem, hname, hversion⟩ := R.find?_eq_some_iff.mp hfind
    exact h d hmem hname hversion

/-- A definition whose name and version are taken by another one is refused. -/
def store (R : Registry) (d : MachineDefinition) : Except StorageError Registry :=
  match h : R.find? d.name d.version with
  | some stored =>
    if stored = d then .ok R
    else .error (.alreadyExists ("machine '" ++ d.name ++ "' version " ++ toString d.version))
  | none => .ok
    { stored := R.stored ++ [d]
      distinct := by
        rw [List.map_append, List.nodup_append]
        refine ⟨R.distinct, List.nodup_singleton _, ?_⟩
        intro key hkey key' hkey' heq
        obtain ⟨d', hd', rfl⟩ := List.mem_map.mp hkey
        obtain rfl := List.mem_singleton.mp hkey'
        obtain ⟨hname, hversion⟩ := Prod.mk.inj heq
        exact R.find?_eq_none_iff.mp h d' hd' hname hversion }

/-- The registry after a call: one that fails changes nothing. -/
def apply (R : Registry) (call : StoreCall) : Registry :=
  match withFault call.fault (R.store call.definition) with
  | .ok R' => R'
  | .error _ => R

/-- The registry after a sequence of calls. -/
def storeAll (calls : List StoreCall) : Registry := calls.foldl apply empty

theorem storeAll_concat (calls : List StoreCall) (call : StoreCall) :
    storeAll (calls ++ [call]) = (storeAll calls).apply call :=
  List.foldl_concat ..

/-- **What a call adds**: its definition, if the write goes through and the place is free. -/
theorem mem_apply (R : Registry) {call : StoreCall} {d : MachineDefinition} :
    d ∈ (R.apply call).stored ↔ d ∈ R.stored ∨
      (call.written = some d ∧ R.find? d.name d.version = none) := by
  unfold apply StoreCall.written
  cases call.fault with
  | some f => simp [withFault]
  | none =>
    rw [withFault_none]
    unfold store
    grind

end Registry

/-! ### The database -/

/-- The definitions a sequence of calls writes. -/
def written (calls : List StoreCall) : List MachineDefinition := calls.filterMap StoreCall.written

theorem written_append (calls calls' : List StoreCall) :
    written (calls ++ calls') = written calls ++ written calls' :=
  List.filterMap_append ..

theorem written_cons (call : StoreCall) (calls : List StoreCall) :
    written (call :: calls) = call.written.toList ++ written calls := by
  unfold written
  cases h : call.written with
  | none => rw [List.filterMap_cons_none h]; rfl
  | some d => rw [List.filterMap_cons_some h]; rfl

theorem written_singleton (call : StoreCall) : written [call] = call.written.toList := by
  rw [written_cons]
  exact List.append_nil _

theorem storeAll_concat (calls : List StoreCall) (call : StoreCall) :
    storeAll (calls ++ [call]) = call.step.exec (storeAll calls) :=
  List.foldl_concat ..

/-- **The row of a name holds the last definition written under it.** -/
theorem get_machines_storeAll (calls : List StoreCall) (name : MachineName) :
    (storeAll calls).machines[name]?
      = ((written calls).filter fun d => d.name == name).getLast?.map MachineDefinition.stored := by
  induction calls using List.reverseRecOn with
  | nil => rfl
  | append_singleton calls call ih =>
    obtain ⟨d, fault⟩ := call
    rw [storeAll_concat, written_append, written_singleton, List.filter_append,
      List.getLast?_append]
    cases fault with
    | some f =>
      -- the transaction failed and wrote nothing
      change (storeAll calls).machines[name]? = _
      rw [ih]
      rfl
    | none =>
      change ((storeAll calls).machines.insert d.name d.stored)[name]? = _
      rw [Table.get_insert, ih]
      simp only [StoreCall.written, Option.toList_some, List.filter_cons, List.filter_nil,
        beq_iff_eq]
      split
      · rfl
      · rfl

/-- A row is of a definition written under its name. -/
theorem written_of_get_machines {calls : List StoreCall} {name : MachineName}
    {d : MachineDefinition} (h : (storeAll calls).machines[name]? = some d) :
    ∃ d' ∈ written calls, d'.name = name ∧ d'.stored = d := by
  rw [get_machines_storeAll] at h
  obtain ⟨d', hlast, hstored⟩ := Option.map_eq_some_iff.mp h
  obtain ⟨hmem, hname⟩ := List.mem_filter.mp (List.mem_of_getLast? hlast)
  exact ⟨d', hmem, by simpa using hname, hstored⟩

theorem name_of_get_machines {calls : List StoreCall} {name : MachineName} {d : MachineDefinition}
    (h : (storeAll calls).machines[name]? = some d) : d.name = name := by
  obtain ⟨d', -, hname, rfl⟩ := written_of_get_machines h
  exact hname

theorem mem_listMachines {calls : List StoreCall} {d : MachineDefinition} :
    d ∈ RedbEngine.listMachines (storeAll calls) ↔
      (storeAll calls).machines[d.name]? = some d := by
  unfold RedbEngine.listMachines
  rw [Table.mem_values]
  constructor
  · rintro ⟨name, hget⟩
    rw [name_of_get_machines hget]
    exact hget
  · exact fun h => ⟨d.name, h⟩

/-! ### When the database is a versioned store -/

/-- After the calls, the database answers for `name` and `version` as the registry does. -/
structure VersionedAt (calls : List StoreCall) (name : MachineName) (version : ℕ) : Prop where
  refuses : ∀ before call after stored, calls = before ++ call :: after →
    (Registry.storeAll before).find? call.definition.name call.definition.version = some stored →
    stored ≠ call.definition →
      (∃ e, call.step.outcome (storeAll before) = .error e) ∧
        storeAll (before ++ [call]) = storeAll before
  getVersion : ∀ d, (Registry.storeAll calls).find? name version = some d →
    RedbEngine.getMachine (storeAll calls) name (some version) = .ok d
  notFound : (Registry.storeAll calls).find? name version = none →
    ∃ what, RedbEngine.getMachine (storeAll calls) name (some version) = .error (.notFound what)
  getLatest : ∀ d, (Registry.storeAll calls).latest name = some d →
    RedbEngine.getMachine (storeAll calls) name none = .ok d
  lists : (RedbEngine.listMachines (storeAll calls)).Perm (Registry.storeAll calls).stored

/-- The definitions written under one name are all the same. -/
def OneVersion (calls : List StoreCall) : Prop :=
  ∀ d ∈ written calls, ∀ d' ∈ written calls, d.name = d'.name → d = d'

/-- The definitions written are read back as they are. -/
def Unaltered (calls : List StoreCall) : Prop := ∀ d ∈ written calls, d.stored = d

/-- The registry holds nothing that was not written. -/
theorem Registry.stored_subset (calls : List StoreCall) :
    (Registry.storeAll calls).stored ⊆ written calls := by
  induction calls using List.reverseRecOn with
  | nil => exact List.nil_subset _
  | append_singleton calls call ih =>
    rw [Registry.storeAll_concat, written_append, written_singleton]
    intro d hd
    obtain hd | ⟨hd, -⟩ := (Registry.mem_apply _).mp hd
    · exact List.mem_append_left _ (ih hd)
    · exact List.mem_append_right _ (by rw [hd]; exact List.mem_singleton_self d)

/-- A call that is not refused leaves its definition in the registry. -/
theorem Registry.mem_apply_of_written (R : Registry) {call : StoreCall} {d : MachineDefinition}
    (hd : call.written = some d)
    (hfree : ∀ stored, R.find? d.name d.version = some stored → stored = d) :
    d ∈ (R.apply call).stored := by
  rw [R.mem_apply]
  cases hfind : R.find? d.name d.version with
  | none => exact Or.inr ⟨hd, rfl⟩
  | some stored =>
    obtain rfl := hfree stored hfind
    exact Or.inl (R.find?_eq_some_iff.mp hfind).1

/-- Without refusals the registry holds all that was written. -/
theorem Registry.written_subset {calls : List StoreCall}
    (h : ∀ before call after stored, calls = before ++ call :: after → call.fault = none →
      (Registry.storeAll before).find? call.definition.name call.definition.version = some stored →
        stored = call.definition) : written calls ⊆ (Registry.storeAll calls).stored := by
  induction calls using List.reverseRecOn with
  | nil => exact List.nil_subset _
  | append_singleton calls call ih =>
    have ih := ih fun before c after stored heq =>
      h before c (after ++ [call]) stored (by rw [heq]; simp)
    rw [Registry.storeAll_concat, written_append, written_singleton]
    intro d hd
    obtain hd | hd := List.mem_append.mp hd
    · exact (Registry.mem_apply _).mpr (Or.inl (ih hd))
    · have hwritten : call.written = some d := by simpa using hd
      obtain ⟨d', fault⟩ := call
      cases fault with
      | some f => exact absurd hwritten (by simp [StoreCall.written])
      | none =>
        obtain rfl := Option.some.inj hwritten
        exact Registry.mem_apply_of_written _ hwritten fun stored =>
          h calls _ [] stored rfl rfl

/-- With one definition for each name, its row is the definition that was written. -/
theorem OneVersion.get_machines {calls : List StoreCall} (h : OneVersion calls)
    (hkept : Unaltered calls) {name : MachineName} {d : MachineDefinition} :
    (storeAll calls).machines[name]? = some d ↔ d ∈ written calls ∧ d.name = name := by
  constructor
  · intro hget
    obtain ⟨d', hd', hname, rfl⟩ := written_of_get_machines hget
    rw [hkept d' hd']
    exact ⟨hd', hname⟩
  · rintro ⟨hd, rfl⟩
    cases hget : (storeAll calls).machines[d.name]? with
    | some stored =>
      obtain ⟨d', hd', hname, rfl⟩ := written_of_get_machines hget
      rw [hkept d' hd', h d' hd' d hd hname]
    | none =>
      rw [get_machines_storeAll, Option.map_eq_none_iff, List.getLast?_eq_none_iff,
        List.filter_eq_nil_iff] at hget
      exact absurd (beq_self_eq_true d.name) (hget d hd)

/-- With one definition for each name, no write finds its place taken by another one. -/
theorem OneVersion.eq_of_find {before after : List StoreCall} {call : StoreCall}
    (h : OneVersion (before ++ call :: after)) (hfault : call.fault = none)
    {stored : MachineDefinition} (hfind : (Registry.storeAll before).find? call.definition.name
      call.definition.version = some stored) : stored = call.definition := by
  obtain ⟨hmem, hname, -⟩ := (Registry.storeAll before).find?_eq_some_iff.mp hfind
  unfold OneVersion at h
  rw [written_append, written_cons] at h
  have hcall : call.definition ∈ call.written.toList := by simp [StoreCall.written, hfault]
  exact h stored (List.mem_append_left _ (Registry.stored_subset before hmem)) call.definition
    (List.mem_append_right _ (List.mem_append_left _ hcall)) hname

theorem OneVersion.mem_stored {calls : List StoreCall} (h : OneVersion calls)
    {d : MachineDefinition} : d ∈ (Registry.storeAll calls).stored ↔ d ∈ written calls := by
  refine ⟨fun hd => Registry.stored_subset calls hd, fun hd => Registry.written_subset ?_ hd⟩
  rintro before call after stored rfl hfault hfind
  exact h.eq_of_find hfault hfind

theorem getMachine_eq_ok_iff {S : Store} {name : MachineName} {version : Option ℕ}
    {d : MachineDefinition} :
    RedbEngine.getMachine S name version = .ok d ↔ S.machines[name]? = some d := by
  unfold RedbEngine.getMachine
  cases S.machines[name]? with
  | some d' => simp
  | none => simp

theorem OneVersion.versionedAt {calls : List StoreCall} (h : OneVersion calls)
    (hkept : Unaltered calls) {name : MachineName} {version : ℕ}
    (hversion : ∀ d ∈ written calls, d.name = name → d.version = version) :
    VersionedAt calls name version where
  refuses := by
    rintro before ⟨d, fault⟩ after stored rfl hfind hne
    -- only a call that meets a fault is left
    cases fault with
    | none => exact absurd (h.eq_of_find rfl hfind) hne
    | some f =>
      rw [storeAll_concat]
      exact ⟨⟨f.toError, rfl⟩, rfl⟩
  getVersion d hfind := by
    obtain ⟨hmem, hname, -⟩ := Registry.find?_eq_some_iff _ |>.mp hfind
    exact getMachine_eq_ok_iff.mpr ((h.get_machines hkept).mpr ⟨h.mem_stored.mp hmem, hname⟩)
  notFound hnone := by
    have hget : (storeAll calls).machines[name]? = none := by
      refine Option.eq_none_iff_forall_ne_some.mpr fun d hget => ?_
      obtain ⟨hd, hname⟩ := (h.get_machines hkept).mp hget
      exact Registry.find?_eq_none_iff _ |>.mp hnone d (h.mem_stored.mpr hd) hname
        (hversion d hd hname)
    unfold RedbEngine.getMachine
    rw [hget]
    exact ⟨_, rfl⟩
  getLatest d hlatest := by
    obtain ⟨hmem, hname⟩ := List.mem_filter.mp (List.argmax_mem hlatest)
    exact getMachine_eq_ok_iff.mpr
      ((h.get_machines hkept).mpr ⟨h.mem_stored.mp hmem, by simpa using hname⟩)
  lists := by
    refine (List.perm_ext_iff_of_nodup ?_ ?_).mpr fun d => ?_
    · exact Table.values_nodup _ fun _ _ hget => name_of_get_machines hget
    · exact List.Nodup.of_map _ (Registry.storeAll calls).distinct
    · rw [mem_listMachines, h.get_machines hkept, h.mem_stored, and_iff_left rfl]

/-- A write that goes through is not refused. -/
theorem VersionedAt.written_subset {calls : List StoreCall} {name : MachineName} {version : ℕ}
    (h : VersionedAt calls name version) : written calls ⊆ (Registry.storeAll calls).stored := by
  refine Registry.written_subset ?_
  rintro before ⟨d, fault⟩ after stored heq rfl hfind
  by_contra hne
  obtain ⟨⟨e, he⟩, -⟩ := h.refuses before _ after stored heq hfind hne
  exact absurd he (by simp [StoreCall.step, StorageStep.outcome, WriteCall.run, withFault])

/-- What was written is listed, so it is the row of its name. -/
theorem VersionedAt.get_machines {calls : List StoreCall} {name : MachineName} {version : ℕ}
    (h : VersionedAt calls name version) {d : MachineDefinition} (hd : d ∈ written calls) :
    (storeAll calls).machines[d.name]? = some d :=
  mem_listMachines.mp (h.lists.mem_iff.mpr (h.written_subset hd))

/-- The list has one entry for a name, so the registry has one, so one was written. -/
theorem VersionedAt.oneVersion {calls : List StoreCall} {name : MachineName} {version : ℕ}
    (h : VersionedAt calls name version) : OneVersion calls := by
  intro d hd d' hd' hname
  have hget := h.get_machines hd
  rw [hname, h.get_machines hd'] at hget
  exact (Option.some.inj hget).symm

theorem VersionedAt.unaltered {calls : List StoreCall} {name : MachineName} {version : ℕ}
    (h : VersionedAt calls name version) : Unaltered calls := by
  intro d hd
  obtain ⟨d', -, -, rfl⟩ := written_of_get_machines (h.get_machines hd)
  exact d'.stored_idem

/-- **The machine registry is a versioned store only as long as every name has one definition**, no
definition has an effect with a null payload, and then only for its version. -/
theorem registry_versioned_iff (calls : List StoreCall) (name : MachineName) (version : ℕ) :
    VersionedAt calls name version ↔
      (∀ d ∈ written calls, ∀ d' ∈ written calls, d.name = d'.name → d = d') ∧
      (∀ d ∈ written calls, ∀ rule ∈ d.effects, rule.payload ≠ some .null) ∧
      ∀ d ∈ written calls, d.name = name → d.version = version := by
  have hkept : Unaltered calls ↔
      ∀ d ∈ written calls, ∀ rule ∈ d.effects, rule.payload ≠ some .null :=
    forall₂_congr fun d _ => MachineDefinition.stored_eq_self_iff
  rw [← hkept]
  refine ⟨fun h => ⟨h.oneVersion, h.unaltered, fun d hd hname => ?_⟩,
    fun ⟨hone, hkept, hversion⟩ => OneVersion.versionedAt hone hkept hversion⟩
  -- Asked for a version nobody wrote, the database would still answer with the row of the name.
  by_contra hne
  have hget := hname ▸ h.get_machines hd
  have hnone : (Registry.storeAll calls).find? name version = none := by
    rw [Registry.find?_eq_none_iff]
    intro d' hd' hname' hversion'
    rw [h.oneVersion d' (h.oneVersion.mem_stored.mp hd') d hd (hname'.trans hname.symm)]
      at hversion'
    exact hne hversion'
  obtain ⟨what, hwhat⟩ := h.notFound hnone
  exact absurd (hwhat.symm.trans (getMachine_eq_ok_iff.mpr hget)) (by simp)

/-- A door, with the events of a version. -/
def doorMachine (version : ℕ) (event : EventName) : MachineDefinition where
  name := "door"
  version
  states := ["open", "closed"]
  initialState := "open"
  transitions := [⟨event, ["open"], "closed", []⟩]
  effects := []
  createdAt := 0

theorem registry_versioned_iff_oneDoor : VersionedAt [⟨doorMachine 1 "close", none⟩] "door" 1 := by
  have hwritten : written [⟨doorMachine 1 "close", none⟩] = [doorMachine 1 "close"] := rfl
  refine (registry_versioned_iff _ _ _).mpr ⟨?_, ?_, ?_⟩
  · rw [hwritten]
    decide
  · rw [hwritten]
    decide
  · rw [hwritten]
    decide

/-- **A second version replaces the first**, under the same version with other content as well: the
registry refuses the third call and still has the first version, the database answers every one of
the reads with the third definition. -/
theorem secondDoor_replaces :
    let calls : List StoreCall := [⟨doorMachine 1 "close", none⟩, ⟨doorMachine 2 "shut", none⟩,
      ⟨doorMachine 2 "slam", none⟩]
    (Registry.storeAll calls).stored = [doorMachine 1 "close", doorMachine 2 "shut"] ∧
    RedbEngine.getMachine (storeAll calls) "door" (some 1) = .ok (doorMachine 2 "slam") ∧
    RedbEngine.getMachine (storeAll calls) "door" none = .ok (doorMachine 2 "slam") ∧
    RedbEngine.getMachine (storeAll calls) "door" (some 7) = .ok (doorMachine 2 "slam") ∧
    RedbEngine.listMachines (storeAll calls) = [doorMachine 2 "slam"] ∧
    ¬ VersionedAt calls "door" 1 := by
  intro calls
  have hget : RedbEngine.getMachine (storeAll calls) "door" (some 1)
      = .ok (doorMachine 2 "slam") := by decide
  refine ⟨by decide, hget, by decide, by decide, by decide, fun h => ?_⟩
  have hfirst := h.getVersion (doorMachine 1 "close") (by decide)
  exact absurd (hfirst.symm.trans hget) (by decide)

end StateMaster
