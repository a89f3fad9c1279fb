import StateMaster.Engine.Outcome
import StateMaster.Framework.Linearize

/-!
# Transitions are linearizable

A call is four storage transactions under the lock of its stripe. While it holds that lock, no
other call touches what it reads: not its row, because another entity with the same storage key
would have the same stripe, and not its idempotency key, because the key belongs to one entity. So
what a call has read stays true until it finishes (`StageFact`), and the step that decides its
outcome gives what the sequential `transition` gives *at that moment*. That step is its
linearization point.

* `LinearInvariant` — lock discipline, and `StageFact` at every call;
* `transitions_linearizable` — the run is equivalent to a serial one that respects real time, and
  no call is ever refused by the checks inside `execute_transition`.
-/

open Framework Framework.Text

namespace StateMaster

/-- A call with its outcome, once decided. -/
def Pc.decided : Pc → Option (Call × Outcome)
  | .finished c res | .released c res | .returned c res => some (c, res)
  | _ => none

/-- Moving one call changes what is decided of that call only. -/
theorem World.decided_setPc (w : World) (i : ℕ) (pc : Pc) :
    (fun j => ((w.setPc i pc).calls j).decided)
      = Function.update (fun j => (w.calls j).decided) i pc.decided := by
  funext j
  by_cases hj : j = i
  · rw [hj, Function.update_self, World.setPc_calls_self]
  · rw [Function.update_of_ne hj, World.setPc_calls_of_ne w pc hj]

theorem World.decided_setPc_of_eq {w : World} {i : ℕ} {pc : Pc}
    (h : pc.decided = (w.calls i).decided) :
    (fun j => ((w.setPc i pc).calls j).decided) = fun j => (w.calls j).decided := by
  rw [World.decided_setPc, h]
  exact Function.update_eq_self i fun j => (w.calls j).decided

/-- What is assumed of the calls of a run: their storage steps go through, their names hold no
separator, and a key belongs to one entity. -/
structure Admissible (A : Call → Prop) : Prop where
  faults : ∀ c, A c → c.faults = CallFaults.none
  nulFree : ∀ c, A c → NulFree c.entityId ∧ NulFree c.machine
  keys : ∀ c c' key, A c → A c' → c.idempotencyKey = some key → c'.idempotencyKey = some key →
    c.entityId = c'.entityId ∧ c.machine = c'.machine

/-- What a call has read is what it would read now. -/
def StageFact (guards : GuardRegistry) (S : Store) : Pc → Prop
  | .missed c => S.KeyFree c
  | .defined c definition => S.KeyFree c ∧ Engine.readDefinition S c = .ok definition
  | .read c definition current => S.KeyFree c ∧ Engine.readDefinition S c = .ok definition ∧
    Engine.readCurrent S c definition = .ok current
  | .planned c plan => S.KeyFree c ∧ ∃ definition current,
    Engine.readDefinition S c = .ok definition ∧
    Engine.readCurrent S c definition = .ok current ∧
    Engine.planRequest guards c definition current = .ok plan
  | _ => True

/-- The call, if there is one, is one of those assumed. -/
def AdmitFact (A : Call → Prop) (pc : Pc) : Prop :=
  ∀ c, pc.call = some c → A c

/-- A storage error that reaches a caller is a missing definition. -/
def ResultFact (pc : Pc) : Prop :=
  ∀ e, pc.outcome = some (.error (.storage e)) → ∃ what, e = .notFound what

structure LinearInvariant (cfg : Config) (guards : GuardRegistry) (A : Call → Prop) (w : World) :
    Prop where
  guards_eq : w.guards = guards
  up : w.shutdown = false
  log : LogInvariant w.store
  admitted : ∀ i, AdmitFact A (w.calls i)
  locks : ∀ i, LockFact cfg w.locks i (w.calls i)
  stages : ∀ i, StageFact guards w.store (w.calls i)
  results : ∀ i, ResultFact (w.calls i)

/-! ### The serial engine, stage by stage -/

section Serial

variable {guards : GuardRegistry} {S S' : Store} {c : Call} {definition : MachineDefinition}
  {current : Current} {plan : Plan} {e : EngineError}

theorem findReplay_eq_none_iff (hS : LogInvariant S) (hf : c.faults = CallFaults.none) :
    Engine.findReplay S c = none ↔ S.KeyFree c := by
  unfold Engine.findReplay Store.KeyFree
  rw [hf]
  cases hkey : c.idempotencyKey with
  | none => simp
  | some key =>
    dsimp only [CallFaults.none]
    rw [withFault_none]
    unfold RedbEngine.checkIdempotency
    cases hbound : S.idempotency[key]? with
    | none => simpa using hbound
    | some s =>
      -- A bound key points at a record, so the lookup cannot miss.
      obtain ⟨r, hr, -⟩ := hS.keyed key s hbound
      simp only [hr, reduceCtorEq, false_iff, Option.some.injEq, forall_eq']
      rw [hbound]
      simp

theorem runAlone_of_replay {existing : TransitionRecord}
    (h : Engine.findReplay S c = some existing) :
    Engine.runAlone guards false S c = (.ok existing.toResult, S) := by
  simp only [Engine.runAlone, Engine.transition, h, Bool.false_eq_true, if_false]

theorem runAlone_of_noDefinition (hmiss : Engine.findReplay S c = none)
    (hdef : Engine.readDefinition S c = .error e) : Engine.runAlone guards false S c = (.error e, S) := by
  simp only [Engine.runAlone, Engine.transition, hmiss, hdef, Bool.false_eq_true, if_false, bind,
    Except.bind]

theorem runAlone_of_reject (hmiss : Engine.findReplay S c = none)
    (hdef : Engine.readDefinition S c = .ok definition)
    (hread : Engine.readCurrent S c definition = .ok current)
    (hplan : Engine.planRequest guards c definition current = .error e) :
    Engine.runAlone guards false S c = (.error e, S) := by
  simp only [Engine.runAlone, Engine.transition, hmiss, hdef, hread, hplan, Bool.false_eq_true, if_false,
    bind, Except.bind]

theorem runAlone_of_commit {res : TransitionResult} (hmiss : Engine.findReplay S c = none)
    (hdef : Engine.readDefinition S c = .ok definition)
    (hread : Engine.readCurrent S c definition = .ok current)
    (hplan : Engine.planRequest guards c definition current = .ok plan)
    (hcommit : Engine.commitPlan S c plan = .ok (res, S')) :
    Engine.runAlone guards false S c = (.ok res, S') := by
  simp only [Engine.runAlone, Engine.transition, hmiss, hdef, hread, hplan, hcommit, Bool.false_eq_true,
    if_false, bind, Except.bind]

/-! ### Errors -/

theorem readDefinition_eq_error (hf : c.faults = CallFaults.none)
    (h : Engine.readDefinition S c = .error e) : ∃ what, e = .storage (.notFound what) := by
  unfold Engine.readDefinition at h
  rw [hf] at h
  change (RedbEngine.getMachine S c.machine none).mapError EngineError.storage = .error e at h
  unfold RedbEngine.getMachine at h
  split at h
  · exact absurd h (by simp [Except.mapError])
  · exact ⟨_, (Except.error.inj h).symm⟩

/-- Without a fault the projection read always gives a state. -/
theorem readCurrent_ne_error (hf : c.faults = CallFaults.none) :
    Engine.readCurrent S c definition ≠ .error e := by
  unfold Engine.readCurrent
  rw [hf]
  rw [show CallFaults.none.getEntityState = none from rfl, withFault_none,
    Engine.getEntityState_eq]
  cases S.entityStates[entityStateKey c.entityId c.machine]? with
  | some row => simp
  | none => simp

/-- The decision between reads and commit fails with errors of the core only. -/
theorem exists_core_of_planRequest_eq_error
    (h : Engine.planRequest guards c definition current = .error e) : ∃ e', e = .core e' := by
  rcases Engine.planRequest_eq_error h with ⟨_, -, -, rfl⟩ | ⟨-, ⟨-, rfl⟩ | ⟨_, -, -, _, -, rfl⟩⟩
  · exact ⟨_, rfl⟩
  · exact ⟨_, rfl⟩
  · exact ⟨_, rfl⟩

/-- **The commit goes through**: a plan made from what the store still holds passes the version
check and the key check. -/
theorem commitPlan_succeeds (hf : c.faults = CallFaults.none) (hfree : S.KeyFree c)
    (hread : Engine.readCurrent S c definition = .ok current)
    (hplan : Engine.planRequest guards c definition current = .ok plan) :
    ∃ p, Engine.commitPlan S c plan = .ok p := by
  obtain ⟨rule, -, -, -, rfl⟩ := Engine.planRequest_eq_ok hplan
  have hver : ∀ row : EntityState, S.entityStates[c.stateKey]? = some row →
      row.version = current.version := by
    intro row hrow
    rcases Engine.readCurrent_eq_ok hread with ⟨row', hrow', rfl⟩ | ⟨hnone, -⟩
    · rw [hrow] at hrow'
      rw [Option.some.inj hrow']
    · exact absurd (hnone.symm.trans hrow) (by simp)
  obtain ⟨S', hS'⟩ := RedbEngine.commit_exists S (Engine.buildPlan c definition current rule).record
    (Engine.buildPlan c definition current rule).newState
    (Engine.buildPlan c definition current rule).effects hver hfree
  exact ⟨_, Engine.commitPlan_of_commit (by rw [hf]; rfl) hS'⟩

end Serial

/-! ### What another call leaves alone -/

/-- What call `c` reads is the same in both stores. -/
structure Untouched (S S' : Store) (c : Call) : Prop where
  machines : S'.machines = S.machines
  row : S'.entityStates[c.stateKey]? = S.entityStates[c.stateKey]?
  key : ∀ key, c.idempotencyKey = some key → S'.idempotency[key]? = S.idempotency[key]?

section Untouched

variable {S S' : Store} {c : Call}

theorem Untouched.keyFree (h : Untouched S S' c) (hfree : S.KeyFree c) : S'.KeyFree c := by
  intro key hkey
  rw [h.key key hkey]
  exact hfree key hkey

theorem Untouched.readDefinition (h : Untouched S S' c) :
    Engine.readDefinition S' c = Engine.readDefinition S c := by
  unfold Engine.readDefinition RedbEngine.getMachine
  rw [h.machines]

theorem Untouched.readCurrent (h : Untouched S S' c) (definition : MachineDefinition) :
    Engine.readCurrent S' c definition = Engine.readCurrent S c definition := by
  unfold Engine.readCurrent
  rw [Engine.getEntityState_eq, Engine.getEntityState_eq]
  have hrow := h.row
  unfold Call.stateKey at hrow
  rw [hrow]

/-- What a call knows survives a change that leaves its reads alone. -/
theorem StageFact.of_untouched {guards : GuardRegistry} {pc : Pc}
    (hfact : StageFact guards S pc) (h : ∀ c, pc.holder = some c → Untouched S S' c) :
    StageFact guards S' pc := by
  cases pc with
  | missed c => exact (h c rfl).keyFree hfact
  | defined c definition =>
    exact ⟨(h c rfl).keyFree hfact.1, (h c rfl).readDefinition.trans hfact.2⟩
  | read c definition current =>
    exact ⟨(h c rfl).keyFree hfact.1, (h c rfl).readDefinition.trans hfact.2.1,
      ((h c rfl).readCurrent definition).trans hfact.2.2⟩
  | planned c plan =>
    obtain ⟨hfree, definition, current, hdef, hread, hplan⟩ := hfact
    exact ⟨(h c rfl).keyFree hfree, definition, current, (h c rfl).readDefinition.trans hdef,
      ((h c rfl).readCurrent definition).trans hread, hplan⟩
  | _ => exact trivial

/-- A commit on another stripe leaves the call's reads alone. -/
theorem Untouched.of_commit {cfg : Config} {A : Call → Prop} (hA : Admissible A) {c' : Call}
    {definition : MachineDefinition} {current : Current} {rule : TransitionRule}
    (hc : A c) (hc' : A c') (hstripe : cfg.stripe c ≠ cfg.stripe c')
    (h : Commit S (Engine.buildPlan c' definition current rule).record
      (Engine.buildPlan c' definition current rule).newState
      (Engine.buildPlan c' definition current rule).effects S') : Untouched S S' c := by
  have hpair : ¬ (c'.entityId = c.entityId ∧ c'.machine = c.machine) := by
    rintro ⟨he, hm⟩
    refine hstripe ?_
    unfold Config.stripe
    rw [he, hm]
  refine ⟨h.machines, ?_, fun key hkey => ?_⟩
  · have hne : c'.stateKey ≠ c.stateKey := fun heq =>
      hpair (entityStateKey_injective_of_nulFree (hA.nulFree c' hc').1 (hA.nulFree c hc).1 heq)
    rw [h.entityStates]
    exact Table.get_insert_of_ne _ _ hne
  · rw [h.idempotency]
    cases hkey' : c'.idempotencyKey with
    | none => rw [show (Engine.buildPlan c' definition current rule).record.idempotencyKey = none
        from hkey', Option.elim_none]
    | some key' =>
      rw [show (Engine.buildPlan c' definition current rule).record.idempotencyKey = some key'
        from hkey', Option.elim_some]
      refine Table.get_insert_of_ne _ _ ?_
      rintro rfl
      exact hpair (hA.keys c' c key' hc' hc hkey' hkey)

end Untouched

/-! ### Steps -/

/-- The labels of a run made of transition calls only. -/
def Label.ofCalls (A : Call → Prop) : Label → Prop
  | .invoke _ c => A c
  | .step _ => True
  | .ret _ => True
  | _ => False

section Steps

variable {cfg : Config} {guards : GuardRegistry} {A : Call → Prop} {w w' : World} {i : ℕ}

theorem LinearInvariant.call_of_holder (hw : LinearInvariant cfg guards A w) {j : ℕ} {c : Call}
    (hj : (w.calls j).holder = some c) : A c :=
  hw.admitted j c (Pc.call_of_holder hj)

/-- A call of the run meets no fault. -/
theorem LinearInvariant.faults (hw : LinearInvariant cfg guards A w) (hA : Admissible A) {c : Call}
    (hcall : (w.calls i).call = some c) : c.faults = CallFaults.none :=
  hA.faults c (hw.admitted i c hcall)

/-- A call whose key is free misses. -/
theorem LinearInvariant.findReplay_eq_none (hw : LinearInvariant cfg guards A w)
    (hA : Admissible A) {c : Call} (hcall : (w.calls i).call = some c) :
    Engine.findReplay w.store c = none ↔ w.store.KeyFree c :=
  findReplay_eq_none_iff hw.log (hw.faults hA hcall)

/-- **Every call's reads stay good**: the moving call's because it has just made them, the others'
because a commit is on another stripe. -/
theorem LinearInvariant.stages_step (hA : Admissible A) (hw : LinearInvariant cfg guards A w)
    (h : CallStep cfg w i w') : ∀ j, StageFact guards w'.store (w'.calls j) := by
  have hi := hw.stages i
  cases h with
  | miss c hpc hfind =>
    refine World.forall_setPc ?_ fun j _ => hw.stages j
    exact (hw.findReplay_eq_none hA (by rw [hpc]; rfl)).mp hfind
  | define c definition hpc hdef =>
    rw [hpc] at hi
    exact World.forall_setPc ⟨hi, hdef⟩ fun j _ => hw.stages j
  | read c definition current hpc hread =>
    rw [hpc] at hi
    exact World.forall_setPc ⟨hi.1, hi.2, hread⟩ fun j _ => hw.stages j
  | plan c definition current plan hpc hplan =>
    rw [hpc] at hi
    rw [hw.guards_eq] at hplan
    exact World.forall_setPc ⟨hi.1, definition, current, hi.2.1, hi.2.2, hplan⟩
      fun j _ => hw.stages j
  | commit c plan res S' hpc hcommit =>
    rw [hpc] at hi
    obtain ⟨-, definition, current, -, -, hplan⟩ := hi
    obtain ⟨rule, -, -, -, rfl⟩ := Engine.planRequest_eq_ok hplan
    have hc := (Engine.commitPlan_eq_ok hcommit).2.1
    refine World.forall_setPc trivial fun j hj => (hw.stages j).of_untouched fun c' hc' => ?_
    exact Untouched.of_commit hA (hw.call_of_holder hc') (hw.admitted i c (by rw [hpc]; rfl))
      (LockFact.stripe_ne hw.locks hc' (by rw [hpc]; rfl) hj) hc
  | _ => exact World.forall_setPc trivial fun j _ => hw.stages j

/-- **No commit is refused.** -/
theorem LinearInvariant.commit_ok (hA : Admissible A) (hw : LinearInvariant cfg guards A w)
    {c : Call} {plan : Plan} (hpc : w.calls i = .planned c plan) {e : EngineError} :
    Engine.commitPlan w.store c plan ≠ .error e := by
  have hi := hw.stages i
  rw [hpc] at hi
  obtain ⟨hfree, definition, current, -, hread, hplan⟩ := hi
  have hf := hw.faults hA (i := i) (c := c) (by rw [hpc]; rfl)
  obtain ⟨p, hp⟩ := commitPlan_succeeds hf hfree hread hplan
  rw [hp]
  exact fun h => nomatch h

theorem LinearInvariant.results_step (hA : Admissible A) (hw : LinearInvariant cfg guards A w)
    (h : CallStep cfg w i w') :
    ∀ j, ResultFact (w'.calls j) := by
  cases h with
  | noDefinition c e hpc hdef =>
    refine World.forall_setPc (fun e' he' => ?_) fun j _ => hw.results j
    have hf := hw.faults hA (i := i) (c := c) (by rw [hpc]; rfl)
    obtain ⟨what, rfl⟩ := readDefinition_eq_error hf hdef
    obtain rfl := EngineError.storage.inj (Except.error.inj (Option.some.inj he'))
    exact ⟨what, rfl⟩
  | readError c definition e hpc hread =>
    have hf := hw.faults hA (i := i) (c := c) (by rw [hpc]; rfl)
    exact absurd hread (readCurrent_ne_error hf)
  | reject c definition current e hpc hplan =>
    refine World.forall_setPc (fun e' he' => ?_) fun j _ => hw.results j
    obtain ⟨e'', rfl⟩ := exists_core_of_planRequest_eq_error hplan
    exact absurd (Except.error.inj (Option.some.inj he')) (by simp)
  | commitError c plan e hpc hcommit => exact absurd hcommit (hw.commit_ok hA hpc)
  | release c res hpc =>
    refine World.forall_setPc (fun e' he' => ?_) fun j _ => hw.results j
    exact hw.results i e' (by rw [hpc]; exact he')
  | refuse c hpc hdown => exact absurd (hw.up.symm.trans hdown) (by simp)
  | replay _ _ _ _ | enter _ _ _ | acquire _ _ _ | miss _ _ _ | define _ _ _ _ | read _ _ _ _ _
  | plan _ _ _ _ _ _ | commit _ _ _ _ _ _ =>
    refine World.forall_setPc (fun e' he' => ?_) fun j _ => hw.results j
    exact absurd he' (by simp [Pc.outcome])

theorem LinearInvariant.log_step (hw : LinearInvariant cfg guards A w)
    (h : CallStep cfg w i w') : LogInvariant w'.store := by
  cases h with
  | commit c plan res S' hpc hcommit =>
    exact (Engine.commitPlan_eq_ok hcommit).2.1.appends.invariant hw.log
  | _ => exact hw.log

/-- **The linearization point.** A step of a call decides nothing and leaves the store alone, or it
decides that call as the sequential engine would now. -/
theorem LinearInvariant.point (hA : Admissible A) (hw : LinearInvariant cfg guards A w)
    (h : CallStep cfg w i w') :
    ((fun j => (w'.calls j).decided) = (fun j => (w.calls j).decided) ∧ w'.store = w.store) ∨
    ∃ k c res, (w.calls k).decided = none ∧
      (fun j => (w'.calls j).decided)
        = Function.update (fun j => (w.calls j).decided) k (some (c, res)) ∧
      Engine.runAlone guards false w.store c = (res, w'.store) := by
  have hi := hw.stages i
  cases h with
  | refuse c hpc hdown => exact absurd (hw.up.symm.trans hdown) (by simp)
  | enter c hpc _ | acquire c hpc _ | miss c hpc _ | define c _ hpc _ | read c _ _ hpc _
  | plan c _ _ _ hpc _ | release c _ hpc =>
    exact Or.inl ⟨World.decided_setPc_of_eq (congrArg Pc.decided hpc).symm, rfl⟩
  -- The other steps fix the outcome. What the call has read still holds, so the sequential engine
  -- started now would take the same branch.
  | replay c existing hpc hfind =>
    exact Or.inr ⟨i, c, _, by rw [hpc]; rfl, World.decided_setPc .., runAlone_of_replay hfind⟩
  | noDefinition c e hpc hdef =>
    rw [hpc] at hi
    have hmiss := (hw.findReplay_eq_none hA (by rw [hpc]; rfl)).mpr hi
    exact Or.inr ⟨i, c, _, by rw [hpc]; rfl, World.decided_setPc ..,
      runAlone_of_noDefinition hmiss hdef⟩
  | readError c definition e hpc hread =>
    have hf := hw.faults hA (i := i) (c := c) (by rw [hpc]; rfl)
    exact absurd hread (readCurrent_ne_error hf)
  | reject c definition current e hpc hplan =>
    rw [hpc] at hi
    obtain ⟨hfree, hdef, hread⟩ := hi
    have hmiss := (hw.findReplay_eq_none hA (by rw [hpc]; rfl)).mpr hfree
    rw [hw.guards_eq] at hplan
    exact Or.inr ⟨i, c, _, by rw [hpc]; rfl, World.decided_setPc ..,
      runAlone_of_reject hmiss hdef hread hplan⟩
  | commit c plan res S' hpc hcommit =>
    rw [hpc] at hi
    obtain ⟨hfree, definition, current, hdef, hread, hplan⟩ := hi
    have hmiss := (hw.findReplay_eq_none hA (by rw [hpc]; rfl)).mpr hfree
    exact Or.inr ⟨i, c, _, by rw [hpc]; rfl, World.decided_setPc ..,
      runAlone_of_commit hmiss hdef hread hplan hcommit⟩
  | commitError c plan e hpc hcommit => exact absurd hcommit (hw.commit_ok hA hpc)

theorem LinearInvariant.step (hA : Admissible A) (hstriped : cfg.striped = true)
    (hw : LinearInvariant cfg guards A w) {l : Label} (hl : l.ofCalls A) (h : Step cfg w l w') :
    LinearInvariant cfg guards A w' := by
  have hlocks := h.lockFact hstriped hw.locks
  cases h with
  | invoke i c hpc =>
    exact ⟨hw.guards_eq, hw.up, hw.log,
      World.forall_setPc (fun c' hc' => by rw [← Option.some.inj hc']; exact hl)
        fun j _ => hw.admitted j,
      hlocks,
      World.forall_setPc trivial fun j _ => hw.stages j,
      World.forall_setPc (fun e he => absurd he (by simp [Pc.outcome])) fun j _ => hw.results j⟩
  | call i w' h =>
    -- The registry and the shutdown flag are not a call's to change; the rest is one lemma each.
    obtain ⟨hguards, hdown, -⟩ := h.frame
    refine ⟨hguards.trans hw.guards_eq, hdown.trans hw.up, hw.log_step h, fun j c hc => ?_,
      hlocks, hw.stages_step hA h, hw.results_step hA h⟩
    obtain ⟨pc, hcalls, hcall⟩ := h.calls_eq
    rw [hcalls] at hc
    by_cases hj : j = i
    · rw [hj, Function.update_self, hcall] at hc
      exact hw.admitted i c hc
    · rw [Function.update_of_ne hj] at hc
      exact hw.admitted j c hc
  | ret i c res hpc =>
    have hi := hw.results i
    rw [hpc] at hi
    exact ⟨hw.guards_eq, hw.up, hw.log,
      World.forall_setPc (fun c' hc' => hw.admitted i c' (by rw [hpc]; exact hc'))
        fun j _ => hw.admitted j,
      hlocks,
      World.forall_setPc trivial fun j _ => hw.stages j,
      World.forall_setPc hi fun j _ => hw.results j⟩
  | _ => exact hl.elim

end Steps

/-! ### Linearizability -/

/-- The linearization points of the concurrent engine. -/
def transitionPoints {cfg : Config} (hstriped : cfg.striped = true) (guards : GuardRegistry)
    {A : Call → Prop} (hA : Admissible A) : Points (engine cfg) (Engine.runAlone guards false) where
  abs w := w.store
  decided w i := (w.calls i).decided
  invokes l i := ∃ c, l = .invoke i c
  returns l i := l = .ret i
  inv := LinearInvariant cfg guards A
  allowed l := l.ofCalls A
  inv_step _ _ _ hw hl hstep := hw.step hA hstriped hl (step_sound hstep)
  point w l w' hw hl hstep := by
    cases step_sound hstep with
    | invoke i c hpc => exact Or.inl ⟨World.decided_setPc_of_eq (by rw [hpc]; rfl), rfl⟩
    | call i w' h => exact hw.point hA h
    | ret i c res hpc => exact Or.inl ⟨World.decided_setPc_of_eq (by rw [hpc]; rfl), rfl⟩
    | _ => exact hl.elim
  invoke_undecided w l w' i _ hstep hinv := by
    obtain ⟨c, rfl⟩ := hinv
    cases step_sound hstep with
    | invoke i c hpc => rw [World.setPc_calls_self]; rfl
  return_decided w l w' i _ hstep hret := by
    subst hret
    cases step_sound hstep with
    | ret i c res hpc => rw [hpc]; rfl

theorem LinearInvariant.initial {cfg : Config} {guards : GuardRegistry} {A : Call → Prop}
    {S : Store} (hS : LogInvariant S) : LinearInvariant cfg guards A (World.initial S guards) where
  guards_eq := rfl
  up := rfl
  log := hS
  admitted i c hc := absurd hc (by simp [World.initial, Pc.call])
  locks i c hc := absurd hc (by simp [World.initial, Pc.holder])
  stages _ := trivial
  results i e he := absurd he (by simp [World.initial, Pc.outcome])

/-- **Linearizability of transitions.** From any database the engine can have left behind, with the
guards fixed, in every interleaving of transition calls that the stripe locks allow: the
decided calls, in the order of `order`, form a serial run of `Engine.runAlone` with the same outcomes and the
same final store; a call that returned before another was invoked comes before it; every invoked
call is accounted for; and no outcome is a storage version conflict or an already bound key. -/
theorem transitions_linearizable {cfg : Config} (hstriped : cfg.striped = true) {S₀ : Store}
    (hS₀ : EngineReachable S₀) {guards : GuardRegistry} {ls : List Label} {w : World}
    (hrun : (engine cfg).exec (World.initial S₀ guards) ls = some w)
    (hcalls : ∀ l ∈ ls, (∃ i c, l = .invoke i c) ∨ (∃ i, l = .step i) ∨ ∃ i, l = .ret i)
    (hfaults : ∀ i c, Label.invoke i c ∈ ls → c.faults = CallFaults.none)
    (hnul : ∀ i c, Label.invoke i c ∈ ls → NulFree c.entityId ∧ NulFree c.machine)
    (hkeys : ∀ i c j c' key, Label.invoke i c ∈ ls → Label.invoke j c' ∈ ls →
      c.idempotencyKey = some key → c'.idempotencyKey = some key →
      c.entityId = c'.entityId ∧ c.machine = c'.machine) :
    (∃ order : List ℕ, order.Nodup ∧
      (∀ i, i ∈ order ↔ (w.calls i).decided.isSome) ∧
      (∃ entries : List (Call × Outcome),
        order.map (fun i => (w.calls i).decided) = entries.map some ∧
        serial (Engine.runAlone guards false) S₀ (entries.map Prod.fst) = (entries.map Prod.snd, w.store)) ∧
      ∀ (i j p q : ℕ) (c : Call), p < q → ls[p]? = some (.ret i) → ls[q]? = some (.invoke j c) →
        j ∈ order → [i, j].Sublist order) ∧
    (∀ i c, (w.calls i).call = some c ↔ Label.invoke i c ∈ ls) ∧
    (∀ i e, (w.calls i).outcome = some (.error (.storage e)) →
      (∀ entityId expected actual, e ≠ .versionConflict entityId expected actual) ∧
      ∀ what, e ≠ .alreadyExists what) := by
  -- The calls admitted are the ones this run invokes.
  have hA : Admissible fun c => ∃ i, Label.invoke i c ∈ ls := by
    refine ⟨?_, ?_, ?_⟩
    · rintro c ⟨i, hc⟩
      exact hfaults i c hc
    · rintro c ⟨i, hc⟩
      exact hnul i c hc
    · rintro c c' key ⟨i, hc⟩ ⟨j, hc'⟩
      exact hkeys i c j c' key hc hc'
  obtain ⟨cfg₀, guards₀, ls₀, w₀, hrun₀, rfl⟩ := hS₀
  have hallowed : ∀ l ∈ ls, l.ofCalls fun c => ∃ i, Label.invoke i c ∈ ls := by
    intro l hl
    rcases hcalls l hl with ⟨i, c, rfl⟩ | ⟨i, rfl⟩ | ⟨i, rfl⟩
    · exact ⟨i, hl⟩
    · exact trivial
    · exact trivial
  obtain ⟨hinv, order, horder⟩ := (transitionPoints hstriped guards hA).linearizable
    (LinearInvariant.initial (keyInvariant_of_run hrun₀).log) (fun _ => rfl) hallowed hrun
  refine ⟨⟨order, horder.nodup, horder.mem_iff, horder.replay, ?_⟩, call_eq_some_iff hrun, ?_⟩
  · intro i j p q c hpq hp hq hj
    exact horder.realTime i j ⟨p, q, _, _, hpq, hp, hq, rfl, c, rfl⟩ hj
  · intro i e he
    obtain ⟨what, rfl⟩ := hinv.results i e he
    exact ⟨fun _ _ _ h => (nomatch h), fun _ h => (nomatch h)⟩

/-- Two orders on two stripes. -/
def twoStripes : Config := ⟨fun entityId _ => entityId.length, true⟩

/-- Two payments go through their steps side by side, and the first is retried after it returned. -/
def overlappingPayments : List Label :=
  [Label.invoke 0 (payOrder 0 "o1" (some "k")), Label.invoke 1 (payOrder 1 "o22" none)]
  ++ steps 0 6 ++ steps 1 7 ++ steps 0 2 ++ [Label.ret 0]
  ++ [Label.invoke 2 (payOrder 2 "o1" (some "k"))] ++ steps 2 3

theorem mem_overlappingPayments {l : Label} (h : l ∈ overlappingPayments) :
    (∃ i c, l = .invoke i c ∧ (c = payOrder 0 "o1" (some "k") ∨ c = payOrder 1 "o22" none ∨
      c = payOrder 2 "o1" (some "k"))) ∨ (∃ i, l = .step i) ∨ ∃ i, l = .ret i := by
  simp only [overlappingPayments, steps, List.mem_append, List.mem_cons, List.mem_replicate,
    List.not_mem_nil, or_false] at h
  aesop

theorem transitions_linearizable_overlapping :
    ∃ w, (engine twoStripes).exec
        (World.initial (RedbEngine.storeMachine Store.empty orderMachine) ∅) overlappingPayments
        = some w ∧
      ∃ order : List ℕ, order.Nodup ∧ [0, 2].Sublist order := by
  have heval : ((engine twoStripes).exec
      (World.initial (RedbEngine.storeMachine Store.empty orderMachine) ∅)
      overlappingPayments).map (fun w => (w.calls 2).decided.isSome) = some true := by decide
  obtain ⟨w, hrun, hdecided⟩ := Option.map_eq_some_iff.mp heval
  have hcall : ∀ i c, Label.invoke i c ∈ overlappingPayments →
      c = payOrder 0 "o1" (some "k") ∨ c = payOrder 1 "o22" none ∨
        c = payOrder 2 "o1" (some "k") := by
    intro i c hc
    rcases mem_overlappingPayments hc with ⟨j, c', heq, h⟩ | ⟨j, h⟩ | ⟨j, h⟩
    · obtain ⟨rfl, rfl⟩ := Label.invoke.inj heq
      exact h
    · exact absurd h (by simp)
    · exact absurd h (by simp)
  obtain ⟨⟨order, hnodup, hmem, -, hreal⟩, -⟩ := transitions_linearizable rfl
    ⟨oneStripe, ∅, [.defineMachine orderMachine none], _, rfl, rfl⟩ hrun
    (fun l hl => (mem_overlappingPayments hl).imp_left fun ⟨i, c, h, _⟩ => ⟨i, c, h⟩)
    (fun i c hc => by rcases hcall i c hc with rfl | rfl | rfl <;> rfl)
    (fun i c hc => by rcases hcall i c hc with rfl | rfl | rfl <;> decide)
    (fun i c j c' key hc hc' hkey hkey' => by
      rcases hcall i c hc with rfl | rfl | rfl <;> rcases hcall j c' hc' with rfl | rfl | rfl <;>
        simp_all [payOrder])
  exact ⟨w, hrun, order, hnodup,
    hreal 0 2 17 18 (payOrder 2 "o1" (some "k")) (by omega) rfl rfl ((hmem 2).mpr hdecided)⟩

end StateMaster
