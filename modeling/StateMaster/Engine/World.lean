import StateMaster.Engine.Stream
import StateMaster.Engine.Transition

/-!
# The concurrent engine

Any number of `Engine::transition` calls run side by side over one store, next to definitions,
guard registrations, the change stream, the dispatcher's marks and a shutdown. A call moves from
one storage step to the next (`Pc`); between two of its steps anything else may happen. Each
storage step is one database transaction, hence atomic.

A call takes the mutex of its stripe before its first storage step and drops it after the last.
`Config.striped` can switch that off: a property proved for both values holds for the steps
*interleaved in any order*, and does not rest on the locks.

`Step` and `CallStep` list, once, everything a step can do (`step_sound`, `callStep_sound`); the
invariants are proved by cases on them.
-/

open Framework Framework.Text

namespace StateMaster

/-- `ENTITY_LOCK_STRIPES`. -/
def entityLockStripes : ℕ := 1024

/-- What the engine takes from outside: the hash of the standard library's `DefaultHasher` over an
entity id and a machine name, and whether the stripe locks are taken at all. -/
structure Config where
  hash : String → String → ℕ
  striped : Bool

/-- `Engine::entity_lock`: the stripe a call serialises on. -/
def Config.stripe (cfg : Config) (c : Call) : ℕ :=
  cfg.hash c.entityId c.machine % entityLockStripes

/-- What a call returns. -/
abbrev Outcome := Except EngineError TransitionResult

/-- Where a call is. From `holding` to `finished` it holds the lock of its stripe. -/
inductive Pc where
  | idle
  | entered (c : Call)
  | waiting (c : Call)
  | holding (c : Call)
  | missed (c : Call)
  | defined (c : Call) (definition : MachineDefinition)
  | read (c : Call) (definition : MachineDefinition) (current : Current)
  | planned (c : Call) (plan : Plan)
  | finished (c : Call) (res : Outcome)
  | released (c : Call) (res : Outcome)
  | returned (c : Call) (res : Outcome)

namespace Pc

/-- The call, once invoked. -/
def call : Pc → Option Call
  | .idle => none
  | .entered c | .waiting c | .holding c | .missed c | .defined c _ | .read c _ _ | .planned c _
  | .finished c _ | .released c _ | .returned c _ => some c

/-- The call, while it holds the lock of its stripe. -/
def holder : Pc → Option Call
  | .holding c | .missed c | .defined c _ | .read c _ _ | .planned c _ | .finished c _ => some c
  | _ => none

/-- The outcome, once decided. -/
def outcome : Pc → Option Outcome
  | .finished _ res | .released _ res | .returned _ res => some res
  | _ => none

end Pc

structure World where
  store : Store
  guards : GuardRegistry
  shutdown : Bool
  locks : ℕ → Option ℕ
  calls : ℕ → Pc
  stream : Stream

/-- `Engine::new` over a store. -/
def World.initial (S : Store) (guards : GuardRegistry) : World where
  store := S
  guards := guards
  shutdown := false
  locks := fun _ => none
  calls := fun _ => .idle
  stream := Stream.initial

inductive Label where
  /-- Call `i` of `Engine::transition` starts. -/
  | invoke (i : ℕ) (c : Call)
  /-- Call `i` makes its next step. -/
  | step (i : ℕ)
  /-- Call `i` returns. -/
  | ret (i : ℕ)
  | defineMachine (definition : MachineDefinition) (fault : Option Fault)
  | registerGuard (name : GuardName) (guard : GuardFn)
  | shutdown
  /-- `mark_effect_published` and `mark_effect_failed`. -/
  | markEffect (effectId : String) (status : EffectStatus) (fault : Option Fault)
  | stream (l : StreamLabel)

namespace World

def setPc (w : World) (i : ℕ) (pc : Pc) : World :=
  { w with calls := Function.update w.calls i pc }

def setLock (w : World) (stripe : ℕ) (holder : Option ℕ) : World :=
  { w with locks := Function.update w.locks stripe holder }

def setStore (w : World) (S : Store) : World := { w with store := S }

@[simp] theorem setPc_calls_self (w : World) (i : ℕ) (pc : Pc) : (w.setPc i pc).calls i = pc :=
  Function.update_self ..

theorem setPc_calls_of_ne (w : World) {i j : ℕ} (pc : Pc) (h : j ≠ i) :
    (w.setPc i pc).calls j = w.calls j :=
  Function.update_of_ne h ..

/-- A fact about every call survives a move of one of them to a place where it holds. -/
theorem forall_setPc {w : World} {P : ℕ → Pc → Prop} {i : ℕ} {pc : Pc} (hi : P i pc)
    (h : ∀ j, j ≠ i → P j (w.calls j)) : ∀ j, P j ((w.setPc i pc).calls j) := by
  intro j
  by_cases hj : j = i
  · subst hj
    rw [setPc_calls_self]
    exact hi
  · rw [setPc_calls_of_ne w pc hj]
    exact h j hj

/-- The next step of call `i`, if it has one and is not blocked. -/
def callStep (cfg : Config) (w : World) (i : ℕ) : Option World :=
  match w.calls i with
  | .entered c =>
    if w.shutdown then some (w.setPc i (.released c (.error .shuttingDown)))
    else some (w.setPc i (.waiting c))
  | .waiting c =>
    if cfg.striped && (w.locks (cfg.stripe c)).isSome then none
    else some ((w.setLock (cfg.stripe c) (some i)).setPc i (.holding c))
  | .holding c =>
    match Engine.findReplay w.store c with
    | some existing => some (w.setPc i (.finished c (.ok existing.toResult)))
    | none => some (w.setPc i (.missed c))
  | .missed c =>
    match Engine.readDefinition w.store c with
    | .ok definition => some (w.setPc i (.defined c definition))
    | .error e => some (w.setPc i (.finished c (.error e)))
  | .defined c definition =>
    match Engine.readCurrent w.store c definition with
    | .ok current => some (w.setPc i (.read c definition current))
    | .error e => some (w.setPc i (.finished c (.error e)))
  | .read c definition current =>
    match Engine.planRequest w.guards c definition current with
    | .ok plan => some (w.setPc i (.planned c plan))
    | .error e => some (w.setPc i (.finished c (.error e)))
  | .planned c plan =>
    match Engine.commitPlan w.store c plan with
    | .ok (res, S') => some ((w.setStore S').setPc i (.finished c (.ok res)))
    | .error e => some (w.setPc i (.finished c (.error e)))
  | .finished c res => some ((w.setLock (cfg.stripe c) none).setPc i (.released c res))
  | _ => none

/-- One step of the engine. -/
def step (cfg : Config) (w : World) : Label → Option World
  | .invoke i c =>
    match w.calls i with
    | .idle => some (w.setPc i (.entered c))
    | _ => none
  | .step i => w.callStep cfg i
  | .ret i =>
    match w.calls i with
    | .released c res => some (w.setPc i (.returned c res))
    | _ => none
  | .defineMachine definition fault =>
    match Engine.defineMachine w.store definition fault with
    | .ok S' => some (w.setStore S')
    | .error _ => some w
  | .registerGuard name guard => some { w with guards := w.guards.register name guard }
  | .shutdown => some { w with shutdown := true }
  | .markEffect effectId status fault =>
    match withFault fault (RedbEngine.updateEffectStatus w.store effectId status) with
    | .ok S' => some (w.setStore S')
    | .error _ => some w
  | .stream l => (w.stream.step w.store l).map fun st => { w with stream := st }

end World

/-- The engine as a system. -/
def engine (cfg : Config) : System World Label where
  step := World.step cfg

/-- A store some run of the engine leads to, from an empty database. -/
def EngineReachable (S : Store) : Prop :=
  ∃ cfg guards ls w, (engine cfg).exec (World.initial Store.empty guards) ls = some w ∧ w.store = S

/-! ### What a step can do -/

/-- Everything a step of call `i` can do. -/
inductive CallStep (cfg : Config) (w : World) (i : ℕ) : World → Prop where
  | refuse (c : Call) (hpc : w.calls i = .entered c) (hdown : w.shutdown = true) :
      CallStep cfg w i (w.setPc i (.released c (.error .shuttingDown)))
  | enter (c : Call) (hpc : w.calls i = .entered c) (hup : w.shutdown = false) :
      CallStep cfg w i (w.setPc i (.waiting c))
  | acquire (c : Call) (hpc : w.calls i = .waiting c)
      (hfree : cfg.striped = true → w.locks (cfg.stripe c) = none) :
      CallStep cfg w i ((w.setLock (cfg.stripe c) (some i)).setPc i (.holding c))
  | replay (c : Call) (existing : TransitionRecord) (hpc : w.calls i = .holding c)
      (hfind : Engine.findReplay w.store c = some existing) :
      CallStep cfg w i (w.setPc i (.finished c (.ok existing.toResult)))
  | miss (c : Call) (hpc : w.calls i = .holding c) (hfind : Engine.findReplay w.store c = none) :
      CallStep cfg w i (w.setPc i (.missed c))
  | define (c : Call) (definition : MachineDefinition) (hpc : w.calls i = .missed c)
      (hdef : Engine.readDefinition w.store c = .ok definition) :
      CallStep cfg w i (w.setPc i (.defined c definition))
  | noDefinition (c : Call) (e : EngineError) (hpc : w.calls i = .missed c)
      (hdef : Engine.readDefinition w.store c = .error e) :
      CallStep cfg w i (w.setPc i (.finished c (.error e)))
  | read (c : Call) (definition : MachineDefinition) (current : Current)
      (hpc : w.calls i = .defined c definition)
      (hread : Engine.readCurrent w.store c definition = .ok current) :
      CallStep cfg w i (w.setPc i (.read c definition current))
  | readError (c : Call) (definition : MachineDefinition) (e : EngineError)
      (hpc : w.calls i = .defined c definition)
      (hread : Engine.readCurrent w.store c definition = .error e) :
      CallStep cfg w i (w.setPc i (.finished c (.error e)))
  | plan (c : Call) (definition : MachineDefinition) (current : Current) (plan : Plan)
      (hpc : w.calls i = .read c definition current)
      (hplan : Engine.planRequest w.guards c definition current = .ok plan) :
      CallStep cfg w i (w.setPc i (.planned c plan))
  | reject (c : Call) (definition : MachineDefinition) (current : Current) (e : EngineError)
      (hpc : w.calls i = .read c definition current)
      (hplan : Engine.planRequest w.guards c definition current = .error e) :
      CallStep cfg w i (w.setPc i (.finished c (.error e)))
  | commit (c : Call) (plan : Plan) (res : TransitionResult) (S' : Store)
      (hpc : w.calls i = .planned c plan)
      (hcommit : Engine.commitPlan w.store c plan = .ok (res, S')) :
      CallStep cfg w i ((w.setStore S').setPc i (.finished c (.ok res)))
  | commitError (c : Call) (plan : Plan) (e : EngineError) (hpc : w.calls i = .planned c plan)
      (hcommit : Engine.commitPlan w.store c plan = .error e) :
      CallStep cfg w i (w.setPc i (.finished c (.error e)))
  | release (c : Call) (res : Outcome) (hpc : w.calls i = .finished c res) :
      CallStep cfg w i ((w.setLock (cfg.stripe c) none).setPc i (.released c res))

theorem callStep_sound {cfg : Config} {w w' : World} {i : ℕ}
    (h : w.callStep cfg i = some w') : CallStep cfg w i w' := by
  unfold World.callStep at h
  cases hpc : w.calls i with
  | idle | released c res | returned c res => rw [hpc] at h; exact absurd h (by simp)
  -- From here on, one case for each test of `transition`, in the order of its body.
  | entered c =>
    rw [hpc] at h
    dsimp only at h
    split at h
    · next hdown => obtain rfl := Option.some.inj h; exact .refuse c hpc hdown
    · next hup => obtain rfl := Option.some.inj h; exact .enter c hpc (by simpa using hup)
  | waiting c =>
    rw [hpc] at h
    dsimp only at h
    split at h
    · -- somebody holds the stripe: no step until it is free
      exact absurd h (by simp)
    · next hfree =>
      obtain rfl := Option.some.inj h
      exact .acquire c hpc fun hs => by simpa [hs] using hfree
  | holding c =>
    rw [hpc] at h
    dsimp only at h
    cases hfind : Engine.findReplay w.store c with
    | some existing => rw [hfind] at h; obtain rfl := Option.some.inj h; exact .replay c _ hpc hfind
    | none => rw [hfind] at h; obtain rfl := Option.some.inj h; exact .miss c hpc hfind
  | missed c =>
    rw [hpc] at h
    dsimp only at h
    cases hdef : Engine.readDefinition w.store c with
    | ok d => rw [hdef] at h; obtain rfl := Option.some.inj h; exact .define c d hpc hdef
    | error e => rw [hdef] at h; obtain rfl := Option.some.inj h; exact .noDefinition c e hpc hdef
  | defined c d =>
    rw [hpc] at h
    dsimp only at h
    cases hread : Engine.readCurrent w.store c d with
    | ok cur => rw [hread] at h; obtain rfl := Option.some.inj h; exact .read c d cur hpc hread
    | error e => rw [hread] at h; obtain rfl := Option.some.inj h; exact .readError c d e hpc hread
  | read c d cur =>
    rw [hpc] at h
    dsimp only at h
    cases hplan : Engine.planRequest w.guards c d cur with
    | ok p => rw [hplan] at h; obtain rfl := Option.some.inj h; exact .plan c d cur p hpc hplan
    | error e => rw [hplan] at h; obtain rfl := Option.some.inj h; exact .reject c d cur e hpc hplan
  | planned c p =>
    rw [hpc] at h
    dsimp only at h
    cases hcommit : Engine.commitPlan w.store c p with
    | ok q => rw [hcommit] at h; obtain rfl := Option.some.inj h; exact .commit c p _ _ hpc hcommit
    | error e => rw [hcommit] at h; obtain rfl := Option.some.inj h; exact .commitError c p e hpc hcommit
  | finished c res =>
    rw [hpc] at h
    obtain rfl := Option.some.inj h
    exact .release c res hpc

/-- Everything a step of the engine can do. -/
inductive Step (cfg : Config) (w : World) : Label → World → Prop where
  | invoke (i : ℕ) (c : Call) (hpc : w.calls i = .idle) :
      Step cfg w (.invoke i c) (w.setPc i (.entered c))
  | call (i : ℕ) (w' : World) (h : CallStep cfg w i w') : Step cfg w (.step i) w'
  | ret (i : ℕ) (c : Call) (res : Outcome) (hpc : w.calls i = .released c res) :
      Step cfg w (.ret i) (w.setPc i (.returned c res))
  | define (definition : MachineDefinition) (hvalid : definition.validate = .ok ()) :
      Step cfg w (.defineMachine definition none)
        (w.setStore (RedbEngine.storeMachine w.store definition))
  | defineError (definition : MachineDefinition) (fault : Option Fault) :
      Step cfg w (.defineMachine definition fault) w
  | registerGuard (name : GuardName) (guard : GuardFn) :
      Step cfg w (.registerGuard name guard) { w with guards := w.guards.register name guard }
  | shutdown : Step cfg w .shutdown { w with shutdown := true }
  | mark (effectId : String) (status : EffectStatus) (effect : Effect)
      (heffect : w.store.effects[effectId]? = some effect) :
      Step cfg w (.markEffect effectId status none) (w.setStore
        { w.store with effects := w.store.effects.insert effectId { effect with status } })
  | markError (effectId : String) (status : EffectStatus) (fault : Option Fault) :
      Step cfg w (.markEffect effectId status fault) w
  | stream (l : StreamLabel) (st : Stream) (h : w.stream.step w.store l = some st) :
      Step cfg w (.stream l) { w with stream := st }

theorem step_sound {cfg : Config} {w w' : World} {l : Label}
    (h : (engine cfg).step w l = some w') : Step cfg w l w' := by
  change World.step cfg w l = some w' at h
  cases l with
  | invoke i c =>
    cases hpc : w.calls i with
    | idle =>
      simp only [World.step, hpc] at h
      obtain rfl := Option.some.inj h
      exact .invoke i c hpc
    | _ => simp only [World.step, hpc] at h; exact absurd h (by simp)
  | step i => exact .call i w' (callStep_sound h)
  | ret i =>
    cases hpc : w.calls i with
    | released c res =>
      simp only [World.step, hpc] at h
      obtain rfl := Option.some.inj h
      exact .ret i c res hpc
    | _ => simp only [World.step, hpc] at h; exact absurd h (by simp)
  | defineMachine definition fault =>
    simp only [World.step] at h
    cases hdef : Engine.defineMachine w.store definition fault with
    | error e => rw [hdef] at h; obtain rfl := Option.some.inj h; exact .defineError definition fault
    | ok S' =>
      -- it was valid, and no fault was met
      rw [hdef] at h
      obtain rfl := Option.some.inj h
      obtain ⟨hvalid, rfl, rfl⟩ := Engine.defineMachine_eq_ok_iff.mp hdef
      exact .define definition hvalid
  | registerGuard name guard =>
    obtain rfl := Option.some.inj h
    exact .registerGuard name guard
  | shutdown =>
    obtain rfl := Option.some.inj h
    exact .shutdown
  | markEffect effectId status fault =>
    simp only [World.step] at h
    cases hmark : withFault fault (RedbEngine.updateEffectStatus w.store effectId status) with
    | error e =>
      rw [hmark] at h
      obtain rfl := Option.some.inj h
      exact .markError effectId status fault
    | ok S' =>
      rw [hmark] at h
      obtain rfl := Option.some.inj h
      cases fault with
      | some f => exact absurd hmark (by simp [withFault])
      | none =>
        rw [withFault_none] at hmark
        unfold RedbEngine.updateEffectStatus at hmark
        split at hmark
        · next effect heffect =>
          obtain rfl := Except.ok.inj hmark
          exact .mark effectId status effect heffect
        · exact absurd hmark (by simp)
  | stream l =>
    simp only [World.step, Option.map_eq_some_iff] at h
    obtain ⟨st, hst, rfl⟩ := h
    exact .stream l st hst

/-- A step of call `i` moves call `i` and no other, and does not change what it was asked. -/
theorem CallStep.calls_eq {cfg : Config} {w w' : World} {i : ℕ} (h : CallStep cfg w i w') :
    ∃ pc, w'.calls = Function.update w.calls i pc ∧ pc.call = (w.calls i).call := by
  cases h with
  | refuse c hpc _ | enter c hpc _ | acquire c hpc _ | replay c _ hpc _ | miss c hpc _
  | define c _ hpc _ | noDefinition c _ hpc _ | read c _ _ hpc _ | readError c _ _ hpc _
  | plan c _ _ _ hpc _ | reject c _ _ _ hpc _ | commit c _ _ _ hpc _ | commitError c _ _ hpc _
  | release c _ hpc => exact ⟨_, rfl, by rw [hpc]; rfl⟩

/-- A step of call `i` leaves the guards, the shutdown flag and the stream alone. -/
theorem CallStep.frame {cfg : Config} {w w' : World} {i : ℕ} (h : CallStep cfg w i w') :
    w'.guards = w.guards ∧ w'.shutdown = w.shutdown ∧ w'.stream = w.stream := by
  cases h with
  | _ => exact ⟨rfl, rfl, rfl⟩

/-- Only an invocation gives a call something to do, and only one that had nothing. -/
theorem Step.call_cases {cfg : Config} {w w' : World} {l : Label} (h : Step cfg w l w') :
    (∃ i c, l = .invoke i c ∧ (w.calls i).call = none ∧ w' = w.setPc i (.entered c)) ∨
    ((∀ i c, l ≠ .invoke i c) ∧ ∀ j, (w'.calls j).call = (w.calls j).call) := by
  cases h with
  | invoke i c hpc => exact Or.inl ⟨i, c, rfl, by rw [hpc]; rfl, rfl⟩
  | call i w' h =>
    refine Or.inr ⟨fun _ _ => Label.noConfusion, fun j => ?_⟩
    obtain ⟨pc, hcalls, hcall⟩ := h.calls_eq
    rw [hcalls]
    by_cases hj : j = i
    · rw [hj, Function.update_self, hcall]
    · rw [Function.update_of_ne hj]
  | ret i c res hpc =>
    refine Or.inr ⟨fun _ _ => Label.noConfusion, fun j => ?_⟩
    by_cases hj : j = i
    · rw [hj, World.setPc_calls_self, hpc]
      rfl
    · rw [World.setPc_calls_of_ne w _ hj]
  | _ => exact Or.inr ⟨fun _ _ => Label.noConfusion, fun _ => rfl⟩

/-- The calls of a run are those its labels invoked. -/
theorem call_eq_some_iff {cfg : Config} {S : Store} {guards : GuardRegistry} {ls : List Label}
    {w : World} (hrun : (engine cfg).exec (World.initial S guards) ls = some w) (i : ℕ)
    (c : Call) : (w.calls i).call = some c ↔ Label.invoke i c ∈ ls := by
  refine System.exec_induction_labels
    (I := fun ls w => ∀ i c, (w.calls i).call = some c ↔ Label.invoke i c ∈ ls) ?_ ?_ hrun i c
  · intro i c
    change (none : Option Call) = some c ↔ _
    simp
  · intro ls w l w' _ ih hstep i c
    rw [List.mem_append, List.mem_singleton]
    rcases (step_sound hstep).call_cases with ⟨j, c', rfl, hnone, rfl⟩ | ⟨hno, hsame⟩
    · by_cases hij : i = j
      · subst hij
        -- It was not invoked before: a call is invoked once.
        have hnot : Label.invoke i c ∉ ls := fun hmem =>
          absurd (hnone.symm.trans ((ih i c).mpr hmem)) (by simp)
        rw [World.setPc_calls_self]
        simp [Pc.call, hnot, eq_comm]
      · rw [World.setPc_calls_of_ne w _ hij, ih i c]
        simp [hij]
    · rw [hsame i, ih i c]
      simp [(hno i c).symm]

/-- What a step of the engine does to the store: nothing to the log and the rows, or the commit of
a planned call. -/
theorem Step.store_cases {cfg : Config} {w w' : World} {l : Label} (h : Step cfg w l w') :
    (KeepsLog w.store w'.store ∧ w'.store.entityStates = w.store.entityStates) ∨
    ∃ i c plan, w.calls i = .planned c plan ∧
      Commit w.store plan.record plan.newState plan.effects w'.store := by
  cases h with
  | call i w' h =>
    cases h with
    | commit c plan res S' hpc hcommit =>
      exact Or.inr ⟨i, c, plan, hpc, (Engine.commitPlan_eq_ok hcommit).2.1⟩
    | _ => exact Or.inl ⟨⟨rfl, rfl, rfl, rfl, rfl⟩, rfl⟩
  | _ => exact Or.inl ⟨⟨rfl, rfl, rfl, rfl, rfl⟩, rfl⟩

theorem Step.log_grows {cfg : Config} {w w' : World} {l : Label} (h : Step cfg w l w')
    (hlog : LogInvariant w.store) : w.store.log <+: w'.store.log := by
  rcases h.store_cases with ⟨hkeeps, -⟩ | ⟨i, c, plan, -, hcommit⟩
  · rw [hkeeps.log]
  · rw [hcommit.appends.log hlog]
    exact List.prefix_append _ _

theorem Step.sequence_le {cfg : Config} {w w' : World} {l : Label} (h : Step cfg w l w') :
    w.store.sequence ≤ w'.store.sequence := by
  rcases h.store_cases with ⟨hkeeps, -⟩ | ⟨i, c, plan, -, hcommit⟩
  · rw [hkeeps.sequence]
  · rw [hcommit.appends.sequence]
    exact Nat.le_succ _

/-- A step that takes no sequence number leaves the log alone. -/
theorem Step.log_eq {cfg : Config} {w w' : World} {l : Label} (h : Step cfg w l w')
    (hseq : w'.store.sequence = w.store.sequence) : w'.store.log = w.store.log := by
  rcases h.store_cases with ⟨hkeeps, -⟩ | ⟨i, c, plan, -, hcommit⟩
  · exact hkeeps.log
  · rw [hcommit.appends.sequence] at hseq
    exact absurd hseq (Nat.succ_ne_self _)

/-! ### Locks -/

theorem Pc.call_of_holder {pc : Pc} {c : Call} (h : pc.holder = some c) : pc.call = some c := by
  cases pc with
  | holding | missed | defined | read | planned | finished => exact h
  | idle | entered | waiting | released | returned => exact absurd h (by simp [Pc.holder])

/-- A call that holds its stripe's lock is the one the lock names. -/
def LockFact (cfg : Config) (locks : ℕ → Option ℕ) (i : ℕ) (pc : Pc) : Prop :=
  ∀ c, pc.holder = some c → locks (cfg.stripe c) = some i

section Locks

variable {cfg : Config} {w w' : World}

/-- Two calls that both hold a lock are on different stripes. -/
theorem LockFact.stripe_ne (hw : ∀ i, LockFact cfg w.locks i (w.calls i)) {i j : ℕ} {c c' : Call}
    (hi : (w.calls i).holder = some c) (hj : (w.calls j).holder = some c') (hij : i ≠ j) :
    cfg.stripe c ≠ cfg.stripe c' := by
  intro heq
  have hli := hw i c hi
  have hlj := hw j c' hj
  rw [heq, hlj] at hli
  exact hij (Option.some.inj hli).symm

/-- Acquiring, keeping or releasing its own lock, a call disturbs no other holder. -/
theorem CallStep.lockFact {i : ℕ} (h : CallStep cfg w i w') (hstriped : cfg.striped = true)
    (hw : ∀ j, LockFact cfg w.locks j (w.calls j)) : ∀ j, LockFact cfg w'.locks j (w'.calls j) := by
  cases h with
  | acquire c hpc hfree =>
    -- The stripe was free, so nobody else is on it.
    refine World.forall_setPc (fun c' hc' => ?_) fun j _ c' hc' => ?_
    · obtain rfl := Option.some.inj hc'
      exact Function.update_self ..
    · have hl := hw j c' hc'
      have hne : cfg.stripe c' ≠ cfg.stripe c := by
        intro heq
        rw [heq, hfree hstriped] at hl
        exact absurd hl (by simp)
      exact (Function.update_of_ne hne ..).trans hl
  | release c res hpc =>
    refine World.forall_setPc (fun c' hc' => ?_) fun j hj c' hc' => ?_
    · exact absurd hc' (by simp [Pc.holder])
    · have hne := LockFact.stripe_ne hw (i := j) (j := i) hc' (by rw [hpc]; rfl) hj
      exact (Function.update_of_ne hne ..).trans (hw j c' hc')
  | refuse c hpc _ | enter c hpc _ =>
    refine World.forall_setPc (fun c' hc' => ?_) fun j _ => hw j
    exact absurd hc' (by simp [Pc.holder])
  | replay c _ hpc _ | miss c hpc _ | define c _ hpc _ | noDefinition c _ hpc _ | read c _ _ hpc _
  | readError c _ _ hpc _ | plan c _ _ _ hpc _ | reject c _ _ _ hpc _ | commit c _ _ _ hpc _
  | commitError c _ _ hpc _ =>
    -- The call had the lock before and has it after.
    refine World.forall_setPc (fun c' hc' => ?_) fun j _ => hw j
    obtain rfl := Option.some.inj hc'
    exact hw i c (by rw [hpc]; rfl)

theorem Step.lockFact {l : Label} (h : Step cfg w l w') (hstriped : cfg.striped = true)
    (hw : ∀ j, LockFact cfg w.locks j (w.calls j)) : ∀ j, LockFact cfg w'.locks j (w'.calls j) := by
  cases h with
  | invoke i c hpc =>
    exact World.forall_setPc (fun c' hc' => absurd hc' (by simp [Pc.holder])) fun j _ => hw j
  | call i w' h => exact h.lockFact hstriped hw
  | ret i c res hpc =>
    exact World.forall_setPc (fun c' hc' => absurd hc' (by simp [Pc.holder])) fun j _ => hw j
  | _ => exact hw

end Locks

/-! ### A small instance -/

/-- An order that can be paid once, with a receipt to send. -/
def orderMachine : MachineDefinition where
  name := "order"
  version := 1
  states := ["pending", "paid"]
  initialState := "pending"
  transitions := [⟨"pay", ["pending"], "paid", ["funded"]⟩]
  effects := [⟨"pay", "receipt", none⟩]
  createdAt := 0

/-- The `n`-th call of a run: pay for an order. -/
def payOrder (n : ℕ) (entityId : EntityId) (key : Option IdempotencyKey) : Call where
  entityId
  machine := "order"
  event := "pay"
  actor := "web"
  ctx := .null
  expectedVersion := none
  idempotencyKey := key
  draws := Draws.ofNat n
  faults := CallFaults.none

/-- Call `i` makes its next `n` steps. -/
def steps (i n : ℕ) : List Label := List.replicate n (.step i)

/-- Every entity on one stripe. -/
def oneStripe : Config := ⟨fun _ _ => 0, true⟩

/-- The steps in any order. -/
def lockFree : Config := ⟨fun _ _ => 0, false⟩

end StateMaster
