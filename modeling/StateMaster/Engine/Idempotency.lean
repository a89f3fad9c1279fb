import StateMaster.Engine.World

/-!
# Idempotency keys

A key is bound to the record it was first committed with, in the same transaction, and is never
bound again. So at most one record carries it, whatever the idempotency checks of the calls saw;
and once it is bound, a call that presents it after taking its lock answers with that record.

* `KeysBound` — every record's key is bound to it;
* `Bound` — a key bound to a record stays bound to it, and `Replaying` — a retry under it can only
  move towards returning that record's result;
* `idempotent_retry` — exactly-once, and the retries' answer;
* `intent_respected_iff` — the answer is about the *key*: it is about the request exactly when the
  key was bound by the same entity, machine and event.
-/

open Framework Framework.Text

namespace StateMaster

/-- The key of a record is bound to it. -/
def KeysBound (S : Store) : Prop :=
  ∀ (s : ℕ) (r : TransitionRecord) (key : IdempotencyKey), S.transitions[s]? = some r →
    r.idempotencyKey = some key → S.idempotency[key]? = some s

/-- The key is bound to this record. -/
structure Bound (S : Store) (key : IdempotencyKey) (r : TransitionRecord) : Prop where
  entry : S.idempotency[key]? = some r.sequence
  record : S.transitions[r.sequence]? = some r

/-! ### Commits bind once -/

section Commits

variable {S S' : Store} {record : TransitionRecord} {newState : EntityState}
  {effects : List Effect}

theorem Commit.get_idempotency (h : Commit S record newState effects S') (key : IdempotencyKey) :
    S'.idempotency[key]? = if record.idempotencyKey = some key then some (S.sequence + 1)
      else S.idempotency[key]? := by
  rw [h.idempotency]
  cases hkey : record.idempotencyKey with
  | none => rw [Option.elim_none, if_neg (by simp)]
  | some key' =>
    rw [Option.elim_some, Table.get_insert]
    simp only [Option.some.injEq]

theorem KeysBound.commit (hS : KeysBound S) (h : Commit S record newState effects S') :
    KeysBound S' := by
  intro s r key hr hkey
  rw [h.appends.get] at hr
  rw [h.get_idempotency]
  split at hr
  · next hs =>
    obtain rfl := Option.some.inj hr
    rw [if_pos hkey, hs]
  · -- An older record with this key has it bound, and the commit would have been refused.
    have hold := hS s r key hr hkey
    rw [if_neg, hold]
    intro hnew
    exact absurd (hold.symm.trans (h.key_free key hnew)) (by simp)

theorem Bound.commit {key : IdempotencyKey} {r : TransitionRecord} (hb : Bound S key r)
    (hS : LogInvariant S) (h : Commit S record newState effects S') : Bound S' key r := by
  refine ⟨?_, h.appends.transitions_mono hS hb.record⟩
  rw [h.get_idempotency, if_neg, hb.entry]
  intro hnew
  exact absurd (hb.entry.symm.trans (h.key_free key hnew)) (by simp)

/-- A commit under a key binds it to the record it logs. -/
theorem Commit.bound {key : IdempotencyKey} (h : Commit S record newState effects S')
    (hkey : record.idempotencyKey = some key) :
    Bound S' key { record with sequence := S.sequence + 1 } where
  entry := by rw [h.get_idempotency, if_pos hkey]
  record := by rw [h.appends.get, if_pos rfl]

end Commits

/-- A bound key is found, as long as the read goes through. -/
theorem Bound.findReplay {S : Store} {key : IdempotencyKey} {r : TransitionRecord}
    (hb : Bound S key r) {c : Call} (hkey : c.idempotencyKey = some key)
    (hf : c.faults.checkIdempotency = none) : Engine.findReplay S c = some r := by
  unfold Engine.findReplay RedbEngine.checkIdempotency
  simp only [hkey, hf, withFault_none, hb.entry, hb.record]

/-- The result of a commit is the replay of what it logged. -/
theorem planResult_eq_toResult {guards : GuardRegistry} {c : Call}
    {definition : MachineDefinition} {current : Current} {plan : Plan}
    (h : Engine.planRequest guards c definition current = .ok plan) (s : ℕ) :
    Engine.planResult c plan s = TransitionRecord.toResult { plan.record with sequence := s } := by
  obtain ⟨rule, -, -, -, rfl⟩ := Engine.planRequest_eq_ok h
  rfl

/-! ### Runs -/

/-- A plan made by some call with some guards: what a planned call carries. -/
def PlanFact : Pc → Prop
  | .planned c plan => ∃ guards definition current,
    Engine.planRequest guards c definition current = .ok plan
  | _ => True

structure KeyInvariant (w : World) : Prop where
  log : LogInvariant w.store
  keys : KeysBound w.store
  plans : ∀ i, PlanFact (w.calls i)

theorem KeyInvariant.step {cfg : Config} {w w' : World} {l : Label} (hw : KeyInvariant w)
    (h : Step cfg w l w') : KeyInvariant w' := by
  have hstore : LogInvariant w'.store ∧ KeysBound w'.store := by
    rcases h.store_cases with ⟨hkeeps, -⟩ | ⟨i, c, plan, -, hcommit⟩
    · refine ⟨hkeeps.invariant hw.log, ?_⟩
      unfold KeysBound
      rw [hkeeps.transitions, hkeeps.idempotency]
      exact hw.keys
    · exact ⟨hcommit.appends.invariant hw.log, hw.keys.commit hcommit⟩
  refine ⟨hstore.1, hstore.2, ?_⟩
  cases h with
  | invoke i c hpc => exact World.forall_setPc trivial fun j _ => hw.plans j
  | ret i c res hpc => exact World.forall_setPc trivial fun j _ => hw.plans j
  | call i w' h =>
    cases h with
    | plan c definition current plan hpc hplan =>
      exact World.forall_setPc ⟨_, _, _, hplan⟩ fun j _ => hw.plans j
    | _ => exact World.forall_setPc trivial fun j _ => hw.plans j
  | _ => exact hw.plans

theorem keyInvariant_of_run {cfg : Config} {guards : GuardRegistry} {ls : List Label} {w : World}
    (hrun : (engine cfg).exec (World.initial Store.empty guards) ls = some w) :
    KeyInvariant w := by
  refine System.exec_induction ⟨LogInvariant.empty, ?_, fun _ => trivial⟩
    (fun _ _ _ hw hstep => hw.step (step_sound hstep)) hrun
  intro s r key hr
  change (∅ : Table ℕ TransitionRecord)[s]? = some r at hr
  exact absurd hr (by simp)

/-- A retry under a bound key: it is about to look the key up, or it has the answer. -/
def Replaying (c : Call) (r : TransitionRecord) (pc : Pc) : Prop :=
  pc = .holding c ∨ pc = .finished c (.ok r.toResult) ∨ pc = .released c (.ok r.toResult) ∨
    pc = .returned c (.ok r.toResult)

/-- The retry, with all it rests on. -/
structure RetryInvariant (key : IdempotencyKey) (r : TransitionRecord) (j : ℕ) (c : Call)
    (w : World) : Prop where
  keyInvariant : KeyInvariant w
  bound : Bound w.store key r
  replaying : Replaying c r (w.calls j)

section Retry

variable {cfg : Config} {key : IdempotencyKey} {r : TransitionRecord} {j : ℕ} {c : Call}
  {w w' : World} {l : Label}

theorem Bound.step (hb : Bound w.store key r) (hw : KeyInvariant w) (h : Step cfg w l w') :
    Bound w'.store key r := by
  rcases h.store_cases with ⟨hkeeps, -⟩ | ⟨i, c, plan, -, hcommit⟩
  · exact ⟨by rw [hkeeps.idempotency]; exact hb.entry, by rw [hkeeps.transitions]; exact hb.record⟩
  · exact hb.commit hw.log hcommit

/-- **A retry makes no other move than towards its answer**, and leaves the store alone. -/
theorem RetryInvariant.own_step (hkey : c.idempotencyKey = some key)
    (hf : c.faults.checkIdempotency = none) (hw : RetryInvariant key r j c w)
    (h : CallStep cfg w j w') : Replaying c r (w'.calls j) ∧ w'.store = w.store := by
  have hfind := hw.bound.findReplay hkey hf
  have hrep := hw.replaying
  unfold Replaying at hrep
  -- Holding the lock it can only look the key up, and it finds it; finished, only release.
  cases h with
  | replay c' existing hpc hfind' =>
    rw [hpc] at hrep
    simp only [Pc.holding.injEq, reduceCtorEq, or_self, or_false] at hrep
    subst hrep
    rw [hfind] at hfind'
    obtain rfl := Option.some.inj hfind'
    exact ⟨Or.inr (Or.inl (World.setPc_calls_self ..)), rfl⟩
  | miss c' hpc hfind' =>
    -- the key is bound, so the lookup does not miss it
    rw [hpc] at hrep
    simp only [Pc.holding.injEq, reduceCtorEq, or_self, or_false] at hrep
    subst hrep
    exact absurd (hfind.symm.trans hfind') (by simp)
  | release c' res hpc =>
    rw [hpc] at hrep
    simp only [reduceCtorEq, false_or, or_false, Pc.finished.injEq] at hrep
    obtain ⟨rfl, rfl⟩ := hrep
    exact ⟨Or.inr (Or.inr (Or.inl (World.setPc_calls_self ..))), rfl⟩
  | refuse c' hpc _ | enter c' hpc _ | acquire c' hpc _ | define c' _ hpc _
  | noDefinition c' _ hpc _ | read c' _ _ hpc _ | readError c' _ _ hpc _ | plan c' _ _ _ hpc _
  | reject c' _ _ _ hpc _ | commit c' _ _ _ hpc _ | commitError c' _ _ hpc _ =>
    rw [hpc] at hrep
    simp only [reduceCtorEq, or_self] at hrep

theorem RetryInvariant.step (hkey : c.idempotencyKey = some key)
    (hf : c.faults.checkIdempotency = none) (hw : RetryInvariant key r j c w)
    (h : Step cfg w l w') : RetryInvariant key r j c w' := by
  refine ⟨hw.keyInvariant.step h, hw.bound.step hw.keyInvariant h, ?_⟩
  have hrep := hw.replaying
  cases h with
  | invoke i c' hpc =>
    -- call `j` is under way, so the call that starts is another one
    have hij : j ≠ i := by
      rintro rfl
      unfold Replaying at hrep
      rw [hpc] at hrep
      simp only [reduceCtorEq, or_self] at hrep
    rw [World.setPc_calls_of_ne w _ hij]
    exact hrep
  | ret i c' res hpc =>
    by_cases hij : j = i
    · subst hij
      unfold Replaying at hrep
      rw [hpc] at hrep
      simp only [reduceCtorEq, false_or, or_false, Pc.released.injEq] at hrep
      obtain ⟨rfl, rfl⟩ := hrep
      exact Or.inr (Or.inr (Or.inr (World.setPc_calls_self ..)))
    · rw [World.setPc_calls_of_ne w _ hij]
      exact hrep
  | call i w' h =>
    by_cases hij : j = i
    · subst hij
      exact (hw.own_step hkey hf h).1
    · obtain ⟨pc, hcalls, -⟩ := h.calls_eq
      rw [hcalls, Function.update_of_ne hij]
      exact hrep
  | _ => exact hrep

/-- Left alone, call `j` gets to return `res`, and the store stays as it is. -/
def ReturnsAlone (cfg : Config) (j : ℕ) (c : Call) (res : Outcome) (w : World) : Prop :=
  ∃ (rest : List Label) (w' : World), (∀ l ∈ rest, l = .step j ∨ l = .ret j) ∧
    (engine cfg).exec w rest = some w' ∧ w'.calls j = .returned c res ∧ w'.store = w.store

theorem ReturnsAlone.cons {res : Outcome} (hl : l = .step j ∨ l = .ret j)
    (hstep : (engine cfg).step w l = some w') (hstore : w'.store = w.store)
    (h : ReturnsAlone cfg j c res w') : ReturnsAlone cfg j c res w := by
  obtain ⟨rest, w'', hrest, hexec, hpc, hstore'⟩ := h
  refine ⟨l :: rest, w'', ?_, ?_, hpc, hstore'.trans hstore⟩
  · intro l' hl'
    rcases List.mem_cons.mp hl' with rfl | hl'
    · exact hl
    · exact hrest l' hl'
  · rw [System.exec_cons, hstep]
    exact hexec

/-- **A retry is never stuck**: three labels of its own take it to its answer. -/
theorem RetryInvariant.returns (hkey : c.idempotencyKey = some key)
    (hf : c.faults.checkIdempotency = none) (hw : RetryInvariant key r j c w) :
    ReturnsAlone cfg j c (.ok r.toResult) w := by
  -- Backwards from the answer: each stage takes one label to the next.
  have hret : ∀ w : World, w.calls j = .released c (.ok r.toResult) →
      ReturnsAlone cfg j c (.ok r.toResult) w := by
    intro w hpc
    have hstep : (engine cfg).step w (.ret j)
        = some (w.setPc j (.returned c (.ok r.toResult))) := by
      simp only [engine, World.step, hpc]
    refine ReturnsAlone.cons (Or.inr rfl) hstep rfl ⟨[], _, ?_, rfl, ?_, rfl⟩
    · exact fun l hl => absurd hl List.not_mem_nil
    · exact World.setPc_calls_self ..
  have hrel : ∀ w : World, w.calls j = .finished c (.ok r.toResult) →
      ReturnsAlone cfg j c (.ok r.toResult) w := by
    intro w hpc
    have hstep : (engine cfg).step w (.step j) = some
        ((w.setLock (cfg.stripe c) none).setPc j (.released c (.ok r.toResult))) := by
      simp only [engine, World.step, World.callStep, hpc]
    exact ReturnsAlone.cons (Or.inl rfl) hstep rfl (hret _ (World.setPc_calls_self ..))
  rcases hw.replaying with hpc | hpc | hpc | hpc
  · have hstep : (engine cfg).step w (.step j)
        = some (w.setPc j (.finished c (.ok r.toResult))) := by
      simp only [engine, World.step, World.callStep, hpc, hw.bound.findReplay hkey hf]
    exact ReturnsAlone.cons (Or.inl rfl) hstep rfl (hrel _ (World.setPc_calls_self ..))
  · exact hrel w hpc
  · exact hret w hpc
  · exact ⟨[], w, fun l hl => absurd hl List.not_mem_nil, rfl, hpc, rfl⟩

end Retry

/-! ### Exactly once -/

section Moments

variable (cfg : Config) (w₀ : World) (ls : List Label)

/-- The step of call `i` at `t` commits, with result `res`. -/
def CommitsAt (i : ℕ) (c : Call) (res : TransitionResult) (t : ℕ) : Prop :=
  ls[t]? = some (.step i) ∧ ∃ w w' plan, (engine cfg).stateAt w₀ ls t = some w ∧
    (engine cfg).stateAt w₀ ls (t + 1) = some w' ∧ w.calls i = .planned c plan ∧
    w'.calls i = .finished c (.ok res)

/-- The step of call `j` at `u` takes its stripe lock. -/
def AcquiresAt (j : ℕ) (c : Call) (u : ℕ) : Prop :=
  ls[u]? = some (.step j) ∧ ∃ w w', (engine cfg).stateAt w₀ ls u = some w ∧
    (engine cfg).stateAt w₀ ls (u + 1) = some w' ∧ w.calls j = .waiting c ∧
    w'.calls j = .holding c

end Moments

section Exactly

variable {cfg : Config} {guards : GuardRegistry} {ls : List Label}

/-- A commit under a key binds the key to a record whose replay is the commit's own result. -/
theorem CommitsAt.bound {i t : ℕ} {c : Call} {res : TransitionResult} {key : IdempotencyKey}
    (h : CommitsAt cfg (World.initial Store.empty guards) ls i c res t)
    (hkey : c.idempotencyKey = some key) {w' : World}
    (hw' : (engine cfg).stateAt (World.initial Store.empty guards) ls (t + 1) = some w') :
    ∃ r : TransitionRecord, Bound w'.store key r ∧ r.toResult = res := by
  obtain ⟨hl, w, w₁, plan, hw, hw₁, hpc, hpc'⟩ := h
  obtain rfl := Option.some.inj (hw₁.symm.trans hw')
  have hplan := (keyInvariant_of_run hw).plans i
  rw [hpc] at hplan
  obtain ⟨guards', definition, current, hplan⟩ := hplan
  have hstep := callStep_sound (System.step_of_stateAt hl hw hw₁)
  cases hstep with
  | commit c' plan' res' S' hpc₁ hcommit =>
    -- the key of the call is the key of the record it planned
    rw [hpc] at hpc₁
    obtain ⟨rfl, rfl⟩ := Pc.planned.inj hpc₁
    rw [World.setPc_calls_self] at hpc'
    obtain rfl := Except.ok.inj (Pc.finished.inj hpc').2
    obtain ⟨-, hc, rfl⟩ := Engine.commitPlan_eq_ok hcommit
    have hrecord : plan.record.idempotencyKey = some key := by
      obtain ⟨rule, -, -, -, rfl⟩ := Engine.planRequest_eq_ok hplan
      exact hkey
    exact ⟨_, hc.bound hrecord, (planResult_eq_toResult hplan _).symm⟩
  | commitError c' plan' e hpc₁ hcommit =>
    -- it would not have finished with a result
    rw [World.setPc_calls_self] at hpc'
    exact absurd (Pc.finished.inj hpc').2 (by simp)
  | refuse _ hpc₁ _ | enter _ hpc₁ _ | acquire _ hpc₁ _ | replay _ _ hpc₁ _ | miss _ hpc₁ _
  | define _ _ hpc₁ _ | noDefinition _ _ hpc₁ _ | read _ _ _ hpc₁ _ | readError _ _ _ hpc₁ _
  | plan _ _ _ _ hpc₁ _ | reject _ _ _ _ hpc₁ _ | release _ _ hpc₁ =>
    exact absurd (hpc.symm.trans hpc₁) (by simp)

/-- A bound key stays bound to its record between two moments of a run. -/
theorem Bound.later {key : IdempotencyKey} {r : TransitionRecord} {m n : ℕ} {w w' : World}
    (hmn : m ≤ n) (hw : (engine cfg).stateAt (World.initial Store.empty guards) ls m = some w)
    (hw' : (engine cfg).stateAt (World.initial Store.empty guards) ls n = some w')
    (hb : Bound w.store key r) : Bound w'.store key r := by
  refine (System.stateAt_stable (I := fun w => KeyInvariant w ∧ Bound w.store key r) ?_ hmn hw hw'
    ⟨keyInvariant_of_run hw, hb⟩).2
  rintro w l w' ⟨hinv, hb⟩ hstep
  exact ⟨hinv.step (step_sound hstep), hb.step hinv (step_sound hstep)⟩

/-- The retry from the moment it takes the lock on. -/
theorem AcquiresAt.retry {key : IdempotencyKey} {r : TransitionRecord} {j u : ℕ} {c : Call}
    (h : AcquiresAt cfg (World.initial Store.empty guards) ls j c u)
    (hkey : c.idempotencyKey = some key) (hf : c.faults.checkIdempotency = none)
    {m : ℕ} (hm : m ≤ u) {wm : World}
    (hwm : (engine cfg).stateAt (World.initial Store.empty guards) ls m = some wm)
    (hb : Bound wm.store key r) {n : ℕ} {w : World} (hn : u < n)
    (hw : (engine cfg).stateAt (World.initial Store.empty guards) ls n = some w) :
    RetryInvariant key r j c w := by
  obtain ⟨-, w₁, w₂, -, hw₂, -, hpc⟩ := h
  have hb₂ : Bound w₂.store key r := hb.later (by omega) hwm hw₂
  refine System.stateAt_stable (I := RetryInvariant key r j c) ?_ hn hw₂ hw
    ⟨keyInvariant_of_run hw₂, hb₂, Or.inl hpc⟩
  intro w l w' hinv hstep
  exact hinv.step hkey hf (step_sound hstep)

end Exactly

/-- **Exactly-once idempotent retries.** In every run, no two records carry one key, whatever the
idempotency reads returned. And once a call under a key has committed, every call under that key
that takes its lock later, its idempotency read going through, is from then on only ever about to
look the key up or holding the very result of the commit; it is never stuck on the way to returning
it, and none of its steps changes the store. -/
theorem idempotent_retry {cfg : Config} {guards : GuardRegistry} {ls : List Label} {w : World}
    (hrun : (engine cfg).exec (World.initial Store.empty guards) ls = some w) :
    (∀ (s s' : ℕ) (r r' : TransitionRecord) (key : IdempotencyKey),
      w.store.transitions[s]? = some r → w.store.transitions[s']? = some r' →
      r.idempotencyKey = some key → r'.idempotencyKey = some key → s = s') ∧
    ∀ (i j t u : ℕ) (c c' : Call) (key : IdempotencyKey) (res : TransitionResult),
      CommitsAt cfg (World.initial Store.empty guards) ls i c res t →
      c.idempotencyKey = some key → t < u →
      AcquiresAt cfg (World.initial Store.empty guards) ls j c' u →
      c'.idempotencyKey = some key → c'.faults.checkIdempotency = none →
      (∀ (n : ℕ) (wn : World), u < n →
        (engine cfg).stateAt (World.initial Store.empty guards) ls n = some wn →
        (wn.calls j = .holding c' ∨ wn.calls j = .finished c' (.ok res) ∨
          wn.calls j = .released c' (.ok res) ∨ wn.calls j = .returned c' (.ok res)) ∧
        ReturnsAlone cfg j c' (.ok res) wn) ∧
      ∀ (n : ℕ) (wn wn' : World), u ≤ n → ls[n]? = some (.step j) →
        (engine cfg).stateAt (World.initial Store.empty guards) ls n = some wn →
        (engine cfg).stateAt (World.initial Store.empty guards) ls (n + 1) = some wn' →
        wn'.store = wn.store := by
  refine ⟨fun s s' r r' key hr hr' hkey hkey' => ?_, ?_⟩
  · have hbound := (keyInvariant_of_run hrun).keys
    exact Option.some.inj ((hbound s r key hr hkey).symm.trans (hbound s' r' key hr' hkey'))
  · intro i j t u c c' key res hcommits hkey htu hacquires hkey' hf
    -- The commit bound the key to a record whose replay is its own result.
    obtain ⟨wt, hwt, -⟩ := System.exec_split hrun (t + 1)
    obtain ⟨r, hb, rfl⟩ := hcommits.bound hkey hwt
    have hretry : ∀ (n : ℕ) (wn : World), u < n →
        (engine cfg).stateAt (World.initial Store.empty guards) ls n = some wn →
        RetryInvariant key r j c' wn :=
      fun n wn hn hwn => hacquires.retry hkey' hf (by omega) hwt hb hn hwn
    refine ⟨fun n wn hn hwn => ⟨(hretry n wn hn hwn).replaying,
      (hretry n wn hn hwn).returns hkey' hf⟩, fun n wn wn' hn hl hwn hwn' => ?_⟩
    have hstep := callStep_sound (System.step_of_stateAt hl hwn hwn')
    rcases Nat.lt_or_ge u n with hlt | hge
    · exact ((hretry n wn hlt hwn).own_step hkey' hf hstep).2
    · -- The step that takes the lock.
      obtain rfl : u = n := by omega
      obtain ⟨-, w₁, w₂, hw₁, -, hpc, -⟩ := hacquires
      obtain rfl := Option.some.inj (hw₁.symm.trans hwn)
      cases hstep with
      | commit c₁ plan res S' hpc₁ hcommit => exact absurd (hpc.symm.trans hpc₁) (by simp)
      | _ => rfl

/-! ### A key answers for its record, not for the request -/

/-- An answer is about what was asked, and a key bound by another intent is refused. -/
def IntentRespected (S : Store) (guards : GuardRegistry) (shutdown : Bool) (c : Call) : Prop :=
  (∀ res S', Engine.transition S guards shutdown c = .ok (res, S') →
    res.entityId = c.entityId ∧ res.machine = c.machine ∧
      ∃ r, S'.transitions[res.sequence]? = some r ∧ r.id = res.transitionId ∧
        r.event = c.event) ∧
  ∀ (key : IdempotencyKey) (s : ℕ) (r : TransitionRecord), c.idempotencyKey = some key →
    S.idempotency[key]? = some s → S.transitions[s]? = some r →
    ¬ (r.entityId = c.entityId ∧ r.machine = c.machine ∧ r.event = c.event) →
    ∃ e, Engine.transition S guards shutdown c = .error e

/-- The key, if it is bound, was bound by the same entity, machine and event. -/
def SameIntent (S : Store) (c : Call) : Prop :=
  ∀ (key : IdempotencyKey) (s : ℕ) (r : TransitionRecord), c.idempotencyKey = some key →
    S.idempotency[key]? = some s → S.transitions[s]? = some r →
    r.entityId = c.entityId ∧ r.machine = c.machine ∧ r.event = c.event

/-- A call that commits answers for itself, and its key was not bound. -/
theorem committed_intent {S S' : Store} {guards : GuardRegistry} {c : Call}
    {definition : MachineDefinition} {current : Current} {plan : Plan}
    (hplan : Engine.planRequest guards c definition current = .ok plan)
    (hcommit : Commit S plan.record plan.newState plan.effects S') :
    (∃ r, S'.transitions[S.sequence + 1]? = some r ∧ r.id = plan.record.id ∧
      r.event = c.event) ∧
    ∀ key, c.idempotencyKey = some key → S.idempotency[key]? = none := by
  obtain ⟨rule, -, -, -, rfl⟩ := Engine.planRequest_eq_ok hplan
  exact ⟨⟨_, (hcommit.appends.get _).trans (if_pos rfl), rfl, rfl⟩, hcommit.key_free⟩

/-- **When an idempotency key answers for the request's own intent**: exactly when the engine
refuses everything, or the idempotency read fails, or the key is unbound or was bound by the same
entity, machine and event. -/
theorem intent_respected_iff {S : Store} (hS : EngineReachable S) (guards : GuardRegistry)
    (shutdown : Bool) (c : Call) :
    IntentRespected S guards shutdown c ↔
      shutdown = true ∨ c.faults.checkIdempotency ≠ none ∨ SameIntent S c := by
  obtain ⟨cfg, guards₀, ls, w, hrun, rfl⟩ := hS
  have hlog := (keyInvariant_of_run hrun).log
  constructor
  · intro h
    by_contra hnot
    rw [not_or, not_or, not_not, Bool.not_eq_true] at hnot
    obtain ⟨rfl, hf, hsame⟩ := hnot
    refine hsame fun key s r hkey hs hr => ?_
    -- The key is found and answered with `r`, so the property says `r` is about this request.
    have hseq : r.sequence = s := hlog.sequence_eq s r hr
    have hb : Bound w.store key r := ⟨by rw [hs, hseq], by rw [hseq]; exact hr⟩
    have hok : Engine.transition w.store guards false c = .ok (r.toResult, w.store) := by
      unfold Engine.transition
      rw [hb.findReplay hkey hf]
      rfl
    obtain ⟨he, hm, r', hr', -, hev⟩ := h.1 _ _ hok
    have hrr : r' = r := Option.some.inj (hr'.symm.trans hb.record)
    exact ⟨he, hm, hrr ▸ hev⟩
  · intro h
    -- A call that is replayed got past the shutdown check and the read.
    have hsame : ∀ existing, shutdown = false → Engine.findReplay w.store c = some existing →
        SameIntent w.store c := by
      intro existing hup hfind
      obtain ⟨-, -, -, hf, -, -⟩ := Engine.findReplay_eq_some hfind
      rcases h with hdown | hfault | hsame
      · exact absurd (hup.symm.trans hdown) (by simp)
      · exact absurd hf hfault
      · exact hsame
    refine ⟨fun res S' hok => ?_, fun key s r hkey hs hr hne => ?_⟩
    · obtain ⟨hup, hreplay | ⟨-, definition, current, plan, -, -, hplan, hcommit, rfl⟩⟩ :=
        Engine.transition_eq_ok hok
      · obtain ⟨existing, hfind, rfl, rfl⟩ := hreplay
        obtain ⟨key, s, hkey, -, hs, hr⟩ := Engine.findReplay_eq_some hfind
        obtain ⟨he, hm, hev⟩ := hsame existing hup hfind key s existing hkey hs hr
        refine ⟨he, hm, existing, ?_, rfl, hev⟩
        rw [show existing.toResult.sequence = s from hlog.sequence_eq s existing hr]
        exact hr
      · exact ⟨rfl, rfl, (committed_intent hplan hcommit).1⟩
    · cases hres : Engine.transition w.store guards shutdown c with
      | error e => exact ⟨e, rfl⟩
      | ok p =>
        -- Neither a replay nor a commit is possible under a key of another intent.
        obtain ⟨hup, hreplay | ⟨-, definition, current, plan, -, -, hplan, hcommit, -⟩⟩ :=
          Engine.transition_eq_ok hres
        · obtain ⟨existing, hfind, -, -⟩ := hreplay
          exact absurd (hsame existing hup hfind key s r hkey hs hr) hne
        · have hfree := (committed_intent hplan hcommit).2 key hkey
          exact absurd (hfree.symm.trans hs) (by simp)

/-- One order paid under the key `k`. -/
def paidUnderKey : List Label :=
  [Label.defineMachine orderMachine none, Label.invoke 0 (payOrder 0 "o1" (some "k"))] ++ steps 0 8

/-- The payment is retried by a second call, which waits for the lock. -/
def retriedPayment : List Label :=
  [Label.defineMachine orderMachine none, Label.invoke 0 (payOrder 0 "o1" (some "k")),
    Label.invoke 1 (payOrder 1 "o1" (some "k")), Label.step 1] ++ steps 0 8 ++ steps 1 2

theorem idempotent_retry_retriedPayment :
    ∃ w res, (engine oneStripe).exec (World.initial Store.empty ∅) retriedPayment = some w ∧
      CommitsAt oneStripe (World.initial Store.empty ∅) retriedPayment 0
        (payOrder 0 "o1" (some "k")) res 10 ∧
      ReturnsAlone oneStripe 1 (payOrder 1 "o1" (some "k")) (.ok res) w := by
  obtain ⟨w, hrun⟩ : ∃ w, (engine oneStripe).exec (World.initial Store.empty ∅) retriedPayment
    = some w := ⟨_, rfl⟩
  obtain ⟨res, hcommits⟩ : ∃ res, CommitsAt oneStripe (World.initial Store.empty ∅)
    retriedPayment 0 (payOrder 0 "o1" (some "k")) res 10 := ⟨_, rfl, _, _, _, rfl, rfl, rfl, rfl⟩
  have hacquires : AcquiresAt oneStripe (World.initial Store.empty ∅) retriedPayment 1
    (payOrder 1 "o1" (some "k")) 12 := ⟨rfl, _, _, rfl, rfl, rfl, rfl⟩
  have hretry := (idempotent_retry hrun).2 0 1 10 12 _ _ "k" res hcommits rfl (by omega)
    hacquires rfl rfl
  exact ⟨w, res, hrun, hcommits, (hretry.1 14 w (by omega) hrun).2⟩

/-- Order `o2` presents the key under which `o1` was paid, and is told that it succeeded. -/
theorem intent_not_respected :
    ∃ S, EngineReachable S ∧ ¬ IntentRespected S ∅ false (payOrder 1 "o2" (some "k")) := by
  have heval : ((engine oneStripe).exec (World.initial Store.empty ∅) paidUnderKey).map
      (fun w => (Engine.transition w.store ∅ false (payOrder 1 "o2" (some "k"))).toOption.map
        fun p => p.1.entityId) = some (some "o1") := by decide
  obtain ⟨w, hrun, hres⟩ := Option.map_eq_some_iff.mp heval
  refine ⟨w.store, ⟨_, _, _, w, hrun, rfl⟩, fun h => ?_⟩
  cases hok : Engine.transition w.store ∅ false (payOrder 1 "o2" (some "k")) with
  | error e =>
    rw [hok] at hres
    exact absurd hres (by simp [Except.toOption])
  | ok p =>
    rw [hok] at hres
    have hentity : p.1.entityId = "o2" := (h.1 p.1 p.2 hok).1
    have hother : p.1.entityId = "o1" := Option.some.inj hres
    exact absurd (hother.symm.trans hentity) (by decide)

theorem intent_respected_iff_paidUnderKey :
    ∃ S, EngineReachable S ∧ IntentRespected S ∅ false (payOrder 1 "o1" (some "k2")) := by
  have heval : ((engine oneStripe).exec (World.initial Store.empty ∅) paidUnderKey).map
      (fun w => w.store.idempotency["k2"]?) = some none := by decide
  obtain ⟨w, hrun, hnone⟩ := Option.map_eq_some_iff.mp heval
  have hS : EngineReachable w.store := ⟨_, _, _, w, hrun, rfl⟩
  refine ⟨w.store, hS, (intent_respected_iff hS _ _ _).mpr (Or.inr (Or.inr ?_))⟩
  intro key s r hkey hs
  obtain rfl := Option.some.inj hkey
  exact absurd (hnone.symm.trans hs) (by simp)

end StateMaster
