import StateMaster.Engine.World
import StateMaster.Framework.Restart

/-!
# A run without crashes for every run with crashes

The process may stop at any moment: between any two steps of any number of calls, inside a dispatch
pass, before an answer is sent. What is left is the database. `RedbEngine::open` finds the tables as
the last committed transaction left them, and `Engine::new` starts over it with no call, no lock, no
subscriber and the guards the program registers (`World.restart`).

Every run with crashes is followed here by a run of the same engine that never stops, with its stripe
locks. A call that is cut off before its outcome is decided has left nothing in the store, but may hold
a lock for ever; so it is not started at all. Which calls these are is known only when the crash comes
(`CutOff`), and the run that follows is built with the whole run in view. A call whose outcome is
decided gives its lock back at once, since the crash may come before it does so here. At a crash, all
locks are free then, and the next process starts new calls.

* `durable` — the engine with crashes;
* `Shadow` — how the two worlds are related;
* `shadow_of_run` — every run with crashes is followed.
-/

open Framework

namespace StateMaster

/-- `RedbEngine::open` and `Engine::new` after the process has stopped. -/
def World.restart (w : World) (guards : GuardRegistry) : World := World.initial w.store guards

/-- The engine, stopped and started again at any moment. -/
def durable (cfg : Config) : System World (Label ⊕ GuardRegistry) :=
  (engine cfg).restarting World.restart

/-! ### Guards that agree -/

/-- Two registries give the same answers. -/
def GuardRegistry.Agree (g g' : GuardRegistry) : Prop :=
  ∀ name state ctx, g.evaluate name state ctx = g'.evaluate name state ctx

theorem GuardRegistry.evaluate_register (g : GuardRegistry) (name : GuardName) (f : GuardFn)
    (name' : GuardName) (state : EntityState) (ctx : Context) :
    (g.register name f).evaluate name' state ctx
      = if name = name' then f state ctx else g.evaluate name' state ctx := by
  unfold GuardRegistry.evaluate GuardRegistry.register
  rw [Table.get_insert]
  by_cases hname : name = name'
  · rw [if_pos hname, if_pos hname]
  · rw [if_neg hname, if_neg hname]

theorem GuardRegistry.Agree.register {g g' : GuardRegistry} (h : g.Agree g') (name : GuardName)
    (f : GuardFn) : (g.register name f).Agree (g'.register name f) := by
  intro name' state ctx
  rw [evaluate_register, evaluate_register, h name' state ctx]

/-- A decision looks at the guards only through their answers. -/
theorem GuardRegistry.Agree.planRequest {g g' : GuardRegistry} (h : g.Agree g') (c : Call)
    (definition : MachineDefinition) (current : Current) :
    Engine.planRequest g c definition current = Engine.planRequest g' c definition current := by
  have hresults : ∀ state ctx names, g.results state ctx names = g'.results state ctx names := by
    intro state ctx names
    unfold GuardRegistry.results
    simp only [h _ state ctx]
  unfold Engine.planRequest
  simp only [hresults]

/-- The guards somebody has registered. -/
def GuardRegistry.names (g : GuardRegistry) : List GuardName := g.toList.map Prod.fst

theorem GuardRegistry.evaluate_of_not_mem_names {g : GuardRegistry} {name : GuardName}
    (h : name ∉ g.names) (state : EntityState) (ctx : Context) : g.evaluate name state ctx = true := by
  unfold GuardRegistry.evaluate
  cases hget : g[name]? with
  | none => rfl
  | some f => exact absurd (List.mem_map.mpr ⟨(name, f), g.mem_toList.mpr hget, rfl⟩) h

/-- Give the guards of a list the answers of `target`. -/
def GuardRegistry.adopt (target : GuardRegistry) (names : List GuardName) : List Label :=
  names.map fun name => .registerGuard name (target.evaluate name)

theorem GuardRegistry.exec_adopt (cfg : Config) (target : GuardRegistry) (names : List GuardName)
    (w : World) : ∃ g : GuardRegistry,
      (engine cfg).exec w (target.adopt names) = some { w with guards := g } ∧
      ∀ name state ctx, g.evaluate name state ctx
        = if name ∈ names then target.evaluate name state ctx
          else w.guards.evaluate name state ctx := by
  induction names generalizing w with
  | nil => exact ⟨w.guards, rfl, fun _ _ _ => rfl⟩
  | cons n names ih =>
    obtain ⟨g, hg, heval⟩ := ih { w with guards := w.guards.register n (target.evaluate n) }
    refine ⟨g, hg, fun name state ctx => ?_⟩
    rw [heval, evaluate_register]
    by_cases hmem : name ∈ names
    · rw [if_pos hmem, if_pos (List.mem_cons_of_mem n hmem)]
    · by_cases hn : n = name
      · subst hn
        rw [if_neg hmem, if_pos rfl, if_pos List.mem_cons_self]
      · rw [if_neg hmem, if_neg hn, if_neg]
        exact fun h => (List.mem_cons.mp h).elim (fun heq => hn heq.symm) hmem

/-! ### Calls that are cut off -/

/-- The process that runs at the `n`-th step stops while its call `i` is under way. -/
def CutOff (cfg : Config) (guards : GuardRegistry) (ls : List (Label ⊕ GuardRegistry)) (n i : ℕ) :
    Prop :=
  ∃ m w, n ≤ m ∧ (∃ guards', ls[m]? = some (.inr guards')) ∧
    (∀ k, n ≤ k → k < m → ∃ l, ls[k]? = some (.inl l)) ∧
    (durable cfg).stateAt (World.initial Store.empty guards) ls m = some w ∧
    (w.calls i).call ≠ none ∧ (w.calls i).outcome = none

section CutOff

variable {cfg : Config} {guards : GuardRegistry} {ls : List (Label ⊕ GuardRegistry)} {w w' : World}
  {n i : ℕ}

/-- An outcome is decided for good. -/
theorem Step.outcome_kept {l : Label} (h : Step cfg w l w') :
    ∀ j, (w.calls j).outcome ≠ none → (w'.calls j).outcome ≠ none := by
  cases h with
  | invoke i c hpc =>
    refine World.forall_setPc (P := fun j pc => (w.calls j).outcome ≠ none → pc.outcome ≠ none)
      (fun hi => absurd ?_ hi) fun j _ hj => hj
    rw [hpc]
    rfl
  | call i w' h =>
    cases h with
    | release c res hpc =>
      exact World.forall_setPc (P := fun j pc => (w.calls j).outcome ≠ none → pc.outcome ≠ none)
        (fun _ => Option.some_ne_none res) fun j _ hj => hj
    | refuse c hpc _ | enter c hpc _ | acquire c hpc _ | replay c _ hpc _ | miss c hpc _
    | define c _ hpc _ | noDefinition c _ hpc _ | read c _ _ hpc _ | readError c _ _ hpc _
    | plan c _ _ _ hpc _ | reject c _ _ _ hpc _ | commit c _ _ _ hpc _ | commitError c _ _ hpc _ =>
      refine World.forall_setPc (P := fun j pc => (w.calls j).outcome ≠ none → pc.outcome ≠ none)
        (fun hi => absurd ?_ hi) fun j _ hj => hj
      rw [hpc]
      rfl
  | ret i c res hpc =>
    exact World.forall_setPc (P := fun j pc => (w.calls j).outcome ≠ none → pc.outcome ≠ none)
      (fun _ => Option.some_ne_none res) fun j _ hj => hj
  | _ => exact fun _ hj => hj

/-- The same calls are cut off as long as the process runs. -/
theorem cutOff_succ_iff {l : Label} (hl : ls[n]? = some (.inl l)) :
    CutOff cfg guards ls (n + 1) i ↔ CutOff cfg guards ls n i := by
  constructor
  · rintro ⟨m, w, hnm, hcrash, hsame, hrest⟩
    refine ⟨m, w, Nat.le_of_succ_le hnm, hcrash, fun k hnk hkm => ?_, hrest⟩
    obtain rfl | hlt := hnk.eq_or_lt
    · exact ⟨l, hl⟩
    · exact hsame k hlt hkm
  · rintro ⟨m, w, hnm, ⟨guards', hcrash⟩, hsame, hrest⟩
    obtain rfl | hlt := hnm.eq_or_lt
    · exact absurd (hl.symm.trans hcrash) (by simp)
    · exact ⟨m, w, hlt, ⟨guards', hcrash⟩, fun k hnk => hsame k (Nat.le_of_succ_le hnk), hrest⟩

/-- A call that is cut off never had an outcome. -/
theorem CutOff.outcome_eq_none (h : CutOff cfg guards ls n i)
    (hn : (durable cfg).stateAt (World.initial Store.empty guards) ls n = some w) :
    (w.calls i).outcome = none := by
  obtain ⟨m, wm, hnm, -, hsame, hm, -, hnone⟩ := h
  -- it would still have it at the crash
  by_contra hdecided
  refine System.stateAt_induction (I := fun w => (w.calls i).outcome ≠ none) hnm hn hm hdecided ?_ hnone
  intro k l t t' hnk hkm hl _ hstep ht
  obtain ⟨l', hl'⟩ := hsame k hnk hkm
  obtain rfl := Option.some.inj (hl.symm.trans hl')
  exact (step_sound hstep).outcome_kept i ht

theorem cutOff_of_crash {guards' : GuardRegistry} (hl : ls[n]? = some (.inr guards'))
    (hn : (durable cfg).stateAt (World.initial Store.empty guards) ls n = some w)
    (hcall : (w.calls i).call ≠ none) (hnone : (w.calls i).outcome = none) :
    CutOff cfg guards ls n i :=
  ⟨n, w, le_rfl, ⟨guards', hl⟩, fun _ hnk hkn => absurd hkn hnk.not_gt, hn, hcall, hnone⟩

end CutOff

/-! ### The two worlds -/

/-- The call holds its lock, and its outcome is open. -/
def Pc.Inside (pc : Pc) (c : Call) : Prop := pc.holder = some c ∧ pc.outcome = none

/-- Where a call gives its lock back as soon as its outcome is decided. -/
def Pc.ahead : Pc → Pc
  | .finished c res => .released c res
  | pc => pc

theorem Pc.ahead_eq {pc : Pc} (h : ∀ c res, pc ≠ .finished c res) : pc.ahead = pc := by
  cases pc with
  | finished c res => exact absurd rfl (h c res)
  | _ => rfl

/-- Where a call is in the run without crashes: ahead of where it is here, or, once the engine is
shutting down here, still at the door. -/
def Mirrors (pc pc' : Pc) : Prop :=
  pc' = pc.ahead ∨ ∃ c, pc' = .entered c ∧
    (pc = .released c (.error .shuttingDown) ∨ pc = .returned c (.error .shuttingDown))

theorem Mirrors.eq {pc pc' : Pc} (h : Mirrors pc pc') (hpc : pc.outcome = none) : pc' = pc := by
  obtain rfl | ⟨c, -, rfl | rfl⟩ := h
  · refine Pc.ahead_eq fun c res heq => ?_
    rw [heq] at hpc
    exact absurd hpc (by simp [Pc.outcome])
  · exact absurd hpc (by simp [Pc.outcome])
  · exact absurd hpc (by simp [Pc.outcome])

/-- `v` follows `w` after `e` restarts, without the calls of `cut`. The calls of the current process
have numbers of their own there; those of the processes to come are still free. -/
structure Shadow (cfg : Config) (cut : ℕ → Prop) (e : ℕ) (w v : World) : Prop where
  store : v.store = w.store
  guards : v.guards.Agree w.guards
  up : v.shutdown = false
  calls : ∀ i, ¬ cut i → Mirrors (w.calls i) (v.calls (Nat.pair e i))
  later : ∀ e' i, e < e' → v.calls (Nat.pair e' i) = .idle
  /-- A lock is held by a call that has it here, too. -/
  locks : cfg.striped = true → ∀ k s, v.locks k = some s →
    ∃ i c, s = Nat.pair e i ∧ ¬ cut i ∧ (w.calls i).Inside c ∧ cfg.stripe c = k

section Shadow

variable {cfg : Config} {cut : ℕ → Prop} {e : ℕ} {w w' v v' : World} {i : ℕ}

/-- A call that is inside stays so, until its outcome is decided. -/
theorem CallStep.inside (h : CallStep cfg w i w') {c : Call} (hc : (w.calls i).Inside c) :
    (w'.calls i).Inside c ∨ ∃ res, w'.calls i = .finished c res := by
  cases h with
  | refuse c' hpc | enter c' hpc | acquire c' hpc =>
    rw [hpc] at hc
    exact absurd hc.1 (by simp [Pc.holder])
  | release c' res hpc =>
    rw [hpc] at hc
    exact absurd hc.2 (by simp [Pc.outcome])
  | miss c' hpc | define c' _ hpc | read c' _ _ hpc | plan c' _ _ _ hpc =>
    rw [hpc] at hc
    obtain rfl := Option.some.inj hc.1
    rw [World.setPc_calls_self]
    exact Or.inl ⟨rfl, rfl⟩
  | replay c' _ hpc | noDefinition c' _ hpc | readError c' _ _ hpc | reject c' _ _ _ hpc
  | commit c' _ _ _ hpc | commitError c' _ _ hpc =>
    rw [hpc] at hc
    obtain rfl := Option.some.inj hc.1
    rw [World.setPc_calls_self]
    exact Or.inr ⟨_, rfl⟩

/-- A call without an outcome has changed nothing. -/
theorem CallStep.store_eq (h : CallStep cfg w i w') (hnone : (w'.calls i).outcome = none) :
    w'.store = w.store := by
  cases h with
  | commit c plan res S' hpc hcommit =>
    rw [World.setPc_calls_self] at hnone
    exact absurd hnone (by simp [Pc.outcome])
  | _ => rfl

/-- A step of a call that is not refused can be made by a call at the same place over the same store,
if the lock it waits for is free. -/
theorem CallStep.follow {s : ℕ} (h : CallStep cfg w i w') (hstore : v.store = w.store)
    (hguards : v.guards.Agree w.guards) (hup : v.shutdown = false) (hpc : v.calls s = w.calls i)
    (hnone : (w.calls i).outcome = none) (hlive : w.shutdown = true → ∀ c, w.calls i ≠ .entered c)
    (hfree : ∀ c, w.calls i = .waiting c → cfg.striped = true → v.locks (cfg.stripe c) = none) :
    ∃ v', (engine cfg).step v (.step s) = some v' ∧ v'.store = w'.store ∧
      v'.calls = Function.update v.calls s (w'.calls i) ∧ v'.guards = v.guards ∧
      v'.shutdown = false ∧ (v'.locks = v.locks ∨ ∃ c, w'.calls i = .holding c ∧
        v'.locks = Function.update v.locks (cfg.stripe c) (some s)) := by
  -- a step that moves the call and does nothing else
  have hmove : ∀ pc, (engine cfg).step v (.step s) = some (v.setPc s pc) →
      w'.store = w.store → w'.calls i = pc →
      ∃ v', (engine cfg).step v (.step s) = some v' ∧ v'.store = w'.store ∧
        v'.calls = Function.update v.calls s (w'.calls i) ∧ v'.guards = v.guards ∧
        v'.shutdown = false ∧ (v'.locks = v.locks ∨ ∃ c, w'.calls i = .holding c ∧
          v'.locks = Function.update v.locks (cfg.stripe c) (some s)) := by
    rintro pc hstep hsame rfl
    exact ⟨_, hstep, hstore.trans hsame.symm, rfl, rfl, hup, Or.inl rfl⟩
  cases h with
  | refuse c hpc₀ hdown => exact absurd hpc₀ (hlive hdown c)
  | enter c hpc₀ _ =>
    refine hmove (.waiting c) ?_ rfl (World.setPc_calls_self ..)
    simp only [engine, World.step, World.callStep, hpc, hpc₀, hup, Bool.false_eq_true, if_false]
  | acquire c hpc₀ _ =>
    have hopen : ¬ (cfg.striped && (v.locks (cfg.stripe c)).isSome) = true := by
      intro hheld
      obtain ⟨hstriped, hsome⟩ := (Bool.and_eq_true ..).mp hheld
      rw [hfree c hpc₀ hstriped] at hsome
      exact Bool.false_ne_true hsome
    rw [World.setPc_calls_self]
    refine ⟨(v.setLock (cfg.stripe c) (some s)).setPc s (.holding c), ?_, hstore, rfl, rfl, hup,
      Or.inr ⟨c, rfl, rfl⟩⟩
    simp only [engine, World.step, World.callStep, hpc, hpc₀, if_neg hopen]
  | replay c existing hpc₀ hfind =>
    refine hmove (.finished c (.ok existing.toResult)) ?_ rfl (World.setPc_calls_self ..)
    simp only [engine, World.step, World.callStep, hpc, hpc₀, hstore, hfind]
  | miss c hpc₀ hfind =>
    refine hmove (.missed c) ?_ rfl (World.setPc_calls_self ..)
    simp only [engine, World.step, World.callStep, hpc, hpc₀, hstore, hfind]
  | define c d hpc₀ hdef =>
    refine hmove (.defined c d) ?_ rfl (World.setPc_calls_self ..)
    simp only [engine, World.step, World.callStep, hpc, hpc₀, hstore, hdef]
  | noDefinition c err hpc₀ hdef =>
    refine hmove (.finished c (.error err)) ?_ rfl (World.setPc_calls_self ..)
    simp only [engine, World.step, World.callStep, hpc, hpc₀, hstore, hdef]
  | read c d current hpc₀ hread =>
    refine hmove (.read c d current) ?_ rfl (World.setPc_calls_self ..)
    simp only [engine, World.step, World.callStep, hpc, hpc₀, hstore, hread]
  | readError c d err hpc₀ hread =>
    refine hmove (.finished c (.error err)) ?_ rfl (World.setPc_calls_self ..)
    simp only [engine, World.step, World.callStep, hpc, hpc₀, hstore, hread]
  | plan c d current plan hpc₀ hplan =>
    refine hmove (.planned c plan) ?_ rfl (World.setPc_calls_self ..)
    simp only [engine, World.step, World.callStep, hpc, hpc₀, hguards.planRequest, hplan]
  | reject c d current err hpc₀ hplan =>
    refine hmove (.finished c (.error err)) ?_ rfl (World.setPc_calls_self ..)
    simp only [engine, World.step, World.callStep, hpc, hpc₀, hguards.planRequest, hplan]
  | commit c plan res S' hpc₀ hcommit =>
    rw [World.setPc_calls_self]
    refine ⟨(v.setStore S').setPc s (.finished c (.ok res)), ?_, rfl, rfl, rfl, hup, Or.inl rfl⟩
    simp only [engine, World.step, World.callStep, hpc, hpc₀, hstore, hcommit]
  | commitError c plan err hpc₀ hcommit =>
    refine hmove (.finished c (.error err)) ?_ rfl (World.setPc_calls_self ..)
    simp only [engine, World.step, World.callStep, hpc, hpc₀, hstore, hcommit]
  | release c res hpc₀ =>
    rw [hpc₀] at hnone
    exact absurd hnone (by simp [Pc.outcome])

/-- A call moved on both sides. What is locked afterwards was locked before, by a call that is still
inside, or is locked by the call that moved. -/
theorem Shadow.move (h : Shadow cfg cut e w v) {pc pc' : Pc}
    (hw : w'.calls = Function.update w.calls i pc)
    (hv : v'.calls = Function.update v.calls (Nat.pair e i) pc') (hpc : ¬ cut i → Mirrors pc pc')
    (hstore : v'.store = w'.store) (hguards : v'.guards.Agree w'.guards) (hup : v'.shutdown = false)
    (hlocks : ∀ k s, v'.locks k = some s →
      (v.locks k = some s ∧
        ∀ c, ¬ cut i → (w.calls i).Inside c → cfg.stripe c = k → pc.Inside c) ∨
      (s = Nat.pair e i ∧ ¬ cut i ∧ ∃ c, pc.Inside c ∧ cfg.stripe c = k)) :
    Shadow cfg cut e w' v' where
  store := hstore
  guards := hguards
  up := hup
  calls j hj := by
    rw [hw, hv]
    by_cases hji : j = i
    · subst hji
      rw [Function.update_self, Function.update_self]
      exact hpc hj
    · -- another number here is another number there
      have hne : Nat.pair e j ≠ Nat.pair e i := fun heq => hji (Nat.pair_eq_pair.mp heq).2
      rw [Function.update_of_ne hji, Function.update_of_ne hne]
      exact h.calls j hj
  later e' j he' := by
    have hne : Nat.pair e' j ≠ Nat.pair e i := fun heq => he'.ne' (Nat.pair_eq_pair.mp heq).1
    rw [hv, Function.update_of_ne hne]
    exact h.later e' j he'
  locks hstriped k s hk := by
    obtain ⟨hold, hstill⟩ | ⟨rfl, hi, c, hc, hstripe⟩ := hlocks k s hk
    · obtain ⟨j, c, rfl, hj, hc, hstripe⟩ := h.locks hstriped k s hold
      refine ⟨j, c, rfl, hj, ?_, hstripe⟩
      rw [hw]
      by_cases hji : j = i
      · subst hji
        rw [Function.update_self]
        exact hstill c hj hc hstripe
      · rw [Function.update_of_ne hji]
        exact hc
    · refine ⟨i, c, rfl, hi, ?_, hstripe⟩
      rw [hw, Function.update_self]
      exact hc

/-- A call moved here only. -/
theorem Shadow.stay (h : Shadow cfg cut e w v) {pc : Pc}
    (hw : w'.calls = Function.update w.calls i pc) (hstore : w'.store = w.store)
    (hguards : w'.guards = w.guards) (hpc : ¬ cut i → Mirrors pc (v.calls (Nat.pair e i)))
    (hinside : ∀ c, ¬ cut i → (w.calls i).Inside c → pc.Inside c) : Shadow cfg cut e w' v := by
  refine h.move hw (Function.update_eq_self ..).symm hpc (h.store.trans hstore.symm) ?_ h.up
    fun k s hk => Or.inl ⟨hk, fun c hi hc _ => hinside c hi hc⟩
  rw [hguards]
  exact h.guards

theorem not_inside_of_holder {pc : Pc} (h : pc.holder = none) (c : Call) : ¬ pc.Inside c :=
  fun hc => absurd (h.symm.trans hc.1) (by simp)

/-- At the door of an engine that is shutting down there is one step to make. -/
theorem CallStep.of_entered (h : CallStep cfg w i w') {c : Call} (hpc : w.calls i = .entered c)
    (hdown : w.shutdown = true) : w' = w.setPc i (.released c (.error .shuttingDown)) := by
  cases h with
  | refuse c' hpc' _ =>
    obtain rfl := Pc.entered.inj (hpc.symm.trans hpc')
    rfl
  | enter c' _ hup => exact absurd (hdown.symm.trans hup) (by simp)
  | acquire c' hpc' | replay c' _ hpc' | miss c' hpc' | define c' _ hpc' | noDefinition c' _ hpc'
  | read c' _ _ hpc' | readError c' _ _ hpc' | plan c' _ _ _ hpc' | reject c' _ _ _ hpc'
  | commit c' _ _ _ hpc' | commitError c' _ _ hpc' | release c' _ hpc' =>
    exact absurd (hpc.symm.trans hpc') (by simp)

theorem CallStep.free_of_waiting (h : CallStep cfg w i w') {c : Call} (hpc : w.calls i = .waiting c)
    (hstriped : cfg.striped = true) : w.locks (cfg.stripe c) = none := by
  cases h with
  | acquire c' hpc' hfree =>
    obtain rfl := Pc.waiting.inj (hpc.symm.trans hpc')
    exact hfree hstriped
  | refuse c' hpc' | enter c' hpc' | replay c' _ hpc' | miss c' hpc' | define c' _ hpc'
  | noDefinition c' _ hpc' | read c' _ _ hpc' | readError c' _ _ hpc' | plan c' _ _ _ hpc'
  | reject c' _ _ _ hpc' | commit c' _ _ _ hpc' | commitError c' _ _ hpc' | release c' _ hpc' =>
    exact absurd (hpc.symm.trans hpc') (by simp)

/-- Once its outcome is decided, a call gives back the lock. -/
theorem CallStep.of_decided (h : CallStep cfg w i w') (hsome : (w.calls i).outcome ≠ none) :
    ∃ c res, w.calls i = .finished c res ∧
      w' = (w.setLock (cfg.stripe c) none).setPc i (.released c res) := by
  cases h with
  | release c res hpc => exact ⟨c, res, hpc, rfl⟩
  | refuse c hpc | enter c hpc | acquire c hpc | replay c _ hpc | miss c hpc | define c _ hpc
  | noDefinition c _ hpc | read c _ _ hpc | readError c _ _ hpc | plan c _ _ _ hpc
  | reject c _ _ _ hpc | commit c _ _ _ hpc | commitError c _ _ hpc =>
    rw [hpc] at hsome
    exact absurd rfl hsome

/-- A lock that is free here is free there. -/
theorem Shadow.lock_eq_none (h : Shadow cfg cut e w v) (hstriped : cfg.striped = true)
    (hlocks : ∀ j, LockFact cfg w.locks j (w.calls j)) {k : ℕ} (hfree : w.locks k = none) :
    v.locks k = none := by
  refine Option.eq_none_iff_forall_ne_some.mpr fun s hs => ?_
  obtain ⟨j, c, -, -, hc, rfl⟩ := h.locks hstriped k s hs
  exact absurd (hfree.symm.trans (hlocks j c hc.1)) (by simp)

/-- The call gives the lock back here, as it has done there. -/
theorem Shadow.release (h : Shadow cfg cut e w v) {c : Call} {res : Outcome}
    (hpc : w.calls i = .finished c res) :
    Shadow cfg cut e ((w.setLock (cfg.stripe c) none).setPc i (.released c res)) v := by
  refine h.stay rfl rfl rfl (fun hi => Or.inl ?_) fun c' _ hc' => ?_
  · have hmirrors := h.calls i hi
    rw [hpc] at hmirrors
    obtain hahead | ⟨c', -, hrel | hret⟩ := hmirrors
    · exact hahead
    · exact Pc.noConfusion hrel
    · exact Pc.noConfusion hret
  · rw [hpc] at hc'
    exact absurd hc'.2 (by simp [Pc.outcome])

/-- The outcome is decided on both sides, and the lock given back there. -/
theorem Shadow.decide {v₁ : World} (h : Shadow cfg cut e w v) (hcall : CallStep cfg w i w') {c : Call}
    {res : Outcome} (hpc : w'.calls i = .finished c res)
    (hcalls : v₁.calls = Function.update v.calls (Nat.pair e i) (.finished c res))
    (hstore : v₁.store = w'.store) (hguards : v₁.guards.Agree w'.guards) (hup : v₁.shutdown = false)
    (hl : v₁.locks = v.locks) :
    Shadow cfg cut e w'
      ((v₁.setLock (cfg.stripe c) none).setPc (Nat.pair e i) (.released c res)) := by
  obtain ⟨pc, hw, -⟩ := hcall.calls_eq
  obtain rfl : pc = .finished c res := by rw [← hpc, hw, Function.update_self]
  have hv : Function.update v₁.calls (Nat.pair e i) (.released c res)
      = Function.update v.calls (Nat.pair e i) (.released c res) := by
    rw [hcalls, Function.update_idem]
  refine h.move hw hv (fun _ => Or.inl rfl) hstore hguards hup fun k s hk => Or.inl ?_
  change Function.update v₁.locks (cfg.stripe c) none k = some s at hk
  have hne : k ≠ cfg.stripe c := by
    rintro rfl
    rw [Function.update_self] at hk
    exact absurd hk (by simp)
  rw [Function.update_of_ne hne, hl] at hk
  refine ⟨hk, fun c' _ hc' hstripe => ?_⟩
  -- the lock of this call is another
  obtain hstill | ⟨res', hfin⟩ := hcall.inside hc'
  · exact hpc ▸ hstill
  · obtain ⟨rfl, -⟩ := Pc.finished.inj (hpc.symm.trans hfin)
    exact absurd hstripe.symm hne

/-- **A step of a call that is not cut off is followed**: by the same step, and by giving the lock back
if it has decided the outcome. -/
theorem Shadow.call (h : Shadow cfg cut e w v)
    (hlocks : cfg.striped = true → ∀ j, LockFact cfg w.locks j (w.calls j))
    (hcall : CallStep cfg w i w') (hi : ¬ cut i) :
    ∃ more v', (∀ l ∈ more, l = .step (Nat.pair e i)) ∧ (engine cfg).exec v more = some v' ∧
      Shadow cfg cut e w' v' := by
  by_cases hnone : (w.calls i).outcome = none
  swap
  · obtain ⟨c, res, hpc, rfl⟩ := hcall.of_decided hnone
    exact ⟨[], v, by simp, rfl, h.release hpc⟩
  have hsame : v.calls (Nat.pair e i) = w.calls i := (h.calls i hi).eq hnone
  by_cases hdoor : w.shutdown = true ∧ ∃ c, w.calls i = .entered c
  · -- refused here; there the call stays at the door for ever
    obtain ⟨hdown, c, hpc⟩ := hdoor
    obtain rfl := hcall.of_entered hpc hdown
    refine ⟨[], v, by simp, rfl, h.stay rfl rfl rfl (fun _ => ?_) fun c' _ hc' => ?_⟩
    · exact Or.inr ⟨c, hsame.trans hpc, Or.inl rfl⟩
    · exact absurd hc' (not_inside_of_holder (by rw [hpc]; rfl) c')
  obtain ⟨v₁, hv₁, hstore, hcalls, hguards, hup, hl⟩ :=
    hcall.follow h.store h.guards h.up hsame hnone (fun hdown c hpc => hdoor ⟨hdown, c, hpc⟩)
      fun c hpc hstriped => h.lock_eq_none hstriped (hlocks hstriped) (hcall.free_of_waiting hpc hstriped)
  have hagree : v₁.guards.Agree w'.guards := by
    rw [hguards, hcall.frame.1]
    exact h.guards
  by_cases hfin : ∃ c res, w'.calls i = .finished c res
  · obtain ⟨c, res, hpc⟩ := hfin
    rw [hpc] at hcalls hl
    have hl : v₁.locks = v.locks := by
      refine hl.resolve_right ?_
      rintro ⟨c', hc', -⟩
      exact Pc.noConfusion hc'
    have hv₂ : (engine cfg).step v₁ (.step (Nat.pair e i)) = some
        ((v₁.setLock (cfg.stripe c) none).setPc (Nat.pair e i) (.released c res)) := by
      have hpc₁ : v₁.calls (Nat.pair e i) = .finished c res := by rw [hcalls, Function.update_self]
      simp only [engine, World.step, World.callStep, hpc₁]
    refine ⟨[.step (Nat.pair e i), .step (Nat.pair e i)], _, by simp, ?_,
      h.decide hcall hpc hcalls hstore hagree hup hl⟩
    rw [System.exec_cons, hv₁, Option.bind_some, System.exec_cons, hv₂]
    rfl
  · obtain ⟨pc, hw, -⟩ := hcall.calls_eq
    obtain rfl : w'.calls i = pc := by rw [hw, Function.update_self]
    have hopen : ∀ c res, w'.calls i ≠ .finished c res := fun c res heq => hfin ⟨c, res, heq⟩
    have hstill : ∀ c, (w.calls i).Inside c → (w'.calls i).Inside c := by
      intro c hc
      refine (hcall.inside hc).resolve_right ?_
      rintro ⟨res, hpc⟩
      exact hopen c res hpc
    refine ⟨[.step (Nat.pair e i)], v₁, by simp, ?_,
      h.move hw hcalls (fun _ => Or.inl (Pc.ahead_eq hopen).symm) hstore hagree hup fun k s hk => ?_⟩
    · exact System.exec_singleton hv₁
    · obtain hl | ⟨c, hpc, hl⟩ := hl
      · exact Or.inl ⟨hl ▸ hk, fun c _ hc _ => hstill c hc⟩
      · rw [hl] at hk
        by_cases hne : k = cfg.stripe c
        · -- the lock it has just taken
          rw [hne, Function.update_self] at hk
          exact Or.inr ⟨(Option.some.inj hk).symm, hi, c, hpc ▸ ⟨rfl, rfl⟩, hne.symm⟩
        · rw [Function.update_of_ne hne] at hk
          exact Or.inl ⟨hk, fun c _ hc _ => hstill c hc⟩

/-- A call that is not cut off is started there, too. -/
theorem Shadow.invoke (h : Shadow cfg cut e w v) (hpc : w.calls i = .idle) (c : Call) :
    ∃ more v', (engine cfg).exec v more = some v' ∧ Shadow cfg cut e (w.setPc i (.entered c)) v' ∧
      ∀ l ∈ more, l = .invoke (Nat.pair e i) c := by
  have hnot : ∀ c', ¬ (w.calls i).Inside c' := not_inside_of_holder (by rw [hpc]; rfl)
  by_cases hi : cut i
  · exact ⟨[], v, rfl, h.stay rfl rfl rfl (absurd hi) fun c' _ hc' => absurd hc' (hnot c'), by simp⟩
  · have hidle : v.calls (Nat.pair e i) = .idle := by
      rw [(h.calls i hi).eq (by rw [hpc]; rfl), hpc]
    refine ⟨[.invoke (Nat.pair e i) c], v.setPc (Nat.pair e i) (.entered c), System.exec_singleton ?_,
      h.move rfl rfl (fun _ => Or.inl rfl) h.store h.guards h.up fun k s hk =>
        Or.inl ⟨hk, fun c' _ hc' => absurd hc' (hnot c')⟩, by simp⟩
    simp only [engine, World.step, hidle]

/-- A call that returns here returns there, if it is not at the door. -/
theorem Shadow.ret (h : Shadow cfg cut e w v) {c : Call} {res : Outcome}
    (hpc : w.calls i = .released c res) (hi : ¬ cut i) :
    ∃ more v', (engine cfg).exec v more = some v' ∧ Shadow cfg cut e (w.setPc i (.returned c res)) v' ∧
      ∀ l ∈ more, l = .ret (Nat.pair e i) := by
  have hnot : ∀ c', ¬ (w.calls i).Inside c' := not_inside_of_holder (by rw [hpc]; rfl)
  obtain hsame | ⟨c', hdoor, hrel | hret⟩ := h.calls i hi
  · rw [hpc] at hsame
    refine ⟨[.ret (Nat.pair e i)], v.setPc (Nat.pair e i) (.returned c res), System.exec_singleton ?_,
      h.move rfl rfl (fun _ => Or.inl rfl) h.store h.guards h.up fun k s hk =>
        Or.inl ⟨hk, fun c' _ hc' => absurd hc' (hnot c')⟩, by simp⟩
    simp only [engine, World.step, hsame, Pc.ahead]
  · rw [hpc] at hrel
    obtain ⟨rfl, rfl⟩ := Pc.released.inj hrel
    exact ⟨[], v, rfl, h.stay rfl rfl rfl (fun _ => Or.inr ⟨c, hdoor, Or.inr rfl⟩)
      fun c' _ hc' => absurd hc' (hnot c'), by simp⟩
  · exact absurd (hpc.symm.trans hret) (by simp)

/-- **A step is followed by steps of the same engine**, if no call that is cut off decides its outcome
in it. -/
theorem Shadow.step {l : Label} (h : Shadow cfg cut e w v)
    (hlocks : cfg.striped = true → ∀ j, LockFact cfg w.locks j (w.calls j))
    (hstep : Step cfg w l w') (hcut : ∀ i, cut i → (w'.calls i).outcome = none) :
    ∃ more v', (engine cfg).exec v more = some v' ∧ Shadow cfg cut e w' v' ∧
      ∀ s c, Label.invoke s c ∈ more → ∃ i, l = .invoke i c ∧ s = Nat.pair e i := by
  cases hstep with
  | invoke i c hpc =>
    obtain ⟨more, v', hexec, hshadow, hmore⟩ := h.invoke hpc c
    refine ⟨more, v', hexec, hshadow, fun s c' hmem => ?_⟩
    obtain ⟨rfl, rfl⟩ := Label.invoke.inj (hmore _ hmem)
    exact ⟨i, rfl, rfl⟩
  | call i w' hcall =>
    by_cases hi : cut i
    · obtain ⟨pc, hw, -⟩ := hcall.calls_eq
      exact ⟨[], v, rfl, h.stay hw (hcall.store_eq (hcut i hi)) hcall.frame.1 (absurd hi)
        fun c hnot => absurd hi hnot, by simp⟩
    · obtain ⟨more, v', hmore, hexec, hshadow⟩ := h.call hlocks hcall hi
      refine ⟨more, v', hexec, hshadow, fun s c hmem => ?_⟩
      exact absurd (hmore _ hmem) Label.noConfusion
  | ret i c res hpc =>
    have hi : ¬ cut i := by
      intro hi
      have hnone := hcut i hi
      rw [World.setPc_calls_self] at hnone
      exact absurd hnone (by simp [Pc.outcome])
    obtain ⟨more, v', hexec, hshadow, hmore⟩ := h.ret hpc hi
    exact ⟨more, v', hexec, hshadow, fun s c' hmem => absurd (hmore _ hmem) Label.noConfusion⟩
  | define definition hvalid =>
    refine ⟨[.defineMachine definition none], v.setStore (RedbEngine.storeMachine v.store definition),
      System.exec_singleton ?_, ⟨?_, h.guards, h.up, h.calls, h.later, h.locks⟩, by simp⟩
    · have hok : Engine.defineMachine v.store definition none
          = .ok (RedbEngine.storeMachine v.store definition) :=
        Engine.defineMachine_eq_ok_iff.mpr ⟨hvalid, rfl, rfl⟩
      simp only [engine, World.step, hok]
    · rw [h.store]
      rfl
  | mark effectId status effect heffect =>
    refine ⟨[.markEffect effectId status none], v.setStore
      { v.store with effects := v.store.effects.insert effectId { effect with status } }, System.exec_singleton ?_,
      ⟨?_, h.guards, h.up, h.calls, h.later, h.locks⟩, by simp⟩
    · rw [← h.store] at heffect
      simp only [engine, World.step, withFault_none, RedbEngine.updateEffectStatus, heffect]
    · rw [h.store]
      rfl
  | registerGuard name guard =>
    exact ⟨[.registerGuard name guard], { v with guards := v.guards.register name guard }, System.exec_singleton rfl,
      ⟨h.store, h.guards.register name guard, h.up, h.calls, h.later, h.locks⟩, by simp⟩
  -- the flag, the stream and what fails leave the store and the calls alone
  | defineError definition fault => exact ⟨[], v, rfl, h, by simp⟩
  | markError effectId status fault => exact ⟨[], v, rfl, h, by simp⟩
  | shutdown => exact ⟨[], v, rfl, ⟨h.store, h.guards, h.up, h.calls, h.later, h.locks⟩, by simp⟩
  | stream l st hst => exact ⟨[], v, rfl, ⟨h.store, h.guards, h.up, h.calls, h.later, h.locks⟩, by simp⟩

/-- **A restart is followed by nothing but changes of guards**: whoever is inside here is cut off, so
there nobody is. -/
theorem Shadow.restart (h : Shadow cfg cut e w v)
    (hcut : ∀ i, (w.calls i).call ≠ none → (w.calls i).outcome = none → cut i) (cut' : ℕ → Prop)
    (guards : GuardRegistry) :
    ∃ v', (engine cfg).exec v (guards.adopt (v.guards.names ++ guards.names)) = some v' ∧
      Shadow cfg cut' (e + 1) (w.restart guards) v' := by
  obtain ⟨g, hexec, heval⟩ := guards.exec_adopt cfg (v.guards.names ++ guards.names) v
  refine ⟨_, hexec, h.store, fun name state ctx => ?_, h.up, fun i _ => ?_, fun e' i he' => ?_,
    fun hstriped k s hk => ?_⟩
  · change g.evaluate name state ctx = guards.evaluate name state ctx
    rw [heval]
    split
    · rfl
    · next hmem =>
      -- registered on neither side, it passes on both
      rw [List.mem_append, not_or] at hmem
      rw [GuardRegistry.evaluate_of_not_mem_names hmem.1,
        GuardRegistry.evaluate_of_not_mem_names hmem.2]
  · exact Or.inl (h.later (e + 1) i (Nat.lt_succ_self e))
  · exact h.later e' i (Nat.lt_of_succ_lt he')
  · obtain ⟨i, c, -, hi, hc, -⟩ := h.locks hstriped k s hk
    refine absurd (hcut i ?_ hc.2) hi
    rw [Pc.call_of_holder hc.1]
    exact Option.some_ne_none c

end Shadow

/-! ### Runs with crashes -/

/-- The restarts among some labels. -/
def restarts (ls : List (Label ⊕ GuardRegistry)) : ℕ := ls.countP Sum.isRight

/-- The `n`-th label starts call `i` of the process that is running then. -/
def InvokesAt (ls : List (Label ⊕ GuardRegistry)) (n i : ℕ) (c : Call) : Prop :=
  ls[n]? = some (Sum.inl (Label.invoke i c))

/-- Call `s` of the run without crashes is one that the run with crashes asked for. -/
def AskedAs (ls : List (Label ⊕ GuardRegistry)) (s : ℕ) (c : Call) : Prop :=
  ∃ n i, InvokesAt ls n i c ∧ s = Nat.pair (restarts (ls.take n)) i

section Runs

variable {cfg : Config} {guards : GuardRegistry} {ls : List (Label ⊕ GuardRegistry)} {w : World}

theorem lockFact_of_durable (hstriped : cfg.striped = true)
    (hrun : (durable cfg).exec (World.initial Store.empty guards) ls = some w) :
    ∀ j, LockFact cfg w.locks j (w.calls j) := by
  have hnobody : ∀ S guards j, LockFact cfg (World.initial S guards).locks j
      ((World.initial S guards).calls j) :=
    fun _ _ _ c hc => absurd hc (by simp [World.initial, Pc.holder])
  exact System.restarting_induction (hnobody _ _)
    (fun _ _ _ hw hstep => (step_sound hstep).lockFact hstriped hw) (fun _ _ _ => hnobody _ _) hrun

theorem restarts_take_succ {n : ℕ} {l : Label ⊕ GuardRegistry} (hl : ls[n]? = some l) :
    restarts (ls.take (n + 1)) = restarts (ls.take n) + if l.isRight then 1 else 0 := by
  unfold restarts
  rw [List.take_add_one, hl, Option.toList_some, List.countP_append, List.countP_singleton]

/-- **Every run with crashes is followed by one without.** -/
theorem shadow_of_run (hrun : (durable cfg).exec (World.initial Store.empty guards) ls = some w) :
    ∃ ls' v, (engine cfg).exec (World.initial Store.empty guards) ls' = some v ∧
      Shadow cfg (CutOff cfg guards ls ls.length) (restarts (ls.take ls.length)) w v ∧
      ∀ s c, Label.invoke s c ∈ ls' → AskedAs ls s c := by
  refine System.exec_simulation
    (R := fun n w ls' v => Shadow cfg (CutOff cfg guards ls n) (restarts (ls.take n)) w v ∧
      ∀ s c, Label.invoke s c ∈ ls' → AskedAs ls s c) hrun ⟨?_, by simp⟩ ?_
  · refine ⟨rfl, fun _ _ _ => rfl, rfl, fun _ _ => Or.inl rfl, fun _ _ _ => rfl, ?_⟩
    exact fun _ k s hk => absurd hk (by simp [World.initial])
  · rintro n l w w' ls' v hl hw hw' ⟨hshadow, hasked⟩
    have hstep := System.step_of_stateAt hl hw hw'
    rw [restarts_take_succ hl]
    cases l with
    | inl l =>
      -- while the process runs, the calls to leave out are the same
      have hsame : CutOff cfg guards ls (n + 1) = CutOff cfg guards ls n :=
        funext fun i => propext (cutOff_succ_iff hl)
      have hcut : ∀ i, CutOff cfg guards ls n i → (w'.calls i).outcome = none :=
        fun i hi => (cutOff_succ_iff hl |>.mpr hi).outcome_eq_none hw'
      obtain ⟨more, v', hmore, hshadow', hinvokes⟩ :=
        hshadow.step (fun hstriped => lockFact_of_durable hstriped hw) (step_sound hstep) hcut
      refine ⟨more, v', hmore, ?_, fun s c hmem => ?_⟩
      · rw [hsame]
        exact hshadow'
      · obtain hmem | hmem := List.mem_append.mp hmem
        · exact hasked s c hmem
        · -- the call that starts now gets the next number of this process
          obtain ⟨i, rfl, rfl⟩ := hinvokes s c hmem
          exact ⟨n, i, hl, rfl⟩
    | inr guards' =>
      -- whoever was left out was so because of this crash
      obtain rfl := Option.some.inj hstep
      obtain ⟨v', hmore, hshadow'⟩ := hshadow.restart
        (fun i hcall hnone => cutOff_of_crash hl hw hcall hnone) (CutOff cfg guards ls (n + 1)) guards'
      refine ⟨_, v', hmore, hshadow', fun s c hmem => ?_⟩
      obtain hmem | hmem := List.mem_append.mp hmem
      · exact hasked s c hmem
      · obtain ⟨name, -, hname⟩ := List.mem_map.mp hmem
        exact nomatch hname

end Runs

end StateMaster
