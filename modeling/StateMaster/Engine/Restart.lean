import StateMaster.Engine.Outbox
import StateMaster.Engine.Projection
import StateMaster.Engine.Shadow

/-!
# Crashes and restarts

A crash is not a new behaviour of the store. Every store it can leave is one the engine reaches anyway
(`restart_transparent`), and whatever holds of reachable stores holds after crashes.

* `restart_transparent` — the store after any number of crashes is one of a run without them, and the
  log has lost nothing;
* `acknowledged_for_good` — an answer, once given, is about a record that stays, and all answers under
  one idempotency key, before and after crashes, are about the same record.
-/

open Framework Framework.Text

namespace StateMaster

/-- The ids drawn along a run with crashes differ. A number that is used again after a crash is
another call. -/
structure FreshDraws (ls : List (Label ⊕ GuardRegistry)) : Prop where
  records : ∀ m n i j c c', InvokesAt ls m i c → InvokesAt ls n j c' →
    c.draws.recordId.text = c'.draws.recordId.text → m = n
  effects : ∀ m n i j c c' k k', InvokesAt ls m i c → InvokesAt ls n j c' →
    (c.draws.effectId k).text = (c'.draws.effectId k').text → m = n ∧ k = k'

section Runs

variable {cfg : Config} {guards : GuardRegistry} {ls : List (Label ⊕ GuardRegistry)} {w : World}

theorem InvokesAt.inj {n i j : ℕ} {c c' : Call} (h : InvokesAt ls n i c) (h' : InvokesAt ls n j c') :
    i = j :=
  (Label.invoke.inj (Sum.inl.inj (Option.some.inj (h.symm.trans h')))).1

/-- Calls that differ have numbers that differ. -/
theorem FreshDraws.freshIds (h : FreshDraws ls) {ls' : List Label}
    (hasked : ∀ s c, Label.invoke s c ∈ ls' → AskedAs ls s c) : FreshIds ls' where
  records s c t c' hs ht heq := by
    obtain ⟨m, i, hm, rfl⟩ := hasked s c hs
    obtain ⟨n, j, hn, rfl⟩ := hasked t c' ht
    obtain rfl := h.records m n i j c c' hm hn heq
    rw [hm.inj hn]
  effects s c k t c' k' hs ht heq := by
    obtain ⟨m, i, hm, rfl⟩ := hasked s c hs
    obtain ⟨n, j, hn, rfl⟩ := hasked t c' ht
    obtain ⟨rfl, hk⟩ := h.effects m n i j c c' k k' hm hn heq
    exact ⟨by rw [hm.inj hn], hk⟩

/-! ### What a restart keeps -/

theorem KeyInvariant.initial (guards : GuardRegistry) :
    KeyInvariant (World.initial Store.empty guards) :=
  keyInvariant_of_run (show (engine lockFree).exec _ [] = some _ from rfl)

theorem KeyInvariant.restart (h : KeyInvariant w) (guards : GuardRegistry) :
    KeyInvariant (w.restart guards) :=
  ⟨h.log, h.keys, fun _ => trivial⟩

theorem ProjectionInvariant.restart (h : ProjectionInvariant w) (guards : GuardRegistry) :
    ProjectionInvariant (w.restart guards) :=
  ⟨h.log, h.projected, fun _ => trivial⟩

theorem keyInvariant_of_durable
    (hrun : (durable cfg).exec (World.initial Store.empty guards) ls = some w) : KeyInvariant w :=
  System.restarting_induction (KeyInvariant.initial guards)
    (fun _ _ _ hw hstep => hw.step (step_sound hstep)) (fun _ guards' hw => hw.restart guards') hrun

theorem projectionInvariant_of_durable
    (hrun : (durable cfg).exec (World.initial Store.empty guards) ls = some w) :
    ProjectionInvariant w :=
  System.restarting_induction (ProjectionInvariant.initial guards)
    (fun _ _ _ hw hstep => hw.step (step_sound hstep)) (fun _ guards' hw => hw.restart guards') hrun

/-- The log only grows, whatever is lost besides. -/
theorem log_grows_of_durable {m n : ℕ} {wm wn : World} (hmn : m ≤ n)
    (hm : (durable cfg).stateAt (World.initial Store.empty guards) ls m = some wm)
    (hn : (durable cfg).stateAt (World.initial Store.empty guards) ls n = some wn) :
    wm.store.log <+: wn.store.log := by
  refine (System.restarting_stable (I := fun w => KeyInvariant w ∧ wm.store.log <+: w.store.log)
    ?_ ?_ hmn hm hn ⟨keyInvariant_of_durable hm, List.prefix_refl _⟩).2
  · rintro w l w' ⟨hw, hlog⟩ hstep
    have hst := step_sound hstep
    exact ⟨hw.step hst, hlog.trans (hst.log_grows hw.log)⟩
  · rintro w guards' ⟨hw, hlog⟩
    exact ⟨hw.restart guards', hlog⟩

/-- The log of any moment is a prefix of the log at the end. -/
theorem log_prefix_of_durable
    (hrun : (durable cfg).exec (World.initial Store.empty guards) ls = some w) {n : ℕ} {wn : World}
    (hn : (durable cfg).stateAt (World.initial Store.empty guards) ls n = some wn) :
    wn.store.log <+: w.store.log := by
  by_cases hle : n ≤ ls.length
  · exact log_grows_of_durable hle hn ((System.stateAt_length _ _).trans hrun)
  · -- past the end of the run nothing moves
    unfold System.stateAt at hn
    rw [List.take_of_length_le (Nat.le_of_not_le hle), hrun] at hn
    obtain rfl := Option.some.inj hn
    exact List.prefix_refl _

/-- **A crash is nothing new to the store.** After any number of crashes, at whatever moments, the
store is one that a run of the same engine without any crash reaches, with calls the run asked for and
with fresh ids if the run drew fresh ids; and the log of every earlier moment is a prefix of the log
now. -/
theorem restart_transparent
    (hrun : (durable cfg).exec (World.initial Store.empty guards) ls = some w) :
    (∃ ls' v, (engine cfg).exec (World.initial Store.empty guards) ls' = some v ∧
      v.store = w.store ∧ (∀ s c, Label.invoke s c ∈ ls' → ∃ n i, InvokesAt ls n i c) ∧
      (FreshDraws ls → FreshIds ls')) ∧
    EngineReachable w.store ∧
    ∀ n wn, (durable cfg).stateAt (World.initial Store.empty guards) ls n = some wn →
      wn.store.log <+: w.store.log := by
  obtain ⟨ls', v, hexec, hshadow, hasked⟩ := shadow_of_run hrun
  refine ⟨⟨ls', v, hexec, hshadow.store, fun s c hmem => ?_, fun hfresh => hfresh.freshIds hasked⟩,
    ⟨cfg, guards, ls', v, hexec, hshadow.store⟩, fun n wn hn => log_prefix_of_durable hrun hn⟩
  obtain ⟨n, i, hn, -⟩ := hasked s c hmem
  exact ⟨n, i, hn⟩

/-! ### Answers -/

/-- The record is the one that `c` itself committed. -/
structure OwnRecord (c : Call) (r : TransitionRecord) : Prop where
  id : r.id = c.draws.recordId.text
  key : r.stateKey = c.stateKey
  version : ∀ v, c.expectedVersion = some v → r.version = v + 1

/-- The log has the record an answer is about: under the key it was asked with, and, if it was asked
without one, the call's own. -/
def Recorded (S : Store) (c : Call) (res : TransitionResult) : Prop :=
  ∃ r ∈ S.log, r.toResult = res ∧
    (∀ key, c.idempotencyKey = some key → r.idempotencyKey = some key) ∧
    (c.idempotencyKey = none → OwnRecord c r)

/-- Whoever has a good answer has it about a record of the log. -/
def Answered (S : Store) (pc : Pc) : Prop :=
  ∀ c res, pc.call = some c → pc.outcome = some (.ok res) → Recorded S c res

theorem Recorded.grow {S S' : Store} {c : Call} {res : TransitionResult} (h : Recorded S c res)
    (hlog : S.log <+: S'.log) : Recorded S' c res := by
  obtain ⟨r, hr, hrest⟩ := h
  exact ⟨r, hlog.subset hr, hrest⟩

/-- What is found under a key carries it. -/
theorem recorded_of_findReplay {S : Store} (hS : LogInvariant S) {c : Call}
    {existing : TransitionRecord} (hfind : Engine.findReplay S c = some existing) :
    Recorded S c existing.toResult := by
  obtain ⟨key, s, hkey, -, hs, hr⟩ := Engine.findReplay_eq_some hfind
  refine ⟨existing, mem_log.mpr ⟨s, hr⟩, rfl, fun key' hkey' => ?_,
    fun hnone => absurd (hkey.symm.trans hnone) (by simp)⟩
  obtain rfl := Option.some.inj (hkey.symm.trans hkey')
  obtain ⟨r, hr', hcarried⟩ := hS.keyed key s hs
  obtain rfl := Option.some.inj (hr.symm.trans hr')
  exact hcarried

/-- A plan is made only at the version the caller expects. -/
theorem Engine.expectedVersion_of_planRequest {guards : GuardRegistry} {c : Call}
    {definition : MachineDefinition} {current : Current} {plan : Plan}
    (h : Engine.planRequest guards c definition current = .ok plan) (v : ℕ)
    (hv : c.expectedVersion = some v) : current.version = v := by
  simp only [Engine.planRequest, bind_eq_ok_iff] at h
  obtain ⟨_, hcheck, -⟩ := h
  by_contra hne
  rw [Engine.checkExpectedVersion, hv] at hcheck
  dsimp only at hcheck
  rw [if_pos fun heq => hne heq.symm] at hcheck
  exact absurd hcheck (by simp)

/-- What is committed is what is answered. -/
theorem recorded_of_commit {S S' : Store} (hS : LogInvariant S) {c : Call} {plan : Plan}
    {res : TransitionResult} (hplan : PlanFact (.planned c plan))
    (hcommit : Engine.commitPlan S c plan = .ok (res, S')) : Recorded S' c res := by
  obtain ⟨g, definition, current, hplan⟩ := hplan
  obtain ⟨-, hc, rfl⟩ := Engine.commitPlan_eq_ok hcommit
  refine ⟨{ plan.record with sequence := S.sequence + 1 }, ?_,
    (planResult_eq_toResult hplan _).symm, fun key hkey => ?_, fun _ => ?_⟩
  · rw [hc.appends.log hS]
    exact List.mem_append_right _ List.mem_cons_self
  · obtain ⟨rule, -, -, -, rfl⟩ := Engine.planRequest_eq_ok hplan
    exact hkey
  · have hexpected := Engine.expectedVersion_of_planRequest hplan
    obtain ⟨rule, -, -, -, rfl⟩ := Engine.planRequest_eq_ok hplan
    -- the new version is one past the version read, which is the version expected
    exact ⟨rfl, rfl, fun v hv => congrArg (· + 1) (hexpected v hv)⟩

/-- A step keeps every answer about a record, and gives no other answer. -/
theorem answered_step {w' : World} {l : Label} (hw : KeyInvariant w)
    (h : ∀ i, Answered w.store (w.calls i)) (hstep : Step cfg w l w') :
    ∀ i, Answered w'.store (w'.calls i) := by
  have hold : ∀ j, Answered w'.store (w.calls j) := fun j c res hc hres =>
    (h j c res hc hres).grow (hstep.log_grows hw.log)
  -- a call that has no good answer has nothing to keep
  have hnone : ∀ pc : Pc, (∀ res, pc.outcome ≠ some (.ok res)) → Answered w'.store pc :=
    fun pc hpc c res _ hres => absurd hres (hpc res)
  cases hstep with
  | invoke i c hpc => exact World.forall_setPc (hnone _ (by simp [Pc.outcome])) fun j _ => hold j
  | ret i c res hpc =>
    refine World.forall_setPc (fun c' res' hc hres => hold i c' res' ?_ ?_) fun j _ => hold j
    · rw [hpc]
      exact hc
    · rw [hpc]
      exact hres
  | call i w' hcall =>
    cases hcall with
    | replay c existing hpc hfind =>
      refine World.forall_setPc (fun c' res' hc hres => ?_) fun j _ => hold j
      obtain rfl := Option.some.inj hc
      obtain rfl := Except.ok.inj (Option.some.inj hres)
      exact recorded_of_findReplay hw.log hfind
    | commit c plan res S' hpc hcommit =>
      refine World.forall_setPc (fun c' res' hc hres => ?_) fun j _ => hold j
      obtain rfl := Option.some.inj hc
      obtain rfl := Except.ok.inj (Option.some.inj hres)
      have hplan := hw.plans i
      rw [hpc] at hplan
      exact recorded_of_commit hw.log hplan hcommit
    | release c res hpc =>
      refine World.forall_setPc (fun c' res' hc hres => hold i c' res' ?_ ?_) fun j _ => hold j
      · rw [hpc]
        exact hc
      · rw [hpc]
        exact hres
    | refuse _ _ _ | enter _ _ _ | acquire _ _ _ | miss _ _ _ | define _ _ _ _
    | noDefinition _ _ _ _ | read _ _ _ _ _ | readError _ _ _ _ _ | plan _ _ _ _ _ _
    | reject _ _ _ _ _ _ | commitError _ _ _ _ _ =>
      exact World.forall_setPc (hnone _ (by simp [Pc.outcome])) fun j _ => hold j
  | _ => exact hold

theorem answered_of_durable
    (hrun : (durable cfg).exec (World.initial Store.empty guards) ls = some w) (i : ℕ) :
    Answered w.store (w.calls i) := by
  have hidle : ∀ S, Answered S .idle := fun S c res hc _ => nomatch hc
  refine (System.restarting_induction
    (I := fun w => KeyInvariant w ∧ ∀ i, Answered w.store (w.calls i))
    ⟨KeyInvariant.initial guards, fun _ => hidle _⟩ ?_ ?_ hrun).2 i
  · rintro w l w' ⟨hw, h⟩ hstep
    exact ⟨hw.step (step_sound hstep), answered_step hw h (step_sound hstep)⟩
  · rintro w guards' ⟨hw, -⟩
    exact ⟨hw.restart guards', fun _ => hidle _⟩

/-- The record with version `k + 1` is the `k`-th of its key. -/
theorem Projected.index_of_mem {S : Store} {r : TransitionRecord} (hS : Projected S r.stateKey)
    (hr : r ∈ S.log) : ∃ k, r.version = k + 1 ∧ (S.entries r.stateKey)[k]? = some r := by
  have hmem : r ∈ S.entries r.stateKey := List.mem_filter.mpr ⟨hr, beq_self_eq_true _⟩
  obtain ⟨k, hk⟩ := List.getElem?_of_mem hmem
  obtain ⟨hlt, -⟩ := List.getElem?_eq_some_iff.mp hk
  have h := congrArg (·[k]?) hS.versions
  simp only [List.getElem?_map, hk, Option.map_some] at h
  rw [List.getElem?_range' hlt] at h
  have := Option.some.inj h
  exact ⟨k, by omega, hk⟩

/-- The row of a record is not behind it, and at its version it is in its state. -/
theorem Projected.row_of_mem {S : Store} {r : TransitionRecord} (hS : Projected S r.stateKey)
    (hr : r ∈ S.log) : ∃ row, S.entityStates[r.stateKey]? = some row ∧ r.version ≤ row.version ∧
      (row.version = r.version → row.currentState = r.toState) := by
  obtain ⟨k, hver, hk⟩ := hS.index_of_mem hr
  obtain ⟨hlt, -⟩ := List.getElem?_eq_some_iff.mp hk
  obtain ⟨row, hrow⟩ := hS.exists_iff.mpr (List.ne_nil_of_mem (List.mem_of_getElem? hk))
  obtain ⟨hlen, hlast⟩ := hS.row row hrow
  refine ⟨row, hrow, by omega, fun heq => ?_⟩
  rw [List.getLast?_eq_getElem?] at hlast
  have hend : (S.entries r.stateKey).length - 1 = k := by omega
  rw [hend, hk] at hlast
  exact (Option.some.inj hlast).symm

/-- **An answer is given for good.** If a call has answered `Ok` at one moment, then at every later
moment, whatever crashes come between, the log has the record the answer is about, the entity's row
is at its version or later, and at its version in its state. All answers under one idempotency key,
in whichever process they were given, are about this one record. -/
theorem acknowledged_for_good {m n : ℕ} {wm wn : World} (hmn : m ≤ n)
    (hm : (durable cfg).stateAt (World.initial Store.empty guards) ls m = some wm)
    (hn : (durable cfg).stateAt (World.initial Store.empty guards) ls n = some wn) {i : ℕ} {c : Call}
    {res : TransitionResult} (hcall : (wm.calls i).call = some c)
    (hout : (wm.calls i).outcome = some (.ok res)) :
    ∃ r ∈ wn.store.log, r.toResult = res ∧
      (∃ row, wn.store.entityStates[r.stateKey]? = some row ∧ res.version ≤ row.version ∧
        (row.version = res.version → row.currentState = res.toState)) ∧
      ∀ key, c.idempotencyKey = some key →
        ∀ r' ∈ wn.store.log, r'.idempotencyKey = some key ↔ r' = r := by
  obtain ⟨r, hr, hres, hkey, -⟩ :=
    (answered_of_durable hm i c res hcall hout).grow (log_grows_of_durable hmn hm hn)
  have hinv := keyInvariant_of_durable hn
  refine ⟨r, hr, hres, ?_, fun key hc r' hr' => ⟨fun hr'key => ?_, fun heq => heq ▸ hkey key hc⟩⟩
  · obtain ⟨row, hrow, hle, hstate⟩ :=
      ((projectionInvariant_of_durable hn).projected r.stateKey).row_of_mem hr
    rw [← hres]
    exact ⟨row, hrow, hle, hstate⟩
  · -- a key is bound to one place of the log
    obtain ⟨s, hs⟩ := mem_log.mp hr
    obtain ⟨s', hs'⟩ := mem_log.mp hr'
    obtain rfl : s' = s := Option.some.inj
      ((hinv.keys s' r' key hs' hr'key).symm.trans (hinv.keys s r key hs (hkey key hc)))
    exact Option.some.inj (hs'.symm.trans hs)

end Runs

/-- The payment is committed, the process stops before it answers, and the client asks again. -/
def crashedPayment : List (Label ⊕ GuardRegistry) :=
  (Label.defineMachine orderMachine none :: Label.invoke 0 (payOrder 0 "o1" (some "k")) ::
      steps 0 7).map .inl
    ++ [.inr ∅] ++ (Label.invoke 0 (payOrder 1 "o1" (some "k")) :: steps 0 4).map .inl

theorem restart_transparent_crashedPayment :
    ∃ w, (durable oneStripe).exec (World.initial Store.empty ∅) crashedPayment = some w ∧
      w.store.log.length = 1 ∧ EngineReachable w.store := by
  have heval : ((durable oneStripe).exec (World.initial Store.empty ∅) crashedPayment).map
      (fun w => w.store.log.length) = some 1 := by decide
  obtain ⟨w, hrun, hlen⟩ := Option.map_eq_some_iff.mp heval
  exact ⟨w, hrun, hlen, (restart_transparent hrun).2.1⟩

theorem acknowledged_for_good_crashedPayment :
    ∃ w res, (durable oneStripe).exec (World.initial Store.empty ∅) crashedPayment = some w ∧
      (w.calls 0).outcome = some (.ok res) ∧ res.transitionId = (Draws.ofNat 0).recordId.text ∧
      ∃ r ∈ w.store.log, r.toResult = res ∧
        ∀ r' ∈ w.store.log, r'.idempotencyKey = some "k" ↔ r' = r := by
  have heval : ((durable oneStripe).exec (World.initial Store.empty ∅) crashedPayment).map
      (fun w => ((w.calls 0).call.map Call.idempotencyKey,
        (w.calls 0).outcome.map fun res => res.toOption.map TransitionResult.transitionId))
      = some (some (some "k"), some (some (Draws.ofNat 0).recordId.text)) := by decide
  obtain ⟨w, hrun, hw⟩ := Option.map_eq_some_iff.mp heval
  obtain ⟨hcall, hout⟩ := Prod.mk.inj hw
  obtain ⟨c, hc, hkey⟩ := Option.map_eq_some_iff.mp hcall
  obtain ⟨out, hout, hid⟩ := Option.map_eq_some_iff.mp hout
  cases out with
  | error e => exact nomatch hid
  | ok res =>
    have hend : (durable oneStripe).stateAt (World.initial Store.empty ∅) crashedPayment
        crashedPayment.length = some w := (System.stateAt_length _ _).trans hrun
    obtain ⟨r, hr, hres, -, honly⟩ := acknowledged_for_good le_rfl hend hend hc hout
    exact ⟨w, res, hrun, hout, Option.some.inj hid, r, hr, hres, honly "k" hkey⟩

end StateMaster
