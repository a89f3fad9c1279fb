import StateMaster.Engine.Restart

/-!
# Compare and set

A caller of `Engine::transition` may name the version it expects the entity to have. Two such
callers race: each reads the row, each finds the version it expects, and only then one of them
commits. What is promised is a compare-and-set over the whole life of the database: of all the calls
that ever name one version of one entity, at most one is answered `Ok`, in whichever process it ran
and whatever crashed in between, and what it changed is the state that version had.

The argument is about the log alone. An answer without an idempotency key is about the call's own
record (`Recorded`), the version expected fixes that record's version, and a key has one record of
each version (`Projected.eq_of_version`). The locks play no part.

* `invoked_of_durable` — a call that is under way was asked for in this very run;
* `compare_and_set` — the statement for every run with crashes.
-/

open Framework Framework.Text

namespace StateMaster

/-- A key has one record of each version. -/
theorem Projected.eq_of_version {S : Store} {r r' : TransitionRecord}
    (hS : Projected S r.stateKey) (hr : r ∈ S.log) (hr' : r' ∈ S.log)
    (hkey : r'.stateKey = r.stateKey) (hver : r'.version = r.version) : r' = r := by
  obtain ⟨k, hk, hget⟩ := hS.index_of_mem hr
  obtain ⟨k', hk', hget'⟩ := Projected.index_of_mem (hkey ▸ hS) hr'
  rw [hkey] at hget'
  obtain rfl : k' = k := by omega
  exact Option.some.inj (hget'.symm.trans hget)

/-- The record after a version starts in the state that version had. -/
theorem Projected.fromState_of_version {S : Store} {r r' : TransitionRecord}
    (hS : Projected S r.stateKey) (hr : r ∈ S.log) (hr' : r' ∈ S.log)
    (hkey : r'.stateKey = r.stateKey) (hver : r.version = r'.version + 1) :
    r.fromState = r'.toState := by
  obtain ⟨k, hk, hget⟩ := hS.index_of_mem hr
  obtain ⟨k', hk', hget'⟩ := Projected.index_of_mem (hkey ▸ hS) hr'
  rw [hkey] at hget'
  obtain rfl : k = k' + 1 := by omega
  -- they are neighbours in the chain of the key
  obtain ⟨hlt, hat⟩ := List.getElem?_eq_some_iff.mp hget
  obtain ⟨hlt', hat'⟩ := List.getElem?_eq_some_iff.mp hget'
  have hchain := List.isChain_iff_getElem.mp hS.chain k' hlt
  rwa [hat, hat'] at hchain

/-- Calls that draw by the moment they are asked are fresh. -/
theorem FreshDraws.of_ofNat {ls : List (Label ⊕ GuardRegistry)}
    (h : ∀ n i c, InvokesAt ls n i c → c.draws = Draws.ofNat n) : FreshDraws ls where
  records m n i j c d hc hd heq := by
    rw [h m i c hc, h n j d hd] at heq
    exact (Uuid.ofPair_inj heq).1
  effects m n i j c d k k' hc hd heq := by
    rw [h m i c hc, h n j d hd] at heq
    obtain ⟨hmn, hk⟩ := Uuid.ofPair_inj heq
    exact ⟨hmn, Nat.succ.inj hk⟩

section Runs

variable {cfg : Config} {guards : GuardRegistry} {ls : List (Label ⊕ GuardRegistry)} {w : World}

theorem InvokesAt.of_take {m n i : ℕ} {c : Call} (h : InvokesAt (ls.take m) n i c) :
    InvokesAt ls n i c := by
  have hlt : n < (ls.take m).length := (List.getElem?_eq_some_iff.mp h).1
  rw [List.length_take, Nat.lt_min] at hlt
  rwa [InvokesAt, List.getElem?_take_of_lt hlt.1] at h

/-- A call that is under way was asked for in this run. -/
theorem invoked_of_durable
    (hrun : (durable cfg).exec (World.initial Store.empty guards) ls = some w) {i : ℕ} {c : Call}
    (hcall : (w.calls i).call = some c) : ∃ n, InvokesAt ls n i c := by
  refine System.exec_induction_labels
    (I := fun ls w => ∀ i c, (w.calls i).call = some c → ∃ n, InvokesAt ls n i c) ?_ ?_ hrun i c hcall
  · intro i c hc
    exact absurd hc (by simp [World.initial, Pc.call])
  · intro ls w l w' _ ih hstep i c hc
    -- an earlier invocation stays where it is
    have hold : (w.calls i).call = some c → ∃ n, InvokesAt (ls ++ [l]) n i c := by
      intro hc'
      obtain ⟨n, hn⟩ := ih i c hc'
      have hlt : n < ls.length := (List.getElem?_eq_some_iff.mp hn).1
      exact ⟨n, by rw [InvokesAt, List.getElem?_append_left hlt]; exact hn⟩
    cases l with
    | inr boot =>
      -- nobody is under way after a restart
      obtain rfl := Option.some.inj hstep
      exact absurd hc (by simp [World.restart, World.initial, Pc.call])
    | inl l =>
      rcases (step_sound hstep).call_cases with ⟨j, c', rfl, -, rfl⟩ | ⟨-, hsame⟩
      · by_cases hij : i = j
        · subst hij
          rw [World.setPc_calls_self] at hc
          obtain rfl := Option.some.inj hc
          exact ⟨ls.length, List.getElem?_concat_length⟩
        · rw [World.setPc_calls_of_ne w _ hij] at hc
          exact hold hc
      · rw [hsame i] at hc
        exact hold hc

/-- **Compare and set.** Of all the calls that name one version of one entity, at most one is
answered `Ok`, across whatever crashes. It moves the entity from the state that version had, and to
the next version. -/
theorem compare_and_set (hfresh : FreshDraws ls)
    (hrun : (durable cfg).exec (World.initial Store.empty guards) ls = some w) {m : ℕ} {wm : World}
    (hm : (durable cfg).stateAt (World.initial Store.empty guards) ls m = some wm) {i : ℕ} {c : Call}
    {res : TransitionResult} (hcall : (wm.calls i).call = some c)
    (hout : (wm.calls i).outcome = some (.ok res)) (hnokey : c.idempotencyKey = none) {v : ℕ}
    (hv : c.expectedVersion = some v) :
    res.version = v + 1 ∧
    (∀ r ∈ w.store.log, r.stateKey = c.stateKey → r.version = v → res.fromState = r.toState) ∧
    ∀ n wn j d res', (durable cfg).stateAt (World.initial Store.empty guards) ls n = some wn →
      (wn.calls j).call = some d → (wn.calls j).outcome = some (.ok res') →
      d.stateKey = c.stateKey → d.idempotencyKey = none → d.expectedVersion = some v →
      res' = res ∧ ∃ k, InvokesAt ls k i c ∧ InvokesAt ls k j d := by
  have hproj := (projectionInvariant_of_durable hrun).projected
  obtain ⟨r, hr, hres, -, hown⟩ :=
    (answered_of_durable hm i c res hcall hout).grow (log_prefix_of_durable hrun hm)
  have hown := hown hnokey
  refine ⟨?_, fun r₀ hr₀ hkey₀ hver₀ => ?_, ?_⟩
  · rw [← hres]
    exact hown.version v hv
  · rw [← hres]
    refine (hproj r.stateKey).fromState_of_version hr hr₀ (hkey₀.trans hown.key.symm) ?_
    rw [hown.version v hv, hver₀]
  · intro n wn j d res' hn hcall' hout' hkey' hnokey' hv'
    obtain ⟨r', hr', hres', -, hown'⟩ :=
      (answered_of_durable hn j d res' hcall' hout').grow (log_prefix_of_durable hrun hn)
    have hown' := hown' hnokey'
    -- both answers are about the one record of version v + 1
    have hsame : r' = r := by
      refine (hproj r.stateKey).eq_of_version hr hr' ?_ ?_
      · rw [hown'.key, hown.key, hkey']
      · rw [hown'.version v hv', hown.version v hv]
    subst hsame
    -- and its id was drawn once
    obtain ⟨k, hk⟩ := invoked_of_durable hm hcall
    obtain ⟨k', hk'⟩ := invoked_of_durable hn hcall'
    obtain rfl : k = k' :=
      hfresh.records k k' i j c d hk.of_take hk'.of_take (hown.id.symm.trans hown'.id)
    exact ⟨hres'.symm.trans hres, k, hk.of_take, hk'.of_take⟩

end Runs

/-- Pay for an order that has not been touched yet. -/
def payUntouched (n : ℕ) : Call := { payOrder n "o1" none with expectedVersion := some 0 }

/-- Two payments expect the untouched order, and both have read it when the first one commits. The
process stops, and the second client asks once more. -/
def racedPayment : List (Label ⊕ GuardRegistry) :=
  (Label.defineMachine orderMachine none :: Label.invoke 0 (payUntouched 1) ::
      Label.invoke 1 (payUntouched 2) :: steps 0 5 ++ steps 1 5 ++ steps 0 2 ++ steps 1 2).map .inl
    ++ [.inr ∅] ++ (Label.invoke 0 (payUntouched 18) :: steps 0 6).map .inl

theorem racedPayment_draws {n i : ℕ} {c : Call} (h : InvokesAt racedPayment n i c) :
    c.draws = Draws.ofNat n := by
  have hlt : n < 25 := (List.getElem?_eq_some_iff.mp h).1
  unfold InvokesAt at h
  interval_cases n <;> simp [racedPayment, steps] at h
  all_goals
    obtain ⟨-, rfl⟩ := h
    rfl

theorem compare_and_set_racedPayment :
    ∃ w wm res, (durable lockFree).exec (World.initial Store.empty ∅) racedPayment = some w ∧
      (durable lockFree).stateAt (World.initial Store.empty ∅) racedPayment 17 = some wm ∧
      (wm.calls 0).outcome = some (.ok res) ∧ res.version = 1 ∧
      ∀ n wn j res', (durable lockFree).stateAt (World.initial Store.empty ∅) racedPayment n = some wn →
        (wn.calls j).call = some (payUntouched 2) → (wn.calls j).outcome ≠ some (.ok res') := by
  have heval : ((durable lockFree).exec (World.initial Store.empty ∅) racedPayment).map
      (fun w => w.store.log.length) = some 1 := by decide
  have hmid : ((durable lockFree).stateAt (World.initial Store.empty ∅) racedPayment 17).map
      (fun w => (w.calls 0).outcome.map fun res => res.toOption.map TransitionResult.version)
      = some (some (some 1)) := by decide
  obtain ⟨w, hrun, -⟩ := Option.map_eq_some_iff.mp heval
  obtain ⟨wm, hm, hwm⟩ := Option.map_eq_some_iff.mp hmid
  have hcall : (wm.calls 0).call = some (payUntouched 1) := by
    have h : ((durable lockFree).stateAt (World.initial Store.empty ∅) racedPayment 17).map
        (fun w => (w.calls 0).call) = some (some (payUntouched 1)) := rfl
    rw [hm] at h
    exact Option.some.inj h
  obtain ⟨out, hout, hver⟩ := Option.map_eq_some_iff.mp hwm
  cases out with
  | error e => exact absurd hver (by simp [Except.toOption])
  | ok res =>
    obtain ⟨hnext, -, hone⟩ := compare_and_set (FreshDraws.of_ofNat fun _ _ _ => racedPayment_draws) hrun
      hm hcall hout rfl rfl
    refine ⟨w, wm, res, hrun, hm, hout, hnext, fun n wn j res' hn hcall' hout' => ?_⟩
    -- the winner and the loser would be one request
    obtain ⟨-, k, hk, hk'⟩ := hone n wn j _ res' hn hcall' hout' rfl rfl rfl
    have h := racedPayment_draws hk
    have h' := racedPayment_draws hk'
    exact absurd (congrArg Draws.now (h.trans h'.symm)) (by decide)

end StateMaster
