import StateMaster.Engine.Outbox
import StateMaster.Engine.Redefinition

/-!
# The outbox matches the log

The effects of a commit are computed from the definition its call read, written under fresh ids into
two tables, and found again by a scan of the index. Afterwards the dispatcher rewrites their
statuses.

* `LinkedInvariant` — ids tell the records of the log apart, and every stored effect belongs to one
  of them;
* `Decided.payloads` — what a commit stores is what the definition it was decided by emits;
* `payloads_settled`, `effect_settled` — nothing but a status changes afterwards;
* `outbox_matches_log` — the four together.
-/

open Framework Framework.Text

namespace StateMaster

/-- Every stored effect belongs to one logged record. -/
structure LinkedInvariant (w : World) : Prop where
  ids : (w.store.log.map TransitionRecord.id).Nodup
  logged : ∀ (id : String) (e : Effect), w.store.effects[id]? = some e →
    ∃ r ∈ w.store.log, r.id = e.transitionId

/-- One effect for each rule of the event, with payload null where the rule has none. -/
theorem Engine.buildPlan_payloads (c : Call) (definition : MachineDefinition) (current : Current)
    (rule : TransitionRule) :
    (Engine.buildPlan c definition current rule).effects.map Effect.toPayload
      = (definition.effects.filter fun er => er.onEvent == c.event).map
          fun er => ⟨er.effect, er.payload.getD .null⟩ := by
  refine List.ext_getElem (by simp [Engine.buildPlan, FsmPlanner.computeEffects]) fun n _ _ => ?_
  simp [Engine.buildPlan, FsmPlanner.computeEffects, Effect.new, Effect.toPayload]

section Runs

variable {cfg : Config} {guards : GuardRegistry} {ls : List Label} {w : World}

theorem LinkedInvariant.step (hw : LinkedInvariant w) (hfresh : FreshIds ls)
    (hrun : (engine cfg).exec (World.initial Store.empty guards) ls = some w) {l : Label}
    {w' : World} (hstep : Step cfg w l w') : LinkedInvariant w' := by
  obtain ⟨hkeeps, heff, -⟩ | ⟨eid, effect, status, -, heffect, hS⟩ |
    ⟨i, c, plan, hpc, -, hcommit⟩ := hstep.outbox_cases
  · refine ⟨by rw [hkeeps.log]; exact hw.ids, ?_⟩
    rw [hkeeps.log, heff]
    exact hw.logged
  · refine ⟨by rw [hS, (Store.marked_keepsLog status).log]; exact hw.ids, ?_⟩
    intro id e he
    rw [hS] at he
    obtain ⟨e₀, he₀, -, htxn⟩ := Store.get_marked heffect he
    rw [hS, (Store.marked_keepsLog status).log, ← htxn]
    exact hw.logged id e₀ he₀
  · obtain ⟨hnew, hne⟩ := (originInvariant_of_run hfresh hrun).newEffects hfresh hrun hpc
    have hplan := planFact_of_run hrun hpc
    have hlog := hcommit.appends.log (keyInvariant_of_run hrun).log
    refine ⟨?_, fun id e he => ?_⟩
    · -- The new record drew an id that no logged one has.
      rw [hlog, List.map_append, List.nodup_append]
      refine ⟨hw.ids, List.nodup_singleton _, ?_⟩
      intro id hid id' hid' heq
      obtain ⟨r, hr, rfl⟩ := List.mem_map.mp hid
      obtain rfl := List.mem_singleton.mp hid'
      exact hne r hr heq
    · rw [hlog]
      obtain ⟨hmem, -⟩ | he := (hcommit.get_effects hnew).mp he
      · -- the effects of a plan carry the id of its record
        refine ⟨_, List.mem_append_right _ (List.mem_singleton_self _), ?_⟩
        rw [hplan.ids.2.2 e hmem]
        exact hplan.ids.1
      · obtain ⟨r, hr, hid⟩ := hw.logged id e he
        exact ⟨r, List.mem_append_left _ hr, hid⟩

theorem linkedInvariant_of_run (hfresh : FreshIds ls)
    (hrun : (engine cfg).exec (World.initial Store.empty guards) ls = some w) :
    LinkedInvariant w := by
  refine System.exec_induction_labels (I := fun ls w => FreshIds ls → LinkedInvariant w)
    (fun _ => ⟨?_, ?_⟩) ?_ hrun hfresh
  · exact List.nodup_nil
  · intro id e he
    change (∅ : Table String Effect)[id]? = some e at he
    exact absurd he (by simp)
  · intro ls w l w' hrun ih hstep hfresh
    have hbefore := hfresh.mono (List.subset_append_left ls [l])
    exact (ih hbefore).step hbefore hrun (step_sound hstep)

/-! ### The commit of a record -/

/-- A step of a planned call that changes the log is its commit. -/
theorem Decided.commit {w₀ : World} {r : TransitionRecord} {i : ℕ} {c : Call}
    {definition : MachineDefinition} {current : Current} {rule : TransitionRule} {b t : ℕ}
    (h : Decided cfg w₀ ls r i c definition current rule b t) :
    ∃ wt w₁, (engine cfg).stateAt w₀ ls t = some wt ∧
      (engine cfg).stateAt w₀ ls (t + 1) = some w₁ ∧
      wt.calls i = .planned c (Engine.buildPlan c definition current rule) ∧
      Commit wt.store (Engine.buildPlan c definition current rule).record
        (Engine.buildPlan c definition current rule).newState
        (Engine.buildPlan c definition current rule).effects w₁.store := by
  obtain ⟨wt, hwt, hpc⟩ := h.planned
  obtain ⟨w₁, hw₁, hafter⟩ := h.committed.after
  obtain ⟨wt', hwt', hbefore⟩ := h.committed.before
  obtain rfl := Option.some.inj (hwt.symm.trans hwt')
  refine ⟨wt, w₁, hwt, hw₁, hpc, ?_⟩
  have hstep : wt.callStep cfg i = some w₁ := System.step_of_stateAt h.committed.step hwt hw₁
  simp only [World.callStep, hpc] at hstep
  cases hcommit : Engine.commitPlan wt.store c (Engine.buildPlan c definition current rule) with
  | ok q =>
    rw [hcommit] at hstep
    obtain rfl := Option.some.inj hstep
    exact (Engine.commitPlan_eq_ok hcommit).2.1
  | error e =>
    -- The record would have been there before.
    rw [hcommit] at hstep
    obtain rfl := Option.some.inj hstep
    exact absurd (hbefore.symm.trans hafter) (by simp)

/-- **What a commit stores is what the definition it was decided by emits.** -/
theorem Decided.payloads {r : TransitionRecord} {i : ℕ} {c : Call}
    {definition : MachineDefinition} {current : Current} {rule : TransitionRule} {b t : ℕ}
    (h : Decided cfg (World.initial Store.empty guards) ls r i c definition current rule b t)
    (hfresh : FreshIds ls) :
    ∃ w₁, (engine cfg).stateAt (World.initial Store.empty guards) ls (t + 1) = some w₁ ∧
      r ∈ w₁.store.log ∧ (w₁.store.payloads r.id).Perm
        ((definition.effects.filter fun er => er.onEvent == r.event).map
          fun er => ⟨er.effect, er.payload.getD .null⟩) := by
  obtain ⟨wt, w₁, hwt, hw₁, hpc, hcommit⟩ := h.commit
  have hfresh' := hfresh.mono (List.take_subset t ls)
  have horigin := originInvariant_of_run hfresh' hwt
  obtain ⟨hnew, hne⟩ := horigin.newEffects hfresh' hwt hpc
  have hids := (planFact_of_run hwt hpc).ids
  have hrid : r.id = (Engine.buildPlan c definition current rule).record.id := by rw [h.record]
  have hevent : c.event = r.event := by rw [h.record]; rfl
  obtain ⟨w₁', hw₁', hget⟩ := h.committed.after
  obtain rfl := Option.some.inj (hw₁.symm.trans hw₁')
  refine ⟨w₁, hw₁, mem_log.mpr ⟨_, hget⟩, ?_⟩
  rw [← hevent, ← Engine.buildPlan_payloads c definition current rule]
  refine hcommit.payloads_self horigin.outbox hnew (fun e he => ?_) fun id e he heq => ?_
  · rw [hrid, hids.2.2 e he]
    exact hids.1.symm
  · -- An effect stored before belongs to a record logged before.
    obtain ⟨r', hr', hid'⟩ := (linkedInvariant_of_run hfresh' hwt).logged id e he
    exact hne r' hr' (hid'.trans (heq.trans hrid))

/-! ### Afterwards -/

/-- What a logged transition has stored for its subscribers stays as it is. -/
theorem payloads_settled (hfresh : FreshIds ls)
    (hrun : (engine cfg).exec (World.initial Store.empty guards) ls = some w) {m : ℕ} {w₁ : World}
    (h₁ : (engine cfg).stateAt (World.initial Store.empty guards) ls m = some w₁)
    (hm : m ≤ ls.length) {r : TransitionRecord} (hr : r ∈ w₁.store.log) :
    w.store.payloads r.id = w₁.store.payloads r.id := by
  rw [← System.stateAt_length] at hrun
  refine (System.stateAt_induction
    (I := fun t => r ∈ t.store.log ∧ t.store.payloads r.id = w₁.store.payloads r.id) hm h₁ hrun
    ⟨hr, rfl⟩ ?_).2
  intro k l t t' _ _ _ hk hstep ⟨hmem, hpay⟩
  have hst := step_sound hstep
  have hfresh' := hfresh.mono (List.take_subset k ls)
  refine ⟨(hst.log_grows (keyInvariant_of_run hk).log).subset hmem, ?_⟩
  rw [← hpay]
  exact (originInvariant_of_run hfresh' hk).payloads_step hfresh' hk hst hmem

/-- A step changes at most the status of a stored effect. -/
theorem Step.effect_settled (hfresh : FreshIds ls)
    (hrun : (engine cfg).exec (World.initial Store.empty guards) ls = some w) {l : Label}
    {w' : World} (hstep : Step cfg w l w') {id : String} {e : Effect}
    (he : ∃ status, w.store.effects[id]? = some { e with status }) :
    ∃ status, w'.store.effects[id]? = some { e with status } := by
  obtain ⟨status, hget⟩ := he
  obtain ⟨-, heff, -⟩ | ⟨eid, effect, status', -, heffect, hS⟩ | ⟨i, c, plan, hpc, -, hcommit⟩ :=
    hstep.outbox_cases
  · exact ⟨status, by rw [heff]; exact hget⟩
  · obtain ⟨status'', hmarked⟩ := Store.marked_get heffect status' hget
    exact ⟨status'', by rw [hS]; exact hmarked⟩
  · -- the ids of the effects that come are new
    obtain ⟨hnew, -⟩ := (originInvariant_of_run hfresh hrun).newEffects hfresh hrun hpc
    exact ⟨status, (hcommit.get_effects hnew).mpr (Or.inr hget)⟩

/-- After its insertion only the status of an effect changes. -/
theorem effect_settled (hfresh : FreshIds ls)
    (hrun : (engine cfg).exec (World.initial Store.empty guards) ls = some w) {m : ℕ} {w₁ : World}
    (h₁ : (engine cfg).stateAt (World.initial Store.empty guards) ls m = some w₁)
    (hm : m ≤ ls.length) {id : String} {e : Effect} (he : w₁.store.effects[id]? = some e) :
    ∃ status, w.store.effects[id]? = some { e with status } := by
  rw [← System.stateAt_length] at hrun
  refine System.stateAt_induction
    (I := fun t => ∃ status, t.store.effects[id]? = some { e with status }) hm h₁ hrun
    ⟨e.status, he⟩ ?_
  intro k l t t' _ _ _ hk hstep hget
  exact (step_sound hstep).effect_settled (hfresh.mono (List.take_subset k ls)) hk hget

/-- **The outbox matches the log.** In every run whose generated ids differ, and in every store it
reaches:

* the effects returned for a logged record are, as a multiset of names and payloads, one for each
  rule of its event in the definition its call read;
* every stored effect is returned for exactly one logged record;
* the index has the entry from a transition and an effect to this effect exactly if the effect is
  stored with this transition, and no other entries;
* an effect stored at any moment is there ever after, with at most another status. -/
theorem outbox_matches_log (hfresh : FreshIds ls)
    (hrun : (engine cfg).exec (World.initial Store.empty guards) ls = some w) :
    (∀ r ∈ w.store.log, ∃ i c definition b t, b < t ∧
      ReadAt cfg (World.initial Store.empty guards) ls i c definition b ∧
      CommittedAt cfg (World.initial Store.empty guards) ls i r t ∧ c.machine = r.machine ∧
      ((RedbEngine.getEffectsForTransition w.store r.id).map Effect.toPayload).Perm
        ((definition.effects.filter fun er => er.onEvent == r.event).map
          fun er => ⟨er.effect, er.payload.getD .null⟩)) ∧
    (∀ (id : String) (e : Effect), w.store.effects[id]? = some e →
      ∃! r, r ∈ w.store.log ∧ e ∈ RedbEngine.getEffectsForTransition w.store r.id) ∧
    (∀ t id : String, w.store.effectsByTxn[effectByTxnKey t id]? = some id ↔
      ∃ e : Effect, w.store.effects[id]? = some e ∧ e.transitionId = t) ∧
    (∀ key id : String, w.store.effectsByTxn[key]? = some id → ∃ t, key = effectByTxnKey t id) ∧
    (∀ m w₁ (id : String) (e : Effect), m ≤ ls.length →
      (engine cfg).stateAt (World.initial Store.empty guards) ls m = some w₁ →
      w₁.store.effects[id]? = some e →
        ∃ status, w.store.effects[id]? = some { e with status }) := by
  have horigin := originInvariant_of_run hfresh hrun
  have hlinked := linkedInvariant_of_run hfresh hrun
  have hscan : ∀ r ∈ w.store.log, (RedbEngine.getEffectsForTransition w.store r.id).Perm
      (w.store.effects.values.filter fun e => e.transitionId == r.id) :=
    fun r hr => horigin.outbox.getEffectsForTransition_perm (horigin.nulFree hr)
  have hmem : ∀ r ∈ w.store.log, ∀ e : Effect,
      e ∈ RedbEngine.getEffectsForTransition w.store r.id ↔
        (∃ id : String, w.store.effects[id]? = some e) ∧ e.transitionId = r.id := by
    intro r hr e
    rw [(hscan r hr).mem_iff, List.mem_filter, mem_effects_values, beq_iff_eq]
  refine ⟨?_, ?_, ?_, ?_, ?_⟩
  · -- stored by the commit as the definition says, and not touched since
    intro r hr
    obtain ⟨i, c, definition, current, rule, b, t, hdec⟩ := decided_of_run hrun hr
    refine ⟨i, c, definition, b, t, hdec.lt, hdec.read, hdec.committed, by rw [hdec.record]; rfl, ?_⟩
    obtain ⟨w₁, hw₁, hlogged, hpay⟩ := hdec.payloads hfresh
    rw [← payloads_settled hfresh hrun hw₁ (lt_length_of_label hdec.committed.step) hlogged] at hpay
    exact ((hscan r hr).map _).trans hpay
  · -- the record of its transition, and ids tell records apart
    intro id e he
    obtain ⟨r, hr, hid⟩ := hlinked.logged id e he
    refine ⟨r, ⟨hr, (hmem r hr e).mpr ⟨⟨id, he⟩, hid.symm⟩⟩, ?_⟩
    rintro r' ⟨hr', he'⟩
    exact List.inj_on_of_nodup_map hlinked.ids hr' hr
      (((hmem r' hr' e).mp he').2.symm.trans hid.symm)
  · intro t id
    rw [horigin.outbox.index]
    refine exists_congr fun e => and_congr_right fun _ => ?_
    rw [effectByTxnKey_left_inj, eq_comm]
  · intro key id hkey
    obtain ⟨e, -, hkey⟩ := (horigin.outbox.index key id).mp hkey
    exact ⟨_, hkey⟩
  · intro m w₁ id e hm h₁ he
    exact effect_settled hfresh hrun h₁ hm he

end Runs

/-- An order is paid, and its receipt marked published. -/
def publishedPayment : List Label :=
  [Label.defineMachine orderMachine none, Label.invoke 0 (payOrder 0 "o1" none)] ++ steps 0 8
  ++ [Label.markEffect ((Draws.ofNat 0).effectId 0).text .published none]

theorem outbox_matches_log_publishedPayment :
    ∃ (w : World) (id : String) (e : Effect),
      (engine oneStripe).exec (World.initial Store.empty ∅) publishedPayment = some w ∧
      w.store.effects[id]? = some e ∧ e.status = .published ∧
      ∃! r, r ∈ w.store.log ∧ e ∈ RedbEngine.getEffectsForTransition w.store r.id := by
  have heval : ((engine oneStripe).exec (World.initial Store.empty ∅) publishedPayment).map
      (fun w => w.store.effects[((Draws.ofNat 0).effectId 0).text]?.map Effect.status)
      = some (some .published) := by decide
  obtain ⟨w, hrun, hw⟩ := Option.map_eq_some_iff.mp heval
  obtain ⟨e, he, hstatus⟩ := Option.map_eq_some_iff.mp hw
  have hdraws : ∀ i c, Label.invoke i c ∈ publishedPayment → c.draws = Draws.ofNat i := by
    intro i c hmem
    obtain ⟨rfl, rfl⟩ : i = 0 ∧ c = payOrder 0 "o1" none := by
      simpa [publishedPayment, steps] using hmem
    rfl
  have hmatch := outbox_matches_log (FreshIds.of_ofNat hdraws) hrun
  exact ⟨w, _, e, hrun, he, hstatus, hmatch.2.1 _ e he⟩

end StateMaster
