import StateMaster.Engine.Effects
import StateMaster.Engine.Outcome
import StateMaster.Engine.ReadFaults
import StateMaster.Storage.Drain
import Mathlib.Logic.Equiv.Basic

/-!
# The order of the effects of a transition

A commit inserts one effect for each matching rule, in the order of the rules. They are found again
through an index whose keys end in the ids of the effects, so they come back in the order of their ids
(`OutboxInvariant.scan_ordered`), and the ids are drawn at random.

* `OutboxInvariant.getEffectsForTransition_eq` — the scan, as a piece of the table of effects;
* `Decided.written_perm` — whatever happened since, these are the effects the commit inserted;
* `effects_in_order_iff` — they come back in the order of insertion exactly if the ids were drawn in
  increasing order.
-/

open Framework Framework.Text

namespace StateMaster

/-! ### The order of the scan -/

/-- The order in which effects are read. -/
def Effect.ById (e e' : Effect) : Prop := e.id < e'.id

instance : Std.Asymm Effect.ById := ⟨fun _ _ => String.lt_asymm⟩

section Scan

variable {S : Store} {transitionId : TransitionId}

theorem OutboxInvariant.values_ordered (hS : OutboxInvariant S) :
    S.effects.values.Pairwise Effect.ById :=
  EffectsKeyed.values_ordered hS.keyed

/-- Under one transition, index keys stand in the order of the effect ids. -/
theorem effectByTxnKey_lt {t e e' : String} (h : effectByTxnKey t e < effectByTxnKey t e') :
    e < e' := by
  rw [String.lt_iff_toList_lt, effectByTxnKey_toList, effectByTxnKey_toList,
    List.append_cons _ _ e.toList, List.append_cons _ _ e'.toList] at h
  exact String.lt_iff_toList_lt.mpr (lt_of_append_lt h)

/-- **The scan reads effects in the order of their ids.** -/
theorem OutboxInvariant.scan_ordered (hS : OutboxInvariant S) (hid : NulFree transitionId) :
    (RedbEngine.getEffectsForTransition S transitionId).Pairwise Effect.ById := by
  unfold RedbEngine.getEffectsForTransition
  simp only [Table.prefixScan_eq]
  refine List.pairwise_filterMap.mpr
    (((Table.toList_ordered S.effectsByTxn).filter _).imp_of_mem ?_)
  -- an entry of the scan has the key of its effect under this transition
  have hkey : ∀ p ∈ S.effectsByTxn.toList.filter
      (fun p => startsWith p.1 (effectByTxnPrefix transitionId)),
      ∀ e : Effect, S.effects[p.2]? = some e → p.1 = effectByTxnKey transitionId e.id := by
    intro p hp e he
    obtain ⟨hp, hpre⟩ := List.mem_filter.mp hp
    obtain ⟨e', he', hkey⟩ := (hS.index p.1 p.2).mp (S.effectsByTxn.mem_toList.mp hp)
    obtain rfl := Option.some.inj (he.symm.trans he')
    rw [hkey] at hpre ⊢
    rw [(startsWith_effectByTxnKey_iff hid (hS.nulFree p.2 e he)).mp hpre, hS.keyed p.2 e he]
  intro a b ha hb hab e he e' he'
  have hlt : a.1 < b.1 := compareOfLessAndEq_eq_lt.mp hab
  rw [hkey a ha e he, hkey b hb e' he'] at hlt
  exact effectByTxnKey_lt hlt

/-- The scan is a piece of the table of effects, in its order. -/
theorem OutboxInvariant.getEffectsForTransition_eq (hS : OutboxInvariant S)
    (hid : NulFree transitionId) :
    RedbEngine.getEffectsForTransition S transitionId
      = S.effects.values.filter fun e => e.transitionId == transitionId :=
  (hS.scan_ordered hid).eq_of_mem_iff (hS.values_ordered.filter _) fun _ =>
    (hS.getEffectsForTransition_perm hid).mem_iff

theorem OutboxInvariant.payloads_eq (hS : OutboxInvariant S) (hid : NulFree transitionId) :
    (RedbEngine.getEffectsForTransition S transitionId).map Effect.toPayload
      = S.payloads transitionId := by
  rw [hS.getEffectsForTransition_eq hid]
  rfl

end Scan

/-! ### What a commit inserted -/

/-- An effect as its commit inserted it. -/
def Effect.asWritten (e : Effect) : Effect := { e with status := .pending }

/-- The first `k` effect ids of a call are drawn in increasing order. -/
def Draws.Ascending (draws : Draws) (k : ℕ) : Prop :=
  ∀ m n, m < n → n < k → (draws.effectId m).text < (draws.effectId n).text

/-- The matching rules of an event, in the order of the definition. -/
def MachineDefinition.effectRules (definition : MachineDefinition) (event : EventName) :
    List EffectRule :=
  definition.effects.filter fun er => er.onEvent == event

theorem Engine.emittedEffects_payloads (c : Call) (definition : MachineDefinition) :
    (Engine.emittedEffects c definition).map Effect.toPayload
      = (definition.effectRules c.event).map fun er => ⟨er.effect, er.payload.getD .null⟩ := by
  unfold Engine.emittedEffects MachineDefinition.effectRules
  exact List.ext_getElem (by simp) fun n _ _ => by simp [Effect.toPayload]

/-- What is inserted stands in the order of the ids exactly if they are drawn in it. -/
theorem Engine.emittedEffects_ordered_iff (c : Call) (definition : MachineDefinition) :
    (Engine.emittedEffects c definition).Pairwise Effect.ById ↔
      c.draws.Ascending (definition.effectRules c.event).length := by
  unfold Engine.emittedEffects
  rw [List.pairwise_iff_getElem]
  simp only [List.length_mapIdx, List.getElem_mapIdx]
  refine ⟨fun h m n hmn hn => h m n (hmn.trans hn) hn hmn, fun h m n _ hn hmn => h m n hmn hn⟩

section Runs

variable {cfg : Config} {guards : GuardRegistry} {ls : List Label} {w : World}

/-- **Whatever happened since, the effects read for a record are those its commit inserted**, up to
their order and their status. -/
theorem Decided.written_perm {r : TransitionRecord} {i : ℕ} {c : Call}
    {definition : MachineDefinition} {current : Current} {rule : TransitionRule} {b t : ℕ}
    (h : Decided cfg (World.initial Store.empty guards) ls r i c definition current rule b t)
    (hfresh : FreshIds ls)
    (hrun : (engine cfg).exec (World.initial Store.empty guards) ls = some w) :
    ((RedbEngine.getEffectsForTransition w.store r.id).map Effect.asWritten).Perm
      (Engine.emittedEffects c definition) := by
  obtain ⟨wt, w₁, hwt, hw₁, hpc, hcommit⟩ := h.commit
  have hfresh' := hfresh.mono (List.take_subset t ls)
  obtain ⟨hnew, -⟩ := (originInvariant_of_run hfresh' hwt).newEffects hfresh' hwt hpc
  have horigin := originInvariant_of_run hfresh hrun
  have hlt := lt_length_of_label h.committed.step
  have hrid : r.id = c.draws.recordId.text := by
    rw [h.record]
    rfl
  have hevent : r.event = c.event := by
    rw [h.record]
    rfl
  have hnul : NulFree r.id := by
    rw [hrid]
    exact Uuid.nulFree _
  have hscan := horigin.outbox.getEffectsForTransition_perm hnul
  -- what was inserted is still read
  have hsub : Engine.emittedEffects c definition ⊆
      (RedbEngine.getEffectsForTransition w.store r.id).map Effect.asWritten := by
    intro e he
    obtain ⟨status, hget⟩ := effect_settled hfresh hrun hw₁ hlt
      ((hcommit.get_effects hnew).mpr (Or.inl ⟨he, rfl⟩))
    obtain ⟨n, hn, rfl⟩ := List.mem_mapIdx.mp he
    refine List.mem_map.mpr ⟨_, hscan.mem_iff.mpr (List.mem_filter.mpr
      ⟨mem_effects_values.mpr ⟨_, hget⟩, ?_⟩), rfl⟩
    rw [beq_iff_eq, hrid]
  -- and no more is read than rules matched
  obtain ⟨w₁', hw₁', hlogged, hpay⟩ := h.payloads hfresh
  rw [← payloads_settled hfresh hrun hw₁' hlt hlogged] at hpay
  have hlen := (hscan.map Effect.toPayload).length_eq.trans hpay.length_eq
  refine (List.Subperm.perm_of_length_le (List.subperm_of_subset ?_ hsub) ?_).symm
  · exact hnew.nodup.of_map
  · rw [List.length_map] at hlen ⊢
    rw [hlen, hevent, Engine.emittedEffects, List.length_map, List.length_mapIdx]

/-- What the passes of a run send for a record, in the order in which it is read: its effects, or none
if the read fails. -/
theorem tells_inOrder (hfresh : FreshIds ls) : Tells cfg guards ls fun S r change =>
    Carries r change ∧
      (change.effects = (RedbEngine.getEffectsForTransition S r.id).map Effect.toPayload ∨
        change.effects = [] ∧ ∃ f, Label.stream (.pass (some f)) ∈ ls) where
  send _ _ _ _ _ := ⟨rfl, Or.inl rfl⟩
  cut _ _ f hl _ _ _ := ⟨rfl, Or.inr ⟨rfl, f, List.mem_of_getElem? hl⟩⟩
  keep n wn wn' l hl hn hst r hr change := by
    rintro ⟨hcarries, heffects | hcut⟩
    · refine ⟨hcarries, Or.inl ?_⟩
      have hfresh' := hfresh.mono (List.take_subset n ls)
      have horigin := originInvariant_of_run hfresh' hn
      have hnul := horigin.nulFree hr
      have hafter := (horigin.step hfresh' hn hst).outbox
      rw [heffects, horigin.outbox.payloads_eq hnul, hafter.payloads_eq hnul]
      exact (horigin.payloads_step hfresh' hn hst hr).symm
    · exact ⟨hcarries, Or.inr hcut⟩

/-- **The order of effects.** In every run with fresh ids, for every record of the log (which some
call decided on):

* the effects read for it are, up to their status, the list its commit inserted, one effect for each
  matching rule in the order of the definition, exactly if their ids were drawn in increasing order;
* their names and payloads are then those of the rules, in order;
* whatever was sent for the record lists the effects as they are read, or none after a failed read. -/
theorem effects_in_order_iff (hfresh : FreshIds ls)
    (hrun : (engine cfg).exec (World.initial Store.empty guards) ls = some w) :
    ∀ r ∈ w.store.log,
      (∃ i c definition current rule b t,
        Decided cfg (World.initial Store.empty guards) ls r i c definition current rule b t) ∧
      (∀ i c definition current rule b t,
        Decided cfg (World.initial Store.empty guards) ls r i c definition current rule b t →
        ((RedbEngine.getEffectsForTransition w.store r.id).map Effect.asWritten
            = Engine.emittedEffects c definition ↔
          c.draws.Ascending (definition.effectRules r.event).length) ∧
        (c.draws.Ascending (definition.effectRules r.event).length →
          (RedbEngine.getEffectsForTransition w.store r.id).map Effect.toPayload
            = (definition.effectRules r.event).map fun er => ⟨er.effect, er.payload.getD .null⟩)) ∧
      (w.store.sequence < 2 ^ 64 - 1 → ∀ sub ∈ w.stream.subscribers, ∀ change ∈ sub.sent,
        change.transitionId = r.id →
          change.effects = (RedbEngine.getEffectsForTransition w.store r.id).map Effect.toPayload ∨
          change.effects = [] ∧ ∃ f, Label.stream (.pass (some f)) ∈ ls) := by
  intro r hr
  have horigin := originInvariant_of_run hfresh hrun
  refine ⟨decided_of_run hrun hr, fun i c definition current rule b t hdec => ?_, ?_⟩
  · have hevent : r.event = c.event := by
      rw [hdec.record]
      rfl
    have hperm := hdec.written_perm hfresh hrun
    -- a status is no part of the order
    have hordered : ((RedbEngine.getEffectsForTransition w.store r.id).map
        Effect.asWritten).Pairwise Effect.ById :=
      List.pairwise_map.mpr (horigin.outbox.scan_ordered (horigin.nulFree hr))
    rw [hevent, ← Engine.emittedEffects_ordered_iff, ← Engine.emittedEffects_payloads]
    have heq : (Engine.emittedEffects c definition).Pairwise Effect.ById →
        (RedbEngine.getEffectsForTransition w.store r.id).map Effect.asWritten
          = Engine.emittedEffects c definition :=
      fun hasc => hordered.eq_of_mem_iff hasc fun _ => hperm.mem_iff
    refine ⟨⟨fun h => h ▸ hordered, heq⟩, fun hasc => ?_⟩
    rw [← heq hasc, List.map_map]
    rfl
  · intro hbound sub hsub change hchange hid
    obtain ⟨r', hr', ⟨hcarries, heffects⟩, -⟩ :=
      sentBy_of_run (tells_inOrder hfresh) hrun hbound sub hsub change hchange
    -- the id tells which record it is
    have hid' : change.transitionId = r'.id := by
      rw [hcarries]
      rfl
    obtain rfl := List.inj_on_of_nodup_map (linkedInvariant_of_run hfresh hrun).ids hr' hr
      (hid'.symm.trans hid)
    exact heffects

end Runs

/-- Orders that send a receipt and a notice when they are paid. -/
def noticeMachine : MachineDefinition :=
  { orderMachine with effects := [⟨"pay", "receipt", none⟩, ⟨"pay", "notice", none⟩] }

/-- A payment whose effect ids are drawn in a given order. -/
def noticePay (order : Equiv.Perm ℕ) : Call :=
  { payOrder 0 "o1" none with
    draws := { Draws.ofNat 0 with effectId := fun m => Uuid.ofPair 0 (order m + 1) } }

def noticeRun (order : Equiv.Perm ℕ) : List Label :=
  [Label.defineMachine noticeMachine none, Label.stream (.subscribe "s" none 0),
    Label.invoke 0 (noticePay order)] ++ steps 0 8 ++ passSteps 4

theorem noticeRun_call {order : Equiv.Perm ℕ} {i : ℕ} {c : Call}
    (h : Label.invoke i c ∈ noticeRun order) : i = 0 ∧ c = noticePay order := by
  simpa [noticeRun, steps, passSteps] using h

theorem noticeRun_fresh (order : Equiv.Perm ℕ) : FreshIds (noticeRun order) := by
  refine ⟨fun i c j c' hi hj _ => ?_, fun i c n j c' n' hi hj heq => ?_⟩
  · rw [(noticeRun_call hi).1, (noticeRun_call hj).1]
  · obtain ⟨rfl, rfl⟩ := noticeRun_call hi
    obtain ⟨rfl, rfl⟩ := noticeRun_call hj
    -- a permutation draws no id twice
    exact ⟨rfl, order.injective (Nat.succ.inj (Uuid.ofPair_inj heq).2)⟩

/-- Ids drawn in decreasing order reverse the effects, in the outbox and in what is sent. -/
theorem not_effects_in_order :
    ¬ ∀ (cfg : Config) (guards : GuardRegistry) (definition : MachineDefinition) (ls : List Label)
      (w : World), FreshIds (Label.defineMachine definition none :: ls) →
      (∀ definition' fault, Label.defineMachine definition' fault ∉ ls) →
      (engine cfg).exec (World.initial Store.empty guards) (Label.defineMachine definition none :: ls)
        = some w →
      ∀ r ∈ w.store.log,
        (RedbEngine.getEffectsForTransition w.store r.id).map Effect.toPayload
          = (definition.effectRules r.event).map fun er => ⟨er.effect, er.payload.getD .null⟩ := by
  intro hordered
  have heval : ((engine oneStripe).exec (World.initial Store.empty ∅)
      (noticeRun (Equiv.swap 0 1))).map (fun w => w.store.log.map fun r =>
        (r.event, (RedbEngine.getEffectsForTransition w.store r.id).map Effect.effectName))
      = some [("pay", ["notice", "receipt"])] := by decide +kernel
  obtain ⟨w, hrun, hw⟩ := Option.map_eq_some_iff.mp heval
  obtain ⟨r, hr, hfields⟩ := List.mem_map.mp (hw ▸ List.mem_singleton_self _)
  obtain ⟨hevent, hnames⟩ := Prod.mk.inj hfields
  have hnone : ∀ definition' fault, Label.defineMachine definition' fault ∉
      (noticeRun (Equiv.swap 0 1)).tail := by
    intro definition' fault hmem
    simp [noticeRun, steps, passSteps] at hmem
  have hlist := hordered oneStripe ∅ noticeMachine _ w (noticeRun_fresh _) hnone hrun r hr
  have horder := congrArg (List.map EffectPayload.effectName) hlist
  rw [List.map_map, hevent] at horder
  exact absurd (hnames.symm.trans horder) (by decide)

/-- Ids drawn in increasing order keep the effects as they are declared. -/
theorem effects_in_order_iff_noticeRun : ∃ w r,
    (engine oneStripe).exec (World.initial Store.empty ∅) (noticeRun (Equiv.refl ℕ)) = some w ∧
      r ∈ w.store.log ∧
      (RedbEngine.getEffectsForTransition w.store r.id).map Effect.toPayload
        = [⟨"receipt", .null⟩, ⟨"notice", .null⟩] := by
  have heval : ((engine oneStripe).exec (World.initial Store.empty ∅)
      (noticeRun (Equiv.refl ℕ))).map (fun w => w.store.log.map TransitionRecord.event)
      = some ["pay"] := by decide
  obtain ⟨w, hrun, hw⟩ := Option.map_eq_some_iff.mp heval
  obtain ⟨r, hr, hevent⟩ := List.mem_map.mp (hw ▸ List.mem_singleton_self "pay")
  obtain ⟨⟨i, c, definition, current, rule, b, t, hdec⟩, horder, -⟩ :=
    effects_in_order_iff (noticeRun_fresh (Equiv.refl ℕ)) hrun r hr
  -- the run has one call and one definition
  obtain ⟨wb, hb, hmissed⟩ := hdec.read.missed
  have hcall : Label.invoke i c ∈ noticeRun (Equiv.refl ℕ) := by
    refine List.take_subset b _ ((call_eq_some_iff hb i c).mp ?_)
    rw [hmissed]
    rfl
  obtain ⟨-, rfl⟩ := noticeRun_call hcall
  obtain ⟨wb', hb', hstored⟩ := hdec.read.stored
  obtain rfl : definition = noticeMachine := by
    obtain ⟨defined, hmem, rfl⟩ := defined_of_stored hb' hstored
    have hmem := List.take_subset b _ hmem
    obtain rfl : defined = noticeMachine := by simpa [noticeRun, steps, passSteps] using hmem
    rfl
  refine ⟨w, r, hrun, hr, ((horder _ _ _ _ _ _ _ hdec).2 ?_).trans ?_⟩
  · rw [hevent]
    intro m n hmn hn
    obtain ⟨rfl, rfl⟩ : m = 0 ∧ n = 1 := by
      have : n < 2 := hn
      omega
    decide
  · rw [hevent]
    rfl

end StateMaster
