import StateMaster.Engine.Idempotency
import StateMaster.Storage.Outbox

/-!
# Where the rows of a run come from

Transition and effect ids are random UUIDs, and the tables trust them to differ. `FreshIds` says of
a run that the ids its calls draw do. Every logged record and every stored effect then belongs to
one finished call (`OriginInvariant`), which makes the effects of a commit new to the tables it
writes (`OriginInvariant.newEffects`), keeps the outbox in order, and settles what a transition has
stored for its subscribers once and for all (`OriginInvariant.payloads_step`).
-/

open Framework Framework.Text

namespace StateMaster

/-- The ids drawn along a run differ: record ids between calls, effect ids between calls and within
one. -/
structure FreshIds (ls : List Label) : Prop where
  records : ∀ i c j c', Label.invoke i c ∈ ls → Label.invoke j c' ∈ ls →
    c.draws.recordId.text = c'.draws.recordId.text → i = j
  effects : ∀ i c n j c' n', Label.invoke i c ∈ ls → Label.invoke j c' ∈ ls →
    (c.draws.effectId n).text = (c'.draws.effectId n').text → i = j ∧ n = n'

/-- Only the calls matter. -/
theorem FreshIds.of_invokes {ls ls' : List Label} (h : FreshIds ls)
    (hsub : ∀ i c, Label.invoke i c ∈ ls' → Label.invoke i c ∈ ls) : FreshIds ls' where
  records i c j c' hi hj := h.records i c j c' (hsub i c hi) (hsub j c' hj)
  effects i c n j c' n' hi hj := h.effects i c n j c' n' (hsub i c hi) (hsub j c' hj)

theorem FreshIds.mono {ls ls' : List Label} (h : FreshIds ls) (hsub : ls' ⊆ ls) : FreshIds ls' :=
  h.of_invokes fun _ _ hi => hsub hi

/-- Calls that draw from the family of distinct ids are fresh. -/
theorem FreshIds.of_ofNat {ls : List Label}
    (h : ∀ i c, Label.invoke i c ∈ ls → c.draws = Draws.ofNat i) : FreshIds ls where
  records i c j c' hi hj heq := by
    rw [h i c hi, h j c' hj] at heq
    exact (Uuid.ofPair_inj heq).1
  effects i c n j c' n' hi hj heq := by
    rw [h i c hi, h j c' hj] at heq
    obtain ⟨hij, hn⟩ := Uuid.ofPair_inj heq
    exact ⟨hij, Nat.succ.inj hn⟩

/-- Call `i` asked `c` and has its outcome. -/
def Finished (w : World) (i : ℕ) (c : Call) : Prop :=
  (w.calls i).call = some c ∧ (w.calls i).outcome.isSome = true

/-- The log and the outbox hold what finished calls wrote, under the ids they drew. -/
structure OriginInvariant (w : World) : Prop where
  outbox : OutboxInvariant w.store
  records : ∀ r ∈ w.store.log, ∃ i c, Finished w i c ∧ r.id = c.draws.recordId.text
  effects : ∀ (id : String) (e : Effect), w.store.effects[id]? = some e →
    ∃ i c n, Finished w i c ∧ id = (c.draws.effectId n).text ∧
      e.transitionId = c.draws.recordId.text

/-! ### Steps -/

/-- A finished call stays finished. -/
theorem Finished.step {cfg : Config} {w w' : World} {l : Label} {i : ℕ} {c : Call}
    (h : Finished w i c) (hstep : Step cfg w l w') : Finished w' i c := by
  obtain ⟨hcall, hout⟩ := h
  cases hstep with
  | invoke j c' hpc =>
    -- a call that starts had no outcome
    have hij : i ≠ j := by
      rintro rfl
      rw [hpc] at hout
      exact absurd hout (by decide)
    rw [Finished, World.setPc_calls_of_ne w _ hij]
    exact ⟨hcall, hout⟩
  | ret j c' res hpc =>
    by_cases hij : i = j
    · subst hij
      rw [hpc] at hcall
      rw [Finished, World.setPc_calls_self]
      exact ⟨hcall, rfl⟩
    · rw [Finished, World.setPc_calls_of_ne w _ hij]
      exact ⟨hcall, hout⟩
  | call j w' h =>
    by_cases hij : i = j
    · subst hij
      cases h with
      | release c' res hpc =>
        -- of its own steps, the only one after the outcome
        rw [hpc] at hcall
        rw [Finished, World.setPc_calls_self]
        exact ⟨hcall, rfl⟩
      | refuse c' hpc _ | enter c' hpc _ | acquire c' hpc _ | replay c' _ hpc _ | miss c' hpc _
      | define c' _ hpc _ | noDefinition c' _ hpc _ | read c' _ _ hpc _ | readError c' _ _ hpc _
      | plan c' _ _ _ hpc _ | reject c' _ _ _ hpc _ | commit c' _ _ _ hpc _
      | commitError c' _ _ hpc _ =>
        rw [hpc] at hout
        exact absurd hout (by simp [Pc.outcome])
    · obtain ⟨pc, hcalls, -⟩ := h.calls_eq
      rw [Finished, hcalls, Function.update_of_ne hij]
      exact ⟨hcall, hout⟩
  | _ => exact ⟨hcall, hout⟩

/-- **What a step does to the outbox**: nothing, a mark, or a commit by a call that is then
finished. -/
theorem Step.outbox_cases {cfg : Config} {w w' : World} {l : Label} (h : Step cfg w l w') :
    (KeepsLog w.store w'.store ∧ w'.store.effects = w.store.effects ∧
      w'.store.effectsByTxn = w.store.effectsByTxn) ∨
    (∃ effectId effect status, l = .markEffect effectId status none ∧
      w.store.effects[effectId]? = some effect ∧
      w'.store = w.store.marked effectId effect status) ∨
    ∃ i c plan, w.calls i = .planned c plan ∧ Finished w' i c ∧
      Commit w.store plan.record plan.newState plan.effects w'.store := by
  cases h with
  | call i w' h =>
    cases h with
    | commit c plan res S' hpc hcommit =>
      refine Or.inr (Or.inr ⟨i, c, plan, hpc, ?_, (Engine.commitPlan_eq_ok hcommit).2.1⟩)
      rw [Finished, World.setPc_calls_self]
      exact ⟨rfl, rfl⟩
    | _ => exact Or.inl ⟨⟨rfl, rfl, rfl, rfl, rfl⟩, rfl, rfl⟩
  | mark effectId status effect heffect =>
    exact Or.inr (Or.inl ⟨effectId, effect, status, rfl, heffect, rfl⟩)
  | _ => exact Or.inl ⟨⟨rfl, rfl, rfl, rfl, rfl⟩, rfl, rfl⟩

/-- What a planned call is about to write carries the ids it drew. -/
theorem PlanFact.ids {c : Call} {plan : Plan} (h : PlanFact (.planned c plan)) :
    plan.record.id = c.draws.recordId.text ∧
      plan.effects.map Effect.id
        = (List.range plan.effects.length).map (fun n => (c.draws.effectId n).text) ∧
      ∀ e ∈ plan.effects, e.transitionId = c.draws.recordId.text := by
  obtain ⟨guards, definition, current, hplan⟩ := h
  obtain ⟨rule, -, -, -, rfl⟩ := Engine.planRequest_eq_ok hplan
  refine ⟨rfl, ?_, ?_⟩
  · refine List.ext_getElem (by simp) fun n _ _ => ?_
    simp [Engine.buildPlan, Effect.new]
  · intro e he
    obtain ⟨n, hn, rfl⟩ := List.mem_mapIdx.mp he
    rfl

/-- An effect is written pending. -/
theorem PlanFact.pending {c : Call} {plan : Plan} (h : PlanFact (.planned c plan)) {e : Effect}
    (he : e ∈ plan.effects) : e.status = .pending := by
  obtain ⟨guards, definition, current, hplan⟩ := h
  obtain ⟨rule, -, -, -, rfl⟩ := Engine.planRequest_eq_ok hplan
  obtain ⟨n, hn, rfl⟩ := List.mem_mapIdx.mp he
  rfl

theorem PlanFact.exists_effectId {c : Call} {plan : Plan} (h : PlanFact (.planned c plan))
    {e : Effect} (he : e ∈ plan.effects) : ∃ n, e.id = (c.draws.effectId n).text := by
  have hmem : e.id ∈ plan.effects.map Effect.id := List.mem_map_of_mem he
  rw [h.ids.2.1, List.mem_map] at hmem
  obtain ⟨n, -, hn⟩ := hmem
  exact ⟨n, hn.symm⟩

/-! ### Runs -/

section Fresh

variable {cfg : Config} {guards : GuardRegistry} {ls : List Label} {w : World}

theorem planFact_of_run (hrun : (engine cfg).exec (World.initial Store.empty guards) ls = some w)
    {i : ℕ} {c : Call} {plan : Plan} (hpc : w.calls i = .planned c plan) :
    PlanFact (.planned c plan) := by
  have hplan := (keyInvariant_of_run hrun).plans i
  rwa [hpc] at hplan

/-- A call that is still planned is not among the finished ones the rows come from. -/
theorem OriginInvariant.not_finished {i j : ℕ} {c c' : Call} {plan : Plan}
    (hpc : w.calls i = .planned c plan) (h : Finished w j c') : j ≠ i := by
  rintro rfl
  have hout := h.2
  rw [hpc] at hout
  exact absurd hout (by simp [Pc.outcome])

/-- **The effects of a commit are new**, and so is the id of its record. -/
theorem OriginInvariant.newEffects (hw : OriginInvariant w) (hfresh : FreshIds ls)
    (hrun : (engine cfg).exec (World.initial Store.empty guards) ls = some w) {i : ℕ} {c : Call}
    {plan : Plan} (hpc : w.calls i = .planned c plan) :
    NewEffects w.store plan.effects ∧ ∀ r ∈ w.store.log, r.id ≠ plan.record.id := by
  have hinvoked : ∀ j c', (w.calls j).call = some c' → Label.invoke j c' ∈ ls :=
    fun j c' => (call_eq_some_iff hrun j c').mp
  have hplan := planFact_of_run hrun hpc
  obtain ⟨hrec, hids, htxn⟩ := hplan.ids
  have hi : Label.invoke i c ∈ ls := hinvoked i c (by rw [hpc]; rfl)
  refine ⟨⟨?_, ?_, ?_⟩, ?_⟩
  · rw [hids]
    refine List.Nodup.map_on ?_ List.nodup_range
    intro n _ m _ heq
    exact (hfresh.effects i c n i c m hi hi heq).2
  · intro e he
    cases hold : w.store.effects[e.id]? with
    | none => rfl
    | some e' =>
      -- It would come from another call, which drew another id.
      obtain ⟨j, c', m, hfin, hid, -⟩ := hw.effects e.id e' hold
      obtain ⟨n, hn⟩ := hplan.exists_effectId he
      have hji := (hfresh.effects j c' m i c n (hinvoked j c' hfin.1) hi
        (hid.symm.trans hn)).1
      exact absurd hji (not_finished hpc hfin)
  · intro e he
    rw [htxn e he]
    exact Uuid.nulFree _
  · intro r hr heq
    obtain ⟨j, c', hfin, hid⟩ := hw.records r hr
    have hji := hfresh.records j c' i c (hinvoked j c' hfin.1) hi
      (by rw [← hid, heq, hrec])
    exact absurd hji (not_finished hpc hfin)

theorem OriginInvariant.step (hw : OriginInvariant w) (hfresh : FreshIds ls)
    (hrun : (engine cfg).exec (World.initial Store.empty guards) ls = some w) {l : Label}
    {w' : World} (hstep : Step cfg w l w') : OriginInvariant w' := by
  have hrecords : ∀ r ∈ w.store.log, ∃ i c, Finished w' i c ∧ r.id = c.draws.recordId.text := by
    intro r hr
    obtain ⟨i, c, hfin, hid⟩ := hw.records r hr
    exact ⟨i, c, hfin.step hstep, hid⟩
  have heffects : ∀ (id : String) (e : Effect), w.store.effects[id]? = some e →
      ∃ i c n, Finished w' i c ∧ id = (c.draws.effectId n).text ∧
        e.transitionId = c.draws.recordId.text := by
    intro id e he
    obtain ⟨i, c, n, hfin, hid, htxn⟩ := hw.effects id e he
    exact ⟨i, c, n, hfin.step hstep, hid, htxn⟩
  -- What was there still has its call; a commit adds rows of a call that is finished by it.
  rcases hstep.outbox_cases with ⟨hkeeps, heff, hidx⟩ | ⟨eid, effect, status, -, heffect, hS⟩ |
    ⟨i, c, plan, hpc, hfin, hcommit⟩
  · refine ⟨⟨?_, ?_, ?_⟩, by rw [hkeeps.log]; exact hrecords, by rw [heff]; exact heffects⟩
    · rw [heff]; exact hw.outbox.keyed
    · rw [heff]; exact hw.outbox.nulFree
    · rw [heff, hidx]; exact hw.outbox.index
  · -- a mark changes the status, and no id
    refine ⟨?_, ?_, ?_⟩
    · rw [hS]
      exact hw.outbox.mark heffect status
    · rw [hS, (Store.marked_keepsLog status).log]
      exact hrecords
    · intro id e he
      rw [hS] at he
      obtain ⟨e₀, he₀, -, htxn⟩ := Store.get_marked heffect he
      obtain ⟨i, c, n, hfin, hid, htxn₀⟩ := heffects id e₀ he₀
      exact ⟨i, c, n, hfin, hid, htxn ▸ htxn₀⟩
  · -- the record and its effects carry ids that call `i` drew
    obtain ⟨hnew, -⟩ := hw.newEffects hfresh hrun hpc
    have hplan := planFact_of_run hrun hpc
    obtain ⟨hrec, -, htxn⟩ := hplan.ids
    refine ⟨hw.outbox.commit hcommit hnew, ?_, ?_⟩
    · rw [hcommit.appends.log (keyInvariant_of_run hrun).log]
      intro r hr
      rcases List.mem_append.mp hr with hr | hr
      · exact hrecords r hr
      · obtain rfl := List.mem_singleton.mp hr
        exact ⟨i, c, hfin, hrec⟩
    · intro id e he
      rcases (hcommit.get_effects hnew).mp he with ⟨hmem, rfl⟩ | he
      · obtain ⟨n, hn⟩ := hplan.exists_effectId hmem
        exact ⟨i, c, n, hfin, hn, htxn e hmem⟩
      · exact heffects id e he

theorem originInvariant_of_run (hfresh : FreshIds ls)
    (hrun : (engine cfg).exec (World.initial Store.empty guards) ls = some w) :
    OriginInvariant w := by
  refine System.exec_induction_labels (I := fun ls w => FreshIds ls → OriginInvariant w)
    (fun _ => ⟨OutboxInvariant.empty, ?_, ?_⟩) ?_ hrun hfresh
  · intro r hr
    obtain ⟨s, hs⟩ := mem_log.mp hr
    change (∅ : Table ℕ TransitionRecord)[s]? = some r at hs
    exact absurd hs (by simp)
  · intro id e he
    change (∅ : Table String Effect)[id]? = some e at he
    exact absurd he (by simp)
  · intro ls w l w' hrun ih hstep hfresh
    have hbefore := hfresh.mono (List.subset_append_left ls [l])
    exact (ih hbefore).step hbefore hrun (step_sound hstep)

/-- Logged ids hold no separator. -/
theorem OriginInvariant.nulFree (hw : OriginInvariant w) {r : TransitionRecord}
    (hr : r ∈ w.store.log) : NulFree r.id := by
  obtain ⟨i, c, -, hid⟩ := hw.records r hr
  rw [hid]
  exact Uuid.nulFree _

/-- **What a logged transition has stored for its subscribers is settled.** -/
theorem OriginInvariant.payloads_step (hw : OriginInvariant w) (hfresh : FreshIds ls)
    (hrun : (engine cfg).exec (World.initial Store.empty guards) ls = some w) {l : Label}
    {w' : World} (hstep : Step cfg w l w') {r : TransitionRecord} (hr : r ∈ w.store.log) :
    w'.store.payloads r.id = w.store.payloads r.id := by
  rcases hstep.outbox_cases with ⟨-, heff, -⟩ | ⟨eid, effect, status, -, heffect, hS⟩ |
    ⟨i, c, plan, hpc, -, hcommit⟩
  · unfold Store.payloads
    rw [heff]
  · rw [hS]
    exact Store.payloads_marked heffect status r.id
  · obtain ⟨hnew, hne⟩ := hw.newEffects hfresh hrun hpc
    have hplan := planFact_of_run hrun hpc
    refine hcommit.payloads_of_ne hnew fun e he heq => hne r hr ?_
    rw [← heq, hplan.ids.2.2 e he, hplan.ids.1]

end Fresh

end StateMaster
