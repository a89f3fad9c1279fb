import StateMaster.Engine.Dispatcher
import StateMaster.Storage.Drain

/-!
# The backlog of the outbox

`Dispatcher::dispatch` reads at most 256 pending effects and settles them one after the other, while
transitions go on committing and writing new ones. What it read is a snapshot. It stays right because
nobody else marks effects: whoever is still in the batch is still pending (`BatchFact`).

Two things follow for whole runs. An effect leaves `pending` once and keeps the status it then gets.
And the number of pending effects can be accounted for: a read takes 256 of them off the backlog, or
all there are, a commit adds what it writes, and a mark that fails twice puts one back.

* `OutboxStep` — what a step does to the table of effects and to the batch, by the kind of step;
* `effect_settled_once` — the statuses along a run;
* `outbox_backlog` — the accounts between two moments at which the dispatcher rests. Read from below it
  says what the single dispatch at shutdown leaves behind, read from above how fast the outbox drains.
-/

open Framework Framework.Text

namespace StateMaster

/-- What the dispatcher has read and not settled yet. -/
def DispatcherState.batch : DispatcherState → List Effect
  | .marking _ effect rest | .failing _ effect rest => effect :: rest
  | _ => []

@[simp] theorem DispatcherState.batch_next (since : ℕ) (effects : List Effect) :
    (DispatcherState.next since effects).batch = effects := by
  cases effects with
  | nil => rfl
  | cons effect rest => rfl

/-- What was read still stands in the table as it was read. -/
structure BatchFact (S : Store) (batch : List Effect) : Prop where
  stored : ∀ e ∈ batch, S.effects[e.id]? = some e
  pending : ∀ e ∈ batch, e.status = .pending
  nodup : (batch.map Effect.id).Nodup

theorem BatchFact.nil (S : Store) : BatchFact S [] :=
  ⟨by simp, by simp, List.nodup_nil⟩

/-- What a step does to the effects and to the batch. -/
inductive OutboxStep (S : Store) (batch : List Effect) : DispatchLabel → Store → List Effect → Prop where
  /-- Nothing is settled and nothing is written. -/
  | quiet {l : DispatchLabel} {S' : Store} (heff : S'.effects = S.effects)
      (hl : l ≠ .readPending none) : OutboxStep S batch l S' batch
  /-- A transition commits. -/
  | write {l : DispatchLabel} {S' : Store} {record : TransitionRecord} {newState : EntityState}
      (written : List Effect) (hcommit : Commit S record newState written S')
      (hnew : NewEffects S written) (hpending : ∀ e ∈ written, e.status = .pending)
      (hl : l ≠ .readPending none) : OutboxStep S batch l S' batch
  | read (hnone : batch = []) :
      OutboxStep S batch (.readPending none) S (RedbEngine.getPendingEffects S pendingLimit)
  | settle {l : DispatchLabel} (effect : Effect) (rest : List Effect) (status : EffectStatus)
      (hbatch : batch = effect :: rest) (hstatus : status ≠ .pending) (hl : l ≠ .readPending none) :
      OutboxStep S batch l (S.marked effect.id effect status) rest
  /-- Neither mark went through: the effect stays pending. -/
  | giveBack (fault : Fault) (effect : Effect) (rest : List Effect) (hbatch : batch = effect :: rest) :
      OutboxStep S batch (.mark (some fault)) S rest

section Counts

variable {S S' : Store}

theorem mem_pending {e : Effect} :
    e ∈ S.pending ↔ (∃ id : String, S.effects[id]? = some e) ∧ e.status = .pending := by
  rw [Store.pending, List.mem_filter, mem_effects_values, beq_iff_eq]

theorem OutboxInvariant.pending_nodup (hS : OutboxInvariant S) : S.pending.Nodup :=
  hS.values_nodup.filter _

/-- A commit adds what it writes. -/
theorem OutboxInvariant.values_commit (hS : OutboxInvariant S) {record : TransitionRecord}
    {newState : EntityState} {written : List Effect} (hcommit : Commit S record newState written S')
    (hnew : NewEffects S written) : S'.effects.values.Perm (written ++ S.effects.values) := by
  refine (List.perm_ext_iff_of_nodup (hS.commit hcommit hnew).values_nodup ?_).mpr fun e => ?_
  · -- what is written was not there
    refine (List.Nodup.of_map _ hnew.nodup).append hS.values_nodup fun e hw hv => ?_
    obtain ⟨id, hid⟩ := mem_effects_values.mp hv
    have hkey := hS.keyed id e hid
    exact absurd ((hnew.unseen e hw).symm.trans (hkey ▸ hid)) (by simp)
  · rw [List.mem_append, mem_effects_values, mem_effects_values]
    constructor
    · rintro ⟨id, hid⟩
      obtain ⟨hmem, -⟩ | hold := (hcommit.get_effects hnew).mp hid
      · exact Or.inl hmem
      · exact Or.inr ⟨id, hold⟩
    · rintro (hmem | ⟨id, hid⟩)
      · exact ⟨e.id, (hcommit.get_effects hnew).mpr (Or.inl ⟨hmem, rfl⟩)⟩
      · exact ⟨id, (hcommit.get_effects hnew).mpr (Or.inr hid)⟩

theorem OutboxInvariant.pending_commit (hS : OutboxInvariant S) {record : TransitionRecord}
    {newState : EntityState} {written : List Effect} (hcommit : Commit S record newState written S')
    (hnew : NewEffects S written) (hpending : ∀ e ∈ written, e.status = .pending) :
    S'.pending.Perm (written ++ S.pending) := by
  have hperm := (hS.values_commit hcommit hnew).filter fun effect => effect.status == .pending
  rwa [List.filter_append, List.filter_eq_self.mpr fun e he => beq_iff_eq.mpr (hpending e he)] at hperm

/-- A mark takes its effect off the pending ones. -/
theorem OutboxInvariant.pending_mark (hS : OutboxInvariant S) {effect : Effect}
    (hstored : S.effects[effect.id]? = some effect) (hpending : effect.status = .pending)
    {status : EffectStatus} (hstatus : status ≠ .pending) :
    S.pending.Perm (effect :: (S.marked effect.id effect status).pending) := by
  have hget : ∀ id : String, (S.marked effect.id effect status).effects[id]?
      = if effect.id = id then some { effect with status } else S.effects[id]? :=
    fun id => Table.get_insert _ _ _ _
  have hnot : effect ∉ (S.marked effect.id effect status).pending := by
    intro hmem
    obtain ⟨⟨id, hid⟩, -⟩ := mem_pending.mp hmem
    obtain rfl := (hS.mark hstored status).keyed id effect hid
    rw [hget, if_pos rfl] at hid
    have := congrArg Effect.status (Option.some.inj hid)
    exact hstatus (this.trans hpending)
  refine (List.perm_ext_iff_of_nodup hS.pending_nodup
    (List.nodup_cons.mpr ⟨hnot, (hS.mark hstored status).pending_nodup⟩)).mpr fun e => ?_
  rw [List.mem_cons, mem_pending, mem_pending]
  constructor
  · rintro ⟨⟨id, hid⟩, he⟩
    by_cases heq : effect.id = id
    · exact Or.inl (Option.some.inj (hid.symm.trans (heq ▸ hstored)))
    · exact Or.inr ⟨⟨id, by rw [hget, if_neg heq]; exact hid⟩, he⟩
  · rintro (rfl | ⟨⟨id, hid⟩, he⟩)
    · exact ⟨⟨_, hstored⟩, hpending⟩
    · rw [hget] at hid
      split at hid
      · -- under this id stands an effect that is not pending
        obtain rfl := Option.some.inj hid
        exact absurd he hstatus
      · exact ⟨⟨id, hid⟩, he⟩

/-- A mark keeps the number of effects. -/
theorem Store.length_values_marked {effect : Effect} (hstored : S.effects[effect.id]? = some effect)
    (status : EffectStatus) :
    (S.marked effect.id effect status).effects.values.length = S.effects.values.length := by
  change ((S.effects.insert effect.id { effect with status }).toList.map Prod.snd).length = _
  rw [Table.toList_insert_of_get _ _ hstored, List.length_map, List.length_map]
  exact (List.length_map _).symm

theorem BatchFact.length_le {batch : List Effect} (h : BatchFact S batch) :
    batch.length ≤ S.pending.length :=
  (List.Nodup.of_map _ h.nodup).length_le_of_subset fun e he =>
    mem_pending.mpr ⟨⟨e.id, h.stored e he⟩, h.pending e he⟩

end Counts

/-! ### Steps -/

section Steps

variable {cfg : Config} {guards : GuardRegistry} {els : List Label} {d d' : Dispatching}
  {l : DispatchLabel}

/-- A step of the engine that is no mark writes effects or leaves them alone. -/
theorem OutboxStep.of_step {w w' : World} {el : Label} (hfresh : FreshIds els)
    (hrun : (engine cfg).exec (World.initial Store.empty guards) els = some w)
    (hstep : Step cfg w el w') (hel : ∀ id status fault, el ≠ .markEffect id status fault)
    (batch : List Effect) (hl : l ≠ .readPending none) : OutboxStep w.store batch l w'.store batch := by
  obtain ⟨-, heff, -⟩ | ⟨id, effect, status, heq, -⟩ | ⟨i, c, plan, hpc, -, hcommit⟩ :=
    hstep.outbox_cases
  · exact .quiet heff hl
  · exact absurd heq (hel id status none)
  · obtain ⟨hnew, -⟩ := (originInvariant_of_run hfresh hrun).newEffects hfresh hrun hpc
    exact .write plan.effects hcommit hnew (fun e he => (planFact_of_run hrun hpc).pending he) hl

theorem updateEffectStatus_of_stored {S : Store} {effect : Effect}
    (hstored : S.effects[effect.id]? = some effect) (status : EffectStatus) :
    RedbEngine.updateEffectStatus S effect.id status = .ok (S.marked effect.id effect status) := by
  unfold RedbEngine.updateEffectStatus
  rw [hstored]
  rfl

/-- **What a step does to the outbox.** -/
theorem outboxStep_sound (hfresh : FreshIds els)
    (hrun : (engine cfg).exec (World.initial Store.empty guards) els = some d.world)
    (hbatch : BatchFact d.world.store d.dispatcher.batch)
    (hstep : (dispatching cfg).step d l = some d') :
    OutboxStep d.world.store d.dispatcher.batch l d'.world.store d'.dispatcher.batch := by
  cases l with
  | other el =>
    cases dispatchStep_sound hstep with
    | other _ world hel hworld =>
      refine .of_step hfresh hrun (step_sound hworld) ?_ _ (by simp)
      rintro id status fault rfl
      exact absurd hel (by simp [Label.byDispatcher])
  | pass fault =>
    have hsame : d'.dispatcher.batch = d.dispatcher.batch ∧
        (engine cfg).step d.world (.stream (.pass fault)) = some d'.world := by
      cases dispatchStep_sound hstep with
      | begin _ world hd hworld => exact ⟨by rw [hd]; rfl, hworld⟩
      | scan _ since world hd hworld _ => exact ⟨by rw [hd], hworld⟩
      | finish _ since world result hd hworld _ => exact ⟨by rw [hd]; rfl, hworld⟩
    rw [hsame.1]
    exact .of_step hfresh hrun (step_sound hsame.2) (by simp) _ (by simp)
  | readPending fault =>
    change Dispatching.step cfg d (.readPending fault) = some d' at hstep
    cases hd : d.dispatcher with
    | reading since =>
      cases fault with
      | none =>
        simp only [Dispatching.step, hd, withFault_none, Option.some.injEq] at hstep
        subst hstep
        rw [DispatcherState.batch_next]
        exact .read rfl
      | some f =>
        simp only [Dispatching.step, hd, withFault, Option.some.injEq] at hstep
        subst hstep
        exact .quiet rfl (by simp)
    | resting | passing since | marking since effect rest | failing since effect rest =>
      simp [Dispatching.step, hd] at hstep
  | mark fault =>
    change Dispatching.step cfg d (.mark fault) = some d' at hstep
    cases hd : d.dispatcher with
    | marking since effect rest =>
      rw [hd] at hbatch
      have hstored := hbatch.stored effect List.mem_cons_self
      cases fault with
      | none =>
        -- the effect is there, so the mark goes through
        simp only [Dispatching.step, hd, withFault_none, RedbEngine.markEffectPublished,
          updateEffectStatus_of_stored hstored, Option.some.injEq] at hstep
        subst hstep
        rw [DispatcherState.batch_next]
        exact .settle effect rest .published rfl (by simp) (by simp)
      | some f =>
        simp only [Dispatching.step, hd, withFault, Option.some.injEq] at hstep
        subst hstep
        exact .quiet rfl (by simp)
    | failing since effect rest =>
      rw [hd] at hbatch
      have hstored := hbatch.stored effect List.mem_cons_self
      cases fault with
      | none =>
        simp only [Dispatching.step, hd, World.step, withFault_none,
          updateEffectStatus_of_stored hstored, Option.bind_eq_bind, Option.bind_some,
          Option.pure_def, Option.some.injEq] at hstep
        subst hstep
        rw [DispatcherState.batch_next]
        exact .settle effect rest .failed rfl (by simp) (by simp)
      | some f =>
        simp only [Dispatching.step, hd, World.step, withFault, Option.bind_eq_bind, Option.bind_some,
          Option.pure_def, Option.some.injEq] at hstep
        subst hstep
        rw [DispatcherState.batch_next]
        exact .giveBack f effect rest rfl
    | resting | passing since | reading since => simp [Dispatching.step, hd] at hstep

/-- **The batch stays what it was when it was read.** -/
theorem BatchFact.step {S S' : Store} {batch batch' : List Effect} (h : BatchFact S batch)
    (hS : OutboxInvariant S) (hstep : OutboxStep S batch l S' batch') : BatchFact S' batch' := by
  cases hstep with
  | quiet heff _ => exact ⟨fun e he => by rw [heff]; exact h.stored e he, h.pending, h.nodup⟩
  | write written hcommit hnew _ _ =>
    exact ⟨fun e he => (hcommit.get_effects hnew).mpr (Or.inr (h.stored e he)), h.pending, h.nodup⟩
  | read hnone =>
    have hmem : ∀ e ∈ RedbEngine.getPendingEffects S pendingLimit, e ∈ S.pending :=
      fun e he => List.mem_of_mem_take (getPendingEffects_eq S pendingLimit ▸ he)
    refine ⟨fun e he => ?_, fun e he => (mem_pending.mp (hmem e he)).2, ?_⟩
    · obtain ⟨⟨id, hid⟩, -⟩ := mem_pending.mp (hmem e he)
      exact (hS.keyed id e hid) ▸ hid
    · have hnodup : (RedbEngine.getPendingEffects S pendingLimit).Nodup := by
        rw [getPendingEffects_eq]
        exact hS.pending_nodup.sublist (List.take_sublist ..)
      refine hnodup.map_on fun e he e' he' heq => ?_
      -- one id, one effect
      obtain ⟨⟨id, hid⟩, -⟩ := mem_pending.mp (hmem e he)
      obtain ⟨⟨id', hid'⟩, -⟩ := mem_pending.mp (hmem e' he')
      obtain rfl : id = id' := (hS.keyed id e hid).symm.trans (heq.trans (hS.keyed id' e' hid'))
      exact Option.some.inj (hid.symm.trans hid')
  | settle effect rest status hbatch _ _ =>
    subst hbatch
    obtain ⟨hhead, hnodup⟩ := List.nodup_cons.mp (List.map_cons ▸ h.nodup)
    refine ⟨fun e he => ?_, fun e he => h.pending e (List.mem_cons_of_mem _ he), hnodup⟩
    -- the effect just settled has another id
    have hne : effect.id ≠ e.id := fun heq => hhead (heq ▸ List.mem_map_of_mem he)
    change (S.effects.insert effect.id _)[e.id]? = some e
    rw [Table.get_insert_of_ne _ _ hne]
    exact h.stored e (List.mem_cons_of_mem _ he)
  | giveBack fault effect rest hbatch =>
    subst hbatch
    exact ⟨fun e he => h.stored e (List.mem_cons_of_mem _ he),
      fun e he => h.pending e (List.mem_cons_of_mem _ he), (List.nodup_cons.mp h.nodup).2⟩

end Steps

/-! ### Runs -/

section Runs

variable {cfg : Config} {guards : GuardRegistry} {ls : List DispatchLabel} {d : Dispatching}

/-- The run of the engine inside draws fresh ids too. -/
theorem exists_freshRun (hrun : (dispatching cfg).exec (Dispatching.initial guards) ls = some d)
    (hfresh : FreshIds (others ls)) : ∃ els, FreshIds els ∧
      (engine cfg).exec (World.initial Store.empty guards) els = some d.world := by
  obtain ⟨els, hels, hinvoke, -⟩ := exists_engineRun hrun
  exact ⟨els, hfresh.of_invokes hinvoke, hels⟩

theorem FreshIds.others_left {ls more : List DispatchLabel} (h : FreshIds (others (ls ++ more))) :
    FreshIds (others ls) := by
  refine h.mono fun el hel => ?_
  rw [mem_others] at hel ⊢
  exact List.mem_append_left _ hel

theorem batchFact_of_run (hrun : (dispatching cfg).exec (Dispatching.initial guards) ls = some d)
    (hfresh : FreshIds (others ls)) : BatchFact d.world.store d.dispatcher.batch := by
  refine System.exec_induction_labels
    (I := fun ls d => FreshIds (others ls) → BatchFact d.world.store d.dispatcher.batch)
    (fun _ => BatchFact.nil _) ?_ hrun hfresh
  intro ls d l d' hrun ih hstep hfresh
  have hbatch := ih hfresh.others_left
  obtain ⟨els, hels, hexec⟩ := exists_freshRun hrun hfresh.others_left
  exact hbatch.step (originInvariant_of_run hels hexec).outbox
    (outboxStep_sound hels hexec hbatch hstep)

/-- **Induction along the steps of the outbox**, from one moment of a run to its end. -/
theorem outbox_induction {I : List DispatchLabel → Dispatching → Prop}
    (hrun : (dispatching cfg).exec (Dispatching.initial guards) ls = some d)
    (hfresh : FreshIds (others ls)) {m : ℕ} {dm : Dispatching}
    (hm : (dispatching cfg).stateAt (Dispatching.initial guards) ls m = some dm) (hinit : I [] dm)
    (hstep : ∀ more d l d', OutboxInvariant d.world.store →
      BatchFact d.world.store d.dispatcher.batch →
      OutboxStep d.world.store d.dispatcher.batch l d'.world.store d'.dispatcher.batch →
      I more d → I (more ++ [l]) d') : I (ls.drop m) d := by
  obtain ⟨dm', hm', hrest⟩ := System.exec_split hrun m
  obtain rfl := Option.some.inj (hm.symm.trans hm')
  rw [← List.take_append_drop m ls] at hfresh
  refine System.exec_induction_labels
    (I := fun more d => FreshIds (others (ls.take m ++ more)) → I more d) (fun _ => hinit) ?_ hrest hfresh
  intro more d l d' hmore ih hl hfresh
  rw [← List.append_assoc] at hfresh
  have hbefore : (dispatching cfg).exec (Dispatching.initial guards) (ls.take m ++ more) = some d := by
    rw [System.exec_append, show (dispatching cfg).exec _ (ls.take m) = some dm from hm]
    exact hmore
  have hbatch := batchFact_of_run hbefore hfresh.others_left
  obtain ⟨els, hels, hexec⟩ := exists_freshRun hbefore hfresh.others_left
  exact hstep more d l d' (originInvariant_of_run hels hexec).outbox hbatch
    (outboxStep_sound hels hexec hbatch hl) (ih hfresh.others_left)

/-- **An effect is settled once.** Whatever stands in the outbox at one moment stands there ever after,
with the same id, transition and payload, and once it is not pending, with the same status. -/
theorem effect_settled_once
    (hrun : (dispatching cfg).exec (Dispatching.initial guards) ls = some d)
    (hfresh : FreshIds (others ls)) {m : ℕ} {dm : Dispatching}
    (hm : (dispatching cfg).stateAt (Dispatching.initial guards) ls m = some dm) {id : String}
    {e : Effect} (he : dm.world.store.effects[id]? = some e) :
    ∃ status, d.world.store.effects[id]? = some { e with status } ∧
      (e.status ≠ .pending → status = e.status) := by
  refine outbox_induction (I := fun _ d => ∃ status,
    d.world.store.effects[id]? = some { e with status } ∧ (e.status ≠ .pending → status = e.status))
    hrun hfresh hm ⟨e.status, he, fun _ => rfl⟩ ?_
  rintro - d l d' hS hbatch hstep ⟨status, hstored, hkept⟩
  generalize d'.world.store = S' at hstep ⊢
  generalize d'.dispatcher.batch = batch' at hstep
  cases hstep with
  | quiet heff _ => exact ⟨status, by rw [heff]; exact hstored, hkept⟩
  | write written hcommit hnew _ _ =>
    exact ⟨status, (hcommit.get_effects hnew).mpr (Or.inr hstored), hkept⟩
  | read _ => exact ⟨status, hstored, hkept⟩
  | giveBack fault effect rest _ => exact ⟨status, hstored, hkept⟩
  | settle effect rest status' heq _ _ =>
    have hmem : effect ∈ d.dispatcher.batch := heq ▸ List.mem_cons_self
    by_cases hid : effect.id = id
    · -- it is this one, and it was pending
      subst hid
      obtain rfl := Option.some.inj ((hbatch.stored effect hmem).symm.trans hstored)
      refine ⟨status', Table.get_insert_self _ _ _, fun hne => ?_⟩
      exact absurd ((hkept hne).symm.trans (hbatch.pending _ hmem)) hne
    · refine ⟨status, ?_, hkept⟩
      change (d.world.store.effects.insert effect.id _)[id]? = _
      rw [Table.get_insert_of_ne _ _ hid]
      exact hstored

/-- A read of the pending effects that goes through. -/
def DispatchLabel.reads : DispatchLabel → Bool
  | .readPending none => true
  | _ => false

/-- A mark that fails. -/
def DispatchLabel.failsMark : DispatchLabel → Bool
  | .mark (some _) => true
  | _ => false

theorem DispatchLabel.reads_eq_false {l : DispatchLabel} (h : l ≠ .readPending none) :
    l.reads = false := by
  unfold reads
  split
  · exact absurd rfl h
  · rfl

/-- The accounts of a queue that is served in batches of `limit`. There were `w₀` entries waiting of
`t₀` ever written; now there are `w` of `t`, after `k` batches and `f` entries given back. -/
structure Accounts (limit w₀ t₀ w t k f : ℕ) : Prop where
  total : t₀ ≤ t
  atMost : w₀ + (t - t₀) ≤ w + limit * k
  atLeast : w ≤ (w₀ - limit * k) + (t - t₀) + f

namespace Accounts

variable {limit w₀ t₀ w t k f : ℕ}

theorem add (h : Accounts limit w₀ t₀ w t k f) (n : ℕ) :
    Accounts limit w₀ t₀ (n + w) (n + t) k f := by
  obtain ⟨htotal, hmost, hleast⟩ := h
  exact ⟨by omega, by omega, by omega⟩

theorem serve (h : Accounts limit w₀ t₀ w t k f) :
    Accounts limit w₀ t₀ (w - limit) t (k + 1) f := by
  obtain ⟨htotal, hmost, hleast⟩ := h
  have hk : limit * (k + 1) = limit * k + limit := Nat.mul_succ limit k
  exact ⟨htotal, by omega, by omega⟩

theorem giveBack (h : Accounts limit w₀ t₀ w t k f) :
    Accounts limit w₀ t₀ (w + 1) t k (f + 1) := by
  obtain ⟨htotal, hmost, hleast⟩ := h
  exact ⟨htotal, by omega, by omega⟩

theorem mono (h : Accounts limit w₀ t₀ w t k f) {f' : ℕ} (hf : f ≤ f') :
    Accounts limit w₀ t₀ w t k f' :=
  ⟨h.total, h.atMost, h.atLeast.trans (Nat.add_le_add_left hf _)⟩

end Accounts

/-- The effects that are pending and in no batch. -/
def waiting (S : Store) (batch : List Effect) : ℕ := S.pending.length - batch.length

/-- A step of the outbox, in numbers. -/
theorem Accounts.step {S S' : Store} {batch batch' : List Effect} {l : DispatchLabel}
    {w₀ t₀ k f : ℕ} (h : Accounts pendingLimit w₀ t₀ (waiting S batch) S.effects.values.length k f)
    (hS : OutboxInvariant S) (hbatch : BatchFact S batch) (hstep : OutboxStep S batch l S' batch') :
    Accounts pendingLimit w₀ t₀ (waiting S' batch') S'.effects.values.length
      (k + if l.reads then 1 else 0) (f + if l.failsMark then 1 else 0) := by
  have hle := hbatch.length_le
  unfold waiting at h ⊢
  cases hstep with
  | quiet heff hl =>
    rw [Store.pending, heff, ← Store.pending, DispatchLabel.reads_eq_false hl]
    exact h.mono (Nat.le_add_right _ _)
  | write written hcommit hnew hpending hl =>
    have hp := (hS.pending_commit hcommit hnew hpending).length_eq
    have hv := (hS.values_commit hcommit hnew).length_eq
    rw [List.length_append] at hp hv
    rw [hp, hv, DispatchLabel.reads_eq_false hl, Nat.add_sub_assoc hle]
    exact (h.add written.length).mono (Nat.le_add_right _ _)
  | read hnone =>
    subst hnone
    have hlen : (RedbEngine.getPendingEffects S pendingLimit).length
        = min pendingLimit S.pending.length := by
      rw [getPendingEffects_eq]
      exact List.length_take
    have hserve := h.serve
    rw [List.length_nil, Nat.sub_zero] at hserve
    have hrest : S.pending.length - min pendingLimit S.pending.length
        = S.pending.length - pendingLimit := by omega
    rw [hlen, hrest]
    exact hserve
  | settle effect rest status heq hstatus hl =>
    subst heq
    have hstored := hbatch.stored effect List.mem_cons_self
    have hp := (hS.pending_mark hstored (hbatch.pending effect List.mem_cons_self) hstatus).length_eq
    rw [List.length_cons] at hp hle
    rw [hp, List.length_cons, Nat.add_sub_add_right] at h
    rw [Store.length_values_marked hstored, DispatchLabel.reads_eq_false hl]
    exact h.mono (Nat.le_add_right _ _)
  | giveBack fault effect rest heq =>
    subst heq
    rw [List.length_cons] at h hle
    have hback := h.giveBack
    rw [← Nat.sub_sub, Nat.sub_add_cancel (by omega)] at hback
    exact hback

/-- **The accounts of the outbox.** Between two moments at which the dispatcher rests, let it read `k`
times and let `f` of its marks fail. It settles at most `256 * k` effects. And it settles that many of
those that were pending at first, or all of them, but for at most `f`. -/
theorem outbox_backlog
    (hrun : (dispatching cfg).exec (Dispatching.initial guards) ls = some d)
    (hfresh : FreshIds (others ls)) {m : ℕ} {dm : Dispatching}
    (hm : (dispatching cfg).stateAt (Dispatching.initial guards) ls m = some dm)
    (hrest : dm.dispatcher = .resting) (hrest' : d.dispatcher = .resting) :
    let k := (ls.drop m).countP DispatchLabel.reads
    let f := (ls.drop m).countP DispatchLabel.failsMark
    let written := d.world.store.effects.values.length - dm.world.store.effects.values.length
    dm.world.store.pending.length + written ≤ d.world.store.pending.length + 256 * k ∧
    d.world.store.pending.length ≤ (dm.world.store.pending.length - 256 * k) + written + f := by
  have haccounts := outbox_induction (I := fun more d =>
      Accounts pendingLimit dm.world.store.pending.length dm.world.store.effects.values.length
        (waiting d.world.store d.dispatcher.batch) d.world.store.effects.values.length
        (more.countP DispatchLabel.reads) (more.countP DispatchLabel.failsMark)) hrun hfresh hm ?_ ?_
  · rw [hrest'] at haccounts
    exact ⟨haccounts.atMost, haccounts.atLeast⟩
  · rw [hrest]
    exact ⟨le_rfl, by simp [waiting, DispatcherState.batch], by simp [waiting, DispatcherState.batch]⟩
  · intro more d l d' hS hbatch hstep h
    rw [List.countP_append, List.countP_append, List.countP_singleton, List.countP_singleton]
    exact h.step hS hbatch hstep

end Runs

/-- The receipt cannot be marked published and is marked failed; then there is another dispatch. -/
def failedReceipt : List DispatchLabel :=
  opening ++ payment ++ passFor 7 ++ [.readPending none, .mark (some (.io "disk full")), .mark none]
    ++ passFor 5 ++ [.readPending none]

theorem failedReceipt_draws : FreshIds (others failedReceipt) := by
  refine FreshIds.of_ofNat fun i c hmem => ?_
  obtain ⟨rfl, rfl⟩ : i = 0 ∧ c = payOrder 0 "o1" none := by
    simpa [mem_others, failedReceipt, opening, payment, passFor, steps] using hmem
  rfl

theorem effect_settled_once_failedReceipt :
    ∃ d e, (dispatching oneStripe).exec (Dispatching.initial ∅) failedReceipt = some d ∧
      d.world.store.effects[receiptId]? = some e ∧ e.status = .failed := by
  have heval : ((dispatching oneStripe).exec (Dispatching.initial ∅) failedReceipt).map
      (fun d => d.world.store.effects.values.length) = some 1 := by decide
  -- as it is when the first dispatch is over
  have hmid : ((dispatching oneStripe).stateAt (Dispatching.initial ∅) failedReceipt 21).map
      (fun d => d.world.store.effects[receiptId]?.map Effect.status) = some (some .failed) := by decide
  obtain ⟨d, hrun, -⟩ := Option.map_eq_some_iff.mp heval
  obtain ⟨dm, hm, hdm⟩ := Option.map_eq_some_iff.mp hmid
  obtain ⟨e, he, hstatus⟩ := Option.map_eq_some_iff.mp hdm
  obtain ⟨status, hend, hkept⟩ := effect_settled_once hrun failedReceipt_draws hm he
  exact ⟨d, _, hrun, hend, (hkept (by rw [hstatus]; decide)).trans hstatus⟩

theorem outbox_backlog_failedReceipt :
    ∃ dm d, (dispatching oneStripe).stateAt (Dispatching.initial ∅) failedReceipt 11 = some dm ∧
      (dispatching oneStripe).exec (Dispatching.initial ∅) failedReceipt = some d ∧
      dm.world.store.pending.length = 1 ∧ d.world.store.pending.length ≤ 1 := by
  have heval : ((dispatching oneStripe).exec (Dispatching.initial ∅) failedReceipt).map
      (fun d => (d.dispatcher matches .resting, d.world.store.effects.values.length))
      = some (true, 1) := by decide
  have hmid : ((dispatching oneStripe).stateAt (Dispatching.initial ∅) failedReceipt 11).map
      (fun d => (d.dispatcher matches .resting, d.world.store.effects.values.length,
        d.world.store.pending.length)) = some (true, 1, 1) := by decide
  obtain ⟨d, hrun, hd⟩ := Option.map_eq_some_iff.mp heval
  obtain ⟨dm, hm, hdm⟩ := Option.map_eq_some_iff.mp hmid
  simp only [Prod.mk.injEq] at hd hdm
  have hresting : ∀ st : DispatcherState, (st matches .resting) = true → st = .resting := by
    intro st hst
    cases st with
    | resting => rfl
    | _ => exact absurd hst (by simp)
  obtain ⟨-, hup⟩ := outbox_backlog hrun failedReceipt_draws hm (hresting _ hdm.1) (hresting _ hd.1)
  refine ⟨dm, d, hm, hrun, hdm.2.2, ?_⟩
  -- two reads, one failed mark, nothing written in between
  have hk : (failedReceipt.drop 11).countP DispatchLabel.reads = 2 := rfl
  have hf : (failedReceipt.drop 11).countP DispatchLabel.failsMark = 1 := rfl
  rw [hk, hf, hd.2, hdm.2.1, hdm.2.2] at hup
  exact hup

end StateMaster
