import StateMaster.Storage.Log

/-!
# The order in which the outbox is drained

`get_pending_effects` scans the table of effects, keeps the pending ones and stops at its limit. The
table iterates in the order of its keys, and these are the ids of the effects, drawn at random when
an effect is made. So a batch is the front of the pending effects in the order of their ids
(`pending_ordered`), whatever their ages are.

* `effectsKeyed_of_reachable` — in every table the storage interface can produce, an effect stands
  under its own id;
* `drained_oldest_first_iff` — a batch is made of the oldest pending effects, oldest first, exactly
  when no pending effect is older than one of the first `limit` with a smaller id.
-/

open Framework Framework.Text

namespace StateMaster

/-! ### Effects stand under their ids -/

/-- Every effect is stored under its own id. -/
def EffectsKeyed (S : Store) : Prop :=
  ∀ (id : String) (e : Effect), S.effects[id]? = some e → e.id = id

theorem EffectsKeyed.congr {S S' : Store} (h : EffectsKeyed S) (heq : S'.effects = S.effects) :
    EffectsKeyed S' := by
  unfold EffectsKeyed
  rw [heq]
  exact h

theorem EffectsKeyed.insert {S S' : Store} (h : EffectsKeyed S) (effect : Effect)
    (heq : S'.effects = S.effects.insert effect.id effect) : EffectsKeyed S' := by
  intro id e he
  rw [heq, Table.get_insert] at he
  split at he
  · next hid => rw [← Option.some.inj he, hid]
  · exact h id e he

/-- The loop that writes effects keeps them under their ids. -/
theorem EffectsKeyed.writeEffects {S : Store} (h : EffectsKeyed S) (effects : List Effect) :
    EffectsKeyed (RedbEngine.writeEffects S effects) := by
  induction effects generalizing S with
  | nil => exact h.congr rfl
  | cons effect effects ih =>
    -- the first insertion, then the rest of the loop
    have hone : EffectsKeyed (RedbEngine.writeEffects S [effect]) := h.insert effect rfl
    exact (ih hone).congr rfl

theorem EffectsKeyed.updateEffectStatus {S S' : Store} (h : EffectsKeyed S) {effectId : String}
    {status : EffectStatus} (hupdate : RedbEngine.updateEffectStatus S effectId status = .ok S') :
    EffectsKeyed S' := by
  unfold RedbEngine.updateEffectStatus at hupdate
  split at hupdate
  · next effect heffect =>
    obtain rfl := Except.ok.inj hupdate
    refine h.insert { effect with status } ?_
    rw [← h effectId effect heffect]
  · exact absurd hupdate (by simp)

theorem EffectsKeyed.run {S S' : Store} (h : EffectsKeyed S) {call : WriteCall}
    (hrun : call.run S = .ok S') : EffectsKeyed S' := by
  cases call with
  | storeMachine machine =>
    obtain rfl := Except.ok.inj hrun
    exact h.congr rfl
  | upsertEntityState state => exact h.congr (upsertEntityState_effects hrun)
  | appendTransition record =>
    obtain rfl := Except.ok.inj hrun
    exact h.congr rfl
  | insertEffects effects =>
    obtain rfl := Except.ok.inj hrun
    exact h.writeEffects effects
  | markEffectPublished effectId => exact h.updateEffectStatus hrun
  | markEffectFailed effectId => exact h.updateEffectStatus hrun
  | executeTransition record newState effects =>
    exact (h.writeEffects effects).congr (WriteCall.commit_of_run hrun).effects

/-- **In every table the storage interface can produce, an effect stands under its own id.** -/
theorem effectsKeyed_of_reachable {S : Store} (hS : storage.Reachable Store.empty S) :
    EffectsKeyed S := by
  obtain ⟨steps, hrun⟩ := hS
  refine System.exec_induction (I := EffectsKeyed) ?_ ?_ hrun
  · intro id e he
    exact absurd he (by simp [Store.empty])
  · intro S step S' h hstep
    obtain rfl : step.exec S = S' := Option.some.inj hstep
    unfold StorageStep.exec
    cases hout : step.outcome S with
    | error e => exact h
    | ok S' => exact h.run (withFault_eq_ok hout)

/-- The effects of a table stand in the order of their ids. -/
theorem EffectsKeyed.values_ordered {S : Store} (h : EffectsKeyed S) :
    S.effects.values.Pairwise fun e e' => e.id < e'.id := by
  refine List.pairwise_map.mpr ((Table.toList_ordered S.effects).imp_of_mem ?_)
  intro a b ha hb hab
  have hlt : a.1 < b.1 := compareOfLessAndEq_eq_lt.mp hab
  rwa [← h a.1 a.2 (S.effects.mem_toList.mp ha), ← h b.1 b.2 (S.effects.mem_toList.mp hb)] at hlt

theorem EffectsKeyed.pending_ordered {S : Store} (h : EffectsKeyed S) :
    S.pending.Pairwise fun e e' => e.id < e'.id :=
  h.values_ordered.filter _

/-! ### Batches -/

/-- **When the outbox is drained oldest first.** In every reachable table and for every limit, the
batch is made of the pending effects with the smallest `created_at`, in ascending order, exactly
when no pending effect is older than one of the first `limit` with a smaller id. It is so for every
limit exactly when the ids of the pending effects were drawn in the order of their creation. -/
theorem drained_oldest_first_iff {S : Store} (hS : storage.Reachable Store.empty S) :
    (∀ limit, SmallestFirst Effect.createdAt S.pending limit (RedbEngine.getPendingEffects S limit) ↔
      ∀ e ∈ S.pending.take limit, ∀ e' ∈ S.pending, e.id < e'.id → e.createdAt ≤ e'.createdAt) ∧
    ((∀ limit, SmallestFirst Effect.createdAt S.pending limit
        (RedbEngine.getPendingEffects S limit)) ↔
      ∀ e ∈ S.pending, ∀ e' ∈ S.pending, e.id < e'.id → e.createdAt ≤ e'.createdAt) := by
  have hord := (effectsKeyed_of_reachable hS).pending_ordered
  have : Std.Asymm fun e e' : Effect => e.id < e'.id := ⟨fun _ _ => String.lt_asymm⟩
  simp only [getPendingEffects_eq]
  exact ⟨fun limit => smallestFirst_take_iff hord limit, forall_smallestFirst_take_iff hord⟩

/-- A receipt made at time `createdAt`, under a given id. -/
def receipt (id : String) (createdAt : DateTime) : Effect :=
  Effect.new id createdAt "t1" "receipt" .null

/-- Two receipts whose ids were drawn against the order of their creation: a batch of one holds the
newer one. -/
theorem not_drained_oldest_first :
    ¬ ∀ S : Store, storage.Reachable Store.empty S → ∀ limit,
      SmallestFirst Effect.createdAt S.pending limit (RedbEngine.getPendingEffects S limit) := by
  intro hdrained
  have hrun : storage.Reachable Store.empty
      (RedbEngine.insertEffects Store.empty [receipt "e2" 0, receipt "e1" 1]) :=
    ⟨[⟨.insertEffects [receipt "e2" 0, receipt "e1" 1], none⟩], rfl⟩
  have hbatch := (hdrained _ hrun 1).passed (receipt "e1" 1) (by decide) (receipt "e2" 0) (by decide)
    (by decide)
  exact absurd hbatch (by decide)

/-- Ids drawn in the order of creation drain the outbox oldest first, whatever was published. -/
theorem drained_oldest_first_iff_published :
    ∃ S : Store, storage.Reachable Store.empty S ∧ S.pending = [receipt "e2" 1, receipt "e3" 2] ∧
      ∀ limit, SmallestFirst Effect.createdAt S.pending limit
        (RedbEngine.getPendingEffects S limit) := by
  have hS : ∃ S, storage.exec Store.empty
      [⟨.insertEffects [receipt "e1" 0, receipt "e2" 1, receipt "e3" 2], none⟩,
        ⟨.markEffectPublished "e1", none⟩] = some S ∧
      S.pending = [receipt "e2" 1, receipt "e3" 2] := ⟨_, rfl, by decide⟩
  obtain ⟨S, hrun, hpending⟩ := hS
  refine ⟨S, ⟨_, hrun⟩, hpending, (drained_oldest_first_iff ⟨_, hrun⟩).2.mpr ?_⟩
  rw [hpending]
  decide

end StateMaster
