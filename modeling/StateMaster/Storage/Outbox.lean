import StateMaster.Framework.Scan
import StateMaster.Storage.Log

/-!
# The outbox

Two tables hold the outbox: the effects under their ids, and an index that lists, under the id of a
transition and the separator, the effects it emitted. The dispatcher reads the index by a prefix
scan. Transition ids are hyphenated UUIDs, so they hold no separator and the scan reads exactly the
effects of its transition (`OutboxInvariant.getEffectsForTransition_perm`).

After it is written an effect changes its status only, and a commit writes effects of its own
transition only: what a transition has stored for its subscribers (`Store.payloads`) is settled by
its own commit (`Commit.payloads_of_ne`, `Store.payloads_marked`).
-/

open Framework Framework.Text

namespace StateMaster

/-- What travels of an effect on the change stream. -/
def Effect.toPayload (e : Effect) : EffectPayload := ⟨e.effectName, e.payload⟩

/-- The effects stored for a transition, as they travel. -/
def Store.payloads (S : Store) (transitionId : TransitionId) : List EffectPayload :=
  (S.effects.values.filter fun e => e.transitionId == transitionId).map Effect.toPayload

/-- Effects know their ids, and the index lists each of them under its transition. -/
structure OutboxInvariant (S : Store) : Prop where
  keyed : ∀ (id : String) (e : Effect), S.effects[id]? = some e → e.id = id
  nulFree : ∀ (id : String) (e : Effect), S.effects[id]? = some e → NulFree e.transitionId
  index : ∀ key id : String, S.effectsByTxn[key]? = some id ↔
    ∃ e : Effect, S.effects[id]? = some e ∧ key = effectByTxnKey e.transitionId id

theorem OutboxInvariant.empty : OutboxInvariant Store.empty where
  keyed id e h := by
    change (∅ : Table String Effect)[id]? = some e at h
    exact absurd h (by simp)
  nulFree id e h := by
    change (∅ : Table String Effect)[id]? = some e at h
    exact absurd h (by simp)
  index key id := by
    change (∅ : Table String String)[key]? = some id ↔
      ∃ e, (∅ : Table String Effect)[id]? = some e ∧ _
    simp

/-! ### Keys of the index -/

theorem effectByTxnKey_toList (transitionId effectId : String) :
    (effectByTxnKey transitionId effectId).toList
      = transitionId.toList ++ nulChar :: effectId.toList :=
  entityStateKey_toList transitionId effectId

/-- The index key of a separator-free transition id can be read back. -/
theorem effectByTxnKey_inj {t t' e e' : String} (ht : NulFree t) (ht' : NulFree t')
    (h : effectByTxnKey t e = effectByTxnKey t' e') : t = t' ∧ e = e' :=
  entityStateKey_injective_of_nulFree ht ht' h

/-- Under one effect, an index key shows its transition. -/
theorem effectByTxnKey_left_inj {t t' e : String} :
    effectByTxnKey t e = effectByTxnKey t' e ↔ t = t' := by
  rw [← String.toList_inj, effectByTxnKey_toList, effectByTxnKey_toList, List.append_left_inj,
    String.toList_inj]

/-- **What the effect scan selects**: the keys of its own transition. -/
theorem startsWith_effectByTxnKey_iff {t t' e : String} (ht : NulFree t) (ht' : NulFree t') :
    startsWith (effectByTxnKey t' e) (effectByTxnPrefix t) = true ↔ t' = t := by
  have hpre : (effectByTxnPrefix t).toList = t.toList ++ [nulChar] := by
    unfold effectByTxnPrefix
    rw [String.toList_append, nul_toList]
  rw [startsWith_iff, hpre, effectByTxnKey_toList]
  constructor
  · rintro ⟨rest, hrest⟩
    rw [List.append_assoc, List.singleton_append] at hrest
    exact String.toList_inj.mp (append_sep_inj_left ht ht' hrest).1.symm
  · rintro rfl
    exact ⟨e.toList, by rw [List.append_assoc, List.singleton_append]⟩

/-! ### Reading the outbox -/

section Reading

variable {S : Store} {transitionId : TransitionId}

theorem mem_effects_values {e : Effect} :
    e ∈ S.effects.values ↔ ∃ id : String, S.effects[id]? = some e :=
  S.effects.mem_values

theorem OutboxInvariant.values_nodup (hS : OutboxInvariant S) : S.effects.values.Nodup :=
  S.effects.values_nodup hS.keyed

theorem mem_getEffectsForTransition {e : Effect} :
    e ∈ RedbEngine.getEffectsForTransition S transitionId ↔
      ∃ key id : String, S.effectsByTxn[key]? = some id ∧
        startsWith key (effectByTxnPrefix transitionId) = true ∧ S.effects[id]? = some e := by
  unfold RedbEngine.getEffectsForTransition
  simp only [Table.prefixScan_eq, List.mem_filterMap, List.mem_filter, Prod.exists,
    Table.mem_toList, and_assoc]

theorem OutboxInvariant.getEffectsForTransition_nodup (hS : OutboxInvariant S) :
    (RedbEngine.getEffectsForTransition S transitionId).Nodup := by
  unfold RedbEngine.getEffectsForTransition
  simp only [Table.prefixScan_eq]
  refine List.pairwise_filterMap.mpr
    (((Table.toList_ordered S.effectsByTxn).filter _).imp_of_mem ?_)
  intro a b ha hb hab e he e' he' heq
  subst heq
  -- One effect stands under one index key.
  have hone : ∀ p ∈ S.effectsByTxn.toList, S.effects[p.2]? = some e →
      p.1 = effectByTxnKey e.transitionId e.id := by
    intro p hp hpe
    obtain ⟨e', he', hkey⟩ := (hS.index p.1 p.2).mp (S.effectsByTxn.mem_toList.mp hp)
    rw [hpe] at he'
    obtain rfl := Option.some.inj he'
    rw [hkey, hS.keyed p.2 e hpe]
  have hkey := (hone a (List.mem_filter.mp ha).1 he).trans
    (hone b (List.mem_filter.mp hb).1 he').symm
  unfold Table.Before at hab
  rw [hkey, Std.compare_self] at hab
  exact absurd hab (by decide)

/-- **The scan reads exactly the effects of its transition.** -/
theorem OutboxInvariant.getEffectsForTransition_perm (hS : OutboxInvariant S)
    (hid : NulFree transitionId) :
    (RedbEngine.getEffectsForTransition S transitionId).Perm
      (S.effects.values.filter fun e => e.transitionId == transitionId) := by
  refine (List.perm_ext_iff_of_nodup hS.getEffectsForTransition_nodup
    (hS.values_nodup.filter _)).mpr fun e => ?_
  rw [mem_getEffectsForTransition, List.mem_filter, mem_effects_values, beq_iff_eq]
  constructor
  · rintro ⟨key, id, hkey, hpre, he⟩
    obtain ⟨e', he', rfl⟩ := (hS.index key id).mp hkey
    rw [he] at he'
    obtain rfl := Option.some.inj he'
    exact ⟨⟨id, he⟩, (startsWith_effectByTxnKey_iff hid (hS.nulFree id e he)).mp hpre⟩
  · rintro ⟨⟨id, he⟩, rfl⟩
    have hpre := (startsWith_effectByTxnKey_iff (e := id) hid hid).mpr rfl
    exact ⟨_, id, (hS.index _ id).mpr ⟨e, he, rfl⟩, hpre, he⟩

end Reading

/-! ### Writing the outbox -/

/-- The effects of a commit are new: their ids differ from each other and from those stored. -/
structure NewEffects (S : Store) (written : List Effect) : Prop where
  nodup : (written.map Effect.id).Nodup
  unseen : ∀ e ∈ written, S.effects[e.id]? = none
  nulFree : ∀ e ∈ written, NulFree e.transitionId

section Commits

variable {S S' : Store} {record : TransitionRecord} {newState : EntityState}
  {written : List Effect}

/-- What a commit adds to the effects. -/
theorem Commit.get_effects (h : Commit S record newState written S') (hnew : NewEffects S written)
    {id : String} {e : Effect} : S'.effects[id]? = some e ↔
      (e ∈ written ∧ e.id = id) ∨ S.effects[id]? = some e := by
  rw [h.effects]
  refine (Table.get_foldl_insert_eq_some_iff Effect.id (fun e => e) S.effects hnew.nodup
    hnew.unseen).trans (or_congr_left ?_)
  constructor
  · rintro ⟨e', he', hid, rfl⟩
    exact ⟨he', hid⟩
  · exact fun ⟨he, hid⟩ => ⟨e, he, hid, rfl⟩

/-- What a commit adds to the index. -/
theorem Commit.get_effectsByTxn (h : Commit S record newState written S')
    (hS : OutboxInvariant S) (hnew : NewEffects S written) {key id : String} :
    S'.effectsByTxn[key]? = some id ↔
      (∃ e ∈ written, effectByTxnKey e.transitionId e.id = key ∧ e.id = id) ∨
        S.effectsByTxn[key]? = some id := by
  -- The ids differ, and a key can be read back to its id.
  have hkeys : (written.map fun e => effectByTxnKey e.transitionId e.id).Nodup := by
    refine List.pairwise_map.mpr ((List.pairwise_map.mp hnew.nodup).imp_of_mem ?_)
    intro a b ha hb hab hkey
    exact hab (effectByTxnKey_inj (hnew.nulFree a ha) (hnew.nulFree b hb) hkey).2
  have hunseen : ∀ e ∈ written, S.effectsByTxn[effectByTxnKey e.transitionId e.id]? = none := by
    intro e he
    cases hk : S.effectsByTxn[effectByTxnKey e.transitionId e.id]? with
    | none => rfl
    | some id =>
      obtain ⟨e', he', hkey⟩ := (hS.index _ id).mp hk
      obtain ⟨-, rfl⟩ := effectByTxnKey_inj (hnew.nulFree e he) (hS.nulFree id e' he') hkey
      exact absurd (he'.symm.trans (hnew.unseen e he)) (by simp)
  rw [h.effectsByTxn]
  exact Table.get_foldl_insert_eq_some_iff _ Effect.id S.effectsByTxn hkeys hunseen

theorem OutboxInvariant.commit (hS : OutboxInvariant S) (h : Commit S record newState written S')
    (hnew : NewEffects S written) : OutboxInvariant S' where
  keyed id e he := by
    rcases (h.get_effects hnew).mp he with ⟨-, hid⟩ | he
    · exact hid
    · exact hS.keyed id e he
  nulFree id e he := by
    rcases (h.get_effects hnew).mp he with ⟨hmem, -⟩ | he
    · exact hnew.nulFree e hmem
    · exact hS.nulFree id e he
  index key id := by
    rw [h.get_effectsByTxn hS hnew, hS.index]
    constructor
    · rintro (⟨e, he, rfl, rfl⟩ | ⟨e, he, rfl⟩)
      · exact ⟨e, (h.get_effects hnew).mpr (Or.inl ⟨he, rfl⟩), rfl⟩
      · exact ⟨e, (h.get_effects hnew).mpr (Or.inr he), rfl⟩
    · rintro ⟨e, he, rfl⟩
      rcases (h.get_effects hnew).mp he with ⟨hmem, rfl⟩ | he
      · exact Or.inl ⟨e, hmem, rfl, rfl⟩
      · exact Or.inr ⟨e, he, rfl⟩

/-- **A commit leaves the effects of every other transition alone.** -/
theorem Commit.payloads_of_ne (h : Commit S record newState written S')
    (hnew : NewEffects S written) {transitionId : TransitionId}
    (hne : ∀ e ∈ written, e.transitionId ≠ transitionId) :
    S'.payloads transitionId = S.payloads transitionId := by
  unfold Store.payloads Table.values
  rw [List.filter_map, List.filter_map, Table.eq_of_ordered
    ((Table.toList_ordered _).filter _) ((Table.toList_ordered S.effects).filter _)]
  rintro ⟨id, e⟩
  simp only [List.mem_filter, Table.mem_toList, Function.comp_apply, beq_iff_eq,
    h.get_effects hnew]
  constructor
  · rintro ⟨⟨hmem, -⟩ | he, hid⟩
    · exact absurd hid (hne e hmem)
    · exact ⟨he, hid⟩
  · exact fun ⟨he, hid⟩ => ⟨Or.inr he, hid⟩

/-- **What a commit stores for its own transition** is what it was given to write. -/
theorem Commit.payloads_self (h : Commit S record newState written S') (hS : OutboxInvariant S)
    (hnew : NewEffects S written) {transitionId : TransitionId}
    (hown : ∀ e ∈ written, e.transitionId = transitionId)
    (hold : ∀ (id : String) (e : Effect), S.effects[id]? = some e →
      e.transitionId ≠ transitionId) :
    (S'.payloads transitionId).Perm (written.map Effect.toPayload) := by
  unfold Store.payloads
  refine List.Perm.map _ ((List.perm_ext_iff_of_nodup ((hS.commit h hnew).values_nodup.filter _)
    (List.Nodup.of_map _ hnew.nodup)).mpr fun e => ?_)
  rw [List.mem_filter, mem_effects_values, beq_iff_eq]
  constructor
  · rintro ⟨⟨id, he⟩, htxn⟩
    rcases (h.get_effects hnew).mp he with ⟨hmem, -⟩ | he
    · exact hmem
    · exact absurd htxn (hold id e he)
  · intro hmem
    exact ⟨⟨e.id, (h.get_effects hnew).mpr (Or.inl ⟨hmem, rfl⟩)⟩, hown e hmem⟩

end Commits

section Marks

variable {S : Store} {effectId : String} {effect : Effect}

/-- The store after a mark of one effect. -/
def Store.marked (S : Store) (effectId : String) (effect : Effect) (status : EffectStatus) :
    Store :=
  { S with effects := S.effects.insert effectId { effect with status } }

theorem Store.marked_keepsLog (status : EffectStatus) :
    KeepsLog S (S.marked effectId effect status) :=
  ⟨rfl, rfl, rfl, rfl, rfl⟩

/-- An effect that stands after a mark stood before it, with the same id and transition. -/
theorem Store.get_marked (heffect : S.effects[effectId]? = some effect) {status : EffectStatus}
    {id : String} {e : Effect}
    (he : (S.marked effectId effect status).effects[id]? = some e) :
    ∃ e₀ : Effect, S.effects[id]? = some e₀ ∧ e₀.id = e.id ∧
      e₀.transitionId = e.transitionId := by
  change (S.effects.insert effectId { effect with status })[id]? = some e at he
  rw [Table.get_insert] at he
  split at he
  · next hid =>
    obtain rfl := Option.some.inj he
    exact ⟨effect, hid ▸ heffect, rfl, rfl⟩
  · exact ⟨e, he, rfl, rfl⟩

/-- An effect that stands before a mark stands after it, with at most another status. -/
theorem Store.marked_get (heffect : S.effects[effectId]? = some effect) (status : EffectStatus)
    {id : String} {e : Effect} (he : S.effects[id]? = some e) :
    ∃ status', (S.marked effectId effect status).effects[id]?
      = some { e with status := status' } := by
  change ∃ status', (S.effects.insert effectId { effect with status })[id]? = _
  rw [Table.get_insert]
  split
  · next hid =>
    rw [← hid, heffect] at he
    obtain rfl := Option.some.inj he
    exact ⟨status, rfl⟩
  · exact ⟨e.status, he⟩

theorem OutboxInvariant.mark (hS : OutboxInvariant S)
    (heffect : S.effects[effectId]? = some effect) (status : EffectStatus) :
    OutboxInvariant (S.marked effectId effect status) := by
  refine ⟨fun id e he => ?_, fun id e he => ?_, fun key id => ?_⟩
  · obtain ⟨e₀, he₀, hid, -⟩ := Store.get_marked heffect he
    exact hid ▸ hS.keyed id e₀ he₀
  · obtain ⟨e₀, he₀, -, htxn⟩ := Store.get_marked heffect he
    exact htxn ▸ hS.nulFree id e₀ he₀
  · refine (hS.index key id).trans ⟨?_, ?_⟩
    · rintro ⟨e, he, rfl⟩
      obtain ⟨status', he₁⟩ := Store.marked_get heffect status he
      exact ⟨_, he₁, rfl⟩
    · rintro ⟨e, he, rfl⟩
      obtain ⟨e₀, he₀, -, htxn⟩ := Store.get_marked heffect he
      exact ⟨e₀, he₀, by rw [htxn]⟩

/-- **A mark changes nothing a subscriber sees.** -/
theorem Store.payloads_marked (heffect : S.effects[effectId]? = some effect)
    (status : EffectStatus) (transitionId : TransitionId) :
    (S.marked effectId effect status).payloads transitionId = S.payloads transitionId := by
  have hsame : ∀ p ∈ S.effects.toList, p.1 = effectId → p.2 = effect := by
    rintro ⟨id, e⟩ hp rfl
    exact Option.some.inj ((S.effects.mem_toList.mp hp).symm.trans heffect)
  unfold Store.payloads Table.values Store.marked
  dsimp only
  rw [Table.toList_insert_of_get S.effects _ heffect]
  -- Entry by entry, the selection and the payload are those of the entry before.
  generalize S.effects.toList = entries at hsame
  induction entries with
  | nil => rfl
  | cons p rest ih =>
    have ih := ih fun q hq => hsame q (List.mem_cons_of_mem _ hq)
    have hp := hsame p List.mem_cons_self
    simp only [List.map_cons, List.filter_cons]
    by_cases hid : p.1 = effectId
    · rw [if_pos hid, hp hid]
      split
      · rw [List.map_cons, List.map_cons, ih]
        rfl
      · exact ih
    · rw [if_neg hid]
      split
      · rw [List.map_cons, List.map_cons, ih]
      · exact ih

end Marks

end StateMaster
