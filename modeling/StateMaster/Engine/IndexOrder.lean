import StateMaster.Engine.History

/-!
# Places in the entity index

A history lists records in the order of their index keys. The keys of one pair of NUL-free names stand
in the order of their sequences, and keys of other pairs may stand among them: those whose names go on,
after the separator, like the end of such a key.

* `Appends.selected` — an append goes into the history of its pair at the place of its key (`placed`),
  not at the end;
* `LogInvariant.same_side` — the next two sequences lead to the same place, unless a stored record
  stands between the two keys (`Store.Parts`);
* `LogInvariant.foreignTail_placed` — the place of the newest record, counted from the end.
-/

open Framework Framework.Text

namespace StateMaster

/-! ### Placing a record -/

/-- A record put at the place of its key into records in the order of theirs. -/
def placed (r : TransitionRecord) (l : List TransitionRecord) : List TransitionRecord :=
  l.filter (fun x => decide (x.indexKey < r.indexKey)) ++
    r :: l.filter fun x => decide (r.indexKey < x.indexKey)

theorem mem_placed {r x : TransitionRecord} {l : List TransitionRecord}
    (hne : ∀ y ∈ l, y.indexKey ≠ r.indexKey) : x ∈ placed r l ↔ x ∈ l ∨ x = r := by
  simp only [placed, List.mem_append, List.mem_cons, List.mem_filter, decide_eq_true_eq]
  constructor
  · rintro (⟨hx, -⟩ | rfl | ⟨hx, -⟩)
    · exact Or.inl hx
    · exact Or.inr rfl
    · exact Or.inl hx
  · rintro (hx | rfl)
    · rcases lt_or_gt_of_ne (hne x hx) with hlt | hgt
      · exact Or.inl ⟨hx, hlt⟩
      · exact Or.inr (Or.inr ⟨hx, hgt⟩)
    · exact Or.inr (Or.inl rfl)

theorem placed_ordered {r : TransitionRecord} {l : List TransitionRecord}
    (h : l.Pairwise fun x y => x.indexKey < y.indexKey) :
    (placed r l).Pairwise fun x y => x.indexKey < y.indexKey := by
  refine List.pairwise_append.mpr ⟨h.filter _, List.pairwise_cons.mpr ⟨?_, h.filter _⟩, ?_⟩
  · intro x hx
    exact of_decide_eq_true (List.mem_filter.mp hx).2
  · intro x hx y hy
    have hxr := of_decide_eq_true (List.mem_filter.mp hx).2
    rcases List.mem_cons.mp hy with rfl | hy
    · exact hxr
    · exact hxr.trans (of_decide_eq_true (List.mem_filter.mp hy).2)

section Append

variable {S : Store}

/-- A logged record does not stand under a key of a later sequence. -/
theorem LogInvariant.indexKey_ne (hS : LogInvariant S) {x : TransitionRecord} (hx : x ∈ S.log)
    (e m : String) {s : ℕ} (hs : S.sequence < s) : x.indexKey ≠ entityTransitionKey e m s := by
  intro heq
  have hseq := (entityTransitionKey_inj heq).2
  have hle := hS.sequence_le_of_mem hx
  omega

/-- A record of NUL-free names is placed in its own pair's history, and in no other's. -/
theorem Appends.selected {S' : Store} {record : TransitionRecord} (h : Appends S record S')
    (hS : LogInvariant S) (he : NulFree record.entityId) (hm : NulFree record.machine)
    (e m : String) {after : ℕ} (hafter : after ≤ S.sequence) :
    S'.selected e m after
      = if record.entityId = e ∧ record.machine = m
        then placed { record with sequence := S.sequence + 1 } (S.selected e m after)
        else S.selected e m after := by
  by_cases hpair : record.entityId = e ∧ record.machine = m
  · obtain ⟨rfl, rfl⟩ := hpair
    rw [if_pos ⟨rfl, rfl⟩]
    refine eq_of_pairwise_lt ((h.invariant hS).selected_ordered _ _ after)
      (placed_ordered (hS.selected_ordered _ _ after)) fun x => ?_
    have hfresh : ∀ y ∈ S.selected record.entityId record.machine after,
        y.indexKey ≠ TransitionRecord.indexKey { record with sequence := S.sequence + 1 } :=
      fun y hy => hS.indexKey_ne (hS.mem_selected_iff.mp hy).1 _ _ (Nat.lt_succ_self _)
    rw [mem_placed hfresh, hS.mem_selected_iff, (h.invariant hS).mem_selected_iff, h.log hS,
      List.mem_append, List.mem_singleton]
    constructor
    · rintro ⟨hold | rfl, hsel⟩
      · exact Or.inl ⟨hold, hsel⟩
      · exact Or.inr rfl
    · rintro (⟨hold, hsel⟩ | rfl)
      · exact ⟨Or.inl hold, hsel⟩
      · exact ⟨Or.inr rfl, startsWith_iff.mpr (List.prefix_refl _), Nat.lt_succ_of_le hafter⟩
  · have hpre : startsWith (entityTransitionPrefix record.entityId record.machine)
        (entityTransitionPrefix e m) = false := by
      rw [Bool.eq_false_iff]
      exact fun hpre => hpair ((startsWith_entityTransitionPrefix_iff he hm).mp hpre)
    rw [if_neg hpair, h.selected_of_not_prefix hS hpre]

end Append

/-! ### The places of a new record -/

/-- A stored record stands between the keys the pair gets for the next two sequences. -/
def Store.Parts (S : Store) (e m : String) : Prop :=
  ∃ r ∈ S.log, entityTransitionKey e m (S.sequence + 1) < r.indexKey ∧
    r.indexKey < entityTransitionKey e m (S.sequence + 2)

/-- How many records of other pairs a list ends with. -/
def foreignTail (e m : String) (l : List TransitionRecord) : ℕ :=
  (l.reverse.takeWhile fun r => !(r.entityId == e && r.machine == m)).length

section Places

variable {S : Store} {e m : String}

theorem entityTransitionKey_lt_succ {s : ℕ} (hs : s + 1 < 10 ^ 20) :
    entityTransitionKey e m s < entityTransitionKey e m (s + 1) := by
  rcases lt_trichotomy (entityTransitionKey e m s) (entityTransitionKey e m (s + 1)) with
    hlt | heq | hgt
  · exact hlt
  · exact absurd (entityTransitionKey_inj heq).2 (by omega)
  · have hlt := lt_of_entityTransitionKey_lt hs (by omega) hgt
    omega

/-- With nothing in between, a stored record is on the same side of both keys. -/
theorem LogInvariant.same_side (hS : LogInvariant S) (hroom : S.sequence + 2 < 10 ^ 20)
    (hparts : ¬ S.Parts e m) {x : TransitionRecord} (hx : x ∈ S.log) :
    (x.indexKey < entityTransitionKey e m (S.sequence + 1) ↔
      x.indexKey < entityTransitionKey e m (S.sequence + 2)) ∧
    (entityTransitionKey e m (S.sequence + 1) < x.indexKey ↔
      entityTransitionKey e m (S.sequence + 2) < x.indexKey) := by
  have hkeys : entityTransitionKey e m (S.sequence + 1) < entityTransitionKey e m (S.sequence + 2) :=
    entityTransitionKey_lt_succ hroom
  have hne := hS.indexKey_ne hx e m (Nat.lt_succ_self S.sequence)
  have hne' := hS.indexKey_ne hx e m (Nat.lt_add_of_pos_right (n := S.sequence) (k := 2) (by decide))
  rcases lt_or_gt_of_ne hne with hlt | hgt
  · have hlt' := hlt.trans hkeys
    exact ⟨iff_of_true hlt hlt', iff_of_false hlt.asymm hlt'.asymm⟩
  · have hgt' : entityTransitionKey e m (S.sequence + 2) < x.indexKey :=
      (lt_or_gt_of_ne hne').resolve_left fun hlt => hparts ⟨x, hx, hgt, hlt⟩
    exact ⟨iff_of_false hgt.asymm hgt'.asymm, iff_of_true hgt hgt'⟩

/-- A record between the keys of a pair is in its history. -/
theorem LogInvariant.mem_selected_of_between (hS : LogInvariant S) {x : TransitionRecord}
    (hx : x ∈ S.log) {s s' : ℕ} (hlow : entityTransitionKey e m s < x.indexKey)
    (hhigh : x.indexKey < entityTransitionKey e m s') : x ∈ S.selected e m 0 := by
  have hpos : 0 < x.sequence := by
    obtain ⟨s, hs⟩ := mem_log.mp hx
    rw [hS.sequence_eq s x hs]
    exact ((hS.present s).mp ⟨x, hs⟩).1
  refine hS.mem_selected_iff.mpr ⟨hx, ?_, hpos⟩
  rw [← startsWith_entityTransitionKey_iff (s := x.sequence), startsWith_iff]
  have hstarts : ∀ n, (entityTransitionPrefix e m).toList ++ (padDecimal 20 n).toList
      = (entityTransitionKey e m n).toList := by
    intro n
    rw [entityTransitionKey_toList, entityTransitionPrefix_toList]
  -- the key is not below the prefix, since the lower key starts with it
  have habove : ¬ x.indexKey.toList < (entityTransitionPrefix e m).toList := by
    intro hbelow
    have hlt := String.lt_iff_toList_lt.mp (hlow.trans (String.lt_iff_toList_lt.mpr hbelow))
    rw [← hstarts s] at hlt
    exact not_append_lt _ _ hlt
  refine prefix_of_between habove (String.lt_iff_toList_lt.mp hhigh) ?_
  rw [← hstarts s']
  exact List.prefix_append _ _

/-- In a log of NUL-free names nothing stands there: only the pair's own records have keys with its
prefix, and their sequences are used up. -/
theorem LogInvariant.not_parts (hS : LogInvariant S) (hroom : S.sequence + 2 < 10 ^ 20)
    (hnul : ∀ r ∈ S.log, NulFree r.entityId ∧ NulFree r.machine) (e m : String) :
    ¬ S.Parts e m := by
  rintro ⟨x, hx, hlow, hhigh⟩
  obtain ⟨he, hm⟩ := hnul x hx
  obtain ⟨-, hpre, -⟩ := hS.mem_selected_iff.mp (hS.mem_selected_of_between hx hlow hhigh)
  obtain ⟨rfl, rfl⟩ := (startsWith_entityTransitionPrefix_iff he hm).mp hpre
  have hle := hS.sequence_le_of_mem hx
  have hlt := lt_of_entityTransitionKey_lt (by omega) (by omega) hlow
  omega

/-- Behind the new record of a pair there are only records of others, since its sequence is the
largest. -/
theorem LogInvariant.foreignTail_placed (hS : LogInvariant S) {r : TransitionRecord}
    (he : r.entityId = e) (hm : r.machine = m) (hseq : S.sequence < r.sequence)
    (hroom : r.sequence < 10 ^ 20) (after : ℕ) :
    foreignTail e m (placed r (S.selected e m after))
      = ((S.selected e m after).filter fun x => decide (r.indexKey < x.indexKey)).length := by
  have hforeign : ∀ x ∈ (S.selected e m after).filter (fun x => decide (r.indexKey < x.indexKey)),
      (!(x.entityId == e && x.machine == m)) = true := by
    intro x hx
    obtain ⟨hsel, hlt⟩ := List.mem_filter.mp hx
    have hlt := of_decide_eq_true hlt
    rw [Bool.not_eq_true', Bool.and_eq_false_imp]
    intro hxe
    refine beq_eq_false_iff_ne.mpr fun hxm => ?_
    have hle := hS.sequence_le_of_mem (hS.mem_selected_iff.mp hsel).1
    unfold TransitionRecord.indexKey at hlt
    rw [he, hm, beq_iff_eq.mp hxe, hxm] at hlt
    have := lt_of_entityTransitionKey_lt hroom (by omega) hlt
    omega
  have hown : (!(r.entityId == e && r.machine == m)) = false := by
    rw [he, hm, beq_self_eq_true, beq_self_eq_true]
    rfl
  unfold foreignTail placed
  rw [List.reverse_append, List.reverse_cons, List.append_assoc, List.takeWhile_append_of_pos
    fun x hx => hforeign x (List.mem_reverse.mp hx), List.singleton_append,
    List.takeWhile_cons_of_neg (by rw [hown]; exact Bool.false_ne_true), List.append_nil,
    List.length_reverse]

end Places

end StateMaster
