import Mathlib

/-!
# Ordered tables

An embedded key/value store hands out *ordered* tables: a read at a key, an insertion that
replaces, and iteration in key order. `Table` is the standard library's extensional ordered map
read that way. What it adds to the map's own lemmas is about the order of iteration:

* `Table.eq_of_ordered` — an ordered list of entries is determined by its members;
* `Table.toList_insert_of_forall_lt` — inserting past the last key appends;
* `Table.filter_toList_insert` — inserting an unseen key a selection does not want leaves the
  selection alone;
* `Table.toList_insert_of_get` — replacing a value keeps its place.

A loop of insertions under distinct, unseen keys is read back by
`Table.get_foldl_insert_eq_some_iff`. A second table that points at the rows of a first one by a
name of theirs, its index, stays exact when a row of a new name is written to both
(`Table.index_insert`).
-/

open Std

namespace Framework

/-- An ordered table. -/
abbrev Table (K V : Type) [Ord K] : Type := ExtTreeMap K V

namespace Table

section Order

variable {K V : Type} [Ord K] [TransOrd K]

/-- The order in which a table iterates: strictly increasing keys. -/
def Before (a b : K × V) : Prop := compare a.1 b.1 = .lt

/-- The entries whose key is at least `start`, in key order. -/
def rangeFrom (t : Table K V) (start : K) : List (K × V) :=
  t.toList.filter fun p => (compare start p.1).isLE

/-- The values of a table in key order. -/
def values (t : Table K V) : List V := t.toList.map Prod.snd

@[simp] theorem get_insert_self (t : Table K V) (k : K) (v : V) :
    (t.insert k v)[k]? = some v :=
  ExtTreeMap.getElem?_insert_self

@[simp] theorem get_empty (a : K) : (∅ : Table K V)[a]? = none :=
  ExtTreeMap.getElem?_empty

theorem toList_ordered (t : Table K V) : t.toList.Pairwise Before :=
  ExtTreeMap.ordered_keys_toList

theorem rangeFrom_ordered (t : Table K V) (start : K) : (t.rangeFrom start).Pairwise Before :=
  (toList_ordered t).filter _

end Order

section Entries

variable {K V : Type} [Ord K] [TransOrd K] [LawfulEqOrd K]

theorem mem_toList (t : Table K V) {k : K} {v : V} : (k, v) ∈ t.toList ↔ t[k]? = some v :=
  ExtTreeMap.mem_toList_iff_getElem?_eq_some

theorem mem_values (t : Table K V) {v : V} : v ∈ t.values ↔ ∃ k : K, t[k]? = some v := by
  unfold values
  rw [List.mem_map]
  constructor
  · rintro ⟨⟨k, v'⟩, hmem, rfl⟩
    exact ⟨k, t.mem_toList.mp hmem⟩
  · rintro ⟨k, h⟩
    exact ⟨(k, v), t.mem_toList.mpr h, rfl⟩

/-- Values that know their key are listed once. -/
theorem values_nodup (t : Table K V) {key : V → K}
    (hkey : ∀ (k : K) (v : V), t[k]? = some v → key v = k) : t.values.Nodup := by
  unfold values
  refine List.pairwise_map.mpr ((toList_ordered t).imp_of_mem ?_)
  intro a b ha hb hab heq
  have hab' : a.1 = b.1 := by
    rw [← hkey a.1 a.2 (t.mem_toList.mp ha), ← hkey b.1 b.2 (t.mem_toList.mp hb), heq]
  rw [Before, hab', compare_self] at hab
  exact absurd hab (by decide)

/-- **An ordered list of entries is determined by its members.** -/
theorem eq_of_ordered {l₁ l₂ : List (K × V)} (h₁ : l₁.Pairwise Before) (h₂ : l₂.Pairwise Before)
    (hmem : ∀ p, p ∈ l₁ ↔ p ∈ l₂) : l₁ = l₂ := by
  have hirr : ∀ p : K × V, ¬ Before p p := by
    intro p hp
    rw [Before, compare_self] at hp
    exact absurd hp (by decide)
  have hnodup : ∀ {l : List (K × V)}, l.Pairwise Before → l.Nodup := by
    intro l h
    refine h.imp ?_
    rintro a b hab rfl
    exact hirr a hab
  refine List.Perm.eq_of_pairwise ?_ h₁ h₂
    ((List.perm_ext_iff_of_nodup (hnodup h₁) (hnodup h₂)).mpr hmem)
  intro a b _ _ hab hba
  exact absurd (OrientedCmp.gt_of_lt hab) (by rw [show compare b.1 a.1 = .lt from hba]; decide)

/-- The entries from `start` on are those at a key not below it. -/
theorem mem_rangeFrom (t : Table K V) {start k : K} {v : V} :
    (k, v) ∈ t.rangeFrom start ↔ t[k]? = some v ∧ (compare start k).isLE = true := by
  unfold rangeFrom
  rw [List.mem_filter, mem_toList]

variable [DecidableEq K]

theorem get_insert (t : Table K V) (k a : K) (v : V) :
    (t.insert k v)[a]? = if k = a then some v else t[a]? := by
  rw [ExtTreeMap.getElem?_insert]
  simp only [Std.compare_eq_iff_eq]

theorem get_insert_of_ne (t : Table K V) {k a : K} (v : V) (h : k ≠ a) :
    (t.insert k v)[a]? = t[a]? := by
  rw [get_insert, if_neg h]

theorem get_erase (t : Table K V) (k a : K) :
    (t.erase k)[a]? = if k = a then none else t[a]? := by
  rw [ExtTreeMap.getElem?_erase]
  simp only [Std.compare_eq_iff_eq]

theorem get_of_get_erase {t : Table K V} {k a : K} {v : V} (h : (t.erase k)[a]? = some v) :
    k ≠ a ∧ t[a]? = some v := by
  rw [get_erase] at h
  split at h
  · exact absurd h (by simp)
  · exact ⟨‹_›, h⟩

/-- **Inserting past the last key appends.** -/
theorem toList_insert_of_forall_lt (t : Table K V) {k : K} (v : V)
    (h : ∀ (a : K) (w : V), t[a]? = some w → compare a k = .lt) :
    (t.insert k v).toList = t.toList ++ [(k, v)] := by
  refine eq_of_ordered (toList_ordered _) ?_ ?_
  · rw [List.pairwise_append]
    refine ⟨toList_ordered t, List.pairwise_singleton _ _, ?_⟩
    rintro ⟨a, w⟩ ha p hp
    obtain rfl := List.mem_singleton.mp hp
    exact h a w (t.mem_toList.mp ha)
  · rintro ⟨a, w⟩
    rw [mem_toList, List.mem_append, List.mem_singleton, mem_toList, get_insert]
    by_cases hka : k = a
    · subst hka
      rw [if_pos rfl]
      constructor
      · intro hw
        exact Or.inr (by rw [Option.some.inj hw])
      · rintro (hw | hw)
        · have hlt := h k w hw
          rw [compare_self] at hlt
          exact absurd hlt (by decide)
        · rw [(Prod.mk.inj hw).2]
    · rw [if_neg hka]
      constructor
      · exact Or.inl
      · rintro (hw | hw)
        · exact hw
        · exact absurd (Prod.mk.inj hw).1.symm hka

/-- **A selection that does not want the new entry does not see it.** -/
theorem filter_toList_insert (t : Table K V) {k : K} {v : V} (p : K × V → Bool)
    (hfresh : t[k]? = none) (hp : p (k, v) = false) :
    (t.insert k v).toList.filter p = t.toList.filter p := by
  refine eq_of_ordered ((toList_ordered _).filter _) ((toList_ordered _).filter _) ?_
  rintro ⟨a, w⟩
  rw [List.mem_filter, List.mem_filter, mem_toList, mem_toList, get_insert]
  by_cases hka : k = a
  · subst hka
    rw [if_pos rfl, hfresh]
    constructor
    · rintro ⟨hw, hpw⟩
      rw [← Option.some.inj hw, hp] at hpw
      exact absurd hpw (by decide)
    · rintro ⟨hw, -⟩
      exact absurd hw (by simp)
  · rw [if_neg hka]

/-- **Replacing a value keeps its place.** -/
theorem toList_insert_of_get (t : Table K V) {k : K} {v : V} (v' : V) (h : t[k]? = some v) :
    (t.insert k v').toList = t.toList.map fun p => if p.1 = k then (p.1, v') else p := by
  refine eq_of_ordered (toList_ordered _) ?_ ?_
  · -- The keys, which are all the order looks at, are as before.
    refine List.pairwise_map.mpr ((toList_ordered t).imp ?_)
    intro a b hab
    have hfst : ∀ p : K × V, (if p.1 = k then (p.1, v') else p).1 = p.1 := by
      intro p
      split <;> rfl
    unfold Before at hab ⊢
    rw [hfst, hfst]
    exact hab
  · rintro ⟨a, w⟩
    rw [mem_toList, get_insert, List.mem_map]
    by_cases hka : k = a
    · subst hka
      rw [if_pos rfl]
      refine ⟨fun hw => ⟨(k, v), t.mem_toList.mpr h, by rw [if_pos rfl, Option.some.inj hw]⟩, ?_⟩
      rintro ⟨⟨a, u⟩, -, heq⟩
      split at heq
      · rw [(Prod.mk.inj heq).2]
      · next hne => exact absurd (Prod.mk.inj heq).1 hne
    · rw [if_neg hka]
      refine ⟨fun hw => ⟨(a, w), t.mem_toList.mpr hw, if_neg fun e => hka e.symm⟩, ?_⟩
      rintro ⟨⟨b, u⟩, hmem, heq⟩
      split at heq
      · next hb => exact absurd (hb.symm.trans (Prod.mk.inj heq).1) hka
      · obtain ⟨rfl, rfl⟩ := Prod.mk.inj heq
        exact t.mem_toList.mp hmem

/-! #### Loops of insertions -/

section Loop

variable {E : Type} (key : E → K) (val : E → V)

/-- A loop of insertions leaves every other key alone. -/
theorem get_foldl_insert_of_forall_ne (t : Table K V) {es : List E} {a : K}
    (h : ∀ e ∈ es, key e ≠ a) :
    (es.foldl (fun tbl e => tbl.insert (key e) (val e)) t)[a]? = t[a]? := by
  induction es generalizing t with
  | nil => rfl
  | cons e es ih =>
    rw [List.foldl_cons, ih _ fun e' he' => h e' (List.mem_cons_of_mem _ he')]
    exact get_insert_of_ne t _ (h e List.mem_cons_self)

/-- A loop of insertions under distinct keys leaves every entry it wrote. -/
theorem get_foldl_insert_of_mem (t : Table K V) {es : List E} (hnodup : (es.map key).Nodup)
    {e : E} (he : e ∈ es) :
    (es.foldl (fun tbl e => tbl.insert (key e) (val e)) t)[key e]? = some (val e) := by
  induction es generalizing t with
  | nil => exact absurd he List.not_mem_nil
  | cons e' es ih =>
    rw [List.map_cons, List.nodup_cons] at hnodup
    rw [List.foldl_cons]
    rcases List.mem_cons.mp he with rfl | he
    · -- Written first, and no later key of the loop is the same.
      rw [get_foldl_insert_of_forall_ne, get_insert_self]
      intro e' he' heq
      exact hnodup.1 (heq ▸ List.mem_map_of_mem he')
    · exact ih _ hnodup.2 he

/-- **A loop of insertions read back**, when its keys are distinct and new to the table. -/
theorem get_foldl_insert_eq_some_iff (t : Table K V) {es : List E}
    (hnodup : (es.map key).Nodup) (hnew : ∀ e ∈ es, t[key e]? = none) {a : K} {v : V} :
    (es.foldl (fun tbl e => tbl.insert (key e) (val e)) t)[a]? = some v ↔
      (∃ e ∈ es, key e = a ∧ val e = v) ∨ t[a]? = some v := by
  by_cases ha : ∃ e ∈ es, key e = a
  · obtain ⟨e, he, rfl⟩ := ha
    rw [get_foldl_insert_of_mem key val t hnodup he, hnew e he]
    constructor
    · exact fun h => Or.inl ⟨e, he, rfl, Option.some.inj h⟩
    · rintro (⟨e', he', hkey, rfl⟩ | h)
      · rw [List.inj_on_of_nodup_map hnodup he' he hkey]
      · exact absurd h (by simp)
  · have hne : ∀ e ∈ es, key e ≠ a := fun e he heq => ha ⟨e, he, heq⟩
    rw [get_foldl_insert_of_forall_ne key val t hne]
    exact ⟨Or.inr, fun h => h.resolve_left fun ⟨e, he, heq, _⟩ => hne e he heq⟩

end Loop

/-- **An index grows with its table.** Every row is listed under its name; a new row, whose name no
other has, is written to the table and to the index. -/
theorem index_insert {J : Type} [Ord J] [TransOrd J] [LawfulEqOrd J] [DecidableEq J]
    {rows : Table K V} {index : Table J K} (name : K → V → J)
    (h : ∀ (j : J) (k : K), index[j]? = some k ↔ ∃ v, rows[k]? = some v ∧ j = name k v)
    {k₀ : K} (v₀ : V) (hfree : rows[k₀]? = none)
    (hnew : ∀ (k : K) (v : V), rows[k]? = some v → name k₀ v₀ ≠ name k v) (j : J) (k : K) :
    (index.insert (name k₀ v₀) k₀)[j]? = some k ↔
      ∃ v, (rows.insert k₀ v₀)[k]? = some v ∧ j = name k v := by
  rw [get_insert, get_insert]
  by_cases hk : k₀ = k
  · -- The new row: the old index held nothing for it.
    subst hk
    have hold : index[j]? ≠ some k₀ := by
      intro hj
      obtain ⟨v, hv, -⟩ := (h j k₀).mp hj
      exact absurd (hfree.symm.trans hv) (by simp)
    rw [if_pos rfl]
    constructor
    · intro hj
      split at hj
      · next hname => exact ⟨v₀, rfl, hname.symm⟩
      · exact absurd hj hold
    · rintro ⟨v, hv, rfl⟩
      obtain rfl := Option.some.inj hv
      rw [if_pos rfl]
  · -- An old row: its name is not the new one.
    rw [if_neg hk, ← h j k]
    by_cases hname : name k₀ v₀ = j
    · rw [if_pos hname]
      refine ⟨fun h' => absurd (Option.some.inj h') hk, fun h' => ?_⟩
      obtain ⟨v, hv, hj⟩ := (h j k).mp h'
      exact absurd (hname.trans hj) (hnew k v hv)
    · rw [if_neg hname]

end Entries

end Table

end Framework
