import Mathlib

/-!
# Lists

Facts about lists that several parts of a development need: what an update at one place leaves
alone, lists that are related member by member, and lists with one member of interest.
-/

namespace Framework

section Modify

variable {α : Type} {f : α → α} {l : List α} {i : ℕ}

theorem mem_modify_cases {a : α} (h : a ∈ l.modify i f) :
    a ∈ l ∨ ∃ b, l[i]? = some b ∧ a = f b := by
  obtain ⟨j, hj⟩ := List.getElem?_of_mem h
  rw [List.getElem?_modify, Option.map_eq_map, Option.map_eq_some_iff] at hj
  obtain ⟨b, hb, ha⟩ := hj
  split at ha
  · next hij => exact Or.inr ⟨b, hij ▸ hb, ha.symm⟩
  · exact Or.inl (ha ▸ List.mem_of_getElem? hb)

/-- The same by place: the member at another place is the one that was there. -/
theorem getElem?_modify_cases {a : α} {j : ℕ} (h : (l.modify i f)[j]? = some a) :
    i ≠ j ∧ l[j]? = some a ∨ i = j ∧ ∃ b, l[i]? = some b ∧ a = f b := by
  rw [List.getElem?_modify, Option.map_eq_map, Option.map_eq_some_iff] at h
  obtain ⟨b, hb, ha⟩ := h
  split at ha
  · next hij => exact Or.inr ⟨hij, b, hij ▸ hb, ha.symm⟩
  · next hij => exact Or.inl ⟨hij, ha ▸ hb⟩

/-- Two lists that are related stay so when one of their pairs is. -/
theorem forall₂_modify {β : Type} {R : α → β → Prop} {l : List α} {l' : List β}
    (h : List.Forall₂ R l l') {n : ℕ} {g : β → β}
    (hn : ∀ a b, l[n]? = some a → l'[n]? = some b → R a b → R a (g b)) :
    List.Forall₂ R l (l'.modify n g) := by
  induction h generalizing n with
  | nil => simp
  | cons hab hrest ih =>
    cases n with
    | zero => exact .cons (hn _ _ rfl rfl hab) hrest
    | succ n => exact .cons hab (ih fun a b ha hb => hn a b ha hb)

/-- An update that does not touch what is asked for. -/
theorem map_modify_eq {β : Type} {g : α → β} (h : ∀ a, g (f a) = g a) (l : List α) (i : ℕ) :
    (l.modify i f).map g = l.map g := by
  refine List.ext_getElem? fun j => ?_
  rw [List.getElem?_map, List.getElem?_map, List.getElem?_modify]
  cases l[j]? with
  | none => rfl
  | some a =>
    refine congrArg some ?_
    dsimp only
    split
    · exact h a
    · rfl

/-- An update that makes one member smaller. -/
theorem sum_map_modify_lt {g : α → ℕ} {a : α} (h : l[i]? = some a) (hlt : g (f a) < g a) :
    ((l.modify i f).map g).sum < (l.map g).sum := by
  induction l generalizing i with
  | nil => exact absurd h (by simp)
  | cons b rest ih =>
    cases i with
    | zero =>
      obtain rfl := Option.some.inj h
      exact Nat.add_lt_add_right hlt _
    | succ i => exact Nat.add_lt_add_left (ih h) _

end Modify

/-- Lists whose keys increase are equal if they have the same members. -/
theorem eq_of_pairwise_lt {α κ : Type} [Preorder κ] {key : α → κ} {l l' : List α}
    (h : l.Pairwise fun a b => key a < key b) (h' : l'.Pairwise fun a b => key a < key b)
    (hmem : ∀ a, a ∈ l ↔ a ∈ l') : l = l' := by
  have hnodup : ∀ {k : List α}, (k.Pairwise fun a b => key a < key b) → k.Nodup := by
    intro k hk
    refine hk.imp ?_
    rintro a _ hlt rfl
    exact lt_irrefl _ hlt
  exact List.Perm.eq_of_pairwise (fun _ _ _ _ hlt hgt => absurd hlt hgt.asymm) h h'
    ((List.perm_ext_iff_of_nodup (hnodup h) (hnodup h')).mpr hmem)

variable {α β : Type}

/-- A member of the left list has a partner in the right one. -/
theorem exists_of_forall₂_mem {R : α → β → Prop} {l : List α} {l' : List β}
    (h : List.Forall₂ R l l') {a : α} (ha : a ∈ l) : ∃ b ∈ l', R a b := by
  induction h with
  | nil => exact absurd ha List.not_mem_nil
  | cons hab _ ih =>
    obtain rfl | ha := List.mem_cons.mp ha
    · exact ⟨_, List.mem_cons_self, hab⟩
    · obtain ⟨b, hmem, hb⟩ := ih ha
      exact ⟨b, List.mem_cons_of_mem _ hmem, hb⟩

/-- What is related to the first members of a list, cut short. -/
theorem forall₂_take_of_prefix {R : α → β → Prop} {l : List α} {m : ℕ} {l' l'' : List β}
    (h : List.Forall₂ R (l.take m) l') (hle : l'' <+: l') :
    List.Forall₂ R (l.take l''.length) l'' := by
  have hlen : l''.length ≤ m :=
    (hle.length_le.trans h.length_eq.symm.le).trans (List.length_take_le _ _)
  have hcut := List.forall₂_take l''.length h
  rwa [List.take_take, min_eq_left hlen, ← List.prefix_iff_eq_take.mp hle] at hcut

/-- What stands in a prefix stands at the same place of the whole. -/
theorem prefix_getElem? {l l' : List α} (h : l <+: l') {n : ℕ} {a : α} (ha : l[n]? = some a) :
    l'[n]? = some a := by
  obtain ⟨hn, rfl⟩ := List.getElem?_eq_some_iff.mp ha
  exact List.prefix_iff_getElem?.mp h n hn

/-- A member of a list with one more at its end is a member of the list, or that one. -/
theorem getElem?_concat_cases {l : List α} {a b : α} {n : ℕ} (h : (l ++ [a])[n]? = some b) :
    l[n]? = some b ∨ n = l.length ∧ a = b := by
  obtain ⟨hn, rfl⟩ := List.getElem?_eq_some_iff.mp h
  rw [List.length_append, List.length_singleton] at hn
  obtain hlt | rfl := Nat.lt_succ_iff_lt_or_eq.mp hn
  · exact Or.inl (by rw [List.getElem_append_left hlt]; exact List.getElem?_eq_getElem hlt)
  · exact Or.inr ⟨rfl, by simp⟩

/-- A list with one member of interest. -/
theorem flatMap_eq_of_unique {κ : Type} (key : α → κ) {f : α → List β} {l : List α} {a : α}
    (hnodup : (l.map key).Nodup) (ha : a ∈ l) (hothers : ∀ b ∈ l, key b ≠ key a → f b = []) :
    l.flatMap f = f a := by
  induction l with
  | nil => exact absurd ha List.not_mem_nil
  | cons b l ih =>
    obtain ⟨hb, hnodup⟩ := List.nodup_cons.mp hnodup
    obtain ⟨hfb, hrest⟩ := List.forall_mem_cons.mp hothers
    rw [List.flatMap_cons]
    obtain rfl | ha := List.mem_cons.mp ha
    · -- its key does not occur again
      have hnil : l.flatMap f = [] := by
        refine List.flatMap_eq_nil_iff.mpr fun c hc => hrest c hc fun heq => ?_
        exact hb (heq ▸ List.mem_map_of_mem hc)
      rw [hnil, List.append_nil]
    · rw [hfb fun heq => hb (heq ▸ List.mem_map_of_mem ha), List.nil_append]
      exact ih hnodup ha hrest

end Framework
