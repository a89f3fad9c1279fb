import Mathlib

/-!
# Words between blanks

Splitting a list at its blanks and putting the words back together with one separator between them
gives the list with every run of blanks squeezed to one separator, and none at the ends
(`intercalate_wordsFrom`). What comes out has no blank but the separator, and no two in a row
(`squeeze_calm`).

The alphabet is arbitrary; `blank` says which of its letters separate words.
-/

namespace Framework

namespace Words

variable {α : Type} (blank : α → Bool) (sep : α)

/-- The words of a list, `current` being the one that is being read. -/
def wordsFrom (current : List α) : List α → List (List α)
  | [] => if current.isEmpty then [] else [current]
  | c :: rest =>
    if blank c then
      if current.isEmpty then wordsFrom [] rest else current :: wordsFrom [] rest
    else wordsFrom (current ++ [c]) rest

/-- Every run of blanks squeezed to one separator, with none at the end. Blanks in front are dropped
too, unless something stands before them (`mid`). -/
def squeeze (mid : Bool) : List α → List α
  | [] => []
  | c :: rest =>
    if blank c then
      if mid && !(squeeze false rest).isEmpty then sep :: squeeze false rest
      else squeeze false rest
    else c :: squeeze true rest

variable {blank sep}

theorem ne_nil_of_mem_wordsFrom {current l w : List α} (h : w ∈ wordsFrom blank current l) :
    w ≠ [] := by
  induction l generalizing current with
  | nil =>
    unfold wordsFrom at h
    split at h
    · exact absurd h List.not_mem_nil
    · next hne =>
      rw [List.mem_singleton.mp h]
      simpa using hne
  | cons c rest ih =>
    unfold wordsFrom at h
    split at h
    · split at h
      · exact ih h
      · next hne =>
        rcases List.mem_cons.mp h with rfl | h
        · simpa using hne
        · exact ih h
    · exact ih h

/-- A nonblank letter in front is squeezed to itself, wherever it stands. -/
theorem squeeze_cons_of_not_blank {mid : Bool} {c : α} (hc : blank c = false) (rest : List α) :
    squeeze blank sep mid (c :: rest) = c :: squeeze blank sep true rest := by
  rw [squeeze, if_neg (by rw [hc]; exact Bool.false_ne_true)]

theorem squeeze_false_cons {c : α} (hc : blank c = true) (rest : List α) :
    squeeze blank sep false (c :: rest) = squeeze blank sep false rest := by
  rw [squeeze, if_pos hc, Bool.false_and, if_neg Bool.false_ne_true]

/-- Behind a word, a run of blanks is one separator, unless nothing follows. -/
theorem squeeze_true_cons {c : α} (hc : blank c = true) (rest : List α) :
    squeeze blank sep true (c :: rest)
      = if (squeeze blank sep false rest).isEmpty then []
        else sep :: squeeze blank sep false rest := by
  rw [squeeze, if_pos hc, Bool.true_and]
  cases hrest : (squeeze blank sep false rest).isEmpty with
  | true =>
    rw [Bool.not_true, if_neg Bool.false_ne_true, if_pos rfl]
    exact List.isEmpty_iff.mp hrest
  | false => rw [Bool.not_false, if_pos rfl, if_neg Bool.false_ne_true]

/-- Words put together again are empty only if there are none. -/
theorem intercalate_wordsFrom_isEmpty (current l : List α) :
    ([sep].intercalate (wordsFrom blank current l)).isEmpty = (wordsFrom blank current l).isEmpty := by
  cases hw : wordsFrom blank current l with
  | nil => rfl
  | cons w ws =>
    have hne : w ≠ [] := ne_nil_of_mem_wordsFrom (by rw [hw]; exact List.mem_cons_self)
    cases w with
    | nil => exact absurd rfl hne
    | cons a w =>
      cases ws with
      | nil => rfl
      | cons w' ws => rfl

/-- **Words put together again are the squeezed list.** -/
theorem intercalate_wordsFrom (current l : List α) :
    [sep].intercalate (wordsFrom blank current l)
      = current ++ squeeze blank sep (!current.isEmpty) l := by
  induction l generalizing current with
  | nil =>
    unfold wordsFrom squeeze
    cases current with
    | nil => rfl
    | cons a current => simp
  | cons c rest ih =>
    have hempty : ([sep].intercalate (wordsFrom blank [] rest)).isEmpty
        = (wordsFrom blank [] rest).isEmpty := intercalate_wordsFrom_isEmpty [] rest
    have ih₀ := ih []
    rw [List.nil_append, List.isEmpty_nil, Bool.not_true] at ih₀
    unfold wordsFrom
    by_cases hc : blank c = true
    · rw [if_pos hc]
      cases current with
      | nil =>
        rw [if_pos List.isEmpty_nil, ih₀, List.nil_append, List.isEmpty_nil, Bool.not_true,
          squeeze_false_cons hc]
      | cons a current =>
        rw [if_neg (by simp), List.isEmpty_cons, Bool.not_false, squeeze_true_cons hc, ← ih₀, hempty]
        -- the word just read is the last one, or a separator follows it
        cases hw : wordsFrom blank [] rest with
        | nil => simp
        | cons w ws => simp [List.intercalate_cons_cons]
    · rw [if_neg hc, ih, squeeze_cons_of_not_blank (Bool.eq_false_of_not_eq_true hc)]
      have hmid : (!(current ++ [c]).isEmpty) = true := by simp
      rw [hmid, List.append_assoc, List.singleton_append]

/-! ### Calm lists -/

/-- No blank but the separator, and no two in a row. -/
structure Calm (blank : α → Bool) (sep : α) (l : List α) : Prop where
  blanks : ∀ c ∈ l, blank c = true → c = sep
  runs : l.IsChain fun a b => ¬ (blank a = true ∧ blank b = true)

theorem Calm.of_isInfix {l l' : List α} (h : Calm blank sep l) (hl : l' <:+: l) :
    Calm blank sep l' where
  blanks c hc := h.blanks c (hl.subset hc)
  runs := List.IsChain.infix h.runs hl

theorem head_squeeze_false {l : List α} {c : α} (h : (squeeze blank sep false l).head? = some c) :
    blank c = false := by
  induction l with
  | nil => exact absurd h (by simp [squeeze])
  | cons a rest ih =>
    by_cases ha : blank a = true
    · rw [squeeze_false_cons ha] at h
      exact ih h
    · have ha := Bool.eq_false_of_not_eq_true ha
      rw [squeeze_cons_of_not_blank ha] at h
      obtain rfl := Option.some.inj h
      exact ha

theorem Calm.cons_of_not_blank {l : List α} {c : α} (h : Calm blank sep l) (hc : blank c = false) :
    Calm blank sep (c :: l) where
  blanks a ha hblank := by
    rcases List.mem_cons.mp ha with rfl | ha
    · exact absurd (hc.symm.trans hblank) Bool.false_ne_true
    · exact h.blanks a ha hblank
  runs := by
    refine List.isChain_cons.mpr ⟨fun b _ hboth => ?_, h.runs⟩
    exact absurd (hc.symm.trans hboth.1) Bool.false_ne_true

/-- **What is squeezed is calm.** -/
theorem squeeze_calm (mid : Bool) (l : List α) : Calm blank sep (squeeze blank sep mid l) := by
  induction l generalizing mid with
  | nil => exact ⟨fun c hc => absurd hc List.not_mem_nil, List.isChain_nil⟩
  | cons c rest ih =>
    by_cases hc : blank c = true
    · cases mid with
      | false =>
        rw [squeeze_false_cons hc]
        exact ih false
      | true =>
        rw [squeeze_true_cons hc]
        split
        · exact ⟨fun c hc => absurd hc List.not_mem_nil, List.isChain_nil⟩
        · refine ⟨fun a ha hblank => ?_, List.isChain_cons.mpr ⟨fun b hb hboth => ?_, (ih false).runs⟩⟩
          · rcases List.mem_cons.mp ha with rfl | ha
            · rfl
            · exact (ih false).blanks a ha hblank
          · -- a word follows the separator
            exact absurd ((head_squeeze_false hb).symm.trans hboth.2) Bool.false_ne_true
    · rw [squeeze_cons_of_not_blank (Bool.eq_false_of_not_eq_true hc)]
      exact (ih true).cons_of_not_blank (Bool.eq_false_of_not_eq_true hc)

end Words

end Framework
