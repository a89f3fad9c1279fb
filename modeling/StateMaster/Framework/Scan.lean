import StateMaster.Framework.Table
import StateMaster.Framework.Text

/-!
# Prefix scans

The entries of a table whose key starts with a given prefix are often read by a range that begins
at the prefix and stops at the first key without it. In the order of strings these keys stand
together, right after the prefix itself, so the scan misses none of them (`prefixScan_eq`).
-/

open Std Framework.Text

namespace Framework

/-- Stopping at the first element outside a selection loses nothing if the selection is closed
towards the front of the list. -/
theorem takeWhile_eq_filter_of_pairwise {α : Type} {p : α → Bool} {l : List α}
    (h : l.Pairwise fun a b => p b = true → p a = true) : l.takeWhile p = l.filter p := by
  induction l with
  | nil => rfl
  | cons a l ih =>
    obtain ⟨ha, hl⟩ := List.pairwise_cons.mp h
    by_cases hp : p a = true
    · rw [List.takeWhile_cons_of_pos hp, List.filter_cons_of_pos hp, ih hl]
    · rw [List.takeWhile_cons_of_neg hp, List.filter_cons_of_neg hp, List.filter_eq_nil_iff.mpr]
      exact fun b hb hpb => hp (ha b hb hpb)

namespace Text

/-- Between a prefix and a word that starts with it, every word starts with it. -/
theorem prefix_of_between {p a b : List Char} (hpa : ¬ a < p) (hab : a < b) (hb : p <+: b) :
    p <+: a := by
  induction p generalizing a b with
  | nil => exact List.nil_prefix
  | cons c p ih =>
    obtain ⟨t, rfl⟩ := hb
    cases a with
    | nil => exact absurd (List.nil_lt_cons c p) hpa
    | cons d a =>
      rw [List.cons_append] at hab
      rw [List.cons_lt_cons_iff] at hpa hab
      -- The first characters cannot differ: `d` is squeezed from both sides.
      obtain ⟨rfl, hat⟩ : d = c ∧ a < p ++ t := hab.resolve_left fun hdc => hpa (Or.inl hdc)
      have hap : ¬ a < p := fun h => hpa (Or.inr ⟨rfl, h⟩)
      exact List.cons_prefix_cons.mpr ⟨rfl, ih hap hat (List.prefix_append p t)⟩

theorem compare_isLE_iff {a b : String} : (compare a b).isLE = true ↔ ¬ b.toList < a.toList := by
  rw [← String.lt_iff_toList_lt, String.not_lt]
  exact isLE_compareOfLessAndEq String.le_antisymm String.not_le String.le_total

theorem not_append_lt (p t : List Char) : ¬ p ++ t < p := by
  induction p with
  | nil => exact List.not_lt_nil _
  | cons c p ih =>
    rw [List.cons_append, List.cons_lt_cons_iff]
    rintro (hlt | ⟨-, hlt⟩)
    · exact Char.lt_irrefl c hlt
    · exact ih hlt

/-- Words with the same start compare as what follows it. -/
theorem lt_of_append_lt {p a b : List Char} (h : p ++ a < p ++ b) : a < b := by
  induction p with
  | nil => exact h
  | cons c p ih =>
    rw [List.cons_append, List.cons_append, List.cons_lt_cons_iff] at h
    exact ih (h.resolve_left (Char.lt_irrefl c)).2

end Text

namespace Table

variable {V : Type}

/-- **A prefix scan reads every entry with the prefix.** -/
theorem prefixScan_eq (t : Table String V) (p : String) :
    (t.rangeFrom p).takeWhile (fun e => startsWith e.1 p)
      = t.toList.filter fun e => startsWith e.1 p := by
  rw [takeWhile_eq_filter_of_pairwise]
  · unfold rangeFrom
    rw [List.filter_filter]
    refine List.filter_congr fun e _ => ?_
    by_cases he : startsWith e.1 p = true
    · obtain ⟨t, ht⟩ := startsWith_iff.mp he
      have hle := compare_isLE_iff.mpr (ht ▸ not_append_lt p.toList t)
      rw [he, hle, Bool.and_self]
    · rw [Bool.eq_false_iff.mpr he, Bool.false_and]
  · -- All keys of the range are at least `p`, which leaves room for the prefixed ones only.
    refine List.Pairwise.imp_of_mem ?_ (rangeFrom_ordered t p)
    intro a b ha _ hab hb
    have hpa : ¬ a.1.toList < p.toList := compare_isLE_iff.mp (t.mem_rangeFrom.mp ha).2
    have hlt : a.1 < b.1 := compareOfLessAndEq_eq_lt.mp hab
    rw [startsWith_iff] at hb ⊢
    exact prefix_of_between hpa (String.lt_iff_toList_lt.mp hlt) hb

end Table

end Framework
