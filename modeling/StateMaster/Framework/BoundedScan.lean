import Mathlib

/-!
# Bounded scans

A loop over a list that keeps the wanted elements and stops once it has enough of them. What it
returns is a piece of the list, in the order of the list (`boundedScan_eq`), so it returns the
smallest elements by some key only if the list happens to be arranged by that key.

`SmallestFirst` says what a batch of the smallest elements is, and `smallestFirst_take_iff` is the
exact condition under which the front of a list ordered by one relation is such a batch for another.
-/

namespace Framework

section Loop

variable {α : Type} (keep : α → Bool) (limit : ℕ)

/-- `for x in l { if results.len() >= limit { break } if keep(x) { results.push(x) } }`. -/
def boundedScan : List α → List α → List α
  | [], results => results
  | x :: rest, results =>
    if limit ≤ results.length then results
    else if keep x then boundedScan rest (results ++ [x])
    else boundedScan rest results

/-- The loop returns the first wanted elements, up to the limit. -/
theorem boundedScan_eq (l results : List α) :
    boundedScan keep limit l results = results ++ (l.filter keep).take (limit - results.length) := by
  induction l generalizing results with
  | nil => simp [boundedScan]
  | cons x rest ih =>
    unfold boundedScan
    by_cases hfull : limit ≤ results.length
    · rw [if_pos hfull, Nat.sub_eq_zero_of_le hfull, List.take_zero, List.append_nil]
    · rw [if_neg hfull]
      by_cases hx : keep x = true
      · -- one place of the batch is taken
        have hroom : limit - results.length = (limit - (results ++ [x]).length) + 1 := by
          rw [List.length_append, List.length_singleton]
          omega
        rw [if_pos hx, ih, List.filter_cons_of_pos hx, hroom, List.take_succ_cons,
          List.append_assoc, List.singleton_append]
      · rw [if_neg hx, ih, List.filter_cons_of_neg hx]

end Loop

section Selection

variable {α β : Type} [LE β]

/-- The batch is made of the `limit` elements of the list with the smallest keys, or of all of them
if there are fewer, smallest first. -/
structure SmallestFirst (key : α → β) (all : List α) (limit : ℕ) (batch : List α) : Prop where
  length : batch.length = min limit all.length
  subset : ∀ x ∈ batch, x ∈ all
  ascending : batch.Pairwise fun x y => key x ≤ key y
  /-- Nothing left behind is smaller than anything taken. -/
  passed : ∀ x ∈ batch, ∀ y ∈ all, y ∉ batch → key x ≤ key y

variable {key : α → β} {before : α → α → Prop} {all : List α}

/-- In a list ordered by `before`, a front that ascends by `key` does so for any two of its
members. -/
theorem le_of_before [Std.Asymm before] {l : List α} (hord : l.Pairwise before)
    (hasc : l.Pairwise fun x y => key x ≤ key y) {x y : α} (hx : x ∈ l) (hy : y ∈ l)
    (hxy : before x y) : key x ≤ key y := by
  induction l with
  | nil => exact absurd hx List.not_mem_nil
  | cons a l ih =>
    obtain ⟨hbefore, hord⟩ := List.pairwise_cons.mp hord
    obtain ⟨hle, hasc⟩ := List.pairwise_cons.mp hasc
    rcases List.mem_cons.mp hx with rfl | hxl
    · rcases List.mem_cons.mp hy with rfl | hyl
      · exact absurd hxy (Std.Asymm.asymm _ _ hxy)
      · exact hle y hyl
    · rcases List.mem_cons.mp hy with rfl | hyl
      · -- `y` stands in front of `x`
        exact absurd hxy (Std.Asymm.asymm _ _ (hbefore x hxl))
      · exact ih hord hasc hxl hyl

/-- **When the front of a list is the batch of its smallest elements**: nothing that stands after a
member of the front is smaller than it. -/
theorem smallestFirst_take_iff [Std.Asymm before] (hord : all.Pairwise before) (limit : ℕ) :
    SmallestFirst key all limit (all.take limit) ↔
      ∀ x ∈ all.take limit, ∀ y ∈ all, before x y → key x ≤ key y := by
  have hsplit := List.take_append_drop limit all
  have hfront : (all.take limit).Pairwise before := hord.sublist (List.take_sublist limit all)
  constructor
  · intro h x hx y hy hxy
    by_cases hmem : y ∈ all.take limit
    · exact le_of_before hfront h.ascending hx hmem hxy
    · exact h.passed x hx y hy hmem
  · intro h
    refine ⟨List.length_take, fun x hx => List.take_subset limit all hx, ?_, ?_⟩
    · refine hfront.imp_of_mem ?_
      intro x y hx hy hxy
      exact h x hx y (List.take_subset limit all hy) hxy
    · intro x hx y hy hmem
      -- what is left behind stands after everything taken
      have hdrop : y ∈ all.drop limit := by
        rw [← hsplit, List.mem_append] at hy
        exact hy.resolve_left hmem
      rw [← hsplit, List.pairwise_append] at hord
      exact h x hx y hy (hord.2.2 x hx y hdrop)

/-- For every limit at once: the two orders agree. -/
theorem forall_smallestFirst_take_iff [Std.Asymm before] (hord : all.Pairwise before) :
    (∀ limit, SmallestFirst key all limit (all.take limit)) ↔
      ∀ x ∈ all, ∀ y ∈ all, before x y → key x ≤ key y := by
  constructor
  · intro h
    have hall := (smallestFirst_take_iff hord all.length).mp (h all.length)
    rwa [List.take_length] at hall
  · intro h limit
    refine (smallestFirst_take_iff hord limit).mpr fun x hx => ?_
    exact h x (List.take_subset limit all hx)

end Selection

end Framework
