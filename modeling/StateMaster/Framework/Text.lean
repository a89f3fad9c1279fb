import Mathlib

/-!
# Separated text keys

Composite keys are often flattened into one string with a separator character between the parts.
Whether the parts can be read back depends on where the separator may occur:

* `append_sep_inj_left` — a separator-free first part makes the split unique;
* `append_sep_inj_right` — so does a separator-free last part;
* `prefix_append_iff_of_notMem` — a prefix that ends in the separator cannot reach into a
  separator-free tail;
* `parts_eq_of_prefix` — nor can it be shorter than a word of separator-free parts.

The last part of such a key is often a zero-padded decimal (`padDecimal`), which is separator-free
for any separator that is not a digit, and can be read back (`padDecimal_injective`). As long as the
numbers fit the width, the order of the words is the order of the numbers (`lt_of_padDecimal_lt`).
-/

namespace Framework

namespace Text

section Separator

variable {α : Type} {sep : α}

/-- With a separator-free first part, a separated list splits in one way only. -/
theorem append_sep_inj_left {a a' b b' : List α} (ha : sep ∉ a) (ha' : sep ∉ a')
    (h : a ++ sep :: b = a' ++ sep :: b') : a = a' ∧ b = b' := by
  induction a generalizing a' with
  | nil =>
    cases a' with
    | nil => exact ⟨rfl, (List.cons.inj h).2⟩
    | cons x a' =>
      rw [List.nil_append, List.cons_append] at h
      exact absurd (List.cons.inj h).1 fun hx => ha' (hx ▸ List.mem_cons_self)
  | cons x a ih =>
    cases a' with
    | nil =>
      rw [List.nil_append, List.cons_append] at h
      exact absurd (List.cons.inj h).1 fun hx => ha (hx ▸ List.mem_cons_self)
    | cons x' a' =>
      rw [List.cons_append, List.cons_append] at h
      obtain ⟨rfl, h'⟩ := List.cons.inj h
      obtain ⟨rfl, rfl⟩ := ih (fun hm => ha (List.mem_cons_of_mem _ hm))
        (fun hm => ha' (List.mem_cons_of_mem _ hm)) h'
      exact ⟨rfl, rfl⟩

/-- With a separator-free last part, a separated list splits in one way only. -/
theorem append_sep_inj_right {a a' b b' : List α} (hb : sep ∉ b) (hb' : sep ∉ b')
    (h : a ++ sep :: b = a' ++ sep :: b') : a = a' ∧ b = b' := by
  have hrev : b.reverse ++ sep :: a.reverse = b'.reverse ++ sep :: a'.reverse := by
    have := congrArg List.reverse h
    simpa using this
  obtain ⟨h₁, h₂⟩ := append_sep_inj_left (by simpa using hb) (by simpa using hb') hrev
  exact ⟨List.reverse_injective h₂, List.reverse_injective h₁⟩

/-- A prefix ending in the separator does not reach into a separator-free tail. -/
theorem prefix_append_iff_of_notMem {p q d : List α} (hd : sep ∉ d) :
    p ++ [sep] <+: q ++ d ↔ p ++ [sep] <+: q := by
  constructor
  · intro h
    rcases List.prefix_or_prefix_of_prefix h (List.prefix_append q d) with hpq | ⟨t, ht⟩
    · exact hpq
    · -- `p ++ [sep]` would be `q` followed by a piece `t` of the tail
      rw [← ht] at h ⊢
      have htd : t <+: d := (List.prefix_append_right_inj q).mp h
      rcases List.eq_nil_or_concat t with rfl | ⟨u, x, rfl⟩
      · rw [List.append_nil]
      · rw [List.concat_eq_append, ← List.append_assoc] at ht
        have hx : x = sep := by simpa using congrArg List.getLast? ht
        exact absurd (htd.subset (by simp)) (hx ▸ hd)
  · exact fun h => h.trans (List.prefix_append q d)

/-- Two closed parts can only start with themselves, if the longer word has separator-free parts:
there are no separators left to put into the parts of the shorter one. -/
theorem parts_eq_of_prefix [DecidableEq α] {a b a' b' : List α} (ha' : sep ∉ a') (hb' : sep ∉ b')
    (h : a ++ sep :: b ++ [sep] <+: a' ++ sep :: b' ++ [sep]) : a = a' ∧ b = b' := by
  have hcount := h.sublist.count_le sep
  simp only [List.count_append, List.count_cons_self, List.count_nil,
    List.count_eq_zero_of_not_mem ha', List.count_eq_zero_of_not_mem hb'] at hcount
  have ha : sep ∉ a := List.count_eq_zero.mp (by omega)
  have hb : sep ∉ b := List.count_eq_zero.mp (by omega)
  obtain ⟨t, ht⟩ := h
  simp only [List.append_assoc, List.cons_append, List.nil_append] at ht
  obtain ⟨hfirst, hrest⟩ := append_sep_inj_left ha ha' ht
  exact ⟨hfirst, (append_sep_inj_left hb hb' hrest).1⟩

end Separator

/-- Rust's `starts_with` on strings. -/
def startsWith (s p : String) : Bool := p.toList.isPrefixOf s.toList

theorem startsWith_iff {s p : String} : startsWith s p = true ↔ p.toList <+: s.toList :=
  List.isPrefixOf_iff_prefix

/-- Rust's `contains` on strings: a substring test. -/
def contains (s p : String) : Bool := decide (p.toList <:+: s.toList)

theorem contains_iff {s p : String} : contains s p = true ↔ p.toList <:+: s.toList :=
  decide_eq_true_iff

/-- A decimal zero-padded on the left to `width` digits. -/
def padDecimal (width n : ℕ) : String :=
  String.ofList ((Nat.toDigits 10 n).leftpad width '0')

theorem padDecimal_toList (width n : ℕ) :
    (padDecimal width n).toList
      = List.replicate (width - (Nat.toDigits 10 n).length) '0' ++ Nat.toDigits 10 n := by
  unfold padDecimal
  rw [String.toList_ofList]
  rfl

theorem isDigit_of_mem_padDecimal {width n : ℕ} {c : Char}
    (h : c ∈ (padDecimal width n).toList) : c.isDigit = true := by
  rw [padDecimal_toList, List.mem_append] at h
  rcases h with h | h
  · rw [(List.mem_replicate.mp h).2]
    decide
  · exact Nat.isDigit_of_mem_toDigits (by decide) (by decide) h

/-- Reading a padded decimal gives the number back. -/
theorem ofDigitChars_padDecimal (width n : ℕ) :
    Nat.ofDigitChars 10 (padDecimal width n).toList 0 = n := by
  rw [padDecimal_toList, Nat.ofDigitChars_append, Nat.ofDigitChars_replicate_zero, Nat.mul_zero,
    Nat.ofDigitChars_toDigits (by decide) (by decide)]

theorem padDecimal_injective (width : ℕ) : Function.Injective (padDecimal width) := by
  intro m n h
  rw [← ofDigitChars_padDecimal width m, h, ofDigitChars_padDecimal]

/-! ### The order of padded decimals -/

theorem length_padDecimal {width n : ℕ} (hpos : 0 < width) (h : n < 10 ^ width) :
    (padDecimal width n).toList.length = width := by
  have hle : (Nat.toDigits 10 n).length ≤ width :=
    (Nat.length_toDigits_le_iff (by decide) hpos).mpr h
  rw [padDecimal_toList, List.length_append, List.length_replicate]
  omega

theorem digit_bounds {c : Char} (h : c.isDigit = true) : 48 ≤ c.toNat ∧ c.toNat ≤ 57 := by
  simp only [Char.isDigit, Bool.and_eq_true, decide_eq_true_eq, ge_iff_le, UInt32.le_iff_toNat_le]
    at h
  exact h

/-- A larger head start is never caught up with by digits. -/
theorem ofDigitChars_lt_of_lt {l l' : List Char} {a a' : ℕ} (hlen : l.length = l'.length)
    (hl : ∀ c ∈ l, c.isDigit = true) (h : a < a') :
    Nat.ofDigitChars 10 l a < Nat.ofDigitChars 10 l' a' := by
  induction l generalizing l' a a' with
  | nil =>
    obtain rfl := List.eq_nil_of_length_eq_zero hlen.symm
    exact h
  | cons c l ih =>
    cases l' with
    | nil => exact absurd hlen (by simp)
    | cons c' l' =>
      rw [Nat.ofDigitChars_cons, Nat.ofDigitChars_cons]
      refine ih (Nat.succ.inj hlen) (fun d hd => hl d (List.mem_cons_of_mem _ hd)) ?_
      have hc := digit_bounds (hl c List.mem_cons_self)
      have hzero : '0'.toNat = 48 := rfl
      omega

/-- Words of digits of one length compare as the numbers they spell. -/
theorem ofDigitChars_lt_of_word_lt {l l' : List Char} (a : ℕ) (hlen : l.length = l'.length)
    (hl : ∀ c ∈ l, c.isDigit = true) (hl' : ∀ c ∈ l', c.isDigit = true) (h : l < l') :
    Nat.ofDigitChars 10 l a < Nat.ofDigitChars 10 l' a := by
  induction l generalizing l' a with
  | nil =>
    obtain rfl := List.eq_nil_of_length_eq_zero hlen.symm
    exact absurd h (List.lt_irrefl _)
  | cons c l ih =>
    cases l' with
    | nil => exact absurd hlen (by simp)
    | cons c' l' =>
      have hrest : ∀ d ∈ l, d.isDigit = true := fun d hd => hl d (List.mem_cons_of_mem _ hd)
      rw [Nat.ofDigitChars_cons, Nat.ofDigitChars_cons]
      rcases List.cons_lt_cons_iff.mp h with hc | ⟨rfl, hrec⟩
      · -- the first digits decide
        refine ofDigitChars_lt_of_lt (Nat.succ.inj hlen) hrest ?_
        have hlt : c.toNat < c'.toNat := hc
        have hc₁ := digit_bounds (hl c List.mem_cons_self)
        have hzero : '0'.toNat = 48 := rfl
        omega
      · exact ih _ (Nat.succ.inj hlen) hrest (fun d hd => hl' d (List.mem_cons_of_mem _ hd)) hrec

/-- **Numbers that fit the width stand in the order of their words.** -/
theorem lt_of_padDecimal_lt {width m n : ℕ} (hpos : 0 < width) (hm : m < 10 ^ width)
    (hn : n < 10 ^ width) (h : (padDecimal width m).toList < (padDecimal width n).toList) :
    m < n := by
  have hlt := ofDigitChars_lt_of_word_lt 0
    ((length_padDecimal hpos hm).trans (length_padDecimal hpos hn).symm)
    (fun _ hc => isDigit_of_mem_padDecimal hc) (fun _ hc => isDigit_of_mem_padDecimal hc) h
  rwa [ofDigitChars_padDecimal, ofDigitChars_padDecimal] at hlt

end Text

end Framework
