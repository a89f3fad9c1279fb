import Mathlib

/-!
# Runs of a labelled system

A system is a partial step function over labels: every choice a step leaves open (which party
moves, what it draws, whether it fails) is part of the label, so a label determines its step and a
run is a list of labels. `System.exec` replays such a list, and `System.stateAt` is the state
reached after a prefix of it, which is how a property speaks about *moments* of a run.

* `System.exec_induction` — invariant induction along a run;
* `System.exec_induction_labels` — the same with the labels seen so far in hand;
* `System.exec_stable` — a property no step breaks propagates from one moment to every later one;
* `System.exec_split` — a run passes through a state at each of its moments;
* `System.stateAt_last_write` — what a cell holds at a moment is the last write before it.
-/

namespace Framework

/-- A chain of fallible computations succeeds exactly when each link does. -/
theorem bind_eq_ok_iff {ε α β : Type} {x : Except ε α} {f : α → Except ε β} {b : β} :
    x >>= f = .ok b ↔ ∃ a, x = .ok a ∧ f a = .ok b := by
  cases x with
  | error e => simp only [bind, Except.bind, reduceCtorEq, false_and, exists_false]
  | ok a => simp only [bind, Except.bind, Except.ok.injEq, exists_eq_left']

/-- Renaming the error does not change what succeeds. -/
theorem mapError_eq_ok_iff {ε ε' α : Type} {f : ε → ε'} {x : Except ε α} {a : α} :
    x.mapError f = .ok a ↔ x = .ok a := by
  cases x <;> simp [Except.mapError]

/-- A labelled system: a partial, deterministic step for every label. -/
structure System (State Label : Type) where
  step : State → Label → Option State

namespace System

variable {State Label : Type} (sys : System State Label)

/-- Replay a list of labels; `none` when one of them is not enabled. -/
def exec : State → List Label → Option State
  | s, [] => some s
  | s, l :: ls => (sys.step s l).bind fun s' => exec s' ls

/-- The state after the first `n` labels of a run. -/
def stateAt (s : State) (ls : List Label) (n : ℕ) : Option State :=
  sys.exec s (ls.take n)

/-- The run from `s` passes through `t`. -/
def Visits (s : State) (ls : List Label) (t : State) : Prop :=
  ∃ n ≤ ls.length, sys.stateAt s ls n = some t

/-- `s'` can be reached from `s`. -/
def Reachable (s s' : State) : Prop := ∃ ls, sys.exec s ls = some s'

theorem exec_cons (s : State) (l : Label) (ls : List Label) :
    sys.exec s (l :: ls) = (sys.step s l).bind fun s' => sys.exec s' ls := rfl

theorem exec_append (s : State) (ls ls' : List Label) :
    sys.exec s (ls ++ ls') = (sys.exec s ls).bind fun s' => sys.exec s' ls' := by
  induction ls generalizing s with
  | nil => rfl
  | cons l ls ih =>
    rw [List.cons_append, exec_cons, exec_cons]
    cases sys.step s l with
    | none => rfl
    | some s₁ => exact ih s₁

theorem exec_concat (s : State) (ls : List Label) (l : Label) :
    sys.exec s (ls ++ [l]) = (sys.exec s ls).bind fun s' => sys.step s' l := by
  rw [exec_append]
  refine congrArg _ (funext fun s' => ?_)
  rw [exec_cons]
  cases sys.step s' l <;> rfl

variable {sys}

/-- A run ending in one more label is a run to some state followed by that step. -/
theorem exec_concat_eq_some {s s' : State} {ls : List Label} {l : Label}
    (h : sys.exec s (ls ++ [l]) = some s') :
    ∃ s₁, sys.exec s ls = some s₁ ∧ sys.step s₁ l = some s' := by
  rw [exec_concat] at h
  exact Option.bind_eq_some_iff.mp h

theorem exec_concat_of_step {s s₁ s' : State} {ls : List Label} {l : Label}
    (h : sys.exec s ls = some s₁) (hstep : sys.step s₁ l = some s') :
    sys.exec s (ls ++ [l]) = some s' := by
  rw [exec_concat, h]
  exact hstep

theorem exec_singleton {s s' : State} {l : Label} (hstep : sys.step s l = some s') :
    sys.exec s [l] = some s' := by
  rw [exec_cons, hstep]
  rfl

/-- **Invariant induction.** What holds initially and survives every step holds after every
run. -/
theorem exec_induction {I : State → Prop} {s₀ : State} (hinit : I s₀)
    (hstep : ∀ s l s', I s → sys.step s l = some s' → I s') :
    ∀ {ls s}, sys.exec s₀ ls = some s → I s := by
  intro ls
  induction ls using List.reverseRecOn with
  | nil =>
    intro s h
    obtain rfl := Option.some.inj h
    exact hinit
  | append_singleton ls l ih =>
    intro s h
    obtain ⟨s₁, h₁, h₂⟩ := exec_concat_eq_some h
    exact hstep s₁ l s (ih h₁) h₂

/-- **History-aware invariant induction.** The invariant may mention the labels seen so far, and
its step may use that the state before was reached by them. -/
theorem exec_induction_labels {I : List Label → State → Prop} {s₀ : State} (hinit : I [] s₀)
    (hstep : ∀ ls s l s', sys.exec s₀ ls = some s → I ls s → sys.step s l = some s' →
      I (ls ++ [l]) s') :
    ∀ {ls s}, sys.exec s₀ ls = some s → I ls s := by
  intro ls
  induction ls using List.reverseRecOn with
  | nil =>
    intro s h
    obtain rfl := Option.some.inj h
    exact hinit
  | append_singleton ls l ih =>
    intro s h
    obtain ⟨s₁, h₁, h₂⟩ := exec_concat_eq_some h
    exact hstep ls s₁ l s h₁ (ih h₁) h₂

/-- A run passes through a state at each of its moments, and the rest of it leads from there to
the end. -/
theorem exec_split {s s' : State} {ls : List Label} (h : sys.exec s ls = some s') (n : ℕ) :
    ∃ s₁, sys.stateAt s ls n = some s₁ ∧ sys.exec s₁ (ls.drop n) = some s' := by
  rw [← List.take_append_drop n ls, exec_append] at h
  exact Option.bind_eq_some_iff.mp h

/-- The label at position `n` takes the state at `n` to the state at `n + 1`. -/
theorem step_of_stateAt {s s₁ s₂ : State} {ls : List Label} {n : ℕ} {l : Label}
    (hl : ls[n]? = some l) (h₁ : sys.stateAt s ls n = some s₁)
    (h₂ : sys.stateAt s ls (n + 1) = some s₂) : sys.step s₁ l = some s₂ := by
  unfold stateAt at h₁ h₂
  rw [List.take_add_one, hl, Option.toList_some, exec_concat, h₁] at h₂
  exact h₂

/-- One more label of a run, forwards. -/
theorem stateAt_succ {s s₁ s₂ : State} {ls : List Label} {n : ℕ} {l : Label}
    (hl : ls[n]? = some l) (h₁ : sys.stateAt s ls n = some s₁) (hstep : sys.step s₁ l = some s₂) :
    sys.stateAt s ls (n + 1) = some s₂ := by
  unfold stateAt at h₁ ⊢
  rw [List.take_add_one, hl, Option.toList_some]
  exact exec_concat_of_step h₁ hstep

theorem stateAt_length (s : State) (ls : List Label) :
    sys.stateAt s ls ls.length = sys.exec s ls := by
  unfold stateAt
  rw [List.take_length]

/-- Moments of a run are moments of every extension of it. -/
theorem stateAt_append {s : State} {ls ls' : List Label} {n : ℕ} (h : n ≤ ls.length) :
    sys.stateAt s (ls ++ ls') n = sys.stateAt s ls n := by
  unfold stateAt
  rw [List.take_append_of_le_length h]

theorem visits_end {s t : State} {ls : List Label} (h : sys.exec s ls = some t) :
    sys.Visits s ls t :=
  ⟨ls.length, le_rfl, (stateAt_length s ls).trans h⟩

theorem Visits.append {s t : State} {ls : List Label} (h : sys.Visits s ls t) (ls' : List Label) :
    sys.Visits s (ls ++ ls') t := by
  obtain ⟨n, hn, ht⟩ := h
  refine ⟨n, ?_, (stateAt_append hn).trans ht⟩
  rw [List.length_append]
  exact Nat.le_add_right_of_le hn

/-- **Stability.** A property no step of the system breaks propagates along a run. -/
theorem exec_stable {I : State → Prop} (hstep : ∀ s l s', I s → sys.step s l = some s' → I s')
    {s s' : State} {ls : List Label} (h : sys.exec s ls = some s') (hI : I s) : I s' :=
  exec_induction hI hstep h

/-- **Induction between two moments of one run.** A step may use that it is taken there. -/
theorem stateAt_induction {I : State → Prop} {s s₁ s₂ : State} {ls : List Label} {m n : ℕ}
    (hmn : m ≤ n) (h₁ : sys.stateAt s ls m = some s₁) (h₂ : sys.stateAt s ls n = some s₂)
    (hI : I s₁)
    (hstep : ∀ k l t t', m ≤ k → k < n → ls[k]? = some l → sys.stateAt s ls k = some t →
      sys.step t l = some t' → I t → I t') : I s₂ := by
  induction n, hmn using Nat.le_induction generalizing s₂ with
  | base =>
    obtain rfl := Option.some.inj (h₁.symm.trans h₂)
    exact hI
  | succ n hmn ih =>
    have hbefore := fun k l t t' hmk hkn => hstep k l t t' hmk (Nat.lt_succ_of_lt hkn)
    unfold stateAt at h₂
    cases hl : ls[n]? with
    | none =>
      -- The run is over: the state does not change any more.
      rw [List.take_add_one, hl, Option.toList_none, List.append_nil] at h₂
      exact ih h₂ hbefore
    | some l =>
      rw [List.take_add_one, hl, Option.toList_some] at h₂
      obtain ⟨t, ht, hstep'⟩ := exec_concat_eq_some h₂
      exact hstep n l t s₂ hmn (Nat.lt_succ_self n) hl ht hstep' (ih ht hbefore)

/-- Stability between two moments of one run. -/
theorem stateAt_stable {I : State → Prop} (hstep : ∀ s l s', I s → sys.step s l = some s' → I s')
    {s s₁ s₂ : State} {ls : List Label} {m n : ℕ} (hmn : m ≤ n)
    (h₁ : sys.stateAt s ls m = some s₁) (h₂ : sys.stateAt s ls n = some s₂) (hI : I s₁) :
    I s₂ :=
  stateAt_induction hmn h₁ h₂ hI fun _ l t t' _ _ _ _ hstep' ht => hstep t l t' ht hstep'

/-- The labels between two moments of a run lead from the one to the other. -/
theorem exec_between {s s₁ s₂ : State} {ls : List Label} {m n : ℕ} (hmn : m ≤ n)
    (h₁ : sys.stateAt s ls m = some s₁) (h₂ : sys.stateAt s ls n = some s₂) :
    sys.exec s₁ ((ls.take n).drop m) = some s₂ := by
  have h₂' : sys.exec s (ls.take n) = some s₂ := h₂
  obtain ⟨s₁', h₁', hrest⟩ := exec_split h₂' m
  unfold stateAt at h₁ h₁'
  rw [List.take_take, min_eq_left hmn, h₁] at h₁'
  obtain rfl := Option.some.inj h₁'
  exact hrest

/-- **The last write decides.** `write` says what a label writes to a cell of the state; between two
moments the cell holds the last of these, or still what it held at the first. -/
theorem stateAt_last_write {α : Type} {cell : State → Option α} {write : Label → Option α}
    (hstep : ∀ s l s', sys.step s l = some s' → cell s' = (write l).or (cell s))
    {s s₁ s₂ : State} {ls : List Label} {m n : ℕ} (hmn : m ≤ n)
    (h₁ : sys.stateAt s ls m = some s₁) (h₂ : sys.stateAt s ls n = some s₂) :
    cell s₂ = (((ls.take n).drop m).filterMap write).getLast?.or (cell s₁) := by
  refine exec_induction_labels
    (I := fun ls t => cell t = (ls.filterMap write).getLast?.or (cell s₁)) rfl ?_
    (exec_between hmn h₁ h₂)
  intro ls t l t' _ ih ht
  rw [hstep t l t' ht, ih, List.filterMap_append, List.getLast?_append, Option.or_assoc]
  -- The label just seen writes the cell, or the writes so far stay the last ones.
  cases hw : write l with
  | none => rw [List.filterMap_cons_none hw]; rfl
  | some v => rw [List.filterMap_cons_some hw]; rfl

end System

end Framework
