import StateMaster.Framework.Run

/-!
# Systems that are stopped and started again

`System.restarting` reads a system over the extended alphabet `Label ⊕ Boot`: a label of the system,
or a restart, which may come between any two steps and takes the state to what `recover` makes of it.
What `recover` keeps is durable, everything else is lost.

* `restarting_induction` — an invariant of the steps that survives a restart holds along every run;
* `exec_simulation` — a run whose every step is matched by steps of another system is matched by a run of
  it. The relation may speak about the moment of the run, and so about what is still to come, and about
  the labels of the other side.
-/

namespace Framework.System

variable {State Label Boot State' Label' : Type}

/-- `sys`, restarted at any moment. -/
def restarting (sys : System State Label) (recover : State → Boot → State) :
    System State (Label ⊕ Boot) where
  step s
    | .inl l => sys.step s l
    | .inr boot => some (recover s boot)

section Restarting

variable {sys : System State Label} {recover : State → Boot → State} {s₀ s : State}
  {ls : List (Label ⊕ Boot)}

/-- **Invariants across restarts.** -/
theorem restarting_induction {I : State → Prop} (hinit : I s₀)
    (hstep : ∀ s l s', I s → sys.step s l = some s' → I s')
    (hboot : ∀ s boot, I s → I (recover s boot))
    (hrun : (sys.restarting recover).exec s₀ ls = some s) : I s := by
  refine exec_induction hinit (fun s l s' hs h => ?_) hrun
  cases l with
  | inl l => exact hstep s l s' hs h
  | inr boot =>
    obtain rfl := Option.some.inj h
    exact hboot s boot hs

/-- The same between two moments of one run. -/
theorem restarting_stable {I : State → Prop}
    (hstep : ∀ s l s', I s → sys.step s l = some s' → I s')
    (hboot : ∀ s boot, I s → I (recover s boot)) {m n : ℕ} {sm sn : State} (hmn : m ≤ n)
    (hm : (sys.restarting recover).stateAt s₀ ls m = some sm)
    (hn : (sys.restarting recover).stateAt s₀ ls n = some sn) (hI : I sm) : I sn :=
  restarting_induction hI hstep hboot (exec_between hmn hm hn)

end Restarting

/-- **Forward simulation, with the whole run in view.** If every step of a run is matched by some steps
of another system, then the run is matched by a run of it. -/
theorem exec_simulation {sys : System State Label} {sys' : System State' Label'} {s₀ s : State}
    {t₀ : State'} {ls : List Label} {R : ℕ → State → List Label' → State' → Prop}
    (hrun : sys.exec s₀ ls = some s) (hinit : R 0 s₀ [] t₀)
    (hstep : ∀ n l s s' ls' t, ls[n]? = some l → sys.stateAt s₀ ls n = some s →
      sys.stateAt s₀ ls (n + 1) = some s' → R n s ls' t →
      ∃ more t', sys'.exec t more = some t' ∧ R (n + 1) s' (ls' ++ more) t') :
    ∃ ls' t, sys'.exec t₀ ls' = some t ∧ R ls.length s ls' t := by
  have hmoment : ∀ n ≤ ls.length, ∀ s, sys.stateAt s₀ ls n = some s →
      ∃ ls' t, sys'.exec t₀ ls' = some t ∧ R n s ls' t := by
    intro n hn
    induction n with
    | zero =>
      intro s hs
      obtain rfl := Option.some.inj hs
      exact ⟨[], t₀, rfl, hinit⟩
    | succ n ih =>
      intro s' hs'
      obtain ⟨s, hs, -⟩ := exec_split hrun n
      obtain ⟨ls', t, ht, hR⟩ := ih (Nat.le_of_succ_le hn) s hs
      obtain ⟨more, t', hmore, hR'⟩ :=
        hstep n _ s s' ls' t (List.getElem?_eq_getElem hn) hs hs' hR
      refine ⟨ls' ++ more, t', ?_, hR'⟩
      rw [exec_append, ht]
      exact hmore
  exact hmoment ls.length le_rfl s ((stateAt_length s₀ ls).trans hrun)

end Framework.System
