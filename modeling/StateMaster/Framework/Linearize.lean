import StateMaster.Framework.Run

/-!
# Linearization points

A concurrent object serves operations of a *sequential* one, `apply`. Each operation is decided by
a single step of the concurrent run, its linearization point, at which the abstract state changes
as `apply` says. `Points` collects what has to be shown of one step for that reading to be right;
`Points.linearizable` is then the usual conclusion: the operations in the order of their points
form a serial run with the same results and the same final state, and an operation that returned
before another was invoked comes before it.

Operations still undecided at the end of the run are left out of the order, as pending operations
without effect may be.
-/

namespace Framework

variable {Spec Op Res : Type}

/-- Operations one after another: the results, and the state at the end. -/
def serial (apply : Spec → Op → Res × Spec) : Spec → List Op → List Res × Spec
  | s, [] => ([], s)
  | s, op :: ops =>
    let (r, s') := apply s op
    let (rs, s'') := serial apply s' ops
    (r :: rs, s'')

/-- One operation more at the end. -/
theorem serial_concat {apply : Spec → Op → Res × Spec} {s s' s'' : Spec} {ops : List Op} {op : Op}
    {rs : List Res} {r : Res} (h : serial apply s ops = (rs, s')) (hop : apply s' op = (r, s'')) :
    serial apply s (ops ++ [op]) = (rs ++ [r], s'') := by
  induction ops generalizing s rs with
  | nil =>
    obtain ⟨rfl, rfl⟩ := Prod.mk.inj h
    simp only [List.nil_append, serial, hop]
  | cons o ops ih =>
    simp only [serial] at h
    obtain ⟨rfl, hs⟩ := Prod.mk.inj h
    have htail := ih (Prod.ext rfl hs)
    simp only [List.cons_append, serial, htail]

section Points

variable {State Label : Type}

/-- How a system decides the operations of `apply`, one step at a time.

`decided s i` is operation `i` with its result once that is fixed, `inv` an invariant of the
system under the labels `allowed`. -/
structure Points (sys : System State Label) (apply : Spec → Op → Res × Spec) where
  abs : State → Spec
  decided : State → ℕ → Option (Op × Res)
  invokes : Label → ℕ → Prop
  returns : Label → ℕ → Prop
  inv : State → Prop
  allowed : Label → Prop
  /-- Allowed steps keep the invariant. -/
  inv_step : ∀ s l s', inv s → allowed l → sys.step s l = some s' → inv s'
  /-- A step decides nothing and changes nothing, or it decides one operation the way `apply`
  does. -/
  point : ∀ s l s', inv s → allowed l → sys.step s l = some s' →
    (decided s' = decided s ∧ abs s' = abs s) ∨
    ∃ i op r, decided s i = none ∧ decided s' = Function.update (decided s) i (some (op, r)) ∧
      apply (abs s) op = (r, abs s')
  /-- An operation just invoked is undecided. -/
  invoke_undecided : ∀ s l s' i, inv s → sys.step s l = some s' → invokes l i →
    decided s' i = none
  /-- An operation that returns is decided. -/
  return_decided : ∀ s l s' i, inv s → sys.step s l = some s' → returns l i →
    (decided s i).isSome

/-- Operation `i` returned before `j` was invoked. -/
def ReturnsBefore {sys : System State Label} {apply : Spec → Op → Res × Spec}
    (P : Points sys apply) (ls : List Label) (i j : ℕ) : Prop :=
  ∃ (p q : ℕ) (lp lq : Label), p < q ∧ ls[p]? = some lp ∧ ls[q]? = some lq ∧
    P.returns lp i ∧ P.invokes lq j

/-- `order` is a linearization of the run `ls` from `s₀` to `s`. -/
structure Linearizes {sys : System State Label} {apply : Spec → Op → Res × Spec}
    (P : Points sys apply) (s₀ : State) (ls : List Label) (s : State) (order : List ℕ) : Prop where
  nodup : order.Nodup
  /-- The order lists exactly the decided operations. -/
  mem_iff : ∀ i, i ∈ order ↔ (P.decided s i).isSome
  /-- Served one after another in this order, they have the same results and leave the same
  state. -/
  replay : ∃ entries : List (Op × Res), order.map (P.decided s) = entries.map some ∧
    serial apply (P.abs s₀) (entries.map Prod.fst) = (entries.map Prod.snd, P.abs s)
  /-- Real time is respected. -/
  realTime : ∀ i j, ReturnsBefore P ls i j → j ∈ order → [i, j].Sublist order

variable {sys : System State Label} {apply : Spec → Op → Res × Spec} {P : Points sys apply}

/-- A real-time pair of a run one label longer is one of the run, or its second call is invoked by
the last label. -/
theorem ReturnsBefore.of_concat {ls : List Label} {l : Label} {i j : ℕ}
    (h : ReturnsBefore P (ls ++ [l]) i j) :
    ReturnsBefore P ls i j ∨ P.invokes l j := by
  obtain ⟨p, q, lp, lq, hpq, hp, hq, hret, hinv⟩ := h
  rcases Nat.lt_or_ge q ls.length with hlt | hge
  · rw [List.getElem?_append_left hlt] at hq
    rw [List.getElem?_append_left (hpq.trans hlt)] at hp
    exact Or.inl ⟨p, q, lp, lq, hpq, hp, hq, hret, hinv⟩
  · refine Or.inr ?_
    have hmem := List.mem_of_getElem? ((List.getElem?_append_right hge).symm.trans hq)
    rw [List.mem_singleton] at hmem
    exact hmem ▸ hinv

/-- A step that decides nothing keeps the order. -/
theorem Linearizes.keep {s₀ s s' : State} {ls : List Label} {l : Label} {order : List ℕ}
    (h : Linearizes P s₀ ls s order) (hdec : P.decided s' = P.decided s)
    (habs : P.abs s' = P.abs s) (hinvoke : ∀ j, P.invokes l j → P.decided s' j = none) :
    Linearizes P s₀ (ls ++ [l]) s' order where
  nodup := h.nodup
  mem_iff := by rw [hdec]; exact h.mem_iff
  replay := by rw [hdec, habs]; exact h.replay
  realTime i j hb hj := by
    rcases ReturnsBefore.of_concat hb with hb | hinv
    · exact h.realTime i j hb hj
    · -- A call invoked just now is undecided, so it is not in the order.
      have hsome := (h.mem_iff j).mp hj
      rw [← hdec, hinvoke j hinv] at hsome
      exact absurd hsome (by simp)

/-- A linearization point puts its operation at the end of the order. -/
theorem Linearizes.decide {s₀ s s' : State} {ls : List Label} {l : Label} {order : List ℕ}
    (h : Linearizes P s₀ ls s order) {k : ℕ} {op : Op} {r : Res} (hnone : P.decided s k = none)
    (hdec : P.decided s' = Function.update (P.decided s) k (some (op, r)))
    (happly : apply (P.abs s) op = (r, P.abs s'))
    (hinvoke : ∀ j, P.invokes l j → P.decided s' j = none)
    (hreturned : ∀ i j, ReturnsBefore P ls i j → (P.decided s i).isSome) :
    Linearizes P s₀ (ls ++ [l]) s' (order ++ [k]) := by
  have hk : k ∉ order := by
    intro hmem
    have hsome := (h.mem_iff k).mp hmem
    rw [hnone] at hsome
    exact absurd hsome (by simp)
  have hmem : ∀ i, i ∈ order ++ [k] ↔ (P.decided s' i).isSome := by
    intro i
    rw [List.mem_append, List.mem_singleton, hdec]
    by_cases hik : i = k
    · subst hik
      simp [Function.update_self]
    · rw [Function.update_of_ne hik, h.mem_iff i]
      simp [hik]
  refine ⟨?_, hmem, ?_, fun i j hb hj => ?_⟩
  -- Once each; the same replay with one operation more; the order of real time.
  · exact List.nodup_append.mpr ⟨h.nodup, List.nodup_singleton k, fun i hi j hj => by
      rw [List.mem_singleton.mp hj]
      exact fun hik => hk (hik ▸ hi)⟩
  · obtain ⟨entries, hent, hserial⟩ := h.replay
    refine ⟨entries ++ [(op, r)], ?_, ?_⟩
    · have hold : order.map (P.decided s') = order.map (P.decided s) := by
        refine List.map_congr_left fun i hi => ?_
        rw [hdec, Function.update_of_ne fun hik : i = k => hk (hik ▸ hi)]
      rw [List.map_append, hold, hent, List.map_append, List.map_singleton, List.map_singleton,
        hdec, Function.update_self]
    · rw [List.map_append, List.map_append]
      exact serial_concat hserial happly
  · rcases ReturnsBefore.of_concat hb with hb | hinv
    · rcases List.mem_append.mp hj with hj | hj
      · exact (h.realTime i j hb hj).trans (List.sublist_append_left order [k])
      · -- The operation decided now comes after everything that has returned.
        have hi := (h.mem_iff i).mpr (hreturned i j hb)
        rw [List.mem_singleton.mp hj]
        exact (List.singleton_sublist.mpr hi).append (List.Sublist.refl [k])
    · -- The label only invokes `j`, which is then not decided.
      have hsome := (hmem j).mp hj
      rw [hinvoke j hinv] at hsome
      exact absurd hsome (by simp)

/-- **Linearizability from linearization points.** -/
theorem Points.linearizable {s₀ s : State} {ls : List Label} (hinit : P.inv s₀)
    (hfresh : ∀ i, P.decided s₀ i = none) (hallowed : ∀ l ∈ ls, P.allowed l)
    (hrun : sys.exec s₀ ls = some s) :
    P.inv s ∧ ∃ order, Linearizes P s₀ ls s order := by
  suffices P.inv s ∧ (∀ l ∈ ls, ∀ i, P.returns l i → (P.decided s i).isSome) ∧
      ∃ order, Linearizes P s₀ ls s order from ⟨this.1, this.2.2⟩
  refine System.exec_induction_labels (I := fun ls s => (∀ l ∈ ls, P.allowed l) →
      P.inv s ∧ (∀ l ∈ ls, ∀ i, P.returns l i → (P.decided s i).isSome) ∧
      ∃ order, Linearizes P s₀ ls s order) ?_ ?_ hrun hallowed
  · refine fun _ => ⟨hinit, fun l hl => absurd hl List.not_mem_nil, [], List.nodup_nil, ?_, ?_, ?_⟩
    · intro i
      rw [hfresh i]
      simp
    · exact ⟨[], rfl, rfl⟩
    · exact fun i j _ hj => absurd hj List.not_mem_nil
  · intro ls s l s' _ ih hstep hallowed
    have hl : P.allowed l := hallowed l (List.mem_append_right ls List.mem_cons_self)
    obtain ⟨hinv, hret, order, horder⟩ :=
      ih fun l' hl' => hallowed l' (List.mem_append_left [l] hl')
    have hinvoke : ∀ j, P.invokes l j → P.decided s' j = none :=
      fun j => P.invoke_undecided s l s' j hinv hstep
    -- What has returned was decided before this step.
    have hreturned : ∀ l' ∈ ls ++ [l], ∀ i, P.returns l' i → (P.decided s i).isSome := by
      intro l' hl' i hi
      rcases List.mem_append.mp hl' with hl' | hl'
      · exact hret l' hl' i hi
      · rw [List.mem_singleton.mp hl'] at hi
        exact P.return_decided s l s' i hinv hstep hi
    refine ⟨P.inv_step s l s' hinv hl hstep, ?_⟩
    rcases P.point s l s' hinv hl hstep with ⟨hdec, habs⟩ | ⟨k, op, r, hnone, hdec, happly⟩
    · refine ⟨fun l' hl' i hi => ?_, order, horder.keep hdec habs hinvoke⟩
      rw [hdec]
      exact hreturned l' hl' i hi
    · refine ⟨fun l' hl' i hi => ?_, order ++ [k],
        horder.decide hnone hdec happly hinvoke fun i j hb => ?_⟩
      · have hsome := hreturned l' hl' i hi
        rw [hdec]
        by_cases hik : i = k
        · rw [hik, Function.update_self, Option.isSome_some]
        · rw [Function.update_of_ne hik]
          exact hsome
      · obtain ⟨p, -, lp, -, -, hp, -, hi, -⟩ := hb
        exact hret lp (List.mem_of_getElem? hp) i hi

end Points

end Framework
