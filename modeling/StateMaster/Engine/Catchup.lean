import StateMaster.Engine.Dispatch

/-!
# What a pass leaves behind

A pass goes through the list once, and is done with a subscriber when there was nothing left to read
for it, or when its receiver is gone. `LeftBehind` states what this leaves behind for any property of
subscribers that comes of it (`PassRules`), whoever else moves meanwhile.

While the log does not grow, a pass leaves every subscriber it has visited at the end of the log,
whatever the number of batches it takes (`CaughtUp`), and it ends: `work` counts the steps it has
left, generously, and every step lessens it (`work_lt`). A subscriber that asked for a cursor beyond
the end stays at that cursor.
-/

open Framework Framework.Text

namespace StateMaster

/-! ### What a pass leaves behind -/

/-- The subscribers before `idx` satisfy `P`. -/
def Behind (P : Subscriber → Prop) (st : Stream) (idx : ℕ) : Prop :=
  ∀ j < idx, ∀ sub, st.subscribers[j]? = some sub → P sub

/-- What a pass has left behind satisfies `P`. Of a batch shorter than the limit, what is left and the
cursor before it satisfy `Q`. -/
def LeftBehind (P : Subscriber → Prop) (Q : ℕ → List TransitionRecord → Prop) (st : Stream) : Prop :=
  match st.pass with
  | .idle _ => True
  | .scan idx _ _ => Behind P st idx
  | .fetch idx _ _ _ => Behind P st idx
  | .deliver idx cursor records batchLen _ _ =>
    Behind P st idx ∧ (batchLen < dispatchBatch → Q cursor records)
  | .prune _ _ => ∀ sub ∈ st.subscribers, P sub

/-- What makes a pass leave `P` behind: a subscriber it is done with has no receiver, or there was
nothing past its cursor, or its last batch, which was all there was, has been gone through. -/
structure PassRules (S : Store) (st : Stream) (P : Subscriber → Prop)
    (Q : ℕ → List TransitionRecord → Prop) : Prop where
  dead : ∀ sub, sub.receiverAlive = false → P sub
  drained : ∀ {idx cursor delivered dead sub}, st.pass = .fetch idx cursor delivered dead →
    st.subscribers[idx]? = some sub → S.after cursor = [] → P sub
  batch : ∀ cursor, S.after cursor ≠ [] → Q cursor (S.after cursor)
  inspect : ∀ cursor r rest, Q cursor (r :: rest) → Q r.sequence rest
  finish : ∀ {idx cursor batchLen delivered dead sub},
    st.pass = .deliver idx cursor [] batchLen delivered dead → st.subscribers[idx]? = some sub →
      Q cursor [] → P { sub with deliveredThrough := cursor }

section LeftBehind

variable {S : Store} {st st' : Stream} {P : Subscriber → Prop}
  {Q : ℕ → List TransitionRecord → Prop}

/-- A change at `idx` or later leaves the subscribers before it alone. -/
theorem Behind.modify {idx : ℕ} (h : Behind P st idx) {f : Subscriber → Subscriber}
    {pass : PassState} {channels : ℕ} :
    Behind P ⟨st.subscribers.modify idx f, pass, channels⟩ idx := by
  intro j hj sub hsub
  obtain ⟨rfl, -⟩ | ⟨-, hsame⟩ := Stream.getElem?_modify_cases hsub
  · exact absurd hj (lt_irrefl _)
  · exact h j hj sub hsame

/-- One more subscriber behind. -/
theorem Behind.succ {idx : ℕ} (h : Behind P st idx)
    (hidx : ∀ sub, st.subscribers[idx]? = some sub → P sub) : Behind P st (idx + 1) := by
  intro j hj sub hsub
  obtain hlt | rfl := Nat.lt_succ_iff_lt_or_eq.mp hj
  · exact h j hlt sub hsub
  · exact hidx sub hsub

/-- The subscriber whose cursor is stored is the old one with that cursor. -/
theorem Stream.getElem?_setDelivered {idx cursor : ℕ} {sub : Subscriber}
    (h : (st.setDelivered idx cursor).subscribers[idx]? = some sub) :
    ∃ old, st.subscribers[idx]? = some old ∧ sub = { old with deliveredThrough := cursor } := by
  obtain ⟨-, old, hold, hsub⟩ | ⟨hne, -⟩ := Stream.getElem?_modify_cases h
  · exact ⟨old, hold, hsub⟩
  · exact absurd rfl hne

/-- **A step of a pass keeps what it leaves behind.** -/
theorem LeftBehind.passStep (h : LeftBehind P Q st) (hrules : PassRules S st P Q)
    (hS : LogInvariant S) (hstep : PassStep S st st') : LeftBehind P Q st' := by
  unfold LeftBehind at h
  cases hstep with
  | start result hp =>
    -- nobody is behind the first one
    exact fun j hj => absurd hj (Nat.not_lt_zero j)
  | visit idx delivered dead sub hp hsub =>
    rw [hp] at h
    exact h
  | done idx delivered dead hp hnone =>
    -- no subscriber at `idx`, so all of them are behind it
    rw [hp] at h
    intro sub hsub
    obtain ⟨j, hj⟩ := List.getElem?_of_mem hsub
    have hlen := List.getElem?_eq_none_iff.mp hnone
    have hjlen : j < st.subscribers.length := (List.getElem?_eq_some_iff.mp hj).1
    exact h j (by omega) sub hj
  | drained idx cursor delivered dead hp hempty =>
    -- the first way to be done with a subscriber: an empty batch
    rw [hp] at h
    have hafter : S.after cursor = [] := by
      rw [hS.getTransitionsAfter_eq, List.take_eq_nil_iff] at hempty
      exact hempty.resolve_left (by decide)
    exact Behind.succ h fun sub hsub => hrules.drained hp hsub hafter
  | batch idx cursor delivered dead records hp hrecords hne =>
    rw [hp] at h
    refine ⟨h, fun hshort => ?_⟩
    -- a batch shorter than the limit is all there is past its cursor
    have hall : records = S.after cursor := by
      rw [hS.getTransitionsAfter_eq] at hrecords
      rw [← hrecords] at hshort ⊢
      rw [List.length_take] at hshort
      exact List.take_of_length_le (by omega)
    subst hall
    exact hrules.batch cursor hne
  | skip idx cursor r rest batchLen delivered dead sub hp hsub hwants =>
    rw [hp] at h
    exact ⟨h.1, fun hshort => hrules.inspect cursor r rest (h.2 hshort)⟩
  | send idx cursor r rest batchLen delivered dead sub hp hsub hwants halive =>
    rw [hp] at h
    exact ⟨h.1.modify, fun hshort => hrules.inspect cursor r rest (h.2 hshort)⟩
  | gone idx cursor r rest batchLen delivered dead sub hp hsub hdead =>
    -- the second way: nobody receives
    rw [hp] at h
    refine Behind.succ h.1.modify fun sub' hsub' => hrules.dead sub' ?_
    obtain ⟨old, hold, rfl⟩ := Stream.getElem?_setDelivered hsub'
    rw [hsub] at hold
    obtain rfl := Option.some.inj hold
    exact hdead
  | endBatch idx cursor batchLen delivered dead hp =>
    rw [hp] at h
    split
    · -- the third way: a short batch has been gone through
      next hshort =>
      refine Behind.succ h.1.modify fun sub' hsub' => ?_
      obtain ⟨old, hold, rfl⟩ := Stream.getElem?_setDelivered hsub'
      exact hrules.finish hp hold (h.2 hshort)
    · exact h.1.modify
  | prune delivered dead hp => trivial

/-- **So does any other step of the stream**: while the pass scans the list, which it holds the lock
of, only receivers are dropped; afterwards subscribers may leave, and new ones join if they satisfy
`P`. -/
theorem LeftBehind.step (h : LeftBehind P Q st) (hrules : PassRules S st P Q)
    (hS : LogInvariant S) (hdrop : ∀ channel sub, P sub → P (sub.dropReceiver channel))
    (hnew : st.pass.scanning = false → ∀ sub, sub.channel = st.channels → P sub) {l : StreamLabel}
    (hfault : ∀ f, l = .pass f → f = none) (hstep : st.step S l = some st') :
    LeftBehind P Q st' := by
  cases l with
  | subscribe id machineFilter afterSequence =>
    -- the pass is not scanning, and the new subscriber is asked about at its end only
    simp only [Stream.step, Option.ite_none_left_eq_some] at hstep
    obtain ⟨hscan, hst⟩ := hstep
    obtain rfl := Option.some.inj hst
    have hnew := hnew (Bool.eq_false_iff.mpr hscan)
    unfold LeftBehind at h ⊢
    cases hp : st.pass with
    | idle result => trivial
    | prune delivered dead =>
      rw [hp] at h
      intro sub hsub
      obtain hsub | hsub := List.mem_append.mp hsub
      · exact h sub hsub
      · exact hnew sub (List.mem_singleton.mp hsub ▸ rfl)
    | _ => exact absurd (hp ▸ rfl) hscan
  | unsubscribe id =>
    simp only [Stream.step, Option.ite_none_left_eq_some] at hstep
    obtain ⟨hscan, hst⟩ := hstep
    obtain rfl := Option.some.inj hst
    unfold LeftBehind at h ⊢
    cases hp : st.pass with
    | idle result => trivial
    | prune delivered dead =>
      rw [hp] at h
      exact fun sub hsub => h sub (List.mem_filter.mp hsub).1
    | _ => exact absurd (hp ▸ rfl) hscan
  | dropReceiver channel =>
    -- this may come at any moment of a pass, and moves nobody
    obtain rfl := Option.some.inj hstep
    have hbehind : ∀ idx, Behind P st idx → Behind P
        { st with subscribers := st.subscribers.map (Subscriber.dropReceiver channel) } idx := by
      intro idx hb j hj sub' hsub'
      obtain ⟨sub, hsub, rfl⟩ := Option.map_eq_some_iff.mp (List.getElem?_map ▸ hsub')
      exact hdrop channel sub (hb j hj sub hsub)
    unfold LeftBehind at h ⊢
    cases hp : st.pass with
    | idle result => trivial
    | scan idx delivered dead =>
      rw [hp] at h
      exact hbehind idx h
    | fetch idx cursor delivered dead =>
      rw [hp] at h
      exact hbehind idx h
    | deliver idx cursor records batchLen delivered dead =>
      rw [hp] at h
      exact ⟨hbehind idx h.1, h.2⟩
    | prune delivered dead =>
      rw [hp] at h
      intro sub' hsub'
      obtain ⟨sub, hsub, rfl⟩ := List.mem_map.mp hsub'
      exact hdrop channel sub (h sub hsub)
  | pass fault =>
    obtain rfl := hfault fault rfl
    exact h.passStep hrules hS (passStep_sound hstep)

end LeftBehind

/-! ### The end of the log -/

/-- The subscriber is at the end of the log, or at the cursor it asked for if that is beyond. -/
def AtEnd (S : Store) (sub : Subscriber) : Prop :=
  sub.InRange → sub.receiverAlive = true →
    sub.deliveredThrough = max sub.afterSequence S.log.length

/-- What a pass has left behind is at the end of the log. A batch shorter than the limit is all
there is past its cursor. -/
def CaughtUp (S : Store) (st : Stream) : Prop :=
  LeftBehind (AtEnd S) (fun cursor records => records = S.after cursor) st

section Caught

variable {R : TransitionRecord → ChangeRecord → Prop} {S : Store} {st st' : Stream}

/-- Nothing past the cursor: the subscriber is at the end. -/
theorem Serves.atEnd {sub : Subscriber} {cursor : ℕ} (h : Serves R S sub cursor)
    (hS : LogInvariant S) (hbound : S.sequence < 2 ^ 64 - 1) (hin : sub.InRange)
    (hempty : S.after cursor = []) : cursor = max sub.afterSequence S.log.length := by
  rw [Store.after_of_lt (h.lt_wrap hS hbound hin), List.drop_eq_nil_iff] at hempty
  have hle := h.after_le
  have hend := h.le_end
  omega

/-- The cursor a batch is fetched from is the subscriber's own. -/
theorem StreamInvariant.serves_fetch (hinv : StreamInvariant R S st) {idx cursor delivered : ℕ}
    {dead : List String} {sub : Subscriber} (hp : st.pass = .fetch idx cursor delivered dead)
    (hsub : st.subscribers[idx]? = some sub) (hin : sub.InRange) :
    Serves R S sub cursor ∧ sub.deliveredThrough = cursor := by
  have hserves := hinv.serves idx sub hsub hin
  have hpass := hinv.pass
  unfold PassFact at hpass
  rw [hp] at hserves hpass
  obtain ⟨sub', hsub', hcursor⟩ := hpass
  obtain rfl := Option.some.inj (hsub.symm.trans hsub')
  exact ⟨hcursor ▸ hserves, hcursor⟩

/-- What is left of a batch that was all there is, is still all there is. -/
theorem LogInvariant.rest_eq_after (hS : LogInvariant S) (hbound : S.sequence < 2 ^ 64 - 1)
    {cursor : ℕ} {r : TransitionRecord} {rest : List TransitionRecord}
    (hall : r :: rest = S.after cursor) : rest = S.after r.sequence := by
  have hprefix : r :: rest <+: S.after cursor := by
    rw [hall]
  have hcons := hS.after_cons hbound hprefix
  rw [← hall] at hcons
  exact (List.cons.inj hcons).2

/-- While the log stands still, a pass leaves subscribers at its end. -/
theorem StreamInvariant.atEndRules (hinv : StreamInvariant R S st) (hS : LogInvariant S)
    (hbound : S.sequence < 2 ^ 64 - 1) :
    PassRules S st (AtEnd S) (fun cursor records => records = S.after cursor) where
  dead sub hdead _ halive := absurd (hdead.symm.trans halive) Bool.noConfusion
  drained hp hsub hempty hin _ := by
    obtain ⟨hserves, hcursor⟩ := hinv.serves_fetch hp hsub hin
    rw [hcursor]
    exact hserves.atEnd hS hbound hin hempty
  batch _ _ := rfl
  inspect _ _ _ hall := hS.rest_eq_after hbound hall
  finish hp hsub hall hin _ := (hinv.serves_self hp hsub hin).atEnd hS hbound hin hall.symm

/-- **A step of a pass keeps it caught up.** -/
theorem CaughtUp.passStep (h : CaughtUp S st) (hinv : StreamInvariant R S st)
    (hS : LogInvariant S) (hbound : S.sequence < 2 ^ 64 - 1) (hstep : PassStep S st st') :
    CaughtUp S st' :=
  LeftBehind.passStep h (hinv.atEndRules hS hbound) hS hstep

/-- While a pass scans the list, the stream makes no other step than its own and the drop of a
receiver; either keeps it caught up. -/
theorem CaughtUp.step (h : CaughtUp S st) (hinv : StreamInvariant R S st) (hS : LogInvariant S)
    (hbound : S.sequence < 2 ^ 64 - 1) (hscan : st.pass.scanning = true) {l : StreamLabel}
    (hfault : ∀ f, l = .pass f → f = none) (hstep : st.step S l = some st') : CaughtUp S st' := by
  refine LeftBehind.step h (hinv.atEndRules hS hbound) hS ?_ ?_ hfault hstep
  · -- Fewer receivers are alive, and no cursor moves.
    exact fun channel sub hend hin halive => hend hin (Bool.and_eq_true_iff.mp halive).1
  · exact fun hidle => absurd (hscan.symm.trans hidle) Bool.noConfusion

/-- All of this is about the log only. -/
theorem CaughtUp.congr {S' : Store} (h : CaughtUp S st) (hlog : S'.log = S.log) :
    CaughtUp S' st := by
  unfold CaughtUp AtEnd Store.after at h ⊢
  rw [hlog]
  exact h

end Caught

/-! ### A pass ends -/

/-- The steps a pass has left for subscribers it has not visited. -/
def scanWork (S : Store) (subs : List Subscriber) : ℕ :=
  (subs.map fun sub => 3 * (S.after sub.deliveredThrough).length + 2).sum

/-- An upper bound on the steps a pass has left. A record costs one step to inspect and at most two
for the batch it is in. -/
def work (S : Store) (st : Stream) : ℕ :=
  match st.pass with
  | .idle _ => 0
  | .prune _ _ => 1
  | .scan idx _ _ => 2 + scanWork S (st.subscribers.drop idx)
  | .fetch idx cursor _ _ =>
    3 * (S.after cursor).length + 3 + scanWork S (st.subscribers.drop (idx + 1))
  | .deliver idx cursor records _ _ _ =>
    3 * ((S.after cursor).length - records.length) + records.length + 4
      + scanWork S (st.subscribers.drop (idx + 1))

section Work

variable {R : TransitionRecord → ChangeRecord → Prop} {S : Store} {st st' : Stream}

/-- Inspecting a record leaves one less past the cursor. -/
theorem LogInvariant.length_after (hS : LogInvariant S) (hbound : S.sequence < 2 ^ 64 - 1)
    {cursor : ℕ} {r : TransitionRecord} {rest : List TransitionRecord}
    (hr : r :: rest <+: S.after cursor) :
    (S.after cursor).length = (S.after r.sequence).length + 1 ∧
      rest.length ≤ (S.after r.sequence).length := by
  have hlen := hr.length_le
  have hcons := congrArg List.length (hS.after_cons hbound hr)
  rw [List.length_cons] at hlen hcons
  exact ⟨hcons, by omega⟩

/-- **Every step of a pass lessens the work.** -/
theorem work_lt (hinv : StreamInvariant R S st) (hS : LogInvariant S)
    (hbound : S.sequence < 2 ^ 64 - 1) (hrunning : ∀ result, st.pass ≠ .idle result)
    (hstep : PassStep S st st') : work S st' < work S st := by
  have hpass := hinv.pass
  unfold PassFact at hpass
  cases hstep with
  | start result hp => exact absurd hp (hrunning result)
  | visit idx delivered dead sub hp hsub =>
    -- its share of the scan becomes the work on it
    obtain ⟨hidx, rfl⟩ := List.getElem?_eq_some_iff.mp hsub
    simp only [work, hp, List.drop_eq_getElem_cons hidx, scanWork, List.map_cons, List.sum_cons]
    omega
  | done idx delivered dead hp hnone =>
    simp only [work, hp]
    omega
  | drained idx cursor delivered dead hp hempty =>
    simp only [work, hp]
    omega
  | batch idx cursor delivered dead records hp hrecords hne =>
    -- at least one record: the two steps of the batch are paid for
    have hlen : records.length ≤ (S.after cursor).length := by
      rw [← hrecords, hS.getTransitionsAfter_eq]
      exact List.length_take_le' _ _
    have hpos := List.length_pos_iff.mpr hne
    simp only [work, hp]
    omega
  | skip idx cursor r rest batchLen delivered dead sub hp hsub hwants =>
    -- one record less to inspect and one less past the cursor
    rw [hp] at hpass
    obtain ⟨hcons, hlen⟩ := hS.length_after hbound hpass.2
    simp only [work, hp, List.length_cons]
    omega
  | send idx cursor r rest batchLen delivered dead sub hp hsub hwants halive =>
    rw [hp] at hpass
    obtain ⟨hcons, hlen⟩ := hS.length_after hbound hpass.2
    simp only [work, hp, List.length_cons, Stream.sendTo,
      List.drop_modify_of_lt _ idx (idx + 1) _ (Nat.lt_succ_self idx)]
    omega
  | gone idx cursor r rest batchLen delivered dead sub hp hsub hdead =>
    simp only [work, hp, Stream.setDelivered,
      List.drop_modify_of_lt _ idx (idx + 1) _ (Nat.lt_succ_self idx)]
    omega
  | endBatch idx cursor batchLen delivered dead hp =>
    have hdrop : (st.setDelivered idx cursor).subscribers.drop (idx + 1)
        = st.subscribers.drop (idx + 1) :=
      List.drop_modify_of_lt _ idx (idx + 1) _ (Nat.lt_succ_self idx)
    split
    · simp only [work, hp, hdrop, List.length_nil]
      omega
    · simp only [work, hp, hdrop, List.length_nil]
      omega
  | prune delivered dead hp =>
    simp only [work, hp]
    omega

/-- A pass is never stuck, whether or not its reads fail. -/
theorem PassFact.passStep_exists (hpass : PassFact S st) (fault : Option Fault) :
    ∃ st', st.passStep S fault = some st' := by
  unfold PassFact at hpass
  unfold Stream.passStep
  cases hp : st.pass with
  | idle result => exact ⟨_, rfl⟩
  | scan idx delivered dead =>
    dsimp only
    split
    · exact ⟨_, rfl⟩
    · exact ⟨_, rfl⟩
  | fetch idx cursor delivered dead =>
    dsimp only
    split
    · exact ⟨_, rfl⟩
    · split
      · exact ⟨_, rfl⟩
      · exact ⟨_, rfl⟩
  | deliver idx cursor records batchLen delivered dead =>
    -- the list is locked, so the subscriber is still at its place
    rw [hp] at hpass
    obtain ⟨⟨sub, hsub⟩, -⟩ := hpass
    cases records with
    | nil => exact ⟨_, rfl⟩
    | cons r rest =>
      simp only [Stream.deliverOne, hsub, Option.bind_eq_bind, Option.bind_some]
      split
      · exact ⟨_, rfl⟩
      · split
        · exact ⟨_, rfl⟩
        · exact ⟨_, rfl⟩
  | prune delivered dead => exact ⟨_, rfl⟩

/-- `n` steps of a pass with nobody else moving. -/
def Stream.passes (S : Store) : ℕ → Stream → Option Stream
  | 0, st => some st
  | n + 1, st => (st.passStep S none).bind (passes S n)

/-- The last step of a pass is the one that drops the dead subscribers. -/
theorem PassStep.last (hstep : PassStep S st st') {result : Option ℕ} (hresult : st'.pass = .idle result) :
    ∃ delivered dead, st.pass = .prune delivered dead ∧ result = some delivered ∧
      st'.subscribers ⊆ st.subscribers := by
  cases hstep with
  | prune delivered dead hp =>
    refine ⟨delivered, dead, hp, (PassState.idle.inj hresult).symm, fun sub hsub => ?_⟩
    dsimp only at hsub
    split at hsub
    · exact hsub
    · exact (List.mem_filter.mp hsub).1
  | endBatch idx cursor batchLen delivered dead hp =>
    dsimp only at hresult
    split at hresult
    · exact absurd hresult PassState.noConfusion
    · exact absurd hresult PassState.noConfusion
  | _ => exact absurd hresult PassState.noConfusion

/-- **A pass ends**, and if it was caught up so far it leaves everyone at the end of the log. -/
theorem passes_finish (hS : LogInvariant S) (hbound : S.sequence < 2 ^ 64 - 1)
    (hsend : ∀ r ∈ S.log, R r (r.toChange (RedbEngine.getEffectsForTransition S r.id)))
    (hinv : StreamInvariant R S st) (hrunning : ∀ result, st.pass ≠ .idle result) :
    ∃ n st', Stream.passes S (n + 1) st = some st' ∧ (∃ k, st'.pass = .idle (some k)) ∧
      (CaughtUp S st → ∀ sub ∈ st'.subscribers, AtEnd S sub) := by
  -- By induction on the work left.
  induction hwork : work S st using Nat.strong_induction_on generalizing st with
  | _ bound ih =>
    obtain ⟨st₁, hst₁⟩ := hinv.pass.passStep_exists none
    have hstep := passStep_sound hst₁
    have hlt := work_lt hinv hS hbound hrunning hstep
    by_cases hlast : ∃ result, st₁.pass = .idle result
    · obtain ⟨result, hresult⟩ := hlast
      obtain ⟨delivered, dead, hp, rfl, hsubset⟩ := hstep.last hresult
      refine ⟨0, st₁, by simp only [Stream.passes, hst₁, Option.bind_some], ⟨delivered, hresult⟩,
        fun hcaught sub hsub => ?_⟩
      unfold CaughtUp LeftBehind at hcaught
      rw [hp] at hcaught
      exact hcaught sub (hsubset hsub)
    · have hinv₁ := hinv.passStep hS hbound hsend hstep
      obtain ⟨n, st', hpasses, hidle, hend⟩ :=
        ih _ (hwork ▸ hlt) hinv₁ (fun result hr => hlast ⟨result, hr⟩) rfl
      refine ⟨n + 1, st', ?_, hidle, fun hcaught => ?_⟩
      · rw [Stream.passes, hst₁, Option.bind_some]
        exact hpasses
      · exact hend (hcaught.passStep hinv hS hbound hstep)

end Work

end StateMaster
