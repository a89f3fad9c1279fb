import StateMaster.Engine.Delivery

/-!
# Passes whose reads fail

A pass makes one read for each batch and one for the effects of each record it sends. The first ends
the turn of its subscriber when it fails, with the cursor where it was; the second sends the record
without effects, and the cursor moves on.

* `step_sent` — a step adds at most one change to what a subscriber was sent, for a record the pass
  is about to send to it;
* `SentBy` — everything that was sent stands for a logged record past the cursor asked for;
* `Carries` — what is left of a record when its effects cannot be read: all the rest. This much
  survives every failure (`tells_carries`), hence no record is skipped;
* `stream_intact_iff` — the effects survive exactly if no read of effects that are there fails;
* `cursors_honoured_iff` — a cursor is honoured, by the reads and by what is sent, exactly if it is not
  the last one of its type.
-/

open Framework Framework.Text

namespace StateMaster

/-! ### What a step sends -/

/-- `sub'` is `sub` a step later: the same subscription, and a receiver that has not come back. -/
structure SameSubscription (sub sub' : Subscriber) : Prop where
  channel : sub'.channel = sub.channel
  id : sub'.id = sub.id
  machineFilter : sub'.machineFilter = sub.machineFilter
  afterSequence : sub'.afterSequence = sub.afterSequence
  alive : sub'.receiverAlive = true → sub.receiverAlive = true

theorem SameSubscription.refl (sub : Subscriber) : SameSubscription sub sub :=
  ⟨rfl, rfl, rfl, rfl, fun h => h⟩

/-- What a pass sends for a record: with the effects it reads, or with none if it cannot read them. -/
def Told (S : Store) (fault : Option Fault) (r : TransitionRecord) (change : ChangeRecord) : Prop :=
  change = r.toChange (RedbEngine.getEffectsForTransition S r.id) ∨
    fault.isSome = true ∧ change = r.toChange []

/-- The step `l` sends `change` to `sub`. -/
def Stream.Sends (S : Store) (st : Stream) (l : StreamLabel) (sub : Subscriber)
    (change : ChangeRecord) : Prop :=
  ∃ fault r, l = .pass fault ∧ st.SendingTo sub r ∧ Told S fault r change

/-- After the step `l`, `sub'` is a subscriber from before it, with at most one change more, which was
sent to a live receiver. -/
def Stream.Keeps (S : Store) (st : Stream) (l : StreamLabel) (sub' : Subscriber) : Prop :=
  ∃ sub ∈ st.subscribers, SameSubscription sub sub' ∧ (sub'.sent = sub.sent ∨
    ∃ change, st.Sends S l sub change ∧ sub'.sent = sub.sent ++ [change] ∧
      sub'.receiverAlive = true)

section Sent

variable {S : Store} {st st' : Stream} {sub' : Subscriber}

/-- A send changes what one subscriber was sent. -/
theorem Stream.mem_sendTo {idx : ℕ} {change : ChangeRecord}
    (h : sub' ∈ (st.sendTo idx change).subscribers) :
    sub' ∈ st.subscribers ∨ ∃ sub, st.subscribers[idx]? = some sub ∧
      sub' = { sub with sent := sub.sent ++ [change] } :=
  mem_modify_cases h

/-- **What a pass step sends.** -/
theorem Stream.passStep_sent {fault : Option Fault} (hstep : st.passStep S fault = some st')
    (hsub' : sub' ∈ st'.subscribers) :
    st.Keeps S (.pass fault) sub' := by
  have hsent : ∀ idx cursor r rest batchLen delivered dead sub change,
      st.pass = .deliver idx cursor (r :: rest) batchLen delivered dead →
      st.subscribers[idx]? = some sub → sub.wants r = true → sub.receiverAlive = true →
      Told S fault r change → sub' ∈ (st.sendTo idx change).subscribers →
      st.Keeps S (.pass fault) sub' := by
    intro idx cursor r rest batchLen delivered dead sub change hp hsub hwants halive htold hmem
    rcases mem_sendTo hmem with hold | ⟨old, hget, rfl⟩
    · exact ⟨sub', hold, .refl sub', Or.inl rfl⟩
    · obtain rfl := Option.some.inj (hsub.symm.trans hget)
      refine ⟨sub, List.mem_of_getElem? hsub, ⟨rfl, rfl, rfl, rfl, fun h => h⟩,
        Or.inr ⟨change, ⟨fault, r, rfl, ?_, htold⟩, rfl, halive⟩⟩
      exact ⟨idx, cursor, rest, batchLen, delivered, dead, hp, hsub, hwants, halive⟩
  -- a stored cursor is nothing that was sent
  have hstored : ∀ idx cursor, sub' ∈ (st.setDelivered idx cursor).subscribers →
      st.Keeps S (.pass fault) sub' := by
    intro idx cursor hmem
    rcases mem_modify_cases hmem with hold | ⟨old, hget, rfl⟩
    · exact ⟨sub', hold, .refl sub', Or.inl rfl⟩
    · exact ⟨old, List.mem_of_getElem? hget, ⟨rfl, rfl, rfl, rfl, fun h => h⟩, Or.inl rfl⟩
  rcases passStep_cases hstep with hpass | ⟨hsome, hfaulty⟩
  · cases hpass with
    | send idx cursor r rest batchLen delivered dead sub hp hsub hwants halive =>
      exact hsent idx cursor r rest batchLen delivered dead sub _ hp hsub hwants halive
        (Or.inl rfl) hsub'
    | gone idx cursor r rest batchLen delivered dead sub hp hsub hdead =>
      exact hstored idx r.sequence hsub'
    | endBatch idx cursor batchLen delivered dead hp => exact hstored idx cursor hsub'
    | prune delivered dead hp =>
      dsimp only at hsub'
      split at hsub'
      · exact ⟨sub', hsub', .refl sub', Or.inl rfl⟩
      · exact ⟨sub', (List.mem_filter.mp hsub').1, .refl sub', Or.inl rfl⟩
    | _ => exact ⟨sub', hsub', .refl sub', Or.inl rfl⟩
  · cases hfaulty with
    | unread idx cursor delivered dead hp => exact ⟨sub', hsub', .refl sub', Or.inl rfl⟩
    | truncated idx cursor r rest batchLen delivered dead sub hp hsub hwants halive =>
      exact hsent idx cursor r rest batchLen delivered dead sub _ hp hsub hwants halive
        (Or.inr ⟨hsome, rfl⟩) hsub'

/-- **What a step of the stream sends**: a new subscriber has been sent nothing, an old one what it had
been sent before and at most one change more. -/
theorem Stream.step_sent {l : StreamLabel} (hstep : st.step S l = some st')
    (hsub' : sub' ∈ st'.subscribers) :
    (sub'.channel = st.channels ∧ sub'.sent = [] ∧
      l = .subscribe sub'.id sub'.machineFilter sub'.afterSequence) ∨
    st.Keeps S l sub' := by
  cases l with
  | subscribe id machineFilter afterSequence =>
    simp only [Stream.step, Option.ite_none_left_eq_some] at hstep
    obtain rfl := Option.some.inj hstep.2
    rcases List.mem_append.mp hsub' with hold | hnew
    · exact Or.inr ⟨sub', hold, .refl sub', Or.inl rfl⟩
    · obtain rfl := List.mem_singleton.mp hnew
      exact Or.inl ⟨rfl, rfl, rfl⟩
  | unsubscribe id =>
    simp only [Stream.step, Option.ite_none_left_eq_some] at hstep
    obtain rfl := Option.some.inj hstep.2
    exact Or.inr ⟨sub', (List.mem_filter.mp hsub').1, .refl sub', Or.inl rfl⟩
  | dropReceiver channel =>
    obtain rfl := Option.some.inj hstep
    obtain ⟨sub, hsub, rfl⟩ := List.mem_map.mp hsub'
    exact Or.inr ⟨sub, hsub, ⟨rfl, rfl, rfl, rfl, fun h => (Bool.and_eq_true_iff.mp h).1⟩,
      Or.inl rfl⟩
  | pass fault => exact Or.inr (passStep_sent hstep hsub')

end Sent

/-! ### Everything that was sent -/

/-- What was sent stands for a logged record, past the cursor that was asked for. -/
def SentBy (R : TransitionRecord → ChangeRecord → Prop) (S : Store) (st : Stream) : Prop :=
  ∀ sub ∈ st.subscribers, ∀ change ∈ sub.sent,
    ∃ r ∈ S.log, R r change ∧ (sub.InRange → sub.afterSequence < r.sequence)

section SentBy

variable {R R' : TransitionRecord → ChangeRecord → Prop} {S S' : Store} {st st' : Stream}

theorem SentBy.grow (h : SentBy R S st) (hlog : S.log <+: S'.log)
    (hR : ∀ r ∈ S.log, ∀ change, R r change → R' r change) : SentBy R' S' st := by
  intro sub hsub change hchange
  obtain ⟨r, hr, hrel, hafter⟩ := h sub hsub change hchange
  exact ⟨r, hlog.subset hr, hR r hr change hrel, hafter⟩

/-- A record that is about to be sent is in the log, past the cursor asked for. -/
theorem StreamInvariant.sending (hinv : StreamInvariant R' S st) (hS : LogInvariant S)
    (hbound : S.sequence < 2 ^ 64 - 1) {sub : Subscriber} {r : TransitionRecord}
    (h : st.SendingTo sub r) : r ∈ S.log ∧ (sub.InRange → sub.afterSequence < r.sequence) := by
  obtain ⟨idx, cursor, rest, batchLen, delivered, dead, hp, hsub, -, -⟩ := h
  refine ⟨hinv.pass.mem_log hp, fun hin => ?_⟩
  have hserves := hinv.serves_self hp hsub hin
  have hpass := hinv.pass
  unfold PassFact at hpass
  rw [hp] at hpass
  -- the record after a cursor that is past the one asked for
  have hseq := hS.sequence_of_getElem? (hserves.getElem?_cursor hS hbound hin hpass.2)
  have hle := hserves.after_le
  omega

theorem SentBy.step (h : SentBy R S st) (hinv : StreamInvariant R' S st) (hS : LogInvariant S)
    (hbound : S.sequence < 2 ^ 64 - 1)
    (hsend : ∀ r ∈ S.log, R r (r.toChange (RedbEngine.getEffectsForTransition S r.id)))
    {l : StreamLabel}
    (hcut : ∀ f, l = .pass (some f) → ∀ r, st.Sending r → R r (r.toChange []))
    (hstep : st.step S l = some st') : SentBy R S st' := by
  intro sub' hsub' change hchange
  obtain ⟨-, hnone, -⟩ | ⟨sub, hsub, hsame, hsent⟩ := Stream.step_sent hstep hsub'
  · rw [hnone] at hchange
    exact absurd hchange List.not_mem_nil
  · have hrange : sub'.InRange ↔ sub.InRange := by
      unfold Subscriber.InRange
      rw [hsame.afterSequence]
    rw [hrange, hsame.afterSequence]
    obtain heq | ⟨new, ⟨fault, r, rfl, hsending, htold⟩, heq, -⟩ := hsent
    · exact h sub hsub change (heq ▸ hchange)
    · rw [heq] at hchange
      rcases List.mem_append.mp hchange with hold | hnew
      · exact h sub hsub change hold
      · -- the one change this step sends
        obtain rfl := List.mem_singleton.mp hnew
        obtain ⟨hr, hafter⟩ := hinv.sending hS hbound hsending
        refine ⟨r, hr, ?_, hafter⟩
        obtain rfl | ⟨hsome, rfl⟩ := htold
        · exact hsend r hr
        · obtain ⟨f, rfl⟩ := Option.isSome_iff_exists.mp hsome
          exact hcut f rfl r ⟨sub, hsending⟩

end SentBy

/-! ### What survives every failure -/

/-- The change carries the record, with whatever effects. -/
def Carries (r : TransitionRecord) (change : ChangeRecord) : Prop :=
  change = { r.toChange [] with effects := change.effects }

theorem Carries.sequence {r : TransitionRecord} {change : ChangeRecord} (h : Carries r change) :
    change.sequence = r.sequence := by
  rw [h]
  rfl

section Runs

variable {cfg : Config} {guards : GuardRegistry} {ls : List Label} {w : World}

/-- Whatever fails, what is sent carries its record. -/
theorem tells_carries (cfg : Config) (guards : GuardRegistry) (ls : List Label) :
    Tells cfg guards ls (fun _ => Carries) where
  send _ _ _ _ _ := rfl
  cut _ _ _ _ _ _ _ := rfl
  keep _ _ _ _ _ _ _ _ _ _ h := h

theorem carries_of_run (hrun : (engine cfg).exec (World.initial Store.empty guards) ls = some w)
    (hbound : w.store.sequence < 2 ^ 64 - 1) :
    StreamInvariant Carries w.store w.stream :=
  streamInvariant_of_tells (tells_carries cfg guards ls) hrun hbound

/-- **Everything that was sent along a run.** -/
theorem sentBy_of_run {R : Store → TransitionRecord → ChangeRecord → Prop}
    (htells : Tells cfg guards ls R)
    (hrun : (engine cfg).exec (World.initial Store.empty guards) ls = some w)
    (hbound : w.store.sequence < 2 ^ 64 - 1) : SentBy (R w.store) w.store w.stream := by
  have hend := hrun
  rw [← System.stateAt_length] at hend
  refine System.stateAt_induction (I := fun w => SentBy (R w.store) w.store w.stream)
    (Nat.zero_le _) rfl hend ?_ ?_
  · intro sub hsub
    exact absurd hsub List.not_mem_nil
  · intro n l t t' _ _ hl hn hstep hsent
    have hst := step_sound hstep
    have hlog := (keyInvariant_of_run hn).log
    have hlt : t.store.sequence < 2 ^ 64 - 1 := (sequence_le_of_stateAt hrun hn).trans_lt hbound
    obtain ⟨sl, st, rfl, hsl, rfl⟩ | hsame := hst.stream_cases
    · refine hsent.step (carries_of_run hn hlt) hlog hlt (htells.send n t hn) (fun f hf => ?_) hsl
      exact htells.cut n t f (hf ▸ hl) hn
    · rw [hsame]
      exact hsent.grow (hst.log_grows hlog) (htells.keep n t t' l hl hn hst)

/-- No record a live subscriber wants is skipped. -/
theorem StreamInvariant.no_gap {R : TransitionRecord → ChangeRecord → Prop} {S : Store}
    {st : Stream} (hinv : StreamInvariant R S st) (hS : LogInvariant S)
    (hbound : S.sequence < 2 ^ 64 - 1) {sub : Subscriber} (hsub : sub ∈ st.subscribers)
    (halive : sub.receiverAlive = true) {r : TransitionRecord} (hr : r ∈ S.log)
    (hwants : sub.wants r = true) (hafter : sub.afterSequence < r.sequence)
    (hle : r.sequence ≤ sub.deliveredThrough) : ∃ change ∈ sub.sent, R r change := by
  obtain ⟨idx, hidx⟩ := List.getElem?_of_mem hsub
  have hend := hS.sequence_le_of_mem hr
  have hserves := hinv.serves idx sub hidx ((hafter.trans_le hend).trans hbound)
  have hsent := hserves.sent halive
  rw [← hS.due_eq] at hsent
  have hdue : r ∈ S.due sub (st.pass.cursorOf idx sub) := by
    refine List.mem_filter.mpr ⟨hr, ?_⟩
    rw [decide_eq_true hafter, decide_eq_true (hle.trans hserves.delivered_le), hwants]
    rfl
  exact exists_of_forall₂_mem hsent hdue

/-! ### The effects -/

/-- At step `n` the read of the effects fails for a record that is about to be sent and has some. -/
def TruncatesAt (cfg : Config) (guards : GuardRegistry) (ls : List Label) (n : ℕ) : Prop :=
  ∃ f wn r, ls[n]? = some (.stream (.pass (some f))) ∧
    (engine cfg).stateAt (World.initial Store.empty guards) ls n = some wn ∧
    wn.stream.Sending r ∧ wn.store.payloads r.id ≠ []

/-- Without such a failure every change carries the effects of its record. -/
theorem tells_publishes (hfresh : FreshIds ls)
    (hno : ∀ n, ¬ TruncatesAt cfg guards ls n) : Tells cfg guards ls Publishes where
  send n wn hn := (originInvariant_of_run (hfresh.mono (List.take_subset n ls)) hn).publishes
  cut n wn f hl hn r hsending := by
    refine ⟨rfl, ?_⟩
    by_contra hne
    refine hno n ⟨f, wn, r, hl, hn, hsending, fun hnil => hne ?_⟩
    rw [hnil]
    exact List.Perm.nil
  keep n wn wn' l _ hn hst r hr change hpub := by
    have hfresh' := hfresh.mono (List.take_subset n ls)
    exact hpub.congr ((originInvariant_of_run hfresh' hn).payloads_step hfresh' hn hst hr)

/-- The step that cannot read the effects sends the record without them. -/
theorem Stream.passStep_truncated {S : Store} {st : Stream} {f : Fault} {sub : Subscriber}
    {r : TransitionRecord} (h : st.SendingTo sub r) :
    ∃ st' sub', st.passStep S (some f) = some st' ∧ sub' ∈ st'.subscribers ∧
      r.toChange [] ∈ sub'.sent := by
  obtain ⟨idx, cursor, rest, batchLen, delivered, dead, hp, hsub, hwants, halive⟩ := h
  refine ⟨{ st.sendTo idx (r.toChange []) with
      pass := .deliver idx r.sequence rest batchLen (delivered + 1) dead },
    { sub with sent := sub.sent ++ [r.toChange []] }, ?_, ?_,
    List.mem_append_right _ List.mem_cons_self⟩
  · simp only [passStep, hp, deliverOne, hsub, Option.bind_eq_bind, Option.bind_some, hwants,
      Bool.true_eq_false, if_false, halive, if_true, withFault]
    rfl
  · refine List.mem_of_getElem? (i := idx) ?_
    change (st.subscribers.modify idx _)[idx]? = _
    rw [List.getElem?_modify_eq, hsub]
    rfl

/-- What the step leaves in a channel for a record with effects is no publication of it. -/
theorem not_publishes_truncated {S : Store} (hS : LogInvariant S) {r : TransitionRecord}
    (hr : r ∈ S.log) (hne : S.payloads r.id ≠ []) :
    ¬ ∃ r' ∈ S.log, Publishes S r' (r.toChange []) := by
  rintro ⟨r', hr', hpub⟩
  -- the sequence tells which record it is
  have hseq : r'.sequence = r.sequence := by
    have := congrArg ChangeRecord.sequence hpub.fields
    exact this.symm
  have hnodup : (S.log.map TransitionRecord.sequence).Nodup := by
    rw [hS.log_sequences]
    exact List.nodup_range'
  obtain rfl := List.inj_on_of_nodup_map hnodup hr' hr hseq
  exact hne (List.Perm.nil_eq hpub.effects).symm

/-- **Failed reads and the stream.** In every run with fresh ids, whatever reads of its passes fail:

* every change that is ever sent carries all the effects stored for its transition, and no record a
  live subscriber wants is missing up to its `delivered_through`, exactly if no read of the effects
  fails for a record that is about to be sent and has some;
* whatever has failed, a pass that is left alone without further failures ends, and one that starts
  then brings every live subscriber to the end of the log. -/
theorem stream_intact_iff (hfresh : FreshIds ls)
    (hrun : (engine cfg).exec (World.initial Store.empty guards) ls = some w)
    (hbound : w.store.sequence < 2 ^ 64 - 1) :
    ((∀ n wn, (engine cfg).stateAt (World.initial Store.empty guards) ls n = some wn →
      (∀ sub ∈ wn.stream.subscribers, ∀ change ∈ sub.sent,
        ∃ r ∈ wn.store.log, Publishes wn.store r change) ∧
      (∀ sub ∈ wn.stream.subscribers, sub.receiverAlive = true → ∀ r ∈ wn.store.log,
        sub.wants r = true → sub.afterSequence < r.sequence →
          r.sequence ≤ sub.deliveredThrough → ∃ change ∈ sub.sent, Carries r change)) ↔
      ∀ n, ¬ TruncatesAt cfg guards ls n) ∧
    (∀ n wn, (engine cfg).stateAt (World.initial Store.empty guards) ls n = some wn →
      ∃ k w', (engine cfg).exec wn (List.replicate k (.stream (.pass none))) = some w' ∧
        (∃ count, w'.stream.pass = .idle (some count)) ∧
        ((∃ result, wn.stream.pass = .idle result) → ∀ sub ∈ w'.stream.subscribers,
          sub.afterSequence < 2 ^ 64 - 1 → sub.receiverAlive = true →
            sub.deliveredThrough = max sub.afterSequence wn.store.sequence)) := by
  have hlt : ∀ n wn, (engine cfg).stateAt (World.initial Store.empty guards) ls n = some wn →
      wn.store.sequence < 2 ^ 64 - 1 :=
    fun n wn hn => (sequence_le_of_stateAt hrun hn).trans_lt hbound
  refine ⟨⟨fun hintact n htrunc => ?_, fun hno n wn hn => ⟨?_, ?_⟩⟩, ?_⟩
  · -- the step itself sends what is no publication
    obtain ⟨f, wn, r, hl, hn, ⟨sub, hsending⟩, hne⟩ := htrunc
    obtain ⟨st', sub', hstep, hsub', hmem⟩ :=
      Stream.passStep_truncated (S := wn.store) (f := f) hsending
    have hnext : (engine cfg).step wn (.stream (.pass (some f)))
        = some { wn with stream := st' } := by
      simp only [engine, World.step, Stream.step, hstep, Option.map_some]
    have hn' := System.stateAt_succ hl hn hnext
    have hlog := (keyInvariant_of_run hn).log
    have hr := ((carries_of_run hn (hlt n wn hn)).sending hlog (hlt n wn hn) hsending).1
    exact not_publishes_truncated hlog hr hne ((hintact (n + 1) _ hn').1 sub' hsub' _ hmem)
  · -- no such step: the publications are the invariant
    have htells : Tells cfg guards (ls.take n) Publishes := by
      refine tells_publishes (hfresh.mono (List.take_subset n ls)) fun m htrunc => ?_
      obtain ⟨f, wm, r, hl, hm, hrest⟩ := htrunc
      have hmn := (List.getElem?_eq_some_iff.mp hl).1
      rw [List.length_take] at hmn
      refine hno m ⟨f, wm, r, ?_, ?_, hrest⟩
      · rwa [List.getElem?_take_of_lt (by omega)] at hl
      · unfold System.stateAt at hm ⊢
        rwa [List.take_take, Nat.min_eq_left (by omega)] at hm
    intro sub hsub change hchange
    obtain ⟨r, hr, hpub, -⟩ := sentBy_of_run htells hn (hlt n wn hn) sub hsub change hchange
    exact ⟨r, hr, hpub⟩
  · intro sub hsub halive r hr hwants hafter hle
    exact (carries_of_run hn (hlt n wn hn)).no_gap (keyInvariant_of_run hn).log (hlt n wn hn) hsub
      halive hr hwants hafter hle
  · intro n wn hn
    have hlog := (keyInvariant_of_run hn).log
    obtain ⟨k, w', hexec, -, hidle, hend⟩ :=
      (carries_of_run hn (hlt n wn hn)).pass_ends cfg hlog (hlt n wn hn) fun _ _ => rfl
    refine ⟨k, w', hexec, hidle, fun hi sub hsub hin halive => ?_⟩
    rw [← hlog.length_log]
    exact hend hi sub hsub hin halive

end Runs

/-- An order is paid. The first read of a batch fails, the next pass goes through. -/
def unreadBatch : List Label :=
  [Label.defineMachine orderMachine none, Label.stream (.subscribe "s" none 0),
    Label.invoke 0 (payOrder 0 "o1" none)] ++ steps 0 8 ++ passSteps 2
  ++ [.stream (.pass (some (.io "read")))] ++ passSteps 6

/-- An order is paid, and the read of its receipt fails. -/
def truncatedPayment : List Label :=
  [Label.defineMachine orderMachine none, Label.stream (.subscribe "s" none 0),
    Label.invoke 0 (payOrder 0 "o1" none)] ++ steps 0 8 ++ passSteps 3
  ++ [.stream (.pass (some (.io "read")))]

theorem unreadBatch_fresh : FreshIds unreadBatch := by
  refine FreshIds.of_ofNat fun i c hmem => ?_
  obtain ⟨rfl, rfl⟩ : i = 0 ∧ c = payOrder 0 "o1" none := by
    simpa [unreadBatch, steps, passSteps] using hmem
  rfl

theorem truncatedPayment_fresh : FreshIds truncatedPayment := by
  refine FreshIds.of_ofNat fun i c hmem => ?_
  obtain ⟨rfl, rfl⟩ : i = 0 ∧ c = payOrder 0 "o1" none := by
    simpa [truncatedPayment, steps, passSteps] using hmem
  rfl

/-- A step of a pass that meets a failure. -/
def Label.failingPass : Label → Bool
  | .stream (.pass (some _)) => true
  | _ => false

/-- The pass is about to read a batch. -/
def PassState.fetching : PassState → Bool
  | .fetch _ _ _ _ => true
  | _ => false

/-- The read fails while the pass is at no record. -/
theorem unreadBatch_not_truncated (n : ℕ) : ¬ TruncatesAt oneStripe ∅ unreadBatch n := by
  rintro ⟨f, wn, r, hl, hn, ⟨sub, idx, cursor, rest, batchLen, delivered, dead, hp, -⟩, -⟩
  -- one step of the run has a fault
  have honly : ∀ k < 20, k = 13 ∨ unreadBatch[k]?.any Label.failingPass = false := by decide
  have hlt : n < 20 := (List.getElem?_eq_some_iff.mp hl).1
  obtain rfl | hno := honly n hlt
  · -- and that step is at a fetch
    have hfetch : ((engine oneStripe).stateAt (World.initial Store.empty ∅) unreadBatch 13).map
        (fun w => w.stream.pass.fetching) = some true := by decide
    rw [hn, Option.map_some, hp] at hfetch
    exact absurd (Option.some.inj hfetch) Bool.false_ne_true
  · rw [hl] at hno
    exact Bool.noConfusion hno

theorem stream_intact_iff_unreadBatch : ∃ w sub change r,
    (engine oneStripe).exec (World.initial Store.empty ∅) unreadBatch = some w ∧
      sub ∈ w.stream.subscribers ∧ change ∈ sub.sent ∧ r ∈ w.store.log ∧
      Publishes w.store r change := by
  have heval : ((engine oneStripe).exec (World.initial Store.empty ∅) unreadBatch).map
      (fun w => (w.store.sequence, w.stream.subscribers.map fun sub => sub.sent.length))
      = some (1, [1]) := by decide
  obtain ⟨w, hrun, hw⟩ := Option.map_eq_some_iff.mp heval
  obtain ⟨hseq, hsubs⟩ := Prod.mk.inj hw
  obtain ⟨sub, hsub, hlen⟩ := List.mem_map.mp (hsubs ▸ List.mem_singleton_self 1)
  obtain ⟨change, hchange⟩ := List.exists_mem_of_length_pos (hlen ▸ Nat.one_pos)
  have hbound : w.store.sequence < 2 ^ 64 - 1 := by rw [hseq]; decide
  have hintact := (stream_intact_iff unreadBatch_fresh hrun hbound).1.mpr unreadBatch_not_truncated
  rw [← System.stateAt_length] at hrun
  obtain ⟨r, hr, hpub⟩ := (hintact _ w hrun).1 sub hsub change hchange
  rw [System.stateAt_length] at hrun
  exact ⟨w, sub, change, r, hrun, hsub, hchange, hr, hpub⟩

/-- A failed read of the effects corrupts the stream: what was sent for the payment lacks its
receipt. -/
theorem not_stream_intact : ¬ ∀ (cfg : Config) (guards : GuardRegistry) (ls : List Label) (w : World),
    FreshIds ls → (engine cfg).exec (World.initial Store.empty guards) ls = some w →
    w.store.sequence < 2 ^ 64 - 1 →
    ∀ sub ∈ w.stream.subscribers, ∀ change ∈ sub.sent,
      ∃ r ∈ w.store.log, Publishes w.store r change := by
  intro hpublished
  have heval : ((engine oneStripe).exec (World.initial Store.empty ∅) truncatedPayment).map
      (fun w => (w.store.sequence, w.stream.subscribers.map fun sub => sub.sent.map fun change =>
        change.effects.length, w.store.log.map fun r => (w.store.payloads r.id).length))
      = some (1, [[0]], [1]) := by decide
  obtain ⟨w, hrun, hw⟩ := Option.map_eq_some_iff.mp heval
  simp only [Prod.mk.injEq] at hw
  obtain ⟨hseq, hsubs, hlog⟩ := hw
  obtain ⟨sub, hsub, hsent⟩ := List.mem_map.mp (hsubs ▸ List.mem_singleton_self [0])
  obtain ⟨change, hchange, hnone⟩ := List.mem_map.mp (hsent ▸ List.mem_singleton_self 0)
  obtain ⟨r, hr, hpub⟩ := hpublished oneStripe ∅ truncatedPayment w truncatedPayment_fresh hrun
    (by rw [hseq]; decide) sub hsub change hchange
  -- the record has one effect, the change none
  have hone : (w.store.payloads r.id).length = 1 := by
    have hmem := List.mem_map_of_mem (f := fun r => (w.store.payloads r.id).length) hr
    rw [hlog] at hmem
    exact List.mem_singleton.mp hmem
  rw [← hpub.effects.length_eq, hnone] at hone
  exact absurd hone Nat.zero_ne_one

/-! ### Cursors at the end of the range -/

/-- **The read of a batch honours its cursor** exactly if the successor of the cursor does not wrap, or
there is nothing to return. -/
theorem LogInvariant.honours_iff {S : Store} (hS : LogInvariant S) {after : ℕ} (hafter : after < 2 ^ 64)
    (limit : ℕ) :
    RedbEngine.getTransitionsAfter S after limit
        = (S.log.filter fun r => decide (after < r.sequence)).take limit ↔
      (after + 1) % 2 ^ 64 = after + 1 ∨ S.log = [] ∨ limit = 0 := by
  rw [hS.getTransitionsAfter_eq, hS.filter_eq_drop]
  by_cases hwrap : after + 1 < 2 ^ 64
  · have hmod := Nat.mod_eq_of_lt hwrap
    rw [Store.after, hmod, Nat.add_sub_cancel]
    exact iff_of_true rfl (Or.inl rfl)
  · -- the last cursor: the read starts over at the first record
    obtain rfl : after = 2 ^ 64 - 1 := by omega
    have hzero : S.after (2 ^ 64 - 1) = S.log := rfl
    rw [hzero]
    refine ⟨fun heq => Or.inr ?_, ?_⟩
    · by_contra hne
      push Not at hne
      obtain ⟨hlog, hlimit⟩ := hne
      have hpos : 0 < S.log.length := List.length_pos_iff.mpr hlog
      have hhead := congrArg (·[0]?) heq
      simp only [List.getElem?_take_of_lt (Nat.pos_of_ne_zero hlimit), List.getElem?_drop] at hhead
      obtain ⟨r, hr⟩ : ∃ r, S.log[0]? = some r := ⟨_, List.getElem?_eq_getElem hpos⟩
      have hfirst := hS.sequence_of_getElem? hr
      rw [hhead] at hr
      have hlast := hS.sequence_of_getElem? hr
      omega
    · rintro (hmod | hlog | rfl)
      · omega
      · rw [hlog, List.drop_nil]
      · rfl

/-- A read of a batch honours its cursor: the sum it starts from does not wrap, and what it returns is
the front of the records past the cursor, in increasing order. -/
structure HonoursCursor (S : Store) (after limit : ℕ) : Prop where
  successor : (after + 1) % 2 ^ 64 = after + 1
  records : RedbEngine.getTransitionsAfter S after limit
    = (S.log.filter fun r => decide (after < r.sequence)).take limit
  increasing : (RedbEngine.getTransitionsAfter S after limit).Pairwise
    fun r r' => r.sequence < r'.sequence

/-- The stream honours the cursor a subscriber asked for: all it was sent lies past it, and the sum of
a batch that is about to be read for it does not wrap. -/
structure Stream.HonoursCursor (st : Stream) (sub : Subscriber) : Prop where
  sent : ∀ change ∈ sub.sent, sub.afterSequence < change.sequence
  successor : ∀ idx cursor delivered dead, st.pass = .fetch idx cursor delivered dead →
    st.subscribers[idx]? = some sub → (cursor + 1) % 2 ^ 64 = cursor + 1

theorem LogInvariant.honoursCursor_iff {S : Store} (hS : LogInvariant S) {after : ℕ}
    (hafter : after < 2 ^ 64) (limit : ℕ) : HonoursCursor S after limit ↔ after < 2 ^ 64 - 1 := by
  refine ⟨fun h => ?_, fun hlt => ?_⟩
  · have hsum := h.successor
    have hwrap := Nat.mod_lt (after + 1) (Nat.two_pow_pos 64)
    omega
  · have hsum : (after + 1) % 2 ^ 64 = after + 1 := Nat.mod_eq_of_lt (by omega)
    refine ⟨hsum, (hS.honours_iff hafter limit).mpr (Or.inl hsum), ?_⟩
    rw [hS.getTransitionsAfter_eq]
    have hpiece : ((S.after after).take limit).Sublist S.log :=
      (List.take_sublist _ _).trans (List.drop_sublist _ _)
    exact hS.log_increasing.sublist hpiece

/-- A subscriber whose cursor has a successor is served past that cursor. -/
theorem honoursCursor_of_run {cfg : Config} {guards : GuardRegistry} {ls : List Label} {w : World}
    (hrun : (engine cfg).exec (World.initial Store.empty guards) ls = some w)
    (hbound : w.store.sequence < 2 ^ 64 - 1) {sub : Subscriber} (hsub : sub ∈ w.stream.subscribers)
    (hin : sub.InRange) : w.stream.HonoursCursor sub where
  sent change hchange := by
    obtain ⟨r, -, hcarries, hafter⟩ :=
      sentBy_of_run (tells_carries cfg guards ls) hrun hbound sub hsub change hchange
    rw [hcarries.sequence]
    exact hafter hin
  successor idx cursor delivered dead hp hidx := by
    have hlog := (keyInvariant_of_run hrun).log
    have hserves := ((carries_of_run hrun hbound).serves_fetch hp hidx hin).1
    have hlt := hserves.lt_wrap hlog hbound hin
    exact Nat.mod_eq_of_lt (by omega)

/-- A client asks for what is past the largest cursor there is; an order is paid. -/
def lastCursor : List Label :=
  [Label.defineMachine orderMachine none, Label.stream (.subscribe "s" none (2 ^ 64 - 1)),
    Label.invoke 0 (payOrder 0 "o1" none)] ++ steps 0 8 ++ passSteps 4

theorem lastCursor_run : ∃ w sub change,
    (engine oneStripe).exec (World.initial Store.empty ∅) lastCursor = some w ∧
      w.store.sequence = 1 ∧ sub ∈ w.stream.subscribers ∧ sub.afterSequence = 2 ^ 64 - 1 ∧
      change ∈ sub.sent ∧ change.sequence = 1 := by
  have heval : ((engine oneStripe).exec (World.initial Store.empty ∅) lastCursor).map
      (fun w => (w.store.sequence, w.stream.subscribers.map fun sub =>
        (sub.afterSequence, sub.sent.map ChangeRecord.sequence)))
      = some (1, [(2 ^ 64 - 1, [1])]) := by decide
  obtain ⟨w, hrun, hw⟩ := Option.map_eq_some_iff.mp heval
  obtain ⟨hseq, hsubs⟩ := Prod.mk.inj hw
  obtain ⟨sub, hsub, hfields⟩ := List.mem_map.mp (hsubs ▸ List.mem_singleton_self (2 ^ 64 - 1, [1]))
  obtain ⟨hafter, hsent⟩ := Prod.mk.inj hfields
  obtain ⟨change, hchange, hone⟩ := List.mem_map.mp (hsent ▸ List.mem_singleton_self 1)
  exact ⟨w, sub, change, hrun, hseq, hsub, hafter, hchange, hone⟩

/-- **Cursors of the whole `u64` range.** A cursor is honoured exactly if it is not the last one:

* by the read of a batch, in every store an engine leads to and for every limit;
* by what is sent to a subscriber that asked for it, in every run whose log is short of the last
  cursor, whatever reads of its passes fail.

No step of a pass aborts in such a run. -/
theorem cursors_honoured_iff {after : ℕ} (hafter : after < 2 ^ 64) :
    (∀ S, EngineReachable S → ∀ limit, HonoursCursor S after limit ↔ after < 2 ^ 64 - 1) ∧
    ((∀ cfg guards ls w, (engine cfg).exec (World.initial Store.empty guards) ls = some w →
        w.store.sequence < 2 ^ 64 - 1 → ∀ sub ∈ w.stream.subscribers, sub.afterSequence = after →
          w.stream.HonoursCursor sub) ↔
      after < 2 ^ 64 - 1) ∧
    ∀ cfg guards ls w, (engine cfg).exec (World.initial Store.empty guards) ls = some w →
      w.store.sequence < 2 ^ 64 - 1 →
        ∀ fault, ∃ w', (engine cfg).step w (.stream (.pass fault)) = some w' := by
  refine ⟨?_, ⟨fun hhonoured => ?_, ?_⟩, ?_⟩
  · rintro S ⟨cfg, guards, ls, w, hrun, rfl⟩ limit
    exact (keyInvariant_of_run hrun).log.honoursCursor_iff hafter limit
  · by_contra hlast
    obtain ⟨w, sub, change, hrun, hseq, hsub, hcursor, hchange, hone⟩ := lastCursor_run
    have hsame : sub.afterSequence = after := by omega
    have hpast := (hhonoured oneStripe ∅ lastCursor w hrun (by rw [hseq]; decide) sub hsub
      hsame).sent change hchange
    omega
  · rintro hlt cfg guards ls w hrun hbound sub hsub rfl
    exact honoursCursor_of_run hrun hbound hsub hlt
  · intro cfg guards ls w hrun hbound fault
    obtain ⟨st, hst⟩ := (carries_of_run hrun hbound).pass.passStep_exists fault
    refine ⟨{ w with stream := st }, ?_⟩
    simp only [engine, World.step, Stream.step, hst, Option.map_some]

theorem cursors_honoured_iff_lastCursor : ∃ w,
    (engine oneStripe).exec (World.initial Store.empty ∅) lastCursor = some w ∧
      HonoursCursor w.store 0 5 ∧ ¬ HonoursCursor w.store (2 ^ 64 - 1) 5 := by
  obtain ⟨w, sub, change, hrun, -⟩ := lastCursor_run
  have hreach : EngineReachable w.store := ⟨oneStripe, ∅, lastCursor, w, hrun, rfl⟩
  refine ⟨w, hrun, ?_, fun hhonours => ?_⟩
  · exact ((cursors_honoured_iff (by decide)).1 w.store hreach 5).mpr (by decide)
  · have hlt := ((cursors_honoured_iff (by decide)).1 w.store hreach 5).mp hhonours
    exact absurd hlt (by decide)

/-- The largest cursor is not honoured: a read from it starts over at the first record, and a
subscriber is sent that record. -/
theorem not_cursors_honoured :
    (¬ ∀ (cfg : Config) (guards : GuardRegistry) (ls : List Label) (w : World),
      (engine cfg).exec (World.initial Store.empty guards) ls = some w →
      ∀ after < 2 ^ 64, ∀ limit, RedbEngine.getTransitionsAfter w.store after limit
        = (w.store.log.filter fun r => decide (after < r.sequence)).take limit) ∧
    ¬ ∀ (cfg : Config) (guards : GuardRegistry) (ls : List Label) (w : World),
      (engine cfg).exec (World.initial Store.empty guards) ls = some w →
      ∀ sub ∈ w.stream.subscribers, sub.afterSequence < 2 ^ 64 →
        ∀ change ∈ sub.sent, sub.afterSequence < change.sequence := by
  obtain ⟨w, sub, change, hrun, hseq, hsub, hafter, hchange, hone⟩ := lastCursor_run
  have hlog := (keyInvariant_of_run hrun).log
  refine ⟨fun hreads => ?_, fun hsent => ?_⟩
  · have hcases := (hlog.honours_iff (by decide) 1).mp
      (hreads oneStripe ∅ lastCursor w hrun (2 ^ 64 - 1) (by decide) 1)
    rcases hcases with hmod | hnil | hzero
    · exact absurd hmod (by decide)
    · have hlen := hlog.length_log
      rw [hnil, hseq] at hlen
      exact absurd hlen Nat.zero_ne_one
    · exact absurd hzero Nat.one_ne_zero
  · have hlt := hsent oneStripe ∅ lastCursor w hrun sub hsub (by rw [hafter]; decide) change hchange
    rw [hafter, hone] at hlt
    exact absurd hlt (by decide)

end StateMaster
