import StateMaster.Engine.Stream
import StateMaster.Storage.Outbox

/-!
# What a dispatch pass sends

The cursor of a pass moves over a dense log, so what is past a cursor is a suffix of the log
(`getTransitionsAfter_eq`) and inspecting a record moves the cursor to the next suffix
(`after_cons`). `PassStep` lists, once, what a step of a pass can do when no storage read fails, and
`FaultyStep` the two more things it can do when one does.

* `StreamInvariant` — every subscriber has been sent the records between the cursor it asked for
  and the cursor the pass has reached for it, those it wants, in order; and what is left of a batch
  is where the log goes on. This is for any relation between a record and what is sent for it, which
  is what a failed read of the effects changes;
* `StreamInvariant.grow`, `StreamInvariant.step` — commits and the steps of the stream keep it.
-/

open Framework Framework.Text

namespace StateMaster

/-! ### The log past a cursor -/

/-- The records past a cursor, with the wrap-around of `get_transitions_after`. -/
def Store.after (S : Store) (cursor : ℕ) : List TransitionRecord :=
  S.log.drop ((cursor + 1) % 2 ^ 64 - 1)

theorem Store.after_of_lt {S : Store} {cursor : ℕ} (h : cursor < 2 ^ 64 - 1) :
    S.after cursor = S.log.drop cursor := by
  unfold Store.after
  rw [Nat.mod_eq_of_lt (by omega), Nat.add_sub_cancel]

section Log

variable {S : Store}

/-- **A batch is the front of what is past its cursor.** -/
theorem LogInvariant.getTransitionsAfter_eq (hS : LogInvariant S) (cursor limit : ℕ) :
    RedbEngine.getTransitionsAfter S cursor limit = (S.after cursor).take limit := by
  unfold RedbEngine.getTransitionsAfter Store.after
  dsimp only
  generalize (cursor + 1) % 2 ^ 64 = start
  rw [List.map_take]
  congr 1
  -- Keys are sequences, and sequences start at one.
  have hsel : (S.transitions.rangeFrom start).map Prod.snd
      = S.log.filter fun r => decide (start - 1 < r.sequence) := by
    unfold Table.rangeFrom Store.log Table.values
    rw [List.filter_map]
    refine congrArg _ (List.filter_congr fun p hp => ?_)
    have hget := S.transitions.mem_toList.mp hp
    have hpos := (hS.le_sequence hget).1
    rw [Function.comp_apply, hS.sequence_eq p.1 p.2 hget, Bool.eq_iff_iff, decide_eq_true_eq,
      Nat.isLE_compare]
    omega
  rw [hsel, hS.filter_eq_drop]

/-- The record at a place in the log. -/
theorem LogInvariant.sequence_of_getElem? (hS : LogInvariant S) {k : ℕ} {r : TransitionRecord}
    (hr : S.log[k]? = some r) : r.sequence = k + 1 := by
  have h := congrArg (·[k]?) hS.log_sequences
  obtain ⟨hk, -⟩ := List.getElem?_eq_some_iff.mp hr
  rw [hS.length_log] at hk
  simp only [List.getElem?_map, hr, Option.map_some] at h
  rw [List.getElem?_range' hk] at h
  have := Option.some.inj h
  omega

/-- **Inspecting a record moves the cursor to the next suffix of the log.** -/
theorem LogInvariant.after_cons (hS : LogInvariant S) (hbound : S.sequence < 2 ^ 64 - 1)
    {cursor : ℕ} {r : TransitionRecord} {rest : List TransitionRecord}
    (h : r :: rest <+: S.after cursor) : S.after cursor = r :: S.after r.sequence := by
  obtain ⟨tail, htail⟩ := h
  unfold Store.after at htail ⊢
  generalize (cursor + 1) % 2 ^ 64 - 1 = k at htail ⊢
  have hget : S.log[k]? = some r := by
    have := congrArg (·[0]?) htail
    simpa using this.symm
  have hseq := hS.sequence_of_getElem? hget
  obtain ⟨hk, hkr⟩ := List.getElem?_eq_some_iff.mp hget
  have hlen := hS.length_log
  have hnext : (r.sequence + 1) % 2 ^ 64 - 1 = k + 1 := by
    rw [Nat.mod_eq_of_lt (by omega), hseq]
    omega
  rw [hnext, List.drop_eq_getElem_cons hk, hkr]

end Log

/-! ### What a step of a pass can do -/

/-- Everything a step of a pass can do when no storage read fails. -/
inductive PassStep (S : Store) (st : Stream) : Stream → Prop where
  | start (result : Option ℕ) (hp : st.pass = .idle result) :
      PassStep S st { st with pass := .scan 0 0 [] }
  | visit (idx delivered : ℕ) (dead : List String) (sub : Subscriber)
      (hp : st.pass = .scan idx delivered dead) (hsub : st.subscribers[idx]? = some sub) :
      PassStep S st { st with pass := .fetch idx sub.deliveredThrough delivered dead }
  | done (idx delivered : ℕ) (dead : List String) (hp : st.pass = .scan idx delivered dead)
      (hnone : st.subscribers[idx]? = none) :
      PassStep S st { st with pass := .prune delivered dead }
  | drained (idx cursor delivered : ℕ) (dead : List String)
      (hp : st.pass = .fetch idx cursor delivered dead)
      (hempty : RedbEngine.getTransitionsAfter S cursor dispatchBatch = []) :
      PassStep S st { st with pass := .scan (idx + 1) delivered dead }
  | batch (idx cursor delivered : ℕ) (dead : List String) (records : List TransitionRecord)
      (hp : st.pass = .fetch idx cursor delivered dead)
      (hrecords : RedbEngine.getTransitionsAfter S cursor dispatchBatch = records)
      (hne : records ≠ []) :
      PassStep S st { st with pass := .deliver idx cursor records records.length delivered dead }
  | skip (idx cursor : ℕ) (r : TransitionRecord) (rest : List TransitionRecord)
      (batchLen delivered : ℕ) (dead : List String) (sub : Subscriber)
      (hp : st.pass = .deliver idx cursor (r :: rest) batchLen delivered dead)
      (hsub : st.subscribers[idx]? = some sub) (hwants : sub.wants r = false) :
      PassStep S st { st with pass := .deliver idx r.sequence rest batchLen delivered dead }
  | send (idx cursor : ℕ) (r : TransitionRecord) (rest : List TransitionRecord)
      (batchLen delivered : ℕ) (dead : List String) (sub : Subscriber)
      (hp : st.pass = .deliver idx cursor (r :: rest) batchLen delivered dead)
      (hsub : st.subscribers[idx]? = some sub) (hwants : sub.wants r = true)
      (halive : sub.receiverAlive = true) :
      PassStep S st
        { st.sendTo idx (r.toChange (RedbEngine.getEffectsForTransition S r.id)) with
          pass := .deliver idx r.sequence rest batchLen (delivered + 1) dead }
  | gone (idx cursor : ℕ) (r : TransitionRecord) (rest : List TransitionRecord)
      (batchLen delivered : ℕ) (dead : List String) (sub : Subscriber)
      (hp : st.pass = .deliver idx cursor (r :: rest) batchLen delivered dead)
      (hsub : st.subscribers[idx]? = some sub) (hdead : sub.receiverAlive = false) :
      PassStep S st { st.setDelivered idx r.sequence with
        pass := .scan (idx + 1) delivered (dead ++ [sub.id]) }
  | endBatch (idx cursor batchLen delivered : ℕ) (dead : List String)
      (hp : st.pass = .deliver idx cursor [] batchLen delivered dead) :
      PassStep S st { st.setDelivered idx cursor with
        pass := if batchLen < dispatchBatch then .scan (idx + 1) delivered dead
          else .fetch idx cursor delivered dead }
  | prune (delivered : ℕ) (dead : List String) (hp : st.pass = .prune delivered dead) :
      PassStep S st { st with
        subscribers := if dead.isEmpty then st.subscribers
          else st.subscribers.filter fun sub => !dead.contains sub.id
        pass := .idle (some delivered) }

theorem passStep_sound {S : Store} {st st' : Stream} (h : st.passStep S none = some st') :
    PassStep S st st' := by
  unfold Stream.passStep at h
  cases hp : st.pass with
  | idle result =>
    rw [hp] at h
    obtain rfl := Option.some.inj h
    exact .start result hp
  | scan idx delivered dead =>
    rw [hp] at h
    dsimp only at h
    cases hsub : st.subscribers[idx]? with
    | some sub =>
      rw [hsub] at h
      obtain rfl := Option.some.inj h
      exact .visit idx delivered dead sub hp hsub
    | none =>
      rw [hsub] at h
      obtain rfl := Option.some.inj h
      exact .done idx delivered dead hp hsub
  | fetch idx cursor delivered dead =>
    rw [hp] at h
    dsimp only [withFault] at h
    split at h
    · next hempty =>
      obtain rfl := Option.some.inj h
      exact .drained idx cursor delivered dead hp (List.isEmpty_iff.mp hempty)
    · next hne =>
      obtain rfl := Option.some.inj h
      exact .batch idx cursor delivered dead _ hp rfl fun heq => hne (List.isEmpty_iff.mpr heq)
  | deliver idx cursor records batchLen delivered dead =>
    cases records with
    | nil =>
      rw [hp] at h
      obtain rfl := Option.some.inj h
      exact .endBatch idx cursor batchLen delivered dead hp
    | cons r rest =>
      rw [hp] at h
      dsimp only [Stream.deliverOne] at h
      cases hsub : st.subscribers[idx]? with
      | none =>
        rw [hsub] at h
        exact absurd h (by simp)
      -- The filter is looked at before the receiver: a record the subscriber does not want never
      -- finds out that the receiver is gone.
      | some sub =>
        rw [hsub] at h
        dsimp only [Option.bind_eq_bind, Option.bind_some, withFault] at h
        split at h
        · next hwants =>
          obtain rfl := Option.some.inj h
          exact .skip idx cursor r rest batchLen delivered dead sub hp hsub hwants
        · next hwants =>
          split at h
          · next halive =>
            obtain rfl := Option.some.inj h
            exact .send idx cursor r rest batchLen delivered dead sub hp hsub
              (by simpa using hwants) halive
          · next hdead =>
            obtain rfl := Option.some.inj h
            exact .gone idx cursor r rest batchLen delivered dead sub hp hsub
              (by simpa using hdead)
  | prune delivered dead =>
    rw [hp] at h
    obtain rfl := Option.some.inj h
    exact .prune delivered dead hp

/-- What a step of a pass can do beyond that when its storage read fails: a batch that cannot be read
ends the turn of its subscriber, and a record whose effects cannot be read is sent without any. -/
inductive FaultyStep (st : Stream) : Stream → Prop where
  | unread (idx cursor delivered : ℕ) (dead : List String)
      (hp : st.pass = .fetch idx cursor delivered dead) :
      FaultyStep st { st with pass := .scan (idx + 1) delivered dead }
  | truncated (idx cursor : ℕ) (r : TransitionRecord) (rest : List TransitionRecord)
      (batchLen delivered : ℕ) (dead : List String) (sub : Subscriber)
      (hp : st.pass = .deliver idx cursor (r :: rest) batchLen delivered dead)
      (hsub : st.subscribers[idx]? = some sub) (hwants : sub.wants r = true)
      (halive : sub.receiverAlive = true) :
      FaultyStep st { st.sendTo idx (r.toChange []) with
        pass := .deliver idx r.sequence rest batchLen (delivered + 1) dead }

theorem passStep_cases {S : Store} {fault : Option Fault} {st st' : Stream}
    (h : st.passStep S fault = some st') :
    PassStep S st st' ∨ fault.isSome = true ∧ FaultyStep st st' := by
  cases fault with
  | none => exact Or.inl (passStep_sound h)
  | some f =>
    -- away from its two reads, a fault makes no difference to a step
    have hsame : st.passStep S none = some st' → PassStep S st st' := passStep_sound
    unfold Stream.passStep at h hsame
    cases hp : st.pass with
    | idle result =>
      rw [hp] at h hsame
      exact Or.inl (hsame h)
    | scan idx delivered dead =>
      rw [hp] at h hsame
      exact Or.inl (hsame h)
    | fetch idx cursor delivered dead =>
      rw [hp] at h
      obtain rfl := Option.some.inj h
      exact Or.inr ⟨rfl, .unread idx cursor delivered dead hp⟩
    | deliver idx cursor records batchLen delivered dead =>
      cases records with
      | nil =>
        rw [hp] at h hsame
        exact Or.inl (hsame h)
      | cons r rest =>
        rw [hp] at h hsame
        dsimp only [Stream.deliverOne] at h hsame
        cases hsub : st.subscribers[idx]? with
        | none =>
          rw [hsub] at h
          exact absurd h (by simp)
        | some sub =>
          rw [hsub] at h hsame
          dsimp only [Option.bind_eq_bind, Option.bind_some, withFault] at h hsame
          by_cases hwants : sub.wants r = false
          · rw [if_pos hwants] at h hsame
            exact Or.inl (hsame h)
          · rw [if_neg hwants] at h hsame
            by_cases halive : sub.receiverAlive = true
            · rw [if_pos halive] at h
              obtain rfl := Option.some.inj h
              exact Or.inr ⟨rfl, .truncated idx cursor r rest batchLen delivered dead sub hp hsub
                (by simpa using hwants) halive⟩
            · rw [if_neg halive] at h hsame
              exact Or.inl (hsame h)
    | prune delivered dead =>
      rw [hp] at h hsame
      exact Or.inl (hsame h)

/-! ### What has been sent -/

/-- A cursor below the wrap-around of `get_transitions_after`. -/
def Subscriber.InRange (sub : Subscriber) : Prop := sub.afterSequence < 2 ^ 64 - 1

/-- The published form of a record: its fields, and the effects stored for it in some order. -/
structure Publishes (S : Store) (r : TransitionRecord) (change : ChangeRecord) : Prop where
  fields : change = { r.toChange [] with effects := change.effects }
  effects : change.effects.Perm (S.payloads r.id)

/-- The cursor a subscriber has been served up to: its stored one, or that of the pass while the
pass is inside a batch of this subscriber. -/
def PassState.cursorOf (pass : PassState) (idx : ℕ) (sub : Subscriber) : ℕ :=
  match pass with
  | .deliver i cursor _ _ _ _ => if i = idx then cursor else sub.deliveredThrough
  | _ => sub.deliveredThrough

theorem PassState.cursorOf_of_not_scanning {pass : PassState} (h : pass.scanning = false)
    (idx : ℕ) (sub : Subscriber) : pass.cursorOf idx sub = sub.deliveredThrough := by
  cases pass with
  | deliver i cursor records batchLen delivered dead => exact absurd h Bool.noConfusion
  | _ => rfl

/-- What a pass has in hand: the cursor of the subscriber it is at, or the records where the log
goes on. -/
def PassFact (S : Store) (st : Stream) : Prop :=
  match st.pass with
  | .fetch idx cursor _ _ => ∃ sub, st.subscribers[idx]? = some sub ∧ sub.deliveredThrough = cursor
  | .deliver idx cursor records _ _ _ =>
    (∃ sub, st.subscribers[idx]? = some sub) ∧ records <+: S.after cursor
  | _ => True

/-- The subscriber has been served up to `cursor`, where `R` says what may be sent for a record. -/
structure Serves (R : TransitionRecord → ChangeRecord → Prop) (S : Store) (sub : Subscriber)
    (cursor : ℕ) : Prop where
  after_le : sub.afterSequence ≤ cursor
  le_end : cursor ≤ max sub.afterSequence S.log.length
  delivered_le : sub.deliveredThrough ≤ cursor
  sent : sub.receiverAlive = true →
    List.Forall₂ R (((S.log.take cursor).drop sub.afterSequence).filter sub.wants) sub.sent

structure StreamInvariant (R : TransitionRecord → ChangeRecord → Prop) (S : Store)
    (st : Stream) : Prop where
  serves : ∀ idx sub, st.subscribers[idx]? = some sub → sub.InRange →
    Serves R S sub (st.pass.cursorOf idx sub)
  pass : PassFact S st

section Serving

variable {R R' : TransitionRecord → ChangeRecord → Prop} {S : Store} {sub : Subscriber}
  {cursor : ℕ}

theorem Serves.lt_wrap (h : Serves R S sub cursor) (hS : LogInvariant S)
    (hbound : S.sequence < 2 ^ 64 - 1) (hin : sub.InRange) : cursor < 2 ^ 64 - 1 := by
  have hle := h.le_end
  unfold Subscriber.InRange at hin
  rw [hS.length_log] at hle
  omega

/-- The next record of a batch is the one at the subscriber's cursor. -/
theorem Serves.getElem?_cursor (h : Serves R S sub cursor) (hS : LogInvariant S)
    (hbound : S.sequence < 2 ^ 64 - 1) (hin : sub.InRange) {r : TransitionRecord}
    {rest : List TransitionRecord} (hr : r :: rest <+: S.after cursor) :
    S.log[cursor]? = some r := by
  obtain ⟨tail, htail⟩ := hr
  rw [Store.after_of_lt (h.lt_wrap hS hbound hin)] at htail
  have hhead := congrArg (·[0]?) htail
  simpa using hhead.symm

/-- **One more record served.** The subscriber goes on as `sub'`, which was sent the record if it
wants it, or has no receiver. -/
theorem Serves.next (h : Serves R S sub cursor) (hS : LogInvariant S)
    (hbound : S.sequence < 2 ^ 64 - 1) (hin : sub.InRange) {r : TransitionRecord}
    {rest : List TransitionRecord} (hr : r :: rest <+: S.after cursor) {sub' : Subscriber}
    (hafter : sub'.afterSequence = sub.afterSequence)
    (hfilter : sub'.machineFilter = sub.machineFilter)
    (hdelivered : sub'.deliveredThrough ≤ r.sequence)
    (hsent : sub'.receiverAlive = true → sub.receiverAlive = true ∧ ∃ extra,
      sub'.sent = sub.sent ++ extra ∧
        List.Forall₂ R ([r].filter sub.wants) extra) :
    Serves R S sub' r.sequence := by
  have hget := h.getElem?_cursor hS hbound hin hr
  have hseq := hS.sequence_of_getElem? hget
  obtain ⟨hlt, hlr⟩ := List.getElem?_eq_some_iff.mp hget
  have hle := h.after_le
  refine ⟨by omega, by omega, hdelivered, fun halive => ?_⟩
  obtain ⟨hold, extra, hext, hpub⟩ := hsent halive
  have hwants : sub'.wants = sub.wants := by
    unfold Subscriber.wants
    rw [hfilter]
  have hdue : (S.log.take r.sequence).drop sub.afterSequence
      = (S.log.take cursor).drop sub.afterSequence ++ [r] := by
    rw [hseq, List.take_succ_eq_append_getElem hlt, hlr,
      List.drop_append_of_le_length (by rw [List.length_take]; omega)]
  rw [hafter, hwants, hdue, List.filter_append, hext]
  exact List.rel_append (h.sent hold) hpub

end Serving

section Growth

variable {R R' : TransitionRecord → ChangeRecord → Prop} {S S' : Store}

theorem Publishes.congr {r : TransitionRecord} {change : ChangeRecord} (h : Publishes S r change)
    (hp : S'.payloads r.id = S.payloads r.id) : Publishes S' r change :=
  ⟨h.fields, hp ▸ h.effects⟩

/-- A log that grows leaves what was served served. -/
theorem Serves.grow {sub : Subscriber} {cursor : ℕ} (h : Serves R S sub cursor)
    (hlog : S.log <+: S'.log) (hR : ∀ r ∈ S.log, ∀ change, R r change → R' r change) :
    Serves R' S' sub cursor := by
  have hlen := hlog.length_le
  have hle := h.le_end
  refine ⟨h.after_le, by omega, h.delivered_le, fun halive => ?_⟩
  -- Either the cursor is inside the old log, or nothing is due yet.
  have hdue : (S'.log.take cursor).drop sub.afterSequence
      = (S.log.take cursor).drop sub.afterSequence := by
    obtain ⟨tail, htail⟩ := hlog
    by_cases hcur : cursor ≤ S.log.length
    · rw [← htail, List.take_append_of_le_length hcur]
    · rw [List.drop_eq_nil_of_le, List.drop_eq_nil_of_le]
      · rw [List.length_take]
        omega
      · rw [List.length_take]
        omega
  rw [hdue]
  refine (List.forall₂_iff_zip.mpr ?_)
  obtain ⟨hlen', hzip⟩ := List.forall₂_iff_zip.mp (h.sent halive)
  refine ⟨hlen', fun {r change} hmem => hR r ?_ change (hzip hmem)⟩
  have hr := (List.of_mem_zip hmem).1
  exact List.mem_of_mem_take (List.mem_of_mem_drop (List.mem_filter.mp hr).1)

theorem Store.after_grow (hlog : S.log <+: S'.log) {cursor : ℕ}
    {records : List TransitionRecord} (h : records <+: S.after cursor) :
    records <+: S'.after cursor := by
  unfold Store.after at h ⊢
  exact h.trans (hlog.drop _)

theorem StreamInvariant.grow {st : Stream} (h : StreamInvariant R S st)
    (hlog : S.log <+: S'.log) (hR : ∀ r ∈ S.log, ∀ change, R r change → R' r change) :
    StreamInvariant R' S' st := by
  refine ⟨fun idx sub hsub hin => (h.serves idx sub hsub hin).grow hlog hR, ?_⟩
  have hpass := h.pass
  unfold PassFact at hpass ⊢
  cases hp : st.pass with
  | deliver idx cursor records batchLen delivered dead =>
    rw [hp] at hpass
    exact ⟨hpass.1, Store.after_grow hlog hpass.2⟩
  | fetch idx cursor delivered dead =>
    rw [hp] at hpass
    exact hpass
  | _ => trivial

end Growth

/-! ### One step of the stream -/

section Steps

variable {R : TransitionRecord → ChangeRecord → Prop} {S : Store} {st st' : Stream}

/-- The subscriber at a place after one of them was changed. -/
theorem Stream.getElem?_modify_cases {subs : List Subscriber} {f : Subscriber → Subscriber}
    {i j : ℕ} {sub : Subscriber} (h : (subs.modify i f)[j]? = some sub) :
    (i = j ∧ ∃ old, subs[j]? = some old ∧ sub = f old) ∨ (i ≠ j ∧ subs[j]? = some sub) := by
  rw [List.getElem?_modify, Option.map_eq_map, Option.map_eq_some_iff] at h
  obtain ⟨old, hold, hsub⟩ := h
  by_cases hij : i = j
  · rw [if_pos hij] at hsub
    exact Or.inl ⟨hij, old, hold, hsub.symm⟩
  · rw [if_neg hij] at hsub
    exact Or.inr ⟨hij, by rw [hold]; exact congrArg some hsub⟩

/-- Away from the subscriber a pass is delivering to, the stored cursor is the one that counts. -/
theorem StreamInvariant.serves_of_ne (h : StreamInvariant R S st) {i cursor : ℕ}
    {records : List TransitionRecord} {batchLen delivered : ℕ} {dead : List String}
    (hp : st.pass = .deliver i cursor records batchLen delivered dead) {j : ℕ} {sub : Subscriber}
    (hij : i ≠ j) (hsub : st.subscribers[j]? = some sub) (hin : sub.InRange) :
    Serves R S sub sub.deliveredThrough := by
  have := h.serves j sub hsub hin
  rwa [hp, PassState.cursorOf, if_neg hij] at this

theorem StreamInvariant.serves_self (h : StreamInvariant R S st) {i cursor : ℕ}
    {records : List TransitionRecord} {batchLen delivered : ℕ} {dead : List String}
    (hp : st.pass = .deliver i cursor records batchLen delivered dead) {sub : Subscriber}
    (hsub : st.subscribers[i]? = some sub) (hin : sub.InRange) : Serves R S sub cursor := by
  have := h.serves i sub hsub hin
  rwa [hp, PassState.cursorOf, if_pos rfl] at this

/-- The invariant between two steps of a batch: at its subscriber the cursor has moved to the
inspected record, everyone else is as before. -/
theorem StreamInvariant.inspect (h : StreamInvariant R S st) (hS : LogInvariant S)
    (hbound : S.sequence < 2 ^ 64 - 1) {i cursor : ℕ} {r : TransitionRecord}
    {rest : List TransitionRecord} {batchLen delivered : ℕ} {dead : List String}
    (hp : st.pass = .deliver i cursor (r :: rest) batchLen delivered dead) {sub : Subscriber}
    (hsub : st.subscribers[i]? = some sub) {f : Subscriber → Subscriber}
    (hafter : (f sub).afterSequence = sub.afterSequence)
    (hfilter : (f sub).machineFilter = sub.machineFilter)
    (hdelivered : (f sub).deliveredThrough = sub.deliveredThrough)
    (hsent : (f sub).receiverAlive = true → sub.receiverAlive = true ∧ ∃ extra,
      (f sub).sent = sub.sent ++ extra ∧
        List.Forall₂ R ([r].filter sub.wants) extra) (delivered' : ℕ) :
    StreamInvariant R S { st with
      subscribers := st.subscribers.modify i f
      pass := .deliver i r.sequence rest batchLen delivered' dead } := by
  have hpass := h.pass
  unfold PassFact at hpass
  rw [hp] at hpass
  have hcons := hS.after_cons hbound hpass.2
  refine ⟨fun j sub' hsub' hin => ?_, ?_⟩
  · rcases Stream.getElem?_modify_cases hsub' with ⟨rfl, old, hold, rfl⟩ | ⟨hij, hsame⟩
    · -- The subscriber of the batch is served up to the record just looked at.
      rw [hsub] at hold
      obtain rfl := Option.some.inj hold
      have hin' : sub.InRange := by
        unfold Subscriber.InRange at hin ⊢
        rwa [hafter] at hin
      have hserves := h.serves_self hp hsub hin'
      change Serves R S (f sub) (if i = i then r.sequence else _)
      rw [if_pos rfl]
      have hseq := hS.sequence_of_getElem? (hserves.getElem?_cursor hS hbound hin' hpass.2)
      have hle := hserves.delivered_le
      exact hserves.next hS hbound hin' hpass.2 hafter hfilter (by omega) hsent
    · change Serves R S sub' (if i = j then r.sequence else sub'.deliveredThrough)
      rw [if_neg hij]
      exact h.serves_of_ne hp hij hsame hin
  · refine ⟨⟨f sub, ?_⟩, ?_⟩
    · rw [List.getElem?_modify_eq, hsub]
      rfl
    · have hpre := hpass.2
      rw [hcons] at hpre
      exact (List.cons_prefix_cons.mp hpre).2

/-- The invariant when a batch is left: the cursor reached in it is stored. -/
theorem StreamInvariant.leave (h : StreamInvariant R S st) {i cursor : ℕ}
    {records : List TransitionRecord} {batchLen delivered : ℕ} {dead : List String}
    (hp : st.pass = .deliver i cursor records batchLen delivered dead) {reached : ℕ}
    (hreached : ∀ sub, st.subscribers[i]? = some sub → sub.InRange →
      Serves R S { sub with deliveredThrough := reached } reached)
    {pass : PassState} (hcursor : ∀ idx sub, pass.cursorOf idx sub = sub.deliveredThrough)
    (hpass : PassFact S { st.setDelivered i reached with pass }) :
    StreamInvariant R S { st.setDelivered i reached with pass } := by
  refine ⟨fun j sub' hsub' hin => ?_, hpass⟩
  rw [hcursor]
  rcases Stream.getElem?_modify_cases hsub' with ⟨rfl, old, hold, rfl⟩ | ⟨hij, hsame⟩
  · exact hreached old hold hin
  · exact h.serves_of_ne hp hij hsame hin

/-- A send publishes the record. -/
theorem OutboxInvariant.publishes (hout : OutboxInvariant S) {r : TransitionRecord}
    (hnul : NulFree r.id) :
    Publishes S r (r.toChange (RedbEngine.getEffectsForTransition S r.id)) :=
  ⟨rfl, (hout.getEffectsForTransition_perm hnul).map Effect.toPayload⟩

/-- Outside a batch, moving the pass leaves every cursor where it is. -/
theorem StreamInvariant.move (h : StreamInvariant R S st)
    (hold : ∀ idx sub, st.pass.cursorOf idx sub = sub.deliveredThrough) {pass : PassState}
    (hnew : ∀ idx sub, pass.cursorOf idx sub = sub.deliveredThrough)
    (hpass : PassFact S { st with pass }) : StreamInvariant R S { st with pass } := by
  refine ⟨fun idx sub hsub hin => ?_, hpass⟩
  have hs := h.serves idx sub hsub hin
  rw [hold] at hs
  dsimp only
  rwa [hnew]

/-- A batch starts from the stored cursor of its subscriber. -/
theorem StreamInvariant.batch (h : StreamInvariant R S st) (hS : LogInvariant S)
    {idx cursor delivered : ℕ} {dead : List String} {records : List TransitionRecord}
    (hp : st.pass = .fetch idx cursor delivered dead)
    (hrecords : RedbEngine.getTransitionsAfter S cursor dispatchBatch = records) :
    StreamInvariant R S
      { st with pass := .deliver idx cursor records records.length delivered dead } := by
  have hpass := h.pass
  unfold PassFact at hpass
  rw [hp] at hpass
  obtain ⟨sub, hsub, hcursor⟩ := hpass
  refine ⟨fun j sub' hsub' hin => ?_, ⟨sub, hsub⟩, ?_⟩
  · have hs := h.serves j sub' hsub' hin
    rw [hp] at hs
    change Serves R S sub' (if idx = j then cursor else sub'.deliveredThrough)
    by_cases hij : idx = j
    · subst hij
      rw [hsub] at hsub'
      obtain rfl := Option.some.inj hsub'
      rw [if_pos rfl, ← hcursor]
      exact hs
    · rw [if_neg hij]
      exact hs
  · rw [← hrecords, hS.getTransitionsAfter_eq]
    exact List.take_prefix _ _

/-- When no scan is going on the invariant is about the members of the list, wherever they stand. -/
theorem StreamInvariant.of_members (h : StreamInvariant R S st) (hscan : st.pass.scanning = false)
    {subs : List Subscriber} {pass : PassState} (hpass : pass.scanning = false) (channels : ℕ)
    (hsubs : ∀ sub ∈ subs, sub ∈ st.subscribers ∨
      (sub.InRange → Serves R S sub sub.deliveredThrough)) :
    StreamInvariant R S ⟨subs, pass, channels⟩ := by
  refine ⟨fun j sub hsub hin => ?_, ?_⟩
  · rw [PassState.cursorOf_of_not_scanning hpass]
    rcases hsubs sub (List.mem_of_getElem? hsub) with hmem | hserves
    · obtain ⟨i, hi⟩ := List.getElem?_of_mem hmem
      have hs := h.serves i sub hi hin
      rwa [PassState.cursorOf_of_not_scanning hscan] at hs
    · exact hserves hin
  · unfold PassFact
    cases pass with
    | idle result => exact trivial
    | prune delivered dead => exact trivial
    | _ => exact absurd hpass Bool.noConfusion

/-- A send of something that may stand for the record. -/
theorem StreamInvariant.send (h : StreamInvariant R S st) (hS : LogInvariant S)
    (hbound : S.sequence < 2 ^ 64 - 1) {idx cursor : ℕ} {r : TransitionRecord}
    {rest : List TransitionRecord} {batchLen delivered : ℕ} {dead : List String} {sub : Subscriber}
    (hp : st.pass = .deliver idx cursor (r :: rest) batchLen delivered dead)
    (hsub : st.subscribers[idx]? = some sub) (hwants : sub.wants r = true)
    (halive : sub.receiverAlive = true) {change : ChangeRecord} (hR : R r change) :
    StreamInvariant R S { st.sendTo idx change with
      pass := .deliver idx r.sequence rest batchLen (delivered + 1) dead } :=
  h.inspect hS hbound hp hsub (f := fun sub => { sub with sent := sub.sent ++ [change] })
    rfl rfl rfl (fun _ => ⟨halive, [change], rfl, by
      rw [List.filter_cons_of_pos hwants, List.filter_nil]
      exact List.Forall₂.cons hR List.Forall₂.nil⟩) (delivered + 1)

/-- The pass is about to send this record to this subscriber. -/
def Stream.SendingTo (st : Stream) (sub : Subscriber) (r : TransitionRecord) : Prop :=
  ∃ idx cursor rest batchLen delivered dead,
    st.pass = .deliver idx cursor (r :: rest) batchLen delivered dead ∧
      st.subscribers[idx]? = some sub ∧ sub.wants r = true ∧ sub.receiverAlive = true

def Stream.Sending (st : Stream) (r : TransitionRecord) : Prop := ∃ sub, st.SendingTo sub r

/-- What is left of a batch is in the log. -/
theorem PassFact.mem_log (h : PassFact S st) {idx cursor : ℕ} {r : TransitionRecord}
    {rest : List TransitionRecord} {batchLen delivered : ℕ} {dead : List String}
    (hp : st.pass = .deliver idx cursor (r :: rest) batchLen delivered dead) : r ∈ S.log := by
  unfold PassFact at h
  rw [hp] at h
  exact List.mem_of_mem_drop (h.2.subset List.mem_cons_self)

/-- **A step of a pass keeps the invariant.** -/
theorem StreamInvariant.passStep (h : StreamInvariant R S st) (hS : LogInvariant S)
    (hbound : S.sequence < 2 ^ 64 - 1)
    (hsend : ∀ r ∈ S.log, R r (r.toChange (RedbEngine.getEffectsForTransition S r.id)))
    (hstep : PassStep S st st') : StreamInvariant R S st' := by
  have hpass := h.pass
  unfold PassFact at hpass
  cases hstep with
  -- Four steps that only move the pass on.
  | start result hp => exact h.move (by rw [hp]; exact fun _ _ => rfl) (fun _ _ => rfl) trivial
  | visit idx delivered dead sub hp hsub =>
    exact h.move (by rw [hp]; exact fun _ _ => rfl) (fun _ _ => rfl) ⟨sub, hsub, rfl⟩
  | done idx delivered dead hp hnone =>
    exact h.move (by rw [hp]; exact fun _ _ => rfl) (fun _ _ => rfl) trivial
  | drained idx cursor delivered dead hp hempty =>
    exact h.move (by rw [hp]; exact fun _ _ => rfl) (fun _ _ => rfl) trivial
  | batch idx cursor delivered dead records hp hrecords hne =>
    exact h.batch hS hp hrecords
  -- Three ways to deal with a record.
  | skip idx cursor r rest batchLen delivered dead sub hp hsub hwants =>
    have hnext := h.inspect hS hbound hp hsub (f := fun sub => sub) rfl rfl rfl
      (fun halive => ⟨halive, [], (List.append_nil _).symm, by
        rw [List.filter_cons_of_neg (by simp [hwants]), List.filter_nil]
        exact List.Forall₂.nil⟩) delivered
    rwa [show st.subscribers.modify idx (fun sub => sub) = st.subscribers from
      List.modify_id idx st.subscribers] at hnext
  | send idx cursor r rest batchLen delivered dead sub hp hsub hwants halive =>
    exact h.send hS hbound hp hsub hwants halive (hsend r (h.pass.mem_log hp))
  | gone idx cursor r rest batchLen delivered dead sub hp hsub hdead =>
    rw [hp] at hpass
    refine h.leave hp (fun sub' hsub' hin => ?_) (fun _ _ => rfl) trivial
    rw [hsub] at hsub'
    obtain rfl := Option.some.inj hsub'
    -- No receiver, so nothing to say about what was sent.
    refine (h.serves_self hp hsub hin).next hS hbound hin hpass.2 rfl rfl le_rfl fun halive => ?_
    exact absurd (hdead.symm.trans halive) Bool.noConfusion
  | endBatch idx cursor batchLen delivered dead hp =>
    rw [hp] at hpass
    obtain ⟨⟨sub, hsub⟩, -⟩ := hpass
    have hreached : ∀ sub, st.subscribers[idx]? = some sub → sub.InRange →
        Serves R S { sub with deliveredThrough := cursor } cursor := by
      intro sub hsub hin
      have hs := h.serves_self hp hsub hin
      exact ⟨hs.after_le, hs.le_end, le_rfl, hs.sent⟩
    -- A short batch is the last one of this subscriber.
    split
    · exact h.leave hp hreached (fun _ _ => rfl) trivial
    · refine h.leave hp hreached (fun _ _ => rfl) ⟨{ sub with deliveredThrough := cursor }, ?_, rfl⟩
      change (st.subscribers.modify idx _)[idx]? = _
      rw [List.getElem?_modify_eq, hsub]
      rfl
  | prune delivered dead hp =>
    refine h.of_members (by rw [hp]; rfl) rfl _ fun sub hsub => Or.inl ?_
    split at hsub
    · exact hsub
    · exact (List.mem_filter.mp hsub).1

/-- So does one whose read fails, if a record without effects may stand for the one it sends. -/
theorem StreamInvariant.faultyStep (h : StreamInvariant R S st) (hS : LogInvariant S)
    (hbound : S.sequence < 2 ^ 64 - 1) (hcut : ∀ r, st.Sending r → R r (r.toChange []))
    (hstep : FaultyStep st st') : StreamInvariant R S st' := by
  cases hstep with
  | unread idx cursor delivered dead hp =>
    -- the stored cursor is where it was, so the batch is read again by the next pass
    exact h.move (by rw [hp]; exact fun _ _ => rfl) (fun _ _ => rfl) trivial
  | truncated idx cursor r rest batchLen delivered dead sub hp hsub hwants halive =>
    refine h.send hS hbound hp hsub hwants halive (hcut r ?_)
    exact ⟨sub, idx, cursor, rest, batchLen, delivered, dead, hp, hsub, hwants, halive⟩

/-- **A step of the stream keeps the invariant.** -/
theorem StreamInvariant.step (h : StreamInvariant R S st) (hS : LogInvariant S)
    (hbound : S.sequence < 2 ^ 64 - 1)
    (hsend : ∀ r ∈ S.log, R r (r.toChange (RedbEngine.getEffectsForTransition S r.id)))
    {l : StreamLabel}
    (hcut : ∀ f, l = .pass (some f) → ∀ r, st.Sending r → R r (r.toChange []))
    (hstep : st.step S l = some st') : StreamInvariant R S st' := by
  cases l with
  | subscribe id machineFilter afterSequence =>
    simp only [Stream.step, Option.ite_none_left_eq_some, Bool.not_eq_true] at hstep
    obtain ⟨hscan, hst⟩ := hstep
    obtain rfl := Option.some.inj hst
    refine h.of_members hscan hscan _ fun sub hsub => ?_
    rcases List.mem_append.mp hsub with hmem | hnew
    · exact Or.inl hmem
    · -- Nothing is due to a subscriber that has just asked.
      obtain rfl := List.mem_singleton.mp hnew
      refine Or.inr fun _ => ⟨le_rfl, le_max_left _ _, le_rfl, fun _ => ?_⟩
      dsimp only
      rw [List.drop_eq_nil_of_le (by rw [List.length_take]; omega)]
      exact List.Forall₂.nil
  | unsubscribe id =>
    simp only [Stream.step, Option.ite_none_left_eq_some, Bool.not_eq_true] at hstep
    obtain ⟨hscan, hst⟩ := hstep
    obtain rfl := Option.some.inj hst
    exact h.of_members hscan hscan _ fun sub hsub => Or.inl (List.mem_filter.mp hsub).1
  | dropReceiver channel =>
    obtain rfl := Option.some.inj hstep
    -- Only `receiverAlive` changes, and only to `false`.
    refine ⟨fun j sub' hsub' hin => ?_, ?_⟩
    · obtain ⟨sub, hsub, rfl⟩ := Option.map_eq_some_iff.mp (List.getElem?_map ▸ hsub')
      have hs := h.serves j sub hsub hin
      exact ⟨hs.after_le, hs.le_end, hs.delivered_le,
        fun halive => hs.sent (Bool.and_eq_true_iff.mp halive).1⟩
    · have hforth : ∀ (j : ℕ) (sub : Subscriber), st.subscribers[j]? = some sub →
          (st.subscribers.map (Subscriber.dropReceiver channel))[j]?
            = some (sub.dropReceiver channel) := by
        intro j sub hsub
        rw [List.getElem?_map, hsub, Option.map_some]
      have hpass := h.pass
      unfold PassFact at hpass ⊢
      cases hp : st.pass with
      | fetch idx cursor delivered dead =>
        rw [hp] at hpass
        obtain ⟨sub, hsub, hcursor⟩ := hpass
        exact ⟨_, hforth idx sub hsub, hcursor⟩
      | deliver idx cursor records batchLen delivered dead =>
        rw [hp] at hpass
        obtain ⟨⟨sub, hsub⟩, hrecords⟩ := hpass
        exact ⟨⟨_, hforth idx sub hsub⟩, hrecords⟩
      | _ => trivial
  | pass fault =>
    rcases passStep_cases hstep with hpass | ⟨hsome, hfaulty⟩
    · exact h.passStep hS hbound hsend hpass
    · obtain ⟨f, rfl⟩ := Option.isSome_iff_exists.mp hsome
      exact h.faultyStep hS hbound (hcut f rfl) hfaulty

end Steps

end StateMaster
