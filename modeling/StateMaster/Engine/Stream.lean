import StateMaster.Framework.Lists
import StateMaster.Storage.Redb

/-!
# The change stream

`Engine::subscribe`, `Engine::unsubscribe` and `Engine::dispatch_pass`. A pass reads the log in
batches while transitions go on committing, so it is a small machine of its own (`PassState`) whose
steps are its storage reads and its sends; every step sees the store of its moment.

The pass holds the read lock of the subscriber list while it scans it, which blocks `subscribe` and
`unsubscribe`; it takes the write lock afterwards, in a separate step, to drop the dead subscribers.

A subscriber keeps what was sent into its channel since it subscribed. The fields `channel`, the
number of the `subscribe` call that made it, and `afterSequence`, the cursor it asked for, are for
the statements only: the source keeps the channel itself, and of the cursor its current value
`deliveredThrough`. Ids are chosen by clients and may repeat.
-/

open Framework Framework.Text

namespace StateMaster

/-- `BATCH`. -/
def dispatchBatch : ℕ := 256

structure Subscriber where
  channel : ℕ
  id : String
  machineFilter : Option MachineName
  afterSequence : ℕ
  deliveredThrough : ℕ
  sent : List ChangeRecord
  receiverAlive : Bool
deriving DecidableEq, Repr

/-- Where a dispatch pass is. `idx` is the subscriber it is at, `delivered` and `dead` its
accumulators. -/
inductive PassState where
  /-- No pass is running; the last one returned `result`. -/
  | idle (result : Option ℕ)
  /-- At the head of the loop over the subscribers. -/
  | scan (idx delivered : ℕ) (dead : List String)
  /-- About to read the next batch after `cursor`. -/
  | fetch (idx cursor delivered : ℕ) (dead : List String)
  /-- Inside a batch of `batchLen` records, of which `records` are left. -/
  | deliver (idx cursor : ℕ) (records : List TransitionRecord) (batchLen delivered : ℕ)
      (dead : List String)
  /-- Done with the subscribers, about to drop the dead ones. -/
  | prune (delivered : ℕ) (dead : List String)
deriving DecidableEq, Repr

/-- The pass holds the read lock of the subscriber list. -/
def PassState.scanning : PassState → Bool
  | .idle _ => false
  | .prune _ _ => false
  | _ => true

/-- The ids a pass has found without a receiver so far. -/
def PassState.dead : PassState → List String
  | .idle _ => []
  | .scan _ _ dead | .fetch _ _ _ dead | .deliver _ _ _ _ _ dead | .prune _ dead => dead

/-- The subscriber list, the pass over it, and the number of channels made so far. -/
structure Stream where
  subscribers : List Subscriber
  pass : PassState
  channels : ℕ
deriving DecidableEq, Repr

def Stream.initial : Stream := ⟨[], .idle none, 0⟩

inductive StreamLabel where
  | subscribe (id : String) (machineFilter : Option MachineName) (afterSequence : ℕ)
  | unsubscribe (id : String)
  /-- The holder of a channel's receiver drops it. -/
  | dropReceiver (channel : ℕ)
  /-- One step of a pass, starting one if none is running. -/
  | pass (fault : Option Fault)
deriving DecidableEq, Repr

/-- The published form of a record. -/
def TransitionRecord.toChange (r : TransitionRecord) (effects : List Effect) : ChangeRecord where
  sequence := r.sequence
  transitionId := r.id
  entityId := r.entityId
  machine := r.machine
  fromState := r.fromState
  toState := r.toState
  event := r.event
  actor := r.actor
  version := r.version
  timestamp := r.timestamp
  ctx := r.ctx
  effects := effects.map fun e => ⟨e.effectName, e.payload⟩

/-- The filter test of the delivery loop. -/
def Subscriber.wants (sub : Subscriber) (r : TransitionRecord) : Bool :=
  match sub.machineFilter with
  | some filter => r.machine == filter
  | none => true

/-- The receiver of a channel is dropped, by its holder. -/
def Subscriber.dropReceiver (channel : ℕ) (sub : Subscriber) : Subscriber :=
  { sub with receiverAlive := sub.receiverAlive && sub.channel != channel }

namespace Stream

/-- `sub.delivered_through.store(cursor)`. -/
def setDelivered (st : Stream) (idx cursor : ℕ) : Stream :=
  { st with
    subscribers := st.subscribers.modify idx fun sub => { sub with deliveredThrough := cursor } }

/-- `sub.sender.send(change)` into a channel whose receiver is there. -/
def sendTo (st : Stream) (idx : ℕ) (change : ChangeRecord) : Stream :=
  { st with
    subscribers := st.subscribers.modify idx fun sub => { sub with sent := sub.sent ++ [change] } }

/-- One inspected record: skipped, sent, or found undeliverable. -/
def deliverOne (S : Store) (fault : Option Fault) (st : Stream) (idx : ℕ) (r : TransitionRecord)
    (rest : List TransitionRecord) (batchLen delivered : ℕ) (dead : List String) :
    Option Stream := do
  let sub ← st.subscribers[idx]?
  let cursor := r.sequence
  if sub.wants r = false then
    return { st with pass := .deliver idx cursor rest batchLen delivered dead }
  -- `unwrap_or_default`: a failed read of the effects sends none.
  let effects :=
    match withFault fault (.ok (RedbEngine.getEffectsForTransition S r.id)) with
    | .ok effects => effects
    | .error _ => []
  let change := r.toChange effects
  if sub.receiverAlive then
    return { st.sendTo idx change with
      pass := .deliver idx cursor rest batchLen (delivered + 1) dead }
  else
    return { st.setDelivered idx cursor with
      pass := .scan (idx + 1) delivered (dead ++ [sub.id]) }

/-- One step of `dispatch_pass`. -/
def passStep (S : Store) (fault : Option Fault) (st : Stream) : Option Stream :=
  match st.pass with
  | .idle _ => some { st with pass := .scan 0 0 [] }
  | .scan idx delivered dead =>
    match st.subscribers[idx]? with
    | some sub => some { st with pass := .fetch idx sub.deliveredThrough delivered dead }
    | none => some { st with pass := .prune delivered dead }
  | .fetch idx cursor delivered dead =>
    match withFault fault (.ok (RedbEngine.getTransitionsAfter S cursor dispatchBatch)) with
    | .error _ => some { st with pass := .scan (idx + 1) delivered dead }
    | .ok records =>
      if records.isEmpty then some { st with pass := .scan (idx + 1) delivered dead }
      else some { st with pass := .deliver idx cursor records records.length delivered dead }
  | .deliver idx _ (r :: rest) batchLen delivered dead =>
    deliverOne S fault st idx r rest batchLen delivered dead
  | .deliver idx cursor [] batchLen delivered dead =>
    some { st.setDelivered idx cursor with
      pass := if batchLen < dispatchBatch then .scan (idx + 1) delivered dead
        else .fetch idx cursor delivered dead }
  | .prune delivered dead =>
    some { st with
      subscribers := if dead.isEmpty then st.subscribers
        else st.subscribers.filter fun sub => !dead.contains sub.id
      pass := .idle (some delivered) }

/-- One step of the change stream over the store of the moment. -/
def step (S : Store) (st : Stream) : StreamLabel → Option Stream
  | .subscribe id machineFilter afterSequence =>
    if st.pass.scanning then none
    else some { st with
      subscribers := st.subscribers ++
        [{ channel := st.channels, id, machineFilter, afterSequence,
           deliveredThrough := afterSequence, sent := [], receiverAlive := true }]
      channels := st.channels + 1 }
  | .unsubscribe id =>
    if st.pass.scanning then none
    else some { st with subscribers := st.subscribers.filter fun sub => sub.id != id }
  | .dropReceiver channel =>
    some { st with subscribers := st.subscribers.map (Subscriber.dropReceiver channel) }
  | .pass fault => passStep S fault st

/-! ### Who stays in the list -/

variable {S : Store} {st st' : Stream}

theorem deliverOne_channels {fault : Option Fault} {idx : ℕ} {r : TransitionRecord}
    {rest : List TransitionRecord} {batchLen delivered : ℕ} {dead : List String}
    (h : deliverOne S fault st idx r rest batchLen delivered dead = some st') :
    st'.channels = st.channels ∧
      st'.subscribers.map Subscriber.channel = st.subscribers.map Subscriber.channel := by
  obtain ⟨sub, -, h⟩ := Option.bind_eq_some_iff.mp h
  split at h
  · obtain rfl := Option.some.inj h
    exact ⟨rfl, rfl⟩
  · dsimp only at h
    by_cases halive : sub.receiverAlive = true
    · rw [if_pos halive] at h
      obtain rfl := Option.some.inj h
      exact ⟨rfl, map_modify_eq (by exact fun _ => rfl) _ _⟩
    · rw [if_neg halive] at h
      obtain rfl := Option.some.inj h
      exact ⟨rfl, map_modify_eq (by exact fun _ => rfl) _ _⟩

/-- A pass, whether or not its reads fail, loses subscribers only where it prunes, and then all those
whose id was found dead. -/
theorem passStep_channels {fault : Option Fault} (h : st.passStep S fault = some st') :
    st'.channels = st.channels ∧
      ((∃ delivered dead, st.pass = .prune delivered dead ∧
          st'.subscribers = st.subscribers.filter fun sub => !dead.contains sub.id) ∨
        (∀ delivered dead, st.pass ≠ .prune delivered dead) ∧
          st'.subscribers.map Subscriber.channel = st.subscribers.map Subscriber.channel) := by
  unfold passStep at h
  split at h
  · rename_i hpass
    obtain rfl := Option.some.inj h
    exact ⟨rfl, Or.inr ⟨fun _ _ hp => by simp [hp] at hpass, rfl⟩⟩
  · rename_i hpass
    split at h <;> obtain rfl := Option.some.inj h <;>
      exact ⟨rfl, Or.inr ⟨fun _ _ hp => by simp [hp] at hpass, rfl⟩⟩
  · rename_i hpass
    have hnot : ∀ delivered dead, st.pass ≠ .prune delivered dead := by
      intro _ _ hp
      simp [hp] at hpass
    split at h
    · obtain rfl := Option.some.inj h
      exact ⟨rfl, Or.inr ⟨hnot, rfl⟩⟩
    · split at h <;> obtain rfl := Option.some.inj h <;> exact ⟨rfl, Or.inr ⟨hnot, rfl⟩⟩
  · rename_i hpass
    obtain ⟨hch, hsubs⟩ := deliverOne_channels h
    exact ⟨hch, Or.inr ⟨fun _ _ hp => by simp [hp] at hpass, hsubs⟩⟩
  · rename_i hpass
    obtain rfl := Option.some.inj h
    exact ⟨rfl, Or.inr ⟨fun _ _ hp => by simp [hp] at hpass,
      map_modify_eq (by exact fun _ => rfl) _ _⟩⟩
  · rename_i delivered dead hpass
    obtain rfl := Option.some.inj h
    refine ⟨rfl, Or.inl ⟨delivered, dead, hpass, ?_⟩⟩
    -- An empty list of ids drops nobody.
    cases dead with
    | nil => exact (List.filter_eq_self.mpr fun _ _ => rfl).symm
    | cons id dead => rfl

/-- The pass is at a record that a subscriber with this id wants, and its receiver is gone. -/
def GivesUp (st : Stream) (id : String) : Prop :=
  ∃ sub idx cursor r rest batchLen delivered dead,
    st.pass = .deliver idx cursor (r :: rest) batchLen delivered dead ∧
      st.subscribers[idx]? = some sub ∧ sub.wants r = true ∧ sub.receiverAlive = false ∧ sub.id = id

/-- **What a pass counts as dead**, whether or not its reads fail: the ids it gives up, until it ends. -/
theorem passStep_dead {fault : Option Fault} (h : st.passStep S fault = some st') :
    (∃ result, st'.pass = .idle result) ∨ (∀ result, st'.pass ≠ .idle result) ∧
      ∀ id, id ∈ st'.pass.dead ↔ id ∈ st.pass.dead ∨ st.GivesUp id := by
  -- a step that gives up nobody keeps the list
  have hkeeps : ∀ pass, st'.pass = pass → (∀ result, pass ≠ .idle result) →
      pass.dead = st.pass.dead → (∀ id, ¬ st.GivesUp id) →
      (∃ result, st'.pass = .idle result) ∨ (∀ result, st'.pass ≠ .idle result) ∧
        ∀ id, id ∈ st'.pass.dead ↔ id ∈ st.pass.dead ∨ st.GivesUp id := by
    rintro pass rfl hrunning hsame hnone
    refine Or.inr ⟨hrunning, fun id => ?_⟩
    rw [hsame]
    exact (or_iff_left (hnone id)).symm
  unfold passStep at h
  split at h
  · rename_i hpass
    obtain rfl := Option.some.inj h
    exact hkeeps _ rfl nofun (by rw [hpass]; rfl) (by simp [GivesUp, hpass])
  · rename_i hpass
    split at h <;> obtain rfl := Option.some.inj h <;>
      exact hkeeps _ rfl nofun (by rw [hpass]; rfl) (by simp [GivesUp, hpass])
  · rename_i hpass
    split at h
    · obtain rfl := Option.some.inj h
      exact hkeeps _ rfl nofun (by rw [hpass]; rfl) (by simp [GivesUp, hpass])
    · split at h <;> obtain rfl := Option.some.inj h <;>
        exact hkeeps _ rfl nofun (by rw [hpass]; rfl) (by simp [GivesUp, hpass])
  · rename_i idx cursor r rest batchLen delivered dead hpass
    obtain ⟨sub, hsub, h⟩ := Option.bind_eq_some_iff.mp h
    have hgives : ∀ id, st.GivesUp id ↔
        sub.wants r = true ∧ sub.receiverAlive = false ∧ sub.id = id := by
      intro id
      simp [GivesUp, hpass, hsub]
    by_cases hwants : sub.wants r = false
    · rw [if_pos hwants] at h
      obtain rfl := Option.some.inj h
      exact hkeeps _ rfl nofun (by rw [hpass]; rfl) (by simp [hgives, hwants])
    · rw [if_neg hwants] at h
      by_cases halive : sub.receiverAlive = true
      · rw [if_pos halive] at h
        obtain rfl := Option.some.inj h
        exact hkeeps _ rfl nofun (by rw [hpass]; rfl) (by simp [hgives, halive])
      · rw [if_neg halive] at h
        obtain rfl := Option.some.inj h
        rw [Bool.not_eq_false] at hwants
        rw [Bool.not_eq_true] at halive
        refine Or.inr ⟨nofun, fun id => ?_⟩
        rw [hgives, hpass]
        simp [PassState.dead, hwants, halive, eq_comm]
  · rename_i idx cursor batchLen delivered dead hpass
    obtain rfl := Option.some.inj h
    by_cases hshort : batchLen < dispatchBatch
    · refine hkeeps (.scan (idx + 1) delivered dead) (if_pos hshort) nofun (by rw [hpass]; rfl) ?_
      simp [GivesUp, hpass]
    · refine hkeeps (.fetch idx cursor delivered dead) (if_neg hshort) nofun (by rw [hpass]; rfl) ?_
      simp [GivesUp, hpass]
  · obtain rfl := Option.some.inj h
    exact Or.inl ⟨_, rfl⟩

/-- Nothing but its own steps moves a pass. -/
theorem step_pass {l : StreamLabel} (hstep : st.step S l = some st') (hl : ∀ fault, l ≠ .pass fault) :
    st'.pass = st.pass := by
  cases l with
  | subscribe id f after =>
    simp only [Stream.step, Option.ite_none_left_eq_some] at hstep
    rw [← Option.some.inj hstep.2]
  | unsubscribe id =>
    simp only [Stream.step, Option.ite_none_left_eq_some] at hstep
    rw [← Option.some.inj hstep.2]
  | dropReceiver channel => rw [← Option.some.inj hstep]
  | pass fault => exact absurd rfl (hl fault)

/-- Only `subscribe` makes a channel. -/
theorem step_channels_sublist {l : StreamLabel} (hl : ∀ id f after, l ≠ .subscribe id f after)
    (hstep : st.step S l = some st') :
    (st'.subscribers.map Subscriber.channel).Sublist (st.subscribers.map Subscriber.channel) ∧
      st'.channels = st.channels := by
  cases l with
  | subscribe id f after => exact absurd rfl (hl id f after)
  | unsubscribe id =>
    simp only [Stream.step, Option.ite_none_left_eq_some] at hstep
    obtain rfl := Option.some.inj hstep.2
    exact ⟨List.Sublist.map _ List.filter_sublist, rfl⟩
  | dropReceiver channel =>
    obtain rfl := Option.some.inj hstep
    refine ⟨?_, rfl⟩
    rw [List.map_map]
    exact List.Sublist.refl _
  | pass fault =>
    obtain ⟨hch, ⟨_, _, -, hsubs⟩ | ⟨-, hsubs⟩⟩ := passStep_channels hstep
    · rw [hsubs]
      exact ⟨List.Sublist.map _ List.filter_sublist, hch⟩
    · rw [hsubs]
      exact ⟨List.Sublist.refl _, hch⟩

/-- Channels are numbered upwards. -/
theorem step_channels_le {l : StreamLabel} (hstep : st.step S l = some st') :
    st.channels ≤ st'.channels := by
  by_cases hl : ∃ id f after, l = .subscribe id f after
  · obtain ⟨id, f, after, rfl⟩ := hl
    simp only [Stream.step, Option.ite_none_left_eq_some] at hstep
    rw [← Option.some.inj hstep.2]
    exact Nat.le_succ _
  · exact (step_channels_sublist (fun id f after heq => hl ⟨id, f, after, heq⟩) hstep).2.ge

/-- Every subscriber has a channel of its own. -/
structure OwnChannels (st : Stream) : Prop where
  nodup : (st.subscribers.map Subscriber.channel).Nodup
  lt : ∀ sub ∈ st.subscribers, sub.channel < st.channels

theorem OwnChannels.initial : OwnChannels Stream.initial where
  nodup := List.nodup_nil
  lt _ hsub := absurd hsub List.not_mem_nil

theorem OwnChannels.step (h : OwnChannels st) {l : StreamLabel} (hstep : st.step S l = some st') :
    OwnChannels st' := by
  by_cases hl : ∃ id f after, l = .subscribe id f after
  · obtain ⟨id, f, after, rfl⟩ := hl
    simp only [Stream.step, Option.ite_none_left_eq_some] at hstep
    obtain rfl := Option.some.inj hstep.2
    -- The new channel is numbered above all that were ever made.
    refine ⟨?_, fun sub hsub => ?_⟩
    · rw [List.map_append, List.map_singleton]
      refine List.Nodup.append h.nodup (List.nodup_singleton _) ?_
      rintro ch hch hnew
      obtain ⟨sub, hsub, rfl⟩ := List.mem_map.mp hch
      have hlt := h.lt sub hsub
      rw [List.mem_singleton.mp hnew] at hlt
      exact lt_irrefl _ hlt
    · rcases List.mem_append.mp hsub with hmem | hnew
      · exact Nat.lt_succ_of_lt (h.lt sub hmem)
      · obtain rfl := List.mem_singleton.mp hnew
        exact Nat.lt_succ_self _
  · -- A step that only loses subscribers keeps the channels apart.
    obtain ⟨hsub, hch⟩ :=
      step_channels_sublist (fun id f after heq => hl ⟨id, f, after, heq⟩) hstep
    refine ⟨h.nodup.sublist hsub, fun sub' hsub' => ?_⟩
    obtain ⟨sub, hmem, heq⟩ := List.mem_map.mp (hsub.subset (List.mem_map_of_mem hsub'))
    rw [← heq, hch]
    exact h.lt sub hmem

/-- The channel of a subscriber leads to it. -/
theorem OwnChannels.find (h : OwnChannels st) {sub : Subscriber} (hsub : sub ∈ st.subscribers)
    {channel : ℕ} (hch : sub.channel = channel) :
    st.subscribers.find? (fun sub => sub.channel == channel) = some sub := by
  cases hfind : st.subscribers.find? (fun sub => sub.channel == channel) with
  | none =>
    have hne := List.find?_eq_none.mp hfind sub hsub
    exact absurd (beq_iff_eq.mpr hch) hne
  | some found =>
    have hmem := List.mem_of_find?_eq_some hfind
    have hfound := List.find?_some hfind
    rw [beq_iff_eq] at hfound
    rw [List.inj_on_of_nodup_map h.nodup hmem hsub (hfound.trans hch.symm)]

end Stream

end StateMaster
