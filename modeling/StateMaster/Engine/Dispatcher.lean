import StateMaster.Engine.Delivery
import StateMaster.Engine.Effects

/-!
# The dispatcher

`Dispatcher::dispatch` runs a pass over the change stream, reads the pending effects, and marks them
published one after the other. `dispatching` runs it next to the engine, one storage access at a time:
whatever else the engine does may come between any two of them.

A pass sends a subscriber what it finds committed when it reads the log for this subscriber; the
effects are read afterwards. So an effect may be marked whose record has not been sent.

* `ServedTo` — the subscribers there when a pass began have been sent what was committed then;
* `DispatchInvariant` — what the dispatcher knows, by the place it is at, and that every published
  effect belongs to a record the subscribers of some earlier moment have been served to;
* `published_delivered` — published means delivered, as long as no read of a pass fails and the
  effects read belong to transitions committed before the pass began;
* `published_undelivered` — the run in which one is committed in between.
-/

open Framework Framework.Text

namespace StateMaster

/-- The limit `dispatch` passes to `get_pending_effects`. -/
def pendingLimit : ℕ := 256

/-- Where a dispatcher is. `since`, the last sequence number when the pass of this dispatch began, is
for the statements only. -/
inductive DispatcherState where
  /-- Between two dispatches. -/
  | resting
  /-- Inside `dispatch_pass`. -/
  | passing (since : ℕ)
  /-- About to read the pending effects. -/
  | reading (since : ℕ)
  /-- About to mark `effect` published. -/
  | marking (since : ℕ) (effect : Effect) (rest : List Effect)
  /-- About to mark `effect` failed. -/
  | failing (since : ℕ) (effect : Effect) (rest : List Effect)

/-- The head of the loop over the effects. -/
def DispatcherState.next (since : ℕ) : List Effect → DispatcherState
  | [] => .resting
  | effect :: rest => .marking since effect rest

/-- The engine with its dispatcher. -/
structure Dispatching where
  world : World
  dispatcher : DispatcherState

def Dispatching.initial (guards : GuardRegistry) : Dispatching :=
  ⟨World.initial Store.empty guards, .resting⟩

/-- The steps of the engine that only a dispatcher makes. -/
def Label.byDispatcher : Label → Bool
  | .markEffect _ _ _ => true
  | .stream (.pass _) => true
  | _ => false

inductive DispatchLabel where
  /-- A step of the rest of the engine. -/
  | other (l : Label)
  /-- The next step of the pass; from rest, the first one. -/
  | pass (fault : Option Fault)
  /-- `get_pending_effects`. -/
  | readPending (fault : Option Fault)
  /-- `mark_effect_published`, or `mark_effect_failed` after it failed. -/
  | mark (fault : Option Fault)

namespace Dispatching

/-- `dispatch_pass` returned. -/
def passEnded (w : World) : Bool :=
  match w.stream.pass with
  | .idle _ => true
  | _ => false

def step (cfg : Config) (d : Dispatching) : DispatchLabel → Option Dispatching
  | .other l =>
    if l.byDispatcher then none
    else (d.world.step cfg l).map fun world => { d with world }
  | .pass fault =>
    match d.dispatcher with
    | .resting => do
      let world ← d.world.step cfg (.stream (.pass fault))
      return ⟨world, .passing d.world.store.sequence⟩
    | .passing since => do
      let world ← d.world.step cfg (.stream (.pass fault))
      return ⟨world, if passEnded world then .reading since else .passing since⟩
    | _ => none
  | .readPending fault =>
    match d.dispatcher with
    | .reading since =>
      match withFault fault (.ok (RedbEngine.getPendingEffects d.world.store pendingLimit)) with
      | .ok effects => some { d with dispatcher := .next since effects }
      | .error _ => some { d with dispatcher := .resting }
    | _ => none
  | .mark fault =>
    match d.dispatcher with
    | .marking since effect rest =>
      match withFault fault (RedbEngine.markEffectPublished d.world.store effect.id) with
      | .ok S => some ⟨d.world.setStore S, .next since rest⟩
      | .error _ => some { d with dispatcher := .failing since effect rest }
    | .failing since effect rest => do
      let world ← d.world.step cfg (.markEffect effect.id .failed fault)
      return ⟨world, .next since rest⟩
    | _ => none

end Dispatching

/-- The engine and its dispatcher as a system. -/
def dispatching (cfg : Config) : System Dispatching DispatchLabel where
  step := Dispatching.step cfg

/-! ### What a step can do -/

/-- Everything a step can do, and the step of the engine it is. -/
inductive DispatchStep (cfg : Config) (d : Dispatching) : DispatchLabel → Dispatching → Prop where
  | other (l : Label) (world : World) (hl : l.byDispatcher = false)
      (hstep : (engine cfg).step d.world l = some world) :
      DispatchStep cfg d (.other l) { d with world }
  | begin (fault : Option Fault) (world : World) (hd : d.dispatcher = .resting)
      (hstep : (engine cfg).step d.world (.stream (.pass fault)) = some world) :
      DispatchStep cfg d (.pass fault) ⟨world, .passing d.world.store.sequence⟩
  | scan (fault : Option Fault) (since : ℕ) (world : World) (hd : d.dispatcher = .passing since)
      (hstep : (engine cfg).step d.world (.stream (.pass fault)) = some world)
      (hrunning : ∀ result, world.stream.pass ≠ .idle result) :
      DispatchStep cfg d (.pass fault) ⟨world, .passing since⟩
  | finish (fault : Option Fault) (since : ℕ) (world : World) (result : Option ℕ)
      (hd : d.dispatcher = .passing since)
      (hstep : (engine cfg).step d.world (.stream (.pass fault)) = some world)
      (hidle : world.stream.pass = .idle result) :
      DispatchStep cfg d (.pass fault) ⟨world, .reading since⟩
  | readPending (since : ℕ) (hd : d.dispatcher = .reading since) :
      DispatchStep cfg d (.readPending none) { d with
        dispatcher := .next since (RedbEngine.getPendingEffects d.world.store pendingLimit) }
  | readFails (fault : Option Fault) (since : ℕ) (hd : d.dispatcher = .reading since) :
      DispatchStep cfg d (.readPending fault) { d with dispatcher := .resting }
  | mark (since : ℕ) (effect stored : Effect) (rest : List Effect)
      (hd : d.dispatcher = .marking since effect rest)
      (hstored : d.world.store.effects[effect.id]? = some stored)
      (hstep : (engine cfg).step d.world (.markEffect effect.id .published none)
        = some (d.world.setStore (d.world.store.marked effect.id stored .published))) :
      DispatchStep cfg d (.mark none)
        ⟨d.world.setStore (d.world.store.marked effect.id stored .published), .next since rest⟩
  | markFails (fault : Option Fault) (since : ℕ) (effect : Effect) (rest : List Effect)
      (hd : d.dispatcher = .marking since effect rest) :
      DispatchStep cfg d (.mark fault) { d with dispatcher := .failing since effect rest }
  | giveUp (fault : Option Fault) (since : ℕ) (effect : Effect) (rest : List Effect)
      (world : World) (hd : d.dispatcher = .failing since effect rest)
      (hstep : (engine cfg).step d.world (.markEffect effect.id .failed fault) = some world) :
      DispatchStep cfg d (.mark fault) ⟨world, .next since rest⟩

theorem passEnded_eq_true {w : World} (h : Dispatching.passEnded w = true) :
    ∃ result, w.stream.pass = .idle result := by
  unfold Dispatching.passEnded at h
  split at h
  · exact ⟨_, ‹_›⟩
  · exact nomatch h

theorem dispatchStep_sound {cfg : Config} {d d' : Dispatching} {l : DispatchLabel}
    (h : (dispatching cfg).step d l = some d') : DispatchStep cfg d l d' := by
  change Dispatching.step cfg d l = some d' at h
  cases l with
  | other l =>
    simp only [Dispatching.step, Option.ite_none_left_eq_some, Option.map_eq_some_iff] at h
    obtain ⟨hl, world, hstep, rfl⟩ := h
    exact .other l world (Bool.eq_false_iff.mpr hl) hstep
  | pass fault =>
    rw [Dispatching.step] at h
    split at h
    · -- at rest: the first step of a new pass
      next hd =>
      obtain ⟨world, hstep, hret⟩ := Option.bind_eq_some_iff.mp h
      obtain rfl := Option.some.inj hret
      exact .begin fault world hd hstep
    · -- inside: one more step, perhaps the last one
      next since hd =>
      obtain ⟨world, hstep, hret⟩ := Option.bind_eq_some_iff.mp h
      obtain rfl := Option.some.inj hret
      by_cases hended : Dispatching.passEnded world = true
      · obtain ⟨result, hidle⟩ := passEnded_eq_true hended
        rw [if_pos hended]
        exact .finish fault since world result hd hstep hidle
      · rw [if_neg hended]
        refine .scan fault since world hd hstep fun result hidle => hended ?_
        rw [Dispatching.passEnded, hidle]
    · exact nomatch h
  | readPending fault =>
    rw [Dispatching.step] at h
    split at h
    · next since hd =>
      cases fault with
      | none =>
        obtain rfl := Option.some.inj h
        exact .readPending since hd
      | some f =>
        obtain rfl := Option.some.inj h
        exact .readFails (some f) since hd
    · exact nomatch h
  | mark fault =>
    rw [Dispatching.step] at h
    split at h
    · next since effect rest hd =>
      cases fault with
      | some f =>
        obtain rfl := Option.some.inj h
        exact .markFails (some f) since effect rest hd
      | none =>
        rw [withFault_none] at h
        cases hstored : d.world.store.effects[effect.id]? with
        | none =>
          -- no row under this id: an error, as after a fault
          simp only [RedbEngine.markEffectPublished, RedbEngine.updateEffectStatus, hstored] at h
          obtain rfl := Option.some.inj h
          exact .markFails none since effect rest hd
        | some stored =>
          simp only [RedbEngine.markEffectPublished, RedbEngine.updateEffectStatus, hstored] at h
          obtain rfl := Option.some.inj h
          refine .mark since effect stored rest hd hstored ?_
          simp only [engine, World.step, withFault_none, RedbEngine.updateEffectStatus, hstored]
          rfl
    · next since effect rest hd =>
      obtain ⟨world, hstep, hret⟩ := Option.bind_eq_some_iff.mp h
      obtain rfl := Option.some.inj hret
      exact .giveUp fault since effect rest world hd hstep
    · exact nomatch h

/-- A step of the dispatching engine is a step of the engine, or leaves it alone. -/
theorem DispatchStep.world_cases {cfg : Config} {d d' : Dispatching} {l : DispatchLabel}
    (h : DispatchStep cfg d l d') :
    (∃ el, (engine cfg).step d.world el = some d'.world ∧
      (∀ i c, el = .invoke i c → l = .other el) ∧
      ∀ fault, el = .stream (.pass fault) → l = .pass fault) ∨
    d'.world = d.world := by
  cases h with
  | other el world hl hstep =>
    refine Or.inl ⟨el, hstep, fun _ _ _ => rfl, fun fault heq => ?_⟩
    rw [heq] at hl
    exact nomatch hl
  | begin fault world hd hstep =>
    exact Or.inl ⟨_, hstep, fun _ _ heq => (nomatch heq), fun _ heq => by cases heq; rfl⟩
  | scan fault since world hd hstep _ =>
    exact Or.inl ⟨_, hstep, fun _ _ heq => (nomatch heq), fun _ heq => by cases heq; rfl⟩
  | finish fault since world result hd hstep _ =>
    exact Or.inl ⟨_, hstep, fun _ _ heq => (nomatch heq), fun _ heq => by cases heq; rfl⟩
  | mark since effect stored rest hd hstored hstep =>
    exact Or.inl ⟨_, hstep, fun _ _ heq => (nomatch heq), fun _ heq => (nomatch heq)⟩
  | giveUp fault since effect rest world hd hstep =>
    exact Or.inl ⟨_, hstep, fun _ _ heq => (nomatch heq), fun _ heq => (nomatch heq)⟩
  | readPending since hd => exact Or.inr rfl
  | readFails fault since hd => exact Or.inr rfl
  | markFails fault since effect rest hd => exact Or.inr rfl

/-! ### Runs -/

/-- The steps of the rest of the engine. -/
def others (ls : List DispatchLabel) : List Label :=
  ls.filterMap fun
    | .other l => some l
    | _ => none

theorem mem_others {ls : List DispatchLabel} {l : Label} :
    l ∈ others ls ↔ DispatchLabel.other l ∈ ls := by
  unfold others
  rw [List.mem_filterMap]
  constructor
  · rintro ⟨dl, hmem, h⟩
    cases dl with
    | other l' =>
      obtain rfl := Option.some.inj h
      exact hmem
    | _ => exact nomatch h
  · intro hmem
    exact ⟨_, hmem, rfl⟩

/-- A run of the engine and its dispatcher from an empty database in which the ids drawn are fresh and
the counter stays below the last number of `u64`. -/
structure DispatchRun (cfg : Config) (guards : GuardRegistry) (ls : List DispatchLabel)
    (d : Dispatching) : Prop where
  run : (dispatching cfg).exec (Dispatching.initial guards) ls = some d
  fresh : FreshIds (others ls)
  bound : d.world.store.sequence < 2 ^ 64 - 1

/-- No read of a pass fails, and the effects read as pending belong to transitions that were committed
before the pass of this dispatch began. -/
structure ReadsInTime (cfg : Config) (guards : GuardRegistry) (ls : List DispatchLabel) : Prop where
  reads : ∀ fault, DispatchLabel.pass fault ∈ ls → fault = none
  inTime : ∀ n dn since, ls[n]? = some (.readPending none) →
    (dispatching cfg).stateAt (Dispatching.initial guards) ls n = some dn →
    dn.dispatcher = .reading since →
    ∀ e ∈ RedbEngine.getPendingEffects dn.world.store pendingLimit, ∀ r ∈ dn.world.store.log,
      r.id = e.transitionId → r.sequence ≤ since

section Runs

variable {cfg : Config} {guards : GuardRegistry} {ls : List DispatchLabel} {d d' : Dispatching}

/-- **The engine inside.** -/
theorem exists_engineRun (hrun : (dispatching cfg).exec (Dispatching.initial guards) ls = some d) :
    ∃ els, (engine cfg).exec (World.initial Store.empty guards) els = some d.world ∧
      (∀ i c, Label.invoke i c ∈ els → .invoke i c ∈ others ls) ∧
      ∀ fault, Label.stream (.pass fault) ∈ els → .pass fault ∈ ls := by
  -- The labels of the engine are gathered along the run; marks and passes become its own labels.
  refine System.exec_induction_labels (I := fun ls d => ∃ els,
    (engine cfg).exec (World.initial Store.empty guards) els = some d.world ∧
      (∀ i c, Label.invoke i c ∈ els → .invoke i c ∈ others ls) ∧
      ∀ fault, Label.stream (.pass fault) ∈ els → .pass fault ∈ ls) ⟨[], rfl, by simp, by simp⟩ ?_ hrun
  rintro ls d l d' - ⟨els, hels, hinvoke, hpass⟩ hstep
  have hothers : others ls ⊆ others (ls ++ [l]) := by
    intro el hel
    rw [mem_others] at hel ⊢
    exact List.mem_append_left _ hel
  obtain ⟨el, hel, hcall, hread⟩ | hsame := (dispatchStep_sound hstep).world_cases
  · refine ⟨els ++ [el], System.exec_concat_of_step hels hel, fun i c hmem => ?_, fun fault hmem => ?_⟩
    · obtain hmem | hmem := List.mem_append.mp hmem
      · exact hothers (hinvoke i c hmem)
      · obtain rfl := List.mem_singleton.mp hmem
        rw [mem_others, hcall i c rfl]
        exact List.mem_append_right _ List.mem_cons_self
    · obtain hmem | hmem := List.mem_append.mp hmem
      · exact List.mem_append_left _ (hpass fault hmem)
      · obtain rfl := List.mem_singleton.mp hmem
        rw [hread fault rfl]
        exact List.mem_append_right _ List.mem_cons_self
  · rw [hsame]
    exact ⟨els, hels, fun i c hmem => hothers (hinvoke i c hmem),
      fun fault hmem => List.mem_append_left _ (hpass fault hmem)⟩

/-- The run of the engine inside is one the stream is followed along. -/
theorem DispatchRun.streamRun (h : DispatchRun cfg guards ls d)
    (hreads : ∀ fault, DispatchLabel.pass fault ∈ ls → fault = none) :
    ∃ els, StreamRun cfg guards els d.world := by
  obtain ⟨els, hels, hinvoke, hpass⟩ := exists_engineRun h.run
  exact ⟨els, hels, fun fault hmem => hreads fault (hpass fault hmem), h.fresh.of_invokes hinvoke,
    h.bound⟩

/-- The log only grows, and channels are numbered upwards. -/
structure Later (d d' : Dispatching) : Prop where
  log : d.world.store.log <+: d'.world.store.log
  channels : d.world.stream.channels ≤ d'.world.stream.channels

theorem DispatchStep.later {l : DispatchLabel} (h : DispatchStep cfg d l d')
    (hS : LogInvariant d.world.store) : Later d d' := by
  obtain ⟨el, hel, -⟩ | hsame := h.world_cases
  · have hstep := step_sound hel
    refine ⟨hstep.log_grows hS, ?_⟩
    obtain ⟨sl, st, -, hst, hw⟩ | hstream := hstep.stream_cases
    · rw [hw]
      exact Stream.step_channels_le hst
    · rw [hstream]
  · exact ⟨by rw [hsame], by rw [hsame]⟩

/-- Of two moments of a run the second is later. -/
theorem later_of_le {m n : ℕ} (hmn : m ≤ n)
    (hm : (dispatching cfg).stateAt (Dispatching.initial guards) ls m = some d)
    (hn : (dispatching cfg).stateAt (Dispatching.initial guards) ls n = some d') : Later d d' := by
  refine System.stateAt_induction (I := Later d) hmn hm hn ⟨List.prefix_refl _, le_rfl⟩ ?_
  intro k l t t' _ _ _ hk hstep hlater
  obtain ⟨els, hels, -⟩ := exists_engineRun hk
  have hnext := (dispatchStep_sound hstep).later (keyInvariant_of_run hels).log
  exact ⟨hlater.log.trans hnext.log, hlater.channels.trans hnext.channels⟩

theorem later_of_visits (hrun : (dispatching cfg).exec (Dispatching.initial guards) ls = some d')
    (hvisit : (dispatching cfg).Visits (Dispatching.initial guards) ls d) : Later d d' := by
  obtain ⟨n, hn, hat⟩ := hvisit
  exact later_of_le hn hat ((System.stateAt_length _ _).trans hrun)

end Runs

/-! ### What a pass has served -/

/-- A subscriber with a channel below `ch` has been served up to `N`, unless its receiver is gone. -/
def ServedTo (ch N : ℕ) (sub : Subscriber) : Prop :=
  sub.channel < ch → sub.InRange → sub.receiverAlive = true → N ≤ sub.deliveredThrough

/-- The records end at `N` or later; if there are none, the cursor before them is there. -/
def EndsPast (N cursor : ℕ) (records : List TransitionRecord) : Prop :=
  N ≤ (records.getLast?.map TransitionRecord.sequence).getD cursor

section Served

variable {S : Store} {st : Stream} {ch N : ℕ}

theorem EndsPast.inspect {cursor : ℕ} {r : TransitionRecord} {rest : List TransitionRecord}
    (h : EndsPast N cursor (r :: rest)) : EndsPast N r.sequence rest := by
  unfold EndsPast at h ⊢
  rw [List.getLast?_cons] at h
  cases hlast : rest.getLast? with
  | none =>
    -- `r` was the last one, and is the cursor now
    rw [hlast] at h
    exact h
  | some last =>
    rw [hlast] at h
    exact h

/-- What is past a cursor ends with the log. -/
theorem LogInvariant.endsPast (hS : LogInvariant S) (hN : N ≤ S.sequence) {cursor : ℕ}
    (hne : S.after cursor ≠ []) : EndsPast N cursor (S.after cursor) := by
  unfold EndsPast Store.after at *
  generalize (cursor + 1) % 2 ^ 64 - 1 = k at hne ⊢
  have hk : k < S.log.length := by
    by_contra hle
    exact hne (List.drop_eq_nil_of_le (Nat.le_of_not_lt hle))
  have hlast : (S.log.drop k).getLast? = S.log[S.log.length - 1]? := by
    rw [List.getLast?_drop, if_neg (by omega), List.getLast?_eq_getElem?]
  obtain ⟨last, hget⟩ : ∃ last, S.log[S.log.length - 1]? = some last :=
    ⟨_, List.getElem?_eq_getElem (by omega)⟩
  have hseq := hS.sequence_of_getElem? hget
  have hlen := hS.length_log
  rw [hlast, hget]
  change N ≤ last.sequence
  omega

/-- **A pass serves everyone up to what is committed.** However the log grows meanwhile, it leaves
subscribers at `N` or later, if the log had reached `N`. -/
theorem StreamInvariant.servedRules {R : TransitionRecord → ChangeRecord → Prop}
    (hinv : StreamInvariant R S st) (hS : LogInvariant S) (hbound : S.sequence < 2 ^ 64 - 1)
    (hN : N ≤ S.sequence) :
    PassRules S st (ServedTo ch N) (EndsPast N) where
  dead sub hdead _ _ halive := absurd (hdead.symm.trans halive) Bool.noConfusion
  drained hp hsub hempty _ hin _ := by
    obtain ⟨hserves, hcursor⟩ := hinv.serves_fetch hp hsub hin
    have hend := hserves.atEnd hS hbound hin hempty
    rw [hcursor, hend, hS.length_log]
    exact hN.trans (le_max_right _ _)
  batch _ hne := hS.endsPast hN hne
  inspect _ _ _ h := h.inspect
  finish _ _ hend _ _ _ := hend

variable {cfg : Config} {guards : GuardRegistry} {els : List Label} {w w' : World} {l : Label}

/-- Served once, served ever after: a cursor does not go back, and a receiver does not come back. -/
theorem servedTo_step (hrun : StreamRun cfg guards els w) (hstep : Step cfg w l w')
    (hfault : ∀ fault, l = .stream (.pass fault) → fault = none)
    (hch : ch ≤ w.stream.channels) (h : ∀ sub ∈ w.stream.subscribers, ServedTo ch N sub) :
    ∀ sub ∈ w'.stream.subscribers, ServedTo ch N sub := by
  obtain ⟨sl, st, rfl, hsl, rfl⟩ | hsame := hstep.stream_cases
  · intro sub' hsub' hold hin halive
    have hread : ∀ f, sl = .pass f → f = none := fun f hf => hfault f (hf ▸ rfl)
    obtain hnew | ⟨sub, hsub, hcont, hrecv⟩ := (streamInvariant_of_run hrun).1.continues
      hrun.log hrun.bound hread hsl sub' hsub'
    · -- a channel made now is none of those below `ch`
      exact absurd (hnew ▸ hold) (Nat.not_lt.mpr hch)
    · have hin₀ : sub.InRange := by
        unfold Subscriber.InRange at hin ⊢
        rwa [← hcont.afterSequence]
      exact (h sub hsub (hcont.channel ▸ hold) hin₀ (hrecv halive)).trans (hcont.delivered_le hin₀)
  · rw [hsame]
    exact h

/-- What a pass has left behind stays so whatever the engine does. -/
theorem leftBehind_step (hrun : StreamRun cfg guards els w) (hstep : Step cfg w l w')
    (hfault : ∀ fault, l = .stream (.pass fault) → fault = none)
    (hch : ch ≤ w.stream.channels) (hN : N ≤ w.store.sequence)
    (h : LeftBehind (ServedTo ch N) (EndsPast N) w.stream) :
    LeftBehind (ServedTo ch N) (EndsPast N) w'.stream := by
  obtain ⟨sl, st, rfl, hsl, rfl⟩ | hsame := hstep.stream_cases
  · have hrules : PassRules w.store w.stream (ServedTo ch N) (EndsPast N) :=
      (streamInvariant_of_run hrun).1.servedRules hrun.log hrun.bound hN
    refine h.step hrules hrun.log ?_ ?_ (fun f hf => hfault f (hf ▸ rfl)) hsl
    · exact fun channel sub hsub hold hin halive =>
        hsub hold hin (Bool.and_eq_true_iff.mp halive).1
    · exact fun _ sub hnew hold => absurd (hnew ▸ hold) (Nat.not_lt.mpr hch)
  · rw [hsame]
    exact h

end Served

/-! ### What the dispatcher knows -/

/-- The subscribers that were there at an earlier moment, when the counter stood at `since`, have been
served up to it. -/
def ServedSince (cfg : Config) (guards : GuardRegistry) (ls : List DispatchLabel) (d : Dispatching)
    (since : ℕ) : Prop :=
  ∃ da, (dispatching cfg).Visits (Dispatching.initial guards) ls da ∧
    da.world.store.sequence = since ∧
    ∀ sub ∈ d.world.stream.subscribers, ServedTo da.world.stream.channels since sub

/-- The same of those the pass has left behind. -/
def PassingSince (cfg : Config) (guards : GuardRegistry) (ls : List DispatchLabel) (d : Dispatching)
    (since : ℕ) : Prop :=
  ∃ da, (dispatching cfg).Visits (Dispatching.initial guards) ls da ∧
    da.world.store.sequence = since ∧
    LeftBehind (ServedTo da.world.stream.channels since) (EndsPast since) d.world.stream

/-- An effect that was read belongs to a record committed before the pass began. -/
structure Settled (S : Store) (since : ℕ) (e : Effect) : Prop where
  stored : ∃ status, S.effects[e.id]? = some { e with status }
  logged : ∃ r ∈ S.log, r.id = e.transitionId ∧ r.sequence ≤ since

/-- What holds of the dispatcher, by the place it is at. -/
def DispatcherFact (cfg : Config) (guards : GuardRegistry) (ls : List DispatchLabel)
    (d : Dispatching) : Prop :=
  match d.dispatcher with
  | .resting => ∃ result, d.world.stream.pass = .idle result
  | .passing since => PassingSince cfg guards ls d since
  | .reading since =>
    (∃ result, d.world.stream.pass = .idle result) ∧ ServedSince cfg guards ls d since
  | .marking since effect rest =>
    (∃ result, d.world.stream.pass = .idle result) ∧ ServedSince cfg guards ls d since ∧
      ∀ e ∈ effect :: rest, Settled d.world.store since e
  | .failing since _ rest =>
    (∃ result, d.world.stream.pass = .idle result) ∧ ServedSince cfg guards ls d since ∧
      ∀ e ∈ rest, Settled d.world.store since e

structure DispatchInvariant (cfg : Config) (guards : GuardRegistry) (ls : List DispatchLabel)
    (d : Dispatching) : Prop where
  place : DispatcherFact cfg guards ls d
  published : ∀ (id : String) (e : Effect), d.world.store.effects[id]? = some e →
    e.status = .published → ∃ r ∈ d.world.store.log, r.id = e.transitionId ∧
      ∃ since, r.sequence ≤ since ∧ ServedSince cfg guards ls d since

section Invariant

variable {cfg : Config} {guards : GuardRegistry} {ls : List DispatchLabel} {d d' : Dispatching}
  {l : DispatchLabel} {since : ℕ}

/-- The read of a pass of the engine inside is that of a label of the dispatcher. -/
theorem DispatchStep.world_cases_of_reads (h : DispatchStep cfg d l d')
    (hread : ∀ fault, l = .pass fault → fault = none) :
    (∃ el, Step cfg d.world el d'.world ∧ ∀ fault, el = .stream (.pass fault) → fault = none) ∨
      d'.world = d.world := by
  obtain ⟨el, hel, -, hpass⟩ | hsame := h.world_cases
  · exact Or.inl ⟨el, step_sound hel, fun fault heq => hread fault (hpass fault heq)⟩
  · exact Or.inr hsame

theorem ServedSince.step (h : ServedSince cfg guards ls d since)
    (hrun : (dispatching cfg).exec (Dispatching.initial guards) ls = some d) {els : List Label}
    (hels : StreamRun cfg guards els d.world) (hstep : DispatchStep cfg d l d')
    (hread : ∀ fault, l = .pass fault → fault = none) :
    ServedSince cfg guards (ls ++ [l]) d' since := by
  obtain ⟨da, hvisit, hseq, hserved⟩ := h
  refine ⟨da, hvisit.append [l], hseq, ?_⟩
  obtain ⟨el, hel, hfault⟩ | hsame := hstep.world_cases_of_reads hread
  · exact servedTo_step hels hel hfault (later_of_visits hrun hvisit).channels hserved
  · rw [hsame]
    exact hserved

theorem PassingSince.step (h : PassingSince cfg guards ls d since)
    (hrun : (dispatching cfg).exec (Dispatching.initial guards) ls = some d) {els : List Label}
    (hels : StreamRun cfg guards els d.world) (hstep : DispatchStep cfg d l d')
    (hread : ∀ fault, l = .pass fault → fault = none) :
    PassingSince cfg guards (ls ++ [l]) d' since := by
  obtain ⟨da, hvisit, hseq, hleft⟩ := h
  refine ⟨da, hvisit.append [l], hseq, ?_⟩
  obtain ⟨el, hel, hfault⟩ | hsame := hstep.world_cases_of_reads hread
  · have hlater := later_of_visits hrun hvisit
    obtain ⟨els', hels', -⟩ := exists_engineRun hvisit.choose_spec.2
    have hle : since ≤ d.world.store.sequence := by
      rw [← hseq, ← (keyInvariant_of_run hels').log.length_log, ← hels.log.length_log]
      exact hlater.log.length_le
    exact leftBehind_step hels hel hfault hlater.channels hle hleft
  · rw [hsame]
    exact hleft

/-- The end of a pass: everyone it leaves in the list has been served. -/
theorem PassingSince.finish (h : PassingSince cfg guards ls d since) {world : World}
    (hpass : PassStep d.world.store d.world.stream world.stream) {result : Option ℕ}
    (hidle : world.stream.pass = .idle result) :
    ServedSince cfg guards ls ⟨world, .reading since⟩ since := by
  obtain ⟨da, hvisit, hseq, hleft⟩ := h
  obtain ⟨delivered, dead, hp, -, hsub⟩ := hpass.last hidle
  unfold LeftBehind at hleft
  rw [hp] at hleft
  exact ⟨da, hvisit, hseq, fun sub hmem => hleft sub (hsub hmem)⟩

/-- A step of the engine keeps an effect and its record. -/
theorem Settled.step {w w' : World} {els : List Label} {el : Label} {e : Effect}
    (h : Settled w.store since e) (hels : StreamRun cfg guards els w) (hstep : Step cfg w el w') :
    Settled w'.store since e := by
  obtain ⟨r, hr, hid, hle⟩ := h.logged
  exact ⟨hstep.effect_settled hels.fresh hels.run h.stored, r,
    (hstep.log_grows hels.log).subset hr, hid, hle⟩

/-- Apart from a mark, no step makes an effect published: it was so before. -/
theorem published_of_step {w w' : World} {els : List Label} {el : Label}
    (hels : StreamRun cfg guards els w) (hstep : Step cfg w el w')
    (hel : ∀ id fault, el ≠ .markEffect id .published fault) {id : String} {e : Effect}
    (he : w'.store.effects[id]? = some e) (hpub : e.status = .published) :
    w.store.effects[id]? = some e := by
  obtain ⟨-, heff, -⟩ | ⟨eid, effect, status, hl, -, hS⟩ | ⟨i, c, plan, hpc, -, hcommit⟩ :=
    hstep.outbox_cases
  · exact heff ▸ he
  · rw [hS] at he
    change (w.store.effects.insert eid { effect with status })[id]? = some e at he
    rw [Table.get_insert] at he
    split at he
    · obtain rfl := Option.some.inj he
      -- it has the status it was marked with
      obtain rfl : status = .published := hpub
      exact absurd hl (hel eid none)
    · exact he
  · -- an effect of the plan that is committed is pending
    obtain ⟨hnew, -⟩ := hels.origin.newEffects hels.fresh hels.run hpc
    obtain ⟨hmem, -⟩ | hold := (hcommit.get_effects hnew).mp he
    · have hpending := (planFact_of_run hels.run hpc).pending hmem
      exact nomatch hpending.symm.trans hpub
    · exact hold

/-- **Who publishes.** An effect that is published after a step was so before it, or the step is the mark
of this effect. -/
theorem DispatchStep.published_cases {els : List Label} (h : DispatchStep cfg d l d')
    (hels : StreamRun cfg guards els d.world) {id : String} {e : Effect}
    (he : d'.world.store.effects[id]? = some e) (hpub : e.status = .published) :
    d.world.store.effects[id]? = some e ∨
      ∃ since effect stored rest, d.dispatcher = .marking since effect rest ∧
        d.world.store.effects[effect.id]? = some stored ∧ e = { stored with status := .published } := by
  cases h with
  | other el world hl hel =>
    -- the rest of the engine makes no mark
    refine Or.inl (published_of_step hels (step_sound hel) ?_ he hpub)
    rintro _ _ rfl
    exact nomatch hl
  | begin fault world hd hel =>
    exact Or.inl (published_of_step hels (step_sound hel) (fun _ _ heq => nomatch heq) he hpub)
  | scan fault since world hd hel _ =>
    exact Or.inl (published_of_step hels (step_sound hel) (fun _ _ heq => nomatch heq) he hpub)
  | finish fault since world result hd hel _ =>
    exact Or.inl (published_of_step hels (step_sound hel) (fun _ _ heq => nomatch heq) he hpub)
  | giveUp fault since effect rest world hd hel =>
    -- this mark says failed
    exact Or.inl (published_of_step hels (step_sound hel) (fun _ _ heq => nomatch heq) he hpub)
  | readPending since hd => exact Or.inl he
  | readFails fault since hd => exact Or.inl he
  | markFails fault since effect rest hd => exact Or.inl he
  | mark since effect stored rest hd hstored hel =>
    change (d.world.store.effects.insert effect.id _)[id]? = some e at he
    rw [Table.get_insert] at he
    split at he
    · exact Or.inr ⟨since, effect, stored, rest, hd, hstored, (Option.some.inj he).symm⟩
    · exact Or.inl he

/-- Only a dispatcher moves the pass. -/
theorem pass_of_other {w w' : World} {el : Label} (hstep : Step cfg w el w')
    (hel : el.byDispatcher = false) : w'.stream.pass = w.stream.pass := by
  obtain ⟨sl, st, rfl, hsl, rfl⟩ | hsame := hstep.stream_cases
  · cases sl with
    | subscribe id f after =>
      simp only [Stream.step, Option.ite_none_left_eq_some] at hsl
      rw [← Option.some.inj hsl.2]
    | unsubscribe id =>
      simp only [Stream.step, Option.ite_none_left_eq_some] at hsl
      rw [← Option.some.inj hsl.2]
    | dropReceiver channel => rw [← Option.some.inj hsl]
    | pass fault => exact absurd hel Bool.noConfusion
  · rw [hsame]

/-- At the head of the loop over the effects. -/
theorem dispatcherFact_next {world : World} {effects : List Effect}
    (hidle : ∃ result, world.stream.pass = .idle result)
    (hserved : ServedSince cfg guards ls ⟨world, .next since effects⟩ since)
    (hsettled : ∀ e ∈ effects, Settled world.store since e) :
    DispatcherFact cfg guards ls ⟨world, .next since effects⟩ := by
  cases effects with
  | nil => exact hidle
  | cons e rest => exact ⟨hidle, hserved, hsettled⟩

/-- An effect read as pending stands in the outbox, under its id, with its record in the log. -/
theorem settled_of_pending {w : World} {els : List Label} (hels : StreamRun cfg guards els w)
    {e : Effect} (he : e ∈ RedbEngine.getPendingEffects w.store pendingLimit)
    (hearly : ∀ r ∈ w.store.log, r.id = e.transitionId → r.sequence ≤ since) :
    Settled w.store since e := by
  rw [getPendingEffects_eq] at he
  have hmem := (List.mem_filter.mp (List.mem_of_mem_take he)).1
  obtain ⟨id, hget⟩ := mem_effects_values.mp hmem
  obtain ⟨r, hr, hid⟩ := (linkedInvariant_of_run hels.fresh hels.run).logged id e hget
  obtain rfl := hels.origin.outbox.keyed id e hget
  exact ⟨⟨e.status, hget⟩, r, hr, hid, hearly r hr hid⟩

/-- A step keeps what the dispatcher knows. -/
theorem DispatcherFact.step (h : DispatcherFact cfg guards ls d)
    (hrun : (dispatching cfg).exec (Dispatching.initial guards) ls = some d) {els : List Label}
    (hels : StreamRun cfg guards els d.world) (hstep : DispatchStep cfg d l d')
    (hread : ∀ fault, l = .pass fault → fault = none)
    (hearly : ∀ since, l = .readPending none → d.dispatcher = .reading since →
      ∀ e ∈ RedbEngine.getPendingEffects d.world.store pendingLimit, ∀ r ∈ d.world.store.log,
        r.id = e.transitionId → r.sequence ≤ since) :
    DispatcherFact cfg guards (ls ++ [l]) d' := by
  have hserved : ∀ {since}, ServedSince cfg guards ls d since →
      ServedSince cfg guards (ls ++ [l]) d' since := fun hs => hs.step hrun hels hstep hread
  have hpassing : ∀ {since}, PassingSince cfg guards ls d since →
      PassingSince cfg guards (ls ++ [l]) d' since := fun hs => hs.step hrun hels hstep hread
  unfold DispatcherFact at h
  cases hstep with
  | other el world hl hel =>
    have hst := step_sound hel
    have hpass := pass_of_other hst hl
    -- the dispatcher stays where it is, and so does the pass
    unfold DispatcherFact
    dsimp only
    rw [hpass]
    cases hd : d.dispatcher with
    | resting =>
      rw [hd] at h
      exact h
    | passing since =>
      rw [hd] at h
      exact hpassing h
    | reading since =>
      rw [hd] at h
      exact ⟨h.1, hserved h.2⟩
    | marking since effect rest =>
      rw [hd] at h
      exact ⟨h.1, hserved h.2.1, fun e he => (h.2.2 e he).step hels hst⟩
    | failing since effect rest =>
      rw [hd] at h
      exact ⟨h.1, hserved h.2.1, fun e he => (h.2.2 e he).step hels hst⟩
  | begin fault world hd hel =>
    -- nobody is behind a pass that has not begun
    rw [hd] at h
    obtain ⟨result, hidle⟩ := h
    refine hpassing ⟨d, System.visits_end hrun, rfl, ?_⟩
    unfold LeftBehind
    rw [hidle]
    trivial
  | scan fault since world hd hel _ =>
    rw [hd] at h
    exact hpassing h
  | finish fault since world result hd hel hidle =>
    -- whoever is left when the pass has come to its end was left behind by it
    rw [hd] at h
    obtain rfl := hread fault rfl
    have hpass : d.world.stream.passStep d.world.store none = some world.stream := by
      cases step_sound hel with
      | stream _ st hst => exact hst
    obtain ⟨da, hvisit, hseq, hall⟩ := h.finish (passStep_sound hpass) hidle
    exact ⟨⟨result, hidle⟩, da, hvisit.append _, hseq, hall⟩
  | readPending since hd =>
    -- here the effects have to belong to transitions the pass has seen
    rw [hd] at h
    exact dispatcherFact_next h.1 (hserved h.2) fun e he =>
      settled_of_pending hels he (hearly since rfl hd e he)
  | readFails fault since hd =>
    rw [hd] at h
    exact h.1
  | mark since effect stored rest hd hstored hel =>
    rw [hd] at h
    exact dispatcherFact_next h.1 (hserved h.2.1) fun e he =>
      (h.2.2 e (List.mem_cons_of_mem _ he)).step hels (step_sound hel)
  | markFails fault since effect rest hd =>
    rw [hd] at h
    exact ⟨h.1, hserved h.2.1, fun e he => h.2.2 e (List.mem_cons_of_mem _ he)⟩
  | giveUp fault since effect rest world hd hel =>
    -- the mark may fail too, and the loop goes on either way
    rw [hd] at h
    have hst := step_sound hel
    have hstream : world.stream = d.world.stream := by
      cases hst with
      | mark => rfl
      | markError => rfl
    refine dispatcherFact_next ?_ (hserved h.2.1) fun e he => (h.2.2 e he).step hels hst
    rw [hstream]
    exact h.1

/-- **A step keeps the invariant.** -/
theorem DispatchInvariant.step (h : DispatchInvariant cfg guards ls d)
    (hrun : (dispatching cfg).exec (Dispatching.initial guards) ls = some d) {els : List Label}
    (hels : StreamRun cfg guards els d.world) (hstep : DispatchStep cfg d l d')
    (hread : ∀ fault, l = .pass fault → fault = none)
    (hearly : ∀ since, l = .readPending none → d.dispatcher = .reading since →
      ∀ e ∈ RedbEngine.getPendingEffects d.world.store pendingLimit, ∀ r ∈ d.world.store.log,
        r.id = e.transitionId → r.sequence ≤ since) :
    DispatchInvariant cfg guards (ls ++ [l]) d' := by
  refine ⟨h.place.step hrun hels hstep hread hearly, fun id e he hpub => ?_⟩
  have hlog := (hstep.later hels.log).log
  obtain hold | ⟨since, effect, stored, rest, hd, hstored, hmarked⟩ :=
    hstep.published_cases hels he hpub
  · obtain ⟨r, hr, hid, since, hle, hserved⟩ := h.published id e hold hpub
    exact ⟨r, hlog.subset hr, hid, since, hle, hserved.step hrun hels hstep hread⟩
  · -- The effect marked now: its record was committed before the pass that served it.
    have hplace := h.place
    unfold DispatcherFact at hplace
    rw [hd] at hplace
    obtain ⟨-, hserved, hsettled⟩ := hplace
    obtain ⟨⟨status, hget⟩, r, hr, htxn, hle⟩ := hsettled effect List.mem_cons_self
    obtain rfl := Option.some.inj (hstored.symm.trans hget)
    rw [hmarked]
    exact ⟨r, hlog.subset hr, htxn, since, hle, hserved.step hrun hels hstep hread⟩

/-- Every moment of a run with reads in time is the end of one. -/
theorem DispatchRun.before (h : DispatchRun cfg guards (ls ++ [l]) d') (hstep : DispatchStep cfg d l d')
    (hrun : (dispatching cfg).exec (Dispatching.initial guards) ls = some d) :
    DispatchRun cfg guards ls d := by
  refine ⟨hrun, h.fresh.mono fun el hel => ?_, ?_⟩
  · rw [mem_others] at hel ⊢
    exact List.mem_append_left _ hel
  · obtain ⟨el, hel, -⟩ | hsame := hstep.world_cases
    · exact (step_sound hel).sequence_le.trans_lt h.bound
    · exact hsame ▸ h.bound

theorem ReadsInTime.before (h : ReadsInTime cfg guards (ls ++ [l])) : ReadsInTime cfg guards ls where
  reads fault hmem := h.reads fault (List.mem_append_left _ hmem)
  inTime n dn since hl hat := by
    have hn : n < ls.length := (List.getElem?_eq_some_iff.mp hl).1
    refine h.inTime n dn since ?_ ((System.stateAt_append hn.le).trans hat)
    rw [List.getElem?_append_left hn]
    exact hl

theorem dispatchInvariant_of_run (h : DispatchRun cfg guards ls d)
    (htime : ReadsInTime cfg guards ls) : DispatchInvariant cfg guards ls d := by
  refine System.exec_induction_labels (I := fun ls d => DispatchRun cfg guards ls d →
    ReadsInTime cfg guards ls → DispatchInvariant cfg guards ls d) (fun _ _ => ⟨?_, ?_⟩) ?_ h.run
    h htime
  · exact ⟨none, rfl⟩
  · intro id e he
    change (∅ : Table String Effect)[id]? = some e at he
    exact absurd he (by simp)
  · intro ls d l d' hrun ih hstep h' htime'
    have hst := dispatchStep_sound hstep
    have hbefore := h'.before hst hrun
    obtain ⟨els, hels⟩ := hbefore.streamRun htime'.before.reads
    refine (ih hbefore htime'.before).step hrun hels hst (fun fault heq => ?_) ?_
    · exact htime'.reads fault (heq ▸ List.mem_append_right _ List.mem_cons_self)
    · -- The last label is at the place of the run before it.
      intro since heq hd
      refine htime'.inTime ls.length d since ?_ ?_ hd
      · rw [List.getElem?_concat_length, heq]
      · rw [System.stateAt_append le_rfl, System.stateAt_length]
        exact hrun

/-- A record that a log has not reached is later than all of it. -/
theorem LogInvariant.mem_of_sequence_le {S S' : Store} (hS : LogInvariant S) (hS' : LogInvariant S')
    (hlog : S.log <+: S'.log) {r : TransitionRecord} (hr : r ∈ S'.log)
    (hle : r.sequence ≤ S.sequence) : r ∈ S.log := by
  obtain ⟨k, hk⟩ := List.getElem?_of_mem hr
  have hseq := hS'.sequence_of_getElem? hk
  have hlen := hS.length_log
  have hklen : k < S.log.length := by omega
  obtain ⟨tail, htail⟩ := hlog
  rw [← htail, List.getElem?_append_left hklen] at hk
  exact List.mem_of_getElem? hk

/-- **Published means delivered**, if no read of a pass fails and the effects read as pending belong to
transitions committed before the pass began. Whenever an effect is published, the change record of its
transition has been sent to every subscriber that was registered before the transition committed, is
still registered with its receiver alive, wants the record and asked for it. -/
theorem published_delivered (h : DispatchRun cfg guards ls d) (htime : ReadsInTime cfg guards ls) :
    ∀ (id : String) (e : Effect) (r : TransitionRecord), d.world.store.effects[id]? = some e →
      e.status = .published → r ∈ d.world.store.log → r.id = e.transitionId →
      ∀ sub ∈ d.world.stream.subscribers,
        (∃ m dm s, (dispatching cfg).stateAt (Dispatching.initial guards) ls m = some dm ∧
          s ∈ dm.world.stream.subscribers ∧ s.channel = sub.channel ∧ r ∉ dm.world.store.log) →
        sub.receiverAlive = true → sub.wants r = true → sub.afterSequence < r.sequence →
          ∃ change ∈ sub.sent, Publishes d.world.store r change := by
  intro id e r he hpub hr hid sub hsub ⟨m, dm, s, hm, hs, hchannel, hnot⟩ halive hwants hafter
  obtain ⟨els, hels⟩ := h.streamRun htime.reads
  obtain ⟨r', hr', hid', since, hle, da, ⟨a, ha, hat⟩, hseq, hserved⟩ :=
    (dispatchInvariant_of_run h htime).published id e he hpub
  -- Ids tell records apart.
  obtain rfl : r' = r := List.inj_on_of_nodup_map (linkedInvariant_of_run hels.fresh hels.run).ids
    hr' hr (hid'.trans hid.symm)
  obtain ⟨ema, hema, -⟩ := exists_engineRun hat
  obtain ⟨emm, hemm, -⟩ := exists_engineRun hm
  have hlogged : r' ∈ da.world.store.log :=
    (keyInvariant_of_run hema).log.mem_of_sequence_le hels.log
      (later_of_visits h.run ⟨a, ha, hat⟩).log hr (hseq.symm ▸ hle)
  -- So the subscriber was there before the pass that served it began.
  have hbefore : m ≤ a := by
    by_contra hlt
    exact hnot ((later_of_le (Nat.le_of_not_le hlt) hat hm).log.subset hlogged)
  have hold : sub.channel < da.world.stream.channels := by
    have hlt := (ownChannels_of_run hemm).lt s hs
    rw [hchannel] at hlt
    exact hlt.trans_le (later_of_le hbefore hm hat).channels
  have hrange : sub.InRange := by
    have hend := hels.log.sequence_le_of_mem hr
    exact (hafter.trans_le hend).trans hels.bound
  have hdelivered : since ≤ sub.deliveredThrough := hserved sub hsub hold hrange halive
  obtain ⟨idx, hidx⟩ := List.getElem?_of_mem hsub
  have hserves := (streamInvariant_of_run hels).1.serves idx sub hidx hrange
  have hcursor : r'.sequence ≤ d.world.stream.pass.cursorOf idx sub := by
    calc r'.sequence ≤ since := hle
      _ ≤ sub.deliveredThrough := hdelivered
      _ ≤ d.world.stream.pass.cursorOf idx sub := hserves.delivered_le
  have hsent := hserves.sent halive
  rw [← hels.log.due_eq] at hsent
  refine exists_of_forall₂_mem hsent (List.mem_filter.mpr ⟨hr, ?_⟩)
  rw [decide_eq_true hafter, decide_eq_true hcursor, hwants]
  rfl

end Invariant

/-! ### A payment and a dispatch -/

/-- The order machine is defined, and a client subscribes. -/
def opening : List DispatchLabel :=
  [.other (.defineMachine orderMachine none), .other (.stream (.subscribe "s" none 0))]

/-- An order is paid. -/
def payment : List DispatchLabel :=
  .other (.invoke 0 (payOrder 0 "o1" none)) :: (steps 0 8).map .other

/-- The next `n` steps of the pass. -/
def passFor (n : ℕ) : List DispatchLabel := List.replicate n (.pass none)

/-- The pending effects are read, and the first is marked. -/
def publish : List DispatchLabel := [.readPending none, .mark none]

/-- The effect of the payment. -/
def receiptId : String := ((Draws.ofNat 0).effectId 0).text

/-- The order is paid, then a dispatch comes. -/
def paidBeforePass : List DispatchLabel := opening ++ payment ++ passFor 7 ++ publish

/-- The order is paid when the pass is over and the effects are not yet read. -/
def paidAfterPass : List DispatchLabel := opening ++ passFor 5 ++ payment ++ publish

/-- The client subscribed before the first record. -/
theorem subscribed_opening (ls : List DispatchLabel) : ∃ d s,
    (dispatching oneStripe).stateAt (Dispatching.initial ∅) (opening ++ ls) 2 = some d ∧
      s ∈ d.world.stream.subscribers ∧ s.channel = 0 ∧ d.world.store.log = [] := by
  have heval : ((dispatching oneStripe).exec (Dispatching.initial ∅) opening).map (fun d =>
      (d.world.stream.subscribers.map Subscriber.channel, d.world.store.log)) = some ([0], []) := rfl
  obtain ⟨d, hrun, hd⟩ := Option.map_eq_some_iff.mp heval
  obtain ⟨hsubs, hlog⟩ := Prod.mk.inj hd
  have hmem : 0 ∈ d.world.stream.subscribers.map Subscriber.channel := by
    rw [hsubs]
    exact List.mem_cons_self
  obtain ⟨s, hs, hch⟩ := List.mem_map.mp hmem
  exact ⟨d, s, (System.stateAt_append le_rfl).trans ((System.stateAt_length _ _).trans hrun), hs, hch,
    hlog⟩

/-- What there is after a run with one payment that was marked published. -/
theorem exists_published (ls : List DispatchLabel) (n : ℕ)
    (hrows : ((dispatching oneStripe).exec (Dispatching.initial ∅) ls).map
      (fun d => (d.world.store.effects[receiptId]?.map fun e => (e.status, e.transitionId),
        d.world.store.log.map fun r => (r.id, r.sequence)))
      = some (some (.published, (Draws.ofNat 0).recordId.text), [((Draws.ofNat 0).recordId.text, 1)]))
    (hsubs : ((dispatching oneStripe).exec (Dispatching.initial ∅) ls).map
      (fun d => d.world.stream.subscribers.map fun sub =>
        (sub.channel, sub.machineFilter, sub.afterSequence, sub.receiverAlive, sub.sent.length))
      = some [(0, none, 0, true, n)]) :
    ∃ (d : Dispatching) (e : Effect) (r : TransitionRecord) (sub : Subscriber),
      (dispatching oneStripe).exec (Dispatching.initial ∅) ls = some d ∧
      (d.world.store.effects[receiptId]? = some e ∧ e.status = .published) ∧
      (d.world.store.log = [r] ∧ r.id = e.transitionId) ∧ sub ∈ d.world.stream.subscribers ∧
      sub.channel = 0 ∧ sub.receiverAlive = true ∧ sub.wants r = true ∧
      sub.afterSequence < r.sequence ∧ sub.sent.length = n := by
  obtain ⟨d, hrun, hd⟩ := Option.map_eq_some_iff.mp hrows
  obtain ⟨heffect, hlog⟩ := Prod.mk.inj hd
  obtain ⟨e, he, hfields⟩ := Option.map_eq_some_iff.mp heffect
  obtain ⟨hstatus, htxn⟩ := Prod.mk.inj hfields
  obtain ⟨r, hr, hrfields⟩ := List.map_eq_singleton_iff.mp hlog
  obtain ⟨hid, hseq⟩ := Prod.mk.inj hrfields
  rw [hrun, Option.map_some] at hsubs
  obtain ⟨sub, hsub, hsfields⟩ := List.map_eq_singleton_iff.mp (Option.some.inj hsubs)
  simp only [Prod.mk.injEq] at hsfields
  obtain ⟨hch, hfilter, hafter, halive, hsent⟩ := hsfields
  refine ⟨d, e, r, sub, hrun, ⟨he, hstatus⟩, ⟨hr, hid.trans htxn.symm⟩, ?_, hch, halive, ?_, ?_, hsent⟩
  · rw [hsub]
    exact List.mem_cons_self
  · rw [Subscriber.wants, hfilter]
  · rw [hafter, hseq]
    exact Nat.one_pos

/-- One dispatch that reads the effects when the log is where the pass found it. -/
theorem readsInTime_publish {cfg : Config} {guards : GuardRegistry} {ls : List DispatchLabel}
    (hpass : ∀ fault, DispatchLabel.pass fault ∈ ls → fault = none)
    (hread : ∀ fault, DispatchLabel.readPending fault ∉ ls)
    (hquiet : ∀ d since, (dispatching cfg).exec (Dispatching.initial guards) ls = some d →
      d.dispatcher = .reading since → d.world.store.sequence = since) :
    ReadsInTime cfg guards (ls ++ publish) := by
  refine ⟨fun fault hmem => ?_, fun n dn since hl hat hd e _ r hr _ => ?_⟩
  · obtain hmem | hmem := List.mem_append.mp hmem
    · exact hpass fault hmem
    · simp [publish] at hmem
  · -- The label is the first of the last two.
    obtain hlt | rfl | hgt := Nat.lt_trichotomy n ls.length
    · rw [List.getElem?_append_left hlt] at hl
      exact absurd (List.mem_of_getElem? hl) (hread none)
    · rw [System.stateAt_append le_rfl, System.stateAt_length] at hat
      obtain ⟨els, hels, -⟩ := exists_engineRun hat
      rw [← hquiet dn since hat hd]
      exact (keyInvariant_of_run hels).log.sequence_le_of_mem hr
    · rw [List.getElem?_append_right hgt.le] at hl
      obtain ⟨k, hk⟩ : ∃ k, n - ls.length = k + 1 := ⟨n - ls.length - 1, by omega⟩
      rw [hk] at hl
      cases k with
      | zero => exact nomatch hl
      | succ k => exact nomatch hl

theorem published_delivered_paidBeforePass :
    ∃ (d : Dispatching) (e : Effect) (r : TransitionRecord) (sub : Subscriber),
      (dispatching oneStripe).exec (Dispatching.initial ∅) paidBeforePass = some d ∧
      d.world.store.effects[receiptId]? = some e ∧ e.status = .published ∧
      r ∈ d.world.store.log ∧ r.id = e.transitionId ∧ sub ∈ d.world.stream.subscribers ∧
      ∃ change ∈ sub.sent, Publishes d.world.store r change := by
  obtain ⟨d, e, r, sub, hrun, ⟨he, hpub⟩, ⟨hlog, hid⟩, hsub, hch, halive, hwants, hafter, -⟩ :=
    exists_published paidBeforePass 1 (by decide) (by decide)
  have hr : r ∈ d.world.store.log := hlog ▸ List.mem_cons_self
  -- One call, with draws of its own.
  have hdraws : ∀ i c, Label.invoke i c ∈ others paidBeforePass → c.draws = Draws.ofNat i := by
    intro i c hmem
    obtain ⟨rfl, rfl⟩ : i = 0 ∧ c = payOrder 0 "o1" none := by
      simpa [mem_others, paidBeforePass, opening, payment, passFor, publish, steps] using hmem
    rfl
  have hbound : d.world.store.sequence < 2 ^ 64 - 1 := by
    obtain ⟨els, hels, -⟩ := exists_engineRun hrun
    rw [← (keyInvariant_of_run hels).log.length_log, hlog]
    show 1 < 2 ^ 64 - 1
    decide
  have htime : ReadsInTime oneStripe ∅ paidBeforePass := by
    refine readsInTime_publish ?_ ?_ fun d' since hrun' hd' => ?_
    · intro fault hmem
      simpa [opening, payment, passFor, steps] using hmem
    · intro fault hmem
      simp [opening, payment, passFor, steps] at hmem
    · -- the log has not grown since the pass began
      have hquiet : ((dispatching oneStripe).exec (Dispatching.initial ∅)
          (opening ++ payment ++ passFor 7)).map (fun d => (d.world.store.sequence,
            match d.dispatcher with | .reading since => since | _ => 0)) = some (1, 1) := by decide
      rw [hrun', Option.map_some, hd'] at hquiet
      obtain ⟨hseq, hsince⟩ := Prod.mk.inj (Option.some.inj hquiet)
      exact hseq.trans hsince.symm
  obtain ⟨dm, s, hm, hs, hsch, hempty⟩ := subscribed_opening (payment ++ passFor 7 ++ publish)
  refine ⟨d, e, r, sub, hrun, he, hpub, hr, hid, hsub, published_delivered
    ⟨hrun, FreshIds.of_ofNat hdraws, hbound⟩ htime receiptId e r he hpub hr hid sub hsub
    ⟨2, dm, s, hm, hs, hsch.trans hch.symm, ?_⟩ halive hwants hafter⟩
  rw [hempty]
  exact List.not_mem_nil

/-- **An effect is published, and its record has been sent to nobody**: the client subscribed before the
order was paid, is there to receive, and wants every record. -/
theorem published_undelivered :
    ∃ (d : Dispatching) (e : Effect) (r : TransitionRecord) (sub : Subscriber),
      (dispatching oneStripe).exec (Dispatching.initial ∅) paidAfterPass = some d ∧
      d.world.store.effects[receiptId]? = some e ∧ e.status = .published ∧
      r ∈ d.world.store.log ∧ r.id = e.transitionId ∧ sub ∈ d.world.stream.subscribers ∧
      (∃ m dm s, (dispatching oneStripe).stateAt (Dispatching.initial ∅) paidAfterPass m = some dm ∧
        s ∈ dm.world.stream.subscribers ∧ s.channel = sub.channel ∧ r ∉ dm.world.store.log) ∧
      sub.receiverAlive = true ∧ sub.wants r = true ∧ sub.afterSequence < r.sequence ∧
      sub.sent = [] := by
  obtain ⟨d, e, r, sub, hrun, ⟨he, hpub⟩, ⟨hlog, hid⟩, hsub, hch, halive, hwants, hafter, hsent⟩ :=
    exists_published paidAfterPass 0 (by decide) (by decide)
  obtain ⟨dm, s, hm, hs, hsch, hempty⟩ := subscribed_opening (passFor 5 ++ payment ++ publish)
  refine ⟨d, e, r, sub, hrun, he, hpub, hlog ▸ List.mem_cons_self, hid, hsub,
    ⟨2, dm, s, hm, hs, hsch.trans hch.symm, ?_⟩, halive, hwants, hafter,
    List.length_eq_zero_iff.mp hsent⟩
  rw [hempty]
  exact List.not_mem_nil

end StateMaster
