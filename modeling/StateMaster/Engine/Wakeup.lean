import StateMaster.Engine.Dispatcher
import StateMaster.Engine.ReadFaults

/-!
# The loop of the dispatcher

`Dispatcher::run` waits for one of three things: the shutdown signal, the notification a commit or a
subscription leaves behind, or its timer; whatever comes, it dispatches once, and after the shutdown
signal it returns. `service` runs this loop next to the engine.

The notification is a `tokio::sync::Notify`: it stores at most one permit, which the next wait takes.
A call notifies after its commit and before it drops its lock, `subscribe` after it has entered the
list; in between, the commit is there and the permit is not. The signal is a `watch` channel that is
only ever sent `true`, so waiting for a change is waiting for the flag.

* `Service.Quiet` — no permit is stored and nobody is about to leave one;
* `no_lost_wakeup` — when the loop waits and all is quiet, nobody waits for it: every subscriber has
  been sent everything that is due to it;
* `drained_at_shutdown` — when the loop has returned, every subscriber has been sent everything that
  was committed before the shutdown.
-/

open Framework Framework.Text

namespace StateMaster

/-- Where `Dispatcher::run` is. -/
inductive LoopState where
  /-- At the `select!`. -/
  | waiting
  /-- In `dispatch`, for the last time if it was the shutdown that woke it. -/
  | dispatching (last : Bool)
  /-- It has returned. -/
  | stopped
deriving DecidableEq, Repr

/-- The loop when `dispatch` has come to a place: back at rest, the dispatch is over. -/
def LoopState.after (last : Bool) : DispatcherState → LoopState
  | .resting => if last then .stopped else .waiting
  | _ => .dispatching last

/-- The engine and its dispatcher, with the loop around `dispatch`, the permit of `commit_notify`,
the calls that have committed and not notified yet, and the number of subscriptions that have not. -/
structure Service where
  inner : Dispatching
  loop : LoopState
  permit : Bool
  owed : ℕ → Bool
  subscribing : ℕ

def Service.initial (guards : GuardRegistry) : Service :=
  ⟨Dispatching.initial guards, .waiting, false, fun _ => false, 0⟩

/-- What the `select!` sees first. -/
inductive WakeCause where
  | shutdown
  | notified
  | timer
deriving DecidableEq, Repr

inductive ServiceLabel where
  /-- A step of the rest of the engine. -/
  | other (l : Label)
  /-- `notify_one` of call `i`, after its commit. -/
  | notify (i : ℕ)
  /-- `notify_one` of a call of `subscribe`. -/
  | notifySubscribed
  | wake (cause : WakeCause)
  /-- A step of `dispatch`. -/
  | dispatch (l : DispatchLabel)

/-- The step between the two places is a commit that went through. -/
def Pc.commits (pc pc' : Pc) : Bool :=
  match pc, pc' with
  | .planned _ _, .finished _ (.ok _) => true
  | _, _ => false

/-- The step adds a subscriber. -/
def Label.subscribes : Label → Bool
  | .stream (.subscribe _ _ _) => true
  | _ => false

namespace Service

/-- A call that owes a notification makes no step before it. -/
def mayStep (s : Service) : Label → Bool
  | .step i => !s.owed i
  | _ => true

/-- Who owes a notification after a step of the engine. -/
def owes (s : Service) (l : Label) (world : World) : ℕ → Bool :=
  match l with
  | .step i => Function.update s.owed i ((s.inner.world.calls i).commits (world.calls i))
  | _ => s.owed

def step (cfg : Config) (s : Service) : ServiceLabel → Option Service
  | .other l =>
    if s.mayStep l then
      (s.inner.step cfg (.other l)).map fun inner => { s with
        inner
        owed := s.owes l inner.world
        subscribing := s.subscribing + if l.subscribes then 1 else 0 }
    else none
  | .notify i =>
    if s.owed i then some { s with owed := Function.update s.owed i false, permit := true }
    else none
  | .notifySubscribed =>
    match s.subscribing with
    | 0 => none
    | n + 1 => some { s with subscribing := n, permit := true }
  | .wake cause =>
    match s.loop with
    | .waiting =>
      match cause with
      | .shutdown => if s.inner.world.shutdown then some { s with loop := .dispatching true } else none
      | .notified => if s.permit then some { s with loop := .dispatching false, permit := false } else none
      | .timer => some { s with loop := .dispatching false }
    | _ => none
  | .dispatch l =>
    match s.loop, l with
    | .dispatching _, .other _ => none
    | .dispatching last, l => (s.inner.step cfg l).map fun inner =>
        { s with inner, loop := .after last inner.dispatcher }
    | _, _ => none

/-- No permit is stored, and nobody is about to leave one. -/
structure Quiet (s : Service) : Prop where
  permit : s.permit = false
  owed : ∀ i, s.owed i = false
  subscribing : s.subscribing = 0

end Service

/-- The engine and the loop of its dispatcher as a system. -/
def service (cfg : Config) : System Service ServiceLabel where
  step := Service.step cfg

/-! ### What a step can do -/

/-- Everything a step can do. -/
inductive ServiceStep (cfg : Config) (s : Service) : ServiceLabel → Service → Prop where
  | other (l : Label) (world : World) (hl : l.byDispatcher = false)
      (hstep : (engine cfg).step s.inner.world l = some world) (hfree : s.mayStep l = true) :
      ServiceStep cfg s (.other l) { s with
        inner := { s.inner with world }
        owed := s.owes l world
        subscribing := s.subscribing + if l.subscribes then 1 else 0 }
  | notify (i : ℕ) (howed : s.owed i = true) :
      ServiceStep cfg s (.notify i) { s with owed := Function.update s.owed i false, permit := true }
  | notifySubscribed (n : ℕ) (hn : s.subscribing = n + 1) :
      ServiceStep cfg s .notifySubscribed { s with subscribing := n, permit := true }
  | wakeShutdown (hloop : s.loop = .waiting) (hdown : s.inner.world.shutdown = true) :
      ServiceStep cfg s (.wake .shutdown) { s with loop := .dispatching true }
  | wakeNotified (hloop : s.loop = .waiting) (hpermit : s.permit = true) :
      ServiceStep cfg s (.wake .notified) { s with loop := .dispatching false, permit := false }
  | wakeTimer (hloop : s.loop = .waiting) :
      ServiceStep cfg s (.wake .timer) { s with loop := .dispatching false }
  | dispatch (l : DispatchLabel) (inner : Dispatching) (last : Bool)
      (hloop : s.loop = .dispatching last) (hl : ∀ el, l ≠ .other el)
      (hstep : (dispatching cfg).step s.inner l = some inner) :
      ServiceStep cfg s (.dispatch l) { s with inner, loop := .after last inner.dispatcher }

theorem serviceStep_sound {cfg : Config} {s s' : Service} {l : ServiceLabel}
    (h : (service cfg).step s l = some s') : ServiceStep cfg s l s' := by
  change Service.step cfg s l = some s' at h
  cases l with
  | other l =>
    simp only [Service.step, Option.ite_none_right_eq_some, Option.map_eq_some_iff] at h
    obtain ⟨hfree, inner, hstep, rfl⟩ := h
    simp only [Dispatching.step, Option.ite_none_left_eq_some, Option.map_eq_some_iff] at hstep
    obtain ⟨hl, world, hworld, rfl⟩ := hstep
    exact .other l world (Bool.eq_false_iff.mpr hl) hworld hfree
  | notify i =>
    simp only [Service.step, Option.ite_none_right_eq_some] at h
    obtain ⟨howed, hs'⟩ := h
    obtain rfl := Option.some.inj hs'
    exact .notify i howed
  | notifySubscribed =>
    cases hn : s.subscribing with
    | zero =>
      simp only [Service.step, hn] at h
      exact absurd h (by simp)
    | succ n =>
      simp only [Service.step, hn] at h
      obtain rfl := Option.some.inj h
      exact .notifySubscribed n hn
  | wake cause =>
    cases hloop : s.loop with
    | waiting =>
      simp only [Service.step, hloop] at h
      cases cause with
      | shutdown =>
        obtain ⟨hdown, hs'⟩ := Option.ite_none_right_eq_some.mp h
        obtain rfl := Option.some.inj hs'
        exact .wakeShutdown hloop hdown
      | notified =>
        obtain ⟨hpermit, hs'⟩ := Option.ite_none_right_eq_some.mp h
        obtain rfl := Option.some.inj hs'
        exact .wakeNotified hloop hpermit
      | timer =>
        obtain rfl := Option.some.inj h
        exact .wakeTimer hloop
    | dispatching last =>
      simp only [Service.step, hloop] at h
      exact absurd h (by simp)
    | stopped =>
      simp only [Service.step, hloop] at h
      exact absurd h (by simp)
  | dispatch l =>
    cases hloop : s.loop with
    | dispatching last =>
      cases l with
      | other el =>
        simp only [Service.step, hloop] at h
        exact absurd h (by simp)
      | pass fault =>
        simp only [Service.step, hloop, Option.map_eq_some_iff] at h
        obtain ⟨inner, hstep, rfl⟩ := h
        exact .dispatch _ inner last hloop (fun _ => DispatchLabel.noConfusion) hstep
      | readPending fault =>
        simp only [Service.step, hloop, Option.map_eq_some_iff] at h
        obtain ⟨inner, hstep, rfl⟩ := h
        exact .dispatch _ inner last hloop (fun _ => DispatchLabel.noConfusion) hstep
      | mark fault =>
        simp only [Service.step, hloop, Option.map_eq_some_iff] at h
        obtain ⟨inner, hstep, rfl⟩ := h
        exact .dispatch _ inner last hloop (fun _ => DispatchLabel.noConfusion) hstep
    | waiting =>
      simp only [Service.step, hloop] at h
      exact absurd h (by simp)
    | stopped =>
      simp only [Service.step, hloop] at h
      exact absurd h (by simp)

/-! ### The run inside -/

/-- The step of the dispatching engine a step of the loop makes, if any. -/
def ServiceLabel.inner : ServiceLabel → Option DispatchLabel
  | .other l => some (.other l)
  | .dispatch l => some l
  | _ => none

/-- A run of the engine and the loop of its dispatcher from an empty database in which no read of a
pass fails, the ids drawn are fresh, and the counter stays below the last number of `u64`. -/
structure ServiceRun (cfg : Config) (guards : GuardRegistry) (ls : List ServiceLabel) (s : Service) :
    Prop where
  run : (service cfg).exec (Service.initial guards) ls = some s
  reads : ∀ fault, ServiceLabel.dispatch (.pass fault) ∈ ls → fault = none
  fresh : FreshIds (others (ls.filterMap ServiceLabel.inner))
  bound : s.inner.world.store.sequence < 2 ^ 64 - 1

section Runs

variable {cfg : Config} {guards : GuardRegistry} {ls : List ServiceLabel} {s s' : Service}
  {l : ServiceLabel}

/-- What a step does to the engine and its dispatcher. -/
theorem ServiceStep.inner_cases (h : ServiceStep cfg s l s') :
    (∃ dl, l.inner = some dl ∧ (dispatching cfg).step s.inner dl = some s'.inner) ∨
      l.inner = none ∧ s'.inner = s.inner := by
  cases h with
  | other el world hl hstep hfree =>
    refine Or.inl ⟨.other el, rfl, ?_⟩
    have hworld : s.inner.world.step cfg el = some world := hstep
    simp only [dispatching, Dispatching.step, hl, Bool.false_eq_true, if_false, hworld, Option.map_some]
  | dispatch dl inner last hloop hl hstep => exact Or.inl ⟨dl, rfl, hstep⟩
  | _ => exact Or.inr ⟨rfl, rfl⟩

/-- **The dispatching engine inside.** -/
theorem exec_inner (hrun : (service cfg).exec (Service.initial guards) ls = some s) :
    (dispatching cfg).exec (Dispatching.initial guards) (ls.filterMap ServiceLabel.inner)
      = some s.inner := by
  refine System.exec_induction_labels (I := fun ls s => (dispatching cfg).exec
    (Dispatching.initial guards) (ls.filterMap ServiceLabel.inner) = some s.inner) rfl ?_ hrun
  intro ls s l s' _ ih hstep
  rw [List.filterMap_append]
  obtain ⟨dl, hl, hdl⟩ | ⟨hl, hsame⟩ := (serviceStep_sound hstep).inner_cases
  · rw [List.filterMap_cons_some hl]
    exact System.exec_concat_of_step ih hdl
  · rw [List.filterMap_cons_none hl, List.filterMap_nil, List.append_nil, hsame]
    exact ih

theorem ServiceRun.dispatchRun (h : ServiceRun cfg guards ls s) :
    DispatchRun cfg guards (ls.filterMap ServiceLabel.inner) s.inner :=
  ⟨exec_inner h.run, h.fresh, h.bound⟩

theorem ServiceRun.streamRun (h : ServiceRun cfg guards ls s) :
    ∃ els, StreamRun cfg guards els s.inner.world := by
  refine h.dispatchRun.streamRun fun fault hmem => ?_
  obtain ⟨sl, hsl, heq⟩ := List.mem_filterMap.mp hmem
  cases sl with
  | dispatch dl =>
    obtain rfl := Option.some.inj heq
    exact h.reads fault hsl
  | other el => exact DispatchLabel.noConfusion (Option.some.inj heq)
  | notify i => exact absurd heq (by simp [ServiceLabel.inner])
  | notifySubscribed => exact absurd heq (by simp [ServiceLabel.inner])
  | wake cause => exact absurd heq (by simp [ServiceLabel.inner])

theorem ServiceStep.sequence_le (h : ServiceStep cfg s l s') :
    s.inner.world.store.sequence ≤ s'.inner.world.store.sequence := by
  obtain ⟨dl, -, hdl⟩ | ⟨-, hsame⟩ := h.inner_cases
  · obtain ⟨el, hel, -⟩ | hsame := (dispatchStep_sound hdl).world_cases
    · exact (step_sound hel).sequence_le
    · rw [hsame]
  · rw [hsame]

/-- The run before its last step is one. -/
theorem ServiceRun.before (h : ServiceRun cfg guards (ls ++ [l]) s') (hstep : ServiceStep cfg s l s')
    (hrun : (service cfg).exec (Service.initial guards) ls = some s) : ServiceRun cfg guards ls s := by
  refine ⟨hrun, fun fault hmem => h.reads fault (List.mem_append_left _ hmem), h.fresh.mono ?_,
    hstep.sequence_le.trans_lt h.bound⟩
  intro el hel
  rw [mem_others, List.filterMap_append] at *
  exact List.mem_append_left _ hel

/-- What holds initially and survives the steps of such runs holds at their ends. -/
theorem ServiceRun.induction {I : Service → Prop} (h : ServiceRun cfg guards ls s)
    (hinit : I (Service.initial guards))
    (hstep : ∀ s l s' els, StreamRun cfg guards els s.inner.world → I s → ServiceStep cfg s l s' →
      (∀ fault, l = .dispatch (.pass fault) → fault = none) → I s') : I s := by
  refine System.exec_induction_labels (I := fun ls s => ServiceRun cfg guards ls s → I s)
    (fun _ => hinit) ?_ h.run h
  intro ls s l s' hrun ih hst h'
  have hst := serviceStep_sound hst
  have hbefore := h'.before hst hrun
  obtain ⟨els, hels⟩ := hbefore.streamRun
  refine hstep s l s' els hels (ih hbefore) hst fun fault heq => ?_
  exact h'.reads fault (heq ▸ List.mem_append_right _ List.mem_cons_self)

end Runs

/-! ### Nobody is forgotten -/

section Caught

variable {R : TransitionRecord → ChangeRecord → Prop} {S : Store} {st st' : Stream}

/-- Everybody in the list is at the end of the log. -/
def EveryoneAtEnd (S : Store) (st : Stream) : Prop := ∀ sub ∈ st.subscribers, AtEnd S sub

/-- Nobody gets behind by leaving. -/
theorem EveryoneAtEnd.step (h : EveryoneAtEnd S st) {l : StreamLabel}
    (hl : (Label.stream l).subscribes = false) (hpass : ∀ fault, l ≠ .pass fault)
    (hstep : st.step S l = some st') : EveryoneAtEnd S st' := by
  intro sub hsub
  cases l with
  | subscribe id f after => exact absurd hl (by simp [Label.subscribes])
  | unsubscribe id =>
    simp only [Stream.step, Option.ite_none_left_eq_some] at hstep
    obtain rfl := Option.some.inj hstep.2
    exact h sub (List.mem_filter.mp hsub).1
  | dropReceiver channel =>
    obtain rfl := Option.some.inj hstep
    obtain ⟨old, hold, rfl⟩ := List.mem_map.mp hsub
    exact fun hin halive => h old hold hin (Bool.and_eq_true_iff.mp halive).1
  | pass fault => exact absurd rfl (hpass fault)

/-- A pass stays caught up while nobody joins and the log stands still. -/
theorem CaughtUp.step_of_not_subscribes (h : CaughtUp S st) (hinv : StreamInvariant R S st)
    (hS : LogInvariant S) (hbound : S.sequence < 2 ^ 64 - 1) {l : StreamLabel}
    (hl : (Label.stream l).subscribes = false) (hfault : ∀ f, l = .pass f → f = none)
    (hstep : st.step S l = some st') : CaughtUp S st' := by
  by_cases hpass : ∃ fault, l = .pass fault
  · obtain ⟨fault, rfl⟩ := hpass
    obtain rfl := hfault fault rfl
    exact h.passStep hinv hS hbound (passStep_sound hstep)
  · have hother : ∀ fault, l ≠ .pass fault := fun fault heq => hpass ⟨fault, heq⟩
    by_cases hscan : st.pass.scanning = true
    · exact h.step hinv hS hbound hscan hfault hstep
    · -- before the scan there is nothing to keep, after it everybody is at the end
      have hsame : st'.pass = st.pass := by
        cases l with
        | subscribe id f after => exact absurd hl (by simp [Label.subscribes])
        | unsubscribe id =>
          simp only [Stream.step, Option.ite_none_left_eq_some] at hstep
          rw [← Option.some.inj hstep.2]
        | dropReceiver channel => rw [← Option.some.inj hstep]
        | pass fault => exact absurd rfl (hother fault)
      unfold CaughtUp LeftBehind at h ⊢
      rw [hsame]
      cases hp : st.pass with
      | idle result => trivial
      | prune delivered dead =>
        rw [hp] at h
        exact EveryoneAtEnd.step h hl hother hstep
      | _ => exact absurd (by rw [hp]; rfl) hscan

theorem EveryoneAtEnd.congr {S' : Store} (h : EveryoneAtEnd S st) (hlog : S'.log = S.log) :
    EveryoneAtEnd S' st := by
  unfold EveryoneAtEnd AtEnd at h ⊢
  rw [hlog]
  exact h

end Caught

/-- **A step of the engine that takes a sequence number is a commit**, and the call that made it owes a
notification. -/
theorem Step.log_eq_or_commits {cfg : Config} {w w' : World} {l : Label} (h : Step cfg w l w') :
    w'.store.log = w.store.log ∨
      ∃ i, l = .step i ∧ (w.calls i).commits (w'.calls i) = true := by
  cases h with
  | call i w' h =>
    cases h with
    | commit c plan res S' hpc hcommit =>
      refine Or.inr ⟨i, rfl, ?_⟩
      rw [World.setPc_calls_self, hpc]
      rfl
    | _ => exact Or.inl rfl
  | define definition hvalid => exact Or.inl rfl
  | mark effectId status effect heffect => exact Or.inl rfl
  | _ => exact Or.inl rfl

/-! ### What a dispatch achieves -/

/-- What holds inside a dispatch: nothing before its pass, `mid` during it, `fin` after it. -/
def Progress (mid fin : World → Prop) (d : Dispatching) : Prop :=
  match d.dispatcher with
  | .resting => True
  | .passing _ => mid d.world
  | _ => fin d.world

/-- What holds after a step of a dispatch: `fin` also when the step was the last one. -/
def Achieved (mid fin : World → Prop) (d : Dispatching) : Prop :=
  match d.dispatcher with
  | .passing _ => mid d.world
  | _ => fin d.world

/-- What makes a dispatch achieve `fin` by way of `mid`: `mid` holds of a pass that has not begun and is
kept by its steps, it leaves `fin` behind, and the marks keep that. -/
structure DispatchRules (cfg : Config) (w : World) (mid fin : World → Prop) : Prop where
  start : (∃ result, w.stream.pass = .idle result) → mid w
  pass : ∀ world, mid w → Step cfg w (.stream (.pass none)) world → mid world
  finish : ∀ world result, mid w → Step cfg w (.stream (.pass none)) world →
    world.stream.pass = .idle result → fin world
  mark : ∀ id status fault world, fin w → Step cfg w (.markEffect id status fault) world → fin world

section Progress

variable {cfg : Config} {mid fin : World → Prop} {d d' : Dispatching}

theorem Achieved.progress (h : Achieved mid fin d) : Progress mid fin d := by
  unfold Achieved at h
  unfold Progress
  cases hpos : d.dispatcher with
  | resting => trivial
  | passing since => rw [hpos] at h; exact h
  | reading since => rw [hpos] at h; exact h
  | marking since effect rest => rw [hpos] at h; exact h
  | failing since effect rest => rw [hpos] at h; exact h

/-- Past the pass. -/
theorem achieved_of_fin {world : World} {place : DispatcherState}
    (hplace : ∀ since, place ≠ .passing since) (h : fin world) : Achieved mid fin ⟨world, place⟩ := by
  unfold Achieved
  cases place with
  | passing since => exact absurd rfl (hplace since)
  | _ => exact h

theorem Progress.pastPass (h : Progress mid fin d) (hpass : ∀ since, d.dispatcher ≠ .passing since)
    (hrest : d.dispatcher ≠ .resting) : fin d.world := by
  unfold Progress at h
  cases hpos : d.dispatcher with
  | resting => exact absurd hpos hrest
  | passing since => exact absurd hpos (hpass since)
  | reading since => rw [hpos] at h; exact h
  | marking since effect rest => rw [hpos] at h; exact h
  | failing since effect rest => rw [hpos] at h; exact h

/-- What others do inside a dispatch. -/
theorem Progress.other (h : Progress mid fin d) {world : World} (hmid : mid d.world → mid world)
    (hfin : fin d.world → fin world) : Progress mid fin { d with world } := by
  unfold Progress at h ⊢
  cases hpos : d.dispatcher with
  | resting => trivial
  | passing since => rw [hpos] at h; exact hmid h
  | reading since => rw [hpos] at h; exact hfin h
  | marking since effect rest => rw [hpos] at h; exact hfin h
  | failing since effect rest => rw [hpos] at h; exact hfin h

theorem DispatcherState.next_ne_passing (since : ℕ) (effects : List Effect) (since' : ℕ) :
    DispatcherState.next since effects ≠ .passing since' := by
  cases effects with
  | nil => exact DispatcherState.noConfusion
  | cons e rest => exact DispatcherState.noConfusion

/-- **A step of a dispatch**, whatever it is to achieve. -/
theorem Progress.step (h : Progress mid fin d) (hrules : DispatchRules cfg d.world mid fin)
    (hidle : d.dispatcher = .resting → ∃ result, d.world.stream.pass = .idle result)
    {dl : DispatchLabel} (hdl : ∀ el, dl ≠ .other el)
    (hread : ∀ fault, dl = .pass fault → fault = none) (hstep : DispatchStep cfg d dl d') :
    Achieved mid fin d' := by
  have hmid : ∀ since, d.dispatcher = .passing since → mid d.world := by
    intro since hpos
    unfold Progress at h
    rwa [hpos] at h
  cases hstep with
  | other el world hl hel => exact absurd rfl (hdl el)
  | begin fault world hpos hel =>
    obtain rfl := hread fault rfl
    exact hrules.pass world (hrules.start (hidle hpos)) (step_sound hel)
  | scan fault since world hpos hel hrunning =>
    obtain rfl := hread fault rfl
    exact hrules.pass world (hmid since hpos) (step_sound hel)
  | finish fault since world result hpos hel hend =>
    obtain rfl := hread fault rfl
    exact hrules.finish world result (hmid since hpos) (step_sound hel) hend
  -- past the pass the stream stands still; only a mark touches the store
  | readPending since hpos =>
    exact achieved_of_fin (DispatcherState.next_ne_passing _ _) (h.pastPass (by simp [hpos]) (by simp [hpos]))
  | readFails fault since hpos =>
    exact achieved_of_fin (fun _ => DispatcherState.noConfusion) (h.pastPass (by simp [hpos]) (by simp [hpos]))
  | mark since effect stored rest hpos hstored hel =>
    exact achieved_of_fin (DispatcherState.next_ne_passing _ _)
      (hrules.mark _ _ _ _ (h.pastPass (by simp [hpos]) (by simp [hpos])) (step_sound hel))
  | markFails fault since effect rest hpos =>
    exact achieved_of_fin (fun _ => DispatcherState.noConfusion) (h.pastPass (by simp [hpos]) (by simp [hpos]))
  | giveUp fault since effect rest world hpos hel =>
    exact achieved_of_fin (DispatcherState.next_ne_passing _ _)
      (hrules.mark _ _ _ _ (h.pastPass (by simp [hpos]) (by simp [hpos])) (step_sound hel))

end Progress

/-- A step of a pass, as one of the stream. -/
theorem Step.passStep {cfg : Config} {w world : World} (h : Step cfg w (.stream (.pass none)) world) :
    world.store = w.store ∧ PassStep w.store w.stream world.stream := by
  cases h with
  | stream _ st hst => exact ⟨rfl, passStep_sound hst⟩

/-- A mark touches neither the log nor the stream. -/
theorem Step.mark_frame {cfg : Config} {w world : World} {id : String} {status : EffectStatus}
    {fault : Option Fault} (h : Step cfg w (.markEffect id status fault) world) :
    world.store.log = w.store.log ∧ world.stream = w.stream := by
  cases h with
  | mark _ _ stored hstored => exact ⟨(Store.marked_keepsLog status).log, rfl⟩
  | markError => exact ⟨rfl, rfl⟩

/-! ### Where the loop is -/

/-- Outside a dispatch the dispatcher is at rest, and the pass runs only while the dispatcher says
so. -/
structure PlaceFact (s : Service) : Prop where
  resting : (∀ last, s.loop ≠ .dispatching last) → s.inner.dispatcher = .resting
  idle : (∀ since, s.inner.dispatcher ≠ .passing since) →
    ∃ result, s.inner.world.stream.pass = .idle result

section Wakeup

variable {cfg : Config} {guards : GuardRegistry} {els : List Label} {s s' : Service}
  {l : ServiceLabel}

theorem LoopState.after_resting {last : Bool} {place : DispatcherState}
    (h : ∀ b, LoopState.after last place ≠ .dispatching b) : place = .resting := by
  cases place with
  | resting => rfl
  | _ => exact absurd rfl (h last)

theorem PlaceFact.step (h : PlaceFact s) (hstep : ServiceStep cfg s l s') : PlaceFact s' := by
  cases hstep with
  | other el world hl hel hfree =>
    refine ⟨h.resting, fun hd => ?_⟩
    change ∃ result, world.stream.pass = .idle result
    rw [pass_of_other (step_sound hel) hl]
    exact h.idle hd
  | notify i howed => exact ⟨h.resting, h.idle⟩
  | notifySubscribed n hn => exact ⟨h.resting, h.idle⟩
  | wakeShutdown hloop hdown => exact ⟨fun hl => absurd rfl (hl true), h.idle⟩
  | wakeNotified hloop hpermit => exact ⟨fun hl => absurd rfl (hl false), h.idle⟩
  | wakeTimer hloop => exact ⟨fun hl => absurd rfl (hl false), h.idle⟩
  | dispatch dl inner last hloop hdl hstep =>
    refine ⟨fun hl => LoopState.after_resting hl, fun hd => ?_⟩
    have hstay : (∀ since, s.inner.dispatcher ≠ .passing since) →
        inner.world.stream = s.inner.world.stream →
        ∃ result, inner.world.stream.pass = .idle result := by
      intro hne hstream
      rw [hstream]
      exact h.idle hne
    cases dispatchStep_sound hstep with
    | other el world hl hel => exact absurd rfl (hdl el)
    | begin fault world hpos hel => exact absurd rfl (hd _)
    | scan fault since world hpos hel hrunning => exact absurd rfl (hd since)
    | finish fault since world result hpos hel hidle => exact ⟨result, hidle⟩
    | readPending since hpos => exact hstay (by simp [hpos]) rfl
    | readFails fault since hpos => exact hstay (by simp [hpos]) rfl
    | mark since effect stored rest hpos hstored hel => exact hstay (by simp [hpos]) rfl
    | markFails fault since effect rest hpos => exact hstay (by simp [hpos]) rfl
    | giveUp fault since effect rest world hpos hel =>
      exact hstay (by simp [hpos]) (step_sound hel).mark_frame.2

/-! ### No wake-up is lost -/

/-- What is known of the subscribers while all is quiet: they are at the end of the log, or a dispatch
that will get them there is on its way. -/
def CaughtFact (s : Service) : Prop :=
  match s.loop with
  | .dispatching _ => Progress (fun w => CaughtUp w.store w.stream)
      (fun w => EveryoneAtEnd w.store w.stream) s.inner
  | _ => EveryoneAtEnd s.inner.world.store s.inner.world.stream

structure WakeInvariant (s : Service) : Prop where
  place : PlaceFact s
  caught : s.Quiet → CaughtFact s

/-- If all is quiet after a step of the engine, it was so before, nobody joined and the log is the
same. -/
theorem Service.Quiet.before {el : Label} {world : World}
    (h : Service.Quiet { s with
      inner := { s.inner with world }
      owed := s.owes el world
      subscribing := s.subscribing + if el.subscribes then 1 else 0 })
    (hfree : s.mayStep el = true) (hstep : Step cfg s.inner.world el world) :
    s.Quiet ∧ el.subscribes = false ∧ world.store.log = s.inner.world.store.log := by
  have hcount : s.subscribing + (if el.subscribes then 1 else 0) = 0 := h.subscribing
  have howed : ∀ i, s.owes el world i = false := h.owed
  refine ⟨⟨h.permit, fun j => ?_, by omega⟩, ?_, ?_⟩
  · cases el with
    | step i =>
      by_cases hij : j = i
      · subst hij
        simpa [Service.mayStep] using hfree
      · have hj := howed j
        rwa [Service.owes, Function.update_of_ne hij] at hj
    | _ => exact howed j
  · by_contra hsub
    rw [Bool.not_eq_false] at hsub
    rw [if_pos hsub] at hcount
    exact absurd hcount (by omega)
  · obtain hlog | ⟨i, rfl, hcommits⟩ := hstep.log_eq_or_commits
    · exact hlog
    · -- whoever commits owes a notification
      have hi := howed i
      rw [Service.owes, Function.update_self, hcommits] at hi
      exact absurd hi (by decide)

/-- What is caught up stays so while the log stands still and nobody joins. -/
theorem caught_other (hels : StreamRun cfg guards els s.inner.world) {el : Label} {world : World}
    (hstep : Step cfg s.inner.world el world) (hl : el.byDispatcher = false)
    (hsub : el.subscribes = false) (hlog : world.store.log = s.inner.world.store.log) :
    (CaughtUp s.inner.world.store s.inner.world.stream → CaughtUp world.store world.stream) ∧
    (EveryoneAtEnd s.inner.world.store s.inner.world.stream →
      EveryoneAtEnd world.store world.stream) := by
  obtain ⟨sl, st, rfl, hsl, rfl⟩ | hsame := hstep.stream_cases
  · have hpass : ∀ fault, sl ≠ .pass fault := by
      rintro fault rfl
      exact absurd hl (by simp [Label.byDispatcher])
    refine ⟨fun h => ?_, fun h => h.step hsub hpass hsl⟩
    exact h.step_of_not_subscribes (streamInvariant_of_run hels).1 hels.log hels.bound hsub
      (fun f hf => absurd hf (hpass f)) hsl
  · rw [hsame]
    exact ⟨fun h => h.congr hlog, fun h => h.congr hlog⟩

/-- A dispatch brings everyone to the end of a log that stands still. -/
theorem StreamRun.caughtRules {w : World} (hels : StreamRun cfg guards els w) :
    DispatchRules cfg w (fun w => CaughtUp w.store w.stream)
      (fun w => EveryoneAtEnd w.store w.stream) where
  start hidle := by
    obtain ⟨result, hidle⟩ := hidle
    unfold CaughtUp LeftBehind
    rw [hidle]
    trivial
  pass world h hstep := by
    obtain ⟨hstore, hpass⟩ := hstep.passStep
    rw [hstore]
    exact CaughtUp.passStep h (streamInvariant_of_run hels).1 hels.log hels.bound hpass
  finish world result h hstep hidle := by
    obtain ⟨hstore, hpass⟩ := hstep.passStep
    obtain ⟨delivered, dead, hp, -, hsub⟩ := hpass.last hidle
    unfold CaughtUp LeftBehind at h
    rw [hp] at h
    rw [hstore]
    exact fun sub hmem => h sub (hsub hmem)
  mark id status fault world h hstep := by
    obtain ⟨hlog, hstream⟩ := hstep.mark_frame
    rw [hstream]
    exact EveryoneAtEnd.congr h hlog

theorem CaughtFact.of_dispatching {last : Bool} (h : CaughtFact s) (hloop : s.loop = .dispatching last) :
    Progress (fun w => CaughtUp w.store w.stream) (fun w => EveryoneAtEnd w.store w.stream)
      s.inner := by
  unfold CaughtFact at h
  rwa [hloop] at h

theorem WakeInvariant.step (hels : StreamRun cfg guards els s.inner.world) (h : WakeInvariant s)
    (hstep : ServiceStep cfg s l s') (hread : ∀ fault, l = .dispatch (.pass fault) → fault = none) :
    WakeInvariant s' := by
  refine ⟨h.place.step hstep, fun hquiet => ?_⟩
  -- a dispatch that has just been woken has its pass before it
  have hwoken : s.loop = .waiting → Progress (fun w => CaughtUp w.store w.stream)
      (fun w => EveryoneAtEnd w.store w.stream) s.inner := by
    intro hloop
    unfold Progress
    rw [h.place.resting (by simp [hloop])]
    trivial
  cases hstep with
  | other el world hl hel hfree =>
    obtain ⟨hbefore, hsub, hlog⟩ := hquiet.before hfree (step_sound hel)
    obtain ⟨hup, hend⟩ := caught_other hels (step_sound hel) hl hsub hlog
    have hcaught := h.caught hbefore
    unfold CaughtFact at hcaught ⊢
    cases hloop : s.loop with
    | waiting => rw [hloop] at hcaught; exact hend hcaught
    | dispatching last => rw [hloop] at hcaught; exact hcaught.other hup hend
    | stopped => rw [hloop] at hcaught; exact hend hcaught
  | notify i howed => exact absurd hquiet.permit (by simp)
  | notifySubscribed n hn => exact absurd hquiet.permit (by simp)
  | wakeShutdown hloop hdown => exact hwoken hloop
  | wakeNotified hloop hpermit => exact hwoken hloop
  | wakeTimer hloop => exact hwoken hloop
  | dispatch dl inner last hloop hdl hstep =>
    have hcaught := (h.caught ⟨hquiet.permit, hquiet.owed, hquiet.subscribing⟩).of_dispatching hloop
    have hdone := hcaught.step hels.caughtRules (fun hpos => h.place.idle (by simp [hpos])) hdl
      (fun fault heq => hread fault (heq ▸ rfl)) (dispatchStep_sound hstep)
    unfold CaughtFact
    -- back at rest the dispatch is over, anywhere else it goes on
    cases hpos : inner.dispatcher with
    | resting =>
      unfold Achieved at hdone
      rw [hpos] at hdone
      cases last with
      | false => exact hdone
      | true => exact hdone
    | _ => exact hdone.progress

theorem wakeInvariant_of_run {ls : List ServiceLabel} (h : ServiceRun cfg guards ls s) :
    WakeInvariant s := by
  refine h.induction ⟨⟨fun _ => rfl, fun _ => ⟨none, rfl⟩⟩, fun _ => ?_⟩
    fun s l s' els hels ih hstep hread => ih.step hels hstep hread
  exact fun sub hsub => absurd hsub List.not_mem_nil

/-- **No wake-up is lost.** Whenever the loop of the dispatcher is not in a dispatch, no permit is
stored and nobody is about to leave one, every subscriber whose receiver is there has been sent all
that is due to it in the log, with its effects: nothing waits for the next timer. -/
theorem no_lost_wakeup {ls : List ServiceLabel} (h : ServiceRun cfg guards ls s)
    (hloop : ∀ last, s.loop ≠ .dispatching last) (hquiet : s.Quiet) :
    ∀ sub ∈ s.inner.world.stream.subscribers, sub.afterSequence < 2 ^ 64 - 1 →
      sub.receiverAlive = true →
        sub.deliveredThrough = max sub.afterSequence s.inner.world.store.sequence ∧
        List.Forall₂ (Publishes s.inner.world.store)
          (s.inner.world.store.due sub s.inner.world.store.sequence) sub.sent := by
  intro sub hsub hin halive
  obtain ⟨els, hels⟩ := h.streamRun
  have hinv := wakeInvariant_of_run h
  have hcaught := hinv.caught hquiet
  have hend : EveryoneAtEnd s.inner.world.store s.inner.world.stream := by
    unfold CaughtFact at hcaught
    cases hl : s.loop with
    | waiting => rw [hl] at hcaught; exact hcaught
    | dispatching last => exact absurd hl (hloop last)
    | stopped => rw [hl] at hcaught; exact hcaught
  have hdelivered := hend sub hsub hin halive
  rw [hels.log.length_log] at hdelivered
  refine ⟨hdelivered, ?_⟩
  obtain ⟨idx, hidx⟩ := List.getElem?_of_mem hsub
  obtain ⟨result, hidle⟩ := hinv.place.idle (by simp [hinv.place.resting hloop])
  have hsent := ((streamInvariant_of_run hels).1.serves idx sub hidx hin).sent halive
  rw [← hels.log.due_eq, hidle] at hsent
  change List.Forall₂ _ (s.inner.world.store.due sub sub.deliveredThrough) _ at hsent
  -- a cursor at the end, or beyond it, leaves nothing out
  have hsame : s.inner.world.store.due sub sub.deliveredThrough
      = s.inner.world.store.due sub s.inner.world.store.sequence := by
    refine List.filter_congr fun r hr => ?_
    have hle := hels.log.sequence_le_of_mem hr
    rw [decide_eq_true hle, decide_eq_true (by omega : r.sequence ≤ sub.deliveredThrough)]
  rwa [hsame] at hsent

/-! ### The last dispatch -/

/-- What the last dispatch has done for the subscribers with a channel below `ch`: they have been served
up to `N`, or will be when it is over. -/
structure DrainFact (ch N : ℕ) (s : Service) : Prop where
  channels : ch ≤ s.inner.world.stream.channels
  sequence : N ≤ s.inner.world.store.sequence
  last : s.loop = .dispatching true →
    Progress (fun w => LeftBehind (ServedTo ch N) (EndsPast N) w.stream)
      (fun w => ∀ sub ∈ w.stream.subscribers, ServedTo ch N sub) s.inner
  stopped : s.loop = .stopped → ∀ sub ∈ s.inner.world.stream.subscribers, ServedTo ch N sub

/-- A dispatch serves those who were there up to what was there. -/
theorem StreamRun.drainRules {w : World} {ch N : ℕ} (hels : StreamRun cfg guards els w)
    (hch : ch ≤ w.stream.channels) (hN : N ≤ w.store.sequence) :
    DispatchRules cfg w (fun w => LeftBehind (ServedTo ch N) (EndsPast N) w.stream)
      (fun w => ∀ sub ∈ w.stream.subscribers, ServedTo ch N sub) where
  start hidle := by
    obtain ⟨result, hidle⟩ := hidle
    unfold LeftBehind
    rw [hidle]
    trivial
  pass world h hstep := by
    refine leftBehind_step hels hstep (fun fault heq => ?_) hch hN h
    cases heq
    rfl
  finish world result h hstep hidle := by
    obtain ⟨-, hpass⟩ := hstep.passStep
    obtain ⟨delivered, dead, hp, -, hsub⟩ := hpass.last hidle
    unfold LeftBehind at h
    rw [hp] at h
    exact fun sub hmem => h sub (hsub hmem)
  mark id status fault world h hstep := by
    rw [hstep.mark_frame.2]
    exact h

theorem ServiceStep.channels_le (h : ServiceStep cfg s l s') :
    s.inner.world.stream.channels ≤ s'.inner.world.stream.channels := by
  obtain ⟨dl, -, hdl⟩ | ⟨-, hsame⟩ := h.inner_cases
  · obtain ⟨el, hel, -⟩ | hsame := (dispatchStep_sound hdl).world_cases
    · obtain ⟨sl, st, -, hst, hw⟩ | hstream := (step_sound hel).stream_cases
      · rw [hw]
        exact Stream.step_channels_le hst
      · rw [hstream]
    · rw [hsame]
  · rw [hsame]

theorem DrainFact.step {ch N : ℕ} (hels : StreamRun cfg guards els s.inner.world)
    (hplace : PlaceFact s) (h : DrainFact ch N s) (hstep : ServiceStep cfg s l s')
    (hread : ∀ fault, l = .dispatch (.pass fault) → fault = none) : DrainFact ch N s' := by
  refine ⟨h.channels.trans hstep.channels_le, h.sequence.trans hstep.sequence_le, ?_, ?_⟩
  · intro hlast
    cases hstep with
    | other el world hl hel hfree =>
      have hfault : ∀ fault, el = .stream (.pass fault) → fault = none := by
        rintro fault rfl
        exact absurd hl (by simp [Label.byDispatcher])
      exact (h.last hlast).other
        (fun hleft => leftBehind_step hels (step_sound hel) hfault h.channels h.sequence hleft)
        fun hserved => servedTo_step hels (step_sound hel) hfault h.channels hserved
    | notify i howed => exact h.last hlast
    | notifySubscribed n hn => exact h.last hlast
    | wakeShutdown hloop hdown =>
      unfold Progress
      rw [hplace.resting (by simp [hloop])]
      trivial
    | wakeNotified hloop hpermit => exact absurd hlast (by simp)
    | wakeTimer hloop => exact absurd hlast (by simp)
    | dispatch dl inner last hloop hdl hstep =>
      have hsame : last = true := by
        unfold LoopState.after at hlast
        cases hpos : inner.dispatcher with
        | resting => cases last <;> simp [hpos] at hlast
        | _ => simpa [hpos] using hlast
      subst hsame
      exact ((h.last hloop).step (hels.drainRules h.channels h.sequence)
        (fun hpos => hplace.idle (by simp [hpos])) hdl (fun fault heq => hread fault (heq ▸ rfl))
        (dispatchStep_sound hstep)).progress
  · intro hstop
    cases hstep with
    | other el world hl hel hfree =>
      refine servedTo_step hels (step_sound hel) ?_ h.channels (h.stopped hstop)
      rintro fault rfl
      exact absurd hl (by simp [Label.byDispatcher])
    | notify i howed => exact h.stopped hstop
    | notifySubscribed n hn => exact h.stopped hstop
    | wakeShutdown hloop hdown => exact absurd hstop (by simp)
    | wakeNotified hloop hpermit => exact absurd hstop (by simp)
    | wakeTimer hloop => exact absurd hstop (by simp)
    | dispatch dl inner last hloop hdl hstep =>
      -- the step that ends the last dispatch
      have hend : last = true ∧ inner.dispatcher = .resting := by
        unfold LoopState.after at hstop
        cases hpos : inner.dispatcher with
        | resting => cases last <;> simp_all
        | _ => simp [hpos] at hstop
      obtain ⟨rfl, hpos⟩ := hend
      have hdone := (h.last hloop).step (hels.drainRules h.channels h.sequence)
        (fun hpos => hplace.idle (by simp [hpos])) hdl (fun fault heq => hread fault (heq ▸ rfl))
        (dispatchStep_sound hstep)
      unfold Achieved at hdone
      rwa [hpos] at hdone

/-- A shutdown is not taken back. -/
theorem Step.shutdown_stays {w w' : World} {el : Label} (h : Step cfg w el w')
    (hdown : w.shutdown = true) : w'.shutdown = true := by
  cases h with
  | call i w' h => rw [h.frame.2.1]; exact hdown
  | shutdown => rfl
  | _ => exact hdown

/-- The loop ends only after a shutdown. -/
theorem shutdown_of_last {ls : List ServiceLabel} (h : ServiceRun cfg guards ls s)
    (hlast : s.loop = .dispatching true ∨ s.loop = .stopped) : s.inner.world.shutdown = true := by
  refine h.induction (I := fun s => s.loop = .dispatching true ∨ s.loop = .stopped →
    s.inner.world.shutdown = true) (fun hl => hl.elim (by simp [Service.initial])
      (by simp [Service.initial])) ?_ hlast
  intro s l s' els _ ih hstep _ hlast
  cases hstep with
  | other el world hl hel hfree => exact (step_sound hel).shutdown_stays (ih hlast)
  | notify i howed => exact ih hlast
  | notifySubscribed n hn => exact ih hlast
  | wakeShutdown hloop hdown => exact hdown
  | wakeNotified hloop hpermit => exact absurd hlast (by simp)
  | wakeTimer hloop => exact absurd hlast (by simp)
  | dispatch dl inner last hloop hdl hstep =>
    have hsame : last = true := by
      cases last with
      | true => rfl
      | false =>
        unfold LoopState.after at hlast
        cases hpos : inner.dispatcher <;> simp [hpos] at hlast
    subst hsame
    have hdown := ih (Or.inl hloop)
    obtain ⟨el, hel, -⟩ | hworld := (dispatchStep_sound hstep).world_cases
    · exact (step_sound hel).shutdown_stays hdown
    · change inner.world.shutdown = true
      rw [hworld]
      exact hdown

/-- Every moment of such a run is one. -/
theorem ServiceRun.stateAt {ls : List ServiceLabel} (h : ServiceRun cfg guards ls s) {n : ℕ}
    {sn : Service} (hn : (service cfg).stateAt (Service.initial guards) ls n = some sn) :
    ServiceRun cfg guards (ls.take n) sn := by
  have hsub : ls.take n ⊆ ls := List.take_subset n ls
  refine ⟨hn, fun fault hmem => h.reads fault (hsub hmem), h.fresh.mono ?_, ?_⟩
  · intro el hel
    rw [mem_others, List.mem_filterMap] at *
    obtain ⟨sl, hsl, heq⟩ := hel
    exact ⟨sl, hsub hsl, heq⟩
  · obtain ⟨sn', hn', hrest⟩ := System.exec_split h.run n
    obtain rfl := Option.some.inj (hn.symm.trans hn')
    refine lt_of_le_of_lt ?_ h.bound
    exact System.exec_stable
      (I := fun t => sn.inner.world.store.sequence ≤ t.inner.world.store.sequence)
      (fun _ _ _ ht hstep => ht.trans (serviceStep_sound hstep).sequence_le) hrest le_rfl

/-- **A shutdown delivers what was committed before it.** Once the loop has returned, every subscriber
that was there at a moment before the shutdown, and still is with its receiver, has been sent every
record of the log of that moment that it asked for. -/
theorem drained_at_shutdown {ls : List ServiceLabel} (h : ServiceRun cfg guards ls s)
    (hstop : s.loop = .stopped) {m : ℕ} {sm : Service}
    (hm : (service cfg).stateAt (Service.initial guards) ls m = some sm)
    (hup : sm.inner.world.shutdown = false) :
    ∀ sub ∈ s.inner.world.stream.subscribers, sub.channel < sm.inner.world.stream.channels →
      sub.receiverAlive = true → ∀ r ∈ sm.inner.world.store.log, sub.wants r = true →
        sub.afterSequence < r.sequence → ∃ change ∈ sub.sent, Publishes s.inner.world.store r change := by
  intro sub hsub hchannel halive r hr hwants hafter
  have hbefore := h.stateAt hm
  have hnot : ∀ loop, sm.loop = loop → loop ≠ .dispatching true ∧ loop ≠ .stopped := by
    rintro loop rfl
    constructor
    · intro hl
      exact absurd ((shutdown_of_last hbefore (Or.inl hl)).symm.trans hup) (by simp)
    · intro hl
      exact absurd ((shutdown_of_last hbefore (Or.inr hl)).symm.trans hup) (by simp)
  have hend : (service cfg).stateAt (Service.initial guards) ls (max m ls.length) = some s := by
    unfold System.stateAt
    rw [List.take_of_length_le (le_max_right _ _)]
    exact h.run
  -- from that moment on, the last dispatch serves whoever was there up to what was there
  let I : Service → Prop := fun t =>
    DrainFact sm.inner.world.stream.channels sm.inner.world.store.sequence t ∧
      sm.inner.world.store.log <+: t.inner.world.store.log
  have hstart : I sm := by
    refine ⟨⟨le_rfl, le_rfl, fun hl => ?_, fun hl => ?_⟩, List.prefix_refl _⟩
    · exact absurd hl (hnot _ rfl).1
    · exact absurd hl (hnot _ rfl).2
  obtain ⟨hdrain, hlog⟩ : I s := by
    refine System.stateAt_induction (I := I) (le_max_left _ _) hm hend hstart ?_
    rintro k l t t' - - hl hk hstep ⟨hdrain, hlog⟩
    have hst := serviceStep_sound hstep
    have hrun := h.stateAt hk
    obtain ⟨els, hels⟩ := hrun.streamRun
    refine ⟨hdrain.step hels (wakeInvariant_of_run hrun).place hst fun fault heq => ?_,
      hlog.trans ?_⟩
    · exact h.reads fault (heq ▸ List.mem_of_getElem? hl)
    · obtain ⟨dl, -, hdl⟩ | ⟨-, hsame⟩ := hst.inner_cases
      · exact ((dispatchStep_sound hdl).later hels.log).log
      · rw [hsame]
  obtain ⟨els, hels⟩ := h.streamRun
  have hlogged := hlog.subset hr
  have hin : sub.InRange :=
    (hafter.trans_le (hels.log.sequence_le_of_mem hlogged)).trans hels.bound
  have hserved := hdrain.stopped hstop sub hsub hchannel hin halive
  obtain ⟨els', hels'⟩ := hbefore.streamRun
  have hle : r.sequence ≤ sub.deliveredThrough := (hels'.log.sequence_le_of_mem hr).trans hserved
  exact (streamInvariant_of_run hels).1.no_gap hels.log hels.bound hsub halive hlogged hwants
    hafter hle

end Wakeup

/-! ### A payment, dispatched and drained -/

/-- The order machine is defined, a client subscribes, and an order is paid. -/
def paidService : List ServiceLabel :=
  [ServiceLabel.other (.defineMachine orderMachine none),
    ServiceLabel.other (.stream (.subscribe "s" none 0)), ServiceLabel.notifySubscribed,
    ServiceLabel.other (.invoke 0 (payOrder 0 "o1" none))]
  ++ (steps 0 7).map ServiceLabel.other ++ [ServiceLabel.notify 0, ServiceLabel.other (.step 0)]

/-- One dispatch with one subscriber, one record and one effect. -/
def oneDispatch : List ServiceLabel :=
  (passFor 7).map ServiceLabel.dispatch ++ publish.map ServiceLabel.dispatch

/-- The dispatcher is woken by the notification. -/
def wokenService : List ServiceLabel := paidService ++ ServiceLabel.wake .notified :: oneDispatch

/-- It is woken by a shutdown. -/
def stoppedService : List ServiceLabel :=
  paidService ++ ServiceLabel.other .shutdown :: ServiceLabel.wake .shutdown :: oneDispatch

/-- One call is made, and no read of a pass fails. -/
theorem serviceRun_of_eval {ls : List ServiceLabel} {s : Service}
    (hls : ls = wokenService ∨ ls = stoppedService)
    (hrun : (service oneStripe).exec (Service.initial ∅) ls = some s)
    (hseq : s.inner.world.store.sequence = 1) : ServiceRun oneStripe ∅ ls s := by
  refine ⟨hrun, fun fault hmem => ?_, FreshIds.of_ofNat fun i c hmem => ?_, by rw [hseq]; decide⟩
  · obtain rfl | rfl := hls <;>
      simpa [wokenService, stoppedService, paidService, oneDispatch, steps, passFor, publish]
        using hmem
  · rw [mem_others, List.mem_filterMap] at hmem
    obtain ⟨sl, hsl, heq⟩ := hmem
    have honly : sl = ServiceLabel.other (.invoke i c) → i = 0 ∧ c = payOrder 0 "o1" none := by
      rintro rfl
      obtain rfl | rfl := hls <;>
        simpa [wokenService, stoppedService, paidService, oneDispatch, steps, passFor, publish]
          using hsl
    cases sl with
    | other el =>
      obtain rfl := DispatchLabel.other.inj (Option.some.inj heq)
      obtain ⟨rfl, rfl⟩ := honly rfl
      rfl
    | dispatch dl =>
      obtain rfl := Option.some.inj heq
      obtain rfl | rfl := hls <;>
        simp [wokenService, stoppedService, paidService, oneDispatch, steps, passFor, publish] at hsl
    | notify j => exact absurd heq (by simp [ServiceLabel.inner])
    | notifySubscribed => exact absurd heq (by simp [ServiceLabel.inner])
    | wake cause => exact absurd heq (by simp [ServiceLabel.inner])

/-- The one subscriber of a run that was evaluated. -/
theorem exists_subscriber {ls : List ServiceLabel} {s : Service}
    (hrun : (service oneStripe).exec (Service.initial ∅) ls = some s)
    (heval : ((service oneStripe).exec (Service.initial ∅) ls).map
      (fun s => s.inner.world.stream.subscribers.map fun sub =>
        (sub.machineFilter, sub.receiverAlive, [sub.channel, sub.afterSequence]))
      = some [(none, true, [0, 0])]) :
    ∃ sub ∈ s.inner.world.stream.subscribers, sub.machineFilter = none ∧
      sub.receiverAlive = true ∧ sub.channel = 0 ∧ sub.afterSequence = 0 := by
  rw [hrun] at heval
  obtain ⟨sub, hsub, hfields⟩ :=
    Option.map_eq_some_iff.mp (List.getElem?_map ▸ congrArg (·[0]?) (Option.some.inj heval))
  simp only [Prod.mk.injEq, List.cons.injEq, and_true] at hfields
  exact ⟨sub, List.mem_of_getElem? hsub, hfields.1, hfields.2.1, hfields.2.2.1, hfields.2.2.2⟩

theorem no_lost_wakeup_wokenService :
    ∃ s, (service oneStripe).exec (Service.initial ∅) wokenService = some s ∧ s.loop = .waiting ∧
      s.Quiet ∧ ∃ sub ∈ s.inner.world.stream.subscribers, sub.deliveredThrough = 1 := by
  have heval : ((service oneStripe).exec (Service.initial ∅) wokenService).map
      (fun s => (s.loop, s.permit, s.owed 0, [s.subscribing, s.inner.world.store.sequence]))
      = some (.waiting, false, false, [0, 1]) := by decide
  obtain ⟨s, hrun, hs⟩ := Option.map_eq_some_iff.mp heval
  simp only [Prod.mk.injEq, List.cons.injEq, and_true] at hs
  obtain ⟨hloop, hpermit, howed, hcount, hseq⟩ := hs
  -- the one call has notified, the others have not begun
  have hothers : ∀ n, s.owed (n + 1) = false := by
    intro n
    have hn : ((service oneStripe).exec (Service.initial ∅) wokenService).map
        (fun s => s.owed (n + 1)) = some false := rfl
    rw [hrun] at hn
    exact Option.some.inj hn
  have hquiet : s.Quiet := ⟨hpermit, fun i => by
    cases i with
    | zero => exact howed
    | succ n => exact hothers n, hcount⟩
  obtain ⟨sub, hsub, -, halive, -, hafter⟩ := exists_subscriber hrun (by decide)
  have hdone := no_lost_wakeup (serviceRun_of_eval (Or.inl rfl) hrun hseq) (by simp [hloop]) hquiet
    sub hsub (by rw [hafter]; decide) halive
  refine ⟨s, hrun, hloop, hquiet, sub, hsub, ?_⟩
  rw [hdone.1, hafter, hseq]
  rfl

theorem drained_at_shutdown_stoppedService :
    ∃ s r, (service oneStripe).exec (Service.initial ∅) stoppedService = some s ∧
      s.loop = .stopped ∧ r.sequence = 1 ∧
      ∃ sub ∈ s.inner.world.stream.subscribers, ∃ change ∈ sub.sent,
        Publishes s.inner.world.store r change := by
  have heval : ((service oneStripe).exec (Service.initial ∅) stoppedService).map
      (fun s => (s.loop, s.inner.world.store.sequence)) = some (.stopped, 1) := by decide
  have hbefore : ((service oneStripe).stateAt (Service.initial ∅) stoppedService 13).map
      (fun s => (s.inner.world.shutdown, s.inner.world.stream.channels,
        s.inner.world.store.log.map TransitionRecord.sequence)) = some (false, 1, [1]) := by decide
  obtain ⟨s, hrun, hs⟩ := Option.map_eq_some_iff.mp heval
  obtain ⟨sm, hm, hsm⟩ := Option.map_eq_some_iff.mp hbefore
  simp only [Prod.mk.injEq] at hs hsm
  obtain ⟨hloop, hseq⟩ := hs
  obtain ⟨hup, hchannels, hlog⟩ := hsm
  obtain ⟨sub, hsub, hfilter, halive, hch, hafter⟩ := exists_subscriber hrun (by decide)
  have hmem : 1 ∈ sm.inner.world.store.log.map TransitionRecord.sequence := by
    rw [hlog]
    exact List.mem_cons_self
  obtain ⟨r, hr, hrseq⟩ := List.mem_map.mp hmem
  refine ⟨s, r, hrun, hloop, hrseq, sub, hsub, ?_⟩
  refine drained_at_shutdown (serviceRun_of_eval (Or.inr rfl) hrun hseq) hloop hm hup sub hsub ?_
    halive r hr ?_ ?_
  · rw [hch, hchannels]
    decide
  · rw [Subscriber.wants, hfilter]
  · rw [hafter, hrseq]
    decide

end StateMaster
