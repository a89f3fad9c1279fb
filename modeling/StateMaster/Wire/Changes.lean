import StateMaster.Wire.Forwarding

/-!
# What the forwarding tasks write

A forwarding task receives the records of its channel one by one and writes each of them; an encoding
that fails skips the record, a write that fails ends the task. So as long as no encoding fails, what a
connection has written for a subscription, with what its task has yet to write, is what entered its
channel, from the first record on and without a gap, whatever the main loop and the other tasks write in
between.

* `TraceFact` — by task what it has written, and that nobody else writes a `ChangeRecord`;
* `traceFact_of_run` — along every run.
-/

open Framework

namespace StateMaster

namespace Wire

/-- The records written for a channel. -/
def changesOn (channel : ℕ) (trace : List Event) : List ChangeRecord :=
  trace.filterMap fun
    | .change _ channel' record => if channel' = channel then some record else none
    | _ => none

/-- An event that is no `ChangeRecord`. -/
def Event.silent : Event → Bool
  | .change _ _ _ => false
  | .reply frame => frame.tag != .changeRecord
  | _ => true

/-- No record is skipped. -/
def LinkLabel.Encodes : LinkLabel → Prop
  | .receive _ encodeError => encodeError = none
  | _ => True

/-- What a task has written. -/
structure WrittenFact (trace : List Event) (task : Forwarder) : Prop where
  within : changesOn task.channel trace <+: task.got
  running : task.running = true → changesOn task.channel trace = task.done

structure TraceFact (s : Link) : Prop where
  written : ∀ task ∈ s.tasks, WrittenFact s.trace task
  /-- A `ChangeRecord` was written by one of the tasks. -/
  origin : ∀ event ∈ s.trace, event.silent = true ∨ ∃ task ∈ s.tasks, ∃ record,
    event = .change task.id task.channel record

section Events

theorem changesOn_append (channel : ℕ) (trace events : List Event) :
    changesOn channel (trace ++ events) = changesOn channel trace ++ changesOn channel events :=
  List.filterMap_append

/-- Nothing is on a channel of what is silent or on another. -/
theorem changesOn_eq_nil {channel : ℕ} {events : List Event}
    (h : ∀ event ∈ events, event.silent = true ∨ ∃ id channel' record,
      event = .change id channel' record ∧ channel' ≠ channel) : changesOn channel events = [] := by
  refine List.filterMap_eq_nil_iff.mpr fun event hevent => ?_
  obtain hsilent | ⟨id, channel', record, rfl, hne⟩ := h event hevent
  · cases event with
    | change id channel' record => exact absurd hsilent (by simp [Event.silent])
    | _ => rfl
  · exact if_neg hne

theorem changesOn_silent (channel : ℕ) {events : List Event}
    (h : ∀ event ∈ events, event.silent = true) : changesOn channel events = [] :=
  changesOn_eq_nil fun event hevent => Or.inl (h event hevent)

end Events

section Steps

variable {cfg : Config} {s s' : Link}

theorem WrittenFact.append {trace : List Event} {task : Forwarder} (h : WrittenFact trace task)
    {events : List Event} (hnone : changesOn task.channel events = []) :
    WrittenFact (trace ++ events) task := by
  have hsame : changesOn task.channel (trace ++ events) = changesOn task.channel trace := by
    rw [changesOn_append, hnone, List.append_nil]
  exact ⟨hsame.symm ▸ h.within, fun hrunning => hsame.trans (h.running hrunning)⟩

/-- A `ChangeRecord` of a task stays one of a task, as long as the tasks are about the same channels. -/
theorem TraceFact.origin_kept (h : TraceFact s)
    (hkept : ∀ task ∈ s.tasks, ∃ task' ∈ s'.tasks, task'.id = task.id ∧ task'.channel = task.channel) :
    ∀ event ∈ s.trace, event.silent = true ∨ ∃ task' ∈ s'.tasks, ∃ record,
      event = .change task'.id task'.channel record := by
  intro event hevent
  refine (h.origin event hevent).imp_right ?_
  rintro ⟨task, htask, record, rfl⟩
  obtain ⟨task', htask', hid, hch⟩ := hkept task htask
  exact ⟨task', htask', record, by rw [hid, hch]⟩

/-- More events, none of them a `ChangeRecord`, and tasks that are still about the same channels. -/
theorem TraceFact.silent (h : TraceFact s) {events : List Event}
    (htrace : s'.trace = s.trace ++ events) (hsilent : ∀ event ∈ events, event.silent = true)
    (hwritten : ∀ task' ∈ s'.tasks, WrittenFact s.trace task')
    (hkept : ∀ task ∈ s.tasks, ∃ task' ∈ s'.tasks, task'.id = task.id ∧ task'.channel = task.channel) :
    TraceFact s' := by
  refine ⟨fun task' htask' => ?_, fun event hevent => ?_⟩
  · rw [htrace]
    exact (hwritten task' htask').append (changesOn_silent _ hsilent)
  rw [htrace] at hevent
  rcases List.mem_append.mp hevent with hold | hnew
  · exact h.origin_kept hkept event hold
  · exact Or.inl (hsilent event hnew)

/-- What enters a channel has not been written. -/
theorem WrittenFact.receive {trace : List Event} {task : Forwarder} (h : WrittenFact trace task)
    (st : Stream) : WrittenFact trace (task.receive st) := by
  refine ⟨?_, h.running⟩
  rw [Forwarder.got_receive]
  exact h.within.trans (List.prefix_append _ _)

theorem TraceFact.advance (h : TraceFact s) {l : Label} (hadv : Advances cfg s l s') :
    TraceFact s' := by
  refine h.silent hadv.trace (fun event hevent => ?_) (fun task' htask' => ?_) fun task htask => ?_
  · -- records that enter the channels are not written yet
    obtain ⟨task, -, hmem⟩ := List.mem_flatMap.mp hevent
    obtain ⟨record, -, rfl⟩ := List.mem_map.mp hmem
    rfl
  · rw [hadv.tasks] at htask'
    obtain ⟨task, htask, rfl⟩ := List.mem_map.mp htask'
    exact (h.written task htask).receive _
  · refine ⟨task.receive s'.world.stream, ?_, rfl, rfl⟩
    rw [hadv.tasks]
    exact List.mem_map_of_mem htask

/-- A new task has written nothing, and its channel is nobody else's. -/
theorem TraceFact.spawn (h : TraceFact s) (requestId : ℕ) (id : String) {channel : ℕ}
    (machineFilter : Option MachineName) (afterSequence : ℕ)
    (hnew : ∀ task ∈ s.tasks, task.channel ≠ channel) :
    TraceFact (s.spawn requestId id channel machineFilter afterSequence) := by
  have hnone : changesOn channel s.trace = [] := by
    refine changesOn_eq_nil fun event hevent => (h.origin event hevent).imp_right ?_
    rintro ⟨task, htask, record, rfl⟩
    exact ⟨_, _, record, rfl, hnew task htask⟩
  refine h.silent rfl (by simp [Event.silent]) (fun task' htask' => ?_) fun task htask => ?_
  · rcases List.mem_append.mp htask' with hold | hnew
    · exact h.written task' hold
    · obtain rfl := List.mem_singleton.mp hnew
      exact ⟨hnone ▸ List.nil_prefix, fun _ => hnone⟩
  · exact ⟨task, List.mem_append_left _ htask, rfl, rfl⟩

/-- The tasks after one of them has moved are about the same channels. -/
theorem exists_move (n : ℕ) {f : Forwarder → Forwarder}
    (hf : ∀ task, (f task).asSubscriber = task.asSubscriber) {task : Forwarder}
    (htask : task ∈ s.tasks) :
    ∃ task' ∈ (s.move n f).tasks, task'.id = task.id ∧ task'.channel = task.channel := by
  obtain ⟨i, hi⟩ := List.getElem?_of_mem htask
  have hi' : (s.move n f).tasks[i]? = some (if n = i then f task else task) := by
    unfold Link.move
    rw [List.getElem?_modify, hi]
    rfl
  refine ⟨_, List.mem_of_getElem? hi', ?_⟩
  split
  · obtain ⟨hid, hch, -⟩ := Forwarder.same_of_asSubscriber (hf task)
    exact ⟨hid, hch⟩
  · exact ⟨rfl, rfl⟩

/-- A task moves and writes nothing: it is over, or not done with more than before. -/
theorem TraceFact.move (h : TraceFact s) (n : ℕ) {f : Forwarder → Forwarder}
    (hf : ∀ task, (f task).asSubscriber = task.asSubscriber)
    (hdone : ∀ task, (f task).running = true → task.running = true ∧ (f task).done = task.done) :
    TraceFact (s.move n f) := by
  refine h.silent (List.append_nil _).symm (by simp) (fun task' htask' => ?_)
    fun task htask => exists_move n hf htask
  rcases mem_modify_cases htask' with hold | ⟨task, htask, rfl⟩
  · exact h.written task' hold
  · have hfact := h.written task (List.mem_of_getElem? htask)
    obtain ⟨-, hch, hgot⟩ := Forwarder.same_of_asSubscriber (hf task)
    refine ⟨?_, fun hrunning => ?_⟩
    · rw [hch, hgot]
      exact hfact.within
    · obtain ⟨hrunning, heq⟩ := hdone task hrunning
      rw [hch, heq]
      exact hfact.running hrunning

/-- Tasks at two places have two channels. -/
theorem channel_ne_of_nodup {tasks : List Forwarder} (hnodup : (tasks.map Forwarder.channel).Nodup)
    {n i : ℕ} {task task' : Forwarder} (htask : tasks[n]? = some task) (hi : tasks[i]? = some task')
    (hne : n ≠ i) : task.channel ≠ task'.channel := by
  intro heq
  refine hne ((List.getElem?_inj ?_ hnodup).mp ?_)
  · rw [List.length_map]
    exact (List.getElem?_eq_some_iff.mp htask).1
  · rw [List.getElem?_map, List.getElem?_map, htask, hi, Option.map_some, Option.map_some, heq]

/-- A task writes the record it has in hand. -/
theorem TraceFact.write (h : TraceFact s) (hnodup : (s.tasks.map Forwarder.channel).Nodup) {n : ℕ}
    {task : Forwarder} {record : ChangeRecord} (htask : s.tasks[n]? = some task)
    (hrunning : task.running = true) (hhand : task.hand = some record) :
    TraceFact ((s.move n .release).record (.change task.id task.channel record)) := by
  have hmem := List.mem_of_getElem? htask
  have hfact := h.written task hmem
  have hkept : ∀ task₀ ∈ s.tasks, ∃ task' ∈ (s.move n .release).tasks,
      task'.id = task₀.id ∧ task'.channel = task₀.channel :=
    fun _ => exists_move n Forwarder.asSubscriber_release
  refine ⟨fun task' htask' => ?_, fun event hevent => ?_⟩
  · obtain ⟨i, hi⟩ := List.getElem?_of_mem htask'
    change WrittenFact (s.trace ++ [_]) task'
    rcases getElem?_modify_cases hi with ⟨hne, hi⟩ | ⟨rfl, task₀, htask₀, rfl⟩
    · have hfact' := h.written task' (List.mem_of_getElem? hi)
      have hch := channel_ne_of_nodup hnodup htask hi hne
      exact hfact'.append (by simp [changesOn, hch])
    · obtain rfl := Option.some.inj (htask.symm.trans htask₀)
      have hall : changesOn task.channel (s.trace ++ [.change task.id task.channel record])
          = task.release.done := by
        rw [changesOn_append, hfact.running hrunning]
        simp [changesOn, Forwarder.release, hhand]
      refine ⟨?_, fun _ => hall⟩
      rw [show task.release.channel = task.channel from rfl, hall]
      exact List.prefix_append _ _
  · rcases List.mem_append.mp hevent with hold | hnew
    · exact h.origin_kept hkept event hold
    · obtain rfl := List.mem_singleton.mp hnew
      obtain ⟨task', htask', hid, hch⟩ := hkept task hmem
      exact Or.inr ⟨task', htask', record, by rw [hid, hch]⟩

/-- The frames of `handle_frame` are no `ChangeRecord`s. -/
theorem answer_silent {frames : List Frame} {writeError : Option String}
    (h : (link cfg).step s (.answer frames writeError) = some s') :
    ∀ event ∈ frames.map Event.reply, event.silent = true := by
  change s.step cfg (.answer frames writeError) = some s' at h
  simp only [Link.step, Option.ite_none_right_eq_some] at h
  obtain ⟨⟨-, htags⟩, -⟩ := h
  intro event hevent
  obtain ⟨frame, hframe, rfl⟩ := List.mem_map.mp hevent
  exact List.all_eq_true.mp htags frame hframe

/-- **One step.** A task writes what it has in hand; nothing else of a step is a `ChangeRecord`. -/
theorem TraceFact.step {l : LinkLabel} (h : TraceFact s) (hinv : LinkInvariant s)
    (hl : l.Encodes) (hstep : (link cfg).step s l = some s') : TraceFact s' := by
  have hsound := link_sound hstep
  have hevents : ∀ events, s'.tasks = s.tasks → s'.trace = s.trace ++ events →
      (∀ event ∈ events, event.silent = true) → TraceFact s' := by
    intro events htasks htrace hsilent
    refine h.silent htrace hsilent ?_ ?_
    · rw [htasks]
      exact h.written
    · rw [htasks]
      exact fun task htask => ⟨task, htask, rfl, rfl⟩
  cases hsound with
  | engine el _ hown hadv => exact h.advance hadv
  | subscribe requestId id machineFilter afterSequence s₁ hloop hadv =>
    refine (h.advance hadv).spawn requestId id machineFilter afterSequence fun task' htask' => ?_
    -- the channels of the tasks were made before
    rw [hadv.tasks] at htask'
    obtain ⟨task, htask, rfl⟩ := List.mem_map.mp htask'
    exact (hinv.tasks task htask).lt.ne
  | confirm requestId id channel encodeError writeError hloop =>
    unfold Link.confirm at hevents ⊢
    split
    · exact hevents [_] rfl rfl (by simp [Event.silent])
    · exact hevents [] rfl (List.append_nil _).symm (by simp)
    · exact hevents [_] rfl rfl (by simp [Event.silent])
    · exact hevents [] rfl (List.append_nil _).symm (by simp)
  | unsubscribe id s₁ hloop hadv =>
    have h₁ := h.advance hadv
    exact h₁.silent rfl (by simp [Event.silent]) h₁.written fun task htask => ⟨task, htask, rfl, rfl⟩
  | answer frames writeError loop hloop hnot => exact hevents _ rfl rfl (answer_silent hstep)
  | close hloop => exact hevents [] rfl (List.append_nil _).symm (by simp)
  | skip n task record rest e htask hrunning hhand hqueue =>
    exact absurd hl (by simp [LinkLabel.Encodes])
  | receive n task record rest htask hrunning hhand hqueue =>
    exact h.move n Forwarder.asSubscriber_take fun task₀ hrun =>
      ⟨task₀.running_take ▸ hrun, task₀.done_take⟩
  | write n task record htask hrunning hhand => exact h.write hinv.nodup htask hrunning hhand
  | exit n task record e s₁ htask hrunning hhand hadv =>
    exact (h.advance hadv).move n (by simp) fun _ hrun => absurd hrun Bool.false_ne_true
  | finish n task htask =>
    exact h.move n Forwarder.asSubscriber_stop fun _ hrun => absurd hrun Bool.false_ne_true

/-! ### Which tasks there are -/

/-- What a subscription asks for. -/
structure Terms where
  id : String
  machineFilter : Option MachineName
  afterSequence : ℕ

def Forwarder.terms (task : Forwarder) : Terms := ⟨task.id, task.machineFilter, task.afterSequence⟩

/-- The subscription a label opens. -/
def LinkLabel.opens : LinkLabel → List Terms
  | .subscribe _ id machineFilter afterSequence => [⟨id, machineFilter, afterSequence⟩]
  | _ => []

theorem Advances.terms {l : Label} (hadv : Advances cfg s l s') :
    s'.tasks.map Forwarder.terms = s.tasks.map Forwarder.terms := by
  rw [hadv.tasks, List.map_map]
  rfl

/-- Every subscription opened has its task, in the order in which they were opened. -/
theorem LinkStep.terms {l : LinkLabel} (h : LinkStep cfg s l s') :
    s'.tasks.map Forwarder.terms = s.tasks.map Forwarder.terms ++ l.opens := by
  have hmove : ∀ (s : Link) (n : ℕ) {f : Forwarder → Forwarder},
      (∀ task, (f task).asSubscriber = task.asSubscriber) →
      (s.move n f).tasks.map Forwarder.terms = s.tasks.map Forwarder.terms := by
    intro s n f hf
    refine map_modify_eq (fun task => ?_) s.tasks n
    exact congrArg (fun sub => Terms.mk sub.id sub.machineFilter sub.afterSequence) (hf task)
  cases h with
  | engine el _ hown hadv => exact hadv.terms.trans (List.append_nil _).symm
  | subscribe requestId id machineFilter afterSequence s₁ hloop hadv =>
    change (s₁.tasks ++ [_]).map Forwarder.terms = _
    rw [List.map_append, hadv.terms]
    rfl
  | confirm requestId id channel encodeError writeError hloop =>
    refine Eq.trans ?_ (List.append_nil _).symm
    unfold Link.confirm
    split <;> rfl
  | unsubscribe id s₁ hloop hadv => exact hadv.terms.trans (List.append_nil _).symm
  | answer | close => exact (List.append_nil _).symm
  | skip n | receive n | finish n => exact (hmove s n (by simp)).trans (List.append_nil _).symm
  | write n =>
    exact (hmove s n Forwarder.asSubscriber_release).trans (List.append_nil _).symm
  | exit n task record e s₁ htask hrunning hhand hadv =>
    exact (hmove s₁ n (by simp)).trans (hadv.terms.trans (List.append_nil _).symm)

/-- What a connection has written stays written. -/
theorem LinkStep.trace_append {l : LinkLabel} (h : LinkStep cfg s l s') :
    ∃ events, s'.trace = s.trace ++ events := by
  obtain ⟨-, -, events, htrace, -⟩ | ⟨el, s₁, hadv, -, -, events, htrace, -⟩ |
    ⟨requestId, id, machineFilter, afterSequence, s₁, -, hadv, rfl⟩ := h.untouched_cases
  · exact ⟨events, htrace⟩
  · exact ⟨_, by rw [htrace, hadv.trace, List.append_assoc]⟩
  · exact ⟨_, by rw [Link.spawn, hadv.trace, List.append_assoc]⟩

/-- Under a connection the log grows, as under the engine alone. -/
theorem log_grows_of_link {l : LinkLabel} (h : LinkStep cfg s l s') {guards : GuardRegistry}
    {els : List Label}
    (hels : (engine cfg).exec (World.initial Store.empty guards) els = some s.world) :
    s.world.store.log <+: s'.world.store.log ∧
      s.world.store.sequence ≤ s'.world.store.sequence := by
  have hstep : ∀ el w, (engine cfg).step s.world el = some w →
      s.world.store.log <+: w.store.log ∧ s.world.store.sequence ≤ w.store.sequence :=
    fun el w hel => ⟨(step_sound hel).log_grows (keyInvariant_of_run hels).log,
      (step_sound hel).sequence_le⟩
  obtain ⟨hworld, -⟩ | ⟨el, s₁, hadv, hworld, -⟩ |
    ⟨requestId, id, machineFilter, afterSequence, s₁, -, hadv, rfl⟩ := h.untouched_cases
  · rw [hworld]
    exact ⟨List.prefix_refl _, le_rfl⟩
  · rw [hworld]
    exact hstep el _ hadv.step
  · exact hstep _ _ hadv.step

theorem traceFact_of_run {guards : GuardRegistry} {ls : List LinkLabel}
    (hls : ∀ l ∈ ls, l.Encodes) (hrun : (link cfg).exec (Link.initial guards) ls = some s) :
    TraceFact s := by
  revert hls
  refine System.exec_induction_labels (I := fun ls s => (∀ l ∈ ls, l.Encodes) → TraceFact s)
    (fun _ => ?_) (fun ls s l s' hrun ih hstep hls => ?_) hrun
  · exact ⟨fun task htask => absurd htask List.not_mem_nil,
      fun event hevent => absurd hevent List.not_mem_nil⟩
  · obtain ⟨hls, hl⟩ := List.forall_mem_append.mp hls
    exact (ih hls).step (linkInvariant_of_run hrun) (hl l List.mem_cons_self) hstep

end Steps

end Wire

end StateMaster
