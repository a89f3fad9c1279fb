import StateMaster.Wire.Changes

/-!
# Where the frames of a subscription stand

A `ChangeRecord` is in its place between the `Result` that confirms its `Subscribe` and the moment its
`Unsubscribe` is processed. This is a property of a trace, `Bracketed`, and what breaks it is a frame that
is `Early` or `Late`.

Whether a step puts one there is read off two things, stated once here for all steps of a connection:

* `LinkStep.notes` — what a step adds to the trace;
* `LinkStep.kept` — what it leaves of the tasks: a task is done with a record when it has written it, or
  cannot.
-/

open Framework

namespace StateMaster

namespace Wire

/-- The `Subscribe` of a channel has been confirmed. -/
def Confirmed (trace : List Event) (id : String) (channel : ℕ) : Prop :=
  ∃ requestId, Event.confirmed requestId id channel ∈ trace

/-- How an event bears on whether the subscription of a channel has ended. -/
def endStep (id : String) (channel : ℕ) (ended : Bool) : Event → Bool
  | .subscribed _ channel' _ _ => if channel' = channel then false else ended
  | .unsubscribed id' => if id' = id then true else ended
  | _ => ended

/-- The id of a channel was unsubscribed after the channel had been opened. -/
def ended (id : String) (channel : ℕ) (trace : List Event) : Bool :=
  trace.foldl (endStep id channel) false

/-- Every `ChangeRecord` comes after the confirmation of its subscription and before its end. -/
structure Bracketed (trace : List Event) : Prop where
  confirmed : ∀ before id channel record after,
    trace = before ++ Event.change id channel record :: after → Confirmed before id channel
  ended : ∀ before id channel record after,
    trace = before ++ Event.change id channel record :: after → ended id channel before = false

/-! ### Traces -/

section Traces

variable {P : List Event → Prop} {id : String} {channel : ℕ} {trace events : List Event}

/-- A `ChangeRecord` of the channel stands where `P` holds of what comes before it. -/
def Misplaced (P : List Event → Prop) (id : String) (channel : ℕ) (trace : List Event) : Prop :=
  ∃ before record after, trace = before ++ Event.change id channel record :: after ∧ P before

/-- Before the confirmation of its subscription. -/
def Early (id : String) (channel : ℕ) : List Event → Prop :=
  Misplaced (fun before => ¬ Confirmed before id channel) id channel

/-- After the end of its subscription. -/
def Late (id : String) (channel : ℕ) : List Event → Prop :=
  Misplaced (fun before => Wire.ended id channel before = true) id channel

theorem bracketed_iff :
    Bracketed trace ↔ ∀ id channel, ¬ Early id channel trace ∧ ¬ Late id channel trace := by
  constructor
  · rintro h id channel
    constructor
    · rintro ⟨before, record, after, heq, hnot⟩
      exact hnot (h.confirmed before id channel record after heq)
    · rintro ⟨before, record, after, heq, hended⟩
      exact Bool.false_ne_true ((h.ended before id channel record after heq).symm.trans hended)
  · intro h
    refine ⟨fun before id channel record after heq => ?_,
      fun before id channel record after heq => ?_⟩
    · by_contra hnot
      exact (h id channel).1 ⟨before, record, after, heq, hnot⟩
    · refine Bool.eq_false_iff.mpr fun hended => ?_
      exact (h id channel).2 ⟨before, record, after, heq, hended⟩

theorem Misplaced.append (h : Misplaced P id channel trace) (events : List Event) :
    Misplaced P id channel (trace ++ events) := by
  obtain ⟨before, record, after, rfl, hP⟩ := h
  exact ⟨before, record, after ++ events, by simp, hP⟩

/-- A `ChangeRecord` of a longer trace is the last event, or one there was. -/
theorem Misplaced.of_concat {event : Event} (h : Misplaced P id channel (trace ++ [event])) :
    Misplaced P id channel trace ∨ (∃ record, event = .change id channel record) ∧ P trace := by
  obtain ⟨before, record, after, heq, hP⟩ := h
  rcases List.eq_nil_or_concat after with rfl | ⟨after', last, rfl⟩
  · obtain ⟨rfl, hlast⟩ := List.append_inj' heq rfl
    exact Or.inr ⟨⟨record, List.singleton_inj.mp hlast⟩, hP⟩
  · rw [List.concat_eq_append, ← List.cons_append, ← List.append_assoc] at heq
    exact Or.inl ⟨before, record, after', (List.append_inj' heq rfl).1, hP⟩

/-- An event that neither opens, confirms nor ends a subscription, and is no `ChangeRecord`. -/
def Event.quiet : Event → Bool
  | .enqueued .. | .failed _ | .reply _ => true
  | _ => false

theorem Misplaced.of_quiet (h : Misplaced P id channel (trace ++ events))
    (hquiet : ∀ event ∈ events, event.quiet = true) : Misplaced P id channel trace := by
  induction events using List.reverseRecOn with
  | nil => rwa [List.append_nil] at h
  | append_singleton events event ih =>
    obtain ⟨hquiet, hlast⟩ := List.forall_mem_append.mp hquiet
    rw [← List.append_assoc] at h
    obtain hold | ⟨⟨record, rfl⟩, -⟩ := h.of_concat
    · exact ih hold hquiet
    · exact absurd (hlast _ List.mem_cons_self) Bool.false_ne_true

theorem Confirmed.append (h : Confirmed trace id channel) (events : List Event) :
    Confirmed (trace ++ events) id channel := by
  obtain ⟨requestId, hmem⟩ := h
  exact ⟨requestId, List.mem_append_left _ hmem⟩

theorem Confirmed.of_quiet (h : Confirmed (trace ++ events) id channel)
    (hquiet : ∀ event ∈ events, event.quiet = true) : Confirmed trace id channel := by
  obtain ⟨requestId, hmem⟩ := h
  refine ⟨requestId, (List.mem_append.mp hmem).resolve_right fun hnew => ?_⟩
  exact Bool.false_ne_true (hquiet _ hnew)

theorem Confirmed.of_concat {event : Event} (h : Confirmed (trace ++ [event]) id channel) :
    Confirmed trace id channel ∨ ∃ requestId, event = .confirmed requestId id channel := by
  obtain ⟨requestId, hmem⟩ := h
  rcases List.mem_append.mp hmem with hold | hnew
  · exact Or.inl ⟨requestId, hold⟩
  · exact Or.inr ⟨requestId, (List.mem_singleton.mp hnew).symm⟩

theorem ended_concat (id : String) (channel : ℕ) (trace : List Event) (event : Event) :
    ended id channel (trace ++ [event]) = endStep id channel (ended id channel trace) event := by
  unfold ended
  rw [List.foldl_append, List.foldl_cons, List.foldl_nil]

theorem ended_quiet (id : String) (channel : ℕ) (trace : List Event)
    (hquiet : ∀ event ∈ events, event.quiet = true) :
    ended id channel (trace ++ events) = ended id channel trace := by
  induction events using List.reverseRecOn with
  | nil => rw [List.append_nil]
  | append_singleton events event ih =>
    obtain ⟨hquiet, hlast⟩ := List.forall_mem_append.mp hquiet
    rw [← List.append_assoc, ended_concat, ih hquiet]
    cases event with
    | enqueued | failed | reply => rfl
    | _ => exact absurd (hlast _ List.mem_cons_self) Bool.false_ne_true

end Traces

/-! ### One step -/

/-- A record that was received is not written. -/
def LinkLabel.fails : LinkLabel → Bool
  | .receive _ encodeError => encodeError.isSome
  | .forward _ writeError => writeError.isSome
  | _ => false

section Steps

variable {cfg : Config} {s s' : Link} {l : LinkLabel}

/-- The event of a step that bears on a subscription, if there is one. -/
inductive Notes (s s' : Link) : LinkLabel → List Event → Prop where
  | none (l : LinkLabel) : Notes s s' l []
  | subscribed (requestId : ℕ) (id : String) (machineFilter : Option MachineName)
      (afterSequence : ℕ) (hloop : s'.loop = .replying requestId id s.world.stream.channels)
      (hchannels : s'.world.stream.channels = s.world.stream.channels + 1) :
      Notes s s' (.subscribe requestId id machineFilter afterSequence)
        [.subscribed id s.world.stream.channels machineFilter afterSequence]
  | confirmed (requestId : ℕ) (id : String) (channel : ℕ)
      (hloop : s.loop = .replying requestId id channel) (hafter : s'.loop = .reading) :
      Notes s s' (.confirm none none) [.confirmed requestId id channel]
  | unsubscribed (id : String) : Notes s s' (.unsubscribe id) [.unsubscribed id]
  | change (n : ℕ) (task task' : Forwarder) (record : ChangeRecord) (htask : task ∈ s.tasks)
      (hrunning : task.running = true) (hhand : task.hand = some record) (htask' : task' ∈ s'.tasks)
      (hsame : task'.asSubscriber = task.asSubscriber) (hdone : task'.done = task.done ++ [record]) :
      Notes s s' (.forward n none) [.change task.id task.channel record]

theorem Advances.quiet {el : Label} (hadv : Advances cfg s el s') :
    ∃ quiet, s'.trace = s.trace ++ quiet ∧ ∀ event ∈ quiet, event.quiet = true := by
  refine ⟨_, hadv.trace, fun event hevent => ?_⟩
  obtain ⟨task, -, hevent⟩ := List.mem_flatMap.mp hevent
  obtain ⟨arrival, -, rfl⟩ := List.mem_map.mp hevent
  rfl

/-- **What a step adds to the trace.** -/
theorem LinkStep.notes (h : LinkStep cfg s l s') : ∃ quiet notes,
    s'.trace = s.trace ++ quiet ++ notes ∧ (∀ event ∈ quiet, event.quiet = true) ∧
      Notes s s' l notes := by
  have hquiet : ∀ quiet, s'.trace = s.trace ++ quiet → (∀ event ∈ quiet, event.quiet = true) →
      ∃ quiet notes, s'.trace = s.trace ++ quiet ++ notes ∧ (∀ event ∈ quiet, event.quiet = true) ∧
        Notes s s' l notes :=
    fun quiet htrace hall => ⟨quiet, [], by rw [htrace, List.append_nil], hall, .none l⟩
  have hnone : s'.trace = s.trace → ∃ quiet notes, s'.trace = s.trace ++ quiet ++ notes ∧
      (∀ event ∈ quiet, event.quiet = true) ∧ Notes s s' l notes :=
    fun htrace => hquiet [] (by rw [htrace, List.append_nil]) (by simp)
  cases h with
  | engine el s' hown hadv =>
    obtain ⟨quiet, htrace, hall⟩ := hadv.quiet
    exact hquiet quiet htrace hall
  | subscribe requestId id machineFilter afterSequence s₁ hloop hadv =>
    obtain ⟨quiet, htrace, hall⟩ := hadv.quiet
    refine ⟨quiet, _, congrArg (· ++ [_]) htrace, hall, .subscribed _ _ _ _ rfl ?_⟩
    exact hadv.subscribed.2.1
  | confirm requestId id channel encodeError writeError hloop =>
    cases encodeError with
    | none =>
      cases writeError with
      | none =>
        refine ⟨[], [.confirmed requestId id channel], ?_, by simp, .confirmed _ _ _ hloop rfl⟩
        rw [List.append_nil]
        rfl
      | some e => exact hnone rfl
    | some e =>
      cases writeError with
      | none => exact hquiet [.failed e] rfl (by simp [Event.quiet])
      | some e' => exact hnone rfl
  | unsubscribe id s₁ hloop hadv =>
    obtain ⟨quiet, htrace, hall⟩ := hadv.quiet
    exact ⟨quiet, _, congrArg (· ++ [_]) htrace, hall, .unsubscribed id⟩
  | answer frames writeError loop hloop hnot => exact hquiet _ rfl (by simp [Event.quiet])
  | close hloop => exact hnone rfl
  | skip | receive | finish => exact hnone rfl
  | write n task record htask hrunning hhand =>
    have htask' : task.release ∈ (s.move n .release).tasks := by
      refine List.mem_of_getElem? (i := n) ?_
      unfold Link.move
      rw [List.getElem?_modify_eq, htask]
      rfl
    refine ⟨[], [.change task.id task.channel record], ?_, by simp,
      .change n task task.release record (List.mem_of_getElem? htask) hrunning hhand htask'
        task.asSubscriber_release ?_⟩
    · rw [List.append_nil]
      rfl
    · simp [Forwarder.release, hhand]
  | exit n task record e s₁ htask hrunning hhand hadv =>
    obtain ⟨quiet, htrace, hall⟩ := hadv.quiet
    exact hquiet quiet htrace hall

/-- What a step leaves of a task. -/
structure TaskKept (s s' : Link) (l : LinkLabel) (task task' : Forwarder) : Prop where
  id : task'.id = task.id
  channel : task'.channel = task.channel
  done : task.done <+: task'.done
  /-- It is done with a record when it has written it, or cannot. -/
  wrote : task'.done = task.done ∨ l.fails = true ∨
    ∃ record, s'.trace = s.trace ++ [.change task.id task.channel record]
  /-- And what it has to write stays with it until then. -/
  holds : task.running = true → task.unwritten ≠ [] →
    task'.running = true ∧ task'.unwritten ≠ [] ∨ l.fails = true ∨
      ∃ record, s'.trace = s.trace ++ [.change task.id task.channel record]

theorem TaskKept.refl (s s' : Link) (l : LinkLabel) (task : Forwarder) : TaskKept s s' l task task :=
  ⟨rfl, rfl, List.prefix_refl _, Or.inl rfl, fun hrunning hne => Or.inl ⟨hrunning, hne⟩⟩

theorem TaskKept.receive (s s' : Link) (l : LinkLabel) (st : Stream) (task : Forwarder) :
    TaskKept s s' l task (task.receive st) := by
  refine ⟨rfl, rfl, List.prefix_refl _, Or.inl rfl, fun hrunning hne => Or.inl ⟨hrunning, ?_⟩⟩
  rw [Forwarder.unwritten_receive]
  exact List.append_ne_nil_of_left_ne_nil hne _

/-- The record is lost, or the task is. -/
theorem TaskKept.of_fails (hl : l.fails = true) {task task' : Forwarder} (hid : task'.id = task.id)
    (hchannel : task'.channel = task.channel) (hdone : task.done <+: task'.done) :
    TaskKept s s' l task task' :=
  ⟨hid, hchannel, hdone, Or.inr (Or.inl hl), fun _ _ => Or.inr (Or.inl hl)⟩

theorem TaskKept.take (s s' : Link) (l : LinkLabel) (task : Forwarder) :
    TaskKept s s' l task task.take := by
  obtain ⟨hid, hch, -⟩ := Forwarder.same_of_asSubscriber task.asSubscriber_take
  refine ⟨hid, hch, by rw [task.done_take], Or.inl task.done_take, fun hrunning hne => ?_⟩
  rw [task.running_take, task.unwritten_take]
  exact Or.inl ⟨hrunning, hne⟩

/-- **What a step does to the tasks**: it keeps them all, and may start one. -/
theorem LinkStep.kept (h : LinkStep cfg s l s') : ∃ kept new, s'.tasks = kept ++ new ∧
    List.Forall₂ (TaskKept s s' l) s.tasks kept ∧ ∀ task ∈ new, task.done = [] := by
  have hall : ∀ {tasks}, s'.tasks = tasks → List.Forall₂ (TaskKept s s' l) s.tasks tasks →
      ∃ kept new, s'.tasks = kept ++ new ∧ List.Forall₂ (TaskKept s s' l) s.tasks kept ∧
        ∀ task ∈ new, task.done = [] :=
    fun htasks hkept => ⟨_, [], by rw [htasks, List.append_nil], hkept, by simp⟩
  have hsame : List.Forall₂ (TaskKept s s' l) s.tasks s.tasks :=
    List.forall₂_same.mpr fun task _ => .refl s s' l task
  have hreceive : ∀ st, List.Forall₂ (TaskKept s s' l) s.tasks (s.tasks.map (Forwarder.receive st)) :=
    fun st => List.forall₂_map_right_iff.mpr
      (List.forall₂_same.mpr fun task _ => .receive s s' l st task)
  cases h with
  | engine el s' hown hadv => exact hall hadv.tasks (hreceive _)
  | subscribe requestId id machineFilter afterSequence s₁ hloop hadv =>
    exact ⟨s₁.tasks, _, rfl, hadv.tasks ▸ hreceive _, by simp⟩
  | confirm requestId id channel encodeError writeError hloop =>
    refine hall ?_ hsame
    unfold Link.confirm
    split <;> rfl
  | unsubscribe id s₁ hloop hadv => exact hall hadv.tasks (hreceive _)
  | answer | close => exact hall rfl hsame
  | skip n task record rest e htask hrunning hhand hqueue =>
    refine hall rfl (forall₂_modify hsame fun task task' _ _ hk => ?_)
    obtain ⟨hid, hch, -⟩ := Forwarder.same_of_asSubscriber task'.asSubscriber_take
    refine .of_fails rfl (hid.trans hk.id) (hch.trans hk.channel) (hk.done.trans ?_)
    rw [← task'.done_take]
    exact List.prefix_append _ _
  | receive n task record rest htask hrunning hhand hqueue =>
    refine hall rfl (forall₂_modify hsame fun task task' htask htask' _ => ?_)
    obtain rfl := Option.some.inj (htask.symm.trans htask')
    exact .take s _ _ task
  | write n task record htask hrunning hhand =>
    refine hall rfl (forall₂_modify hsame fun task₁ task₂ htask₁ htask₂ _ => ?_)
    obtain rfl := Option.some.inj (htask.symm.trans htask₁)
    obtain rfl := Option.some.inj (htask.symm.trans htask₂)
    exact ⟨rfl, rfl, List.prefix_append _ _, Or.inr (Or.inr ⟨record, rfl⟩),
      fun _ _ => Or.inr (Or.inr ⟨record, rfl⟩)⟩
  | exit n task record e s₁ htask hrunning hhand hadv =>
    refine hall rfl (forall₂_modify (hadv.tasks ▸ hreceive _) fun task task' _ _ hk => ?_)
    exact .of_fails rfl hk.id hk.channel (hk.done.trans (List.prefix_append _ _))
  | finish n task htask hunwritten hgone =>
    refine hall rfl (forall₂_modify hsame fun task₁ task₂ htask₁ htask₂ _ => ?_)
    obtain rfl := Option.some.inj (htask.symm.trans htask₁)
    obtain rfl := Option.some.inj (htask.symm.trans htask₂)
    -- it had nothing to write
    exact ⟨rfl, rfl, List.prefix_refl _, Or.inl rfl, fun _ hne => absurd hunwritten hne⟩

theorem LinkStep.kept_of_mem (h : LinkStep cfg s l s') {task : Forwarder} (htask : task ∈ s.tasks) :
    ∃ task' ∈ s'.tasks, TaskKept s s' l task task' := by
  obtain ⟨kept, new, htasks, hkept, -⟩ := h.kept
  obtain ⟨task', htask', hk⟩ := exists_of_forall₂_mem hkept htask
  exact ⟨task', htasks ▸ List.mem_append_left _ htask', hk⟩

theorem LinkStep.of_mem_kept (h : LinkStep cfg s l s') {task' : Forwarder}
    (htask' : task' ∈ s'.tasks) :
    task'.done = [] ∨ ∃ task ∈ s.tasks, TaskKept s s' l task task' := by
  obtain ⟨kept, new, htasks, hkept, hnew⟩ := h.kept
  rw [htasks] at htask'
  rcases List.mem_append.mp htask' with hold | hfresh
  · exact Or.inr (exists_of_forall₂_mem hkept.flip hold)
  · exact Or.inl (hnew task' hfresh)

theorem Notes.cases_length {notes : List Event} (h : Notes s s' l notes) :
    notes = [] ∨ ∃ event, notes = [event] := by
  cases h with
  | none => exact Or.inl rfl
  | _ => exact Or.inr ⟨_, rfl⟩

/-- A frame that is misplaced after a step was before it, or the step wrote it. -/
theorem LinkStep.misplaced (h : LinkStep cfg s l s') {P : List Event → Prop} {id : String}
    {channel : ℕ} (hP : ∀ trace quiet, (∀ event ∈ quiet, event.quiet = true) → P (trace ++ quiet) →
      P trace) (hmis : Misplaced P id channel s'.trace) :
    Misplaced P id channel s.trace ∨
      P s.trace ∧ ∃ record, Notes s s' l [.change id channel record] := by
  obtain ⟨quiet, notes, htrace, hquiet, hnotes⟩ := h.notes
  rw [htrace] at hmis
  obtain rfl | ⟨event, rfl⟩ := hnotes.cases_length
  · rw [List.append_nil] at hmis
    exact Or.inl (hmis.of_quiet hquiet)
  · obtain hold | ⟨⟨record, rfl⟩, hlast⟩ := hmis.of_concat
    · exact Or.inl (hold.of_quiet hquiet)
    · exact Or.inr ⟨hP _ _ hquiet hlast, record, hnotes⟩

theorem LinkStep.confirmed (h : LinkStep cfg s l s') {id : String} {channel : ℕ}
    (hconf : Confirmed s'.trace id channel) :
    Confirmed s.trace id channel ∨ ∃ requestId, Notes s s' l [.confirmed requestId id channel] := by
  obtain ⟨quiet, notes, htrace, hquiet, hnotes⟩ := h.notes
  rw [htrace] at hconf
  obtain rfl | ⟨event, rfl⟩ := hnotes.cases_length
  · rw [List.append_nil] at hconf
    exact Or.inl (hconf.of_quiet hquiet)
  · obtain hold | ⟨requestId, rfl⟩ := hconf.of_concat
    · exact Or.inl (hold.of_quiet hquiet)
    · exact Or.inr ⟨requestId, hnotes⟩

theorem LinkStep.misplaced_mono (h : LinkStep cfg s l s') {P : List Event → Prop} {id : String}
    {channel : ℕ} (hmis : Misplaced P id channel s.trace) : Misplaced P id channel s'.trace := by
  obtain ⟨events, htrace⟩ := h.trace_append
  exact htrace ▸ hmis.append events

end Steps

end Wire

end StateMaster
