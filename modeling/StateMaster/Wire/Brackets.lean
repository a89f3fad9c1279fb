import StateMaster.Wire.Placement

/-!
# The frames of a subscription

The records of a subscription are to be written after the `Result` that confirms its `Subscribe`, and
none of them once its `Unsubscribe` has been processed. Nothing orders the forwarding task and the main
loop: the task is there before the confirmation is written, and what it has in hand or in its channel
outlives the removal of the subscriber. So it matters what the tasks have yet to write at these two
moments of the main loop.

* `Orderly` — a confirmation is written while all that has entered its channel is unwritten, and an
  `Unsubscribe` finds nothing unwritten under its id;
* `exists_flushed` — if nothing fails, the tasks get to write everything that enters their channels;
* `frames_bracketed_iff` — being orderly brackets the frames, and where everything is written in the end, nothing
  less does.
-/

open Framework

namespace StateMaster

namespace Wire

/-- What the tasks have yet to write when the main loop writes a confirmation and when it handles an
`Unsubscribe`, along a run that ends in `s`. -/
structure Orderly (cfg : Config) (guards : GuardRegistry) (ls : List LinkLabel) (s : Link) : Prop where
  /-- Everything, of the channel that is confirmed. -/
  confirms : ∀ n sn requestId id channel, ls[n]? = some (.confirm none none) →
    (link cfg).stateAt (Link.initial guards) ls n = some sn →
    sn.loop = .replying requestId id channel →
    ∀ task ∈ sn.tasks, task.channel = channel → task.unwritten = task.got
  /-- And of one that is never confirmed, to the end. -/
  withheld : ∀ task ∈ s.tasks, ¬ Confirmed s.trace task.id task.channel →
    task.unwritten = task.got
  /-- Nothing, under the id that is unsubscribed. -/
  drains : ∀ n sn id, ls[n]? = some (.unsubscribe id) →
    (link cfg).stateAt (Link.initial guards) ls n = some sn →
    ∀ task ∈ sn.tasks, task.id = id → task.running = true → task.unwritten = []

/-- Everything that entered a channel was written. -/
structure Flushed (ls : List LinkLabel) (s : Link) : Prop where
  written : ∀ l ∈ ls, l.fails = false
  rest : ∀ task ∈ s.tasks, task.unwritten = []

theorem Forwarder.unwritten_eq_got_iff {task : Forwarder} :
    task.unwritten = task.got ↔ task.done = [] := by
  unfold Forwarder.got
  rw [List.self_eq_append_left]

/-! ### Frames before their confirmation -/

section Early

variable {cfg : Config} {s s' : Link} {l : LinkLabel}

/-- A channel with an early frame is not confirmed, and its task is done with a record. -/
def EarlyFact (s : Link) : Prop :=
  ∀ id channel, Early id channel s.trace → ¬ Confirmed s.trace id channel ∧
    ∃ task ∈ s.tasks, task.id = id ∧ task.channel = channel ∧ task.done ≠ []

/-- It stays so if nothing is confirmed but channels with all their records. -/
theorem EarlyFact.step (h : EarlyFact s) (hstep : LinkStep cfg s l s')
    (hconfirms : ∀ requestId id channel, l = .confirm none none →
      s.loop = .replying requestId id channel →
      ∀ task ∈ s.tasks, task.channel = channel → task.done = []) : EarlyFact s' := by
  intro id channel hearly
  have hquiet : ∀ trace quiet, (∀ event ∈ quiet, event.quiet = true) →
      ¬ Confirmed (trace ++ quiet) id channel → ¬ Confirmed trace id channel :=
    fun trace quiet _ hnot hconf => hnot (hconf.append quiet)
  obtain hearly | ⟨hnot, record, hnotes⟩ := hstep.misplaced hquiet hearly
  · obtain ⟨hnot, task, htask, hid, hch, hdone⟩ := h id channel hearly
    refine ⟨fun hconf => ?_, ?_⟩
    · obtain hconf | ⟨requestId, hnotes⟩ := hstep.confirmed hconf
      · exact hnot hconf
      · -- a confirmation goes out while its records are there
        cases hnotes with
        | confirmed _ _ _ hloop => exact hdone (hconfirms requestId id channel rfl hloop task htask hch)
    · obtain ⟨task', htask', hk⟩ := hstep.kept_of_mem htask
      refine ⟨task', htask', hk.id.trans hid, hk.channel.trans hch, fun hnil => hdone ?_⟩
      exact List.prefix_nil.mp (hnil ▸ hk.done)
  · refine ⟨fun hconf => ?_, ?_⟩
    · obtain hconf | ⟨requestId, hnotes'⟩ := hstep.confirmed hconf
      · exact hnot hconf
      · -- one step does not do both
        cases hnotes with
        | change n => cases hnotes'
    · cases hnotes with
      | change n task task' record htask hrunning hhand htask' hsame hdone =>
        obtain ⟨hid, hch, -⟩ := Forwarder.same_of_asSubscriber hsame
        exact ⟨task', htask', hid, hch, by simp [hdone]⟩

end Early

/-! ### Frames after the end -/

section Drained

variable {cfg : Config} {s s' : Link} {task : Forwarder}

/-- A subscription that has ended has nothing to write, and will have nothing. -/
def Drained (s : Link) (task : Forwarder) : Prop :=
  ended task.id task.channel s.trace = true →
    (task.running = true → task.unwritten = []) ∧
      ∀ sub ∈ s.world.stream.subscribers, sub.channel ≠ task.channel

theorem Advances.ended_eq {el : Label} (hadv : Advances cfg s el s') (id : String) (channel : ℕ) :
    ended id channel s'.trace = ended id channel s.trace := by
  obtain ⟨quiet, htrace, hquiet⟩ := hadv.quiet
  rw [htrace, ended_quiet id channel s.trace hquiet]

/-- A channel without a subscriber gets none. -/
theorem TaskFact.stays_gone (hfact : TaskFact s.world task) {el : Label}
    (hadv : Advances cfg s el s')
    (hgone : ∀ sub ∈ s.world.stream.subscribers, sub.channel ≠ task.channel) :
    ∀ sub' ∈ s'.world.stream.subscribers, sub'.channel ≠ task.channel := by
  intro sub' hsub' hch
  obtain ⟨sub, hsub, hkept, -⟩ := hfact.sent_cases hadv hsub' hch
  exact hgone sub hsub (hkept.channel.symm.trans hch)

/-- And nothing arrives in it. -/
theorem TaskFact.receive_eq (hfact : TaskFact s.world task) {el : Label}
    (hadv : Advances cfg s el s') (hown : s'.world.stream.OwnChannels)
    (hgone : ∀ sub' ∈ s'.world.stream.subscribers, sub'.channel ≠ task.channel) :
    task.receive s'.world.stream = task := by
  have hnone := hfact.arrivals_nil hadv hown fun sub' hsub' hch => absurd hch (hgone sub' hsub')
  unfold Forwarder.receive
  rw [hnone, List.append_nil]

theorem Drained.advance (h : Drained s task) (hfact : TaskFact s.world task) {el : Label}
    (hadv : Advances cfg s el s') (hown : s'.world.stream.OwnChannels) :
    Drained s' (task.receive s'.world.stream) := by
  intro hended
  rw [hadv.ended_eq] at hended
  obtain ⟨hdrained, hgone⟩ := h hended
  have hgone' := hfact.stays_gone hadv hgone
  rw [hfact.receive_eq hadv hown hgone']
  exact ⟨hdrained, hgone'⟩

theorem Drained.congr (h : Drained s task) (hworld : s'.world = s.world)
    (hended : ended task.id task.channel s'.trace = ended task.id task.channel s.trace) :
    Drained s' task := by
  intro hend
  rw [hworld]
  exact h (hended ▸ hend)

/-- A task moves: it has no more to write than before. -/
theorem drained_move (h : ∀ task ∈ s.tasks, Drained s task) (n : ℕ) {f : Forwarder → Forwarder}
    (hf : ∀ task, (f task).asSubscriber = task.asSubscriber)
    (hunwritten : ∀ task, (f task).running = true →
      task.running = true ∧ (task.unwritten = [] → (f task).unwritten = [])) :
    ∀ task' ∈ (s.move n f).tasks, Drained s task' := by
  intro task' htask'
  rcases mem_modify_cases htask' with hold | ⟨task, htask, rfl⟩
  · exact h task' hold
  · obtain ⟨hid, hch, -⟩ := Forwarder.same_of_asSubscriber (hf task)
    intro hended
    rw [hid, hch] at hended
    obtain ⟨hdrained, hgone⟩ := h task (List.mem_of_getElem? htask) hended
    refine ⟨fun hrunning => ?_, hch.symm ▸ hgone⟩
    obtain ⟨hrunning, hkept⟩ := hunwritten task hrunning
    exact hkept (hdrained hrunning)

theorem Forwarder.unwritten_release {task : Forwarder} (h : task.unwritten = []) :
    task.release.unwritten = [] :=
  (List.append_eq_nil_iff.mp h).2

theorem drained_advance (h : ∀ task ∈ s.tasks, Drained s task) (hinv : LinkInvariant s)
    {el : Label} (hadv : Advances cfg s el s') (hown : s'.world.stream.OwnChannels) :
    ∀ task' ∈ s'.tasks, Drained s' task' := by
  intro task' htask'
  rw [hadv.tasks] at htask'
  obtain ⟨task, htask, rfl⟩ := List.mem_map.mp htask'
  exact (h task htask).advance (hinv.tasks task htask) hadv hown

/-- The tasks of an id that have nothing to write, when the id is unsubscribed. -/
theorem drained_unsubscribe (h : ∀ task ∈ s.tasks, Drained s task) (hinv : LinkInvariant s)
    (hinv' : LinkInvariant s') {id : String}
    (hadv : Advances cfg s (.stream (.unsubscribe id)) s') (hown : s'.world.stream.OwnChannels)
    (hdrained : ∀ task ∈ s.tasks, task.id = id → task.running = true → task.unwritten = []) :
    ∀ task' ∈ s'.tasks, Drained (s'.record (.unsubscribed id)) task' := by
  intro task' htask' hended
  have hfact' := drained_advance h hinv hadv hown task' htask'
  by_cases hid : task'.id = id
  · -- its subscriber is among those that are removed
    have hgone : ∀ sub ∈ s'.world.stream.subscribers, sub.channel ≠ task'.channel := by
      intro sub hsub hch
      have hname := ((hinv'.tasks task' htask').served sub hsub hch).id
      have hstep := hadv.step
      simp only [engine, World.step, Option.map_eq_some_iff, Stream.step,
        Option.ite_none_left_eq_some] at hstep
      obtain ⟨st, ⟨-, hst⟩, hworld⟩ := hstep
      obtain rfl := Option.some.inj hst
      rw [← hworld] at hsub
      have hne := (List.mem_filter.mp hsub).2
      rw [hname, hid, bne_self_eq_false] at hne
      exact Bool.false_ne_true hne
    refine ⟨fun hrunning => ?_, hgone⟩
    rw [hadv.tasks] at htask'
    obtain ⟨task, htask, rfl⟩ := List.mem_map.mp htask'
    rw [(hinv.tasks task htask).receive_eq hadv hown hgone] at hrunning ⊢
    exact hdrained task htask hid hrunning
  · refine hfact' ?_
    change ended _ _ (s'.trace ++ [Event.unsubscribed id]) = true at hended
    rw [ended_concat, endStep, if_neg (Ne.symm hid)] at hended
    exact hended

/-- A subscription opens on a channel of its own. -/
theorem drained_spawn (h : ∀ task ∈ s'.tasks, Drained s' task) (hinv : LinkInvariant s)
    {el : Label} (hadv : Advances cfg s el s') (requestId : ℕ) (id : String)
    (machineFilter : Option MachineName) (afterSequence : ℕ) :
    ∀ task' ∈ (s'.spawn requestId id s.world.stream.channels machineFilter afterSequence).tasks,
      Drained (s'.spawn requestId id s.world.stream.channels machineFilter afterSequence) task' := by
  intro task' htask'
  rcases List.mem_append.mp htask' with hold | hnew
  · refine (h task' hold).congr rfl ?_
    -- its channel is an older one
    have hlt : task'.channel < s.world.stream.channels := by
      rw [hadv.tasks] at hold
      obtain ⟨task, htask, rfl⟩ := List.mem_map.mp hold
      exact (hinv.tasks task htask).lt
    exact (ended_concat ..).trans (if_neg hlt.ne')
  · obtain rfl := List.mem_singleton.mp hnew
    intro hended
    change ended id s.world.stream.channels (s'.trace ++ [_]) = true at hended
    rw [ended_concat, endStep, if_pos rfl] at hended
    exact absurd hended Bool.false_ne_true

/-- **A step keeps the ended subscriptions drained**, if an `Unsubscribe` finds them so. -/
theorem drained_step {l : LinkLabel} (hstep : LinkStep cfg s l s')
    (h : ∀ task ∈ s.tasks, Drained s task) (hinv : LinkInvariant s) {guards : GuardRegistry}
    {els : List Label}
    (hels : (engine cfg).exec (World.initial Store.empty guards) els = some s.world)
    (hdrains : ∀ id, l = .unsubscribe id →
      ∀ task ∈ s.tasks, task.id = id → task.running = true → task.unwritten = []) :
    ∀ task' ∈ s'.tasks, Drained s' task' := by
  have hown : ∀ {el : Label} {s₁ : Link}, Advances cfg s el s₁ → s₁.world.stream.OwnChannels :=
    fun hadv => ownChannels_of_run (System.exec_concat_of_step hels hadv.step)
  cases hstep with
  | engine el s' hno hadv => exact drained_advance h hinv hadv (hown hadv)
  | subscribe requestId id machineFilter afterSequence s₁ hloop hadv =>
    exact drained_spawn (drained_advance h hinv hadv (hown hadv)) hinv hadv requestId id
      machineFilter afterSequence
  | confirm requestId id channel encodeError writeError hloop =>
    unfold Link.confirm
    split
    · exact fun task htask => (h task htask).congr rfl (ended_concat ..)
    · exact h
    · exact fun task htask => (h task htask).congr rfl (ended_concat ..)
    · exact h
  | unsubscribe id s₁ hloop hadv =>
    exact drained_unsubscribe h hinv (hinv.advance hadv hels) hadv (hown hadv) (hdrains id rfl)
  | answer frames writeError loop hloop hnot =>
    exact fun task htask => (h task htask).congr rfl (ended_quiet _ _ _ (by simp [Event.quiet]))
  | close hloop => exact h
  | skip n =>
    refine drained_move h n (by simp) fun task hrunning => ⟨task.running_take ▸ hrunning, fun hnil => ?_⟩
    exact Forwarder.unwritten_release (task.unwritten_take.trans hnil)
  | receive n =>
    refine drained_move h n Forwarder.asSubscriber_take fun task hrunning =>
      ⟨task.running_take ▸ hrunning, fun hnil => task.unwritten_take.trans hnil⟩
  | write n task record htask hrunning hhand =>
    have hmoved := drained_move h n Forwarder.asSubscriber_release fun task hrunning =>
      ⟨hrunning, Forwarder.unwritten_release⟩
    exact fun task' htask' => (hmoved task' htask').congr rfl (ended_concat ..)
  | exit n task record e s₁ htask hrunning hhand hadv =>
    exact drained_move (drained_advance h hinv hadv (hown hadv)) n (by simp) fun _ hrun =>
      absurd hrun Bool.false_ne_true
  | finish n =>
    exact drained_move h n Forwarder.asSubscriber_stop fun _ hrun => absurd hrun Bool.false_ne_true

end Drained

/-! ### Orderly runs -/

section Orderly

variable {cfg : Config} {guards : GuardRegistry} {ls : List LinkLabel} {s : Link}

theorem Orderly.earlyFact (h : Orderly cfg guards ls s) {n : ℕ} {sn : Link}
    (hn : (link cfg).stateAt (Link.initial guards) ls n = some sn) : EarlyFact sn := by
  refine System.stateAt_induction (I := EarlyFact) (Nat.zero_le n) rfl hn ?_ ?_
  · rintro id channel ⟨before, record, after, heq, -⟩
    exact absurd heq (by simp [Link.initial])
  · intro k l t t' _ _ hl hk hstep hfact
    refine hfact.step (link_sound hstep) ?_
    rintro requestId id channel rfl hloop task htask hch
    exact Forwarder.unwritten_eq_got_iff.mp (h.confirms k t requestId id channel hl hk hloop task htask hch)

theorem Orderly.drained (h : Orderly cfg guards ls s) {n : ℕ} {sn : Link}
    (hn : (link cfg).stateAt (Link.initial guards) ls n = some sn) :
    (∀ task ∈ sn.tasks, Drained sn task) ∧ ∀ id channel, ¬ Late id channel sn.trace := by
  refine System.stateAt_induction
    (I := fun s => (∀ task ∈ s.tasks, Drained s task) ∧ ∀ id channel, ¬ Late id channel s.trace)
    (Nat.zero_le n) rfl hn ⟨fun task htask => absurd htask List.not_mem_nil, ?_⟩ ?_
  · rintro id channel ⟨before, record, after, heq, -⟩
    exact absurd heq (by simp [Link.initial])
  · rintro k l t t' _ _ hl hk hstep ⟨hdrained, hlate⟩
    have hsound := link_sound hstep
    obtain ⟨els, hels⟩ := engine_run_of_run hk
    refine ⟨drained_step hsound hdrained (linkInvariant_of_run hk) hels ?_, fun id channel hmis => ?_⟩
    · rintro id rfl
      exact h.drains k t id hl hk
    · have hquiet : ∀ trace quiet, (∀ event ∈ quiet, event.quiet = true) →
          ended id channel (trace ++ quiet) = true → ended id channel trace = true :=
        fun trace quiet hall hended => (ended_quiet id channel trace hall) ▸ hended
      obtain hold | ⟨hended, record, hnotes⟩ := hsound.misplaced hquiet hmis
      · exact hlate id channel hold
      · -- a task that writes had something to write
        cases hnotes with
        | change n task task' record htask hrunning hhand =>
          have hnil := (hdrained task htask hended).1 hrunning
          rw [Forwarder.unwritten, hhand] at hnil
          exact absurd hnil (by simp)

/-- **The frames of an orderly run are bracketed.** -/
theorem Orderly.bracketed (h : Orderly cfg guards ls s)
    (hrun : (link cfg).exec (Link.initial guards) ls = some s) : Bracketed s.trace := by
  rw [← System.stateAt_length] at hrun
  refine bracketed_iff.mpr fun id channel => ⟨fun hearly => ?_, (h.drained hrun).2 id channel⟩
  obtain ⟨hnot, task, htask, rfl, rfl, hdone⟩ := h.earlyFact hrun id channel hearly
  exact hdone (Forwarder.unwritten_eq_got_iff.mp (h.withheld task htask hnot))

end Orderly

/-! ### Runs that write everything -/

section Flushed

variable {cfg : Config} {s s' : Link} {l : LinkLabel}

/-- A task that is done with a record has written one. -/
def WroteFact (s : Link) : Prop :=
  ∀ task ∈ s.tasks, task.done = [] ∨
    ∃ record, Event.change task.id task.channel record ∈ s.trace

theorem WroteFact.step (h : WroteFact s) (hstep : LinkStep cfg s l s') (hl : l.fails = false) :
    WroteFact s' := by
  intro task' htask'
  obtain hnew | ⟨task, htask, hk⟩ := hstep.of_mem_kept htask'
  · exact Or.inl hnew
  rw [hk.id, hk.channel]
  obtain ⟨events, htrace⟩ := hstep.trace_append
  obtain heq | hfails | ⟨record, hwrote⟩ := hk.wrote
  · rw [heq, htrace]
    exact (h task htask).imp_right fun ⟨record, hmem⟩ => ⟨record, List.mem_append_left _ hmem⟩
  · exact absurd (hl.symm.trans hfails) Bool.false_ne_true
  · rw [hwrote]
    exact Or.inr ⟨record, List.mem_append_right _ (List.mem_singleton_self _)⟩

theorem LinkStep.channels_le (h : LinkStep cfg s l s') :
    s.world.stream.channels ≤ s'.world.stream.channels := by
  obtain hsame | ⟨el, s₁, hadv, hsame⟩ | ⟨_, _, _, _, s₁, -, hadv, rfl⟩ := h.untouched_cases
  · rw [hsame.world]
  · rw [hsame.world]
    exact hadv.channels_le
  · exact hadv.channels_le

/-- What a step does to the main loop, as far as answers are concerned. -/
theorem LinkStep.loop_cases (h : LinkStep cfg s l s') :
    s'.loop = s.loop ∨ (∀ requestId id channel, s'.loop ≠ .replying requestId id channel) ∨
    ∃ requestId id, s'.loop = .replying requestId id s.world.stream.channels ∧
      s.world.stream.channels < s'.world.stream.channels := by
  cases h with
  | engine el s' hown hadv => exact Or.inl hadv.loop
  | subscribe requestId id machineFilter afterSequence s₁ hloop hadv =>
    exact Or.inr (Or.inr ⟨requestId, id, rfl, hadv.subscribed.2.1 ▸ Nat.lt_succ_self _⟩)
  | confirm requestId id channel encodeError writeError hloop =>
    right; left
    unfold Link.confirm
    split <;> exact fun _ _ _ => Loop.noConfusion
  | unsubscribe id s₁ hloop hadv => exact Or.inl hadv.loop
  | answer frames writeError loop hloop hnot => exact Or.inr (Or.inl hnot)
  | close hloop => exact Or.inr (Or.inl fun _ _ _ => Loop.noConfusion)
  | exit n task record e s₁ htask hrunning hhand hadv => exact Or.inl hadv.loop
  | skip | receive | write | finish => exact Or.inl rfl

/-- What the main loop has yet to confirm is not confirmed. -/
structure LoopFact (s : Link) : Prop where
  opened : ∀ requestId id channel, s.loop = .replying requestId id channel →
    channel < s.world.stream.channels
  confirmed : ∀ id channel, Confirmed s.trace id channel → channel < s.world.stream.channels ∧
    ∀ requestId id', s.loop ≠ .replying requestId id' channel

theorem LoopFact.step (h : LoopFact s) (hstep : LinkStep cfg s l s') : LoopFact s' := by
  have hle := hstep.channels_le
  refine ⟨fun requestId id channel hloop => ?_, fun id channel hconf => ?_⟩
  · obtain hsame | hnone | ⟨requestId', id', hnew, hlt⟩ := hstep.loop_cases
    · exact (h.opened requestId id channel (hsame.symm.trans hloop)).trans_le hle
    · exact absurd hloop (hnone requestId id channel)
    · obtain ⟨-, -, rfl⟩ := Loop.replying.inj (hnew.symm.trans hloop)
      exact hlt
  · obtain hconf | ⟨requestId, hnotes⟩ := hstep.confirmed hconf
    · obtain ⟨hlt, hnot⟩ := h.confirmed id channel hconf
      refine ⟨hlt.trans_le hle, fun requestId id' hloop => ?_⟩
      obtain hsame | hnone | ⟨requestId', id'', hnew, -⟩ := hstep.loop_cases
      · exact hnot requestId id' (hsame.symm.trans hloop)
      · exact hnone _ _ _ hloop
      · -- a channel that is made now has not been confirmed
        obtain ⟨-, -, rfl⟩ := Loop.replying.inj (hnew.symm.trans hloop)
        exact lt_irrefl _ hlt
    · cases hnotes with
      | confirmed _ _ _ hloop hafter =>
        refine ⟨(h.opened requestId id channel hloop).trans_le hle, fun requestId' id' hloop' => ?_⟩
        exact Loop.noConfusion (hafter.symm.trans hloop')

/-- A subscription that has ended does not start again. -/
theorem LinkStep.ended_mono (h : LinkStep cfg s l s') {id : String} {channel : ℕ}
    (hlt : channel < s.world.stream.channels) (hended : ended id channel s.trace = true) :
    ended id channel s'.trace = true := by
  obtain ⟨quiet, notes, htrace, hquiet, hnotes⟩ := h.notes
  have hbefore : ended id channel (s.trace ++ quiet) = true := by
    rw [ended_quiet id channel s.trace hquiet, hended]
  rw [htrace]
  cases hnotes with
  | none => rwa [List.append_nil]
  | subscribed => rwa [ended_concat, endStep, if_neg hlt.ne']
  | confirmed | change => rwa [ended_concat]
  | unsubscribed id' =>
    rw [ended_concat, endStep, hbefore]
    exact ite_self _

/-- A subscription has ended with a record to write: it is still to be written, or was written late. -/
structure EndFact (id : String) (channel : ℕ) (s : Link) : Prop where
  lt : channel < s.world.stream.channels
  ended : ended id channel s.trace = true
  left : (∃ task ∈ s.tasks, task.id = id ∧ task.channel = channel ∧ task.running = true ∧
    task.unwritten ≠ []) ∨ Late id channel s.trace

theorem EndFact.step {id : String} {channel : ℕ} (h : EndFact id channel s)
    (hstep : LinkStep cfg s l s') (hl : l.fails = false) : EndFact id channel s' := by
  refine ⟨h.lt.trans_le hstep.channels_le, hstep.ended_mono h.lt h.ended, ?_⟩
  obtain ⟨task, htask, rfl, rfl, hrunning, hne⟩ | hlate := h.left
  · obtain ⟨task', htask', hk⟩ := hstep.kept_of_mem htask
    obtain ⟨hrunning', hne'⟩ | hfails | ⟨record, hwrote⟩ := hk.holds hrunning hne
    · exact Or.inl ⟨task', htask', hk.id, hk.channel, hrunning', hne'⟩
    · exact absurd (hl.symm.trans hfails) Bool.false_ne_true
    · exact Or.inr ⟨s.trace, record, [], hwrote, h.ended⟩
  · exact Or.inr (hstep.misplaced_mono hlate)

/-- The `Unsubscribe` of an id whose task has something to write. -/
theorem EndFact.of_unsubscribe {id : String} (hstep : LinkStep cfg s (.unsubscribe id) s')
    (hinv : LinkInvariant s) {task : Forwarder} (htask : task ∈ s.tasks) (hid : task.id = id)
    (hrunning : task.running = true) (hne : task.unwritten ≠ []) : EndFact id task.channel s' := by
  refine ⟨(hinv.tasks task htask).lt.trans_le hstep.channels_le, ?_, Or.inl ?_⟩
  · cases hstep with
    | unsubscribe _ s₁ hloop hadv =>
      refine (ended_concat ..).trans ?_
      exact if_pos rfl
  · cases hstep with
    | unsubscribe _ s₁ hloop hadv =>
      refine ⟨task.receive s₁.world.stream, ?_, hid, rfl, hrunning, ?_⟩
      · change _ ∈ s₁.tasks
        rw [hadv.tasks]
        exact List.mem_map_of_mem htask
      · rw [Forwarder.unwritten_receive]
        exact List.append_ne_nil_of_left_ne_nil hne _

end Flushed

/-! ### Writing everything -/

section Flushing

variable {cfg : Config} {s s' : Link} {l : LinkLabel}

/-- A task that has stopped has nothing left, and nothing can come. -/
def StopFact (s : Link) (task : Forwarder) : Prop :=
  task.running = false → task.unwritten = [] ∧
    ∀ sub ∈ s.world.stream.subscribers, sub.channel ≠ task.channel

theorem stopFact_advance (h : ∀ task ∈ s.tasks, StopFact s task) (hinv : LinkInvariant s)
    {el : Label} (hadv : Advances cfg s el s') (hown : s'.world.stream.OwnChannels) :
    ∀ task' ∈ s'.tasks, StopFact s' task' := by
  intro task' htask' hstopped
  rw [hadv.tasks] at htask'
  obtain ⟨task, htask, rfl⟩ := List.mem_map.mp htask'
  obtain ⟨hnil, hgone⟩ := h task htask hstopped
  have hgone' := (hinv.tasks task htask).stays_gone hadv hgone
  rw [(hinv.tasks task htask).receive_eq hadv hown hgone']
  exact ⟨hnil, hgone'⟩

/-- A running task moves, and goes on. -/
theorem stopFact_move (h : ∀ task ∈ s.tasks, StopFact s task) {n : ℕ} {task : Forwarder}
    (htask : s.tasks[n]? = some task) {f : Forwarder → Forwarder} (hf : (f task).running = true) :
    ∀ task' ∈ (s.move n f).tasks, StopFact s task' := by
  intro task' htask'
  rcases mem_modify_cases htask' with hold | ⟨task₁, htask₁, rfl⟩
  · exact h task' hold
  · obtain rfl := Option.some.inj (htask.symm.trans htask₁)
    exact fun hstopped => absurd (hf.symm.trans hstopped) (by simp)

/-- Without a failure, a task stops only at the end of its channel. -/
theorem stopFact_step (hstep : LinkStep cfg s l s') (hl : l.fails = false)
    (h : ∀ task ∈ s.tasks, StopFact s task) (hinv : LinkInvariant s) {guards : GuardRegistry}
    {els : List Label}
    (hels : (engine cfg).exec (World.initial Store.empty guards) els = some s.world) :
    ∀ task' ∈ s'.tasks, StopFact s' task' := by
  have hown : ∀ {el : Label} {s₁ : Link}, Advances cfg s el s₁ → s₁.world.stream.OwnChannels :=
    fun hadv => ownChannels_of_run (System.exec_concat_of_step hels hadv.step)
  cases hstep with
  | engine el s' hno hadv => exact stopFact_advance h hinv hadv (hown hadv)
  | subscribe requestId id machineFilter afterSequence s₁ hloop hadv =>
    intro task' htask'
    rcases List.mem_append.mp htask' with hold | hnew
    · exact stopFact_advance h hinv hadv (hown hadv) task' hold
    · obtain rfl := List.mem_singleton.mp hnew
      exact fun hstopped => absurd hstopped (by simp)
  | confirm requestId id channel encodeError writeError hloop =>
    unfold Link.confirm
    split <;> exact h
  | unsubscribe id s₁ hloop hadv =>
    have hkept := stopFact_advance h hinv hadv (hown hadv)
    exact hkept
  | answer | close => exact h
  | skip | exit => exact absurd hl (by simp [LinkLabel.fails])
  | receive n task record rest htask hrunning =>
    exact stopFact_move h htask (task.running_take.trans hrunning)
  | write n task record htask hrunning => exact stopFact_move h htask hrunning
  | finish n task htask hunwritten hgone =>
    intro task' htask'
    rcases mem_modify_cases htask' with hold | ⟨task₁, htask₁, rfl⟩
    · exact h task' hold
    · obtain rfl := Option.some.inj (htask.symm.trans htask₁)
      exact fun _ => ⟨hunwritten, hgone⟩

/-- A record takes two steps: to the hand, and to the sink. -/
def Forwarder.toGo (task : Forwarder) : ℕ := 2 * task.queue.length + task.hand.toList.length

def Link.toGo (s : Link) : ℕ := (s.tasks.map Forwarder.toGo).sum

/-- A step of a forwarding task that goes well. -/
def LinkLabel.forwards : LinkLabel → Bool
  | .receive _ none | .forward _ none => true
  | _ => false

theorem LinkLabel.fails_of_forwards (h : l.forwards = true) : l.fails = false := by
  cases l with
  | receive n encodeError | forward n encodeError => cases encodeError <;> simp_all [forwards, fails]
  | _ => rfl

/-- A running task with something to write can move. -/
theorem exists_forwards (cfg : Config) {n : ℕ} {task : Forwarder} (htask : s.tasks[n]? = some task)
    (hrunning : task.running = true) (hne : task.unwritten ≠ []) :
    ∃ l s', l.forwards = true ∧ (link cfg).step s l = some s' ∧ s'.toGo < s.toGo := by
  cases hhand : task.hand with
  | some record =>
    refine ⟨.forward n none, (s.move n .release).record (.change task.id task.channel record), rfl,
      ?_, sum_map_modify_lt htask ?_⟩
    · simp only [link, Link.step, htask, Option.bind_eq_bind, Option.bind_some, hrunning, hhand]
      rfl
    · simp [Forwarder.toGo, Forwarder.release, hhand]
  | none =>
    cases hqueue : task.queue with
    | nil => exact absurd (by simp [Forwarder.unwritten, hhand, hqueue]) hne
    | cons record rest =>
      refine ⟨.receive n none, s.move n .take, rfl, ?_, sum_map_modify_lt htask ?_⟩
      · simp only [link, Link.step, htask, Option.bind_eq_bind, Option.bind_some, hrunning, hhand,
          hqueue]
      · simp only [Forwarder.toGo, Forwarder.take, hhand, hqueue, Option.toList_some,
          Option.toList_none, List.length_cons, List.length_nil]
        omega

end Flushing

section Runs

variable {cfg : Config} {guards : GuardRegistry} {ls : List LinkLabel} {s : Link}

theorem trace_prefix_of_stateAt (hrun : (link cfg).exec (Link.initial guards) ls = some s) {n : ℕ}
    {sn : Link} (hle : n ≤ ls.length)
    (hn : (link cfg).stateAt (Link.initial guards) ls n = some sn) : sn.trace <+: s.trace := by
  rw [← System.stateAt_length] at hrun
  refine System.stateAt_induction (I := fun t => sn.trace <+: t.trace) hle hn hrun
    (List.prefix_refl _) ?_
  intro k l t t' _ _ _ _ hstep htrace
  obtain ⟨events, heq⟩ := (link_sound hstep).trace_append
  exact htrace.trans (heq ▸ List.prefix_append _ _)

theorem Flushed.wroteFact (h : Flushed ls s) {n : ℕ} {sn : Link}
    (hn : (link cfg).stateAt (Link.initial guards) ls n = some sn) : WroteFact sn := by
  refine System.stateAt_induction (I := WroteFact) (Nat.zero_le n) rfl hn
    (fun task htask => absurd htask List.not_mem_nil) ?_
  intro k l t t' _ _ hl _ hstep hfact
  exact hfact.step (link_sound hstep) (h.written l (List.mem_of_getElem? hl))

theorem loopFact_of_run {n : ℕ} {sn : Link}
    (hn : (link cfg).stateAt (Link.initial guards) ls n = some sn) : LoopFact sn := by
  refine System.stateAt_induction (I := LoopFact) (Nat.zero_le n) rfl hn ⟨?_, ?_⟩ ?_
  · exact fun _ _ _ hloop => Loop.noConfusion hloop
  · rintro id channel ⟨requestId, hmem⟩
    exact absurd hmem List.not_mem_nil
  · exact fun k l t t' _ _ _ _ hstep hfact => hfact.step (link_sound hstep)

/-- In a bracketed run that has written everything, a channel that is not confirmed at a moment has all
its records at that moment. -/
theorem Flushed.unwritten_eq_got (h : Flushed ls s)
    (hrun : (link cfg).exec (Link.initial guards) ls = some s) (hbracketed : Bracketed s.trace)
    {n : ℕ} {sn : Link} (hle : n ≤ ls.length)
    (hn : (link cfg).stateAt (Link.initial guards) ls n = some sn) {task : Forwarder}
    (htask : task ∈ sn.tasks) (hnot : ¬ Confirmed sn.trace task.id task.channel) :
    task.unwritten = task.got := by
  refine Forwarder.unwritten_eq_got_iff.mpr ((h.wroteFact hn task htask).resolve_right ?_)
  rintro ⟨record, hmem⟩
  obtain ⟨before, after, hsplit⟩ := List.append_of_mem hmem
  obtain ⟨later, hlater⟩ := trace_prefix_of_stateAt hrun hle hn
  have hconf := hbracketed.confirmed before task.id task.channel record (after ++ later) (by
    rw [← hlater, hsplit, List.append_assoc, List.cons_append])
  exact hnot (hsplit ▸ hconf.append _)

theorem Flushed.orderly (h : Flushed ls s)
    (hrun : (link cfg).exec (Link.initial guards) ls = some s) (hbracketed : Bracketed s.trace) :
    Orderly cfg guards ls s where
  confirms n sn requestId id channel hl hn hloop task htask hch := by
    refine h.unwritten_eq_got hrun hbracketed (List.getElem?_eq_some_iff.mp hl).1.le hn htask ?_
    intro hconf
    exact ((loopFact_of_run hn).confirmed _ _ hconf).2 requestId id (hch ▸ hloop)
  withheld task htask hnot := by
    refine h.unwritten_eq_got hrun hbracketed le_rfl ?_ htask hnot
    rw [System.stateAt_length]
    exact hrun
  drains n sn id hl hn task htask hid hrunning := by
    by_contra hne
    have hlt := (List.getElem?_eq_some_iff.mp hl).1
    have hend := hrun
    rw [← System.stateAt_length] at hend
    obtain ⟨s', hs', -⟩ := System.exec_split hrun (n + 1)
    have hstep := System.step_of_stateAt hl hn hs'
    have hfact := EndFact.of_unsubscribe (link_sound hstep) (linkInvariant_of_run hn) htask hid
      hrunning hne
    -- it is written later on
    have hlast := System.stateAt_induction (I := EndFact id task.channel) (Nat.succ_le_of_lt hlt) hs'
      hend hfact fun k l t t' _ _ hl _ hstep hfact =>
        hfact.step (link_sound hstep) (h.written l (List.mem_of_getElem? hl))
    obtain ⟨task', htask', -, -, -, hne'⟩ | hlate := hlast.left
    · exact hne' (h.rest task' htask')
    · exact (bracketed_iff.mp hbracketed id task.channel).2 hlate

theorem stopFact_of_run (hrun : (link cfg).exec (Link.initial guards) ls = some s)
    (hls : ∀ l ∈ ls, l.fails = false) : ∀ task ∈ s.tasks, StopFact s task := by
  rw [← System.stateAt_length] at hrun
  refine System.stateAt_induction (I := fun s => ∀ task ∈ s.tasks, StopFact s task)
    (Nat.zero_le _) rfl hrun (fun task htask => absurd htask List.not_mem_nil) ?_
  intro k l t t' _ _ hl hk hstep hfact
  obtain ⟨els, hels⟩ := engine_run_of_run hk
  exact stopFact_step (link_sound hstep) (hls l (List.mem_of_getElem? hl)) hfact
    (linkInvariant_of_run hk) hels

/-- **The tasks get to the end of their work**, each step of theirs leaving less to do. -/
theorem exists_flushed (hrun : (link cfg).exec (Link.initial guards) ls = some s)
    (hls : ∀ l ∈ ls, l.fails = false) :
    ∃ more s', (∀ l ∈ more, l.forwards = true) ∧
      (link cfg).exec (Link.initial guards) (ls ++ more) = some s' ∧ Flushed (ls ++ more) s' := by
  -- the run grows by one step at a time, and what is left to do shrinks
  induction hn : s.toGo using Nat.strong_induction_on generalizing ls s with
  | _ n ih =>
    by_cases hrest : ∀ task ∈ s.tasks, task.unwritten = []
    · refine ⟨[], s, by simp, ?_, ?_⟩
      · rwa [List.append_nil]
      · rw [List.append_nil]
        exact ⟨hls, hrest⟩
    · obtain ⟨task, htask, hne⟩ : ∃ task ∈ s.tasks, task.unwritten ≠ [] := by
        simpa only [not_forall, exists_prop] using hrest
      obtain ⟨i, hi⟩ := List.getElem?_of_mem htask
      -- one that had stopped would have nothing left
      have hrunning : task.running = true := by
        by_contra hstopped
        exact hne (stopFact_of_run hrun hls task htask (Bool.eq_false_iff.mpr hstopped)).1
      obtain ⟨l, s₁, hl, hstep, hless⟩ := exists_forwards cfg hi hrunning hne
      have hls' : ∀ l' ∈ ls ++ [l], l'.fails = false := by
        rw [List.forall_mem_append]
        exact ⟨hls, by simpa using LinkLabel.fails_of_forwards hl⟩
      obtain ⟨more, s', hmore, hrun', hflushed⟩ :=
        ih s₁.toGo (hn ▸ hless) (System.exec_concat_of_step hrun hstep) hls' rfl
      rw [List.append_assoc, List.singleton_append] at hrun' hflushed
      exact ⟨l :: more, s', List.forall_mem_cons.mpr ⟨hl, hmore⟩, hrun', hflushed⟩

/-- **Subscription frames are bracketed** in every run in which the main loop writes each confirmation
while all that has entered its channel is unwritten, a channel that is never confirmed writes nothing,
and an `Unsubscribe` finds nothing unwritten in the tasks of its id. In runs that get to write all that
enters the channels, only then; and every run in which nothing fails gets there, if its tasks go on. -/
theorem frames_bracketed_iff (hrun : (link cfg).exec (Link.initial guards) ls = some s) :
    (Orderly cfg guards ls s → Bracketed s.trace) ∧
      (Flushed ls s → (Bracketed s.trace ↔ Orderly cfg guards ls s)) ∧
      ((∀ l ∈ ls, l.fails = false) → ∃ more s', (∀ l ∈ more, l.forwards = true) ∧
        (link cfg).exec (Link.initial guards) (ls ++ more) = some s' ∧ Flushed (ls ++ more) s') :=
  ⟨fun h => h.bracketed hrun, fun h => ⟨h.orderly hrun, fun horderly => horderly.bracketed hrun⟩,
    exists_flushed hrun⟩

end Runs

/-- A payment, a `Subscribe` that asks for it, and the record in its channel before the answer. -/
def recordBeforeAnswer : List LinkLabel :=
  .engine (.defineMachine orderMachine none) :: paymentOnLink ++
    .subscribe 1 "s" none 0 :: (passSteps 7).map .engine

/-- The record is written first. -/
def earlyFrame : List LinkLabel := recordBeforeAnswer ++ [.receive 0 none, .forward 0 none]

/-- The record is in hand when the `Unsubscribe` is processed. -/
def lateFrame : List LinkLabel :=
  recordBeforeAnswer ++ [.confirm none none, .receive 0 none, .unsubscribe "s", .forward 0 none]

/-- The record is written between the answer and the `Unsubscribe`. -/
def timelyFrame : List LinkLabel :=
  recordBeforeAnswer ++ [.confirm none none, .receive 0 none, .forward 0 none, .unsubscribe "s"]

def Event.isConfirmation : Event → Bool
  | .confirmed _ _ _ => true
  | _ => false

def Event.isChange : Event → Bool
  | .change _ _ _ => true
  | _ => false

theorem Event.exists_of_isChange {event : Event} (h : event.isChange = true) :
    ∃ id channel record, event = .change id channel record := by
  cases event with
  | change id channel record => exact ⟨id, channel, record, rfl⟩
  | _ => exact absurd h Bool.false_ne_true

/-- A frame before its confirmation, and one after its `Unsubscribe`. -/
theorem not_frames_bracketed :
    (¬ ∀ (cfg : Config) (guards : GuardRegistry) (ls : List LinkLabel) (s : Link),
      (link cfg).exec (Link.initial guards) ls = some s →
      ∀ before id channel record after,
        s.trace = before ++ Event.change id channel record :: after →
          Confirmed before id channel) ∧
    ¬ ∀ (cfg : Config) (guards : GuardRegistry) (ls : List LinkLabel) (s : Link),
      (link cfg).exec (Link.initial guards) ls = some s →
      ∀ before id channel record after,
        s.trace = before ++ Event.change id channel record :: after →
          ended id channel before = false := by
  have hearly : ((link oneStripe).exec (Link.initial ∅) earlyFrame).map
      (fun s => (s.trace.any Event.isChange, s.trace.any Event.isConfirmation))
      = some (true, false) := by decide
  have hlate : ((link oneStripe).exec (Link.initial ∅) lateFrame).map
      (fun s => (s.trace.getLast?.any fun event => match event with
        | .change id channel _ => ended id channel s.trace.dropLast
        | _ => false)) = some true := by decide
  refine ⟨fun hconfirmed => ?_, fun hopen => ?_⟩
  · obtain ⟨s, hrun, hs⟩ := Option.map_eq_some_iff.mp hearly
    obtain ⟨hchange, hnone⟩ := Prod.mk.inj hs
    obtain ⟨event, hmem, hevent⟩ := List.any_eq_true.mp hchange
    obtain ⟨id, channel, record, rfl⟩ := Event.exists_of_isChange hevent
    obtain ⟨before, after, hsplit⟩ := List.append_of_mem hmem
    -- there is no confirmation at all
    obtain ⟨requestId, hconf⟩ := hconfirmed oneStripe ∅ _ s hrun before id channel record after hsplit
    rw [hsplit] at hnone
    exact absurd rfl (List.any_eq_false.mp hnone _ (List.mem_append_left _ hconf))
  · obtain ⟨s, hrun, hs⟩ := Option.map_eq_some_iff.mp hlate
    obtain ⟨event, hlast, hevent⟩ := (Option.any_eq_true _ _).mp hs
    cases event with
    | change id channel record =>
      have hsplit := (List.dropLast_append_getLast? _ hlast).symm
      have hfalse := hopen oneStripe ∅ _ s hrun s.trace.dropLast id channel record [] hsplit
      exact Bool.false_ne_true (hfalse.symm.trans hevent)
    | _ => exact absurd hevent Bool.false_ne_true

def LinkLabel.confirms : LinkLabel → Bool
  | .confirm none none => true
  | _ => false

def LinkLabel.unsubscribes : LinkLabel → Bool
  | .unsubscribe _ => true
  | _ => false

/-- The confirmation of a channel. -/
def Event.confirms (id : String) (channel : ℕ) : Event → Bool
  | .confirmed _ id' channel' => id' == id && channel' == channel
  | _ => false

theorem confirmed_of_any {trace : List Event} {id : String} {channel : ℕ}
    (h : trace.any (Event.confirms id channel) = true) : Confirmed trace id channel := by
  obtain ⟨event, hmem, hevent⟩ := List.any_eq_true.mp h
  cases event with
  | confirmed requestId id' channel' =>
    simp only [Event.confirms, Bool.and_eq_true, beq_iff_eq] at hevent
    obtain ⟨rfl, rfl⟩ := hevent
    exact ⟨requestId, hmem⟩
  | _ => exact absurd hevent Bool.false_ne_true

theorem timelyFrame_orderly {s : Link}
    (hrun : (link oneStripe).exec (Link.initial ∅) timelyFrame = some s) :
    Orderly oneStripe ∅ timelyFrame s where
  confirms n sn requestId id channel hl hn hloop task htask hch := by
    have honly : ∀ k < 22, k = 18 ∨ timelyFrame[k]?.any LinkLabel.confirms = false := by decide
    have hdone : ((link oneStripe).stateAt (Link.initial ∅) timelyFrame 18).map
        (fun s => s.tasks.all fun task => task.done.isEmpty) = some true := by decide
    obtain rfl | hno := honly n (List.getElem?_eq_some_iff.mp hl).1
    · rw [hn, Option.map_some] at hdone
      exact Forwarder.unwritten_eq_got_iff.mpr
        (List.isEmpty_iff.mp (List.all_eq_true.mp (Option.some.inj hdone) task htask))
    · rw [hl] at hno
      exact Bool.noConfusion hno
  withheld task htask hnot := by
    have hconf : ((link oneStripe).exec (Link.initial ∅) timelyFrame).map
        (fun s => s.tasks.all fun task => s.trace.any (Event.confirms task.id task.channel))
        = some true := by decide
    rw [hrun, Option.map_some] at hconf
    exact absurd (confirmed_of_any (List.all_eq_true.mp (Option.some.inj hconf) task htask)) hnot
  drains n sn id hl hn task htask hid hrunning := by
    have honly : ∀ k < 22, k = 21 ∨ timelyFrame[k]?.any LinkLabel.unsubscribes = false := by decide
    have hdrained : ((link oneStripe).stateAt (Link.initial ∅) timelyFrame 21).map
        (fun s => s.tasks.all fun task => task.unwritten.isEmpty) = some true := by decide
    obtain rfl | hno := honly n (List.getElem?_eq_some_iff.mp hl).1
    · rw [hn, Option.map_some] at hdrained
      exact List.isEmpty_iff.mp (List.all_eq_true.mp (Option.some.inj hdrained) task htask)
    · rw [hl] at hno
      exact Bool.noConfusion hno

theorem frames_bracketed_iff_timelyFrame : ∃ s id channel record,
    (link oneStripe).exec (Link.initial ∅) timelyFrame = some s ∧ Flushed timelyFrame s ∧
      Event.change id channel record ∈ s.trace ∧ Bracketed s.trace := by
  have heval : ((link oneStripe).exec (Link.initial ∅) timelyFrame).map
      (fun s => (s.trace.any Event.isChange, s.tasks.all fun task => task.unwritten.isEmpty))
      = some (true, true) := by decide
  obtain ⟨s, hrun, hs⟩ := Option.map_eq_some_iff.mp heval
  obtain ⟨hany, hrest⟩ := Prod.mk.inj hs
  obtain ⟨event, hmem, hchange⟩ := List.any_eq_true.mp hany
  obtain ⟨id, channel, record, rfl⟩ := Event.exists_of_isChange hchange
  refine ⟨s, id, channel, record, hrun, ⟨by decide, fun task htask => ?_⟩, hmem,
    (frames_bracketed_iff hrun).1 (timelyFrame_orderly hrun)⟩
  exact List.isEmpty_iff.mp (List.all_eq_true.mp hrest task htask)

end Wire

end StateMaster
