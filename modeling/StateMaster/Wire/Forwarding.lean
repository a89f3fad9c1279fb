import StateMaster.Engine.ReadFaults
import StateMaster.Proto.Frame

/-!
# Forwarding tasks

A `Subscribe` registers a subscriber with the engine and spawns a task that writes what enters the
subscriber's channel; only then is the answer written, by the main loop, to the sink that all of them
share. `link` is one connection at this grain, from the main loop on: the loop, its forwarding tasks and
the engine take their steps in any order, and the engine's are those of all other clients as well. A task
receives a record in one step and writes it in another: in between it waits for the sink, with the
record in hand.

The trace of a connection has the frames it writes and, between them, the moments at which
subscriptions start and end and at which records enter their channels. The session's own table of
subscriptions is left out: nothing is ever entered into it.

* `LinkStep` — everything a connection can do, and `LinkStep.untouched_cases` what of it reaches the
  channels;
* `engine_run_of_run` — under a connection, the engine makes a run of its own;
* `LinkInvariant` — every channel holds exactly the records its subscription asked for, also after
  the subscriber has been removed.
-/

open Framework

namespace StateMaster

namespace Wire

/-! ### One connection -/

/-- A task of `forward_subscription`, with the subscription it serves. -/
structure Forwarder where
  id : String
  channel : ℕ
  machineFilter : Option MachineName
  afterSequence : ℕ
  /-- The records it is done with: written, or given up. -/
  done : List ChangeRecord
  /-- The record it has encoded, and waits with for the sink. -/
  hand : Option ChangeRecord
  /-- What waits in the channel. -/
  queue : List ChangeRecord
  running : Bool

namespace Forwarder

/-- What the task has yet to write. -/
def unwritten (task : Forwarder) : List ChangeRecord := task.hand.toList ++ task.queue

/-- What has entered the channel so far. -/
def got (task : Forwarder) : List ChangeRecord := task.done ++ task.unwritten

/-- What a step of the engine has sent to the subscriber of this channel. -/
def arrivals (task : Forwarder) (st : Stream) : List ChangeRecord :=
  match st.subscribers.find? fun sub => sub.channel == task.channel with
  | some sub => sub.sent.drop task.got.length
  | none => []

def receive (st : Stream) (task : Forwarder) : Forwarder :=
  { task with queue := task.queue ++ task.arrivals st }

/-- The next record goes from the channel to the hand. -/
def take (task : Forwarder) : Forwarder :=
  match task.hand, task.queue with
  | none, record :: rest => { task with hand := some record, queue := rest }
  | _, _ => task

/-- The task is done with what it has in hand. -/
def release (task : Forwarder) : Forwarder :=
  { task with done := task.done ++ task.hand.toList, hand := none }

def stop (task : Forwarder) : Forwarder := { task with running := false }

theorem unwritten_receive (st : Stream) (task : Forwarder) :
    (task.receive st).unwritten = task.unwritten ++ task.arrivals st :=
  (List.append_assoc ..).symm

theorem got_receive (st : Stream) (task : Forwarder) :
    (task.receive st).got = task.got ++ task.arrivals st := by
  unfold got
  rw [unwritten_receive, ← List.append_assoc]
  rfl

@[simp] theorem done_take (task : Forwarder) : task.take.done = task.done := by
  unfold take
  split <;> rfl

@[simp] theorem running_take (task : Forwarder) : task.take.running = task.running := by
  unfold take
  split <;> rfl

theorem unwritten_take (task : Forwarder) : task.take.unwritten = task.unwritten := by
  unfold take
  split
  · next record rest hhand hqueue => simp [unwritten, hhand, hqueue]
  · rfl

theorem got_release (task : Forwarder) : task.release.got = task.got := by
  simp [release, got, unwritten]

end Forwarder

/-- Where the main loop is. -/
inductive Loop where
  /-- At `stream.next()`. -/
  | reading
  /-- In the `Subscribe` branch, `handle_subscribe` having registered the subscriber. -/
  | replying (requestId : ℕ) (id : String) (channel : ℕ)
  /-- `serve_framed` returned. -/
  | closed
deriving DecidableEq

/-- What happens on a connection. The last four are frames it writes. -/
inductive Event where
  | subscribed (id : String) (channel : ℕ) (machineFilter : Option MachineName)
    (afterSequence : ℕ)
  | enqueued (id : String) (channel : ℕ) (record : ChangeRecord)
  | unsubscribed (id : String)
  /-- The `Result` that confirms a `Subscribe`. -/
  | confirmed (requestId : ℕ) (id : String) (channel : ℕ)
  /-- A `ChangeRecord`, from the task of this channel. -/
  | change (id : String) (channel : ℕ) (record : ChangeRecord)
  /-- The `Error` for a `Subscribe` whose confirmation cannot be encoded. -/
  | failed (message : String)
  /-- Any other frame of the main loop. -/
  | reply (frame : Frame)

structure Link where
  world : World
  loop : Loop
  tasks : List Forwarder
  trace : List Event

/-- A session that has just been greeted, on a fresh database. -/
def Link.initial (guards : GuardRegistry) : Link :=
  ⟨World.initial Store.empty guards, .reading, [], []⟩

inductive LinkLabel where
  /-- A step of the engine that is none of this session's subscriptions: calls, passes, others. -/
  | engine (l : Label)
  /-- The loop decodes a `Subscribe` and runs `handle_subscribe` up to its answer. -/
  | subscribe (requestId : ℕ) (id : String) (machineFilter : Option MachineName)
    (afterSequence : ℕ)
  /-- The loop encodes the answer and writes it. -/
  | confirm (encodeError writeError : Option String)
  /-- The loop handles an `Unsubscribe`. -/
  | unsubscribe (id : String)
  /-- The loop handles any other item, and writes these frames. -/
  | answer (frames : List Frame) (writeError : Option String)
  | close
  /-- Task `n` receives a record and encodes it. -/
  | receive (n : ℕ) (encodeError : Option String)
  /-- Task `n` gets the sink and writes the record it has in hand. -/
  | forward (n : ℕ) (writeError : Option String)
  /-- Task `n` finds its channel closed. -/
  | finish (n : ℕ)

namespace Link

/-- The receiver of a channel is dropped by its own task only. -/
def owns (s : Link) : Label → Bool
  | .stream (.dropReceiver channel) => s.tasks.any fun task => task.channel == channel
  | _ => false

/-- A step of the engine. What it sends enters the channels of the tasks. -/
def advance (cfg : Config) (s : Link) (l : Label) : Option Link := do
  let world ← (engine cfg).step s.world l
  return { s with
    world
    tasks := s.tasks.map (Forwarder.receive world.stream)
    trace := s.trace ++ s.tasks.flatMap fun task =>
      (task.arrivals world.stream).map (.enqueued task.id task.channel) }

def record (s : Link) (event : Event) : Link := { s with trace := s.trace ++ [event] }

/-- The end of `handle_subscribe`: the task is there, the answer is not yet written. -/
def spawn (s : Link) (requestId : ℕ) (id : String) (channel : ℕ)
    (machineFilter : Option MachineName) (afterSequence : ℕ) : Link where
  world := s.world
  loop := .replying requestId id channel
  tasks := s.tasks ++ [⟨id, channel, machineFilter, afterSequence, [], none, [], true⟩]
  trace := s.trace ++ [.subscribed id channel machineFilter afterSequence]

/-- What the loop does with the outcome of `handle_subscribe`. -/
def confirm (s : Link) (requestId : ℕ) (id : String) (channel : ℕ)
    (encodeError writeError : Option String) : Link :=
  match encodeError, writeError with
  | none, none => { s with loop := .reading }.record (.confirmed requestId id channel)
  | none, some _ => { s with loop := .closed }
  -- the error frame is sent without a look at the outcome
  | some e, none => { s with loop := .reading }.record (.failed e)
  | some _, some _ => { s with loop := .reading }

/-- Task `n` moves. -/
def move (s : Link) (n : ℕ) (f : Forwarder → Forwarder) : Link :=
  { s with tasks := s.tasks.modify n f }

/-- The end of a turn of the loop of `forward_subscription`. -/
def forward (cfg : Config) (s : Link) (n : ℕ) (task : Forwarder) (record : ChangeRecord)
    (writeError : Option String) : Option Link :=
  match writeError with
  | none => some ((s.move n .release).record (.change task.id task.channel record))
  -- `break`: the receiver is dropped with the task
  | some _ => do
    let s' ← s.advance cfg (.stream (.dropReceiver task.channel))
    return s'.move n fun task => task.release.stop

def step (cfg : Config) (s : Link) : LinkLabel → Option Link
  | .engine l => if s.owns l then none else s.advance cfg l
  | .subscribe requestId id machineFilter afterSequence =>
    if s.loop = .reading then do
      -- an earlier subscriber of this id stays
      let s' ← s.advance cfg (.stream (.subscribe id machineFilter afterSequence))
      return s'.spawn requestId id s.world.stream.channels machineFilter afterSequence
    else none
  | .confirm encodeError writeError =>
    match s.loop with
    | .replying requestId id channel =>
      some (s.confirm requestId id channel encodeError writeError)
    | _ => none
  | .unsubscribe id =>
    if s.loop = .reading then do
      -- the task and what waits in its channel stay
      let s' ← s.advance cfg (.stream (.unsubscribe id))
      return s'.record (.unsubscribed id)
    else none
  | .answer frames writeError =>
    -- `handle_frame` answers with no `ChangeRecord`
    if s.loop = .reading ∧ frames.all (fun frame => frame.tag != .changeRecord) = true then
      some { s with
        loop := if writeError.isSome then .closed else .reading
        trace := s.trace ++ frames.map .reply }
    else none
  | .close => if s.loop = .reading then some { s with loop := .closed } else none
  | .receive n encodeError => do
    let task ← s.tasks[n]?
    match task.running, task.hand, task.queue with
    | true, none, _ :: _ =>
      match encodeError with
      | none => some (s.move n .take)
      -- `continue`: the record is lost
      | some _ => some (s.move n fun task => task.take.release)
    | _, _, _ => none
  | .forward n writeError => do
    let task ← s.tasks[n]?
    match task.running, task.hand with
    | true, some record => s.forward cfg n task record writeError
    | _, _ => none
  | .finish n => do
    let task ← s.tasks[n]?
    -- the subscriber, and with it the sender, is gone
    if task.running ∧ task.unwritten = [] ∧
        (s.world.stream.subscribers.all fun sub => sub.channel != task.channel) = true then
      some (s.move n .stop)
    else none

end Link

/-- The connection as a system. -/
def link (cfg : Config) : System Link LinkLabel where
  step := Link.step cfg

/-! ### What a step can do -/

/-- A step of the engine, as the connection sees it. -/
structure Advances (cfg : Config) (s : Link) (l : Label) (s' : Link) : Prop where
  step : (engine cfg).step s.world l = some s'.world
  loop : s'.loop = s.loop
  tasks : s'.tasks = s.tasks.map (Forwarder.receive s'.world.stream)
  trace : s'.trace = s.trace ++ s.tasks.flatMap fun task =>
    (task.arrivals s'.world.stream).map (.enqueued task.id task.channel)

theorem Link.advance_sound {cfg : Config} {s s' : Link} {l : Label}
    (h : s.advance cfg l = some s') : Advances cfg s l s' := by
  obtain ⟨world, hstep, hret⟩ := Option.bind_eq_some_iff.mp h
  obtain rfl := Option.some.inj hret
  exact ⟨hstep, rfl, rfl, rfl⟩

/-- Everything a connection can do. -/
inductive LinkStep (cfg : Config) (s : Link) : LinkLabel → Link → Prop where
  | engine (l : Label) (s' : Link) (hown : s.owns l = false) (h : Advances cfg s l s') :
      LinkStep cfg s (.engine l) s'
  | subscribe (requestId : ℕ) (id : String) (machineFilter : Option MachineName)
      (afterSequence : ℕ) (s₁ : Link) (hloop : s.loop = .reading)
      (h : Advances cfg s (.stream (.subscribe id machineFilter afterSequence)) s₁) :
      LinkStep cfg s (.subscribe requestId id machineFilter afterSequence)
        (s₁.spawn requestId id s.world.stream.channels machineFilter afterSequence)
  | confirm (requestId : ℕ) (id : String) (channel : ℕ) (encodeError writeError : Option String)
      (hloop : s.loop = .replying requestId id channel) :
      LinkStep cfg s (.confirm encodeError writeError)
        (s.confirm requestId id channel encodeError writeError)
  | unsubscribe (id : String) (s₁ : Link) (hloop : s.loop = .reading)
      (h : Advances cfg s (.stream (.unsubscribe id)) s₁) :
      LinkStep cfg s (.unsubscribe id) (s₁.record (.unsubscribed id))
  | answer (frames : List Frame) (writeError : Option String) (loop : Loop)
      (hloop : s.loop = .reading) (hnot : ∀ requestId id channel, loop ≠ .replying requestId id channel) :
      LinkStep cfg s (.answer frames writeError) { s with loop, trace := s.trace ++ frames.map .reply }
  | close (hloop : s.loop = .reading) : LinkStep cfg s .close { s with loop := .closed }
  | skip (n : ℕ) (task : Forwarder) (record : ChangeRecord) (rest : List ChangeRecord) (e : String)
      (htask : s.tasks[n]? = some task) (hrunning : task.running = true) (hhand : task.hand = none)
      (hqueue : task.queue = record :: rest) :
      LinkStep cfg s (.receive n (some e)) (s.move n fun task => task.take.release)
  | receive (n : ℕ) (task : Forwarder) (record : ChangeRecord) (rest : List ChangeRecord)
      (htask : s.tasks[n]? = some task) (hrunning : task.running = true) (hhand : task.hand = none)
      (hqueue : task.queue = record :: rest) :
      LinkStep cfg s (.receive n none) (s.move n .take)
  | write (n : ℕ) (task : Forwarder) (record : ChangeRecord) (htask : s.tasks[n]? = some task)
      (hrunning : task.running = true) (hhand : task.hand = some record) :
      LinkStep cfg s (.forward n none)
        ((s.move n .release).record (.change task.id task.channel record))
  | exit (n : ℕ) (task : Forwarder) (record : ChangeRecord) (e : String) (s₁ : Link)
      (htask : s.tasks[n]? = some task) (hrunning : task.running = true)
      (hhand : task.hand = some record)
      (h : Advances cfg s (.stream (.dropReceiver task.channel)) s₁) :
      LinkStep cfg s (.forward n (some e)) (s₁.move n fun task => task.release.stop)
  | finish (n : ℕ) (task : Forwarder) (htask : s.tasks[n]? = some task)
      (hunwritten : task.unwritten = [])
      (hgone : ∀ sub ∈ s.world.stream.subscribers, sub.channel ≠ task.channel) :
      LinkStep cfg s (.finish n) (s.move n .stop)

theorem link_sound {cfg : Config} {s s' : Link} {l : LinkLabel}
    (h : (link cfg).step s l = some s') : LinkStep cfg s l s' := by
  change s.step cfg l = some s' at h
  cases l with
  | engine l =>
    simp only [Link.step, Option.ite_none_left_eq_some] at h
    exact .engine l s' (Bool.eq_false_iff.mpr h.1) (Link.advance_sound h.2)
  | subscribe requestId id machineFilter afterSequence =>
    simp only [Link.step, Option.ite_none_right_eq_some] at h
    obtain ⟨hloop, h⟩ := h
    obtain ⟨s₁, hadv, hret⟩ := Option.bind_eq_some_iff.mp h
    obtain rfl := Option.some.inj hret
    exact .subscribe requestId id machineFilter afterSequence s₁ hloop (Link.advance_sound hadv)
  | confirm encodeError writeError =>
    rw [Link.step] at h
    split at h
    · next requestId id channel hloop =>
      obtain rfl := Option.some.inj h
      exact .confirm requestId id channel encodeError writeError hloop
    · exact nomatch h
  | unsubscribe id =>
    simp only [Link.step, Option.ite_none_right_eq_some] at h
    obtain ⟨hloop, h⟩ := h
    obtain ⟨s₁, hadv, hret⟩ := Option.bind_eq_some_iff.mp h
    obtain rfl := Option.some.inj hret
    exact .unsubscribe id s₁ hloop (Link.advance_sound hadv)
  | answer frames writeError =>
    simp only [Link.step, Option.ite_none_right_eq_some] at h
    obtain ⟨⟨hloop, -⟩, hret⟩ := h
    obtain rfl := Option.some.inj hret
    refine .answer frames writeError _ hloop fun requestId id channel => ?_
    split <;> exact Loop.noConfusion
  | close =>
    simp only [Link.step, Option.ite_none_right_eq_some] at h
    obtain ⟨hloop, hret⟩ := h
    obtain rfl := Option.some.inj hret
    exact .close hloop
  | receive n encodeError =>
    obtain ⟨task, htask, h⟩ := Option.bind_eq_some_iff.mp h
    split at h
    · next record rest hrunning hhand hqueue =>
      cases encodeError with
      | some e =>
        obtain rfl := Option.some.inj h
        exact .skip n task record rest e htask hrunning hhand hqueue
      | none =>
        obtain rfl := Option.some.inj h
        exact .receive n task record rest htask hrunning hhand hqueue
    · exact nomatch h
  | forward n writeError =>
    obtain ⟨task, htask, h⟩ := Option.bind_eq_some_iff.mp h
    split at h
    · next record hrunning hhand =>
      cases writeError with
      | none =>
        obtain rfl := Option.some.inj h
        exact .write n task record htask hrunning hhand
      | some e =>
        rw [Link.forward] at h
        obtain ⟨s₁, hadv, hret⟩ := Option.bind_eq_some_iff.mp h
        obtain rfl := Option.some.inj hret
        exact .exit n task record e s₁ htask hrunning hhand (Link.advance_sound hadv)
    · exact nomatch h
  | finish n =>
    obtain ⟨task, htask, h⟩ := Option.bind_eq_some_iff.mp h
    simp only [Option.ite_none_right_eq_some] at h
    obtain ⟨⟨-, hunwritten, hgone⟩, hret⟩ := h
    obtain rfl := Option.some.inj hret
    exact .finish n task htask hunwritten fun sub hsub =>
      bne_iff_ne.mp (List.all_eq_true.mp hgone sub hsub)

/-! ### What enters the channels -/

/-- A task as the subscriber it serves, had its receiver never gone. -/
def Forwarder.asSubscriber (task : Forwarder) : Subscriber where
  channel := task.channel
  id := task.id
  machineFilter := task.machineFilter
  afterSequence := task.afterSequence
  deliveredThrough := task.afterSequence
  sent := task.got
  receiverAlive := true

@[simp] theorem Forwarder.asSubscriber_take (task : Forwarder) :
    task.take.asSubscriber = task.asSubscriber := by
  unfold take
  split
  · next record rest hhand hqueue => simp [asSubscriber, got, unwritten, hhand, hqueue]
  · rfl

@[simp] theorem Forwarder.asSubscriber_release (task : Forwarder) :
    task.release.asSubscriber = task.asSubscriber := by
  unfold asSubscriber
  rw [got_release]
  rfl

@[simp] theorem Forwarder.asSubscriber_stop (task : Forwarder) :
    task.stop.asSubscriber = task.asSubscriber := rfl

theorem Forwarder.same_of_asSubscriber {task task' : Forwarder}
    (h : task'.asSubscriber = task.asSubscriber) :
    task'.id = task.id ∧ task'.channel = task.channel ∧ task'.got = task.got :=
  ⟨congrArg Subscriber.id h, congrArg Subscriber.channel h, congrArg Subscriber.sent h⟩

/-- An event that opens a channel or enters one. -/
def Event.booked : Event → Bool
  | .subscribed .. => true
  | .enqueued .. => true
  | _ => false

/-- The engine and the channels stand still. -/
structure Untouched (s s' : Link) : Prop where
  world : s'.world = s.world
  tasks : s'.tasks.map Forwarder.asSubscriber = s.tasks.map Forwarder.asSubscriber
  trace : ∃ events, s'.trace = s.trace ++ events ∧ ∀ event ∈ events, event.booked = false

theorem Untouched.of_events {s s' : Link} (hworld : s'.world = s.world) (htasks : s'.tasks = s.tasks)
    (events : List Event) (htrace : s'.trace = s.trace ++ events)
    (hevents : ∀ event ∈ events, event.booked = false) : Untouched s s' :=
  ⟨hworld, by rw [htasks], events, htrace, hevents⟩

/-- A task moves. -/
theorem Untouched.of_move (s : Link) (n : ℕ) {f : Forwarder → Forwarder}
    (hf : ∀ task, (f task).asSubscriber = task.asSubscriber) : Untouched s (s.move n f) :=
  ⟨rfl, map_modify_eq hf _ _, [], (List.append_nil _).symm, by simp⟩

theorem Untouched.exists_task {s s' : Link} (h : Untouched s s') {task' : Forwarder}
    (htask' : task' ∈ s'.tasks) : ∃ task ∈ s.tasks, task.asSubscriber = task'.asSubscriber :=
  List.mem_map.mp (h.tasks ▸ List.mem_map_of_mem htask')

/-- **What a step does to the engine and the channels**: nothing, a step of the engine, or a step of
the engine that opens a channel. -/
theorem LinkStep.untouched_cases {cfg : Config} {s s' : Link} {l : LinkLabel} (h : LinkStep cfg s l s') :
    Untouched s s' ∨ (∃ el s₁, Advances cfg s el s₁ ∧ Untouched s₁ s') ∨
    ∃ requestId id machineFilter afterSequence s₁,
      l = .subscribe requestId id machineFilter afterSequence ∧
      Advances cfg s (.stream (.subscribe id machineFilter afterSequence)) s₁ ∧
      s' = s₁.spawn requestId id s.world.stream.channels machineFilter afterSequence := by
  cases h with
  | engine el s' hown h =>
    exact Or.inr (Or.inl ⟨el, s', h, .of_events rfl rfl [] (List.append_nil _).symm (by simp)⟩)
  | subscribe requestId id machineFilter afterSequence s₁ hloop h =>
    exact Or.inr (Or.inr ⟨requestId, id, machineFilter, afterSequence, s₁, rfl, h, rfl⟩)
  | confirm requestId id channel encodeError writeError hloop =>
    left
    unfold Link.confirm
    split
    · exact .of_events rfl rfl [_] rfl (by simp [Event.booked])
    · exact .of_events rfl rfl [] (List.append_nil _).symm (by simp)
    · exact .of_events rfl rfl [_] rfl (by simp [Event.booked])
    · exact .of_events rfl rfl [] (List.append_nil _).symm (by simp)
  | unsubscribe id s₁ hloop h =>
    exact Or.inr (Or.inl ⟨_, s₁, h, .of_events rfl rfl [_] rfl (by simp [Event.booked])⟩)
  | answer frames writeError loop hloop hnot =>
    exact Or.inl (.of_events rfl rfl _ rfl (by simp [Event.booked]))
  | close hloop => exact Or.inl (.of_events rfl rfl [] (List.append_nil _).symm (by simp))
  | skip n | receive n | finish n => exact Or.inl (.of_move s n (by simp))
  | write n task record htask hrunning hhand =>
    obtain ⟨hworld, htasks, -⟩ := Untouched.of_move s n Forwarder.asSubscriber_release
    exact Or.inl ⟨hworld, htasks, [_], rfl, by simp [Event.booked]⟩
  | exit n task record e s₁ htask hrunning hhand h =>
    exact Or.inr (Or.inl ⟨_, s₁, h, .of_move s₁ n (by simp)⟩)

/-- The engine under a connection makes a run of its own. -/
theorem engine_run_of_run {cfg : Config} {guards : GuardRegistry} {ls : List LinkLabel} {s : Link}
    (hrun : (link cfg).exec (Link.initial guards) ls = some s) :
    ∃ els, (engine cfg).exec (World.initial Store.empty guards) els = some s.world := by
  refine System.exec_induction (I := fun s => ∃ els, (engine cfg).exec
    (World.initial Store.empty guards) els = some s.world) ⟨[], rfl⟩ ?_ hrun
  rintro s l s' ⟨els, hels⟩ hstep
  obtain hsame | ⟨el, s₁, hadv, hsame⟩ | ⟨_, _, _, _, s₁, rfl, hadv, rfl⟩ :=
    (link_sound hstep).untouched_cases
  · exact ⟨els, by rw [hsame.world]; exact hels⟩
  · exact ⟨els ++ [el], by rw [hsame.world]; exact System.exec_concat_of_step hels hadv.step⟩
  · exact ⟨_, System.exec_concat_of_step hels hadv.step⟩

/-! ### Every channel holds what its subscription asked for -/

/-- A registered subscriber is that of the task. -/
structure ServedBy (task : Forwarder) (sub : Subscriber) : Prop where
  id : sub.id = task.id
  machineFilter : sub.machineFilter = task.machineFilter
  afterSequence : sub.afterSequence = task.afterSequence
  sent : sub.sent = task.got

/-- What is known of a task, whether or not its subscriber is still registered. -/
structure TaskFact (w : World) (task : Forwarder) : Prop where
  lt : task.channel < w.stream.channels
  served : ∀ sub ∈ w.stream.subscribers, sub.channel = task.channel → ServedBy task sub
  exact : w.store.sequence < 2 ^ 64 - 1 → task.afterSequence < 2 ^ 64 - 1 →
    ∃ cursor, Serves Carries w.store task.asSubscriber cursor ∧
      ∀ sub ∈ w.stream.subscribers, sub.channel = task.channel →
        sub.receiverAlive = true → sub.deliveredThrough ≤ cursor

/-- It depends on the subscription only. -/
theorem TaskFact.congr {w : World} {task task' : Forwarder} (h : TaskFact w task)
    (hsame : task.asSubscriber = task'.asSubscriber) : TaskFact w task' := by
  have hfields := hsame
  simp only [Forwarder.asSubscriber, Subscriber.mk.injEq] at hfields
  obtain ⟨hch, hid, hfilter, hafter, -, hgot, -⟩ := hfields
  refine ⟨hch ▸ h.lt, fun sub hsub hsubch => ?_, fun hbound hin => ?_⟩
  · have hserved := h.served sub hsub (hsubch.trans hch.symm)
    exact ⟨hserved.id.trans hid, hserved.machineFilter.trans hfilter,
      hserved.afterSequence.trans hafter, hserved.sent.trans hgot⟩
  · rw [← hsame, ← hch]
    exact h.exact hbound (hafter.symm ▸ hin)

structure LinkInvariant (s : Link) : Prop where
  nodup : (s.tasks.map Forwarder.channel).Nodup
  tasks : ∀ task ∈ s.tasks, TaskFact s.world task

section Invariant

variable {cfg : Config} {s s' : Link}

theorem LinkInvariant.untouched (h : LinkInvariant s) (hq : Untouched s s') : LinkInvariant s' := by
  have hchannels : s'.tasks.map Forwarder.channel = s.tasks.map Forwarder.channel := by
    have := congrArg (List.map Subscriber.channel) hq.tasks
    rwa [List.map_map, List.map_map] at this
  refine ⟨by rw [hchannels]; exact h.nodup, fun task' htask' => ?_⟩
  obtain ⟨task, htask, hsame⟩ := hq.exists_task htask'
  rw [hq.world]
  exact (h.tasks task htask).congr hsame

/-- A subscriber of one of the tasks, a step of the engine later. -/
theorem TaskFact.sent_cases {task : Forwarder} (h : TaskFact s.world task) {l : Label}
    (hadv : Advances cfg s l s') {sub' : Subscriber}
    (hsub' : sub' ∈ s'.world.stream.subscribers) (hch : sub'.channel = task.channel) :
    ∃ sub ∈ s.world.stream.subscribers, SameSubscription sub sub' ∧
      (sub'.sent = sub.sent ∨ sub'.receiverAlive = true ∧ sub.receiverAlive = true ∧
        ∃ change, sub'.sent = sub.sent ++ [change]) := by
  obtain ⟨sl, st, rfl, hsl, hworld⟩ | hsame := (step_sound hadv.step).stream_cases
  · rw [hworld] at hsub'
    obtain ⟨hnew, -⟩ | ⟨sub, hsub, hkept, hsent⟩ := Stream.step_sent hsl hsub'
    · -- a channel that is made now is no task's
      have hlt := h.lt
      rw [← hch, hnew] at hlt
      exact absurd hlt (lt_irrefl _)
    · refine ⟨sub, hsub, hkept, hsent.imp_right ?_⟩
      rintro ⟨change, -, hsent, halive⟩
      exact ⟨halive, hkept.alive halive, change, hsent⟩
  · rw [hsame] at hsub'
    exact ⟨sub', hsub', .refl sub', Or.inl rfl⟩

/-- What a registered subscriber was sent has entered its channel. -/
theorem TaskFact.receive_got {task : Forwarder} (h : TaskFact s.world task) {l : Label}
    (hadv : Advances cfg s l s') (hown : s'.world.stream.OwnChannels) {sub' : Subscriber}
    (hsub' : sub' ∈ s'.world.stream.subscribers) (hch : sub'.channel = task.channel) :
    (task.receive s'.world.stream).got = sub'.sent := by
  obtain ⟨sub, hsub, hkept, hsent⟩ := h.sent_cases hadv hsub' hch
  have hgot := (h.served sub hsub (hkept.channel.symm.trans hch)).sent
  -- what is new is what comes after `got`
  have harrive : task.arrivals s'.world.stream = sub'.sent.drop task.got.length := by
    unfold Forwarder.arrivals
    rw [hown.find hsub' hch]
  have hprefix : task.got <+: sub'.sent := by
    obtain heq | ⟨-, -, change, heq⟩ := hsent
    · rw [heq, hgot]
    · rw [heq, hgot]
      exact List.prefix_append _ _
  rw [Forwarder.got_receive, harrive]
  exact List.prefix_iff_eq_append.mp hprefix

/-- Nothing enters a channel without a live subscriber. -/
theorem TaskFact.arrivals_nil {task : Forwarder} (h : TaskFact s.world task) {l : Label}
    (hadv : Advances cfg s l s') (hown : s'.world.stream.OwnChannels)
    (hdead : ∀ sub' ∈ s'.world.stream.subscribers, sub'.channel = task.channel →
      sub'.receiverAlive = false) : task.arrivals s'.world.stream = [] := by
  by_cases hreg : ∃ sub' ∈ s'.world.stream.subscribers, sub'.channel = task.channel
  · obtain ⟨sub', hsub', hch⟩ := hreg
    have hgot := h.receive_got hadv hown hsub' hch
    obtain ⟨sub, hsub, hkept, heq | ⟨halive, -⟩⟩ := h.sent_cases hadv hsub' hch
    · have hold := (h.served sub hsub (hkept.channel.symm.trans hch)).sent
      rw [Forwarder.got_receive, heq, hold] at hgot
      exact List.append_right_eq_self.mp hgot
    · rw [hdead sub' hsub' hch] at halive
      exact absurd halive Bool.false_ne_true
  · unfold Forwarder.arrivals
    rw [List.find?_eq_none.mpr]
    intro sub' hsub' hch
    exact hreg ⟨sub', hsub', beq_iff_eq.mp hch⟩

theorem Advances.channels_le {l : Label} (hadv : Advances cfg s l s') :
    s.world.stream.channels ≤ s'.world.stream.channels := by
  obtain ⟨sl, st, -, hsl, hworld⟩ | hsame := (step_sound hadv.step).stream_cases
  · rw [hworld]
    exact Stream.step_channels_le hsl
  · rw [hsame]

/-- **A step of the engine keeps a channel exact.** -/
theorem TaskFact.advance {task : Forwarder} (h : TaskFact s.world task) {l : Label}
    (hadv : Advances cfg s l s') {guards : GuardRegistry} {els : List Label}
    (hels : (engine cfg).exec (World.initial Store.empty guards) els = some s.world) :
    TaskFact s'.world (task.receive s'.world.stream) := by
  have hrun' := System.exec_concat_of_step hels hadv.step
  have hown := ownChannels_of_run hrun'
  have hserved : ∀ sub' ∈ s'.world.stream.subscribers, sub'.channel = task.channel →
      ServedBy (task.receive s'.world.stream) sub' := by
    intro sub' hsub' hch
    obtain ⟨sub, hsub, hkept, -⟩ := h.sent_cases hadv hsub' hch
    have hold := h.served sub hsub (hkept.channel.symm.trans hch)
    exact ⟨hkept.id.trans hold.id, hkept.machineFilter.trans hold.machineFilter,
      hkept.afterSequence.trans hold.afterSequence, (h.receive_got hadv hown hsub' hch).symm⟩
  refine ⟨h.lt.trans_le hadv.channels_le, hserved, fun hbound hin => ?_⟩
  by_cases hlive : ∃ sub' ∈ s'.world.stream.subscribers, sub'.channel = task.channel ∧
    sub'.receiverAlive = true
  · -- a live subscriber has been sent what its cursor says
    obtain ⟨sub', hsub', hch, halive⟩ := hlive
    obtain ⟨idx, hidx⟩ := List.getElem?_of_mem hsub'
    have hserve := hserved sub' hsub' hch
    have hserves := (carries_of_run hrun' hbound).serves idx sub' hidx
      (by unfold Subscriber.InRange; rwa [hserve.afterSequence])
    have hafter := hserves.after_le
    have hend := hserves.le_end
    rw [hserve.afterSequence] at hafter hend
    refine ⟨s'.world.stream.pass.cursorOf idx sub', ⟨hafter, hend, hafter, fun _ => ?_⟩,
      fun sub hsub hch' _ => ?_⟩
    · have hsent := hserves.sent halive
      have hwants : sub'.wants = (task.receive s'.world.stream).asSubscriber.wants := by
        funext r
        unfold Subscriber.wants
        rw [hserve.machineFilter]
        rfl
      rw [hserve.afterSequence, hserve.sent, hwants] at hsent
      exact hsent
    · rw [List.inj_on_of_nodup_map hown.nodup hsub hsub' (hch'.trans hch.symm)]
      exact hserves.delivered_le
  · -- what entered the channel before is all that ever will
    push Not at hlive
    have hnone := h.arrivals_nil hadv hown fun sub' hsub' hch =>
      Bool.eq_false_iff.mpr (hlive sub' hsub' hch)
    have hsame : task.receive s'.world.stream = task := by
      unfold Forwarder.receive
      rw [hnone, List.append_nil]
    rw [hsame] at hin ⊢
    have hle := (step_sound hadv.step).sequence_le
    obtain ⟨cursor, hserves, -⟩ := h.exact (hle.trans_lt hbound) hin
    have hgrows := (step_sound hadv.step).log_grows (keyInvariant_of_run hels).log
    refine ⟨cursor, hserves.grow hgrows fun _ _ _ hr => hr, fun sub hsub hch halive => ?_⟩
    exact absurd halive (hlive sub hsub hch)

theorem LinkInvariant.advance (h : LinkInvariant s) {l : Label} (hadv : Advances cfg s l s')
    {guards : GuardRegistry} {els : List Label}
    (hels : (engine cfg).exec (World.initial Store.empty guards) els = some s.world) :
    LinkInvariant s' := by
  refine ⟨?_, fun task' htask' => ?_⟩
  · rw [hadv.tasks, List.map_map]
    exact h.nodup
  · rw [hadv.tasks] at htask'
    obtain ⟨task, htask, rfl⟩ := List.mem_map.mp htask'
    exact (h.tasks task htask).advance hadv hels

/-- What a subscription does to the subscriber list. -/
theorem Advances.subscribed {id : String} {machineFilter : Option MachineName} {afterSequence : ℕ}
    (hadv : Advances cfg s (.stream (.subscribe id machineFilter afterSequence)) s') :
    s'.world.store = s.world.store ∧
      s'.world.stream.channels = s.world.stream.channels + 1 ∧
      s'.world.stream.subscribers = s.world.stream.subscribers ++
        [(Forwarder.mk id s.world.stream.channels machineFilter afterSequence [] none []
          true).asSubscriber] := by
  have hstep := hadv.step
  simp only [engine, World.step, Option.map_eq_some_iff, Stream.step,
    Option.ite_none_left_eq_some] at hstep
  obtain ⟨st, ⟨-, hst⟩, hworld⟩ := hstep
  obtain rfl := Option.some.inj hst
  rw [← hworld]
  exact ⟨rfl, rfl, rfl⟩

/-- A subscription that starts: its channel is new and empty. -/
theorem LinkInvariant.spawn (h : LinkInvariant s) (requestId : ℕ) {id : String}
    {machineFilter : Option MachineName} {afterSequence : ℕ}
    (hadv : Advances cfg s (.stream (.subscribe id machineFilter afterSequence)) s')
    {guards : GuardRegistry} {els : List Label}
    (hels : (engine cfg).exec (World.initial Store.empty guards) els = some s.world) :
    LinkInvariant (s'.spawn requestId id s.world.stream.channels machineFilter afterSequence) := by
  have h' := h.advance hadv hels
  have hown := ownChannels_of_run hels
  obtain ⟨-, hchannels, hsubs⟩ := hadv.subscribed
  refine ⟨?_, fun task htask => ?_⟩
  · -- no task had the channel
    unfold Link.spawn
    rw [List.map_append, List.map_singleton]
    refine List.Nodup.append h'.nodup (List.nodup_singleton _) ?_
    rintro channel hold hnew
    obtain ⟨task', htask', rfl⟩ := List.mem_map.mp hold
    rw [hadv.tasks] at htask'
    obtain ⟨task, htask, rfl⟩ := List.mem_map.mp htask'
    exact (h.tasks task htask).lt.ne (List.mem_singleton.mp hnew)
  · rcases List.mem_append.mp htask with hold | hnew
    · exact h'.tasks task hold
    · obtain rfl := List.mem_singleton.mp hnew
      -- the subscriber on the new channel is the new one
      have honly : ∀ sub ∈ s'.world.stream.subscribers, sub.channel = s.world.stream.channels →
          sub = (Forwarder.mk id s.world.stream.channels machineFilter afterSequence [] none []
            true).asSubscriber := by
        intro sub hsub hch
        rw [hsubs] at hsub
        rcases List.mem_append.mp hsub with hsub | hsub
        · exact absurd hch (hown.lt sub hsub).ne
        · exact List.mem_singleton.mp hsub
      refine ⟨?_, fun sub hsub hch => ?_, fun _ _ => ⟨afterSequence, ⟨le_rfl, le_max_left _ _, le_rfl,
        fun _ => ?_⟩, fun sub hsub hch _ => ?_⟩⟩
      · exact hchannels ▸ Nat.lt_succ_self _
      · obtain rfl := honly sub hsub hch
        exact ⟨rfl, rfl, rfl, rfl⟩
      · have hnil : (s'.world.store.log.take afterSequence).drop afterSequence = [] :=
          List.drop_eq_nil_of_le (List.length_take_le _ _)
        change List.Forall₂ _ (List.filter _
          ((s'.world.store.log.take afterSequence).drop afterSequence)) []
        rw [hnil]
        exact List.Forall₂.nil
      · obtain rfl := honly sub hsub hch
        exact le_rfl

theorem linkInvariant_of_run {guards : GuardRegistry} {ls : List LinkLabel}
    (hrun : (link cfg).exec (Link.initial guards) ls = some s) : LinkInvariant s := by
  refine System.exec_induction_labels (I := fun _ s => LinkInvariant s) ?_ ?_ hrun
  · exact ⟨List.nodup_nil, fun task htask => absurd htask List.not_mem_nil⟩
  · intro ls s l s' hrun ih hstep
    obtain ⟨els, hels⟩ := engine_run_of_run hrun
    obtain hsame | ⟨el, s₁, hadv, hsame⟩ | ⟨requestId, _, _, _, s₁, rfl, hadv, rfl⟩ :=
      (link_sound hstep).untouched_cases
    · exact ih.untouched hsame
    · exact (ih.advance hadv hels).untouched hsame
    · exact ih.spawn requestId hadv hels

end Invariant

/-- An order is paid under a connection. -/
def paymentOnLink : List LinkLabel :=
  (Label.invoke 0 (payOrder 0 "o1" none) :: steps 0 8).map .engine

end Wire

end StateMaster
