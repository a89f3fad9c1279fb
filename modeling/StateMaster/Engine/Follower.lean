import StateMaster.Engine.ReadFaults
import StateMaster.Engine.Restart

/-!
# Following the log across restarts

A subscription does not survive the process: after a restart the list of subscribers is empty. A
client that wants every change keeps what it has received and subscribes again after the last
sequence number it has seen. `following` runs such a client next to an engine that may crash at any
moment, whose reads may fail, and in which others may end the client's subscription by reusing its
id.

The queue of the client is its channel: what was sent into it stays there when the sender is gone,
and is lost when the client leaves the channel or the process stops.

* `Attached` — the channel of the running process goes on where what was received before ends;
* `follower_gapless` — what the client has received is, at every moment, the beginning of what it
  wants of the log: nothing is missing, doubled or out of order; and it is all of it once its
  subscriber is at the end of the log and its queue is empty.
-/

open Framework Framework.Text

namespace StateMaster

/-- The records a client with this filter asks for. -/
def wantedBy (filter : Option MachineName) (r : TransitionRecord) : Bool :=
  match filter with
  | some machine => r.machine == machine
  | none => true

theorem Subscriber.wants_eq {sub : Subscriber} {filter : Option MachineName}
    (h : sub.machineFilter = filter) : sub.wants = wantedBy filter := by
  subst h
  rfl

/-- A client: what it has received, and its channel in the running process, with what has been sent
into it and how much of that it has taken. -/
structure Follower where
  received : List ChangeRecord
  channel : Option ℕ
  queue : List ChangeRecord
  taken : ℕ

namespace Follower

/-- The last sequence number it has seen. -/
def cursor (f : Follower) : ℕ := (f.received.getLast?.map ChangeRecord.sequence).getD 0

/-- Without a channel. -/
def detached (received : List ChangeRecord) : Follower := ⟨received, none, [], 0⟩

/-- What has been sent into the channel by now. -/
def watch (f : Follower) (st : Stream) : Follower :=
  match f.channel.bind fun ch => st.subscribers.find? fun sub => sub.channel == ch with
  | some sub => { f with queue := sub.sent }
  | none => f

/-- Watching the channel changes nothing but the queue. -/
theorem watch_eq (f : Follower) (st : Stream) :
    ∃ queue, f.watch st = { f with queue } ∧ (f.channel = none → queue = f.queue) := by
  cases hfind : f.channel.bind fun ch => st.subscribers.find? fun sub => sub.channel == ch with
  | none => exact ⟨f.queue, by simp only [watch, hfind], fun _ => rfl⟩
  | some sub =>
    refine ⟨sub.sent, by simp only [watch, hfind], fun hnone => ?_⟩
    rw [hnone] at hfind
    exact nomatch hfind

end Follower

/-- The engine and the client. -/
structure Following where
  world : World
  follower : Follower

def Following.initial (guards : GuardRegistry) : Following :=
  ⟨World.initial Store.empty guards, .detached []⟩

inductive FollowLabel where
  /-- A step of the engine. -/
  | engine (l : Label)
  /-- The process stops and is started again. -/
  | crash (guards : GuardRegistry)
  /-- The client subscribes after what it has received. -/
  | subscribe (id : String)
  /-- The client drops its receiver. -/
  | leave
  /-- The client takes the next change. -/
  | receive

/-- The step drops the receiver of this channel. -/
def Label.drops (channel : Option ℕ) : Label → Bool
  | .stream (.dropReceiver ch) => channel == some ch
  | _ => false

namespace Following

def step (cfg : Config) (filter : Option MachineName) (s : Following) : FollowLabel → Option Following
  | .engine l =>
    -- the receiver of the client's own channel is dropped by nobody else
    if l.drops s.follower.channel then none
    else (s.world.step cfg l).map fun world => ⟨world, s.follower.watch world.stream⟩
  | .crash guards => some ⟨s.world.restart guards, .detached s.follower.received⟩
  | .subscribe id =>
    match s.follower.channel with
    | none => (s.world.step cfg (.stream (.subscribe id filter s.follower.cursor))).map fun world =>
        ⟨world, { s.follower with channel := some s.world.stream.channels, queue := [], taken := 0 }⟩
    | some _ => none
  | .leave =>
    match s.follower.channel with
    | none => none
    | some channel => (s.world.step cfg (.stream (.dropReceiver channel))).map fun world =>
        ⟨world, .detached s.follower.received⟩
  | .receive =>
    match s.follower.queue[s.follower.taken]? with
    | none => none
    | some change => some { s with follower := { s.follower with
        received := s.follower.received ++ [change]
        taken := s.follower.taken + 1 } }

end Following

/-- The engine and a client as a system. -/
def following (cfg : Config) (filter : Option MachineName) : System Following FollowLabel where
  step := Following.step cfg filter

/-! ### What a step can do -/

/-- Everything a step can do. -/
inductive FollowStep (cfg : Config) (filter : Option MachineName) (s : Following) :
    Following → Prop where
  | engine (l : Label) (world : World) (hstep : Step cfg s.world l world)
      (hkeep : l.drops s.follower.channel = false) :
      FollowStep cfg filter s ⟨world, s.follower.watch world.stream⟩
  | crash (guards : GuardRegistry) :
      FollowStep cfg filter s ⟨s.world.restart guards, .detached s.follower.received⟩
  | subscribe (id : String) (world : World)
      (hstep : Step cfg s.world (.stream (.subscribe id filter s.follower.cursor)) world) :
      FollowStep cfg filter s ⟨world, { s.follower with
        channel := some s.world.stream.channels, queue := [], taken := 0 }⟩
  | leave (channel : ℕ) (world : World)
      (hstep : Step cfg s.world (.stream (.dropReceiver channel)) world) :
      FollowStep cfg filter s ⟨world, .detached s.follower.received⟩
  | receive (change : ChangeRecord) (hnext : s.follower.queue[s.follower.taken]? = some change) :
      FollowStep cfg filter s { s with follower := { s.follower with
        received := s.follower.received ++ [change], taken := s.follower.taken + 1 } }

theorem followStep_sound {cfg : Config} {filter : Option MachineName} {s s' : Following}
    {l : FollowLabel} (h : (following cfg filter).step s l = some s') : FollowStep cfg filter s s' := by
  change Following.step cfg filter s l = some s' at h
  cases l with
  | engine l =>
    simp only [Following.step, Option.ite_none_left_eq_some, Option.map_eq_some_iff,
      Bool.not_eq_true] at h
    obtain ⟨hkeep, world, hstep, rfl⟩ := h
    exact .engine l world (step_sound hstep) hkeep
  | crash guards =>
    obtain rfl := Option.some.inj h
    exact .crash guards
  | subscribe id =>
    cases hch : s.follower.channel with
    | some ch =>
      simp only [Following.step, hch] at h
      exact nomatch h
    | none =>
      simp only [Following.step, hch, Option.map_eq_some_iff] at h
      obtain ⟨world, hstep, rfl⟩ := h
      exact .subscribe id world (step_sound hstep)
  | leave =>
    cases hch : s.follower.channel with
    | none =>
      simp only [Following.step, hch] at h
      exact nomatch h
    | some ch =>
      simp only [Following.step, hch, Option.map_eq_some_iff] at h
      obtain ⟨world, hstep, rfl⟩ := h
      exact .leave ch world (step_sound hstep)
  | receive =>
    cases hnext : s.follower.queue[s.follower.taken]? with
    | none =>
      simp only [Following.step, hnext] at h
      exact nomatch h
    | some change =>
      simp only [Following.step, hnext] at h
      obtain rfl := Option.some.inj h
      exact .receive change hnext

/-! ### Receivers -/

/-- A channel and whether somebody receives from it. -/
def Subscriber.receiver (sub : Subscriber) : ℕ × Bool := (sub.channel, sub.receiverAlive)

section Receivers

variable {S : Store} {st st' : Stream} {sub' : Subscriber}

/-- A pass leaves the receivers alone. -/
theorem Stream.passStep_receiver {fault : Option Fault} (h : st.passStep S fault = some st')
    (hsub' : sub' ∈ st'.subscribers) : ∃ sub ∈ st.subscribers, sub.receiver = sub'.receiver := by
  have hmodify : ∀ {idx : ℕ} {f : Subscriber → Subscriber}, sub' ∈ st.subscribers.modify idx f →
      (∀ sub, (f sub).receiver = sub.receiver) →
      ∃ sub ∈ st.subscribers, sub.receiver = sub'.receiver := by
    intro idx f hmem hf
    obtain hold | ⟨old, hget, rfl⟩ := mem_modify_cases hmem
    · exact ⟨sub', hold, rfl⟩
    · exact ⟨old, List.mem_of_getElem? hget, (hf old).symm⟩
  obtain hpass | ⟨-, hfaulty⟩ := passStep_cases h
  · cases hpass with
    | send => exact hmodify hsub' fun _ => rfl
    | gone => exact hmodify hsub' fun _ => rfl
    | endBatch => exact hmodify hsub' fun _ => rfl
    | prune delivered dead hp =>
      dsimp only at hsub'
      split at hsub'
      · exact ⟨sub', hsub', rfl⟩
      · exact ⟨sub', (List.mem_filter.mp hsub').1, rfl⟩
    | _ => exact ⟨sub', hsub', rfl⟩
  · cases hfaulty with
    | unread => exact ⟨sub', hsub', rfl⟩
    | truncated => exact hmodify hsub' fun _ => rfl

/-- A receiver that is there before a step is there after it, unless the step drops it. -/
theorem Stream.step_receiver {l : StreamLabel} {ch : ℕ}
    (hkeep : (Label.stream l).drops (some ch) = false) (hstep : st.step S l = some st')
    (halive : ∀ sub ∈ st.subscribers, sub.channel = ch → sub.receiverAlive = true) :
    ∀ sub' ∈ st'.subscribers, sub'.channel = ch → sub'.receiverAlive = true := by
  have hold : ∀ {sub sub' : Subscriber}, sub ∈ st.subscribers → sub.receiver = sub'.receiver →
      sub'.channel = ch → sub'.receiverAlive = true := by
    intro sub sub' hsub heq hsub'
    obtain ⟨hchan, hrecv⟩ := Prod.mk.inj heq
    rw [← hrecv]
    exact halive sub hsub (hchan.trans hsub')
  intro sub' hsub' hsub'ch
  cases l with
  | subscribe id machineFilter afterSequence =>
    simp only [Stream.step, Option.ite_none_left_eq_some] at hstep
    obtain rfl := Option.some.inj hstep.2
    obtain hmem | hnew := List.mem_append.mp hsub'
    · exact hold hmem rfl hsub'ch
    · rw [List.mem_singleton.mp hnew]
  | unsubscribe id =>
    simp only [Stream.step, Option.ite_none_left_eq_some] at hstep
    obtain rfl := Option.some.inj hstep.2
    exact hold (List.mem_filter.mp hsub').1 rfl hsub'ch
  | dropReceiver channel =>
    obtain rfl := Option.some.inj hstep
    obtain ⟨sub, hsub, rfl⟩ := List.mem_map.mp hsub'
    have hsubch : sub.channel = ch := hsub'ch
    -- it is another receiver that is dropped
    have hne : ch ≠ channel := by simpa [Label.drops] using hkeep
    change (sub.receiverAlive && sub.channel != channel) = true
    rw [halive sub hsub hsubch, hsubch, Bool.true_and, bne_iff_ne]
    exact hne
  | pass fault =>
    obtain ⟨sub, hsub, heq⟩ := Stream.passStep_receiver hstep hsub'
    exact hold hsub heq hsub'ch

end Receivers

/-! ### What has been received -/

section Log

variable {S S' : Store} {filter : Option MachineName}

/-- **A beginning of what is wanted is what is wanted up to its last record.** -/
theorem LogInvariant.wanted_take (hS : LogInvariant S) {records : List TransitionRecord}
    (h : records <+: S.log.filter (wantedBy filter)) :
    (S.log.take ((records.getLast?.map TransitionRecord.sequence).getD 0)).filter (wantedBy filter)
      = records := by
  obtain ⟨rest, hrest⟩ := h
  rcases List.eq_nil_or_concat records with rfl | ⟨front, last, rfl⟩
  · rfl
  · rw [List.concat_eq_append] at hrest ⊢
    rw [List.append_assoc] at hrest
    -- the log, cut before and after the last record
    obtain ⟨l₁, l₂, hlog, hl₁, hl₂⟩ := List.filter_eq_append_iff.mp hrest.symm
    obtain ⟨l₃, l₄, rfl, hl₃, hlast, -⟩ := List.filter_eq_cons_iff.mp hl₂
    have hget : S.log[(l₁ ++ l₃).length]? = some last := by
      rw [hlog, ← List.append_assoc, List.getElem?_append_right le_rfl, Nat.sub_self]
      rfl
    have hnone : l₃.filter (wantedBy filter) = [] := List.filter_eq_nil_iff.mpr hl₃
    rw [List.getLast?_concat, Option.map_some, Option.getD_some, hS.sequence_of_getElem? hget, hlog,
      ← List.append_assoc, List.take_succ_eq_append_getElem (by simp), List.take_left]
    simp [List.filter_append, hl₁, hnone, hlast]

theorem Carries.last_sequence {records : List TransitionRecord} {received : List ChangeRecord}
    (h : List.Forall₂ Carries records received) :
    received.getLast?.map ChangeRecord.sequence
      = records.getLast?.map TransitionRecord.sequence := by
  have hseq : received.map ChangeRecord.sequence = records.map TransitionRecord.sequence := by
    induction h with
    | nil => rfl
    | cons hcarries _ ih => rw [List.map_cons, List.map_cons, hcarries.sequence, ih]
  rw [← List.getLast?_map, ← List.getLast?_map, hseq]

/-- What has been received is a beginning of what is wanted. -/
def Gapless (filter : Option MachineName) (S : Store) (received : List ChangeRecord) : Prop :=
  ∃ records, records <+: S.log.filter (wantedBy filter) ∧ List.Forall₂ Carries records received

theorem Gapless.grow {received : List ChangeRecord} (h : Gapless filter S received)
    (hlog : S.log <+: S'.log) : Gapless filter S' received := by
  obtain ⟨records, hpre, hcarries⟩ := h
  exact ⟨records, hpre.trans (hlog.filter _), hcarries⟩

/-- The channel of the client was asked for after `a`. Before it, the client had received `base`,
which is what it wants of the log up to `a`; the queue is what it wants from there up to some `b`. -/
structure Attached (filter : Option MachineName) (S : Store) (st : Stream) (f : Follower)
    (ch a : ℕ) (base : List ChangeRecord) : Prop where
  lt : ch < st.channels
  le : a ≤ S.log.length
  taken_le : f.taken ≤ f.queue.length
  received : f.received = base ++ f.queue.take f.taken
  base : List.Forall₂ Carries ((S.log.take a).filter (wantedBy filter)) base
  queue : ∃ b ≤ S.log.length,
    List.Forall₂ Carries (((S.log.take b).drop a).filter (wantedBy filter)) f.queue
  alive : ∀ sub ∈ st.subscribers, sub.channel = ch → sub.receiverAlive = true
  asked : ∀ sub ∈ st.subscribers, sub.channel = ch →
    sub.machineFilter = filter ∧ sub.afterSequence = a ∧ sub.sent = f.queue

/-- What is before a cut and a beginning of what is behind it. -/
theorem prefix_of_cut {l : List TransitionRecord} {a b k : ℕ} {p : TransitionRecord → Bool} :
    (l.take a).filter p ++ (((l.take b).drop a).filter p).take k <+: l.filter p := by
  have hbehind : (((l.take b).drop a).filter p).take k <+: (l.drop a).filter p := by
    refine (List.take_prefix _ _).trans (List.IsPrefix.filter p ?_)
    rw [List.drop_take]
    exact List.take_prefix _ _
  obtain ⟨rest, hrest⟩ := hbehind
  refine ⟨rest, ?_⟩
  rw [List.append_assoc, hrest, ← List.filter_append, List.take_append_drop]

theorem Attached.gapless {st : Stream} {f : Follower} {ch a : ℕ} {base : List ChangeRecord}
    (h : Attached filter S st f ch a base) : Gapless filter S f.received := by
  obtain ⟨b, -, hqueue⟩ := h.queue
  refine ⟨_, prefix_of_cut (a := a) (b := b) (k := f.taken), ?_⟩
  rw [h.received]
  exact List.rel_append h.base (List.forall₂_take f.taken hqueue)

end Log

/-! ### The invariant -/

structure FollowInvariant (filter : Option MachineName) (s : Following) : Prop where
  keys : KeyInvariant s.world
  own : s.world.stream.OwnChannels
  stream : StreamInvariant Carries s.world.store s.world.stream
  received : Gapless filter s.world.store s.follower.received
  detached : s.follower.channel = none → s.follower.queue = []
  attached : ∀ ch, s.follower.channel = some ch →
    ∃ a base, Attached filter s.world.store s.world.stream s.follower ch a base

section Steps

variable {cfg : Config} {filter : Option MachineName} {s s' : Following}

/-- A client without a channel has only what it has received to keep. -/
theorem FollowInvariant.detach (h : FollowInvariant filter s) {world : World}
    (hkeys : KeyInvariant world) (hown : world.stream.OwnChannels)
    (hstream : StreamInvariant Carries world.store world.stream)
    (hlog : s.world.store.log <+: world.store.log) :
    FollowInvariant filter ⟨world, .detached s.follower.received⟩ :=
  ⟨hkeys, hown, hstream, h.received.grow hlog, fun _ => rfl, fun _ hch => nomatch hch⟩

/-- The engine under the client. -/
theorem FollowInvariant.world_step (h : FollowInvariant filter s)
    (hbound : s.world.store.sequence < 2 ^ 64 - 1) {l : Label} {world : World}
    (hstep : Step cfg s.world l world) :
    KeyInvariant world ∧ world.stream.OwnChannels ∧
      StreamInvariant Carries world.store world.stream := by
  refine ⟨h.keys.step hstep, ?_, ?_⟩
  · obtain ⟨sl, st, -, hsl, rfl⟩ | hsame := hstep.stream_cases
    · exact h.own.step hsl
    · rw [hsame]
      exact h.own
  · obtain ⟨sl, st, -, hsl, rfl⟩ | hsame := hstep.stream_cases
    · -- whatever fails, what is sent carries its record
      exact h.stream.step h.keys.log hbound (fun _ _ => rfl) (fun _ _ _ _ => rfl) hsl
    · rw [hsame]
      exact h.stream.grow (hstep.log_grows h.keys.log) fun _ _ _ hcarries => hcarries

/-- What stands in the list under the client's channel after a step is its subscription still, with
what it had been sent before at the front. -/
theorem Attached.subscriber_step {f : Follower} {w w' : World} {ch a : ℕ} {base : List ChangeRecord}
    (h : Attached filter w.store w.stream f ch a base) {l : Label}
    (hkeep : l.drops (some ch) = false) (hstep : Step cfg w l w') :
    ∀ sub' ∈ w'.stream.subscribers, sub'.channel = ch → sub'.receiverAlive = true ∧
      sub'.machineFilter = filter ∧ sub'.afterSequence = a ∧ f.queue <+: sub'.sent := by
  intro sub' hsub' hch
  obtain ⟨sl, st, rfl, hsl, rfl⟩ | hsame := hstep.stream_cases
  · refine ⟨Stream.step_receiver hkeep hsl h.alive sub' hsub' hch, ?_⟩
    obtain ⟨hnew, -⟩ | ⟨sub, hsub, hcont, hsent⟩ := Stream.step_sent hsl hsub'
    · -- a channel made now is not the client's
      exact absurd (hch.symm.trans hnew) h.lt.ne
    · obtain ⟨hfilter, hafter, hqueue⟩ := h.asked sub hsub (hcont.channel.symm.trans hch)
      refine ⟨hcont.machineFilter.trans hfilter, hcont.afterSequence.trans hafter, ?_⟩
      obtain heq | ⟨change, -, heq, -⟩ := hsent
      · rw [heq, hqueue]
      · rw [heq, hqueue]
        exact List.prefix_append _ _
  · rw [hsame] at hsub'
    obtain ⟨hfilter, hafter, hqueue⟩ := h.asked sub' hsub' hch
    exact ⟨h.alive sub' hsub' hch, hfilter, hafter, hqueue ▸ List.prefix_refl _⟩

/-- **The channel after a step of the engine.** -/
theorem Attached.step {f : Follower} {w w' : World} {ch a : ℕ} {base : List ChangeRecord}
    (h : Attached filter w.store w.stream f ch a base) (hf : f.channel = some ch) {l : Label}
    (hkeep : l.drops (some ch) = false) (hstep : Step cfg w l w') (hS : LogInvariant w.store)
    (hS' : LogInvariant w'.store) (hbound : w'.store.sequence < 2 ^ 64 - 1)
    (hown : w'.stream.OwnChannels) (hstream : StreamInvariant Carries w'.store w'.stream) :
    Attached filter w'.store w'.stream (f.watch w'.stream) ch a base := by
  have hlog := hstep.log_grows hS
  have hsubs := h.subscriber_step hkeep hstep
  have hle : a ≤ w'.store.log.length := h.le.trans hlog.length_le
  have hlt : ch < w'.stream.channels := by
    refine h.lt.trans_le ?_
    obtain ⟨sl, st, -, hsl, rfl⟩ | hsame := hstep.stream_cases
    · exact Stream.step_channels_le hsl
    · rw [hsame]
  -- what was cut off the old log is cut off the new one
  have htake : ∀ b ≤ w.store.log.length, w'.store.log.take b = w.store.log.take b := by
    intro b hb
    obtain ⟨rest, hrest⟩ := hlog
    rw [← hrest, List.take_append_of_le_length hb]
  have hbase : List.Forall₂ Carries ((w'.store.log.take a).filter (wantedBy filter)) base := by
    rw [htake a h.le]
    exact h.base
  unfold Follower.watch
  rw [hf, Option.bind_some]
  cases hfind : w'.stream.subscribers.find? (fun sub => sub.channel == ch) with
  | none =>
    -- the subscription is over, the queue is what it was
    have hgone : ∀ sub ∈ w'.stream.subscribers, sub.channel ≠ ch := by
      intro sub hsub hch
      exact List.find?_eq_none.mp hfind sub hsub (beq_iff_eq.mpr hch)
    obtain ⟨b, hb, hqueue⟩ := h.queue
    refine ⟨hlt, hle, h.taken_le, h.received, hbase, ⟨b, hb.trans hlog.length_le, ?_⟩,
      fun sub hsub hch => absurd hch (hgone sub hsub), fun sub hsub hch => absurd hch (hgone sub hsub)⟩
    rw [htake b hb]
    exact hqueue
  | some sub =>
    have hsub := List.mem_of_find?_eq_some hfind
    have hch := List.find?_some hfind
    rw [beq_iff_eq] at hch
    obtain ⟨halive, hfilter, hafter, hqueue⟩ := hsubs sub hsub hch
    obtain ⟨idx, hidx⟩ := List.getElem?_of_mem hsub
    have hserves := hstream.serves idx sub hidx (by
      unfold Subscriber.InRange
      rw [hafter, ← hS'.length_log] at *
      omega)
    have hsent := hserves.sent halive
    have hend := hserves.le_end
    rw [hafter, Subscriber.wants_eq hfilter] at hsent
    rw [hafter, max_eq_right hle] at hend
    refine ⟨hlt, hle, h.taken_le.trans hqueue.length_le, ?_, hbase, ⟨_, hend, hsent⟩,
      fun sub' hsub' hch' => (hsubs sub' hsub' hch').1, fun sub' hsub' hch' => ?_⟩
    · -- what has been taken stands at the front of the queue
      obtain ⟨more, hmore⟩ := hqueue
      change f.received = base ++ sub.sent.take f.taken
      rw [← hmore, List.take_append_of_le_length h.taken_le]
      exact h.received
    · obtain rfl := List.inj_on_of_nodup_map hown.nodup hsub' hsub (hch'.trans hch.symm)
      exact ⟨hfilter, hafter, rfl⟩

/-- **The channel of a client that subscribes** goes on after the last record it has received. -/
theorem FollowInvariant.attach (h : FollowInvariant filter s) {id : String} {world : World}
    (hstep : Step cfg s.world (.stream (.subscribe id filter s.follower.cursor)) world) :
    ∃ a base, Attached filter world.store world.stream { s.follower with
      channel := some s.world.stream.channels, queue := [], taken := 0 } s.world.stream.channels a
        base := by
  obtain ⟨records, hpre, hcarries⟩ := h.received
  have hcursor : s.follower.cursor = (records.getLast?.map TransitionRecord.sequence).getD 0 := by
    unfold Follower.cursor
    rw [Carries.last_sequence hcarries]
  cases hstep with
  | stream sl st hsl =>
  simp only [Stream.step, Option.ite_none_left_eq_some] at hsl
  obtain rfl := Option.some.inj hsl.2
  -- the new subscriber is the only one with this channel
  have honly : ∀ sub ∈ s.world.stream.subscribers, sub.channel ≠ s.world.stream.channels :=
    fun sub hsub => (h.own.lt sub hsub).ne
  have hle : s.follower.cursor ≤ s.world.store.log.length := by
    rw [hcursor]
    cases hlast : records.getLast? with
    | none => exact Nat.zero_le _
    | some last =>
      have hmem : last ∈ s.world.store.log :=
        (List.mem_filter.mp (hpre.subset (List.mem_of_getLast? hlast))).1
      rw [Option.map_some, Option.getD_some, h.keys.log.length_log]
      exact h.keys.log.sequence_le_of_mem hmem
  refine ⟨s.follower.cursor, s.follower.received, ⟨Nat.lt_succ_self _, hle, le_rfl, ?_, ?_, ?_, ?_, ?_⟩⟩
  · rw [List.take_nil, List.append_nil]
  · rw [hcursor, h.keys.log.wanted_take hpre]
    exact hcarries
  · refine ⟨0, Nat.zero_le _, ?_⟩
    rw [List.take_zero, List.drop_nil]
    exact List.Forall₂.nil
  · intro sub hsub hch
    obtain hold | hnew := List.mem_append.mp hsub
    · exact absurd hch (honly sub hold)
    · rw [List.mem_singleton.mp hnew]
  · intro sub hsub hch
    obtain hold | hnew := List.mem_append.mp hsub
    · exact absurd hch (honly sub hold)
    · rw [List.mem_singleton.mp hnew]
      exact ⟨rfl, rfl, rfl⟩

/-- One more change taken from the queue. -/
theorem Attached.receive {S : Store} {st : Stream} {f : Follower} {ch a : ℕ}
    {base : List ChangeRecord} (h : Attached filter S st f ch a base) {change : ChangeRecord}
    (hnext : f.queue[f.taken]? = some change) : Attached filter S st { f with
      received := f.received ++ [change], taken := f.taken + 1 } ch a base := by
  obtain ⟨hlt, hget⟩ := List.getElem?_eq_some_iff.mp hnext
  refine ⟨h.lt, h.le, hlt, ?_, h.base, h.queue, h.alive, h.asked⟩
  change f.received ++ [change] = base ++ f.queue.take (f.taken + 1)
  rw [h.received, List.take_succ_eq_append_getElem hlt, hget, List.append_assoc]

theorem FollowStep.sequence_le (hstep : FollowStep cfg filter s s') :
    s.world.store.sequence ≤ s'.world.store.sequence := by
  cases hstep with
  | engine l world hstep _ => exact hstep.sequence_le
  | subscribe id world hstep => exact hstep.sequence_le
  | leave channel world hstep => exact hstep.sequence_le
  | crash guards => exact le_rfl
  | receive change _ => exact le_rfl

theorem FollowInvariant.step (h : FollowInvariant filter s) (hstep : FollowStep cfg filter s s')
    (hbound : s'.world.store.sequence < 2 ^ 64 - 1) : FollowInvariant filter s' := by
  have hbefore : s.world.store.sequence < 2 ^ 64 - 1 := hstep.sequence_le.trans_lt hbound
  cases hstep with
  | crash guards =>
    refine h.detach (h.keys.restart guards) Stream.OwnChannels.initial ⟨?_, trivial⟩
      (List.prefix_refl _)
    intro idx sub hsub
    exact absurd (List.mem_of_getElem? hsub) List.not_mem_nil
  | leave channel world hstep =>
    obtain ⟨hkeys, hown, hstream⟩ := h.world_step hbefore hstep
    exact h.detach hkeys hown hstream (hstep.log_grows h.keys.log)
  | subscribe id world hstep =>
    obtain ⟨hkeys, hown, hstream⟩ := h.world_step hbefore hstep
    refine ⟨hkeys, hown, hstream, h.received.grow (hstep.log_grows h.keys.log), fun _ => rfl,
      fun ch hch => ?_⟩
    obtain rfl := Option.some.inj hch
    exact h.attach hstep
  | receive change hnext =>
    cases hch : s.follower.channel with
    | none =>
      -- without a channel there is nothing to take
      rw [h.detached hch] at hnext
      exact nomatch hnext
    | some ch =>
      obtain ⟨a, base, hatt⟩ := h.attached ch hch
      have hatt' := hatt.receive hnext
      refine ⟨h.keys, h.own, h.stream, hatt'.gapless, fun hnone => ?_, fun ch' hch' => ?_⟩
      · exact nomatch hch.symm.trans hnone
      · obtain rfl := Option.some.inj (hch.symm.trans hch')
        exact ⟨a, base, hatt'⟩
  | engine l world hstep hkeep =>
    obtain ⟨hkeys, hown, hstream⟩ := h.world_step hbefore hstep
    obtain ⟨queue, hwatch, hsame⟩ := s.follower.watch_eq world.stream
    have hchannel : (s.follower.watch world.stream).channel = s.follower.channel := by rw [hwatch]
    refine ⟨hkeys, hown, hstream, ?_, fun hnone => ?_, fun ch hch => ?_⟩
    · change Gapless filter world.store (s.follower.watch world.stream).received
      rw [hwatch]
      exact h.received.grow (hstep.log_grows h.keys.log)
    · have hnone := hchannel.symm.trans hnone
      change (s.follower.watch world.stream).queue = []
      rw [hwatch]
      exact (hsame hnone).trans (h.detached hnone)
    · have hch := hchannel.symm.trans hch
      obtain ⟨a, base, hatt⟩ := h.attached ch hch
      rw [hch] at hkeep
      exact ⟨a, base, hatt.step hch hkeep hstep h.keys.log hkeys.log hbound hown hstream⟩

/-- **The invariant along a run.** -/
theorem followInvariant_of_run {guards : GuardRegistry} {ls : List FollowLabel}
    (hrun : (following cfg filter).exec (Following.initial guards) ls = some s)
    (hbound : s.world.store.sequence < 2 ^ 64 - 1) : FollowInvariant filter s := by
  refine System.exec_induction
    (I := fun s => s.world.store.sequence < 2 ^ 64 - 1 → FollowInvariant filter s) ?_ ?_ hrun hbound
  · refine fun _ => ⟨KeyInvariant.initial guards, Stream.OwnChannels.initial, ⟨?_, trivial⟩,
      ⟨[], List.nil_prefix, List.Forall₂.nil⟩, fun _ => rfl, fun _ hch => nomatch hch⟩
    intro idx sub hsub
    exact absurd (List.mem_of_getElem? hsub) List.not_mem_nil
  · intro s l s' ih hstep hbound
    have hst := followStep_sound hstep
    exact (ih (hst.sequence_le.trans_lt hbound)).step hst hbound

/-- **A client that resumes misses nothing.** However often the process stops, whatever reads fail,
whoever ends its subscriptions: what the client has received carries the first records of its
machine in the log, each once and in order. And once its subscriber is at the end of the log and it
has taken all that was sent, it has received all of them. -/
theorem follower_gapless {guards : GuardRegistry} {ls : List FollowLabel}
    (hrun : (following cfg filter).exec (Following.initial guards) ls = some s)
    (hbound : s.world.store.sequence < 2 ^ 64 - 1) :
    (∃ records, records <+: s.world.store.log.filter (wantedBy filter) ∧
      List.Forall₂ Carries records s.follower.received) ∧
    ∀ sub ∈ s.world.stream.subscribers, s.follower.channel = some sub.channel →
      sub.deliveredThrough = s.world.store.sequence → s.follower.taken = s.follower.queue.length →
      List.Forall₂ Carries (s.world.store.log.filter (wantedBy filter)) s.follower.received := by
  have h := followInvariant_of_run hrun hbound
  refine ⟨h.received, fun sub hsub hch hdelivered htaken => ?_⟩
  obtain ⟨a, base, hatt⟩ := h.attached _ hch
  obtain ⟨hfilter, hafter, hqueue⟩ := hatt.asked sub hsub rfl
  obtain ⟨idx, hidx⟩ := List.getElem?_of_mem hsub
  have hlen := h.keys.log.length_log
  have hle := hatt.le
  have hserves := h.stream.serves idx sub hidx (by
    unfold Subscriber.InRange
    omega)
  -- a cursor at the end of the log is the one of the pass, too
  have hcursor : s.world.stream.pass.cursorOf idx sub = s.world.store.log.length := by
    have hend := hserves.le_end
    have hgo := hserves.delivered_le
    rw [hafter, max_eq_right hle] at hend
    omega
  have hsent := hserves.sent (hatt.alive sub hsub rfl)
  rw [hcursor, List.take_length, hafter, Subscriber.wants_eq hfilter, hqueue] at hsent
  rw [hatt.received, htaken, List.take_length, ← List.take_append_drop a s.world.store.log,
    List.filter_append]
  exact List.rel_append hatt.base hsent

end Steps

/-- Call 0 pays for an order, as the `n`-th call of the run. -/
def paid (n : ℕ) (entityId : EntityId) : List FollowLabel :=
  FollowLabel.engine (.invoke 0 (payOrder n entityId none)) :: (steps 0 8).map FollowLabel.engine

/-- The client subscribes, a pass runs, and it takes a change. -/
def followed : List FollowLabel :=
  FollowLabel.subscribe "s" :: (passSteps 7).map FollowLabel.engine ++ [FollowLabel.receive]

/-- One order is paid and followed, the process stops, another is paid, and the client resumes. -/
def resumedFollower : List FollowLabel :=
  FollowLabel.engine (.defineMachine orderMachine none) ::
    paid 0 "o1" ++ followed ++ FollowLabel.crash ∅ :: paid 1 "o2" ++ followed

theorem follower_gapless_resumedFollower :
    ∃ s, (following oneStripe none).exec (Following.initial ∅) resumedFollower = some s ∧
      s.follower.received.map ChangeRecord.sequence = [1, 2] ∧
      List.Forall₂ Carries (s.world.store.log.filter (wantedBy none)) s.follower.received := by
  have heval : ((following oneStripe none).exec (Following.initial ∅) resumedFollower).map
      (fun s => ((s.world.stream.subscribers.map fun sub => (sub.channel, sub.deliveredThrough)),
        s.follower.channel, [s.world.store.sequence, s.follower.taken, s.follower.queue.length],
        s.follower.received.map ChangeRecord.sequence))
      = some ([(0, 2)], some 0, [2, 1, 1], [1, 2]) := by decide
  obtain ⟨s, hrun, hs⟩ := Option.map_eq_some_iff.mp heval
  simp only [Prod.mk.injEq, List.cons.injEq, and_true] at hs
  obtain ⟨hsubs, hch, ⟨hseq, htaken, hqueue⟩, hreceived⟩ := hs
  obtain ⟨sub, hsub, hfields⟩ :=
    Option.map_eq_some_iff.mp (List.getElem?_map ▸ congrArg (·[0]?) hsubs)
  obtain ⟨hchannel, hdelivered⟩ := Prod.mk.inj hfields
  refine ⟨s, hrun, hreceived, (follower_gapless hrun (by rw [hseq]; decide)).2 sub
    (List.mem_of_getElem? hsub) ?_ ?_ ?_⟩
  · rw [hchannel]
    exact hch
  · rw [hdelivered, hseq]
  · rw [htaken, hqueue]

end StateMaster
