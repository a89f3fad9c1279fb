import StateMaster.Wire.Forwarding

/-!
# Subscribing again under an id

`handle_subscribe` means a second `Subscribe` under an id to take the place of the first. The engine
keeps both subscribers, with a channel and a forwarding task each, as long as nothing else removes the
first. `latest` reads off the trace of a connection the latest `Subscribe` under an id, with what has
been enqueued for the id since, over whichever channel.

* `LatestFact` — while each `Subscribe` finds no live subscriber under its id, the latest one is the
  only one, and its channel takes everything;
* `resubscription_replaces_iff` — and that is exactly when re-subscribing replaces.
-/

open Framework

namespace StateMaster

namespace Wire

/-- The latest `Subscribe` under an id, with what has been enqueued for the id since. -/
structure Latest where
  channel : ℕ
  machineFilter : Option MachineName
  afterSequence : ℕ
  enqueued : List ChangeRecord

def Latest.note (id : String) (latest : Option Latest) : Event → Option Latest
  | .subscribed id' channel machineFilter afterSequence =>
    if id' = id then some ⟨channel, machineFilter, afterSequence, []⟩ else latest
  | .enqueued id' _ record =>
    if id' = id then latest.map fun L => { L with enqueued := L.enqueued ++ [record] } else latest
  | _ => latest

def latest (id : String) (trace : List Event) : Option Latest := trace.foldl (Latest.note id) none

/-- A live subscriber of the session under an id. -/
structure Link.Live (s : Link) (id : String) (sub : Subscriber) : Prop where
  registered : sub ∈ s.world.stream.subscribers
  alive : sub.receiverAlive = true
  named : sub.id = id
  own : ∃ task ∈ s.tasks, task.channel = sub.channel

/-- The logged records past `afterSequence` up to `cursor` that match a filter. -/
def matching (S : Store) (machineFilter : Option MachineName) (afterSequence cursor : ℕ) :
    List TransitionRecord :=
  S.log.filter fun r => decide (afterSequence < r.sequence) && decide (r.sequence ≤ cursor) &&
    match machineFilter with
    | some filter => r.machine == filter
    | none => true

theorem length_matching_le (S : Store) (machineFilter : Option MachineName)
    (afterSequence cursor : ℕ) :
    (matching S machineFilter afterSequence cursor).length ≤ S.log.length :=
  List.length_filter_le _ _

/-- The subscriptions of a session under an id are one: at most one live subscriber has it, and what
was enqueued for it since the latest `Subscribe` is what that one asked for, up to a cursor that is not
behind the subscriber's own. -/
structure Link.Replaces (s : Link) (id : String) : Prop where
  unique : ∀ sub sub', s.Live id sub → s.Live id sub' → sub = sub'
  exact : ∀ L, latest id s.trace = some L → L.afterSequence < 2 ^ 64 - 1 →
    ∃ cursor, List.Forall₂ Carries
        (matching s.world.store L.machineFilter L.afterSequence cursor) L.enqueued ∧
      ∀ sub, s.Live id sub → sub.deliveredThrough ≤ cursor

section Latest

variable {cfg : Config} {s s' : Link} {id : String}

theorem latest_append (id : String) (trace events : List Event) :
    latest id (trace ++ events) = events.foldl (Latest.note id) (latest id trace) :=
  List.foldl_append

theorem foldl_note_of_not_booked {events : List Event}
    (h : ∀ event ∈ events, event.booked = false) (id : String) (start : Option Latest) :
    events.foldl (Latest.note id) start = start := by
  induction events with
  | nil => rfl
  | cons event events ih =>
    obtain ⟨hevent, hevents⟩ := List.forall_mem_cons.mp h
    have hnote : Latest.note id start event = start := by
      cases event with
      | subscribed id channel machineFilter afterSequence => exact absurd hevent Bool.noConfusion
      | enqueued id channel record => exact absurd hevent Bool.noConfusion
      | _ => rfl
    rw [List.foldl_cons, hnote]
    exact ih hevents

theorem Untouched.latest (h : Untouched s s') (id : String) :
    Wire.latest id s'.trace = Wire.latest id s.trace := by
  obtain ⟨events, htrace, hevents⟩ := h.trace
  rw [htrace, latest_append, foldl_note_of_not_booked hevents]

/-- What arrives for an id is added to what was enqueued for it. -/
theorem foldl_note_arrivals (id : String) (st : Stream) (tasks : List Forwarder)
    (start : Option Latest) :
    (tasks.flatMap fun task => (task.arrivals st).map (Event.enqueued task.id task.channel)).foldl
        (Latest.note id) start
      = start.map fun L => { L with enqueued := L.enqueued ++
          (tasks.filter fun task => task.id = id).flatMap fun task => task.arrivals st } := by
  have hone : ∀ (task : Forwarder) (records : List ChangeRecord) (start : Option Latest),
      (records.map (Event.enqueued task.id task.channel)).foldl (Latest.note id) start
        = start.map fun L => { L with enqueued := L.enqueued ++
            if task.id = id then records else [] } := by
    intro task records
    induction records with
    | nil => intro start; cases start <;> simp
    | cons record records ih =>
      intro start
      rw [List.map_cons, List.foldl_cons, ih]
      by_cases hid : task.id = id
      · cases start <;> simp [Latest.note, hid]
      · cases start <;> simp [Latest.note, hid]
  induction tasks generalizing start with
  | nil => cases start <;> simp
  | cons task tasks ih =>
    rw [List.flatMap_cons, List.foldl_append, hone, ih]
    by_cases hid : task.id = id
    · cases start <;> simp [hid]
    · cases start <;> simp [hid]

/-- The latest subscription under an id has a task, whose channel took everything since; of the others
none is live. -/
structure IsLatest (s : Link) (id : String) (L : Latest) : Prop where
  task : ∃ task ∈ s.tasks, task.id = id ∧ task.channel = L.channel ∧
    task.machineFilter = L.machineFilter ∧ task.afterSequence = L.afterSequence ∧
    task.got = L.enqueued
  live : ∀ sub, s.Live id sub → sub.channel = L.channel

def LatestFact (s : Link) (id : String) : Prop :=
  match latest id s.trace with
  | none => ∀ task ∈ s.tasks, task.id ≠ id
  | some L => IsLatest s id L

theorem Link.Live.untouched {sub : Subscriber} (h : s'.Live id sub) (hq : Untouched s s') :
    s.Live id sub := by
  obtain ⟨task', htask', hch⟩ := h.own
  obtain ⟨task, htask, hsame⟩ := hq.exists_task htask'
  have hchannel : task.channel = task'.channel := by
    have := congrArg Subscriber.channel hsame
    exact this
  exact ⟨hq.world ▸ h.registered, h.alive, h.named, task, htask, hchannel.trans hch⟩

theorem LatestFact.untouched (h : LatestFact s id) (hq : Untouched s s') : LatestFact s' id := by
  unfold LatestFact at h ⊢
  rw [hq.latest]
  cases hL : latest id s.trace with
  | none =>
    rw [hL] at h
    intro task' htask' hid
    obtain ⟨task, htask, hsame⟩ := hq.exists_task htask'
    have hname : task.id = task'.id := by
      have := congrArg Subscriber.id hsame
      exact this
    exact h task htask (hname.trans hid)
  | some L =>
    rw [hL] at h
    obtain ⟨task, htask, hid, hch, hfilter, hafter, hgot⟩ := h.task
    refine ⟨?_, fun sub hsub => h.live sub (hsub.untouched hq)⟩
    obtain ⟨task', htask', hsame⟩ :=
      List.mem_map.mp (hq.tasks.symm ▸ List.mem_map_of_mem (f := Forwarder.asSubscriber) htask)
    simp only [Forwarder.asSubscriber, Subscriber.mk.injEq] at hsame
    obtain ⟨hch', hid', hfilter', hafter', -, hgot', -⟩ := hsame
    exact ⟨task', htask', hid'.trans hid, hch'.trans hch, hfilter'.trans hfilter,
      hafter'.trans hafter, hgot'.trans hgot⟩

/-- Who is live was live before. -/
theorem LinkInvariant.live_before (h : LinkInvariant s) {l : Label} (hadv : Advances cfg s l s')
    {sub' : Subscriber} (hlive : s'.Live id sub') :
    ∃ sub, s.Live id sub ∧ sub'.channel = sub.channel := by
  obtain ⟨task', htask', hch⟩ := hlive.own
  rw [hadv.tasks] at htask'
  obtain ⟨task, htask, rfl⟩ := List.mem_map.mp htask'
  obtain ⟨sub, hsub, hkept, -⟩ := (h.tasks task htask).sent_cases hadv hlive.registered hch.symm
  exact ⟨sub, ⟨hsub, hkept.alive hlive.alive, hkept.id.symm.trans hlive.named, task, htask,
    hch.trans hkept.channel⟩, hkept.channel⟩

theorem LatestFact.advance (h : LatestFact s id) (hinv : LinkInvariant s) (hinv' : LinkInvariant s')
    {l : Label} (hadv : Advances cfg s l s') (hown : s'.world.stream.OwnChannels) :
    LatestFact s' id := by
  unfold LatestFact at h ⊢
  rw [hadv.trace, latest_append, foldl_note_arrivals]
  cases hL : latest id s.trace with
  | none =>
    rw [hL] at h
    intro task' htask'
    rw [hadv.tasks] at htask'
    obtain ⟨task, htask, rfl⟩ := List.mem_map.mp htask'
    exact h task htask
  | some L =>
    rw [hL] at h
    obtain ⟨task, htask, hid, hch, hfilter, hafter, hgot⟩ := h.task
    have hlive : ∀ sub', s'.Live id sub' → sub'.channel = L.channel := by
      intro sub' hsub'
      obtain ⟨sub, hsub, hsame⟩ := hinv.live_before hadv hsub'
      exact hsame.trans (h.live sub hsub)
    -- nothing arrives for the other subscriptions under the id
    have hothers : ∀ task₁ ∈ s.tasks.filter (fun task => task.id = id),
        task₁.channel ≠ task.channel → task₁.arrivals s'.world.stream = [] := by
      intro task₁ htask₁ hne
      obtain ⟨htask₁, hid₁⟩ := List.mem_filter.mp htask₁
      refine (hinv.tasks task₁ htask₁).arrivals_nil hadv hown fun sub' hsub' hch' => ?_
      have hmem : task₁.receive s'.world.stream ∈ s'.tasks := by
        rw [hadv.tasks]
        exact List.mem_map_of_mem htask₁
      have hname := ((hinv'.tasks _ hmem).served sub' hsub' hch').id
      refine Bool.eq_false_iff.mpr fun halive => hne ?_
      rw [← hch', hch]
      exact hlive sub' ⟨hsub', halive, hname.trans (of_decide_eq_true hid₁), _, hmem, hch'.symm⟩
    have hnews : (s.tasks.filter fun task => task.id = id).flatMap
        (fun task => task.arrivals s'.world.stream) = task.arrivals s'.world.stream := by
      refine flatMap_eq_of_unique Forwarder.channel
        (hinv.nodup.sublist (List.filter_sublist.map _)) ?_ hothers
      exact List.mem_filter.mpr ⟨htask, decide_eq_true hid⟩
    rw [Option.map_some, hnews]
    refine ⟨⟨task.receive s'.world.stream, ?_, hid, hch, hfilter, hafter, ?_⟩, hlive⟩
    · rw [hadv.tasks]
      exact List.mem_map_of_mem htask
    · rw [Forwarder.got_receive, hgot]

/-- **A `Subscribe` that meets no live subscriber under its id** is the latest, and the only one. -/
theorem LatestFact.spawn (h : LatestFact s' id) (hinv : LinkInvariant s) {requestId : ℕ}
    {id' : String} {machineFilter : Option MachineName} {afterSequence : ℕ}
    (hadv : Advances cfg s (.stream (.subscribe id' machineFilter afterSequence)) s')
    (hinv' : LinkInvariant
      (s'.spawn requestId id' s.world.stream.channels machineFilter afterSequence))
    (hfree : ∀ sub, ¬ s.Live id' sub) :
    LatestFact (s'.spawn requestId id' s.world.stream.channels machineFilter afterSequence) id := by
  unfold LatestFact at h ⊢
  change match latest id (s'.trace ++ [_]) with | none => _ | some L => _
  rw [latest_append, List.foldl_cons, List.foldl_nil, Latest.note]
  -- a live subscriber is on one of the channels there were, or on the new one
  have hcases : ∀ sub, (s'.spawn requestId id' s.world.stream.channels machineFilter
      afterSequence).Live id sub →
      s'.Live id sub ∨ sub.channel = s.world.stream.channels ∧ sub.id = id' := by
    intro sub hsub
    obtain ⟨task, htask, hch⟩ := hsub.own
    have hserved := (hinv'.tasks task htask).served sub hsub.registered hch.symm
    rcases List.mem_append.mp htask with hold | hnew
    · exact Or.inl ⟨hsub.registered, hsub.alive, hsub.named, task, hold, hch⟩
    · obtain rfl := List.mem_singleton.mp hnew
      exact Or.inr ⟨hch.symm, hserved.id⟩
  by_cases hid : id' = id
  · subst hid
    rw [if_pos rfl]
    refine ⟨⟨_, List.mem_append_right _ (List.mem_singleton_self _), rfl, rfl, rfl, rfl, rfl⟩, ?_⟩
    intro sub hsub
    obtain hold | ⟨hch, -⟩ := hcases sub hsub
    · obtain ⟨before, hbefore, -⟩ := hinv.live_before hadv hold
      exact absurd hbefore (hfree before)
    · exact hch
  · rw [if_neg hid]
    cases hL : latest id s'.trace with
    | none =>
      rw [hL] at h
      intro task htask
      rcases List.mem_append.mp htask with hold | hnew
      · exact h task hold
      · obtain rfl := List.mem_singleton.mp hnew
        exact hid
    | some L =>
      rw [hL] at h
      obtain ⟨task, htask, hfields⟩ := h.task
      refine ⟨⟨task, List.mem_append_left _ htask, hfields⟩, fun sub hsub => ?_⟩
      obtain hold | ⟨-, hname⟩ := hcases sub hsub
      · exact h.live sub hold
      · exact absurd (hname.symm.trans hsub.named) hid

/-- The latest subscription is all there is. -/
theorem LatestFact.replaces (h : LatestFact s id) (hinv : LinkInvariant s)
    (hlog : LogInvariant s.world.store) (hown : s.world.stream.OwnChannels)
    (hbound : s.world.store.sequence < 2 ^ 64 - 1) : s.Replaces id := by
  unfold LatestFact at h
  refine ⟨fun sub sub' hsub hsub' => ?_, fun L hL hin => ?_⟩
  · refine List.inj_on_of_nodup_map hown.nodup hsub.registered hsub'.registered ?_
    cases hL : latest id s.trace with
    | none =>
      -- without a subscription there is no task
      rw [hL] at h
      obtain ⟨task, htask, hch⟩ := hsub.own
      have hserved := (hinv.tasks task htask).served sub hsub.registered hch.symm
      exact absurd (hserved.id.symm.trans hsub.named) (h task htask)
    | some L =>
      rw [hL] at h
      exact (h.live sub hsub).trans (h.live sub' hsub').symm
  · rw [hL] at h
    obtain ⟨task, htask, -, hch, hfilter, hafter, hgot⟩ := h.task
    obtain ⟨cursor, hserves, hdelivered⟩ := (hinv.tasks task htask).exact hbound (hafter ▸ hin)
    refine ⟨cursor, ?_, fun sub hsub => hdelivered sub hsub.registered ?_ hsub.alive⟩
    · have hsent := hserves.sent rfl
      rw [← hlog.due_eq] at hsent
      change List.Forall₂ Carries (matching s.world.store task.machineFilter task.afterSequence
        cursor) task.got at hsent
      rwa [hfilter, hafter, hgot] at hsent
    · exact (h.live sub hsub).trans hch.symm

end Latest

theorem LinkStep.sequence_le {cfg : Config} {s s' : Link} {l : LinkLabel}
    (h : LinkStep cfg s l s') : s.world.store.sequence ≤ s'.world.store.sequence := by
  obtain hsame | ⟨el, s₁, hadv, hsame⟩ | ⟨_, _, _, _, s₁, rfl, hadv, rfl⟩ := h.untouched_cases
  · rw [hsame.world]
  · rw [hsame.world]
    exact (step_sound hadv.step).sequence_le
  · exact (step_sound hadv.step).sequence_le

/-- The counter at a moment of a run is at most the last one. -/
theorem link_sequence_le {cfg : Config} {guards : GuardRegistry} {ls : List LinkLabel} {s sn : Link}
    (hrun : (link cfg).exec (Link.initial guards) ls = some s) {n : ℕ}
    (hn : (link cfg).stateAt (Link.initial guards) ls n = some sn) :
    sn.world.store.sequence ≤ s.world.store.sequence := by
  obtain ⟨sn', hn', hrest⟩ := System.exec_split hrun n
  obtain rfl := Option.some.inj (hn.symm.trans hn')
  exact System.exec_stable (I := fun s => sn.world.store.sequence ≤ s.world.store.sequence)
    (fun _ _ _ hle hstep => hle.trans (link_sound hstep).sequence_le) hrest le_rfl

/-- **Re-subscribing replaces**, in every run of a connection with any number of passes, failing reads
and other clients, exactly if no `Subscribe` meets a live subscriber of the session under its own
id. -/
theorem resubscription_replaces_iff {cfg : Config} {guards : GuardRegistry} {ls : List LinkLabel}
    {s : Link} (hrun : (link cfg).exec (Link.initial guards) ls = some s)
    (hbound : s.world.store.sequence < 2 ^ 64 - 1) :
    (∀ n sn, (link cfg).stateAt (Link.initial guards) ls n = some sn → ∀ id, sn.Replaces id) ↔
      ∀ n sn requestId id machineFilter afterSequence,
        ls[n]? = some (.subscribe requestId id machineFilter afterSequence) →
        (link cfg).stateAt (Link.initial guards) ls n = some sn → ∀ sub, ¬ sn.Live id sub := by
  constructor
  · -- with a live one there are two of them after the step
    intro hreplaces n sn requestId id machineFilter afterSequence hl hn sub hsub
    obtain ⟨s', hs', -⟩ := System.exec_split hrun (n + 1)
    have hstep := link_sound (System.step_of_stateAt hl hn hs')
    cases hstep with
    | subscribe _ _ _ _ s₁ hloop hadv =>
      obtain ⟨-, -, hsubs⟩ := hadv.subscribed
      obtain ⟨task, htask, hch⟩ := hsub.own
      have hold : (s₁.spawn requestId id sn.world.stream.channels machineFilter
          afterSequence).Live id sub := by
        refine ⟨?_, hsub.alive, hsub.named, task.receive s₁.world.stream, ?_, hch⟩
        · exact hsubs ▸ List.mem_append_left _ hsub.registered
        · refine List.mem_append_left _ ?_
          rw [hadv.tasks]
          exact List.mem_map_of_mem htask
      have hnew : (s₁.spawn requestId id sn.world.stream.channels machineFilter
          afterSequence).Live id (Forwarder.mk id sn.world.stream.channels machineFilter
            afterSequence [] none [] true).asSubscriber := by
        refine ⟨?_, rfl, rfl, _, List.mem_append_right _ (List.mem_singleton_self _), rfl⟩
        exact hsubs ▸ List.mem_append_right _ (List.mem_singleton_self _)
      have heq := (hreplaces (n + 1) _ hs' id).unique sub _ hold hnew
      -- the channel of the new one is new
      obtain ⟨els, hels⟩ := engine_run_of_run hn
      exact ((ownChannels_of_run hels).lt sub hsub.registered).ne
        (congrArg Subscriber.channel heq)
  · intro hfree n sn hn id
    obtain ⟨els, hels⟩ := engine_run_of_run hn
    refine LatestFact.replaces ?_ (linkInvariant_of_run hn) (keyInvariant_of_run hels).log
      (ownChannels_of_run hels) ((link_sequence_le hrun hn).trans_lt hbound)
    have hzero : (link cfg).stateAt (Link.initial guards) ls 0 = some (Link.initial guards) := rfl
    refine System.stateAt_induction (I := fun s => LatestFact s id) (Nat.zero_le n) hzero hn ?_ ?_
    · intro task htask
      exact absurd htask List.not_mem_nil
    · intro k l t t' _ _ hl hk hstep hfact
      have hinv := linkInvariant_of_run hk
      have hinv' := linkInvariant_of_run (System.stateAt_succ hl hk hstep)
      obtain ⟨els, hels⟩ := engine_run_of_run hk
      obtain hsame | ⟨el, s₁, hadv, hsame⟩ | ⟨requestId, id', f, a, s₁, rfl, hadv, rfl⟩ :=
        (link_sound hstep).untouched_cases
      · exact hfact.untouched hsame
      · have hown := ownChannels_of_run (System.exec_concat_of_step hels hadv.step)
        exact (hfact.advance hinv (hinv.advance hadv hels) hadv hown).untouched hsame
      · have hown := ownChannels_of_run (System.exec_concat_of_step hels hadv.step)
        exact (hfact.advance hinv (hinv.advance hadv hels) hadv hown).spawn hinv hadv hinv'
          (hfree k t requestId id' f a hl hk)

/-- The session subscribes twice under one id; then an order is paid. -/
def subscribedTwice : List LinkLabel :=
  [.engine (.defineMachine orderMachine none), .subscribe 1 "s" none 0, .confirm none none,
    .subscribe 2 "s" none 0, .confirm none none] ++ paymentOnLink ++ (passSteps 8).map .engine

/-- The session takes its subscription back before it subscribes again. -/
def subscribedAfresh : List LinkLabel :=
  [.engine (.defineMachine orderMachine none), .subscribe 1 "s" none 0, .confirm none none,
    .unsubscribe "s", .subscribe 2 "s" none 0, .confirm none none] ++ paymentOnLink ++
      (passSteps 4).map .engine

/-- Both subscriptions are live, and the record is enqueued twice. -/
theorem not_resubscription_replaces :
    (¬ ∀ (cfg : Config) (guards : GuardRegistry) (ls : List LinkLabel) (s : Link),
      (link cfg).exec (Link.initial guards) ls = some s → s.world.store.sequence < 2 ^ 64 - 1 →
      ∀ id sub sub', s.Live id sub → s.Live id sub' → sub = sub') ∧
    ¬ ∀ (cfg : Config) (guards : GuardRegistry) (ls : List LinkLabel) (s : Link),
      (link cfg).exec (Link.initial guards) ls = some s → s.world.store.sequence < 2 ^ 64 - 1 →
      ∀ id L, latest id s.trace = some L → L.afterSequence < 2 ^ 64 - 1 →
        ∃ cursor, List.Forall₂ Carries
          (matching s.world.store L.machineFilter L.afterSequence cursor) L.enqueued := by
  have heval : ((link oneStripe).exec (Link.initial ∅) subscribedTwice).map
      (fun s => (s.world.store.sequence,
        (latest "s" s.trace).map fun L => (L.afterSequence, L.enqueued.length)))
      = some (1, some (0, 2)) := by decide
  have hboth : ((link oneStripe).exec (Link.initial ∅) subscribedTwice).map
      (fun s => (s.tasks.map Forwarder.channel, s.world.stream.subscribers.map fun sub =>
        (sub.channel, sub.id, sub.receiverAlive)))
      = some ([0, 1], [(0, "s", true), (1, "s", true)]) := by decide
  obtain ⟨s, hrun, hs⟩ := Option.map_eq_some_iff.mp heval
  obtain ⟨hseq, hlatest⟩ := Prod.mk.inj hs
  rw [hrun, Option.map_some] at hboth
  obtain ⟨htasks, hsubs⟩ := Prod.mk.inj (Option.some.inj hboth)
  have hbound : s.world.store.sequence < 2 ^ 64 - 1 := by rw [hseq]; decide
  refine ⟨fun hunique => ?_, fun hexact => ?_⟩
  · -- the subscriber of either channel
    have hlive : ∀ channel, (channel, "s", true) ∈ [(0, "s", true), (1, "s", true)] →
        channel ∈ [0, 1] → ∃ sub, s.Live "s" sub ∧ sub.channel = channel := by
      intro channel hsub htask
      obtain ⟨sub, hsub, hfields⟩ := List.mem_map.mp (hsubs ▸ hsub)
      obtain ⟨task, htask, hch⟩ := List.mem_map.mp (htasks ▸ htask)
      simp only [Prod.mk.injEq] at hfields
      exact ⟨sub, ⟨hsub, hfields.2.2, hfields.2.1, task, htask, hch.trans hfields.1.symm⟩,
        hfields.1⟩
    obtain ⟨sub, hsub, hch⟩ := hlive 0 (by decide) (by decide)
    obtain ⟨sub', hsub', hch'⟩ := hlive 1 (by decide) (by decide)
    have heq := hunique oneStripe ∅ subscribedTwice s hrun hbound "s" sub sub' hsub hsub'
    rw [heq, hch'] at hch
    exact absurd hch (by decide)
  · obtain ⟨L, hL, hfields⟩ := Option.map_eq_some_iff.mp hlatest
    obtain ⟨hafter, hlen⟩ := Prod.mk.inj hfields
    obtain ⟨cursor, hsent⟩ :=
      hexact oneStripe ∅ subscribedTwice s hrun hbound "s" L hL (by rw [hafter]; decide)
    -- one record is logged, two are enqueued
    obtain ⟨els, hels⟩ := engine_run_of_run hrun
    have hle := length_matching_le s.world.store L.machineFilter L.afterSequence cursor
    rw [hsent.length_eq, hlen, (keyInvariant_of_run hels).log.length_log, hseq] at hle
    exact absurd hle (by decide)

def LinkLabel.subscribes : LinkLabel → Bool
  | .subscribe _ _ _ _ => true
  | _ => false

theorem resubscription_replaces_iff_subscribedAfresh : ∃ s L cursor,
    (link oneStripe).exec (Link.initial ∅) subscribedAfresh = some s ∧
      latest "s" s.trace = some L ∧ L.enqueued.length = 1 ∧
      List.Forall₂ Carries (matching s.world.store L.machineFilter L.afterSequence cursor)
        L.enqueued := by
  have heval : ((link oneStripe).exec (Link.initial ∅) subscribedAfresh).map
      (fun s => (s.world.store.sequence,
        (latest "s" s.trace).map fun L => (L.afterSequence, L.enqueued.length)))
      = some (1, some (0, 1)) := by decide
  obtain ⟨s, hrun, hs⟩ := Option.map_eq_some_iff.mp heval
  obtain ⟨hseq, hlatest⟩ := Prod.mk.inj hs
  obtain ⟨L, hL, hfields⟩ := Option.map_eq_some_iff.mp hlatest
  obtain ⟨hafter, hlen⟩ := Prod.mk.inj hfields
  -- whenever it subscribes nobody is registered
  have hnobody : ∀ k < 19, subscribedAfresh[k]?.any LinkLabel.subscribes = true →
      ((link oneStripe).stateAt (Link.initial ∅) subscribedAfresh k).map
        (fun s => s.world.stream.subscribers.length) = some 0 := by decide
  have hfree : ∀ n sn requestId id machineFilter afterSequence,
      subscribedAfresh[n]? = some (.subscribe requestId id machineFilter afterSequence) →
      (link oneStripe).stateAt (Link.initial ∅) subscribedAfresh n = some sn →
      ∀ sub, ¬ sn.Live id sub := by
    intro n sn requestId id machineFilter afterSequence hl hn sub hsub
    have hnone := hnobody n (List.getElem?_eq_some_iff.mp hl).1 (by rw [hl]; rfl)
    rw [hn, Option.map_some, Option.some.injEq, List.length_eq_zero_iff] at hnone
    have hmem := hsub.registered
    rw [hnone] at hmem
    exact absurd hmem List.not_mem_nil
  have hreplaces := (resubscription_replaces_iff hrun (by rw [hseq]; decide)).mpr hfree
  rw [← System.stateAt_length] at hrun
  obtain ⟨cursor, hsent, -⟩ := (hreplaces _ s hrun "s").exact L hL (by rw [hafter]; decide)
  rw [System.stateAt_length] at hrun
  exact ⟨s, L, cursor, hrun, hL, hlen, hsent⟩

end Wire

end StateMaster
