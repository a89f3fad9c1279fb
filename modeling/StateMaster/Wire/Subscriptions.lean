import StateMaster.Wire.Handshake

/-!
# Subscriptions and the sessions they belong to

A session registers subscribers with the engine, and the engine's list is all that a dispatch pass
looks at. `handle_subscribe` never enters a subscription into `session.subscriptions`, so the clean-up
at the end of a session has nothing to take out; and the list is keyed by ids that clients choose, so
what takes a subscriber out need not be its own session.

* `RegistryStep` — all a step of the host does to the list, and to the channels the connections made;
* `knowsNone_of_run` — `session.subscriptions` is empty in every session of every run;
* `leaves_nothing_iff` — a session leaves nothing behind iff it never registers a subscriber;
* `OwnerInvariant` — every registered subscriber belongs to exactly one connection;
* `removed_rightfully_iff` — subscribers are only removed for their own sake iff no step meets a
  foreign subscriber under the id it removes.
-/

open Framework

namespace StateMaster

namespace Wire

/-! ### Channels -/

/-- The channels made by the subscriptions of a connection. -/
def opened (trace : List Action) : List ℕ :=
  trace.filterMap fun
    | .subscribe _ channel => some channel
    | _ => none

def Host.opened (h : Host) (i : ℕ) : List ℕ := Wire.opened (h.conns i).trace

theorem opened_append (trace trace' : List Action) :
    opened (trace ++ trace') = opened trace ++ opened trace' :=
  List.filterMap_append ..

theorem opened_eq_nil {trace : List Action} (h : ∀ id channel, .subscribe id channel ∉ trace) :
    opened trace = [] := by
  refine List.filterMap_eq_nil_iff.mpr fun a ha => ?_
  cases a with
  | subscribe id channel => exact absurd ha (h id channel)
  | _ => rfl

theorem mem_opened {trace : List Action} {channel : ℕ} :
    channel ∈ opened trace ↔ ∃ id, Action.subscribe id channel ∈ trace := by
  unfold opened
  rw [List.mem_filterMap]
  constructor
  · rintro ⟨a, ha, h⟩
    cases a with
    | subscribe id channel' =>
      obtain rfl := Option.some.inj h
      exact ⟨id, ha⟩
    | _ => exact nomatch h
  · rintro ⟨id, ha⟩
    exact ⟨_, ha, rfl⟩

/-! ### What a step does to the list -/

/-- No session knows of a subscription. -/
def KnowsNone (h : Host) : Prop :=
  ∀ i session, (h.conns i).phase = .main session → session.subscriptions = ∅

/-- Everything a step of the host does to the subscriber list and to the channels made. -/
inductive RegistryStep (F : Formats) (h : Host) : HostLabel → Host → Prop where
  | still (l : HostLabel) (h' : Host) (hstream : h'.stream = h.stream)
      (hopened : h'.opened = h.opened) : RegistryStep F h l h'
  | subscribe (i : ℕ) (frame : Frame) (env : Env) (msg : SubscribeMessage) (session : Session)
      (sends : List Frame) (h' : Host)
      (hstep : h.stream.step h.server.store
        (.subscribe msg.subscriptionId msg.machineFilter msg.afterSequence) = some h'.stream)
      (hphase : (h'.conns i).phase.Follows session)
      (htrace : (h'.conns i).trace = (h.conns i).trace ++
        .subscribe msg.subscriptionId h.stream.channels :: sends.map .send)
      (hothers : ∀ j, j ≠ i → h'.conns j = h.conns j) :
      RegistryStep F h (.receive i (.frame frame) env) h'
  | unsubscribe (i : ℕ) (frame : Frame) (env : Env) (msg : UnsubscribeMessage) (session : Session)
      (h' : Host) (hphase : (h.conns i).phase = .main session) (htag : frame.tag = .unsubscribe)
      (hmsg : decodeMessage F UnsubscribeMessage.read frame = .ok msg)
      (hstep : h.stream.step h.server.store (.unsubscribe msg.subscriptionId) = some h'.stream)
      (hopened : h'.opened = h.opened) : RegistryStep F h (.receive i (.frame frame) env) h'
  | dropReceiver (channel : ℕ) (h' : Host)
      (hstep : h.stream.step h.server.store (.dropReceiver channel) = some h'.stream)
      (hopened : h'.opened = h.opened) : RegistryStep F h (.forwarderExits channel) h'
  | pass (fault : Option Fault) (h' : Host)
      (hstep : h.stream.step h.server.store (.pass fault) = some h'.stream)
      (hopened : h'.opened = h.opened) : RegistryStep F h (.pass fault) h'

/-- Actions without a subscription add no channel. -/
theorem Host.after_opened {h : Host} {i : ℕ} {turn : Turn}
    (hno : ∀ id channel, Action.subscribe id channel ∉ turn.actions) :
    (h.after i turn).opened = h.opened := by
  funext j
  unfold Host.opened
  by_cases hj : j = i
  · subst hj
    rw [Host.after_conns_self, opened_append, opened_eq_nil hno, List.append_nil]
  · rw [Host.after_conns_of_ne h i turn hj]

section Steps

variable {cfg : ServerConfig} {F : Formats} {h h' : Host} {l : HostLabel}

theorem Session.forget_subscriptions {session : Session} (h : session.subscriptions = ∅)
    (id : String) : (session.forget id).subscriptions = ∅ := by
  unfold Session.forget
  rw [h]
  exact Std.ExtTreeMap.erase_empty

theorem Phase.Follows.subscriptions {session session' : Session} {phase : Phase}
    (h : phase.Follows session) (hempty : session.subscriptions = ∅)
    (hphase : phase = .main session') : session'.subscriptions = ∅ := by
  obtain h | ⟨e, h⟩ := h
  · obtain rfl := Phase.main.inj (hphase.symm.trans h)
    exact hempty
  · exact nomatch hphase.symm.trans h

/-- **No session knows of a subscription**, whatever it did. -/
theorem KnowsNone.step (hnone : KnowsNone h) (hstep : HostStep cfg F h l h') : KnowsNone h' := by
  intro i session hphase
  obtain ⟨input, env, turn, rfl, rfl, hserve⟩ | ⟨-, hsame, -⟩ := hstep.conn_cases i
  · rw [Host.after_conns_self] at hphase
    by_cases hmain : ∃ session₀, (h.conns i).phase = .main session₀
    · obtain ⟨session₀, hmain⟩ := hmain
      have hempty := hnone i session₀ hmain
      rw [hmain] at hserve
      -- every branch of the loop keeps the table or takes an id out of it
      cases mainStep_sound hserve with
      | replies frame server' phase calls sends hfollows _ =>
        exact hfollows.subscriptions hempty hphase
      | subscribe frame msg stream' phase sends _ _ _ hfollows =>
        exact hfollows.subscriptions (Session.forget_subscriptions hempty _) hphase
      | unsubscribe frame msg stream' _ _ _ =>
        exact Phase.main.inj hphase ▸ Session.forget_subscriptions hempty _
      | cleanUp input stream' _ _ => exact nomatch hphase
    · have hst := handshakeStep_sound hserve fun session₀ h₀ => hmain ⟨session₀, h₀⟩
      exact hst.onlySends.2 session hphase
  · exact hnone i session (hsame ▸ hphase)

theorem knowsNone_of_run {server : ServerState} {ls : List HostLabel}
    (hrun : (host cfg F).exec (Host.initial server) ls = some h) : KnowsNone h := by
  refine System.exec_induction (I := KnowsNone) ?_ ?_ hrun
  · intro i session hphase
    exact nomatch hphase
  · exact fun h l h' hnone hstep => hnone.step (hostStep_sound hstep)

/-- **What a step does to the list**, as no session knows of a subscription. -/
theorem registryStep_sound (hnone : KnowsNone h) (hstep : HostStep cfg F h l h') :
    RegistryStep F h l h' := by
  cases hstep with
  | receive i input env turn hserve =>
    by_cases hmain : ∃ session, (h.conns i).phase = .main session
    · obtain ⟨session, hmain⟩ := hmain
      rw [hmain] at hserve
      cases mainStep_sound hserve with
      | replies frame server' phase calls sends hphase _ =>
        -- calls of the engine and replies: no channel among them
        refine .still _ _ rfl (Host.after_opened fun id channel hmem => ?_)
        simp at hmem
      | subscribe frame msg stream' phase sends htag hmsg hst hphase =>
        refine .subscribe i frame env msg (session.forget msg.subscriptionId) sends _ hst ?_ ?_ fun j hj =>
          Host.after_conns_of_ne h i _ hj
        · rw [Host.after_conns_self]
          exact hphase
        · rw [Host.after_conns_self]
      | unsubscribe frame msg stream' htag hmsg hst =>
        refine .unsubscribe i frame env msg session _ hmain htag hmsg hst
          (Host.after_opened fun id channel hmem => ?_)
        simp at hmem
      | cleanUp input stream' _ hst =>
        -- the clean-up goes through an empty table
        rw [Std.ExtTreeMap.keys_eq_nil_iff.mpr (hnone i session hmain)] at hst
        obtain rfl := Option.some.inj hst
        refine .still _ _ rfl (Host.after_opened fun id channel hmem => ?_)
        simp at hmem
    · -- the handshake leaves the list alone, and sends
      have hst := handshakeStep_sound hserve fun session h₀ => hmain ⟨session, h₀⟩
      refine .still _ _ hst.shared.2 (Host.after_opened fun id channel hmem => ?_)
      obtain ⟨frame, heq⟩ := hst.onlySends.1 _ hmem
      exact nomatch heq
  | forward i id channel record frame hopened htag =>
    refine .still _ _ rfl (funext fun j => ?_)
    unfold Host.opened
    by_cases hj : j = i
    · subst hj
      rw [Host.setConn_conns_self, opened_append]
      exact List.append_nil _
    · rw [Host.setConn_conns_of_ne h _ hj]
  | skip i id channel record fault => exact .still _ _ rfl rfl
  | stream l sl stream hl hst =>
    obtain ⟨channel, rfl, rfl⟩ | ⟨fault, rfl, rfl⟩ := hl
    · exact .dropReceiver channel _ hst rfl
    · exact .pass fault _ hst rfl

end Steps

/-! ### What a session leaves behind -/

/-- The connection subscribed `id` and did not unsubscribe it since. -/
def Active (trace : List Action) (id : String) : Prop :=
  ∃ before channel after, trace = before ++ .subscribe id channel :: after ∧
    Action.unsubscribe id ∉ after

/-- The session's table is what it subscribed and did not unsubscribe, while it is open, and none of
its subscribers is left in the engine when it is over. -/
def Tidy (h : Host) (i : ℕ) : Prop :=
  match (h.conns i).phase with
  | .main session => ∀ id, id ∈ session.subscriptions ↔ Active (h.conns i).trace id
  | .closed _ => ∀ sub ∈ h.stream.subscribers, sub.channel ∉ h.opened i
  | _ => True

section Leftovers

variable {cfg : ServerConfig} {F : Formats} {h h' : Host} {l : HostLabel}

theorem Active.opened_ne_nil {trace : List Action} {id : String} (h : Active trace id) :
    opened trace ≠ [] := by
  obtain ⟨before, channel, after, rfl, -⟩ := h
  exact List.ne_nil_of_mem (mem_opened.mpr ⟨id, List.mem_append_right _ List.mem_cons_self⟩)

/-- A connection that made no channel is tidy. -/
theorem KnowsNone.tidy (hnone : KnowsNone h) {i : ℕ} (hopened : h.opened i = []) : Tidy h i := by
  unfold Tidy
  cases hphase : (h.conns i).phase with
  | startup => trivial
  | auth capabilities => trivial
  | main session =>
    intro id
    rw [hnone i session hphase]
    exact iff_of_false Std.ExtTreeMap.not_mem_empty fun hactive =>
      hactive.opened_ne_nil hopened
  | closed result =>
    intro sub _
    rw [hopened]
    exact List.not_mem_nil

/-- **Right after it registered a subscriber, a connection is not tidy**: its table does not have the
id, and if it is over already, the subscriber is in the list. -/
theorem not_tidy_of_subscribe (hnone : KnowsNone h') {S : Store} {stream : Stream} {i : ℕ}
    {id : String} {f : Option MachineName} {after : ℕ} {session : Session} {trace : List Action}
    {sends : List Frame} (hstep : stream.step S (.subscribe id f after) = some h'.stream)
    (hphase : (h'.conns i).phase.Follows session)
    (htrace : (h'.conns i).trace = trace ++ .subscribe id stream.channels :: sends.map .send) :
    ¬ Tidy h' i := by
  unfold Tidy
  obtain hphase | ⟨e, hphase⟩ := hphase
  · -- the session goes on, with a table that is empty
    rw [hphase]
    intro htidy
    have hactive : Active (h'.conns i).trace id :=
      ⟨trace, stream.channels, sends.map .send, htrace, by simp⟩
    have hmem := (htidy id).mpr hactive
    rw [hnone i session hphase] at hmem
    exact Std.ExtTreeMap.not_mem_empty hmem
  · -- the reply could not be written, which ends the session and skips the clean-up
    rw [hphase]
    simp only [Stream.step, Option.ite_none_left_eq_some] at hstep
    intro htidy
    rw [← Option.some.inj hstep.2] at htidy
    refine htidy _ (List.mem_append_right _ List.mem_cons_self) ?_
    refine mem_opened.mpr ⟨id, ?_⟩
    rw [htrace]
    exact List.mem_append_right _ List.mem_cons_self

/-- Channels, once made, stay made. -/
theorem RegistryStep.opened_extends (hstep : RegistryStep F h l h') (i : ℕ) :
    h.opened i <+: h'.opened i := by
  cases hstep with
  | still _ _ _ hopened => rw [hopened]
  | subscribe j frame env msg session sends _ _ _ htrace hothers =>
    unfold Host.opened
    by_cases hi : i = j
    · subst hi
      rw [htrace, opened_append]
      exact List.prefix_append _ _
    · rw [hothers i hi]
  | unsubscribe _ _ _ _ _ _ _ _ _ _ hopened => rw [hopened]
  | dropReceiver _ _ _ hopened => rw [hopened]
  | pass _ _ _ hopened => rw [hopened]

/-- The first channel a tidy run makes would be the end of its tidiness. -/
theorem opened_eq_nil_of_tidy {server : ServerState} {ls : List HostLabel}
    (hrun : (host cfg F).exec (Host.initial server) ls = some h) {i : ℕ}
    (htidy : ∀ n hn, (host cfg F).stateAt (Host.initial server) ls n = some hn → Tidy hn i) :
    h.opened i = [] := by
  refine System.exec_induction_labels (I := fun ls h =>
    (∀ n hn, (host cfg F).stateAt (Host.initial server) ls n = some hn → Tidy hn i) →
      h.opened i = []) (fun _ => rfl) ?_ hrun htidy
  intro ls h l h' hbefore ih hstep htidy
  have hnone := knowsNone_of_run hbefore
  have hafter := System.exec_concat_of_step hbefore hstep
  -- The run so far is tidy, so no channel was made before this step.
  have hnil : h.opened i = [] := by
    refine ih fun n hn hat => ?_
    obtain hle | hle := Nat.le_total n ls.length
    · exact htidy n hn ((System.stateAt_append hle).trans hat)
    · unfold System.stateAt at hat
      rw [List.take_of_length_le hle] at hat
      refine htidy ls.length hn ?_
      rw [System.stateAt_append le_rfl, System.stateAt_length]
      exact hat
  have hlast : Tidy h' i := by
    refine htidy (ls ++ [l]).length h' ?_
    rw [System.stateAt_length]
    exact hafter
  cases registryStep_sound hnone (hostStep_sound hstep) with
  | still _ _ _ hopened => rw [hopened, hnil]
  | subscribe j frame env msg session sends _ hst hphase htrace hothers =>
    by_cases hi : i = j
    · subst hi
      exact absurd hlast (not_tidy_of_subscribe (knowsNone_of_run hafter) hst hphase htrace)
    · unfold Host.opened at hnil ⊢
      rw [hothers i hi, hnil]
  | unsubscribe _ _ _ _ _ _ _ _ _ _ hopened => rw [hopened, hnil]
  | dropReceiver _ _ _ hopened => rw [hopened, hnil]
  | pass _ _ _ hopened => rw [hopened, hnil]

/-- **What a session leaves behind.** Along every run, whatever a connection reads and however it
ends: its table is exact while it is open, and none of its subscribers is left when it is over, iff it
never registered a subscriber. -/
theorem leaves_nothing_iff {server : ServerState} {ls : List HostLabel}
    (hrun : (host cfg F).exec (Host.initial server) ls = some h) (i : ℕ) :
    (∀ n hn, (host cfg F).stateAt (Host.initial server) ls n = some hn → Tidy hn i) ↔
      h.opened i = [] := by
  constructor
  · exact opened_eq_nil_of_tidy hrun
  · intro hnil n hn hat
    obtain ⟨hn', hat', hrest⟩ := System.exec_split hrun n
    obtain rfl := Option.some.inj (hat.symm.trans hat')
    have hprefix : hn.opened i <+: h.opened i := by
      -- The rest of the run is one of states that are reached.
      have hreach : KnowsNone h ∧ hn.opened i <+: h.opened i := by
        refine System.exec_stable (I := fun t => KnowsNone t ∧ hn.opened i <+: t.opened i) ?_ hrest
          ⟨knowsNone_of_run hat, List.prefix_refl _⟩
        rintro t l t' ⟨hnone, hpre⟩ hstep
        have hst := hostStep_sound hstep
        exact ⟨hnone.step hst, hpre.trans ((registryStep_sound hnone hst).opened_extends i)⟩
      exact hreach.2
    rw [hnil, List.prefix_nil] at hprefix
    exact (knowsNone_of_run hat).tidy hprefix

end Leftovers

/-! ### A client that subscribes -/

def subscribeFrame : Frame where
  tag := .subscribe
  body := firstDay.codec.toVecNamed
    (.object [("request_id", .ofNat 1), ("subscription_id", .string "s"), ("machine_filter", .null),
      ("after_sequence", .ofNat 0)])

theorem subscribeFrame_decodes :
    decodeMessage firstDay SubscribeMessage.read subscribeFrame = .ok ⟨1, "s", none, 0⟩ :=
  decodeMessage_toVecNamed firstDay_lawful _ (by simp [nestingLimit]) rfl

/-- The subscriber that comes of it, with its channel. -/
def newSubscriber (channel : ℕ) : Subscriber := ⟨channel, "s", none, 0, 0, [], true⟩

/-- What the connection does. -/
def subscribeTurn (h : Host) (session : Session) : Turn where
  server := h.server
  stream := { h.stream with
    subscribers := h.stream.subscribers ++ [newSubscriber h.stream.channels]
    channels := h.stream.channels + 1 }
  phase := .main (session.forget "s")
  actions := [.subscribe "s" h.stream.channels, .send ⟨.result, firstDay.codec.toVecNamed
    (ResultMessage.toDoc ⟨1, .ofMembers [("subscription_id", .string "s"), ("ok", .bool true)]⟩)⟩]

/-- Connection `i` reads the frame. -/
def subscribeBy (i : ℕ) : HostLabel := .receive i (.frame subscribeFrame) (Env.calm i)

/-- A connection in its main loop that reads the frame subscribes. -/
theorem step_subscribe {h : Host} {i : ℕ} {session : Session}
    (hmain : (h.conns i).phase = .main session) (hidle : h.stream.pass.scanning = false) :
    (host oneToken firstDay).step h (subscribeBy i)
      = some (h.after i (subscribeTurn h session)) := by
  have hserve : serve oneToken firstDay (Env.calm i) h.server h.stream (.frame subscribeFrame)
      (h.conns i).phase = some (subscribeTurn h session) := by
    rw [hmain]
    change handleSubscribe firstDay (Env.calm i) h.server h.stream session subscribeFrame = _
    unfold handleSubscribe
    rw [subscribeFrame_decodes]
    simp only [Stream.step, hidle, Bool.false_eq_true, if_false]
    rfl
  exact Option.bind_eq_some_iff.mpr ⟨_, hserve, rfl⟩

/-- A client comes in and subscribes. -/
def comesIn (i : ℕ) : List HostLabel := hello i ++ [subscribeBy i]

/-- The host after that. -/
def Host.joined (h : Host) (i : ℕ) : Host :=
  let h₁ := h.setConn i ⟨.main (helloSession i), helloTrace i⟩
  h₁.after i (subscribeTurn h₁ (helloSession i))

theorem exec_comesIn {h : Host} {i : ℕ} (hfresh : h.conns i = ⟨.startup, []⟩)
    (hidle : h.stream.pass.scanning = false) :
    (host oneToken firstDay).exec h (comesIn i) = some (h.joined i) := by
  refine System.exec_concat_of_step (exec_hello hfresh) (step_subscribe ?_ hidle)
  rw [Host.setConn_conns_self]

/-- **The subscriber of a session that is over is still in the list**: the client came in,
subscribed and went. -/
theorem leaves_subscriber :
    ∃ h, (host oneToken firstDay).exec (Host.initial .initial)
        (comesIn 0 ++ [.receive 0 .eof (Env.calm 0)]) = some h ∧
      (h.conns 0).phase = .closed (.ok ()) ∧
      ∃ sub ∈ h.stream.subscribers, sub.channel ∈ h.opened 0 := by
  let h := (Host.initial .initial).joined 0
  have heof : (host oneToken firstDay).step h (.receive 0 .eof (Env.calm 0))
      = some (h.after 0 ⟨h.server, h.stream, .closed (.ok ()), []⟩) := rfl
  refine ⟨_, System.exec_concat_of_step (exec_comesIn rfl rfl) heof, rfl, newSubscriber 0,
    List.mem_cons_self, mem_opened.mpr ⟨"s", ?_⟩⟩
  rw [Host.after_conns_self]
  exact List.mem_append_left _ (List.mem_append_right _ List.mem_cons_self)

/-- A client that comes in and goes without a subscription. -/
theorem leaves_nothing_iff_goes :
    ∃ h, (host oneToken firstDay).exec (Host.initial .initial)
        (hello 0 ++ [.receive 0 .eof (Env.calm 0)]) = some h ∧
      (h.conns 0).phase = .closed (.ok ()) ∧ h.opened 0 = [] ∧
      ∀ n hn, (host oneToken firstDay).stateAt (Host.initial .initial)
        (hello 0 ++ [.receive 0 .eof (Env.calm 0)]) n = some hn → Tidy hn 0 := by
  let h₁ := (Host.initial .initial).setConn 0 ⟨.main (helloSession 0), helloTrace 0⟩
  have heof : (host oneToken firstDay).step h₁ (.receive 0 .eof (Env.calm 0))
      = some (h₁.after 0 ⟨h₁.server, h₁.stream, .closed (.ok ()), []⟩) := rfl
  have hrun := System.exec_concat_of_step (exec_hello (h := Host.initial .initial) rfl) heof
  exact ⟨_, hrun, rfl, rfl, (leaves_nothing_iff hrun 0).mpr rfl⟩

/-! ### To whom a subscriber belongs -/

/-- Every registered subscriber has a channel that one connection made, and only one. -/
structure OwnerInvariant (h : Host) : Prop where
  channels : h.stream.OwnChannels
  lt : ∀ i, ∀ channel ∈ h.opened i, channel < h.stream.channels
  unique : ∀ {i j channel}, channel ∈ h.opened i → channel ∈ h.opened j → i = j
  owned : ∀ sub ∈ h.stream.subscribers, ∃ i, sub.channel ∈ h.opened i

section Owners

variable {cfg : ServerConfig} {F : Formats} {h h' : Host} {l : HostLabel}

/-- Where no channel is made, subscribers are at most lost. -/
theorem OwnerInvariant.keep (hinv : OwnerInvariant h) {sl : StreamLabel}
    (hsl : ∀ id f after, sl ≠ .subscribe id f after)
    (hstep : h.stream.step h.server.store sl = some h'.stream) (hopened : h'.opened = h.opened) :
    OwnerInvariant h' := by
  obtain ⟨hsub, hch⟩ := Stream.step_channels_sublist hsl hstep
  refine ⟨hinv.channels.step hstep, fun i channel hmem => ?_, fun hi hj => ?_, fun sub' hsub' => ?_⟩
  · rw [hopened] at hmem
    rw [hch]
    exact hinv.lt i channel hmem
  · rw [hopened] at hi hj
    exact hinv.unique hi hj
  · obtain ⟨sub, hmem, heq⟩ := List.mem_map.mp (hsub.subset (List.mem_map_of_mem hsub'))
    rw [hopened, ← heq]
    exact hinv.owned sub hmem

/-- The next channel belongs to the connection that makes it. -/
theorem OwnerInvariant.subscribe (hinv : OwnerInvariant h) {i : ℕ} {id : String}
    {f : Option MachineName} {after : ℕ}
    (hstep : h.stream.step h.server.store (.subscribe id f after) = some h'.stream)
    (hself : h'.opened i = h.opened i ++ [h.stream.channels])
    (hothers : ∀ j, j ≠ i → h'.opened j = h.opened j) : OwnerInvariant h' := by
  have hown := hinv.channels.step hstep
  simp only [Stream.step, Option.ite_none_left_eq_some] at hstep
  have hstream := Option.some.inj hstep.2
  -- A channel made is an old one of the same connection, or the new one of connection `i`.
  have hcases : ∀ {j channel}, channel ∈ h'.opened j →
      channel ∈ h.opened j ∨ j = i ∧ channel = h.stream.channels := by
    intro j channel hmem
    by_cases hj : j = i
    · rw [hj, hself] at hmem
      obtain hmem | hmem := List.mem_append.mp hmem
      · exact Or.inl (hj ▸ hmem)
      · exact Or.inr ⟨hj, List.mem_singleton.mp hmem⟩
    · rw [hothers j hj] at hmem
      exact Or.inl hmem
  have hkeep : ∀ j, h.opened j ⊆ h'.opened j := by
    intro j channel hmem
    by_cases hj : j = i
    · rw [hj, hself]
      exact List.mem_append_left _ (hj ▸ hmem)
    · rw [hothers j hj]
      exact hmem
  refine ⟨hown, fun j channel hmem => ?_, fun {j k channel} hj hk => ?_, fun sub hsub => ?_⟩
  · rw [← hstream]
    obtain hold | ⟨-, rfl⟩ := hcases hmem
    · exact Nat.lt_succ_of_lt (hinv.lt j channel hold)
    · exact Nat.lt_succ_self _
  · -- an old channel is below the new one
    obtain hj | ⟨rfl, rfl⟩ := hcases hj
    · obtain hk | ⟨rfl, rfl⟩ := hcases hk
      · exact hinv.unique hj hk
      · exact absurd (hinv.lt _ _ hj) (lt_irrefl _)
    · obtain hk | ⟨rfl, -⟩ := hcases hk
      · exact absurd (hinv.lt _ _ hk) (lt_irrefl _)
      · rfl
  · rw [← hstream] at hsub
    obtain hmem | hnew := List.mem_append.mp hsub
    · obtain ⟨j, hj⟩ := hinv.owned sub hmem
      exact ⟨j, hkeep j hj⟩
    · obtain rfl := List.mem_singleton.mp hnew
      refine ⟨i, ?_⟩
      rw [hself]
      exact List.mem_append_right _ List.mem_cons_self

theorem OwnerInvariant.step (hinv : OwnerInvariant h) (hstep : RegistryStep F h l h') :
    OwnerInvariant h' := by
  cases hstep with
  | still _ _ hstream hopened =>
    refine ⟨hstream ▸ hinv.channels, ?_, ?_, ?_⟩
    · rw [hstream, hopened]
      exact hinv.lt
    · rw [hopened]
      exact hinv.unique
    · rw [hstream, hopened]
      exact hinv.owned
  | subscribe i frame env msg session sends _ hst _ htrace hothers =>
    have hsends : opened (sends.map Action.send) = [] := opened_eq_nil (by simp)
    refine hinv.subscribe (i := i) hst ?_ fun j hj => ?_
    · unfold Host.opened
      rw [htrace, opened_append]
      exact congrArg _ (congrArg (List.cons h.stream.channels) hsends)
    · unfold Host.opened
      rw [hothers j hj]
  | unsubscribe _ _ _ _ _ _ _ _ _ hst hopened => exact hinv.keep (by simp) hst hopened
  | dropReceiver _ _ hst hopened => exact hinv.keep (by simp) hst hopened
  | pass _ _ hst hopened => exact hinv.keep (by simp) hst hopened

theorem ownerInvariant_of_run {server : ServerState} {ls : List HostLabel}
    (hrun : (host cfg F).exec (Host.initial server) ls = some h) : OwnerInvariant h := by
  have hinit : OwnerInvariant (Host.initial server) :=
    ⟨.initial, fun _ _ hmem => absurd hmem List.not_mem_nil,
      fun hmem => absurd hmem List.not_mem_nil, fun _ hmem => absurd hmem List.not_mem_nil⟩
  refine System.exec_induction_labels (I := fun _ h => OwnerInvariant h) hinit ?_ hrun
  intro ls h l h' hbefore hinv hstep
  exact hinv.step (registryStep_sound (knowsNone_of_run hbefore) (hostStep_sound hstep))

end Owners

/-! ### Who takes a subscriber out -/

/-- The frame unsubscribes an id. -/
def Unsubscribes (F : Formats) (frame : Frame) (id : String) : Prop :=
  frame.tag = .unsubscribe ∧ decodeMessage F UnsubscribeMessage.read frame = .ok ⟨id⟩

/-- A step takes a subscriber out of the list. -/
def Removed (h h' : Host) (sub : Subscriber) : Prop :=
  sub ∈ h.stream.subscribers ∧ sub.channel ∉ h'.stream.subscribers.map Subscriber.channel

/-- The step takes the subscriber out for its own sake: its own session unsubscribes its id or ends,
or a pass found it with its receiver dropped. -/
def Rightful (F : Formats) (h : Host) (l : HostLabel) (h' : Host) (sub : Subscriber) : Prop :=
  match l with
  | .receive i input _ => sub.channel ∈ h.opened i ∧
      ((∃ frame, input = .frame frame ∧ Unsubscribes F frame sub.id) ∨
        ∃ result, (h'.conns i).phase = .closed result)
  | .pass _ => sub.receiverAlive = false
  | _ => False

/-- The pass that is running at the `n`-th step has come to a record for a subscriber with this id, and
found the receiver gone. -/
def GaveUp (cfg : ServerConfig) (F : Formats) (server : ServerState) (ls : List HostLabel) (n : ℕ)
    (id : String) : Prop :=
  ∃ m hm, m < n ∧ (∃ fault, ls[m]? = some (.pass fault)) ∧
    (host cfg F).stateAt (Host.initial server) ls m = some hm ∧ hm.stream.GivesUp id ∧
    ∀ k hk, m < k → k ≤ n → (host cfg F).stateAt (Host.initial server) ls k = some hk →
      ∀ result, hk.stream.pass ≠ .idle result

/-- The step meets a foreign subscriber under an id it removes: one of another session than the
one that unsubscribes, or, at the end of a pass, one that can still receive under an id that the pass
gave up. -/
def Collides (F : Formats) (gaveUp : String → Prop) (h : Host) (l : HostLabel) : Prop :=
  match l with
  | .receive i input _ => ∃ session frame id, (h.conns i).phase = .main session ∧
      input = .frame frame ∧ Unsubscribes F frame id ∧
      ∃ sub ∈ h.stream.subscribers, sub.id = id ∧ sub.channel ∉ h.opened i
  | .pass _ => (∃ delivered dead, h.stream.pass = .prune delivered dead) ∧
      ∃ sub ∈ h.stream.subscribers, gaveUp sub.id ∧ sub.receiverAlive = true
  | _ => False

section GivingUp

variable {cfg : ServerConfig} {F : Formats} {server : ServerState} {ls : List HostLabel} {n : ℕ}
  {h h' : Host} {l : HostLabel} {id : String}

/-- One step more: the pass is still running, and it had given the id up before or does so now. -/
theorem gaveUp_succ_iff (hl : ls[n]? = some l)
    (hn : (host cfg F).stateAt (Host.initial server) ls n = some h)
    (hn' : (host cfg F).stateAt (Host.initial server) ls (n + 1) = some h') :
    GaveUp cfg F server ls (n + 1) id ↔ (∀ result, h'.stream.pass ≠ .idle result) ∧
      (GaveUp cfg F server ls n id ∨ (∃ fault, l = .pass fault) ∧ h.stream.GivesUp id) := by
  constructor
  · rintro ⟨m, hm, hmn, hpass, hat, hgives, hrunning⟩
    refine ⟨hrunning (n + 1) h' hmn le_rfl hn', ?_⟩
    obtain hlt | rfl := Nat.lt_succ_iff_lt_or_eq.mp hmn
    · exact Or.inl ⟨m, hm, hlt, hpass, hat, hgives,
        fun k hk hmk hkn => hrunning k hk hmk (Nat.le_succ_of_le hkn)⟩
    · obtain rfl := Option.some.inj (hat.symm.trans hn)
      obtain ⟨fault, hfault⟩ := hpass
      exact Or.inr ⟨⟨fault, Option.some.inj (hl.symm.trans hfault)⟩, hgives⟩
  · rintro ⟨hidle, ⟨m, hm, hmn, hpass, hat, hgives, hrunning⟩ | ⟨⟨fault, rfl⟩, hgives⟩⟩
    · refine ⟨m, hm, Nat.lt_succ_of_lt hmn, hpass, hat, hgives, fun k hk hmk hkn hatk => ?_⟩
      obtain hkn | rfl := Nat.le_succ_iff.mp hkn
      · exact hrunning k hk hmk hkn hatk
      · obtain rfl := Option.some.inj (hatk.symm.trans hn')
        exact hidle
    · refine ⟨n, h, Nat.lt_succ_self n, ⟨fault, hl⟩, hn, hgives, fun k hk hnk hkn hatk => ?_⟩
      obtain rfl : k = n + 1 := by omega
      obtain rfl := Option.some.inj (hatk.symm.trans hn')
      exact hidle

/-- Nothing but its own steps moves a pass. -/
theorem pass_cases (hnone : KnowsNone h) (hstep : (host cfg F).step h l = some h') :
    (∃ fault, l = .pass fault ∧ h.stream.passStep h.server.store fault = some h'.stream) ∨
      (∀ fault, l ≠ .pass fault) ∧ h'.stream.pass = h.stream.pass := by
  by_cases hpass : ∃ fault, l = .pass fault
  · obtain ⟨fault, rfl⟩ := hpass
    obtain ⟨stream, hst, hret⟩ := Option.bind_eq_some_iff.mp hstep
    obtain rfl := Option.some.inj hret
    exact Or.inl ⟨fault, rfl, hst⟩
  · refine Or.inr ⟨fun fault hl => hpass ⟨fault, hl⟩, ?_⟩
    cases registryStep_sound hnone (hostStep_sound hstep) with
    | still _ _ hstream _ => rw [hstream]
    | subscribe _ _ _ _ _ _ _ hst _ _ _ => exact Stream.step_pass hst nofun
    | unsubscribe _ _ _ _ _ _ _ _ _ hst _ => exact Stream.step_pass hst nofun
    | dropReceiver _ _ hst _ => exact Stream.step_pass hst nofun
    | pass fault _ _ _ => exact absurd ⟨fault, rfl⟩ hpass

/-- **The dead of a pass are the ids it gave up.** -/
theorem mem_dead_iff_gaveUp (hrun : (host cfg F).exec (Host.initial server) ls = some h')
    (hlen : n ≤ ls.length) (hn : (host cfg F).stateAt (Host.initial server) ls n = some h) :
    id ∈ h.stream.pass.dead ↔ GaveUp cfg F server ls n id := by
  -- both sides start empty, take up the same ids at the same steps, and are empty again with the pass
  induction n generalizing h with
  | zero =>
    obtain rfl := Option.some.inj hn
    refine iff_of_false List.not_mem_nil ?_
    rintro ⟨m, hm, hlt, -⟩
    exact absurd hlt (Nat.not_lt_zero m)
  | succ n ih =>
    obtain ⟨t, ht, -⟩ := System.exec_split hrun n
    have hl : ls[n]? = some ls[n] := List.getElem?_eq_getElem hlen
    have hstep := System.step_of_stateAt hl ht hn
    have ih := ih (Nat.le_of_succ_le hlen) ht
    rw [gaveUp_succ_iff hl ht hn, ← ih]
    obtain ⟨fault, hfault, hst⟩ | ⟨hother, hsame⟩ := pass_cases (knowsNone_of_run ht) hstep
    · obtain ⟨result, hidle⟩ | ⟨hrunning, hdead⟩ := Stream.passStep_dead hst
      · -- the pass is over
        rw [hidle]
        exact iff_of_false List.not_mem_nil fun hgave => hgave.1 result rfl
      · rw [hdead, and_iff_right hrunning, and_iff_right ⟨fault, hfault⟩]
    · rw [hsame]
      constructor
      · refine fun hmem => ⟨fun result hidle => ?_, Or.inl hmem⟩
        rw [hidle] at hmem
        exact List.not_mem_nil hmem
      · rintro ⟨-, hmem | ⟨⟨fault, hfault⟩, -⟩⟩
        · exact hmem
        · exact absurd hfault (hother fault)

end GivingUp

section Removal

variable {cfg : ServerConfig} {F : Formats} {h h' : Host} {l : HostLabel} {gaveUp : String → Prop}

/-- What passes a filter is not removed. -/
theorem Removed.not_kept {sub : Subscriber} (hrem : Removed h h' sub) {p : Subscriber → Bool}
    (hfilter : h'.stream.subscribers = h.stream.subscribers.filter p) : p sub = false := by
  rw [Bool.eq_false_iff]
  intro hp
  refine hrem.2 ?_
  rw [hfilter]
  exact List.mem_map_of_mem (List.mem_filter.mpr ⟨hrem.1, hp⟩)

/-- What does not pass a filter is removed: nobody else has its channel. -/
theorem removed_of_filter (hown : h.stream.OwnChannels) {sub : Subscriber}
    (hsub : sub ∈ h.stream.subscribers) {p : Subscriber → Bool}
    (hfilter : h'.stream.subscribers = h.stream.subscribers.filter p) (hp : p sub = false) :
    Removed h h' sub := by
  refine ⟨hsub, fun hmem => ?_⟩
  rw [hfilter] at hmem
  obtain ⟨sub', hsub', hch⟩ := List.mem_map.mp hmem
  obtain ⟨hsub', hp'⟩ := List.mem_filter.mp hsub'
  rw [List.inj_on_of_nodup_map hown.nodup hsub' hsub hch, hp] at hp'
  exact nomatch hp'

theorem unsubscribe_subscribers {S : Store} {st st' : Stream} {id : String}
    (hstep : st.step S (.unsubscribe id) = some st') :
    st'.subscribers = st.subscribers.filter fun sub => sub.id != id := by
  simp only [Stream.step, Option.ite_none_left_eq_some] at hstep
  rw [← Option.some.inj hstep.2]

/-- An `Unsubscribe` that is read in the main loop filters the list by its id. -/
theorem subscribers_of_unsubscribes {i : ℕ} {frame : Frame} {env : Env} {session : Session}
    {id : String} (hstep : (host cfg F).step h (.receive i (.frame frame) env) = some h')
    (hmain : (h.conns i).phase = .main session) (hframe : Unsubscribes F frame id) :
    h'.stream.subscribers = h.stream.subscribers.filter fun sub => sub.id != id := by
  obtain ⟨turn, hserve, hret⟩ := Option.bind_eq_some_iff.mp hstep
  obtain rfl := Option.some.inj hret
  rw [hmain, serve, serveMain, hframe.1] at hserve
  change handleUnsubscribe F env h.server h.stream session frame = some turn at hserve
  unfold handleUnsubscribe at hserve
  rw [hframe.2] at hserve
  obtain ⟨stream', hst, hret⟩ := Option.bind_eq_some_iff.mp hserve
  obtain rfl := Option.some.inj hret
  exact unsubscribe_subscribers hst

/-- **A step without a collision removes rightfully.** -/
theorem RegistryStep.rightful (hstep : RegistryStep F h l h')
    (hgave : ∀ id, id ∈ h.stream.pass.dead ↔ gaveUp id) (hno : ¬ Collides F gaveUp h l)
    {sub : Subscriber} (hrem : Removed h h' sub) : Rightful F h l h' sub := by
  -- A step that keeps the channels removes nobody.
  have hkeep : sub.channel ∉ h'.stream.subscribers.map Subscriber.channel := hrem.2
  have hmem : sub.channel ∈ h.stream.subscribers.map Subscriber.channel :=
    List.mem_map_of_mem hrem.1
  cases hstep with
  | still _ _ hstream _ => exact absurd (hstream ▸ hmem) hkeep
  | subscribe i frame env msg session sends _ hst _ _ _ =>
    simp only [Stream.step, Option.ite_none_left_eq_some] at hst
    rw [← Option.some.inj hst.2, List.map_append] at hkeep
    exact absurd (List.mem_append_left _ hmem) hkeep
  | unsubscribe i frame env msg session _ hphase htag hmsg hst _ =>
    -- the id is all that `unsubscribe` looks at; without a collision it is one's own
    have hid : sub.id = msg.subscriptionId := by
      simpa using hrem.not_kept (unsubscribe_subscribers hst)
    have hown : sub.channel ∈ h.opened i := by
      by_contra hforeign
      exact hno ⟨session, frame, msg.subscriptionId, hphase, rfl, ⟨htag, hmsg⟩, sub, hrem.1, hid,
        hforeign⟩
    exact ⟨hown, Or.inl ⟨frame, rfl, htag, hid ▸ hmsg⟩⟩
  | dropReceiver channel _ hst _ =>
    rw [← Option.some.inj hst, List.map_map] at hkeep
    exact absurd hmem hkeep
  | pass fault _ hst _ =>
    obtain ⟨-, ⟨delivered, dead, hpass, hsubs⟩ | ⟨-, hsubs⟩⟩ := Stream.passStep_channels hst
    · -- the prune looks at the ids of the dead
      have hdead : sub.id ∈ dead := by simpa using hrem.not_kept hsubs
      rw [hpass] at hgave
      change sub.receiverAlive = false
      rw [Bool.eq_false_iff]
      exact fun halive => hno ⟨⟨delivered, dead, hpass⟩, sub, hrem.1, (hgave sub.id).mp hdead, halive⟩
    · exact absurd (hsubs ▸ hmem) hkeep

theorem not_collides_of_tag {i : ℕ} {frame : Frame} {env : Env} (htag : frame.tag ≠ .unsubscribe) :
    ¬ Collides F gaveUp h (.receive i (.frame frame) env) := by
  rintro ⟨_, _, _, -, hframe, hunsub, -⟩
  obtain rfl := Incoming.frame.inj hframe
  exact htag hunsub.1

/-- **A collision removes a subscriber that it should not.** -/
theorem Collides.removes (hcol : Collides F gaveUp h l)
    (hgave : ∀ id, id ∈ h.stream.pass.dead ↔ gaveUp id) (hown : h.stream.OwnChannels)
    (hstep : (host cfg F).step h l = some h') :
    ∃ sub, Removed h h' sub ∧ ¬ Rightful F h l h' sub := by
  cases l with
  | receive i input env =>
    obtain ⟨session, frame, id, hmain, rfl, hframe, sub, hsub, hid, hforeign⟩ := hcol
    have hfilter := subscribers_of_unsubscribes hstep hmain hframe
    refine ⟨sub, removed_of_filter hown hsub hfilter ?_, fun h => hforeign h.1⟩
    simpa using hid
  | pass fault =>
    obtain ⟨⟨delivered, dead, hpass⟩, sub, hsub, hgone, halive⟩ := hcol
    rw [hpass] at hgave
    have hdead : sub.id ∈ dead := (hgave sub.id).mpr hgone
    obtain ⟨stream, hst, hret⟩ := Option.bind_eq_some_iff.mp hstep
    obtain rfl := Option.some.inj hret
    obtain ⟨-, ⟨delivered', dead', hpass', hsubs⟩ | ⟨hnot, -⟩⟩ := Stream.passStep_channels hst
    · obtain ⟨-, rfl⟩ := PassState.prune.inj (hpass.symm.trans hpass')
      refine ⟨sub, removed_of_filter hown hsub hsubs (by simpa using hdead), fun h => ?_⟩
      exact absurd (halive.symm.trans h) (by decide)
    · exact absurd hpass (hnot _ _)
  | forward => exact absurd hcol id
  | forwarderExits => exact absurd hcol id

/-- **Who takes a subscriber out.** Along every run, for any number of sessions with any ids: every
registered subscriber belongs to exactly one connection; and subscribers are only taken out because
their own session unsubscribed them or ended, or because their own receiver was dropped, iff no
`Unsubscribe` meets another session's subscriber under its id, and no pass that gave up a subscriber
for its dropped receiver meets at its end one under the same id that can still receive. -/
theorem removed_rightfully_iff {server : ServerState} {ls : List HostLabel}
    (hrun : (host cfg F).exec (Host.initial server) ls = some h) :
    (∀ sub ∈ h.stream.subscribers, ∃! i, sub.channel ∈ h.opened i) ∧
    ((∀ n l h₁ h₂, ls[n]? = some l →
        (host cfg F).stateAt (Host.initial server) ls n = some h₁ →
        (host cfg F).stateAt (Host.initial server) ls (n + 1) = some h₂ →
        ∀ sub, Removed h₁ h₂ sub → Rightful F h₁ l h₂ sub) ↔
      ∀ n l h₁, ls[n]? = some l → (host cfg F).stateAt (Host.initial server) ls n = some h₁ →
        ¬ Collides F (GaveUp cfg F server ls n) h₁ l) := by
  have hinv := ownerInvariant_of_run hrun
  refine ⟨fun sub hsub => ?_, fun hall n l h₁ hl hat hcol => ?_,
    fun hno n l h₁ h₂ hl hat hat' sub hrem => ?_⟩
  · obtain ⟨i, hi⟩ := hinv.owned sub hsub
    exact ⟨i, hi, fun j hj => hinv.unique hj hi⟩
  · obtain ⟨h₂, hat', -⟩ := System.exec_split hrun (n + 1)
    have hstep := System.step_of_stateAt hl hat hat'
    have hlen : n ≤ ls.length := (List.getElem?_eq_some_iff.mp hl).1.le
    obtain ⟨sub, hrem, hwrong⟩ := hcol.removes (fun _ => mem_dead_iff_gaveUp hrun hlen hat)
      (ownerInvariant_of_run hat).channels hstep
    exact hwrong (hall n l h₁ h₂ hl hat hat' sub hrem)
  · have hstep := hostStep_sound (System.step_of_stateAt hl hat hat')
    have hlen : n ≤ ls.length := (List.getElem?_eq_some_iff.mp hl).1.le
    exact (registryStep_sound (knowsNone_of_run hat) hstep).rightful
      (fun _ => mem_dead_iff_gaveUp hrun hlen hat) (hno n l h₁ hl hat) hrem

end Removal

/-! ### Two clients with one id -/

def unsubscribeFrame : Frame where
  tag := .unsubscribe
  body := firstDay.codec.toVecNamed (.object [("subscription_id", .string "s")])

theorem unsubscribeFrame_unsubscribes : Unsubscribes firstDay unsubscribeFrame "s" :=
  ⟨rfl, decodeMessage_toVecNamed firstDay_lawful _ (by simp [nestingLimit]) rfl⟩

def unsubscribeBy (i : ℕ) : HostLabel := .receive i (.frame unsubscribeFrame) (Env.calm i)

/-- A connection in its main loop that reads the frame unsubscribes. -/
theorem step_unsubscribe {h : Host} {i : ℕ} {session : Session}
    (hmain : (h.conns i).phase = .main session) (hidle : h.stream.pass.scanning = false) :
    (host oneToken firstDay).step h (unsubscribeBy i)
      = some (h.after i ⟨h.server, { h.stream with
          subscribers := h.stream.subscribers.filter fun sub => sub.id != "s" },
        .main (session.forget "s"), [.unsubscribe "s"]⟩) := by
  refine Option.bind_eq_some_iff.mpr ⟨_, ?_, rfl⟩
  rw [hmain]
  change handleUnsubscribe firstDay (Env.calm i) h.server h.stream session unsubscribeFrame = _
  unfold handleUnsubscribe
  rw [unsubscribeFrame_unsubscribes.2]
  simp only [Stream.step, hidle, Bool.false_eq_true, if_false]
  rfl

/-- A client that comes in takes nobody out. -/
theorem not_collides_of_mem_comesIn {F : Formats} {gaveUp : String → Prop} {h : Host} {i : ℕ}
    {l : HostLabel} (hl : l ∈ comesIn i) : ¬ Collides F gaveUp h l := by
  simp only [comesIn, hello, subscribeBy, List.cons_append, List.nil_append, List.mem_cons,
    List.not_mem_nil, or_false] at hl
  obtain rfl | rfl | rfl := hl
  all_goals exact not_collides_of_tag (by decide)

/-- The first client's own `Unsubscribe` takes its subscriber out. -/
theorem removed_rightfully_iff_own :
    ∃ h h' sub, (host oneToken firstDay).exec (Host.initial .initial) (comesIn 1) = some h ∧
      (host oneToken firstDay).step h (unsubscribeBy 1) = some h' ∧ Removed h h' sub ∧
      Rightful firstDay h (unsubscribeBy 1) h' sub := by
  let h := (Host.initial .initial).joined 1
  have hrun : (host oneToken firstDay).exec (Host.initial .initial) (comesIn 1) = some h :=
    exec_comesIn rfl rfl
  obtain ⟨h', hstep⟩ : ∃ h', (host oneToken firstDay).step h (unsubscribeBy 1) = some h' :=
    ⟨_, step_unsubscribe rfl rfl⟩
  have hall := System.exec_concat_of_step hrun hstep
  have hfilter := subscribers_of_unsubscribes hstep rfl unsubscribeFrame_unsubscribes
  have hrem : Removed h h' (newSubscriber 0) :=
    removed_of_filter (ownerInvariant_of_run hrun).channels List.mem_cons_self hfilter rfl
  refine ⟨h, h', newSubscriber 0, hrun, hstep, hrem,
    (removed_rightfully_iff hall).2.mpr ?_ 3 _ h h' rfl hrun hall _ hrem⟩
  -- Only the last label unsubscribes, and all that is registered then is its own.
  intro n l h₁ hl hat
  obtain hlt | rfl | hgt := Nat.lt_trichotomy n (comesIn 1).length
  · rw [List.getElem?_append_left hlt] at hl
    exact not_collides_of_mem_comesIn (List.mem_of_getElem? hl)
  · obtain rfl := Option.some.inj hl
    obtain rfl := Option.some.inj (hrun.symm.trans hat)
    rintro ⟨_, _, _, -, -, -, sub, hsub, -, hforeign⟩
    obtain rfl := List.mem_singleton.mp hsub
    exact hforeign (mem_opened.mpr ⟨"s", List.mem_append_right _ List.mem_cons_self⟩)
  · rw [List.getElem?_eq_none (by rw [List.length_append]; exact hgt)] at hl
    exact nomatch hl

/-- **The second client's `Unsubscribe` takes the first client's subscriber out**, whose session goes
on and whose receiver is there. -/
theorem unsubscribe_removes_foreign :
    ∃ h h' sub session,
      (host oneToken firstDay).exec (Host.initial .initial) (comesIn 1 ++ comesIn 2) = some h ∧
      (host oneToken firstDay).step h (unsubscribeBy 2) = some h' ∧ Removed h h' sub ∧
      sub.channel ∈ h.opened 1 ∧ sub.channel ∉ h.opened 2 ∧ sub.receiverAlive = true ∧
      (h'.conns 1).phase = .main session := by
  let h₁ := (Host.initial .initial).joined 1
  let h₂ := h₁.joined 2
  have hfirst : (host oneToken firstDay).exec (Host.initial .initial) (comesIn 1) = some h₁ :=
    exec_comesIn rfl rfl
  have hrun : (host oneToken firstDay).exec (Host.initial .initial) (comesIn 1 ++ comesIn 2)
      = some h₂ := by
    rw [System.exec_append, hfirst, Option.bind_some]
    exact exec_comesIn rfl rfl
  have hstep := step_unsubscribe (h := h₂) (i := 2) rfl rfl
  have hinv := ownerInvariant_of_run hrun
  have hfilter := subscribers_of_unsubscribes hstep rfl unsubscribeFrame_unsubscribes
  have hown : 0 ∈ h₂.opened 1 :=
    mem_opened.mpr ⟨"s", List.mem_append_right _ List.mem_cons_self⟩
  refine ⟨h₂, _, newSubscriber 0, _, hrun, hstep,
    removed_of_filter hinv.channels List.mem_cons_self hfilter rfl, hown, fun hforeign => ?_, rfl, rfl⟩
  exact absurd (hinv.unique hown hforeign) (by decide)

end Wire

end StateMaster
