import StateMaster.Engine.Follower
import StateMaster.Sdk.Connect
import StateMaster.Sdk.Senders
import StateMaster.Wire.Changes

/-!
# From the log to the consumer

`circuit` joins the two halves of a connection past its handshake: the server's (`link`, with the
engine under it and all other clients beside it) and the client's (`connection`), by what each writes
and the other reads. A `Subscribe` that a call of `Client::subscribe` writes is decoded by the main
loop, which registers the subscriber; the frames of the loop and of the forwarding tasks come to the
reader in the order in which they were written, and the reader routes each `ChangeRecord` to the
channel of its subscription. Records may come before the confirmation: the channel is there, since
`Client::subscribe` stores its sender before it writes.

All other frames of the client are left open, as are the answers to them: the server may handle an
item or lose the connection at any moment.

* `CircuitFact` — the two halves fit together: whose subscription a task serves, and what has come
  through to each consumer;
* `stream_end_to_end` — what a consumer is given is an initial part of the log from where it asked,
  without the records it did not ask for.
-/

open Framework

namespace StateMaster

namespace Sdk

open Wire (Link LinkLabel Event Forwarder link changesOn HandlerFaults WireError)

/-! ### The two halves -/

/-- The frame an event of the server is, if any. -/
def eventFrame (F : Formats) : Event → Option Frame
  | .confirmed requestId id _ => some ⟨.result, F.codec.toVecNamed (ResultMessage.toDoc
      ⟨requestId, .ofMembers [("subscription_id", .string id), ("ok", .bool true)]⟩)⟩
  | .change id _ record =>
    some ⟨.changeRecord, F.codec.toVecNamed (ChangeRecordMessage.toDoc F ⟨id, record⟩)⟩
  | .failed e => some (Wire.makeErrorFrame F .none (WireError.proto (.serializationError e)).toText false)
  | .reply frame => some frame
  | .subscribed _ _ _ _ | .enqueued _ _ _ | .unsubscribed _ => none

/-- What the server has written. -/
def writtenFrames (F : Formats) (trace : List Event) : List Frame := trace.filterMap (eventFrame F)

def subscribeFrame (F : Formats) (msg : SubscribeMessage) : Frame :=
  ⟨.subscribe, F.codec.toVecNamed msg.toDoc⟩

/-- A connection and both who use it. `asked` has the message of each call of `Client::subscribe`,
`told` those that were written, of which the server has read `taken`; of what the server has written
the client has read `heard` frames. -/
structure Circuit where
  server : Link
  client : Connection
  asked : ℕ → Option SubscribeMessage
  told : List SubscribeMessage
  taken : ℕ
  heard : ℕ

def Circuit.initial (guards : GuardRegistry) : Circuit :=
  ⟨.initial guards, .new, fun _ => none, [], 0, 0⟩

inductive CircuitLabel where
  /-- Anything the server does except to read a `Subscribe`. -/
  | server (l : LinkLabel)
  /-- The server reads a `Subscribe` and runs `handle_subscribe` up to its answer. -/
  | take
  /-- Anything the client does except what follows. -/
  | client (l : ConnectionLabel)
  /-- A call of `Client::subscribe`, up to its request. -/
  | subscribe (i : ℕ) (msg : SubscribeMessage) (encodeError : Option String)
  /-- A call writes its frame. If the write fails, the frame may be out even so. -/
  | write (i : ℕ) (ok out : Bool)
  /-- The reader reads a frame and routes it. -/
  | arrive

/-- A label of the client that neither writes nor reads. -/
def ConnectionLabel.internal : ConnectionLabel → Bool
  | .write _ _ | .arrive _ | .subscribe _ _ _ _ => false
  | _ => true

/-- A label of the server that does not open a subscription. -/
def opensNone (l : LinkLabel) : Bool := l.opens.isEmpty

namespace Circuit

variable (cfg : Config) (F : Formats) (s : Circuit)

def stepServer (l : LinkLabel) : Option Circuit :=
  ((link cfg).step s.server l).map fun server => { s with server }

def stepClient (l : ConnectionLabel) : Option Circuit :=
  ((connection F).step s.client l).map fun client => { s with client }

/-- What the loop does with a frame of tag `Subscribe`. -/
def handleSubscribe (frame : Frame) : Option Circuit :=
  match decodeMessage F SubscribeMessage.read frame with
  | .ok msg => s.stepServer cfg
      (.subscribe msg.requestId msg.subscriptionId msg.machineFilter msg.afterSequence)
  | .error e => s.stepServer cfg
      (.answer [Wire.makeErrorFrame F .none (WireError.proto e).toText false] none)

def step : CircuitLabel → Option Circuit
  | .server l => if opensNone l then s.stepServer cfg l else none
  | .take => do
    let frame ← nextFrame (s.told.map (subscribeFrame F)) s.taken
    ({ s with taken := s.taken + 1 } : Circuit).handleSubscribe cfg F frame
  | .client l => if l.internal then s.stepClient F l else none
  | .subscribe i msg encodeError =>
    match encodeError with
    | some e => s.stepClient F (.subscribe i msg.requestId msg.subscriptionId (some e))
    | none => ({ s with asked := Function.update s.asked i (some msg) } : Circuit).stepClient F
        (.subscribe i msg.requestId msg.subscriptionId none)
  | .write i ok out =>
    ({ s with told := s.told ++ if ok || out then (s.asked i).toList else [] } : Circuit).stepClient F
      (.write i ok)
  | .arrive => do
    let frame ← nextFrame (writtenFrames F s.server.trace) s.heard
    ({ s with heard := s.heard + 1 } : Circuit).stepClient F (.arrive frame)

end Circuit

/-- The connection as a system. -/
def circuit (cfg : Config) (F : Formats) : System Circuit CircuitLabel where
  step := Circuit.step cfg F

/-- Everything that can happen. -/
inductive CircuitStep (cfg : Config) (F : Formats) (s : Circuit) : CircuitLabel → Circuit → Prop where
  | server (l : LinkLabel) (server : Link) (hl : l.opens = [])
      (h : (link cfg).step s.server l = some server) :
      CircuitStep cfg F s (.server l) { s with server }
  | takes (msg msg' : SubscribeMessage) (server : Link) (hmsg : s.told[s.taken]? = some msg)
      (hdec : decodeMessage F SubscribeMessage.read (subscribeFrame F msg) = .ok msg')
      (h : (link cfg).step s.server (.subscribe msg'.requestId msg'.subscriptionId
        msg'.machineFilter msg'.afterSequence) = some server) :
      CircuitStep cfg F s .take { s with server, taken := s.taken + 1 }
  | misreads (msg : SubscribeMessage) (e : ProtoError) (frames : List Frame) (server : Link)
      (hmsg : s.told[s.taken]? = some msg)
      (hdec : decodeMessage F SubscribeMessage.read (subscribeFrame F msg) = .error e)
      (h : (link cfg).step s.server (.answer frames none) = some server) :
      CircuitStep cfg F s .take { s with server, taken := s.taken + 1 }
  | client (l : ConnectionLabel) (client : Connection) (hl : l.internal = true)
      (h : (connection F).step s.client l = some client) :
      CircuitStep cfg F s (.client l) { s with client }
  | subscribe (i : ℕ) (msg : SubscribeMessage) (client : Connection)
      (h : (connection F).step s.client
        (.subscribe i msg.requestId msg.subscriptionId none) = some client) :
      CircuitStep cfg F s (.subscribe i msg none)
        { s with client, asked := Function.update s.asked i (some msg) }
  | subscribeFails (i : ℕ) (msg : SubscribeMessage) (e : String) (client : Connection)
      (h : (connection F).step s.client
        (.subscribe i msg.requestId msg.subscriptionId (some e)) = some client) :
      CircuitStep cfg F s (.subscribe i msg (some e)) { s with client }
  | write (i : ℕ) (ok out : Bool) (client : Connection)
      (h : (connection F).step s.client (.write i ok) = some client) :
      CircuitStep cfg F s (.write i ok out)
        { s with client, told := s.told ++ if ok || out then (s.asked i).toList else [] }
  | arrive (frame : Frame) (client : Connection)
      (hnext : (writtenFrames F s.server.trace)[s.heard]? = some frame)
      (h : (connection F).step s.client (.arrive frame) = some client) :
      CircuitStep cfg F s .arrive { s with client, heard := s.heard + 1 }

theorem circuit_sound {cfg : Config} {F : Formats} {s s' : Circuit} {l : CircuitLabel}
    (h : (circuit cfg F).step s l = some s') : CircuitStep cfg F s l s' := by
  change s.step cfg F l = some s' at h
  cases l with
  | server l =>
    simp only [Circuit.step, Option.ite_none_right_eq_some, opensNone, List.isEmpty_iff] at h
    obtain ⟨server, hserver, rfl⟩ := Option.map_eq_some_iff.mp h.2
    exact .server l server h.1 hserver
  | take =>
    obtain ⟨frame, hnext, h⟩ := Option.bind_eq_some_iff.mp h
    obtain ⟨hframe, -⟩ := nextFrame_eq_some.mp hnext
    rw [List.getElem?_map, Option.map_eq_some_iff] at hframe
    obtain ⟨msg, hmsg, rfl⟩ := hframe
    unfold Circuit.handleSubscribe at h
    split at h
    · next msg' hdec =>
      obtain ⟨server, hserver, rfl⟩ := Option.map_eq_some_iff.mp h
      exact .takes msg msg' server hmsg hdec hserver
    · next e hdec =>
      obtain ⟨server, hserver, rfl⟩ := Option.map_eq_some_iff.mp h
      exact .misreads msg e _ server hmsg hdec hserver
  | client l =>
    simp only [Circuit.step, Option.ite_none_right_eq_some] at h
    obtain ⟨client, hclient, rfl⟩ := Option.map_eq_some_iff.mp h.2
    exact .client l client h.1 hclient
  | subscribe i msg encodeError =>
    cases encodeError with
    | none =>
      obtain ⟨client, hclient, rfl⟩ := Option.map_eq_some_iff.mp h
      exact .subscribe i msg client hclient
    | some e =>
      obtain ⟨client, hclient, rfl⟩ := Option.map_eq_some_iff.mp h
      exact .subscribeFails i msg e client hclient
  | write i ok out =>
    obtain ⟨client, hclient, rfl⟩ := Option.map_eq_some_iff.mp h
    exact .write i ok out client hclient
  | arrive =>
    obtain ⟨frame, hnext, h⟩ := Option.bind_eq_some_iff.mp h
    obtain ⟨client, hclient, rfl⟩ := Option.map_eq_some_iff.mp h
    exact .arrive frame client (nextFrame_eq_some.mp hnext).1 hclient

/-! ### The runs of the halves -/

/-- No record is skipped. -/
def CircuitLabel.Encodes : CircuitLabel → Prop
  | .server l => l.Encodes
  | _ => True

section Halves

variable {cfg : Config} {F : Formats} {guards : GuardRegistry} {ls : List CircuitLabel} {s : Circuit}

theorem CircuitStep.server_cases {l : CircuitLabel} {s' : Circuit} (h : CircuitStep cfg F s l s') :
    s'.server = s.server ∨ ∃ ll, (link cfg).step s.server ll = some s'.server ∧
      (l.Encodes → ll.Encodes) := by
  cases h with
  | server ll server hl h => exact Or.inr ⟨ll, h, id⟩
  | takes msg msg' server hmsg hdec h => exact Or.inr ⟨_, h, fun _ => trivial⟩
  | misreads msg e frames server hmsg hdec h => exact Or.inr ⟨_, h, fun _ => trivial⟩
  | _ => exact Or.inl rfl

/-- Under a connection, the server makes a run of its own. -/
theorem link_run_of_run (hrun : (circuit cfg F).exec (.initial guards) ls = some s)
    (hls : ∀ l ∈ ls, l.Encodes) :
    ∃ lls, (link cfg).exec (Link.initial guards) lls = some s.server ∧ ∀ l ∈ lls, l.Encodes := by
  revert hls
  refine System.exec_induction_labels (I := fun ls s => (∀ l ∈ ls, l.Encodes) → ∃ lls,
    (link cfg).exec (Link.initial guards) lls = some s.server ∧ ∀ l ∈ lls, l.Encodes)
    (fun _ => ⟨[], rfl, by simp⟩) (fun ls s l s' _ ih hstep hls => ?_) hrun
  obtain ⟨hls, hl⟩ := List.forall_mem_append.mp hls
  obtain ⟨lls, hlls, hencodes⟩ := ih hls
  obtain heq | ⟨ll, hll, himp⟩ := (circuit_sound hstep).server_cases
  · exact ⟨lls, heq ▸ hlls, hencodes⟩
  · refine ⟨lls ++ [ll], System.exec_concat_of_step hlls hll, ?_⟩
    rw [List.forall_mem_append]
    exact ⟨hencodes, by simpa using himp (hl l List.mem_cons_self)⟩

theorem CircuitStep.client_cases {l : CircuitLabel} {s' : Circuit} (h : CircuitStep cfg F s l s') :
    s'.client = s.client ∨ ∃ cl, (connection F).step s.client cl = some s'.client ∧
      ∀ i q id e, cl = .subscribe i q id e → ∃ msg, l = .subscribe i msg e ∧ msg.subscriptionId = id := by
  cases h with
  | client cl client hl h =>
    refine Or.inr ⟨cl, h, ?_⟩
    rintro i q id e rfl
    exact absurd hl (by simp [ConnectionLabel.internal])
  | subscribe i msg client h =>
    refine Or.inr ⟨_, h, ?_⟩
    rintro j q id e heq
    obtain ⟨rfl, rfl, rfl, rfl⟩ := ConnectionLabel.subscribe.inj heq
    exact ⟨msg, rfl, rfl⟩
  | subscribeFails i msg e client h =>
    refine Or.inr ⟨_, h, ?_⟩
    rintro j q id e heq
    obtain ⟨rfl, rfl, rfl, rfl⟩ := ConnectionLabel.subscribe.inj heq
    exact ⟨msg, rfl, rfl⟩
  | write i ok out client h => exact Or.inr ⟨_, h, by simp⟩
  | arrive frame client hnext h => exact Or.inr ⟨_, h, by simp⟩
  | _ => exact Or.inl rfl

/-- So does the client. -/
theorem connection_run_of_run (hrun : (circuit cfg F).exec (.initial guards) ls = some s) :
    ∃ cls, (connection F).exec Connection.new cls = some s.client ∧
      ∀ i q id e, ConnectionLabel.subscribe i q id e ∈ cls →
        ∃ msg, CircuitLabel.subscribe i msg e ∈ ls ∧ msg.subscriptionId = id := by
  refine System.exec_induction_labels (I := fun ls s => ∃ cls,
    (connection F).exec Connection.new cls = some s.client ∧
      ∀ i q id e, ConnectionLabel.subscribe i q id e ∈ cls →
        ∃ msg, CircuitLabel.subscribe i msg e ∈ ls ∧ msg.subscriptionId = id)
    ⟨[], rfl, by simp⟩ (fun ls s l s' _ ih hstep => ?_) hrun
  obtain ⟨cls, hcls, hdrawn⟩ := ih
  have hold : ∀ i q id e, ConnectionLabel.subscribe i q id e ∈ cls →
      ∃ msg, CircuitLabel.subscribe i msg e ∈ ls ++ [l] ∧ msg.subscriptionId = id := by
    intro i q id e hmem
    obtain ⟨msg, hmsg, hid⟩ := hdrawn i q id e hmem
    exact ⟨msg, List.mem_append_left _ hmsg, hid⟩
  obtain heq | ⟨cl, hcl, hnew⟩ := (circuit_sound hstep).client_cases
  · exact ⟨cls, heq ▸ hcls, hold⟩
  · refine ⟨cls ++ [cl], System.exec_concat_of_step hcls hcl, fun i q id e hmem => ?_⟩
    rcases List.mem_append.mp hmem with hmem | hmem
    · exact hold i q id e hmem
    · obtain ⟨msg, rfl, hid⟩ := hnew i q id e (List.mem_singleton.mp hmem).symm
      exact ⟨msg, List.mem_append_right _ (List.mem_singleton_self _), hid⟩

end Halves

/-! ### The client's half -/

/-- What has come through to the consumer of a subscription: what `next` has returned, and what waits
in the channel. -/
def Connection.received (s : Connection) (i : ℕ) : List ChangeRecord :=
  (s.yielded i).reduceOption ++ s.queues i

/-- What a frame brings to the consumer of a subscription. -/
def delivered (F : Formats) (id : String) (frame : Frame) : Option ChangeRecord :=
  match frame.tag with
  | .changeRecord =>
    match decodeMessage F (ChangeRecordMessage.read F) frame with
    | .ok msg => if msg.subscriptionId = id then some msg.record else none
    | .error _ => none
  | _ => none

section Client

variable {F : Formats} {s s' : Connection} {l : ConnectionLabel}

/-- A call that has not subscribed has nothing to return. -/
theorem yielded_of_idle {ls : List ConnectionLabel}
    (hrun : (connection F).exec Connection.new ls = some s) {i : ℕ}
    (hi : s.subscribing i = .idle) : s.yielded i = [] := by
  refine System.exec_induction (I := fun s => ∀ i, s.subscribing i = .idle → s.yielded i = [])
    (fun _ _ => rfl) ?_ hrun i hi
  intro s l s' ih hstep i hi
  have hstep := connection_sound hstep
  have hidle : s.subscribing i = .idle := by
    obtain heq | ⟨id, -, hid⟩ | ⟨hidle, -⟩ := hstep.subscribing_cases i
    · exact heq.symm.trans hi
    · rw [hi] at hid
      exact absurd hid (by simp [Subscribing.id?])
    · exact hidle
  cases hstep with
  | nextRecord j id record rest hsub | nextNone j id hsub =>
    -- only an active subscription returns anything
    have hne : i ≠ j := by
      rintro rfl
      exact absurd (hsub.symm.trans hidle) (by simp)
    exact (Function.update_of_ne hne ..).trans (ih i hidle)
  | _ => exact ih i hidle

/-- Nothing comes through but by the reader, and nothing gets lost once it has. -/
theorem ConnectionStep.received_eq (h : ConnectionStep F s l s') (harrive : ∀ frame, l ≠ .arrive frame)
    (hsubscribe : ∀ j q id e, l ≠ .subscribe j q id e) :
    s'.received = s.received ∧ s'.arrived = s.arrived := by
  cases h with
  | pass frame | reply frame | lose frame | record frame => exact absurd rfl (harrive frame)
  | subscribe j q id => exact absurd rfl (hsubscribe j q id none)
  | subscribeFails j q id e => exact absurd rfl (hsubscribe j q id (some e))
  | nextRecord j id record rest hsub hqueue =>
    refine ⟨funext fun i => ?_, rfl⟩
    obtain rfl | hne := eq_or_ne i j
    · simp [Connection.received, hqueue, List.reduceOption_append]
    · simp [Connection.received, Function.update_of_ne hne]
  | nextNone j id hsub hqueue =>
    refine ⟨funext fun i => ?_, rfl⟩
    obtain rfl | hne := eq_or_ne i j
    · simp [Connection.received, List.reduceOption_append]
    · simp [Connection.received, Function.update_of_ne hne]
  | _ => exact ⟨rfl, rfl⟩

/-- A call of `Client::subscribe` was not there before, and has its id from the start. -/
theorem ConnectionStep.starts {i q : ℕ} {id : String} {e : Option String}
    (h : ConnectionStep F s (.subscribe i q id e) s') :
    s.subscribing i = .idle ∧ (s'.subscribing i).id? = some id ∧
      ∀ j, j ≠ i → s'.subscribing j = s.subscribing j := by
  cases h with
  | subscribe _ _ _ hcall hidle | subscribeFails _ _ _ _ hidle =>
    refine ⟨hidle, ?_, fun j hne => Function.update_of_ne hne ..⟩
    simp [Connection.setSubscribing, Connection.start, Connection.setCall, Subscribing.id?]

/-- A subscription that starts has received nothing; the others are as they were. -/
theorem ConnectionStep.received_subscribe {i q : ℕ} {id : String} {e : Option String}
    (h : ConnectionStep F s (.subscribe i q id e) s') (hyielded : s.yielded i = []) :
    s'.received i = [] ∧ (∀ j, j ≠ i → s'.received j = s.received j) ∧ s'.arrived = s.arrived := by
  have hfresh : (s.yielded i).reduceOption ++ Function.update s.queues i [] i = [] := by
    rw [hyielded, Function.update_self]
    rfl
  have hother : ∀ j, j ≠ i → (s.yielded j).reduceOption ++ Function.update s.queues i [] j
      = s.received j := by
    intro j hne
    rw [Function.update_of_ne hne]
    rfl
  cases h with
  | subscribe | subscribeFails => exact ⟨hfresh, hother, rfl⟩

theorem delivered_of_tag_ne {frame : Frame} (htag : frame.tag ≠ .changeRecord) (id : String) :
    delivered F id frame = none := by
  unfold delivered
  split
  · exact absurd ‹_› htag
  · rfl

/-- What is no record goes to no consumer. -/
theorem Connection.received_route_of_tag_ne {frame : Frame} (htag : frame.tag ≠ .changeRecord) :
    (s.route F frame).received = s.received := by
  have hreply : ∀ requestId j, (((s.read frame).removePending requestId).hand j
      ⟨s.arrived.length, frame⟩).received = s.received := by
    intro requestId j
    unfold Connection.hand
    split <;> rfl
  unfold Connection.route
  split
  case h_4 heq => exact absurd heq htag
  case h_5 => rfl
  all_goals
    split
    · split
      · exact hreply ..
      · rfl
    · rfl

/-- **A frame goes to the consumer it is for.** -/
theorem Connection.received_route {i : ℕ} {id : String}
    (hreceives : (s.subscribing i).receives = true) (hheld : s.state.subscriptions[id]? = some i)
    (howner : ∀ id', s.state.subscriptions[id']? = some i → id' = id) (frame : Frame) :
    (s.route F frame).received i = s.received i ++ (delivered F id frame).toList := by
  by_cases htag : frame.tag = .changeRecord
  · simp only [Connection.route, delivered, htag]
    cases decodeMessage F (ChangeRecordMessage.read F) frame with
    | error e => exact (List.append_nil _).symm
    | ok msg =>
      dsimp only
      by_cases hid : msg.subscriptionId = id
      · have hpush : ((s.read frame).subscribing i).receives = true := hreceives
        rw [hid, hheld, if_pos rfl]
        dsimp only
        rw [Connection.push, if_pos hpush]
        simp [Connection.received, Connection.read]
      · rw [if_neg hid]
        cases hentry : s.state.subscriptions[msg.subscriptionId]? with
        | none => exact (List.append_nil _).symm
        | some j =>
          -- it is for another consumer
          have hne : i ≠ j := by
            rintro rfl
            exact hid (howner _ hentry)
          unfold Connection.push
          dsimp only
          split
          · simp [Connection.received, Connection.read, Function.update_of_ne hne]
          · exact (List.append_nil _).symm
  · rw [received_route_of_tag_ne htag, delivered_of_tag_ne htag]
    exact (List.append_nil _).symm

/-- The reader changes no subscription. -/
theorem Connection.route_kept (F : Formats) (s : Connection) (frame : Frame) :
    (s.route F frame).subscribing = s.subscribing ∧
      (s.route F frame).arrived = s.arrived ++ [frame] := by
  have hreply : ∀ requestId j,
      (((s.read frame).removePending requestId).hand j ⟨s.arrived.length, frame⟩).subscribing
        = s.subscribing ∧
      (((s.read frame).removePending requestId).hand j ⟨s.arrived.length, frame⟩).arrived
        = s.arrived ++ [frame] := by
    intro requestId j
    unfold Connection.hand
    split <;> exact ⟨rfl, rfl⟩
  unfold Connection.route
  split
  case h_4 =>
    split
    · split
      · unfold Connection.push
        split <;> exact ⟨rfl, rfl⟩
      · exact ⟨rfl, rfl⟩
    · exact ⟨rfl, rfl⟩
  case h_5 => exact ⟨rfl, rfl⟩
  all_goals
    split
    · split
      · exact hreply ..
      · exact ⟨rfl, rfl⟩
    · exact ⟨rfl, rfl⟩

/-- A request whose frame may be out. -/
def Request.sent : Request → Bool
  | .waiting _ | .expiring _ | .elapsed _ | .returned _ _ => true
  | _ => false

/-- A call writes once. -/
theorem ConnectionStep.sent_kept (h : ConnectionStep F s l s') {i : ℕ}
    (hsent : (s.calls i).sent = true) : (s'.calls i).sent = true := by
  have hupdate : ∀ j r, (i = j → r.sent = true) →
      (Function.update s.calls j r i).sent = true := by
    intro j r hr
    obtain rfl | hne := eq_or_ne i j
    · rw [Function.update_self]
      exact hr rfl
    · rw [Function.update_of_ne hne]
      exact hsent
  cases h with
  | invoke j q hcall | subscribe j q id hcall | register j q hcall =>
    refine hupdate j _ ?_
    rintro rfl
    rw [hcall] at hsent
    exact absurd hsent (by simp [Request.sent])
  | write j q ok hcall =>
    refine hupdate j _ fun _ => ?_
    cases ok <;> rfl
  | refuse j | take j | wake j | expire j | dropReceiver j | remove j => exact hupdate j _ fun _ => rfl
  | _ => exact hsent

/-- A call that writes has not written before, and has now. -/
theorem ConnectionStep.writes {i : ℕ} {ok : Bool} (h : ConnectionStep F s (.write i ok) s') :
    (s.calls i).sent = false ∧ (s'.calls i).sent = true := by
  cases h with
  | write _ q _ hcall =>
    refine ⟨by rw [hcall]; rfl, ?_⟩
    change (Function.update s.calls i _ i).sent = true
    rw [Function.update_self]
    cases ok <;> rfl

end Client

/-! ### What the frames of the server bring -/

/-- The records written for a subscription id. -/
def changesFor (id : String) (trace : List Event) : List ChangeRecord :=
  trace.filterMap fun
    | .change id' _ record => if id' = id then some record else none
    | _ => none

section Frames

variable {F : Formats}

theorem delivered_change (hF : F.codec.Lawful) (id id' : String) {record : ChangeRecord}
    (hrange : record.InRange F) (hdepth : (record.toDoc F).depth < nestingLimit) :
    delivered F id
        ⟨.changeRecord, F.codec.toVecNamed (ChangeRecordMessage.toDoc F ⟨id', record⟩)⟩
      = if id' = id then some record.settled else none := by
  have hdec : decodeMessage F (ChangeRecordMessage.read F)
      ⟨.changeRecord, F.codec.toVecNamed (ChangeRecordMessage.toDoc F ⟨id', record⟩)⟩
      = .ok ⟨id', record.settled⟩ :=
    decodeMessage_toVecNamed hF _ (by simpa [ChangeRecordMessage.toDoc] using hdepth)
      (ChangeRecordMessage.read_extends hrange (.refl _))
  unfold delivered
  rw [hdec]

/-- Nothing but a `ChangeRecord` brings a record. -/
theorem delivered_eventFrame {event : Event} (hsilent : event.silent = true) (id : String) :
    (eventFrame F event).bind (delivered F id) = none := by
  cases event with
  | change id' channel record => exact absurd hsilent (by simp [Event.silent])
  | reply frame =>
    have htag : frame.tag ≠ .changeRecord := by simpa [Event.silent] using hsilent
    exact delivered_of_tag_ne htag id
  | failed e =>
    have htag : (Wire.makeErrorFrame F .none (WireError.proto (.serializationError e)).toText
        false).tag ≠ .changeRecord := by
      rw [Wire.tag_makeErrorFrame]
      decide
    exact delivered_of_tag_ne (F := F) htag id
  | confirmed | subscribed | enqueued | unsubscribed => rfl

/-- No record of a trace is nested so deep that the message with it cannot be read. -/
def RecordsShallow (F : Formats) (trace : List Event) : Prop :=
  ∀ id channel record, Event.change id channel record ∈ trace → (record.toDoc F).depth < nestingLimit

/-- The records of a trace survive the wire. -/
def RecordsInRange (F : Formats) (trace : List Event) : Prop :=
  RecordsShallow F trace ∧
    ∀ id channel record, Event.change id channel record ∈ trace → record.InRange F

theorem writtenFrames_append (trace events : List Event) :
    writtenFrames F (trace ++ events) = writtenFrames F trace ++ writtenFrames F events :=
  List.filterMap_append

/-- **A consumer would be given what was written for it**, of everything written. -/
theorem delivered_writtenFrames (hF : F.codec.Lawful) {s : Link} (htrace : Wire.TraceFact s)
    (hrange : RecordsInRange F s.trace) (id : String) :
    (writtenFrames F s.trace).filterMap (delivered F id)
      = (changesFor id s.trace).map ChangeRecord.settled := by
  unfold writtenFrames changesFor
  rw [List.filterMap_filterMap, List.map_filterMap]
  refine List.filterMap_congr fun event hevent => ?_
  obtain hsilent | ⟨task, -, record, rfl⟩ := htrace.origin event hevent
  · rw [delivered_eventFrame hsilent]
    cases event with
    | change id' channel record => exact absurd hsilent (by simp [Event.silent])
    | _ => rfl
  · have hdelivered := delivered_change hF id task.id (hrange.2 _ _ _ hevent) (hrange.1 _ _ _ hevent)
    simp only [eventFrame, Option.bind_some, hdelivered]
    split <;> rfl

end Frames

section Tasks

variable {s : Link}

/-- A subscription id that no task has is written for by nobody. -/
theorem changesFor_eq_nil (h : Wire.TraceFact s) {id : String}
    (hnone : ∀ task ∈ s.tasks, task.id ≠ id) : changesFor id s.trace = [] := by
  refine List.filterMap_eq_nil_iff.mpr fun event hevent => ?_
  obtain hsilent | ⟨task, htask, record, rfl⟩ := h.origin event hevent
  · cases event with
    | change id' channel record => exact absurd hsilent (by simp [Event.silent])
    | _ => rfl
  · exact if_neg (hnone task htask)

/-- If no two tasks have the same id, what is written for an id is what its task writes. -/
theorem changesFor_eq_changesOn (h : Wire.TraceFact s)
    (hids : (s.tasks.map Forwarder.id).Nodup) (hchannels : (s.tasks.map Forwarder.channel).Nodup)
    {task : Forwarder} (htask : task ∈ s.tasks) :
    changesFor task.id s.trace = changesOn task.channel s.trace := by
  refine List.filterMap_congr fun event hevent => ?_
  obtain hsilent | ⟨task', htask', record, rfl⟩ := h.origin event hevent
  · cases event with
    | change id' channel record => exact absurd hsilent (by simp [Event.silent])
    | _ => rfl
  · have hsame : task'.id = task.id ↔ task'.channel = task.channel := by
      constructor
      · intro hid
        rw [List.inj_on_of_nodup_map hids htask' htask hid]
      · intro hch
        rw [List.inj_on_of_nodup_map hchannels htask' htask hch]
    simp only [hsame]

end Tasks

/-! ### How the halves fit together -/

/-- Every call of `Client::subscribe` draws an id of its own, and asks in `u64`s, the last of which is
no sequence number. -/
structure ProperCalls (ls : List CircuitLabel) : Prop where
  own : ∀ i j msg msg' e e', CircuitLabel.subscribe i msg e ∈ ls →
    CircuitLabel.subscribe j msg' e' ∈ ls → msg.subscriptionId = msg'.subscriptionId → i = j
  range : ∀ i msg e, CircuitLabel.subscribe i msg e ∈ ls →
    msg.requestId < 2 ^ 64 ∧ msg.afterSequence < 2 ^ 64 - 1

def askedTerms (msg : SubscribeMessage) : Wire.Terms :=
  ⟨msg.subscriptionId, msg.machineFilter, msg.afterSequence⟩

structure CircuitFact (F : Formats) (ls : List CircuitLabel) (s : Circuit) : Prop where
  taken_le : s.taken ≤ s.told.length
  heard_le : s.heard ≤ (writtenFrames F s.server.trace).length
  arrived : s.client.arrived = (writtenFrames F s.server.trace).take s.heard
  asked : ∀ i msg, s.asked i = some msg →
    CircuitLabel.subscribe i msg none ∈ ls ∧
      (s.client.subscribing i).id? = some msg.subscriptionId
  told : ∀ msg ∈ s.told, ∃ i, s.asked i = some msg ∧ (s.client.calls i).sent = true
  nodup : (s.told.map SubscribeMessage.subscriptionId).Nodup
  /-- Each `Subscribe` read has its task, in the order in which they were written. -/
  tasks : s.server.tasks.map Forwarder.terms = (s.told.take s.taken).map askedTerms
  /-- What has come through to a consumer is what the frames read so far have brought. -/
  received : ∀ i id, (s.client.subscribing i).receives = true →
    (s.client.subscribing i).id? = some id →
    s.client.received i = s.client.arrived.filterMap (delivered F id)

section Fit

variable {cfg : Config} {F : Formats} {guards : GuardRegistry} {ls : List CircuitLabel}
  {s s' : Circuit}

theorem ProperCalls.mono {ls' : List CircuitLabel} (h : ProperCalls ls') (hsub : ls ⊆ ls') :
    ProperCalls ls :=
  ⟨fun i j msg msg' e e' hi hj => h.own i j msg msg' e e' (hsub hi) (hsub hj),
    fun i msg e hi => h.range i msg e (hsub hi)⟩

theorem ProperCalls.ownSubscriptionIds (h : ProperCalls ls) {cls : List ConnectionLabel}
    (hdrawn : ∀ i q id e, ConnectionLabel.subscribe i q id e ∈ cls →
      ∃ msg, CircuitLabel.subscribe i msg e ∈ ls ∧ msg.subscriptionId = id) :
    OwnSubscriptionIds cls := by
  intro i j q q' id e e' hi hj
  obtain ⟨msg, hmsg, hid⟩ := hdrawn i q id e hi
  obtain ⟨msg', hmsg', hid'⟩ := hdrawn j q' id e' hj
  exact h.own i j msg msg' e e' hmsg hmsg' (hid.trans hid'.symm)

/-- The server has written more, and the client has not read it yet. -/
theorem CircuitFact.serverStep (h : CircuitFact F ls s) {l : LinkLabel} {server : Link}
    (hstep : (link cfg).step s.server l = some server) (more : List CircuitLabel) {taken : ℕ}
    (htaken : taken ≤ s.told.length)
    (htasks : s.server.tasks.map Forwarder.terms ++ l.opens = (s.told.take taken).map askedTerms) :
    CircuitFact F (ls ++ more) { s with server, taken } := by
  obtain ⟨events, hevents⟩ := (Wire.link_sound hstep).trace_append
  have hwritten : writtenFrames F server.trace = writtenFrames F s.server.trace ++ writtenFrames F events := by
    rw [hevents, writtenFrames_append]
  refine ⟨htaken, ?_, ?_, fun i msg hi => ?_, h.told, h.nodup, ?_, h.received⟩
  · dsimp only
    rw [hwritten, List.length_append]
    exact Nat.le_add_right_of_le h.heard_le
  · dsimp only
    rw [hwritten, List.take_append_of_le_length h.heard_le]
    exact h.arrived
  · obtain ⟨hmem, hid⟩ := h.asked i msg hi
    exact ⟨List.mem_append_left _ hmem, hid⟩
  · exact (Wire.link_sound hstep).terms.trans htasks

/-- What the server reads is what was written. -/
theorem CircuitFact.decoded (h : CircuitFact F ls s) (hF : F.codec.Lawful) (hls : ProperCalls ls)
    {msg : SubscribeMessage} (hmsg : msg ∈ s.told) :
    decodeMessage F SubscribeMessage.read (subscribeFrame F msg) = .ok msg := by
  obtain ⟨i, hi, -⟩ := h.told msg hmsg
  obtain ⟨hrequest, hafter⟩ := hls.range i msg none (h.asked i msg hi).1
  have hread := SubscribeMessage.read_extends (F := F) ⟨hrequest, hafter.trans_le (by decide)⟩
    (.refl msg.toDoc.members)
  have hdepth : msg.toDoc.depth ≤ nestingLimit := by
    unfold SubscribeMessage.toDoc
    cases msg.machineFilter <;> simp [Json.ofOption, nestingLimit]
  exact decodeMessage_toVecNamed hF _ hdepth hread

/-- Two calls have two ids. -/
theorem CircuitFact.asked_inj (h : CircuitFact F ls s) (hls : ProperCalls ls) {i j : ℕ}
    {msg msg' : SubscribeMessage} (hi : s.asked i = some msg) (hj : s.asked j = some msg')
    (hid : msg.subscriptionId = msg'.subscriptionId) : i = j :=
  hls.own i j msg msg' none none (h.asked i msg hi).1 (h.asked j msg' hj).1 hid

/-- The client has moved on without reading, and without a new subscription. -/
theorem CircuitFact.clientStep (h : CircuitFact F ls s) {l : ConnectionLabel} {client : Connection}
    (hstep : (connection F).step s.client l = some client) (more : List CircuitLabel)
    (harrive : ∀ frame, l ≠ .arrive frame) (hsubscribe : ∀ j q id e, l ≠ .subscribe j q id e) :
    CircuitFact F (ls ++ more) { s with client } := by
  have hstep := connection_sound hstep
  obtain ⟨hreceived, harrived⟩ := hstep.received_eq harrive hsubscribe
  refine ⟨h.taken_le, h.heard_le, harrived.trans h.arrived, fun i msg hi => ?_, fun msg hmsg => ?_,
    h.nodup, h.tasks, fun i id hreceives hid => ?_⟩
  · obtain ⟨hmem, hid⟩ := h.asked i msg hi
    exact ⟨List.mem_append_left _ hmem, hstep.id_kept hid⟩
  · obtain ⟨i, hi, hsent⟩ := h.told msg hmsg
    exact ⟨i, hi, hstep.sent_kept hsent⟩
  · dsimp only at hreceives hid ⊢
    rw [hreceived, harrived]
    -- it received before as it does now
    obtain heq | ⟨id', hreq, hid'⟩ | ⟨-, q, id', e, heq, -⟩ := hstep.subscribing_cases i
    · rw [heq] at hreceives hid
      exact h.received i id hreceives hid
    · obtain rfl := Option.some.inj (hid'.symm.trans hid)
      exact h.received i id' (by rw [hreq]; rfl) (by rw [hreq]; rfl)
    · exact absurd heq (hsubscribe i q id' e)

/-- The frame of a call goes out. -/
theorem CircuitFact.tell (h : CircuitFact F ls s) (hls : ProperCalls ls) {i : ℕ} {ok : Bool}
    {client : Connection} (hstep : (connection F).step s.client (.write i ok) = some client)
    (more : List CircuitLabel) {told : List SubscribeMessage}
    (htold : told = [] ∨ ∃ msg, s.asked i = some msg ∧ told = [msg]) :
    CircuitFact F (ls ++ more) { s with client, told := s.told ++ told } := by
  have hbase := h.clientStep hstep more (by simp) (by simp)
  obtain ⟨hunsent, hsent⟩ := (connection_sound hstep).writes
  obtain rfl | ⟨msg, hmsg, rfl⟩ := htold
  · rw [List.append_nil]
    exact hbase
  · refine ⟨?_, hbase.heard_le, hbase.arrived, hbase.asked, fun msg' hmsg' => ?_, ?_, ?_,
      hbase.received⟩
    · exact h.taken_le.trans (List.prefix_append _ _).length_le
    · rcases List.mem_append.mp hmsg' with hold | hnew
      · exact hbase.told msg' hold
      · obtain rfl := List.mem_singleton.mp hnew
        exact ⟨i, hmsg, hsent⟩
    · -- whoever wrote under this id was this call, which has not written
      rw [List.map_append]
      refine h.nodup.append (List.nodup_singleton _) fun id hold hnew => ?_
      obtain ⟨msg', hmsg', hid⟩ := List.mem_map.mp hold
      obtain ⟨j, hj, hsent'⟩ := h.told msg' hmsg'
      obtain rfl := h.asked_inj hls hj hmsg (hid.trans (List.mem_singleton.mp hnew))
      exact absurd (hunsent.symm.trans hsent') Bool.false_ne_true
    · dsimp only
      rw [List.take_append_of_le_length h.taken_le]
      exact h.tasks

/-- A task serves a call of the client, on its terms. -/
theorem CircuitFact.task_asked (h : CircuitFact F ls s) {task : Forwarder}
    (htask : task ∈ s.server.tasks) : ∃ i msg, s.asked i = some msg ∧ task.terms = askedTerms msg := by
  have hterms : task.terms ∈ (s.told.take s.taken).map askedTerms :=
    h.tasks ▸ List.mem_map_of_mem htask
  obtain ⟨msg, hmsg, heq⟩ := List.mem_map.mp hterms
  obtain ⟨i, hi, -⟩ := h.told msg (List.mem_of_mem_take hmsg)
  exact ⟨i, msg, hi, heq.symm⟩

/-- A call draws an id that nothing was written for. -/
theorem CircuitFact.fresh (h : CircuitFact F ls s) (hF : F.codec.Lawful)
    (htrace : Wire.TraceFact s.server) (hrange : RecordsInRange F s.server.trace) {id : String}
    (hid : ∀ i msg, s.asked i = some msg → msg.subscriptionId ≠ id) :
    s.client.arrived.filterMap (delivered F id) = [] := by
  have hnone : ∀ task ∈ s.server.tasks, task.id ≠ id := by
    rintro task htask rfl
    obtain ⟨i, msg, hi, heq⟩ := h.task_asked htask
    exact hid i msg hi (congrArg Wire.Terms.id heq).symm
  have hall := delivered_writtenFrames hF htrace hrange id
  rw [changesFor_eq_nil htrace hnone, List.map_nil] at hall
  rw [h.arrived]
  exact List.prefix_nil.mp (hall ▸ (List.take_prefix _ _).filterMap _)

/-- A call of `Client::subscribe` starts. The sender is stored before anything is written. -/
theorem CircuitFact.enrol (h : CircuitFact F ls s) (hF : F.codec.Lawful)
    (htrace : Wire.TraceFact s.server) (hrange : RecordsInRange F s.server.trace)
    (hrun : (circuit cfg F).exec (.initial guards) ls = some s) {i : ℕ} {msg : SubscribeMessage}
    {e : Option String} {client : Connection}
    (hls : ProperCalls (ls ++ [.subscribe i msg e]))
    (hstep : (connection F).step s.client (.subscribe i msg.requestId msg.subscriptionId e)
      = some client) {asked : ℕ → Option SubscribeMessage}
    (hasked : ∀ j, asked j = s.asked j ∨ j = i ∧ e = none ∧ asked j = some msg) :
    CircuitFact F (ls ++ [.subscribe i msg e]) { s with client, asked } := by
  have hlast : CircuitLabel.subscribe i msg e ∈ ls ++ [.subscribe i msg e] :=
    List.mem_append_right _ (List.mem_singleton_self _)
  have hstep := connection_sound hstep
  obtain ⟨hidle, hid, hothers⟩ := hstep.starts
  -- a call that has asked is not idle
  have hnot : ∀ j msg', s.asked j = some msg' → j ≠ i := by
    rintro j msg' hj rfl
    have hdrawn := (h.asked j msg' hj).2
    rw [hidle] at hdrawn
    exact absurd hdrawn (by simp [Subscribing.id?])
  obtain ⟨cls, hcls, -⟩ := connection_run_of_run hrun
  obtain ⟨hreceived, hreceivedOthers, harrived⟩ :=
    hstep.received_subscribe (yielded_of_idle hcls hidle)
  refine ⟨h.taken_le, h.heard_le, harrived.trans h.arrived, fun j msg' hj => ?_, fun msg' hmsg' => ?_,
    h.nodup, h.tasks, fun j id hreceives hjd => ?_⟩
  · dsimp only at hj ⊢
    obtain heq | ⟨rfl, rfl, heq⟩ := hasked j
    · obtain ⟨hmem, hjd⟩ := h.asked j msg' (heq.symm.trans hj)
      exact ⟨List.mem_append_left _ hmem, hstep.id_kept hjd⟩
    · obtain rfl := Option.some.inj (heq.symm.trans hj)
      exact ⟨hlast, hid⟩
  · obtain ⟨j, hj, hsent⟩ := h.told msg' hmsg'
    refine ⟨j, ?_, hstep.sent_kept hsent⟩
    exact ((hasked j).resolve_right fun hi => hnot j msg' hj hi.1).trans hj
  · dsimp only at hreceives hjd ⊢
    obtain rfl | hne := eq_or_ne j i
    · -- nothing was written under its id
      obtain rfl := Option.some.inj (hid.symm.trans hjd)
      rw [hreceived, harrived]
      refine (h.fresh hF htrace hrange fun k msg' hk heq => hnot k msg' hk ?_).symm
      exact hls.own k j msg' msg none e (List.mem_append_left _ (h.asked k msg' hk).1) hlast heq
    · rw [hreceivedOthers j hne, harrived]
      rw [hothers j hne] at hreceives hjd
      exact h.received j id hreceives hjd

/-- The reader reads the next frame. -/
theorem CircuitFact.hear (h : CircuitFact F ls s) (hls : ProperCalls ls)
    (hrun : (circuit cfg F).exec (.initial guards) ls = some s) (more : List CircuitLabel)
    {frame : Frame} {client : Connection}
    (hnext : (writtenFrames F s.server.trace)[s.heard]? = some frame)
    (hstep : (connection F).step s.client (.arrive frame) = some client) :
    CircuitFact F (ls ++ more) { s with client, heard := s.heard + 1 } := by
  obtain ⟨cls, hcls, hdrawn⟩ := connection_run_of_run hrun
  have hown := hls.ownSubscriptionIds hdrawn
  have hsound := connection_sound hstep
  obtain ⟨-, rfl⟩ : s.client.state.dead = false ∧ s.client.route F frame = client := by
    simpa [connection, Connection.step] using hstep
  obtain ⟨hsubscribing, harrived⟩ := s.client.route_kept F frame
  refine ⟨h.taken_le, ?_, ?_, fun i msg hi => ?_, fun msg hmsg => ?_, h.nodup, h.tasks,
    fun i id hreceives hid => ?_⟩
  · exact (List.getElem?_eq_some_iff.mp hnext).1
  · dsimp only
    rw [harrived, h.arrived, List.take_add_one, hnext]
    rfl
  · obtain ⟨hmem, hid⟩ := h.asked i msg hi
    exact ⟨List.mem_append_left _ hmem, hsound.id_kept hid⟩
  · obtain ⟨i, hi, hsent⟩ := h.told msg hmsg
    exact ⟨i, hi, hsound.sent_kept hsent⟩
  · dsimp only at hreceives hid ⊢
    rw [hsubscribing] at hreceives hid
    have hheld := sender_held_of_run hcls hown hreceives hid
    have howner : ∀ id', s.client.state.subscriptions[id']? = some i → id' = id := fun id' hentry =>
      Option.some.inj ((owner_of_run hcls hentry).symm.trans hid)
    rw [Connection.received_route hreceives hheld howner, harrived, List.filterMap_append,
      h.received i id hreceives hid]
    cases hframe : delivered F id frame <;> simp [hframe]

/-- **One step of either half keeps the two together.** -/
theorem CircuitFact.step (h : CircuitFact F ls s) (hF : F.codec.Lawful)
    (htrace : Wire.TraceFact s.server) (hrange : RecordsInRange F s.server.trace)
    (hrun : (circuit cfg F).exec (.initial guards) ls = some s) {l : CircuitLabel}
    (hls : ProperCalls (ls ++ [l])) (hstep : CircuitStep cfg F s l s') :
    CircuitFact F (ls ++ [l]) s' := by
  have hbefore : ProperCalls ls := hls.mono (List.subset_append_left _ _)
  cases hstep with
  | server ll server hl hstep =>
    refine h.serverStep hstep _ h.taken_le ?_
    rw [hl, List.append_nil]
    exact h.tasks
  | takes msg msg' server hmsg hdec hstep =>
    obtain rfl := Except.ok.inj ((h.decoded hF hbefore (List.mem_of_getElem? hmsg)).symm.trans hdec)
    refine h.serverStep hstep _ (List.getElem?_eq_some_iff.mp hmsg).1 ?_
    rw [h.tasks, List.take_add_one, hmsg, List.map_append]
    rfl
  | misreads msg e frames server hmsg hdec hstep =>
    have hok := h.decoded hF hbefore (List.mem_of_getElem? hmsg)
    exact absurd (hdec.symm.trans hok) (by simp)
  | client cl client hl hstep =>
    refine h.clientStep hstep _ ?_ ?_
    · rintro frame rfl
      exact absurd hl (by simp [ConnectionLabel.internal])
    · rintro j q id e rfl
      exact absurd hl (by simp [ConnectionLabel.internal])
  | subscribe i msg client hstep =>
    refine h.enrol hF htrace hrange hrun hls hstep fun j => ?_
    obtain rfl | hne := eq_or_ne j i
    · exact Or.inr ⟨rfl, rfl, Function.update_self ..⟩
    · exact Or.inl (Function.update_of_ne hne ..)
  | subscribeFails i msg e client hstep =>
    exact h.enrol hF htrace hrange hrun hls hstep fun j => Or.inl rfl
  | write i ok out client hstep =>
    refine h.tell hbefore hstep _ ?_
    cases hasked : s.asked i with
    | none => exact Or.inl (by simp)
    | some msg =>
      split
      · exact Or.inr ⟨msg, rfl, rfl⟩
      · exact Or.inl rfl
  | arrive frame client hnext hstep => exact h.hear hbefore hrun _ hnext hstep

/-- What entered the channel of a task, as records of the log. -/
theorem CircuitFact.task_exact (h : CircuitFact F ls s) (hls : ProperCalls ls)
    (hinv : Wire.LinkInvariant s.server) (hbound : s.server.world.store.sequence < 2 ^ 64 - 1)
    {task : Forwarder} (htask : task ∈ s.server.tasks) :
    ∃ n, List.Forall₂ Carries (((s.server.world.store.log.drop task.afterSequence).filter
      (wantedBy task.machineFilter)).take n) task.got := by
  obtain ⟨i, msg, hi, heq⟩ := h.task_asked htask
  have hafter : task.afterSequence < 2 ^ 64 - 1 := by
    rw [show task.afterSequence = msg.afterSequence from congrArg Wire.Terms.afterSequence heq]
    exact (hls.range i msg none (h.asked i msg hi).1).2
  obtain ⟨cursor, hserves, -⟩ := (hinv.tasks task htask).exact hbound hafter
  have hsent := hserves.sent rfl
  have hwants : task.asSubscriber.wants = wantedBy task.machineFilter := Subscriber.wants_eq rfl
  rw [hwants] at hsent
  -- what is due up to the cursor comes first of what is due
  have hfirst := ((List.take_prefix cursor s.server.world.store.log).drop task.afterSequence).filter
    (wantedBy task.machineFilter)
  exact ⟨_, List.prefix_iff_eq_take.mp hfirst ▸ hsent⟩

theorem CircuitFact.recordsInRange (h : CircuitFact F ls s) (hls : ProperCalls ls)
    (hinv : Wire.LinkInvariant s.server) (htrace : Wire.TraceFact s.server)
    (hbound : s.server.world.store.sequence < 2 ^ 64 - 1)
    (hlog : ∀ r ∈ s.server.world.store.log, (r.toChange []).InRange F)
    (hshallow : RecordsShallow F s.server.trace) : RecordsInRange F s.server.trace := by
  refine ⟨hshallow, fun id channel record hmem => ?_⟩
  obtain hsilent | ⟨task, htask, record', heq⟩ := htrace.origin _ hmem
  · exact absurd hsilent (by simp [Event.silent])
  obtain ⟨rfl, rfl, rfl⟩ := Event.change.inj heq
  -- it was written from the channel, and entered it from the log
  have hgot : record ∈ task.got := by
    refine (htrace.written task htask).within.subset (List.mem_filterMap.mpr ⟨_, hmem, ?_⟩)
    simp
  obtain ⟨n, hcarries⟩ := h.task_exact hls hinv hbound htask
  obtain ⟨r, hr, hcarry⟩ := exists_of_forall₂_mem hcarries.flip hgot
  have hr := List.mem_of_mem_drop (List.mem_filter.mp (List.mem_of_mem_take hr)).1
  obtain ⟨hseq, hversion, hdate⟩ := hlog r hr
  rw [show record = _ from hcarry]
  exact ⟨hseq, hversion, hdate⟩

theorem circuitFact_of_run (hF : F.codec.Lawful) (hls : ProperCalls ls)
    (hencodes : ∀ l ∈ ls, l.Encodes)
    (hrun : (circuit cfg F).exec (.initial guards) ls = some s)
    (hbound : s.server.world.store.sequence < 2 ^ 64 - 1)
    (hlog : ∀ r ∈ s.server.world.store.log, (r.toChange []).InRange F)
    (hshallow : RecordsShallow F s.server.trace) : CircuitFact F ls s := by
  revert hls hencodes hbound hlog hshallow
  refine System.exec_induction_labels (I := fun ls s => ProperCalls ls → (∀ l ∈ ls, l.Encodes) →
    s.server.world.store.sequence < 2 ^ 64 - 1 →
    (∀ r ∈ s.server.world.store.log, (r.toChange []).InRange F) →
    RecordsShallow F s.server.trace → CircuitFact F ls s) ?_ ?_ hrun
  · intro _ _ _ _ _
    exact ⟨le_rfl, Nat.zero_le _, rfl, by simp [Circuit.initial], by simp [Circuit.initial],
      List.nodup_nil, rfl, fun i id hreceives => absurd hreceives (by simp [Circuit.initial,
        Connection.new, Subscribing.receives])⟩
  · intro ls s l s' hrun ih hstep hls hencodes hbound hlog hshallow
    have hstep := circuit_sound hstep
    have hbefore : ProperCalls ls := hls.mono (List.subset_append_left _ _)
    obtain ⟨hencodes, -⟩ := List.forall_mem_append.mp hencodes
    obtain ⟨lls, hlls, hll⟩ := link_run_of_run hrun hencodes
    obtain ⟨els, hels⟩ := Wire.engine_run_of_run hlls
    -- the log and the trace only grow, so all their records were in range before
    have hgrows : (s.server.world.store.log <+: s'.server.world.store.log ∧
        s.server.world.store.sequence ≤ s'.server.world.store.sequence) ∧
        s.server.trace ⊆ s'.server.trace := by
      obtain heq | ⟨ll, hll, -⟩ := hstep.server_cases
      · rw [heq]
        exact ⟨⟨List.prefix_refl _, le_rfl⟩, List.Subset.refl _⟩
      · obtain ⟨events, htrace⟩ := (Wire.link_sound hll).trace_append
        exact ⟨Wire.log_grows_of_link (Wire.link_sound hll) hels,
          htrace ▸ List.subset_append_left _ _⟩
    obtain ⟨⟨hlogs, hsequence⟩, htraces⟩ := hgrows
    have hbound₀ := hsequence.trans_lt hbound
    have hlog₀ : ∀ r ∈ s.server.world.store.log, (r.toChange []).InRange F :=
      fun r hr => hlog r (hlogs.subset hr)
    have hshallow₀ : RecordsShallow F s.server.trace :=
      fun id channel record hmem => hshallow id channel record (htraces hmem)
    have h := ih hbefore hencodes hbound₀ hlog₀ hshallow₀
    have htrace := Wire.traceFact_of_run hll hlls
    exact h.step hF htrace
      (h.recordsInRange hbefore (Wire.linkInvariant_of_run hlls) htrace hbound₀ hlog₀ hshallow₀) hrun
      hls hstep

theorem CircuitFact.ids_nodup (h : CircuitFact F ls s) :
    (s.server.tasks.map Forwarder.id).Nodup := by
  have hids : s.server.tasks.map Forwarder.id
      = (s.told.take s.taken).map SubscribeMessage.subscriptionId := by
    have hterms := congrArg (List.map Wire.Terms.id) h.tasks
    rwa [List.map_map, List.map_map] at hterms
  rw [hids, List.map_take]
  exact h.nodup.sublist (List.take_sublist _ _)

/-- What has come through to a consumer comes first of what was written for it. -/
theorem CircuitFact.received_take (h : CircuitFact F ls s) (hF : F.codec.Lawful)
    (htrace : Wire.TraceFact s.server) (hrange : RecordsInRange F s.server.trace) {i : ℕ} {id : String}
    (hreceives : (s.client.subscribing i).receives = true)
    (hid : (s.client.subscribing i).id? = some id) :
    ∃ n, s.client.received i = ((changesFor id s.server.trace).take n).map ChangeRecord.settled ∧
      (s.heard = (writtenFrames F s.server.trace).length → n = (changesFor id s.server.trace).length) := by
  have hall := delivered_writtenFrames hF htrace hrange id
  have hfirst : s.client.received i <+: (changesFor id s.server.trace).map ChangeRecord.settled := by
    rw [h.received i id hreceives hid, h.arrived, ← hall]
    exact (List.take_prefix _ _).filterMap _
  refine ⟨(s.client.received i).length, ?_, fun hheard => ?_⟩
  · rw [List.map_take]
    exact List.prefix_iff_eq_take.mp hfirst
  · rw [h.received i id hreceives hid, h.arrived, hheard, List.take_length, hall, List.length_map]

end Fit

end Sdk

section Stream

open Sdk
open Wire (Forwarder)

/-- **From the log to the consumer.** No record is lost, repeated, put out of order or given to the
wrong consumer between the database and `Subscription::next`: what a consumer has been given, with
what waits for it, is an initial part of the records from where it asked that it asked for, each up to
the form it has after the wire. If its task is at rest and the client has read everything, it is all
that has entered the channel. This is for records within the reading limit: one that is nested deeper is
written, and dropped by the client. -/
theorem stream_end_to_end {cfg : Config} {F : Formats} (hF : F.codec.Lawful) {guards : GuardRegistry}
    {ls : List CircuitLabel} {s : Circuit} (hls : ProperCalls ls) (hencodes : ∀ l ∈ ls, l.Encodes)
    (hrun : (circuit cfg F).exec (.initial guards) ls = some s)
    (hbound : s.server.world.store.sequence < 2 ^ 64 - 1)
    (hlog : ∀ r ∈ s.server.world.store.log, (r.toChange []).InRange F)
    (hshallow : RecordsShallow F s.server.trace) {i : ℕ} {msg : SubscribeMessage}
    (hasked : s.asked i = some msg)
    (hreceives : (s.client.subscribing i).receives = true) :
    (∃ changes, List.Forall₂ Carries (((s.server.world.store.log.drop msg.afterSequence).filter
        (wantedBy msg.machineFilter)).take changes.length) changes ∧
      s.client.received i = changes.map ChangeRecord.settled) ∧
    ∀ task ∈ s.server.tasks, task.id = msg.subscriptionId → task.running = true →
      task.unwritten = [] → s.heard = (writtenFrames F s.server.trace).length →
      s.client.received i = task.got.map ChangeRecord.settled := by
  have h := circuitFact_of_run hF hls hencodes hrun hbound hlog hshallow
  obtain ⟨lls, hlls, hll⟩ := link_run_of_run hrun hencodes
  have hinv := Wire.linkInvariant_of_run hlls
  have htrace := Wire.traceFact_of_run hll hlls
  have hrange := h.recordsInRange hls hinv htrace hbound hlog hshallow
  obtain ⟨n, hreceived, hcomplete⟩ :=
    h.received_take hF htrace hrange hreceives (h.asked i msg hasked).2
  -- what was written for the subscription is what its task wrote
  have hchanges : ∀ task ∈ s.server.tasks, task.id = msg.subscriptionId →
      changesFor msg.subscriptionId s.server.trace = Wire.changesOn task.channel s.server.trace :=
    fun task htask hid => hid ▸ changesFor_eq_changesOn htrace h.ids_nodup hinv.nodup htask
  constructor
  · by_cases htask : ∃ task ∈ s.server.tasks, task.id = msg.subscriptionId
    · obtain ⟨task, htask, hid⟩ := htask
      obtain ⟨j, msg', hj, hterms⟩ := h.task_asked htask
      obtain rfl := h.asked_inj hls hj hasked ((congrArg Wire.Terms.id hterms).symm.trans hid)
      obtain rfl := Option.some.inj (hj.symm.trans hasked)
      obtain ⟨m, hcarries⟩ := h.task_exact hls hinv hbound htask
      have hfilter : task.machineFilter = msg'.machineFilter := congrArg Wire.Terms.machineFilter hterms
      have hafter : task.afterSequence = msg'.afterSequence := congrArg Wire.Terms.afterSequence hterms
      rw [hfilter, hafter] at hcarries
      refine ⟨_, ?_, hreceived⟩
      rw [hchanges task htask hid]
      exact forall₂_take_of_prefix hcarries
        ((List.take_prefix _ _).trans (htrace.written task htask).within)
    · push Not at htask
      rw [changesFor_eq_nil htrace htask] at hreceived
      exact ⟨[], List.Forall₂.nil, by simpa using hreceived⟩
  · intro task htask hid hrunning hunwritten hheard
    have hall : task.got = task.done := by
      rw [Forwarder.got, hunwritten, List.append_nil]
    rw [hreceived, hcomplete hheard, List.take_length, hchanges task htask hid,
      (htrace.written task htask).running hrunning, hall]

def recordDepth (F : Formats) : Wire.Event → Option ℕ
  | .change _ _ record => some (record.toDoc F).depth
  | _ => none

/-- A payment is committed and its record written before the subscription is confirmed. -/
def earlyRecord : List CircuitLabel :=
  [.server (.engine (.defineMachine orderMachine none)), .subscribe 0 fromStart none,
    .client (.register 0), .write 0 true false, .take] ++
  (Wire.paymentOnLink ++ (passSteps 7).map Wire.LinkLabel.engine).map .server ++
  [.server (.receive 0 none), .server (.forward 0 none), .server (.confirm none none), .arrive,
    .arrive, .client (.poll 0), .client (.conclude 0), .client (.next 0)]

theorem stream_end_to_end_earlyRecord :
    ∃ s, (circuit oneStripe oneDate).exec (.initial ∅) earlyRecord = some s ∧
      (s.client.received 0).map ChangeRecord.sequence = [1] ∧
      ∃ changes, List.Forall₂ Carries ((s.server.world.store.log.filter (wantedBy none)).take
        changes.length) changes ∧ s.client.received 0 = changes.map ChangeRecord.settled := by
  have heval : ((circuit oneStripe oneDate).exec (.initial ∅) earlyRecord).map
      (fun s => ((s.client.received 0).map ChangeRecord.sequence,
        s.server.world.store.log.map fun r => (r.sequence, r.version, r.timestamp),
        s.server.world.store.sequence, (s.client.subscribing 0).receives))
      = some ([1], [(1, 1, 0)], 1, true) := by decide +kernel
  have hasked : ((circuit oneStripe oneDate).exec (.initial ∅) earlyRecord).map
      (fun s => s.asked 0) = some (some fromStart) := by decide +kernel
  have hdepths : ((circuit oneStripe oneDate).exec (.initial ∅) earlyRecord).map
      (fun s => s.server.trace.filterMap (recordDepth oneDate)) = some [3] := by decide +kernel
  obtain ⟨s, hrun, hs⟩ := Option.map_eq_some_iff.mp heval
  simp only [Prod.mk.injEq] at hs
  obtain ⟨hreceived, hlog, hsequence, hreceives⟩ := hs
  rw [hrun] at hasked
  rw [hrun, Option.map_some, Option.some.injEq] at hdepths
  have honly : ∀ i msg e, CircuitLabel.subscribe i msg e ∈ earlyRecord → i = 0 ∧ msg = fromStart := by
    intro i msg e hmem
    simp only [earlyRecord, List.mem_append, List.mem_cons, List.mem_map, List.not_mem_nil, or_false,
      reduceCtorEq, and_false, exists_false, false_or, CircuitLabel.subscribe.injEq] at hmem
    exact ⟨hmem.1, hmem.2.1⟩
  have hcalls : ProperCalls earlyRecord := by
    refine ⟨fun i j msg msg' e e' hi hj _ => ?_, fun i msg e hi => ?_⟩
    · rw [(honly i msg e hi).1, (honly j msg' e' hj).1]
    · rw [(honly i msg e hi).2]
      decide
  have hencodes : ∀ l ∈ earlyRecord, l.Encodes := by
    simp [earlyRecord, Wire.paymentOnLink, passSteps, steps, CircuitLabel.Encodes,
      Wire.LinkLabel.Encodes, or_imp, forall_and]
  have hrange : ∀ r ∈ s.server.world.store.log, (r.toChange []).InRange oneDate := by
    intro r hr
    have hmem := List.mem_map_of_mem (f := fun r => (r.sequence, r.version, r.timestamp)) hr
    rw [hlog, List.mem_singleton] at hmem
    simp only [Prod.mk.injEq] at hmem
    obtain ⟨hseq, hversion, htime⟩ := hmem
    refine ⟨?_, ?_, ?_⟩
    · exact hseq.trans_lt (by decide)
    · exact hversion.trans_lt (by decide)
    · change Except.ok 0 = Except.ok r.timestamp
      rw [htime]
  have hshallow : RecordsShallow oneDate s.server.trace := by
    intro id channel record hmem
    have hdepth : (record.toDoc oneDate).depth ∈ s.server.trace.filterMap (recordDepth oneDate) :=
      List.mem_filterMap.mpr ⟨.change id channel record, hmem, rfl⟩
    rw [hdepths, List.mem_singleton] at hdepth
    rw [hdepth]
    decide
  refine ⟨s, hrun, hreceived, (stream_end_to_end MessagePack.codec_lawful hcalls hencodes hrun
    (by rw [hsequence]; decide) hrange hshallow (Option.some.inj hasked) hreceives).1⟩

end Stream

end StateMaster
