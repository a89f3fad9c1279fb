import StateMaster.Framework.Run
import StateMaster.Framework.Table
import StateMaster.Sdk.Client

/-!
# The connection of a client

The calls of a client share one connection. `send_request` stores the sender of a channel of its own
under its request id, writes its frame and waits for the channel; the reader task takes the sender
back out when a reply with that id comes in, and drops all of them when it exits. `Client::subscribe`
does the same for the records of a subscription, and asks for it by such a call.

`connection F` is this at the grain of the locks: between two of them a call runs alone, and the
calls, the timers, the reader and the consumers of subscriptions come in any order. A channel is
named by the call that made it, so a sender is held by nobody when no entry of the shared state
names its call. The frames read so far are numbered, and `handed` keeps the number of every frame
that was put into the channel of a call; neither is read by a step.

`ConnectionStep` is everything that can happen, with the state it leads to.
-/

open Framework

namespace StateMaster

namespace Sdk

/-! ### Calls and subscriptions -/

/-- The errors of `send_request`. -/
inductive RequestError where
  | disconnected
  | timeout
deriving DecidableEq, Repr

/-- A frame with its number among those the reader has read. -/
structure Arrival where
  number : ℕ
  frame : Frame
deriving DecidableEq, Repr

/-- Where a call of `send_request` is. -/
inductive Request where
  | idle
  /-- The channel is made; at the first lock. -/
  | invoked (requestId : ℕ)
  /-- The sender is stored; at the writer. -/
  | registered (requestId : ℕ)
  /-- At `timeout(timeout, rx).await`. -/
  | waiting (requestId : ℕ)
  /-- The timer has fired on an empty channel, whose receiver is not dropped yet. -/
  | expiring (requestId : ℕ)
  /-- The receiver is dropped; at the second lock. -/
  | elapsed (requestId : ℕ)
  | returned (requestId : ℕ) (result : Except RequestError Arrival)
deriving DecidableEq

namespace Request

/-- The request of a call whose receiver exists. -/
def receiver : Request → Option ℕ
  | invoked requestId | registered requestId | waiting requestId | expiring requestId =>
    some requestId
  | _ => none

/-- The request of a call. -/
def requestId : Request → Option ℕ
  | idle => none
  | invoked q | registered q | waiting q | expiring q | elapsed q | returned q _ => some q

/-- The request under which the sender of a call may be stored: not before the first lock, and not
after the second. -/
def stored : Request → Option ℕ
  | registered q | waiting q | expiring q | elapsed q | returned q (.ok _)
  | returned q (.error .disconnected) => some q
  | _ => none

end Request

/-- The errors of `Client::subscribe`. -/
inductive SubscribeError where
  | request (e : RequestError)
  | reply (e : SdkError)
deriving DecidableEq, Repr

/-- Where a call of `Client::subscribe` is, and what became of it. -/
inductive Subscribing where
  | idle
  /-- The sender is stored; the request is made by the call of the same number. -/
  | requesting (id : String)
  /-- The `Subscription` is with its consumer. -/
  | active (id : String)
  | failed (id : String) (e : SubscribeError)
deriving DecidableEq

namespace Subscribing

/-- The receiver is with the call or with the `Subscription`. -/
def receives : Subscribing → Bool
  | requesting _ | active _ => true
  | _ => false

/-- The subscription id a call has drawn. -/
def id? : Subscribing → Option String
  | idle => none
  | requesting id | active id | failed id _ => some id

end Subscribing

/-- The error `Client::subscribe` makes of a reply other than a `Result`. -/
def refusal (F : Formats) (resp : Frame) : SdkError :=
  match resp.tag with
  | .rejection =>
    match decodeMessage F RejectionMessage.read resp with
    | .ok rej => .rejected rej.code rej.message rej.currentState rej.version
    | .error e => .proto e
  | .error =>
    match decodeMessage F ErrorMessage.read resp with
    | .ok msg => .internal msg.message
    | .error _ => .internal "unknown server error"
  | other => .internal ("unexpected response tag: " ++ other.debugText)

/-! ### The connection -/

/-- `SharedState`, with the call that made the channel in place of its sender. -/
structure SharedState where
  pending : Table ℕ ℕ
  subscriptions : Table String ℕ
  dead : Bool

/-- A connection with its calls, their channels and the `Subscription`s handed out. -/
structure Connection where
  state : SharedState
  calls : ℕ → Request
  /-- What waits in the `oneshot` channel of a call. -/
  slots : ℕ → Option Arrival
  subscribing : ℕ → Subscribing
  /-- What waits in the `mpsc` channel of a subscription. -/
  queues : ℕ → List ChangeRecord
  /-- What `Subscription::next` has returned. -/
  yielded : ℕ → List (Option ChangeRecord)
  arrived : List Frame
  handed : List (ℕ × ℕ)

/-- The connection as `connect` leaves it. -/
def Connection.new : Connection where
  state := ⟨∅, ∅, false⟩
  calls _ := .idle
  slots _ := none
  subscribing _ := .idle
  queues _ := []
  yielded _ := []
  arrived := []
  handed := []

/-- What can happen next. -/
inductive ConnectionLabel where
  /-- A call of `send_request`. -/
  | invoke (i requestId : ℕ)
  /-- Its first lock. -/
  | register (i : ℕ)
  /-- The frame is written, or not. -/
  | write (i : ℕ) (ok : Bool)
  /-- The channel is polled, and is ready. -/
  | poll (i : ℕ)
  /-- The channel is polled, is not ready, and the timer is. -/
  | expire (i : ℕ)
  | dropReceiver (i : ℕ)
  /-- The second lock, after the timeout. -/
  | remove (i : ℕ)
  /-- The reader reads a frame and routes it. -/
  | arrive (frame : Frame)
  /-- The reader's loop is over. -/
  | exit
  /-- A call of `Client::subscribe`, up to its request. -/
  | subscribe (i requestId : ℕ) (id : String) (encodeError : Option String)
  /-- The request of the call has returned. -/
  | conclude (i : ℕ)
  /-- `Subscription::next` returns. -/
  | next (i : ℕ)
deriving DecidableEq

/-- The call a label starts, with its request id. -/
def ConnectionLabel.starts : ConnectionLabel → Option (ℕ × ℕ)
  | .invoke i requestId | .subscribe i requestId _ none => some (i, requestId)
  | _ => none

namespace Connection

def setCall (s : Connection) (i : ℕ) (r : Request) : Connection :=
  { s with calls := Function.update s.calls i r }

def setSubscribing (s : Connection) (i : ℕ) (p : Subscribing) : Connection :=
  { s with subscribing := Function.update s.subscribing i p }

/-- A frame was read. -/
def read (s : Connection) (frame : Frame) : Connection := { s with arrived := s.arrived ++ [frame] }

/-- `state.pending.remove(&rid)`. -/
def removePending (s : Connection) (requestId : ℕ) : Connection :=
  { s with state := { s.state with pending := s.state.pending.erase requestId } }

/-- `state.subscriptions.remove(&subscription_id)`. -/
def removeSubscription (s : Connection) (id : String) : Connection :=
  { s with state := { s.state with subscriptions := s.state.subscriptions.erase id } }

/-- `let _ = tx.send(frame)` to the channel of a call. -/
def hand (s : Connection) (i : ℕ) (a : Arrival) : Connection :=
  match (s.calls i).receiver with
  | some _ =>
    { s with slots := Function.update s.slots i (some a), handed := s.handed ++ [(a.number, i)] }
  -- the call has timed out, or could not write: the frame is dropped
  | none => s

/-- `let _ = tx.send(msg.record)` to the channel of a subscription. -/
def push (s : Connection) (i : ℕ) (record : ChangeRecord) : Connection :=
  if (s.subscribing i).receives then
    { s with queues := Function.update s.queues i (s.queues i ++ [record]) }
  else s

/-- One turn of the loop of `spawn_reader`. -/
def route (F : Formats) (s : Connection) (frame : Frame) : Connection :=
  match frame.tag with
  | .result | .rejection | .error =>
    match extractRequestId F frame with
    | some requestId =>
      match s.state.pending[requestId]? with
      | some i => ((s.read frame).removePending requestId).hand i ⟨s.arrived.length, frame⟩
      | none => s.read frame
    | none => s.read frame
  | .changeRecord =>
    match decodeMessage F (ChangeRecordMessage.read F) frame with
    | .ok msg =>
      match s.state.subscriptions[msg.subscriptionId]? with
      | some i => (s.read frame).push i msg.record
      | none => s.read frame
    | .error _ => s.read frame
  -- `Pong`, `Notice` and what the reader does not expect are at most logged
  | _ => s.read frame

/-- What `Client::subscribe` does with the outcome of its request. -/
def conclude (F : Formats) (s : Connection) (i : ℕ) (id : String) :
    Except RequestError Arrival → Connection
  -- the `?` after `send_request` leaves the sender in the map
  | .error e => s.setSubscribing i (.failed id (.request e))
  | .ok a =>
    match a.frame.tag with
    | .result => s.setSubscribing i (.active id)
    | .rejection | .error =>
      (s.removeSubscription id).setSubscribing i (.failed id (.reply (refusal F a.frame)))
    | _ => s.setSubscribing i (.failed id (.reply (refusal F a.frame)))

/-- `oneshot::channel()`, and the call is on its way. -/
def start (s : Connection) (i requestId : ℕ) : Connection :=
  { s.setCall i (.invoked requestId) with slots := Function.update s.slots i none }

/-- The sender of a new channel is stored, whatever the connection is like. -/
def enrol (s : Connection) (i : ℕ) (id : String) : Connection :=
  { s with state := { s.state with subscriptions := s.state.subscriptions.insert id i }
           queues := Function.update s.queues i [] }

def step (F : Formats) (s : Connection) : ConnectionLabel → Option Connection
  | .invoke i requestId =>
    match s.calls i with
    | .idle => some (s.start i requestId)
    | _ => none
  | .register i =>
    match s.calls i with
    | .invoked requestId =>
      -- the test and the insertion are under one lock
      if s.state.dead then some (s.setCall i (.returned requestId (.error .disconnected)))
      else
        some
          { s.setCall i (.registered requestId) with
            state := { s.state with pending := s.state.pending.insert requestId i } }
    | _ => none
  | .write i ok =>
    match s.calls i with
    | .registered requestId =>
      -- on an error the sender stays where it is
      some (s.setCall i
        (if ok then .waiting requestId else .returned requestId (.error .disconnected)))
    | _ => none
  | .poll i =>
    match s.calls i with
    | .waiting requestId =>
      match s.slots i with
      | some a => some (s.setCall i (.returned requestId (.ok a)))
      | none =>
        -- without a sender the channel is closed
        if s.state.pending[requestId]? = some i then none
        else some (s.setCall i (.returned requestId (.error .disconnected)))
    | _ => none
  | .expire i =>
    match s.calls i with
    | .waiting requestId =>
      -- the channel is looked at before the timer
      if s.slots i = none ∧ s.state.pending[requestId]? = some i then
        some (s.setCall i (.expiring requestId))
      else none
    | _ => none
  | .dropReceiver i =>
    match s.calls i with
    | .expiring requestId => some (s.setCall i (.elapsed requestId))
    | _ => none
  | .remove i =>
    match s.calls i with
    | .elapsed requestId =>
      some ((s.removePending requestId).setCall i (.returned requestId (.error .timeout)))
    | _ => none
  | .arrive frame => if s.state.dead then none else some (s.route F frame)
  | .exit =>
    if s.state.dead then none
    -- the senders of subscriptions are not dropped
    else some { s with state := { s.state with dead := true, pending := ∅ } }
  | .subscribe i requestId id encodeError =>
    match s.calls i, s.subscribing i with
    | .idle, .idle =>
      match encodeError with
      | some e =>
        -- the sender stays here too
        some ((s.enrol i id).setSubscribing i
          (.failed id (.reply (.proto (.serializationError e)))))
      | none => some (((s.enrol i id).setSubscribing i (.requesting id)).start i requestId)
    | _, _ => none
  | .conclude i =>
    match s.subscribing i, s.calls i with
    | .requesting id, .returned _ result => some (s.conclude F i id result)
    | _, _ => none
  | .next i =>
    match s.subscribing i with
    | .active id =>
      match s.queues i with
      | record :: rest =>
        some { s with queues := Function.update s.queues i rest
                      yielded := Function.update s.yielded i (s.yielded i ++ [some record]) }
      | [] =>
        -- an empty channel is closed when no sender is left
        if s.state.subscriptions[id]? = some i then none
        else some { s with yielded := Function.update s.yielded i (s.yielded i ++ [none]) }
    | _ => none

end Connection

/-- The connection as a labelled system. -/
def connection (F : Formats) : System Connection ConnectionLabel where
  step := Connection.step F

/-! ### What a step can do -/

/-- Everything that can happen on a connection. -/
inductive ConnectionStep (F : Formats) (s : Connection) : ConnectionLabel → Connection → Prop where
  | invoke (i requestId : ℕ) (hcall : s.calls i = .idle) :
    ConnectionStep F s (.invoke i requestId) (s.start i requestId)
  | refuse (i requestId : ℕ) (hcall : s.calls i = .invoked requestId)
      (hdead : s.state.dead = true) :
    ConnectionStep F s (.register i) (s.setCall i (.returned requestId (.error .disconnected)))
  | register (i requestId : ℕ) (hcall : s.calls i = .invoked requestId)
      (hdead : s.state.dead = false) :
    ConnectionStep F s (.register i)
      { s.setCall i (.registered requestId) with
        state := { s.state with pending := s.state.pending.insert requestId i } }
  | write (i requestId : ℕ) (ok : Bool) (hcall : s.calls i = .registered requestId) :
    ConnectionStep F s (.write i ok) (s.setCall i
      (if ok then .waiting requestId else .returned requestId (.error .disconnected)))
  | take (i requestId : ℕ) (a : Arrival) (hcall : s.calls i = .waiting requestId)
      (hslot : s.slots i = some a) :
    ConnectionStep F s (.poll i) (s.setCall i (.returned requestId (.ok a)))
  | wake (i requestId : ℕ) (hcall : s.calls i = .waiting requestId) (hslot : s.slots i = none)
      (hgone : s.state.pending[requestId]? ≠ some i) :
    ConnectionStep F s (.poll i) (s.setCall i (.returned requestId (.error .disconnected)))
  | expire (i requestId : ℕ) (hcall : s.calls i = .waiting requestId) (hslot : s.slots i = none)
      (hheld : s.state.pending[requestId]? = some i) :
    ConnectionStep F s (.expire i) (s.setCall i (.expiring requestId))
  | dropReceiver (i requestId : ℕ) (hcall : s.calls i = .expiring requestId) :
    ConnectionStep F s (.dropReceiver i) (s.setCall i (.elapsed requestId))
  | remove (i requestId : ℕ) (hcall : s.calls i = .elapsed requestId) :
    ConnectionStep F s (.remove i)
      ((s.removePending requestId).setCall i (.returned requestId (.error .timeout)))
  | pass (frame : Frame) (hdead : s.state.dead = false) :
    ConnectionStep F s (.arrive frame) (s.read frame)
  | reply (frame : Frame) (requestId i k : ℕ) (hdead : s.state.dead = false)
      (htag : frame.tag.isReply = true) (hid : extractRequestId F frame = some requestId)
      (hpending : s.state.pending[requestId]? = some i) (hreceiver : (s.calls i).receiver = some k) :
    ConnectionStep F s (.arrive frame)
      { (s.read frame).removePending requestId with
        slots := Function.update s.slots i (some ⟨s.arrived.length, frame⟩)
        handed := s.handed ++ [(s.arrived.length, i)] }
  | lose (frame : Frame) (requestId i : ℕ) (hdead : s.state.dead = false)
      (hpending : s.state.pending[requestId]? = some i) (hreceiver : (s.calls i).receiver = none) :
    ConnectionStep F s (.arrive frame) ((s.read frame).removePending requestId)
  | record (frame : Frame) (msg : ChangeRecordMessage) (i : ℕ) (hdead : s.state.dead = false)
      (hsub : s.state.subscriptions[msg.subscriptionId]? = some i) :
    ConnectionStep F s (.arrive frame)
      { s.read frame with queues := Function.update s.queues i (s.queues i ++ [msg.record]) }
  | exit (hdead : s.state.dead = false) :
    ConnectionStep F s .exit { s with state := { s.state with dead := true, pending := ∅ } }
  | subscribe (i requestId : ℕ) (id : String) (hcall : s.calls i = .idle)
      (hsub : s.subscribing i = .idle) :
    ConnectionStep F s (.subscribe i requestId id none)
      (((s.enrol i id).setSubscribing i (.requesting id)).start i requestId)
  | subscribeFails (i requestId : ℕ) (id e : String) (hsub : s.subscribing i = .idle) :
    ConnectionStep F s (.subscribe i requestId id (some e)) ((s.enrol i id).setSubscribing i
      (.failed id (.reply (.proto (.serializationError e)))))
  | conclude (i : ℕ) (id : String) (p : Subscribing) (hsub : s.subscribing i = .requesting id)
      (hp : p = .active id ∨ ∃ e, p = .failed id e) :
    ConnectionStep F s (.conclude i) (s.setSubscribing i p)
  | refused (i : ℕ) (id : String) (e : SubscribeError) (hsub : s.subscribing i = .requesting id) :
    ConnectionStep F s (.conclude i) ((s.removeSubscription id).setSubscribing i (.failed id e))
  | nextRecord (i : ℕ) (id : String) (record : ChangeRecord) (rest : List ChangeRecord)
      (hsub : s.subscribing i = .active id) (hqueue : s.queues i = record :: rest) :
    ConnectionStep F s (.next i)
      { s with queues := Function.update s.queues i rest
               yielded := Function.update s.yielded i (s.yielded i ++ [some record]) }
  | nextNone (i : ℕ) (id : String) (hsub : s.subscribing i = .active id)
      (hqueue : s.queues i = []) (hgone : s.state.subscriptions[id]? ≠ some i) :
    ConnectionStep F s (.next i)
      { s with yielded := Function.update s.yielded i (s.yielded i ++ [none]) }

section Steps

variable {F : Formats} {s s' : Connection} {l : ConnectionLabel}

theorem route_sound (F : Formats) (s : Connection) (frame : Frame)
    (hdead : s.state.dead = false) : ConnectionStep F s (.arrive frame) (s.route F frame) := by
  -- the three tags of a reply share a branch
  have hreply : frame.tag.isReply = true → ConnectionStep F s (.arrive frame)
      (match extractRequestId F frame with
        | some requestId =>
          match s.state.pending[requestId]? with
          | some i => ((s.read frame).removePending requestId).hand i ⟨s.arrived.length, frame⟩
          | none => s.read frame
        | none => s.read frame) := by
    intro htag
    split
    · split
      · unfold Connection.hand
        split
        · exact .reply frame _ _ _ hdead htag ‹_› ‹_› ‹_›
        · exact .lose frame _ _ hdead ‹_› ‹_›
      · exact .pass frame hdead
    · exact .pass frame hdead
  unfold Connection.route
  split
  · exact hreply (by rw [‹frame.tag = _›]; rfl)
  · exact hreply (by rw [‹frame.tag = _›]; rfl)
  · exact hreply (by rw [‹frame.tag = _›]; rfl)
  · split
    · split
      · unfold Connection.push
        split
        · exact .record frame _ _ hdead ‹_›
        · exact .pass frame hdead
      · exact .pass frame hdead
    · exact .pass frame hdead
  · exact .pass frame hdead

theorem conclude_sound {i : ℕ} {id : String} (hsub : s.subscribing i = .requesting id)
    (result : Except RequestError Arrival) :
    ConnectionStep F s (.conclude i) (s.conclude F i id result) := by
  unfold Connection.conclude
  split
  · exact .conclude i id _ hsub (Or.inr ⟨_, rfl⟩)
  · split
    · exact .conclude i id _ hsub (Or.inl rfl)
    · exact .refused i id _ hsub
    · exact .refused i id _ hsub
    · exact .conclude i id _ hsub (Or.inr ⟨_, rfl⟩)

theorem connection_sound (h : (connection F).step s l = some s') : ConnectionStep F s l s' := by
  change s.step F l = some s' at h
  unfold Connection.step at h
  cases l with
  | invoke i requestId =>
    dsimp only at h
    split at h
    · cases h
      exact .invoke i requestId ‹_›
    · cases h
  | register i =>
    dsimp only at h
    split at h
    · split at h
      · cases h
        exact .refuse i _ ‹_› ‹_›
      · cases h
        exact .register i _ ‹_› (Bool.eq_false_of_not_eq_true ‹_›)
    · cases h
  | write i ok =>
    dsimp only at h
    split at h
    · cases h
      exact .write i _ ok ‹_›
    · cases h
  | poll i =>
    dsimp only at h
    split at h
    · split at h
      · cases h
        exact .take i _ _ ‹_› ‹_›
      · split at h
        · cases h
        · cases h
          exact .wake i _ ‹_› ‹_› ‹_›
    · cases h
  | expire i =>
    dsimp only at h
    split at h
    · split at h
      · rename_i hcall hready
        cases h
        exact .expire i _ hcall hready.1 hready.2
      · cases h
    · cases h
  | dropReceiver i =>
    dsimp only at h
    split at h
    · cases h
      exact .dropReceiver i _ ‹_›
    · cases h
  | remove i =>
    dsimp only at h
    split at h
    · cases h
      exact .remove i _ ‹_›
    · cases h
  | arrive frame =>
    dsimp only at h
    split at h
    · cases h
    · cases h
      exact route_sound F s frame (Bool.eq_false_of_not_eq_true ‹_›)
  | exit =>
    dsimp only at h
    split at h
    · cases h
    · cases h
      exact .exit (Bool.eq_false_of_not_eq_true ‹_›)
  | subscribe i requestId id encodeError =>
    dsimp only at h
    split at h
    · split at h
      · cases h
        exact .subscribeFails i requestId id _ ‹_›
      · cases h
        exact .subscribe i requestId id ‹_› ‹_›
    · cases h
  | conclude i =>
    dsimp only at h
    split at h
    · cases h
      exact conclude_sound ‹_› _
    · cases h
  | next i =>
    dsimp only at h
    split at h
    · split at h
      · cases h
        exact .nextRecord i _ _ _ ‹_› ‹_›
      · split at h
        · cases h
        · cases h
          exact .nextNone i _ ‹_› ‹_› ‹_›
    · cases h

end Steps

end Sdk

end StateMaster
