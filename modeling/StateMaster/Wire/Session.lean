import StateMaster.Engine.Stream
import StateMaster.Proto.Frame
import StateMaster.Wire.Replies

/-!
# Connections

`serve_framed` drives one connection: it reads an item, acts on it, and reads the next one. Between
two reads it is at one of four places (`Phase`), and `serve` is what it does with one item. The
engine and the subscriber list are shared, so a step takes them as it finds them; it is blocked
while a dispatch pass holds the list it has to write.

`host` runs any number of connections side by side, with the tasks that forward the records of a
subscription and with the passes of the dispatcher. A connection remembers what it did (`Action`),
which is how the properties of whole sessions are stated.
-/

open Framework

namespace StateMaster

namespace Wire

/-- The errors of `smdb-wire`. -/
inductive WireError where
  | io (e : String)
  | proto (e : ProtoError)
  | engine (e : EngineError)
  | tls (reason : String)
  | auth (reason : String)
  | sessionNotFound (id : String)
  | connectionClosed
deriving DecidableEq, Repr

/-- The `Display` text of a `WireError`. -/
def WireError.toText : WireError → String
  | .io e => "io error: " ++ e
  | .proto e => "protocol error: " ++ e.toText
  | .engine e => "engine error: " ++ e.toText
  | .tls reason => "tls error: " ++ reason
  | .auth reason => "auth error: " ++ reason
  | .sessionNotFound id => "session not found: " ++ id
  | .connectionClosed => "connection closed"

/-- What a connection reads of the server's configuration. -/
structure ServerConfig where
  authTokens : List String

/-- One authenticated client connection. A subscription is a receiver, here its channel. -/
structure Session where
  id : String
  authenticated : Bool
  capabilities : List String
  subscriptions : Table String ℕ

/-- `Session::new`. -/
def Session.new (id : String) : Session := ⟨id, false, [], ∅⟩

/-! ### Tokens -/

/-- `ct_eq`: the bytes that differ are gathered, without an early exit. -/
def ctEq (a b : List UInt8) : Bool :=
  if a.length ≠ b.length then false
  else (a.zip b).foldl (fun diff p => diff ||| (p.1 ^^^ p.2)) 0 == 0

/-- `str::as_bytes`. -/
def asBytes (s : String) : List UInt8 := s.toByteArray.data.toList

/-- `token_is_valid`: every token is compared, also after a match. -/
def tokenIsValid (valid : List String) (presented : String) : Bool :=
  valid.foldl (fun matched token => matched || ctEq (asBytes token) (asBytes presented)) false

/-! ### One connection -/

/-- Where a connection is when it reads the next item. -/
inductive Phase where
  | startup
  | auth (capabilities : List String)
  | main (session : Session)
  /-- `serve_framed` returned. -/
  | closed (result : Except WireError Unit)

/-- What `stream.next()` gives. -/
inductive Incoming where
  | frame (frame : Frame)
  | failed (e : ProtoError)
  | eof

/-- What a connection does that others can see. -/
inductive Action where
  | send (frame : Frame)
  /-- A command that makes a call of the engine. -/
  | command (cmd : Command)
  | subscribe (id : String) (channel : ℕ)
  | unsubscribe (id : String)

/-- The action that makes a channel for a subscription. -/
def Action.opens (id : String) (channel : ℕ) : Action → Bool
  | .subscribe id' channel' => id' == id && channel' == channel
  | _ => false

theorem Action.opens_iff {id : String} {channel : ℕ} {a : Action} :
    a.opens id channel = true ↔ a = .subscribe id channel := by
  cases a <;> simp [Action.opens]

/-- What the outside decides while one item is handled: the ids and times drawn, the failures of
the encoders and of the worker task, and the error of the `n`-th write. -/
structure Env where
  sessionId : Uuid
  draws : Draws
  faults : HandlerFaults
  encodeAuthError : Option String
  encodeAuthOk : Option String
  encodeReady : Option String
  encodeSubscribed : Option String
  workerFails : Bool
  write : ℕ → Option ProtoError

/-- Nothing fails. -/
def Env.calm (n : ℕ) : Env :=
  ⟨Uuid.ofPair n 0, Draws.ofNat n, .none, none, none, none, none, false, fun _ => none⟩

/-- The frames are written one after the other, up to the first write error. -/
def sendAll (write : ℕ → Option ProtoError) : ℕ → List Frame → List Frame × Option ProtoError
  | _, [] => ([], none)
  | n, frame :: rest =>
    match write n with
    | some e => ([frame], some e)
    | none =>
      let (sent, error) := sendAll write (n + 1) rest
      (frame :: sent, error)

section Serve

variable (cfg : ServerConfig) (F : Formats) (env : Env)

/-- `send_fatal_error`. -/
def sendFatalError (message : String) : List Action :=
  [.send (makeErrorFrame F env.faults message true)]

/-- The startup handshake. -/
def serveStartup : Incoming → Phase × List Action
  | .eof => (.closed (.error .connectionClosed), [])
  | .failed e => (.closed (.error (.proto e)), [])
  | .frame frame =>
    if frame.tag ≠ .startup then
      (.closed (.error (.proto (.invalidFrameType frame.tag.toByte))),
        sendFatalError F env "expected Startup frame")
    else
      match decodeMessage F StartupMessage.read frame with
      | .error e => (.closed (.error (.proto (.deserializationError e.toText))), [])
      | .ok startup =>
        if startup.protocolVersion ≠ protocolVersion then
          (.closed (.error (.auth
              ("unsupported protocol version " ++ toString startup.protocolVersion))),
            sendFatalError F env ("protocol version mismatch: server=" ++ toString protocolVersion
              ++ " client=" ++ toString startup.protocolVersion))
        else (.auth startup.capabilities, [])

/-- The frame that refuses a token. -/
def authErrorFrame : Except ProtoError Frame :=
  encodeMessage F env.encodeAuthError .authError (ErrorMessage.toDoc ⟨"invalid token", true⟩)

/-- The frame that accepts a token. -/
def authOkFrame : Except ProtoError Frame :=
  encodeMessage F env.encodeAuthOk .authOk (ErrorMessage.toDoc ⟨"ok", false⟩)

def readyFrame : Except ProtoError Frame :=
  encodeMessage F env.encodeReady .ready
    (ReadyMessage.toDoc ⟨env.sessionId.text, serverVersion, protocolVersion,
      ["subscribe", "history", "define_machine"]⟩)

/-- `AuthOk` and `Ready`, and the session. -/
def greet (capabilities : List String) : Phase × List Action :=
  let session := { Session.new env.sessionId.text with authenticated := true, capabilities }
  match authOkFrame F env with
  | .error e => (.closed (.error (.proto e)), [])
  | .ok authOk =>
    match env.write 0 with
    | some e => (.closed (.error (.proto e)), [.send authOk])
    | none =>
      match readyFrame F env with
      | .error e => (.closed (.error (.proto e)), [.send authOk])
      | .ok ready =>
        match env.write 1 with
        | some e => (.closed (.error (.proto e)), [.send authOk, .send ready])
        | none => (.main session, [.send authOk, .send ready])

/-- The authentication. -/
def serveAuth (capabilities : List String) : Incoming → Phase × List Action
  | .eof => (.closed (.error .connectionClosed), [])
  | .failed e => (.closed (.error (.proto e)), [])
  | .frame frame =>
    if frame.tag ≠ .auth then
      (.closed (.error (.auth "expected Auth frame")),
        sendFatalError F env "expected Auth frame")
    else
      match decodeMessage F AuthMessage.read frame with
      | .error e => (.closed (.error (.proto e)), [])
      | .ok auth =>
        if tokenIsValid cfg.authTokens auth.token = false then
          match authErrorFrame F env with
          | .error e => (.closed (.error (.proto e)), [])
          | .ok frame => (.closed (.error (.auth "invalid auth token")), [.send frame])
        else greet F env capabilities

/-- The shared state and the connection after an item. -/
structure Turn where
  server : ServerState
  stream : Stream
  phase : Phase
  actions : List Action

/-- Write the replies; a write error ends the session at once. -/
def reply (session : Session) (frames : List Frame) : Phase × List Action :=
  match sendAll env.write 0 frames with
  | (sent, some e) => (.closed (.error (.proto e)), sent.map .send)
  | (sent, none) => (.main session, sent.map .send)

/-- `handle_subscribe`, with what the loop does with its outcome. -/
def handleSubscribe (server : ServerState) (stream : Stream) (session : Session) (frame : Frame) :
    Option Turn :=
  match decodeMessage F SubscribeMessage.read frame with
  | .error e =>
    some ⟨server, stream, .main session,
      [.send (makeErrorFrame F env.faults (WireError.proto e).toText false)]⟩
  | .ok msg => do
    let stream' ← stream.step server.store
      (.subscribe msg.subscriptionId msg.machineFilter msg.afterSequence)
    let session :=
      { session with subscriptions := session.subscriptions.erase msg.subscriptionId }
    let subscribed := Action.subscribe msg.subscriptionId stream.channels
    match encodeMessage F env.encodeSubscribed .result (ResultMessage.toDoc ⟨msg.requestId,
      .ofMembers [("subscription_id", .string msg.subscriptionId), ("ok", .bool true)]⟩) with
    | .error e =>
      return ⟨server, stream', .main session,
        [subscribed, .send (makeErrorFrame F env.faults (WireError.proto e).toText false)]⟩
    | .ok frame =>
      let (phase, sends) := reply env session [frame]
      return ⟨server, stream', phase, subscribed :: sends⟩

/-- The `Unsubscribe` branch of the loop. -/
def handleUnsubscribe (server : ServerState) (stream : Stream) (session : Session)
    (frame : Frame) : Option Turn :=
  match decodeMessage F UnsubscribeMessage.read frame with
  | .error e =>
    some ⟨server, stream, .main session, [.send (makeErrorFrame F env.faults e.toText false)]⟩
  | .ok msg => do
    let stream' ← stream.step server.store (.unsubscribe msg.subscriptionId)
    let session :=
      { session with subscriptions := session.subscriptions.erase msg.subscriptionId }
    return ⟨server, stream', .main session, [.unsubscribe msg.subscriptionId]⟩

/-- The command of a frame, if `handle_frame` makes a call of the engine for it. -/
def Command.ofFrame (frame : Frame) : Option Command :=
  match frame.tag with
  | .defineMachine =>
    (decodeMessage F (DefineMachineMessage.read F) frame).toOption.map .defineMachine
  | .transition => (decodeMessage F TransitionMessage.read frame).toOption.map .transition
  | .current => (decodeMessage F CurrentMessage.read frame).toOption.map .current
  | .history => (decodeMessage F HistoryMessage.read frame).toOption.map .history
  | _ => none

/-- The frames that go to `handle_frame` on a worker; one that fails answers with an error and is
taken to have done nothing. -/
def handleOther (server : ServerState) (stream : Stream) (session : Session) (frame : Frame) :
    Turn :=
  if env.workerFails then
    let (phase, sends) :=
      reply env session [makeErrorFrame F env.faults "internal server error" false]
    ⟨server, stream, phase, sends⟩
  else
    let (frames, server') := handleFrame F server env.draws env.faults frame
    let (phase, sends) := reply env session frames
    ⟨server', stream, phase, ((Command.ofFrame F frame).map .command).toList ++ sends⟩

/-- The end of the loop: the subscriptions the session knows of are taken out of the list. -/
def cleanUp (server : ServerState) (stream : Stream) (session : Session) : Option Turn := do
  let ids := session.subscriptions.keys
  let stream' ← ids.foldlM (fun st id => st.step server.store (.unsubscribe id)) stream
  return ⟨server, stream', .closed (.ok ()), ids.map .unsubscribe⟩

/-- The main loop, for one item. -/
def serveMain (server : ServerState) (stream : Stream) (session : Session) :
    Incoming → Option Turn
  | .eof => cleanUp server stream session
  | .failed _ => cleanUp server stream session
  | .frame frame =>
    match frame.tag with
    | .terminate => cleanUp server stream session
    | .subscribe => handleSubscribe F env server stream session frame
    | .unsubscribe => handleUnsubscribe F env server stream session frame
    | _ => some (handleOther F env server stream session frame)

/-- What `serve_framed` does with one item, from where it is. -/
def serve (server : ServerState) (stream : Stream) (input : Incoming) : Phase → Option Turn
  | .startup =>
    let (phase, actions) := serveStartup F env input
    some ⟨server, stream, phase, actions⟩
  | .auth capabilities =>
    let (phase, actions) := serveAuth cfg F env capabilities input
    some ⟨server, stream, phase, actions⟩
  | .main session => serveMain F env server stream session input
  | .closed _ => none

end Serve

/-! ### The host -/

/-- A connection, with what it did so far. -/
structure Conn where
  phase : Phase
  trace : List Action

structure Host where
  server : ServerState
  stream : Stream
  conns : ℕ → Conn

/-- No client has sent anything yet. -/
def Host.initial (server : ServerState) : Host := ⟨server, Stream.initial, fun _ => ⟨.startup, []⟩⟩

inductive HostLabel where
  /-- Connection `i` reads an item and handles it. -/
  | receive (i : ℕ) (input : Incoming) (env : Env)
  /-- A forwarding task of connection `i` writes a record; which one is left open. -/
  | forward (i : ℕ) (id : String) (channel : ℕ) (record : ChangeRecord) (fault : Option String)
  /-- A forwarding task ends at a write error, and drops its receiver. -/
  | forwarderExits (channel : ℕ)
  /-- One step of `dispatch_pass`. -/
  | pass (fault : Option Fault)

/-- The connection handled an item. -/
def Host.after (h : Host) (i : ℕ) (turn : Turn) : Host where
  server := turn.server
  stream := turn.stream
  conns := Function.update h.conns i ⟨turn.phase, (h.conns i).trace ++ turn.actions⟩

namespace Host

def setConn (h : Host) (i : ℕ) (conn : Conn) : Host :=
  { h with conns := Function.update h.conns i conn }

@[simp] theorem setConn_conns_self (h : Host) (i : ℕ) (conn : Conn) :
    (h.setConn i conn).conns i = conn :=
  Function.update_self ..

theorem setConn_conns_of_ne (h : Host) {i j : ℕ} (conn : Conn) (hj : j ≠ i) :
    (h.setConn i conn).conns j = h.conns j :=
  Function.update_of_ne hj ..

/-- `forward_subscription`, for one record: an encoding that fails skips the record. -/
def forward (F : Formats) (h : Host) (i : ℕ) (id : String) (record : ChangeRecord)
    (fault : Option String) : Host :=
  match encodeMessage F fault .changeRecord (ChangeRecordMessage.toDoc F ⟨id, record⟩) with
  | .ok frame => h.setConn i { h.conns i with trace := (h.conns i).trace ++ [.send frame] }
  | .error _ => h

def step (cfg : ServerConfig) (F : Formats) (h : Host) : HostLabel → Option Host
  | .receive i input env => do
    let turn ← serve cfg F env h.server h.stream input (h.conns i).phase
    return h.after i turn
  | .forward i id channel record fault =>
    if (h.conns i).trace.any (Action.opens id channel) then some (h.forward F i id record fault)
    else none
  | .forwarderExits channel => do
    let stream ← h.stream.step h.server.store (.dropReceiver channel)
    return { h with stream }
  | .pass fault => do
    let stream ← h.stream.step h.server.store (.pass fault)
    return { h with stream }

end Host

/-- The server as a system. -/
def host (cfg : ServerConfig) (F : Formats) : System Host HostLabel where
  step := Host.step cfg F

/-! ### What a step can do -/

theorem decoded_of_toOption_eq_none {α : Type} {F : Formats} {read : Reader α} {frame : Frame}
    {f : α → Command} (h : (decodeMessage F read frame).toOption.map f = none) (s : ServerState)
    (faults : HandlerFaults) (handle : α → List Frame × ServerState) :
    (decoded F s faults read frame handle).2 = s := by
  unfold decoded
  cases hdec : decodeMessage F read frame with
  | error e => rfl
  | ok msg =>
    rw [hdec] at h
    exact nomatch h

/-- A frame that is no command of the engine leaves it alone. -/
theorem handleFrame_of_ofFrame_eq_none {F : Formats} {frame : Frame}
    (h : Command.ofFrame F frame = none) (s : ServerState) (draws : Draws)
    (faults : HandlerFaults) : (handleFrame F s draws faults frame).2 = s := by
  unfold Command.ofFrame at h
  unfold handleFrame
  split at h
  · rename_i htag
    rw [htag]
    exact decoded_of_toOption_eq_none h ..
  · rename_i htag
    rw [htag]
    exact decoded_of_toOption_eq_none h ..
  · rename_i htag
    rw [htag]
    exact decoded_of_toOption_eq_none h ..
  · rename_i htag
    rw [htag]
    exact decoded_of_toOption_eq_none h ..
  · -- of the other tags only `Ack` has a body that is read
    split
    · rfl
    · contradiction
    · contradiction
    · contradiction
    · contradiction
    · unfold decoded
      split <;> rfl
    · rfl

/-- The session without a subscription. -/
def Session.forget (session : Session) (id : String) : Session :=
  { session with subscriptions := session.subscriptions.erase id }

/-- The session goes on, or a write error ended it. -/
def Phase.Follows (session : Session) (phase : Phase) : Prop :=
  phase = .main session ∨ ∃ e, phase = .closed (.error e)

theorem reply_cases (env : Env) (session : Session) (frames : List Frame) :
    ∃ (phase : Phase) (sends : List Frame), reply env session frames = (phase, sends.map .send) ∧
      phase.Follows session := by
  unfold reply
  match sendAll env.write 0 frames with
  | (sent, some e) => exact ⟨_, sent, rfl, Or.inr ⟨_, rfl⟩⟩
  | (sent, none) => exact ⟨_, sent, rfl, Or.inl rfl⟩

/-- Everything the main loop can do with an item. -/
inductive MainStep (F : Formats) (server : ServerState) (stream : Stream) (session : Session) :
    Incoming → Turn → Prop where
  /-- Replies, to at most one command of the engine. -/
  | replies (frame : Frame) (server' : ServerState) (phase : Phase) (calls : List Command)
      (sends : List Frame) (hphase : phase.Follows session) (hcalls : calls = [] → server' = server) :
      MainStep F server stream session (.frame frame)
        ⟨server', stream, phase, calls.map .command ++ sends.map .send⟩
  | subscribe (frame : Frame) (msg : SubscribeMessage) (stream' : Stream) (phase : Phase)
      (sends : List Frame) (htag : frame.tag = .subscribe)
      (hmsg : decodeMessage F SubscribeMessage.read frame = .ok msg)
      (hstep : stream.step server.store
        (.subscribe msg.subscriptionId msg.machineFilter msg.afterSequence) = some stream')
      (hphase : phase.Follows (session.forget msg.subscriptionId)) :
      MainStep F server stream session (.frame frame)
        ⟨server, stream', phase, .subscribe msg.subscriptionId stream.channels :: sends.map .send⟩
  | unsubscribe (frame : Frame) (msg : UnsubscribeMessage) (stream' : Stream)
      (htag : frame.tag = .unsubscribe)
      (hmsg : decodeMessage F UnsubscribeMessage.read frame = .ok msg)
      (hstep : stream.step server.store (.unsubscribe msg.subscriptionId) = some stream') :
      MainStep F server stream session (.frame frame)
        ⟨server, stream', .main (session.forget msg.subscriptionId),
          [.unsubscribe msg.subscriptionId]⟩
  | cleanUp (input : Incoming) (stream' : Stream)
      (hinput : ∀ frame, input = .frame frame → frame.tag = .terminate)
      (hstep : session.subscriptions.keys.foldlM
        (fun st id => st.step server.store (.unsubscribe id)) stream = some stream') :
      MainStep F server stream session input
        ⟨server, stream', .closed (.ok ()), session.subscriptions.keys.map .unsubscribe⟩

section MainStep

variable {F : Formats} {env : Env} {server : ServerState} {stream : Stream} {session : Session}
  {turn : Turn}

theorem cleanUp_sound {input : Incoming}
    (hinput : ∀ frame, input = .frame frame → frame.tag = .terminate)
    (h : cleanUp server stream session = some turn) :
    MainStep F server stream session input turn := by
  unfold cleanUp at h
  obtain ⟨stream', hstep, hret⟩ := Option.bind_eq_some_iff.mp h
  obtain rfl := Option.some.inj hret
  exact .cleanUp input stream' hinput hstep

theorem handleSubscribe_sound {frame : Frame} (htag : frame.tag = .subscribe)
    (h : handleSubscribe F env server stream session frame = some turn) :
    MainStep F server stream session (.frame frame) turn := by
  unfold handleSubscribe at h
  cases hmsg : decodeMessage F SubscribeMessage.read frame with
  | error e =>
    -- the error frame is written without a look at the outcome
    rw [hmsg] at h
    obtain rfl := Option.some.inj h
    exact .replies frame server _ [] [_] (Or.inl rfl) fun _ => rfl
  | ok msg =>
    rw [hmsg] at h
    obtain ⟨stream', hstep, hret⟩ := Option.bind_eq_some_iff.mp h
    -- the subscriber is in the list whether or not the answer can be encoded and written
    dsimp only at hret
    split at hret
    · obtain rfl := Option.some.inj hret
      exact .subscribe frame msg stream' _ [_] htag hmsg hstep (Or.inl rfl)
    · rename_i answer _
      obtain ⟨phase, sends, hreply, hphase⟩ :=
        reply_cases env (session.forget msg.subscriptionId) [answer]
      change (let (phase, sends) := reply env (session.forget msg.subscriptionId) [answer]
        some (Turn.mk server stream' phase
          (.subscribe msg.subscriptionId stream.channels :: sends))) = some turn at hret
      rw [hreply] at hret
      obtain rfl := Option.some.inj hret
      exact .subscribe frame msg stream' phase sends htag hmsg hstep hphase

theorem handleUnsubscribe_sound {frame : Frame} (htag : frame.tag = .unsubscribe)
    (h : handleUnsubscribe F env server stream session frame = some turn) :
    MainStep F server stream session (.frame frame) turn := by
  unfold handleUnsubscribe at h
  cases hmsg : decodeMessage F UnsubscribeMessage.read frame with
  | error e =>
    rw [hmsg] at h
    obtain rfl := Option.some.inj h
    exact .replies frame server _ [] [_] (Or.inl rfl) fun _ => rfl
  | ok msg =>
    rw [hmsg] at h
    obtain ⟨stream', hstep, hret⟩ := Option.bind_eq_some_iff.mp h
    obtain rfl := Option.some.inj hret
    exact .unsubscribe frame msg stream' htag hmsg hstep

theorem handleOther_sound (frame : Frame) :
    MainStep F server stream session (.frame frame)
      (handleOther F env server stream session frame) := by
  unfold handleOther
  by_cases hfails : env.workerFails = true
  · -- the worker did not come back: an error frame, and the engine as it was
    obtain ⟨phase, sends, hreply, hphase⟩ :=
      reply_cases env session [makeErrorFrame F env.faults "internal server error" false]
    rw [if_pos hfails, hreply]
    exact .replies frame server phase [] sends hphase fun _ => rfl
  · obtain ⟨phase, sends, hreply, hphase⟩ :=
      reply_cases env session (handleFrame F server env.draws env.faults frame).1
    rw [if_neg hfails]
    dsimp only
    rw [hreply, Option.toList_map]
    refine .replies frame _ phase _ sends hphase fun hnil => ?_
    exact handleFrame_of_ofFrame_eq_none (Option.toList_eq_nil_iff.mp hnil) ..

theorem mainStep_sound {input : Incoming}
    (h : serveMain F env server stream session input = some turn) :
    MainStep F server stream session input turn := by
  cases input with
  | eof => exact cleanUp_sound (fun _ h => nomatch h) h
  | failed e => exact cleanUp_sound (fun _ h => nomatch h) h
  | frame frame =>
    rw [serveMain] at h
    split at h
    · rename_i htag
      exact cleanUp_sound (fun _ h => Incoming.frame.inj h ▸ htag) h
    · rename_i htag
      exact handleSubscribe_sound htag h
    · rename_i htag
      exact handleUnsubscribe_sound htag h
    · obtain rfl := Option.some.inj h
      exact handleOther_sound frame

/-- The loop goes on or it ended. -/
theorem MainStep.phase_cases {input : Incoming} (h : MainStep F server stream session input turn) :
    (∃ session', turn.phase = .main session') ∨ ∃ result, turn.phase = .closed result := by
  cases h with
  | replies frame server' phase calls sends hphase _ =>
    exact hphase.imp (fun h => ⟨_, h⟩) fun ⟨e, h⟩ => ⟨_, h⟩
  | subscribe frame msg stream' phase sends _ _ _ hphase =>
    exact hphase.imp (fun h => ⟨_, h⟩) fun ⟨e, h⟩ => ⟨_, h⟩
  | unsubscribe => exact Or.inl ⟨_, rfl⟩
  | cleanUp => exact Or.inr ⟨_, rfl⟩

end MainStep

/-- Everything a step of the host can do. -/
inductive HostStep (cfg : ServerConfig) (F : Formats) (h : Host) : HostLabel → Host → Prop where
  | receive (i : ℕ) (input : Incoming) (env : Env) (turn : Turn)
      (hserve : serve cfg F env h.server h.stream input (h.conns i).phase = some turn) :
      HostStep cfg F h (.receive i input env) (h.after i turn)
  | forward (i : ℕ) (id : String) (channel : ℕ) (record : ChangeRecord) (frame : Frame)
      (hopened : Action.subscribe id channel ∈ (h.conns i).trace)
      (htag : frame.tag = .changeRecord) :
      HostStep cfg F h (.forward i id channel record none)
        (h.setConn i { h.conns i with trace := (h.conns i).trace ++ [.send frame] })
  | skip (i : ℕ) (id : String) (channel : ℕ) (record : ChangeRecord) (fault : Option String) :
      HostStep cfg F h (.forward i id channel record fault) h
  | stream (l : HostLabel) (sl : StreamLabel) (stream : Stream)
      (hl : (∃ channel, l = .forwarderExits channel ∧ sl = .dropReceiver channel) ∨
        ∃ fault, l = .pass fault ∧ sl = .pass fault)
      (hstep : h.stream.step h.server.store sl = some stream) :
      HostStep cfg F h l { h with stream }

theorem hostStep_sound {cfg : ServerConfig} {F : Formats} {h h' : Host} {l : HostLabel}
    (hstep : (host cfg F).step h l = some h') : HostStep cfg F h l h' := by
  change Host.step cfg F h l = some h' at hstep
  cases l with
  | receive i input env =>
    obtain ⟨turn, hserve, hret⟩ := Option.bind_eq_some_iff.mp hstep
    obtain rfl := Option.some.inj hret
    exact .receive i input env turn hserve
  | forward i id channel record fault =>
    simp only [Host.step, Option.ite_none_right_eq_some] at hstep
    obtain ⟨hany, hret⟩ := hstep
    obtain rfl := Option.some.inj hret
    obtain ⟨a, ha, hopens⟩ := List.any_eq_true.mp hany
    rw [Action.opens_iff] at hopens
    subst hopens
    cases fault with
    | some e =>
      -- a record that cannot be encoded is left out
      exact .skip i id channel record (some e)
    | none => exact .forward i id channel record _ ha rfl
  | forwarderExits channel =>
    rw [Host.step] at hstep
    obtain ⟨stream, hst, hret⟩ := Option.bind_eq_some_iff.mp hstep
    obtain rfl := Option.some.inj hret
    exact .stream _ _ stream (Or.inl ⟨channel, rfl, rfl⟩) hst
  | pass fault =>
    obtain ⟨stream, hst, hret⟩ := Option.bind_eq_some_iff.mp hstep
    obtain rfl := Option.some.inj hret
    exact .stream _ _ stream (Or.inr ⟨fault, rfl, rfl⟩) hst

namespace Host

variable (h : Host) (i : ℕ) (turn : Turn)

theorem after_conns_self :
    (h.after i turn).conns i = ⟨turn.phase, (h.conns i).trace ++ turn.actions⟩ :=
  Function.update_self ..

theorem after_conns_of_ne {j : ℕ} (hj : j ≠ i) : (h.after i turn).conns j = h.conns j :=
  Function.update_of_ne hj ..

end Host

/-- What a step does to one connection: an item it reads, or a record forwarded to it. -/
theorem HostStep.conn_cases {cfg : ServerConfig} {F : Formats} {h h' : Host} {l : HostLabel}
    (hstep : HostStep cfg F h l h') (i : ℕ) :
    (∃ input env turn, l = .receive i input env ∧ h' = h.after i turn ∧
      serve cfg F env h.server h.stream input (h.conns i).phase = some turn) ∨
    ((∀ input env, l ≠ .receive i input env) ∧ (h'.conns i).phase = (h.conns i).phase ∧
      ((h'.conns i).trace = (h.conns i).trace ∨ ∃ id channel frame,
        Action.subscribe id channel ∈ (h.conns i).trace ∧ frame.tag = .changeRecord ∧
        (h'.conns i).trace = (h.conns i).trace ++ [.send frame])) := by
  cases hstep with
  | receive j input env turn hserve =>
    by_cases hj : i = j
    · subst hj
      exact Or.inl ⟨input, env, turn, rfl, rfl, hserve⟩
    · -- another connection reads
      refine Or.inr ⟨fun _ _ heq => hj (HostLabel.receive.inj heq).1.symm, ?_⟩
      rw [Host.after_conns_of_ne h j turn hj]
      exact ⟨rfl, Or.inl rfl⟩
  | forward j id channel record frame hopened htag =>
    refine Or.inr ⟨fun _ _ heq => (nomatch heq), ?_⟩
    by_cases hj : i = j
    · subst hj
      rw [Host.setConn_conns_self]
      exact ⟨rfl, Or.inr ⟨id, channel, frame, hopened, htag, rfl⟩⟩
    · rw [Host.setConn_conns_of_ne h _ hj]
      exact ⟨rfl, Or.inl rfl⟩
  | skip j id channel record fault => exact Or.inr ⟨fun _ _ heq => (nomatch heq), rfl, Or.inl rfl⟩
  | stream l sl stream hl _ =>
    refine Or.inr ⟨?_, rfl, Or.inl rfl⟩
    rintro input env rfl
    obtain ⟨_, heq, -⟩ | ⟨_, heq, -⟩ := hl <;> exact nomatch heq

end Wire

end StateMaster
