import StateMaster.Proto.RoundTrip
import StateMaster.Wire.Handshake
import StateMaster.Wire.Replies

/-!
# The handshake, from both ends

`Connection::connect` writes a `Startup` and an `Auth` frame without waiting in between, and then reads
until it has seen both `AuthOk` and `Ready`. `serve_framed` reads the two frames one after the other and
answers the second. `meeting` runs the two against each other over a connection that keeps the order of
what is written: either end may be slow, the connection may break at any moment for either of them, and
the timer of the client may fire at any moment.

* `MeetingInvariant` — how far the ends can be apart: what the server has said determines what the
  client may believe;
* `handshake_agreement` — the client and the server agree, whatever happens in between;
* `handshake_decides` — if nothing fails, the handshake comes to its end in at most seven steps, and the
  token alone decides how.
-/

open Framework

namespace StateMaster

namespace Sdk

open Wire (Phase Incoming Action Env ServerConfig ServerState)

/-! ### The client -/

/-- The errors of `Connection::connect`. -/
inductive ConnectError where
  | connectionFailed (reason : String)
  | authFailed (reason : String)
  | proto (e : ProtoError)
  | internal (reason : String)
deriving DecidableEq, Repr

/-- What `connect` reads of the configuration of a client. -/
structure ClientConfig where
  token : String
  tls : Bool

/-- Where a call of `connect` is. -/
inductive Connecting where
  | dialing
  | writingStartup
  | writingAuth
  | awaiting (gotAuthOk gotReady : Bool)
  | returned (result : Except ConnectError Unit)
deriving DecidableEq

/-- The capabilities a client announces. -/
def clientCapabilities : List String := ["subscribe", "history"]

/-- What `connect` writes first. -/
def startup : StartupMessage := ⟨protocolVersion, clientCapabilities⟩

/-- The message of an error frame, or what stands in for it. -/
def errorText (F : Formats) (frame : Frame) (otherwise : String) : String :=
  match decodeMessage F ErrorMessage.read frame with
  | .ok msg => msg.message
  | .error _ => otherwise

/-- What can go wrong with a frame: the encoder fails, or the write does, and the bytes may be out even
so. -/
structure WriteFault where
  encode : Option String
  write : Option (String × Bool)

def WriteFault.none : WriteFault := ⟨.none, .none⟩

namespace Connecting

/-- The condition of the loop. -/
def next (gotAuthOk gotReady : Bool) : Connecting :=
  if gotAuthOk && gotReady then returned (.ok ()) else awaiting gotAuthOk gotReady

/-- The `match frame.tag` of the loop. -/
def hear (F : Formats) (gotAuthOk gotReady : Bool) (frame : Frame) : Connecting :=
  match frame.tag with
  | .authOk => next true gotReady
  | .authError => returned (.error (.authFailed (errorText F frame "auth error")))
  | .ready => next gotAuthOk true
  | .error => returned (.error (.connectionFailed (errorText F frame "server error")))
  -- anything else is logged
  | _ => next gotAuthOk gotReady

/-- The call writes a frame and goes on. -/
def write (after : Connecting) (fault : WriteFault) (frame : Except ProtoError Frame) :
    Connecting × List Frame :=
  match frame, fault.write with
  | .error e, _ => (returned (.error (.proto e)), [])
  | .ok frame, some (e, out) =>
    (returned (.error (.connectionFailed e)), if out then [frame] else [])
  | .ok frame, none => (after, [frame])

end Connecting

/-! ### The two ends -/

/-- A client and its connection to a server. What one end has written, the other has read up to some
point. -/
structure Meeting where
  client : Connecting
  told : List Frame
  taken : ℕ
  state : ServerState
  stream : Stream
  server : Phase
  said : List Frame
  heard : ℕ

def Meeting.initial (state : ServerState) (stream : Stream) : Meeting where
  client := .dialing
  told := []
  taken := 0
  state := state
  stream := stream
  server := .startup
  said := []
  heard := 0

inductive MeetingLabel where
  /-- `TcpStream::connect` returns. -/
  | dial (error : Option String)
  | writeStartup (fault : WriteFault)
  | writeAuth (fault : WriteFault)
  /-- The server reads a frame and acts on it. -/
  | serve (env : Env)
  /-- The server finds the connection closed, or broken. -/
  | serverLoses (error : Option ProtoError) (env : Env)
  /-- The client reads a frame. -/
  | hear
  /-- The client finds the connection closed, or broken. -/
  | clientLoses (error : Option ProtoError)
  | timeout

/-- The frame to be read next. One beyond the limit is never read: there the connection breaks. -/
def nextFrame (frames : List Frame) (n : ℕ) : Option Frame := do
  let frame ← frames[n]?
  guard frame.Fits
  return frame

/-- The frames among the actions of a connection. -/
def sends (actions : List Action) : List Frame :=
  actions.filterMap fun
    | .send frame => some frame
    | _ => none

namespace Meeting

/-- The server handles an item. -/
def serveItem (cfg : ServerConfig) (F : Formats) (env : Env) (s : Meeting) (input : Incoming) :
    Option Meeting := do
  let turn ← Wire.serve cfg F env s.state s.stream input s.server
  return { s with
    state := turn.server
    stream := turn.stream
    server := turn.phase
    said := s.said ++ sends turn.actions }

/-- The client writes. -/
def write (s : Meeting) (outcome : Connecting × List Frame) : Meeting :=
  { s with client := outcome.1, told := s.told ++ outcome.2 }

def step (cfg : ServerConfig) (client : ClientConfig) (F : Formats) (s : Meeting) :
    MeetingLabel → Option Meeting
  | .dial error =>
    match s.client, error with
    | .dialing, some e => some { s with client := .returned (.error (.connectionFailed e)) }
    | .dialing, none =>
      if client.tls then
        some { s with client := .returned (.error
          (.internal "TLS support requires tokio-rustls integration (not yet wired)")) }
      else some { s with client := .writingStartup }
    | _, _ => none
  | .writeStartup fault =>
    match s.client with
    | .writingStartup =>
      some (s.write (Connecting.writingAuth.write fault
        (encodeMessage F fault.encode .startup startup.toDoc)))
    | _ => none
  | .writeAuth fault =>
    match s.client with
    | .writingAuth =>
      some (s.write ((Connecting.awaiting false false).write fault
        (encodeMessage F fault.encode .auth (AuthMessage.toDoc ⟨client.token⟩))))
    | _ => none
  | .serve env =>
    match nextFrame s.told s.taken with
    | some frame => ({ s with taken := s.taken + 1 } : Meeting).serveItem cfg F env (.frame frame)
    | none => none
  | .serverLoses error env => s.serveItem cfg F env (error.elim .eof .failed)
  | .hear =>
    match s.client, nextFrame s.said s.heard with
    | .awaiting gotAuthOk gotReady, some frame =>
      some { s with client := .hear F gotAuthOk gotReady frame, heard := s.heard + 1 }
    | _, _ => none
  | .clientLoses error =>
    match s.client with
    | .awaiting _ _ =>
      some { s with client := .returned (.error (.connectionFailed
        (error.elim "server closed connection during handshake" ProtoError.toText))) }
    | _ => none
  | .timeout =>
    match s.client with
    | .awaiting _ _ =>
      some { s with client := .returned (.error (.connectionFailed "handshake timeout")) }
    | _ => none

end Meeting

/-- The two ends as a system. -/
def meeting (cfg : ServerConfig) (client : ClientConfig) (F : Formats) :
    System Meeting MeetingLabel where
  step := Meeting.step cfg client F

/-- Everything that can happen. -/
inductive MeetingStep (cfg : ServerConfig) (client : ClientConfig) (F : Formats) (s : Meeting) :
    MeetingLabel → Meeting → Prop where
  | dialFails (e : String) (hc : s.client = .dialing) :
      MeetingStep cfg client F s (.dial (some e))
        { s with client := .returned (.error (.connectionFailed e)) }
  | refusesTls (hc : s.client = .dialing) (htls : client.tls = true) :
      MeetingStep cfg client F s (.dial none)
        { s with client := .returned (.error
          (.internal "TLS support requires tokio-rustls integration (not yet wired)")) }
  | dials (hc : s.client = .dialing) (htls : client.tls = false) :
      MeetingStep cfg client F s (.dial none) { s with client := .writingStartup }
  | writesStartup (fault : WriteFault) (hc : s.client = .writingStartup) :
      MeetingStep cfg client F s (.writeStartup fault)
        (s.write (Connecting.writingAuth.write fault
          (encodeMessage F fault.encode .startup startup.toDoc)))
  | writesAuth (fault : WriteFault) (hc : s.client = .writingAuth) :
      MeetingStep cfg client F s (.writeAuth fault)
        (s.write ((Connecting.awaiting false false).write fault
          (encodeMessage F fault.encode .auth (AuthMessage.toDoc ⟨client.token⟩))))
  | serves (env : Env) (frame : Frame) (turn : Wire.Turn)
      (hnext : nextFrame s.told s.taken = some frame)
      (hserve : Wire.serve cfg F env s.state s.stream (.frame frame) s.server = some turn) :
      MeetingStep cfg client F s (.serve env)
        { s with
          taken := s.taken + 1
          state := turn.server
          stream := turn.stream
          server := turn.phase
          said := s.said ++ sends turn.actions }
  | serverLoses (error : Option ProtoError) (env : Env) (turn : Wire.Turn)
      (hserve : Wire.serve cfg F env s.state s.stream (error.elim .eof .failed) s.server = some turn) :
      MeetingStep cfg client F s (.serverLoses error env)
        { s with
          state := turn.server
          stream := turn.stream
          server := turn.phase
          said := s.said ++ sends turn.actions }
  | hears (gotAuthOk gotReady : Bool) (frame : Frame) (hc : s.client = .awaiting gotAuthOk gotReady)
      (hnext : nextFrame s.said s.heard = some frame) :
      MeetingStep cfg client F s .hear
        { s with client := .hear F gotAuthOk gotReady frame, heard := s.heard + 1 }
  | clientLoses (gotAuthOk gotReady : Bool) (error : Option ProtoError)
      (hc : s.client = .awaiting gotAuthOk gotReady) :
      MeetingStep cfg client F s (.clientLoses error)
        { s with client := .returned (.error (.connectionFailed
          (error.elim "server closed connection during handshake" ProtoError.toText))) }
  | timesOut (gotAuthOk gotReady : Bool) (hc : s.client = .awaiting gotAuthOk gotReady) :
      MeetingStep cfg client F s .timeout
        { s with client := .returned (.error (.connectionFailed "handshake timeout")) }

theorem meetingStep_sound {cfg : ServerConfig} {client : ClientConfig} {F : Formats}
    {s s' : Meeting} {l : MeetingLabel} (h : (meeting cfg client F).step s l = some s') :
    MeetingStep cfg client F s l s' := by
  cases l with
  | dial error =>
    dsimp only [meeting, Meeting.step] at h
    split at h
    case h_1 e hc =>
      obtain rfl := Option.some.inj h
      exact .dialFails e hc
    case h_2 hc =>
      split at h
      case isTrue htls =>
        obtain rfl := Option.some.inj h
        exact .refusesTls hc htls
      case isFalse htls =>
        obtain rfl := Option.some.inj h
        exact .dials hc (Bool.eq_false_iff.mpr htls)
    case h_3 => exact absurd h (by simp)
  | writeStartup fault =>
    dsimp only [meeting, Meeting.step] at h
    split at h
    case h_1 hc =>
      obtain rfl := Option.some.inj h
      exact .writesStartup fault hc
    case h_2 => exact absurd h (by simp)
  | writeAuth fault =>
    dsimp only [meeting, Meeting.step] at h
    split at h
    case h_1 hc =>
      obtain rfl := Option.some.inj h
      exact .writesAuth fault hc
    case h_2 => exact absurd h (by simp)
  | serve env =>
    dsimp only [meeting, Meeting.step] at h
    split at h
    case h_1 frame hnext =>
      obtain ⟨turn, hserve, hturn⟩ := Option.bind_eq_some_iff.mp h
      obtain rfl := Option.some.inj hturn
      exact .serves env frame turn hnext hserve
    case h_2 => exact absurd h (by simp)
  | serverLoses error env =>
    obtain ⟨turn, hserve, hturn⟩ := Option.bind_eq_some_iff.mp h
    obtain rfl := Option.some.inj hturn
    exact .serverLoses error env turn hserve
  | hear =>
    dsimp only [meeting, Meeting.step] at h
    split at h
    case h_1 gotAuthOk gotReady frame hc hnext =>
      obtain rfl := Option.some.inj h
      exact .hears gotAuthOk gotReady frame hc hnext
    case h_2 => exact absurd h (by simp)
  | clientLoses error =>
    dsimp only [meeting, Meeting.step] at h
    split at h
    case h_1 gotAuthOk gotReady hc =>
      obtain rfl := Option.some.inj h
      exact .clientLoses gotAuthOk gotReady error hc
    case h_2 => exact absurd h (by simp)
  | timeout =>
    dsimp only [meeting, Meeting.step] at h
    split at h
    case h_1 gotAuthOk gotReady hc =>
      obtain rfl := Option.some.inj h
      exact .timesOut gotAuthOk gotReady hc
    case h_2 => exact absurd h (by simp)

/-! ### The frames of a handshake -/

section Frames

variable (F : Formats)

def startupFrame : Frame := ⟨.startup, F.codec.toVecNamed startup.toDoc⟩

def authFrame (token : String) : Frame := ⟨.auth, F.codec.toVecNamed (AuthMessage.toDoc ⟨token⟩)⟩

/-- The refusal of a token. -/
def authErrorFrame : Frame :=
  ⟨.authError, F.codec.toVecNamed (ErrorMessage.toDoc ⟨"invalid token", true⟩)⟩

def authOkFrame : Frame := ⟨.authOk, F.codec.toVecNamed (ErrorMessage.toDoc ⟨"ok", false⟩)⟩

@[simp] theorem tag_authErrorFrame : (authErrorFrame F).tag = .authError := rfl

@[simp] theorem tag_authOkFrame : (authOkFrame F).tag = .authOk := rfl

variable {F}

theorem nextFrame_eq_some {frames : List Frame} {n : ℕ} {frame : Frame} :
    nextFrame frames n = some frame ↔ frames[n]? = some frame ∧ frame.Fits := by
  unfold nextFrame
  cases frames[n]? with
  | none => simp
  | some f =>
    by_cases h : f.Fits
    · simp only [Option.bind_eq_bind, Option.bind_some, guard, h, if_true, Option.pure_def,
        Option.some.injEq]
      exact ⟨fun heq => ⟨heq, heq ▸ h⟩, And.left⟩
    · simp only [Option.bind_eq_bind, Option.bind_some, guard, h, if_false, Option.some.injEq]
      exact ⟨fun heq => absurd heq (by simp), fun ⟨heq, hfits⟩ => absurd (heq ▸ hfits) h⟩

/-- The server reads the first frame for what it is. -/
theorem serveStartup_startupFrame (hF : F.codec.Lawful) (env : Env) :
    Wire.serveStartup F env (.frame (startupFrame F)) = (.auth clientCapabilities, []) := by
  have hdec : decodeMessage F StartupMessage.read (startupFrame F) = .ok startup :=
    decodeMessage_toVecNamed hF _ (by decide) (StartupMessage.read_extends (by decide) (.refl _))
  rw [Wire.serveStartup, if_neg (by simp [startupFrame]), hdec]
  exact if_neg (by simp [startup])

/-- The token alone decides what the second frame leads to. -/
theorem serveAuth_authFrame (hF : F.codec.Lawful) (cfg : ServerConfig) (env : Env)
    (capabilities : List String) (token : String) :
    Wire.serveAuth cfg F env capabilities (.frame (authFrame F token)) =
      if token ∈ cfg.authTokens then Wire.greet F env capabilities
      else match env.encodeAuthError with
        | some e => (.closed (.error (.proto (.serializationError e))), [])
        | none => (.closed (.error (.auth "invalid auth token")), [.send (authErrorFrame F)]) := by
  have hdec : decodeMessage F AuthMessage.read (authFrame F token) = .ok ⟨token⟩ :=
    decodeMessage_toVecNamed hF _ (by simp [AuthMessage.toDoc, nestingLimit])
      (AuthMessage.read_extends (.refl _))
  rw [Wire.serveAuth, if_neg (by simp [authFrame]), hdec]
  dsimp only
  by_cases hvalid : token ∈ cfg.authTokens
  · rw [if_pos hvalid, if_neg (by rw [Wire.tokenIsValid_iff.mpr hvalid]; decide)]
  · have hfalse : Wire.tokenIsValid cfg.authTokens token = false :=
      Bool.eq_false_iff.mpr fun h => hvalid (Wire.tokenIsValid_iff.mp h)
    rw [if_neg hvalid, if_pos hfalse]
    unfold Wire.authErrorFrame encodeMessage
    cases env.encodeAuthError <;> rfl

/-- The client reads the refusal for what it is. -/
theorem errorText_authErrorFrame (hF : F.codec.Lawful) (otherwise : String) :
    errorText F (authErrorFrame F) otherwise = "invalid token" := by
  have hdec : decodeMessage F ErrorMessage.read (authErrorFrame F) = .ok ⟨"invalid token", true⟩ :=
    decodeMessage_toVecNamed hF _ (by decide) (ErrorMessage.read_extends (.refl _))
  unfold errorText
  rw [hdec]

end Frames

/-! ### How far the ends are apart -/

section Invariant

variable (cfg : ServerConfig) (client : ClientConfig) (F : Formats)

/-- What the list of tokens says about the client. -/
def decision : Except ConnectError Unit :=
  if client.token ∈ cfg.authTokens then .ok () else .error (.authFailed "invalid token")

/-- What the server can have said. -/
def Verdict (said : List Frame) : Prop :=
  (client.token ∉ cfg.authTokens ∧ said <+: [authErrorFrame F]) ∨
  (client.token ∈ cfg.authTokens ∧ ∃ ready, ready.tag = .ready ∧ said <+: [authOkFrame F, ready])

/-- What the server has read and said, by the place it is at. -/
def ServerFact (taken : ℕ) (said : List Frame) : Phase → Prop
  | .startup => taken = 0 ∧ said = []
  | .auth capabilities => taken = 1 ∧ said = [] ∧ capabilities = clientCapabilities
  | .main session => taken = 2 ∧ session.authenticated = true ∧
      session.capabilities = clientCapabilities ∧ client.token ∈ cfg.authTokens ∧
      ∃ ready, ready.tag = .ready ∧ said = [authOkFrame F, ready]
  | .closed _ => Verdict cfg client F said

/-- What the client has written and heard, by the place it is at. -/
def ClientFact (told said : List Frame) (heard : ℕ) : Connecting → Prop
  | .dialing | .writingStartup => told = [] ∧ heard = 0
  | .writingAuth => told = [startupFrame F] ∧ heard = 0
  | .awaiting gotAuthOk gotReady => told = [startupFrame F, authFrame F client.token] ∧
      gotReady = false ∧ heard = gotAuthOk.toNat ∧ (gotAuthOk = true → [authOkFrame F] <+: said)
  | .returned (.ok _) => told = [startupFrame F, authFrame F client.token] ∧
      ∃ ready, ready.tag = .ready ∧ said = [authOkFrame F, ready] ∧ heard = 2
  | .returned (.error (.authFailed reason)) =>
      told = [startupFrame F, authFrame F client.token] ∧ said = [authErrorFrame F] ∧
      reason = "invalid token"
  | .returned (.error _) => told <+: [startupFrame F, authFrame F client.token]

structure MeetingInvariant (s : Meeting) : Prop where
  taken_le : s.taken ≤ s.told.length
  server : ServerFact cfg client F s.taken s.said s.server
  client : ClientFact client F s.told s.said s.heard s.client

end Invariant

section Steps

variable {cfg : ServerConfig} {client : ClientConfig} {F : Formats}

theorem verdict_nil : Verdict cfg client F [] := by
  by_cases h : client.token ∈ cfg.authTokens
  · exact Or.inr ⟨h, ⟨.ready, []⟩, rfl, List.nil_prefix⟩
  · exact Or.inl ⟨h, List.nil_prefix⟩

theorem ServerFact.verdict {taken : ℕ} {said : List Frame} {phase : Phase}
    (h : ServerFact cfg client F taken said phase) : Verdict cfg client F said := by
  cases phase with
  | startup =>
    obtain ⟨-, rfl⟩ := h
    exact verdict_nil
  | auth capabilities =>
    obtain ⟨-, rfl, -⟩ := h
    exact verdict_nil
  | main session =>
    obtain ⟨-, -, -, htoken, ready, hready, rfl⟩ := h
    exact Or.inr ⟨htoken, ready, hready, List.prefix_refl _⟩
  | closed result => exact h

/-- What is refused has no token of the list. -/
theorem Verdict.refused (h : Verdict cfg client F [authErrorFrame F]) :
    client.token ∉ cfg.authTokens := by
  obtain ⟨htoken, -⟩ | ⟨-, ready, -, hpre⟩ := h
  · exact htoken
  · have hhead := List.cons_prefix_cons.mp hpre
    exact absurd (congrArg Frame.tag hhead.1) (by simp)

theorem Verdict.tag_ne_error {said : List Frame} (h : Verdict cfg client F said) :
    ∀ frame ∈ said, frame.tag ≠ .error := by
  intro frame hframe
  obtain ⟨-, hpre⟩ | ⟨-, ready, hready, hpre⟩ := h
  · obtain rfl := List.mem_singleton.mp (hpre.subset hframe)
    simp
  · obtain rfl | hmem := List.mem_cons.mp (hpre.subset hframe)
    · simp
    · obtain rfl := List.mem_singleton.mp hmem
      simp [hready]

/-- A server that has said something has decided: it has a session, or had one, or refused it. -/
theorem ServerFact.decided {taken : ℕ} {said : List Frame} {phase : Phase}
    (h : ServerFact cfg client F taken said phase) (hsaid : said ≠ []) :
    (∃ session, phase = .main session ∧ session.authenticated = true ∧
      session.capabilities = clientCapabilities) ∨ ∃ result, phase = .closed result := by
  cases phase with
  | startup => exact absurd h.2 hsaid
  | auth capabilities => exact absurd h.2.1 hsaid
  | main session => exact Or.inl ⟨session, rfl, h.2.1, h.2.2.1⟩
  | closed result => exact Or.inr ⟨result, rfl⟩

theorem ClientFact.told_within {told said : List Frame} {heard : ℕ} {c : Connecting}
    (h : ClientFact client F told said heard c) :
    told <+: [startupFrame F, authFrame F client.token] := by
  match c, h with
  | .dialing, ⟨htold, _⟩ | .writingStartup, ⟨htold, _⟩ => exact htold ▸ List.nil_prefix
  | .writingAuth, ⟨htold, _⟩ => exact htold ▸ ⟨[_], rfl⟩
  | .awaiting _ _, ⟨htold, _⟩ | .returned (.ok _), ⟨htold, _⟩
  | .returned (.error (.authFailed _)), ⟨htold, _⟩ => exact htold ▸ List.prefix_refl _
  | .returned (.error (.connectionFailed _)), h | .returned (.error (.proto _)), h
  | .returned (.error (.internal _)), h => exact h

/-- A client keeps what it knows when the server, which has said nothing yet, says more. -/
theorem ClientFact.said {told said said' : List Frame} {heard : ℕ} {c : Connecting}
    (h : ClientFact client F told said heard c) (hsaid : said' = said ∨ said = []) :
    ClientFact client F told said' heard c := by
  rcases hsaid with rfl | rfl
  · exact h
  match c, h with
  | .dialing, h | .writingStartup, h | .writingAuth, h => exact h
  | .awaiting gotAuthOk gotReady, ⟨htold, hready, hheard, hok⟩ =>
    refine ⟨htold, hready, hheard, fun hgot => ?_⟩
    exact absurd (hok hgot).length_le (by simp)
  | .returned (.ok _), ⟨_, ready, _, hsaid, _⟩ => exact absurd hsaid (by simp)
  | .returned (.error (.authFailed _)), ⟨_, hsaid, _⟩ => exact absurd hsaid (by simp)
  | .returned (.error (.connectionFailed _)), h | .returned (.error (.proto _)), h
  | .returned (.error (.internal _)), h => exact h

@[simp] theorem sends_send (frame : Frame) (actions : List Action) :
    sends (.send frame :: actions) = frame :: sends actions := rfl

@[simp] theorem sends_nil : sends [] = [] := rfl

theorem sends_unsubscribe (ids : List String) : sends (ids.map .unsubscribe) = [] := by
  induction ids with
  | nil => rfl
  | cons id ids ih => exact ih

/-- The two answers, or what a failure leaves of them. -/
theorem serverFact_greet (htoken : client.token ∈ cfg.authTokens) (env : Env) :
    ServerFact cfg client F 2 (sends (Wire.greet F env clientCapabilities).2)
      (Wire.greet F env clientCapabilities).1 := by
  have hverdict : ∀ said ready, ready.tag = .ready → said <+: [authOkFrame F, ready] →
      Verdict cfg client F said := fun said ready hready h => Or.inr ⟨htoken, ready, hready, h⟩
  unfold Wire.greet Wire.authOkFrame Wire.readyFrame encodeMessage
  cases env.encodeAuthOk with
  | some e => exact verdict_nil
  | none =>
    cases env.write 0 with
    | some e => exact hverdict _ ⟨.ready, []⟩ rfl ⟨[_], rfl⟩
    | none =>
      cases env.encodeReady with
      | some e => exact hverdict _ ⟨.ready, []⟩ rfl ⟨[_], rfl⟩
      | none =>
        cases env.write 1 with
        | some e => exact hverdict _ _ rfl (List.prefix_refl _)
        | none => exact ⟨rfl, rfl, rfl, htoken, _, rfl, rfl⟩

/-- The server takes the next frame of the client: the first leads to the second, and on the second it
decides. It has said nothing before. -/
theorem ServerFact.turn (hF : F.codec.Lawful) {told said : List Frame} {taken : ℕ} {phase : Phase}
    (h : ServerFact cfg client F taken said phase)
    (htold : told <+: [startupFrame F, authFrame F client.token]) {frame : Frame}
    (hframe : told[taken]? = some frame) {env : Env} {state : ServerState} {stream : Stream}
    {turn : Wire.Turn} (hserve : Wire.serve cfg F env state stream (.frame frame) phase = some turn) :
    said = [] ∧
    (taken = 0 ∧ phase = .startup ∧ (turn.phase, turn.actions) = (.auth clientCapabilities, []) ∨
      taken = 1 ∧ phase = .auth clientCapabilities ∧ (turn.phase, turn.actions)
        = Wire.serveAuth cfg F env clientCapabilities (.frame (authFrame F client.token))) := by
  have hscript := prefix_getElem? htold hframe
  cases phase with
  | startup =>
    obtain ⟨rfl, rfl⟩ := h
    obtain rfl := Option.some.inj hscript
    rw [Wire.serve, serveStartup_startupFrame hF] at hserve
    obtain rfl := Option.some.inj hserve
    exact ⟨rfl, Or.inl ⟨rfl, rfl, rfl⟩⟩
  | auth capabilities =>
    obtain ⟨rfl, rfl, rfl⟩ := h
    obtain rfl := Option.some.inj hscript
    obtain rfl := Option.some.inj hserve
    exact ⟨rfl, Or.inr ⟨rfl, rfl, rfl⟩⟩
  | main session =>
    -- there is no third frame
    obtain ⟨rfl, -⟩ := h
    exact absurd hscript (by simp)
  | closed result => exact absurd hserve (by simp [Wire.serve])

/-- The server reads what the client has told it. -/
theorem ServerFact.read (hF : F.codec.Lawful) {told said : List Frame} {taken : ℕ} {phase : Phase}
    (h : ServerFact cfg client F taken said phase)
    (htold : told <+: [startupFrame F, authFrame F client.token]) {frame : Frame}
    (hframe : told[taken]? = some frame) {env : Env} {state : ServerState} {stream : Stream}
    {turn : Wire.Turn} (hserve : Wire.serve cfg F env state stream (.frame frame) phase = some turn) :
    ServerFact cfg client F (taken + 1) (said ++ sends turn.actions) turn.phase ∧ said = [] := by
  obtain ⟨rfl, ⟨rfl, rfl, hturn⟩ | ⟨rfl, rfl, hturn⟩⟩ := h.turn hF htold hframe hserve
  · obtain ⟨hphase, hactions⟩ := Prod.mk.inj hturn
    rw [hphase, hactions]
    exact ⟨⟨rfl, rfl, rfl⟩, rfl⟩
  · refine ⟨?_, rfl⟩
    rw [serveAuth_authFrame hF] at hturn
    by_cases htoken : client.token ∈ cfg.authTokens
    · rw [if_pos htoken] at hturn
      have hgreet := serverFact_greet (F := F) htoken env
      rw [← hturn] at hgreet
      exact hgreet
    · rw [if_neg htoken] at hturn
      cases hencode : env.encodeAuthError with
      | some e =>
        rw [hencode] at hturn
        obtain ⟨hphase, hactions⟩ := Prod.mk.inj hturn
        rw [hphase, hactions]
        exact verdict_nil
      | none =>
        rw [hencode] at hturn
        obtain ⟨hphase, hactions⟩ := Prod.mk.inj hturn
        rw [hphase, hactions]
        exact Or.inl ⟨htoken, List.prefix_refl _⟩

/-- The server loses the connection, and says nothing more. -/
theorem ServerFact.lose {said : List Frame} {taken : ℕ} {phase : Phase}
    (h : ServerFact cfg client F taken said phase) (error : Option ProtoError) {env : Env}
    {state : ServerState} {stream : Stream} {turn : Wire.Turn}
    (hserve : Wire.serve cfg F env state stream (error.elim .eof .failed) phase = some turn) :
    ServerFact cfg client F taken said turn.phase ∧ sends turn.actions = [] := by
  have hverdict := h.verdict
  cases phase with
  | startup =>
    obtain rfl := Option.some.inj hserve
    cases error <;> exact ⟨hverdict, rfl⟩
  | auth capabilities =>
    obtain rfl := Option.some.inj hserve
    cases error <;> exact ⟨hverdict, rfl⟩
  | main session =>
    have hclean : Wire.cleanUp state stream session = some turn := by
      cases error <;> exact hserve
    obtain ⟨stream', -, hturn⟩ := Option.bind_eq_some_iff.mp hclean
    obtain rfl := Option.some.inj hturn
    exact ⟨hverdict, sends_unsubscribe _⟩
  | closed result => exact absurd hserve (by simp [Wire.serve])

/-- A write leads on, or ends the call; the server may read the frame in both cases. -/
theorem ClientFact.write {told said : List Frame} {heard : ℕ} {after : Connecting} {tag : FrameTag}
    {doc : Json}
    (h : ClientFact client F (told ++ [⟨tag, F.codec.toVecNamed doc⟩]) said heard after)
    (fault : WriteFault) :
    ClientFact client F (told ++ (after.write fault (encodeMessage F fault.encode tag doc)).2) said
      heard (after.write fault (encodeMessage F fault.encode tag doc)).1 := by
  have htold : told <+: [startupFrame F, authFrame F client.token] :=
    (List.prefix_append _ _).trans h.told_within
  obtain ⟨encode, write⟩ := fault
  cases encode with
  | some e => exact (List.append_nil told).symm ▸ htold
  | none =>
    cases write with
    | none => exact h
    | some fault =>
      obtain ⟨e, out⟩ := fault
      cases out with
      | false => exact (List.append_nil told).symm ▸ htold
      | true => exact h.told_within

/-- The client hears what the server has said: it is let in, or told that it is not. -/
theorem ClientFact.hear (hF : F.codec.Lawful) {told said : List Frame} {heard : ℕ}
    {gotAuthOk gotReady : Bool}
    (h : ClientFact client F told said heard (.awaiting gotAuthOk gotReady))
    (hverdict : Verdict cfg client F said) {frame : Frame} (hframe : said[heard]? = some frame) :
    ClientFact client F told said (heard + 1) (.hear F gotAuthOk gotReady frame) ∧
    (gotAuthOk = false ∧ Connecting.hear F gotAuthOk gotReady frame = .awaiting true false ∨
      Connecting.hear F gotAuthOk gotReady frame = .returned (decision cfg client)) := by
  obtain ⟨htold, rfl, rfl, hok⟩ := h
  have hlen := (List.getElem?_eq_some_iff.mp hframe).1
  rcases hverdict with ⟨htoken, hsaid⟩ | ⟨htoken, ready, hready, hsaid⟩
  · have hscript := prefix_getElem? hsaid hframe
    cases gotAuthOk with
    | false =>
      obtain rfl := Option.some.inj hscript
      have htext := errorText_authErrorFrame hF "auth error"
      refine ⟨⟨htold, hsaid.eq_of_length_le hlen, htext⟩, Or.inr ?_⟩
      rw [decision, if_neg htoken, ← htext]
      rfl
    | true =>
      -- nothing follows a refusal
      exact absurd hscript (by simp)
  · have hscript := prefix_getElem? hsaid hframe
    cases gotAuthOk with
    | false =>
      obtain rfl := Option.some.inj hscript
      refine ⟨⟨htold, rfl, rfl, fun _ => ?_⟩, Or.inl ⟨rfl, rfl⟩⟩
      obtain ⟨rest, rfl⟩ := List.head?_eq_some_iff.mp (List.head?_eq_getElem? ▸ hframe)
      exact ⟨rest, rfl⟩
    | true =>
      obtain rfl := Option.some.inj hscript
      have hhear : Connecting.hear F true false ready = .returned (.ok ()) := by
        simp [Connecting.hear, Connecting.next, hready]
      rw [hhear, decision, if_pos htoken]
      exact ⟨⟨htold, ready, hready, hsaid.eq_of_length_le hlen, rfl⟩, Or.inr rfl⟩

/-- The invariant survives every step of either end. -/
theorem MeetingInvariant.step (hF : F.codec.Lawful) {s s' : Meeting} {l : MeetingLabel}
    (hs : MeetingInvariant cfg client F s) (hstep : MeetingStep cfg client F s l s') :
    MeetingInvariant cfg client F s' := by
  obtain ⟨htaken, hserver, hclient⟩ := hs
  have htold : ∀ frames, s.taken ≤ (s.told ++ frames).length := fun frames =>
    htaken.trans (List.prefix_append s.told frames).length_le
  cases hstep with
  | dialFails e hc =>
    rw [hc] at hclient
    exact ⟨htaken, hserver, hclient.told_within⟩
  | refusesTls hc htls =>
    rw [hc] at hclient
    exact ⟨htaken, hserver, hclient.told_within⟩
  | dials hc htls =>
    rw [hc] at hclient
    exact ⟨htaken, hserver, hclient⟩
  | writesStartup fault hc =>
    rw [hc] at hclient
    obtain ⟨hnone, hheard⟩ := hclient
    exact ⟨htold _, hserver, ClientFact.write (by rw [hnone]; exact ⟨rfl, hheard⟩) fault⟩
  | writesAuth fault hc =>
    rw [hc] at hclient
    obtain ⟨hone, hheard⟩ := hclient
    exact ⟨htold _, hserver, ClientFact.write (by rw [hone]; exact ⟨rfl, rfl, hheard, by simp⟩) fault⟩
  | serves env frame turn hnext hserve =>
    have hframe := (nextFrame_eq_some.mp hnext).1
    obtain ⟨hserver', hsaid⟩ := hserver.read hF hclient.told_within hframe hserve
    exact ⟨(List.getElem?_eq_some_iff.mp hframe).1, hserver', hclient.said (Or.inr hsaid)⟩
  | serverLoses error env turn hserve =>
    obtain ⟨hserver', hsends⟩ := hserver.lose error hserve
    have hsaid : s.said ++ sends turn.actions = s.said := by rw [hsends, List.append_nil]
    exact ⟨htaken, hsaid.symm ▸ hserver', hclient.said (Or.inl hsaid)⟩
  | hears gotAuthOk gotReady frame hc hnext =>
    rw [hc] at hclient
    exact ⟨htaken, hserver, (hclient.hear hF hserver.verdict (nextFrame_eq_some.mp hnext).1).1⟩
  | clientLoses gotAuthOk gotReady error hc =>
    exact ⟨htaken, hserver, hclient.told_within⟩
  | timesOut gotAuthOk gotReady hc =>
    exact ⟨htaken, hserver, hclient.told_within⟩

theorem meetingInvariant_of_run (hF : F.codec.Lawful) {state : ServerState} {stream : Stream}
    {ls : List MeetingLabel} {s : Meeting}
    (hrun : (meeting cfg client F).exec (.initial state stream) ls = some s) :
    MeetingInvariant cfg client F s :=
  System.exec_induction ⟨le_rfl, ⟨rfl, rfl⟩, rfl, rfl⟩
    (fun _ _ _ hs hstep => hs.step hF (meetingStep_sound hstep)) hrun

/-- A client that is connected has been told so. -/
theorem MeetingInvariant.connected {s : Meeting} (hs : MeetingInvariant cfg client F s)
    (hc : s.client = .returned (.ok ())) :
    client.token ∈ cfg.authTokens ∧
      ∃ ready, ready.tag = .ready ∧ s.said = [authOkFrame F, ready] ∧ s.heard = 2 := by
  have hclient := hs.client
  have hverdict := hs.server.verdict
  rw [hc] at hclient
  obtain ⟨-, ready, hready, hsaid, hheard⟩ := hclient
  refine ⟨?_, ready, hready, hsaid, hheard⟩
  -- a refusal is shorter than what was heard
  rw [hsaid] at hverdict
  exact hverdict.elim (fun h => absurd h.2.length_le (by simp)) And.left

/-! ### If nothing fails -/

/-- Nothing fails, and the frame that tells the client to begin is within the limit. -/
def MeetingLabel.Calm (F : Formats) : MeetingLabel → Prop
  | .dial error => error = none
  | .writeStartup fault | .writeAuth fault => fault = .none
  | .serve env => env.Greets ∧ env.encodeAuthError = none ∧
      ∀ ready, Wire.readyFrame F env = .ok ready → ready.Fits
  | .hear => True
  | .serverLoses _ _ | .clientLoses _ | .timeout => False

/-- How far the client is. -/
def Connecting.rank : Connecting → ℕ
  | .dialing => 0
  | .writingStartup => 1
  | .writingAuth => 2
  | .awaiting gotAuthOk _ => 3 + gotAuthOk.toNat
  | .returned _ => 5

/-- How far the server is. -/
def phaseRank : Phase → ℕ
  | .startup => 0
  | .auth _ => 1
  | .main _ | .closed _ => 2

theorem Connecting.rank_le (c : Connecting) : c.rank ≤ 5 := by
  cases c with
  | awaiting gotAuthOk gotReady =>
    have := gotAuthOk.toNat_le
    simp only [rank]
    omega
  | _ => simp [rank]

theorem phaseRank_le (phase : Phase) : phaseRank phase ≤ 2 := by
  cases phase <;> simp [phaseRank]

/-- The state after `n` steps none of which failed. -/
structure CalmFact (cfg : ServerConfig) (client : ClientConfig) (F : Formats) (n : ℕ) (s : Meeting) :
    Prop where
  invariant : MeetingInvariant cfg client F s
  closed : ∀ result, s.server = .closed result → s.said = [authErrorFrame F]
  returned : ∀ result, s.client = .returned result → result = decision cfg client
  fits : ∀ frame ∈ s.said, frame.Fits
  steps : n ≤ s.client.rank + phaseRank s.server

/-- The two answers, if nothing fails. -/
theorem greet_of_greets {env : Env} (h : env.Greets) (capabilities : List String) :
    ∃ session ready, Wire.greet F env capabilities
      = (.main session, [.send (authOkFrame F), .send ready]) ∧
      Wire.readyFrame F env = .ok ready := by
  obtain ⟨hok, hwrite, hready, hwrite'⟩ := h
  unfold Wire.greet Wire.authOkFrame Wire.readyFrame encodeMessage
  rw [hok, hready, hwrite, hwrite']
  exact ⟨_, _, rfl, rfl⟩

/-- The server takes the next frame: it waits for the other, or is through. -/
theorem ServerFact.read_calm (hF : F.codec.Lawful) {told said : List Frame} {taken : ℕ}
    {phase : Phase} (h : ServerFact cfg client F taken said phase)
    (htold : told <+: [startupFrame F, authFrame F client.token]) {frame : Frame}
    (hframe : told[taken]? = some frame) {env : Env} (hcalm : (MeetingLabel.serve env).Calm F)
    {state : ServerState} {stream : Stream} {turn : Wire.Turn}
    (hserve : Wire.serve cfg F env state stream (.frame frame) phase = some turn) :
    phaseRank phase < phaseRank turn.phase ∧
    (∀ result, turn.phase = .closed result → said ++ sends turn.actions = [authErrorFrame F]) ∧
    ∀ frame ∈ sends turn.actions, frame = authErrorFrame F ∨ frame = authOkFrame F ∨ frame.Fits := by
  obtain ⟨hgreets, hencode, hready⟩ := hcalm
  obtain ⟨rfl, ⟨rfl, rfl, hturn⟩ | ⟨rfl, rfl, hturn⟩⟩ := h.turn hF htold hframe hserve
  · obtain ⟨hphase, hactions⟩ := Prod.mk.inj hturn
    rw [hphase, hactions]
    exact ⟨Nat.zero_lt_one, by simp, by simp⟩
  · rw [serveAuth_authFrame hF, hencode] at hturn
    by_cases htoken : client.token ∈ cfg.authTokens
    · obtain ⟨session, ready, hgreet, hframe⟩ := greet_of_greets (F := F) hgreets clientCapabilities
      rw [if_pos htoken, hgreet] at hturn
      obtain ⟨hphase, hactions⟩ := Prod.mk.inj hturn
      rw [hphase, hactions]
      refine ⟨Nat.one_lt_two, by simp, fun frame hmem => ?_⟩
      obtain rfl | hmem := List.mem_cons.mp hmem
      · exact Or.inr (Or.inl rfl)
      · obtain rfl := List.mem_singleton.mp hmem
        exact Or.inr (Or.inr (hready _ hframe))
    · rw [if_neg htoken] at hturn
      obtain ⟨hphase, hactions⟩ := Prod.mk.inj hturn
      rw [hphase, hactions]
      exact ⟨Nat.one_lt_two, fun _ _ => rfl, fun frame hmem => Or.inl (List.mem_singleton.mp hmem)⟩

/-- A write that does not fail leads on. -/
theorem CalmFact.write {n : ℕ} {s : Meeting} (hs : CalmFact cfg client F n s) {after : Connecting}
    (hrank : after.rank = s.client.rank + 1) (hafter : ∀ result, after ≠ .returned result)
    {tag : FrameTag} {doc : Json}
    (hinvariant : MeetingInvariant cfg client F
      (s.write (after.write .none (encodeMessage F .none tag doc)))) :
    CalmFact cfg client F (n + 1) (s.write (after.write .none (encodeMessage F .none tag doc))) := by
  have hsteps := hs.steps
  refine ⟨hinvariant, hs.closed, fun result h => absurd h (hafter result), hs.fits, ?_⟩
  change n + 1 ≤ after.rank + phaseRank s.server
  omega

theorem CalmFact.step (hF : F.codec.Lawful) (htls : client.tls = false)
    (hrefusal : (authErrorFrame F).Fits) (hok : (authOkFrame F).Fits) {n : ℕ} {s s' : Meeting}
    {l : MeetingLabel} (hs : CalmFact cfg client F n s) (hcalm : l.Calm F)
    (hstep : MeetingStep cfg client F s l s') : CalmFact cfg client F (n + 1) s' := by
  have hinvariant := hs.invariant.step hF hstep
  have hsteps := hs.steps
  cases hstep with
  | dialFails e hc => exact absurd hcalm (by simp [MeetingLabel.Calm])
  | refusesTls hc htls' => exact absurd (htls.symm.trans htls') (by simp)
  | dials hc _ =>
    rw [hc] at hsteps
    refine ⟨hinvariant, hs.closed, by simp, hs.fits, ?_⟩
    simp only [Connecting.rank] at hsteps ⊢
    omega
  | writesStartup fault hc =>
    obtain rfl : fault = .none := hcalm
    exact hs.write (by rw [hc]; rfl) (by simp) hinvariant
  | writesAuth fault hc =>
    obtain rfl : fault = .none := hcalm
    exact hs.write (by rw [hc]; rfl) (by simp) hinvariant
  | serves env frame turn hnext hserve =>
    obtain ⟨hrank, hclosed, hsends⟩ := hs.invariant.server.read_calm hF
      hs.invariant.client.told_within (nextFrame_eq_some.mp hnext).1 hcalm hserve
    refine ⟨hinvariant, hclosed, hs.returned, fun frame hmem => ?_, ?_⟩
    · obtain hmem | hmem := List.mem_append.mp hmem
      · exact hs.fits frame hmem
      · obtain rfl | rfl | h := hsends frame hmem
        · exact hrefusal
        · exact hok
        · exact h
    · dsimp only
      omega
  | serverLoses error env turn hserve => exact absurd hcalm (by simp [MeetingLabel.Calm])
  | hears gotAuthOk gotReady frame hc hnext =>
    have hclient := hs.invariant.client
    rw [hc] at hclient hsteps
    obtain ⟨-, ⟨rfl, hhear⟩ | hhear⟩ := hclient.hear hF hs.invariant.server.verdict
      (nextFrame_eq_some.mp hnext).1
    · refine ⟨hinvariant, hs.closed, fun result h => ?_, hs.fits, ?_⟩
      · exact absurd (hhear.symm.trans h) (by simp)
      · simp only [hhear]
        simp only [Connecting.rank] at hsteps ⊢
        simp at hsteps ⊢
        omega
    · refine ⟨hinvariant, hs.closed, fun result h => ?_, hs.fits, ?_⟩
      · exact (Connecting.returned.inj (hhear.symm.trans h)).symm
      · simp only [hhear]
        have := gotAuthOk.toNat_le
        simp only [Connecting.rank] at hsteps ⊢
        omega
  | clientLoses gotAuthOk gotReady error hc => exact absurd hcalm (by simp [MeetingLabel.Calm])
  | timesOut gotAuthOk gotReady hc => exact absurd hcalm (by simp [MeetingLabel.Calm])

/-- A client that has heard all there is to hear waits for a server that has yet to read a frame. -/
theorem CalmFact.unread {n : ℕ} {s : Meeting} (hs : CalmFact cfg client F n s)
    {gotAuthOk gotReady : Bool} (hc : s.client = .awaiting gotAuthOk gotReady)
    (hall : s.said.length ≤ s.heard) (env : Env) :
    ∃ frame turn, s.told[s.taken]? = some frame ∧
      Wire.serve cfg F env s.state s.stream (.frame frame) s.server = some turn := by
  have hclient := hs.invariant.client
  have hserver := hs.invariant.server
  rw [hc] at hclient
  obtain ⟨htold, -, hheard, hok⟩ := hclient
  have hone := gotAuthOk.toNat_le
  rw [htold]
  cases hp : s.server with
  | startup =>
    rw [hp] at hserver
    exact ⟨startupFrame F, _, by rw [hserver.1]; rfl, rfl⟩
  | auth capabilities =>
    rw [hp] at hserver
    exact ⟨authFrame F client.token, _, by rw [hserver.1]; rfl, rfl⟩
  | main session =>
    -- both answers are out, and the client has heard one of them at most
    rw [hp] at hserver
    obtain ⟨-, -, -, -, ready, -, hsaid⟩ := hserver
    rw [hsaid, hheard, List.length_cons, List.length_singleton] at hall
    omega
  | closed result =>
    -- the refusal is out, and the client, which goes on waiting, has not heard it
    have hsaid := hs.closed result hp
    rw [hsaid] at hok hall
    cases gotAuthOk with
    | false => exact absurd hall (by simp [hheard])
    | true =>
      have hhead := List.cons_prefix_cons.mp (hok rfl)
      exact absurd (congrArg Frame.tag hhead.1) (by simp)

/-- Some end can go on, as long as the call has not returned. -/
theorem CalmFact.progress (htls : client.tls = false)
    (hfits : ∀ frame ∈ [startupFrame F, authFrame F client.token], frame.Fits) {n : ℕ} {s : Meeting}
    (hs : CalmFact cfg client F n s) {env : Env} (henv : (MeetingLabel.serve env).Calm F) :
    (∃ result, s.client = .returned result) ∨
      ∃ l, l.Calm F ∧ ((meeting cfg client F).step s l).isSome := by
  cases hc : s.client with
  | dialing =>
    refine Or.inr ⟨.dial none, rfl, ?_⟩
    simp only [meeting, Meeting.step, hc, htls]
    rfl
  | writingStartup =>
    refine Or.inr ⟨.writeStartup .none, rfl, ?_⟩
    simp only [meeting, Meeting.step, hc]
    rfl
  | writingAuth =>
    refine Or.inr ⟨.writeAuth .none, rfl, ?_⟩
    simp only [meeting, Meeting.step, hc]
    rfl
  | awaiting gotAuthOk gotReady =>
    by_cases hlt : s.heard < s.said.length
    · have hframe := List.getElem?_eq_getElem hlt
      refine Or.inr ⟨.hear, trivial, ?_⟩
      simp only [meeting, Meeting.step, hc,
        nextFrame_eq_some.mpr ⟨hframe, hs.fits _ (List.getElem_mem hlt)⟩]
      rfl
    · obtain ⟨frame, turn, hframe, hturn⟩ := hs.unread hc (not_lt.mp hlt) env
      have hmem := hs.invariant.client.told_within.subset (List.mem_of_getElem? hframe)
      refine Or.inr ⟨.serve env, henv, ?_⟩
      simp only [meeting, Meeting.step, Meeting.serveItem,
        nextFrame_eq_some.mpr ⟨hframe, hfits _ hmem⟩, hturn]
      rfl
  | returned result => exact Or.inl ⟨result, rfl⟩

theorem calmFact_of_run (hF : F.codec.Lawful) (htls : client.tls = false)
    (hrefusal : (authErrorFrame F).Fits) (hok : (authOkFrame F).Fits) {state : ServerState}
    {stream : Stream} {ls : List MeetingLabel} {s : Meeting}
    (hrun : (meeting cfg client F).exec (.initial state stream) ls = some s)
    (hcalm : ∀ l ∈ ls, l.Calm F) : CalmFact cfg client F ls.length s := by
  revert hcalm
  refine System.exec_induction_labels (I := fun ls s => (∀ l ∈ ls, l.Calm F) →
    CalmFact cfg client F ls.length s) (fun _ => ?_) (fun ls s l s' _ ih hstep hcalm => ?_) hrun
  · exact ⟨⟨le_rfl, ⟨rfl, rfl⟩, rfl, rfl⟩, by simp [Meeting.initial], by simp [Meeting.initial],
      by simp [Meeting.initial], Nat.zero_le _⟩
  · obtain ⟨hcalm, hl⟩ := List.forall_mem_append.mp hcalm
    rw [List.length_append]
    exact (ih hcalm).step hF htls hrefusal hok (hl l List.mem_cons_self) (meetingStep_sound hstep)

end Steps

end Sdk

section Handshake

open Sdk
open Wire (ServerConfig ServerState Env)

/-- **The two ends agree.** Whatever fails on the way: a client that is told to be connected has a token
of the list, has read every frame the server sent it, and the server has its session with the
capabilities of the client, unless it lost the connection since; a client whose token is refused has
none of the list; a session the server has opened is that of a client with a token of the list, which
has sent both its frames; and the server never has an error to report. -/
theorem handshake_agreement {cfg : ServerConfig} {client : ClientConfig} {F : Formats}
    (hF : F.codec.Lawful) {state : ServerState} {stream : Stream} {ls : List MeetingLabel}
    {s : Meeting} (hrun : (meeting cfg client F).exec (.initial state stream) ls = some s) :
    (s.client = .returned (.ok ()) → client.token ∈ cfg.authTokens ∧
      s.said.map Frame.tag = [.authOk, .ready] ∧ s.heard = s.said.length ∧
      ((∃ session, s.server = .main session ∧ session.authenticated = true ∧
        session.capabilities = clientCapabilities) ∨ ∃ result, s.server = .closed result)) ∧
    (∀ reason, s.client = .returned (.error (.authFailed reason)) →
      client.token ∉ cfg.authTokens ∧ reason = "invalid token") ∧
    (∀ session, s.server = .main session → client.token ∈ cfg.authTokens ∧
      s.told = [startupFrame F, authFrame F client.token] ∧ s.taken = 2) ∧
    ∀ frame ∈ s.said, frame.tag ≠ .error := by
  have hs := meetingInvariant_of_run hF hrun
  have hserver := hs.server
  have hclient := hs.client
  have hverdict := hserver.verdict
  refine ⟨fun hc => ?_, fun reason hc => ?_, fun session hp => ?_, hverdict.tag_ne_error⟩
  · obtain ⟨htoken, ready, hready, hsaid, hheard⟩ := hs.connected hc
    refine ⟨htoken, by simp [hsaid, hready], by rw [hheard, hsaid]; rfl, hserver.decided ?_⟩
    rw [hsaid]
    exact List.cons_ne_nil _ _
  · rw [hc] at hclient
    obtain ⟨-, hsaid, rfl⟩ := hclient
    rw [hsaid] at hverdict
    exact ⟨hverdict.refused, rfl⟩
  · -- it has read two frames, and there are no others
    rw [hp] at hserver
    obtain ⟨htwo, -, -, htoken, -⟩ := hserver
    have htaken := hs.taken_le
    rw [htwo] at htaken
    exact ⟨htoken, hclient.told_within.eq_of_length_le htaken, htwo⟩

/-- **The token decides.** If nothing fails and the frames are within the limit, the handshake makes at
most seven steps, one end or the other can go on until `connect` has returned, and it returns `Ok` if
the token is one of the list and `AuthFailed` otherwise. -/
theorem handshake_decides {cfg : ServerConfig} {client : ClientConfig} {F : Formats}
    (hF : F.codec.Lawful) (htls : client.tls = false)
    (hfits : ∀ frame ∈ [startupFrame F, authFrame F client.token, authErrorFrame F, authOkFrame F],
      frame.Fits)
    {state : ServerState} {stream : Stream} {ls : List MeetingLabel} {s : Meeting}
    (hrun : (meeting cfg client F).exec (.initial state stream) ls = some s)
    (hcalm : ∀ l ∈ ls, l.Calm F) {env : Env} (henv : (MeetingLabel.serve env).Calm F) :
    ls.length ≤ 7 ∧
      (s.client = .returned (decision cfg client) ∨
        ∃ l, l.Calm F ∧ ((meeting cfg client F).step s l).isSome) := by
  have hs : CalmFact cfg client F ls.length s :=
    calmFact_of_run hF htls (hfits _ (by simp)) (hfits _ (by simp)) hrun hcalm
  refine ⟨hs.steps.trans ?_, ?_⟩
  · have hclient := s.client.rank_le
    have hserver := phaseRank_le s.server
    omega
  · refine (hs.progress htls (fun frame hmem => hfits frame ?_) henv).imp_left ?_
    · simp only [List.mem_cons, List.not_mem_nil, or_false] at hmem ⊢
      tauto
    · rintro ⟨result, hc⟩
      rw [hc, hs.returned result hc]

/-- A client that shows the one token there is. -/
def tokenBearer : ClientConfig := ⟨"s3cret", false⟩

/-- A client that shows another. -/
def guesser : ClientConfig := ⟨"guess", false⟩

/-- The client is let in, and then the server finds the connection broken. -/
def goodHandshake : List MeetingLabel :=
  [.dial none, .writeStartup .none, .serve (.calm 0), .writeAuth .none, .serve (.calm 0), .hear, .hear,
    .serverLoses none (.calm 0)]

/-- The client is turned away. -/
def badHandshake : List MeetingLabel :=
  [.dial none, .writeStartup .none, .writeAuth .none, .serve (.calm 0), .serve (.calm 0), .hear]

theorem handshake_agreement_goodHandshake :
    ∃ s, (meeting Wire.oneToken tokenBearer Wire.firstDay).exec (.initial .initial .initial)
        goodHandshake = some s ∧
      s.client = .returned (.ok ()) ∧ tokenBearer.token ∈ Wire.oneToken.authTokens := by
  have heval : ((meeting Wire.oneToken tokenBearer Wire.firstDay).exec (.initial .initial .initial)
      goodHandshake).map Meeting.client = some (.returned (.ok ())) := by decide +kernel
  obtain ⟨s, hrun, hc⟩ := Option.map_eq_some_iff.mp heval
  exact ⟨s, hrun, hc, ((handshake_agreement Wire.firstDay_lawful hrun).1 hc).1⟩

theorem handshake_decides_badHandshake :
    ∃ s, (meeting Wire.oneToken guesser Wire.firstDay).exec (.initial .initial .initial)
        badHandshake = some s ∧
      (s.client = .returned (.error (.authFailed "invalid token")) ∨
        ∃ l, l.Calm Wire.firstDay ∧
          ((meeting Wire.oneToken guesser Wire.firstDay).step s l).isSome) := by
  have heval : ((meeting Wire.oneToken guesser Wire.firstDay).exec (.initial .initial .initial)
      badHandshake).isSome = true := by decide +kernel
  obtain ⟨s, hrun⟩ := Option.isSome_iff_exists.mp heval
  have henv : (MeetingLabel.serve (.calm 0)).Calm Wire.firstDay := by
    refine ⟨⟨rfl, rfl, rfl, rfl⟩, rfl, fun ready hready => ?_⟩
    obtain rfl := Except.ok.inj hready
    decide +kernel
  refine ⟨s, hrun, (handshake_decides Wire.firstDay_lawful rfl (by decide +kernel) hrun ?_ henv).2⟩
  simp only [badHandshake, List.forall_mem_cons]
  exact ⟨rfl, rfl, rfl, henv, henv, trivial, by simp⟩

end Handshake

end StateMaster
