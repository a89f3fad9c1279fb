import StateMaster.Wire.Session

/-!
# Nothing happens before authentication

A connection makes a call of the engine, or sends `AuthOk` or `Ready`, only after it has read a
`Startup` frame of the right version and an `Auth` frame with a token of the list, in this order and
first of all.

* `ctEq_iff`, `tokenIsValid_iff` — the comparison without early exits is list membership;
* `serveStartup_cases`, `serveAuth_cases`, `greet_cases` — what each stage of the handshake can do;
* `HandshakeStep` — the same for an item read before the main loop;
* `HandshakeFact` — what a connection has read and done, by the place it is at;
* `nothing_before_authentication` — along every run, for every connection.
-/

open Framework

namespace StateMaster

namespace Wire

/-! ### Tokens -/

/-- The gathered difference vanishes if no two bytes differ. -/
theorem foldl_diff_eq_zero_iff (l : List (UInt8 × UInt8)) (d : UInt8) :
    l.foldl (fun diff p => diff ||| (p.1 ^^^ p.2)) d = 0 ↔ d = 0 ∧ ∀ p ∈ l, p.1 = p.2 := by
  induction l generalizing d with
  | nil => simp
  | cons p l ih =>
    rw [List.foldl_cons, ih, UInt8.or_eq_zero_iff, UInt8.xor_eq_zero_iff, List.forall_mem_cons,
      and_assoc]

/-- **`ct_eq` is equality**, for all byte strings. -/
theorem ctEq_iff {a b : List UInt8} : ctEq a b = true ↔ a = b := by
  unfold ctEq
  by_cases hlen : a.length = b.length
  · rw [if_neg (by simpa using hlen), beq_iff_eq, foldl_diff_eq_zero_iff]
    constructor
    · rintro ⟨-, hall⟩
      -- byte by byte
      refine List.ext_getElem hlen fun n ha hb => ?_
      have hn : n < (a.zip b).length := by rw [List.length_zip]; exact lt_min ha hb
      have hpair := hall _ (List.getElem_mem hn)
      rwa [List.getElem_zip] at hpair
    · rintro rfl
      refine ⟨rfl, fun p hp => ?_⟩
      obtain ⟨n, hn, rfl⟩ := List.mem_iff_getElem.mp hp
      rw [List.getElem_zip]
  · rw [if_pos hlen]
    exact iff_of_false (by decide) fun h => hlen (congrArg List.length h)

theorem asBytes_inj {s t : String} : asBytes s = asBytes t ↔ s = t := by
  constructor
  · intro h
    exact String.toByteArray_inj.mp (ByteArray.ext (Array.toList_inj.mp h))
  · rintro rfl
    rfl

/-- **`token_is_valid` is list membership**, for every list, the empty one too. -/
theorem tokenIsValid_iff {valid : List String} {presented : String} :
    tokenIsValid valid presented = true ↔ presented ∈ valid := by
  -- From any flag, which stays set once it is.
  suffices h : ∀ matched : Bool, valid.foldl (fun matched token =>
      matched || ctEq (asBytes token) (asBytes presented)) matched = true ↔
        matched = true ∨ presented ∈ valid by
    simpa [tokenIsValid] using h false
  induction valid with
  | nil => simp
  | cons token valid ih =>
    intro matched
    rw [List.foldl_cons, ih, Bool.or_eq_true, ctEq_iff, asBytes_inj, List.mem_cons, or_assoc,
      eq_comm (a := token)]

/-! ### What a connection reads and does -/

/-- The items connection `i` reads along a run, with the circumstances of each. -/
def inputs (i : ℕ) (ls : List HostLabel) : List (Incoming × Env) :=
  ls.filterMap fun
    | .receive j input env => if j = i then some (input, env) else none
    | _ => none

/-- A `Startup` frame of the server's version. -/
def StartsUp (F : Formats) (frame : Frame) : Prop :=
  frame.tag = .startup ∧ ∃ startup, decodeMessage F StartupMessage.read frame = .ok startup ∧
    startup.protocolVersion = protocolVersion

/-- An `Auth` frame with a token that is byte for byte one of the list. -/
def ShowsToken (cfg : ServerConfig) (F : Formats) (frame : Frame) : Prop :=
  frame.tag = .auth ∧ ∃ auth, decodeMessage F AuthMessage.read frame = .ok auth ∧
    ∃ token ∈ cfg.authTokens, asBytes token = asBytes auth.token

/-- The first two items read are the two frames of a good handshake. -/
def Authenticates (cfg : ServerConfig) (F : Formats) (items : List (Incoming × Env)) : Prop :=
  ∃ f₁ e₁ f₂ e₂ rest, items = (.frame f₁, e₁) :: (.frame f₂, e₂) :: rest ∧ StartsUp F f₁ ∧
    ShowsToken cfg F f₂

/-- A call of the engine, or one of the two frames that answer a good handshake. -/
def Action.Privileged : Action → Prop
  | .send frame => frame.tag = .authOk ∨ frame.tag = .ready
  | .command _ | .subscribe _ _ | .unsubscribe _ => True

/-- The tags of the frames sent. -/
def sentTags (trace : List Action) : List FrameTag :=
  trace.filterMap fun
    | .send frame => some frame.tag
    | _ => none

/-- Neither of the two answers fails, to be encoded or to be written. -/
def Env.Greets (env : Env) : Prop :=
  env.encodeAuthOk = none ∧ env.write 0 = none ∧ env.encodeReady = none ∧ env.write 1 = none

/-- The first two things done were to send the two answers. -/
def Greeted (trace : List Action) : Prop :=
  ∃ authOk ready rest, trace = .send authOk :: .send ready :: rest ∧ authOk.tag = .authOk ∧
    ready.tag = .ready

/-- Nothing was done but to send frames. -/
def OnlySends (trace : List Action) : Prop :=
  ∀ a ∈ trace, ∃ frame, a = .send frame

/-- Frames were sent, and none of the two answers. -/
def Quiet (trace : List Action) : Prop :=
  ∀ a ∈ trace, ∃ frame, a = .send frame ∧ frame.tag ≠ .authOk ∧ frame.tag ≠ .ready

theorem Greeted.append {trace : List Action} (h : Greeted trace) (more : List Action) :
    Greeted (trace ++ more) := by
  obtain ⟨authOk, ready, rest, rfl, hok, hready⟩ := h
  exact ⟨authOk, ready, rest ++ more, rfl, hok, hready⟩

theorem Greeted.sentTags {trace : List Action} (h : Greeted trace) :
    [.authOk, .ready] <+: sentTags trace := by
  obtain ⟨authOk, ready, rest, rfl, hok, hready⟩ := h
  refine ⟨Wire.sentTags rest, ?_⟩
  change [FrameTag.authOk, .ready] ++ _ = authOk.tag :: ready.tag :: Wire.sentTags rest
  rw [hok, hready]
  rfl

theorem Authenticates.append {cfg : ServerConfig} {F : Formats} {items : List (Incoming × Env)}
    (h : Authenticates cfg F items) (more : List (Incoming × Env)) :
    Authenticates cfg F (items ++ more) := by
  obtain ⟨f₁, e₁, f₂, e₂, rest, rfl, h₁, h₂⟩ := h
  exact ⟨f₁, e₁, f₂, e₂, rest ++ more, rfl, h₁, h₂⟩

theorem quiet_nil : Quiet [] := fun _ h => absurd h List.not_mem_nil

theorem Quiet.not_privileged {trace : List Action} (h : Quiet trace) {a : Action}
    (ha : a ∈ trace) : ¬ a.Privileged := by
  obtain ⟨frame, rfl, hok, hready⟩ := h a ha
  rintro (h | h)
  · exact hok h
  · exact hready h

theorem Quiet.onlySends {trace : List Action} (h : Quiet trace) : OnlySends trace := by
  intro a ha
  obtain ⟨frame, rfl, -⟩ := h a ha
  exact ⟨frame, rfl⟩

theorem quiet_sendFatalError (F : Formats) (env : Env) (message : String) :
    Quiet (sendFatalError F env message) := by
  intro a ha
  obtain rfl := List.mem_singleton.mp ha
  refine ⟨_, rfl, ?_⟩
  rw [tag_makeErrorFrame]
  exact ⟨by decide, by decide⟩

/-! ### The stages of the handshake -/

section Stages

variable (cfg : ServerConfig) (F : Formats) (env : Env)

theorem serveStartup_cases (input : Incoming) :
    (∃ frame capabilities, input = .frame frame ∧ StartsUp F frame ∧
      serveStartup F env input = (.auth capabilities, [])) ∨
    (∃ result actions, serveStartup F env input = (.closed result, actions) ∧ Quiet actions ∧
      ∀ frame, input = .frame frame → ¬ StartsUp F frame) := by
  cases input with
  | eof => exact Or.inr ⟨_, _, rfl, quiet_nil, fun _ h => nomatch h⟩
  | failed e => exact Or.inr ⟨_, _, rfl, quiet_nil, fun _ h => nomatch h⟩
  | frame frame =>
    rw [serveStartup]
    by_cases htag : frame.tag = .startup
    · rw [if_neg (by simpa using htag)]
      cases hdec : decodeMessage F StartupMessage.read frame with
      | error e =>
        -- a body that cannot be decoded ends the connection without a word
        refine Or.inr ⟨_, _, rfl, quiet_nil, ?_⟩
        rintro _ h ⟨-, startup, hok, -⟩
        obtain rfl := Incoming.frame.inj h
        exact absurd (hdec.symm.trans hok) (by simp)
      | ok startup =>
        dsimp only
        by_cases hversion : startup.protocolVersion = protocolVersion
        · rw [if_neg (by simpa using hversion)]
          exact Or.inl ⟨frame, _, rfl, ⟨htag, startup, hdec, hversion⟩, rfl⟩
        · rw [if_pos hversion]
          refine Or.inr ⟨_, _, rfl, quiet_sendFatalError F env _, ?_⟩
          rintro _ h ⟨-, startup', hok, hv⟩
          obtain rfl := Incoming.frame.inj h
          obtain rfl := Except.ok.inj (hdec.symm.trans hok)
          exact hversion hv
    · -- any other frame is answered with a fatal error
      rw [if_pos htag]
      refine Or.inr ⟨_, _, rfl, quiet_sendFatalError F env _, ?_⟩
      rintro _ h ⟨htag', -⟩
      obtain rfl := Incoming.frame.inj h
      exact htag htag'

theorem serveAuth_cases (capabilities : List String) (input : Incoming) :
    (∃ frame, input = .frame frame ∧ ShowsToken cfg F frame ∧
      serveAuth cfg F env capabilities input = greet F env capabilities) ∨
    (∃ result actions, serveAuth cfg F env capabilities input = (.closed result, actions) ∧
      Quiet actions ∧ ∀ frame, input = .frame frame → ¬ ShowsToken cfg F frame) := by
  cases input with
  | eof => exact Or.inr ⟨_, _, rfl, quiet_nil, fun _ h => nomatch h⟩
  | failed e => exact Or.inr ⟨_, _, rfl, quiet_nil, fun _ h => nomatch h⟩
  | frame frame =>
    rw [serveAuth]
    by_cases htag : frame.tag = .auth
    · rw [if_neg (by simpa using htag)]
      cases hdec : decodeMessage F AuthMessage.read frame with
      | error e =>
        refine Or.inr ⟨_, _, rfl, quiet_nil, ?_⟩
        rintro _ h ⟨-, auth, hok, -⟩
        obtain rfl := Incoming.frame.inj h
        exact absurd (hdec.symm.trans hok) (by simp)
      | ok auth =>
        dsimp only
        by_cases hvalid : auth.token ∈ cfg.authTokens
        · rw [if_neg (by rw [tokenIsValid_iff.mpr hvalid]; decide)]
          exact Or.inl ⟨frame, rfl, ⟨htag, auth, hdec, auth.token, hvalid, rfl⟩, rfl⟩
        · -- the token is refused, and the refusal is told unless it cannot be encoded
          have hfalse : tokenIsValid cfg.authTokens auth.token = false :=
            Bool.eq_false_iff.mpr fun h => hvalid (tokenIsValid_iff.mp h)
          have hnot : ∀ frame', Incoming.frame frame = .frame frame' →
              ¬ ShowsToken cfg F frame' := by
            rintro _ h ⟨-, auth', hok, token, htoken, hbytes⟩
            obtain rfl := Incoming.frame.inj h
            obtain rfl := Except.ok.inj (hdec.symm.trans hok)
            exact hvalid (asBytes_inj.mp hbytes ▸ htoken)
          rw [if_pos hfalse]
          unfold authErrorFrame encodeMessage
          cases env.encodeAuthError with
          | some e => exact Or.inr ⟨_, _, rfl, quiet_nil, hnot⟩
          | none =>
            refine Or.inr ⟨_, _, rfl, ?_, hnot⟩
            intro a ha
            obtain rfl := List.mem_singleton.mp ha
            exact ⟨_, rfl, by simp, by simp⟩
    · -- any other frame is answered with a fatal error
      rw [if_pos htag]
      refine Or.inr ⟨_, _, rfl, quiet_sendFatalError F env _, ?_⟩
      rintro _ h ⟨htag', -⟩
      obtain rfl := Incoming.frame.inj h
      exact htag htag'

/-- The two answers are sent in their order; a failure cuts them short and ends the connection. -/
theorem greet_cases (capabilities : List String) :
    (∃ session actions, greet F env capabilities = (.main session, actions) ∧ OnlySends actions ∧
      Greeted actions ∧ session.subscriptions = ∅) ∨
    (∃ result actions, greet F env capabilities = (.closed result, actions) ∧ OnlySends actions ∧
      ¬ env.Greets ∧ sentTags actions <+: [.authOk, .ready]) := by
  unfold greet authOkFrame readyFrame encodeMessage Env.Greets OnlySends
  cases env.encodeAuthOk with
  | some e => exact Or.inr ⟨_, _, rfl, by simp, by simp, List.nil_prefix⟩
  | none =>
    cases env.write 0 with
    | some e =>
      exact Or.inr ⟨_, _, rfl, by simp, by simp, ⟨[.ready], rfl⟩⟩
    | none =>
      cases env.encodeReady with
      | some e => exact Or.inr ⟨_, _, rfl, by simp, by simp, ⟨[.ready], rfl⟩⟩
      | none =>
        cases env.write 1 with
        | some e => exact Or.inr ⟨_, _, rfl, by simp, by simp, List.prefix_refl _⟩
        | none => exact Or.inl ⟨_, _, rfl, by simp, ⟨_, _, _, rfl, rfl, rfl⟩, rfl⟩

end Stages

/-- Everything an item read before the main loop can lead to. Neither the engine nor the subscriber
list is touched. -/
inductive HandshakeStep (cfg : ServerConfig) (F : Formats) (env : Env) (server : ServerState)
    (stream : Stream) : Phase → Incoming → Turn → Prop where
  | startsUp (frame : Frame) (capabilities : List String) (hstarts : StartsUp F frame) :
      HandshakeStep cfg F env server stream .startup (.frame frame)
        ⟨server, stream, .auth capabilities, []⟩
  | refusesStartup (input : Incoming) (result : Except WireError Unit) (actions : List Action)
      (hquiet : Quiet actions) (hnot : ∀ frame, input = .frame frame → ¬ StartsUp F frame) :
      HandshakeStep cfg F env server stream .startup input
        ⟨server, stream, .closed result, actions⟩
  | greets (capabilities : List String) (frame : Frame) (session : Session) (actions : List Action)
      (hshows : ShowsToken cfg F frame) (hsends : OnlySends actions) (hgreeted : Greeted actions)
      (hempty : session.subscriptions = ∅) :
      HandshakeStep cfg F env server stream (.auth capabilities) (.frame frame)
        ⟨server, stream, .main session, actions⟩
  | cutShort (capabilities : List String) (frame : Frame) (result : Except WireError Unit)
      (actions : List Action) (hshows : ShowsToken cfg F frame) (hsends : OnlySends actions)
      (hcut : ¬ env.Greets) (htags : sentTags actions <+: [.authOk, .ready]) :
      HandshakeStep cfg F env server stream (.auth capabilities) (.frame frame)
        ⟨server, stream, .closed result, actions⟩
  | refusesAuth (capabilities : List String) (input : Incoming) (result : Except WireError Unit)
      (actions : List Action) (hquiet : Quiet actions)
      (hnot : ∀ frame, input = .frame frame → ¬ ShowsToken cfg F frame) :
      HandshakeStep cfg F env server stream (.auth capabilities) input
        ⟨server, stream, .closed result, actions⟩

theorem handshakeStep_sound {cfg : ServerConfig} {F : Formats} {env : Env} {server : ServerState}
    {stream : Stream} {input : Incoming} {phase : Phase} {turn : Turn}
    (hserve : serve cfg F env server stream input phase = some turn)
    (hmain : ∀ session, phase ≠ .main session) :
    HandshakeStep cfg F env server stream phase input turn := by
  cases phase with
  | startup =>
    obtain ⟨frame, capabilities, rfl, hstarts, heq⟩ | ⟨result, actions, heq, hquiet, hnot⟩ :=
      serveStartup_cases F env input
    · rw [serve, heq] at hserve
      obtain rfl := Option.some.inj hserve
      exact .startsUp frame capabilities hstarts
    · rw [serve, heq] at hserve
      obtain rfl := Option.some.inj hserve
      exact .refusesStartup input result actions hquiet hnot
  | auth capabilities =>
    obtain ⟨frame, rfl, hshows, heq⟩ | ⟨result, actions, heq, hquiet, hnot⟩ :=
      serveAuth_cases cfg F env capabilities input
    · -- the token is good, and what is left is to say so
      rw [serve, heq] at hserve
      obtain ⟨session, actions, hgreet, hsends, hgreeted, hempty⟩ |
        ⟨result, actions, hgreet, hsends, hcut, htags⟩ := greet_cases F env capabilities
      · rw [hgreet] at hserve
        obtain rfl := Option.some.inj hserve
        exact .greets capabilities frame session actions hshows hsends hgreeted hempty
      · rw [hgreet] at hserve
        obtain rfl := Option.some.inj hserve
        exact .cutShort capabilities frame result actions hshows hsends hcut htags
    · rw [serve, heq] at hserve
      obtain rfl := Option.some.inj hserve
      exact .refusesAuth capabilities input result actions hquiet hnot
  | main session => exact absurd rfl (hmain session)
  | closed result => exact nomatch hserve

section Before

variable {cfg : ServerConfig} {F : Formats} {env : Env} {server : ServerState} {stream : Stream}
  {input : Incoming} {phase : Phase} {turn : Turn}

/-- An item read during the handshake changes nothing that is shared. -/
theorem HandshakeStep.shared (h : HandshakeStep cfg F env server stream phase input turn) :
    turn.server = server ∧ turn.stream = stream := by
  cases h <;> exact ⟨rfl, rfl⟩

/-- The handshake only sends, and the session it leads to knows of no subscription. -/
theorem HandshakeStep.onlySends (h : HandshakeStep cfg F env server stream phase input turn) :
    OnlySends turn.actions ∧ ∀ session, turn.phase = .main session → session.subscriptions = ∅ := by
  cases h with
  | startsUp => exact ⟨fun _ h => absurd h List.not_mem_nil, fun _ h => nomatch h⟩
  | refusesStartup _ _ _ hquiet => exact ⟨hquiet.onlySends, fun _ h => nomatch h⟩
  | greets _ _ _ _ _ hsends _ hempty => exact ⟨hsends, fun _ h => Phase.main.inj h ▸ hempty⟩
  | cutShort _ _ _ _ _ hsends => exact ⟨hsends, fun _ h => nomatch h⟩
  | refusesAuth _ _ _ _ hquiet => exact ⟨hquiet.onlySends, fun _ h => nomatch h⟩

end Before

/-! ### Along a run -/

section Run

variable {cfg : ServerConfig} {F : Formats}

/-- The answers to a good handshake were cut short: one of them failed. -/
def CutShort (items : List (Incoming × Env)) (trace : List Action) : Prop :=
  (∃ first second, items = [first, second] ∧ ¬ second.2.Greets) ∧ OnlySends trace ∧
    sentTags trace <+: [.authOk, .ready]

/-- What a connection has read and done, by the place it is at. -/
def HandshakeFact (cfg : ServerConfig) (F : Formats) (items : List (Incoming × Env))
    (trace : List Action) : Phase → Prop
  | .startup => items = [] ∧ trace = []
  | .auth _ => (∃ frame env, items = [(.frame frame, env)] ∧ StartsUp F frame) ∧ trace = []
  | .main _ => Authenticates cfg F items ∧ Greeted trace
  | .closed _ => ¬ Authenticates cfg F items ∧ Quiet trace ∨
      Authenticates cfg F items ∧ (Greeted trace ∨ CutShort items trace)

/-- The connection reads an item of the handshake. -/
theorem HandshakeFact.handshake {items : List (Incoming × Env)} {trace : List Action} {phase : Phase}
    (hfact : HandshakeFact cfg F items trace phase) {env : Env} {server : ServerState}
    {stream : Stream} {input : Incoming} {turn : Turn}
    (hstep : HandshakeStep cfg F env server stream phase input turn) :
    HandshakeFact cfg F (items ++ [(input, env)]) (trace ++ turn.actions) turn.phase := by
  cases hstep with
  | startsUp frame capabilities hstarts =>
    obtain ⟨rfl, rfl⟩ := hfact
    exact ⟨⟨frame, env, rfl, hstarts⟩, rfl⟩
  | refusesStartup _ result actions hquiet _ =>
    -- one item is not two
    obtain ⟨rfl, rfl⟩ := hfact
    exact Or.inl ⟨fun ⟨_, _, _, _, _, h, _⟩ => (nomatch h), hquiet⟩
  | greets capabilities f₂ session actions hshows _ hgreeted _ =>
    obtain ⟨⟨f₁, e₁, rfl, hstarts⟩, rfl⟩ := hfact
    exact ⟨⟨f₁, e₁, f₂, env, [], rfl, hstarts, hshows⟩, hgreeted⟩
  | cutShort capabilities f₂ result actions hshows hsends hcut htags =>
    -- the handshake was good, and the item just read is the one whose answer failed
    obtain ⟨⟨f₁, e₁, rfl, hstarts⟩, rfl⟩ := hfact
    exact Or.inr ⟨⟨f₁, e₁, f₂, env, [], rfl, hstarts, hshows⟩,
      Or.inr ⟨⟨_, _, rfl, hcut⟩, hsends, htags⟩⟩
  | refusesAuth capabilities _ result actions hquiet hnot =>
    -- the second item is this one, and it shows no token
    obtain ⟨⟨f₁, e₁, rfl, hstarts⟩, rfl⟩ := hfact
    refine Or.inl ⟨?_, hquiet⟩
    rintro ⟨f₁', e₁', f₂, e₂, rest, h, -, hshows⟩
    have hinput : input = .frame f₂ := (Prod.mk.inj (List.cons.inj (List.cons.inj h).2).1).1
    exact hnot f₂ hinput hshows

/-- The connection reads an item. -/
theorem HandshakeFact.receive {items : List (Incoming × Env)} {conn : Conn}
    (hfact : HandshakeFact cfg F items conn.trace conn.phase) {env : Env} {server : ServerState}
    {stream : Stream} {input : Incoming} {turn : Turn}
    (hserve : serve cfg F env server stream input conn.phase = some turn) :
    HandshakeFact cfg F (items ++ [(input, env)]) (conn.trace ++ turn.actions) turn.phase := by
  obtain ⟨phase, trace⟩ := conn
  by_cases hmain : ∃ session, phase = .main session
  · -- both facts of the main loop are about what came first, and only grow
    obtain ⟨session, rfl⟩ := hmain
    obtain ⟨hauth, hgreeted⟩ := hfact
    have hauth' := hauth.append [(input, env)]
    have hgreeted' := hgreeted.append turn.actions
    obtain ⟨session', h⟩ | ⟨result, h⟩ := (mainStep_sound hserve).phase_cases
    · rw [h]
      exact ⟨hauth', hgreeted'⟩
    · rw [h]
      exact Or.inr ⟨hauth', Or.inl hgreeted'⟩
  · exact hfact.handshake (handshakeStep_sound hserve fun session h => hmain ⟨session, h⟩)

/-- A record is forwarded, which takes a subscription, which takes an authenticated connection. -/
theorem HandshakeFact.forward {items : List (Incoming × Env)} {trace : List Action} {phase : Phase}
    (hfact : HandshakeFact cfg F items trace phase) {id : String} {channel : ℕ}
    (hopened : Action.subscribe id channel ∈ trace) (frame : Frame) :
    HandshakeFact cfg F items (trace ++ [.send frame]) phase := by
  cases phase with
  | startup => exact absurd (hfact.2 ▸ hopened) List.not_mem_nil
  | auth capabilities => exact absurd (hfact.2 ▸ hopened) List.not_mem_nil
  | main session => exact ⟨hfact.1, hfact.2.append _⟩
  | closed result =>
    rcases hfact with ⟨-, hquiet⟩ | ⟨hauth, hgreeted | ⟨-, hsends, -⟩⟩
    · exact absurd trivial (hquiet.not_privileged hopened)
    · exact Or.inr ⟨hauth, Or.inl (hgreeted.append _)⟩
    · obtain ⟨_, h⟩ := hsends _ hopened
      exact nomatch h

theorem inputs_receive_self (i : ℕ) (ls : List HostLabel) (input : Incoming) (env : Env) :
    inputs i (ls ++ [.receive i input env]) = inputs i ls ++ [(input, env)] := by
  unfold inputs
  rw [List.filterMap_append]
  exact congrArg _ (List.filterMap_cons_some (if_pos rfl))

theorem inputs_of_forall_ne {i : ℕ} {l : HostLabel} (ls : List HostLabel)
    (h : ∀ input env, l ≠ .receive i input env) : inputs i (ls ++ [l]) = inputs i ls := by
  unfold inputs
  rw [List.filterMap_append, List.filterMap_cons_none, List.filterMap_nil, List.append_nil]
  cases l with
  | receive j input env =>
    refine if_neg fun hj => h input env ?_
    rw [hj]
  | forward => rfl
  | forwarderExits => rfl
  | pass => rfl

theorem handshakeFact_of_run {server : ServerState} {ls : List HostLabel} {h : Host}
    (hrun : (host cfg F).exec (Host.initial server) ls = some h) (i : ℕ) :
    HandshakeFact cfg F (inputs i ls) (h.conns i).trace (h.conns i).phase := by
  refine System.exec_induction_labels
    (I := fun ls h => HandshakeFact cfg F (inputs i ls) (h.conns i).trace (h.conns i).phase)
    ?_ ?_ hrun
  · exact ⟨rfl, rfl⟩
  intro ls h l h' _ ih hstep
  rcases (hostStep_sound hstep).conn_cases i with
    ⟨input, env, turn, rfl, rfl, hserve⟩ | ⟨hne, hphase, htrace⟩
  · rw [inputs_receive_self, Host.after_conns_self]
    exact ih.receive hserve
  · rw [inputs_of_forall_ne ls hne, hphase]
    rcases htrace with htrace | ⟨id, channel, frame, hopened, -, htrace⟩
    · rw [htrace]
      exact ih
    · rw [htrace]
      exact ih.forward hopened frame

section Reading

variable {items : List (Incoming × Env)} {trace : List Action} {phase : Phase}

/-- Who did something privileged has authenticated. -/
theorem HandshakeFact.authenticates (hfact : HandshakeFact cfg F items trace phase) {a : Action}
    (ha : a ∈ trace) (hpriv : a.Privileged) : Authenticates cfg F items := by
  cases phase with
  | startup => exact absurd (hfact.2 ▸ ha) List.not_mem_nil
  | auth capabilities => exact absurd (hfact.2 ▸ ha) List.not_mem_nil
  | main session => exact hfact.1
  | closed result =>
    obtain ⟨-, hquiet⟩ | ⟨hauth, -⟩ := hfact
    · exact absurd hpriv (hquiet.not_privileged ha)
    · exact hauth

/-- Who has authenticated was sent the two answers, or they were cut short. -/
theorem HandshakeFact.greeted (hfact : HandshakeFact cfg F items trace phase)
    (hauth : Authenticates cfg F items) : Greeted trace ∨ CutShort items trace := by
  obtain ⟨f₁, e₁, f₂, e₂, rest, hitems, -⟩ := id hauth
  cases phase with
  | startup =>
    -- nothing has been read
    exact absurd (hitems.symm.trans hfact.1) (by simp)
  | auth capabilities =>
    -- one item has been read
    obtain ⟨⟨f, e, hone, -⟩, -⟩ := hfact
    exact absurd (hitems.symm.trans hone) (by simp)
  | main session => exact Or.inl hfact.2
  | closed result =>
    obtain ⟨hnot, -⟩ | ⟨-, hanswers⟩ := hfact
    · exact absurd hauth hnot
    · exact hanswers

end Reading

/-- **Nothing happens before authentication.** For every token list, whatever the connections of a
server read and however they are interleaved, connection `i`

* calls the engine or sends `AuthOk` or `Ready` only if the first item it read is a `Startup` frame of
  the right version and the second an `Auth` frame with a token of the list;
* before that changes neither the engine nor the subscriber list with the item it reads next;
* after that sends `AuthOk` and `Ready` before any other frame: both, unless one of them cannot be
  encoded or written, and then nothing else.

The comparison of tokens is equality of bytes, and the check is membership. -/
theorem nothing_before_authentication {server : ServerState} {ls : List HostLabel} {h : Host}
    (hrun : (host cfg F).exec (Host.initial server) ls = some h) (i : ℕ) :
    (∀ a ∈ (h.conns i).trace, a.Privileged → Authenticates cfg F (inputs i ls)) ∧
    (∀ input env h', (host cfg F).step h (.receive i input env) = some h' →
      ¬ Authenticates cfg F (inputs i ls) → h'.server = h.server ∧ h'.stream = h.stream) ∧
    (∀ f₁ e₁ f₂ e₂ rest, inputs i ls = (.frame f₁, e₁) :: (.frame f₂, e₂) :: rest →
      StartsUp F f₁ → ShowsToken cfg F f₂ →
        ([.authOk, .ready] <+: sentTags (h.conns i).trace ∨
          OnlySends (h.conns i).trace ∧ sentTags (h.conns i).trace <+: [.authOk, .ready]) ∧
        (e₂.Greets → [.authOk, .ready] <+: sentTags (h.conns i).trace)) ∧
    (∀ a b, ctEq a b = true ↔ a = b) ∧
    (∀ presented, tokenIsValid cfg.authTokens presented = true ↔
      ∃ token ∈ cfg.authTokens, asBytes token = asBytes presented) := by
  have hfact := handshakeFact_of_run hrun i
  refine ⟨fun a ha hpriv => hfact.authenticates ha hpriv, ?_, ?_, fun a b => ctEq_iff,
    fun presented => ?_⟩
  · intro input env h' hstep hnot
    obtain ⟨input', env', turn, hl, rfl, hserve⟩ | ⟨hne, -⟩ := (hostStep_sound hstep).conn_cases i
    · -- a connection in the main loop has authenticated, so this one is not there yet
      refine (handshakeStep_sound hserve fun session hphase => hnot ?_).shared
      rw [hphase] at hfact
      exact hfact.1
    · exact absurd rfl (hne input env)
  · intro f₁ e₁ f₂ e₂ rest hitems hstarts hshows
    obtain hgreeted | ⟨⟨first, second, htwo, hcut⟩, hsends, htags⟩ :=
      hfact.greeted ⟨f₁, e₁, f₂, e₂, rest, hitems, hstarts, hshows⟩
    · exact ⟨Or.inl hgreeted.sentTags, fun _ => hgreeted.sentTags⟩
    · -- the answers were cut short, so one of them failed
      refine ⟨Or.inr ⟨hsends, htags⟩, fun hgreets => absurd hgreets ?_⟩
      have hsecond : (Incoming.frame f₂, e₂) = second :=
        (List.cons.inj (List.cons.inj (hitems.symm.trans htwo)).2).1
      rwa [← hsecond] at hcut
  · rw [tokenIsValid_iff]
    constructor
    · exact fun h => ⟨presented, h, rfl⟩
    · rintro ⟨token, htoken, hbytes⟩
      exact asBytes_inj.mp hbytes ▸ htoken

end Run

/-! ### A client that comes in -/

/-- A server with one token. -/
def oneToken : ServerConfig := ⟨["s3cret"]⟩

def startupFrame : Frame where
  tag := .startup
  body := firstDay.codec.toVecNamed
    (.object [("protocol_version", .ofNat 1), ("capabilities", .array [])])

def authFrame : Frame where
  tag := .auth
  body := firstDay.codec.toVecNamed (.object [("token", .string "s3cret")])

theorem startupFrame_decodes :
    decodeMessage firstDay StartupMessage.read startupFrame = .ok ⟨1, []⟩ :=
  decodeMessage_toVecNamed firstDay_lawful _ (by simp [nestingLimit]) rfl

theorem authFrame_decodes :
    decodeMessage firstDay AuthMessage.read authFrame = .ok ⟨"s3cret"⟩ :=
  decodeMessage_toVecNamed firstDay_lawful _ (by simp [nestingLimit]) rfl

/-- Connection `i` reads the two frames of a handshake. -/
def hello (i : ℕ) : List HostLabel :=
  [.receive i (.frame startupFrame) (Env.calm i), .receive i (.frame authFrame) (Env.calm i)]

/-- The session that comes of it. -/
def helloSession (i : ℕ) : Session where
  id := (Env.calm i).sessionId.text
  authenticated := true
  capabilities := []
  subscriptions := ∅

/-- What it was sent. -/
def helloTrace (i : ℕ) : List Action :=
  [.send ⟨.authOk, firstDay.codec.toVecNamed (ErrorMessage.toDoc ⟨"ok", false⟩)⟩,
    .send ⟨.ready, firstDay.codec.toVecNamed (ReadyMessage.toDoc ⟨(Env.calm i).sessionId.text,
      serverVersion, protocolVersion, ["subscribe", "history", "define_machine"]⟩)⟩]

theorem exec_hello {h : Host} {i : ℕ} (hfresh : h.conns i = ⟨.startup, []⟩) :
    (host oneToken firstDay).exec h (hello i)
      = some (h.setConn i ⟨.main (helloSession i), helloTrace i⟩) := by
  -- The first frame leads to the second stage, the second one to the main loop.
  have hstartup : serve oneToken firstDay (Env.calm i) h.server h.stream (.frame startupFrame)
      (h.conns i).phase = some ⟨h.server, h.stream, .auth [], []⟩ := by
    rw [hfresh, serve, serveStartup, if_neg (by decide), startupFrame_decodes]
    rfl
  let h₁ := h.setConn i ⟨.auth [], []⟩
  have hauth : serve oneToken firstDay (Env.calm i) h₁.server h₁.stream (.frame authFrame)
      (h₁.conns i).phase
        = some ⟨h.server, h.stream, .main (helloSession i), helloTrace i⟩ := by
    have hvalid : tokenIsValid oneToken.authTokens "s3cret" = true :=
      tokenIsValid_iff.mpr List.mem_cons_self
    rw [Host.setConn_conns_self, serve, serveAuth, if_neg (by decide), authFrame_decodes]
    dsimp only
    rw [if_neg (by rw [hvalid]; decide)]
    rfl
  have hstep₁ : (host oneToken firstDay).step h (.receive i (.frame startupFrame) (Env.calm i))
      = some h₁ := by
    refine (Option.bind_eq_some_iff.mpr ⟨_, hstartup, ?_⟩)
    simp only [Host.after, hfresh]
    rfl
  have hstep₂ : (host oneToken firstDay).step h₁ (.receive i (.frame authFrame) (Env.calm i))
      = some (h₁.after i ⟨h.server, h.stream, .main (helloSession i), helloTrace i⟩) :=
    Option.bind_eq_some_iff.mpr ⟨_, hauth, rfl⟩
  rw [hello, System.exec_cons, hstep₁, Option.bind_some, System.exec_cons, hstep₂]
  refine congrArg some ?_
  simp only [Host.after, Host.setConn, h₁, Function.update_self, Function.update_idem,
    List.nil_append]

theorem nothing_before_authentication_hello :
    ∃ h, (host oneToken firstDay).exec (Host.initial .initial) (hello 0) = some h ∧
      Authenticates oneToken firstDay (inputs 0 (hello 0)) ∧
      [.authOk, .ready] <+: sentTags (h.conns 0).trace := by
  have hrun := exec_hello (h := Host.initial .initial) (i := 0) rfl
  have hstarts : StartsUp firstDay startupFrame := ⟨rfl, _, startupFrame_decodes, rfl⟩
  have hshows : ShowsToken oneToken firstDay authFrame :=
    ⟨rfl, _, authFrame_decodes, _, List.mem_cons_self, rfl⟩
  obtain ⟨honly, -, hgreets, -⟩ := nothing_before_authentication hrun 0
  refine ⟨_, hrun, honly _ List.mem_cons_self (Or.inl rfl), ?_⟩
  exact (hgreets _ _ _ _ [] rfl hstarts hshows).2 ⟨rfl, rfl, rfl, rfl⟩

end Wire

end StateMaster
