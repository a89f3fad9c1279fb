import StateMaster.Framework.Decoder
import StateMaster.Proto.Messages

/-!
# Frames on the wire

A frame travels as one tag byte, four bytes with the length of its body, most significant first,
and the body. `FrameCodec.decode` looks at the header first: a length above `maxFrameSize` is
refused before the body is there, an unknown tag only once the whole frame is.

* `frameCodec_incremental`, `frameCodec_reads` — the decoder is one of `Framework.Decoder`, and
  reads the encodings of the frames within the limit;
* `decode_grammar` — so it accepts exactly sequences of such encodings, in whatever pieces they
  arrive;
* `decode_encode_iff` — the encoder knows no limit, and casts the length to 32 bits: what it writes
  comes back exactly if the body is within the limit of the decoder.
-/

open Framework

namespace StateMaster

/-- `PROTOCOL_VERSION`. -/
def protocolVersion : ℕ := 1

/-- `SERVER_VERSION`, the version of the package. -/
def serverVersion : String := "0.1.0"

/-- `MAX_FRAME_SIZE`. -/
def maxFrameSize : ℕ := 16 * 1024 * 1024

/-- `tag as u8`. -/
def FrameTag.toByte : FrameTag → UInt8
  | .startup => 0x01
  | .auth => 0x02
  | .defineMachine => 0x10
  | .transition => 0x11
  | .current => 0x12
  | .history => 0x13
  | .subscribe => 0x20
  | .ack => 0x21
  | .unsubscribe => 0x22
  | .ping => 0x30
  | .terminate => 0x31
  | .ready => 0x80
  | .authOk => 0x81
  | .authError => 0x82
  | .result => 0x90
  | .rejection => 0x91
  | .changeRecord => 0xA0
  | .notice => 0xB0
  | .error => 0xB1
  | .pong => 0xC0

/-- `FrameTag::try_from`. -/
def FrameTag.tryFrom (byte : UInt8) : Except ProtoError FrameTag :=
  match byte with
  | 0x01 => .ok .startup
  | 0x02 => .ok .auth
  | 0x10 => .ok .defineMachine
  | 0x11 => .ok .transition
  | 0x12 => .ok .current
  | 0x13 => .ok .history
  | 0x20 => .ok .subscribe
  | 0x21 => .ok .ack
  | 0x22 => .ok .unsubscribe
  | 0x30 => .ok .ping
  | 0x31 => .ok .terminate
  | 0x80 => .ok .ready
  | 0x81 => .ok .authOk
  | 0x82 => .ok .authError
  | 0x90 => .ok .result
  | 0x91 => .ok .rejection
  | 0xA0 => .ok .changeRecord
  | 0xB0 => .ok .notice
  | 0xB1 => .ok .error
  | 0xC0 => .ok .pong
  | other => .error (.invalidFrameType other)

/-! ### Lengths -/

/-- `u32::from_be_bytes`. -/
def fromBeBytes (b₀ b₁ b₂ b₃ : UInt8) : ℕ :=
  ((b₀.toNat * 256 + b₁.toNat) * 256 + b₂.toNat) * 256 + b₃.toNat

/-- `put_u32` of `n as u32`: the cast keeps the low 32 bits. -/
def toBeBytes (n : ℕ) : List UInt8 :=
  let n := n % 2 ^ 32
  [UInt8.ofNat (n / 256 ^ 3), UInt8.ofNat (n / 256 ^ 2), UInt8.ofNat (n / 256), UInt8.ofNat n]

namespace FrameCodec

/-! ### The codec -/

/-- `FrameCodec::decode`, with the buffer it leaves. -/
def decode : Decoder UInt8 Frame ProtoError
  | tagByte :: b₀ :: b₁ :: b₂ :: b₃ :: tail =>
    let src := tagByte :: b₀ :: b₁ :: b₂ :: b₃ :: tail
    let bodyLen := fromBeBytes b₀ b₁ b₂ b₃
    if bodyLen > maxFrameSize then (.error (.frameTooLarge bodyLen maxFrameSize), src)
    else if tail.length < bodyLen then (.ok none, src)
    else
      match FrameTag.tryFrom tagByte with
      | .error e => (.error e, src)
      | .ok tag => (.ok (some ⟨tag, tail.take bodyLen⟩), tail.drop bodyLen)
  | src => (.ok none, src)

/-- The bytes of a frame. -/
def bytes (frame : Frame) : List UInt8 :=
  frame.tag.toByte :: (toBeBytes frame.body.length ++ frame.body)

/-- `FrameCodec::encode`, with the buffer it leaves: the bytes are appended to it, whatever the
frame. -/
def encode (frame : Frame) (dst : List UInt8) : Except ProtoError (List UInt8) :=
  .ok (dst ++ bytes frame)

end FrameCodec

/-- A frame the decoder lets through. -/
def Frame.Fits (frame : Frame) : Prop := frame.body.length ≤ maxFrameSize

instance (frame : Frame) : Decidable frame.Fits :=
  inferInstanceAs (Decidable (frame.body.length ≤ maxFrameSize))

/-! ### The header, read and written -/

theorem FrameTag.tryFrom_toByte (tag : FrameTag) : FrameTag.tryFrom tag.toByte = .ok tag := by
  cases tag <;> rfl

theorem FrameTag.toByte_of_tryFrom {byte : UInt8} {tag : FrameTag}
    (h : FrameTag.tryFrom byte = .ok tag) : tag.toByte = byte := by
  unfold FrameTag.tryFrom at h
  -- Every byte of the table comes from its tag; every other byte is an error.
  split at h
  all_goals first
    | (obtain rfl := Except.ok.inj h; rfl)
    | exact absurd h (by simp)

theorem fromBeBytes_lt (b₀ b₁ b₂ b₃ : UInt8) : fromBeBytes b₀ b₁ b₂ b₃ < 2 ^ 32 := by
  have h₀ := b₀.toNat_lt
  have h₁ := b₁.toNat_lt
  have h₂ := b₂.toNat_lt
  have h₃ := b₃.toNat_lt
  unfold fromBeBytes
  omega

theorem toBeBytes_fromBeBytes (b₀ b₁ b₂ b₃ : UInt8) :
    toBeBytes (fromBeBytes b₀ b₁ b₂ b₃) = [b₀, b₁, b₂, b₃] := by
  have h₀ := b₀.toNat_lt
  have h₁ := b₁.toNat_lt
  have h₂ := b₂.toNat_lt
  have h₃ := b₃.toNat_lt
  have hbyte : ∀ (b : UInt8) (n : ℕ), n % 256 = b.toNat → UInt8.ofNat n = b := by
    intro b n hn
    refine UInt8.toNat_inj.mp ?_
    rw [UInt8.toNat_ofNat']
    exact hn
  unfold toBeBytes
  rw [Nat.mod_eq_of_lt (fromBeBytes_lt b₀ b₁ b₂ b₃)]
  unfold fromBeBytes
  dsimp only
  rw [hbyte b₀ _ (by omega), hbyte b₁ _ (by omega), hbyte b₂ _ (by omega), hbyte b₃ _ (by omega)]

/-- The length that is read is the length that was written, modulo the cast. -/
theorem exists_toBeBytes (n : ℕ) : ∃ b₀ b₁ b₂ b₃, toBeBytes n = [b₀, b₁, b₂, b₃] ∧
    fromBeBytes b₀ b₁ b₂ b₃ = n % 2 ^ 32 := by
  refine ⟨_, _, _, _, rfl, ?_⟩
  unfold fromBeBytes
  simp only [UInt8.toNat_ofNat']
  omega

namespace FrameCodec

/-! ### What the decoder does with a buffer -/

/-- A buffer with a whole header. -/
theorem decode_bytes_append (frame : Frame) (more : List UInt8) :
    decode (bytes frame ++ more) =
      if frame.body.length % 2 ^ 32 > maxFrameSize then
        (.error (.frameTooLarge (frame.body.length % 2 ^ 32) maxFrameSize), bytes frame ++ more)
      else (.ok (some ⟨frame.tag, frame.body.take (frame.body.length % 2 ^ 32)⟩),
        frame.body.drop (frame.body.length % 2 ^ 32) ++ more) := by
  obtain ⟨b₀, b₁, b₂, b₃, hbytes, hlen⟩ := exists_toBeBytes frame.body.length
  have hle : frame.body.length % 2 ^ 32 ≤ frame.body.length := Nat.mod_le _ _
  unfold bytes
  rw [hbytes, List.cons_append, List.append_assoc]
  simp only [List.cons_append, List.nil_append, decode, hlen, FrameTag.tryFrom_toByte]
  split
  · rfl
  · rw [if_neg (by rw [List.length_append]; omega), List.take_append_of_le_length hle,
      List.drop_append_of_le_length hle]

/-- **What a call of the decoder says about the buffer.** An item is a frame off its front; a wait
and an error leave it, and an error does not depend on the bytes still to come. -/
theorem decode_cases (src : List UInt8) :
    (∃ (frame : Frame) (rest : List UInt8), decode src = (.ok (some frame), rest) ∧
      src = bytes frame ++ rest ∧ frame.Fits) ∨
    decode src = (.ok none, src) ∨
    ∃ e, decode src = (.error e, src) ∧ ∀ more, decode (src ++ more) = (.error e, src ++ more) := by
  unfold decode
  split
  · next tagByte b₀ b₁ b₂ b₃ tail =>
    dsimp only
    by_cases hlarge : fromBeBytes b₀ b₁ b₂ b₃ > maxFrameSize
    · -- refused on the header alone
      rw [if_pos hlarge]
      exact Or.inr (Or.inr ⟨_, rfl, fun more => by rw [List.cons_append]; simp [hlarge]⟩)
    · rw [if_neg hlarge]
      by_cases hshort : tail.length < fromBeBytes b₀ b₁ b₂ b₃
      · -- the body has not arrived
        rw [if_pos hshort]
        exact Or.inr (Or.inl rfl)
      · rw [if_neg hshort]
        cases htag : FrameTag.tryFrom tagByte with
        | error e =>
          -- an unknown tag is found out when the body is there, and stays unknown
          refine Or.inr (Or.inr ⟨e, rfl, fun more => ?_⟩)
          have hlong : ¬ (tail ++ more).length < fromBeBytes b₀ b₁ b₂ b₃ := by
            rw [List.length_append]
            omega
          simp only [List.cons_append, hlarge, hlong, htag, if_false]
        | ok tag =>
          refine Or.inl ⟨_, _, rfl, ?_, ?_⟩
          · have hbody : (tail.take (fromBeBytes b₀ b₁ b₂ b₃)).length
                = fromBeBytes b₀ b₁ b₂ b₃ := by
              rw [List.length_take]
              omega
            unfold bytes
            dsimp only
            rw [hbody, toBeBytes_fromBeBytes, FrameTag.toByte_of_tryFrom htag, List.cons_append,
              List.append_assoc, List.take_append_drop]
            rfl
          · unfold Frame.Fits
            dsimp only
            rw [List.length_take]
            omega
  · -- the header has not arrived
    exact Or.inr (Or.inl rfl)

/-- What is taken is the encoding of the frame. -/
theorem decode_eq_some {src rest : List UInt8} {frame : Frame}
    (h : decode src = (.ok (some frame), rest)) : src = bytes frame ++ rest ∧ frame.Fits := by
  obtain ⟨frame', rest', h', hbytes, hfits⟩ | hwait | ⟨e, herr, -⟩ := decode_cases src
  · obtain ⟨hframe, rfl⟩ := Prod.mk.inj (h.symm.trans h')
    obtain rfl := Option.some.inj (Except.ok.inj hframe)
    exact ⟨hbytes, hfits⟩
  · exact absurd (Prod.mk.inj (h.symm.trans hwait)).1 (by simp)
  · exact absurd (Prod.mk.inj (h.symm.trans herr)).1 (by simp)

/-- Who waits has taken nothing. -/
theorem decode_eq_none {src rest : List UInt8} (h : decode src = (.ok none, rest)) : rest = src := by
  obtain ⟨frame, rest', h', -⟩ | hwait | ⟨e, herr, -⟩ := decode_cases src
  · exact absurd (Prod.mk.inj (h.symm.trans h')).1 (by simp)
  · exact (Prod.mk.inj (h.symm.trans hwait)).2
  · exact absurd (Prod.mk.inj (h.symm.trans herr)).1 (by simp)

/-- Who fails has taken nothing, and more bytes do not help. -/
theorem decode_eq_error {src rest : List UInt8} {e : ProtoError}
    (h : decode src = (.error e, rest)) :
    rest = src ∧ ∀ more, decode (src ++ more) = (.error e, src ++ more) := by
  obtain ⟨frame, rest', h', -⟩ | hwait | ⟨e', herr, hstays⟩ := decode_cases src
  · exact absurd (Prod.mk.inj (h.symm.trans h')).1 (by simp)
  · exact absurd (Prod.mk.inj (h.symm.trans hwait)).1 (by simp)
  · obtain ⟨he, hrest⟩ := Prod.mk.inj (h.symm.trans herr)
    obtain rfl := Except.error.inj he
    exact ⟨hrest, hstays⟩

/-- A frame within the limit is taken off the front of a buffer. -/
theorem decode_of_fits {frame : Frame} (hfits : frame.Fits) (more : List UInt8) :
    decode (bytes frame ++ more) = (.ok (some frame), more) := by
  unfold Frame.Fits maxFrameSize at hfits
  have hlen : frame.body.length % 2 ^ 32 = frame.body.length := Nat.mod_eq_of_lt (by omega)
  rw [decode_bytes_append, hlen, if_neg (by unfold maxFrameSize; omega), List.take_length,
    List.drop_length]
  rfl

theorem bytes_length (frame : Frame) : (bytes frame).length = frame.body.length + 5 := by
  obtain ⟨b₀, b₁, b₂, b₃, hbytes, -⟩ := exists_toBeBytes frame.body.length
  unfold bytes
  rw [hbytes, List.length_cons, List.length_append]
  simp only [List.length_cons, List.length_nil]
  omega

/-- Inside a frame the decoder waits: it would have taken the frame, or failed on it, too. -/
theorem decode_inside {frame : Frame} {p : List UInt8} (hfits : frame.Fits)
    (hp : p <+: bytes frame) (hne : p ≠ bytes frame) : decode p = (.ok none, p) := by
  obtain ⟨more, hmore⟩ := hp
  have hwhole := decode_of_fits hfits []
  rw [List.append_nil, ← hmore] at hwhole
  obtain ⟨frame', rest, -, hbytes, hfits'⟩ | hwait | ⟨e, -, hstays⟩ := decode_cases p
  · -- the frame it would take is the frame there is, so nothing was cut off
    have htaken := decode_of_fits hfits' (rest ++ more)
    rw [← List.append_assoc, ← hbytes, hwhole] at htaken
    obtain ⟨hframe, hnil⟩ := Prod.mk.inj htaken
    have hrest : more = [] := (List.append_eq_nil_iff.mp hnil.symm).2
    rw [hrest, List.append_nil] at hmore
    exact absurd hmore hne
  · exact hwait
  · -- an error would have stayed
    rw [hstays more] at hwhole
    exact absurd (Prod.mk.inj hwhole).1 (by simp)

end FrameCodec

open FrameCodec

/-- The frame decoder does not change its mind. -/
theorem frameCodec_incremental : Incremental decode where
  progress h := by
    -- an encoding has a header
    rw [(decode_eq_some h).1, List.length_append, bytes_length]
    omega
  waits := decode_eq_none
  fails h := (decode_eq_error h).1
  empty := rfl
  item_append more h := by
    obtain ⟨hbytes, hfits⟩ := decode_eq_some h
    rw [hbytes, List.append_assoc]
    exact decode_of_fits hfits _
  error_append more h := by
    obtain ⟨rfl, hstays⟩ := decode_eq_error h
    exact hstays more

/-- The frame decoder reads the encodings of frames within the limit. -/
theorem frameCodec_reads : Reads decode bytes Frame.Fits where
  sound := decode_eq_some
  complete rest hfits := decode_of_fits hfits rest
  inside hfits hp hne := decode_inside hfits hp hne

/-! ### The grammar of a stream of frames -/

/-- The decoder runs until it waits or fails: a drain ends where the next call would not take a
frame. -/
theorem drain_exhausts (b : List UInt8) :
    ((Decoder.drain decode b).error = none →
      decode (Decoder.drain decode b).rest = (.ok none, (Decoder.drain decode b).rest)) ∧
    ∀ e, (Decoder.drain decode b).error = some e →
      decode (Decoder.drain decode b).rest = (.error e, (Decoder.drain decode b).rest) := by
  refine ⟨frameCodec_incremental.waits_at_rest b, fun e => ?_⟩
  refine frameCodec_incremental.drain_induction
    (P := fun _ r => r.error = some e → decode r.rest = (.error e, r.rest)) ?_ ?_ ?_ b
  · intro buf _ herr
    exact absurd herr (by simp)
  · intro buf e' hbuf herr
    rw [← Option.some.inj herr]
    exact hbuf
  · intro buf frame rest _ ih herr
    exact ih herr

/-- **The decoder accepts exactly the frame grammar.** However the bytes are cut into chunks, the
frames, the error and the bytes left over are those of the whole; the frames taken and the bytes
left over make up the bytes; the decoder was called until it waited or failed, which takes no byte;
and encodings of frames within the limit, broken off inside the next one, are taken apart again. -/
theorem decode_grammar :
    (∀ (b : List UInt8) (chunks : List (List UInt8)), chunks.flatten = b →
      Decoder.feed decode [] chunks = Decoder.drain decode b) ∧
    (∀ b : List UInt8,
      b = (Decoder.drain decode b).items.flatMap bytes ++ (Decoder.drain decode b).rest) ∧
    (∀ b : List UInt8,
      ((Decoder.drain decode b).error = none →
        decode (Decoder.drain decode b).rest = (.ok none, (Decoder.drain decode b).rest)) ∧
      ∀ e, (Decoder.drain decode b).error = some e →
        decode (Decoder.drain decode b).rest = (.error e, (Decoder.drain decode b).rest)) ∧
    (∀ b rest : List UInt8, decode b = (.ok none, rest) → rest = b) ∧
    (∀ (b rest : List UInt8) (e : ProtoError), decode b = (.error e, rest) → rest = b) ∧
    (∀ (frames : List Frame) (next : Frame) (p : List UInt8), (∀ f ∈ frames, f.Fits) →
      next.Fits → p <+: bytes next → p ≠ bytes next →
        Decoder.drain decode (frames.flatMap bytes ++ p) = ⟨frames, none, p⟩) := by
  refine ⟨?_, frameCodec_reads.items_append_rest frameCodec_incremental, drain_exhausts,
    fun _ _ => frameCodec_incremental.waits, fun _ _ _ => frameCodec_incremental.fails, ?_⟩
  · rintro b chunks rfl
    exact frameCodec_incremental.feed_eq_drain chunks
  · intro frames next p hframes hnext hp hne
    exact frameCodec_reads.drain_eq frameCodec_incremental hframes hnext hp hne

/-- Two pings and the first bytes of a third, cut in the middle of the second. -/
theorem decode_grammar_pings :
    Decoder.feed decode [] [[0x30, 0, 0, 0, 0, 0x30, 0], [0, 0, 0, 0x30, 0]]
      = ⟨[⟨.ping, []⟩, ⟨.ping, []⟩], none, [0x30, 0]⟩ := by
  obtain ⟨hchunks, -, -, -, -, hframes⟩ := decode_grammar
  rw [hchunks _ _ rfl]
  refine hframes [⟨.ping, []⟩, ⟨.ping, []⟩] ⟨.ping, []⟩ [0x30, 0] ?_ (by decide) ?_ (by decide)
  · intro frame hframe
    rcases List.mem_cons.mp hframe with rfl | hframe
    · decide
    · obtain rfl := List.mem_singleton.mp hframe
      decide
  · exact ⟨[0, 0, 0], rfl⟩

/-- **What the encoder writes is accepted exactly if the body is within the limit.** Above it the
header is refused; from `2 ^ 32` bytes on the cast length may pass the check, and the frame that is
then read is a shorter one. -/
theorem decode_encode_iff (frame : Frame) (dst : List UInt8) (h : encode frame [] = .ok dst) :
    decode dst = (.ok (some frame), []) ↔ frame.body.length ≤ maxFrameSize := by
  obtain rfl := Except.ok.inj h
  rw [List.nil_append]
  constructor
  · intro hdecode
    have hframe := (frameCodec_reads.sound hdecode).2
    exact hframe
  · intro hfits
    have hdecode : decode (bytes frame ++ []) = (.ok (some frame), []) := decode_of_fits hfits []
    rwa [List.append_nil] at hdecode

theorem decode_encode_iff_ping : decode [0x30, 0, 0, 0, 0] = (.ok (some ⟨.ping, []⟩), []) :=
  (decode_encode_iff ⟨.ping, []⟩ [0x30, 0, 0, 0, 0] rfl).mpr (by decide)

end StateMaster
