import StateMaster.Sdk.Connect

/-!
# Connecting again

`connect_with_retry` calls `Connection::connect` until a call succeeds, at most `max_retries + 1` times,
and sleeps between two calls: 100 ms at first, twice as long after every call up to 6.4 s, and up to half
of that on top. `retrying` is the loop, one label for each call; what a call returns is decided by a
handshake of its own.

* `RetryFact` — what holds after every round;
* `retries_settle` — the calls and the waits are bounded, and a connection is only returned to a client
  with a token of the list.
-/

open Framework

namespace StateMaster

namespace Sdk

/-! ### The loop -/

/-- An attempt of `connect_with_retry`: what `connect` returned, and the jitter drawn if another is to
follow. -/
structure Attempt where
  outcome : Except ConnectError Unit
  jitter : ℕ

/-- `base_ms`, after the attempt of this number. -/
def baseMs (attempt : ℕ) : ℕ := 100 * 2 ^ min attempt 6

/-- The variables of `connect_with_retry`, the milliseconds it slept, and what it returned. -/
structure Retrying where
  attempt : ℕ
  lastErr : ConnectError
  slept : List ℕ
  result : Option (Except ConnectError Unit)

def Retrying.initial : Retrying := ⟨0, .internal "no attempts made", [], none⟩

/-- One round of the loop, and the condition of the next. -/
def Retrying.step (maxRetries : ℕ) (s : Retrying) (a : Attempt) : Option Retrying :=
  match s.result, a.outcome with
  | some _, _ => none
  | none, .ok () => some { s with result := some (.ok ()) }
  | none, .error e =>
    let attempt := (s.attempt + 1) % 2 ^ 32
    let result := if attempt ≤ maxRetries then none else some (.error e)
    if s.attempt < maxRetries then
      -- the jitter is drawn from `0..base_ms / 2 + 1`
      if a.jitter < baseMs s.attempt / 2 + 1 then
        some ⟨attempt, e, s.slept ++ [baseMs s.attempt + a.jitter], result⟩
      else none
    else some ⟨attempt, e, s.slept, result⟩

def retrying (maxRetries : ℕ) : System Retrying Attempt where
  step := Retrying.step maxRetries

/-- The loop after some attempts: what it slept, what it returned, and how many attempts there were. -/
structure RetryFact (maxRetries : ℕ) (attempts : List Attempt) (s : Retrying) : Prop where
  slept : ∀ i ms, s.slept[i]? = some ms → baseMs i ≤ ms ∧ 2 * ms ≤ 3 * baseMs i
  last : ∀ result, s.result = some result →
    ∃ a, attempts.getLast? = some a ∧ a.outcome = result
  count : match s.result with
    | none => attempts.length = s.attempt ∧ s.attempt ≤ maxRetries ∧ s.slept.length = s.attempt
    | some (.ok _) => attempts.length = s.attempt + 1 ∧ s.attempt ≤ maxRetries ∧
        s.slept.length = s.attempt
    | some (.error _) => attempts.length = maxRetries + 1 ∧ s.slept.length = maxRetries

theorem RetryFact.step {maxRetries : ℕ} (hmax : maxRetries + 1 < 2 ^ 32) {attempts : List Attempt}
    {s s' : Retrying} {a : Attempt} (hs : RetryFact maxRetries attempts s)
    (hstep : (retrying maxRetries).step s a = some s') :
    RetryFact maxRetries (attempts ++ [a]) s' := by
  obtain ⟨hslept, -, hcount⟩ := hs
  obtain ⟨attempt, lastErr, slept, result⟩ := s
  obtain ⟨outcome, jitter⟩ := a
  cases result with
  | some result => exact absurd hstep (by simp [retrying, Retrying.step])
  | none =>
    obtain ⟨hlen, hle, hsleptLen⟩ := hcount
    dsimp only at hlen hle hsleptLen hslept
    cases outcome with
    | ok _ =>
      obtain rfl := Option.some.inj hstep
      refine ⟨hslept, fun result hresult => ?_, ?_⟩
      · exact ⟨_, List.getLast?_concat, Option.some.inj hresult⟩
      · exact ⟨by simp [hlen], hle, hsleptLen⟩
    | error e =>
      have hmod : (attempt + 1) % 2 ^ 32 = attempt + 1 := Nat.mod_eq_of_lt (by omega)
      dsimp only [retrying, Retrying.step] at hstep
      rw [hmod] at hstep
      by_cases hlt : attempt < maxRetries
      · rw [if_pos hlt] at hstep
        split at hstep
        case isTrue hjitter =>
          rw [if_pos (show attempt + 1 ≤ maxRetries by omega)] at hstep
          obtain rfl := Option.some.inj hstep
          refine ⟨fun i ms hi => ?_, by simp, ?_⟩
          · rcases getElem?_concat_cases hi with hi | ⟨rfl, rfl⟩
            · exact hslept i ms hi
            · rw [hsleptLen]
              omega
          · simp [hlen, hsleptLen]
            omega
        case isFalse => exact absurd hstep (by simp)
      · rw [if_neg hlt, if_neg (by omega)] at hstep
        obtain rfl := Option.some.inj hstep
        refine ⟨hslept, fun result hresult => ?_, ?_⟩
        · exact ⟨_, List.getLast?_concat, Option.some.inj hresult⟩
        · simp [hlen, hsleptLen]
          omega

theorem retryFact_of_run {maxRetries : ℕ} (hmax : maxRetries + 1 < 2 ^ 32) {attempts : List Attempt}
    {s : Retrying} (hrun : (retrying maxRetries).exec .initial attempts = some s) :
    RetryFact maxRetries attempts s := by
  have hinit : RetryFact maxRetries [] .initial :=
    ⟨by simp [Retrying.initial], by simp [Retrying.initial], rfl, Nat.zero_le _, rfl⟩
  exact System.exec_induction_labels hinit (fun _ _ _ _ _ hs hstep => hs.step hmax hstep) hrun

end Sdk

section Retries

open Sdk
open Wire (ServerConfig)

/-- **Retries are bounded and spaced.** With fewer than `u32::MAX` retries, each attempt a handshake
with a server of the same tokens: `connect_with_retry` connects no more than `max_retries + 1` times and
gives up only then, with the error of the last attempt; the wait after attempt `i` is between 1 and 1.5
times `100 · 2 ^ min i 6` milliseconds, and there is none after the last; it returns a connection only
to a client with a token of the list. -/
theorem retries_settle {cfg : ServerConfig} {client : ClientConfig} {F : Formats}
    (hF : F.codec.Lawful) {maxRetries : ℕ} (hmax : maxRetries + 1 < 2 ^ 32)
    {attempts : List Attempt} {s : Retrying}
    (hrun : (retrying maxRetries).exec .initial attempts = some s)
    (hattempts : ∀ a ∈ attempts, ∃ state stream ls m,
      (meeting cfg client F).exec (.initial state stream) ls = some m ∧
      m.client = .returned a.outcome) :
    attempts.length ≤ maxRetries + 1 ∧
    (∀ e, s.result = some (.error e) → attempts.length = maxRetries + 1 ∧
      ∃ a, attempts.getLast? = some a ∧ a.outcome = .error e) ∧
    (s.result = some (.ok ()) → client.token ∈ cfg.authTokens) ∧
    s.slept.length ≤ maxRetries ∧
    ∀ i ms, s.slept[i]? = some ms → baseMs i ≤ ms ∧ 2 * ms ≤ 3 * baseMs i := by
  have hs := retryFact_of_run hmax hrun
  have hcount := hs.count
  refine ⟨?_, fun e he => ?_, fun hok => ?_, ?_, hs.slept⟩
  · split at hcount <;> omega
  · rw [he] at hcount
    exact ⟨hcount.1, hs.last _ he⟩
  · -- the attempt that succeeded was a handshake
    obtain ⟨a, ha, houtcome⟩ := hs.last _ hok
    obtain ⟨state, stream, ls, m, hm, hc⟩ := hattempts a (List.mem_of_getLast? ha)
    rw [houtcome] at hc
    exact ((meetingInvariant_of_run hF hm).connected hc).1
  · split at hcount <;> omega

/-- The first call finds no server, the second is let in. -/
def secondTry : List Attempt := [⟨.error (.connectionFailed "refused"), 50⟩, ⟨.ok (), 0⟩]

theorem retries_settle_secondTry :
    ∃ s, (retrying 3).exec .initial secondTry = some s ∧ s.result = some (.ok ()) ∧
      s.slept = [150] ∧ tokenBearer.token ∈ Wire.oneToken.authTokens := by
  have heval : ((meeting Wire.oneToken tokenBearer Wire.firstDay).exec (.initial .initial .initial)
      goodHandshake).map Meeting.client = some (.returned (.ok ())) := by decide +kernel
  obtain ⟨m, hm, hc⟩ := Option.map_eq_some_iff.mp heval
  have hmax : 3 + 1 < 2 ^ 32 := by decide
  have hrun : (retrying 3).exec .initial secondTry
      = some ⟨1, .connectionFailed "refused", [150], some (.ok ())⟩ := rfl
  refine ⟨_, hrun, rfl, rfl, (retries_settle Wire.firstDay_lawful hmax hrun ?_).2.2.1 rfl⟩
  simp only [secondTry, List.forall_mem_cons]
  refine ⟨⟨.initial, .initial, [.dial (some "refused")], _, rfl, rfl⟩, ?_, by simp⟩
  exact ⟨.initial, .initial, goodHandshake, m, hm, hc⟩

end Retries

end StateMaster
