import StateMaster.Sdk.Senders

/-!
# What a failed subscribe leaves behind

`Client::subscribe` stores its sender first, and then has six ways to fail: its message cannot be
encoded, the connection is dead, the frame cannot be written, no reply comes in time, the server
refuses, or the reply has an unexpected tag. The sender is taken back in one of them only, when the
server refuses. The two `?` in its body and the last arm of its `match` return without looking at the
map.

The call can be interleaved with anything else on the connection, and may be made in any state of
it. What is assumed is that the id it draws is its own.

* `ConnectionStep.entry_of_ne` — no step of the call touches the entries of others;
* `failed_subscribe_iff` — its own is gone exactly after a refusal.
-/

open Framework

namespace StateMaster

namespace Sdk

open Wire

/-- The call a label is a step of. -/
def ConnectionLabel.ofCall : ConnectionLabel → Option ℕ
  | .invoke i _ | .register i | .write i _ | .poll i | .expire i | .dropReceiver i | .remove i
  | .subscribe i _ _ _ | .conclude i => some i
  | .arrive _ | .exit | .next _ => none

section Runs

variable {F : Formats} {s₀ s : Connection} {i : ℕ} {id : String} {more : List ConnectionLabel}

/-- **The steps of a call touch no entry but its own.** -/
theorem ConnectionStep.entry_of_ne {s s' : Connection} {l : ConnectionLabel}
    (h : ConnectionStep F s l s') (hcall : l.ofCall = some i)
    (hid : (s.subscribing i).id? = some id ∨ ∃ q e, l = .subscribe i q id e) {id' : String}
    (hne : id' ≠ id) : s'.state.subscriptions[id']? = s.state.subscriptions[id']? := by
  rcases h.entry_cases id' with heq | ⟨j, q, e, rfl⟩ | ⟨j, rfl, hreq⟩
  · exact heq
  · obtain rfl : j = i := Option.some.inj hcall
    rcases hid with hid | ⟨q', e', heq⟩
    · -- a call that has drawn its id draws no other
      cases h with
      | subscribe _ _ _ _ hsub | subscribeFails _ _ _ _ hsub =>
        rw [hsub] at hid
        exact absurd hid (by simp [Subscribing.id?])
    · exact absurd (ConnectionLabel.subscribe.inj heq).2.2.1 hne
  · obtain rfl : j = i := Option.some.inj hcall
    rcases hid with hid | ⟨q', e', heq⟩
    · rw [hreq] at hid
      exact absurd (Option.some.inj hid) hne
    · exact absurd heq (by simp)

/-- **What a failed subscribe leaves behind.** A call of `Client::subscribe` made in any state of the
connection draws an id that nobody else uses, and returns an error. Then its sender is out of the
map exactly if the message could be encoded and the reply was a `Rejection` or an `Error`. No step of
the call touches the entry of another id. -/
theorem failed_subscribe_iff {q : ℕ} {encodeError : Option String} {e : SubscribeError}
    (hrun : (connection F).exec s₀ (.subscribe i q id encodeError :: more) = some s)
    (hfailed : s.subscribing i = .failed id e) (hdrawn : ∀ j, s₀.subscribing j ≠ .requesting id)
    (hown : ∀ j q' e', ConnectionLabel.subscribe j q' id e' ∉ more) :
    (s.state.subscriptions[id]? = none ↔ encodeError = none ∧ ∃ k a,
      s.calls i = .returned k (.ok a) ∧ (a.frame.tag = .rejection ∨ a.frame.tag = .error)) ∧
    ∀ n l t t', (ConnectionLabel.subscribe i q id encodeError :: more)[n]? = some l →
      l.ofCall = some i →
      (connection F).stateAt s₀ (.subscribe i q id encodeError :: more) n = some t →
      (connection F).stateAt s₀ (.subscribe i q id encodeError :: more) (n + 1) = some t' →
      ∀ id', id' ≠ id → t'.state.subscriptions[id']? = t.state.subscriptions[id']? := by
  obtain ⟨s₁, hstep, hrest⟩ := Option.bind_eq_some_iff.mp hrun
  have hsound := connection_sound hstep
  have hid₁ : (s₁.subscribing i).id? = some id := by
    cases hsound with
    | subscribe | subscribeFails => exact congrArg _ (Function.update_self ..)
  constructor
  · rcases sender_of_subscribe hrun hdrawn hown with
      ⟨hnone, hencoded, e', k, a, -, hcall, htag⟩ | ⟨hheld, hnot⟩
    · exact iff_of_true hnone ⟨hencoded, k, a, hcall, htag⟩
    · refine iff_of_false (by simp [hheld]) ?_
      rintro ⟨hencoded, k, a, hcall, htag⟩
      exact hnot ⟨hencoded, e, k, a, hfailed, hcall, htag⟩
  · intro n l t t' hl hcall ht ht' id' hne
    refine (connection_sound (System.step_of_stateAt hl ht ht')).entry_of_ne hcall ?_ hne
    cases n with
    | zero =>
      obtain rfl := Option.some.inj hl
      exact Or.inr ⟨q, encodeError, rfl⟩
    | succ n =>
      -- from its first step on, the call has its id
      unfold System.stateAt at ht
      rw [List.take_succ_cons, System.exec_cons, hstep, Option.bind_some] at ht
      exact Or.inl (drawn_of_run hid₁ ht)

end Runs

/-- A failed subscribe leaves its sender behind on a dead connection, after an encoding error, after
a failed write and after a timeout. -/
theorem not_failed_subscribe_clean :
    ((connection firstDay).exec Connection.new
        [.exit, .subscribe 0 1 "s" none, .register 0, .conclude 0]).map
      (fun s => (s.subscribing 0, s.state.subscriptions["s"]?))
        = some (.failed "s" (.request .disconnected), some 0) ∧
    ((connection firstDay).exec Connection.new [.subscribe 0 1 "s" (some "too large")]).map
      (fun s => (s.subscribing 0, s.state.subscriptions["s"]?))
        = some (.failed "s" (.reply (.proto (.serializationError "too large"))), some 0) ∧
    ((connection firstDay).exec Connection.new
        [.subscribe 0 1 "s" none, .register 0, .write 0 false, .conclude 0]).map
      (fun s => (s.subscribing 0, s.state.subscriptions["s"]?))
        = some (.failed "s" (.request .disconnected), some 0) ∧
    ((connection firstDay).exec Connection.new
        [.subscribe 0 1 "s" none, .register 0, .write 0 true, .expire 0, .dropReceiver 0, .remove 0,
          .conclude 0]).map
      (fun s => (s.subscribing 0, s.state.subscriptions["s"]?))
        = some (.failed "s" (.request .timeout), some 0) := by
  refine ⟨?_, ?_, ?_, ?_⟩
  all_goals decide

/-- A refusal takes the sender back out. -/
theorem failed_subscribe_iff_refused : ∃ s e,
    (connection firstDay).exec Connection.new refusedThenClosed = some s ∧
      s.subscribing 0 = .failed "s" e ∧ s.state.subscriptions["s"]? = none := by
  have heval : ((connection firstDay).exec Connection.new refusedThenClosed).map
      (fun s => (s.subscribing 0, s.calls 0))
      = some (.failed "s" (.reply (refusal firstDay
          (makeRejectionFrame firstDay HandlerFaults.none 1 .shuttingDown))),
        .returned 1 (.ok ⟨0, makeRejectionFrame firstDay HandlerFaults.none 1 .shuttingDown⟩)) := by
    decide
  obtain ⟨s, hrun, hs⟩ := Option.map_eq_some_iff.mp heval
  obtain ⟨hfailed, hcall⟩ := Prod.mk.inj hs
  refine ⟨s, _, hrun, hfailed, ?_⟩
  have hown : ∀ j q e, ConnectionLabel.subscribe j q "s" e ∉ refusedThenClosed.tail := by
    intro j q e hmem
    simp [refusedThenClosed] at hmem
  have hrun' : (connection firstDay).exec Connection.new
      (.subscribe 0 1 "s" none :: refusedThenClosed.tail) = some s := hrun
  exact (failed_subscribe_iff hrun' hfailed (fun _ => nofun) hown).1.mpr
    ⟨rfl, 1, _, hcall, Or.inl rfl⟩

end Sdk

end StateMaster
