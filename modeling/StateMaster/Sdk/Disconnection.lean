import StateMaster.Sdk.Senders

/-!
# Subscriptions on a dead connection

`Subscription::next` returns `None` when its channel is empty and no sender is left. When the reader
exits it drops the senders of the pending calls, but not those of subscriptions; nor does
`Client::subscribe` look whether the connection is dead before it stores one. So a sender is gone only
because its call was refused.

* `waits_forever`, `drains_then_none` — what `next` does with its sender there, and without it;
* `subscriptions_end_iff` — a dead connection has no sender left exactly if every call of
  `Client::subscribe` was refused before the reader exited.
-/

open Framework

namespace StateMaster

namespace Sdk

open Wire

section Steps

variable {F : Formats} {s s' : Connection} {l : ConnectionLabel}

theorem ConnectionStep.exited (h : ConnectionStep F s .exit s') :
    s'.state.dead = true ∧ s'.state.subscriptions = s.state.subscriptions := by
  cases h
  exact ⟨rfl, rfl⟩

/-- On a dead connection nothing enters a channel. -/
theorem ConnectionStep.queue_of_dead (h : ConnectionStep F s l s') (hdead : s.state.dead = true)
    {i : ℕ} (hi : s.queues i = []) : s'.queues i = [] := by
  have hupdate : ∀ j, Function.update s.queues j [] i = [] := by
    intro j
    obtain rfl | hne := eq_or_ne i j
    · exact Function.update_self ..
    · exact (Function.update_of_ne hne ..).trans hi
  cases h with
  | subscribe j | subscribeFails j => exact hupdate j
  | nextRecord j id record rest hsub hqueue =>
    obtain rfl | hne := eq_or_ne i j
    · exact absurd (hi.symm.trans hqueue) (by simp)
    · exact (Function.update_of_ne hne ..).trans hi
  | record frame msg j hdead' => exact absurd (hdead.symm.trans hdead') (by simp)
  | _ => exact hi

end Steps

section Runs

variable {F : Formats} {s : Connection} {ls : List ConnectionLabel}

/-- **On a dead connection a consumer waits forever** once its channel is empty. -/
theorem waits_forever (hrun : (connection F).exec Connection.new ls = some s)
    {more : List ConnectionLabel} {s' : Connection} (hown : OwnSubscriptionIds (ls ++ more))
    (hmore : (connection F).exec s more = some s') (hdead : s.state.dead = true) {i : ℕ}
    {id : String} (hi : s.subscribing i = .active id) (hqueue : s.queues i = []) :
    (connection F).step s' (.next i) = none := by
  have hrun' : (connection F).exec Connection.new (ls ++ more) = some s' := by
    rw [System.exec_append, hrun]
    exact hmore
  obtain ⟨-, hi', hqueue'⟩ : s'.state.dead = true ∧ s'.subscribing i = .active id ∧
      s'.queues i = [] := by
    refine System.exec_stable (I := fun t => t.state.dead = true ∧ t.subscribing i = .active id ∧
      t.queues i = []) ?_ hmore ⟨hdead, hi, hqueue⟩
    -- the reader is gone, and with it whoever could push
    rintro t l t' ⟨hdead, hi, hqueue⟩ hstep
    have hstep := connection_sound hstep
    exact ⟨hstep.dead hdead, hstep.active hi, hstep.queue_of_dead hdead hqueue⟩
  have hheld : s'.state.subscriptions[id]? = some i :=
    sender_held_of_run hrun' hown (by rw [hi']; rfl) (by rw [hi']; rfl)
  change s'.step F (.next i) = none
  simp only [Connection.step, hi', hqueue', if_pos hheld]

/-- **Without a sender `next` returns what is queued, and then `None`.** -/
theorem drains_then_none (F : Formats) {i : ℕ} {id : String} {queue : List ChangeRecord}
    (hi : s.subscribing i = .active id) (hgone : s.state.subscriptions[id]? ≠ some i)
    (hqueue : s.queues i = queue) :
    ∃ s', (connection F).exec s (List.replicate (queue.length + 1) (.next i)) = some s' ∧
      s'.yielded i = s.yielded i ++ queue.map some ++ [none] := by
  induction queue generalizing s with
  | nil =>
    refine ⟨{ s with yielded := Function.update s.yielded i (s.yielded i ++ [none]) }, ?_, ?_⟩
    · change (s.step F (.next i)).bind some = _
      simp only [Connection.step, hi, hqueue, if_neg hgone, Option.bind_some]
    · change Function.update s.yielded i (s.yielded i ++ [none]) i = _
      rw [Function.update_self, List.map_nil, List.append_nil]
  | cons record rest ih =>
    obtain ⟨s', hs', hyielded⟩ := ih
      (s := { s with queues := Function.update s.queues i rest
                     yielded := Function.update s.yielded i (s.yielded i ++ [some record]) })
      hi hgone (Function.update_self ..)
    refine ⟨s', ?_, ?_⟩
    · rw [List.length_cons, List.replicate_succ, System.exec_cons]
      change (s.step F (.next i)).bind _ = _
      simp only [Connection.step, hi, hqueue, Option.bind_some]
      exact hs'
    · rw [hyielded]
      change Function.update s.yielded i (s.yielded i ++ [some record]) i ++ _ ++ _ = _
      rw [Function.update_self, List.append_assoc (s.yielded i) [some record]]
      rfl

/-- A connection is dead because its reader exited. -/
theorem exit_of_dead (hrun : (connection F).exec Connection.new ls = some s)
    (hdead : s.state.dead = true) : ConnectionLabel.exit ∈ ls := by
  refine System.exec_induction_labels
    (I := fun ls s => s.state.dead = true → ConnectionLabel.exit ∈ ls) ?_ ?_ hrun hdead
  · exact fun hdead => absurd hdead Bool.false_ne_true
  · intro ls s l s' _ ih hstep hdead
    cases connection_sound hstep with
    | exit => exact List.mem_append_right _ (List.mem_singleton_self _)
    | _ => exact List.mem_append_left _ (ih hdead)

/-- If a dead connection never has a sender, every call was made and refused before the exit. -/
theorem refused_of_no_sender (hrun : (connection F).exec Connection.new ls = some s)
    (hown : OwnSubscriptionIds ls)
    (hempty : ∀ n sn, (connection F).stateAt Connection.new ls n = some sn → sn.state.dead = true →
      sn.state.subscriptions = ∅) {n : ℕ} {sn : Connection} (hl : ls[n]? = some .exit)
    (hn : (connection F).stateAt Connection.new ls n = some sn) {m i q : ℕ} {id : String}
    {e : Option String} (hm : ls[m]? = some (.subscribe i q id e)) :
    m < n ∧ e = none ∧ sn.Refused i id := by
  obtain ⟨t, ht, -⟩ := System.exec_split hrun (n + 1)
  obtain ⟨hdead, hsame⟩ := (connection_sound (System.step_of_stateAt hl hn ht)).exited
  have hmn : m ≠ n := by
    rintro rfl
    exact absurd (Option.some.inj (hl.symm.trans hm)) (by simp)
  rcases lt_or_gt_of_ne hmn with hlt | hgt
  · -- its sender is gone by the time the reader exits
    have hmem : ConnectionLabel.subscribe i q id e ∈ ls.take n :=
      List.mem_of_getElem? ((List.getElem?_take_of_lt hlt).trans hm)
    have hgone : sn.state.subscriptions = ∅ := hsame ▸ hempty (n + 1) t ht hdead
    rcases sender_of_run hn (hown.mono (List.take_subset n ls)) hmem with ⟨-, h⟩ | ⟨hheld, -⟩
    · exact ⟨hlt, h⟩
    · rw [hgone] at hheld
      exact absurd hheld (by simp)
  · -- a sender stored on a dead connection is one too many
    obtain ⟨u, hu, -⟩ := System.exec_split hrun m
    obtain ⟨u', hu', -⟩ := System.exec_split hrun (m + 1)
    have hdead' : u.state.dead = true := System.stateAt_stable
      (I := fun t => t.state.dead = true) (fun _ _ _ ht hstep => (connection_sound hstep).dead ht)
      (Nat.succ_le_of_lt hgt) ht hu hdead
    obtain ⟨hstored, hkept⟩ := (connection_sound (System.step_of_stateAt hm hu hu')).subscribed
    rw [hempty (m + 1) u' hu' (hkept.trans hdead')] at hstored
    exact absurd hstored (by simp)

/-- If every call was made and refused before the exit, a dead connection has no sender. -/
theorem no_sender_of_refused (hrun : (connection F).exec Connection.new ls = some s)
    (hown : OwnSubscriptionIds ls)
    (hrefused : ∀ n sn, ls[n]? = some .exit → (connection F).stateAt Connection.new ls n = some sn →
      ∀ m i q id e, ls[m]? = some (.subscribe i q id e) → m < n ∧ e = none ∧ sn.Refused i id)
    {n : ℕ} {sn : Connection} (hn : (connection F).stateAt Connection.new ls n = some sn)
    (hdead : sn.state.dead = true) : sn.state.subscriptions = ∅ := by
  obtain ⟨k, hk⟩ := List.mem_iff_getElem?.mp (exit_of_dead hn hdead)
  have hkn : k < n := by
    have hlen := (List.getElem?_eq_some_iff.mp hk).1
    rw [List.length_take] at hlen
    omega
  rw [List.getElem?_take_of_lt hkn] at hk
  obtain ⟨t, ht, -⟩ := System.exec_split hrun k
  -- whoever has an entry has subscribed, and was refused
  refine Std.ExtTreeMap.ext_getElem? fun id => ?_
  cases hentry : sn.state.subscriptions[id]? with
  | none => simp
  | some i =>
    obtain ⟨q, e, hmem⟩ := subscribed_of_run hn (owner_of_run hn hentry)
    obtain ⟨m, hm⟩ := List.mem_iff_getElem?.mp (List.mem_of_mem_take hmem)
    obtain ⟨-, hencoded, hrefused⟩ := hrefused k t hk ht m i q id e hm
    have hstill : sn.Refused i id := System.stateAt_stable (I := fun t => t.Refused i id)
      (fun _ _ _ ht hstep => (connection_sound hstep).refused_kept ht) hkn.le ht hn hrefused
    rcases sender_of_run hn (hown.mono (List.take_subset n ls)) hmem with ⟨hgone, -⟩ | ⟨-, hnot⟩
    · exact absurd (hentry.symm.trans hgone) (by simp)
    · exact absurd ⟨hencoded, hstill⟩ hnot

/-- **A dead connection has no sender left exactly if every call of `Client::subscribe` was refused
before the reader exited**: it was made, its message could be encoded, and it has returned with a
`Rejection` or an `Error` for a reply. A consumer whose sender is gone is told so; one whose sender is
left waits forever. -/
theorem subscriptions_end_iff (hrun : (connection F).exec Connection.new ls = some s)
    (hown : OwnSubscriptionIds ls) :
    ((∀ n sn, (connection F).stateAt Connection.new ls n = some sn → sn.state.dead = true →
        sn.state.subscriptions = ∅) ↔
      ∀ n sn, ls[n]? = some .exit → (connection F).stateAt Connection.new ls n = some sn →
        ∀ m i q id e, ls[m]? = some (.subscribe i q id e) →
          m < n ∧ e = none ∧ sn.Refused i id) ∧
    (∀ i id, s.subscribing i = .active id → s.state.subscriptions[id]? ≠ some i →
      ∃ s', (connection F).exec s (List.replicate ((s.queues i).length + 1) (.next i)) = some s' ∧
        s'.yielded i = s.yielded i ++ (s.queues i).map some ++ [none]) ∧
    ∀ more s' i id, OwnSubscriptionIds (ls ++ more) → (connection F).exec s more = some s' →
      s.state.dead = true → s.subscribing i = .active id → s.queues i = [] →
        (connection F).step s' (.next i) = none := by
  exact ⟨⟨fun hempty n sn hl hn m i q id e hm => refused_of_no_sender hrun hown hempty hl hn hm,
      fun hrefused n sn hn hdead => no_sender_of_refused hrun hown hrefused hn hdead⟩,
    fun i id hi hgone => drains_then_none F hi hgone rfl,
    fun more s' i id hown hmore hdead => waits_forever hrun hown hmore hdead⟩

end Runs

/-- A subscription is made, and the server closes the connection. -/
def subscribedThenClosed : List ConnectionLabel :=
  [.subscribe 0 1 "s" none, .register 0, .write 0 true, .arrive (nullResult 1), .poll 0,
    .conclude 0, .exit]

/-- The server closes the connection before the first subscription. -/
def closedThenSubscribed : List ConnectionLabel := [.exit, .subscribe 0 1 "s" none]

/-- A sender is left behind, another is added to a dead connection, and a consumer waits forever. -/
theorem not_subscriptions_end :
    (¬ ∀ (F : Formats) (ls : List ConnectionLabel) (s : Connection),
      (connection F).exec Connection.new ls = some s → s.state.dead = true →
        s.state.subscriptions = ∅) ∧
    (¬ ∀ (F : Formats) (ls more : List ConnectionLabel) (s s' : Connection),
      (connection F).exec Connection.new ls = some s → s.state.dead = true →
      s.state.subscriptions = ∅ → (connection F).exec s more = some s' →
        s'.state.subscriptions = ∅) ∧
    ∃ F ls s i id, (connection F).exec Connection.new ls = some s ∧ s.state.dead = true ∧
      s.subscribing i = .active id ∧ ∀ more s', OwnSubscriptionIds (ls ++ more) →
        (connection F).exec s more = some s' → (connection F).step s' (.next i) = none := by
  have hleft : ((connection firstDay).exec Connection.new subscribedThenClosed).map
      (fun s => (s.state.dead, s.state.subscriptions["s"]?, s.subscribing 0, s.queues 0))
      = some (true, some 0, .active "s", []) := by decide
  have hadded : ((connection firstDay).exec Connection.new closedThenSubscribed).map
      (fun s => s.state.subscriptions["s"]?) = some (some 0) := by decide
  obtain ⟨s, hrun, hs⟩ := Option.map_eq_some_iff.mp hleft
  simp only [Prod.mk.injEq] at hs
  obtain ⟨hdead, hsender, hactive, hqueue⟩ := hs
  refine ⟨fun hnone => ?_, fun hnone => ?_, firstDay, subscribedThenClosed, s, 0, "s", hrun,
    hdead, hactive, fun more s' hown hmore => waits_forever hrun hown hmore hdead hactive hqueue⟩
  · rw [hnone firstDay _ s hrun hdead] at hsender
    exact absurd hsender (by simp)
  · obtain ⟨s₂, hrun₂, hsender₂⟩ := Option.map_eq_some_iff.mp hadded
    have hexited : (connection firstDay).exec Connection.new [.exit]
        = some { Connection.new with state := ⟨∅, ∅, true⟩ } := rfl
    rw [hnone firstDay [.exit] [.subscribe 0 1 "s" none] _ s₂ hexited rfl rfl hrun₂] at hsender₂
    exact absurd hsender₂ (by simp)

theorem subscriptions_end_iff_refusedThenClosed : ∃ s,
    (connection firstDay).exec Connection.new refusedThenClosed = some s ∧ s.state.dead = true ∧
      s.state.subscriptions = ∅ := by
  have heval : ((connection firstDay).exec Connection.new refusedThenClosed).map
      (fun s => s.state.dead) = some true := by decide
  have hexit : ∀ k < 7, refusedThenClosed[k]? = some .exit → k = 6 := by decide
  have hreply : ((connection firstDay).stateAt Connection.new refusedThenClosed 6).map
      (fun s => (s.subscribing 0, s.calls 0))
      = some (.failed "s" (.reply (refusal firstDay
          (makeRejectionFrame firstDay HandlerFaults.none 1 .shuttingDown))),
        .returned 1 (.ok ⟨0, makeRejectionFrame firstDay HandlerFaults.none 1 .shuttingDown⟩)) := by
    decide
  have honly : ∀ m i q id e, refusedThenClosed[m]? = some (.subscribe i q id e) →
      m = 0 ∧ i = 0 ∧ id = "s" ∧ e = none := by
    intro m i q id e hm
    have hlt : m < 7 := (List.getElem?_eq_some_iff.mp hm).1
    interval_cases m <;> simp_all [refusedThenClosed]
  have hown : OwnSubscriptionIds refusedThenClosed := by
    intro i j q q' id e e' hi hj
    obtain ⟨m, hm⟩ := List.mem_iff_getElem?.mp hi
    obtain ⟨n, hn⟩ := List.mem_iff_getElem?.mp hj
    rw [(honly m i q id e hm).2.1, (honly n j q' id e' hn).2.1]
  obtain ⟨s, hrun, hdead⟩ := Option.map_eq_some_iff.mp heval
  refine ⟨s, hrun, hdead, ?_⟩
  refine (subscriptions_end_iff hrun hown).1.mpr (fun n sn hl hn m i q id e hm => ?_)
    refusedThenClosed.length s ((System.stateAt_length ..).trans hrun) hdead
  obtain rfl := hexit n (List.getElem?_eq_some_iff.mp hl).1 hl
  obtain ⟨rfl, rfl, rfl, rfl⟩ := honly m i q id e hm
  rw [hn, Option.map_some, Option.some.injEq] at hreply
  obtain ⟨hfailed, hcall⟩ := Prod.mk.inj hreply
  exact ⟨by decide, rfl, _, 1, _, hfailed, hcall, Or.inl rfl⟩

end Sdk

end StateMaster
