import StateMaster.Sdk.Correlation

/-!
# The senders of subscriptions

`Client::subscribe` stores the sender of a new channel in `SharedState.subscriptions`, makes its
request, and takes the sender out again in one case only: when the server answers with a `Rejection` or
an `Error` (`refuses`). Nobody else touches the entry, as long as the ids drawn are different.

* `ConnectionStep.entry_cases` — an entry changes when a call stores it or concludes with it;
* `SenderFact` — where the call is, and where its sender is;
* `sender_of_run` — in every state after it was stored, a sender is in the map, or its call was refused.
-/

open Framework

namespace StateMaster

namespace Sdk

open Wire

/-- The outcomes of a request after which `Client::subscribe` removes its sender. -/
def refuses : Except RequestError Arrival → Bool
  | .ok a => a.frame.tag == .rejection || a.frame.tag == .error
  | .error _ => false

theorem refuses_iff {result : Except RequestError Arrival} :
    refuses result = true ↔
      ∃ a, result = .ok a ∧ (a.frame.tag = .rejection ∨ a.frame.tag = .error) := by
  cases result with
  | error e => simp [refuses]
  | ok a => simp [refuses]

/-- The call has failed, with a `Rejection` or an `Error` for a reply. -/
def Connection.Refused (s : Connection) (i : ℕ) (id : String) : Prop :=
  ∃ e q a, s.subscribing i = .failed id e ∧ s.calls i = .returned q (.ok a) ∧
    (a.frame.tag = .rejection ∨ a.frame.tag = .error)

section Steps

variable {F : Formats} {s s' : Connection} {l : ConnectionLabel}

/-- `Client::subscribe` stores its sender on a dead connection too. -/
theorem ConnectionStep.subscribed {i q : ℕ} {id : String} {e : Option String}
    (h : ConnectionStep F s (.subscribe i q id e) s') :
    s'.state.subscriptions[id]? = some i ∧ s'.state.dead = s.state.dead := by
  cases h with
  | subscribe | subscribeFails => exact ⟨Table.get_insert_self _ _ _, rfl⟩

/-- What one step does to a call of `Client::subscribe`. -/
theorem ConnectionStep.subscribing_cases (h : ConnectionStep F s l s') (i : ℕ) :
    s'.subscribing i = s.subscribing i ∨
    (∃ id, s.subscribing i = .requesting id ∧ (s'.subscribing i).id? = some id) ∨
    s.subscribing i = .idle ∧
      ∃ q id e, l = .subscribe i q id e ∧ (s'.subscribing i).id? = some id := by
  cases h with
  | subscribe j q id hcall hsub =>
    obtain rfl | hne := eq_or_ne i j
    · exact Or.inr (Or.inr ⟨hsub, q, id, none, rfl, congrArg _ (Function.update_self ..)⟩)
    · exact Or.inl (Function.update_of_ne hne ..)
  | subscribeFails j q id e hsub =>
    obtain rfl | hne := eq_or_ne i j
    · exact Or.inr (Or.inr ⟨hsub, q, id, some e, rfl, congrArg _ (Function.update_self ..)⟩)
    · exact Or.inl (Function.update_of_ne hne ..)
  | conclude j id p hsub hp =>
    obtain rfl | hne := eq_or_ne i j
    · refine Or.inr (Or.inl ⟨id, hsub, (congrArg _ (Function.update_self ..)).trans ?_⟩)
      obtain rfl | ⟨e, rfl⟩ := hp <;> rfl
    · exact Or.inl (Function.update_of_ne hne ..)
  | refused j id e hsub =>
    obtain rfl | hne := eq_or_ne i j
    · exact Or.inr (Or.inl ⟨id, hsub, congrArg _ (Function.update_self ..)⟩)
    · exact Or.inl (Function.update_of_ne hne ..)
  | _ => exact Or.inl rfl

/-- A subscription keeps its id. -/
theorem ConnectionStep.id_kept (h : ConnectionStep F s l s') {i : ℕ} {id : String}
    (hid : (s.subscribing i).id? = some id) : (s'.subscribing i).id? = some id := by
  obtain heq | ⟨id', hreq, hid'⟩ | ⟨hidle, -⟩ := h.subscribing_cases i
  · rw [heq]
    exact hid
  · rw [hreq] at hid
    exact hid'.trans hid
  · rw [hidle] at hid
    exact absurd hid (by simp [Subscribing.id?])

theorem ConnectionStep.active (h : ConnectionStep F s l s') {i : ℕ} {id : String}
    (hi : s.subscribing i = .active id) : s'.subscribing i = .active id := by
  obtain heq | ⟨_, hreq, -⟩ | ⟨hidle, -⟩ := h.subscribing_cases i
  · exact heq.trans hi
  · exact absurd (hi.symm.trans hreq) (by simp)
  · exact absurd (hi.symm.trans hidle) (by simp)

/-- An entry of the map changes in two steps only: when a call stores it, and when the call that
stored it concludes. -/
theorem ConnectionStep.entry_cases (h : ConnectionStep F s l s') (id : String) :
    s'.state.subscriptions[id]? = s.state.subscriptions[id]? ∨
    (∃ i q e, l = .subscribe i q id e) ∨ ∃ i, l = .conclude i ∧ s.subscribing i = .requesting id := by
  cases h with
  | subscribe i q id' hcall hsub =>
    obtain rfl | hne := eq_or_ne id' id
    · exact Or.inr (Or.inl ⟨i, q, none, rfl⟩)
    · exact Or.inl (Table.get_insert_of_ne _ _ hne)
  | subscribeFails i q id' e hsub =>
    obtain rfl | hne := eq_or_ne id' id
    · exact Or.inr (Or.inl ⟨i, q, some e, rfl⟩)
    · exact Or.inl (Table.get_insert_of_ne _ _ hne)
  | refused i id' e hsub =>
    obtain rfl | hne := eq_or_ne id' id
    · exact Or.inr (Or.inr ⟨i, rfl, hsub⟩)
    · left
      change (s.state.subscriptions.erase id')[id]? = _
      rw [Table.get_erase, if_neg hne]
  | _ => exact Or.inl rfl

/-- A call that has drawn its id moves when it concludes, and then only. -/
theorem ConnectionStep.subscribing_eq (h : ConnectionStep F s l s') {i : ℕ}
    (hdrawn : s.subscribing i ≠ .idle) (hl : l ≠ .conclude i) :
    s'.subscribing i = s.subscribing i := by
  cases h with
  | subscribe j q id _ hsub | subscribeFails j q id _ hsub =>
    -- a call draws its id once
    have hne : i ≠ j := by
      rintro rfl
      exact hdrawn hsub
    exact Function.update_of_ne hne ..
  | conclude j | refused j =>
    have hne : i ≠ j := by
      rintro rfl
      exact hl rfl
    exact Function.update_of_ne hne ..
  | _ => rfl

/-- No other call comes to request a subscription under an id that nobody draws again. -/
theorem ConnectionStep.not_requesting (h : ConnectionStep F s l s') {i : ℕ} {id : String}
    (hother : s.subscribing i ≠ .requesting id) (hl : ∀ q e, l ≠ .subscribe i q id e) :
    s'.subscribing i ≠ .requesting id := by
  intro hreq
  obtain heq | ⟨id', hbefore, hid⟩ | ⟨-, q, id', e, rfl, hid⟩ := h.subscribing_cases i
  · exact hother (heq.symm.trans hreq)
  · rw [hreq] at hid
    obtain rfl := Option.some.inj hid
    exact hother hbefore
  · rw [hreq] at hid
    obtain rfl := Option.some.inj hid
    exact hl q e rfl

/-- The last step of `Client::subscribe`, with the outcome of its request in hand. -/
theorem conclude_eq_some {i : ℕ} (h : (connection F).step s (.conclude i) = some s') :
    ∃ id q result, s.subscribing i = .requesting id ∧ s.calls i = .returned q result ∧
      s' = s.conclude F i id result := by
  change s.step F (.conclude i) = some s' at h
  unfold Connection.step at h
  dsimp only at h
  split at h
  · next id q result hsub hcall => exact ⟨id, q, result, hsub, hcall, (Option.some.inj h).symm⟩
  · exact absurd h (by simp)

/-- **Which outcomes take the sender back.** -/
theorem Connection.conclude_entry (F : Formats) (s : Connection) (i : ℕ) (id : String)
    (result : Except RequestError Arrival) (hstored : s.state.subscriptions[id]? = some i) :
    (s.conclude F i id result).state.subscriptions[id]?
      = if refuses result then none else some i := by
  have herase : (s.state.subscriptions.erase id)[id]? = none := by
    rw [Table.get_erase, if_pos rfl]
  cases result with
  | error e => exact hstored
  | ok a =>
    obtain ⟨number, tag, body⟩ := a
    -- the tags that are no reply share the last arm
    cases tag with
    | rejection | error => exact herase
    | _ => exact hstored

theorem Connection.conclude_subscribing (F : Formats) (s : Connection) (i : ℕ) (id : String)
    (result : Except RequestError Arrival) :
    (s.conclude F i id result).subscribing i = .active id ∧ refuses result = false ∨
      ∃ e, (s.conclude F i id result).subscribing i = .failed id e := by
  cases result with
  | error e => exact Or.inr ⟨_, Function.update_self ..⟩
  | ok a =>
    unfold Connection.conclude refuses
    dsimp only
    cases a.frame.tag with
    | result => exact Or.inl ⟨Function.update_self .., rfl⟩
    | _ => exact Or.inr ⟨_, Function.update_self ..⟩

theorem Connection.conclude_calls (F : Formats) (s : Connection) (i : ℕ) (id : String)
    (result : Except RequestError Arrival) : (s.conclude F i id result).calls = s.calls := by
  cases result with
  | error e => rfl
  | ok a =>
    unfold Connection.conclude
    dsimp only
    cases a.frame.tag <;> rfl

/-- An entry of the map was there before, or is being made. -/
theorem ConnectionStep.entry_origin (h : ConnectionStep F s l s') {id : String} {i : ℕ}
    (hi : s'.state.subscriptions[id]? = some i) :
    s.state.subscriptions[id]? = some i ∨ ∃ q e, l = .subscribe i q id e := by
  cases h with
  | subscribe j q id' hcall hsub =>
    obtain rfl | hne := eq_or_ne id' id
    · obtain rfl := Option.some.inj ((Table.get_insert_self _ _ _).symm.trans hi)
      exact Or.inr ⟨q, none, rfl⟩
    · exact Or.inl ((Table.get_insert_of_ne _ _ hne).symm.trans hi)
  | subscribeFails j q id' e hsub =>
    obtain rfl | hne := eq_or_ne id' id
    · obtain rfl := Option.some.inj ((Table.get_insert_self _ _ _).symm.trans hi)
      exact Or.inr ⟨q, some e, rfl⟩
    · exact Or.inl ((Table.get_insert_of_ne _ _ hne).symm.trans hi)
  | refused j id' e hsub => exact Or.inl (Table.get_of_get_erase hi).2
  | _ => exact Or.inl hi

/-- A refusal is final. -/
theorem ConnectionStep.refused_kept (h : ConnectionStep F s l s') {i : ℕ} {id : String}
    (hrefused : s.Refused i id) : s'.Refused i id := by
  obtain ⟨e, q, a, hfailed, hcall, htag⟩ := hrefused
  refine ⟨e, q, a, ?_, h.returned hcall, htag⟩
  obtain heq | ⟨id', hreq, -⟩ | ⟨hidle, -⟩ := h.subscribing_cases i
  · exact heq.trans hfailed
  · exact absurd (hfailed.symm.trans hreq) (by simp)
  · exact absurd (hfailed.symm.trans hidle) (by simp)

end Steps

/-! ### The sender of one call -/

/-- What became of the sender that a call stored under `id`: it is there while the call waits for its
reply and while its consumer has the `Subscription`, and after a failure it is there unless the reply
was a refusal. -/
inductive SenderFact (s : Connection) (i : ℕ) (id : String) : Prop where
  | requesting (hsub : s.subscribing i = .requesting id)
      (hsender : s.state.subscriptions[id]? = some i)
  | active (hsub : s.subscribing i = .active id) (hsender : s.state.subscriptions[id]? = some i)
  | failed (e : SubscribeError) (q : ℕ) (result : Except RequestError Arrival)
      (hsub : s.subscribing i = .failed id e) (hcall : s.calls i = .returned q result)
      (hsender : s.state.subscriptions[id]? = if refuses result then none else some i)

/-- The step that answers the request. -/
theorem SenderFact.conclude {F : Formats} {s : Connection} {i q : ℕ} {id : String}
    {result : Except RequestError Arrival} (hcall : s.calls i = .returned q result)
    (hsender : s.state.subscriptions[id]? = some i) :
    SenderFact (s.conclude F i id result) i id := by
  have hentry := s.conclude_entry F i id result hsender
  rcases s.conclude_subscribing F i id result with ⟨hactive, haccepted⟩ | ⟨e, hfailed⟩
  · rw [haccepted] at hentry
    exact .active hactive hentry
  · refine .failed e q result hfailed ?_ hentry
    rw [Connection.conclude_calls]
    exact hcall

section One

variable {F : Formats} {s₀ s : Connection} {i : ℕ} {id : String} {more : List ConnectionLabel}

theorem SenderFact.step {s' : Connection} {l : ConnectionLabel} (h : SenderFact s i id)
    (hothers : ∀ j, j ≠ i → s.subscribing j ≠ .requesting id)
    (hl : ∀ j q e, l ≠ .subscribe j q id e) (hstep : (connection F).step s l = some s') :
    SenderFact s' i id := by
  have hsound := connection_sound hstep
  by_cases hconclude : l = .conclude i
  · subst hconclude
    obtain ⟨id', q, result, hreq, hcall, rfl⟩ := conclude_eq_some hstep
    cases h with
    | requesting hsub hsender =>
      obtain rfl : id = id' := Subscribing.requesting.inj (hsub.symm.trans hreq)
      exact .conclude hcall hsender
    | active hsub => exact absurd (hsub.symm.trans hreq) (by simp)
    | failed e q' result' hsub => exact absurd (hsub.symm.trans hreq) (by simp)
  · -- every other step leaves the call and its entry alone
    have hentry : s'.state.subscriptions[id]? = s.state.subscriptions[id]? := by
      rcases hsound.entry_cases id with heq | ⟨j, q, e, heq⟩ | ⟨j, heq, hreq⟩
      · exact heq
      · exact absurd heq (hl j q e)
      · have hne : j ≠ i := by
          rintro rfl
          exact hconclude heq
        exact absurd hreq (hothers j hne)
    cases h with
    | requesting hsub hsender =>
      have heq := hsound.subscribing_eq (by rw [hsub]; simp) hconclude
      exact .requesting (heq.trans hsub) (hentry.trans hsender)
    | active hsub hsender => exact .active (hsound.active hsub) (hentry.trans hsender)
    | failed e q result hsub hcall hsender =>
      have heq := hsound.subscribing_eq (by rw [hsub]; simp) hconclude
      exact .failed e q result (heq.trans hsub) (hsound.returned hcall) (hentry.trans hsender)

/-- **The sender of a call through a run.** -/
theorem senderFact_of_run (h : SenderFact s₀ i id)
    (hothers : ∀ j, j ≠ i → s₀.subscribing j ≠ .requesting id)
    (hown : ∀ j q e, ConnectionLabel.subscribe j q id e ∉ more)
    (hrun : (connection F).exec s₀ more = some s) : SenderFact s i id := by
  -- that nobody else requests under this id comes along: it keeps the others from taking the sender out
  induction more generalizing s₀ with
  | nil =>
    obtain rfl := Option.some.inj hrun
    exact h
  | cons l more ih =>
    obtain ⟨s₁, hstep, hrest⟩ := Option.bind_eq_some_iff.mp hrun
    have hl : ∀ j q e, l ≠ .subscribe j q id e := by
      rintro j q e rfl
      exact hown j q e List.mem_cons_self
    refine ih (h.step hothers hl hstep) (fun j hj => ?_)
      (fun j q e hmem => hown j q e (List.mem_cons_of_mem l hmem)) hrest
    exact (connection_sound hstep).not_requesting (hothers j hj) fun q e => hl j q e

/-- After an encoding error nobody takes the sender out. -/
theorem sender_kept_of_run (hsender : s₀.state.subscriptions[id]? = some i)
    (hnone : ∀ j, s₀.subscribing j ≠ .requesting id)
    (hown : ∀ j q e, ConnectionLabel.subscribe j q id e ∉ more)
    (hrun : (connection F).exec s₀ more = some s) : s.state.subscriptions[id]? = some i := by
  induction more generalizing s₀ with
  | nil =>
    obtain rfl := Option.some.inj hrun
    exact hsender
  | cons l more ih =>
    obtain ⟨s₁, hstep, hrest⟩ := Option.bind_eq_some_iff.mp hrun
    have hsound := connection_sound hstep
    have hl : ∀ j q e, l ≠ .subscribe j q id e := by
      rintro j q e rfl
      exact hown j q e List.mem_cons_self
    refine ih ?_ (fun j => hsound.not_requesting (hnone j) fun q e => hl j q e)
      (fun j q e hmem => hown j q e (List.mem_cons_of_mem l hmem)) hrest
    rcases hsound.entry_cases id with heq | ⟨j, q, e, heq⟩ | ⟨j, -, hreq⟩
    · exact heq.trans hsender
    · exact absurd heq (hl j q e)
    · exact absurd hreq (hnone j)

/-- A call keeps the id it has drawn. -/
theorem drawn_of_run (hdrawn : (s₀.subscribing i).id? = some id)
    (hrun : (connection F).exec s₀ more = some s) : (s.subscribing i).id? = some id :=
  System.exec_stable (I := fun t => (t.subscribing i).id? = some id)
    (fun _ _ _ ht hstep => (connection_sound hstep).id_kept ht) hrun hdrawn

/-- What a call whose message was encoded has done with its sender. -/
theorem SenderFact.sender (h : SenderFact s i id) :
    s.state.subscriptions[id]? = none ∧ s.Refused i id ∨
      s.state.subscriptions[id]? = some i ∧ ¬ s.Refused i id := by
  cases h with
  | requesting hsub hsender =>
    refine Or.inr ⟨hsender, ?_⟩
    rintro ⟨e, q, a, hfailed, -⟩
    exact absurd (hfailed.symm.trans hsub) (by simp)
  | active hsub hsender =>
    refine Or.inr ⟨hsender, ?_⟩
    rintro ⟨e, q, a, hfailed, -⟩
    exact absurd (hfailed.symm.trans hsub) (by simp)
  | failed e q result hsub hcall hsender =>
    cases hrefuses : refuses result with
    | true =>
      obtain ⟨a, rfl, htag⟩ := refuses_iff.mp hrefuses
      exact Or.inl ⟨by rw [hsender, hrefuses, if_pos rfl], e, q, a, hsub, hcall, htag⟩
    | false =>
      refine Or.inr ⟨by rw [hsender, hrefuses, if_neg Bool.false_ne_true], ?_⟩
      rintro ⟨e', q', a, -, hcall', htag⟩
      -- the outcome of the request is one
      obtain ⟨-, rfl⟩ := Request.returned.inj (hcall.symm.trans hcall')
      rw [refuses_iff.mpr ⟨a, rfl, htag⟩] at hrefuses
      exact Bool.noConfusion hrefuses

/-- **The sender of a call from its first step on**: it is out of the map exactly if the message could
be encoded and the call was refused. -/
theorem sender_of_subscribe {q : ℕ} {e : Option String}
    (hrun : (connection F).exec s₀ (.subscribe i q id e :: more) = some s)
    (hdrawn : ∀ j, s₀.subscribing j ≠ .requesting id)
    (hown : ∀ j q' e', ConnectionLabel.subscribe j q' id e' ∉ more) :
    s.state.subscriptions[id]? = none ∧ e = none ∧ s.Refused i id ∨
      s.state.subscriptions[id]? = some i ∧ ¬ (e = none ∧ s.Refused i id) := by
  obtain ⟨s₁, hstep, hrest⟩ := Option.bind_eq_some_iff.mp hrun
  cases connection_sound hstep with
  | subscribe =>
    have hothers : ∀ j, j ≠ i → (((s₀.enrol i id).setSubscribing i (.requesting id)).start i
        q).subscribing j ≠ .requesting id := by
      intro j hj
      change Function.update s₀.subscribing i (.requesting id) j ≠ _
      rw [Function.update_of_ne hj]
      exact hdrawn j
    have hfact := senderFact_of_run
      (.requesting (Function.update_self ..) (Table.get_insert_self _ _ _)) hothers hown hrest
    simpa using hfact.sender
  | subscribeFails _ _ _ e =>
    refine Or.inr ⟨sender_kept_of_run (Table.get_insert_self _ _ _) (fun j => ?_) hown hrest,
      fun h => absurd h.1 (by simp)⟩
    change Function.update s₀.subscribing i _ j ≠ _
    obtain rfl | hj := eq_or_ne j i
    · rw [Function.update_self]
      simp
    · rw [Function.update_of_ne hj]
      exact hdrawn j

end One

/-! ### The senders of a run -/

/-- Every call of `Client::subscribe` draws a subscription id of its own. -/
def OwnSubscriptionIds (ls : List ConnectionLabel) : Prop :=
  ∀ i j q q' id e e', ConnectionLabel.subscribe i q id e ∈ ls →
    ConnectionLabel.subscribe j q' id e' ∈ ls → i = j

theorem OwnSubscriptionIds.mono {ls ls' : List ConnectionLabel} (h : OwnSubscriptionIds ls')
    (hsub : ls ⊆ ls') : OwnSubscriptionIds ls :=
  fun i j q q' id e e' hi hj => h i j q q' id e e' (hsub hi) (hsub hj)

section Runs

variable {F : Formats} {s : Connection} {ls : List ConnectionLabel}

/-- A subscription id was drawn by the call that has it. -/
theorem subscribed_of_run (hrun : (connection F).exec Connection.new ls = some s) {i : ℕ}
    {id : String} (hi : (s.subscribing i).id? = some id) :
    ∃ q e, ConnectionLabel.subscribe i q id e ∈ ls := by
  refine System.exec_induction_labels
    (I := fun ls s => ∀ id, (s.subscribing i).id? = some id →
      ∃ q e, ConnectionLabel.subscribe i q id e ∈ ls) ?_ ?_ hrun id hi
  · exact fun id hid => absurd hid (by simp [Connection.new, Subscribing.id?])
  · intro ls s l s' _ ih hstep id hid
    have hbefore : (s.subscribing i).id? = some id →
        ∃ q e, ConnectionLabel.subscribe i q id e ∈ ls ++ [l] := by
      intro hs
      obtain ⟨q, e, hmem⟩ := ih id hs
      exact ⟨q, e, List.mem_append_left _ hmem⟩
    obtain heq | ⟨id', hreq, hid'⟩ | ⟨-, q, id', e, rfl, hid'⟩ :=
      (connection_sound hstep).subscribing_cases i
    · exact hbefore (heq ▸ hid)
    · obtain rfl := Option.some.inj (hid'.symm.trans hid)
      exact hbefore (by rw [hreq]; rfl)
    · obtain rfl := Option.some.inj (hid'.symm.trans hid)
      exact ⟨q, e, List.mem_append_right _ (List.mem_singleton_self _)⟩

/-- The entry of an id is that of a call with this id. -/
theorem owner_of_run (hrun : (connection F).exec Connection.new ls = some s) {id : String} {i : ℕ}
    (hi : s.state.subscriptions[id]? = some i) : (s.subscribing i).id? = some id := by
  refine System.exec_induction (I := fun s => ∀ id i, s.state.subscriptions[id]? = some i →
    (s.subscribing i).id? = some id) ?_ ?_ hrun id i hi
  · intro id i hi
    exact absurd hi (by simp [Connection.new])
  · intro s l s' ih hstep id i hi
    have hstep := connection_sound hstep
    obtain hold | ⟨q, e, rfl⟩ := hstep.entry_origin hi
    · exact hstep.id_kept (ih id i hold)
    · cases hstep with
      | subscribe | subscribeFails =>
        simp [Connection.setSubscribing, Connection.start, Connection.setCall, Subscribing.id?]

/-- **The sender of every call of a run.** -/
theorem sender_of_run (hrun : (connection F).exec Connection.new ls = some s)
    (hown : OwnSubscriptionIds ls) {i q : ℕ} {id : String} {e : Option String}
    (hmem : ConnectionLabel.subscribe i q id e ∈ ls) :
    s.state.subscriptions[id]? = none ∧ e = none ∧ s.Refused i id ∨
      s.state.subscriptions[id]? = some i ∧ ¬ (e = none ∧ s.Refused i id) := by
  obtain ⟨before, more, rfl⟩ := List.append_of_mem hmem
  rw [System.exec_append] at hrun
  obtain ⟨s₀, hbefore, hrest⟩ := Option.bind_eq_some_iff.mp hrun
  obtain ⟨s₁, hstep, hmore⟩ := Option.bind_eq_some_iff.mp hrest
  -- the call has no id before this step, and one after it
  have hidle : s₀.subscribing i = .idle := by
    cases connection_sound hstep with
    | subscribe _ _ _ _ hsub | subscribeFails _ _ _ _ hsub => exact hsub
  have hdrawn : (s₁.subscribing i).id? = some id := by
    cases connection_sound hstep with
    | subscribe | subscribeFails => exact congrArg _ (Function.update_self ..)
  refine sender_of_subscribe hrest (fun j hreq => ?_) fun j q' e' hagain => ?_
  · obtain ⟨q', e', hmem'⟩ := subscribed_of_run hbefore (i := j) (by rw [hreq]; rfl)
    obtain rfl := hown i j q q' id e e' hmem (List.mem_append_left _ hmem')
    exact absurd (hidle.symm.trans hreq) (by simp)
  · obtain rfl := hown i j q q' id e e' hmem
      (List.mem_append_right _ (List.mem_cons_of_mem _ hagain))
    obtain ⟨between, rest, rfl⟩ := List.append_of_mem hagain
    rw [System.exec_append] at hmore
    obtain ⟨t, ht, hrest'⟩ := Option.bind_eq_some_iff.mp hmore
    obtain ⟨t', hstep', -⟩ := Option.bind_eq_some_iff.mp hrest'
    have hkept := drawn_of_run hdrawn ht
    cases connection_sound hstep' with
    | subscribe _ _ _ _ hsub | subscribeFails _ _ _ _ hsub =>
      rw [hsub] at hkept
      exact absurd hkept (by simp [Subscribing.id?])

/-- **The sender of a subscription that can be received from is in the map**, dead or alive. -/
theorem sender_held_of_run (hrun : (connection F).exec Connection.new ls = some s)
    (hown : OwnSubscriptionIds ls) {i : ℕ} {id : String}
    (hreceives : (s.subscribing i).receives = true) (hid : (s.subscribing i).id? = some id) :
    s.state.subscriptions[id]? = some i := by
  obtain ⟨q, e, hmem⟩ := subscribed_of_run hrun hid
  rcases sender_of_run hrun hown hmem with ⟨-, -, e', q', a, hfailed, -⟩ | ⟨hheld, -⟩
  · rw [hfailed] at hreceives
    exact Bool.noConfusion hreceives
  · exact hheld

end Runs

/-- The subscription is refused before the server closes the connection. -/
def refusedThenClosed : List ConnectionLabel :=
  [.subscribe 0 1 "s" none, .register 0, .write 0 true,
    .arrive (makeRejectionFrame firstDay HandlerFaults.none 1 .shuttingDown), .poll 0,
    .conclude 0, .exit]

end Sdk

end StateMaster
