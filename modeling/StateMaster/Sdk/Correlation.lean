import StateMaster.Sdk.Connection
import StateMaster.Wire.Replies

/-!
# Replies and the calls that wait for them

The map of pending calls is changed by a call that registers, by the reader when a reply comes in, by
a call that has timed out, and by the reader's exit. Whatever their order, a sender is stored under the
request of the call that made it, and only the reader sends to it; so what a channel holds is a reply
to its call.

* `RequestInvariant` — a channel holds a reply to the request of its call, and a dead connection has
  no pending calls;
* `Moves` — what a step does to a call, from which follow that a call keeps its request and its
  result;
* `responses_correlated` — a call returns a reply to its own request, and once the reader has exited
  no call waits.
-/

open Framework

namespace StateMaster

namespace Sdk

open Wire

/-! ### Requests and their replies -/

/-- The frame `a` is a reply to request `q`, and was put into the channel of call `i`. -/
structure Answers (F : Formats) (s : Connection) (q i : ℕ) (a : Arrival) : Prop where
  read : s.arrived[a.number]? = some a.frame
  tag : a.frame.tag.isReply = true
  id : extractRequestId F a.frame = some q
  handed : (a.number, i) ∈ s.handed

/-- What holds of a call in every reachable state. -/
structure CallFact (F : Formats) (s : Connection) (i : ℕ) : Prop where
  stored : ∀ q, s.state.pending[q]? = some i → (s.calls i).stored = some q
  slot : ∀ q a, (s.calls i).receiver = some q → s.slots i = some a → Answers F s q i a
  result : ∀ q a, s.calls i = .returned q (.ok a) → Answers F s q i a

/-- **A channel holds a reply to the request of its call**, a frame is put into one channel only, and
a dead connection has no pending calls. -/
structure RequestInvariant (F : Formats) (s : Connection) : Prop where
  dead : s.state.dead = true → s.state.pending = ∅
  handed_lt : ∀ p ∈ s.handed, p.1 < s.arrived.length
  handed_once : ∀ n i j, (n, i) ∈ s.handed → (n, j) ∈ s.handed → i = j
  call : ∀ i, CallFact F s i

/-- A sender is stored under the request its receiver waits for. -/
theorem Request.receiver_eq_stored {r : Request} {q q' : ℕ} (hq : r.receiver = some q)
    (hq' : r.stored = some q') : q = q' := by
  cases r with
  | registered _ | waiting _ | expiring _ => exact Option.some.inj (hq.symm.trans hq')
  | idle | elapsed _ | returned _ _ => exact absurd hq (by simp [Request.receiver])
  | invoked _ => exact absurd hq' (by simp [Request.stored])

section Requests

variable {F : Formats} {s s' : Connection} {l : ConnectionLabel} {i q : ℕ}

/-- What has been read and handed out stays so. -/
theorem Answers.mono {a : Arrival} (h : Answers F s q i a) (harrived : s.arrived <+: s'.arrived)
    (hhanded : s.handed ⊆ s'.handed) : Answers F s' q i a where
  read := by
    obtain ⟨rest, hrest⟩ := harrived
    rw [← hrest]
    exact List.getElem?_append_left (List.getElem?_eq_some_iff.mp h.read).1 ▸ h.read
  tag := h.tag
  id := h.id
  handed := hhanded h.handed

/-- A call nobody touches. -/
theorem CallFact.mono (h : CallFact F s i) (hcall : s'.calls i = s.calls i)
    (hslot : s'.slots i = s.slots i)
    (hpending : ∀ q : ℕ, s'.state.pending[q]? = some i → s.state.pending[q]? = some i)
    (harrived : s.arrived <+: s'.arrived) (hhanded : s.handed ⊆ s'.handed) :
    CallFact F s' i where
  stored q hq := hcall ▸ h.stored q (hpending q hq)
  slot q a hq ha := (h.slot q a (hcall ▸ hq) (hslot ▸ ha)).mono harrived hhanded
  result q a ha := (h.result q a (hcall ▸ ha)).mono harrived hhanded

namespace RequestInvariant

/-- A call whose sender is not stored has no entry. -/
theorem not_pending (h : RequestInvariant F s) (hcall : (s.calls i).stored = none) (k : ℕ) :
    s.state.pending[k]? ≠ some i := by
  intro hk
  exact absurd ((h.call i).stored k hk) (by rw [hcall]; simp)

/-- The subscriptions do not matter here. -/
theorem congr (h : RequestInvariant F s) (hpending : s'.state.pending = s.state.pending)
    (hdead : s'.state.dead = s.state.dead) (hcalls : s'.calls = s.calls)
    (hslots : s'.slots = s.slots) (harrived : s'.arrived = s.arrived)
    (hhanded : s'.handed = s.handed) : RequestInvariant F s' where
  dead := by
    rw [hpending, hdead]
    exact h.dead
  handed_lt := by
    rw [hhanded, harrived]
    exact h.handed_lt
  handed_once := by
    rw [hhanded]
    exact h.handed_once
  call i := (h.call i).mono (congrFun hcalls i) (congrFun hslots i) (fun q => hpending ▸ id)
    (harrived ▸ List.prefix_rfl) (hhanded ▸ List.Subset.refl _)

/-- A call moves on: its sender, its channel and its result have to fit. -/
theorem setCall (h : RequestInvariant F s) {r : Request}
    (hstored : ∀ q, s.state.pending[q]? = some i → r.stored = some q)
    (hslot : ∀ q, r.receiver = some q → (s.calls i).receiver = some q)
    (hresult : ∀ q a, r = .returned q (.ok a) → Answers F s q i a) :
    RequestInvariant F (s.setCall i r) where
  dead := h.dead
  handed_lt := h.handed_lt
  handed_once := h.handed_once
  call j := by
    obtain rfl | hne := eq_or_ne j i
    · have hcall : (s.setCall j r).calls j = r := Function.update_self ..
      refine ⟨?_, fun q a hq ha => ?_, fun q a ha => ?_⟩
      · rw [hcall]
        exact hstored
      · rw [hcall] at hq
        exact ((h.call j).slot q a (hslot q hq) ha).mono List.prefix_rfl (List.Subset.refl _)
      · rw [hcall] at ha
        exact (hresult q a ha).mono List.prefix_rfl (List.Subset.refl _)
    · exact (h.call j).mono (Function.update_of_ne hne ..) rfl (fun _ => id) List.prefix_rfl
        (List.Subset.refl _)

/-- A call starts on a channel of its own. -/
theorem start (h : RequestInvariant F s) (hcall : s.calls i = .idle) (q : ℕ) :
    RequestInvariant F (s.start i q) where
  dead := h.dead
  handed_lt := h.handed_lt
  handed_once := h.handed_once
  call j := by
    obtain rfl | hne := eq_or_ne j i
    · have hnew : (s.start j q).calls j = .invoked q := Function.update_self ..
      have hempty : (s.start j q).slots j = none := Function.update_self ..
      refine ⟨fun k hk => ?_, fun k a _ ha => ?_, fun k a ha => ?_⟩
      · exact absurd hk (h.not_pending (by rw [hcall]; rfl) k)
      · exact absurd (hempty.symm.trans ha) (by simp)
      · exact absurd (hnew.symm.trans ha) (by simp)
    · exact (h.call j).mono (Function.update_of_ne hne ..) (Function.update_of_ne hne ..)
        (fun _ => id) List.prefix_rfl (List.Subset.refl _)

/-- The sender of a call is stored under its request. -/
theorem insertPending (h : RequestInvariant F s) (hdead : s.state.dead = false)
    (hcall : (s.calls i).stored = some q) :
    RequestInvariant F
      { s with state := { s.state with pending := s.state.pending.insert q i } } where
  dead hdead' := absurd (hdead.symm.trans hdead') Bool.false_ne_true
  handed_lt := h.handed_lt
  handed_once := h.handed_once
  call j := by
    refine ⟨fun k hk => ?_, fun k a hk ha => ?_, fun k a ha => ?_⟩
    · dsimp only at hk
      rw [Table.get_insert] at hk
      split at hk
      · obtain rfl := Option.some.inj hk
        obtain rfl := ‹q = k›
        exact hcall
      · exact (h.call j).stored k hk
    · exact ((h.call j).slot k a hk ha).mono List.prefix_rfl (List.Subset.refl _)
    · exact ((h.call j).result k a ha).mono List.prefix_rfl (List.Subset.refl _)

/-- Senders are dropped. -/
theorem shrink (h : RequestInvariant F s) {pending : Table ℕ ℕ} {dead : Bool}
    (hdead : dead = true → pending = ∅)
    (hpending : ∀ (k j : ℕ), pending[k]? = some j → s.state.pending[k]? = some j) :
    RequestInvariant F { s with state := { s.state with pending, dead } } where
  dead := hdead
  handed_lt := h.handed_lt
  handed_once := h.handed_once
  call j := (h.call j).mono rfl rfl (fun k => hpending k j) List.prefix_rfl (List.Subset.refl _)

theorem removePending (h : RequestInvariant F s) (k : ℕ) :
    RequestInvariant F (s.removePending k) := by
  refine h.shrink (fun hdead => ?_) fun _ _ hj => (Table.get_of_get_erase hj).2
  rw [h.dead hdead]
  exact Std.ExtTreeMap.erase_empty

theorem read (h : RequestInvariant F s) (frame : Frame) : RequestInvariant F (s.read frame) where
  dead := h.dead
  handed_lt p hp := by
    change p.1 < (s.arrived ++ [frame]).length
    rw [List.length_append]
    exact Nat.lt_add_right _ (h.handed_lt p hp)
  handed_once := h.handed_once
  call j := (h.call j).mono rfl rfl (fun _ => id) (List.prefix_append _ _) (List.Subset.refl _)

/-- **A frame is put into the channel of a call.** -/
theorem hand (h : RequestInvariant F s) {a : Arrival} (hread : s.arrived[a.number]? = some a.frame)
    (htag : a.frame.tag.isReply = true) (hid : extractRequestId F a.frame = some q)
    (hcall : ∀ k, (s.calls i).receiver = some k → k = q)
    (hnew : ∀ p ∈ s.handed, p.1 ≠ a.number) :
    RequestInvariant F { s with slots := Function.update s.slots i (some a)
                                handed := s.handed ++ [(a.number, i)] } where
  dead := h.dead
  handed_lt p hp := by
    obtain hp | hp := List.mem_append.mp hp
    · exact h.handed_lt p hp
    · obtain rfl := List.mem_singleton.mp hp
      exact (List.getElem?_eq_some_iff.mp hread).1
  handed_once n j k hj hk := by
    obtain hj | hj := List.mem_append.mp hj <;> obtain hk | hk := List.mem_append.mp hk
    · exact h.handed_once n j k hj hk
    · exact absurd (Prod.mk.inj (List.mem_singleton.mp hk)).1 (hnew (n, j) hj)
    · exact absurd (Prod.mk.inj (List.mem_singleton.mp hj)).1 (hnew (n, k) hk)
    · obtain ⟨-, rfl⟩ := Prod.mk.inj (List.mem_singleton.mp hj)
      exact (Prod.mk.inj (List.mem_singleton.mp hk)).2.symm
  call j := by
    obtain rfl | hne := eq_or_ne j i
    · refine ⟨(h.call j).stored, fun k b hk hb => ?_, fun k b hb => ?_⟩
      · change Function.update s.slots j (some a) j = some b at hb
        rw [Function.update_self] at hb
        obtain rfl := Option.some.inj hb
        obtain rfl := hcall k hk
        exact ⟨hread, htag, hid, List.mem_append_right _ (List.mem_singleton_self _)⟩
      · exact ((h.call j).result k b hb).mono List.prefix_rfl (List.subset_append_left _ _)
    · exact (h.call j).mono rfl (Function.update_of_ne hne ..) (fun _ => id) List.prefix_rfl
        (List.subset_append_left _ _)

/-- **The invariant survives every step.** -/
theorem step (h : RequestInvariant F s) (hstep : ConnectionStep F s l s') :
    RequestInvariant F s' := by
  cases hstep with
  | invoke i requestId hcall => exact h.start hcall requestId
  | refuse i requestId hcall hdead =>
    -- its sender was never stored
    exact h.setCall (fun k hk => absurd hk (h.not_pending (by rw [hcall]; rfl) k)) nofun nofun
  | register i requestId hcall hdead =>
    have hmoved : RequestInvariant F (s.setCall i (.registered requestId)) :=
      h.setCall (fun k hk => absurd hk (h.not_pending (by rw [hcall]; rfl) k))
        (fun k hk => by rw [hcall]; exact hk) nofun
    refine hmoved.insertPending hdead ?_
    change (Function.update s.calls i (.registered requestId) i).stored = some requestId
    rw [Function.update_self]
    rfl
  | write i requestId ok hcall =>
    have hstored := (h.call i).stored
    rw [hcall] at hstored
    cases ok with
    | true => exact h.setCall hstored (fun k hk => by rw [hcall]; exact hk) nofun
    | false =>
      -- the entry stays, without a receiver
      exact h.setCall hstored nofun nofun
  | take i requestId a hcall hslot =>
    have hfact := h.call i
    have hstored := hfact.stored
    rw [hcall] at hstored
    refine h.setCall hstored nofun fun k b hb => ?_
    -- the receiver had waited for this request
    cases hb
    exact hfact.slot requestId a (by rw [hcall]; rfl) hslot
  | wake i requestId hcall hslot hgone =>
    have hstored := (h.call i).stored
    rw [hcall] at hstored
    exact h.setCall hstored nofun nofun
  | expire i requestId hcall hslot hheld =>
    have hstored := (h.call i).stored
    rw [hcall] at hstored
    exact h.setCall hstored (fun k hk => by rw [hcall]; exact hk) nofun
  | dropReceiver i requestId hcall =>
    have hstored := (h.call i).stored
    rw [hcall] at hstored
    exact h.setCall hstored nofun nofun
  | remove i requestId hcall =>
    refine (h.removePending requestId).setCall (fun k hk => ?_) nofun nofun
    -- the only entry the call could have is gone
    obtain ⟨hne, hk⟩ := Table.get_of_get_erase hk
    have hstored := (h.call i).stored k hk
    rw [hcall] at hstored
    exact absurd (Option.some.inj hstored) hne
  | pass frame hdead => exact h.read frame
  | reply frame requestId i k hdead htag hid hpending hreceiver =>
    refine ((h.read frame).removePending requestId).hand (a := ⟨s.arrived.length, frame⟩) ?_ htag hid
      (fun k hk => ?_) fun p hp => ?_
    · exact List.getElem?_concat_length
    · -- the entry was found under the id of the frame
      exact Request.receiver_eq_stored hk ((h.call i).stored requestId hpending)
    · -- all frames handed out so far have smaller numbers
      exact (h.handed_lt p hp).ne
  | lose frame requestId i hdead hpending hreceiver => exact (h.read frame).removePending requestId
  | record frame msg i hdead hsub => exact (h.read frame).congr rfl rfl rfl rfl rfl rfl
  | exit hdead => exact h.shrink (fun _ => rfl) fun k j hj => absurd hj (by simp)
  | subscribe i requestId id hcall hsub =>
    have hsame : RequestInvariant F ((s.enrol i id).setSubscribing i (.requesting id)) :=
      h.congr rfl rfl rfl rfl rfl rfl
    exact hsame.start hcall requestId
  | subscribeFails | conclude | refused | nextRecord | nextNone =>
    exact h.congr rfl rfl rfl rfl rfl rfl

end RequestInvariant

theorem requestInvariant_new (F : Formats) : RequestInvariant F Connection.new where
  dead hdead := absurd hdead Bool.false_ne_true
  handed_lt p hp := absurd hp List.not_mem_nil
  handed_once n i j hi := absurd hi List.not_mem_nil
  call i := ⟨fun q hq => absurd hq (by simp [Connection.new]), nofun, nofun⟩

theorem requestInvariant_of_run {ls : List ConnectionLabel}
    (hrun : (connection F).exec Connection.new ls = some s) : RequestInvariant F s :=
  System.exec_induction (requestInvariant_new F) (fun _ _ _ h hstep => h.step (connection_sound hstep))
    hrun

end Requests

/-! ### Correlation -/

section Correlation

variable {F : Formats} {s s' : Connection} {l : ConnectionLabel}

/-- Where one step takes a call: it stays, or it moves on with its request; a call that has returned
stays. -/
def Moves (l : ConnectionLabel) (i : ℕ) (r r' : Request) : Prop :=
  r' = r ∨ (∀ q result, r ≠ .returned q result) ∧
    (r'.requestId = r.requestId ∨ ∃ q, l.starts = some (i, q) ∧ r'.requestId = some q)

/-- Only the call a label is about moves. -/
theorem moves_update {calls : ℕ → Request} {j : ℕ} {r : Request} (h : Moves l j (calls j) r)
    (i : ℕ) : Moves l i (calls i) (Function.update calls j r i) := by
  obtain rfl | hne := eq_or_ne i j
  · rw [Function.update_self]
    exact h
  · rw [Function.update_of_ne hne]
    exact Or.inl rfl

/-- A step of a call that is under way. -/
theorem moves_of_eq {i : ℕ} {r₀ r r' : Request} (hr : r₀ = r)
    (hopen : ∀ q result, r ≠ .returned q result) (hid : r'.requestId = r.requestId) :
    Moves l i r₀ r' :=
  hr ▸ Or.inr ⟨hopen, Or.inl hid⟩

theorem ConnectionStep.moves (h : ConnectionStep F s l s') (i : ℕ) :
    Moves l i (s.calls i) (s'.calls i) := by
  cases h with
  | invoke j q hcall =>
    exact moves_update (Or.inr ⟨hcall ▸ nofun, Or.inr ⟨q, rfl, rfl⟩⟩) i
  | refuse j q hcall hdead => exact moves_update (moves_of_eq hcall nofun (by rfl)) i
  | register j q hcall hdead => exact moves_update (moves_of_eq hcall nofun (by rfl)) i
  | write j q ok hcall => exact moves_update (moves_of_eq hcall nofun (by cases ok <;> rfl)) i
  | take j q a hcall hslot => exact moves_update (moves_of_eq hcall nofun (by rfl)) i
  | wake j q hcall hslot hgone => exact moves_update (moves_of_eq hcall nofun (by rfl)) i
  | expire j q hcall hslot hheld => exact moves_update (moves_of_eq hcall nofun (by rfl)) i
  | dropReceiver j q hcall => exact moves_update (moves_of_eq hcall nofun (by rfl)) i
  | remove j q hcall => exact moves_update (moves_of_eq hcall nofun (by rfl)) i
  | subscribe j q id hcall hsub =>
    exact moves_update (Or.inr ⟨hcall ▸ nofun, Or.inr ⟨q, rfl, rfl⟩⟩) i
  | pass | reply | lose | record | exit | subscribeFails | conclude | refused | nextRecord
  | nextNone => exact Or.inl rfl

theorem ConnectionStep.returned (h : ConnectionStep F s l s') {i q : ℕ}
    {result : Except RequestError Arrival} (hi : s.calls i = .returned q result) :
    s'.calls i = .returned q result := by
  obtain heq | ⟨hopen, -⟩ := h.moves i
  · rw [heq, hi]
  · exact absurd hi (hopen q result)

/-- A frame is put into a channel only while its receiver exists. -/
theorem ConnectionStep.receiver_of_handed (h : ConnectionStep F s l s') {n i : ℕ}
    (hmem : (n, i) ∈ s'.handed) : (n, i) ∈ s.handed ∨ (s.calls i).receiver ≠ none := by
  cases h with
  | reply frame q j k hdead htag hid hpending hreceiver =>
    obtain hmem | hmem := List.mem_append.mp hmem
    · exact Or.inl hmem
    · obtain ⟨-, rfl⟩ := Prod.mk.inj (List.mem_singleton.mp hmem)
      exact Or.inr (ne_of_eq_of_ne hreceiver (by simp))
  | _ => exact Or.inl hmem

/-- The reader exits once. -/
theorem ConnectionStep.dead (h : ConnectionStep F s l s') (hdead : s.state.dead = true) :
    s'.state.dead = true := by
  cases h with
  | exit => rfl
  | _ => exact hdead

/-- The request of a call is the one it was started with. -/
theorem started_of_run {ls : List ConnectionLabel}
    (hrun : (connection F).exec Connection.new ls = some s) {i q : ℕ}
    (hi : (s.calls i).requestId = some q) : (i, q) ∈ ls.filterMap ConnectionLabel.starts := by
  refine System.exec_induction_labels
    (I := fun ls s => ∀ q, (s.calls i).requestId = some q →
      (i, q) ∈ ls.filterMap ConnectionLabel.starts) ?_ ?_ hrun q hi
  · exact fun q hq => absurd hq (by simp [Connection.new, Request.requestId])
  · intro ls s l s' _ ih hstep q hq
    rw [List.filterMap_append]
    obtain heq | ⟨-, hid | ⟨q', hstarts, hid⟩⟩ := (connection_sound hstep).moves i
    · exact List.mem_append_left _ (ih q (heq ▸ hq))
    · exact List.mem_append_left _ (ih q (hid ▸ hq))
    · obtain rfl := Option.some.inj (hid.symm.trans hq)
      exact List.mem_append_right _
        (List.mem_filterMap.mpr ⟨l, List.mem_singleton_self l, hstarts⟩)

/-- **After its timeout a call is over.** Its result stays, and no frame is put into its channel any
more. -/
theorem timedOut_stable {i q : ℕ} (hi : s.calls i = .returned q (.error .timeout))
    {more : List ConnectionLabel} (hmore : (connection F).exec s more = some s') :
    s'.calls i = .returned q (.error .timeout) ∧ ∀ n, (n, i) ∈ s'.handed → (n, i) ∈ s.handed := by
  refine System.exec_stable (I := fun t => t.calls i = .returned q (.error .timeout) ∧
    ∀ n, (n, i) ∈ t.handed → (n, i) ∈ s.handed) ?_ hmore ⟨hi, fun _ => id⟩
  rintro t l t' ⟨ht, hhanded⟩ hstep
  have hstep := connection_sound hstep
  refine ⟨hstep.returned ht, fun n hn => ?_⟩
  obtain hn | hreceiver := hstep.receiver_of_handed hn
  · exact hhanded n hn
  · -- its receiver is gone
    exact absurd (by rw [ht]; rfl) hreceiver

/-- **Without senders no call waits.** -/
theorem settles_of_pending_empty (F : Formats) (hpending : s.state.pending = ∅) {i q : ℕ}
    (hi : s.calls i = .waiting q) :
    ∃ s' result, (connection F).step s (.poll i) = some s' ∧ s'.calls i = .returned q result := by
  have hgone : s.state.pending[q]? ≠ some i := by
    rw [hpending]
    simp
  -- a frame that came before the exit is still returned
  cases hslot : s.slots i with
  | some a =>
    refine ⟨s.setCall i (.returned q (.ok a)), .ok a, ?_, Function.update_self ..⟩
    change s.step F (.poll i) = _
    simp only [Connection.step, hi, hslot]
  | none =>
    refine ⟨s.setCall i (.returned q (.error .disconnected)), .error .disconnected, ?_,
      Function.update_self ..⟩
    change s.step F (.poll i) = _
    simp only [Connection.step, hi, hslot, if_neg hgone]

/-- A dead connection takes no call. -/
theorem refused_of_dead (F : Formats) (hdead : s.state.dead = true) {i q : ℕ}
    (hi : s.calls i = .invoked q) :
    ∃ s', (connection F).step s (.register i) = some s' ∧
      s'.calls i = .returned q (.error .disconnected) := by
  refine ⟨s.setCall i (.returned q (.error .disconnected)), ?_, Function.update_self ..⟩
  change s.step F (.register i) = _
  simp only [Connection.step, hi, if_pos hdead]

/-- **A call returns a reply to its own request, every frame goes to one call at most, a call that has
returned a timeout gets no frame any more, and on a dead connection nobody waits.** A frame can still
enter the channel of a call whose timer has run out, as long as it has not dropped the receiver; it is
dropped with it, and the call returns the timeout. That request ids are distinct is not needed. -/
theorem responses_correlated {ls : List ConnectionLabel}
    (hrun : (connection F).exec Connection.new ls = some s) :
    (∀ i q a, s.calls i = .returned q (.ok a) →
      (i, q) ∈ ls.filterMap ConnectionLabel.starts ∧ Answers F s q i a) ∧
    (∀ n i j, (n, i) ∈ s.handed → (n, j) ∈ s.handed → i = j) ∧
    (∀ i q, s.calls i = .returned q (.error .timeout) →
      ∀ more s', (connection F).exec s more = some s' →
        s'.calls i = .returned q (.error .timeout) ∧ (∀ k : ℕ, s'.state.pending[k]? ≠ some i) ∧
        ∀ n, (n, i) ∈ s'.handed → (n, i) ∈ s.handed) ∧
    (s.state.dead = true → ∀ more s', (connection F).exec s more = some s' →
      s'.state.dead = true ∧ s'.state.pending = ∅ ∧
      (∀ i q, s'.calls i = .invoked q → ∃ s'', (connection F).step s' (.register i) = some s'' ∧
        s''.calls i = .returned q (.error .disconnected)) ∧
      ∀ i q, s'.calls i = .waiting q → ∃ s'' result,
        (connection F).step s' (.poll i) = some s'' ∧ s''.calls i = .returned q result) := by
  have hinv := requestInvariant_of_run hrun
  have hlater : ∀ {more s'}, (connection F).exec s more = some s' → RequestInvariant F s' :=
    System.exec_induction hinv fun _ _ _ h hstep => h.step (connection_sound hstep)
  refine ⟨fun i q a hi => ⟨?_, (hinv.call i).result q a hi⟩, hinv.handed_once,
    fun i q hi more s' hmore => ?_, fun hdead more s' hmore => ?_⟩
  · exact started_of_run hrun (by rw [hi]; rfl)
  · obtain ⟨hreturned, hhanded⟩ := timedOut_stable hi hmore
    exact ⟨hreturned, (hlater hmore).not_pending (by rw [hreturned]; rfl), hhanded⟩
  · have hdead' : s'.state.dead = true :=
      System.exec_stable (I := fun t => t.state.dead = true)
        (fun _ _ _ h hstep => (connection_sound hstep).dead h) hmore hdead
    have hpending := (hlater hmore).dead hdead'
    exact ⟨hdead', hpending, fun _ _ => refused_of_dead F hdead',
      fun _ _ => settles_of_pending_empty F hpending⟩

end Correlation

/-- The answer to a request. -/
def nullResult (requestId : ℕ) : Frame := resultFrame firstDay HandlerFaults.none requestId .null

/-- Request 8 is answered, twice. Request 7 is answered as it times out, and the reader exits while
request 9 is about to be made. -/
def lateAnswer : List ConnectionLabel :=
  [.invoke 0 7, .invoke 1 8, .register 0, .register 1, .write 1 true, .write 0 true,
    .arrive (nullResult 8), .arrive (nullResult 8), .expire 0, .arrive (nullResult 7),
    .dropReceiver 0, .poll 1, .remove 0, .invoke 2 9, .exit]

theorem responses_correlated_lateAnswer : ∃ s a,
    (connection firstDay).exec Connection.new lateAnswer = some s ∧
    s.calls 1 = .returned 8 (.ok a) ∧ extractRequestId firstDay a.frame = some 8 ∧
    (a.number, 0) ∉ s.handed ∧ (∀ k : ℕ, s.state.pending[k]? ≠ some 0) ∧
    ∃ s', (connection firstDay).step s (.register 2) = some s' ∧
      s'.calls 2 = .returned 9 (.error .disconnected) := by
  have heval : ((connection firstDay).exec Connection.new lateAnswer).map
      (fun s => (s.state.dead, s.calls 0, s.calls 1, s.calls 2))
      = some (true, .returned 7 (.error .timeout), .returned 8 (.ok ⟨0, nullResult 8⟩),
        .invoked 9) := by decide
  obtain ⟨s, hrun, hs⟩ := Option.map_eq_some_iff.mp heval
  simp only [Prod.mk.injEq] at hs
  obtain ⟨hdead, hlate, hanswered, hinvoked⟩ := hs
  obtain ⟨hown, honce, hover, hsettled⟩ := responses_correlated hrun
  have hanswers := (hown 1 8 _ hanswered).2
  obtain ⟨-, hgone, -⟩ := hover 0 7 hlate [] s rfl
  obtain ⟨-, -, hrefused, -⟩ := hsettled hdead [] s rfl
  refine ⟨s, _, hrun, hanswered, hanswers.id, fun hmem => ?_, hgone, hrefused 2 9 hinvoked⟩
  exact absurd (honce _ _ _ hmem hanswers.handed) (by decide)

end Sdk

end StateMaster
