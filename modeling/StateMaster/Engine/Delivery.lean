import StateMaster.Engine.Catchup
import StateMaster.Engine.Outbox

/-!
# The change stream along a run

Commits, marks and definitions go on while subscribers come and go and passes run. The log only
grows and what a logged transition has stored is settled, so the invariant of the stream survives
whatever the rest of the engine does (`streamInvariant_of_run`).

A subscriber is followed through the list by its channel (`Continues`), since clients may reuse
ids and the list shifts when others leave.

`delivery_complete` collects what a subscriber can rely on: complete, ordered, duplicate-free
delivery up to its cursor, a cursor that never goes back, and passes that end and catch up.
-/

open Framework Framework.Text

namespace StateMaster

/-! ### Following a subscriber -/

/-- `sub'` is `sub` some steps later. -/
structure Continues (sub sub' : Subscriber) : Prop where
  channel : sub'.channel = sub.channel
  afterSequence : sub'.afterSequence = sub.afterSequence
  delivered_le : sub.InRange → sub.deliveredThrough ≤ sub'.deliveredThrough

theorem Continues.refl (sub : Subscriber) : Continues sub sub := ⟨rfl, rfl, fun _ => le_rfl⟩

section Steps

variable {R : TransitionRecord → ChangeRecord → Prop} {S : Store} {st st' : Stream}

/-- What a step of a pass leaves in the list was there before, with its receiver. -/
theorem PassStep.continues (hstep : PassStep S st st') (hinv : StreamInvariant R S st)
    (hS : LogInvariant S) (hbound : S.sequence < 2 ^ 64 - 1) :
    ∀ sub' ∈ st'.subscribers, ∃ sub ∈ st.subscribers, Continues sub sub' ∧
      (sub'.receiverAlive = true → sub.receiverAlive = true) := by
  have hpass := hinv.pass
  unfold PassFact at hpass
  intro sub' hsub'
  cases hstep with
  | send idx cursor r rest batchLen delivered dead sub hp hsub hwants halive =>
    rcases mem_modify_cases hsub' with hmem | ⟨old, hold, rfl⟩
    · exact ⟨sub', hmem, Continues.refl sub', id⟩
    · exact ⟨old, List.mem_of_getElem? hold, ⟨rfl, rfl, fun _ => le_rfl⟩, id⟩
  | gone idx cursor r rest batchLen delivered dead sub hp hsub hdead =>
    rcases mem_modify_cases hsub' with hmem | ⟨old, hold, rfl⟩
    · exact ⟨sub', hmem, Continues.refl sub', id⟩
    · refine ⟨old, List.mem_of_getElem? hold, ⟨rfl, rfl, fun hin => ?_⟩, id⟩
      -- The record it stopped at is the one after its cursor.
      rw [hp] at hpass
      have hserves := hinv.serves_self hp hold hin
      have hseq := hS.sequence_of_getElem? (hserves.getElem?_cursor hS hbound hin hpass.2)
      have hle := hserves.delivered_le
      change old.deliveredThrough ≤ r.sequence
      omega
  | endBatch idx cursor batchLen delivered dead hp =>
    rcases mem_modify_cases hsub' with hmem | ⟨old, hold, rfl⟩
    · exact ⟨sub', hmem, Continues.refl sub', id⟩
    · exact ⟨old, List.mem_of_getElem? hold,
        ⟨rfl, rfl, fun hin => (hinv.serves_self hp hold hin).delivered_le⟩, id⟩
  | prune delivered dead hp =>
    dsimp only at hsub'
    split at hsub'
    · exact ⟨sub', hsub', Continues.refl sub', id⟩
    · exact ⟨sub', (List.mem_filter.mp hsub').1, Continues.refl sub', id⟩
  | _ => exact ⟨sub', hsub', Continues.refl sub', id⟩

/-- **What stands in the list after a step was there before, or has a new channel.** -/
theorem StreamInvariant.continues (hinv : StreamInvariant R S st) (hS : LogInvariant S)
    (hbound : S.sequence < 2 ^ 64 - 1) {l : StreamLabel} (hfault : ∀ f, l = .pass f → f = none)
    (hstep : st.step S l = some st') : ∀ sub' ∈ st'.subscribers,
      sub'.channel = st.channels ∨ ∃ sub ∈ st.subscribers, Continues sub sub' ∧
        (sub'.receiverAlive = true → sub.receiverAlive = true) := by
  intro sub' hsub'
  cases l with
  | subscribe id machineFilter afterSequence =>
    simp only [Stream.step, Option.ite_none_left_eq_some] at hstep
    obtain rfl := Option.some.inj hstep.2
    rcases List.mem_append.mp hsub' with hmem | hnew
    · exact Or.inr ⟨sub', hmem, Continues.refl sub', fun halive => halive⟩
    · exact Or.inl (List.mem_singleton.mp hnew ▸ rfl)
  | unsubscribe id =>
    simp only [Stream.step, Option.ite_none_left_eq_some] at hstep
    obtain rfl := Option.some.inj hstep.2
    exact Or.inr ⟨sub', (List.mem_filter.mp hsub').1, Continues.refl sub', fun halive => halive⟩
  | dropReceiver channel =>
    obtain rfl := Option.some.inj hstep
    obtain ⟨sub, hsub, rfl⟩ := List.mem_map.mp hsub'
    exact Or.inr ⟨sub, hsub, ⟨rfl, rfl, fun _ => le_rfl⟩,
      fun halive => (Bool.and_eq_true_iff.mp halive).1⟩
  | pass fault =>
    obtain rfl := hfault fault rfl
    exact Or.inr ((passStep_sound hstep).continues hinv hS hbound sub' hsub')

end Steps

/-! ### Runs -/

/-- What a step of the engine does to the stream: a step of the stream over the store as it is, or
nothing. -/
theorem Step.stream_cases {cfg : Config} {w w' : World} {l : Label} (h : Step cfg w l w') :
    (∃ sl st, l = .stream sl ∧ w.stream.step w.store sl = some st ∧
      w' = { w with stream := st }) ∨
    w'.stream = w.stream := by
  cases h with
  | stream sl st hst => exact Or.inl ⟨sl, st, rfl, hst, rfl⟩
  | call i w' h => exact Or.inr h.frame.2.2
  | _ => exact Or.inr rfl

/-- A run of the engine from an empty database in which no storage read of a pass fails, the ids
drawn are fresh, and the counter stays below the last number of `u64`. -/
structure StreamRun (cfg : Config) (guards : GuardRegistry) (ls : List Label) (w : World) :
    Prop where
  run : (engine cfg).exec (World.initial Store.empty guards) ls = some w
  reads : ∀ fault, Label.stream (.pass fault) ∈ ls → fault = none
  fresh : FreshIds ls
  bound : w.store.sequence < 2 ^ 64 - 1

section Runs

variable {cfg : Config} {guards : GuardRegistry} {ls : List Label} {w : World}

/-- A moment of a run has no longer a log than its end. -/
theorem sequence_le_of_stateAt
    (hrun : (engine cfg).exec (World.initial Store.empty guards) ls = some w) {n : ℕ} {wn : World}
    (hn : (engine cfg).stateAt (World.initial Store.empty guards) ls n = some wn) :
    wn.store.sequence ≤ w.store.sequence := by
  obtain ⟨wn', hn', hrest⟩ := System.exec_split hrun n
  obtain rfl := Option.some.inj (hn.symm.trans hn')
  exact System.exec_stable (I := fun w' => wn.store.sequence ≤ w'.store.sequence)
    (fun _ _ _ hw' hstep => hw'.trans (step_sound hstep).sequence_le) hrest le_rfl

/-- Every moment of such a run is one. -/
theorem StreamRun.stateAt (h : StreamRun cfg guards ls w) {n : ℕ} {wn : World}
    (hn : (engine cfg).stateAt (World.initial Store.empty guards) ls n = some wn) :
    StreamRun cfg guards (ls.take n) wn := by
  have hsub : ls.take n ⊆ ls := List.take_subset n ls
  exact ⟨hn, fun fault hmem => h.reads fault (hsub hmem), h.fresh.mono hsub,
    (sequence_le_of_stateAt h.run hn).trans_lt h.bound⟩

theorem StreamRun.log (h : StreamRun cfg guards ls w) : LogInvariant w.store :=
  (keyInvariant_of_run h.run).log

theorem StreamRun.origin (h : StreamRun cfg guards ls w) : OriginInvariant w :=
  originInvariant_of_run h.fresh h.run

/-- The read of a pass label of the run goes through. -/
theorem StreamRun.no_fault (h : StreamRun cfg guards ls w) {sl : StreamLabel}
    (hmem : Label.stream sl ∈ ls) : ∀ f, sl = .pass f → f = none := by
  rintro f rfl
  exact h.reads f hmem

/-- Channels stay apart, whether or not reads fail. -/
theorem ownChannels_of_run {S : Store}
    (hrun : (engine cfg).exec (World.initial S guards) ls = some w) : w.stream.OwnChannels := by
  refine System.exec_induction (I := fun w => w.stream.OwnChannels) Stream.OwnChannels.initial ?_ hrun
  intro w l w' hown hstep
  obtain ⟨sl, st, -, hsl, rfl⟩ | hsame := (step_sound hstep).stream_cases
  · exact hown.step hsl
  · rw [hsame]
    exact hown

/-- What the passes of a run send may stand for the record, at every moment of it: what they send for
the effects they read, what they send if that read fails, and what was sent before. -/
structure Tells (cfg : Config) (guards : GuardRegistry) (ls : List Label)
    (R : Store → TransitionRecord → ChangeRecord → Prop) : Prop where
  send : ∀ n wn, (engine cfg).stateAt (World.initial Store.empty guards) ls n = some wn →
    ∀ r ∈ wn.store.log,
      R wn.store r (r.toChange (RedbEngine.getEffectsForTransition wn.store r.id))
  cut : ∀ n wn f, ls[n]? = some (.stream (.pass (some f))) →
    (engine cfg).stateAt (World.initial Store.empty guards) ls n = some wn →
      ∀ r, wn.stream.Sending r → R wn.store r (r.toChange [])
  keep : ∀ n wn wn' l, ls[n]? = some l →
    (engine cfg).stateAt (World.initial Store.empty guards) ls n = some wn →
    Step cfg wn l wn' → ∀ r ∈ wn.store.log, ∀ change, R wn.store r change → R wn'.store r change

/-- **The invariant of the stream along a run**, whether or not its reads fail. -/
theorem streamInvariant_of_tells {R : Store → TransitionRecord → ChangeRecord → Prop}
    (htells : Tells cfg guards ls R)
    (hrun : (engine cfg).exec (World.initial Store.empty guards) ls = some w)
    (hbound : w.store.sequence < 2 ^ 64 - 1) :
    StreamInvariant (R w.store) w.store w.stream := by
  have hend := hrun
  rw [← System.stateAt_length] at hend
  refine System.stateAt_induction (I := fun w => StreamInvariant (R w.store) w.store w.stream)
    (Nat.zero_le _) rfl hend ⟨?_, ?_⟩ ?_
  · intro idx sub hsub
    change ([] : List Subscriber)[idx]? = some sub at hsub
    exact absurd hsub (by simp)
  · trivial
  · intro n l t t' _ _ hl hn hstep hinv
    have hst := step_sound hstep
    have hlog := (keyInvariant_of_run hn).log
    have hlt : t.store.sequence < 2 ^ 64 - 1 := (sequence_le_of_stateAt hrun hn).trans_lt hbound
    obtain ⟨sl, st, rfl, hsl, rfl⟩ | hsame := hst.stream_cases
    · refine hinv.step hlog hlt (htells.send n t hn) (fun f hf => ?_) hsl
      exact htells.cut n t f (hf ▸ hl) hn
    · -- The stream stands still, and the log it is read against only grows.
      rw [hsame]
      exact hinv.grow (hst.log_grows hlog) (htells.keep n t t' l hl hn hst)

theorem OriginInvariant.publishes (hw : OriginInvariant w) : ∀ r ∈ w.store.log,
    Publishes w.store r (r.toChange (RedbEngine.getEffectsForTransition w.store r.id)) :=
  fun _ hr => hw.outbox.publishes (hw.nulFree hr)

/-- Without a failing read, records are published with their effects. -/
theorem StreamRun.tells (h : StreamRun cfg guards ls w) : Tells cfg guards ls Publishes where
  send n wn hn := (h.stateAt hn).origin.publishes
  cut n wn f hl _ := absurd (h.reads (some f) (List.mem_of_getElem? hl)) (by simp)
  keep n wn wn' l _ hn hst r hr change hpub :=
    hpub.congr ((h.stateAt hn).origin.payloads_step (h.stateAt hn).fresh hn hst hr)

theorem streamInvariant_of_run (h : StreamRun cfg guards ls w) :
    StreamInvariant (Publishes w.store) w.store w.stream ∧ w.stream.OwnChannels :=
  ⟨streamInvariant_of_tells h.tells h.run h.bound, ownChannels_of_run h.run⟩

/-! ### What a subscriber can rely on -/

/-- The records due to a subscriber up to a cursor. -/
def Store.due (S : Store) (sub : Subscriber) (cursor : ℕ) : List TransitionRecord :=
  S.log.filter fun r =>
    decide (sub.afterSequence < r.sequence) && decide (r.sequence ≤ cursor) && sub.wants r

/-- What is due is a piece of the dense log, filtered. -/
theorem LogInvariant.due_eq {S : Store} (hS : LogInvariant S) (sub : Subscriber) (cursor : ℕ) :
    S.due sub cursor = ((S.log.take cursor).drop sub.afterSequence).filter sub.wants := by
  have hnum : S.log.map TransitionRecord.sequence = List.range' (0 + 1) S.log.length := by
    rw [hS.length_log]
    exact hS.log_sequences
  have hnumTake : (S.log.take cursor).map TransitionRecord.sequence
      = List.range' (0 + 1) (S.log.take cursor).length := by
    rw [List.map_take, hnum]
    exact List.ext_getElem (by simp) (by simp)
  have htake := filter_sequence_le cursor hnum
  have hdrop := filter_lt_sequence sub.afterSequence (Nat.zero_le _) hnumTake
  rw [Nat.sub_zero] at htake hdrop
  rw [← hdrop, ← htake, List.filter_filter, List.filter_filter]
  refine List.filter_congr fun r _ => ?_
  rw [Bool.and_comm, Bool.and_assoc]

theorem Publishes.sequence {S : Store} {records : List TransitionRecord}
    {sent : List ChangeRecord} (h : List.Forall₂ (Publishes S) records sent) :
    sent.map ChangeRecord.sequence = records.map TransitionRecord.sequence := by
  induction h with
  | nil => rfl
  | cons hpub _ ih =>
    rw [List.map_cons, List.map_cons, ih, hpub.fields]
    rfl

/-- A subscriber's cursor never goes back. -/
theorem StreamRun.delivered_le (h : StreamRun cfg guards ls w) {m n : ℕ} {wm wn : World}
    {sub sub' : Subscriber} (hmn : m ≤ n)
    (hm : (engine cfg).stateAt (World.initial Store.empty guards) ls m = some wm)
    (hn : (engine cfg).stateAt (World.initial Store.empty guards) ls n = some wn)
    (hsub : sub ∈ wm.stream.subscribers) (hsub' : sub' ∈ wn.stream.subscribers)
    (hchannel : sub'.channel = sub.channel) (hin : sub.InRange) :
    sub.deliveredThrough ≤ sub'.deliveredThrough := by
  have hown := (streamInvariant_of_run (h.stateAt hm)).2
  -- Whoever holds the channel later continues the subscriber that holds it now.
  let I : World → Prop := fun w => sub.channel < w.stream.channels ∧
    ∀ s ∈ w.stream.subscribers, s.channel = sub.channel → Continues sub s
  have hstart : I wm := by
    refine ⟨hown.lt sub hsub, fun s hs hch => ?_⟩
    rw [List.inj_on_of_nodup_map hown.nodup hs hsub hch]
    exact Continues.refl sub
  have hend : I wn := by
    refine System.stateAt_induction (I := I) hmn hm hn hstart ?_
    rintro k l t t' - - hl hk hstep ⟨hlt, hcont⟩
    rcases (step_sound hstep).stream_cases with ⟨sl, st, rfl, hsl, rfl⟩ | hsame
    · have hrun := h.stateAt hk
      obtain ⟨hinv, -⟩ := streamInvariant_of_run hrun
      have hfault := h.no_fault (List.mem_of_getElem? hl)
      refine ⟨hlt.trans_le (Stream.step_channels_le hsl), fun s hs hchan => ?_⟩
      rcases hinv.continues hrun.log hrun.bound hfault hsl s hs with hnew | ⟨s₀, hs₀, hcs, -⟩
      · exact absurd (hnew.symm.trans hchan) hlt.ne'
      · have h₀ := hcont s₀ hs₀ (hcs.channel.symm.trans hchan)
        refine ⟨hchan, hcs.afterSequence.trans h₀.afterSequence, fun hin => ?_⟩
        refine (h₀.delivered_le hin).trans (hcs.delivered_le ?_)
        unfold Subscriber.InRange at hin ⊢
        rwa [h₀.afterSequence]
    · change sub.channel < t'.stream.channels ∧ ∀ s ∈ t'.stream.subscribers, _
      rw [hsame]
      exact ⟨hlt, hcont⟩
  exact (hend.2 sub' hsub' hchannel).delivered_le hin

/-- One pass starts with the label at `a`, scans the list from there on, and is done with the
subscribers after the label at `b`. -/
structure ScansBetween (cfg : Config) (guards : GuardRegistry) (ls : List Label) (a b : ℕ) :
    Prop where
  lt : a < b
  first : ls[a]? = some (.stream (.pass none))
  idle : ∃ wa result,
    (engine cfg).stateAt (World.initial Store.empty guards) ls a = some wa ∧
      wa.stream.pass = .idle result
  scanning : ∀ n wn, a < n → n ≤ b →
    (engine cfg).stateAt (World.initial Store.empty guards) ls n = some wn →
      wn.stream.pass.scanning = true
  done : ∃ wb delivered dead,
    (engine cfg).stateAt (World.initial Store.empty guards) ls (b + 1) = some wb ∧
      wb.stream.pass = .prune delivered dead

/-- A pass over a log that does not grow leaves the subscribers at its end. -/
theorem StreamRun.caughtUp (h : StreamRun cfg guards ls w) {a b : ℕ} {wb : World}
    (hscan : ScansBetween cfg guards ls a b)
    (hb : (engine cfg).stateAt (World.initial Store.empty guards) ls (b + 1) = some wb)
    (hstill : ∀ n wn, a ≤ n → n ≤ b →
      (engine cfg).stateAt (World.initial Store.empty guards) ls n = some wn →
        wn.store.sequence = wb.store.sequence) :
    ∀ sub ∈ wb.stream.subscribers, AtEnd wb.store sub := by
  obtain ⟨wa, result, ha, hidle⟩ := hscan.idle
  -- The first step of the pass: nobody is behind it yet.
  have hstep : (engine cfg).step wa (.stream (.pass none))
      = some { wa with stream := { wa.stream with pass := .scan 0 0 [] } } := by
    simp only [engine, World.step, Stream.step, Stream.passStep, hidle, Option.map_some]
  have hstart := System.stateAt_succ hscan.first ha hstep
  obtain ⟨wb', delivered, dead, hb', hprune⟩ := hscan.done
  obtain rfl := Option.some.inj (hb.symm.trans hb')
  have hcaught : CaughtUp wb.store wb.stream := by
    let I : World → Prop := fun w => CaughtUp w.store w.stream
    have hnobody : I { wa with stream := { wa.stream with pass := .scan 0 0 [] } } :=
      fun j hj => absurd hj (Nat.not_lt_zero j)
    refine System.stateAt_induction (I := I) (Nat.succ_le_succ hscan.lt.le) hstart hb hnobody ?_
    intro k l t t' hak hkb hl hk hstep ih
    have hrun := h.stateAt hk
    rcases (step_sound hstep).stream_cases with ⟨sl, st, rfl, hsl, rfl⟩ | hsame
    · exact CaughtUp.step ih (streamInvariant_of_run hrun).1 hrun.log hrun.bound
        (hscan.scanning k t (by omega) (by omega) hk) (h.no_fault (List.mem_of_getElem? hl)) hsl
    · -- Somebody else moved, and took no sequence number.
      have hk' := System.stateAt_succ hl hk hstep
      have hseq : t'.store.sequence = wb.store.sequence := by
        rcases Nat.lt_succ_iff_lt_or_eq.mp hkb with hlt | rfl
        · exact hstill (k + 1) t' (by omega) (by omega) hk'
        · obtain rfl := Option.some.inj (hb.symm.trans hk')
          rfl
      have hlog := (step_sound hstep).log_eq
        (hseq.trans (hstill k t (by omega) (by omega) hk).symm)
      change CaughtUp t'.store t'.stream
      rw [hsame]
      exact CaughtUp.congr ih hlog
  unfold CaughtUp LeftBehind at hcaught
  rw [hprune] at hcaught
  exact hcaught

/-- Steps of a pass with nobody else moving, as steps of the engine. -/
theorem exec_passes (w : World) {n : ℕ} {st : Stream}
    (h : Stream.passes w.store n w.stream = some st) :
    (engine cfg).exec w (List.replicate n (.stream (.pass none)))
      = some { w with stream := st } := by
  induction n generalizing w with
  | zero =>
    obtain rfl := Option.some.inj h
    rfl
  | succ n ih =>
    obtain ⟨st₁, hst₁, hrest⟩ := Option.bind_eq_some_iff.mp h
    have hstep : (engine cfg).step w (.stream (.pass none))
        = some { w with stream := st₁ } := by
      simp only [engine, World.step, Stream.step, hst₁, Option.map_some]
    rw [List.replicate_succ, System.exec_cons, hstep, Option.bind_some]
    exact ih { w with stream := st₁ } hrest

/-- Left alone, a pass ends; one that starts now also leaves the subscribers at the end. -/
theorem StreamInvariant.pass_ends {R : TransitionRecord → ChangeRecord → Prop}
    (hinv : StreamInvariant R w.store w.stream) (cfg : Config) (hlog : LogInvariant w.store)
    (hbound : w.store.sequence < 2 ^ 64 - 1)
    (hsend : ∀ r ∈ w.store.log,
      R r (r.toChange (RedbEngine.getEffectsForTransition w.store r.id))) :
    ∃ n w', (engine cfg).exec w (List.replicate n (.stream (.pass none))) = some w' ∧ 0 < n ∧
      (∃ k, w'.stream.pass = .idle (some k)) ∧
      ((∃ result, w.stream.pass = .idle result) →
        ∀ sub ∈ w'.stream.subscribers, AtEnd w.store sub) := by
  by_cases hidle : ∃ result, w.stream.pass = .idle result
  · -- The pass has to start first.
    obtain ⟨result, hresult⟩ := hidle
    have hst₁ : w.stream.passStep w.store none
        = some { w.stream with pass := .scan 0 0 [] } := by
      simp only [Stream.passStep, hresult]
    have hinv₁ := hinv.passStep hlog hbound hsend (passStep_sound hst₁)
    obtain ⟨n, st', hpasses, hend, hcaught⟩ :=
      passes_finish hlog hbound hsend hinv₁ (fun _ => PassState.noConfusion)
    have hall : Stream.passes w.store (n + 1 + 1) w.stream = some st' := by
      rw [Stream.passes, hst₁, Option.bind_some]
      exact hpasses
    refine ⟨n + 1 + 1, _, exec_passes w hall, Nat.succ_pos _, hend, fun _ => hcaught ?_⟩
    exact fun j hj => absurd hj (Nat.not_lt_zero j)
  · obtain ⟨n, st', hpasses, hend, -⟩ :=
      passes_finish hlog hbound hsend hinv fun result hr => hidle ⟨result, hr⟩
    exact ⟨n + 1, _, exec_passes w hpasses, Nat.succ_pos _, hend, fun hi => absurd hi hidle⟩

/-- **The change stream delivers completely, in order and once.** In every run without a failing
read of a pass, whatever commits land inside the passes, and for every subscriber below the
wrap-around:

* what a live subscriber was sent is what is due to it up to the cursor it has been served to, each
  record once with its stored effects, in increasing sequence; the cursor is the stored
  `delivered_through`, except inside a batch of this subscriber, where it runs ahead of it;
* its `delivered_through` never decreases;
* a pass over a log that does not grow is done with `delivered_through` at the end of the log for
  every live subscriber, or at the cursor it asked for if that is beyond;
* a pass left alone ends, from wherever it is. -/
theorem delivery_complete (h : StreamRun cfg guards ls w) :
    (∀ idx sub, w.stream.subscribers[idx]? = some sub → sub.afterSequence < 2 ^ 64 - 1 →
      sub.receiverAlive = true →
        List.Forall₂ (Publishes w.store) (w.store.due sub (w.stream.pass.cursorOf idx sub))
          sub.sent ∧
        (sub.sent.map ChangeRecord.sequence).Pairwise (· < ·) ∧
        (w.stream.pass.scanning = false →
          w.stream.pass.cursorOf idx sub = sub.deliveredThrough)) ∧
    (∀ m n wm wn sub sub', m ≤ n →
      (engine cfg).stateAt (World.initial Store.empty guards) ls m = some wm →
      (engine cfg).stateAt (World.initial Store.empty guards) ls n = some wn →
      sub ∈ wm.stream.subscribers → sub' ∈ wn.stream.subscribers → sub'.channel = sub.channel →
      sub.afterSequence < 2 ^ 64 - 1 → sub.deliveredThrough ≤ sub'.deliveredThrough) ∧
    (∀ a b wb, ScansBetween cfg guards ls a b →
      (engine cfg).stateAt (World.initial Store.empty guards) ls (b + 1) = some wb →
      (∀ n wn, a ≤ n → n ≤ b →
        (engine cfg).stateAt (World.initial Store.empty guards) ls n = some wn →
          wn.store.sequence = wb.store.sequence) →
      ∀ sub ∈ wb.stream.subscribers, sub.afterSequence < 2 ^ 64 - 1 →
        sub.receiverAlive = true →
          sub.deliveredThrough = max sub.afterSequence wb.store.sequence) ∧
    (∃ n w', (engine cfg).exec w (List.replicate n (.stream (.pass none))) = some w' ∧ 0 < n ∧
      (∃ k, w'.stream.pass = .idle (some k)) ∧
      ((∃ result, w.stream.pass = .idle result) →
        ∀ sub ∈ w'.stream.subscribers, sub.afterSequence < 2 ^ 64 - 1 →
          sub.receiverAlive = true →
            sub.deliveredThrough = max sub.afterSequence w.store.sequence)) := by
  refine ⟨?_, ?_, ?_, ?_⟩
  · intro idx sub hsub hin halive
    have hserves := (streamInvariant_of_run h).1.serves idx sub hsub hin
    have hsent := hserves.sent halive
    rw [← h.log.due_eq] at hsent
    refine ⟨hsent, ?_, fun hscan => PassState.cursorOf_of_not_scanning hscan idx sub⟩
    -- The due records stand in the log in their order.
    rw [Publishes.sequence hsent]
    have hsub : ((w.store.due sub (w.stream.pass.cursorOf idx sub)).map
        TransitionRecord.sequence).Sublist (w.store.log.map TransitionRecord.sequence) :=
      List.Sublist.map _ List.filter_sublist
    rw [h.log.log_sequences] at hsub
    exact List.Pairwise.sublist hsub (List.pairwise_lt_range' ..)
  · intro m n wm wn sub sub' hmn hm hn hsub hsub' hchannel hin
    exact h.delivered_le hmn hm hn hsub hsub' hchannel hin
  · intro a b wb hscan hb hstill sub hsub hin halive
    obtain hend := h.caughtUp hscan hb hstill sub hsub hin halive
    rwa [(h.stateAt hb).log.length_log] at hend
  · obtain ⟨n, w', hexec, hpos, hidle, hend⟩ :=
      (streamInvariant_of_run h).1.pass_ends cfg h.log h.bound h.origin.publishes
    refine ⟨n, w', hexec, hpos, hidle, fun hi sub hsub hin halive => ?_⟩
    rw [← h.log.length_log]
    exact hend hi sub hsub hin halive

end Runs

/-- The next `n` steps of a pass. -/
def passSteps (n : ℕ) : List Label := List.replicate n (.stream (.pass none))

/-- A payment is committed before the pass, another one while the pass is inside its batch. -/
def paymentInsidePass : List Label :=
  [Label.defineMachine orderMachine none, Label.stream (.subscribe "s" none 0),
    Label.invoke 0 (payOrder 0 "o1" none)] ++ steps 0 8 ++ passSteps 3
  ++ [Label.invoke 1 (payOrder 1 "o2" none)] ++ steps 1 8 ++ passSteps 4

theorem delivery_complete_paymentInsidePass :
    ∃ w sub, (engine oneStripe).exec (World.initial Store.empty ∅) paymentInsidePass = some w ∧
      w.store.sequence = 2 ∧ w.stream.subscribers[0]? = some sub ∧ sub.sent.length = 1 ∧
      List.Forall₂ (Publishes w.store) (w.store.due sub 1) sub.sent := by
  have heval : ((engine oneStripe).exec (World.initial Store.empty ∅) paymentInsidePass).map
      (fun w => (w.stream.pass.scanning, w.stream.subscribers.map fun sub => (sub.receiverAlive,
        [w.store.sequence, sub.afterSequence, sub.deliveredThrough, sub.sent.length])))
      = some (false, [(true, [2, 0, 1, 1])]) := by decide
  obtain ⟨w, hrun, hw⟩ := Option.map_eq_some_iff.mp heval
  obtain ⟨hscan, hsubs⟩ := Prod.mk.inj hw
  obtain ⟨sub, hsub, hfields⟩ :=
    Option.map_eq_some_iff.mp (List.getElem?_map ▸ congrArg (·[0]?) hsubs)
  simp only [Prod.mk.injEq, List.cons.injEq] at hfields
  obtain ⟨halive, hseq, hafter, hdelivered, hlen, -⟩ := hfields
  have hdraws : ∀ i c, Label.invoke i c ∈ paymentInsidePass → c.draws = Draws.ofNat i := by
    intro i c hmem
    simp only [paymentInsidePass, steps, passSteps, List.mem_append, List.mem_cons,
      List.mem_replicate, List.not_mem_nil, reduceCtorEq, Label.invoke.injEq, and_false, or_false,
      false_or] at hmem
    rcases hmem with ⟨rfl, rfl⟩ | ⟨rfl, rfl⟩
    · rfl
    · rfl
  have hreads : ∀ fault, Label.stream (.pass fault) ∈ paymentInsidePass → fault = none := by
    intro fault hmem
    simpa [paymentInsidePass, steps, passSteps] using hmem
  have hstream : StreamRun oneStripe ∅ paymentInsidePass w :=
    ⟨hrun, hreads, FreshIds.of_ofNat hdraws, by rw [hseq]; decide⟩
  obtain ⟨hsent, -, hcursor⟩ :=
    (delivery_complete hstream).1 0 sub hsub (by rw [hafter]; decide) halive
  rw [hcursor hscan, hdelivered] at hsent
  exact ⟨w, sub, hrun, hseq, hsub, hlen, hsent⟩

end StateMaster
