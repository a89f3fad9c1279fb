import StateMaster.Engine.IndexOrder
import StateMaster.Engine.Outcome

/-!
# Transitions on distinct pairs commute

Two requests share the counter, the log, every index and the idempotency table, so the two orders of
running them lead to stores that differ in their sequences and in the index keys made from them. What
a client reads is the same up to what is drawn or counted, with one exception.

History is read off the index in the order of its keys, where a key of a pair with the separator in
its names may stand *between* two keys of another pair. A request whose record gets the next sequence
in one order, and the one after it in the other, is then listed before such a record or after it
(`Store.Parts`).

* `SameView` — the part of the tables a request looks at; a request on another pair and with another
  key leaves it alone (`Leaves.view`), and it decides the outcome (`Outcomes.corresponds`);
* `Leaves` — what a request leaves behind, as the reads see it: a history gets the new record at the
  place of its key (`placed`);
* `Leaves.own_agrees`, `Leaves.own_differs` — whether the history of a request's pair depends on who
  went first;
* `transitions_commute_iff` — both orders give the same outcomes and the same reads, unless both
  requests write and a record stands between the places one of them can get.
-/

open Framework Framework.Text

namespace StateMaster

/-! ### Up to sequences, generated ids and timestamps -/

def TransitionResult.upToDraws (res : TransitionResult) : TransitionResult :=
  { res with transitionId := "", sequence := 0, timestamp := 0 }

def TransitionRecord.upToDraws (r : TransitionRecord) : TransitionRecord :=
  { r with id := "", sequence := 0, timestamp := 0 }

def EntityState.upToDraws (row : EntityState) : EntityState :=
  { row with updatedAt := 0, createdAt := 0 }

/-- The same request, made a second time: ids and times may be drawn anew, as long as no guard tells
the difference. -/
structure SameRequest (guards : GuardRegistry) (c c' : Call) : Prop where
  entityId : c'.entityId = c.entityId
  machine : c'.machine = c.machine
  event : c'.event = c.event
  actor : c'.actor = c.actor
  ctx : c'.ctx = c.ctx
  expectedVersion : c'.expectedVersion = c.expectedVersion
  idempotencyKey : c'.idempotencyKey = c.idempotencyKey
  guards : ∀ (g : GuardName) (f : GuardFn) (current : Current), guards[g]? = some f →
    f (Engine.guardState c' current) c.ctx = f (Engine.guardState c current) c.ctx

theorem SameRequest.refl (guards : GuardRegistry) (c : Call) : SameRequest guards c c :=
  ⟨rfl, rfl, rfl, rfl, rfl, rfl, rfl, fun _ _ _ _ => rfl⟩

theorem SameRequest.symm {guards : GuardRegistry} {c c' : Call} (h : SameRequest guards c c') :
    SameRequest guards c' c :=
  ⟨h.entityId.symm, h.machine.symm, h.event.symm, h.actor.symm, h.ctx.symm,
    h.expectedVersion.symm, h.idempotencyKey.symm, fun g f current hg => by
      rw [h.ctx]
      exact (h.guards g f current hg).symm⟩

theorem SameRequest.stateKey {guards : GuardRegistry} {c c' : Call}
    (h : SameRequest guards c c') : c'.stateKey = c.stateKey := by
  unfold Call.stateKey
  rw [h.entityId, h.machine]

/-- Two requests on different pairs of NUL-free names, without a key in common. -/
structure Independent (c d : Call) : Prop where
  left : NulFree c.entityId ∧ NulFree c.machine
  right : NulFree d.entityId ∧ NulFree d.machine
  pair : (c.entityId, c.machine) ≠ (d.entityId, d.machine)
  key : ∀ key, c.idempotencyKey = some key → d.idempotencyKey ≠ some key

theorem Independent.symm {c d : Call} (h : Independent c d) : Independent d c :=
  ⟨h.right, h.left, h.pair.symm, fun key hd hc => h.key key hc hd⟩

theorem Independent.sameRequest {guards : GuardRegistry} {c c' d : Call} (h : Independent c d)
    (hc : SameRequest guards c c') : Independent c' d := by
  refine ⟨?_, h.right, ?_, ?_⟩
  · rw [hc.entityId, hc.machine]
    exact h.left
  · rw [hc.entityId, hc.machine]
    exact h.pair
  · rw [hc.idempotencyKey]
    exact h.key

/-! ### What a request looks at -/

/-- The two stores look the same to the request, and the second still has what the first logged. -/
structure SameView (c : Call) (S T : Store) : Prop where
  machine : T.machines[c.machine]? = S.machines[c.machine]?
  row : T.entityStates[c.stateKey]? = S.entityStates[c.stateKey]?
  key : ∀ key, c.idempotencyKey = some key → T.idempotency[key]? = S.idempotency[key]?
  record : ∀ (s : ℕ) (r : TransitionRecord), S.transitions[s]? = some r →
    T.transitions[s]? = some r

section Views

variable {S T : Store} {guards : GuardRegistry} {c c' : Call}

/-- The state and the version a request starts from; the creation time of a fresh entity is drawn. -/
theorem SameView.currentOf (hview : SameView c S T) (hc : SameRequest guards c c')
    (definition : MachineDefinition) :
    (T.currentOf c' definition).state = (S.currentOf c definition).state ∧
      (T.currentOf c' definition).version = (S.currentOf c definition).version := by
  unfold Store.currentOf
  rw [hc.stateKey, hview.row]
  cases S.entityStates[c.stateKey]? with
  | none => exact ⟨rfl, rfl⟩
  | some row => exact ⟨rfl, rfl⟩

theorem SameView.keyFree (hview : SameView c S T) (hc : SameRequest guards c c')
    (hfree : S.KeyFree c) : T.KeyFree c' := by
  intro key hkey
  rw [hc.idempotencyKey] at hkey
  rw [hview.key key hkey]
  exact hfree key hkey

/-- A guard answers both the same: it sees the same state, and other times at most. -/
theorem SameRequest.refuses_iff (hc : SameRequest guards c c') {current current' : Current}
    (hstate : current'.state = current.state) (hversion : current'.version = current.version)
    (g : GuardName) :
    Engine.Refuses guards c' current' g ↔ Engine.Refuses guards c current g := by
  have hsame : Engine.guardState c' current' = Engine.guardState c' current := by
    unfold Engine.guardState
    rw [hstate, hversion]
  unfold Engine.Refuses
  rw [hsame, hc.ctx]
  refine exists_congr fun f => and_congr_right fun hf => ?_
  rw [hc.guards g f current hf]

/-- The two ends of one request in two stores that look the same to it. -/
inductive Corresponds (S T : Store) (c c' : Call) :
    Except EngineError (TransitionResult × Store) →
      Except EngineError (TransitionResult × Store) → Prop where
  | refused (e : EngineError) : Corresponds S T c c' (.error e) (.error e)
  | replayed (r : TransitionRecord) (hbound : ¬ S.KeyFree c) (hbound' : ¬ T.KeyFree c') :
      Corresponds S T c c' (.ok (r.toResult, S)) (.ok (r.toResult, T))
  | committed (definition : MachineDefinition) (rule : TransitionRule) (current current' : Current)
      (hstate : current'.state = current.state) (hversion : current'.version = current.version)
      (hfree : S.KeyFree c) (hfree' : T.KeyFree c') :
      Corresponds S T c c'
        (.ok ((Engine.loggedRecord c current rule (S.sequence + 1)).toResult,
          S.plus (Engine.loggedRecord c current rule (S.sequence + 1))
            (Engine.writtenRow c current rule) (Engine.emittedEffects c definition)))
        (.ok ((Engine.loggedRecord c' current' rule (T.sequence + 1)).toResult,
          T.plus (Engine.loggedRecord c' current' rule (T.sequence + 1))
            (Engine.writtenRow c' current' rule) (Engine.emittedEffects c' definition)))

/-- **What a request looks at decides how it ends.** -/
theorem Engine.Outcomes.corresponds (hview : SameView c S T) (hc : SameRequest guards c c')
    {res : Except EngineError (TransitionResult × Store)} (h : Engine.Outcomes S guards c res) :
    ∃ res', Engine.Outcomes T guards c' res' ∧ Corresponds S T c c' res res' := by
  have hmachine : T.machines[c'.machine]? = S.machines[c.machine]? := by
    rw [hc.machine, hview.machine]
  cases h with
  | replay key s existing hkey hbound hrecord =>
    have hbound' : T.idempotency[key]? = some s := (hview.key key hkey).trans hbound
    have hkey' := hc.idempotencyKey.trans hkey
    refine ⟨_, .replay key s existing hkey' hbound' (hview.record s existing hrecord),
      .replayed existing (fun hfree => ?_) fun hfree => ?_⟩
    · exact absurd ((hfree key hkey).symm.trans hbound) (by simp)
    · exact absurd ((hfree key hkey').symm.trans hbound') (by simp)
  | notFound hfree hnone =>
    refine ⟨_, .notFound (hview.keyFree hc hfree) (hmachine.trans hnone), ?_⟩
    rw [hc.machine]
    exact .refused _
  | versionConflict definition expected hfree hdef hexpected hne =>
    obtain ⟨-, hversion⟩ := hview.currentOf hc definition
    refine ⟨_, .versionConflict definition expected (hview.keyFree hc hfree)
      (hmachine.trans hdef) (hc.expectedVersion.trans hexpected) (by rw [hversion]; exact hne), ?_⟩
    rw [hversion, hc.entityId, hc.machine]
    exact .refused _
  | illegalTransition definition hfree hdef hfits hnone =>
    obtain ⟨hstate, hversion⟩ := hview.currentOf hc definition
    refine ⟨_, .illegalTransition definition (hview.keyFree hc hfree) (hmachine.trans hdef)
      (by rw [hc.expectedVersion, hversion]; exact hfits)
      (by rw [hstate, hc.event]; exact hnone), ?_⟩
    rw [hstate, hc.entityId, hc.event]
    exact .refused _
  | guardFailed definition rule before g after hfree hdef hfits hrule hguards hbefore hrefuses =>
    obtain ⟨hstate, hversion⟩ := hview.currentOf hc definition
    refine ⟨_, .guardFailed definition rule before g after (hview.keyFree hc hfree)
      (hmachine.trans hdef) (by rw [hc.expectedVersion, hversion]; exact hfits)
      (by rw [hstate, hc.event]; exact hrule) hguards (fun g' hg' => ?_) ?_, .refused _⟩
    · rw [hc.refuses_iff hstate hversion]
      exact hbefore g' hg'
    · rw [hc.refuses_iff hstate hversion]
      exact hrefuses
  | committed definition rule hfree hdef hfits hrule hguards =>
    obtain ⟨hstate, hversion⟩ := hview.currentOf hc definition
    refine ⟨_, .committed definition rule (hview.keyFree hc hfree) (hmachine.trans hdef)
      (by rw [hc.expectedVersion, hversion]; exact hfits)
      (by rw [hstate, hc.event]; exact hrule) (fun g hg => ?_),
      .committed definition rule _ _ hstate hversion hfree (hview.keyFree hc hfree)⟩
    rw [hc.refuses_iff hstate hversion]
    exact hguards g hg

end Views

/-! ### What a request leaves -/

/-- The store after a request, as the reads see it: `new` is the record and the row it wrote, if it
wrote any. -/
structure Leaves (S : Store) (c : Call) (new : Option (TransitionRecord × EntityState))
    (S' : Store) : Prop where
  rows : ∀ key : String, S'.entityStates[key]?
    = if key = c.stateKey then (new.map Prod.snd).or S.entityStates[key]?
      else S.entityStates[key]?
  history : ∀ (e m : String) (after : ℕ), after ≤ S.sequence →
    S'.selected e m after
      = if c.entityId = e ∧ c.machine = m
        then new.elim (S.selected e m after) fun p => placed p.1 (S.selected e m after)
        else S.selected e m after
  named : ∀ p, new = some p →
    p.1.entityId = c.entityId ∧ p.1.machine = c.machine ∧ p.1.sequence = S.sequence + 1
  log : LogInvariant S'
  sequence : S'.sequence = S.sequence + new.toList.length
  view : ∀ d, Independent c d → SameView d S S'

section Leaving

variable {S : Store} {c : Call}

theorem Leaves.unchanged (hS : LogInvariant S) : Leaves S c none S where
  rows key := by
    rw [Option.map_none, Option.none_or, ite_self]
  history e m after _ := by
    rw [Option.elim_none, ite_self]
  named p hp := absurd hp (by simp)
  log := hS
  sequence := rfl
  view _ _ := ⟨rfl, rfl, fun _ _ => rfl, fun _ _ h => h⟩

theorem Store.plus_appends {record : TransitionRecord} {row : EntityState}
    {emitted : List Effect} (hseq : record.sequence = S.sequence + 1) :
    Appends S record (S.plus record row emitted) := by
  have hrecord : { record with sequence := S.sequence + 1 } = record := by rw [← hseq]
  refine ⟨?_, ?_, ?_, ?_, ?_⟩
  · rw [hrecord, ← hseq]
    rfl
  · rw [← hseq]
    rfl
  · rw [← hseq]
    rfl
  · rw [← hseq]
    cases hkey : record.idempotencyKey with
    | none =>
      refine Or.inl ?_
      change record.idempotencyKey.elim _ _ = _
      rw [hkey]
      rfl
    | some key =>
      refine Or.inr ⟨key, rfl, ?_⟩
      change record.idempotencyKey.elim _ _ = _
      rw [hkey]
      rfl
  · rw [← hseq]
    rfl

theorem Leaves.commit (hS : LogInvariant S) (he : NulFree c.entityId) (hm : NulFree c.machine)
    (current : Current) (rule : TransitionRule) (emitted : List Effect) :
    Leaves S c (some (Engine.loggedRecord c current rule (S.sequence + 1),
        Engine.writtenRow c current rule))
      (S.plus (Engine.loggedRecord c current rule (S.sequence + 1))
        (Engine.writtenRow c current rule) emitted) := by
  have happ : Appends S (Engine.loggedRecord c current rule (S.sequence + 1))
      (S.plus (Engine.loggedRecord c current rule (S.sequence + 1))
        (Engine.writtenRow c current rule) emitted) := Store.plus_appends rfl
  refine ⟨fun key => ?_, fun e m after hafter => happ.selected hS he hm e m hafter, ?_,
    happ.invariant hS, happ.sequence, fun d hd => ?_⟩
  · change (S.entityStates.insert c.stateKey (Engine.writtenRow c current rule))[key]? = _
    rw [Table.get_insert]
    by_cases hkey : key = c.stateKey
    · rw [if_pos hkey, if_pos hkey.symm]
      rfl
    · rw [if_neg hkey, if_neg fun heq => hkey heq.symm]
  · rintro p hp
    obtain rfl := Option.some.inj hp
    exact ⟨rfl, rfl, rfl⟩
  · refine ⟨rfl, ?_, fun key hkey => ?_, fun s r hr => happ.transitions_mono hS hr⟩
    · -- another pair of NUL-free names has another key
      refine Table.get_insert_of_ne _ _ fun heq => hd.pair ?_
      have hpre := startsWith_prefix_of_key_eq (e := d.entityId) (m := d.machine) heq
      obtain ⟨hent, hmach⟩ := (startsWith_entityTransitionPrefix_iff he hm).mp hpre
      exact Prod.ext hent hmach
    · change (c.idempotencyKey.elim S.idempotency fun k =>
        S.idempotency.insert k (S.sequence + 1))[key]? = _
      cases hk : c.idempotencyKey with
      | none => rfl
      | some k =>
        refine Table.get_insert_of_ne _ _ fun heq => ?_
        exact hd.key k hk (heq ▸ hkey)

end Leaving

/-! ### The same request in two stores -/

/-- The request writes: it ends well, and is not the replay of a bound key. -/
def Engine.Commits (S : Store) (guards : GuardRegistry) (c : Call) : Prop :=
  S.KeyFree c ∧ ∃ res S', Engine.transition S guards false c = .ok (res, S')

/-- What a request wrote, up to what is drawn or counted. -/
def writtenUpToDraws (new : Option (TransitionRecord × EntityState)) :
    Option (TransitionRecord × EntityState) :=
  new.map fun p => (p.1.upToDraws, p.2.upToDraws)

section Alone

variable {S T : Store} {guards : GuardRegistry} {c c' : Call}

theorem Engine.not_commits_of_error {e : EngineError}
    (h : Engine.transition S guards false c = .error e) : ¬ Engine.Commits S guards c := by
  rintro ⟨-, res, S', hok⟩
  exact absurd (h.symm.trans hok) (by simp)

/-- **One request in two stores that look the same to it**: the same outcome, and the same written. -/
theorem SameView.runAlone (hview : SameView c S T) (hc : SameRequest guards c c')
    (hf : c.faults = CallFaults.none) (hf' : c'.faults = CallFaults.none)
    (hnul : NulFree c.entityId ∧ NulFree c.machine) (hS : LogInvariant S) (hT : LogInvariant T) :
    (Engine.runAlone guards false T c').1.map TransitionResult.upToDraws
      = (Engine.runAlone guards false S c).1.map TransitionResult.upToDraws ∧
    ∃ new new', Leaves S c new (Engine.runAlone guards false S c).2 ∧
      Leaves T c' new' (Engine.runAlone guards false T c').2 ∧
      writtenUpToDraws new' = writtenUpToDraws new ∧
      (new.isSome = true ↔ Engine.Commits S guards c) ∧
      (new'.isSome = true ↔ Engine.Commits T guards c') := by
  obtain ⟨res, hres⟩ := Engine.Outcomes.exists hS guards c
  obtain ⟨res', hres', hcorr⟩ := hres.corresponds hview hc
  have hsound := hres.sound hf
  have hsound' := hres'.sound hf'
  rw [Engine.runAlone_of_eq hsound, Engine.runAlone_of_eq hsound']
  cases hcorr with
  | refused e =>
    exact ⟨rfl, none, none, .unchanged hS, .unchanged hT, rfl,
      iff_of_false Bool.false_ne_true (Engine.not_commits_of_error hsound),
      iff_of_false Bool.false_ne_true (Engine.not_commits_of_error hsound')⟩
  | replayed r hbound hbound' =>
    exact ⟨rfl, none, none, .unchanged hS, .unchanged hT, rfl,
      iff_of_false Bool.false_ne_true fun h => hbound h.1,
      iff_of_false Bool.false_ne_true fun h => hbound' h.1⟩
  | committed definition rule current current' hstate hversion hfree hfree' =>
    refine ⟨?_, _, _, .commit hS hnul.1 hnul.2 current rule _, .commit hT ?_ ?_ current' rule _, ?_,
      iff_of_true rfl ⟨hfree, _, _, hsound⟩, iff_of_true rfl ⟨hfree', _, _, hsound'⟩⟩
    · -- the same fields, apart from the drawn ones
      refine congrArg Except.ok ?_
      simp only [TransitionRecord.toResult, TransitionResult.upToDraws, Engine.loggedRecord,
        hc.entityId, hc.machine, hstate, hversion]
    · rw [hc.entityId]
      exact hnul.1
    · rw [hc.machine]
      exact hnul.2
    · simp only [writtenUpToDraws, Option.map_some, TransitionRecord.upToDraws,
        EntityState.upToDraws, Engine.loggedRecord, Engine.writtenRow, hc.entityId, hc.machine,
        hc.event, hc.actor, hc.ctx, hc.idempotencyKey, hstate, hversion]

end Alone

/-! ### Both orders -/

/-- Reads cannot tell the two stores apart, up to what is drawn or counted. A cursor is a sequence, so
the histories are compared from cursors in what both stores have in common. -/
structure SameReadsUpToDraws (common : ℕ) (S T : Store) : Prop where
  current : ∀ e m, (Engine.current T e m none).map EntityState.upToDraws
    = (Engine.current S e m none).map EntityState.upToDraws
  history : ∀ e m limit after, after.getD 0 ≤ common →
    (Engine.history T e m limit after none).map (List.map TransitionRecord.upToDraws)
      = (Engine.history S e m limit after none).map (List.map TransitionRecord.upToDraws)

theorem map_placed_of_same_side {r r' : TransitionRecord} {l : List TransitionRecord}
    (hdraws : r'.upToDraws = r.upToDraws)
    (hsides : ∀ x ∈ l, (x.indexKey < r.indexKey ↔ x.indexKey < r'.indexKey) ∧
      (r.indexKey < x.indexKey ↔ r'.indexKey < x.indexKey)) :
    (placed r' l).map TransitionRecord.upToDraws = (placed r l).map TransitionRecord.upToDraws := by
  have hbelow : l.filter (fun x => decide (x.indexKey < r'.indexKey))
      = l.filter fun x => decide (x.indexKey < r.indexKey) :=
    List.filter_congr fun x hx => decide_eq_decide.mpr (hsides x hx).1.symm
  have habove : l.filter (fun x => decide (r'.indexKey < x.indexKey))
      = l.filter fun x => decide (r.indexKey < x.indexKey) :=
    List.filter_congr fun x hx => decide_eq_decide.mpr (hsides x hx).2.symm
  unfold placed
  rw [hbelow, habove, List.map_append, List.map_append, List.map_cons, List.map_cons, hdraws]

theorem foreignTail_upToDraws (e m : String) (l : List TransitionRecord) :
    foreignTail e m (l.map TransitionRecord.upToDraws) = foreignTail e m l := by
  unfold foreignTail
  rw [← List.map_reverse, List.takeWhile_map, List.length_map]
  rfl

section Orders

variable {S S₁ S₂ S₁₂ S₂₁ : Store} {guards : GuardRegistry} {c c' d d' : Call}
  {new₁ new₁' new₂ new₂' : Option (TransitionRecord × EntityState)}

/-- **The place of a request's record when it goes first, and when it goes second.** -/
theorem Leaves.own_selected (hind : Independent c d') (hc : SameRequest guards c c')
    (h₁ : Leaves S c new₁ S₁) (h₂ : Leaves S d' new₂ S₂) (h₂₁ : Leaves S₂ c' new₁' S₂₁) {after : ℕ}
    (hafter : after ≤ S.sequence) :
    S₁.selected c.entityId c.machine after = new₁.elim (S.selected c.entityId c.machine after)
        (fun p => placed p.1 (S.selected c.entityId c.machine after)) ∧
    S₂₁.selected c.entityId c.machine after = new₁'.elim (S.selected c.entityId c.machine after)
        (fun p => placed p.1 (S.selected c.entityId c.machine after)) := by
  have hother : ¬ (d'.entityId = c.entityId ∧ d'.machine = c.machine) :=
    fun h => hind.pair (Prod.ext h.1.symm h.2.symm)
  have hafter₂ : after ≤ S₂.sequence := by
    rw [h₂.sequence]
    omega
  refine ⟨?_, ?_⟩
  · rw [h₁.history _ _ _ hafter, if_pos ⟨rfl, rfl⟩]
  · rw [h₂₁.history _ _ _ hafter₂, if_pos ⟨hc.entityId, hc.machine⟩, h₂.history _ _ _ hafter,
      if_neg hother]

/-- The keys of the two. -/
theorem Leaves.own_keys (hc : SameRequest guards c c') {p p' : TransitionRecord × EntityState}
    (h₁ : Leaves S c (some p) S₁) (h₂ : Leaves S d' new₂ S₂) (h₂₁ : Leaves S₂ c' (some p') S₂₁) :
    p.1.indexKey = entityTransitionKey c.entityId c.machine (S.sequence + 1) ∧
      p'.1.indexKey
        = entityTransitionKey c.entityId c.machine (S.sequence + new₂.toList.length + 1) := by
  obtain ⟨he, hm, hseq⟩ := h₁.named p rfl
  obtain ⟨he', hm', hseq'⟩ := h₂₁.named p' rfl
  unfold TransitionRecord.indexKey
  rw [he, hm, hseq, he', hm', hseq', hc.entityId, hc.machine, h₂.sequence]
  exact ⟨rfl, rfl⟩

/-- **The history of a request's pair does not depend on who went first**, unless both requests write
and a record stands between the two places. -/
theorem Leaves.own_agrees (hS : LogInvariant S) (hroom : S.sequence + 2 < 10 ^ 20)
    (hind : Independent c d') (hc : SameRequest guards c c') (h₁ : Leaves S c new₁ S₁)
    (h₂ : Leaves S d' new₂ S₂) (h₂₁ : Leaves S₂ c' new₁' S₂₁)
    (hnew₁ : writtenUpToDraws new₁' = writtenUpToDraws new₁)
    (hparts : new₁.isSome = true → new₂.isSome = true → ¬ S.Parts c.entityId c.machine) {after : ℕ}
    (hafter : after ≤ S.sequence) :
    (S₂₁.selected c.entityId c.machine after).map TransitionRecord.upToDraws
      = (S₁.selected c.entityId c.machine after).map TransitionRecord.upToDraws := by
  obtain ⟨hfirst, hsecond⟩ := Leaves.own_selected hind hc h₁ h₂ h₂₁ hafter
  rw [hfirst, hsecond]
  cases new₁ with
  | none =>
    obtain rfl := Option.map_eq_none_iff.mp hnew₁
    rfl
  | some p =>
    obtain ⟨p', rfl, heq⟩ := Option.map_eq_some_iff.mp hnew₁
    obtain ⟨hkey, hkey'⟩ := Leaves.own_keys hc h₁ h₂ h₂₁
    refine map_placed_of_same_side (Prod.mk.inj heq).1 fun x hx => ?_
    rw [hkey, hkey']
    cases new₂ with
    | none => exact ⟨Iff.rfl, Iff.rfl⟩
    | some p₂ => exact hS.same_side hroom (hparts rfl rfl) (hS.mem_selected_iff.mp hx).1

/-- **It does if both write and a record stands between.** -/
theorem Leaves.own_differs (hS : LogInvariant S) (hroom : S.sequence + 2 < 10 ^ 20)
    (hind : Independent c d') (hc : SameRequest guards c c')
    {p p' p₂ : TransitionRecord × EntityState} (h₁ : Leaves S c (some p) S₁)
    (h₂ : Leaves S d' (some p₂) S₂) (h₂₁ : Leaves S₂ c' (some p') S₂₁)
    (hparts : S.Parts c.entityId c.machine) :
    (S₂₁.selected c.entityId c.machine 0).map TransitionRecord.upToDraws
      ≠ (S₁.selected c.entityId c.machine 0).map TransitionRecord.upToDraws := by
  intro hsame
  obtain ⟨hfirst, hsecond⟩ := Leaves.own_selected hind hc h₁ h₂ h₂₁ (Nat.zero_le _)
  obtain ⟨hkey, hkey'⟩ := Leaves.own_keys hc h₁ h₂ h₂₁
  obtain ⟨he, hm, hseq⟩ := h₁.named p rfl
  obtain ⟨he', hm', hseq'⟩ := h₂₁.named p' rfl
  have hseq₂ := h₂.sequence
  simp only [Option.toList_some, List.length_singleton] at hkey' hseq₂
  obtain ⟨x, hx, hlow, hhigh⟩ := hparts
  have hsel := hS.mem_selected_of_between hx hlow hhigh
  -- the record is behind the new one in the one list, and before it in the other
  have htail := congrArg (foreignTail c.entityId c.machine) hsame
  rw [foreignTail_upToDraws, foreignTail_upToDraws, hfirst, hsecond, Option.elim_some,
    Option.elim_some, hS.foreignTail_placed (he'.trans hc.entityId) (hm'.trans hc.machine) (by omega)
      (by omega), hS.foreignTail_placed he hm (by omega) (by omega), hkey, hkey'] at htail
  have hkeys : entityTransitionKey c.entityId c.machine (S.sequence + 1)
      < entityTransitionKey c.entityId c.machine (S.sequence + 1 + 1) :=
    entityTransitionKey_lt_succ hroom
  have hnested : (S.selected c.entityId c.machine 0).filter (fun y =>
        decide (entityTransitionKey c.entityId c.machine (S.sequence + 1 + 1) < y.indexKey))
      = ((S.selected c.entityId c.machine 0).filter fun y =>
        decide (entityTransitionKey c.entityId c.machine (S.sequence + 1) < y.indexKey)).filter
          fun y => decide (entityTransitionKey c.entityId c.machine (S.sequence + 1 + 1) < y.indexKey) := by
    rw [List.filter_filter]
    refine List.filter_congr fun y _ => ?_
    rw [Bool.eq_iff_iff, Bool.and_eq_true, decide_eq_true_eq, decide_eq_true_eq]
    exact ⟨fun h => ⟨h, hkeys.trans h⟩, fun h => h.1⟩
  rw [hnested] at htail
  refine absurd htail (ne_of_lt (List.length_filter_lt_length_iff_exists.mpr ⟨x, ?_, ?_⟩))
  · exact List.mem_filter.mpr ⟨hsel, decide_eq_true hlow⟩
  · rw [decide_eq_true_eq]
    exact hhigh.asymm

theorem isSome_of_written {new new' : Option (TransitionRecord × EntityState)}
    (h : writtenUpToDraws new' = writtenUpToDraws new) : new'.isSome = new.isSome := by
  have hsome := congrArg Option.isSome h
  rwa [writtenUpToDraws, writtenUpToDraws, Option.isSome_map, Option.isSome_map] at hsome

theorem writtenUpToDraws_row {new new' : Option (TransitionRecord × EntityState)}
    (h : writtenUpToDraws new' = writtenUpToDraws new) {row : Option EntityState} :
    ((new'.map Prod.snd).or row).map EntityState.upToDraws
      = ((new.map Prod.snd).or row).map EntityState.upToDraws := by
  have hsnd := congrArg (Option.map Prod.snd) h
  simp only [writtenUpToDraws, Option.map_map, Function.comp_def] at hsnd
  simp only [Option.map_or, Option.map_map, Function.comp_def, hsnd]

/-- **The row of a pair does not depend on who went first**: at most one of the two requests writes
it. -/
theorem Leaves.rows_agree (hind : Independent c d') (hc : SameRequest guards c c')
    (hd : SameRequest guards d' d) (h₁ : Leaves S c new₁ S₁) (h₁₂ : Leaves S₁ d new₂' S₁₂)
    (h₂ : Leaves S d' new₂ S₂) (h₂₁ : Leaves S₂ c' new₁' S₂₁)
    (hnew₁ : writtenUpToDraws new₁' = writtenUpToDraws new₁)
    (hnew₂ : writtenUpToDraws new₂' = writtenUpToDraws new₂) (e : EntityId) (m : MachineName) :
    (S₂₁.entityStates[entityStateKey e m]?).map EntityState.upToDraws
      = (S₁₂.entityStates[entityStateKey e m]?).map EntityState.upToDraws := by
  rw [h₂₁.rows, h₁₂.rows, h₁.rows, h₂.rows, hc.stateKey, hd.stateKey]
  by_cases hk : entityStateKey e m = c.stateKey
  · have hne : entityStateKey e m ≠ d'.stateKey := by
      -- the names of one of them are free of NUL, so its key is nobody else's
      rw [hk]
      intro heq
      have hpre := startsWith_prefix_of_key_eq heq
      obtain ⟨hent, hmach⟩ :=
        (startsWith_entityTransitionPrefix_iff hind.left.1 hind.left.2).mp hpre
      exact hind.pair (Prod.ext hent hmach)
    rw [if_pos hk, if_neg hne, if_neg hne, if_pos hk]
    exact writtenUpToDraws_row hnew₁
  · rw [if_neg hk, if_neg hk]
    by_cases hk' : entityStateKey e m = d'.stateKey
    · rw [if_pos hk', if_pos hk']
      exact (writtenUpToDraws_row hnew₂).symm
    · rw [if_neg hk', if_neg hk']

/-- The history of every pair: at most one of the two requests is on it. -/
theorem Leaves.selected_agree (hS : LogInvariant S) (hroom : S.sequence + 2 < 10 ^ 20)
    (hind : Independent c d') (hc : SameRequest guards c c') (hd : SameRequest guards d' d)
    (h₁ : Leaves S c new₁ S₁) (h₁₂ : Leaves S₁ d new₂' S₁₂) (h₂ : Leaves S d' new₂ S₂)
    (h₂₁ : Leaves S₂ c' new₁' S₂₁) (hnew₁ : writtenUpToDraws new₁' = writtenUpToDraws new₁)
    (hnew₂ : writtenUpToDraws new₂' = writtenUpToDraws new₂)
    (hparts : new₁.isSome = true → new₂.isSome = true →
      ¬ S.Parts c.entityId c.machine ∧ ¬ S.Parts d'.entityId d'.machine)
    (e m : String) {after : ℕ} (hafter : after ≤ S.sequence) :
    (S₂₁.selected e m after).map TransitionRecord.upToDraws
      = (S₁₂.selected e m after).map TransitionRecord.upToDraws := by
  have hafter₁ : after ≤ S₁.sequence := by
    rw [h₁.sequence]
    omega
  have hafter₂ : after ≤ S₂.sequence := by
    rw [h₂.sequence]
    omega
  by_cases hpair : c.entityId = e ∧ c.machine = m
  · obtain ⟨rfl, rfl⟩ := hpair
    have hne : ¬ (d.entityId = c.entityId ∧ d.machine = c.machine) := by
      rw [hd.entityId, hd.machine]
      exact fun h => hind.pair (Prod.ext h.1.symm h.2.symm)
    rw [h₁₂.history _ _ _ hafter₁, if_neg hne]
    exact Leaves.own_agrees hS hroom hind hc h₁ h₂ h₂₁ hnew₁ (fun hw hw' => (hparts hw hw').1) hafter
  · have hne : ¬ (c'.entityId = e ∧ c'.machine = m) := by rwa [hc.entityId, hc.machine]
    rw [h₂₁.history _ _ _ hafter₂, if_neg hne]
    by_cases hpair' : d'.entityId = e ∧ d'.machine = m
    · obtain ⟨rfl, rfl⟩ := hpair'
      exact (Leaves.own_agrees hS hroom hind.symm hd h₂ h₁ h₁₂ hnew₂
        (fun hw hw' => (hparts hw' hw).2) hafter).symm
    · rw [h₂.history _ _ _ hafter, if_neg hpair', h₁₂.history _ _ _ hafter₁,
        if_neg (by rwa [hd.entityId, hd.machine]), h₁.history _ _ _ hafter, if_neg hpair]

/-- What two independent requests leave does not depend on who went first. -/
theorem Leaves.sameReads (hS : LogInvariant S) (hroom : S.sequence + 2 < 10 ^ 20)
    (hind : Independent c d') (hc : SameRequest guards c c') (hd : SameRequest guards d' d)
    (h₁ : Leaves S c new₁ S₁) (h₁₂ : Leaves S₁ d new₂' S₁₂) (h₂ : Leaves S d' new₂ S₂)
    (h₂₁ : Leaves S₂ c' new₁' S₂₁) (hnew₁ : writtenUpToDraws new₁' = writtenUpToDraws new₁)
    (hnew₂ : writtenUpToDraws new₂' = writtenUpToDraws new₂)
    (hparts : new₁.isSome = true → new₂.isSome = true →
      ¬ S.Parts c.entityId c.machine ∧ ¬ S.Parts d'.entityId d'.machine) :
    SameReadsUpToDraws S.sequence S₁₂ S₂₁ where
  current e m := by
    have hrow := Leaves.rows_agree hind hc hd h₁ h₁₂ h₂ h₂₁ hnew₁ hnew₂ e m
    unfold Engine.current
    rw [Engine.getEntityState_eq, Engine.getEntityState_eq]
    -- an absent row stays absent
    cases h₁₂row : S₁₂.entityStates[entityStateKey e m]? with
    | none =>
      rw [h₁₂row, Option.map_none, Option.map_eq_none_iff] at hrow
      rw [hrow]
    | some row =>
      rw [h₁₂row, Option.map_some, Option.map_eq_some_iff] at hrow
      obtain ⟨row', hrow', heq⟩ := hrow
      rw [hrow']
      exact congrArg Except.ok heq
  history e m limit after hafter := by
    have hlist := Leaves.selected_agree hS hroom hind hc hd h₁ h₁₂ h₂ h₂₁ hnew₁ hnew₂ hparts e m hafter
    unfold Engine.history
    rw [withFault_none, withFault_none, RedbEngine.getHistory_eq, RedbEngine.getHistory_eq]
    refine congrArg Except.ok ?_
    rw [List.map_take, List.map_take, hlist]

/-- Histories that read the same are the same, since a read can ask for as much as it likes. -/
theorem SameReadsUpToDraws.selected {common : ℕ} {S T : Store} (h : SameReadsUpToDraws common S T)
    (e m : String) : (T.selected e m 0).map TransitionRecord.upToDraws
      = (S.selected e m 0).map TransitionRecord.upToDraws := by
  have hread := h.history e m (some ((T.selected e m 0).length + (S.selected e m 0).length)) none
    (Nat.zero_le _)
  unfold Engine.history at hread
  rw [withFault_none, withFault_none, RedbEngine.getHistory_eq, RedbEngine.getHistory_eq] at hread
  have hlist := Except.ok.inj hread
  rwa [Option.getD_some, Option.getD_none, List.take_of_length_le (by omega),
    List.take_of_length_le (by omega)] at hlist

/-- If they both write and a record stands between, it does. -/
theorem Leaves.not_sameReads (hS : LogInvariant S) (hroom : S.sequence + 2 < 10 ^ 20)
    (hind : Independent c d') (hc : SameRequest guards c c') (hd : SameRequest guards d' d)
    {p₁ p₁' p₂ p₂' : TransitionRecord × EntityState} (h₁ : Leaves S c (some p₁) S₁)
    (h₁₂ : Leaves S₁ d (some p₂') S₁₂) (h₂ : Leaves S d' (some p₂) S₂)
    (h₂₁ : Leaves S₂ c' (some p₁') S₂₁)
    (hparts : S.Parts c.entityId c.machine ∨ S.Parts d'.entityId d'.machine) :
    ¬ SameReadsUpToDraws S.sequence S₁₂ S₂₁ := by
  intro hsame
  rcases hparts with hparts | hparts
  · have hne : ¬ (d.entityId = c.entityId ∧ d.machine = c.machine) := by
      rw [hd.entityId, hd.machine]
      exact fun h => hind.pair (Prod.ext h.1.symm h.2.symm)
    have hread := hsame.selected c.entityId c.machine
    rw [h₁₂.history _ _ _ (Nat.zero_le _), if_neg hne] at hread
    exact Leaves.own_differs hS hroom hind hc h₁ h₂ h₂₁ hparts hread
  · have hne : ¬ (c'.entityId = d'.entityId ∧ c'.machine = d'.machine) := by
      rw [hc.entityId, hc.machine]
      exact fun h => hind.pair (Prod.ext h.1 h.2)
    have hread := hsame.selected d'.entityId d'.machine
    rw [h₂₁.history _ _ _ (Nat.zero_le _), if_neg hne] at hread
    exact Leaves.own_differs hS hroom hind.symm hd h₂ h₁ h₁₂ hparts hread.symm

end Orders

/-- **When independent transitions commute.** In every reachable store whose counter has room for two
more, two requests on distinct pairs of NUL-free names without a common key end the same way in
either order, and leave stores with the same rows and histories for every pair, up to sequences,
generated ids and timestamps, exactly if it is not the case that both write and a stored record stands,
in the index, between the keys one of them gets by going first and by going second. -/
theorem transitions_commute_iff {S : Store} (hS : EngineReachable S) (hroom : S.sequence + 2 < 2 ^ 64)
    (guards : GuardRegistry) (shutdown : Bool) {c c' d d' : Call} (hind : Independent c d)
    (hc : SameRequest guards c c') (hd : SameRequest guards d d')
    (hf : c.faults = CallFaults.none ∧ c'.faults = CallFaults.none ∧
      d.faults = CallFaults.none ∧ d'.faults = CallFaults.none) :
    let first := Engine.runAlone guards shutdown S c
    let second := Engine.runAlone guards shutdown first.2 d
    let first' := Engine.runAlone guards shutdown S d'
    let second' := Engine.runAlone guards shutdown first'.2 c'
    (second'.1.map TransitionResult.upToDraws = first.1.map TransitionResult.upToDraws ∧
      second.1.map TransitionResult.upToDraws = first'.1.map TransitionResult.upToDraws ∧
      SameReadsUpToDraws S.sequence second.2 second'.2) ↔
    ¬ (shutdown = false ∧ Engine.Commits S guards c ∧ Engine.Commits S guards d ∧
      (S.Parts c.entityId c.machine ∨ S.Parts d.entityId d.machine)) := by
  obtain ⟨cfg, guards₀, ls, w, hrun, rfl⟩ := hS
  have hlog := (keyInvariant_of_run hrun).log
  obtain ⟨hfc, hfc', hfd, hfd'⟩ := hf
  cases shutdown with
  | true =>
    exact iff_of_true ⟨rfl, rfl, ⟨fun _ _ => rfl, fun _ _ _ _ _ => rfl⟩⟩ fun h => Bool.noConfusion h.1
  | false =>
    dsimp only
    have hroom' : w.store.sequence + 2 < 10 ^ 20 := by omega
    have hview : ∀ e, SameView e w.store w.store :=
      fun e => ⟨rfl, rfl, fun _ _ => rfl, fun _ _ h => h⟩
    have hind' := (hind.symm.sameRequest hd).symm
    -- each of them first, on its own
    obtain ⟨-, new₁, -, h₁, -, -⟩ :=
      (hview c).runAlone (.refl guards c) hfc hfc hind.left hlog hlog
    obtain ⟨-, new, new₂, -, h₂, hnew, hwrites, hwrites'⟩ :=
      (hview d).runAlone hd hfd hfd' hind.right hlog hlog
    -- and then after the other, which has left its view alone
    obtain ⟨hout₁, n₁, n₁', hl₁, hl₁', hnew₁, hwrites₁, -⟩ :=
      (h₂.view c hind'.symm).runAlone hc hfc hfc' hind.left hlog h₂.log
    obtain ⟨hout₂, n₂, n₂', hl₂, hl₂', hnew₂, hwrites₂, -⟩ :=
      (h₁.view d' hind').runAlone hd.symm hfd' hfd hind'.right hlog h₁.log
    have hwrites₂ : n₂.isSome = true ↔ Engine.Commits w.store guards d := by
      rw [hwrites₂, ← hwrites', ← hwrites, isSome_of_written hnew]
    rw [← hwrites₁, ← hwrites₂, ← hd.entityId, ← hd.machine]
    constructor
    · rintro ⟨-, -, hsame⟩ ⟨-, hw₁, hw₂, hparts⟩
      obtain ⟨p₁, rfl⟩ := Option.isSome_iff_exists.mp hw₁
      obtain ⟨p₂, rfl⟩ := Option.isSome_iff_exists.mp hw₂
      obtain ⟨p₁', rfl⟩ := Option.isSome_iff_exists.mp (isSome_of_written hnew₁)
      obtain ⟨p₂', rfl⟩ := Option.isSome_iff_exists.mp (isSome_of_written hnew₂)
      exact Leaves.not_sameReads hlog hroom' hind' hc hd.symm hl₁ hl₂' hl₂ hl₁' hparts hsame
    · intro hnot
      refine ⟨hout₁, hout₂, Leaves.sameReads hlog hroom' hind' hc hd.symm hl₁ hl₂' hl₂ hl₁' hnew₁ hnew₂
        fun hw₁ hw₂ => ⟨fun hparts => ?_, fun hparts => ?_⟩⟩
      · exact hnot ⟨rfl, hw₁, hw₂, Or.inl hparts⟩
      · exact hnot ⟨rfl, hw₁, hw₂, Or.inr hparts⟩

/-- A machine whose name goes on, after the separator, like an index key of the machine `c`. -/
def digitMachine : MachineDefinition :=
  { orderMachine with name := "c" ++ nul ++ padDecimal 20 2 }

/-- One transition of entity `a` on it, and the machine `c` defined. -/
def shadowedHistory : List Label :=
  [Label.defineMachine shortMachine none, Label.defineMachine digitMachine none,
    Label.invoke 0 { payOrder 0 "a" none with machine := digitMachine.name }] ++ steps 0 8

/-- A payment of an entity of the machine `c`. -/
def payShort (n : ℕ) (entityId : EntityId) : Call := { payOrder n entityId none with machine := "c" }

theorem payShort_independent : Independent (payShort 1 "a") (payShort 2 "b") where
  left := by decide
  right := by decide
  pair := by decide
  key _ h := absurd h (by simp [payShort, payOrder])

/-- The stored record stands in the index between the keys of `(a, c)` under the sequences `2` and
`3`: the history of `(a, c)` lists it after a payment that got the former, and before one that got
the latter. -/
theorem not_transitions_commute :
    ∃ S, EngineReachable S ∧ S.sequence + 2 < 2 ^ 64 ∧
      Independent (payShort 1 "a") (payShort 2 "b") ∧
      ¬ SameReadsUpToDraws S.sequence
        (Engine.runAlone ∅ false (Engine.runAlone ∅ false S (payShort 1 "a")).2
          (payShort 2 "b")).2
        (Engine.runAlone ∅ false (Engine.runAlone ∅ false S (payShort 2 "b")).2
          (payShort 1 "a")).2 := by
  obtain ⟨w, hrun⟩ : ∃ w, (engine oneStripe).exec (World.initial Store.empty ∅) shadowedHistory
    = some w := ⟨_, rfl⟩
  -- whether the payment is listed first, in either order
  have heval : ((engine oneStripe).exec (World.initial Store.empty ∅) shadowedHistory).map
      (fun w => (w.store.sequence,
        ((RedbEngine.getHistory (Engine.runAlone ∅ false (Engine.runAlone ∅ false w.store
          (payShort 1 "a")).2 (payShort 2 "b")).2 "a" "c" none none).map
            TransitionRecord.machine)[0]?,
        ((RedbEngine.getHistory (Engine.runAlone ∅ false (Engine.runAlone ∅ false w.store
          (payShort 2 "b")).2 (payShort 1 "a")).2 "a" "c" none none).map
            TransitionRecord.machine)[0]?))
      = some (1, some "c", some digitMachine.name) := by decide
  rw [hrun, Option.map_some] at heval
  obtain ⟨hseq, hfirst⟩ := Prod.mk.inj (Option.some.inj heval)
  obtain ⟨hone, htwo⟩ := Prod.mk.inj hfirst
  refine ⟨w.store, ⟨_, _, _, w, hrun, rfl⟩, by rw [hseq]; decide, payShort_independent, ?_⟩
  intro hsame
  have hhist := hsame.history "a" "c" none none (Nat.zero_le _)
  unfold Engine.history at hhist
  have hlist := Except.ok.inj hhist
  have hmachines := congrArg (fun l => (l.map TransitionRecord.machine)[0]?) hlist
  simp only [List.map_map] at hmachines
  change (List.map TransitionRecord.machine _)[0]? = (List.map TransitionRecord.machine _)[0]?
    at hmachines
  rw [hone, htwo] at hmachines
  exact absurd hmachines (by decide)

/-- The machine `c`, and a payment of a third entity on it. -/
def plainHistory : List Label :=
  [Label.defineMachine shortMachine none, Label.invoke 0 (payShort 0 "d")] ++ steps 0 8

theorem transitions_commute_iff_payShort :
    ∃ S, EngineReachable S ∧ S.sequence = 1 ∧ SameReadsUpToDraws S.sequence
      (Engine.runAlone ∅ false (Engine.runAlone ∅ false S (payShort 1 "a")).2 (payShort 2 "b")).2
      (Engine.runAlone ∅ false (Engine.runAlone ∅ false S (payShort 2 "b")).2
        (payShort 1 "a")).2 := by
  have heval : ((engine oneStripe).exec (World.initial Store.empty ∅) plainHistory).map
      (fun w => (w.store.sequence,
        w.store.log.all fun r => decide (NulFree r.entityId ∧ NulFree r.machine)))
      = some (1, true) := by decide
  obtain ⟨w, hrun, hw⟩ := Option.map_eq_some_iff.mp heval
  obtain ⟨hseq, hall⟩ := Prod.mk.inj hw
  have hroom : w.store.sequence + 2 < 2 ^ 64 := by
    rw [hseq]
    decide
  have hnone := (keyInvariant_of_run hrun).log.not_parts (by omega) fun r hr =>
    of_decide_eq_true (List.all_eq_true.mp hall r hr)
  have hreach : EngineReachable w.store := ⟨oneStripe, ∅, plainHistory, w, hrun, rfl⟩
  refine ⟨w.store, hreach, hseq, ((transitions_commute_iff hreach hroom ∅ false payShort_independent
    (.refl ∅ _) (.refl ∅ _) ⟨rfl, rfl, rfl, rfl⟩).mpr ?_).2.2⟩
  rintro ⟨-, -, -, hparts | hparts⟩
  · exact hnone _ _ hparts
  · exact hnone _ _ hparts

end StateMaster
