import StateMaster.Engine.Isolation
import StateMaster.Framework.Scan

/-!
# History as a slice of the log

`get_history` walks a string-keyed index: it selects by a prefix test over the keys of all entities
and takes its order from the keys, whose last part is the sequence padded to twenty digits. As long
as no other pair's keys start with the reader's prefix (`Store.Unshadowed`), the walk is the log cut
down to the pair (`LogInvariant.selected_eq`): twenty digits hold every `u64`, so the order of the
keys of one pair is the order of its sequences.

`paging` is a client that reads page after page, each from the last sequence it was given, while
other calls write to the store. `PagingInvariant` says what it has in hand: the front of the history,
ending at its cursor.

* `history_exact` — every read is the slice it asks for, and the pages put together skip nothing.
-/

open Framework Framework.Text

namespace StateMaster

/-! ### The records of a pair -/

/-- The records of one pair past a cursor, as the log lists them. -/
def Store.historyOf (S : Store) (entityId machine : String) (after : ℕ) : List TransitionRecord :=
  S.log.filter fun r =>
    r.entityId == entityId && r.machine == machine && decide (after < r.sequence)

/-- The names of every logged record are free of the separator. -/
def Store.NulFreeLog (S : Store) : Prop :=
  ∀ r ∈ S.log, NulFree r.entityId ∧ NulFree r.machine

/-- No record of another pair has a key that starts with the prefix of `(e, m)`. -/
def Store.Unshadowed (S : Store) (e m : String) : Prop :=
  ∀ r ∈ S.log, startsWith (entityTransitionPrefix r.entityId r.machine)
    (entityTransitionPrefix e m) = true → r.entityId = e ∧ r.machine = m

theorem Store.NulFreeLog.unshadowed {S : Store} (h : S.NulFreeLog) (e m : String) :
    S.Unshadowed e m := fun r hr hpre =>
  (startsWith_entityTransitionPrefix_iff (h r hr).1 (h r hr).2).mp hpre

theorem Store.NulFreeLog.of_prefix {S S' : Store} (h : S'.NulFreeLog) (hlog : S.log <+: S'.log) :
    S.NulFreeLog := fun r hr => h r (hlog.subset hr)

theorem Store.mem_historyOf {S : Store} {e m : String} {after : ℕ} {r : TransitionRecord} :
    r ∈ S.historyOf e m after ↔
      r ∈ S.log ∧ r.entityId = e ∧ r.machine = m ∧ after < r.sequence := by
  unfold Store.historyOf
  simp only [List.mem_filter, Bool.and_eq_true, beq_iff_eq, decide_eq_true_eq, and_assoc]

section Reads

variable {S : Store} {e m : String}

theorem LogInvariant.historyOf_increasing (hS : LogInvariant S) (e m : String) (after : ℕ) :
    (S.historyOf e m after).Pairwise fun r r' => r.sequence < r'.sequence :=
  hS.log_increasing.filter _

/-- Two keys of one pair stand in the order of their sequences, as far as twenty digits reach. -/
theorem lt_of_entityTransitionKey_lt {s s' : ℕ} (hs : s < 10 ^ 20) (hs' : s' < 10 ^ 20)
    (h : entityTransitionKey e m s < entityTransitionKey e m s') : s < s' := by
  rw [String.lt_iff_toList_lt, entityTransitionKey_toList, entityTransitionKey_toList] at h
  exact lt_of_padDecimal_lt (by decide) hs hs' (lt_of_append_lt h)

theorem mem_selected {after : ℕ} {r : TransitionRecord} (hS : LogInvariant S)
    (hfree : S.Unshadowed e m) :
    r ∈ S.selected e m after ↔ r ∈ S.historyOf e m after := by
  rw [hS.mem_selected_iff, Store.mem_historyOf]
  constructor
  · rintro ⟨hmem, hpre, hafter⟩
    obtain ⟨he, hm⟩ := hfree r hmem hpre
    exact ⟨hmem, he, hm, hafter⟩
  · rintro ⟨hmem, rfl, rfl, hafter⟩
    exact ⟨hmem, startsWith_iff.mpr (List.prefix_refl _), hafter⟩

theorem selected_increasing {after : ℕ} (hS : LogInvariant S) (hfree : S.Unshadowed e m)
    (hbound : S.sequence < 10 ^ 20) :
    (S.selected e m after).Pairwise fun r r' => r.sequence < r'.sequence := by
  refine (hS.selected_ordered e m after).imp_of_mem fun {r r'} hr hr' hlt => ?_
  obtain ⟨hmem, he, hm, -⟩ := Store.mem_historyOf.mp ((mem_selected hS hfree).mp hr)
  obtain ⟨hmem', he', hm', -⟩ := Store.mem_historyOf.mp ((mem_selected hS hfree).mp hr')
  have hle := hS.sequence_le_of_mem hmem
  have hle' := hS.sequence_le_of_mem hmem'
  unfold TransitionRecord.indexKey at hlt
  rw [he, hm, he', hm'] at hlt
  exact lt_of_entityTransitionKey_lt (by omega) (by omega) hlt

/-- **The walk over the index is the log, cut down to the pair.** -/
theorem LogInvariant.selected_eq (hS : LogInvariant S) (hfree : S.Unshadowed e m)
    (hbound : S.sequence < 10 ^ 20) (after : ℕ) :
    S.selected e m after = S.historyOf e m after :=
  eq_of_pairwise_lt (selected_increasing hS hfree hbound) (hS.historyOf_increasing e m after)
    fun _ => mem_selected hS hfree

end Reads

/-! ### Paging -/

/-- A client that reads the history of one pair page by page. -/
structure Paging where
  store : Store
  /-- Where the next page starts; nothing before the first record. -/
  cursor : Option ℕ
  pages : List (List TransitionRecord)

inductive PagingLabel where
  /-- Somebody calls the storage engine. -/
  | call (step : StorageStep)
  /-- The client reads a page of at most `n` records. -/
  | page (n : ℕ)

def Paging.initial : Paging := ⟨Store.empty, none, []⟩

/-- The client goes on after the last record it was given; after an empty page, from where it was. -/
def nextCursor (cursor : Option ℕ) (page : List TransitionRecord) : Option ℕ :=
  (page.getLast?.map TransitionRecord.sequence).or cursor

def Paging.step (e m : String) (p : Paging) : PagingLabel → Paging
  | .call step => { p with store := step.exec p.store }
  | .page n =>
    let page := RedbEngine.getHistory p.store e m (some n) p.cursor
    { p with cursor := nextCursor p.cursor page, pages := p.pages ++ [page] }

/-- Reads of pages and calls of others, in any order. -/
def paging (e m : String) : System Paging PagingLabel where
  step p l := some (p.step e m l)

/-- What the client has in hand is the front of the history, up to its cursor. -/
structure PagingInvariant (e m : String) (p : Paging) : Prop where
  read : p.pages.flatten <+: p.store.historyOf e m 0
  cursor : p.cursor = p.pages.flatten.getLast?.map TransitionRecord.sequence

section Pages

variable {e m : String} {p : Paging}

theorem StorageStep.log_grows {S : Store} (step : StorageStep) (hS : LogInvariant S) :
    S.log <+: (step.exec S).log := by
  rcases step.exec_cases S with ⟨-, hkeeps⟩ | ⟨record, -, happ⟩
  · rw [hkeeps.log]
  · rw [happ.log hS]
    exact List.prefix_append _ _

/-- Past the last of its first records, an increasing list goes on with the others. -/
theorem filter_past_front (front rest : List TransitionRecord)
    (hinc : (front ++ rest).Pairwise fun r r' => r.sequence < r'.sequence)
    (hpos : ∀ r ∈ front ++ rest, 0 < r.sequence) :
    (front ++ rest).filter
        (fun r => decide ((front.getLast?.map TransitionRecord.sequence).getD 0 < r.sequence))
      = rest := by
  obtain ⟨hfront, -, hcross⟩ := List.pairwise_append.mp hinc
  rcases List.eq_nil_or_concat front with rfl | ⟨init, last, rfl⟩
  · refine List.filter_eq_self.mpr fun r hr => ?_
    exact decide_eq_true (hpos r hr)
  · rw [List.concat_eq_append] at hfront hcross ⊢
    rw [List.getLast?_append, List.getLast?_singleton, Option.some_or, Option.map_some,
      Option.getD_some, List.filter_append]
    have hinit : (init ++ [last]).filter (fun r => decide (last.sequence < r.sequence)) = [] := by
      refine List.filter_eq_nil_iff.mpr fun r hr hlt => ?_
      have hlt := of_decide_eq_true hlt
      -- nothing in front stands after the last one
      rcases List.mem_append.mp hr with hmem | hmem
      · have hbefore := (List.pairwise_append.mp hfront).2.2 r hmem last List.mem_cons_self
        omega
      · rw [List.mem_singleton.mp hmem] at hlt
        exact lt_irrefl _ hlt
    rw [hinit, List.nil_append, List.filter_eq_self]
    intro r hr
    exact decide_eq_true (hcross last (List.mem_append_right _ List.mem_cons_self) r hr)

theorem Store.historyOf_eq_filter (S : Store) (e m : String) (after : ℕ) :
    S.historyOf e m after
      = (S.historyOf e m 0).filter fun r => decide (after < r.sequence) := by
  unfold Store.historyOf
  rw [List.filter_filter]
  refine List.filter_congr fun r _ => ?_
  rw [Bool.eq_iff_iff]
  simp only [Bool.and_eq_true, decide_eq_true_eq]
  constructor
  · exact fun ⟨hpair, hlt⟩ => ⟨hlt, hpair, by omega⟩
  · exact fun ⟨hlt, hpair, _⟩ => ⟨hpair, hlt⟩

/-- What lies past the cursor is what is left of the history. -/
theorem PagingInvariant.past_cursor (h : PagingInvariant e m p) (hS : LogInvariant p.store) :
    p.pages.flatten ++ p.store.historyOf e m (p.cursor.getD 0) = p.store.historyOf e m 0 := by
  obtain ⟨rest, hrest⟩ := h.read
  have hpast := filter_past_front p.pages.flatten rest
    (by rw [hrest]; exact hS.historyOf_increasing e m 0)
    (by rw [hrest]; exact fun r hr => (Store.mem_historyOf.mp hr).2.2.2)
  rw [Store.historyOf_eq_filter p.store e m (p.cursor.getD 0), h.cursor, ← hrest, hpast]

theorem PagingInvariant.page (h : PagingInvariant e m p) (hS : LogInvariant p.store)
    (hfree : p.store.NulFreeLog) (hbound : p.store.sequence < 10 ^ 20) (n : ℕ) :
    PagingInvariant e m (p.step e m (.page n)) := by
  have hpage : RedbEngine.getHistory p.store e m (some n) p.cursor
      = (p.store.historyOf e m (p.cursor.getD 0)).take n := by
    rw [RedbEngine.getHistory_eq, hS.selected_eq (hfree.unshadowed e m) hbound, Option.getD_some]
  refine ⟨?_, ?_⟩
  · change (p.pages ++ [_]).flatten <+: p.store.historyOf e m 0
    rw [List.flatten_append, List.flatten_singleton, ← h.past_cursor hS, hpage]
    exact (List.prefix_append_right_inj _).mpr (List.take_prefix _ _)
  · change nextCursor p.cursor _ = ((p.pages ++ [_]).flatten).getLast?.map _
    rw [List.flatten_append, List.flatten_singleton, List.getLast?_append, Option.map_or,
      ← h.cursor]
    rfl

/-- A call of somebody else only adds to the history. -/
theorem PagingInvariant.call (h : PagingInvariant e m p) (hS : LogInvariant p.store)
    (step : StorageStep) : PagingInvariant e m (p.step e m (.call step)) := by
  refine ⟨h.read.trans ?_, h.cursor⟩
  exact (step.log_grows hS).filter _

theorem paging_run {labels : List PagingLabel}
    (hrun : (paging e m).exec Paging.initial labels = some p) :
    LogInvariant p.store ∧
      (p.store.NulFreeLog → p.store.sequence < 10 ^ 20 → PagingInvariant e m p) := by
  refine System.exec_induction (I := fun p => LogInvariant p.store ∧
    (p.store.NulFreeLog → p.store.sequence < 10 ^ 20 → PagingInvariant e m p))
    ⟨LogInvariant.empty, fun _ _ => ?_⟩ ?_ hrun
  · exact ⟨List.nil_prefix, rfl⟩
  rintro p l p' ⟨hS, hinv⟩ hstep
  obtain rfl := Option.some.inj hstep
  cases l with
  | call step =>
    refine ⟨step.invariant hS, fun hfree hbound => ?_⟩
    -- the log before the call is the front of the one after it
    have hlog := step.log_grows hS
    have hlen := hlog.length_le
    rw [hS.length_log, (step.invariant hS).length_log] at hlen
    exact (hinv (hfree.of_prefix hlog) (lt_of_le_of_lt hlen hbound)).call hS step
  | page n => exact ⟨hS, fun hfree hbound => (hinv hfree hbound).page hS hfree hbound n⟩

end Pages

/-- **History is the exact, ordered, pageable slice of the log.** However reads of pages and calls of
the storage engine are interleaved, as long as the logged names are free of the separator and the
counter is within `u64`:

* a read returns the records of its pair past its cursor, in increasing sequence, cut to its limit;
* the pages put together are the front of the pair's history, ending at the cursor of the client;
* a page of at least one record that comes back empty has reached the end. -/
theorem history_exact {e m : String} {labels : List PagingLabel} {p : Paging}
    (hrun : (paging e m).exec Paging.initial labels = some p)
    (hfree : p.store.NulFreeLog) (hbound : p.store.sequence < 2 ^ 64) :
    (∀ limit after, RedbEngine.getHistory p.store e m limit after
      = (p.store.historyOf e m (after.getD 0)).take (limit.getD RedbEngine.maxLimit)) ∧
    (∀ after, (p.store.historyOf e m after).Pairwise fun r r' => r.sequence < r'.sequence) ∧
    p.pages.flatten <+: p.store.historyOf e m 0 ∧
    p.cursor = p.pages.flatten.getLast?.map TransitionRecord.sequence ∧
    (∀ n, 1 ≤ n → RedbEngine.getHistory p.store e m (some n) p.cursor = [] →
      p.pages.flatten = p.store.historyOf e m 0) := by
  obtain ⟨hS, hinv⟩ := paging_run hrun
  have hbound' : p.store.sequence < 10 ^ 20 := by omega
  have hpages := hinv hfree hbound'
  have hread : ∀ limit after, RedbEngine.getHistory p.store e m limit after
      = (p.store.historyOf e m (after.getD 0)).take (limit.getD RedbEngine.maxLimit) := by
    intro limit after
    rw [RedbEngine.getHistory_eq, hS.selected_eq (hfree.unshadowed e m) hbound']
  refine ⟨hread, fun after => hS.historyOf_increasing e m after, hpages.read, hpages.cursor, ?_⟩
  intro n hn hempty
  rw [hread, Option.getD_some, List.take_eq_nil_iff] at hempty
  have hnil := hempty.resolve_left (by omega)
  rw [← hpages.past_cursor hS, hnil, List.append_nil]

/-- A payment of order `o1`, appended without a key. -/
def unkeyedPay (id : TransitionId) : StorageStep where
  call := .appendTransition
    { id, sequence := 0, entityId := "o1", machine := "order", fromState := "pending",
      toState := "paid", event := "pay", actor := "web", ctx := .null, idempotencyKey := none,
      version := 1, timestamp := 0 }
  fault := none

/-- A page of one record, a commit, and the next page. -/
def pagedPayments : List PagingLabel :=
  [.call (unkeyedPay "t1"), .page 1, .call (unkeyedPay "t2"), .page 1]

theorem history_exact_pagedPayments :
    ∃ p, (paging "o1" "order").exec Paging.initial pagedPayments = some p ∧
      p.pages.flatten.map TransitionRecord.id = ["t1", "t2"] ∧
      p.pages.flatten <+: p.store.historyOf "o1" "order" 0 := by
  have heval : ((paging "o1" "order").exec Paging.initial pagedPayments).map
      (fun p => (p.store.log.map (fun r => (r.entityId, r.machine)), p.store.sequence,
        p.pages.flatten.map TransitionRecord.id))
      = some ([("o1", "order"), ("o1", "order")], 2, ["t1", "t2"]) := by decide
  obtain ⟨p, hrun, hp⟩ := Option.map_eq_some_iff.mp heval
  obtain ⟨hnames, hp⟩ := Prod.mk.inj hp
  obtain ⟨hseq, hids⟩ := Prod.mk.inj hp
  have hfree : p.store.NulFreeLog := by
    intro r hr
    have hmem : (r.entityId, r.machine) ∈ [("o1", "order"), ("o1", "order")] :=
      hnames ▸ List.mem_map_of_mem hr
    obtain ⟨he, hm⟩ : r.entityId = "o1" ∧ r.machine = "order" := by simpa using hmem
    rw [he, hm]
    decide
  exact ⟨p, hrun, hids, (history_exact hrun hfree (by rw [hseq]; decide)).2.2.1⟩

end StateMaster
