import Mathlib

/-!
# Decoders over a growing buffer

A streaming decoder looks at the bytes received so far. It takes an item off the front, asks for
more, or gives up; a reader appends whatever arrives and calls it until it takes nothing more.

* `Decoder.drain` — the calls made on one buffer, until the decoder waits or fails;
* `Decoder.feed` — a stream that arrives in chunks, drained after each of them;
* `Incremental` — a decoder that does not change its mind when more bytes arrive, and that leaves
  the buffer alone unless it takes an item;
* `Incremental.feed_eq_drain` — such a decoder does not see the chunks;
* `Reads` — the items a decoder takes are the words of an encoding, and it waits exactly inside one
  (`Reads.drain_eq`, `Reads.items_append_rest`).
-/

namespace Framework

/-- One call of a decoder: what it returns, and the buffer it leaves. -/
abbrev Decoder (β α ε : Type) := List β → Except ε (Option α) × List β

/-- What a run of a decoder leaves: the items taken, the error it stopped at, and the bytes it did
not take. -/
structure Drained (β α ε : Type) where
  items : List α
  error : Option ε
  rest : List β
deriving DecidableEq, Repr

/-- Items taken before a run. -/
def Drained.after {β α ε : Type} (items : List α) (r : Drained β α ε) : Drained β α ε :=
  { r with items := items ++ r.items }

namespace Decoder

variable {β α ε : Type} (d : Decoder β α ε)

/-- At most `fuel` calls on one buffer. -/
def drainFuel : ℕ → List β → Drained β α ε
  | 0, buf => ⟨[], none, buf⟩
  | fuel + 1, buf =>
    match d buf with
    | (.error e, buf') => ⟨[], some e, buf'⟩
    | (.ok none, buf') => ⟨[], none, buf'⟩
    | (.ok (some a), buf') => (drainFuel fuel buf').after [a]

/-- Call the decoder until it waits for more or fails. One call for each byte, and a last one, are
enough if it takes at least one byte with every item (`Incremental.drain_of_item`). -/
def drain (buf : List β) : Drained β α ε := drainFuel d (buf.length + 1) buf

/-- Append the chunks to the buffer one at a time, draining it after each, up to the first error.
Chunks that were not read any more are part of the rest. -/
def feed : List β → List (List β) → Drained β α ε
  | buf, [] => ⟨[], none, buf⟩
  | buf, chunk :: chunks =>
    let r := drain d (buf ++ chunk)
    match r.error with
    | some e => ⟨r.items, some e, r.rest ++ chunks.flatten⟩
    | none => (feed r.rest chunks).after r.items

end Decoder

/-- A decoder that takes at least one byte with every item and none otherwise, and that stays with
an item or an error when more bytes arrive. -/
structure Incremental {β α ε : Type} (d : Decoder β α ε) : Prop where
  progress : ∀ {buf rest : List β} {a : α}, d buf = (.ok (some a), rest) →
    rest.length < buf.length
  waits : ∀ {buf rest : List β}, d buf = (.ok none, rest) → rest = buf
  fails : ∀ {buf rest : List β} {e : ε}, d buf = (.error e, rest) → rest = buf
  empty : d [] = (.ok none, [])
  item_append : ∀ {buf rest : List β} {a : α} (more : List β), d buf = (.ok (some a), rest) →
    d (buf ++ more) = (.ok (some a), rest ++ more)
  error_append : ∀ {buf rest : List β} {e : ε} (more : List β), d buf = (.error e, rest) →
    d (buf ++ more) = (.error e, rest ++ more)

namespace Incremental

variable {β α ε : Type} {d : Decoder β α ε} (hd : Incremental d)
include hd

/-- Fuel beyond the length of the buffer is not used. -/
theorem drainFuel_eq {fuel : ℕ} {buf : List β} (h : buf.length < fuel) :
    d.drainFuel fuel buf = d.drain buf := by
  -- Strong induction on the buffer: every item shortens it.
  induction hn : buf.length using Nat.strong_induction_on generalizing fuel buf with
  | _ n ih =>
    obtain ⟨fuel, rfl⟩ : ∃ k, fuel = k + 1 := ⟨fuel - 1, by omega⟩
    unfold Decoder.drain
    rw [Decoder.drainFuel, Decoder.drainFuel]
    match hbuf : d buf with
    | (.error e, rest) => rfl
    | (.ok none, rest) => rfl
    | (.ok (some a), rest) =>
      have hlt := hd.progress hbuf
      dsimp only
      rw [ih rest.length (by omega) (by omega : rest.length < fuel) rfl,
        ih rest.length (by omega) (by omega : rest.length < buf.length) rfl]

theorem drain_of_item {buf rest : List β} {a : α} (h : d buf = (.ok (some a), rest)) :
    d.drain buf = (d.drain rest).after [a] := by
  unfold Decoder.drain
  rw [Decoder.drainFuel, h]
  exact congrArg (Drained.after [a]) (hd.drainFuel_eq (hd.progress h))

theorem drain_of_wait {buf rest : List β} (h : d buf = (.ok none, rest)) :
    d.drain buf = ⟨[], none, buf⟩ := by
  unfold Decoder.drain
  rw [Decoder.drainFuel, h, hd.waits h]

theorem drain_of_error {buf rest : List β} {e : ε} (h : d buf = (.error e, rest)) :
    d.drain buf = ⟨[], some e, buf⟩ := by
  unfold Decoder.drain
  rw [Decoder.drainFuel, h, hd.fails h]

/-- **Induction along a drain**: the decoder waits, fails, or takes an item off the front. -/
theorem drain_induction {P : List β → Drained β α ε → Prop}
    (wait : ∀ buf, d buf = (.ok none, buf) → P buf ⟨[], none, buf⟩)
    (error : ∀ buf e, d buf = (.error e, buf) → P buf ⟨[], some e, buf⟩)
    (item : ∀ buf a rest, d buf = (.ok (some a), rest) → P rest (d.drain rest) →
      P buf ((d.drain rest).after [a])) (buf : List β) : P buf (d.drain buf) := by
  induction hn : buf.length using Nat.strong_induction_on generalizing buf with
  | _ n ih =>
    match hbuf : d buf with
    | (.error e, rest) =>
      rw [hd.drain_of_error hbuf]
      exact error buf e (by rw [hbuf, hd.fails hbuf])
    | (.ok none, rest) =>
      rw [hd.drain_of_wait hbuf]
      exact wait buf (by rw [hbuf, hd.waits hbuf])
    | (.ok (some a), rest) =>
      have hlt := hd.progress hbuf
      rw [hd.drain_of_item hbuf]
      exact item buf a rest hbuf (ih rest.length (by omega) rest rfl)

/-- A drain that did not fail left a buffer the decoder waits at. -/
theorem waits_at_rest (buf : List β) :
    (d.drain buf).error = none → d (d.drain buf).rest = (.ok none, (d.drain buf).rest) := by
  refine hd.drain_induction (P := fun _ r => r.error = none → d r.rest = (.ok none, r.rest))
    ?_ ?_ ?_ buf
  · intro buf hbuf _
    exact hbuf
  · intro buf e _ herr
    exact absurd herr (by simp)
  · intro buf a rest _ ih herr
    exact ih herr

/-- **More bytes.** A drain that failed stays as it is; one that waited goes on from its rest. -/
theorem drain_append (buf more : List β) :
    d.drain (buf ++ more) =
      match (d.drain buf).error with
      | some e => ⟨(d.drain buf).items, some e, (d.drain buf).rest ++ more⟩
      | none => (d.drain ((d.drain buf).rest ++ more)).after (d.drain buf).items := by
  refine hd.drain_induction (P := fun buf r => d.drain (buf ++ more) =
    match r.error with
    | some e => ⟨r.items, some e, r.rest ++ more⟩
    | none => (d.drain (r.rest ++ more)).after r.items) ?_ ?_ ?_ buf
  · intro buf _
    rfl
  · intro buf e hbuf
    have happ := hd.error_append more hbuf
    exact hd.drain_of_error happ
  · intro buf a rest hbuf ih
    rw [hd.drain_of_item (hd.item_append more hbuf), ih]
    -- The item in front goes in front of either outcome.
    cases herr : (d.drain rest).error with
    | some e => simp only [Drained.after, herr]
    | none => simp only [Drained.after, herr, List.append_assoc]

/-- **The decoder does not see the chunks**: fed piece by piece, it takes the items, stops at the
error and leaves the bytes of the whole. -/
theorem feed_eq_drain (chunks : List (List β)) : d.feed [] chunks = d.drain chunks.flatten := by
  -- From any buffer the decoder waits at, which is what every round leaves.
  suffices h : ∀ (chunks : List (List β)) (buf : List β), d buf = (.ok none, buf) →
      d.feed buf chunks = d.drain (buf ++ chunks.flatten) from h chunks [] hd.empty
  intro chunks
  induction chunks with
  | nil =>
    intro buf hbuf
    rw [List.flatten_nil, List.append_nil, hd.drain_of_wait hbuf, Decoder.feed]
  | cons chunk chunks ih =>
    intro buf hbuf
    rw [List.flatten_cons, ← List.append_assoc, hd.drain_append, Decoder.feed]
    cases herr : (d.drain (buf ++ chunk)).error with
    | some e => rfl
    | none => rw [ih _ (hd.waits_at_rest _ herr)]

end Incremental

/-! ### Decoders of an encoding -/

/-- The decoder takes exactly the words `enc a` of the valid items off the front, and waits inside
one. -/
structure Reads {β α ε : Type} (d : Decoder β α ε) (enc : α → List β) (Valid : α → Prop) :
    Prop where
  sound : ∀ {buf rest : List β} {a : α}, d buf = (.ok (some a), rest) →
    buf = enc a ++ rest ∧ Valid a
  complete : ∀ {a : α} (rest : List β), Valid a → d (enc a ++ rest) = (.ok (some a), rest)
  inside : ∀ {a : α} {p : List β}, Valid a → p <+: enc a → p ≠ enc a → d p = (.ok none, p)

namespace Reads

variable {β α ε : Type} {d : Decoder β α ε} {enc : α → List β} {Valid : α → Prop}

/-- What was taken and what was left make up the buffer. -/
theorem items_append_rest (hr : Reads d enc Valid) (hd : Incremental d) (buf : List β) :
    buf = (d.drain buf).items.flatMap enc ++ (d.drain buf).rest := by
  refine hd.drain_induction (P := fun buf r => buf = r.items.flatMap enc ++ r.rest) ?_ ?_ ?_ buf
  · intro buf _
    rfl
  · intro buf e _
    rfl
  · intro buf a rest hbuf ih
    rw [(hr.sound hbuf).1]
    change enc a ++ rest = ([a] ++ (d.drain rest).items).flatMap enc ++ (d.drain rest).rest
    rw [List.flatMap_append, List.flatMap_singleton, List.append_assoc, ← ih]

/-- A sequence of words, broken off inside the next one, is taken apart again. -/
theorem drain_eq (hr : Reads d enc Valid) (hd : Incremental d) {items : List α} {a : α}
    {p : List β} (hitems : ∀ b ∈ items, Valid b) (ha : Valid a) (hp : p <+: enc a)
    (hne : p ≠ enc a) : d.drain (items.flatMap enc ++ p) = ⟨items, none, p⟩ := by
  induction items with
  | nil => exact hd.drain_of_wait (hr.inside ha hp hne)
  | cons b items ih =>
    have hb := hitems b List.mem_cons_self
    have hrest := ih fun c hc => hitems c (List.mem_cons_of_mem b hc)
    rw [List.flatMap_cons, List.append_assoc, hd.drain_of_item (hr.complete _ hb), hrest]
    rfl

end Reads

end Framework
