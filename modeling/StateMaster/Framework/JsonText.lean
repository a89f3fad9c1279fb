import StateMaster.Framework.Words

/-!
# The text of a JSON document

A JSON text is read in two passes: characters into lexemes, lexemes into a value. Whitespace between
lexemes is dropped in the first pass and a string literal is kept as it stands, so two texts with the
same lexemes denote the same value and have the same literals.

The lexer reads one character at a time (`next`), being outside of literals or inside of one. It is
more liberal than the standard about what stands in a literal: any character, and a backslash before
any other. The second pass (`IsValue`) is the grammar; its values carry scalars and literals as they
are written, which determines the value they spell.

* `lexFrom_squeeze` — squeezing the blanks of a text keeps its lexemes, if its literals are calm;
* `infix_of_mem_literals` — a literal is a piece of the text;
* `exists_literal_of_mem` — a character the grammar knows nothing of stands in a literal;
* `lexFrom_of_append` — at the end of a text such characters can be left out.
-/

open Framework.Words

namespace Framework

namespace JsonText

/-! ### Numbers and scalars -/

/-- The characters of a number, by what they do. -/
inductive NumberChar where
  | zero | digit | minus | plus | point | exponent
deriving DecidableEq, Repr

def numberChar (c : Char) : Option NumberChar :=
  if c = '0' then some .zero
  else if c.isDigit then some .digit
  else if c = '-' then some .minus
  else if c = '+' then some .plus
  else if c = '.' then some .point
  else if c = 'e' ∨ c = 'E' then some .exponent
  else none

/-- Where the reader of a number is. -/
inductive NumberState where
  | start | minus | zero | int | point | frac | exp | sign | power
deriving DecidableEq, Repr

namespace NumberState

/-- An optional minus, an integer without leading zeros, a fraction and an exponent. -/
def next : NumberState → NumberChar → Option NumberState
  | .start, .minus => some .minus
  | .start, .zero | .minus, .zero => some .zero
  | .start, .digit | .minus, .digit | .int, .zero | .int, .digit => some .int
  | .zero, .point | .int, .point => some .point
  | .point, .zero | .point, .digit | .frac, .zero | .frac, .digit => some .frac
  | .zero, .exponent | .int, .exponent | .frac, .exponent => some .exp
  | .exp, .plus | .exp, .minus => some .sign
  | .exp, .zero | .exp, .digit | .sign, .zero | .sign, .digit | .power, .zero | .power, .digit =>
    some .power
  | _, _ => none

/-- A number may end here. -/
def accepts : NumberState → Bool
  | .zero | .int | .frac | .power => true
  | _ => false

/-- One character of a number. -/
def read (st : NumberState) (c : Char) : Option NumberState := (numberChar c).bind st.next

end NumberState

def isNumber (text : List Char) : Bool :=
  (text.foldlM NumberState.read .start).any NumberState.accepts

/-- The values that are neither strings nor made of others. -/
def isScalar (text : List Char) : Bool :=
  text == ['t', 'r', 'u', 'e'] || text == ['f', 'a', 'l', 's', 'e'] || text == ['n', 'u', 'l', 'l']
    || isNumber text

/-- The characters scalars are made of. -/
def scalarChar (c : Char) : Bool := (numberChar c).isSome || c.isLower

theorem scalarChar_of_foldlM {st st' : NumberState} {text : List Char}
    (h : text.foldlM NumberState.read st = some st') : ∀ c ∈ text, scalarChar c = true := by
  induction text generalizing st with
  | nil => exact fun c hc => absurd hc List.not_mem_nil
  | cons a text ih =>
    rw [List.foldlM_cons] at h
    obtain ⟨st₁, hread, hrest⟩ := Option.bind_eq_some_iff.mp h
    obtain ⟨kind, hkind, -⟩ := Option.bind_eq_some_iff.mp hread
    intro c hc
    rcases List.mem_cons.mp hc with rfl | hc
    · simp [scalarChar, hkind]
    · exact ih hrest c hc

theorem scalarChar_of_mem {text : List Char} (h : isScalar text = true) :
    ∀ c ∈ text, scalarChar c = true := by
  unfold isScalar at h
  simp only [Bool.or_eq_true, beq_iff_eq] at h
  rcases h with ((rfl | rfl) | rfl) | h
  · simp [scalarChar, numberChar]
  · simp [scalarChar, numberChar]
  · simp [scalarChar, numberChar]
  · unfold isNumber at h
    cases hst : text.foldlM NumberState.read .start with
    | none =>
      rw [hst] at h
      exact absurd h Bool.false_ne_true
    | some st => exact scalarChar_of_foldlM hst

/-! ### Lexemes -/

/-- U+0022. -/
def quotation : Char := '\x22'

/-- U+005C. -/
def backslash : Char := '\x5c'

/-- Whitespace between lexemes. -/
def isSpace (c : Char) : Bool := c == ' ' || c == '\t' || c == '\n' || c == '\r'

/-- The six structural characters. -/
def isPunct (c : Char) : Bool :=
  c == '\x7b' || c == '\x7d' || c == '[' || c == ']' || c == ':' || c == ','

/-- A lexical piece of a text. -/
inductive Lexeme where
  | punct (c : Char)
  | scalar (text : List Char)
  /-- What stands between the quotation marks. -/
  | literal (content : List Char)
deriving DecidableEq, Repr

/-- Where the lexer is. -/
inductive Mode where
  /-- Outside of literals, with the scalar that is being read. -/
  | outside (word : List Char)
  /-- In a literal, with what it holds so far, and whether a backslash was just read. -/
  | inside (content : List Char) (escaped : Bool)
deriving DecidableEq, Repr

/-- The scalar just read is over. -/
def flush (word : List Char) : Option (List Lexeme) :=
  if word.isEmpty then some [] else if isScalar word then some [.scalar word] else none

/-- One character: the lexemes it completes, and where the lexer is then. -/
def next : Mode → Char → Option (List Lexeme × Mode)
  | .outside word, c =>
    if isSpace c then (flush word).map fun out => (out, .outside [])
    else if c = quotation then (flush word).map fun out => (out, .inside [] false)
    else if isPunct c then (flush word).map fun out => (out ++ [.punct c], .outside [])
    else some ([], .outside (word ++ [c]))
  | .inside content true, c => some ([], .inside (content ++ [c]) false)
  | .inside content false, c =>
    if c = backslash then some ([], .inside (content ++ [c]) true)
    else if c = quotation then some ([.literal content], .outside [])
    else some ([], .inside (content ++ [c]) false)

/-- The text is over: not in a literal. -/
def finish : Mode → Option (List Lexeme)
  | .outside word => flush word
  | .inside _ _ => none

def lexFrom : Mode → List Char → Option (List Lexeme)
  | m, [] => finish m
  | m, c :: rest => (next m c).bind fun p => (lexFrom p.2 rest).map fun ls => p.1 ++ ls

/-- The lexemes of a text. -/
def lex (text : String) : Option (List Lexeme) := lexFrom (.outside []) text.toList

/-- The contents of the string literals, in order. -/
def literals (ls : List Lexeme) : List (List Char) :=
  ls.filterMap fun l =>
    match l with
    | .literal content => some content
    | _ => none

@[simp] theorem literals_append (ls ls' : List Lexeme) :
    literals (ls ++ ls') = literals ls ++ literals ls' :=
  List.filterMap_append ..

@[simp] theorem literals_literal (content : List Char) (ls : List Lexeme) :
    literals (.literal content :: ls) = content :: literals ls := rfl

theorem literals_of_flush {word : List Char} {out : List Lexeme} (h : flush word = some out) :
    literals out = [] := by
  unfold flush at h
  split at h
  · obtain rfl := Option.some.inj h
    rfl
  · split at h
    · obtain rfl := Option.some.inj h
      rfl
    · exact absurd h (by simp)

/-- What is read outside of literals is made of scalar characters. -/
theorem scalarChar_of_flush {word : List Char} {out : List Lexeme} (h : flush word = some out) :
    ∀ c ∈ word, scalarChar c = true := by
  unfold flush at h
  split at h
  · next hempty =>
    rw [List.isEmpty_iff.mp hempty]
    exact fun c hc => absurd hc List.not_mem_nil
  · split at h
    · exact scalarChar_of_mem ‹_›
    · exact absurd h (by simp)

/-! ### Steps of the lexer -/

/-- What one character can do. -/
inductive LexStep : Mode → Char → List Lexeme → Mode → Prop where
  | space {word : List Char} {c : Char} {out : List Lexeme} (hc : isSpace c = true)
      (hflush : flush word = some out) : LexStep (.outside word) c out (.outside [])
  | opens {word : List Char} {out : List Lexeme} (hflush : flush word = some out) :
      LexStep (.outside word) quotation out (.inside [] false)
  | punct {word : List Char} {c : Char} {out : List Lexeme} (hc : isPunct c = true)
      (hflush : flush word = some out) :
      LexStep (.outside word) c (out ++ [.punct c]) (.outside [])
  | word {word : List Char} {c : Char} (hspace : isSpace c = false) (hquote : c ≠ quotation)
      (hpunct : isPunct c = false) : LexStep (.outside word) c [] (.outside (word ++ [c]))
  | content {content : List Char} {escaped escaped' : Bool} {c : Char} :
      LexStep (.inside content escaped) c [] (.inside (content ++ [c]) escaped')
  | closes {content : List Char} :
      LexStep (.inside content false) quotation [.literal content] (.outside [])

theorem next_sound {m m' : Mode} {c : Char} {out : List Lexeme} (h : next m c = some (out, m')) :
    LexStep m c out m' := by
  unfold next at h
  split at h
  · split at h
    · obtain ⟨out', hflush, heq⟩ := Option.map_eq_some_iff.mp h
      obtain ⟨rfl, rfl⟩ := Prod.mk.inj heq
      exact .space ‹_› hflush
    · split at h
      · subst ‹c = quotation›
        obtain ⟨out', hflush, heq⟩ := Option.map_eq_some_iff.mp h
        obtain ⟨rfl, rfl⟩ := Prod.mk.inj heq
        exact .opens hflush
      · split at h
        · obtain ⟨out', hflush, heq⟩ := Option.map_eq_some_iff.mp h
          obtain ⟨rfl, rfl⟩ := Prod.mk.inj heq
          exact .punct ‹_› hflush
        · obtain ⟨rfl, rfl⟩ := Prod.mk.inj (Option.some.inj h)
          exact .word (Bool.eq_false_of_not_eq_true ‹_›) ‹_› (Bool.eq_false_of_not_eq_true ‹_›)
  · obtain ⟨rfl, rfl⟩ := Prod.mk.inj (Option.some.inj h)
    exact .content
  · split at h
    · obtain ⟨rfl, rfl⟩ := Prod.mk.inj (Option.some.inj h)
      exact .content
    · split at h
      · subst ‹c = quotation›
        obtain ⟨rfl, rfl⟩ := Prod.mk.inj (Option.some.inj h)
        exact .closes
      · obtain ⟨rfl, rfl⟩ := Prod.mk.inj (Option.some.inj h)
        exact .content

theorem lexFrom_cons_iff {m : Mode} {c : Char} {rest : List Char} {ls : List Lexeme} :
    lexFrom m (c :: rest) = some ls ↔ ∃ out m' ls', next m c = some (out, m') ∧
      lexFrom m' rest = some ls' ∧ ls = out ++ ls' := by
  rw [lexFrom]
  constructor
  · intro h
    obtain ⟨⟨out, m'⟩, hnext, hmap⟩ := Option.bind_eq_some_iff.mp h
    obtain ⟨ls', hrest, rfl⟩ := Option.map_eq_some_iff.mp hmap
    exact ⟨out, m', ls', hnext, hrest, rfl⟩
  · rintro ⟨out, m', ls', hnext, hrest, rfl⟩
    rw [hnext, Option.bind_some, hrest, Option.map_some]

/-- Whitespace ends the scalar that is being read. -/
theorem next_space {word : List Char} {c : Char} (hc : isSpace c = true) :
    next (.outside word) c = (flush word).map fun out => (out, .outside []) := by
  rw [next, if_pos hc]

/-- Whitespace in a literal is a character of it. -/
theorem next_inside_space {content : List Char} {escaped : Bool} {c : Char}
    (hc : isSpace c = true) :
    next (.inside content escaped) c = some ([], .inside (content ++ [c]) false) := by
  cases escaped with
  | true => rfl
  | false =>
    have hback : c ≠ backslash := by
      rintro rfl
      exact absurd hc (by decide)
    have hquote : c ≠ quotation := by
      rintro rfl
      exact absurd hc (by decide)
    rw [next, if_neg hback, if_neg hquote]

/-- A literal that is being read becomes the next literal of the text. -/
theorem exists_literal_of_inside {content cs : List Char} {escaped : Bool} {ls : List Lexeme}
    (h : lexFrom (.inside content escaped) cs = some ls) :
    ∃ more ls', ls = .literal (content ++ more) :: ls' := by
  induction cs generalizing content escaped ls with
  | nil => exact absurd h (by simp [lexFrom, finish])
  | cons c rest ih =>
    obtain ⟨out, m', ls', hnext, hrest, rfl⟩ := lexFrom_cons_iff.mp h
    cases next_sound hnext with
    | content =>
      obtain ⟨more, ls'', rfl⟩ := ih hrest
      exact ⟨c :: more, ls'', by simp⟩
    | closes => exact ⟨[], ls', by simp⟩

/-! ### Squeezing the blanks of a text -/

section Squeeze

variable {blank : Char → Bool} {sep : Char}

/-- In a calm literal a blank is the separator, and a nonblank follows it. -/
theorem calm_blank_inside {content rest : List Char} {c : Char} {ls : List Lexeme}
    (hspaces : ∀ c, blank c = true → isSpace c = true) (hc : blank c = true)
    (h : lexFrom (.inside (content ++ [c]) false) rest = some ls)
    (hcalm : ∀ l ∈ literals ls, Calm blank sep l) :
    c = sep ∧ ∃ d rest', rest = d :: rest' ∧ blank d = false := by
  obtain ⟨more, ls', rfl⟩ := exists_literal_of_inside h
  have hlit := hcalm _ (List.mem_cons_self (l := literals ls'))
  refine ⟨hlit.blanks c (by simp) hc, ?_⟩
  cases rest with
  | nil => exact absurd h (by simp [lexFrom, finish])
  | cons d rest' =>
    refine ⟨d, rest', rfl, Bool.eq_false_of_not_eq_true fun hd => ?_⟩
    -- two blanks in a row would be two characters of the literal
    obtain ⟨out, m', ls'', hnext, hrest, heq⟩ := lexFrom_cons_iff.mp h
    rw [next_inside_space (hspaces d hd)] at hnext
    obtain ⟨rfl, rfl⟩ := Prod.mk.inj (Option.some.inj hnext)
    obtain ⟨more', ls₃, rfl⟩ := exists_literal_of_inside hrest
    have hmore : content ++ [c] ++ more = content ++ [c] ++ [d] ++ more' :=
      Lexeme.literal.inj (List.cons.inj heq).1
    rw [hmore, List.append_assoc, List.append_assoc] at hlit
    have hpair := List.isChain_append.mp hlit.runs
    have hcd := List.isChain_cons_cons.mp hpair.2.1
    exact hcd.1 ⟨hc, hd⟩

/-- Between lexemes, a run of blanks is one separator, or is dropped. -/
theorem lexFrom_squeeze_gap (hsep : isSpace sep = true) {c : Char} (hc : blank c = true)
    {word rest : List Char} {out ls : List Lexeme} (hflush : flush word = some out)
    (hrest : lexFrom (.outside []) (squeeze blank sep false rest) = some ls) {mid : Bool}
    (hmid : mid = false → word = []) :
    lexFrom (.outside word) (squeeze blank sep mid (c :: rest)) = some (out ++ ls) := by
  cases mid with
  | false =>
    obtain rfl := hmid rfl
    obtain rfl : [] = out := Option.some.inj hflush
    rw [squeeze_false_cons hc]
    exact hrest
  | true =>
    rw [squeeze_true_cons hc]
    split
    · next hempty =>
      -- nothing follows: the scalar that is being read is the last lexeme
      rw [List.isEmpty_iff.mp hempty] at hrest
      obtain rfl : [] = ls := Option.some.inj hrest
      rw [List.append_nil]
      exact hflush
    · refine lexFrom_cons_iff.mpr ⟨out, .outside [], ls, ?_, hrest, rfl⟩
      rw [next_space hsep, hflush]
      rfl

/-- **Squeezing the blanks of a text keeps its lexemes**, if its literals are calm. -/
theorem lexFrom_squeeze (hspaces : ∀ c, blank c = true → isSpace c = true)
    (hsep : isSpace sep = true) {m : Mode} {cs : List Char} {ls : List Lexeme}
    (h : lexFrom m cs = some ls) (hcalm : ∀ l ∈ literals ls, Calm blank sep l) {mid : Bool}
    (hmid : mid = false → m = .outside []) :
    lexFrom m (squeeze blank sep mid cs) = some ls := by
  induction cs generalizing m ls mid with
  | nil => exact h
  | cons c rest ih =>
    obtain ⟨out, m', ls', hnext, hrest, rfl⟩ := lexFrom_cons_iff.mp h
    have hcalm' : ∀ l ∈ literals ls', Calm blank sep l := by
      intro l hl
      refine hcalm l ?_
      rw [literals_append]
      exact List.mem_append_right _ hl
    by_cases hc : blank c = true
    · cases m with
      | outside word =>
        rw [next_space (hspaces c hc)] at hnext
        obtain ⟨out', hflush, heq⟩ := Option.map_eq_some_iff.mp hnext
        obtain ⟨rfl, rfl⟩ := Prod.mk.inj heq
        exact lexFrom_squeeze_gap hsep hc hflush (ih hrest hcalm' fun _ => rfl)
          fun h => Mode.outside.inj (hmid h)
      | inside content escaped =>
        -- in a literal: a single separator, which stays
        rw [next_inside_space (hspaces c hc)] at hnext
        obtain ⟨rfl, rfl⟩ := Prod.mk.inj (Option.some.inj hnext)
        obtain ⟨rfl, d, rest', rfl, hd⟩ := calm_blank_inside hspaces hc hrest hcalm'
        have htrue : mid = true := by
          cases mid with
          | true => rfl
          | false => exact absurd (hmid rfl) (by simp)
        have ih₁ : lexFrom (.inside (content ++ [c]) false) (squeeze blank c true (d :: rest'))
            = some ls' := ih hrest hcalm' (by simp)
        subst htrue
        rw [squeeze_cons_of_not_blank hd] at ih₁
        rw [squeeze_true_cons hc, squeeze_cons_of_not_blank hd, if_neg (by simp)]
        exact lexFrom_cons_iff.mpr
          ⟨[], .inside (content ++ [c]) false, ls', next_inside_space hsep, ih₁, rfl⟩
    · rw [squeeze_cons_of_not_blank (Bool.eq_false_of_not_eq_true hc)]
      exact lexFrom_cons_iff.mpr
        ⟨out, m', ls', hnext, ih hrest hcalm' (by simp), rfl⟩

end Squeeze

/-! ### Literals and the characters of a text -/

/-- The characters the lexer holds of a literal. -/
def Mode.held : Mode → List Char
  | .outside _ => []
  | .inside content _ => content

/-- The characters the lexer holds. -/
def Mode.pending : Mode → List Char
  | .outside word => word
  | .inside content _ => content

/-- **A literal is a piece of the text.** -/
theorem infix_of_mem_literals {m : Mode} {cs : List Char} {ls : List Lexeme}
    (h : lexFrom m cs = some ls) {l : List Char} (hl : l ∈ literals ls) : l <:+: m.held ++ cs := by
  induction cs generalizing m ls with
  | nil =>
    cases m with
    | outside word =>
      rw [literals_of_flush h] at hl
      exact absurd hl List.not_mem_nil
    | inside content escaped => exact absurd h (by simp [lexFrom, finish])
  | cons c rest ih =>
    obtain ⟨out, m', ls', hnext, hrest, rfl⟩ := lexFrom_cons_iff.mp h
    rw [literals_append, List.mem_append] at hl
    have hlater : ∀ before : List Char, l <:+: rest → l <:+: before ++ c :: rest := by
      intro before hinfix
      exact hinfix.trans ⟨before ++ [c], [], by simp⟩
    cases next_sound hnext with
    | space hc hflush | opens hflush =>
      rw [literals_of_flush hflush] at hl
      exact hlater [] (ih hrest (hl.resolve_left List.not_mem_nil))
    | punct hc hflush =>
      rw [literals_append, literals_of_flush hflush] at hl
      exact hlater [] (ih hrest (hl.resolve_left (by simp [literals])))
    | word => exact hlater [] (ih hrest (hl.resolve_left List.not_mem_nil))
    | @content content escaped escaped' =>
      have hinfix := ih hrest (hl.resolve_left List.not_mem_nil)
      change l <:+: content ++ [c] ++ rest at hinfix
      rwa [List.append_assoc, List.singleton_append] at hinfix
    | @closes content =>
      rcases hl with hl | hl
      · obtain rfl := List.mem_singleton.mp hl
        exact (List.prefix_append l _).isInfix
      · exact hlater content (ih hrest hl)

/-- A character that is neither whitespace nor punctuation nor part of a scalar. -/
structure Foreign (c : Char) : Prop where
  space : isSpace c = false
  quotation : c ≠ quotation
  punct : isPunct c = false
  scalar : scalarChar c = false

theorem Foreign.notMem_of_flush {c : Char} (hc : Foreign c) {word : List Char}
    {out : List Lexeme} (h : flush word = some out) : c ∉ word := by
  intro hmem
  exact absurd ((scalarChar_of_flush h c hmem).symm.trans hc.scalar) (by simp)

/-- **A foreign character stands in a literal.** -/
theorem exists_literal_of_mem {c : Char} (hc : Foreign c) {m : Mode} {cs : List Char}
    {ls : List Lexeme} (h : lexFrom m cs = some ls) (hmem : c ∈ m.pending ++ cs) :
    ∃ l ∈ literals ls, c ∈ l := by
  induction cs generalizing m ls with
  | nil =>
    cases m with
    | outside word =>
      rw [List.append_nil] at hmem
      exact absurd hmem (hc.notMem_of_flush h)
    | inside content escaped => exact absurd h (by simp [lexFrom, finish])
  | cons a rest ih =>
    obtain ⟨out, m', ls', hnext, hrest, rfl⟩ := lexFrom_cons_iff.mp h
    have hlater : c ∈ m'.pending ++ rest → ∃ l ∈ literals (out ++ ls'), c ∈ l := by
      intro hmem'
      obtain ⟨l, hl, hcl⟩ := ih hrest hmem'
      refine ⟨l, ?_, hcl⟩
      rw [literals_append]
      exact List.mem_append_right _ hl
    rw [List.mem_append, List.mem_cons] at hmem
    cases next_sound hnext with
    | space ha hflush =>
      rcases hmem with hmem | rfl | hmem
      · exact absurd hmem (hc.notMem_of_flush hflush)
      · exact absurd (ha.symm.trans hc.space) (by simp)
      · exact hlater hmem
    | opens hflush =>
      rcases hmem with hmem | rfl | hmem
      · exact absurd hmem (hc.notMem_of_flush hflush)
      · exact absurd rfl hc.quotation
      · exact hlater hmem
    | punct ha hflush =>
      rcases hmem with hmem | rfl | hmem
      · exact absurd hmem (hc.notMem_of_flush hflush)
      · exact absurd (ha.symm.trans hc.punct) (by simp)
      · exact hlater hmem
    | word | content =>
      -- the character just read is held
      refine hlater ?_
      rw [Mode.pending, List.append_assoc, List.mem_append, List.singleton_append, List.mem_cons]
      exact hmem
    | @closes content =>
      rcases hmem with hmem | rfl | hmem
      · exact ⟨content, by simp, hmem⟩
      · exact absurd rfl hc.quotation
      · exact hlater hmem

/-- At the end of a text a character can be left out that is whitespace, or that the grammar knows
nothing of. -/
theorem lexFrom_of_concat {m : Mode} {cs : List Char} {c : Char} {ls : List Lexeme}
    (hquote : c ≠ quotation) (hpunct : isPunct c = false) (hscalar : scalarChar c = false)
    (h : lexFrom m (cs ++ [c]) = some ls) : lexFrom m cs = some ls := by
  induction cs generalizing m ls with
  | nil =>
    obtain ⟨out, m', ls', hnext, hrest, rfl⟩ := lexFrom_cons_iff.mp h
    cases next_sound hnext with
    | space hc hflush =>
      obtain rfl : [] = ls' := Option.some.inj hrest
      rw [List.append_nil]
      exact hflush
    | opens => exact absurd rfl hquote
    | punct hc => exact absurd (hc.symm.trans hpunct) (by simp)
    | @word word =>
      -- it would be the last character of a scalar
      have hlast := scalarChar_of_flush hrest c (by simp)
      exact absurd (hlast.symm.trans hscalar) (by simp)
    | content => exact absurd hrest (by simp [lexFrom, finish])
    | closes => exact absurd rfl hquote
  | cons a cs ih =>
    obtain ⟨out, m', ls', hnext, hrest, rfl⟩ := lexFrom_cons_iff.mp h
    exact lexFrom_cons_iff.mpr ⟨out, m', ls', hnext, ih hrest, rfl⟩

/-- The same for a whole ending. -/
theorem lexFrom_of_append {m : Mode} {cs tail : List Char} {ls : List Lexeme}
    (htail : ∀ c ∈ tail, c ≠ quotation ∧ isPunct c = false ∧ scalarChar c = false)
    (h : lexFrom m (cs ++ tail) = some ls) : lexFrom m cs = some ls := by
  induction tail using List.reverseRecOn with
  | nil => rwa [List.append_nil] at h
  | append_singleton tail c ih =>
    obtain ⟨hquote, hpunct, hscalar⟩ := htail c (by simp)
    refine ih (fun a ha => htail a (List.mem_append_left _ ha)) ?_
    rw [← List.append_assoc] at h
    exact lexFrom_of_concat hquote hpunct hscalar h

/-- A scalar that is being read becomes the next lexeme of the text. -/
theorem exists_scalar_of_outside {word cs : List Char} {ls : List Lexeme} (hne : word ≠ [])
    (h : lexFrom (.outside word) cs = some ls) : ∃ text ls', ls = .scalar text :: ls' := by
  have hflush : ∀ {word : List Char} {out : List Lexeme}, word ≠ [] → flush word = some out →
      out = [.scalar word] := by
    intro word out hne h
    unfold flush at h
    rw [if_neg (by simpa using hne)] at h
    split at h
    · exact (Option.some.inj h).symm
    · exact absurd h (by simp)
  induction cs generalizing word ls with
  | nil => exact ⟨word, [], hflush hne h⟩
  | cons c rest ih =>
    obtain ⟨out, m', ls', hnext, hrest, rfl⟩ := lexFrom_cons_iff.mp h
    cases next_sound hnext with
    | space _ hout | opens hout =>
      rw [hflush hne hout]
      exact ⟨word, ls', rfl⟩
    | punct _ hout =>
      rw [hflush hne hout]
      exact ⟨word, _, rfl⟩
    | word => exact ih (by simp) hrest

/-- A text whose first lexeme is a structural character starts with it, up to whitespace. -/
theorem exists_gap_of_punct {cs : List Char} {c : Char} {ls : List Lexeme}
    (h : lexFrom (.outside []) cs = some (.punct c :: ls)) :
    ∃ gap rest, cs = gap ++ c :: rest ∧ ∀ a ∈ gap, isSpace a = true := by
  induction cs with
  | nil => exact absurd h (by simp [lexFrom, finish, flush])
  | cons a rest ih =>
    obtain ⟨out, m', ls', hnext, hrest, heq⟩ := lexFrom_cons_iff.mp h
    cases next_sound hnext with
    | space ha hflush =>
      obtain rfl : [] = out := Option.some.inj hflush
      rw [List.nil_append] at heq
      obtain ⟨gap, rest', rfl, hgap⟩ := ih (heq ▸ hrest)
      exact ⟨a :: gap, rest', rfl, List.forall_mem_cons.mpr ⟨ha, hgap⟩⟩
    | opens hflush =>
      obtain rfl : [] = out := Option.some.inj hflush
      obtain ⟨more, ls'', rfl⟩ := exists_literal_of_inside hrest
      exact absurd (List.cons.inj heq).1 (by simp)
    | @punct _ _ out ha hflush =>
      obtain rfl : [] = out := Option.some.inj hflush
      obtain rfl := Lexeme.punct.inj (List.cons.inj heq).1
      exact ⟨[], rest, rfl, fun b hb => absurd hb List.not_mem_nil⟩
    | word =>
      obtain ⟨text, ls'', rfl⟩ := exists_scalar_of_outside (by simp) hrest
      exact absurd (List.cons.inj heq).1 (by simp)

/-! ### Values -/

/-- A value, with its scalars and literals as they are written. -/
inductive Tree where
  | scalar (text : List Char)
  | string (content : List Char)
  | array (items : List Tree)
  | object (members : List (List Char × Tree))

mutual

/-- The lexemes spell the value. -/
inductive IsValue : List Lexeme → Tree → Prop where
  | scalar (text : List Char) : IsValue [.scalar text] (.scalar text)
  | string (content : List Char) : IsValue [.literal content] (.string content)
  | emptyArray : IsValue [.punct '[', .punct ']'] (.array [])
  | array {ls : List Lexeme} {items : List Tree} (h : IsItems ls items) :
      IsValue (.punct '[' :: ls ++ [.punct ']']) (.array items)
  | emptyObject : IsValue [.punct '\x7b', .punct '\x7d'] (.object [])
  | object {ls : List Lexeme} {members : List (List Char × Tree)} (h : IsMembers ls members) :
      IsValue (.punct '\x7b' :: ls ++ [.punct '\x7d']) (.object members)

/-- One value or more, with commas between them. -/
inductive IsItems : List Lexeme → List Tree → Prop where
  | one {ls : List Lexeme} {v : Tree} (h : IsValue ls v) : IsItems ls [v]
  | more {ls ls' : List Lexeme} {v : Tree} {vs : List Tree} (h : IsValue ls v)
      (hmore : IsItems ls' vs) : IsItems (ls ++ .punct ',' :: ls') (v :: vs)

/-- One member or more, with commas between them. -/
inductive IsMembers : List Lexeme → List (List Char × Tree) → Prop where
  | one {ls : List Lexeme} {name : List Char} {v : Tree} (h : IsValue ls v) :
      IsMembers (.literal name :: .punct ':' :: ls) [(name, v)]
  | more {ls ls' : List Lexeme} {name : List Char} {v : Tree} {members : List (List Char × Tree)}
      (h : IsValue ls v) (hmore : IsMembers ls' members) :
      IsMembers (.literal name :: .punct ':' :: ls ++ .punct ',' :: ls') ((name, v) :: members)

end

/-- The text denotes the value. -/
def Denotes (text : String) (v : Tree) : Prop := ∃ ls, lex text = some ls ∧ IsValue ls v

/-- The text of an object starts with its brace. -/
theorem IsValue.head_of_object {ls : List Lexeme} {members : List (List Char × Tree)}
    (h : IsValue ls (.object members)) : ∃ ls', ls = .punct '\x7b' :: ls' := by
  cases h with
  | emptyObject => exact ⟨_, rfl⟩
  | object h => exact ⟨_, rfl⟩

/-! A value is spelled by one list of lexemes. -/

mutual

theorem IsValue.unique : {ls ls' : List Lexeme} → {v : Tree} → IsValue ls v → IsValue ls' v →
    ls = ls'
  | _, _, _, .scalar _, h' => by cases h' with | scalar => rfl
  | _, _, _, .string _, h' => by cases h' with | string => rfl
  | _, _, _, .emptyArray, h' => by
    cases h' with
    | emptyArray => rfl
    | array h' => cases h'
  | _, _, _, .array h, h' => by
    cases h' with
    | emptyArray => cases h
    | array h' => rw [IsItems.unique h h']
  | _, _, _, .emptyObject, h' => by
    cases h' with
    | emptyObject => rfl
    | object h' => cases h'
  | _, _, _, .object h, h' => by
    cases h' with
    | emptyObject => cases h
    | object h' => rw [IsMembers.unique h h']

theorem IsItems.unique : {ls ls' : List Lexeme} → {vs : List Tree} → IsItems ls vs →
    IsItems ls' vs → ls = ls'
  | _, _, _, .one h, h' => by
    cases h' with
    | one h' => exact IsValue.unique h h'
    | more h' hmore' => cases hmore'
  | _, _, _, .more h hmore, h' => by
    cases h' with
    | one h' => cases hmore
    | more h' hmore' => rw [IsValue.unique h h', IsItems.unique hmore hmore']

theorem IsMembers.unique : {ls ls' : List Lexeme} → {members : List (List Char × Tree)} →
    IsMembers ls members → IsMembers ls' members → ls = ls'
  | _, _, _, .one h, h' => by
    cases h' with
    | one h' => rw [IsValue.unique h h']
    | more h' hmore' => cases hmore'
  | _, _, _, .more h hmore, h' => by
    cases h' with
    | one h' => cases hmore
    | more h' hmore' => rw [IsValue.unique h h', IsMembers.unique hmore hmore']

end

/-- **Texts of one value have the same lexemes**: they differ in the whitespace between lexemes. -/
theorem Denotes.lex_eq {text text' : String} {v : Tree} (h : Denotes text v)
    (h' : Denotes text' v) : lex text' = lex text := by
  obtain ⟨ls, hlex, hvalue⟩ := h
  obtain ⟨ls', hlex', hvalue'⟩ := h'
  rw [hlex, hlex', IsValue.unique hvalue hvalue']

end JsonText

end Framework
