import StateMaster.Framework.Words

/-!
# The tokenizer of the shell

`tokenize` splits a line at spaces and tabs, except between single quotes. All it remembers is the
token it is reading and whether it is between quotes, so a token is there for it when it has a
character: `''` is no token.

* `tokenizeLoop_eq_words` — without quotes, the tokens are the words of the line;
* `tokenize_quoteLine` — quoting a list of arguments and tokenizing the line gives the list back
  without its empty members;
* `quoteChar_notMem_of_mem_tokenizeLoop` — no token holds a quote.
-/

open Framework.Words

namespace StateMaster

namespace Smash

/-- U+0027. -/
def quoteChar : Char := '\x27'

/-- What separates tokens. -/
def isBlank (c : Char) : Bool := c == ' ' || c == '\t'

/-- The loop of `tokenize`. -/
def tokenizeLoop : List Char → List String → List Char → Bool → List String
  | [], tokens, current, _ =>
    if current.isEmpty then tokens else tokens ++ [String.ofList current]
  | c :: rest, tokens, current, inSingleQuote =>
    -- a quote opens or closes, and is not kept
    if c = quoteChar then tokenizeLoop rest tokens current (!inSingleQuote)
    else if isBlank c && !inSingleQuote then
      if current.isEmpty then tokenizeLoop rest tokens current inSingleQuote
      else tokenizeLoop rest (tokens ++ [String.ofList current]) [] inSingleQuote
    else tokenizeLoop rest tokens (current ++ [c]) inSingleQuote

/-- `tokenize`. -/
def tokenize (input : String) : List String := tokenizeLoop input.toList [] [] false

/-! ### The loop -/

/-- The tokens found so far are not looked at. -/
theorem tokenizeLoop_eq_append (cs : List Char) (tokens : List String) (current : List Char)
    (inSingleQuote : Bool) :
    tokenizeLoop cs tokens current inSingleQuote
      = tokens ++ tokenizeLoop cs [] current inSingleQuote := by
  induction cs generalizing tokens current inSingleQuote with
  | nil =>
    unfold tokenizeLoop
    split
    · rw [List.append_nil]
    · rfl
  | cons c rest ih =>
    rw [tokenizeLoop, tokenizeLoop]
    split
    · exact ih tokens current _
    · split
      · split
        · exact ih tokens current _
        · rw [ih (tokens ++ [String.ofList current]), ih ([] ++ [String.ofList current]),
            List.nil_append, List.append_assoc]
      · exact ih tokens _ _

/-- Between quotes every character belongs to the token. -/
theorem tokenizeLoop_quoted {arg : List Char} (harg : quoteChar ∉ arg) (rest : List Char)
    (tokens : List String) (current : List Char) :
    tokenizeLoop (arg ++ rest) tokens current true
      = tokenizeLoop rest tokens (current ++ arg) true := by
  induction arg generalizing current with
  | nil => rw [List.nil_append, List.append_nil]
  | cons c arg ih =>
    obtain ⟨hc, harg⟩ := not_or.mp (List.mem_cons.not.mp harg)
    rw [List.cons_append, tokenizeLoop, if_neg (Ne.symm hc), Bool.not_true, Bool.and_false,
      if_neg Bool.false_ne_true, ih harg, List.append_assoc, List.singleton_append]

/-- **Without quotes, the tokens are the words.** -/
theorem tokenizeLoop_eq_words {cs : List Char} (hcs : quoteChar ∉ cs) (current : List Char) :
    tokenizeLoop cs [] current false = (wordsFrom isBlank current cs).map String.ofList := by
  induction cs generalizing current with
  | nil =>
    unfold tokenizeLoop wordsFrom
    split
    · rfl
    · rfl
  | cons c rest ih =>
    obtain ⟨hc, hrest⟩ := not_or.mp (List.mem_cons.not.mp hcs)
    rw [tokenizeLoop, if_neg (Ne.symm hc), Bool.not_false, Bool.and_true, wordsFrom]
    split
    · split
      · next hempty =>
        rw [List.isEmpty_iff.mp hempty]
        exact ih hrest []
      · rw [tokenizeLoop_eq_append, ih hrest [], List.nil_append, List.map_cons,
          List.singleton_append]
    · exact ih hrest _

/-- **No token holds a quote.** -/
theorem quoteChar_notMem_of_mem_tokenizeLoop {cs current : List Char} {tokens : List String}
    {inSingleQuote : Bool} (htokens : ∀ t ∈ tokens, quoteChar ∉ t.toList)
    (hcurrent : quoteChar ∉ current) {t : String}
    (ht : t ∈ tokenizeLoop cs tokens current inSingleQuote) : quoteChar ∉ t.toList := by
  -- a finished token is what was being read
  have hpush : ∀ {tokens : List String} {current : List Char},
      (∀ t ∈ tokens, quoteChar ∉ t.toList) → quoteChar ∉ current →
      ∀ t ∈ tokens ++ [String.ofList current], quoteChar ∉ t.toList := by
    intro tokens current htokens hcurrent t ht
    rcases List.mem_append.mp ht with ht | ht
    · exact htokens t ht
    · rw [List.mem_singleton.mp ht, String.toList_ofList]
      exact hcurrent
  induction cs generalizing tokens current inSingleQuote with
  | nil =>
    unfold tokenizeLoop at ht
    split at ht
    · exact htokens t ht
    · exact hpush htokens hcurrent t ht
  | cons c rest ih =>
    rw [tokenizeLoop] at ht
    split at ht
    · exact ih htokens hcurrent ht
    · next hc =>
      split at ht
      · split at ht
        · exact ih htokens hcurrent ht
        · exact ih (hpush htokens hcurrent) List.not_mem_nil ht
      · refine ih htokens (fun hmem => ?_) ht
        rcases List.mem_append.mp hmem with hmem | hmem
        · exact hcurrent hmem
        · exact hc (List.mem_singleton.mp hmem).symm

/-- What has been read of a token becomes the front of the next token. -/
theorem exists_token_of_current {cs current : List Char} {inSingleQuote : Bool}
    (hne : current ≠ []) :
    ∃ t ts, tokenizeLoop cs [] current inSingleQuote = t :: ts ∧ current <+: t.toList := by
  induction cs generalizing current inSingleQuote with
  | nil =>
    refine ⟨String.ofList current, [], ?_, ?_⟩
    · rw [tokenizeLoop, if_neg (by simpa using hne), List.nil_append]
    · rw [String.toList_ofList]
  | cons c rest ih =>
    rw [tokenizeLoop]
    split
    · exact ih hne
    · split
      · -- a blank ends the token here
        rw [if_neg (by simpa using hne), tokenizeLoop_eq_append]
        refine ⟨String.ofList current, tokenizeLoop rest [] [] inSingleQuote, rfl, ?_⟩
        rw [String.toList_ofList]
      · obtain ⟨t, ts, heq, hfront⟩ := @ih (current ++ [c]) inSingleQuote
          (List.append_ne_nil_of_right_ne_nil _ (List.cons_ne_nil c []))
        exact ⟨t, ts, heq, (List.prefix_append current [c]).trans hfront⟩

/-! ### Quoted arguments -/

/-- An argument between single quotes. -/
def quoteArg (arg : String) : List Char := quoteChar :: arg.toList ++ [quoteChar]

/-- The arguments of a line, each between single quotes, with one space between them. -/
def quoteLine (args : List String) : String :=
  String.ofList ([' '].intercalate (args.map quoteArg))

/-- A quoted argument adds its characters to the token that is being read. -/
theorem tokenizeLoop_quoteArg {arg : String} (harg : quoteChar ∉ arg.toList) (rest : List Char)
    (tokens : List String) (current : List Char) :
    tokenizeLoop (quoteArg arg ++ rest) tokens current false
      = tokenizeLoop rest tokens (current ++ arg.toList) false := by
  unfold quoteArg
  rw [List.cons_append, List.cons_append, List.append_assoc, tokenizeLoop, if_pos rfl,
    Bool.not_false, tokenizeLoop_quoted harg, List.singleton_append, tokenizeLoop, if_pos rfl,
    Bool.not_true]

theorem tokenizeLoop_quoteLine {args : List String}
    (hargs : ∀ arg ∈ args, quoteChar ∉ arg.toList) (tokens : List String) :
    tokenizeLoop ([' '].intercalate (args.map quoteArg)) tokens [] false
      = tokens ++ args.filter fun arg => arg != "" := by
  induction args generalizing tokens with
  | nil => simp [tokenizeLoop]
  | cons arg args ih =>
    obtain ⟨harg, htail⟩ := List.forall_mem_cons.mp hargs
    -- an argument that has no character has no token
    have hempty : arg.toList.isEmpty = (arg == "") := by
      rw [Bool.eq_iff_iff, List.isEmpty_iff, beq_iff_eq, String.toList_eq_nil_iff]
    cases args with
    | nil =>
      -- the last argument is ended by the end of the line
      rw [List.map_singleton, List.intercalate_singleton, ← List.append_nil (quoteArg arg),
        tokenizeLoop_quoteArg harg, List.nil_append, tokenizeLoop, hempty, List.filter_singleton]
      by_cases h : arg = ""
      · simp [h]
      · have hbne : (arg != "") = true := bne_iff_ne.mpr h
        simp [h, hbne]
    | cons arg' args =>
      -- the others are ended by the space behind them
      rw [List.map_cons, List.map_cons, List.intercalate_cons_cons, List.append_assoc,
        tokenizeLoop_quoteArg harg, List.nil_append, List.singleton_append, tokenizeLoop,
        if_neg (by decide), Bool.not_false, Bool.and_true, if_pos (by decide), hempty,
        ← List.map_cons, List.filter_cons]
      by_cases h : arg = ""
      · subst h
        simpa using ih htail tokens
      · have ih' := ih htail (tokens ++ [arg])
        simpa [h] using ih'

/-- **What tokenizing makes of a quoted line**: the arguments that are not empty. -/
theorem tokenize_quoteLine {args : List String} (hargs : ∀ arg ∈ args, quoteChar ∉ arg.toList) :
    tokenize (quoteLine args) = args.filter fun arg => arg != "" := by
  unfold tokenize quoteLine
  rw [String.toList_ofList, tokenizeLoop_quoteLine hargs, List.nil_append]

theorem tokenize_quoteLine_eq_iff {args : List String}
    (hargs : ∀ arg ∈ args, quoteChar ∉ arg.toList) :
    tokenize (quoteLine args) = args ↔ "" ∉ args := by
  rw [tokenize_quoteLine hargs, List.filter_eq_self]
  constructor
  · intro h hmem
    exact absurd (h "" hmem) (by decide)
  · intro h arg hmem
    rw [bne_iff_ne]
    rintro rfl
    exact h hmem

end Smash

end StateMaster
