import StateMaster.Framework.JsonText
import StateMaster.Framework.Text
import StateMaster.Smash.Command

/-!
# Inline definitions

`define` takes the text of a machine definition from the rest of its line. The line goes through the
tokenizer, which knows the quotes of the shell but not those of JSON, and `parseDefine` joins the
tokens with single spaces. Outside of string literals nothing is lost that way: blanks separate
lexemes as one space does. In a literal, a run of blanks becomes one space, and a single quote
disappears.

* `joinTokens_tokenizeLoop` — without single quotes, what arrives is the line with its blanks
  squeezed;
* `exists_first_token` — a JSON text has a first token, which names no file;
* `define_source_iff` — the definition arrives as it was written exactly if each of its literals
  survives the tokenizer.
-/

open Framework Framework.Words Framework.JsonText

namespace StateMaster

namespace Smash

/-- The text that `execute` reads a definition from: the source, or the file it names. -/
def defineText (host : Host) (source : String) : Except String String :=
  match source.toList with
  | '@' :: path =>
    match host.readToString (String.ofList path) with
    | .ok text => .ok text
    | .error e => .error ("reading file '" ++ String.ofList path ++ "': " ++ e)
  | _ => .ok source

/-! ### Literals that survive -/

/-- The tokenizer leaves the literal as it is. -/
structure Survives (l : List Char) : Prop where
  quote : quoteChar ∉ l
  tab : '\t' ∉ l
  spaces : ¬ [' ', ' '] <:+: l

theorem isBlank_iff {c : Char} : isBlank c = true ↔ c = ' ' ∨ c = '\t' := by
  unfold isBlank
  rw [Bool.or_eq_true, beq_iff_eq, beq_iff_eq]

/-- Without tabs and runs of spaces, a literal is one that squeezing leaves alone. -/
theorem calm_iff {l : List Char} : Calm isBlank ' ' l ↔ '\t' ∉ l ∧ ¬ [' ', ' '] <:+: l := by
  constructor
  · intro h
    refine ⟨fun htab => ?_, fun hspaces => ?_⟩
    · exact absurd (h.blanks _ htab (by decide)) (by decide)
    · have hpair := (h.of_isInfix hspaces).runs
      exact (List.isChain_cons_cons.mp hpair).1 ⟨by decide, by decide⟩
  · rintro ⟨htab, hspaces⟩
    have hblank : ∀ c ∈ l, isBlank c = true → c = ' ' := by
      intro c hc h
      refine (isBlank_iff.mp h).resolve_right ?_
      rintro rfl
      exact htab hc
    refine ⟨hblank, List.isChain_iff_forall_rel_of_append_cons_cons.mpr ?_⟩
    rintro a b l₁ l₂ rfl ⟨ha, hb⟩
    obtain rfl := hblank a (by simp) ha
    obtain rfl := hblank b (by simp) hb
    exact hspaces ⟨l₁, l₂, by simp⟩

theorem survives_iff {l : List Char} : Survives l ↔ quoteChar ∉ l ∧ Calm isBlank ' ' l := by
  rw [calm_iff]
  exact ⟨fun h => ⟨h.quote, h.tab, h.spaces⟩, fun h => ⟨h.1, h.2.1, h.2.2⟩⟩

/-! ### The line -/

/-- Trimming a `define` line leaves its front alone. -/
theorem trim_define {cs : List Char} (h : ∃ c ∈ cs, isWhitespace c = false) :
    trim ("define ".toList ++ cs) = "define ".toList ++ cs.rdropWhile isWhitespace := by
  have hfront : ("define ".toList ++ cs).dropWhile isWhitespace = "define ".toList ++ cs := by
    rfl
  -- trimming stops before it reaches the command
  have hend : (cs.reverse.dropWhile isWhitespace).isEmpty = false := by
    obtain ⟨c, hc, hword⟩ := h
    rw [List.isEmpty_eq_false_iff]
    intro hnil
    have hall := List.dropWhile_eq_nil_iff.mp hnil c (List.mem_reverse.mpr hc)
    exact absurd (hword.symm.trans hall) Bool.false_ne_true
  unfold trim List.rdropWhile
  rw [hfront, List.reverse_append, List.dropWhile_append, hend, if_neg Bool.false_ne_true,
    List.reverse_append, List.reverse_reverse]

theorem tokenizeLoop_define (cs : List Char) :
    tokenizeLoop ("define ".toList ++ cs) [] [] false
      = "define" :: tokenizeLoop cs [] [] false := by
  have hfirst : tokenizeLoop ("define ".toList ++ cs) [] [] false
      = tokenizeLoop cs ["define"] [] false := rfl
  rw [hfirst, tokenizeLoop_eq_append, List.singleton_append]

/-- A line that is no comment and no meta-command is read by its tokens. -/
theorem parseCommand_of_trim (host : Host) {input : String} {c : Char} {rest : List Char}
    (h : trim input.toList = c :: rest) (hcomment : c ≠ '#') (hmeta : c ≠ '\x5c') :
    parseCommand host input = parseTokens host (tokenizeLoop (c :: rest) [] [] false) := by
  unfold parseCommand
  rw [h]
  split
  · next heq => exact absurd heq (List.cons_ne_nil c rest)
  · next heq => exact absurd (List.cons.inj heq).1 hcomment
  · next heq => exact absurd (List.cons.inj heq).1 hmeta
  · unfold tokenize
    rw [String.toList_ofList]

/-- **What `define` makes of its line**: the tokens of the rest, joined. -/
theorem parseCommand_define (host : Host) {j token : String} {tokens : List String}
    (hword : ∃ c ∈ j.toList, isWhitespace c = false)
    (htokens : tokenizeLoop (j.toList.rdropWhile isWhitespace) [] [] false = token :: tokens) :
    parseCommand host ("define " ++ j) = .ok (.define (joinTokens (token :: tokens))) := by
  have hlower : host.toLowercase "define" = "define" :=
    (host.toLowercase_ascii _ (by simp)).trans (by decide)
  have htrim := trim_define hword
  rw [← String.toList_append] at htrim
  rw [parseCommand_of_trim host htrim (by decide) (by decide)]
  change parseTokens host (tokenizeLoop ("define ".toList ++ _) [] [] false) = _
  rw [tokenizeLoop_define, htokens, parseTokens, hlower]
  rfl

/-- No quote of the shell gets through. -/
theorem quoteChar_notMem_joinTokens {tokens : List String}
    (h : ∀ t ∈ tokens, quoteChar ∉ t.toList) : quoteChar ∉ (joinTokens tokens).toList := by
  unfold joinTokens
  rw [String.toList_ofList]
  induction tokens with
  | nil => exact List.not_mem_nil
  | cons t tokens ih =>
    obtain ⟨ht, htail⟩ := List.forall_mem_cons.mp h
    cases tokens with
    | nil =>
      rw [List.map_singleton, List.intercalate_singleton]
      exact ht
    | cons t' tokens =>
      rw [List.map_cons, List.map_cons, List.intercalate_cons_cons, ← List.map_cons]
      simp only [List.mem_append, List.mem_singleton, not_or]
      exact ⟨⟨ht, by decide⟩, ih htail⟩

/-- **Without quotes, the blanks are squeezed.** -/
theorem joinTokens_tokenizeLoop {cs : List Char} (hcs : quoteChar ∉ cs) :
    (joinTokens (tokenizeLoop cs [] [] false)).toList = squeeze isBlank ' ' false cs := by
  unfold joinTokens
  rw [tokenizeLoop_eq_words hcs, String.toList_ofList, List.map_map]
  have hid : String.toList ∘ String.ofList = id := by
    funext l
    exact String.toList_ofList
  rw [hid, List.map_id, intercalate_wordsFrom, List.nil_append]
  rfl

/-- A text that starts with a brace has a first token, which starts with the brace or with a line
break before it. -/
theorem exists_first_token {gap : List Char} (hgap : ∀ c ∈ gap, isSpace c = true)
    (rest : List Char) : ∃ token tokens c w,
      tokenizeLoop (gap ++ '\x7b' :: rest) [] [] false = token :: tokens ∧
        token.toList = c :: w ∧ (isSpace c = true ∨ c = '\x7b') := by
  -- the first character that becomes part of a token
  have hstart : ∀ c (rest : List Char), c ≠ quoteChar → isBlank c = false →
      ∃ token tokens w, tokenizeLoop (c :: rest) [] [] false = token :: tokens ∧
        token.toList = c :: w := by
    intro c rest hquote hblank
    rw [tokenizeLoop, if_neg hquote, hblank, Bool.false_and, if_neg Bool.false_ne_true,
      List.nil_append]
    obtain ⟨token, tokens, heq, w, hw⟩ := @exists_token_of_current rest [c] false
      (List.cons_ne_nil c [])
    exact ⟨token, tokens, w, heq, hw.symm⟩
  induction gap with
  | nil =>
    obtain ⟨token, tokens, w, heq, hw⟩ := hstart '\x7b' rest (by decide) (by decide)
    exact ⟨token, tokens, '\x7b', w, heq, hw, Or.inr rfl⟩
  | cons c gap ih =>
    obtain ⟨hc, hgap⟩ := List.forall_mem_cons.mp hgap
    have hquote : c ≠ quoteChar := by
      rintro rfl
      exact absurd hc (by decide)
    cases hblank : isBlank c with
    | true =>
      -- blanks in front of the first token are skipped
      rw [List.cons_append, tokenizeLoop, if_neg hquote, hblank, Bool.not_false, Bool.and_true,
        if_pos rfl, if_pos List.isEmpty_nil]
      exact ih hgap
    | false =>
      -- a line break is no blank to the tokenizer
      obtain ⟨token, tokens, w, heq, hw⟩ := hstart c (gap ++ '\x7b' :: rest) hquote hblank
      exact ⟨token, tokens, c, w, heq, hw, Or.inl hc⟩

/-- A source names a file only by its first character. -/
theorem defineText_joinTokens (host : Host) {token : String} {tokens : List String} {c : Char}
    {w : List Char} (htoken : token.toList = c :: w) (hc : c ≠ '@') :
    defineText host (joinTokens (token :: tokens)) = .ok (joinTokens (token :: tokens)) := by
  have hhead : ∃ w', (joinTokens (token :: tokens)).toList = c :: w' := by
    unfold joinTokens
    rw [String.toList_ofList, List.map_cons, htoken]
    cases tokens with
    | nil => exact ⟨w, List.intercalate_singleton⟩
    | cons t tokens =>
      rw [List.map_cons, List.intercalate_cons_cons]
      exact ⟨_, rfl⟩
  obtain ⟨w', hw'⟩ := hhead
  unfold defineText
  split
  · next path heq =>
    rw [hw'] at heq
    exact absurd (List.cons.inj heq).1 hc
  · rfl

/-! ### The definition -/

theorem foreign_quoteChar : Foreign quoteChar where
  space := by decide
  quotation := by decide
  punct := by decide
  scalar := by decide

/-- No whitespace has a code between the space and the end of ASCII. -/
theorem toNat_of_isWhitespace {c : Char} (h : isWhitespace c = true) :
    c.toNat ≤ 32 ∨ 133 ≤ c.toNat := by
  simp only [isWhitespace, Bool.or_eq_true, Bool.and_eq_true, decide_eq_true_eq, beq_iff_eq] at h
  omega

/-- What `trim` drops is nothing the grammar needs at the end of a text. -/
theorem of_isWhitespace {c : Char} (h : isWhitespace c = true) :
    c ≠ quotation ∧ isPunct c = false ∧ scalarChar c = false := by
  have hrange := toNat_of_isWhitespace h
  have hne : ∀ d : Char, isWhitespace d = false → c ≠ d := by
    rintro d hd rfl
    exact absurd (h.symm.trans hd) (by decide)
  have hdigit : c.isDigit = false := by
    rw [Bool.eq_false_iff]
    intro hdigit
    have hbounds := Text.digit_bounds hdigit
    omega
  have hlower : c.isLower = false := by
    rw [Bool.eq_false_iff]
    intro hlower
    simp only [Char.isLower, Bool.and_eq_true, decide_eq_true_eq, ge_iff_le,
      UInt32.le_iff_toNat_le] at hlower
    have hfirst : 97 ≤ c.toNat := hlower.1
    have hlast : c.toNat ≤ 122 := hlower.2
    omega
  have hnumber : numberChar c = none := by
    unfold numberChar
    rw [if_neg (hne _ (by decide)), hdigit, if_neg Bool.false_ne_true, if_neg (hne _ (by decide)),
      if_neg (hne _ (by decide)), if_neg (hne _ (by decide)),
      if_neg (not_or.mpr ⟨hne _ (by decide), hne _ (by decide)⟩)]
  refine ⟨hne _ (by decide), ?_, ?_⟩
  · simp only [isPunct, Bool.or_eq_false_iff, beq_eq_false_iff_ne]
    refine ⟨⟨⟨⟨⟨?_, ?_⟩, ?_⟩, ?_⟩, ?_⟩, ?_⟩
    all_goals exact hne _ (by decide)
  · rw [scalarChar, hnumber, hlower]
    rfl

/-- Trimmed at its end, a text has the lexemes it had. -/
theorem lexFrom_rdropWhile {cs : List Char} {ls : List Lexeme}
    (h : lexFrom (.outside []) cs = some ls) :
    lexFrom (.outside []) (cs.rdropWhile isWhitespace) = some ls := by
  have hsplit : cs.rdropWhile isWhitespace ++ cs.rtakeWhile isWhitespace = cs :=
    List.rdropWhile_append_rtakeWhile
  rw [← hsplit] at h
  exact lexFrom_of_append (fun c hc => of_isWhitespace (List.mem_rtakeWhile_imp hc)) h

/-- A text whose literals hold no single quote holds none. -/
theorem quoteChar_notMem_of_literals {cs : List Char} {ls : List Lexeme}
    (h : lexFrom (.outside []) cs = some ls) (hquote : ∀ l ∈ literals ls, quoteChar ∉ l) :
    quoteChar ∉ cs := by
  intro hmem
  obtain ⟨l, hl, hmem⟩ := exists_literal_of_mem foreign_quoteChar h hmem
  exact hquote l hl hmem

/-- **Which texts survive the tokenizer.** -/
theorem lexFrom_joinTokens_iff {cs : List Char} {ls : List Lexeme}
    (h : lexFrom (.outside []) cs = some ls) :
    lexFrom (.outside []) (joinTokens (tokenizeLoop cs [] [] false)).toList = some ls
      ↔ ∀ l ∈ literals ls, Survives l := by
  constructor
  · intro hjoined l hl
    -- the literals are pieces of what arrived, where no quote is left
    have hpiece : ∀ l ∈ literals ls,
        l <:+: (joinTokens (tokenizeLoop cs [] [] false)).toList := fun l hl =>
      infix_of_mem_literals hjoined hl
    have hquote : ∀ l ∈ literals ls, quoteChar ∉ l := by
      intro l hl hmem
      refine quoteChar_notMem_joinTokens (fun t ht => ?_) ((hpiece l hl).subset hmem)
      exact quoteChar_notMem_of_mem_tokenizeLoop (by simp) List.not_mem_nil ht
    -- so there was none before, and what arrived is squeezed
    have hsqueeze := joinTokens_tokenizeLoop (quoteChar_notMem_of_literals h hquote)
    refine survives_iff.mpr ⟨hquote l hl, (squeeze_calm false cs).of_isInfix ?_⟩
    rw [← hsqueeze]
    exact hpiece l hl
  · intro hsurvive
    have hquote := quoteChar_notMem_of_literals h fun l hl => (hsurvive l hl).quote
    rw [joinTokens_tokenizeLoop hquote]
    refine lexFrom_squeeze ?_ (by decide) h (fun l hl => (survives_iff.mp (hsurvive l hl)).2)
      fun _ => rfl
    intro c hc
    rcases isBlank_iff.mp hc with rfl | rfl
    · decide
    · decide

/-- **When an inline definition arrives as it was written.** The text of an object is always taken
as a definition, and never for a file. What arrives denotes the value of the text exactly if each of
its string literals survives the tokenizer, and then it has the lexemes of the text. -/
theorem define_source_iff (host : Host) {j : String} {ls : List Lexeme}
    {members : List (List Char × Tree)} (hlex : lex j = some ls)
    (hvalue : IsValue ls (.object members)) :
    ∃ source, parseCommand host ("define " ++ j) = .ok (.define source) ∧
      defineText host source = .ok source ∧
      (Denotes source (.object members) ↔ ∀ l ∈ literals ls, Survives l) ∧
      ((∀ l ∈ literals ls, Survives l) → lex source = lex j) := by
  have hkept := lexFrom_rdropWhile hlex
  obtain ⟨ls', rfl⟩ := hvalue.head_of_object
  obtain ⟨gap, rest, hcs, hgap⟩ := exists_gap_of_punct hkept
  obtain ⟨token, tokens, c, w, htokens, htoken, hc⟩ := exists_first_token hgap rest
  rw [← hcs] at htokens
  have hword : ∃ c ∈ j.toList, isWhitespace c = false := by
    have hfront := List.rdropWhile_prefix isWhitespace j.toList
    refine ⟨'\x7b', hfront.subset ?_, by decide⟩
    rw [hcs]
    exact List.mem_append_right _ List.mem_cons_self
  -- a brace or a line break is no `@`
  have hfile : c ≠ '@' := by
    rintro rfl
    exact absurd hc (by decide)
  have hiff := lexFrom_joinTokens_iff hkept
  rw [htokens] at hiff
  refine ⟨joinTokens (token :: tokens), parseCommand_define host hword htokens,
    defineText_joinTokens host htoken hfile, ⟨fun hdenotes => ?_, fun hsurvive => ?_⟩,
    fun hsurvive => ?_⟩
  · have heq := Denotes.lex_eq ⟨_, hlex, hvalue⟩ hdenotes
    exact hiff.mp (heq.trans hlex)
  · exact ⟨_, hiff.mpr hsurvive, hvalue⟩
  · exact (hiff.mpr hsurvive).trans hlex.symm

/-- The text of an object with one member, the name `n` and a string. -/
theorem denotes_name {text : String} {content : List Char}
    (h : lex text = some [.punct '\x7b', .literal ['n'], .punct ':', .literal content,
      .punct '\x7d']) : Denotes text (.object [(['n'], .string content)]) :=
  ⟨_, h, .object (.one (.string content))⟩

/-- A literal with single spaces arrives. -/
theorem define_source_iff_spaces :
    ∃ source, parseCommand bareHost ("define " ++ " \x7b \"n\" : \"a b\"\t\x7d ")
        = .ok (.define source) ∧
      defineText bareHost source = .ok source ∧
      Denotes source (.object [(['n'], .string ['a', ' ', 'b'])]) := by
  have hlex : lex " \x7b \"n\" : \"a b\"\t\x7d " = some [.punct '\x7b', .literal ['n'], .punct ':',
      .literal ['a', ' ', 'b'], .punct '\x7d'] := by
    decide
  obtain ⟨source, hparse, htext, hiff, _⟩ := define_source_iff bareHost hlex
    (.object (.one (.string ['a', ' ', 'b'])))
  refine ⟨source, hparse, htext, hiff.mpr fun l hl => ?_⟩
  have hl : l = ['n'] ∨ l = ['a', ' ', 'b'] := by simpa [literals] using hl
  rcases hl with rfl | rfl
  · exact ⟨by decide, by decide, by decide⟩
  · exact ⟨by decide, by decide, by decide⟩

/-- **A literal is changed on its way**: of two spaces one arrives, and of an apostrophe nothing.
Both times a valid text of another value arrives. -/
theorem not_define_source :
    Denotes "\x7b\"n\":\"a  b\"\x7d" (.object [(['n'], .string ['a', ' ', ' ', 'b'])]) ∧
    parseCommand bareHost ("define " ++ "\x7b\"n\":\"a  b\"\x7d")
      = .ok (.define "\x7b\"n\":\"a b\"\x7d") ∧
    Denotes "\x7b\"n\":\"a b\"\x7d" (.object [(['n'], .string ['a', ' ', 'b'])]) ∧
    Denotes "\x7b\"n\":\"it's\"\x7d" (.object [(['n'], .string ['i', 't', quoteChar, 's'])]) ∧
    parseCommand bareHost ("define " ++ "\x7b\"n\":\"it's\"\x7d")
      = .ok (.define "\x7b\"n\":\"its\"\x7d") ∧
    Denotes "\x7b\"n\":\"its\"\x7d" (.object [(['n'], .string ['i', 't', 's'])]) := by
  refine ⟨denotes_name ?_, ?_, denotes_name ?_, denotes_name ?_, ?_, denotes_name ?_⟩
  all_goals decide

end Smash

end StateMaster
