import StateMaster.Core.Types
import StateMaster.Smash.Tokenizer

/-!
# The commands of the shell

`parseCommand` reads a line: nothing, a comment, a meta-command behind a backslash, or a command
whose tokens one of `parseTransition`, `parseCurrent`, `parseHistory` and `parseDefine` reads. The
options of a command are pairs of a flag and the token behind it, read in order
(`parseOptions_pairs`); a flag takes whatever token stands behind it.

The JSON reader, lower-casing and the file system come from the `Host`.

The shell's quotes are meant to carry any argument: `quoted_arguments_iff` says which ones they
carry. Between quotes every character is kept, but an empty argument has no character, and so no
token. Every argument behind it then moves up by one place.
-/

open Framework

namespace StateMaster

namespace Smash

/-- A parsed command. -/
inductive Cmd where
  | transition (entityId machine event actor : String) (ctx : Json) (expectVersion : Option ℕ)
  | current (entityId machine : String)
  | history (entityId machine : String) (limit : Option ℕ)
  | define (source : String)
  | listMachines
  | describeMachine (name : String)
  | describeEntity (entityId : String)
  | help
  | quit
  | empty
deriving DecidableEq, Repr

/-- What the shell takes from outside. -/
structure Host where
  /-- `serde_json::from_str`, with the text of its error. -/
  fromStr : String → Except String Json
  /-- `str::to_lowercase`. -/
  toLowercase : String → String
  /-- `std::fs::read_to_string`, with the text of its error. -/
  readToString : String → Except String String
  /-- On ASCII, lower-casing goes letter by letter. -/
  toLowercase_ascii : ∀ s : String, (∀ c ∈ s.toList, c.toNat < 128) →
    toLowercase s = String.ofList (s.toList.map Char.toLower)

/-! ### Pieces of the standard library -/

/-- `char::is_whitespace`. -/
def isWhitespace (c : Char) : Bool :=
  (9 ≤ c.toNat && c.toNat ≤ 13) || c.toNat == 32 || c.toNat == 0x85 || c.toNat == 0xA0
    || c.toNat == 0x1680 || (0x2000 ≤ c.toNat && c.toNat ≤ 0x200A) || c.toNat == 0x2028
    || c.toNat == 0x2029 || c.toNat == 0x202F || c.toNat == 0x205F || c.toNat == 0x3000

/-- `str::trim`. -/
def trim (cs : List Char) : List Char := (cs.dropWhile isWhitespace).rdropWhile isWhitespace

/-- `str::parse` for the unsigned integers of a width. -/
def parseUnsigned (bits : ℕ) (s : String) : Option ℕ :=
  -- one sign in front is allowed, and no minus
  let digits := if s.toList.head? = some '+' then s.toList.tail else s.toList
  if !digits.isEmpty && digits.all Char.isDigit && Nat.ofDigitChars 10 digits 0 < 2 ^ bits then
    some (Nat.ofDigitChars 10 digits 0)
  else none

/-- `[String]::join` with a space. -/
def joinTokens (tokens : List String) : String :=
  String.ofList ([' '].intercalate (tokens.map String.toList))

/-! ### Options -/

section Options

variable {σ : Type}

/-- The loop over the options: a flag and the token behind it are read together. A flag that no
token follows has an error of its own. -/
def parseOptions (setOption : σ → String → String → Except String σ) (missing : String → String) :
    σ → List String → Except String σ
  | opts, [] => .ok opts
  | _, [flag] => .error (missing flag)
  -- the value may look like a flag
  | opts, flag :: value :: rest =>
    match setOption opts flag value with
    | .ok opts => parseOptions setOption missing opts rest
    | .error e => .error e

/-- **Every value goes to the flag it follows.** -/
theorem parseOptions_pairs (setOption : σ → String → String → Except String σ)
    (missing : String → String) (opts : σ) (pairs : List (String × String)) :
    parseOptions setOption missing opts (pairs.flatMap fun p => [p.1, p.2])
      = pairs.foldlM (fun opts p => setOption opts p.1 p.2) opts := by
  induction pairs generalizing opts with
  | nil => rfl
  | cons p pairs ih =>
    rw [List.flatMap_cons, List.cons_append, List.cons_append, List.nil_append, parseOptions,
      List.foldlM_cons]
    cases setOption opts p.1 p.2 with
    | ok opts' => exact ih opts'
    | error e => rfl

end Options

/-- The error of both loops for a token that is no flag. -/
def unexpectedArgument (other : String) : String := "unexpected argument: '" ++ other ++ "'"

/-- The options of `transition`. -/
structure TransitionOptions where
  actor : String
  ctx : Json
  expectVersion : Option ℕ
deriving DecidableEq, Repr

/-- What the options are before the loop. -/
def TransitionOptions.default : TransitionOptions := ⟨"smash", .object [], none⟩

/-- One round of the loop of `parse_transition`. -/
def setTransitionOption (host : Host) (opts : TransitionOptions) (flag value : String) :
    Except String TransitionOptions :=
  match flag with
  | "--actor" => .ok { opts with actor := value }
  | "--ctx" =>
    match host.fromStr value with
    | .ok ctx => .ok { opts with ctx := ctx }
    | .error e => .error ("invalid JSON for --ctx: " ++ e)
  | "--expect-version" | "--expected-version" =>
    match parseUnsigned 64 value with
    | some n => .ok { opts with expectVersion := some n }
    | none => .error ("'" ++ value ++ "' is not a valid version number")
  | other => .error (unexpectedArgument other)

/-- The error of `parse_transition` for a last token. -/
def missingTransitionValue (flag : String) : String :=
  match flag with
  | "--actor" => "--actor requires a value"
  | "--ctx" => "--ctx requires a JSON value"
  -- both spellings are told the first one
  | "--expect-version" | "--expected-version" => "--expect-version requires a number"
  | other => unexpectedArgument other

/-- One round of the loop of `parse_history`. -/
def setHistoryOption (_limit : Option ℕ) (flag value : String) : Except String (Option ℕ) :=
  match flag with
  | "--limit" | "-l" | "-n" =>
    match parseUnsigned 32 value with
    | some n => .ok (some n)
    | none => .error ("'" ++ value ++ "' is not a valid limit")
  | other => .error (unexpectedArgument other)

/-- The error of `parse_history` for a last token. -/
def missingHistoryValue (flag : String) : String :=
  match flag with
  | "--limit" | "-l" | "-n" => "--limit requires a number"
  | other => unexpectedArgument other

/-! ### Commands -/

/-- `parse_transition`. -/
def parseTransition (host : Host) (tokens : List String) : Except String Cmd :=
  match tokens with
  | _ :: entityId :: machine :: event :: rest =>
    match parseOptions (setTransitionOption host) missingTransitionValue .default rest with
    | .ok opts =>
      .ok (.transition entityId machine event opts.actor opts.ctx opts.expectVersion)
    | .error e => .error e
  | _ => .error ("usage: transition <entity_id> <machine> <event> [--actor NAME] " ++
      "[--ctx '\x7b\x7d'] [--expect-version N]")

/-- `parse_current`. -/
def parseCurrent (tokens : List String) : Except String Cmd :=
  match tokens with
  | _ :: entityId :: machine :: _ => .ok (.current entityId machine)
  | _ => .error "usage: current <entity_id> <machine>"

/-- `parse_history`. -/
def parseHistory (tokens : List String) : Except String Cmd :=
  match tokens with
  | _ :: entityId :: machine :: rest =>
    match parseOptions setHistoryOption missingHistoryValue none rest with
    | .ok limit => .ok (.history entityId machine limit)
    | .error e => .error e
  | _ => .error "usage: history <entity_id> <machine> [--limit N]"

/-- `parse_define`. -/
def parseDefine (tokens : List String) : Except String Cmd :=
  match tokens with
  | _ :: token :: rest => .ok (.define (joinTokens (token :: rest)))
  | _ => .error "usage: define <json_string_or_@file>"

/-- The argument of a meta-command: what stands behind the first space, trimmed. -/
def metaArgument (rest : List Char) : List Char := trim (rest.dropWhile (· != ' ')).tail

/-- The meta-commands of `parse_command`, behind the backslash. -/
def parseMeta (rest : List Char) : Except String Cmd :=
  match String.ofList (rest.takeWhile (· != ' ')) with
  | "machines" => .ok .listMachines
  | "machine" =>
    if (metaArgument rest).isEmpty then .error "usage: \\machine <name>"
    else .ok (.describeMachine (String.ofList (metaArgument rest)))
  | "entity" =>
    if (metaArgument rest).isEmpty then .error "usage: \\entity <entity_id>"
    else .ok (.describeEntity (String.ofList (metaArgument rest)))
  | "help" | "h" | "?" => .ok .help
  | "quit" | "q" | "exit" => .ok .quit
  | other => .error ("unknown meta-command: \\" ++ other)

/-- The dispatch of `parse_command` on its first token. -/
def parseTokens (host : Host) (tokens : List String) : Except String Cmd :=
  match tokens with
  | [] => .ok .empty
  | command :: _ =>
    match host.toLowercase command with
    | "transition" | "tr" => parseTransition host tokens
    | "current" | "cur" => parseCurrent tokens
    | "history" | "hist" => parseHistory tokens
    | "define" | "def" => parseDefine tokens
    | "quit" | "exit" | "q" => .ok .quit
    | "help" | "h" | "?" => .ok .help
    | other => .error ("unknown command: '" ++ other ++ "'. Type \\help for commands.")

/-- `parse_command`. -/
def parseCommand (host : Host) (input : String) : Except String Cmd :=
  -- trimming comes first, so that a comment may be indented
  match trim input.toList with
  | [] => .ok .empty
  | '#' :: _ => .ok .empty
  | '\x5c' :: rest => parseMeta rest
  | trimmed => parseTokens host (tokenize (String.ofList trimmed))

/-! ### Quoted arguments -/

/-- The command that `transition` is for an entity, a machine, an event and its options. -/
def TransitionOptions.toCmd (entityId machine event : String) (opts : TransitionOptions) : Cmd :=
  .transition entityId machine event opts.actor opts.ctx opts.expectVersion

/-- **What `transition` makes of its tokens**: the names, then the options in their order. -/
theorem parseTransition_pairs (host : Host) (command entityId machine event : String)
    (pairs : List (String × String)) :
    parseTransition host
        (command :: entityId :: machine :: event :: pairs.flatMap fun p => [p.1, p.2])
      = (pairs.foldlM (fun opts p => setTransitionOption host opts p.1 p.2) .default).map
          (TransitionOptions.toCmd entityId machine event) := by
  simp only [parseTransition, parseOptions_pairs]
  cases pairs.foldlM (fun opts p => setTransitionOption host opts p.1 p.2) .default with
  | ok opts => rfl
  | error e => rfl

/-- **The arguments that quotes carry.** Quoted and tokenized, a list of arguments without quotes
comes back exactly if none of them is empty; and then every value of a `transition` goes to the
flag it follows. -/
theorem quoted_arguments_iff (host : Host) (args : List String)
    (hargs : ∀ arg ∈ args, quoteChar ∉ arg.toList) :
    (tokenize (quoteLine args) = args ↔ "" ∉ args) ∧
    ∀ (command entityId machine event : String) (pairs : List (String × String)),
      args = command :: entityId :: machine :: event :: pairs.flatMap (fun p => [p.1, p.2]) →
      "" ∉ args →
      parseTransition host (tokenize (quoteLine args))
        = (pairs.foldlM (fun opts p => setTransitionOption host opts p.1 p.2) .default).map
            (TransitionOptions.toCmd entityId machine event) := by
  refine ⟨tokenize_quoteLine_eq_iff hargs, ?_⟩
  intro command entityId machine event pairs heq hempty
  rw [(tokenize_quoteLine_eq_iff hargs).mpr hempty, heq]
  exact parseTransition_pairs host command entityId machine event pairs

/-- A host without files, whose JSON reader knows the empty object. -/
def bareHost : Host where
  fromStr text := if text = "\x7b\x7d" then .ok (.object []) else .error "expected value"
  toLowercase s := String.ofList (s.toList.map Char.toLower)
  readToString _ := .error "No such file or directory (os error 2)"
  toLowercase_ascii _ _ := rfl

/-- A value with a space and a tab in it. -/
theorem quoted_arguments_iff_spaces :
    parseTransition bareHost (tokenize (quoteLine
        ["transition", "o-1", "order", "pay", "--actor", "a  b\tc", "--expect-version", "3"]))
      = .ok (.transition "o-1" "order" "pay" "a  b\tc" (.object []) (some 3)) := by
  refine ((quoted_arguments_iff bareHost _ (by decide)).2 "transition" "o-1" "order" "pay"
    [("--actor", "a  b\tc"), ("--expect-version", "3")] rfl (by decide)).trans ?_
  decide

/-- **The empty value is lost**, and `--actor` takes the next flag for its value: what is accepted
as a list of arguments is refused as a line. -/
theorem not_quoted_arguments :
    let args := ["transition", "o-1", "order", "pay", "--actor", "", "--expect-version", "3"]
    tokenize (quoteLine args)
        = ["transition", "o-1", "order", "pay", "--actor", "--expect-version", "3"] ∧
      parseTransition bareHost args
        = .ok (.transition "o-1" "order" "pay" "" (.object []) (some 3)) ∧
      parseTransition bareHost (tokenize (quoteLine args))
        = .error "unexpected argument: '3'" := by
  decide

end Smash

end StateMaster
