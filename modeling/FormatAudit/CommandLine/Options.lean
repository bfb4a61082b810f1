import FormatAudit.Text.Digit
import FormatAudit.Text.Quoted

/-!
# Options of the command line

Arguments are first told apart, all of them, before any takes effect: options, the first `--`, and plain values. An option may be
cut short to any beginning that no other option shares; short options without a value may be run together. Then the arguments
take effect from left to right. The dump files have to stand in one run: plain values after a later option are not recognised.
-/

namespace FormatAudit.CommandLine

/-- The options. -/
inductive Flag where
  | help | version | verbose | addon | format | config | noArgs | funcs | noInfer | suppress
  deriving DecidableEq, Repr

/-- All spellings of options, in the order in which they are listed. -/
def spellings : List (String × Flag) :=
  [("-h", .help), ("--help", .help), ("--version", .version), ("-v", .verbose), ("--verbose", .verbose), ("--cli", .addon),
   ("--format", .format), ("--config", .config), ("--no-args", .noArgs), ("--funcs", .funcs), ("--no-infer", .noInfer),
   ("--suppress", .suppress)]

namespace Flag

/-- Whether an option takes a value. -/
def takesValue : Flag → Bool
  | .format | .config | .funcs | .suppress => true
  | _ => false

/-- All spellings of an option, as an error names it. -/
def title (f : Flag) : String :=
  "/".intercalate ((spellings.filter (fun s => s.2 == f)).map (·.1))

/-- The option with a spelling. -/
def ofSpelling? (s : String) : Option Flag :=
  spellings.lookup s

end Flag

/-- How findings are written. -/
inductive OutputFormat where
  | gcc | json | sexp
  deriving DecidableEq, Repr, Inhabited

namespace OutputFormat

/-- The name of a format. -/
def name : OutputFormat → String
  | .gcc => "gcc"
  | .json => "json"
  | .sexp => "sexp"

/-- All formats. -/
def all : List OutputFormat := [.gcc, .json, .sexp]

/-- The format of a name. -/
def ofName? (s : String) : Option OutputFormat :=
  all.find? (fun f => f.name == s)

end OutputFormat

/-- What the command line asks for. An option that adds functions or suppressions may have been given without a value. -/
structure Options where
  verbosity : Nat := 0
  addonMode : Bool := false
  format : OutputFormat := .gcc
  config : Option String := none
  noArgs : Bool := false
  funcs : List (Option String) := []
  noInfer : Bool := false
  suppress : List (Option String) := []
  dumps : List String := []
  deriving DecidableEq, Repr, Inhabited

/-- Why a command line is not accepted. -/
inductive UsageError where
  | ambiguous (argument : String) (candidates : List String)
  | ignoredValue (flag : Flag) (value : String)
  | missingValue (flag : Flag)
  | badFormat (value : String)
  | noDumps
  | unrecognized (arguments : List String)
  deriving DecidableEq, Repr

/-- The words for a usage error. -/
def UsageError.message : UsageError → String
  | .ambiguous argument candidates =>
    "ambiguous option: " ++ argument ++ " could match " ++ ", ".intercalate candidates
  | .ignoredValue flag value => "argument " ++ flag.title ++ ": ignored explicit argument " ++ Text.quoted value
  | .missingValue flag => "argument " ++ flag.title ++ ": expected one argument"
  | .badFormat value =>
    "argument " ++ Flag.format.title ++ ": invalid choice: " ++ Text.quoted value ++ " (choose from " ++
      ", ".intercalate (OutputFormat.all.map (fun f => Text.quoted f.name)) ++ ")"
  | .noDumps => "the following arguments are required: DUMP"
  | .unrecognized arguments => "unrecognized arguments: " ++ " ".intercalate arguments

/-- What a command line comes to, if it does not come to options: a request that is answered at once, or an error. -/
inductive Stop where
  | help
  | version
  | usage (error : UsageError)
  deriving DecidableEq, Repr

/-- An argument by its role. -/
inductive Argument where
  /-- An option, whether it is spelled with one dash, and the value that is written into the same argument. -/
  | option (flag : Flag) (short : Bool) (value : Option String)
  /-- Something that looks like an option and is none. -/
  | unknownOption
  /-- The mark after which every argument is a plain value. -/
  | mark
  | plain
  deriving DecidableEq, Repr

/-! ## Telling arguments apart -/

/-- Splits a text at the first equals sign. -/
def splitEquals : List Char → List Char × Option (List Char)
  | [] => ([], none)
  | c :: cs =>
    if c = '=' then ([], some cs)
    else
      let rest := splitEquals cs
      (c :: rest.1, rest.2)

/-- Whether a text looks like a negative number: digits, or digits with a point before the last ones. -/
def looksNegative (cs : List Char) : Bool :=
  let isDigit (c : Char) : Bool := (Text.digitValue? c).isSome
  match cs with
  | '-' :: body =>
    let body := if body.getLast? = some '\n' then body.dropLast else body
    match body.dropWhile isDigit with
    | [] => !body.isEmpty
    | '.' :: fraction => !fraction.isEmpty && fraction.all isDigit
    | _ => false
  | _ => false

/-- A role found by a spelling, with that spelling. -/
abbrev Reading := String × Argument

/-- The readings of an argument with two dashes: every option that it is a beginning of. -/
def longReadings (cs : List Char) : List Reading :=
  let (name, value) := splitEquals cs
  (spellings.filter (fun s => name.isPrefixOf s.1.toList)).map fun s => (s.1, .option s.2 false (value.map String.ofList))

/-- The readings of an argument with one dash: a short option followed by letters. -/
def shortReadings (cs : List Char) : List Reading :=
  (spellings.filter (fun s => s.1.toList == cs.take 2)).map fun s => (s.1, .option s.2 true (some (String.ofList (cs.drop 2))))

/-- Whether a text starts with two dashes. -/
def isLong (cs : List Char) : Bool :=
  cs.take 2 == ['-', '-']

/-- The role of an argument that starts with a dash and is longer than it. -/
def classifyDashed (text : String) : Except UsageError Argument :=
  let cs := text.toList
  match Flag.ofSpelling? text with
  | some f => .ok (.option f (!isLong cs) none)
  | none =>
    let (name, value) := splitEquals cs
    match value, Flag.ofSpelling? (String.ofList name) with
    | some v, some f => .ok (.option f (!isLong cs) (some (String.ofList v)))
    | _, _ =>
      match if isLong cs then longReadings cs else shortReadings cs with
      | [(_, a)] => .ok a
      | [] => .ok (if looksNegative cs || cs.contains ' ' then .plain else .unknownOption)
      | readings => .error (.ambiguous text (readings.map (·.1)))

/-- The role of an argument before the mark. -/
def classify (text : String) : Except UsageError Argument :=
  match text.toList with
  | '-' :: _ :: _ => classifyDashed text
  | _ => .ok .plain

/-- The roles of arguments. -/
def classifyAll : List String → Except UsageError (List (Argument × String))
  | [] => .ok []
  | text :: rest =>
    if text = "--" then .ok ((.mark, text) :: rest.map (fun t => (.plain, t)))
    else do
      let a ← classify text
      let more ← classifyAll rest
      pure ((a, text) :: more)

/-! ## Taking effect -/

/-- The state while arguments take effect. `positionalDone` says that the run of dump files has been taken. -/
structure Taking where
  options : Options := {}
  positionalDone : Bool := false
  extras : List String := []
  deriving Repr

/-- The effect of an option without a value. -/
def applyFlag (o : Options) : Flag → Except Stop Options
  | .help => .error .help
  | .version => .error .version
  | .verbose => .ok { o with verbosity := o.verbosity + 1 }
  | .addon => .ok { o with addonMode := true }
  | .noArgs => .ok { o with noArgs := true }
  | .noInfer => .ok { o with noInfer := true }
  | .format | .config | .funcs | .suppress => .ok o

/-- A value as an option takes it: two dashes stand for no value. -/
def givenValue (value : String) : Option String :=
  if value = "--" then none else some value

/-- The effect of an option with a value. Without one, an option that is set goes back to what it is by itself, and an option that
adds to a list adds an empty place. -/
def applyValue (o : Options) (f : Flag) (value : String) : Except Stop Options :=
  match f with
  | .format =>
    match givenValue value with
    | none => .ok { o with format := .gcc }
    | some name =>
      match OutputFormat.ofName? name with
      | some format => .ok { o with format }
      | none => .error (.usage (.badFormat name))
  | .config => .ok { o with config := givenValue value }
  | .funcs => .ok { o with funcs := o.funcs ++ [givenValue value] }
  | .suppress => .ok { o with suppress := o.suppress ++ [givenValue value] }
  | _ => .ok o

/-- Short options run together: the letters after an option each name one more. No short option takes a value. -/
def cluster (f : Flag) : List Char → Except UsageError (List Flag)
  | [] => .ok [f]
  | c :: cs =>
    match Flag.ofSpelling? (String.ofList ['-', c]) with
    | some g => (cluster g cs).map (f :: ·)
    | none => .error (.ignoredValue f (String.ofList (c :: cs)))

/-- The effects of several options. -/
def applyFlags : Options → List Flag → Except Stop Options
  | o, [] => .ok o
  | o, f :: fs => do
    let o ← applyFlag o f
    applyFlags o fs

/-- The effect of an option with a value in the same argument. After a short option without a value it is read as letters, whether
an equals sign stands before them or not. -/
def applyAttached (o : Options) (f : Flag) (short : Bool) (value : String) : Except Stop Options :=
  if f.takesValue then applyValue o f value
  else if short && value ≠ "" then
    match cluster f value.toList with
    | .ok flags => applyFlags o flags
    | .error e => .error (.usage e)
  else .error (.usage (.ignoredValue f value))

/-- Takes the run of plain values that has been gathered: the dump files if they have not been taken and there is one, else
unrecognised. The first `--` is no file. -/
def Taking.takeRun (t : Taking) (run : List (Argument × String)) : Taking :=
  if !t.positionalDone && run.any (fun a => a.1 == .plain) then
    { t with options := { t.options with dumps := (run.map (·.2)).erase "--" }, positionalDone := true }
  else { t with extras := t.extras ++ run.map (·.2) }

/-- Lets arguments take effect. `run` holds the plain values since the last option, in order. -/
def takeAll : List (Argument × String) → List (Argument × String) → Taking → Except Stop Taking
  | [], run, t => .ok (t.takeRun run)
  | (.mark, text) :: rest, run, t => takeAll rest (run ++ [(.mark, text)]) t
  | (.plain, text) :: rest, run, t => takeAll rest (run ++ [(.plain, text)]) t
  | (.unknownOption, text) :: rest, run, t =>
    let t := t.takeRun run
    takeAll rest [] { t with extras := t.extras ++ [text] }
  | (.option f short (some value), _) :: rest, run, t =>
    let t := t.takeRun run
    match applyAttached t.options f short value with
    | .ok options => takeAll rest [] { t with options }
    | .error stop => .error stop
  | (.option f _ none, _) :: rest, run, t =>
    let t := t.takeRun run
    if f.takesValue then
      match rest with
      | (.plain, value) :: rest =>
        match applyValue t.options f value with
        | .ok options => takeAll rest [] { t with options }
        | .error stop => .error stop
      | _ => .error (.usage (.missingValue f))
    else
      match applyFlag t.options f with
      | .ok options => takeAll rest [] { t with options }
      | .error stop => .error stop

/-- Reads a command line. -/
def parse (arguments : List String) : Except Stop Options :=
  match classifyAll arguments with
  | .error e => .error (.usage e)
  | .ok classified =>
    match takeAll classified [] {} with
    | .error stop => .error stop
    | .ok t =>
      if !t.positionalDone then .error (.usage .noDumps)
      else if !t.extras.isEmpty then .error (.usage (.unrecognized t.extras))
      else .ok t.options

end FormatAudit.CommandLine
