import ActionFlow.Lowering

/-!
# Command lines

A command line names a command, `build` or `disasm`, with its options and operands. Options may
stand before, between and behind the operands; after `--` all arguments are operands. Arguments are
read from left to right, and the first one that is wrong or asks for help decides.

## Main definitions

- `CommandLine.Argument`: the form of a single argument.
- `CommandLine.Occurrence`, `CommandLine.occurrences`: options and operands in order.
- `CommandLine`: a request with its verbosity; `CommandLine.parse` reads one.
-/

namespace ActionFlow

/-- What is wrong with a command line. -/
inductive UsageError where
  | unexpected (argument : String)
  | missingValue (option : String)
  | unwantedValue (option value : String)
  | invalidValue (option value : String)
  | repeated (option : String)
  | missingOperand (name : String)
deriving DecidableEq, Repr

namespace UsageError

/-- The wording of an error. -/
def message : UsageError → String
  | unexpected argument => "unexpected argument '" ++ argument ++ "'"
  | missingValue option => "a value is required for '" ++ option ++ "'"
  | unwantedValue option value => "unexpected value '" ++ value ++ "' for '" ++ option ++ "'"
  | invalidValue option value => "invalid value '" ++ value ++ "' for '" ++ option ++ "'"
  | repeated option => "the argument '" ++ option ++ "' cannot be used multiple times"
  | missingOperand name => "the argument <" ++ name ++ "> was not provided"

end UsageError

namespace CommandLine

/-! ## Arguments -/

/-- The form of an argument. -/
inductive Argument where
  /-- The mark `--`, after which there are only operands. -/
  | mark
  /-- An option by its name, with the value behind `=`. -/
  | long (name : String) (value : Option String)
  /-- Options by their letters. -/
  | short (letters : List Char)
  | operand (text : String)
deriving DecidableEq, Repr

/-- The form of an argument with a given text. -/
def Argument.ofText (text : String) : Argument :=
  match text.toList with
  | ['-', '-'] => .mark
  | '-' :: '-' :: cs =>
    let value := match cs.dropWhile (· != '=') with
      | [] => none
      | _ :: v => some (String.ofList v)
    .long (String.ofList (cs.takeWhile (· != '='))) value
  | '-' :: c :: cs => .short (c :: cs)
  | _ => .operand text

/-- Whether an argument can be the value of the option before it. -/
def Argument.isValue : Argument → Bool
  | .operand _ => true
  | _ => false

/-! ## Options -/

/-- Options without a value. -/
inductive Switch where
  | verbose
  | noTerminator
  | suppressUnreachableTail
  | noValidate
  | help
  | version
deriving DecidableEq, Repr

/-- Options with a value. -/
inductive Setting where
  | output
  | maxDepth
deriving DecidableEq, Repr

/-- The options of a command. -/
inductive OptionKind where
  | switch (s : Switch)
  | setting (s : Setting)
deriving DecidableEq, Repr

/-- The name of an option. -/
def OptionKind.name : OptionKind → String
  | switch .verbose => "verbose"
  | switch .noTerminator => "no-terminator"
  | switch .suppressUnreachableTail => "suppress-unreachable-tail"
  | switch .noValidate => "no-validate"
  | switch .help => "help"
  | switch .version => "version"
  | setting .output => "output"
  | setting .maxDepth => "max-depth"

/-- The letter of an option. -/
def OptionKind.letter? : OptionKind → Option Char
  | switch .verbose => some 'v'
  | switch .help => some 'h'
  | switch .version => some 'V'
  | setting .output => some 'o'
  | _ => none

/-- The options before the command. -/
def generalOptions : List OptionKind := [.switch .verbose, .switch .help, .switch .version]

/-- The options of `build`. -/
def buildOptions : List OptionKind :=
  [.switch .verbose, .switch .help, .switch .noTerminator, .switch .suppressUnreachableTail,
    .switch .noValidate, .setting .output, .setting .maxDepth]

/-- The options of `disasm`. -/
def listOptions : List OptionKind := [.switch .verbose, .switch .help]

/-! ## Occurrences -/

/-- What a command line says, piece by piece. -/
inductive Occurrence where
  | switch (s : Switch)
  | setting (s : Setting) (value : String)
  | operand (text : String)
  /-- The command line cannot be read on from here. -/
  | fault (e : UsageError)
deriving DecidableEq, Repr

/-- What letters say, and the option whose value is still to come. -/
def letterOccurrences (options : List OptionKind) : List Char → List Occurrence × Option Setting
  | [] => ([], none)
  | c :: cs =>
    match options.find? (·.letter? == some c) with
    | none => ([.fault (.unexpected (String.ofList ['-', c]))], none)
    | some (.switch s) =>
      let (found, open?) := letterOccurrences options cs
      (.switch s :: found, open?)
    | some (.setting s) =>
      -- What is left of the argument is the value, with or without a sign before it.
      match cs with
      | [] => ([], some s)
      | '=' :: value => ([.setting s (String.ofList value)], none)
      | value => ([.setting s (String.ofList value)], none)

/-- What an argument says, and the option whose value is still to come. -/
def Argument.occurrences (options : List OptionKind) : Argument → List Occurrence × Option Setting
  | .mark => ([], none)
  | .operand text => ([.operand text], none)
  | .short letters => letterOccurrences options letters
  | .long name value =>
    match options.find? (·.name == name), value with
    | none, _ => ([.fault (.unexpected ("--" ++ name))], none)
    | some (.switch s), none => ([.switch s], none)
    | some (.switch _), some v => ([.fault (.unwantedValue ("--" ++ name) v)], none)
    | some (.setting s), some v => ([.setting s v], none)
    | some (.setting s), none => ([], some s)

/-- What arguments say. -/
def occurrences (options : List OptionKind) : List String → List Occurrence
  | [] => []
  | argument :: rest =>
    match Argument.ofText argument with
    | .mark => rest.map .operand
    | form =>
      match form.occurrences options, rest with
      | (found, none), rest => found ++ occurrences options rest
      | (found, some s), [] =>
        found ++ [.fault (.missingValue ("--" ++ (OptionKind.setting s).name))]
      | (found, some s), value :: rest =>
        if (Argument.ofText value).isValue then
          found ++ .setting s value :: occurrences options rest
        else found ++ [.fault (.missingValue ("--" ++ (OptionKind.setting s).name))]

end CommandLine

/-! ## Requests -/

/-- What `build` is to do. -/
structure BuildRequest where
  /-- Paths and patterns of documents. -/
  inputs : List String
  output : Option String := none
  options : Options := { validate := true }
deriving DecidableEq, Repr

/-- What a command line asks for. -/
inductive Request where
  | build (b : BuildRequest)
  /-- Show the listing of a file. -/
  | list (path : String)
  /-- No command was named. -/
  | nothing
deriving DecidableEq, Repr

/-- A request with the number of times that more log records were asked for. -/
structure CommandLine where
  verbosity : Nat
  request : Request
deriving DecidableEq, Repr

/-- Why nothing is to be run. -/
inductive Halt where
  | help
  | version
  | usage (e : UsageError)
deriving DecidableEq, Repr

namespace CommandLine

/-- What options and operands have said so far. -/
structure Draft where
  verbosity : Nat := 0
  switches : List Switch := []
  output : Option String := none
  maxDepth : Option Nat := none
  operands : List String := []
deriving DecidableEq, Repr

/-- A depth: decimal digits, perhaps behind a plus sign, with a value below 2^64. -/
def depth? (text : String) : Option Nat :=
  let digits := match text.toList with
    | '+' :: cs => cs
    | cs => cs
  if digits.isEmpty || !digits.all Char.isDigit then none
  else
    let n := digits.foldl (fun n c => 10 * n + (c.toNat - '0'.toNat)) 0
    if n < 0x10000000000000000 then some n else none

/-- The draft with one more occurrence. -/
def Draft.add (d : Draft) : Occurrence → Except Halt Draft
  | .fault e => .error (.usage e)
  | .switch .help => .error .help
  | .switch .version => .error .version
  | .switch .verbose => .ok { d with verbosity := d.verbosity + 1 }
  | .switch s =>
    if s ∈ d.switches then .error (.usage (.repeated ("--" ++ (OptionKind.switch s).name)))
    else .ok { d with switches := s :: d.switches }
  | .setting .output value =>
    if d.output.isSome then .error (.usage (.repeated "--output"))
    else if value = "" then .error (.usage (.invalidValue "--output" value))
    else .ok { d with output := some value }
  | .setting .maxDepth value =>
    if d.maxDepth.isSome then .error (.usage (.repeated "--max-depth"))
    else match depth? value with
      | none => .error (.usage (.invalidValue "--max-depth" value))
      | some n => .ok { d with maxDepth := some n }
  | .operand text => .ok { d with operands := d.operands ++ [text] }

/-- The options for lowering in a draft. -/
def Draft.options (d : Draft) : Options where
  appendTerminator := Switch.noTerminator ∉ d.switches
  suppressUnreachableTail := Switch.suppressUnreachableTail ∈ d.switches
  validate := Switch.noValidate ∉ d.switches
  maxDepth := d.maxDepth.getD ({} : Options).maxDepth

/-- What the arguments of `build` ask for. -/
def parseBuild (arguments : List String) : Except Halt CommandLine := do
  let d ← (occurrences buildOptions arguments).foldlM Draft.add {}
  if d.operands.isEmpty then throw (.usage (.missingOperand "input"))
  return ⟨d.verbosity, .build ⟨d.operands, d.output, d.options⟩⟩

/-- The draft with one more occurrence, where there is a single operand, which has a text. -/
def Draft.addSingle (d : Draft) : Occurrence → Except Halt Draft
  | .operand text =>
    if ¬d.operands.isEmpty then .error (.usage (.unexpected text))
    else if text = "" then .error (.usage (.invalidValue "<file>" text))
    else d.add (.operand text)
  | o => d.add o

/-- What the arguments of `disasm` ask for. -/
def parseList (arguments : List String) : Except Halt CommandLine := do
  let d ← (occurrences listOptions arguments).foldlM Draft.addSingle {}
  match d.operands.head? with
  | none => throw (.usage (.missingOperand "file"))
  | some file => return ⟨d.verbosity, .list file⟩

/-- What a request for help about commands leads to. -/
def parseHelp : List String → Halt
  | [] => .help
  | [command] =>
    if command ∈ ["build", "disasm", "help"] then .help else .usage (.unexpected command)
  | command :: other :: _ =>
    .usage (.unexpected (if command ∈ ["build", "disasm", "help"] then other else command))

/-- The command line with the given verbosity, unless it has one of its own. -/
def withDefault (verbosity : Nat) (c : CommandLine) : CommandLine :=
  if c.verbosity = 0 then { c with verbosity := verbosity } else c

/-- What arguments ask for, after a number of requests for more log records. -/
def parseFrom (d : Draft) : List String → Except Halt CommandLine
  | [] => .ok ⟨d.verbosity, .nothing⟩
  | argument :: rest =>
    match Argument.ofText argument with
    | .mark =>
      match rest with
      | [] => .ok ⟨d.verbosity, .nothing⟩
      | other :: _ => .error (.usage (.unexpected other))
    | .operand "build" => (parseBuild rest).map (withDefault d.verbosity)
    | .operand "disasm" => (parseList rest).map (withDefault d.verbosity)
    | .operand "help" => .error (parseHelp rest)
    | .operand other => .error (.usage (.unexpected other))
    | form =>
      match (form.occurrences generalOptions).1.foldlM Draft.add d with
      | .error h => .error h
      | .ok d => parseFrom d rest

/-- What arguments ask for. -/
def parse (arguments : List String) : Except Halt CommandLine := parseFrom {} arguments

end CommandLine

end ActionFlow
