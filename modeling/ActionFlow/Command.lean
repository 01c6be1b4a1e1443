import ActionFlow.Command.Build
import ActionFlow.Listing.Table

/-!
# Commands

`build` lowers documents, and `disasm` shows the listing of a file. The exit status is 0 if all went
well, 2 if the command line is wrong, and 1 otherwise.

## Main definitions

- `showListing`: the command `disasm`.
- `runCommand`: a command line on a host.
- `World.run`: a command line on a directory that is a value.
-/

namespace ActionFlow

/-- How a command ends. -/
inductive ExitStatus where
  | success
  | failure
  | usage
deriving DecidableEq, Repr

namespace ExitStatus

/-- Success or failure. -/
def ofBool (ok : Bool) : ExitStatus := if ok then success else failure

/-- The number of a status. -/
def code : ExitStatus → Nat
  | success => 0
  | failure => 1
  | usage => 2

end ExitStatus

variable {m : Type → Type} [Monad m] [Host m]

/-- Shows the listing of a file, and says whether that succeeds. -/
def showListing (path : String) : m Bool := do
  match ← Host.read path with
  | .error e =>
    complainLine ("cannot read " ++ path ++ ": " ++ e.message)
    return false
  | .ok bytes =>
    match disassemble bytes with
    | .error e =>
      complainLine e.report.line
      return false
    | .ok entries =>
      Host.print (path ++ "\n" ++ (Listing.table entries).render ++ "\n")
      return true

/-- The name and the version of the program. -/
def versionText : String := "avm1emit 0.1.0"

/-- How the program is used. -/
def helpText : String :=
  "Lower AVM1 control-flow graphs to linear bytecode\n\n"
    ++ "Usage: avm1emit [OPTIONS] [COMMAND]\n\n"
    ++ "Commands:\n"
    ++ "  build   Lower CFG documents (JSON) to AVM1 bytecode\n"
    ++ "  disasm  List the actions of an AVM1 bytecode file\n\n"
    ++ "Options:\n"
    ++ "  -v, --verbose  Raise log verbosity (-v debug, -vv trace)\n"
    ++ "  -h, --help     Print help\n"
    ++ "  -V, --version  Print version\n"

/-- Which records are logged: as the setting of the environment says if it can be read, otherwise
    as the command line says. -/
def logFilter (setting? : Option String) (verbosity : Nat) : LogFilter :=
  (setting?.bind LogFilter.ofText?).getD (LogFilter.ofVerbosity verbosity)

/-- Does what was asked for. -/
def runRequest (f : LogFilter) : Request → m ExitStatus
  | .build b => do return .ofBool (← build f b)
  | .list path => do return .ofBool (← showListing path)
  | .nothing => do
    complainLine "No valid subcommand was used. Use --help for more information."
    return .failure

/-- Runs a command line, with the setting of the environment for the log. -/
def runCommand (arguments : List String) (setting? : Option String) : m ExitStatus :=
  match CommandLine.parse arguments with
  | .error .help => do
    Host.print helpText
    return .success
  | .error .version => do
    Host.print (versionText ++ "\n")
    return .success
  | .error (.usage e) => do
    complainLine ("error: " ++ e.message)
    return .usage
  | .ok c => runRequest (logFilter setting? c.verbosity) c.request

/-- A command line on a directory: how it ends, and the world after it. -/
def World.run (d : Directory) (arguments : List String) (setting? : Option String) :
    ExitStatus × World :=
  (runCommand arguments setting? : Session ExitStatus) { directory := d }

end ActionFlow
