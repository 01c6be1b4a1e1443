import ActionFlow.Command.Arguments
import ActionFlow.Document.Load
import ActionFlow.Glob.Search
import ActionFlow.Log.Filter

/-!
# Building documents

Each document is loaded, lowered and written to its target. A document that fails is reported and
the others are built all the same. All patterns are expanded before the first document is built.

## Main definitions

- `expandInputs`: the paths that the inputs of a request stand for.
- `buildDocument`, `buildDocuments`: one document, and one after the other.
- `build`: the whole command.
-/

namespace ActionFlow

variable {m : Type → Type} [Monad m] [Host m]

/-- Logs a record if the filter admits it. -/
def log (f : LogFilter) (r : LogRecord) : m Unit :=
  if f.admits r then Host.complain r.line else pure ()

/-- Reports a problem in a line of its own. -/
def complainLine (text : String) : m Unit := Host.complain (text ++ "\n")

/-! ## Inputs -/

/-- The paths that a path or a pattern stands for. -/
def expandInput (input : String) : m (Except Unit (List String)) :=
  if Glob.isPattern input then
    match Glob.ofText input with
    | .error e => do
      complainLine ("bad pattern '" ++ input ++ "': " ++ e.message)
      return .error ()
    | .ok g => do
      let paths ← g.expand
      if paths.isEmpty then
        complainLine ("'" ++ input ++ "' matched no files")
      return .ok paths
  else return .ok [input]

/-- The paths that paths and patterns stand for. -/
def expandInputs : List String → m (Except Unit (List String))
  | [] => return .ok []
  | input :: rest => do
    match ← expandInput input with
    | .error () => return .error ()
    | .ok paths =>
      match ← expandInputs rest with
      | .error () => return .error ()
      | .ok more => return .ok (paths ++ more)

/-! ## Documents -/

/-- Options as they are logged. -/
def Options.describe (o : Options) : String :=
  "LowerOptions \x7b append_terminator: " ++ toString o.appendTerminator
    ++ ", suppress_terminator_for_unreachable_tail: " ++ toString o.suppressUnreachableTail
    ++ ", validate: " ++ toString o.validate
    ++ ", max_depth: " ++ toString o.maxDepth ++ " \x7d"

/-- The record with the number of documents and the options. -/
def startRecord (documents : Nat) (o : Options) : LogRecord :=
  ⟨.debug, "avm1emit", "lowering " ++ toString documents ++ " document(s) with " ++ o.describe⟩

/-- The record of a file that was written. -/
def writtenRecord (target : String) (bytes : Bytes) : LogRecord :=
  ⟨.info, "avm1emit", "wrote " ++ toString bytes.length ++ " bytes to " ++ target⟩

/-- Where the code of a document goes. -/
def BuildRequest.target (b : BuildRequest) (input : String) : String :=
  b.output.getD (Path.withExtension "avm1" input)

/-- Writes the code of a document, and says whether that succeeds. -/
def writeCode (f : LogFilter) (d : Document) (target : String) (bytes : Bytes) : m Bool := do
  match ← Host.write target bytes with
  | .error e =>
    complainLine ("cannot write " ++ target ++ ": " ++ e.message)
    return false
  | .ok () =>
    log f (writtenRecord target bytes)
    Host.print ("built " ++ d.name ++ " -> " ++ target ++ " (" ++ toString d.blockCount
      ++ " blocks, " ++ toString bytes.length ++ " bytes)\n")
    return true

/-- Builds a document, and says whether that succeeds. -/
def buildDocument (f : LogFilter) (b : BuildRequest) (input : String) : m Bool := do
  match ← Document.load input with
  | .error e =>
    complainLine e.report.line
    return false
  | .ok d =>
    let traced := lowerTraced d.graph b.options
    traced.events.forM fun e => log f e.record
    match traced.result with
    | .error e =>
      complainLine (d.name ++ ": " ++ e.report.line)
      return false
    | .ok bytes => writeCode f d (b.target input) bytes

/-- Builds documents one after the other, and says whether all of them succeed. -/
def buildDocuments (f : LogFilter) (b : BuildRequest) : List String → m Bool
  | [] => return true
  | input :: rest => do
    let first ← buildDocument f b input
    let others ← buildDocuments f b rest
    return first && others

/-- Builds what a request asks for, and says whether that succeeds. -/
def build (f : LogFilter) (b : BuildRequest) : m Bool := do
  match ← expandInputs b.inputs with
  | .error () => return false
  | .ok inputs =>
    if inputs.isEmpty then
      complainLine "no input documents"
      return false
    else if b.output.isSome ∧ inputs.length ≠ 1 then
      complainLine ("--output needs exactly one input, " ++ toString inputs.length ++ " given")
      return false
    else
      log f (startRecord inputs.length b.options)
      buildDocuments f b inputs

end ActionFlow
