import ActionFlow.Document.Encoding
import ActionFlow.Json.Parse
import ActionFlow.Lowering
import ActionFlow.Schema

/-!
# Documents

A document is a graph with the name and the path under which it was found.
-/

namespace ActionFlow

/-- Why there is no document. -/
inductive SourceError where
  /-- There is no readable text at a path. -/
  | missing (path : String)
  /-- The text is not the document of a graph. -/
  | malformed (name : String) (line column : Nat) (reason : String)
deriving DecidableEq, Repr

namespace SourceError

/-- The wording of an error. -/
def message : SourceError → String
  | missing path => "Missing CFG document at " ++ Text.quoted path
  | malformed name line column reason =>
    name ++ ":" ++ toString line ++ ":" ++ toString column ++ ": " ++ reason

/-- The report of an error. -/
def report (e : SourceError) : Report :=
  ⟨.error, "avm1emit.source", none, e.message⟩

end SourceError

/-- A graph with its origin. -/
structure Document where
  name : String
  path : String
  graph : Graph
deriving BEq, Repr

namespace Document

/-- What some part of a document means, when it stands alone in a text. -/
def parsePart {α : Type} (d : Json.Decoder α) (text : String) : Except Json.Complaint α :=
  d.parse Schema.nestingLimit text

/-- The document with a given text. -/
def ofText (name text : String) : Except SourceError Document :=
  match parsePart Schema.document text with
  | .ok g => .ok ⟨name, "", g⟩
  | .error c =>
    let p := c.position.getD ⟨0, 0⟩
    .error (.malformed name p.line p.column c.message)

/-- A document in one line. -/
def describe (d : Document) : String :=
  "CFG: " ++ d.name ++ " at " ++ Text.quoted d.path

/-- Number of blocks, without those in clauses and function bodies. -/
def blockCount (d : Document) : Nat := d.graph.length

/-- The code of a document. -/
def lower (d : Document) (o : Options) : Except LowerError Bytes := ActionFlow.lower d.graph o

end Document

end ActionFlow
