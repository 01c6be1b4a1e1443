import ActionFlow.Document
import ActionFlow.Host

/-!
# Loading documents

A document is loaded from a file. Its name is the file name of the path, and a file that cannot be
read as text counts as missing.
-/

namespace ActionFlow.Document

/-- The document that a file with the given path and bytes holds. -/
def ofBytes (path : String) (bytes : Bytes) : Except SourceError Document :=
  match String.fromUTF8? ⟨bytes.toArray⟩ with
  | none => .error (.missing path)
  | some text =>
    match ofText ((Path.fileName? path).getD "") text with
    | .error e => .error e
    | .ok d => .ok { d with path := path }

/-- The document that reading the file with the given path gives. -/
def ofRead (path : String) : Except FileError Bytes → Except SourceError Document
  | .error _ => .error (.missing path)
  | .ok bytes => ofBytes path bytes

/-- The document in the file with the given path. -/
def load {m : Type → Type} [Monad m] [Host m] (path : String) : m (Except SourceError Document) := do
  return ofRead path (← Host.read path)

end ActionFlow.Document
