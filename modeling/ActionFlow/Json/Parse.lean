import ActionFlow.Json.Decoder

/-!
# Whole texts

A text holds one value and nothing but blanks around it.
-/

namespace ActionFlow.Json

/-- Why a text can not be read. -/
structure Complaint where
  message : String
  /-- Where the fault is, if it has a place. -/
  position : Option Position
deriving DecidableEq, Repr

/-- The end of a text, after blanks. -/
def Reader.endOfText : Reader Unit := do
  match ← Reader.peekToken with
  | none => pure ()
  | some _ => Reader.failPeek .trailingCharacters

/-- A fault, said about a whole text. -/
def Fault.complaint (f : Fault) (text : List Char) : Complaint :=
  let position := f.position? text
  ⟨f.message position, position⟩

/-- What a decoder finds in a text that holds nothing else; `room` lists and objects may be open
    inside each other. -/
def Decoder.parse {α : Type} (d : Decoder α) (room : Nat) (text : String) : Except Complaint α :=
  let whole : Reader α := do
    let a ← d.read room
    Reader.endOfText
    pure a
  match whole.run text.toList with
  | .ok (a, _) => .ok a
  | .error f => .error (f.complaint text.toList)

end ActionFlow.Json
