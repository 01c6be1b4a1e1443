import ActionFlow.Json.Value

/-!
# Faults of a document

A cause says what is wrong, a fault where. Faults against the grammar know their place at once.
Faults against the expected type have no place when they are found; the innermost value of the
text that is being read then gives them the place at which reading stopped.

A place is a point of the text: a number of bytes into what was left to read. Lines count from one
and columns are bytes, so a place inside a character of several bytes is a place of its own.
-/

namespace ActionFlow.Json

/-- What is wrong with a document. -/
inductive Cause where
  | endInValue
  | endInList
  | endInObject
  | endInText
  | expectedValue
  | expectedWord
  | expectedColon
  | expectedListSeparator
  | expectedObjectSeparator
  | keyNotText
  | trailingComma
  | trailingCharacters
  | nestingLimit
  | controlCharacter
  | invalidEscape
  | loneSurrogate
  | unfinishedSurrogatePair
  | invalidNumber
  | numberOutOfRange
  /-- A value of another type than expected. -/
  | wrongType (found : Found) (expected : String)
  /-- A value of the right type that is not allowed. -/
  | wrongValue (found : Found) (expected : String)
  | wrongLength (length : Nat) (expected : String)
  | missingField (name : String)
  | duplicateField (name : String)
  | unknownVariant (name : String) (known : List String)
deriving DecidableEq, Repr

namespace Cause

/-- A name between backquotes. -/
def inBackquotes (s : String) : String := "`" ++ s ++ "`"

/-- The known names of a choice, as the end of a message. -/
def alternatives : List String → String
  | [] => "there are no variants"
  | [a] => "expected " ++ inBackquotes a
  | [a, b] => "expected " ++ inBackquotes a ++ " or " ++ inBackquotes b
  | names => "expected one of " ++ ", ".intercalate (names.map inBackquotes)

/-- The wording of a cause. -/
def message : Cause → String
  | endInValue => "EOF while parsing a value"
  | endInList => "EOF while parsing a list"
  | endInObject => "EOF while parsing an object"
  | endInText => "EOF while parsing a string"
  | expectedValue => "expected value"
  | expectedWord => "expected ident"
  | expectedColon => "expected `:`"
  | expectedListSeparator => "expected `,` or `]`"
  | expectedObjectSeparator => "expected `,` or `\x7d`"
  | keyNotText => "key must be a string"
  | trailingComma => "trailing comma"
  | trailingCharacters => "trailing characters"
  | nestingLimit => "recursion limit exceeded"
  | controlCharacter => "control character (\\u0000-\\u001F) found while parsing a string"
  | invalidEscape => "invalid escape"
  | loneSurrogate => "lone leading surrogate in hex escape"
  | unfinishedSurrogatePair => "unexpected end of hex escape"
  | invalidNumber => "invalid number"
  | numberOutOfRange => "number out of range"
  | wrongType found expected => "invalid type: " ++ found.describe ++ ", expected " ++ expected
  | wrongValue found expected => "invalid value: " ++ found.describe ++ ", expected " ++ expected
  | wrongLength length expected => "invalid length " ++ toString length ++ ", expected " ++ expected
  | missingField name => "missing field " ++ inBackquotes name
  | duplicateField name => "duplicate field " ++ inBackquotes name
  | unknownVariant name known =>
    "unknown variant " ++ inBackquotes name ++ ", " ++ alternatives known

end Cause

/-- A cause with what was left to read when it was found. -/
structure Fault where
  cause : Cause
  rest : List Char
  /-- How many bytes into `rest` the fault is reported; `none` while it has no place. -/
  ahead : Option Nat
deriving DecidableEq, Repr

/-- Number of UTF-8 bytes of some characters. -/
def byteLength (cs : List Char) : Nat :=
  cs.foldl (fun n c => n + c.utf8Size) 0

/-- A line, from one, and the number of bytes before a point on it. -/
structure Position where
  line : Nat
  column : Nat
deriving DecidableEq, Repr

namespace Position

/-- The position `bytes` bytes further on, over the given characters. -/
def advance (p : Position) (bytes : Nat) : List Char → Position
  | [] => p
  | c :: cs =>
    if bytes = 0 then p
    else if c = '\n' then advance ⟨p.line + 1, 0⟩ (bytes - 1) cs
    else if c.utf8Size ≤ bytes then advance ⟨p.line, p.column + c.utf8Size⟩ (bytes - c.utf8Size) cs
    else ⟨p.line, p.column + bytes⟩

end Position

namespace Fault

/-- The position of a fault in the whole text, if it has a place. -/
def position? (f : Fault) (text : List Char) : Option Position :=
  f.ahead.map fun bytes =>
    let left := byteLength f.rest
    Position.advance ⟨1, 0⟩ (byteLength text - left + min bytes left) text

/-- The message of a fault at a position. -/
def message (f : Fault) (position : Option Position) : String :=
  match position with
  | some p =>
    f.cause.message ++ " at line " ++ toString p.line ++ " column " ++ toString p.column
  | none => f.cause.message

end Fault

end ActionFlow.Json
