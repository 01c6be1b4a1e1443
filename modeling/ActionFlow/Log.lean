import ActionFlow.Lowering

/-!
# Log records

What happens while documents are lowered is logged. A record has a level, the part of the program
that it comes from, and a text.

## Main definitions

- `LogLevel`, `LogRecord`.
- `LogRecord.line`: a record as it is printed.
- `Event.record`: the record of an event of lowering.
-/

namespace ActionFlow

/-- How important a log record is, from the least to the most. -/
inductive LogLevel where
  | trace
  | debug
  | info
  | warn
  | error
deriving DecidableEq, Repr

namespace LogLevel

/-- The word for a level in log lines. -/
def name : LogLevel → String
  | trace => "TRACE"
  | debug => "DEBUG"
  | info => "INFO"
  | warn => "WARN"
  | error => "ERROR"

/-- Levels as numbers: the more important a level, the lower its number. -/
def verbosity : LogLevel → Nat
  | error => 1
  | warn => 2
  | info => 3
  | debug => 4
  | trace => 5

end LogLevel

/-- One record of the log. -/
structure LogRecord where
  level : LogLevel
  /-- The part of the program that the record comes from. -/
  target : String
  text : String
deriving DecidableEq, Repr

namespace LogRecord

/-- The names of the fields that every record has. -/
def fieldNames : List String :=
  ["message", "log.target", "log.module_path", "log.file", "log.line"]

/-- A character of a printed text. Those that steer a terminal are shown by their number: bell,
    backspace, form feed, escape, delete, and the controls above them. -/
def printedChar (c : Char) : String :=
  let n := c.toNat
  if n = 0x07 ∨ n = 0x08 ∨ n = 0x0c ∨ n = 0x1b ∨ n = 0x7f then
    "\\x" ++ Text.padLeft 2 '0' (Text.hexDigits n)
  else if 0x80 ≤ n ∧ n ≤ 0x9f then "\\u\x7b" ++ Text.hexDigits n ++ "\x7d"
  else c.toString

/-- A text as it is printed. -/
def printed (text : String) : String :=
  text.toList.foldl (fun done c => done ++ printedChar c) ""

/-- The line of a record; the level takes five columns. -/
def line (r : LogRecord) : String :=
  Text.padLeft 5 ' ' r.level.name ++ " " ++ r.target ++ ": " ++ printed r.text ++ "\n"

end LogRecord

/-- An integer with its sign. -/
def signedText (n : Int) : String :=
  if 0 ≤ n then "+" ++ toString n else toString n

/-- The record of an event. -/
def Event.record : Event → LogRecord
  | patched p =>
    ⟨.trace, "avm1emit_core::lower::patch",
      "patch 0x" ++ Text.hexOffset p.site ++ " -> 0x" ++ Text.hexOffset p.target
        ++ " (" ++ signedText p.delta.toInt ++ ")"⟩
  | finished blocks bytes jumps =>
    ⟨.debug, "avm1emit_core::lower",
      "lowered region: " ++ toString blocks ++ " blocks, " ++ toString bytes ++ " bytes, "
        ++ toString jumps ++ " jumps patched"⟩
  | tailSuppressed label =>
    ⟨.trace, "avm1emit_core::lower::region",
      "block '" ++ label.text ++ "' ends with a terminal action, no trailer"⟩

end ActionFlow
