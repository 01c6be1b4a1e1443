import ActionFlow.Text.Hex

/-!
# Error reports

Whatever fails, the reader of a message sees the same four things: how grave it is, who raised it,
at which byte offset (if it has one), and what happened. `Report.line` is the form for people,
`Report.columns` the form in which the offset has a column of its own.
-/

namespace ActionFlow

/-- How grave a report is. -/
inductive Level where
  | info
  | warning
  | error
  | critical
deriving DecidableEq, Repr

namespace Level

/-- The word that stands for a level in reports. -/
def name : Level → String
  | info => "INFO"
  | warning => "WARNING"
  | error => "ERROR"
  | critical => "CRITICAL"

/-- The levels, from the mildest to the gravest. -/
def all : List Level := [info, warning, error, critical]

end Level

/-- What is said about one failure. -/
structure Report where
  level : Level
  issuer : String
  offset : Option Nat
  message : String
deriving DecidableEq, Repr

namespace Report

/-- One line for people: the offset stands beside the issuer, if there is one. -/
def line (r : Report) : String :=
  let place := match r.offset with
    | some n => r.issuer ++ " @0x" ++ Text.hexOffset n
    | none => r.issuer
  "AVM1EMIT | " ++ r.level.name ++ " | " ++ place ++ " | " ++ r.message

/-- One line in which the offset has its own column, also when there is none. -/
def columns (r : Report) : String :=
  let place := match r.offset with
    | some n => "@0x" ++ Text.hexOffset n
    | none => "@none"
  "AVM1EMIT | " ++ r.level.name ++ " | " ++ r.issuer ++ " | " ++ place ++ " | " ++ r.message

end Report

end ActionFlow
