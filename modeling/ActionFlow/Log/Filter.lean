import ActionFlow.Log.Directive

/-!
# Log filters

A filter says which records are logged. It is a list of directives. A record follows the directive
that is closest to the point among those that are meant for it, and is dropped if there is none.

## Main definitions

- `LogFilter.ofText?`: a filter written as a comma-separated list.
- `LogFilter.ofVerbosity`: the filter for a number of requests for more records.
- `LogFilter.admits`: whether a record is logged.
-/

namespace ActionFlow

/-- Which records are logged. -/
structure LogFilter where
  directives : List LogDirective
deriving DecidableEq, Repr

namespace LogFilter

/-- The filter that lets all records through up to a level. -/
def upTo (level : LogLevel) : LogFilter := ⟨[{ verbosity := level.verbosity }]⟩

/-- The filter for a number of requests for more records. -/
def ofVerbosity : Nat → LogFilter
  | 0 => upTo .warn
  | 1 => upTo .debug
  | _ => upTo .trace

/-- The filter with a given text. Without any directive only errors are let through. -/
def ofText? (text : String) : Option LogFilter :=
  let parts := (text.splitOn ",").filter (· ≠ "")
  if parts.isEmpty then some (upTo .error)
  else (parts.mapM LogDirective.ofText?).map LogFilter.mk

/-- The directive that a record follows, after one more directive. -/
def closest (best : Option LogDirective) (d : LogDirective) : Option LogDirective :=
  match best with
  | none => some d
  | some b => if d.overrides b then some d else best

/-- The directive that a record follows. -/
def directive? (f : LogFilter) (r : LogRecord) : Option LogDirective :=
  (f.directives.filter (·.appliesTo r)).foldl closest none

/-- Whether a record is logged. -/
def admits (f : LogFilter) (r : LogRecord) : Bool :=
  match f.directive? r with
  | none => false
  | some d => decide (r.level.verbosity ≤ d.verbosity)

end LogFilter

end ActionFlow
