import ActionFlow.Label
import ActionFlow.Report

/-!
# Why lowering fails

Any of these ends the whole lowering: there is no partial result.
-/

namespace ActionFlow

/-- Why a graph has no byte form. -/
inductive LowerError where
  /-- A branch names a label that its region does not define. -/
  | labelNotFound (label : Label) (site : Nat)
  /-- An action or flow has no encoding. -/
  | unsupported (construct : String)
  /-- The distance from a branch to its target does not fit the operand. -/
  | jumpOutOfRange (site target : Nat)
  /-- Something with a 16-bit length or count is too long. -/
  | tooLarge (what : String) (size : Nat)
  /-- A label is defined twice in one region. -/
  | duplicateLabel (label : Label)
  /-- Graphs are nested deeper than the limit. -/
  | nestingTooDeep (limit : Nat)
deriving DecidableEq, Repr

namespace LowerError

/-- The wording of an error. -/
def message : LowerError → String
  | labelNotFound label site =>
    "LabelNotFound: '" ++ label.text ++ "' (jump operand at 0x" ++ Text.hexOffset site ++ ")"
  | unsupported construct => "UnsupportedConstruct: " ++ construct
  | jumpOutOfRange site target =>
    "jump at 0x" ++ Text.hexOffset site ++ " cannot reach 0x" ++ Text.hexOffset target
      ++ " with a 16-bit offset"
  | tooLarge what size =>
    what ++ " is " ++ toString size ++ " bytes long, the limit is 65535"
  | duplicateLabel label =>
    "label '" ++ label.text ++ "' is defined more than once in the same region"
  | nestingTooDeep limit => "nesting depth exceeds the limit of " ++ toString limit

/-- How grave an error is. -/
def level : LowerError → Level
  | nestingTooDeep _ => .critical
  | _ => .error

/-- The part of the program that raises an error. -/
def issuer : LowerError → String
  | duplicateLabel _ => "avm1emit.cfg.validate"
  | unsupported _ => "avm1emit.encoder"
  | tooLarge _ _ => "avm1emit.encoder"
  | _ => "avm1emit.lower"

/-- The offset of the branch operand at fault, if there is one. -/
def offset? : LowerError → Option Nat
  | labelNotFound _ site => some site
  | jumpOutOfRange site _ => some site
  | _ => none

/-- The report of an error. -/
def report (e : LowerError) : Report :=
  ⟨e.level, e.issuer, e.offset?, e.message⟩

end LowerError

end ActionFlow
