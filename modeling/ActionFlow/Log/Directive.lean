import ActionFlow.Log
import ActionFlow.Log.Pattern

/-!
# Log directives

A directive is written `target[span{field=value}]=level`, where all parts may be missing but not at
once. It is meant for records whose target starts with `target`, that were made inside the span, and
that have the fields; it lets through the records up to the level. Without a level it lets all of
them through.

Blanks around a directive do not count when its parts are told apart, but they are still there when
the parts are taken out: after a leading blank, each part starts and ends that much earlier.

## Main definitions

- `LogDirective`: a directive; `LogDirective.ofText?` reads one.
- `LogDirective.appliesTo`: whether it is meant for a record.
- `LogDirective.overrides`: which of two directives is closer to the point.
-/

namespace ActionFlow

/-- What a directive asks of a field. -/
structure FieldTest where
  name : String
  /-- A pattern for its value. -/
  value : Option String
deriving DecidableEq, Repr

/-- Which records are let through, for those that it is meant for. -/
structure LogDirective where
  /-- What the target of a record starts with. -/
  target : Option String := none
  /-- The span around a record. -/
  span : Option String := none
  fields : List FieldTest := []
  /-- Records are let through up to this verbosity. -/
  verbosity : Nat := LogLevel.trace.verbosity
deriving DecidableEq, Repr

/-! ## Levels and values -/

/-- The value of a text of decimal digits. -/
def digits? (cs : List Char) : Option Nat :=
  if cs ≠ [] ∧ cs.all Char.isDigit then
    some (cs.foldl (fun n c => 10 * n + (c.toNat - '0'.toNat)) 0)
  else none

/-- A verbosity by the name of its level, in any case, or by its number. -/
def LogLevel.verbosity? (text : String) : Option Nat :=
  match digits? (if text.startsWith "+" then text.toList.drop 1 else text.toList) with
  | some n => if n ≤ 5 then some n else none
  | none =>
    match text.toLower with
    | "off" => some 0
    | "error" => some error.verbosity
    | "warn" => some warn.verbosity
    | "info" => some info.verbosity
    | "debug" => some debug.verbosity
    | "trace" => some trace.verbosity
    | _ => none

namespace FieldTest

/-- Whether a text is a decimal number without a sign. -/
def isDecimal (cs : List Char) : Bool :=
  let mantissa := cs.takeWhile fun c => c != 'e' && c != 'E'
  let digits := mantissa.filter (· != '.')
  let hasMantissa := digits ≠ [] ∧ digits.all Char.isDigit ∧ mantissa.length ≤ digits.length + 1
  match cs.drop mantissa.length with
  | [] => hasMantissa
  | _ :: exponent =>
    let exponent := match exponent with
      | '+' :: ds | '-' :: ds => ds
      | ds => ds
    hasMantissa && (digits? exponent).isSome

/-- Whether a text is a number, as far as it is not a pattern as well: one that starts with `+`. -/
def isSignedNumber (text : String) : Bool :=
  match text.toList with
  | '+' :: cs =>
    isDecimal cs || ["inf", "infinity", "nan"].contains (String.ofList cs).toLower
  | _ => false

/-- A test as it is written: a name, or a name and a value with `=` between them. -/
def ofText? (text : String) : Option FieldTest :=
  match text.splitOn "=" with
  | name :: value :: _ =>
    if isSignedNumber value || ValuePattern.isWellFormed value then some ⟨name, some value⟩
    else none
  | _ => if text.isEmpty then none else some ⟨text, none⟩

end FieldTest

namespace LogDirective

/-! ## Reading -/

/-- Whether a character is a blank of any script. -/
def isBlank (c : Char) : Bool :=
  Text.inRanges c.toNat [(0x9, 0xd), (0x20, 0x20), (0x85, 0x85), (0xa0, 0xa0), (0x1680, 0x1680),
    (0x2000, 0x200a), (0x2028, 0x2029), (0x202f, 0x202f), (0x205f, 0x205f), (0x3000, 0x3000)]

/-- A text without the blanks around it. -/
def trimmed (cs : List Char) : List Char :=
  ((cs.dropWhile isBlank).reverse.dropWhile isBlank).reverse

/-- A text without its first `n` bytes, if these are whole characters. -/
def dropBytes : Nat → List Char → Option (List Char)
  | 0, cs => some cs
  | _ + 1, [] => none
  | n + 1, c :: cs => if c.utf8Size ≤ n + 1 then dropBytes (n + 1 - c.utf8Size) cs else none

/-- The first `n` bytes of a text, if these are whole characters. -/
def takeBytes : Nat → List Char → Option (List Char)
  | 0, _ => some []
  | _ + 1, [] => none
  | n + 1, c :: cs =>
    if c.utf8Size ≤ n + 1 then (takeBytes (n + 1 - c.utf8Size) cs).map (c :: ·) else none

/-- The part of a text between two offsets in bytes. -/
def part? (cs : List Char) (start stop : Nat) : Option String := do
  let rest ← dropBytes start cs
  let part ← takeBytes (stop - start) rest
  return String.ofList part

/-- The part of a text from an offset in bytes to its end. -/
def rest? (cs : List Char) (start : Nat) : Option String :=
  (dropBytes start cs).map String.ofList

/-- What the characters being read belong to, with the offset at which it started. -/
inductive Stage where
  | nothing
  /-- A target, or a level without one. -/
  | word (start : Nat)
  | span (start : Nat)
  | field (start : Nat)
  | afterFields
  | afterSpan
  | level (start : Nat)
deriving DecidableEq, Repr

/-- One more character at offset `i` of the directive `text`. -/
def advance (text : List Char) (i : Nat) (c : Char) (stage : Stage) (d : LogDirective) :
    Option (Stage × LogDirective) :=
  match stage with
  | .nothing =>
    if c = '[' then some (.span (i + 1), d)
    else if c = '-' ∨ c = ':' ∨ c = '_' ∨ Text.isAlphanumeric c then some (.word i, d)
    else none
  | .word start =>
    if c = '=' then do return (.level (i + 1), { d with target := ← part? text start i })
    else if c = '[' then do return (.span (i + 1), { d with target := ← part? text start i })
    else some (stage, d)
  | .span start =>
    if c = ']' then do return (.afterSpan, { d with span := ← part? text start i })
    else if c = '\x7b' then do
      let name ← part? text start i
      return (.field (i + 1), { d with span := if name.isEmpty then none else some name })
    else some (stage, d)
  | .field start =>
    if c = '\x7d' then do
      let test ← FieldTest.ofText? (← part? text start i)
      return (.afterFields, { d with fields := d.fields ++ [test] })
    else some (stage, d)
  | .afterFields => if c = ']' then some (.afterSpan, d) else none
  | .afterSpan => if c = '=' then some (.level (i + 1), d) else none
  | .level _ => some (stage, d)

/-- Reads characters from offset `i` of the directive `text` on. -/
def scan (text : List Char) : Nat → Stage → LogDirective → List Char → Option (Stage × LogDirective)
  | _, stage, d, [] => some (stage, d)
  | i, stage, d, c :: cs => do
    let (stage, d) ← advance text i c stage d
    scan text (i + c.utf8Size) stage d cs

/-- The directive at the end of its text. A word by itself is a level if there is one of that
    name, and a target otherwise. -/
def finish (text : List Char) : Stage → LogDirective → Option LogDirective
  | .word start, d => do
    let word ← rest? text start
    match LogLevel.verbosity? word with
    | some v => some { d with verbosity := v }
    | none => some { d with target := word }
  | .level start, d => do
    let level ← rest? text start
    if level.isEmpty then some d
    else return { d with verbosity := ← LogLevel.verbosity? level }
  | .afterSpan, d => some d
  | _, _ => none

/-- The directive with a given text. -/
def ofText? (text : String) : Option LogDirective := do
  let cs := text.toList
  let (stage, d) ← scan cs 0 .nothing {} (trimmed cs)
  finish cs stage d

/-! ## Meaning -/

/-- Whether a directive is meant for a record. No record lies inside a span, and what fields a
    record has is known, but not their values. -/
def appliesTo (d : LogDirective) (r : LogRecord) : Bool :=
  d.span.isNone
    && d.fields.all (fun f => f.value.isNone && LogRecord.fieldNames.contains f.name)
    && r.target.startsWith (d.target.getD "")

/-- Whether a list of names comes after another one, name by name. -/
def namesAfter : List String → List String → Bool
  | [], _ => false
  | _ :: _, [] => true
  | a :: as, b :: bs => if a = b then namesAfter as bs else decide (b < a)

/-- Whether `d` counts rather than `b`, which was written before it and is meant for the same
    record: it has the longer target, or more fields, or names that come later in the alphabet. Of
    two directives for the same records the later one counts. -/
def overrides (d b : LogDirective) : Bool :=
  let size := fun (e : LogDirective) => e.target.elim 0 (·.utf8ByteSize + 1)
  if size d ≠ size b then decide (size b < size d)
  else if d.fields.length ≠ b.fields.length then decide (b.fields.length < d.fields.length)
  else !namesAfter (b.fields.map FieldTest.name) (d.fields.map FieldTest.name)

end LogDirective

end ActionFlow
