import ActionFlow.Text.Alphanumeric

/-!
# Patterns for values

A filter can ask for the value of a field by a pattern, a regular expression. Records have no
values to compare, so all that counts is whether the pattern is well formed; a filter with a
malformed one is no filter. Patterns are built without tables of characters: what depends on the
letters of all scripts, such as `\d`, `\b` or the flag `i`, is malformed unless the flag `u` is off.

A pattern is read in two steps. `ValuePattern.symbols` replaces escapes, and `ValuePattern.step`
goes from symbol to symbol with a look at the next one.

## Main definitions

- `ValuePattern.isWellFormed`: whether a text is a pattern.
-/

namespace ActionFlow.ValuePattern

/-! ## Symbols -/

/-- The parts of a pattern in which escapes are replaced. -/
inductive Symbol where
  /-- A character as it is written. -/
  | plain (c : Char)
  /-- An escaped character that stands for itself. -/
  | literal (c : Char)
  /-- A class such as `\d`, or its complement. -/
  | charClass (negated : Bool)
  /-- The edge of a word. -/
  | wordEdge
  /-- The start or the end of the text. -/
  | textEdge
deriving DecidableEq, Repr

/-- The value of a hexadecimal digit. -/
def hexDigit? (c : Char) : Option Nat :=
  if c.isDigit then some (c.toNat - '0'.toNat)
  else if 'a' ≤ c ∧ c ≤ 'f' then some (c.toNat - 'a'.toNat + 10)
  else if 'A' ≤ c ∧ c ≤ 'F' then some (c.toNat - 'A'.toNat + 10)
  else none

/-- The character whose number is given by hexadecimal digits. -/
def hexChar? (digits : List Char) : Option Symbol := do
  let n ← digits.foldlM (fun n c => (hexDigit? c).map (16 * n + ·)) 0
  if n.isValidChar then some (.literal (Char.ofNat n)) else none

/-- The symbol for an escaped character. Letters and digits have no escapes but those named. -/
def escaped? (c : Char) : Option Symbol :=
  match c with
  | 'a' => some (.literal '\x07')
  | 't' => some (.literal '\t')
  | 'n' => some (.literal '\n')
  | 'v' => some (.literal '\x0b')
  | 'f' => some (.literal '\x0c')
  | 'r' => some (.literal '\r')
  | 'd' | 's' | 'w' => some (.charClass false)
  | 'D' | 'S' | 'W' => some (.charClass true)
  | 'b' | 'B' | '<' | '>' => some .wordEdge
  | 'A' | 'z' => some .textEdge
  | c => if c.toNat < 0x80 ∧ ¬c.isAlphanum then some (.literal c) else none

/-- The symbols of a pattern, if its escapes are known. -/
def symbols : List Char → Option (List Symbol)
  | [] => some []
  | '\\' :: 'x' :: a :: b :: cs => do
    let s ← hexChar? [a, b]
    (symbols cs).map (s :: ·)
  | '\\' :: 'u' :: a :: b :: c :: d :: cs => do
    let s ← hexChar? [a, b, c, d]
    (symbols cs).map (s :: ·)
  | '\\' :: 'U' :: a :: b :: c :: d :: e :: f :: g :: h :: cs => do
    let s ← hexChar? [a, b, c, d, e, f, g, h]
    (symbols cs).map (s :: ·)
  | '\\' :: c :: cs => do
    let s ← escaped? c
    (symbols cs).map (s :: ·)
  | ['\\'] => none
  | c :: cs => (symbols cs).map (.plain c :: ·)

/-! ## Well-formedness -/

/-- The flags that decide which symbols are known. -/
structure Flags where
  /-- Letters match in either case. -/
  caseless : Bool := false
  /-- Classes hold the characters of all scripts. -/
  allScripts : Bool := true
deriving DecidableEq, Repr

/-- What may come next. -/
inductive Stage where
  /-- A piece of the expression, which may be a repetition of the one before. -/
  | piece (repeatable : Bool)
  /-- What follows an opening parenthesis. -/
  | group
  /-- What follows `(?`. -/
  | groupKind
  /-- The bracket before the name of a group. -/
  | nameBracket
  | groupName (name : List Char)
  /-- Flags after `(?`, with those that were named; after `-` they are turned off. -/
  | groupFlags (flags : Flags) (seen : List Char) (off : Bool) (dangling : Bool)
  /-- The start of a character class with `depth` classes around it. -/
  | classStart (depth : Nat) (caret : Bool) (first : Bool)
  /-- An item of a class. -/
  | classItem (depth : Nat)
  /-- What follows an item; a single character may start a range. -/
  | afterItem (depth : Nat) (low : Option Char)
  | rangeEnd (depth : Nat) (low : Char)
  /-- The second half of an operator between classes. -/
  | operator (depth : Nat) (c : Char)
deriving DecidableEq, Repr

/-- How far a pattern was read. -/
structure State where
  stage : Stage := .piece false
  flags : Flags := {}
  /-- The flags around the open groups, the innermost first. -/
  around : List Flags := []
  /-- The names of groups. -/
  names : List (List Char) := []
deriving DecidableEq, Repr

/-- Whether a character by itself is known under some flags. -/
def Flags.knowLiteral (f : Flags) : Bool := !(f.caseless && f.allScripts)

/-- One piece of an expression. -/
def pieceStep (s : State) (repeatable : Bool) : Symbol → Option State
  | .plain '(' => some { s with stage := .group }
  | .plain ')' =>
    match s.around with
    | [] => none
    | f :: fs => some { s with stage := .piece true, flags := f, around := fs }
  | .plain '|' => some { s with stage := .piece false }
  | .plain '[' => if s.flags.knowLiteral then some { s with stage := .classStart 0 true true } else none
  | .plain '*' | .plain '+' | .plain '?' =>
    if repeatable then some { s with stage := .piece true } else none
  -- The closing brace would end the field, so no number of repetitions is complete.
  | .plain '\x7b' => none
  | .plain '.' => if s.flags.allScripts then some { s with stage := .piece true } else none
  | .plain '^' | .plain '$' | .textEdge => some { s with stage := .piece true }
  | .plain _ | .literal _ =>
    if s.flags.knowLiteral then some { s with stage := .piece true } else none
  | .charClass negated =>
    if s.flags.allScripts || negated then none else some { s with stage := .piece true }
  | .wordEdge => if s.flags.allScripts then none else some { s with stage := .piece true }

/-- Opens a group with the given flags. -/
def openGroup (s : State) (flags : Flags) : State :=
  { s with stage := .piece false, flags, around := s.flags :: s.around }

/-- One flag, on or off. -/
def setFlag (f : Flags) (c : Char) (off : Bool) : Flags :=
  if c = 'i' then { f with caseless := !off }
  else if c = 'u' then { f with allScripts := !off }
  else f

/-- One symbol among the flags of a group. -/
def flagStep (s : State) (f : Flags) (seen : List Char) (off dangling : Bool) : Symbol → Option State
  | .plain ':' => if dangling then none else some (openGroup s f)
  | .plain ')' => if dangling ∨ seen = [] then none else some { s with stage := .piece false, flags := f }
  | .plain '-' => if off then none else some { s with stage := .groupFlags f seen true true }
  | .plain c =>
    if c ∈ ['i', 'm', 's', 'U', 'u', 'x', 'R'] ∧ c ∉ seen then
      some { s with stage := .groupFlags (setFlag f c off) (c :: seen) off false }
    else none
  | _ => none

/-- Whether a character may stand in the name of a group. -/
def isNameChar (first : Bool) (c : Char) : Bool :=
  c == '_' || if first then Text.isAlphanumeric c && !c.isDigit
    else c == '.' || c == '[' || c == ']' || Text.isAlphanumeric c

/-- One symbol in the name of a group. -/
def nameStep (s : State) (name : List Char) : Symbol → Option State
  | .plain c =>
    if c = '>' then
      if name = [] ∨ name ∈ s.names then none
      else some (openGroup { s with names := name :: s.names } s.flags)
    else if isNameChar name.isEmpty c then some { s with stage := .groupName (name ++ [c]) }
    else none
  | _ => none

/-- One item of a class. -/
def itemStep (s : State) (depth : Nat) (next : Option Symbol) : Symbol → Option State
  | .plain '[' => some { s with stage := .classStart (depth + 1) true true }
  | .plain ']' =>
    some { s with stage := match depth with
      | 0 => .piece true
      | d + 1 => .classItem d }
  | .plain c =>
    if (c = '&' ∨ c = '-' ∨ c = '~') ∧ next = some (.plain c) then
      some { s with stage := .operator depth c }
    else some { s with stage := .afterItem depth (some c) }
  | .literal c => some { s with stage := .afterItem depth (some c) }
  | .charClass negated =>
    if s.flags.allScripts || negated then none else some { s with stage := .afterItem depth none }
  | .wordEdge | .textEdge => none

/-- One symbol after an item of a class. -/
def afterItemStep (s : State) (depth : Nat) (low : Option Char) (next : Option Symbol)
    (symbol : Symbol) : Option State :=
  if symbol = .plain '-' ∧ next ≠ some (.plain ']') ∧ next ≠ some (.plain '-') then
    low.map fun c => { s with stage := .rangeEnd depth c }
  else itemStep s depth next symbol

/-- One symbol of a pattern, with a look at the next one. -/
def step (s : State) (symbol : Symbol) (next : Option Symbol) : Option State :=
  match s.stage with
  | .piece repeatable => pieceStep s repeatable symbol
  | .group =>
    if symbol = .plain '?' then some { s with stage := .groupKind }
    else pieceStep (openGroup s s.flags) false symbol
  | .groupKind =>
    if symbol = .plain 'P' ∧ next = some (.plain '<') then some { s with stage := .nameBracket }
    else if symbol = .plain '<' then some { s with stage := .groupName [] }
    else flagStep s s.flags [] false false symbol
  | .nameBracket => some { s with stage := .groupName [] }
  | .groupName name => nameStep s name symbol
  | .groupFlags f seen off dangling => flagStep s f seen off dangling symbol
  | .classStart depth caret first =>
    if symbol = .plain '^' ∧ caret then
      if s.flags.allScripts then some { s with stage := .classStart depth false true } else none
    else if symbol = .plain '-' then some { s with stage := .classStart depth false false }
    else if symbol = .plain ']' ∧ first then some { s with stage := .afterItem depth (some ']') }
    else itemStep s depth next symbol
  | .classItem depth => itemStep s depth next symbol
  | .afterItem depth low => afterItemStep s depth low next symbol
  | .rangeEnd depth low =>
    match symbol with
    | .plain c | .literal c => if low ≤ c then some { s with stage := .classItem depth } else none
    | _ => none
  | .operator depth _ => some { s with stage := .classItem depth }

/-- Whether a pattern may end here. -/
def State.isComplete (s : State) : Bool :=
  match s.stage with
  | .piece _ => s.around.isEmpty
  | _ => false

/-- Whether the rest of a pattern is well formed. -/
def accepts (s : State) : List Symbol → Bool
  | [] => s.isComplete
  | symbol :: rest =>
    match step s symbol rest.head? with
    | none => false
    | some t => accepts t rest

/-- Whether a text is a pattern. -/
def isWellFormed (text : String) : Bool :=
  match symbols text.toList with
  | none => false
  | some ss => accepts {} ss

end ActionFlow.ValuePattern
