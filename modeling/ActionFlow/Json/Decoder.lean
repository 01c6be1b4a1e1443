import ActionFlow.Json.Skip

/-!
# Decoders

A decoder says how something is found in a document. It has two sides that accept the same values:
one reads the text directly, and one takes a value that was read whole before it was known what it
stands for. Only the first side can place its faults.

This module has the decoders of single values and lists; records are in `Json/Shape`, choices
between variants in `Json/Variant`.
-/

namespace ActionFlow.Json

open Number (Single Double)

/-- How something is found in a document. -/
structure Decoder (α : Type) where
  /-- Reads it from text, with room for some lists and objects inside each other. -/
  read : Nat → Reader α
  /-- Takes it from a value. -/
  decode : Value → Except Cause α

/-- Refuses a value of another type. -/
def Value.refuse {α : Type} (v : Value) (expected : String) : Except Cause α :=
  .error (.wrongType v.found expected)

/-- Refuses what is next in the text, because it is of another type. -/
def Reader.refuse {α : Type} (expected : String) : Reader α := do
  let f ← Reader.found
  Reader.failHere (.wrongType f expected)

namespace Decoder

/-- The same place in the document, with another meaning. -/
def map {α β : Type} (f : α → β) (d : Decoder α) : Decoder β where
  read room := f <$> d.read room
  decode v := f <$> d.decode v

/-- Accepts nothing. -/
def never {α : Type} (cause : Cause) : Decoder α where
  read _ := .failUnplaced cause
  decode _ := .error cause

/-- A text. -/
def text : Decoder String where
  read _ := do
    match ← Reader.peekToken with
    | some '"' => Reader.text
    | _ => Reader.refuse "a string"
  decode
    | .text s => .ok s
    | v => v.refuse "a string"

/-- A truth value. -/
def boolean : Decoder Bool where
  read _ := do
    match ← Reader.peekToken with
    | some 't' => do Reader.word "true"; pure true
    | some 'f' => do Reader.word "false"; pure false
    | _ => Reader.refuse "a boolean"
  decode
    | .boolean b => .ok b
    | v => v.refuse "a boolean"

/-! ## Numbers -/

/-- A number of a document, given what becomes of it. -/
def numeral {α : Type} (expected : String) (accept : Numeral → Except Cause α) : Decoder α where
  read _ := do
    match ← Reader.peekToken with
    | some c =>
      if c = '-' || isDigit c then do
        let n ← Reader.numeral
        match accept n with
        | .ok a => pure a
        | .error cause => Reader.failHere cause
      else Reader.refuse expected
    | none => Reader.refuse expected
  decode
    | .integer n => accept (.integer n)
    | .double x => accept (.double x)
    | .single x => accept (.double (Double.ofSingle x))
    | v => v.refuse expected

/-- An integer between two bounds. -/
def integer {α : Type} (expected : String) (least greatest : Int) (make : Int → α) : Decoder α :=
  numeral expected fun
    | .integer n =>
      if least ≤ n ∧ n ≤ greatest then .ok (make n) else .error (.wrongValue (.integer n) expected)
    | .double x => .error (.wrongType (.double x) expected)

/-- A byte. -/
def uint8 : Decoder UInt8 := integer "u8" 0 255 fun n => UInt8.ofNat n.toNat

/-- A 16-bit word. -/
def uint16 : Decoder UInt16 := integer "u16" 0 65535 fun n => UInt16.ofNat n.toNat

/-- A signed 32-bit word. -/
def int32 : Decoder Int32 := integer "i32" (-2147483648) 2147483647 Int32.ofInt

/-- A number of 64 bits. -/
def double : Decoder Double :=
  numeral "f64" fun
    | .integer n => .ok (Double.ofInt n)
    | .double x => .ok x

/-- A number of 32 bits; one that is too large becomes infinite. -/
def single : Decoder Single :=
  numeral "f32" fun
    | .integer n => .ok (Single.ofInt n)
    | .double x => .ok x.toSingle

/-! ## Options and lists -/

/-- Something that may be null. -/
def option {α : Type} (d : Decoder α) : Decoder (Option α) where
  read room := do
    match ← Reader.peekToken with
    | some 'n' => do Reader.word "null"; pure none
    | _ => some <$> d.read room
  decode
    | .null => .ok none
    | v => some <$> d.decode v

/-- A list. -/
def list {α : Type} (d : Decoder α) : Decoder (List α) where
  read room := do
    match ← Reader.peekToken with
    | some '[' => Reader.inList (fun left => Reader.elements (d.read left) true) room
    | _ => Reader.refuse "a sequence"
  decode
    | .list items => items.mapM d.decode
    | v => v.refuse "a sequence"

end Decoder

end ActionFlow.Json
