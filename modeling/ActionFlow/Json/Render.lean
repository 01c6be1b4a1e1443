import ActionFlow.Json.Value

/-!
# Writing values

Values are written without blanks, objects with their entries in order. In a text only quotes,
backslashes and characters below the blank are escaped. Numbers that are not finite are written as
null.
-/

namespace ActionFlow.Json

/-- A digit of the base sixteen. -/
def hexChar (n : Nat) : Char := (Nat.toDigits 16 n).headD '0'

/-- A character inside a text. -/
def escapedChar (c : Char) : List Char :=
  if c = '"' then ['\\', '"']
  else if c = '\\' then ['\\', '\\']
  else if c = '\x08' then ['\\', 'b']
  else if c = '\x0c' then ['\\', 'f']
  else if c = '\n' then ['\\', 'n']
  else if c = '\r' then ['\\', 'r']
  else if c = '\t' then ['\\', 't']
  else if c < ' ' then ['\\', 'u', '0', '0', hexChar (c.toNat / 16), hexChar (c.toNat % 16)]
  else [c]

/-- A text between its quotes. -/
def textChars (s : String) : List Char :=
  '"' :: (s.toList.flatMap escapedChar ++ ['"'])

/-- The decimal digits of an integer, after its sign. -/
def integerChars (n : Int) : List Char :=
  if n < 0 then '-' :: Nat.toDigits 10 n.natAbs else Nat.toDigits 10 n.natAbs

/-- The word for the value that a text or number does not have. -/
def nullChars : List Char := ['n', 'u', 'l', 'l']

namespace Value

mutual

/-- The characters of a value. -/
def chars : Value → List Char
  | null => nullChars
  | boolean true => ['t', 'r', 'u', 'e']
  | boolean false => ['f', 'a', 'l', 's', 'e']
  | integer n => integerChars n
  | double x => x.text?.getD nullChars
  | single x => x.text?.getD nullChars
  | text s => textChars s
  | list items => '[' :: (itemChars items ++ [']'])
  | object entries => '\x7b' :: (entryChars entries ++ ['\x7d'])

/-- The characters of elements, with commas between them. -/
def itemChars : List Value → List Char
  | [] => []
  | [v] => chars v
  | v :: w :: rest => chars v ++ ',' :: itemChars (w :: rest)

/-- The characters of entries, with commas between them. -/
def entryChars : List (String × Value) → List Char
  | [] => []
  | [(k, v)] => textChars k ++ ':' :: chars v
  | (k, v) :: e :: rest => textChars k ++ ':' :: (chars v ++ ',' :: entryChars (e :: rest))

end

mutual

/-- Puts the characters of a value before others. -/
def writeBefore (rest : List Char) : Value → List Char
  | null => nullChars ++ rest
  | boolean true => 't' :: 'r' :: 'u' :: 'e' :: rest
  | boolean false => 'f' :: 'a' :: 'l' :: 's' :: 'e' :: rest
  | integer n => integerChars n ++ rest
  | double x => x.text?.getD nullChars ++ rest
  | single x => x.text?.getD nullChars ++ rest
  | text s => textChars s ++ rest
  | list items => '[' :: writeItemsBefore (']' :: rest) items
  | object entries => '\x7b' :: writeEntriesBefore ('\x7d' :: rest) entries

/-- Puts the characters of elements before others. -/
def writeItemsBefore (rest : List Char) : List Value → List Char
  | [] => rest
  | [v] => writeBefore rest v
  | v :: w :: vs => writeBefore (',' :: writeItemsBefore rest (w :: vs)) v

/-- Puts the characters of entries before others. -/
def writeEntriesBefore (rest : List Char) : List (String × Value) → List Char
  | [] => rest
  | [(k, v)] => textChars k ++ ':' :: writeBefore rest v
  | (k, v) :: e :: es =>
    textChars k ++ ':' :: writeBefore (',' :: writeEntriesBefore rest (e :: es)) v

end

mutual

/-- What is put before other characters is what the value is written with. -/
theorem writeBefore_eq (rest : List Char) : ∀ v : Value, writeBefore rest v = chars v ++ rest
  | null | integer _ | double _ | single _ | text _ => rfl
  | boolean true | boolean false => rfl
  | list items => by simp [writeBefore, chars, writeItemsBefore_eq _ items]
  | object entries => by simp [writeBefore, chars, writeEntriesBefore_eq _ entries]

/-- What is put before other characters is what the elements are written with. -/
theorem writeItemsBefore_eq (rest : List Char) :
    ∀ vs : List Value, writeItemsBefore rest vs = itemChars vs ++ rest
  | [] => rfl
  | [v] => by simp [writeItemsBefore, itemChars, writeBefore_eq _ v]
  | v :: w :: vs => by
    simp [writeItemsBefore, itemChars, writeBefore_eq _ v, writeItemsBefore_eq _ (w :: vs)]

/-- What is put before other characters is what the entries are written with. -/
theorem writeEntriesBefore_eq (rest : List Char) :
    ∀ es : List (String × Value), writeEntriesBefore rest es = entryChars es ++ rest
  | [] => rfl
  | [(k, v)] => by simp [writeEntriesBefore, entryChars, writeBefore_eq _ v]
  | (k, v) :: e :: es => by
    simp [writeEntriesBefore, entryChars, writeBefore_eq _ v, writeEntriesBefore_eq _ (e :: es)]

end

/-- The text of a value. It is written from its end, so that nothing is copied. -/
def render (v : Value) : String := String.ofList (writeBefore [] v)

/-- The text of a value consists of its characters. -/
theorem render_eq_ofList_chars (v : Value) : v.render = String.ofList v.chars := by
  simp [render, writeBefore_eq]

end Value

end ActionFlow.Json
