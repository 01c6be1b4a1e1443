import ActionFlow.Text.Hex

/-!
# Labels

A label names a block. Labels are only compared: their text carries no meaning.
-/

namespace ActionFlow

/-- The name of a block. -/
structure Label where
  text : String
deriving DecidableEq, Repr, Inhabited

namespace Label

/-- The order in which label tables are shown: by code points, which is also the order of the
    UTF-8 bytes. -/
def le (a b : Label) : Bool := decide (a.text ≤ b.text)

/-- The labels of a list in order, each once. -/
def sortedDistinct (ls : List Label) : List Label :=
  (ls.eraseDups).mergeSort le

/-- The `n`-th label of a supply: `l_` and 32 hexadecimal digits. -/
def fresh (n : Nat) : Label :=
  ⟨"l_" ++ Text.padLeft 32 '0' (Text.hexDigits n)⟩

/-- Whether a character is a lower-case hexadecimal digit. -/
def isHexDigit (c : Char) : Bool :=
  c.isDigit || ('a' ≤ c && c ≤ 'f')

/-- Whether a label has the form of the labels that `fresh` supplies. -/
def isFresh (l : Label) : Bool :=
  match l.text.toList with
  | 'l' :: '_' :: ds => ds.length == 32 && ds.all isHexDigit
  | _ => false

/-- The first label of a list that already occurred before it. -/
def firstRepeat (seen : List Label) : List Label → Option Label
  | [] => none
  | l :: ls => if l ∈ seen then some l else firstRepeat (l :: seen) ls

end Label

end ActionFlow
