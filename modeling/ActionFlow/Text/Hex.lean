/-!
# Hexadecimal text

Offsets are shown with at least four lower-case digits and bytes with exactly two.
-/

namespace ActionFlow.Text

/-- The text `s` filled up with `fill` on the left to at least `width` characters. -/
def padLeft (width : Nat) (fill : Char) (s : String) : String :=
  String.ofList (List.replicate (width - s.length) fill) ++ s

/-- The text `s` filled up with blanks on the right to at least `width` characters. -/
def padRight (width : Nat) (s : String) : String :=
  s ++ String.ofList (List.replicate (width - s.length) ' ')

/-- Lower-case hexadecimal digits of `n`, without leading zeros. -/
def hexDigits (n : Nat) : String :=
  String.ofList (Nat.toDigits 16 n)

/-- A byte as two hexadecimal digits. -/
def hexByte (b : UInt8) : String :=
  padLeft 2 '0' (hexDigits b.toNat)

/-- An offset as at least four hexadecimal digits. -/
def hexOffset (n : Nat) : String :=
  padLeft 4 '0' (hexDigits n)

/-- Bytes as hexadecimal pairs with one blank between neighbours. -/
def hexList (bs : List UInt8) : String :=
  " ".intercalate (bs.map hexByte)

end ActionFlow.Text
