import ActionFlow.Text.Hex
import ActionFlow.Text.Hidden

/-!
# Quoted text

Paths and texts inside messages are shown between double quotes. Quotes, backslashes and the usual
controls have short escapes; other characters without a form of their own are shown by their
number.
-/

namespace ActionFlow.Text

/-- A character inside quoted text. -/
def quotedChar (c : Char) : String :=
  if c = '"' then "\\\""
  else if c = '\\' then "\\\\"
  else if c = '\n' then "\\n"
  else if c = '\r' then "\\r"
  else if c = '\t' then "\\t"
  else if c = Char.ofNat 0 then "\\0"
  else if isHidden c then "\\u\x7b" ++ hexDigits c.toNat ++ "\x7d"
  else c.toString

/-- A text between double quotes. -/
def quoted (s : String) : String :=
  s.toList.foldl (fun text c => text ++ quotedChar c) "\"" ++ "\""

end ActionFlow.Text
