import ActionFlow.Number.Shortest
import ActionFlow.Text.Quoted

/-!
# JSON values

A value as a document holds it. Objects keep their entries in order and with repetitions, because
a repeated key is an error only where the key has a meaning.
-/

namespace ActionFlow.Json

open Number (Single Double)

/-- A JSON value. -/
inductive Value where
  | null
  | boolean (value : Bool)
  | integer (value : Int)
  | double (value : Double)
  /-- A number of 32 bits; it is written with fewer digits, and read back as `double`. -/
  | single (value : Single)
  | text (value : String)
  | list (items : List Value)
  | object (entries : List (String × Value))
deriving BEq, Repr, Inhabited

/-- What stands in a document where something else was expected. -/
inductive Found where
  | null
  | boolean (value : Bool)
  | integer (value : Int)
  | double (value : Double)
  | text (value : String)
  | list
  | object
deriving DecidableEq, Repr

namespace Found

/-- The words for what was found. -/
def describe : Found → String
  | null => "null"
  | boolean true => "boolean `true`"
  | boolean false => "boolean `false`"
  | integer n => "integer `" ++ toString n ++ "`"
  | double x => "floating point `" ++ String.ofList (x.text?.getD "null".toList) ++ "`"
  | text s => "string " ++ Text.quoted s
  | list => "sequence"
  | object => "map"

end Found

namespace Value

/-- How a value is named when another kind was expected. -/
def found : Value → Found
  | null => .null
  | boolean b => .boolean b
  | integer n => .integer n
  | double x => .double x
  | single x => .double (Double.ofSingle x)
  | text s => .text s
  | list _ => .list
  | object _ => .object

end Value

end ActionFlow.Json
