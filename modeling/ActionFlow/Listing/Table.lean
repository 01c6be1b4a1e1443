import ActionFlow.Listing
import ActionFlow.Text.Table

/-!
# Listings as tables

A listing is shown as a table with a row for each action and a closing row with their number.
-/

namespace ActionFlow.Listing

/-- Number of payload bytes that are shown. -/
def shownBytes : Nat := 16

/-- The first bytes of a payload, and how many more there are. -/
def preview (payload : Bytes) : String :=
  if payload.length ≤ shownBytes then Text.hexList payload
  else
    Text.hexList (payload.take shownBytes)
      ++ " .. (+" ++ toString (payload.length - shownBytes) ++ ")"

/-- The cells of an entry. -/
def cells (e : Entry) : List String :=
  let operand := match e.target with
    | some target => "-> " ++ Text.hexOffset target
    | none => preview e.payload
  [Text.hexOffset e.offset, "0x" ++ Text.hexByte e.code, e.mnemonic, toString e.length, operand]

/-- The table of a listing. -/
def table (entries : List Entry) : Text.Table :=
  let stop := (entries.getLast?.map Entry.stop).getD 0
  ⟨["Offset", "Code", "Action", "Length", "Operand"],
    entries.map cells
      ++ [[Text.hexOffset stop, "", toString entries.length ++ " actions", "", ""]]⟩

end ActionFlow.Listing
