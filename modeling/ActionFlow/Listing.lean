import ActionFlow.Bytes
import ActionFlow.Op
import ActionFlow.Report

/-!
# Listings

A listing reads a byte string from left to right, one action after the other. Sub-regions follow
the action that opens them, so their actions are listed too. Branch operands are turned into
offsets from the start of the input.

## Main definitions

- `Entry`: one action of a listing.
- `branchTarget`: the offset that a branch reaches.
- `disassemble`: the entries of a byte string, or the first malformed action.
- `Listing.render`: one line for each entry.
-/

namespace ActionFlow

/-- One action of a listing. -/
structure Entry where
  /-- Offset of the code byte. -/
  offset : Nat
  code : UInt8
  /-- The payload length that the action declares; zero for codes below 0x80. -/
  length : Nat
  payload : Bytes
  /-- The offset that a branch reaches. -/
  target : Option Nat
deriving DecidableEq, Repr

namespace Entry

/-- The word for the action. -/
def mnemonic (e : Entry) : String := (mnemonic? e.code).getD "Unknown"

/-- Number of bytes before the payload. -/
def headerSize (e : Entry) : Nat := if 0x80 ≤ e.code then 3 else 1

/-- Number of bytes of the action. -/
def size (e : Entry) : Nat := e.headerSize + e.payload.length

/-- Offset of the first byte after the action. -/
def stop (e : Entry) : Nat := e.offset + e.size

end Entry

/-- What is wrong with a malformed action. -/
inductive ListingFault where
  /-- The input ends inside the length. -/
  | lengthCut
  /-- The input ends inside the payload. -/
  | payloadCut (code : UInt8) (length : Nat)
  /-- The payload of a branch is no 16-bit word. -/
  | branchPayload (size : Nat)
  /-- A branch reaches a negative offset. -/
  | branchBeforeStart (target : Int)
deriving DecidableEq, Repr

namespace ListingFault

/-- The wording of a fault. -/
def message : ListingFault → String
  | lengthCut => "unexpected eof: failed to fill whole buffer"
  | payloadCut code length =>
    (mnemonic? code).getD "action" ++ " declares a " ++ toString length
      ++ " byte payload but the input ends first"
  | branchPayload size => "branch payload must be 2 bytes, found " ++ toString size
  | branchBeforeStart target =>
    "branch target " ++ toString target ++ " lies before the start of the input"

end ListingFault

/-- A malformed action: the offset at fault and what is wrong. -/
structure ListingError where
  offset : Nat
  fault : ListingFault
deriving DecidableEq, Repr

/-- The offset that a branch at `offset` reaches: its operand counts from the byte after it. -/
def branchTarget (offset : Nat) (payload : Bytes) : Except ListingError Nat :=
  match payload with
  | [lo, hi] =>
    let target : Int := (offset + 5 : Nat) + Bytes.signedWord lo hi
    if 0 ≤ target then .ok target.toNat else .error ⟨offset, .branchBeforeStart target⟩
  | _ => .error ⟨offset, .branchPayload payload.length⟩

/-- Whether a code is that of an action with a branch operand. -/
def isBranchCode (code : UInt8) : Bool := code == Code.branch || code == Code.jump

/-- The action that starts with `code` at `offset`, where `rest` follows the code byte. -/
def readEntry (offset : Nat) (code : UInt8) (rest : Bytes) : Except ListingError Entry :=
  if code < 0x80 then .ok ⟨offset, code, 0, [], none⟩
  else
    match rest with
    | lo :: hi :: body =>
      let length := Bytes.word lo hi
      let payload := body.take length
      if payload.length < length then .error ⟨offset, .payloadCut code length⟩
      else if isBranchCode code then
        match branchTarget offset payload with
        | .ok target => .ok ⟨offset, code, length, payload, some target⟩
        | .error e => .error e
      else .ok ⟨offset, code, length, payload, none⟩
    | _ => .error ⟨offset + 1, .lengthCut⟩

/-- The entries of the bytes from `offset` on, behind those found already, the last one first. -/
def entriesFrom (offset : Nat) (found : List Entry) : Bytes → Except ListingError (List Entry)
  | [] => .ok found.reverse
  | code :: rest =>
    match readEntry offset code rest with
    | .error e => .error e
    | .ok e => entriesFrom e.stop (e :: found) (rest.drop (e.size - 1))
termination_by bytes => bytes.length
decreasing_by simp only [List.length_drop, List.length_cons]; omega

/-- The entries of a byte string, or its first malformed action. -/
def disassemble (bytes : Bytes) : Except ListingError (List Entry) :=
  entriesFrom 0 [] bytes

/-! ## Text -/

namespace Listing

/-- The report of a fault that is described by `message`. -/
def report (offset : Nat) (message : String) : Report :=
  ⟨.error, "avm1emit.disasm", some offset, message⟩

/-- A fault with its place, in one text. -/
def placed (offset : Nat) (message : String) : String :=
  "at 0x" ++ Text.hexOffset offset ++ ": " ++ message

/-- The line of an entry: its offset, its word, and where it branches to or its payload. -/
def line (e : Entry) : String :=
  let operand := match e.target with
    | some target => " -> " ++ Text.hexOffset target
    | none => if e.payload.isEmpty then "" else " " ++ Text.hexList e.payload
  Text.hexOffset e.offset ++ "  " ++ Text.padRight 16 e.mnemonic ++ operand ++ "\n"

/-- One line for each entry. -/
def render (entries : List Entry) : String :=
  entries.foldl (fun text e => text ++ line e) ""

end Listing

namespace ListingError

/-- The wording of an error. -/
def message (e : ListingError) : String := e.fault.message

/-- The report of an error. -/
def report (e : ListingError) : Report := Listing.report e.offset e.message

end ListingError

end ActionFlow
