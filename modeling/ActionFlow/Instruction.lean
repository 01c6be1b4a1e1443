import ActionFlow.Bytes
import ActionFlow.Number.Binary
import ActionFlow.Op

/-!
# Instructions

An instruction is an action that holds no blocks: an operation, or an action with operands of its
own. Instructions are the straight-line content of a block.
-/

namespace ActionFlow

open Number (Single Double)

/-- A value that a push instruction puts on the stack. -/
inductive Operand where
  | boolean (value : Bool)
  | constant (index : UInt16)
  | single (value : Single)
  | double (value : Double)
  | null
  | register (index : UInt8)
  | integer (value : Int32)
  | text (value : String)
  | undefined
deriving DecidableEq, Repr

/-- How a request sends the variables of the program. -/
inductive UrlMethod where
  | none
  | get
  | post
deriving DecidableEq, Repr, Inhabited

namespace UrlMethod

/-- The two-bit number of a method. -/
def code : UrlMethod → UInt8
  | none => 0
  | get => 1
  | post => 2

/-- The word for a method in documents. -/
def name : UrlMethod → String
  | none => "None"
  | get => "Get"
  | post => "Post"

/-- The methods in the order of their codes. -/
def all : List UrlMethod := [none, get, post]

end UrlMethod

/-- An action that holds no blocks. -/
inductive Instruction where
  | op (o : Op)
  | constantPool (pool : List String)
  /-- Stands where a document could not say what the action is; it has no encoding. -/
  | error (note : Option String)
  | getUrl (url target : String)
  | getUrl2 (method : UrlMethod) (loadTarget loadVariables : Bool)
  | gotoFrame (frame : UInt16)
  | gotoFrame2 (play : Bool) (sceneBias : UInt16)
  | gotoLabel (label : String)
  | push (values : List Operand)
  /-- An action given by its code and payload. -/
  | raw (code : UInt8) (data : Bytes)
  | setTarget (name : String)
  | storeRegister (index : UInt8)
  | strictMode (strict : Bool)
deriving DecidableEq, Repr

namespace Instruction

/-- The code byte of an instruction. -/
def code : Instruction → UInt8
  | op o => o.code
  | constantPool _ => Code.constantPool
  | error _ => Code.error
  | getUrl _ _ => Code.getUrl
  | getUrl2 _ _ _ => Code.getUrl2
  | gotoFrame _ => Code.gotoFrame
  | gotoFrame2 _ _ => Code.gotoFrame2
  | gotoLabel _ => Code.gotoLabel
  | push _ => Code.push
  | raw c _ => c
  | setTarget _ => Code.setTarget
  | storeRegister _ => Code.storeRegister
  | strictMode _ => Code.strictMode

/-- Whether an instruction is taken to leave its block, so that nothing after it is reached. -/
def isTerminal : Instruction → Bool
  | op .ret => true
  | op .throwValue => true
  | raw c _ =>
    c == Code.stop || c == Op.code .throwValue || c == Op.code .ret || c == Code.jump
  | _ => false

end Instruction

end ActionFlow
