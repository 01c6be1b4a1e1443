import ActionFlow.Graph
import ActionFlow.LowerError

/-!
# Records: actions as the stream stores them

A record is one action of the byte stream. It starts with a code byte. Codes of 0x80 and above are
followed by a 16-bit length and a payload of that length; the others have no payload. Records that
open a sub-region (functions, try clauses, scopes) carry its size; the bytes of the sub-region
follow the record.

## Main definitions

- `Record`: the actions of a graph, and the control-flow actions that lowering adds.
- `Record.payload`: the operands of a record as bytes.
- `Record.write`: the bytes that a record adds to a stream, and why it stopped, if it did.
- `Record.writeTo`: the same into a stream that already holds bytes.
- `Record.encode`: the bytes of a record that was written whole.
-/

namespace ActionFlow

/-- What the header of a try says about its clauses. -/
structure TryHeader where
  bodySize : UInt16
  handler : Option (CatchTarget × UInt16)
  finalizerSize : Option UInt16
deriving DecidableEq, Repr

/-- One action of the byte stream. -/
inductive Record where
  /-- An action of a graph; function definitions have to be given as `function`. -/
  | action (a : Action)
  | function (header : FunctionHeader) (bodySize : UInt16)
  | stop
  | branch (offset : Int16)
  | jump (offset : Int16)
  | protect (header : TryHeader)
  | within (size : UInt16)
  | waitForFrame (frame : UInt16) (skip : UInt8)
  | waitForFrame2 (skip : UInt8)
deriving BEq, Repr

/-- A length or count as a word, if it fits. -/
def sizeWord (what : String) (size : Nat) : Except LowerError UInt16 :=
  if size ≤ 65535 then .ok (UInt16.ofNat size) else .error (.tooLarge what size)

/-! ## Payloads -/

/-- The bytes of a pushed value: a kind byte, then the value. -/
def Operand.bytes : Operand → Bytes
  | text s => 0 :: Bytes.ofTerminatedText s
  | single x => 1 :: Bytes.ofUInt32 x.bits
  | null => [2]
  | undefined => [3]
  | register r => [4, r]
  | boolean b => [5, b.toUInt8]
  | double x => 6 :: Bytes.ofUInt64HighFirst x.bits
  | integer n => 7 :: Bytes.ofInt32 n
  | constant c => if c ≤ 255 then [8, c.toUInt8] else 9 :: Bytes.ofUInt16 c

/-- The payload of an instruction. -/
def Instruction.payload : Instruction → Except LowerError Bytes
  | constantPool pool => do
    let count ← sizeWord "constant pool" pool.length
    pure (Bytes.ofUInt16 count ++ pool.flatMap Bytes.ofTerminatedText)
  | getUrl url target => pure (Bytes.ofTerminatedText url ++ Bytes.ofTerminatedText target)
  | getUrl2 method loadTarget loadVariables =>
    pure [UInt8.ofNat (Bytes.ofFlags [loadVariables, loadTarget]) ||| (method.code <<< 6)]
  | gotoFrame frame => pure (Bytes.ofUInt16 frame)
  | gotoFrame2 play sceneBias =>
    let biased := sceneBias != 0
    pure (UInt8.ofNat (Bytes.ofFlags [play, biased])
      :: (if biased then Bytes.ofUInt16 sceneBias else []))
  | gotoLabel label => pure (Bytes.ofTerminatedText label)
  | push values => pure (values.flatMap Operand.bytes)
  | raw _ data => pure data
  | setTarget name => pure (Bytes.ofTerminatedText name)
  | storeRegister index => pure [index]
  | strictMode strict => pure [strict.toUInt8]
  | op _ => pure []
  | error _ => pure []

/-- The payload of a function definition with a body of the given size. -/
def FunctionHeader.payload (bodySize : UInt16) : FunctionHeader → Except LowerError Bytes
  | classic name parameters => do
    let count ← sizeWord "parameter list" parameters.length
    pure (Bytes.ofTerminatedText name ++ Bytes.ofUInt16 count
      ++ parameters.flatMap Bytes.ofTerminatedText ++ Bytes.ofUInt16 bodySize)
  | registers name registerCount flags parameters => do
    let count ← sizeWord "parameter list" parameters.length
    pure (Bytes.ofTerminatedText name ++ Bytes.ofUInt16 count ++ registerCount
      :: (Bytes.ofUInt16 flags.bits
        ++ parameters.flatMap (fun p => p.register :: Bytes.ofTerminatedText p.name)
        ++ Bytes.ofUInt16 bodySize))

/-- The payload of a try: which clauses there are, their sizes, and where the caught value goes.
    The last field is there also without a catch clause. -/
def TryHeader.payload (h : TryHeader) : Bytes :=
  let inRegister := match h.handler with
    | some (target, _) => target.isRegister
    | none => false
  let handlerSize := match h.handler with
    | some (_, size) => size
    | none => 0
  let target := match h.handler with
    | some (.register index, _) => [index]
    | some (.named name, _) => Bytes.ofTerminatedText name
    | none => [0]
  UInt8.ofNat (Bytes.ofFlags [h.handler.isSome, h.finalizerSize.isSome, inRegister])
    :: (Bytes.ofUInt16 h.bodySize ++ Bytes.ofUInt16 handlerSize
      ++ Bytes.ofUInt16 (h.finalizerSize.getD 0) ++ target)

namespace Record

/-- The code byte of a record. -/
def code : Record → UInt8
  | action a => a.code
  | function header _ => header.code
  | stop => Code.stop
  | branch _ => Code.branch
  | jump _ => Code.jump
  | protect _ => Code.protect
  | within _ => Code.within
  | waitForFrame _ _ => Code.waitForFrame
  | waitForFrame2 _ => Code.waitForFrame2

/-- The operands of a record as bytes. -/
def payload : Record → Except LowerError Bytes
  | action (.plain i) => i.payload
  | action (.define _) => pure []
  | function header bodySize => header.payload bodySize
  | stop => pure []
  | branch offset => pure (Bytes.ofInt16 offset)
  | jump offset => pure (Bytes.ofInt16 offset)
  | protect header => pure header.payload
  | within size => pure (Bytes.ofUInt16 size)
  | waitForFrame frame skip => pure (Bytes.ofUInt16 frame ++ [skip])
  | waitForFrame2 skip => pure [skip]

/-! ## Writing -/

/-- What has no encoding at all, so that not even its code is written. -/
def unencodable? : Record → Option String
  | action (.plain (.error (some note))) => some ("Error action (" ++ note ++ ")")
  | action (.plain (.error none)) => some "Error action"
  | action (.define _) => some "function definition without a lowered body"
  | _ => none

/-- How a payload is called when it is too long. -/
def payloadName : Record → String
  | action (.plain (.raw _ _)) => "raw action payload"
  | _ => "action payload"

/-- The data of an action that is given by its code and payload. -/
def rawData : Record → Bytes
  | action (.plain (.raw _ data)) => data
  | _ => []

/-- What follows the code byte: nothing for codes below 0x80, else the length and the payload. -/
def tail (r : Record) : Except LowerError Bytes :=
  if r.code < 0x80 then
    if r.rawData.isEmpty then .ok []
    else .error (.unsupported ("raw action 0x" ++ Text.hexByte r.code ++ " with a payload"))
  else do
    let body ← r.payload
    let size ← sizeWord r.payloadName body.length
    pure (Bytes.ofUInt16 size ++ body)

/-- What writing a record adds to a stream, and the error at which it stopped. -/
structure Written where
  bytes : Bytes
  error? : Option LowerError
deriving DecidableEq, Repr

/-- Writes a record. One that cannot be completed may leave its code byte behind. -/
def write (r : Record) : Written :=
  match r.unencodable? with
  | some construct => ⟨[], some (.unsupported construct)⟩
  | none =>
    match r.tail with
    | .ok rest => ⟨r.code :: rest, none⟩
    | .error e => ⟨[r.code], some e⟩

/-- Writes a record behind the bytes that a stream already holds: the code byte, then what follows
    it. What was written before an error stays in the stream. -/
def writeTo (out : Bytes) (r : Record) : Bytes × Except LowerError Unit :=
  match r.unencodable? with
  | some construct => (out, .error (.unsupported construct))
  | none =>
    let out := out ++ [r.code]
    match r.tail with
    | .ok rest => (out ++ rest, .ok ())
    | .error e => (out, .error e)

/-- The bytes of a record that can be written whole. -/
def encode (r : Record) : Except LowerError Bytes :=
  match r.write with
  | ⟨bytes, none⟩ => .ok bytes
  | ⟨_, some e⟩ => .error e

/-- The bytes that stand for a flow known to be broken: a push whose one value has a kind that
    nothing accepts. -/
def brokenFlow : Bytes := [Code.push, 1, 0, 0xff]

end Record

end ActionFlow
