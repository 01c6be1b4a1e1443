/-!
# Operations without operands

An operation that carries no operand is only a code byte. `Op.code` is that byte, `Op.name` the
word under which documents and listings know the operation, and `mnemonic?` the word for any code
byte, control flow and operand-carrying actions included.
-/

namespace ActionFlow

/-- An action that carries no operands. -/
inductive Op where
  | add
  | add2
  | and
  | asciiToChar
  | bitAnd
  | bitLShift
  | bitOr
  | bitRShift
  | bitURShift
  | bitXor
  | call
  | callFunction
  | callMethod
  | castOp
  | charToAscii
  | cloneSprite
  | decrement
  | defineLocal
  | defineLocal2
  | delete
  | delete2
  | divide
  | endDrag
  | enumerate
  | enumerate2
  | equals
  | equals2
  | extendClass
  | fsCommand2
  | getMember
  | getProperty
  | getTime
  | getVariable
  | greater
  | implementsOp
  | increment
  | initArray
  | initObject
  | instanceOf
  | less
  | less2
  | mbAsciiToChar
  | mbCharToAscii
  | mbStringExtract
  | mbStringLength
  | modulo
  | multiply
  | newMethod
  | newObject
  | nextFrame
  | not
  | or
  | play
  | pop
  | prevFrame
  | pushDuplicate
  | randomNumber
  | removeSprite
  | ret
  | setMember
  | setProperty
  | setTarget2
  | setVariable
  | stackSwap
  | startDrag
  | stop
  | stopSounds
  | strictEquals
  | stringAdd
  | stringEquals
  | stringExtract
  | stringGreater
  | stringLength
  | stringLess
  | subtract
  | targetPath
  | throwValue
  | toInteger
  | toNumber
  | toString
  | toggleQuality
  | trace
  | typeOf
deriving DecidableEq, Repr

namespace Op

/-- The code byte of an operation. -/
def code : Op → UInt8
  | add => 0x0a
  | add2 => 0x47
  | and => 0x10
  | asciiToChar => 0x33
  | bitAnd => 0x60
  | bitLShift => 0x63
  | bitOr => 0x61
  | bitRShift => 0x64
  | bitURShift => 0x65
  | bitXor => 0x62
  | call => 0x9e
  | callFunction => 0x3d
  | callMethod => 0x52
  | castOp => 0x2b
  | charToAscii => 0x32
  | cloneSprite => 0x24
  | decrement => 0x51
  | defineLocal => 0x3c
  | defineLocal2 => 0x41
  | delete => 0x3a
  | delete2 => 0x3b
  | divide => 0x0d
  | endDrag => 0x28
  | enumerate => 0x46
  | enumerate2 => 0x55
  | equals => 0x0e
  | equals2 => 0x49
  | extendClass => 0x69
  | fsCommand2 => 0x2d
  | getMember => 0x4e
  | getProperty => 0x22
  | getTime => 0x34
  | getVariable => 0x1c
  | greater => 0x67
  | implementsOp => 0x2c
  | increment => 0x50
  | initArray => 0x42
  | initObject => 0x43
  | instanceOf => 0x54
  | less => 0x0f
  | less2 => 0x48
  | mbAsciiToChar => 0x37
  | mbCharToAscii => 0x36
  | mbStringExtract => 0x35
  | mbStringLength => 0x31
  | modulo => 0x3f
  | multiply => 0x0c
  | newMethod => 0x53
  | newObject => 0x40
  | nextFrame => 0x04
  | not => 0x12
  | or => 0x11
  | play => 0x06
  | pop => 0x17
  | prevFrame => 0x05
  | pushDuplicate => 0x4c
  | randomNumber => 0x30
  | removeSprite => 0x25
  | ret => 0x3e
  | setMember => 0x4f
  | setProperty => 0x23
  | setTarget2 => 0x20
  | setVariable => 0x1d
  | stackSwap => 0x4d
  | startDrag => 0x27
  | stop => 0x07
  | stopSounds => 0x09
  | strictEquals => 0x66
  | stringAdd => 0x21
  | stringEquals => 0x13
  | stringExtract => 0x15
  | stringGreater => 0x68
  | stringLength => 0x14
  | stringLess => 0x29
  | subtract => 0x0b
  | targetPath => 0x45
  | throwValue => 0x2a
  | toInteger => 0x18
  | toNumber => 0x4a
  | toString => 0x4b
  | toggleQuality => 0x08
  | trace => 0x26
  | typeOf => 0x44

/-- The word for an operation in documents and listings. -/
def name : Op → String
  | add => "Add"
  | add2 => "Add2"
  | and => "And"
  | asciiToChar => "AsciiToChar"
  | bitAnd => "BitAnd"
  | bitLShift => "BitLShift"
  | bitOr => "BitOr"
  | bitRShift => "BitRShift"
  | bitURShift => "BitURShift"
  | bitXor => "BitXor"
  | call => "Call"
  | callFunction => "CallFunction"
  | callMethod => "CallMethod"
  | castOp => "CastOp"
  | charToAscii => "CharToAscii"
  | cloneSprite => "CloneSprite"
  | decrement => "Decrement"
  | defineLocal => "DefineLocal"
  | defineLocal2 => "DefineLocal2"
  | delete => "Delete"
  | delete2 => "Delete2"
  | divide => "Divide"
  | endDrag => "EndDrag"
  | enumerate => "Enumerate"
  | enumerate2 => "Enumerate2"
  | equals => "Equals"
  | equals2 => "Equals2"
  | extendClass => "Extends"
  | fsCommand2 => "FsCommand2"
  | getMember => "GetMember"
  | getProperty => "GetProperty"
  | getTime => "GetTime"
  | getVariable => "GetVariable"
  | greater => "Greater"
  | implementsOp => "ImplementsOp"
  | increment => "Increment"
  | initArray => "InitArray"
  | initObject => "InitObject"
  | instanceOf => "InstanceOf"
  | less => "Less"
  | less2 => "Less2"
  | mbAsciiToChar => "MbAsciiToChar"
  | mbCharToAscii => "MbCharToAscii"
  | mbStringExtract => "MbStringExtract"
  | mbStringLength => "MbStringLength"
  | modulo => "Modulo"
  | multiply => "Multiply"
  | newMethod => "NewMethod"
  | newObject => "NewObject"
  | nextFrame => "NextFrame"
  | not => "Not"
  | or => "Or"
  | play => "Play"
  | pop => "Pop"
  | prevFrame => "PrevFrame"
  | pushDuplicate => "PushDuplicate"
  | randomNumber => "RandomNumber"
  | removeSprite => "RemoveSprite"
  | ret => "Return"
  | setMember => "SetMember"
  | setProperty => "SetProperty"
  | setTarget2 => "SetTarget2"
  | setVariable => "SetVariable"
  | stackSwap => "StackSwap"
  | startDrag => "StartDrag"
  | stop => "Stop"
  | stopSounds => "StopSounds"
  | strictEquals => "StrictEquals"
  | stringAdd => "StringAdd"
  | stringEquals => "StringEquals"
  | stringExtract => "StringExtract"
  | stringGreater => "StringGreater"
  | stringLength => "StringLength"
  | stringLess => "StringLess"
  | subtract => "Subtract"
  | targetPath => "TargetPath"
  | throwValue => "Throw"
  | toInteger => "ToInteger"
  | toNumber => "ToNumber"
  | toString => "ToString"
  | toggleQuality => "ToggleQuality"
  | trace => "Trace"
  | typeOf => "TypeOf"

/-- Every operation, in alphabetical order of the names. -/
def all : List Op := [
  add, add2, and, asciiToChar, bitAnd, bitLShift, bitOr, bitRShift, bitURShift, bitXor, call,
  callFunction, callMethod, castOp, charToAscii, cloneSprite, decrement, defineLocal,
  defineLocal2, delete, delete2, divide, endDrag, enumerate, enumerate2, equals, equals2,
  extendClass, fsCommand2, getMember, getProperty, getTime, getVariable, greater, implementsOp,
  increment, initArray, initObject, instanceOf, less, less2, mbAsciiToChar, mbCharToAscii,
  mbStringExtract, mbStringLength, modulo, multiply, newMethod, newObject, nextFrame, not, or,
  play, pop, prevFrame, pushDuplicate, randomNumber, removeSprite, ret, setMember, setProperty,
  setTarget2, setVariable, stackSwap, startDrag, stop, stopSounds, strictEquals, stringAdd,
  stringEquals, stringExtract, stringGreater, stringLength, stringLess, subtract, targetPath,
  throwValue, toInteger, toNumber, toString, toggleQuality, trace, typeOf]

end Op

/-! ## Codes of the other actions -/

namespace Code

/-- The code of `End`. -/
def stop : UInt8 := 0x00

/-- The code of `GotoFrame`. -/
def gotoFrame : UInt8 := 0x81

/-- The code of `GetUrl`. -/
def getUrl : UInt8 := 0x83

/-- The code of `StoreRegister`. -/
def storeRegister : UInt8 := 0x87

/-- The code of `ConstantPool`. -/
def constantPool : UInt8 := 0x88

/-- The code of `StrictMode`. -/
def strictMode : UInt8 := 0x89

/-- The code of `WaitForFrame`. -/
def waitForFrame : UInt8 := 0x8a

/-- The code of `SetTarget`. -/
def setTarget : UInt8 := 0x8b

/-- The code of `GotoLabel`. -/
def gotoLabel : UInt8 := 0x8c

/-- The code of `WaitForFrame2`. -/
def waitForFrame2 : UInt8 := 0x8d

/-- The code of `DefineFunction2`. -/
def defineFunction2 : UInt8 := 0x8e

/-- The code of `Try`. -/
def protect : UInt8 := 0x8f

/-- The code of `With`. -/
def within : UInt8 := 0x94

/-- The code of `Push`. -/
def push : UInt8 := 0x96

/-- The code of `Jump`. -/
def jump : UInt8 := 0x99

/-- The code of `GetUrl2`. -/
def getUrl2 : UInt8 := 0x9a

/-- The code of `DefineFunction`. -/
def defineFunction : UInt8 := 0x9b

/-- The code of `If`. -/
def branch : UInt8 := 0x9d

/-- The code of `GotoFrame2`. -/
def gotoFrame2 : UInt8 := 0x9f

/-- The code of an action that stands for an error; it is never written. -/
def error : UInt8 := 0xff

end Code

/-- The codes of actions other than operations, each with its word. -/
def otherMnemonics : List (UInt8 × String) := [
  (Code.stop, "End"),
  (Code.gotoFrame, "GotoFrame"),
  (Code.getUrl, "GetUrl"),
  (Code.storeRegister, "StoreRegister"),
  (Code.constantPool, "ConstantPool"),
  (Code.strictMode, "StrictMode"),
  (Code.waitForFrame, "WaitForFrame"),
  (Code.setTarget, "SetTarget"),
  (Code.gotoLabel, "GotoLabel"),
  (Code.waitForFrame2, "WaitForFrame2"),
  (Code.defineFunction2, "DefineFunction2"),
  (Code.protect, "Try"),
  (Code.within, "With"),
  (Code.push, "Push"),
  (Code.jump, "Jump"),
  (Code.getUrl2, "GetUrl2"),
  (Code.defineFunction, "DefineFunction"),
  (Code.branch, "If"),
  (Code.gotoFrame2, "GotoFrame2")]

/-- Every code that has a word, with the word. -/
def mnemonics : List (UInt8 × String) :=
  Op.all.map (fun o => (o.code, o.name)) ++ otherMnemonics

/-- The word for a code byte, if it has one. -/
def mnemonic? (code : UInt8) : Option String :=
  mnemonics.lookup code

end ActionFlow
