import ActionFlow.Graph
import ActionFlow.Json.Variant

/-!
# How graphs are found in documents

Each part of a graph has a decoder. Titles and keys are those that documents and messages use.

A graph holds graphs, so its decoder is built in levels (`graph`): the decoder of one level finds
the graphs inside with the decoder of the level below. A document can not be nested deeper than
the room of its reader, and every graph inside another one needs room of its own, so that
`document` has levels enough for all documents.
-/

namespace ActionFlow.Schema

open Json

/-! ## Parts that hold no blocks -/

/-- A label. -/
def label : Decoder Label := Decoder.text.map Label.mk

/-- A value to push. -/
def operand : Decoder Operand :=
  AdjacentTagged.decoder {
    name := "PushValue"
    tag := "type"
    content := "value"
    variants := [
      ("Boolean", .payload (Decoder.boolean.map .boolean)),
      ("Constant", .payload (Decoder.uint16.map .constant)),
      ("Float32", .payload (Decoder.single.map .single)),
      ("Float64", .payload (Decoder.double.map .double)),
      ("Null", .unit .null),
      ("Register", .payload (Decoder.uint8.map .register)),
      ("Sint32", .payload (Decoder.int32.map .integer)),
      ("String", .payload (Decoder.text.map .text)),
      ("Undefined", .unit .undefined)] }

/-- Where a caught value goes. -/
def catchTarget : Decoder CatchTarget :=
  AdjacentTagged.decoder {
    name := "CatchTarget"
    tag := "type"
    content := "target"
    variants := [
      ("Register", .payload (Decoder.uint8.map .register)),
      ("Variable", .payload (Decoder.text.map .named))] }

/-- A method of sending variables. -/
def urlMethod : Decoder UrlMethod :=
  (Tag.name (UrlMethod.all.map UrlMethod.name)).map fun i => UrlMethod.all.get (i.cast (by simp))

/-- A parameter in a register. -/
def parameter : Decoder Parameter :=
  ((Shape.field "register" Decoder.uint8).both (Shape.field "name" Decoder.text)).map
    (fun (register, name) => Parameter.mk register name)
    |>.decoder "struct Parameter"

/-- A flag, which is off when it is left out. -/
def flag (name : String) : Shape Bool := Shape.optional name Decoder.boolean false

/-- The flags of a function. -/
def functionFlags : Decoder FunctionFlags :=
  ((flag "preload_this").both <| (flag "suppress_this").both <|
    (flag "preload_arguments").both <| (flag "suppress_arguments").both <|
    (flag "preload_super").both <| (flag "suppress_super").both <|
    (flag "preload_root").both <| (flag "preload_parent").both (flag "preload_global")).map
    (fun (a, b, c, d, e, f, g, h, i) => FunctionFlags.mk a b c d e f g h i)
    |>.decoder "struct FunctionFlags"

/-! ## Instructions -/

/-- A list of constants. -/
def constantPool : Shape Instruction :=
  (Shape.field "pool" (Decoder.list Decoder.text)).map .constantPool

/-- An action that stands for an error. -/
def errorAction : Shape Instruction :=
  (Shape.optional "error" (Decoder.option Decoder.text) none).map .error

/-- A request with fixed text. -/
def getUrl : Shape Instruction :=
  ((Shape.field "url" Decoder.text).both (Shape.field "target" Decoder.text)).map
    fun (url, target) => .getUrl url target

/-- A request with text from the stack. -/
def getUrl2 : Shape Instruction :=
  ((Shape.optional "method" urlMethod .none).both <|
    (flag "load_target").both (flag "load_variables")).map
    fun (method, loadTarget, loadVariables) => .getUrl2 method loadTarget loadVariables

/-- A move to a frame given by its number. -/
def gotoFrame : Shape Instruction := (Shape.field "frame" Decoder.uint16).map .gotoFrame

/-- A move to a frame from the stack. -/
def gotoFrame2 : Shape Instruction :=
  ((Shape.field "play" Decoder.boolean).both (Shape.optional "scene_bias" Decoder.uint16 0)).map
    fun (play, sceneBias) => .gotoFrame2 play sceneBias

/-- A move to a frame given by its label. -/
def gotoLabel : Shape Instruction := (Shape.field "label" Decoder.text).map .gotoLabel

/-- Values to push. -/
def push : Shape Instruction := (Shape.field "values" (Decoder.list operand)).map .push

/-- An action given by its code and payload. -/
def raw : Shape Instruction :=
  ((Shape.field "code" Decoder.uint8).both
    (Shape.optional "data" (Decoder.list Decoder.uint8) [])).map
    fun (code, data) => .raw code data

/-- A change of the target. -/
def setTarget : Shape Instruction := (Shape.field "target_name" Decoder.text).map .setTarget

/-- A copy into a register. -/
def storeRegister : Shape Instruction :=
  (Shape.field "register" Decoder.uint8).map .storeRegister

/-- A change of strictness. -/
def strictMode : Shape Instruction := (Shape.field "is_strict" Decoder.boolean).map .strictMode

/-- The variant of an operation. -/
def operation (o : Op) : String × InnerBody Action := (o.name, .unit (.plain (.op o)))

/-- The variant of an instruction with operands. -/
def operands (name : String) (shape : Shape Instruction) : String × InnerBody Action :=
  (name, .record ("struct variant Action::" ++ name) (shape.map .plain))

/-- The variant of a function definition. -/
def defining (name title : String) (shape : Shape Function) : String × InnerBody Action :=
  (name, .record title (shape.map .define))

/-! ## Parts that hold blocks, given how graphs are found -/

/-- A function with named parameters. -/
def classicShape (g : Decoder Graph) : Shape Function :=
  ((Shape.optional "name" Decoder.text "").both <|
    (Shape.optional "parameters" (Decoder.list Decoder.text) []).both (Shape.field "body" g)).map
    fun (name, parameters, body) => ⟨.classic name parameters, body⟩

/-- A function with registers. -/
def registersShape (g : Decoder Graph) : Shape Function :=
  ((Shape.optional "name" Decoder.text "").both <|
    (Shape.field "register_count" Decoder.uint8).both <|
    (Shape.optional "flags" functionFlags {}).both <|
    (Shape.optional "parameters" (Decoder.list parameter) []).both (Shape.field "body" g)).map
    fun (name, registerCount, flags, parameters, body) =>
      ⟨.registers name registerCount flags parameters, body⟩

/-- An action. -/
def action (g : Decoder Graph) : Decoder Action :=
  InnerTagged.decoder {
    title := "internally tagged enum Action"
    tag := "action"
    variants := [
      operation .add, operation .add2, operation .and, operation .asciiToChar, operation .bitAnd,
      operation .bitLShift, operation .bitOr, operation .bitRShift, operation .bitURShift,
      operation .bitXor, operation .call, operation .callFunction, operation .callMethod,
      operation .castOp, operation .charToAscii, operation .cloneSprite,
      operands "ConstantPool" constantPool, operation .decrement,
      defining "DefineFunction" "struct DefineFunction" (classicShape g),
      defining "DefineFunction2" "struct DefineFunction2" (registersShape g),
      operation .defineLocal, operation .defineLocal2, operation .delete, operation .delete2,
      operation .divide, operation .endDrag, operation .enumerate, operation .enumerate2,
      operation .equals, operation .equals2, operands "Error" errorAction, operation .extendClass,
      operation .fsCommand2, operation .getMember, operation .getProperty, operation .getTime,
      operands "GetUrl" getUrl, operands "GetUrl2" getUrl2, operation .getVariable,
      operands "GotoFrame" gotoFrame, operands "GotoFrame2" gotoFrame2,
      operands "GotoLabel" gotoLabel, operation .greater, operation .implementsOp,
      operation .increment, operation .initArray, operation .initObject, operation .instanceOf,
      operation .less, operation .less2, operation .mbAsciiToChar, operation .mbCharToAscii,
      operation .mbStringExtract, operation .mbStringLength, operation .modulo, operation .multiply,
      operation .newMethod, operation .newObject, operation .nextFrame, operation .not,
      operation .or, operation .play, operation .pop, operation .prevFrame, operands "Push" push,
      operation .pushDuplicate, operation .randomNumber, operands "Raw" raw,
      operation .removeSprite, operation .ret, operation .setMember, operation .setProperty,
      operands "SetTarget" setTarget, operation .setTarget2, operation .setVariable,
      operation .stackSwap, operation .startDrag, operation .stop, operation .stopSounds,
      operands "StoreRegister" storeRegister, operation .strictEquals,
      operands "StrictMode" strictMode, operation .stringAdd, operation .stringEquals,
      operation .stringExtract, operation .stringGreater, operation .stringLength,
      operation .stringLess, operation .subtract, operation .targetPath, operation .throwValue,
      operation .toInteger, operation .toNumber, operation .toString, operation .toggleQuality,
      operation .trace, operation .typeOf] }

/-- A catch clause. -/
def handler (g : Decoder Graph) : Decoder Handler :=
  ((Shape.field "target" catchTarget).both (Shape.field "body" g)).map
    (fun (target, body) => Handler.mk target body)
    |>.decoder "struct CfgCatch"

/-- The clauses of a try. -/
def tryShape (g : Decoder Graph) : Shape TryScope :=
  ((Shape.field "try" g).both <|
    (Shape.optional "catch" (Decoder.option (handler g)) none).both
    (Shape.optional "finally" (Decoder.option g) none)).map
    fun (body, handler, finalizer) => TryScope.mk body handler finalizer

/-- The variant of a flow with fields. -/
def flowFields (name : String) (shape : Shape Flow) : String × InnerBody Flow :=
  (name, .record ("struct variant CfgFlow::" ++ name) shape)

/-- A flow. -/
def flow (g : Decoder Graph) : Decoder Flow :=
  InnerTagged.decoder {
    title := "internally tagged enum CfgFlow"
    tag := "type"
    variants := [
      flowFields "Simple" ((Shape.optional "next" (Decoder.option label) none).map .simple),
      flowFields "If"
        (((Shape.field "true_target" label).both
          (Shape.optional "false_target" (Decoder.option label) none)).map
          fun (onTrue, onFalse) => .branch onTrue onFalse),
      ("Return", .unit .leave),
      ("Throw", .unit .raise),
      flowFields "Error"
        ((Shape.optional "error" (Decoder.option Decoder.text) none).map .broken),
      ("Try", .record "struct CfgTry" ((tryShape g).map .protect)),
      flowFields "With" ((Shape.field "body" g).map .within),
      flowFields "WaitForFrame"
        (((Shape.field "frame" Decoder.uint16).both <|
          (Shape.field "ready_target" label).both (Shape.field "loading_target" label)).map
          fun (frame, ready, loading) => .waitForFrame frame ready loading),
      flowFields "WaitForFrame2"
        (((Shape.field "ready_target" label).both (Shape.field "loading_target" label)).map
          fun (ready, loading) => .waitForFrame2 ready loading)] }

/-- A block. -/
def block (g : Decoder Graph) : Decoder Block :=
  ((Shape.field "label" label).both <|
    (Shape.optional "actions" (Decoder.list (action g)) []).both (Shape.field "flow" (flow g))).map
    (fun (label, actions, flow) => Block.mk label actions flow)
    |>.decoder "struct CfgBlock"

/-! ## Graphs -/

/-- How many lists and objects may be open inside each other. -/
def nestingLimit : Nat := 127

/-- A graph in which graphs are nested less than `levels` deep. -/
def graph : (levels : Nat) → Decoder Graph
  | 0 => Decoder.never .nestingLimit
  | levels + 1 =>
    (Shape.field "blocks" (Decoder.list (block (graph levels)))).decoder "struct Cfg"

/-- A graph of any document. -/
def document : Decoder Graph := graph (nestingLimit + 1)

end ActionFlow.Schema
