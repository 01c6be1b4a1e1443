import ActionFlow.Graph
import ActionFlow.Json.Render

/-!
# How graphs are written to documents

Every part of a graph becomes a value with all of its fields, those with a default included, in
the order of their declaration and with the tag first.
-/

namespace ActionFlow

open Json (Value)

/-- A text that may be missing. -/
def optionalText : Option String → Value
  | some s => .text s
  | none => .null

/-- A word that is given by its unsigned value. -/
def wordValue (n : Nat) : Value := .integer n

namespace Label

/-- A label as a value. -/
def toValue (l : Label) : Value := .text l.text

/-- A label that may be missing, as a value. -/
def optionToValue : Option Label → Value
  | some l => l.toValue
  | none => .null

end Label

/-- An operand as a value. -/
def Operand.toValue : Operand → Value
  | boolean b => content "Boolean" (.boolean b)
  | constant c => content "Constant" (wordValue c.toNat)
  | single x => content "Float32" (.single x)
  | double x => content "Float64" (.double x)
  | null => .object [("type", .text "Null")]
  | register r => content "Register" (wordValue r.toNat)
  | integer n => content "Sint32" (.integer n.toInt)
  | text s => content "String" (.text s)
  | undefined => .object [("type", .text "Undefined")]
where
  /-- A variant with its content. -/
  content (name : String) (v : Value) : Value := .object [("type", .text name), ("value", v)]

/-- The target of a catch as a value. -/
def CatchTarget.toValue : CatchTarget → Value
  | register r => .object [("type", .text "Register"), ("target", wordValue r.toNat)]
  | named name => .object [("type", .text "Variable"), ("target", .text name)]

/-- A method as a value. -/
def UrlMethod.toValue (m : UrlMethod) : Value := .text m.name

/-- A parameter as a value. -/
def Parameter.toValue (p : Parameter) : Value :=
  .object [("register", wordValue p.register.toNat), ("name", .text p.name)]

/-- Flags as a value. -/
def FunctionFlags.toValue (f : FunctionFlags) : Value :=
  .object [
    ("preload_this", .boolean f.preloadThis),
    ("suppress_this", .boolean f.suppressThis),
    ("preload_arguments", .boolean f.preloadArguments),
    ("suppress_arguments", .boolean f.suppressArguments),
    ("preload_super", .boolean f.preloadSuper),
    ("suppress_super", .boolean f.suppressSuper),
    ("preload_root", .boolean f.preloadRoot),
    ("preload_parent", .boolean f.preloadParent),
    ("preload_global", .boolean f.preloadGlobal)]

/-- The name of an instruction in documents, and its fields. -/
def Instruction.entries : Instruction → String × List (String × Value)
  | op o => (o.name, [])
  | constantPool pool => ("ConstantPool", [("pool", .list (pool.map .text))])
  | error note => ("Error", [("error", optionalText note)])
  | getUrl url target => ("GetUrl", [("url", .text url), ("target", .text target)])
  | getUrl2 method loadTarget loadVariables =>
    ("GetUrl2", [("method", method.toValue), ("load_target", .boolean loadTarget),
      ("load_variables", .boolean loadVariables)])
  | gotoFrame frame => ("GotoFrame", [("frame", wordValue frame.toNat)])
  | gotoFrame2 play sceneBias =>
    ("GotoFrame2", [("play", .boolean play), ("scene_bias", wordValue sceneBias.toNat)])
  | gotoLabel label => ("GotoLabel", [("label", .text label)])
  | push values => ("Push", [("values", .list (values.map Operand.toValue))])
  | raw code data =>
    ("Raw", [("code", wordValue code.toNat), ("data", .list (data.map fun b => wordValue b.toNat))])
  | setTarget name => ("SetTarget", [("target_name", .text name)])
  | storeRegister index => ("StoreRegister", [("register", wordValue index.toNat)])
  | strictMode strict => ("StrictMode", [("is_strict", .boolean strict)])

/-- The name of a function definition in documents. -/
def FunctionHeader.documentName : FunctionHeader → String
  | classic _ _ => "DefineFunction"
  | registers _ _ _ _ => "DefineFunction2"

/-- The fields of a function definition before its body. -/
def FunctionHeader.entries : FunctionHeader → List (String × Value)
  | classic name parameters =>
    [("name", .text name), ("parameters", .list (parameters.map .text))]
  | registers name registerCount flags parameters =>
    [("name", .text name), ("register_count", wordValue registerCount.toNat),
      ("flags", flags.toValue), ("parameters", .list (parameters.map Parameter.toValue))]

/-- An object with a tag in front of some entries. -/
def taggedObject (tag name : String) (entries : List (String × Value)) : Value :=
  .object ((tag, .text name) :: entries)

/-- A graph as a value, given its blocks as values. -/
def graphValue (blocks : List Value) : Value := .object [("blocks", .list blocks)]

/-! ## Parts that hold blocks -/

mutual

/-- Blocks as values. -/
def blockValues : List Block → List Value
  | [] => []
  | b :: rest => blockValue b :: blockValues rest

/-- A block as a value. -/
def blockValue : Block → Value
  | ⟨label, actions, flow⟩ =>
    .object [("label", label.toValue), ("actions", .list (actionValues actions)),
      ("flow", flowValue flow)]

/-- Actions as values. -/
def actionValues : List Action → List Value
  | [] => []
  | a :: rest => actionValue a :: actionValues rest

/-- An action as a value. -/
def actionValue : Action → Value
  | .plain i => taggedObject "action" i.entries.1 i.entries.2
  | .define f => taggedObject "action" f.header.documentName (functionEntries f)

/-- The entries of a function. -/
def functionEntries : Function → List (String × Value)
  | ⟨header, body⟩ => header.entries ++ [("body", graphValue (blockValues body))]

/-- A flow as a value. -/
def flowValue : Flow → Value
  | .simple next => taggedObject "type" "Simple" [("next", Label.optionToValue next)]
  | .branch onTrue onFalse =>
    taggedObject "type" "If"
      [("true_target", onTrue.toValue), ("false_target", Label.optionToValue onFalse)]
  | .leave => taggedObject "type" "Return" []
  | .raise => taggedObject "type" "Throw" []
  | .broken note => taggedObject "type" "Error" [("error", optionalText note)]
  | .protect scope => taggedObject "type" "Try" (tryEntries scope)
  | .within body => taggedObject "type" "With" [("body", graphValue (blockValues body))]
  | .waitForFrame frame ready loading =>
    taggedObject "type" "WaitForFrame"
      [("frame", wordValue frame.toNat), ("ready_target", ready.toValue),
        ("loading_target", loading.toValue)]
  | .waitForFrame2 ready loading =>
    taggedObject "type" "WaitForFrame2"
      [("ready_target", ready.toValue), ("loading_target", loading.toValue)]

/-- The entries of the clauses of a try. -/
def tryEntries : TryScope → List (String × Value)
  | ⟨body, handler, finalizer⟩ =>
    [("try", graphValue (blockValues body)),
      ("catch", match handler with
        | some h => handlerValue h
        | none => .null),
      ("finally", match finalizer with
        | some clause => graphValue (blockValues clause)
        | none => .null)]

/-- A catch clause as a value. -/
def handlerValue : Handler → Value
  | ⟨target, body⟩ =>
    .object [("target", target.toValue), ("body", graphValue (blockValues body))]

end

/-- A graph as a value. -/
def Graph.toValue (g : Graph) : Value := graphValue (blockValues g)

/-- The document of a graph. -/
def Graph.render (g : Graph) : String := g.toValue.render

end ActionFlow
