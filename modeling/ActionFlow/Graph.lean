import ActionFlow.Instruction
import ActionFlow.Label

/-!
# Control-flow graphs

A graph is an ordered list of labelled blocks. A block runs its actions and then follows its flow.
Flows and actions may hold graphs of their own:

- the clauses of a *try* and the body of a *with* belong to the same region as the block that
  holds them, so they share its labels;
- the body of a function is a region of its own.

## Main definitions

- `Block`, `Flow`, `Action`, and the parts they hold; `Graph` is a list of blocks.
- `Graph.layout`: the blocks of a region in the order in which they are written.
- `Graph.regionLabels`, `Graph.functionBodies`: the labels and the function bodies of a region.
- `Graph.innerRegions`: every region below a graph.
-/

namespace ActionFlow

/-- Where a caught value goes. -/
inductive CatchTarget where
  | register (index : UInt8)
  | named (name : String)
deriving DecidableEq, Repr

namespace CatchTarget

/-- Whether the caught value goes to a register. -/
def isRegister : CatchTarget → Bool
  | register _ => true
  | named _ => false

end CatchTarget

/-- Which implicit variables a function prepares in registers, and which it leaves out. -/
structure FunctionFlags where
  preloadThis : Bool := false
  suppressThis : Bool := false
  preloadArguments : Bool := false
  suppressArguments : Bool := false
  preloadSuper : Bool := false
  suppressSuper : Bool := false
  preloadRoot : Bool := false
  preloadParent : Bool := false
  preloadGlobal : Bool := false
deriving DecidableEq, Repr, Inhabited

namespace FunctionFlags

/-- The flags from the lowest bit up. -/
def toList (f : FunctionFlags) : List Bool :=
  [f.preloadThis, f.suppressThis, f.preloadArguments, f.suppressArguments, f.preloadSuper,
    f.suppressSuper, f.preloadRoot, f.preloadParent, f.preloadGlobal]

/-- The flags as a word, one bit each. -/
def bits (f : FunctionFlags) : UInt16 :=
  UInt16.ofNat (Bytes.ofFlags f.toList)

end FunctionFlags

/-- A parameter that is passed in a register, or by name when the register is zero. -/
structure Parameter where
  register : UInt8
  name : String
deriving DecidableEq, Repr

/-- All of a function definition but its body. -/
inductive FunctionHeader where
  | classic (name : String) (parameters : List String)
  | registers (name : String) (registerCount : UInt8) (flags : FunctionFlags)
      (parameters : List Parameter)
deriving DecidableEq, Repr

namespace FunctionHeader

/-- The code byte of the definition. -/
def code : FunctionHeader → UInt8
  | classic _ _ => Code.defineFunction
  | registers _ _ _ _ => Code.defineFunction2

end FunctionHeader

mutual

/-- A labelled run of actions and what follows it. -/
structure Block where
  label : Label
  actions : List Action
  flow : Flow

/-- What follows the actions of a block. -/
inductive Flow where
  /-- Continue at a block, or leave the region. -/
  | simple (next : Option Label)
  /-- Continue at one block if the popped value is true, else as `simple`. -/
  | branch (onTrue : Label) (onFalse : Option Label)
  /-- Return from the function. -/
  | leave
  /-- Throw the popped value. -/
  | raise
  /-- The program is known to be broken here. -/
  | broken (note : Option String)
  /-- Run the clauses of a try. -/
  | protect (scope : TryScope)
  /-- Run a graph inside a scope. -/
  | within (body : List Block)
  /-- Wait for a frame given by its number. -/
  | waitForFrame (frame : UInt16) (ready loading : Label)
  /-- Wait for a frame given on the stack. -/
  | waitForFrame2 (ready loading : Label)

/-- The clauses of a try. -/
structure TryScope where
  body : List Block
  handler : Option Handler
  finalizer : Option (List Block)

/-- A catch clause. -/
structure Handler where
  target : CatchTarget
  body : List Block

/-- A function definition. -/
structure Function where
  header : FunctionHeader
  body : List Block

/-- One step of a block. -/
inductive Action where
  | plain (instruction : Instruction)
  | define (function : Function)

end

deriving instance BEq, Repr for Block, Flow, TryScope, Handler, Function, Action

/-- An ordered list of blocks; control enters at the first. -/
abbrev Graph := List Block

namespace Action

/-- The code byte of an action. -/
def code : Action → UInt8
  | plain i => i.code
  | define f => f.header.code

/-- Whether an action is taken to leave its block. -/
def isTerminal : Action → Bool
  | plain i => i.isTerminal
  | define _ => false

/-- The body of the function that an action defines, if it defines one. -/
def functionBody? : Action → Option Graph
  | plain _ => none
  | define f => some f.body

end Action

namespace Block

/-- Whether the last action of a block is taken to leave it. -/
def endsTerminal (b : Block) : Bool :=
  match b.actions.getLast? with
  | some a => a.isTerminal
  | none => false

end Block

namespace Graph

/-- The label at which control enters a graph. -/
def firstLabel? (g : Graph) : Option Label :=
  g.head?.map Block.label

/-! ## The blocks of a region -/

mutual

/-- The blocks of a region in the order in which they are written: each block before the clauses
    that its flow holds. Function bodies are not part of the region. -/
def layout : List Block → List Block
  | [] => []
  | ⟨label, actions, flow⟩ :: bs => ⟨label, actions, flow⟩ :: (flowLayout flow ++ layout bs)

/-- The blocks of the clauses that a flow holds. -/
def flowLayout : Flow → List Block
  | .within body => layout body
  | .protect ⟨body, handler, finalizer⟩ =>
    layout body
      ++ (match handler with
        | some ⟨_, clause⟩ => layout clause
        | none => [])
      ++ (match finalizer with
        | some clause => layout clause
        | none => [])
  | _ => []

end

/-- The labels of a region, in the order in which its blocks are written. -/
def regionLabels (g : Graph) : List Label :=
  (layout g).map Block.label

/-- The bodies of the functions that a region defines, in the order of their definitions. -/
def functionBodies (g : Graph) : List Graph :=
  (layout g).flatMap fun b => b.actions.filterMap Action.functionBody?

/-! ## The regions below a graph -/

mutual

/-- The regions below a graph: every function body in it, at any depth. A body comes before the
    bodies that it holds, and after all that stands behind it. -/
def innerRegions : List Block → List (List Block)
  | [] => []
  | ⟨_, actions, flow⟩ :: bs => innerRegions bs ++ flowRegions flow ++ actionRegions actions

/-- The regions in the clauses of a flow. -/
def flowRegions : Flow → List (List Block)
  | .within body => innerRegions body
  | .protect ⟨body, handler, finalizer⟩ =>
    (match finalizer with
      | some clause => innerRegions clause
      | none => [])
      ++ (match handler with
        | some ⟨_, clause⟩ => innerRegions clause
        | none => [])
      ++ innerRegions body
  | _ => []

/-- The regions that a list of actions defines. -/
def actionRegions : List Action → List (List Block)
  | [] => []
  | .plain _ :: as => actionRegions as
  | .define ⟨_, body⟩ :: as => actionRegions as ++ body :: innerRegions body

end

end Graph

end ActionFlow
