import ActionFlow.Proofs.Clauses
import ActionFlow.Proofs.Framing
import ActionFlow.Proofs.Resolution

/-!
# Plans: what lowering writes, in order

A plan lists everything that lowering writes for a graph, in the order of the bytes, before any
offset is known. It is a function of the graph alone: nesting limits, sizes and unresolved branches
play no part in it. Function bodies, scopes and clauses keep their own lists, so a plan is a tree.

## Main definitions

- `Node`, `Plan`: one thing that is written, and a list of them.
- `Graph.plan`: the plan of a graph.
- `Plan.region`: the region that a plan stands for, with open branches.
- `Plan.Sound`: every record of a plan has an encoding, and every size fits its field.
- `Plan.induction`: induction over a plan and all the plans in it.
- `Plan.region_induction`: what is kept by `++` holds of the region of every plan.
-/

namespace ActionFlow

/-! ## §1 Nodes -/

/-- When a branch is taken. -/
inductive BranchKind where
  | always
  | onTrue
deriving DecidableEq, Repr

namespace BranchKind

/-- The branch record with a given operand. -/
def record : BranchKind → Int16 → Record
  | always => .jump
  | onTrue => .branch

end BranchKind

/-- One thing that lowering writes. -/
inductive Node where
  /-- A block: its actions, and what its flow adds behind them. -/
  | block (block : Block) (actions exit : List Node)
  /-- A record that is written as it is. -/
  | record (r : Record)
  /-- A branch to a label of the same region. -/
  | transfer (kind : BranchKind) (target : Label)
  /-- The header of a function, and its body as a region of its own. -/
  | function (f : Function) (body : List Node)
  /-- The header of a scope, and its body. -/
  | within (body : List Node)
  /-- The header of a try, and its clauses; an absent clause is empty. -/
  | protect (target : Option CatchTarget) (finalized : Bool) (body handler finalizer : List Node)

/-- Nodes in the order in which they are written. -/
abbrev Plan := List Node

/-! ## §2 The plan of a graph -/

namespace Plan

/-- The continuation to `target`, where the next bytes belong to `next`. -/
def continuation (target next : Option Label) : Plan :=
  if target = next then []
  else
    match target with
    | some label => [.transfer .always label]
    | none => [.record .stop]

/-- The record that stands for a flow known to be broken. -/
def brokenRecord : Record := .action (.plain (.raw Code.push [0xff]))

end Plan

namespace Graph

mutual

/-- The plan of a list of blocks, followed by the block labelled `next`. With `tight`, a block that
    ends with a terminal action gets no continuation. -/
def plan (tight : Bool) (next : Option Label) : List Block → List Node
  | [] => []
  | ⟨label, actions, flow⟩ :: rest =>
    .block ⟨label, actions, flow⟩ (actionsPlan tight actions)
        (flowPlan tight ((firstLabel? rest).or next) ⟨label, actions, flow⟩ flow)
      :: plan tight next rest

/-- The plan of a list of actions. -/
def actionsPlan (tight : Bool) : List Action → List Node
  | [] => []
  | .plain i :: rest => .record (.action (.plain i)) :: actionsPlan tight rest
  | .define ⟨header, body⟩ :: rest =>
    .function ⟨header, body⟩ (plan tight none body) :: actionsPlan tight rest

/-- The plan of a flow, the exit of the given block. -/
def flowPlan (tight : Bool) (next : Option Label) (block : Block) : Flow → List Node
  | .simple target =>
    if tight && block.endsTerminal then [] else Plan.continuation target next
  | .branch onTrue onFalse => .transfer .onTrue onTrue :: Plan.continuation onFalse next
  | .leave => [.record (.action (.plain (.op .ret)))]
  | .raise => [.record (.action (.plain (.op .throwValue)))]
  | .broken _ => [.record Plan.brokenRecord]
  | .waitForFrame frame ready loading =>
    [.record (.waitForFrame frame 1), .transfer .always ready, .transfer .always loading]
  | .waitForFrame2 ready loading =>
    [.record (.waitForFrame2 1), .transfer .always ready, .transfer .always loading]
  | .within body => [.within (plan tight next body)]
  | .protect ⟨body, handler, finalizer⟩ =>
    -- Each clause is followed by the first label of the clauses behind it.
    [.protect (handler.map Handler.target) finalizer.isSome
      (plan tight (clauseNext (handler.map Handler.body) (clauseNext finalizer next)) body)
      (match handler with
        | some ⟨_, clause⟩ => plan tight (clauseNext finalizer next) clause
        | none => [])
      (match finalizer with
        | some clause => plan tight next clause
        | none => [])]

end

/-- An absent clause is planned as an empty one. -/
theorem flowPlan_protect (tight : Bool) (next : Option Label) (block : Block) (t : TryScope) :
    flowPlan tight next block (.protect t)
      = [.protect (t.handler.map Handler.target) t.finalizer.isSome
          (plan tight (clauseNext (t.handler.map Handler.body) (clauseNext t.finalizer next)) t.body)
          (plan tight (clauseNext t.finalizer next) t.handlerBlocks)
          (plan tight next t.finalizerBlocks)] := by
  rcases t with ⟨body, _ | ⟨target, clause⟩, _ | finish⟩
  all_goals simp [flowPlan, TryScope.handlerBlocks, TryScope.finalizerBlocks, plan]

theorem firstLabel?_handlerBlocks_or (t : TryScope) (next : Option Label) :
    (firstLabel? t.handlerBlocks).or next = clauseNext (t.handler.map Handler.body) next := by
  rw [TryScope.handlerBlocks, clauseNext]
  cases t.handler.map Handler.body <;> rfl

theorem firstLabel?_finalizerBlocks_or (t : TryScope) (next : Option Label) :
    (firstLabel? t.finalizerBlocks).or next = clauseNext t.finalizer next := by
  rw [TryScope.finalizerBlocks, clauseNext]
  cases t.finalizer <;> rfl

end Graph

/-! ## §3 The region of a plan -/

namespace Node

/-- The record that opens a function body of the given size. -/
def functionHeader (f : Function) (size : Nat) : Record := .function f.header (UInt16.ofNat size)

/-- The record that opens a scope of the given size. -/
def withinHeader (size : Nat) : Record := .within (UInt16.ofNat size)

/-- The record that opens the clauses of a try, given their sizes. -/
def protectHeader (target : Option CatchTarget) (finalized : Bool) (body handler finalizer : Nat) :
    Record :=
  .protect ⟨UInt16.ofNat body, target.map fun t => (t, UInt16.ofNat handler),
    if finalized then some (UInt16.ofNat finalizer) else none⟩

end Node

namespace Plan

mutual

/-- The region of a node. The body of a function is resolved and embedded as plain code. -/
def nodeRegion : Node → Region
  | .block b actions exit => Region.define b.label ++ (region actions ++ region exit)
  | .record r => Region.ofCode r.write.bytes
  | .transfer kind target => Region.branching (kind.record 0).write.bytes target
  | .function f body =>
    Region.ofCode ((Node.functionHeader f (region body).size).write.bytes ++ (region body).sealed)
  | .within body => Region.ofCode (Node.withinHeader (region body).size).write.bytes ++ region body
  | .protect target finalized body handler finalizer =>
    Region.ofCode (Node.protectHeader target finalized (region body).size (region handler).size
        (region finalizer).size).write.bytes
      ++ (region body ++ (region handler ++ region finalizer))

/-- The region of a plan: its nodes one after the other. -/
def region : List Node → Region
  | [] => Region.empty
  | n :: ns => nodeRegion n ++ region ns

end

@[simp] theorem region_append (xs ys : Plan) : region (xs ++ ys) = region xs ++ region ys := by
  induction xs with
  | nil => simp [region]
  | cons n ns ih => rw [List.cons_append, region, region, ih, Region.append_assoc]

/-! ## §4 Sound plans -/

mutual

/-- Nothing in a node stops lowering: records have an encoding, sizes fit their fields, and the
    branches of function bodies can be resolved. Clauses that are absent are empty. -/
def NodeSound : Node → Prop
  | .block _ actions exit => Sound actions ∧ Sound exit
  | .record r => r.write.error? = none
  | .transfer _ _ => True
  | .function f body =>
    Sound body ∧ (region body).Resolvable ∧ (region body).size ≤ 65535
      ∧ (Node.functionHeader f (region body).size).write.error? = none
  | .within body => Sound body ∧ (region body).size ≤ 65535
  | .protect target finalized body handler finalizer =>
    Sound body ∧ Sound handler ∧ Sound finalizer
      ∧ (region body).size ≤ 65535 ∧ (region handler).size ≤ 65535
      ∧ (region finalizer).size ≤ 65535
      ∧ (Node.protectHeader target finalized (region body).size (region handler).size
          (region finalizer).size).write.error? = none
      ∧ (target = none → handler = []) ∧ (finalized = false → finalizer = [])

/-- Nothing in a plan stops lowering. -/
def Sound : List Node → Prop
  | [] => True
  | n :: ns => NodeSound n ∧ Sound ns

end

@[simp] theorem sound_append {xs ys : Plan} : Sound (xs ++ ys) ↔ Sound xs ∧ Sound ys := by
  induction xs with
  | nil => simp [Sound]
  | cons n ns ih => rw [List.cons_append, Sound, Sound, ih, and_assoc]

/-! ## §5 Induction -/

/-- Induction over a plan and all the plans in it. -/
theorem induction {P : List Node → Prop} (nil : P [])
    (block : ∀ b actions exit rest, P actions → P exit → P rest →
      P (.block b actions exit :: rest))
    (record : ∀ r rest, P rest → P (.record r :: rest))
    (transfer : ∀ kind target rest, P rest → P (.transfer kind target :: rest))
    (function : ∀ f body rest, P body → P rest → P (.function f body :: rest))
    (within : ∀ body rest, P body → P rest → P (.within body :: rest))
    (protect : ∀ target finalized body handler finalizer rest, P body → P handler →
      P finalizer → P rest → P (.protect target finalized body handler finalizer :: rest)) :
    ∀ ns, P ns :=
  -- For a node the statement is that it can be put before any plan with the property.
  region.induct (fun n => ∀ rest, P rest → P (n :: rest)) P
    (fun b actions exit ha he rest hr => block b actions exit rest ha he hr)
    record transfer
    (fun f body hb rest hr => function f body rest hb hr)
    (fun body hb rest hr => within body rest hb hr)
    (fun target finalized body handler finalizer hb hh hf rest hr =>
      protect target finalized body handler finalizer rest hb hh hf hr)
    nil (fun _ ns hn hns => hn ns hns)

/-- What holds of plain code, of labels and of branches, and is kept by `++`, holds of the region of
    every plan. -/
theorem region_induction {P : Region → Prop} (empty : P Region.empty)
    (code : ∀ bytes, P (Region.ofCode bytes)) (label : ∀ l, P (Region.define l))
    (transfer : ∀ kind target, P (nodeRegion (.transfer kind target)))
    (append : ∀ a b, P a → P b → P (a ++ b)) (ns : List Node) : P (region ns) := by
  induction ns using induction with
  | nil => exact empty
  | block b actions exit rest actions_ih exit_ih rest_ih =>
    exact append _ _ (append _ _ (label _) (append _ _ actions_ih exit_ih)) rest_ih
  | record r rest rest_ih => exact append _ _ (code _) rest_ih
  | transfer kind target rest rest_ih => exact append _ _ (transfer kind target) rest_ih
  | function f body rest _ rest_ih => exact append _ _ (code _) rest_ih
  | within body rest body_ih rest_ih => exact append _ _ (append _ _ (code _) body_ih) rest_ih
  | protect target finalized body handler finalizer rest body_ih handler_ih finalizer_ih rest_ih =>
    have clauses := append _ _ body_ih (append _ _ handler_ih finalizer_ih)
    exact append _ _ (append _ _ (code _) clauses) rest_ih

/-! ## §6 The region of a plan is tidy -/

theorem tidy_transfer (kind : BranchKind) (target : Label) :
    (nodeRegion (.transfer kind target)).Tidy := by
  apply Region.tidy_branching
  cases kind <;> simp [BranchKind.record, Bytes.length_frame _ (show ¬ Code.jump < 0x80 by decide),
    Bytes.length_frame _ (show ¬ Code.branch < 0x80 by decide)]

theorem tidy_region (ns : Plan) : (region ns).Tidy :=
  region_induction Region.tidy_empty Region.tidy_ofCode Region.tidy_define tidy_transfer
    (fun _ _ => Region.Tidy.append) ns

theorem tidy_nodeRegion (n : Node) : (nodeRegion n).Tidy := by
  simpa [region] using tidy_region [n]

/-! ## §7 The resolved code of a plan -/

/-- Number of bytes of a plan. -/
def size (ns : Plan) : Nat := (region ns).size

/-- The code of a plan at offset `pos` of its region, where `goal` gives the offsets of labels. -/
def code (goal : Option Label → Nat) (pos : Nat) (ns : Plan) : Bytes := (region ns).settle goal pos

/-- The code of a node, likewise. -/
def nodeCode (goal : Option Label → Nat) (pos : Nat) (n : Node) : Bytes :=
  (nodeRegion n).settle goal pos

variable (goal : Option Label → Nat) (pos : Nat)

@[simp] theorem length_code (ns : Plan) : (code goal pos ns).length = size ns :=
  Region.length_settle _ _ _

@[simp] theorem length_nodeCode (n : Node) : (nodeCode goal pos n).length = (nodeRegion n).size :=
  Region.length_settle _ _ _

@[simp] theorem size_nil : size [] = 0 := rfl

@[simp] theorem size_cons (n : Node) (ns : Plan) : size (n :: ns) = (nodeRegion n).size + size ns := by
  simp [size, region]

@[simp] theorem size_append (xs ys : Plan) : size (xs ++ ys) = size xs + size ys := by
  simp [size]

@[simp] theorem code_nil : code goal pos [] = [] := rfl

/-- The nodes of a plan are written one after the other. -/
theorem code_cons (n : Node) (ns : Plan) :
    code goal pos (n :: ns) = nodeCode goal pos n ++ code goal (pos + (nodeRegion n).size) ns :=
  Region.settle_append goal pos (tidy_nodeRegion n) (region ns)

theorem nodeCode_block (b : Block) (actions exit : Plan) :
    nodeCode goal pos (.block b actions exit)
      = code goal pos actions ++ code goal (pos + size actions) exit := by
  rw [nodeCode, nodeRegion, Region.settle_append goal pos (Region.tidy_define _),
    Region.settle_append goal _ (tidy_region actions)]
  rfl

@[simp] theorem nodeCode_record (r : Record) : nodeCode goal pos (.record r) = r.write.bytes := rfl

/-- The operand of a branch counts from the byte after it. -/
theorem nodeCode_transfer (kind : BranchKind) (target : Label) :
    nodeCode goal pos (.transfer kind target) = (kind.record (Int16.ofInt
      ((goal (some target) : Int) - ((pos + 5 : Nat) : Int)))).write.bytes := by
  cases kind <;> rfl

@[simp] theorem nodeCode_function (f : Function) (body : Plan) :
    nodeCode goal pos (.function f body)
      = (Node.functionHeader f (size body)).write.bytes ++ (region body).sealed := rfl

theorem nodeCode_within (body : Plan) :
    nodeCode goal pos (.within body) = (Node.withinHeader (size body)).write.bytes
      ++ code goal (pos + (Node.withinHeader (size body)).write.bytes.length) body := by
  rw [nodeCode, nodeRegion, Region.settle_append goal pos (Region.tidy_ofCode _)]
  rfl

theorem nodeCode_protect (target : Option CatchTarget) (finalized : Bool)
    (body handler finalizer : Plan) :
    let header := (Node.protectHeader target finalized (size body) (size handler)
      (size finalizer)).write.bytes
    nodeCode goal pos (.protect target finalized body handler finalizer)
      = header ++ (code goal (pos + header.length) body
        ++ (code goal (pos + header.length + size body) handler
          ++ code goal (pos + header.length + size body + size handler) finalizer)) := by
  intro header
  rw [nodeCode, nodeRegion, Region.settle_append goal pos (Region.tidy_ofCode _),
    Region.settle_append goal _ (tidy_region body),
    Region.settle_append goal _ (tidy_region handler)]
  rfl

end Plan

end ActionFlow
