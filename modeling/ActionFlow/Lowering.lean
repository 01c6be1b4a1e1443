import ActionFlow.Record
import ActionFlow.Region.Patch
import ActionFlow.Validation

/-!
# Lowering graphs to code

Lowering writes a region block after block with open branches, and resolves the branches once the
layout is final. The body of a function is resolved on its own and embedded as plain bytes; the
clauses of a try and the body of a scope become part of the region that holds them.

A block whose continuation is the block written next needs no jump to it: *next* below is the label
at which the bytes after a block start, if that is known.

## Main definitions

- `Options`: what the caller can choose.
- `Traced`: a result with the events on the way to it.
- `emitBlocks` and its companions: the region of a list of blocks.
- `Region.finish`: the final code of a region.
- `lowerRegion`, `lower`: the code of a graph.
-/

namespace ActionFlow

/-- What the caller of lowering can choose. -/
structure Options where
  /-- End the code with a stop action. -/
  appendTerminator : Bool := true
  /-- Write no continuation after an action that is taken to leave its block. -/
  suppressUnreachableTail : Bool := false
  /-- Check that labels are unique before lowering. -/
  validate : Bool := false
  /-- How deep clauses, scopes and function bodies may be nested. -/
  maxDepth : Nat := 256
deriving DecidableEq, Repr, Inhabited

/-- What happens during lowering. -/
inductive Event where
  | patched (patch : Patch)
  | finished (blocks bytes jumps : Nat)
  | tailSuppressed (label : Label)
deriving DecidableEq, Repr

/-! ## Results with events -/

/-- A result together with the events before it. -/
structure Traced (α : Type) where
  events : List Event
  result : Except LowerError α

namespace Traced

/-- A result without events. -/
def ofExcept {α : Type} (r : Except LowerError α) : Traced α := ⟨[], r⟩

/-- Records an event. -/
def note (e : Event) : Traced Unit := ⟨[e], .ok ()⟩

/-- Goes on with a result; the events of both parts are kept in order. -/
def andThen {α β : Type} (x : Traced α) (f : α → Traced β) : Traced β :=
  match x.result with
  | .error e => ⟨x.events, .error e⟩
  | .ok a =>
    let y := f a
    ⟨x.events ++ y.events, y.result⟩

instance : Monad Traced where
  pure a := ⟨[], .ok a⟩
  bind := andThen

instance : MonadLift (Except LowerError) Traced := ⟨ofExcept⟩

@[simp] theorem result_pure {α : Type} (a : α) : (pure a : Traced α).result = .ok a := rfl

@[simp] theorem result_ofExcept {α : Type} (r : Except LowerError α) : (ofExcept r).result = r :=
  rfl

/-- The result of a sequence depends on the results of its parts alone. -/
@[simp] theorem result_bind {α β : Type} (x : Traced α) (f : α → Traced β) :
    (x >>= f).result = x.result >>= fun a => (f a).result := by
  show (andThen x f).result = _
  unfold andThen
  cases x.result <;> rfl

end Traced

/-! ## Finishing a region -/

namespace Region

/-- The final code of a region: an optional stop action at its end, and all branches resolved.
    A branch without a label reaches the end of the region, before the stop action. -/
def finish (terminate : Bool) (r : Region) : Traced Bytes :=
  let code := if terminate then r.code ++ Record.stop.write.bytes else r.code
  let (ps, fault) := r.patches r.size
  match fault with
  | some e => ⟨ps.map .patched, .error e⟩
  | none =>
    ⟨ps.map .patched ++ [.finished r.definedLabels.length code.length ps.length],
      .ok (Patch.applyAll ps code)⟩

end Region

/-! ## Emitting blocks -/

/-- The continuation to `target`: nothing if that is where the next bytes belong, else a jump, or a
    stop action when there is no target. -/
def continuation (target next : Option Label) : Region :=
  if target = next then Region.empty
  else
    match target with
    | some label => Region.branching (Record.jump 0).write.bytes label
    | none => Region.ofCode Record.stop.write.bytes

/-- Two jumps, which are always written: a wait action skips exactly one action. -/
def jumpPair (ready loading : Label) : Region :=
  Region.branching (Record.jump 0).write.bytes ready
    ++ Region.branching (Record.jump 0).write.bytes loading

/-- Refuses to go one level deeper than the limit. -/
def checkDepth (o : Options) (depth : Nat) : Except LowerError Unit :=
  if depth < o.maxDepth then .ok () else .error (.nestingTooDeep o.maxDepth)

/-- The label at which the bytes after a clause start: the first label of the clauses behind it,
    else what follows them all. -/
def clauseNext (behind : Option (List Block)) (next : Option Label) : Option Label :=
  (behind.bind Graph.firstLabel?).or next

mutual

/-- The regions that make up a list of blocks, at a given depth, followed by the block labelled
    `next`. -/
def emitEach (o : Options) (depth : Nat) (next : Option Label) : List Block → Traced (List Region)
  | [] => pure []
  | ⟨label, actions, flow⟩ :: rest => do
    let code ← emitActions o depth actions
    -- The next bytes belong to the block behind, or to what follows the whole list.
    let exit ← emitFlow o depth ((Graph.firstLabel? rest).or next) ⟨label, actions, flow⟩ flow
    let behind ← emitEach o depth next rest
    pure (Region.define label :: Region.ofCode code :: exit :: behind)

/-- The code of a list of actions. A function body is finished and follows its header. -/
def emitActions (o : Options) (depth : Nat) : List Action → Traced Bytes
  | [] => pure []
  | .plain i :: rest => do
    let code ← (Record.action (.plain i)).encode
    let behind ← emitActions o depth rest
    pure (code ++ behind)
  | .define ⟨header, body⟩ :: rest => do
    checkDepth o depth
    -- A body has its own labels: nothing outside of it is reached from inside.
    let blocks ← emitEach o (depth + 1) none body
    let bodyCode ← (Region.concat blocks).finish false
    let size ← sizeWord "function body" bodyCode.length
    let code ← (Record.function header size).encode
    let behind ← emitActions o depth rest
    pure (code ++ (bodyCode ++ behind))

/-- The region of a flow, the exit of the given block. -/
def emitFlow (o : Options) (depth : Nat) (next : Option Label) (block : Block) :
    Flow → Traced Region
  | .simple target =>
    if o.suppressUnreachableTail && block.endsTerminal then do
      Traced.note (.tailSuppressed block.label)
      pure Region.empty
    else
      pure (continuation target next)
  | .branch onTrue onFalse =>
    pure (Region.branching (Record.branch 0).write.bytes onTrue ++ continuation onFalse next)
  | .leave => do
    let code ← (Record.action (.plain (.op .ret))).encode
    pure (Region.ofCode code)
  | .raise => do
    let code ← (Record.action (.plain (.op .throwValue))).encode
    pure (Region.ofCode code)
  | .broken _ => pure (Region.ofCode Record.brokenFlow)
  | .waitForFrame frame ready loading => do
    let code ← (Record.waitForFrame frame 1).encode
    pure (Region.ofCode code ++ jumpPair ready loading)
  | .waitForFrame2 ready loading => do
    let code ← (Record.waitForFrame2 1).encode
    pure (Region.ofCode code ++ jumpPair ready loading)
  | .within body => do
    checkDepth o depth
    -- The end of the scope is the end of the block, so both are followed by the same bytes.
    let blocks ← emitEach o (depth + 1) next body
    let region := Region.concat blocks
    let size ← sizeWord "with body" region.size
    let code ← (Record.within size).encode
    pure (Region.ofCode code ++ region)
  | .protect ⟨body, handler, finalizer⟩ => do
    let handlerNext := clauseNext finalizer next
    let bodyNext := clauseNext (handler.map Handler.body) handlerNext
    checkDepth o depth
    let blocks ← emitEach o (depth + 1) bodyNext body
    let bodyRegion := Region.concat blocks
    let handlerRegion ← match handler with
      | some ⟨target, clause⟩ => do
        checkDepth o depth
        let blocks ← emitEach o (depth + 1) handlerNext clause
        pure (some (target, Region.concat blocks))
      | none => pure none
    let finalizerRegion ← match finalizer with
      | some clause => do
        checkDepth o depth
        let blocks ← emitEach o (depth + 1) next clause
        pure (some (Region.concat blocks))
      | none => pure none
    -- Sizes are checked when all clauses are there.
    let bodySize ← sizeWord "try clause" bodyRegion.size
    let handlerSize ← handlerRegion.mapM fun (target, region) => do
      let size ← sizeWord "catch clause" region.size
      pure (target, size)
    let finalizerSize ← finalizerRegion.mapM fun region => sizeWord "finally clause" region.size
    let code ← (Record.protect ⟨bodySize, handlerSize, finalizerSize⟩).encode
    pure (Region.concat [Region.ofCode code, bodyRegion,
      (handlerRegion.map Prod.snd).getD Region.empty, finalizerRegion.getD Region.empty])

end

/-- The region of a list of blocks, at a given depth, followed by the block labelled `next`. -/
def emitBlocks (o : Options) (depth : Nat) (next : Option Label) (blocks : List Block) :
    Traced Region := do
  let regions ← emitEach o depth next blocks
  pure (Region.concat regions)

@[simp] theorem result_emitBlocks_nil (o : Options) (depth : Nat) (next : Option Label) :
    (emitBlocks o depth next []).result = .ok Region.empty := by
  simp only [emitBlocks, emitEach, Traced.result_bind, Traced.result_pure]
  rfl

/-- The region of a list of blocks is the region of the first one, with that of the others
    behind it. -/
theorem result_emitBlocks_cons (o : Options) (depth : Nat) (next : Option Label) (label : Label)
    (actions : List Action) (flow : Flow) (rest : List Block) :
    (emitBlocks o depth next (⟨label, actions, flow⟩ :: rest)).result = (do
      let code ← (emitActions o depth actions).result
      let exit ← (emitFlow o depth ((Graph.firstLabel? rest).or next) ⟨label, actions, flow⟩
        flow).result
      let behind ← (emitBlocks o depth next rest).result
      pure (Region.define label ++ (Region.ofCode code ++ (exit ++ behind)))) := by
  simp only [emitBlocks, emitEach, Traced.result_bind, Traced.result_pure]
  cases (emitActions o depth actions).result with
  | error e => rfl
  | ok code =>
    cases (emitFlow o depth ((Graph.firstLabel? rest).or next) ⟨label, actions, flow⟩ flow).result with
    | error e => rfl
    | ok exit =>
      cases (emitEach o depth next rest).result with
      | error e => rfl
      | ok regions =>
        show Except.ok _ = Except.ok _
        simp

/-! ## Lowering -/

/-- The code of a graph as a region of its own, without the check of its labels. -/
def lowerRegionTraced (g : Graph) (terminate : Bool) (o : Options) : Traced Bytes := do
  let region ← emitBlocks o 0 none g
  region.finish terminate

/-- The code of a graph, with the check of its labels if the options ask for it. -/
def lowerTraced (g : Graph) (o : Options) : Traced Bytes := do
  if o.validate then
    g.validate
  lowerRegionTraced g o.appendTerminator o

/-- The code of a graph as a region of its own. -/
def lowerRegion (g : Graph) (terminate : Bool) (o : Options) : Except LowerError Bytes :=
  (lowerRegionTraced g terminate o).result

/-- The code of a graph. -/
def lower (g : Graph) (o : Options) : Except LowerError Bytes :=
  (lowerTraced g o).result

end ActionFlow
