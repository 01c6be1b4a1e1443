import ActionFlow.Proofs.Plan

/-!
# Lowering follows the plan

Lowering a graph can fail in many places: nesting, sizes, encodings, branches. When it succeeds,
the result is the region of the plan; and it succeeds exactly when the graph is not nested too
deeply and its plan is sound. What is proved about plans is thereby proved about lowering.

## Main statements

- `Graph.nesting`: how deep the clauses, scopes and function bodies of a graph are nested.
- `result_emitFlow_protect` and its companions: emission without its events.
- `emitBlocks_eq_ok_iff`: emission succeeds exactly on sound plans, with their regions.
- `lowerRegion_eq_ok_iff`: the code of a graph is the resolved code of its plan.
-/

namespace ActionFlow

/-! ## §1 Results -/

/-- Results are compared by what they hold, so that runs can be evaluated. -/
instance decidableEqExcept {ε α : Type} [DecidableEq ε] [DecidableEq α] :
    DecidableEq (Except ε α)
  | .ok a, .ok b => decidable_of_iff (a = b) ⟨congrArg _, Except.ok.inj⟩
  | .error e, .error e' => decidable_of_iff (e = e') ⟨congrArg _, Except.error.inj⟩
  | .ok _, .error _ => isFalse nofun
  | .error _, .ok _ => isFalse nofun

@[simp] theorem ok_bind {ε α β : Type} (a : α) (f : α → Except ε β) :
    (Except.ok a >>= f) = f a := rfl

/-- A sequence succeeds when both of its parts do. -/
theorem bind_eq_ok_iff {ε α β : Type} {x : Except ε α} {f : α → Except ε β} {b : β} :
    x >>= f = .ok b ↔ ∃ a, x = .ok a ∧ f a = .ok b := by
  cases x with
  | error e => simp [bind, Except.bind]
  | ok a => simp

theorem map_eq_ok_iff {ε α β : Type} {x : Except ε α} {f : α → β} {b : β} :
    f <$> x = .ok b ↔ ∃ a, x = .ok a ∧ b = f a := by
  cases x with
  | error e => simp [Functor.map, Except.map]
  | ok a => simp [Functor.map, Except.map, eq_comm]

theorem pure_eq_ok_iff {ε α : Type} {a b : α} : (pure a : Except ε α) = .ok b ↔ b = a := by
  simp [pure, Except.pure, eq_comm]

namespace Traced

@[simp] theorem result_liftM {α : Type} (r : Except LowerError α) :
    (liftM r : Traced α).result = r := rfl

@[simp] theorem result_map {α β : Type} (f : α → β) (x : Traced α) :
    (f <$> x).result = f <$> x.result := by
  show (x >>= fun a => pure (f a)).result = _
  rw [result_bind]
  cases x.result <;> rfl

end Traced

theorem sizeWord_eq_ok_iff {what : String} {size : Nat} {w : UInt16} :
    sizeWord what size = .ok w ↔ size ≤ 65535 ∧ w = UInt16.ofNat size := by
  unfold sizeWord
  by_cases h : size ≤ 65535
  · simp [h, eq_comm]
  · simp [h]

theorem checkDepth_eq_ok_iff {o : Options} {depth : Nat} {u : Unit} :
    checkDepth o depth = .ok u ↔ depth < o.maxDepth := by
  unfold checkDepth
  split <;> simp_all

theorem Record.encode_eq_ok_iff {r : Record} {bytes : Bytes} :
    r.encode = .ok bytes ↔ r.write.error? = none ∧ bytes = r.write.bytes := by
  unfold encode
  obtain ⟨written, error?⟩ := r.write
  cases error? <;> simp [eq_comm]

/-! ## §2 Emission without events -/

/-- The region of blocks one level deeper. -/
def emitNested (o : Options) (depth : Nat) (next : Option Label) (blocks : List Block) :
    Except LowerError Region := do
  checkDepth o depth
  (emitBlocks o (depth + 1) next blocks).result

theorem bind_emitEach {β : Type} (o : Options) (depth : Nat) (next : Option Label)
    (blocks : List Block) (f : Region → Except LowerError β) :
    ((emitEach o depth next blocks).result >>= fun regions => f (Region.concat regions))
      = (emitBlocks o depth next blocks).result >>= f := by
  rw [emitBlocks, Traced.result_bind]
  cases (emitEach o depth next blocks).result <;> rfl

theorem bind_emitNested {β : Type} (o : Options) (depth : Nat) (next : Option Label)
    (blocks : List Block) (f : Region → Except LowerError β) :
    emitNested o depth next blocks >>= f
      = (checkDepth o depth >>= fun _ => (emitEach o (depth + 1) next blocks).result >>= fun regions =>
        f (Region.concat regions)) := by
  simp only [emitNested, bind_emitEach, bind_assoc]

theorem result_emitActions_plain (o : Options) (depth : Nat) (i : Instruction)
    (rest : List Action) :
    (emitActions o depth (.plain i :: rest)).result = (do
      let code ← (Record.action (.plain i)).encode
      let behind ← (emitActions o depth rest).result
      pure (code ++ behind)) := by
  rw [emitActions]
  simp only [Traced.result_bind, Traced.result_pure, Traced.result_liftM]
  rfl

theorem result_emitActions_define (o : Options) (depth : Nat) (header : FunctionHeader)
    (body : List Block) (rest : List Action) :
    (emitActions o depth (.define ⟨header, body⟩ :: rest)).result = (do
      let region ← emitNested o depth none body
      let bodyCode ← (region.finish false).result
      let size ← sizeWord "function body" bodyCode.length
      let code ← (Record.function header size).encode
      let behind ← (emitActions o depth rest).result
      pure (code ++ (bodyCode ++ behind))) := by
  rw [emitActions, bind_emitNested]
  simp only [Traced.result_bind, Traced.result_pure, Traced.result_liftM]
  rfl

theorem result_emitFlow_within (o : Options) (depth : Nat) (next : Option Label) (block : Block)
    (body : List Block) :
    (emitFlow o depth next block (.within body)).result = (do
      let region ← emitNested o depth next body
      let size ← sizeWord "with body" region.size
      let code ← (Record.within size).encode
      pure (Region.ofCode code ++ region)) := by
  rw [emitFlow, bind_emitNested]
  simp only [Traced.result_bind, Traced.result_pure, Traced.result_liftM]
  rfl

theorem result_emitFlow_protect (o : Options) (depth : Nat) (next : Option Label) (block : Block)
    (body : List Block) (handler : Option Handler) (finalizer : Option (List Block)) :
    (emitFlow o depth next block (.protect ⟨body, handler, finalizer⟩)).result = (do
      let handlerNext := clauseNext finalizer next
      let bodyRegion ← emitNested o depth (clauseNext (handler.map Handler.body) handlerNext) body
      let handlerRegion ← handler.mapM fun h => do
        let region ← emitNested o depth handlerNext h.body
        pure (h.target, region)
      let finalizerRegion ← finalizer.mapM (emitNested o depth next)
      let bodySize ← sizeWord "try clause" bodyRegion.size
      let handlerSize ← handlerRegion.mapM fun (target, region) => do
        let size ← sizeWord "catch clause" region.size
        pure (target, size)
      let finalizerSize ← finalizerRegion.mapM fun region => sizeWord "finally clause" region.size
      let code ← (Record.protect ⟨bodySize, handlerSize, finalizerSize⟩).encode
      pure (Region.ofCode code ++ (bodyRegion ++ ((handlerRegion.map Prod.snd).getD Region.empty
        ++ finalizerRegion.getD Region.empty)))) := by
  rw [emitFlow]
  rcases handler with _ | ⟨target, clause⟩ <;> rcases finalizer with _ | finish
  all_goals
    simp [bind_emitNested, Option.mapM_none, Option.mapM_some]
    rfl

/-! ## §3 Nesting -/

namespace Graph

mutual

/-- How deep the clauses, scopes and function bodies in a list of blocks are nested. -/
def nesting : List Block → Nat
  | [] => 0
  | ⟨_, actions, flow⟩ :: rest =>
    max (max (actionsNesting actions) (flowNesting flow)) (nesting rest)

/-- How deep the function bodies in a list of actions are nested. -/
def actionsNesting : List Action → Nat
  | [] => 0
  | .plain _ :: rest => actionsNesting rest
  | .define ⟨_, body⟩ :: rest => max (nesting body + 1) (actionsNesting rest)

/-- How deep the clauses of a flow are nested; an empty clause counts. -/
def flowNesting : Flow → Nat
  | .within body => nesting body + 1
  | .protect ⟨body, handler, finalizer⟩ =>
    max (nesting body + 1)
      (max
        (match handler with
          | some ⟨_, clause⟩ => nesting clause + 1
          | none => 0)
        (match finalizer with
          | some clause => nesting clause + 1
          | none => 0))
  | _ => 0

end

theorem flowNesting_protect (body : List Block) (handler : Option Handler)
    (finalizer : Option (List Block)) :
    flowNesting (.protect ⟨body, handler, finalizer⟩) = max (nesting body + 1)
      (max (handler.elim 0 fun h => nesting h.body + 1)
        (finalizer.elim 0 fun clause => nesting clause + 1)) := by
  rcases handler with _ | ⟨target, clause⟩ <;> rcases finalizer with _ | finish
  all_goals simp [flowNesting]

theorem nesting_lt_of_define {f : Function} {actions : List Action}
    (h : Action.define f ∈ actions) : nesting f.body < actionsNesting actions := by
  induction actions with
  | nil => simp at h
  | cons a rest ih =>
    rcases List.mem_cons.mp h with rfl | h
    · obtain ⟨header, body⟩ := f
      rw [actionsNesting]
      show nesting body < _
      omega
    · have behind := ih h
      rcases a with i | ⟨header, body⟩ <;> rw [actionsNesting] <;> omega

theorem nesting_le_of_mem_clauses {c : List Block} {flow : Flow} (h : c ∈ flow.clauses) :
    nesting c ≤ flowNesting flow := by
  cases flow with
  | within body =>
    obtain rfl : c = body := by simpa [Flow.clauses] using h
    rw [flowNesting]
    omega
  | protect t =>
    obtain ⟨body, handler, finalizer⟩ := t
    rw [flowNesting_protect]
    simp only [Flow.clauses, List.mem_cons, List.not_mem_nil, or_false] at h
    rcases h with rfl | rfl | rfl
    · omega
    · cases handler with
      | none => simp [TryScope.handlerBlocks, nesting]
      | some h =>
        show nesting h.body ≤ _
        rw [Option.elim_some]
        omega
    · cases finalizer with
      | none => simp [TryScope.finalizerBlocks, nesting]
      | some clause =>
        show nesting clause ≤ _
        rw [Option.elim_some]
        omega
  | _ => simp [Flow.clauses] at h

/-- A function body is not nested more deeply than the graph around it. -/
theorem nesting_le_of_mem_innerRegions {g r : Graph} (h : r ∈ innerRegions g) :
    nesting r ≤ nesting g := by
  induction g using induction with
  | nil => simp [innerRegions] at h
  | cons label actions flow rest bodies_ih clauses_ih rest_ih =>
    simp only [innerRegions, flowRegions_eq_flatMap, List.mem_append, List.mem_flatMap,
      List.mem_reverse, mem_actionRegions, regions, List.mem_cons] at h
    rw [nesting]
    rcases h with (h | ⟨c, hc, h⟩) | ⟨f, hf, h⟩
    · have := rest_ih h
      omega
    · have := clauses_ih c hc h
      have := nesting_le_of_mem_clauses hc
      omega
    · have := nesting_lt_of_define hf
      rcases h with rfl | h
      · omega
      · have := bodies_ih f hf h
        omega

theorem actionsNesting_le_of_mem_layout {g : Graph} {b : Block} (h : b ∈ layout g) :
    actionsNesting b.actions ≤ nesting g := by
  induction g using induction with
  | nil => simp [layout] at h
  | cons label actions flow rest _ clauses_ih rest_ih =>
    simp only [layout, flowLayout_eq_flatMap, List.mem_append, List.mem_cons, List.mem_flatMap] at h
    rw [nesting]
    rcases h with rfl | ⟨c, hc, h⟩ | h
    · simp only
      omega
    · have := clauses_ih c hc h
      have := nesting_le_of_mem_clauses hc
      omega
    · have := rest_ih h
      omega

end Graph

/-! ## §4 Emission follows the plan -/

namespace Plan

/-- The outcome `r` of writing a plan when `room` levels of nesting are left. -/
def Written (room nesting : Nat) (ns : Plan) (r : Region) : Prop :=
  nesting ≤ room ∧ Sound ns ∧ r = region ns

/-- Actions leave neither labels nor open branches. -/
theorem region_actionsPlan (tight : Bool) (actions : List Action) :
    region (Graph.actionsPlan tight actions)
      = Region.ofCode (region (Graph.actionsPlan tight actions)).code := by
  induction actions with
  | nil => rfl
  | cons a rest ih =>
    rcases a with i | ⟨header, body⟩
    all_goals
      simp only [Graph.actionsPlan, region, nodeRegion]
      rw [ih, ← Region.ofCode_append]
      rfl

theorem region_continuation (target next : Option Label) :
    region (continuation target next) = ActionFlow.continuation target next := by
  unfold ActionFlow.continuation continuation
  split
  · rfl
  · cases target <;> simp [region, nodeRegion, BranchKind.record]

theorem sound_continuation (target next : Option Label) : Sound (continuation target next) := by
  unfold continuation
  split
  · trivial
  · cases target <;> simp [Sound, NodeSound]

theorem write_brokenRecord : brokenRecord.write = ⟨Record.brokenFlow, none⟩ := by decide

end Plan

/-- Emission of the blocks succeeds exactly when their plan is sound and within the nesting limit,
    with the region of the plan. -/
def FollowsPlan (o : Options) (depth : Nat) (blocks : List Block) : Prop :=
  ∀ next r, (emitBlocks o depth next blocks).result = .ok r ↔
    Plan.Written (o.maxDepth - depth) (Graph.nesting blocks)
      (Graph.plan o.suppressUnreachableTail next blocks) r

theorem FollowsPlan.emitNested_eq_ok_iff {o : Options} {depth : Nat} {blocks : List Block}
    (h : FollowsPlan o (depth + 1) blocks) (next : Option Label) (r : Region) :
    emitNested o depth next blocks = .ok r ↔
      Plan.Written (o.maxDepth - depth) (Graph.nesting blocks + 1)
        (Graph.plan o.suppressUnreachableTail next blocks) r := by
  simp only [emitNested, bind_eq_ok_iff, checkDepth_eq_ok_iff, exists_const, h next r, Plan.Written]
  constructor
  · rintro ⟨deeper, fits, sound⟩
    exact ⟨by omega, sound⟩
  · rintro ⟨fits, sound⟩
    exact ⟨by omega, by omega, sound⟩

theorem emitFlow_within_eq_ok_iff {o : Options} {depth : Nat} {body : List Block}
    (hb : FollowsPlan o (depth + 1) body) (next : Option Label) (block : Block) (r : Region) :
    (emitFlow o depth next block (.within body)).result = .ok r ↔
      Plan.Written (o.maxDepth - depth) (Graph.flowNesting (.within body))
        (Graph.flowPlan o.suppressUnreachableTail next block (.within body)) r := by
  rw [result_emitFlow_within]
  simp only [bind_eq_ok_iff, pure_eq_ok_iff, sizeWord_eq_ok_iff, Record.encode_eq_ok_iff,
    hb.emitNested_eq_ok_iff]
  simp only [Plan.Written, Graph.flowPlan, Graph.flowNesting, Plan.Sound, Plan.NodeSound,
    Plan.region, Plan.nodeRegion, Node.withinHeader, Record.write_within, and_assoc,
    exists_and_left, exists_eq_left, Region.append_empty, and_true, true_and]

theorem emitFlow_protect_eq_ok_iff {o : Options} {depth : Nat} {body : List Block}
    {handler : Option Handler} {finalizer : Option (List Block)}
    (hb : FollowsPlan o (depth + 1) body)
    (hh : ∀ h ∈ handler, FollowsPlan o (depth + 1) h.body)
    (hf : ∀ clause ∈ finalizer, FollowsPlan o (depth + 1) clause)
    (next : Option Label) (block : Block) (r : Region) :
    (emitFlow o depth next block (.protect ⟨body, handler, finalizer⟩)).result = .ok r ↔
      Plan.Written (o.maxDepth - depth) (Graph.flowNesting (.protect ⟨body, handler, finalizer⟩))
        (Graph.flowPlan o.suppressUnreachableTail next block
          (.protect ⟨body, handler, finalizer⟩)) r := by
  rw [result_emitFlow_protect]
  rcases handler with _ | ⟨target, clause⟩ <;> rcases finalizer with _ | finish
  all_goals
    simp only [Option.mem_def, Option.some.injEq, forall_eq', reduceCtorEq, false_imp_iff] at hh hf
    simp only [bind_eq_ok_iff, hb.emitNested_eq_ok_iff, FollowsPlan.emitNested_eq_ok_iff, hh, hf,
      Plan.Written, Option.mapM_none, Option.mapM_some, pure_bind, map_eq_ok_iff, pure_eq_ok_iff,
      sizeWord_eq_ok_iff, Record.encode_eq_ok_iff, and_assoc, exists_and_left, exists_eq_left]
    simp only [Graph.flowPlan, Graph.flowNesting, Plan.Sound, Plan.NodeSound, Plan.region,
      Plan.nodeRegion, Node.protectHeader, Nat.max_le, and_assoc, Option.map_none, Option.map_some,
      Option.isSome_none, Option.isSome_some, Option.getD_none, Option.getD_some,
      Region.append_empty, Region.size_empty, if_true, Bool.false_eq_true, if_false]
    grind

mutual

/-- Emission succeeds exactly on sound plans within the nesting limit, with the region of the
    plan. -/
theorem emitBlocks_eq_ok_iff (o : Options) (depth : Nat) (next : Option Label) :
    ∀ (blocks : List Block) (r : Region), (emitBlocks o depth next blocks).result = .ok r ↔
      Plan.Written (o.maxDepth - depth) (Graph.nesting blocks)
        (Graph.plan o.suppressUnreachableTail next blocks) r
  | [], r => by
    simp [Graph.nesting, Graph.plan, Plan.Written, Plan.Sound, Plan.region, eq_comm]
  | ⟨label, actions, flow⟩ :: rest, r => by
    rw [result_emitBlocks_cons]
    simp only [bind_eq_ok_iff, pure_eq_ok_iff, emitActions_eq_ok_iff o depth actions,
      emitFlow_eq_ok_iff o depth _ _ flow, emitBlocks_eq_ok_iff o depth next rest]
    simp only [Plan.Written, Graph.nesting, Graph.plan, Plan.Sound, Plan.NodeSound, Plan.region,
      Plan.nodeRegion, and_assoc, exists_and_left, exists_eq_left, Nat.max_le,
      ← Plan.region_actionsPlan, Region.append_assoc]
    grind

/-- The code of actions is that of their plan. -/
theorem emitActions_eq_ok_iff (o : Options) (depth : Nat) :
    ∀ (actions : List Action) (code : Bytes), (emitActions o depth actions).result = .ok code ↔
      Graph.actionsNesting actions ≤ o.maxDepth - depth
        ∧ Plan.Sound (Graph.actionsPlan o.suppressUnreachableTail actions)
        ∧ code = (Plan.region (Graph.actionsPlan o.suppressUnreachableTail actions)).code
  | [], code => by
    simp [emitActions, Graph.actionsNesting, Graph.actionsPlan, Plan.Sound, Plan.region,
      Region.empty, eq_comm]
  | .plain i :: rest, code => by
    rw [result_emitActions_plain]
    simp only [bind_eq_ok_iff, pure_eq_ok_iff, Record.encode_eq_ok_iff,
      emitActions_eq_ok_iff o depth rest]
    simp only [Graph.actionsPlan, Graph.actionsNesting, Plan.Sound, Plan.NodeSound, Plan.region,
      Plan.nodeRegion, and_assoc, exists_and_left, exists_eq_left, Region.code_append,
      Region.ofCode]
    grind
  | .define ⟨header, body⟩ :: rest, code => by
    rw [result_emitActions_define]
    simp only [bind_eq_ok_iff, pure_eq_ok_iff, Record.encode_eq_ok_iff, sizeWord_eq_ok_iff,
      FollowsPlan.emitNested_eq_ok_iff fun next => emitBlocks_eq_ok_iff o (depth + 1) next body,
      emitActions_eq_ok_iff o depth rest]
    simp only [Graph.actionsPlan, Graph.actionsNesting, Plan.Written, Plan.Sound, Plan.NodeSound,
      Plan.region, Plan.nodeRegion, Node.functionHeader, and_assoc, exists_and_left,
      exists_eq_left, (Plan.tidy_region _).finish_eq_ok_iff, Region.terminator,
      Region.length_sealed, Region.code_append, Region.ofCode, List.append_nil, Bool.false_eq_true,
      if_false, Nat.max_le]
    grind

/-- The region of a flow is that of its plan. -/
theorem emitFlow_eq_ok_iff (o : Options) (depth : Nat) (next : Option Label) (block : Block) :
    ∀ (flow : Flow) (r : Region), (emitFlow o depth next block flow).result = .ok r ↔
      Plan.Written (o.maxDepth - depth) (Graph.flowNesting flow)
        (Graph.flowPlan o.suppressUnreachableTail next block flow) r
  | .simple target, r => by
    simp only [emitFlow, Graph.flowPlan, Graph.flowNesting]
    split
    · simp [Plan.Written, Plan.Sound, Plan.region, Traced.note, eq_comm]
    · simp [Plan.Written, Plan.region_continuation, Plan.sound_continuation, eq_comm]
  | .branch onTrue onFalse, r => by
    simp [emitFlow, Graph.flowPlan, Graph.flowNesting, Plan.Written, Plan.Sound, Plan.NodeSound,
      Plan.region, Plan.nodeRegion, BranchKind.record, Plan.region_continuation,
      Plan.sound_continuation, eq_comm]
  | .leave, r => by
    simp only [emitFlow, Traced.result_bind, Traced.result_liftM, Traced.result_pure,
      bind_eq_ok_iff, Record.encode_eq_ok_iff, Except.ok.injEq, and_assoc, exists_and_left,
      exists_eq_left]
    simp [Graph.flowPlan, Graph.flowNesting, Plan.Written, Plan.Sound, Plan.NodeSound, Plan.region,
      Plan.nodeRegion, eq_comm]
  | .raise, r => by
    simp only [emitFlow, Traced.result_bind, Traced.result_liftM, Traced.result_pure,
      bind_eq_ok_iff, Record.encode_eq_ok_iff, Except.ok.injEq, and_assoc, exists_and_left,
      exists_eq_left]
    simp [Graph.flowPlan, Graph.flowNesting, Plan.Written, Plan.Sound, Plan.NodeSound, Plan.region,
      Plan.nodeRegion, eq_comm]
  | .broken note, r => by
    simp [emitFlow, Graph.flowPlan, Graph.flowNesting, Plan.Written, Plan.Sound, Plan.NodeSound,
      Plan.region, Plan.nodeRegion, Plan.write_brokenRecord, eq_comm]
  | .waitForFrame frame ready loading, r => by
    simp only [emitFlow, Traced.result_bind, Traced.result_liftM, Traced.result_pure,
      bind_eq_ok_iff, Record.encode_eq_ok_iff, Except.ok.injEq]
    simp [Graph.flowPlan, Graph.flowNesting, Plan.Written, Plan.Sound, Plan.NodeSound, Plan.region,
      Plan.nodeRegion, BranchKind.record, jumpPair, eq_comm]
  | .waitForFrame2 ready loading, r => by
    simp only [emitFlow, Traced.result_bind, Traced.result_liftM, Traced.result_pure,
      bind_eq_ok_iff, Record.encode_eq_ok_iff, Except.ok.injEq]
    simp [Graph.flowPlan, Graph.flowNesting, Plan.Written, Plan.Sound, Plan.NodeSound, Plan.region,
      Plan.nodeRegion, BranchKind.record, jumpPair, eq_comm]
  | .within body, r =>
    emitFlow_within_eq_ok_iff (fun next => emitBlocks_eq_ok_iff o (depth + 1) next body) next block r
  | .protect ⟨body, handler, finalizer⟩, r => by
    have hh : ∀ h ∈ handler, FollowsPlan o (depth + 1) h.body := by
      rcases handler with _ | ⟨target, clause⟩
      · simp
      · simp only [Option.mem_def, Option.some.injEq, forall_eq']
        exact fun next => emitBlocks_eq_ok_iff o (depth + 1) next clause
    have hf : ∀ clause ∈ finalizer, FollowsPlan o (depth + 1) clause := by
      rcases finalizer with _ | clause
      · simp
      · simp only [Option.mem_def, Option.some.injEq, forall_eq']
        exact fun next => emitBlocks_eq_ok_iff o (depth + 1) next clause
    exact emitFlow_protect_eq_ok_iff (fun next => emitBlocks_eq_ok_iff o (depth + 1) next body)
      hh hf next block r

end

/-! ## §5 Lowering follows the plan -/

/-- The code of a graph is the resolved code of its plan, and a graph has code exactly when it is
    not nested too deeply, its plan is sound, and its branches can be resolved. -/
theorem lowerRegion_eq_ok_iff {g : Graph} {terminate : Bool} {o : Options} {code : Bytes} :
    lowerRegion g terminate o = .ok code ↔
      Graph.nesting g ≤ o.maxDepth
        ∧ Plan.Sound (Graph.plan o.suppressUnreachableTail none g)
        ∧ (Plan.region (Graph.plan o.suppressUnreachableTail none g)).Resolvable
        ∧ code = (Plan.region (Graph.plan o.suppressUnreachableTail none g)).sealed
            ++ Region.terminator terminate := by
  rw [lowerRegion, lowerRegionTraced, Traced.result_bind, bind_eq_ok_iff]
  constructor
  · rintro ⟨r, hr, hcode⟩
    obtain ⟨fits, sound, rfl⟩ := (emitBlocks_eq_ok_iff o 0 none g r).mp hr
    exact ⟨fits, sound, (Plan.tidy_region _).finish_eq_ok_iff.mp hcode⟩
  · rintro ⟨fits, sound, hcode⟩
    exact ⟨_, (emitBlocks_eq_ok_iff o 0 none g _).mpr ⟨fits, sound, rfl⟩,
      (Plan.tidy_region _).finish_eq_ok_iff.mpr hcode⟩

end ActionFlow
