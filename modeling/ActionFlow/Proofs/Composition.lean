import ActionFlow.Proofs.Embedding
import ActionFlow.Proofs.Splicing

/-!
# Emission in parts

Emission builds the region of each block from nothing and puts the regions one after the other. Two
things follow. A list of blocks can be cut anywhere: its region is that of the front part, told
which block comes behind it, with that of the back part spliced behind. And the place at which a
block is written does not matter. The latter is said with a second way to emit, which writes into
one growing region and takes every offset from the length that has been reached: it adds the same
bytes, labels and branches behind any region that is there already.

## Main statements

- `emitEach_append`: emission of two lists of blocks, one after the other.
- `Region.Splices`: what it means for a region to be another one with a third one spliced behind.
- `writeBlocks`: emission into a region that is there already.
- `Graph.writtenBehind`: writing behind a region adds what emission builds from nothing.
- `emitBlocks_append`: emission is compositional and does not depend on the place.
-/

namespace ActionFlow

/-! ## §1 Sequences with events -/

namespace Traced

variable {α β γ : Type}

theorem bind_of_ok {x : Traced α} {a : α} (h : x.result = .ok a) (f : α → Traced β) :
    x >>= f = ⟨x.events ++ (f a).events, (f a).result⟩ := by
  show andThen x f = _
  rw [andThen, h]

theorem bind_of_error {x : Traced α} {e : LowerError} (h : x.result = .error e)
    (f : α → Traced β) : x >>= f = ⟨x.events, .error e⟩ := by
  show andThen x f = _
  rw [andThen, h]

theorem bind_pure_self (x : Traced α) : x >>= pure = x := by
  obtain ⟨events, e | a⟩ := x
  · exact bind_of_error rfl pure
  · rw [bind_of_ok rfl pure]
    exact congrArg (Traced.mk · _) (List.append_nil events)

theorem bind_bind (x : Traced α) (f : α → Traced β) (g : β → Traced γ) :
    x >>= f >>= g = x >>= fun a => f a >>= g := by
  cases h : x.result with
  | error e => rw [bind_of_error h, bind_of_error h, bind_of_error rfl]
  | ok a =>
    rw [bind_of_ok h f, bind_of_ok h]
    cases h' : (f a).result with
    | error e => rw [bind_of_error rfl, bind_of_error h']
    | ok b => rw [bind_of_ok rfl, bind_of_ok h', List.append_assoc]

/-- Results with events are sequenced like results: how the steps are grouped does not matter. -/
instance : LawfulMonad Traced :=
  LawfulMonad.mk' Traced bind_pure_self (fun _ f => bind_of_ok rfl f) bind_bind

end Traced

/-! ## §2 Two lists of blocks -/

namespace Region

theorem concat_append (as bs : List Region) : concat (as ++ bs) = concat as ++ concat bs := by
  induction as with
  | nil => simp
  | cons a as ih => rw [List.cons_append, concat_cons, concat_cons, ih, append_assoc]

/-- Offsets in 64 bits make no difference for a tidy region that is shorter than that. -/
theorem Tidy.wrap_eq {r : Region} (tidy : r.Tidy) (short : r.size < offsetCount) : r.wrap = r := by
  apply Bounded.wrap_eq
  constructor
  · intro x hx
    exact Nat.lt_of_le_of_lt (tidy.inside x hx) short
  · intro j hj
    have bound := (tidy.bound j hj).2
    omega

/-- The region `r` is `a` with `b` spliced behind it: the bytes follow each other, the branches of
    `b` come behind those of `a`, all offsets of `b` are moved by the size of `a`, and `b` decides
    about the labels that both define. -/
structure Splices (a b r : Region) : Prop where
  code_eq : r.code = a.code ++ b.code
  offset?_eq : ∀ l, r.offset? l = ((b.offset? l).map (a.size + ·)).or (a.offset? l)
  openJumps_eq : r.openJumps = a.openJumps ++ b.openJumps.map (Jump.shift a.size)
  spliced : r.size < offsetCount → r = a.splice b

theorem Tidy.splices_append {a b : Region} (ha : a.Tidy) (hb : b.Tidy) : Splices a b (a ++ b) where
  code_eq := code_append a b
  offset?_eq := offset?_append a b
  openJumps_eq := by rw [(ha.append hb).openJumps, ha.openJumps, hb.openJumps, jumps_append]
  spliced short := ((ha.append hb).wrap_eq short).symm

end Region

theorem emitEach_cons (o : Options) (depth : Nat) (next : Option Label) (b : Block)
    (rest : List Block) :
    emitEach o depth next (b :: rest) = (do
      let code ← emitActions o depth b.actions
      let exit ← emitFlow o depth ((Graph.firstLabel? rest).or next) b b.flow
      let behind ← emitEach o depth next rest
      pure (Region.define b.label :: Region.ofCode code :: exit :: behind)) := by
  cases b
  rw [emitEach]

/-- Blocks before others are followed by the first of these. -/
theorem emitEach_append (o : Options) (depth : Nat) (next : Option Label) (as bs : List Block) :
    emitEach o depth next (as ++ bs) = (do
      let front ← emitEach o depth ((Graph.firstLabel? bs).or next) as
      let back ← emitEach o depth next bs
      pure (front ++ back)) := by
  induction as with
  | nil => simp [emitEach]
  | cons b as ih =>
    -- What stands behind `b` is the first of `as`, else the first of `bs`, else `next`.
    rw [List.cons_append, emitEach_cons, emitEach_cons, ih, Graph.firstLabel?_append,
      Option.or_assoc]
    simp only [bind_assoc, pure_bind, List.cons_append]

/-! ## §3 Emission into a region -/

namespace Region

/-- The region with plain code behind it. -/
def put (r : Region) (code : Bytes) : Region := { r with code := r.code ++ code }

/-- The region with a label noted at its end. -/
def mark (r : Region) (label : Label) : Region := { r with labels := r.labels ++ [(label, r.size)] }

/-- The region with a branch behind it, whose operand is the last two bytes. -/
def putBranch (r : Region) (kind : BranchKind) (target : Label) : Region :=
  let longer := r.put (kind.record 0).write.bytes
  { longer with jumps := r.jumps ++ [⟨longer.size - 2, some target⟩] }

/-- The region with a continuation to `target` behind it, unless that is where it goes on. -/
def putContinuation (r : Region) (target next : Option Label) : Region :=
  if target = next then r
  else
    match target with
    | some label => r.putBranch .always label
    | none => r.put Record.stop.write.bytes

theorem put_eq (r : Region) (code : Bytes) : r.put code = r ++ ofCode code :=
  (append_ofCode r code).symm

theorem mark_eq (r : Region) (label : Label) : r.mark label = r ++ define label := by
  show _ = append r (define label)
  simp [mark, append, define, shift]

theorem putBranch_eq (r : Region) (kind : BranchKind) (target : Label) :
    r.putBranch kind target = r ++ branching (kind.record 0).write.bytes target := by
  show _ = append r (branching _ target)
  have long : 2 ≤ (kind.record 0).write.bytes.length := by cases kind <;> decide
  simp only [putBranch, put, append, branching, shift, Jump.shift, size, List.length_append,
    Nat.add_sub_assoc long, List.map_nil, List.map_cons, List.append_nil]

theorem putContinuation_eq (r : Region) (target next : Option Label) :
    r.putContinuation target next = r ++ continuation target next := by
  unfold putContinuation continuation
  split
  · exact (append_empty r).symm
  · cases target with
    | none => exact put_eq r _
    | some label => exact putBranch_eq r .always label

end Region

mutual

/-- Writes blocks behind the region `r`: every label and every branch is noted at the length that
    has been reached. Clauses and bodies get a region of their own first. -/
def writeBlocks (o : Options) (depth : Nat) (next : Option Label) (r : Region) :
    List Block → Traced Region
  | [] => pure r
  | ⟨label, actions, flow⟩ :: rest => do
    let r ← writeActions o depth (r.mark label) actions
    let r ← writeFlow o depth ((Graph.firstLabel? rest).or next) ⟨label, actions, flow⟩ r flow
    writeBlocks o depth next r rest

/-- Writes actions behind the region `r`. -/
def writeActions (o : Options) (depth : Nat) (r : Region) : List Action → Traced Region
  | [] => pure r
  | .plain i :: rest => do
    let code ← (Record.action (.plain i)).encode
    writeActions o depth (r.put code) rest
  | .define ⟨header, body⟩ :: rest => do
    checkDepth o depth
    let region ← writeBlocks o (depth + 1) none Region.empty body
    let bodyCode ← region.finish false
    let size ← sizeWord "function body" bodyCode.length
    let code ← (Record.function header size).encode
    writeActions o depth ((r.put code).put bodyCode) rest

/-- Writes the exit of the given block behind the region `r`. -/
def writeFlow (o : Options) (depth : Nat) (next : Option Label) (block : Block) (r : Region) :
    Flow → Traced Region
  | .simple target =>
    if o.suppressUnreachableTail && block.endsTerminal then do
      Traced.note (.tailSuppressed block.label)
      pure r
    else
      pure (r.putContinuation target next)
  | .branch onTrue onFalse => pure ((r.putBranch .onTrue onTrue).putContinuation onFalse next)
  | .leave => do
    let code ← (Record.action (.plain (.op .ret))).encode
    pure (r.put code)
  | .raise => do
    let code ← (Record.action (.plain (.op .throwValue))).encode
    pure (r.put code)
  | .broken _ => pure (r.put Record.brokenFlow)
  | .waitForFrame frame ready loading => do
    let code ← (Record.waitForFrame frame 1).encode
    pure (((r.put code).putBranch .always ready).putBranch .always loading)
  | .waitForFrame2 ready loading => do
    let code ← (Record.waitForFrame2 1).encode
    pure (((r.put code).putBranch .always ready).putBranch .always loading)
  | .within body => do
    checkDepth o depth
    let region ← writeBlocks o (depth + 1) next Region.empty body
    let size ← sizeWord "with body" region.size
    let code ← (Record.within size).encode
    pure (r.put code ++ region)
  | .protect ⟨body, handler, finalizer⟩ => do
    let handlerNext := clauseNext finalizer next
    checkDepth o depth
    let bodyRegion ← writeBlocks o (depth + 1) (clauseNext (handler.map Handler.body) handlerNext)
      Region.empty body
    let handlerRegion ← match handler with
      | some ⟨target, clause⟩ => do
        checkDepth o depth
        let region ← writeBlocks o (depth + 1) handlerNext Region.empty clause
        pure (some (target, region))
      | none => pure none
    let finalizerRegion ← match finalizer with
      | some clause => do
        checkDepth o depth
        let region ← writeBlocks o (depth + 1) next Region.empty clause
        pure (some region)
      | none => pure none
    let bodySize ← sizeWord "try clause" bodyRegion.size
    let handlerSize ← handlerRegion.mapM fun (target, region) => do
      let size ← sizeWord "catch clause" region.size
      pure (target, size)
    let finalizerSize ← finalizerRegion.mapM fun region => sizeWord "finally clause" region.size
    let code ← (Record.protect ⟨bodySize, handlerSize, finalizerSize⟩).encode
    -- The clauses are spliced one after the other, each at the length that has been reached.
    let r := r.put code ++ bodyRegion
    let r := r ++ (handlerRegion.map Prod.snd).getD Region.empty
    pure (r ++ finalizerRegion.getD Region.empty)

end

/-! ## §4 The place does not matter -/

namespace Graph

/-- Writing the blocks behind a region adds the region that emission builds from nothing. -/
def WrittenBehind (o : Options) (g : Graph) : Prop :=
  ∀ depth next r, writeBlocks o depth next r g
    = emitBlocks o depth next g >>= fun own => pure (r ++ own)

variable {o : Options}

/-- From nothing, both ways to emit build the same region. -/
theorem WrittenBehind.from_empty {g : Graph} (h : WrittenBehind o g) (depth : Nat)
    (next : Option Label) :
    writeBlocks o depth next Region.empty g = emitBlocks o depth next g := by
  rw [h]
  simp only [Region.empty_append, bind_pure]

theorem writeActions_eq {actions : List Action}
    (bodies : ∀ f, Action.define f ∈ actions → WrittenBehind o f.body) (depth : Nat) (r : Region) :
    writeActions o depth r actions
      = emitActions o depth actions >>= fun code => pure (r.put code) := by
  induction actions generalizing r with
  | nil => simp [writeActions, emitActions, Region.put]
  | cons a rest ih =>
    have behind := ih fun f hf => bodies f (List.mem_cons_of_mem _ hf)
    rcases a with i | ⟨header, body⟩
    · rw [writeActions, emitActions]
      simp only [behind, bind_assoc, pure_bind, Region.put, List.append_assoc]
    · have own := bodies ⟨header, body⟩ List.mem_cons_self
      rw [writeActions, emitActions, own.from_empty, emitBlocks]
      simp only [behind, bind_assoc, pure_bind, Region.put, List.append_assoc]

theorem writeFlow_eq {flow : Flow} (clauses : ∀ c ∈ flow.clauses, WrittenBehind o c) (depth : Nat)
    (next : Option Label) (block : Block) (r : Region) :
    writeFlow o depth next block r flow
      = emitFlow o depth next block flow >>= fun exit => pure (r ++ exit) := by
  cases flow with
  | simple target =>
    rw [writeFlow, emitFlow, Region.putContinuation_eq]
    split
    · simp
    · simp
  | branch onTrue onFalse =>
    rw [writeFlow, emitFlow, Region.putContinuation_eq, Region.putBranch_eq, Region.append_assoc,
      pure_bind]
    rfl
  | leave | raise | broken => simp [writeFlow, emitFlow, Region.put_eq]
  | waitForFrame | waitForFrame2 =>
    simp [writeFlow, emitFlow, jumpPair, Region.put_eq, Region.putBranch_eq, Region.append_assoc,
      BranchKind.record]
  | within body =>
    have own := clauses body (by simp [Flow.clauses])
    rw [writeFlow, emitFlow, own.from_empty, emitBlocks]
    simp only [bind_assoc, pure_bind, Region.put_eq, Region.append_assoc]
  | protect t =>
    obtain ⟨body, handler, finalizer⟩ := t
    have from_empty : ∀ c ∈ (Flow.protect ⟨body, handler, finalizer⟩).clauses, ∀ depth next,
        writeBlocks o depth next Region.empty c = emitBlocks o depth next c :=
      fun c hc => (clauses c hc).from_empty
    obtain ⟨in_body, in_handler, in_finalizer⟩ := Flow.forall_clauses_protect from_empty
    -- Each clause is emitted from nothing by both, so only the splicing is left to compare.
    rcases handler with _ | ⟨target, clause⟩ <;> rcases finalizer with _ | finish
    all_goals
      simp only [Option.mem_def, Option.some.injEq, forall_eq', reduceCtorEq, false_imp_iff]
        at in_handler in_finalizer
      rw [writeFlow, emitFlow]
      simp only [in_body, in_handler, in_finalizer, emitBlocks, bind_assoc, pure_bind,
        Region.put_eq, Region.append_assoc, Region.concat_cons, Region.concat_nil,
        Region.append_empty]

/-- Wherever a graph is written, emission adds the same region. -/
theorem writtenBehind (o : Options) (g : Graph) : WrittenBehind o g := by
  induction g using induction with
  | nil =>
    intro depth next r
    simp [writeBlocks, emitBlocks, emitEach]
  | cons label actions flow rest bodies_ih clauses_ih rest_ih =>
    intro depth next r
    rw [writeBlocks, writeActions_eq bodies_ih, emitBlocks, emitEach]
    -- Each part starts where the part before it has ended, and adds its own region there.
    simp only [writeFlow_eq clauses_ih, rest_ih depth next, emitBlocks, bind_assoc, pure_bind,
      Region.concat_cons, Region.mark_eq, Region.put_eq, Region.append_assoc]

end Graph

/-! ## §5 Emission in parts -/

theorem tidy_of_emitBlocks {o : Options} {depth : Nat} {next : Option Label} {g : Graph}
    {r : Region} (emitted : (emitBlocks o depth next g).result = .ok r) : r.Tidy := by
  obtain ⟨-, -, rfl⟩ := (emitBlocks_eq_ok_iff o depth next g r).mp emitted
  exact Plan.tidy_region _

/-- Emission is compositional and does not depend on the place. Two lists of blocks are emitted,
    with the same outcome and the same events, by emitting the first one before the first block of
    the second, then the second one, and splicing the two. And blocks that are written behind any
    region add to it what they are when emitted from nothing. -/
theorem emitBlocks_append (o : Options) (depth : Nat) (next : Option Label) (as bs : List Block) :
    emitBlocks o depth next (as ++ bs) = (do
        let a ← emitBlocks o depth ((Graph.firstLabel? bs).or next) as
        let b ← emitBlocks o depth next bs
        pure (a ++ b))
      ∧ (∀ a b, (emitBlocks o depth ((Graph.firstLabel? bs).or next) as).result = .ok a →
          (emitBlocks o depth next bs).result = .ok b → Region.Splices a b (a ++ b))
      ∧ ∀ r, writeBlocks o depth next r bs = (do
          let own ← emitBlocks o depth next bs
          pure (r ++ own)) := by
  refine ⟨?_, ?_, ?_⟩
  · simp only [emitBlocks, emitEach_append, Region.concat_append, bind_assoc, pure_bind]
  · intro a b emitted_a emitted_b
    exact (tidy_of_emitBlocks emitted_a).splices_append (tidy_of_emitBlocks emitted_b)
  · exact Graph.writtenBehind o bs depth next

/-- A block that may go on at a block behind it. -/
def forwardBranch : Graph := [⟨⟨"a"⟩, [.plain (.op .pop)], .branch ⟨"b"⟩ none⟩]

/-- A scope whose block has the label of a block before it and goes back to the scope. -/
def scopedLoop : Graph := [⟨⟨"b"⟩, [], .within [⟨⟨"a"⟩, [], .simple (some ⟨"b"⟩)⟩]⟩]

theorem forwardBranch_append_scopedLoop : ∃ a b,
    (emitBlocks {} 0 (some ⟨"b"⟩) forwardBranch).result = .ok a
      ∧ (emitBlocks {} 0 none scopedLoop).result = .ok b
      ∧ (emitBlocks {} 0 none (forwardBranch ++ scopedLoop)).result = .ok (a ++ b)
      ∧ (writeBlocks {} 0 none a scopedLoop).result = .ok (a ++ b)
      ∧ (a ++ b).offset? ⟨"a"⟩ = some 12
      ∧ (a ++ b).openJumps = [⟨4, some ⟨"b"⟩⟩, ⟨15, some ⟨"b"⟩⟩] := by
  have front : (emitBlocks {} 0 (some ⟨"b"⟩) forwardBranch).result
      = .ok ⟨[0x17, 0x9d, 2, 0, 0, 0, 0], [(⟨"a"⟩, 0)], [⟨4, some ⟨"b"⟩⟩]⟩ := by
    decide +kernel
  have back : (emitBlocks {} 0 none scopedLoop).result
      = .ok ⟨[0x94, 2, 0, 5, 0, 0x99, 2, 0, 0, 0], [(⟨"b"⟩, 0), (⟨"a"⟩, 5)],
        [⟨8, some ⟨"b"⟩⟩]⟩ := by
    decide +kernel
  obtain ⟨in_parts, splices, behind⟩ := emitBlocks_append {} 0 none forwardBranch scopedLoop
  have next_eq : (Graph.firstLabel? scopedLoop).or none = some ⟨"b"⟩ := rfl
  rw [next_eq] at in_parts splices
  have spliced := splices _ _ front back
  refine ⟨_, _, front, back, ?_, ?_, ?_, ?_⟩
  · rw [in_parts, Traced.result_bind, front, ok_bind, Traced.result_bind, back]
    rfl
  · rw [behind, Traced.result_bind, back]
    rfl
  · rw [spliced.offset?_eq]
    rfl
  · rw [spliced.openJumps_eq]
    rfl

end ActionFlow
