import ActionFlow.Proofs.Emission

/-!
# Laid out plans

The code of a graph is its plan laid out from offset 0 of its region. Every statement about the
final code is proved along the layout: what stands at an offset, and that what follows stands right
behind it. `Laid` is that argument as an inductive predicate. It also says of every record,
branch and header what made lowering accept it.

## Main statements

- `Plan.Laid`: a plan can stand at an offset of a region.
- `Plan.laid_of_lowerRegion`: the plan of a graph that has code is laid out in that code.
- `Graph.code_not_mem_of_avoidsRaw`: only raw actions can have the codes that lowering itself uses.
-/

namespace ActionFlow

/-! ## §1 Sizes -/

namespace BranchKind

/-- The code byte of a branch. -/
def code : BranchKind → UInt8
  | always => Code.jump
  | onTrue => Code.branch

@[simp] theorem code_record (kind : BranchKind) (d : Int16) : (kind.record d).code = kind.code := by
  cases kind <;> rfl

theorem not_code_lt (kind : BranchKind) : ¬ kind.code < 0x80 := by
  cases kind <;> decide

@[simp] theorem write_record (kind : BranchKind) (d : Int16) :
    (kind.record d).write = ⟨Bytes.frame kind.code (Bytes.ofInt16 d), none⟩ := by
  cases kind <;> simp [record, code]

theorem isBranchCode_code (kind : BranchKind) : isBranchCode kind.code = true := by
  cases kind <;> decide

theorem frameable (kind : BranchKind) (d : Int16) : Frameable kind.code (Bytes.ofInt16 d) :=
  ⟨fun h => absurd h kind.not_code_lt, by simp⟩

end BranchKind

theorem Node.encodable_withinHeader (size : Nat) : (withinHeader size).write.error? = none := by
  rw [withinHeader, Record.write_within]

namespace Plan

@[simp] theorem size_block (b : Block) (actions exit : Plan) :
    (nodeRegion (.block b actions exit)).size = size actions + size exit := by
  simp [nodeRegion, size]

@[simp] theorem size_record (r : Record) :
    (nodeRegion (.record r)).size = r.write.bytes.length := by
  simp [nodeRegion]

@[simp] theorem size_transfer (kind : BranchKind) (target : Label) :
    (nodeRegion (.transfer kind target)).size = 5 := by
  simp [nodeRegion, Region.branching, Region.size, Bytes.length_frame _ kind.not_code_lt]

@[simp] theorem size_function (f : Function) (body : Plan) :
    (nodeRegion (.function f body)).size
      = (Node.functionHeader f (size body)).write.bytes.length + size body := by
  simp [nodeRegion, size]

@[simp] theorem size_within (body : Plan) :
    (nodeRegion (.within body)).size
      = (Node.withinHeader (size body)).write.bytes.length + size body := by
  simp [nodeRegion, size]

@[simp] theorem size_protect (target : Option CatchTarget) (finalized : Bool)
    (body handler finalizer : Plan) :
    (nodeRegion (.protect target finalized body handler finalizer)).size
      = (Node.protectHeader target finalized (size body) (size handler)
          (size finalizer)).write.bytes.length + (size body + (size handler + size finalizer)) := by
  simp [nodeRegion, size]

end Plan

/-! ## §2 Branches in reach -/

namespace Region

/-- Every branch of `r`, which stands at offset `pos` of `w`, reaches its target there. -/
def AllReach (w : Region) (pos : Nat) (r : Region) : Prop :=
  ∀ j ∈ r.jumps, w.Reaches (pos + j.site) j.target

theorem allReach_append {w : Region} {pos : Nat} {a b : Region} :
    w.AllReach pos (a ++ b) ↔ w.AllReach pos a ∧ w.AllReach (pos + a.size) b := by
  simp only [AllReach, jumps_append, List.mem_append, List.mem_map]
  constructor
  · intro h
    refine ⟨fun j hj => h j (.inl hj), fun j hj => ?_⟩
    simpa [Jump.shift, Nat.add_assoc] using h (j.shift a.size) (.inr ⟨j, hj, rfl⟩)
  · rintro ⟨ha, hb⟩ j (hj | ⟨k, hk, rfl⟩)
    · exact ha j hj
    · simpa [Jump.shift, Nat.add_assoc] using hb k hk

theorem Tidy.allReach_self {r : Region} (h : r.Tidy) (hr : r.Resolvable) : r.AllReach 0 r := by
  intro j hj
  rw [Nat.zero_add]
  exact h.resolvable_iff.mp hr j hj

end Region

/-! ## §3 Records of a plan -/

namespace Plan

mutual

/-- The records of a node that are written as they are. -/
def nodeRecords : Node → List Record
  | .block _ actions exit => records actions ++ records exit
  | .record r => [r]
  | .transfer _ _ => []
  | .function _ body => records body
  | .within body => records body
  | .protect _ _ body handler finalizer => records body ++ (records handler ++ records finalizer)

/-- The records of a plan that are written as they are, function bodies included. -/
def records : List Node → List Record
  | [] => []
  | n :: ns => nodeRecords n ++ records ns

end

/-! ## §4 Layout -/

/-- The plan can stand at an offset of the region `w`: its records have an encoding and satisfy
    `p`, its branches reach their targets in `w`, and the sizes of its parts fit their fields. The
    body of a function is laid out in its own region. -/
inductive Laid (p : Record → Prop) : Region → Nat → Plan → Prop where
  | nil {w : Region} {pos : Nat} : Laid p w pos []
  | block {w : Region} {pos : Nat} {b : Block} {actions exit rest : Plan}
      (actions_laid : Laid p w pos actions)
      (exit_laid : Laid p w (pos + size actions) exit)
      (rest_laid : Laid p w (pos + (size actions + size exit)) rest) :
      Laid p w pos (.block b actions exit :: rest)
  | record {w : Region} {pos : Nat} {r : Record} {rest : Plan}
      (encodable : r.write.error? = none) (allowed : p r)
      (rest_laid : Laid p w (pos + r.write.bytes.length) rest) :
      Laid p w pos (.record r :: rest)
  | transfer {w : Region} {pos : Nat} {kind : BranchKind} {target : Label} {rest : Plan}
      (reach : w.Reaches (pos + 3) (some target))
      (rest_laid : Laid p w (pos + 5) rest) :
      Laid p w pos (.transfer kind target :: rest)
  | function {w : Region} {pos : Nat} {f : Function} {body rest : Plan}
      (body_laid : Laid p (region body) 0 body)
      (resolvable : (region body).Resolvable) (fits : size body ≤ 65535)
      (encodable : (Node.functionHeader f (size body)).write.error? = none)
      (rest_laid : Laid p w
        (pos + ((Node.functionHeader f (size body)).write.bytes.length + size body)) rest) :
      Laid p w pos (.function f body :: rest)
  | within {w : Region} {pos : Nat} {body rest : Plan}
      (body_laid : Laid p w (pos + (Node.withinHeader (size body)).write.bytes.length) body)
      (fits : size body ≤ 65535)
      (rest_laid : Laid p w
        (pos + ((Node.withinHeader (size body)).write.bytes.length + size body)) rest) :
      Laid p w pos (.within body :: rest)
  | protect {w : Region} {pos : Nat} {target : Option CatchTarget} {finalized : Bool}
      {body handler finalizer rest : Plan} {header : Record}
      (header_eq : header
        = Node.protectHeader target finalized (size body) (size handler) (size finalizer))
      (body_laid : Laid p w (pos + header.write.bytes.length) body)
      (handler_laid : Laid p w (pos + header.write.bytes.length + size body) handler)
      (finalizer_laid :
        Laid p w (pos + header.write.bytes.length + size body + size handler) finalizer)
      (body_fits : size body ≤ 65535) (handler_fits : size handler ≤ 65535)
      (finalizer_fits : size finalizer ≤ 65535)
      (encodable : header.write.error? = none)
      (handler_absent : target = none → handler = [])
      (finalizer_absent : finalized = false → finalizer = [])
      (rest_laid : Laid p w (pos + (header.write.bytes.length
        + (size body + (size handler + size finalizer)))) rest) :
      Laid p w pos (.protect target finalized body handler finalizer :: rest)

/-- The branch at `pos` of a region is read as a branch to the offset of its label, counted from the
    start of the region. -/
theorem targetOf_transfer {w : Region} {pos : Nat} {target : Label} (kind : BranchKind)
    (reach : w.Reaches (pos + 3) (some target)) (base : Nat) :
    targetOf (base + pos) kind.code
        (Bytes.ofInt16 (Int16.ofInt ((w.goal (some target) : Int) - ((pos + 5 : Nat) : Int))))
      = .ok ((w.offset? target).map (base + ·)) := by
  obtain ⟨offset, defined⟩ := Option.isSome_iff_exists.mp reach.defined
  have goal_eq : w.goal (some target) = offset := by rw [Region.goal, defined]; rfl
  have distance := reach.close.toInt_distance
  rw [goal_eq] at distance ⊢
  have reached := branchTarget_ofInt16 (show ((base + pos + 5 : Nat) : Int)
    + (Int16.ofInt ((offset : Int) - ((pos + 5 : Nat) : Int))).toInt = ((base + offset : Nat) : Int) by
      rw [distance]; omega)
  rw [targetOf, if_pos kind.isBranchCode_code, reached, show w.offset? target = some offset from defined]
  rfl

theorem allReach_cons {w : Region} {pos : Nat} {n : Node} {ns : Plan} :
    w.AllReach pos (region (n :: ns)) ↔
      w.AllReach pos (nodeRegion n) ∧ w.AllReach (pos + (nodeRegion n).size) (region ns) := by
  rw [region, Region.allReach_append]

theorem reaches_of_allReach {w : Region} {pos : Nat} {kind : BranchKind} {target : Label}
    (h : w.AllReach pos (nodeRegion (.transfer kind target))) :
    w.Reaches (pos + 3) (some target) := by
  apply h ⟨3, some target⟩
  simp [nodeRegion, Region.branching, Bytes.length_frame _ kind.not_code_lt]

theorem laid_of_sound {p : Record → Prop} {w : Region} {pos : Nat} {ns : Plan} (sound : Sound ns)
    (reach : w.AllReach pos (region ns)) (allowed : ∀ r ∈ records ns, p r) : Laid p w pos ns := by
  induction ns using induction generalizing w pos with
  | nil => exact .nil
  | block b actions exit rest actions_ih exit_ih rest_ih =>
    simp only [records, nodeRecords, List.mem_append, or_imp, forall_and] at allowed
    rw [allReach_cons, nodeRegion, Region.allReach_append, Region.allReach_append] at reach
    obtain ⟨⟨sound_actions, sound_exit⟩, sound_rest⟩ := sound
    obtain ⟨⟨-, reach_actions, reach_exit⟩, reach_rest⟩ := reach
    rw [← nodeRegion, size_block] at reach_rest
    exact .block (actions_ih sound_actions reach_actions allowed.1.1)
      (exit_ih sound_exit reach_exit allowed.1.2) (rest_ih sound_rest reach_rest allowed.2)
  | record r rest rest_ih =>
    simp only [records, nodeRecords, List.mem_append, List.mem_singleton, or_imp, forall_and,
      forall_eq] at allowed
    rw [allReach_cons, size_record] at reach
    exact .record sound.1 allowed.1 (rest_ih sound.2 reach.2 allowed.2)
  | transfer kind target rest rest_ih =>
    rw [allReach_cons, size_transfer] at reach
    exact .transfer (reaches_of_allReach reach.1) (rest_ih sound.2 reach.2 allowed)
  | function f body rest body_ih rest_ih =>
    simp only [records, nodeRecords, List.mem_append, or_imp, forall_and] at allowed
    rw [allReach_cons, size_function] at reach
    obtain ⟨⟨sound_body, resolvable, fits, encodable⟩, sound_rest⟩ := sound
    -- The branches of a body are resolved in the body itself.
    have reach_body := (tidy_region body).allReach_self resolvable
    exact .function (body_ih sound_body reach_body allowed.1) resolvable fits encodable
      (rest_ih sound_rest reach.2 allowed.2)
  | within body rest body_ih rest_ih =>
    simp only [records, nodeRecords, List.mem_append, or_imp, forall_and] at allowed
    rw [allReach_cons, size_within, nodeRegion, Region.allReach_append] at reach
    obtain ⟨⟨sound_body, fits⟩, sound_rest⟩ := sound
    obtain ⟨⟨-, reach_body⟩, reach_rest⟩ := reach
    exact .within (body_ih sound_body reach_body allowed.1) fits
      (rest_ih sound_rest reach_rest allowed.2)
  | protect target finalized body handler finalizer rest body_ih handler_ih finalizer_ih rest_ih =>
    simp only [records, nodeRecords, List.mem_append, or_imp, forall_and] at allowed
    rw [allReach_cons, size_protect, nodeRegion, Region.allReach_append, Region.allReach_append,
      Region.allReach_append] at reach
    obtain ⟨⟨sound_body, sound_handler, sound_finalizer, body_fits, handler_fits, finalizer_fits,
      encodable, handler_absent, finalizer_absent⟩, sound_rest⟩ := sound
    obtain ⟨⟨-, reach_body, reach_handler, reach_finalizer⟩, reach_rest⟩ := reach
    exact .protect rfl (body_ih sound_body reach_body allowed.1.1)
      (handler_ih sound_handler reach_handler allowed.1.2.1)
      (finalizer_ih sound_finalizer reach_finalizer allowed.1.2.2)
      body_fits handler_fits finalizer_fits encodable handler_absent finalizer_absent
      (rest_ih sound_rest reach_rest allowed.2)

theorem sound_of_laid {p : Record → Prop} {w : Region} {pos : Nat} {ns : Plan}
    (laid : Laid p w pos ns) : Sound ns := by
  induction laid with
  | nil => trivial
  | block _ _ _ actions_ih exit_ih rest_ih => exact ⟨⟨actions_ih, exit_ih⟩, rest_ih⟩
  | record encodable _ _ rest_ih => exact ⟨encodable, rest_ih⟩
  | transfer _ _ rest_ih => exact ⟨trivial, rest_ih⟩
  | function _ resolvable fits encodable _ body_ih rest_ih =>
    exact ⟨⟨body_ih, resolvable, fits, encodable⟩, rest_ih⟩
  | within _ fits _ body_ih rest_ih => exact ⟨⟨body_ih, fits⟩, rest_ih⟩
  | protect header_eq _ _ _ body_fits handler_fits finalizer_fits encodable handler_absent
      finalizer_absent _ body_ih handler_ih finalizer_ih rest_ih =>
    subst header_eq
    exact ⟨⟨body_ih, handler_ih, finalizer_ih, body_fits, handler_fits, finalizer_fits, encodable,
      handler_absent, finalizer_absent⟩, rest_ih⟩

/-- The plan of a graph that has code is laid out in that code. -/
theorem laid_of_lowerRegion {p : Record → Prop} {g : Graph} {terminate : Bool} {o : Options}
    {bytes : Bytes} (lowered : lowerRegion g terminate o = .ok bytes)
    (allowed : ∀ r ∈ records (Graph.plan o.suppressUnreachableTail none g), p r) :
    let ns := Graph.plan o.suppressUnreachableTail none g
    Laid p (region ns) 0 ns
      ∧ bytes = code (region ns).goal 0 ns ++ Region.terminator terminate := by
  obtain ⟨-, sound, resolvable, rfl⟩ := lowerRegion_eq_ok_iff.mp lowered
  have tidy := tidy_region (Graph.plan o.suppressUnreachableTail none g)
  refine ⟨laid_of_sound sound (tidy.allReach_self resolvable) allowed, ?_⟩
  rw [tidy.sealed_eq_settle resolvable, code]

end Plan

/-! ## §5 Codes -/

/-- The codes with which lowering writes control flow and headers. -/
def Code.reserved : List UInt8 :=
  [Code.jump, Code.branch, Code.within, Code.protect, Code.defineFunction, Code.defineFunction2]

/-- Of all instructions only raw ones can have a reserved code. -/
theorem Instruction.eq_raw_of_mem_reserved {i : Instruction} (h : i.code ∈ Code.reserved) :
    ∃ data, i = .raw i.code data := by
  cases i with
  | raw code data => exact ⟨data, rfl⟩
  | op o => exact absurd h (by cases o <;> decide)
  | constantPool pool => exact absurd h (by decide : Code.constantPool ∉ Code.reserved)
  | error note => exact absurd h (by decide : Code.error ∉ Code.reserved)
  | getUrl url target => exact absurd h (by decide : Code.getUrl ∉ Code.reserved)
  | getUrl2 method loadTarget loadVariables =>
    exact absurd h (by decide : Code.getUrl2 ∉ Code.reserved)
  | gotoFrame frame => exact absurd h (by decide : Code.gotoFrame ∉ Code.reserved)
  | gotoFrame2 play sceneBias => exact absurd h (by decide : Code.gotoFrame2 ∉ Code.reserved)
  | gotoLabel label => exact absurd h (by decide : Code.gotoLabel ∉ Code.reserved)
  | push values => exact absurd h (by decide : Code.push ∉ Code.reserved)
  | setTarget name => exact absurd h (by decide : Code.setTarget ∉ Code.reserved)
  | storeRegister index => exact absurd h (by decide : Code.storeRegister ∉ Code.reserved)
  | strictMode strict => exact absurd h (by decide : Code.strictMode ∉ Code.reserved)

/-- The code of an action that is given by its code and payload. -/
def Action.rawCode? : Action → Option UInt8
  | plain (.raw code _) => some code
  | _ => none

namespace Graph

/-- No raw action anywhere in the graph has one of the given codes. -/
def AvoidsRaw (codes : List UInt8) (g : Graph) : Prop :=
  ∀ b ∈ everyBlock g, ∀ a ∈ b.actions, ∀ code ∈ a.rawCode?, code ∉ codes

instance (codes : List UInt8) (g : Graph) : Decidable (AvoidsRaw codes g) :=
  inferInstanceAs (Decidable (∀ b ∈ everyBlock g, ∀ a ∈ b.actions, ∀ code ∈ a.rawCode?,
    code ∉ codes))

/-- The records that lowering itself writes as they are satisfy `p`. -/
structure AllowsControl (p : Record → Prop) : Prop where
  stop : p .stop
  leave : p (.action (.plain (.op .ret)))
  raise : p (.action (.plain (.op .throwValue)))
  broken : p Plan.brokenRecord
  waitForFrame (frame : UInt16) : p (.waitForFrame frame 1)
  waitForFrame2 : p (.waitForFrame2 1)

theorem forall_records_continuation {p : Record → Prop} (control : AllowsControl p)
    (target next : Option Label) : ∀ r ∈ Plan.records (Plan.continuation target next), p r := by
  unfold Plan.continuation
  split
  · simp [Plan.records]
  · cases target <;> simp [Plan.records, Plan.nodeRecords, control.stop]

theorem forall_records_actionsPlan {p : Record → Prop} {tight : Bool} {actions : List Action}
    (own : ∀ i, Action.plain i ∈ actions → p (.action (.plain i)))
    (bodies : ∀ f, Action.define f ∈ actions → ∀ r ∈ Plan.records (plan tight none f.body), p r) :
    ∀ r ∈ Plan.records (actionsPlan tight actions), p r := by
  induction actions with
  | nil => simp [actionsPlan, Plan.records]
  | cons a rest ih =>
    have behind := ih (fun i hi => own i (List.mem_cons_of_mem _ hi))
      (fun f hf => bodies f (List.mem_cons_of_mem _ hf))
    rcases a with i | ⟨header, body⟩
    · have first := own i List.mem_cons_self
      simpa [actionsPlan, Plan.records, Plan.nodeRecords] using ⟨first, behind⟩
    · have first := bodies ⟨header, body⟩ List.mem_cons_self
      simpa only [actionsPlan, Plan.records, Plan.nodeRecords, List.mem_append, or_imp, forall_and]
        using ⟨first, behind⟩

theorem forall_records_flowPlan {p : Record → Prop} (control : AllowsControl p) {tight : Bool}
    {flow : Flow}
    (clauses : ∀ c ∈ flow.clauses, ∀ next, ∀ r ∈ Plan.records (plan tight next c), p r)
    (next : Option Label) (block : Block) :
    ∀ r ∈ Plan.records (flowPlan tight next block flow), p r := by
  cases flow with
  | simple target =>
    rw [flowPlan]
    split
    · simp [Plan.records]
    · exact forall_records_continuation control target next
  | branch onTrue onFalse =>
    simpa [flowPlan, Plan.records, Plan.nodeRecords]
      using forall_records_continuation control onFalse next
  | leave => simp [flowPlan, Plan.records, Plan.nodeRecords, control.leave]
  | raise => simp [flowPlan, Plan.records, Plan.nodeRecords, control.raise]
  | broken note => simp [flowPlan, Plan.records, Plan.nodeRecords, control.broken]
  | waitForFrame frame ready loading =>
    simp [flowPlan, Plan.records, Plan.nodeRecords, control.waitForFrame]
  | waitForFrame2 ready loading =>
    simp [flowPlan, Plan.records, Plan.nodeRecords, control.waitForFrame2]
  | within body =>
    simpa [flowPlan, Plan.records, Plan.nodeRecords]
      using clauses body (by simp [Flow.clauses]) next
  | protect t =>
    simp only [flowPlan_protect, Plan.records, Plan.nodeRecords, List.append_nil, List.mem_append,
      or_imp, forall_and]
    exact ⟨clauses t.body (by simp [Flow.clauses]) _,
      clauses t.handlerBlocks (by simp [Flow.clauses]) _,
      clauses t.finalizerBlocks (by simp [Flow.clauses]) _⟩

/-- What holds of the instructions of every block, and of the records that lowering adds, holds of
    every record of the plan. -/
theorem forall_records_plan {p : Record → Prop} (control : AllowsControl p) {tight : Bool}
    {g : Graph} (own : ∀ b ∈ everyBlock g, ∀ i, Action.plain i ∈ b.actions → p (.action (.plain i)))
    (next : Option Label) : ∀ r ∈ Plan.records (plan tight next g), p r := by
  induction g using induction generalizing next with
  | nil => simp [plan, Plan.records]
  | cons label actions flow rest bodies_ih clauses_ih rest_ih =>
    simp only [mem_everyBlock_cons] at own
    have of_actions := forall_records_actionsPlan (own _ (.inl rfl)) fun f hf =>
      bodies_ih f hf (fun b hb => own b (.inr (.inl ⟨f, hf, hb⟩))) none
    have of_flow := forall_records_flowPlan control fun c hc =>
      clauses_ih c hc fun b hb => own b (.inr (.inr (.inl ⟨c, hc, hb⟩)))
    have behind := rest_ih (fun b hb => own b (.inr (.inr (.inr hb)))) next
    simpa only [plan, Plan.records, Plan.nodeRecords, List.mem_append, or_imp, forall_and]
      using ⟨⟨of_actions, of_flow _ _⟩, behind⟩

/-- In the plan of a graph that avoids raw actions with some of the reserved codes, no record that
    is written as it is has one of them. -/
theorem code_not_mem_of_avoidsRaw {codes : List UInt8} {g : Graph} (avoids : g.AvoidsRaw codes)
    (reserved : codes ⊆ Code.reserved) (tight : Bool) (next : Option Label) :
    ∀ r ∈ Plan.records (plan tight next g), r.code ∉ codes := by
  have free : ∀ c, c ∉ Code.reserved → c ∉ codes := fun c hc h => hc (reserved h)
  have control : AllowsControl fun r => r.code ∉ codes :=
    ⟨free _ (by decide), free _ (by decide), free _ (by decide), free _ (by decide),
      fun _ => free Code.waitForFrame (by decide), free _ (by decide)⟩
  refine forall_records_plan control ?_ next
  intro b hb i hi hcode
  obtain ⟨data, hraw⟩ := Instruction.eq_raw_of_mem_reserved (reserved hcode)
  refine avoids b hb (.plain i) hi i.code ?_ hcode
  rw [hraw]
  rfl

end Graph

/-! ## §6 A graph with all kinds of nesting -/

/-- A loop around a try with an empty handler, whose body runs a scope. The function that it
    defines has a loop of its own, to a label that the graph has too. -/
def guardedLoop : Graph :=
  [⟨⟨"start"⟩,
      [.define ⟨.classic "f" ["x"], [⟨⟨"start"⟩, [.plain (.push [.null])], .branch ⟨"start"⟩ none⟩]⟩],
      .protect ⟨[⟨⟨"body"⟩, [], .within [⟨⟨"inner"⟩, [.plain (.op .pop)], .simple (some ⟨"last"⟩)⟩]⟩],
        some ⟨.register 1, []⟩, some [⟨⟨"last"⟩, [], .simple none⟩]⟩⟩,
    ⟨⟨"next"⟩, [.plain (.raw 0x42 [])], .branch ⟨"start"⟩ none⟩]

theorem lowerRegion_guardedLoop : lowerRegion guardedLoop true {} = .ok
    [0x9b, 8, 0, 102, 0, 1, 0, 120, 0, 9, 0, 0x96, 1, 0, 2, 0x9d, 2, 0, 247, 255,
      0x8f, 8, 0, 7, 6, 0, 0, 0, 1, 0, 1, 0x94, 2, 0, 1, 0, 0x17, 0,
      0x42, 0x9d, 2, 0, 212, 255, 0] := by
  decide +kernel

end ActionFlow
