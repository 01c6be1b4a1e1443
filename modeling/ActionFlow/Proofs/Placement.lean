import ActionFlow.Proofs.Layout

/-!
# Where blocks and regions stand

The layout of a plan gives every block an offset at which it starts, and an offset at which its
actions end and its flow takes over. It also gives every function body the offset at which its code
starts. Here these offsets are computed from the plan, and tied to the graph on one side and to the
bytes on the other.

## Main statements

- `Plan.sites`, `Plan.placements`: the blocks of a region, and the function bodies below it.
- `Plan.map_sites`: blocks start where the labels of the region say.
- `Plan.bounds_sites`: blocks lie inside of the code of their plan.
- `Graph.map_block_sites`: the sites of a region are its blocks in written order.
- `Graph.places_plan`: there is one placement for each function body.
- `Plan.placed_of_laid`: the code of a placement stands at its offset.
-/

namespace ActionFlow

/-! ## §1 Bytes at an offset -/

/-- The bytes stand at offset `p` of the code. -/
def Stands (code : Bytes) (p : Nat) (bytes : Bytes) : Prop := bytes <+: code.drop p

theorem stands_append {code : Bytes} {p : Nat} {x y : Bytes} :
    Stands code p (x ++ y) ↔ Stands code p x ∧ Stands code (p + x.length) y := by
  unfold Stands
  constructor
  · rintro ⟨rest, h⟩
    refine ⟨⟨y ++ rest, by rw [← h, List.append_assoc]⟩, rest, ?_⟩
    rw [← List.drop_drop, ← h, List.append_assoc, List.drop_left]
  · rintro ⟨⟨rest, h⟩, h'⟩
    rw [← List.drop_drop, ← h, List.drop_left] at h'
    rw [← h]
    exact (List.prefix_append_right_inj x).mpr h'

/-! ## §2 Sites and placements -/

/-- The labels of a region that starts at offset `p`, with their offsets. -/
def Region.labelsAt (p : Nat) (r : Region) : List (Label × Nat) :=
  r.labels.map fun x => (x.1, p + x.2)

theorem Region.labelsAt_append (p : Nat) (a b : Region) :
    (a ++ b).labelsAt p = a.labelsAt p ++ b.labelsAt (p + a.size) := by
  simp [labelsAt, Nat.add_assoc]

/-- A block in the code: where it starts, and where its actions end. -/
structure Site where
  block : Block
  start : Nat
  exit : Nat

/-- A graph that is a region of its own: its plan, and where its code starts. -/
structure Placement where
  graph : Graph
  plan : Plan
  start : Nat

namespace Plan

mutual

/-- The blocks of a node at offset `p`. Function bodies are not part of the region. -/
def nodeSites (p : Nat) : Node → List Site
  | .block b actions exit =>
    ⟨b, p, p + size actions⟩ :: (sites p actions ++ sites (p + size actions) exit)
  | .record _ => []
  | .transfer _ _ => []
  | .function _ _ => []
  | .within body => sites (p + (Node.withinHeader (size body)).write.bytes.length) body
  | .protect target finalized body handler finalizer =>
    let header := Node.protectHeader target finalized (size body) (size handler) (size finalizer)
    let start := p + header.write.bytes.length
    sites start body ++ (sites (start + size body) handler
      ++ sites (start + size body + size handler) finalizer)

/-- The blocks of a plan at offset `p`, in written order. -/
def sites (p : Nat) : List Node → List Site
  | [] => []
  | n :: ns => nodeSites p n ++ sites (p + (nodeRegion n).size) ns

end

mutual

/-- The function bodies in a node at offset `p`, at any depth. -/
def nodePlacements (p : Nat) : Node → List Placement
  | .block _ actions exit => placements p actions ++ placements (p + size actions) exit
  | .record _ => []
  | .transfer _ _ => []
  | .function f body =>
    let start := p + (Node.functionHeader f (size body)).write.bytes.length
    ⟨f.body, body, start⟩ :: placements start body
  | .within body => placements (p + (Node.withinHeader (size body)).write.bytes.length) body
  | .protect target finalized body handler finalizer =>
    let header := Node.protectHeader target finalized (size body) (size handler) (size finalizer)
    let start := p + header.write.bytes.length
    placements start body ++ (placements (start + size body) handler
      ++ placements (start + size body + size handler) finalizer)

/-- The function bodies in a plan at offset `p`, at any depth. -/
def placements (p : Nat) : List Node → List Placement
  | [] => []
  | n :: ns => nodePlacements p n ++ placements (p + (nodeRegion n).size) ns

end

/-- Blocks start where the labels of the region say. -/
theorem map_sites (p : Nat) (ns : Plan) :
    (sites p ns).map (fun s => (s.block.label, s.start)) = (region ns).labelsAt p := by
  induction ns using induction generalizing p with
  | nil => rfl
  | block b actions exit rest actions_ih exit_ih rest_ih =>
    simp only [sites, region, nodeSites, List.map_cons, List.map_append, Region.labelsAt_append,
      actions_ih, exit_ih, rest_ih]
    simp only [nodeRegion, Region.labelsAt_append, Region.size_define, Nat.add_zero]
    rfl
  | record r rest rest_ih =>
    simp only [sites, region, nodeSites, List.nil_append, Region.labelsAt_append, rest_ih]
    rfl
  | transfer kind target rest rest_ih =>
    simp only [sites, region, nodeSites, List.nil_append, Region.labelsAt_append, rest_ih]
    rfl
  | function f body rest _ rest_ih =>
    simp only [sites, region, nodeSites, List.nil_append, Region.labelsAt_append, rest_ih]
    rfl
  | within body rest body_ih rest_ih =>
    simp only [sites, region, nodeSites, List.map_append, Region.labelsAt_append, body_ih, rest_ih]
    simp only [nodeRegion, Region.labelsAt_append, Region.size_ofCode]
    rfl
  | protect target finalized body handler finalizer rest body_ih handler_ih finalizer_ih rest_ih =>
    simp only [sites, region, nodeSites, List.map_append, Region.labelsAt_append, body_ih,
      handler_ih, finalizer_ih, rest_ih]
    simp only [nodeRegion, Region.labelsAt_append, Region.size_ofCode]
    rfl

/-- The blocks of a plan lie inside of its code. -/
theorem bounds_sites {p : Nat} {ns : Plan} :
    ∀ s ∈ sites p ns, p ≤ s.start ∧ s.start ≤ s.exit ∧ s.exit ≤ p + size ns := by
  induction ns using induction generalizing p with
  | nil => simp [sites]
  | block b actions exit rest actions_ih exit_ih rest_ih =>
    intro s hs
    simp only [sites, nodeSites, size_block, List.mem_append, List.mem_cons] at hs
    rw [size_cons, size_block]
    rcases hs with (rfl | hs | hs) | hs
    · simp only
      omega
    · have := actions_ih s hs
      omega
    · have := exit_ih s hs
      omega
    · have := rest_ih s hs
      omega
  | record r rest rest_ih =>
    intro s hs
    have := rest_ih s (by simpa [sites, nodeSites] using hs)
    rw [size_cons, size_record]
    omega
  | transfer kind target rest rest_ih =>
    intro s hs
    have := rest_ih s (by simpa [sites, nodeSites] using hs)
    rw [size_cons, size_transfer]
    omega
  | function f body rest _ rest_ih =>
    intro s hs
    have := rest_ih s (by simpa [sites, nodeSites] using hs)
    rw [size_cons, size_function]
    omega
  | within body rest body_ih rest_ih =>
    intro s hs
    simp only [sites, nodeSites, size_within, List.mem_append] at hs
    rw [size_cons, size_within]
    rcases hs with hs | hs
    · have := body_ih s hs
      omega
    · have := rest_ih s hs
      omega
  | protect target finalized body handler finalizer rest body_ih handler_ih finalizer_ih rest_ih =>
    intro s hs
    simp only [sites, nodeSites, size_protect, List.mem_append] at hs
    rw [size_cons, size_protect]
    rcases hs with (hs | hs | hs) | hs
    · have := body_ih s hs
      omega
    · have := handler_ih s hs
      omega
    · have := finalizer_ih s hs
      omega
    · have := rest_ih s hs
      omega

/-! ## §3 Placed code -/

/-- The code of a placement is laid out and stands at its offset. -/
structure Placed (code : Bytes) (r : Placement) : Prop where
  laid : Laid (fun _ => True) (region r.plan) 0 r.plan
  resolvable : (region r.plan).Resolvable
  stands : Stands code r.start (Plan.code (region r.plan).goal 0 r.plan)

theorem placed_of_laid {bytes : Bytes} {w : Region} {pos : Nat} {ns : Plan}
    (laid : Laid (fun _ => True) w pos ns) {p : Nat} (stands : Stands bytes p (code w.goal pos ns)) :
    ∀ r ∈ placements p ns, Placed bytes r := by
  induction laid generalizing p with
  | nil => simp [placements]
  | block actions_laid exit_laid rest_laid actions_ih exit_ih rest_ih =>
    rw [code_cons, nodeCode_block, stands_append, stands_append, List.length_append, length_code,
      length_code, size_block] at stands
    obtain ⟨⟨stands_actions, stands_exit⟩, stands_rest⟩ := stands
    simp only [placements, nodePlacements, List.mem_append, or_imp, forall_and, size_block]
    exact ⟨⟨actions_ih stands_actions, exit_ih stands_exit⟩, rest_ih stands_rest⟩
  | record encodable allowed rest_laid rest_ih =>
    rw [code_cons, stands_append, length_nodeCode, size_record] at stands
    simp only [placements, nodePlacements, List.nil_append, size_record]
    exact rest_ih stands.2
  | transfer reach rest_laid rest_ih =>
    rw [code_cons, stands_append, length_nodeCode, size_transfer] at stands
    simp only [placements, nodePlacements, List.nil_append, size_transfer]
    exact rest_ih stands.2
  | @function w pos f body rest body_laid resolvable fits encodable rest_laid body_ih rest_ih =>
    rw [code_cons, stands_append, length_nodeCode, nodeCode_function, stands_append,
      (tidy_region body).sealed_eq_settle resolvable, size_function] at stands
    obtain ⟨⟨-, stands_body⟩, stands_rest⟩ := stands
    simp only [placements, nodePlacements, List.mem_append, List.mem_cons, or_imp, forall_and,
      forall_eq, size_function]
    exact ⟨⟨⟨body_laid, resolvable, stands_body⟩, body_ih stands_body⟩, rest_ih stands_rest⟩
  | within body_laid fits rest_laid body_ih rest_ih =>
    rw [code_cons, stands_append, length_nodeCode, nodeCode_within, stands_append, size_within]
      at stands
    obtain ⟨⟨-, stands_body⟩, stands_rest⟩ := stands
    simp only [placements, nodePlacements, List.mem_append, or_imp, forall_and, size_within]
    exact ⟨body_ih stands_body, rest_ih stands_rest⟩
  | protect header_eq body_laid handler_laid finalizer_laid body_fits handler_fits finalizer_fits
      encodable handler_absent finalizer_absent rest_laid body_ih handler_ih finalizer_ih rest_ih =>
    subst header_eq
    rw [code_cons, stands_append, length_nodeCode, nodeCode_protect, stands_append, stands_append,
      stands_append, length_code, length_code, size_protect] at stands
    obtain ⟨⟨-, stands_body, stands_handler, stands_finalizer⟩, stands_rest⟩ := stands
    simp only [placements, nodePlacements, List.mem_append, or_imp, forall_and, size_protect]
    exact ⟨⟨body_ih stands_body, handler_ih stands_handler, finalizer_ih stands_finalizer⟩,
      rest_ih stands_rest⟩

end Plan

/-! ## §4 The sites of a graph -/

namespace Graph

theorem sites_actionsPlan (p : Nat) (tight : Bool) (actions : List Action) :
    Plan.sites p (actionsPlan tight actions) = [] := by
  induction actions generalizing p with
  | nil => rfl
  | cons a rest ih =>
    rcases a with i | ⟨header, body⟩
    · simp only [actionsPlan, Plan.sites, Plan.nodeSites, ih, List.append_nil]
    · simp only [actionsPlan, Plan.sites, Plan.nodeSites, ih, List.append_nil]

theorem sites_continuation (p : Nat) (target next : Option Label) :
    Plan.sites p (Plan.continuation target next) = [] := by
  unfold Plan.continuation
  split
  · rfl
  · cases target <;> rfl

theorem map_block_sites_flowPlan {tight : Bool} {flow : Flow}
    (clauses : ∀ c ∈ flow.clauses, ∀ next p,
      (Plan.sites p (plan tight next c)).map Site.block = layout c)
    (p : Nat) (next : Option Label) (b : Block) :
    (Plan.sites p (flowPlan tight next b flow)).map Site.block = flowLayout flow := by
  rw [flowLayout_eq_flatMap]
  cases flow with
  | simple target =>
    rw [flowPlan]
    split
    · rfl
    · rw [sites_continuation]
      rfl
  | branch onTrue onFalse =>
    simp [flowPlan, Plan.sites, Plan.nodeSites, sites_continuation, Flow.clauses]
  | within body =>
    have body_eq := clauses body (by simp [Flow.clauses]) next
    simp [flowPlan, Plan.sites, Plan.nodeSites, Flow.clauses, body_eq]
  | protect t =>
    have body_eq := clauses t.body (by simp [Flow.clauses])
    have handler_eq := clauses t.handlerBlocks (by simp [Flow.clauses])
    have finalizer_eq := clauses t.finalizerBlocks (by simp [Flow.clauses])
    simp [flowPlan_protect, Plan.sites, Plan.nodeSites, Flow.clauses, body_eq, handler_eq,
      finalizer_eq]
  | _ => simp [flowPlan, Plan.sites, Plan.nodeSites, Flow.clauses]

/-- The sites of a region are its blocks in written order. -/
theorem map_block_sites (tight : Bool) (g : Graph) (next : Option Label) (p : Nat) :
    (Plan.sites p (plan tight next g)).map Site.block = layout g := by
  induction g using induction generalizing next p with
  | nil => rfl
  | cons label actions flow rest bodies_ih clauses_ih rest_ih =>
    simp only [plan, Plan.sites, Plan.nodeSites, layout, List.map_append, List.map_cons,
      sites_actionsPlan, List.nil_append, rest_ih, map_block_sites_flowPlan clauses_ih,
      List.cons_append]

/-! ## §5 The placements of a graph -/

/-- The placements are those of the given graphs, each with its own plan, in any order. -/
def Places (tight : Bool) (rs : List Placement) (gs : List Graph) : Prop :=
  (rs.map fun r => (r.graph, r.plan)).Perm (gs.map fun g => (g, plan tight none g))

theorem Places.append {tight : Bool} {rs rs' : List Placement} {gs gs' : List Graph}
    (h : Places tight rs gs) (h' : Places tight rs' gs') :
    Places tight (rs ++ rs') (gs' ++ gs) := by
  rw [Places, List.map_append, List.map_append]
  exact (List.Perm.append h h').trans List.perm_append_comm

theorem placements_continuation (p : Nat) (target next : Option Label) :
    Plan.placements p (Plan.continuation target next) = [] := by
  unfold Plan.continuation
  split
  · rfl
  · cases target <;> rfl

theorem places_actionsPlan {tight : Bool} {actions : List Action}
    (bodies : ∀ f, Action.define f ∈ actions → ∀ next p,
      Places tight (Plan.placements p (plan tight next f.body)) (innerRegions f.body)) (p : Nat) :
    Places tight (Plan.placements p (actionsPlan tight actions)) (actionRegions actions) := by
  induction actions generalizing p with
  | nil => exact .nil
  | cons a rest ih =>
    have behind := fun q => ih (fun f hf => bodies f (List.mem_cons_of_mem _ hf)) q
    rcases a with i | ⟨header, body⟩
    · exact behind _
    · have inside := fun q => bodies ⟨header, body⟩ List.mem_cons_self none q
      simp only [actionsPlan, Plan.placements, Plan.nodePlacements, actionRegions]
      exact Places.append (List.Perm.cons _ (inside _)) (behind _)

theorem places_flowPlan {tight : Bool} {flow : Flow}
    (clauses : ∀ c ∈ flow.clauses, ∀ next p,
      Places tight (Plan.placements p (plan tight next c)) (innerRegions c))
    (p : Nat) (next : Option Label) (b : Block) :
    Places tight (Plan.placements p (flowPlan tight next b flow)) (flowRegions flow) := by
  rw [flowRegions_eq_flatMap]
  cases flow with
  | simple target =>
    rw [flowPlan]
    split
    · exact .nil
    · rw [placements_continuation]
      exact .nil
  | branch onTrue onFalse =>
    simp [flowPlan, Plan.placements, Plan.nodePlacements, placements_continuation, Flow.clauses,
      Places]
  | within body =>
    have body_places := clauses body (by simp [Flow.clauses]) next
    simpa [flowPlan, Plan.placements, Plan.nodePlacements, Flow.clauses] using body_places _
  | protect t =>
    have body_places := clauses t.body (by simp [Flow.clauses])
    have handler_places := clauses t.handlerBlocks (by simp [Flow.clauses])
    have finalizer_places := clauses t.finalizerBlocks (by simp [Flow.clauses])
    simp only [flowPlan_protect, Plan.placements, Plan.nodePlacements, Flow.clauses, List.append_nil,
      List.reverse_cons, List.reverse_nil, List.nil_append, List.cons_append, List.flatMap_cons,
      List.flatMap_nil]
    rw [← List.append_assoc]
    exact ((body_places _ _).append (handler_places _ _)).append (finalizer_places _ _)
  | _ => simp [flowPlan, Plan.placements, Plan.nodePlacements, Flow.clauses, Places]

/-- There is one placement for each function body below a graph, with the plan of the body. -/
theorem places_plan (tight : Bool) (g : Graph) (next : Option Label) (p : Nat) :
    Places tight (Plan.placements p (plan tight next g)) (innerRegions g) := by
  induction g using induction generalizing next p with
  | nil => exact .nil
  | cons label actions flow rest bodies_ih clauses_ih rest_ih =>
    simp only [plan, Plan.placements, Plan.nodePlacements, innerRegions]
    rw [List.append_assoc]
    exact (places_actionsPlan bodies_ih _).append
      ((places_flowPlan clauses_ih _ _ _).append (rest_ih _ _))

end Graph

end ActionFlow
