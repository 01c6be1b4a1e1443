import ActionFlow.Proofs.Layout

/-!
# Function bodies are embedded as they are

The body of a function is lowered on its own, and its code is put behind the header of the function.
Regions around it are resolved later, once for each level of nesting. None of that touches the body:
its code stands in the code of the whole graph as `lowerRegion` gives it, and a body of the same size
can take its place without any change elsewhere.

## Main statements

- `Slot`, `Frame`, `plug`: a graph with a place for another graph in it.
- `exists_plug_of_mem_innerRegions`: every function body of a graph stands in such a place.
- `Region.exists_sealed_eq`: resolving a region leaves finished code inside of it alone.
- `Carries`: plans that differ in one piece of finished code only.
- `lowerRegion_embeds_bodies`: the code of a function body in the code of a graph.
-/

namespace ActionFlow

/-! ## §1 Graphs with a place for a graph -/

/-- The place of a graph in a block: the body of a function, a scope, or a clause of a try. -/
inductive Slot where
  | function (front : List Action) (header : FunctionHeader) (back : List Action) (flow : Flow)
  | within (actions : List Action)
  | tryBody (actions : List Action) (handler : Option Handler) (finalizer : Option (List Block))
  | tryHandler (actions : List Action) (body : List Block) (target : CatchTarget)
      (finalizer : Option (List Block))
  | tryFinalizer (actions : List Action) (body : List Block) (handler : Option Handler)

namespace Slot

/-- The block with a graph in its place. -/
def block (label : Label) (g : List Block) : Slot → Block
  | function front header back flow => ⟨label, front ++ .define ⟨header, g⟩ :: back, flow⟩
  | within actions => ⟨label, actions, .within g⟩
  | tryBody actions handler finalizer => ⟨label, actions, .protect ⟨g, handler, finalizer⟩⟩
  | tryHandler actions body target finalizer =>
    ⟨label, actions, .protect ⟨body, some ⟨target, g⟩, finalizer⟩⟩
  | tryFinalizer actions body handler => ⟨label, actions, .protect ⟨body, handler, some g⟩⟩

/-- The header of the function, if the graph is a function body. -/
def header? : Slot → Option FunctionHeader
  | function _ header _ _ => some header
  | _ => none

theorem eq_function_of_header? {slot : Slot} {header : FunctionHeader}
    (h : slot.header? = some header) :
    ∃ front back flow, slot = .function front header back flow := by
  cases slot with
  | function front header' back flow =>
    obtain rfl : header' = header := by simpa [header?] using h
    exact ⟨front, back, flow, rfl⟩
  | _ => simp [header?] at h

end Slot

/-- A block with a place for a graph, and the blocks around it. -/
structure Frame where
  before : List Block
  label : Label
  slot : Slot
  behind : List Block

namespace Frame

/-- The graph with another one in its place, one level deeper. -/
def fill (c : Frame) (g : List Block) : List Block := c.before ++ c.slot.block c.label g :: c.behind

end Frame

/-- A graph inside any number of others, the outermost first. -/
def plug (outer : List Frame) (g : List Block) : List Block := outer.foldr Frame.fill g

namespace Graph

/-- A block before a graph goes before the blocks around the place in it. -/
theorem exists_cons_plug (b : Block) (outer : List Frame) (last : Frame) :
    ∃ (outer' : List Frame) (last' : Frame), last'.slot = last.slot ∧
      ∀ g, b :: plug outer (last.fill g) = plug outer' (last'.fill g) := by
  cases outer with
  | nil => exact ⟨[], { last with before := b :: last.before }, rfl, fun _ => rfl⟩
  | cons c outer =>
    exact ⟨{ c with before := b :: c.before } :: outer, last, rfl, fun _ => rfl⟩

/-- A graph that a flow runs has a place in its block. -/
theorem exists_slot_of_mem_clauses {flow : Flow} {c : List Block} (h : c ∈ flow.clauses)
    (nonempty : c ≠ []) (label : Label) (actions : List Action) :
    ∃ slot : Slot, slot.block label c = ⟨label, actions, flow⟩ := by
  rcases flow with _ | _ | _ | _ | _ | ⟨body, handler, finalizer⟩ | body | _ | _
  case within =>
    obtain rfl : c = body := by simpa [Flow.clauses] using h
    exact ⟨.within actions, rfl⟩
  case protect =>
    simp only [Flow.clauses, List.mem_cons, List.not_mem_nil, or_false] at h
    rcases h with rfl | rfl | rfl
    · exact ⟨.tryBody actions handler finalizer, rfl⟩
    · rcases handler with _ | ⟨target, clause⟩
      · exact absurd rfl nonempty
      · exact ⟨.tryHandler actions body target finalizer, rfl⟩
    · rcases finalizer with _ | clause
      · exact absurd rfl nonempty
      · exact ⟨.tryFinalizer actions body handler, rfl⟩
  all_goals simp [Flow.clauses] at h

/-- Every function body of a graph stands in a place of it. -/
theorem exists_plug_of_mem_innerRegions {g r : Graph} (h : r ∈ innerRegions g) :
    ∃ (outer : List Frame) (last : Frame) (header : FunctionHeader),
      last.slot.header? = some header ∧ g = plug outer (last.fill r) := by
  induction g using induction with
  | nil => simp [innerRegions] at h
  | cons label actions flow rest bodies_ih clauses_ih rest_ih =>
    simp only [innerRegions, flowRegions_eq_flatMap, List.mem_append, List.mem_flatMap,
      List.mem_reverse, mem_actionRegions, regions, List.mem_cons] at h
    rcases h with (h | ⟨c, hc, h⟩) | ⟨f, hf, h⟩
    · obtain ⟨outer, last, header, is_function, rest_eq⟩ := rest_ih h
      obtain ⟨outer', last', slot_eq, cons_eq⟩ := exists_cons_plug ⟨label, actions, flow⟩ outer last
      exact ⟨outer', last', header, slot_eq ▸ is_function, by rw [rest_eq, cons_eq]⟩
    · obtain ⟨outer, last, header, is_function, clause_eq⟩ := clauses_ih c hc h
      have nonempty : c ≠ [] := by
        rintro rfl
        simp [innerRegions] at h
      obtain ⟨slot, block_eq⟩ := exists_slot_of_mem_clauses hc nonempty label actions
      refine ⟨⟨[], label, slot, rest⟩ :: outer, last, header, is_function, ?_⟩
      show _ = Frame.fill _ (plug outer (last.fill r))
      rw [← clause_eq, Frame.fill, block_eq]
      rfl
    · obtain ⟨header, body⟩ := f
      obtain ⟨front, back, actions_eq⟩ := List.append_of_mem hf
      subst actions_eq
      rcases h with h | h
      · subst h
        exact ⟨[], ⟨[], label, .function front header back flow, rest⟩, header, rfl, rfl⟩
      · obtain ⟨outer, last, inner, is_function, body_eq⟩ := bodies_ih _ hf h
        refine ⟨⟨[], label, .function front header back flow, rest⟩ :: outer, last, inner,
          is_function, ?_⟩
        show _ = Frame.fill _ (plug outer (last.fill r))
        rw [← body_eq]
        rfl

end Graph

/-! ## §2 Finished code inside a region -/

namespace Patch

/-- Operands on both sides of a piece of code leave it alone, whatever it is. -/
theorem exists_foldl_apply_eq {size : Nat} (ps : List Patch) (front back : Bytes)
    (aside : ∀ p ∈ ps, p.site + 2 ≤ front.length ∨ front.length + size ≤ p.site) :
    ∃ front' back' : Bytes, ∀ x : Bytes, x.length = size →
      ps.foldl apply (front ++ (x ++ back)) = front' ++ (x ++ back') := by
  induction ps generalizing front back with
  | nil => exact ⟨front, back, fun _ _ => rfl⟩
  | cons p ps ih =>
    rw [List.forall_mem_cons] at aside
    rcases aside.1 with inside | beyond
    · obtain ⟨front', back', step⟩ := ih (apply front p) back (by simpa using aside.2)
      refine ⟨front', back', fun x hx => ?_⟩
      rw [List.foldl_cons, apply_append_left inside, step x hx]
    · obtain ⟨site, site_eq⟩ := Nat.exists_eq_add_of_le beyond
      obtain ⟨front', back', step⟩ := ih front (apply back { p with site := site }) aside.2
      refine ⟨front', back', fun x hx => ?_⟩
      have p_eq : p = { p with site := front.length + (x.length + site) } := by
        rw [hx, ← Nat.add_assoc, ← site_eq]
      rw [List.foldl_cons, p_eq, apply_append_right front (x ++ back) { p with site := x.length + site },
        apply_append_right x back { p with site := site }, step x hx]

end Patch

namespace Region

theorem site_of_resolve? {offset? : Label → Option Nat} {stop : Nat} {j : Jump} {p : Patch}
    (h : resolve? offset? stop j = .ok p) : p.site = j.site := by
  unfold resolve? at h
  split at h
  · simp at h
  · split at h
    · obtain rfl := Except.ok.inj h
      rfl
    · simp at h

theorem exists_site_eq_of_mem_resolveAll {offset? : Label → Option Nat} {stop : Nat}
    {js : List Jump} : ∀ p ∈ (resolveAll offset? stop js).1, ∃ j ∈ js, p.site = j.site := by
  induction js with
  | nil => simp [resolveAll]
  | cons j js ih =>
    intro p hp
    rw [resolveAll] at hp
    cases hj : resolve? offset? stop j with
    | error e => simp [hj] at hp
    | ok q =>
      simp only [hj, List.mem_cons] at hp
      rcases hp with rfl | hp
      · exact ⟨j, List.mem_cons_self, site_of_resolve? hj⟩
      · obtain ⟨k, hk, site_eq⟩ := ih p hp
        exact ⟨k, List.mem_cons_of_mem _ hk, site_eq⟩

variable {a z : Region}

/-- Finding the operands of a region does not look at its code. -/
theorem patches_embed {x y : Bytes} (h : x.length = y.length) (stop : Nat) :
    (a ++ (ofCode x ++ z)).patches stop = (a ++ (ofCode y ++ z)).patches stop := by
  have labels_eq : (a ++ (ofCode x ++ z)).labels = (a ++ (ofCode y ++ z)).labels := by
    simp [h]
  have jumps_eq : (a ++ (ofCode x ++ z)).jumps = (a ++ (ofCode y ++ z)).jumps := by
    simp [h]
  rw [patches, patches, openJumps, openJumps, labels_eq, jumps_eq]

/-- Resolving a region leaves finished code inside of it alone: what stands around it is the same
    for any code of that size. -/
theorem exists_sealed_eq (ha : a.Tidy) (hz : z.Tidy) (size : Nat) :
    ∃ front back : Bytes, ∀ x : Bytes, x.length = size →
      (a ++ (ofCode x ++ z)).sealed = front ++ (x ++ back) := by
  -- The operands are those for any code of the right size.
  let whole := a ++ (ofCode (List.replicate size 0) ++ z)
  have aside : ∀ p ∈ (whole.patches whole.size).1,
      p.site + 2 ≤ a.code.length ∨ a.code.length + size ≤ p.site := by
    intro p hp
    have tidy : whole.Tidy := ha.append ((tidy_ofCode _).append hz)
    rw [patches_eq_resolveAll, tidy.openJumps] at hp
    obtain ⟨j, hj, site_eq⟩ := exists_site_eq_of_mem_resolveAll p hp
    simp only [whole, jumps_append, jumps_ofCode, List.nil_append, List.map_map, List.mem_append,
      List.mem_map] at hj
    rcases hj with hj | ⟨k, hk, rfl⟩
    · have bound := ha.bound j hj
      simp only [Region.size] at bound
      omega
    · simp [Jump.shift, Region.size, ofCode] at site_eq
      omega
  obtain ⟨front, back, step⟩ := Patch.exists_foldl_apply_eq _ a.code z.code aside
  refine ⟨front, back, fun x hx => ?_⟩
  have length_eq : x.length = (List.replicate size (0 : UInt8)).length := by simp [hx]
  have size_eq : (a ++ (ofCode x ++ z)).size = whole.size := by simp [whole, hx]
  rw [sealed, Patch.applyAll_eq_foldl, patches_embed length_eq, size_eq]
  exact step x hx

theorem resolvable_embed {x y : Bytes} (h : x.length = y.length) :
    (a ++ (ofCode x ++ z)).Resolvable ↔ (a ++ (ofCode y ++ z)).Resolvable := by
  have size_eq : (a ++ (ofCode x ++ z)).size = (a ++ (ofCode y ++ z)).size := by simp [h]
  rw [Resolvable, Resolvable, patches_embed h, size_eq]

end Region

/-! ## §3 Plans that differ in finished code only -/

namespace Plan

/-- Plans that differ in one piece of finished code only, which stands at the same place in all of
    them. Such a plan is sound if its piece is good, and the part that they share allows it. -/
structure Carries {ι : Type} (x : ι → Bytes) (good : ι → Prop) (plans : ι → Plan) : Prop where
  region_eq : ∃ a z : Region, a.Tidy ∧ z.Tidy ∧
    ∀ i, region (plans i) = a ++ (Region.ofCode (x i) ++ z)
  sound_iff : ∃ shared : Prop, ∀ i, Sound (plans i) ↔ good i ∧ shared

namespace Carries

variable {ι : Type} {x : ι → Bytes} {good : ι → Prop} {plans : ι → Plan} {width : Nat}

theorem exists_size_eq (same : ∀ i, (x i).length = width) (h : Carries x good plans) :
    ∃ n, ∀ i, (region (plans i)).size = n := by
  obtain ⟨a, z, -, -, region_eq⟩ := h.region_eq
  refine ⟨a.size + (width + z.size), fun i => ?_⟩
  rw [region_eq, Region.size_append, Region.size_append, Region.size_ofCode, same]

theorem exists_resolvable_iff (same : ∀ i, (x i).length = width) (h : Carries x good plans) :
    ∃ shared : Prop, ∀ i, (region (plans i)).Resolvable ↔ shared := by
  obtain ⟨a, z, -, -, region_eq⟩ := h.region_eq
  refine ⟨(a ++ (Region.ofCode (List.replicate width 0) ++ z)).Resolvable, fun i => ?_⟩
  rw [region_eq]
  exact Region.resolvable_embed (by simp [same])

theorem exists_sealed_eq (same : ∀ i, (x i).length = width) (h : Carries x good plans) :
    ∃ front back : Bytes, ∀ i, (region (plans i)).sealed = front ++ (x i ++ back) := by
  obtain ⟨a, z, tidy_a, tidy_z, region_eq⟩ := h.region_eq
  obtain ⟨front, back, sealed_eq⟩ := Region.exists_sealed_eq tidy_a tidy_z width
  exact ⟨front, back, fun i => by rw [region_eq, sealed_eq _ (same i)]⟩

/-- Other nodes can stand before the piece and behind it. -/
theorem between (h : Carries x good plans) (before behind : Plan) :
    Carries x good fun i => before ++ (plans i ++ behind) := by
  obtain ⟨⟨a, z, tidy_a, tidy_z, region_eq⟩, shared, sound_iff⟩ := h
  constructor
  · refine ⟨region before ++ a, z ++ region behind, (tidy_region _).append tidy_a,
      tidy_z.append (tidy_region _), fun i => ?_⟩
    rw [region_append, region_append, region_eq]
    simp only [Region.append_assoc]
  · refine ⟨Sound before ∧ shared ∧ Sound behind, fun i => ?_⟩
    rw [sound_append, sound_append, sound_iff]
    grind

/-- A node whose region holds that of the plan carries the piece too. -/
theorem of_node {node : ι → Node} {before behind : Region} (h : Carries x good plans)
    (tidy_before : before.Tidy) (tidy_behind : behind.Tidy)
    (region_eq : ∀ i, nodeRegion (node i) = before ++ (region (plans i) ++ behind))
    (sound_iff : ∃ shared : Prop, ∀ i, NodeSound (node i) ↔ Sound (plans i) ∧ shared) :
    Carries x good fun i => [node i] := by
  obtain ⟨⟨a, z, tidy_a, tidy_z, plans_eq⟩, shared, plans_sound⟩ := h
  obtain ⟨shared', node_sound⟩ := sound_iff
  constructor
  · refine ⟨before ++ a, z ++ behind, tidy_before.append tidy_a, tidy_z.append tidy_behind,
      fun i => ?_⟩
    rw [region, region, Region.append_empty, region_eq, plans_eq]
    simp only [Region.append_assoc]
  · refine ⟨shared ∧ shared', fun i => ?_⟩
    rw [Sound, Sound, and_true, node_sound, plans_sound, and_assoc]

theorem actions {b : ι → Block} (h : Carries x good plans) (exit : Plan) (label : Label)
    (labelled : ∀ i, (b i).label = label) : Carries x good fun i => [.block (b i) (plans i) exit] := by
  refine h.of_node (Region.tidy_define label) (tidy_region exit) (fun i => ?_) ⟨Sound exit, fun i => ?_⟩
  · rw [nodeRegion, labelled]
  · rw [NodeSound]

theorem exit {b : ι → Block} (h : Carries x good plans) (actions : Plan) (label : Label)
    (labelled : ∀ i, (b i).label = label) : Carries x good fun i => [.block (b i) actions (plans i)] := by
  refine h.of_node ((Region.tidy_define label).append (tidy_region actions)) Region.tidy_empty
    (fun i => ?_) ⟨Sound actions, fun i => ?_⟩
  · rw [nodeRegion, labelled, Region.append_empty, Region.append_assoc]
  · rw [NodeSound, and_comm]

theorem within (same : ∀ i, (x i).length = width) (h : Carries x good plans) :
    Carries x good fun i => [.within (plans i)] := by
  obtain ⟨n, size_eq⟩ := h.exists_size_eq same
  refine h.of_node (Region.tidy_ofCode (Node.withinHeader n).write.bytes) Region.tidy_empty
    (fun i => ?_) ⟨n ≤ 65535, fun i => ?_⟩
  · rw [nodeRegion, size_eq, Region.append_empty]
  · rw [NodeSound, size_eq]

/-- The code of a body is finished, so it carries the piece as code. -/
theorem function {f : ι → Function} (same : ∀ i, (x i).length = width)
    (h : Carries x good plans) (header : FunctionHeader) (headed : ∀ i, (f i).header = header) :
    Carries x good fun i => [.function (f i) (plans i)] := by
  obtain ⟨n, size_eq⟩ := h.exists_size_eq same
  obtain ⟨front, back, sealed_eq⟩ := h.exists_sealed_eq same
  obtain ⟨resolved, resolvable_iff⟩ := h.exists_resolvable_iff same
  obtain ⟨shared, sound_iff⟩ := h.sound_iff
  have header_eq : ∀ i, Node.functionHeader (f i) n = .function header (UInt16.ofNat n) := fun i => by
    rw [Node.functionHeader, headed]
  constructor
  · refine ⟨Region.ofCode ((Record.function header (UInt16.ofNat n)).write.bytes ++ front),
      Region.ofCode back, Region.tidy_ofCode _, Region.tidy_ofCode _, fun i => ?_⟩
    rw [region, region, nodeRegion, size_eq, sealed_eq, header_eq, Region.append_empty]
    simp only [← Region.ofCode_append, List.append_assoc]
  · refine ⟨shared ∧ resolved ∧ n ≤ 65535
      ∧ (Record.function header (UInt16.ofNat n)).write.error? = none, fun i => ?_⟩
    rw [Sound, Sound, NodeSound, size_eq, header_eq, sound_iff, resolvable_iff, and_true, and_assoc]

theorem tryBody (same : ∀ i, (x i).length = width) (h : Carries x good plans)
    (target : Option CatchTarget) (finalized : Bool) (handler finalizer : Plan) :
    Carries x good fun i => [.protect target finalized (plans i) handler finalizer] := by
  obtain ⟨n, size_eq⟩ := h.exists_size_eq same
  let header := Node.protectHeader target finalized n (region handler).size (region finalizer).size
  refine h.of_node (Region.tidy_ofCode header.write.bytes)
    ((tidy_region handler).append (tidy_region finalizer)) (fun i => ?_)
    ⟨Sound handler ∧ Sound finalizer ∧ n ≤ 65535 ∧ (region handler).size ≤ 65535
      ∧ (region finalizer).size ≤ 65535 ∧ header.write.error? = none
      ∧ (target = none → handler = []) ∧ (finalized = false → finalizer = []), fun i => ?_⟩
  · rw [nodeRegion, size_eq]
  · rw [NodeSound, size_eq]

theorem tryHandler (same : ∀ i, (x i).length = width) (h : Carries x good plans)
    (target : CatchTarget) (finalized : Bool) (body finalizer : Plan) :
    Carries x good fun i => [.protect (some target) finalized body (plans i) finalizer] := by
  obtain ⟨n, size_eq⟩ := h.exists_size_eq same
  let header := Node.protectHeader (some target) finalized (region body).size n
    (region finalizer).size
  refine h.of_node ((Region.tidy_ofCode header.write.bytes).append (tidy_region body))
    (tidy_region finalizer) (fun i => ?_)
    ⟨Sound body ∧ Sound finalizer ∧ (region body).size ≤ 65535 ∧ n ≤ 65535
      ∧ (region finalizer).size ≤ 65535 ∧ header.write.error? = none
      ∧ (finalized = false → finalizer = []), fun i => ?_⟩
  · rw [nodeRegion, size_eq, Region.append_assoc]
  · rw [NodeSound, size_eq]
    grind

theorem tryFinalizer (same : ∀ i, (x i).length = width) (h : Carries x good plans)
    (target : Option CatchTarget) (body handler : Plan) :
    Carries x good fun i => [.protect target true body handler (plans i)] := by
  obtain ⟨n, size_eq⟩ := h.exists_size_eq same
  let header := Node.protectHeader target true (region body).size (region handler).size n
  refine h.of_node ((Region.tidy_ofCode header.write.bytes).append
    ((tidy_region body).append (tidy_region handler))) Region.tidy_empty (fun i => ?_)
    ⟨Sound body ∧ Sound handler ∧ (region body).size ≤ 65535 ∧ (region handler).size ≤ 65535
      ∧ n ≤ 65535 ∧ header.write.error? = none ∧ (target = none → handler = []), fun i => ?_⟩
  · rw [nodeRegion, size_eq, Region.append_empty]
    simp only [Region.append_assoc, header]
  · rw [NodeSound, size_eq]
    grind

end Carries

end Plan

/-! ## §4 Places carry what stands in them -/

namespace Graph

theorem firstLabel?_cons (b : Block) (rest : List Block) : firstLabel? (b :: rest) = some b.label :=
  rfl

theorem firstLabel?_append (bs cs : List Block) :
    firstLabel? (bs ++ cs) = (firstLabel? bs).or (firstLabel? cs) := by
  cases bs <;> simp [firstLabel?]

theorem plan_cons (tight : Bool) (next : Option Label) (b : Block) (rest : List Block) :
    plan tight next (b :: rest) = .block b (actionsPlan tight b.actions)
      (flowPlan tight ((firstLabel? rest).or next) b b.flow) :: plan tight next rest := by
  cases b
  rw [plan]

/-- Blocks before others are followed by the first of these. -/
theorem plan_append (tight : Bool) (next : Option Label) (bs cs : List Block) :
    plan tight next (bs ++ cs)
      = plan tight ((firstLabel? cs).or next) bs ++ plan tight next cs := by
  induction bs with
  | nil => rfl
  | cons b rest ih =>
    rw [List.cons_append, plan_cons, plan_cons, ih, firstLabel?_append, Option.or_assoc,
      List.cons_append]

theorem actionsPlan_append (tight : Bool) (xs ys : List Action) :
    actionsPlan tight (xs ++ ys) = actionsPlan tight xs ++ actionsPlan tight ys := by
  induction xs with
  | nil => rfl
  | cons a rest ih =>
    rcases a with i | ⟨header, body⟩
    · rw [List.cons_append, actionsPlan, actionsPlan, ih, List.cons_append]
    · rw [List.cons_append, actionsPlan, actionsPlan, ih, List.cons_append]

/-- Of the block, a flow looks only at whether it ends with a terminal action. -/
theorem flowPlan_congr {b c : Block} (h : b.endsTerminal = c.endsTerminal) (tight : Bool)
    (next : Option Label) (flow : Flow) : flowPlan tight next b flow = flowPlan tight next c flow := by
  rcases flow with _ | _ | _ | _ | _ | t | _ | _ | _
  case protect => rw [flowPlan_protect, flowPlan_protect]
  all_goals simp only [flowPlan, h]

/-- The body of a function does not matter for how its block ends. -/
theorem endsTerminal_define (label : Label) (front back : List Action) (f f' : Function)
    (flow : Flow) : Block.endsTerminal ⟨label, front ++ .define f :: back, flow⟩
      = Block.endsTerminal ⟨label, front ++ .define f' :: back, flow⟩ := by
  simp only [Block.endsTerminal, List.getLast?_append, List.getLast?_cons]
  cases back.getLast? <;> simp [Action.isTerminal]

section Places

open Plan

variable {ι : Type} {x : ι → Bytes} {good : ι → Prop} {width : Nat} {tight : Bool}
  {g : ι → List Block}

/-- The plan of a block that stands before others. -/
def blockPlan (tight : Bool) (next : Option Label) (b : Block) : Plan :=
  [.block b (actionsPlan tight b.actions) (flowPlan tight next b b.flow)]

theorem carries_define {header : FunctionHeader}
    (h : Carries x good fun i => [.function ⟨header, g i⟩ (plan tight none (g i))])
    (label : Label) (front back : List Action) (flow : Flow) (next : Option Label) :
    Carries x good fun i =>
      blockPlan tight next ((Slot.function front header back flow).block label (g i)) := by
  have actions_eq : ∀ i, actionsPlan tight (front ++ .define ⟨header, g i⟩ :: back)
      = actionsPlan tight front ++ ([.function ⟨header, g i⟩ (plan tight none (g i))]
        ++ actionsPlan tight back) := fun i => by
    rw [actionsPlan_append, actionsPlan]
    rfl
  have exit_eq : ∀ i, flowPlan tight next ⟨label, front ++ .define ⟨header, g i⟩ :: back, flow⟩ flow
      = flowPlan tight next ⟨label, front ++ .define ⟨header, []⟩ :: back, flow⟩ flow := fun i =>
    flowPlan_congr (endsTerminal_define ..) _ _ _
  simp only [blockPlan, Slot.block, actions_eq, exit_eq]
  refine (h.between _ _).actions _ label ?_
  exact fun _ => rfl

theorem carries_block (same : ∀ i, (x i).length = width)
    (inner : ∀ next, Carries x good fun i => plan tight next (g i))
    (first : ∃ l, ∀ i, firstLabel? (g i) = l) (label : Label) (slot : Slot) (next : Option Label) :
    Carries x good fun i => blockPlan tight next (slot.block label (g i)) := by
  obtain ⟨l, first⟩ := first
  cases slot with
  | function front header back flow =>
    refine carries_define (Carries.function same (inner none) header ?_) label front back flow next
    exact fun _ => rfl
  | within actions =>
    simp only [blockPlan, Slot.block, flowPlan]
    refine ((inner next).within same).exit _ label ?_
    exact fun _ => rfl
  | tryBody actions handler finalizer =>
    simp only [blockPlan, Slot.block, flowPlan_protect, TryScope.handlerBlocks,
      TryScope.finalizerBlocks]
    refine ((inner _).tryBody same _ _ _ _).exit _ label ?_
    exact fun _ => rfl
  | tryHandler actions body target finalizer =>
    -- The body is followed by the first label of the handler, whatever stands behind that label.
    have body_next : ∀ i, clauseNext (some (g i)) (clauseNext finalizer next)
        = l.or (clauseNext finalizer next) := fun i => by rw [clauseNext, Option.bind_some, first]
    simp only [blockPlan, Slot.block, flowPlan_protect, TryScope.handlerBlocks,
      TryScope.finalizerBlocks, Option.map_some, Option.getD_some, body_next]
    refine ((inner _).tryHandler same _ _ _ _).exit _ label ?_
    exact fun _ => rfl
  | tryFinalizer actions body handler =>
    have handler_next : ∀ i, clauseNext (some (g i)) next = l.or next := fun i => by
      rw [clauseNext, Option.bind_some, first]
    simp only [blockPlan, Slot.block, flowPlan_protect, TryScope.handlerBlocks,
      TryScope.finalizerBlocks, Option.getD_some, Option.isSome_some, handler_next]
    refine ((inner _).tryFinalizer same _ _ _).exit _ label ?_
    exact fun _ => rfl

theorem label_block (slot : Slot) (label : Label) (g : List Block) :
    (slot.block label g).label = label := by
  cases slot <;> rfl

/-- The blocks around a block keep what its plan carries. -/
theorem carries_fill {c : Frame}
    (h : ∀ next, Carries x good fun i => blockPlan tight next (c.slot.block c.label (g i)))
    (next : Option Label) : Carries x good fun i => plan tight next (c.fill (g i)) := by
  have plan_eq : ∀ i, plan tight next (c.fill (g i)) = plan tight (some c.label) c.before
      ++ (blockPlan tight ((firstLabel? c.behind).or next) (c.slot.block c.label (g i))
        ++ plan tight next c.behind) := fun i => by
    rw [Frame.fill, plan_append, plan_cons, firstLabel?_cons, label_block, Option.some_or]
    rfl
  simp only [plan_eq]
  exact (h _).between _ _

theorem exists_firstLabel?_fill (c : Frame) : ∃ l, ∀ g, firstLabel? (c.fill g) = l := by
  refine ⟨(firstLabel? c.before).or (some c.label), fun g => ?_⟩
  rw [Frame.fill, firstLabel?_append, firstLabel?_cons, label_block]

/-- What a graph carries, it carries in any place. -/
theorem carries_plug (same : ∀ i, (x i).length = width)
    (inner : ∀ next, Carries x good fun i => plan tight next (g i))
    (first : ∃ l, ∀ i, firstLabel? (g i) = l) (outer : List Frame) (next : Option Label) :
    Carries x good fun i => plan tight next (plug outer (g i)) := by
  suffices h : (∀ next, Carries x good fun i => plan tight next (plug outer (g i)))
      ∧ ∃ l, ∀ i, firstLabel? (plug outer (g i)) = l from h.1 next
  induction outer with
  | nil => exact ⟨inner, first⟩
  | cons c outer ih =>
    obtain ⟨l, fill_first⟩ := exists_firstLabel?_fill c
    exact ⟨carries_fill fun next => carries_block same ih.1 ih.2 c.label c.slot next,
      l, fun i => fill_first _⟩

/-- The code of a function: its header and the finished code of its body. -/
def functionCode (tight : Bool) (header : FunctionHeader) (n : Nat) (body : List Block) : Bytes :=
  (Record.function header (UInt16.ofNat n)).write.bytes ++ (region (plan tight none body)).sealed

/-- Nothing in a function body stops lowering. -/
def BodySound (tight : Bool) (body : List Block) : Prop :=
  Sound (plan tight none body) ∧ (region (plan tight none body)).Resolvable

theorem length_functionCode {n : Nat} {body : List Block} (header : FunctionHeader)
    (sized : (region (plan tight none body)).size = n) :
    (functionCode tight header n body).length
      = (Record.function header (UInt16.ofNat n)).write.bytes.length + n := by
  rw [functionCode, List.length_append, Region.length_sealed, sized]

theorem carries_function {n : Nat} (header : FunctionHeader)
    (sized : ∀ i, (region (plan tight none (g i))).size = n) :
    Carries (fun i => functionCode tight header n (g i)) (fun i => BodySound tight (g i))
      (fun i => [.function ⟨header, g i⟩ (plan tight none (g i))]) := by
  constructor
  · refine ⟨Region.empty, Region.empty, Region.tidy_empty, Region.tidy_empty, fun i => ?_⟩
    rw [region, region, nodeRegion, sized, Region.empty_append]
    rfl
  · refine ⟨n ≤ 65535 ∧ (Record.function header (UInt16.ofNat n)).write.error? = none, fun i => ?_⟩
    rw [Sound, Sound, NodeSound, sized, and_true, BodySound, and_assoc]
    rfl

/-- A function in any place carries its code, if all bodies have the same size. -/
theorem carries_functionCode {n : Nat} {last : Frame} {header : FunctionHeader}
    (is_function : last.slot.header? = some header)
    (sized : ∀ i, (region (plan tight none (g i))).size = n) (outer : List Frame)
    (next : Option Label) :
    Carries (fun i => functionCode tight header n (g i)) (fun i => BodySound tight (g i))
      fun i => plan tight next (plug outer (last.fill (g i))) := by
  obtain ⟨l, first⟩ := exists_firstLabel?_fill last
  refine carries_plug (fun i => length_functionCode header (sized i)) ?_ ⟨l, fun i => first (g i)⟩
    outer next
  obtain ⟨before, label, slot, behind⟩ := last
  obtain ⟨front, back, flow, rfl⟩ := Slot.eq_function_of_header? is_function
  exact carries_fill fun next =>
    carries_define (carries_function header sized) label front back flow next

end Places

/-! ## §5 Nesting -/

theorem nesting_cons (b : Block) (rest : List Block) :
    nesting (b :: rest)
      = max (max (actionsNesting b.actions) (flowNesting b.flow)) (nesting rest) := by
  cases b
  rw [nesting]

theorem nesting_append (bs cs : List Block) :
    nesting (bs ++ cs) = max (nesting bs) (nesting cs) := by
  induction bs with
  | nil => simp [nesting]
  | cons b rest ih => simp only [List.cons_append, nesting_cons, ih, Nat.max_assoc]

theorem actionsNesting_append (xs ys : List Action) :
    actionsNesting (xs ++ ys) = max (actionsNesting xs) (actionsNesting ys) := by
  induction xs with
  | nil => simp [actionsNesting]
  | cons a rest ih =>
    rcases a with i | ⟨header, body⟩
    · rw [List.cons_append, actionsNesting, actionsNesting, ih]
    · rw [List.cons_append, actionsNesting, actionsNesting, ih, Nat.max_assoc]

theorem exists_nesting_block (slot : Slot) (label : Label) :
    ∃ m, ∀ g, max (actionsNesting (slot.block label g).actions) (flowNesting (slot.block label g).flow)
      = max m (nesting g + 1) := by
  cases slot with
  | function front header back flow =>
    refine ⟨max (max (actionsNesting front) (actionsNesting back)) (flowNesting flow), fun g => ?_⟩
    simp only [Slot.block, actionsNesting_append, actionsNesting]
    omega
  | within actions => exact ⟨actionsNesting actions, fun g => by simp only [Slot.block, flowNesting]⟩
  | tryBody actions handler finalizer =>
    refine ⟨max (actionsNesting actions) (flowNesting (.protect ⟨[], handler, finalizer⟩)), fun g => ?_⟩
    simp only [Slot.block, flowNesting_protect]
    simp only [nesting]
    omega
  | tryHandler actions body target finalizer =>
    refine ⟨max (actionsNesting actions) (flowNesting (.protect ⟨body, none, finalizer⟩)), fun g => ?_⟩
    simp only [Slot.block, flowNesting_protect, Option.elim_some, Option.elim_none]
    omega
  | tryFinalizer actions body handler =>
    refine ⟨max (actionsNesting actions) (flowNesting (.protect ⟨body, handler, none⟩)), fun g => ?_⟩
    simp only [Slot.block, flowNesting_protect, Option.elim_some, Option.elim_none]
    omega

/-- Every place is one level deeper than the graph around it. -/
theorem exists_nesting_plug (outer : List Frame) :
    ∃ m, ∀ g, nesting (plug outer g) = max m (nesting g + outer.length) := by
  induction outer with
  | nil => exact ⟨0, fun g => by simp [plug]⟩
  | cons c outer ih =>
    obtain ⟨m, plug_eq⟩ := ih
    obtain ⟨k, block_eq⟩ := exists_nesting_block c.slot c.label
    refine ⟨max (max (nesting c.before) (nesting c.behind)) (max k (m + 1)), fun g => ?_⟩
    have fill_eq : plug (c :: outer) g = c.fill (plug outer g) := rfl
    rw [fill_eq, Frame.fill, nesting_append, nesting_cons, block_eq, plug_eq, List.length_cons]
    omega

end Graph

/-! ## §6 Function bodies in the code of a graph -/

theorem length_of_lowerRegion {g : Graph} {o : Options} {code : Bytes}
    (lowered : lowerRegion g false o = .ok code) :
    code.length = Plan.size (Graph.plan o.suppressUnreachableTail none g) := by
  obtain ⟨-, -, -, rfl⟩ := lowerRegion_eq_ok_iff.mp lowered
  rw [List.length_append, Region.length_sealed]
  rfl

/-- Bodies of one size in a place: the graph has code if the body has, and the rest of the graph
    allows it. The code around the body is always the same. -/
theorem exists_lowerRegion_plug_iff (outer : List Frame) {last : Frame} {header : FunctionHeader}
    (is_function : last.slot.header? = some header) (terminate : Bool) (o : Options) (n : Nat) :
    ∃ (shared : Prop) (front back : Bytes), ∀ body,
      Plan.size (Graph.plan o.suppressUnreachableTail none body) = n → ∀ bytes,
        (lowerRegion (plug outer (last.fill body)) terminate o = .ok bytes ↔ shared ∧
          ∃ code, lowerRegion body false { o with maxDepth := o.maxDepth - (outer.length + 1) }
              = .ok code
            ∧ bytes = front ++ ((Record.function header (UInt16.ofNat n)).write.bytes
              ++ (code ++ back))) := by
  let Body := { b : List Block // Plan.size (Graph.plan o.suppressUnreachableTail none b) = n }
  have carried := Graph.carries_functionCode (g := fun b : Body => b.val) is_function
    (fun b => b.property) outer none
  have same := fun b : Body => Graph.length_functionCode header b.property
  obtain ⟨resolved, resolvable_iff⟩ := carried.exists_resolvable_iff same
  obtain ⟨shared, sound_iff⟩ := carried.sound_iff
  obtain ⟨head, tail, sealed_eq⟩ := carried.exists_sealed_eq same
  obtain ⟨m, nesting_eq⟩ := Graph.exists_nesting_plug (outer ++ [last])
  refine ⟨(m ≤ o.maxDepth ∧ outer.length + 1 ≤ o.maxDepth) ∧ shared ∧ resolved, head,
    tail ++ Region.terminator terminate, fun b hb bytes => ?_⟩
  have nesting_b : Graph.nesting (plug outer (last.fill b))
      = max m (Graph.nesting b + (outer.length + 1)) := by
    simpa [plug] using nesting_eq b
  rw [lowerRegion_eq_ok_iff, nesting_b, sound_iff ⟨b, hb⟩, resolvable_iff ⟨b, hb⟩, sealed_eq ⟨b, hb⟩]
  simp only [lowerRegion_eq_ok_iff, Graph.functionCode, Graph.BodySound, Region.terminator,
    Bool.false_eq_true, if_false, List.append_nil, List.append_assoc]
  constructor
  · rintro ⟨fits, ⟨⟨sound_b, resolvable_b⟩, rest_sound⟩, rest_resolved, rfl⟩
    exact ⟨⟨⟨by omega, by omega⟩, rest_sound, rest_resolved⟩, _,
      ⟨by omega, sound_b, resolvable_b, rfl⟩, rfl⟩
  · rintro ⟨⟨⟨fits, deep⟩, rest_sound, rest_resolved⟩, _, ⟨fits_b, sound_b, resolvable_b, rfl⟩, rfl⟩
    exact ⟨by omega, ⟨⟨sound_b, resolvable_b⟩, rest_sound⟩, rest_resolved, rfl⟩

/-- Every function body of a graph that has code stands in a place of the graph. The code of a body
    in such a place, lowered on its own with the nesting that is left, stands in the code of the
    graph right behind the header of the function. Another body with code of the same size can take
    its place: nothing else changes. -/
theorem lowerRegion_embeds_bodies {g : Graph} {terminate : Bool} {o : Options} {bytes : Bytes}
    (lowered : lowerRegion g terminate o = .ok bytes) :
    (∀ body ∈ Graph.innerRegions g, ∃ (outer : List Frame) (last : Frame) (header : FunctionHeader),
      last.slot.header? = some header ∧ g = plug outer (last.fill body))
    ∧ ∀ (outer : List Frame) (last : Frame) (header : FunctionHeader) (body : Graph),
      last.slot.header? = some header → g = plug outer (last.fill body) →
      let o' := { o with maxDepth := o.maxDepth - (outer.length + 1) }
      ∃ front code back, lowerRegion body false o' = .ok code
        ∧ bytes = front ++ ((Record.function header (UInt16.ofNat code.length)).write.bytes
          ++ (code ++ back))
        ∧ ∀ body' code', lowerRegion body' false o' = .ok code' → code'.length = code.length →
          lowerRegion (plug outer (last.fill body')) terminate o
            = .ok (front ++ ((Record.function header (UInt16.ofNat code.length)).write.bytes
              ++ (code' ++ back))) := by
  refine ⟨fun body hbody => Graph.exists_plug_of_mem_innerRegions hbody, ?_⟩
  intro outer last header body is_function g_eq o'
  obtain ⟨shared, front, back, lowered_iff⟩ := exists_lowerRegion_plug_iff outer is_function
    terminate o (Plan.size (Graph.plan o.suppressUnreachableTail none body))
  subst g_eq
  obtain ⟨allowed, code, body_lowered, bytes_eq⟩ := (lowered_iff body rfl bytes).mp lowered
  have length_eq := length_of_lowerRegion body_lowered
  rw [← length_eq] at bytes_eq
  refine ⟨front, code, back, body_lowered, bytes_eq, ?_⟩
  intro body' code' body_lowered' same_length
  have length_eq' := length_of_lowerRegion body_lowered'
  rw [same_length, length_eq] at length_eq'
  rw [length_eq]
  exact (lowered_iff body' length_eq'.symm _).mpr ⟨allowed, code', body_lowered', rfl⟩

theorem guardedLoop_embeds_body : ∃ bytes front code back,
    lowerRegion guardedLoop true {} = .ok bytes
      ∧ lowerRegion [⟨⟨"start"⟩, [.plain (.push [.null])], .branch ⟨"start"⟩ none⟩] false
        { maxDepth := 255 } = .ok code
      ∧ bytes = front ++ ((Record.function (.classic "f" ["x"]) (UInt16.ofNat code.length)).write.bytes
        ++ (code ++ back)) := by
  obtain ⟨-, embedded⟩ := lowerRegion_embeds_bodies lowerRegion_guardedLoop
  obtain ⟨front, code, back, body_lowered, bytes_eq, -⟩ := embedded []
    ⟨[], ⟨"start"⟩, .function [] (.classic "f" ["x"]) [] _, _⟩ _ _ rfl rfl
  exact ⟨_, front, code, back, lowerRegion_guardedLoop, body_lowered, bytes_eq⟩

end ActionFlow
