import ActionFlow.Validation

/-!
# The parts of a graph

A graph holds other graphs in two places: the functions that its blocks define, and the clauses and
scopes that their flows run. An absent clause is taken as an empty one, so that every try has three.

## Main statements

- `Flow.clauses`: the graphs that a flow runs as part of its region.
- `Graph.induction`: induction over a graph and all the graphs in it.
- `Graph.everyBlock`: every block of a graph, at any depth.
-/

namespace ActionFlow

/-! ## §1 Clauses -/

namespace TryScope

/-- The blocks of the catch clause, if there is one. -/
def handlerBlocks (t : TryScope) : List Block := (t.handler.map Handler.body).getD []

/-- The blocks of the finally clause, if there is one. -/
def finalizerBlocks (t : TryScope) : List Block := t.finalizer.getD []

end TryScope

/-- The graphs that a flow runs as part of its region, in the order in which they are written. -/
def Flow.clauses : Flow → List (List Block)
  | .within body => [body]
  | .protect t => [t.body, t.handlerBlocks, t.finalizerBlocks]
  | _ => []

/-- What holds of the clauses of a try holds of its body, and of the other clauses that are there. -/
theorem Flow.forall_clauses_protect {P : List Block → Prop} {body : List Block}
    {handler : Option Handler} {finalizer : Option (List Block)}
    (h : ∀ c ∈ (Flow.protect ⟨body, handler, finalizer⟩).clauses, P c) :
    P body ∧ (∀ clause ∈ handler, P clause.body) ∧ ∀ clause ∈ finalizer, P clause := by
  refine ⟨h body (by simp [clauses]), ?_, ?_⟩
  · rintro clause rfl
    exact h clause.body (by simp [clauses, TryScope.handlerBlocks])
  · rintro clause rfl
    exact h clause (by simp [clauses, TryScope.finalizerBlocks])

namespace Graph

theorem flowLayout_eq_flatMap (flow : Flow) : flowLayout flow = flow.clauses.flatMap layout := by
  rcases flow with _ | _ | _ | _ | _ | ⟨body, handler, finalizer⟩ | body | _ | _
  case protect =>
    rcases handler with _ | ⟨target, clause⟩ <;> rcases finalizer with _ | finish
    all_goals simp [flowLayout, Flow.clauses, TryScope.handlerBlocks, TryScope.finalizerBlocks, layout]
  all_goals simp [flowLayout, Flow.clauses]

/-- Regions are listed from the back. -/
theorem flowRegions_eq_flatMap (flow : Flow) :
    flowRegions flow = flow.clauses.reverse.flatMap innerRegions := by
  rcases flow with _ | _ | _ | _ | _ | ⟨body, handler, finalizer⟩ | body | _ | _
  case protect =>
    rcases handler with _ | ⟨target, clause⟩ <;> rcases finalizer with _ | finish
    all_goals simp [flowRegions, Flow.clauses, TryScope.handlerBlocks, TryScope.finalizerBlocks,
      innerRegions]
  all_goals simp [flowRegions, Flow.clauses]

/-! ## §2 Induction -/

/-- A property of graphs that passes from the graphs in a graph to the graph. -/
structure Hereditary (P : List Block → Prop) : Prop where
  nil : P []
  cons : ∀ label actions flow rest, (∀ f, Action.define f ∈ actions → P f.body) →
    (∀ c ∈ flow.clauses, P c) → P rest → P (⟨label, actions, flow⟩ :: rest)

mutual

theorem Hereditary.graph {P : List Block → Prop} (h : Hereditary P) : ∀ g, P g
  | [] => h.nil
  | ⟨label, actions, flow⟩ :: rest =>
    h.cons label actions flow rest (Hereditary.bodies h actions) (Hereditary.clauses h flow)
      (Hereditary.graph h rest)

theorem Hereditary.bodies {P : List Block → Prop} (h : Hereditary P) :
    ∀ (actions : List Action) (f : Function), Action.define f ∈ actions → P f.body
  | [], _, hf => by simp at hf
  | .plain _ :: rest, f, hf => Hereditary.bodies h rest f (by simpa using hf)
  | .define ⟨header, body⟩ :: rest, f, hf => by
    rcases List.mem_cons.mp hf with heq | hmem
    · obtain rfl := Action.define.inj heq
      exact Hereditary.graph h body
    · exact Hereditary.bodies h rest f hmem

theorem Hereditary.clauses {P : List Block → Prop} (h : Hereditary P) :
    ∀ (flow : Flow), ∀ c ∈ flow.clauses, P c
  | .within body => by simpa [Flow.clauses] using Hereditary.graph h body
  | .protect ⟨body, handler, finalizer⟩ => by
    simp only [Flow.clauses, List.mem_cons, List.not_mem_nil, or_false, forall_eq_or_imp, forall_eq]
    refine ⟨Hereditary.graph h body, ?_, ?_⟩
    · rcases handler with _ | ⟨target, clause⟩
      · exact h.nil
      · exact Hereditary.graph h clause
    · rcases finalizer with _ | clause
      · exact h.nil
      · exact Hereditary.graph h clause
  | .simple _ => by simp [Flow.clauses]
  | .branch _ _ => by simp [Flow.clauses]
  | .leave => by simp [Flow.clauses]
  | .raise => by simp [Flow.clauses]
  | .broken _ => by simp [Flow.clauses]
  | .waitForFrame _ _ _ => by simp [Flow.clauses]
  | .waitForFrame2 _ _ => by simp [Flow.clauses]

end

/-- Induction over a graph and all the graphs in it: the bodies of the functions that the first
    block defines, the clauses of its flow, and the blocks behind it. -/
theorem induction {P : List Block → Prop} (nil : P [])
    (cons : ∀ label actions flow rest, (∀ f, Action.define f ∈ actions → P f.body) →
      (∀ c ∈ flow.clauses, P c) → P rest → P (⟨label, actions, flow⟩ :: rest)) (g : List Block) :
    P g :=
  Hereditary.graph ⟨nil, cons⟩ g

/-! ## §3 Every block -/

/-- Every block of a graph: those of its clauses and scopes, and those of function bodies. -/
def everyBlock (g : Graph) : List Block := (regions g).flatMap layout

theorem mem_actionRegions {r : Graph} {actions : List Action} :
    r ∈ actionRegions actions ↔ ∃ f, Action.define f ∈ actions ∧ r ∈ regions f.body := by
  induction actions with
  | nil => simp [actionRegions]
  | cons a rest ih =>
    rcases a with i | ⟨header, body⟩
    · simp [actionRegions, ih]
    · simp [actionRegions, ih, regions, or_comm]

/-- The blocks of a graph are its first block, those in its functions and clauses, and those behind
    it. -/
theorem mem_everyBlock_cons {b : Block} {label : Label} {actions : List Action} {flow : Flow}
    {rest : List Block} :
    b ∈ everyBlock (⟨label, actions, flow⟩ :: rest) ↔
      b = ⟨label, actions, flow⟩ ∨ (∃ f, Action.define f ∈ actions ∧ b ∈ everyBlock f.body)
        ∨ (∃ c ∈ flow.clauses, b ∈ everyBlock c) ∨ b ∈ everyBlock rest := by
  simp only [everyBlock, regions, innerRegions, layout, flowLayout_eq_flatMap, List.flatMap_cons,
    flowRegions_eq_flatMap]
  simp only [List.mem_append, List.mem_cons, List.mem_flatMap, mem_actionRegions, List.mem_reverse,
    regions]
  grind

end Graph

end ActionFlow
