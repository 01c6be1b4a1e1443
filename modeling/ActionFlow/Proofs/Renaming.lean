import ActionFlow.Proofs.References

/-!
# Renaming labels

The labels of each region are renamed one-to-one. Different regions can be renamed differently, also
those of functions inside of each other, because a label is never looked up outside of its region.
Here is what becomes of the parts of a graph: which labels a region defines, which one it repeats,
what follows a block, and how a region with its labels renamed is resolved.

## Main statements

- `Renaming`: a one-to-one renaming for each region, given by its path from the graph down.
- `Graph.rename`: the graph with its labels renamed.
- `Graph.Located`: the path to a region, where the functions before it are counted.
- `Graph.regionLabels_renameBlocks`, `Graph.repeatedLabel?_renameBlocks`: labels after renaming.
- `Region.patches_rename`: a renamed region is resolved in the same way.
-/

namespace ActionFlow

/-! ## §1 Renaming a graph -/

/-- A renaming of labels for each region below a graph. The path of a region says which function of
    the graph it is in, which function of that body, and so on; functions are counted in each
    region in the order of their definitions. -/
structure Renaming where
  map : List Nat → Label → Label
  injective : ∀ path, Function.Injective (map path)

namespace Renaming

/-- The renaming of the graph itself. -/
def own (σ : Renaming) : Label → Label := σ.map []

theorem own_injective (σ : Renaming) : Function.Injective σ.own := σ.injective []

/-- The renaming of the regions below the body of a function. -/
def inside (σ : Renaming) (k : Nat) : Renaming where
  map path := σ.map (k :: path)
  injective path := σ.injective (k :: path)

end Renaming

namespace Graph

/-- The bodies of the functions that actions define. -/
def actionBodies (actions : List Action) : List Graph := actions.filterMap Action.functionBody?

/-- The bodies of the functions that the clauses of a flow define. -/
def flowBodies (flow : Flow) : List Graph := flow.clauses.flatMap functionBodies

mutual

/-- The blocks with their labels renamed, where `k` functions of the region stand before them. -/
def renameBlocks (σ : Renaming) (k : Nat) : List Block → List Block
  | [] => []
  | ⟨label, actions, flow⟩ :: rest =>
    -- Functions are counted in the order of the layout: actions, clauses, blocks behind.
    ⟨σ.own label, renameActions σ k actions, renameFlow σ (k + (actionBodies actions).length) flow⟩
      :: renameBlocks σ (k + (actionBodies actions).length + (flowBodies flow).length) rest

/-- The actions with the bodies of their functions renamed. -/
def renameActions (σ : Renaming) (k : Nat) : List Action → List Action
  | [] => []
  | .plain i :: rest => .plain i :: renameActions σ k rest
  | .define ⟨header, body⟩ :: rest =>
    -- A body is a region of its own, in which the count starts again.
    .define ⟨header, renameBlocks (σ.inside k) 0 body⟩ :: renameActions σ (k + 1) rest

/-- The flow with its targets and the labels in its clauses renamed. -/
def renameFlow (σ : Renaming) (k : Nat) : Flow → Flow
  | .simple next => .simple (next.map σ.own)
  | .branch onTrue onFalse => .branch (σ.own onTrue) (onFalse.map σ.own)
  | .leave => .leave
  | .raise => .raise
  | .broken note => .broken note
  | .waitForFrame frame ready loading => .waitForFrame frame (σ.own ready) (σ.own loading)
  | .waitForFrame2 ready loading => .waitForFrame2 (σ.own ready) (σ.own loading)
  | .within body => .within (renameBlocks σ k body)
  | .protect ⟨body, handler, finalizer⟩ =>
    let inHandler := k + (functionBodies body).length
    let inFinalizer := inHandler
      + (functionBodies (TryScope.handlerBlocks ⟨body, handler, finalizer⟩)).length
    .protect ⟨renameBlocks σ k body,
      match handler with
        | some ⟨target, clause⟩ => some ⟨target, renameBlocks σ inHandler clause⟩
        | none => none,
      match finalizer with
        | some clause => some (renameBlocks σ inFinalizer clause)
        | none => none⟩

end

/-- The graph with the labels of each region renamed. -/
def rename (σ : Renaming) (g : Graph) : Graph := renameBlocks σ 0 g

theorem renameFlow_protect (σ : Renaming) (k : Nat) (t : TryScope) :
    renameFlow σ k (.protect t) = .protect ⟨renameBlocks σ k t.body,
      t.handler.map fun h =>
        ⟨h.target, renameBlocks σ (k + (functionBodies t.body).length) h.body⟩,
      t.finalizer.map (renameBlocks σ (k + (functionBodies t.body).length
        + (functionBodies t.handlerBlocks).length))⟩ := by
  rcases t with ⟨body, _ | ⟨target, clause⟩, _ | finish⟩
  all_goals rfl

theorem functionBodies_cons (label : Label) (actions : List Action) (flow : Flow)
    (rest : List Block) :
    functionBodies (⟨label, actions, flow⟩ :: rest)
      = actionBodies actions ++ (flowBodies flow ++ functionBodies rest) := by
  have in_clauses : (flowLayout flow).flatMap (fun b => b.actions.filterMap Action.functionBody?)
      = flowBodies flow := by
    rw [flowLayout_eq_flatMap, List.flatMap_assoc]
    rfl
  rw [functionBodies, layout, List.flatMap_cons, List.flatMap_append, in_clauses]
  rfl

/-! ## §2 Paths to regions -/

/-- The region at the end of a path. -/
def regionAt? (g : Graph) : List Nat → Option Graph
  | [] => some g
  | k :: path => (functionBodies g)[k]?.bind fun body => regionAt? body path

/-- The path leads to the region through one of the function bodies, where the first of them has
    the number `k`. -/
def Located (bodies : List Graph) (k : Nat) (path : List Nat) (r : Graph) : Prop :=
  ∃ i body inner, bodies[i]? = some body ∧ regionAt? body inner = some r ∧ path = (k + i) :: inner

namespace Located

variable {bodies others : List Graph} {k : Nat} {path : List Nat} {r body : Graph}

theorem append_right (h : Located bodies k path r) : Located (bodies ++ others) k path r := by
  obtain ⟨i, body, inner, found, below, rfl⟩ := h
  refine ⟨i, body, inner, ?_, below, rfl⟩
  obtain ⟨bound, -⟩ := List.getElem?_eq_some_iff.mp found
  rw [List.getElem?_append_left bound, found]

theorem append_left (h : Located bodies (k + others.length) path r) :
    Located (others ++ bodies) k path r := by
  obtain ⟨i, body, inner, found, below, rfl⟩ := h
  refine ⟨others.length + i, body, inner, ?_, below, by rw [Nat.add_assoc]⟩
  rw [List.getElem?_append_right (Nat.le_add_right _ _), Nat.add_sub_cancel_left, found]

theorem regionAt?_eq (h : Located (functionBodies body) 0 path r) : regionAt? body path = some r := by
  obtain ⟨i, inner_body, inner, found, below, rfl⟩ := h
  rw [regionAt?, Nat.zero_add, found, Option.bind_some, below]

theorem of_regionAt? (h : regionAt? body path = some r) :
    Located (body :: others) k (k :: path) r :=
  ⟨0, body, path, rfl, h, rfl⟩

end Located

/-- The functions of a region are those in the actions of its first block, in the clauses of that
    block, and in the blocks behind it. -/
theorem located_cons {label : Label} {actions : List Action} {flow : Flow} {rest : List Block}
    (k : Nat) (path : List Nat) (r : Graph) :
    (Located (actionBodies actions) k path r →
        Located (functionBodies (⟨label, actions, flow⟩ :: rest)) k path r)
      ∧ (Located (flowBodies flow) (k + (actionBodies actions).length) path r →
        Located (functionBodies (⟨label, actions, flow⟩ :: rest)) k path r)
      ∧ (Located (functionBodies rest)
          (k + (actionBodies actions).length + (flowBodies flow).length) path r →
        Located (functionBodies (⟨label, actions, flow⟩ :: rest)) k path r) := by
  rw [functionBodies_cons]
  refine ⟨?_, ?_, ?_⟩
  · exact fun in_actions => in_actions.append_right
  · exact fun in_flow => in_flow.append_right.append_left
  · exact fun in_rest => in_rest.append_left.append_left

/-- The functions in the clauses of a try are counted from one clause to the next. -/
theorem located_clauses (t : TryScope) (k : Nat) (path : List Nat) (r : Graph) :
    (Located (functionBodies t.body) k path r → Located (flowBodies (.protect t)) k path r)
      ∧ (Located (functionBodies t.handlerBlocks) (k + (functionBodies t.body).length) path r →
        Located (flowBodies (.protect t)) k path r)
      ∧ (Located (functionBodies t.finalizerBlocks) (k + (functionBodies t.body).length
          + (functionBodies t.handlerBlocks).length) path r →
        Located (flowBodies (.protect t)) k path r) := by
  have bodies_eq : flowBodies (.protect t) = functionBodies t.body
      ++ (functionBodies t.handlerBlocks ++ functionBodies t.finalizerBlocks) := by
    simp [flowBodies, Flow.clauses]
  rw [bodies_eq]
  refine ⟨?_, ?_, ?_⟩
  · exact fun in_body => in_body.append_right
  · exact fun in_handler => in_handler.append_right.append_left
  · exact fun in_finalizer => in_finalizer.append_left.append_left

/-- The blocks become a part of a flow or of a graph whose functions are counted from `k`. -/
def Part (σ : Renaming) (bodies : List Graph) (k : Nat) (c c' : Graph) : Prop :=
  ∃ j, c' = renameBlocks σ j c
    ∧ ∀ path r, Located (functionBodies c) j path r → Located bodies k path r

theorem handlerBlocks_map (σ : Renaming) (k : Nat) (t : TryScope) (body : List Block)
    (finalizer : Option (List Block)) :
    TryScope.handlerBlocks ⟨body, t.handler.map fun h => ⟨h.target, renameBlocks σ k h.body⟩,
      finalizer⟩ = renameBlocks σ k t.handlerBlocks := by
  rcases t with ⟨_, _ | h, _⟩ <;> rfl

theorem finalizerBlocks_map (σ : Renaming) (k : Nat) (t : TryScope) (body : List Block)
    (handler : Option Handler) :
    TryScope.finalizerBlocks ⟨body, handler, t.finalizer.map (renameBlocks σ k)⟩
      = renameBlocks σ k t.finalizerBlocks := by
  rcases t with ⟨_, _, _ | c⟩ <;> rfl

/-- The clauses of a renamed flow are those of the flow, renamed. -/
theorem parts_renameFlow (σ : Renaming) (k : Nat) (flow : Flow) :
    List.Forall₂ (Part σ (flowBodies flow) k) flow.clauses (renameFlow σ k flow).clauses := by
  cases flow with
  | within body =>
    refine .cons ⟨k, rfl, fun path r h => ?_⟩ .nil
    simpa [flowBodies, Flow.clauses] using h
  | protect t =>
    rw [renameFlow_protect]
    simp only [Flow.clauses, handlerBlocks_map, finalizerBlocks_map]
    refine .cons ⟨k, rfl, ?_⟩ (.cons ⟨_, rfl, ?_⟩ (.cons ⟨_, rfl, ?_⟩ .nil))
    · exact fun path r => (located_clauses t k path r).1
    · exact fun path r => (located_clauses t k path r).2.1
    · exact fun path r => (located_clauses t k path r).2.2
  | _ => exact .nil

/-! ## §3 Labels after renaming -/

theorem firstLabel?_renameBlocks (σ : Renaming) (k : Nat) (g : Graph) :
    firstLabel? (renameBlocks σ k g) = (firstLabel? g).map σ.own := by
  cases g with
  | nil => rfl
  | cons b rest =>
    cases b
    rw [renameBlocks]
    rfl

theorem clauseNext_renameBlocks (σ : Renaming) (k : Nat) (clause : Option (List Block))
    (next : Option Label) :
    clauseNext (clause.map (renameBlocks σ k)) (next.map σ.own)
      = (clauseNext clause next).map σ.own := by
  cases clause with
  | none => rfl
  | some c =>
    simp only [clauseNext, Option.map_some, Option.bind_some, firstLabel?_renameBlocks]
    cases firstLabel? c <;> rfl

theorem endsTerminal_eq (b : Block) :
    b.endsTerminal = ((b.actions.map Action.isTerminal).getLast?).getD false := by
  rw [Block.endsTerminal, List.getLast?_map]
  cases b.actions.getLast? <;> rfl

theorem map_isTerminal_renameActions (σ : Renaming) (k : Nat) (actions : List Action) :
    (renameActions σ k actions).map Action.isTerminal = actions.map Action.isTerminal := by
  induction actions generalizing k with
  | nil => rfl
  | cons a rest ih =>
    rcases a with i | ⟨header, body⟩
    · rw [renameActions, List.map_cons, ih, List.map_cons]
    · rw [renameActions, List.map_cons, ih, List.map_cons]
      rfl

theorem regionLabels_renameBlocks (σ : Renaming) (g : Graph) (k : Nat) :
    regionLabels (renameBlocks σ k g) = (regionLabels g).map σ.own := by
  induction g using induction generalizing k with
  | nil => rfl
  | cons label actions flow rest _ clauses_ih rest_ih =>
    have in_clauses : ∀ flow : Flow,
        (flowLayout flow).map Block.label = (flow.clauses.map regionLabels).flatten := by
      intro flow
      rw [flowLayout_eq_flatMap, List.map_flatMap]
      rfl
    -- Each clause is renamed with a count of its own, which its labels do not depend on.
    have clauses_eq : flow.clauses.map (fun c => (regionLabels c).map σ.own)
        = (renameFlow σ (k + (actionBodies actions).length) flow).clauses.map regionLabels := by
      apply map_eq_map_of_forall₂
      refine ((List.forall₂_and_left _ _).mpr ⟨clauses_ih, parts_renameFlow σ _ flow⟩).imp ?_
      rintro c c' ⟨renamed, j, rfl, -⟩
      exact (renamed j).symm
    rw [renameBlocks, regionLabels_cons, regionLabels_cons, rest_ih]
    simp only [in_clauses, ← clauses_eq]
    simp [List.map_flatten, Function.comp_def]

theorem firstRepeat_map {f : Label → Label} (inj : Function.Injective f) (seen ls : List Label) :
    Label.firstRepeat (seen.map f) (ls.map f) = (Label.firstRepeat seen ls).map f := by
  induction ls generalizing seen with
  | nil => rfl
  | cons l ls ih =>
    rw [List.map_cons, Label.firstRepeat, Label.firstRepeat, ← List.map_cons, ih]
    by_cases again : l ∈ seen
    · rw [if_pos again, if_pos (List.mem_map_of_mem again)]
      rfl
    · rw [if_neg again, if_neg (mt (List.mem_map_of_injective inj).mp again)]

theorem repeatedLabel?_renameBlocks (σ : Renaming) (k : Nat) (g : Graph) :
    repeatedLabel? (renameBlocks σ k g) = (repeatedLabel? g).map σ.own := by
  rw [repeatedLabel?, regionLabels_renameBlocks]
  exact firstRepeat_map σ.own_injective [] (regionLabels g)

end Graph

/-! ## §4 Regions after renaming -/

/-- The error with its label renamed, if it has one. -/
def LowerError.rename (f : Label → Label) : LowerError → LowerError
  | .labelNotFound label site => .labelNotFound (f label) site
  | .duplicateLabel label => .duplicateLabel (f label)
  | e => e

theorem LowerError.rename_of_local {e : LowerError} (h : e.Local) (f : Label → Label) :
    e.rename f = e := by
  cases e with
  | labelNotFound label site => cases h
  | duplicateLabel label => cases h
  | _ => rfl

/-- The branch with its target renamed. -/
def Jump.rename (f : Label → Label) (j : Jump) : Jump := { j with target := j.target.map f }

namespace Region

/-- The region with its labels and the targets of its branches renamed. -/
def rename (f : Label → Label) (r : Region) : Region :=
  { r with labels := r.labels.map fun x => (f x.1, x.2), jumps := r.jumps.map (Jump.rename f) }

variable (f : Label → Label)

@[simp] theorem size_rename (r : Region) : (r.rename f).size = r.size := rfl

@[simp] theorem rename_ofCode (code : Bytes) : (ofCode code).rename f = ofCode code := rfl

@[simp] theorem rename_define (l : Label) : (define l).rename f = define (f l) := rfl

@[simp] theorem rename_branching (code : Bytes) (target : Label) :
    (branching code target).rename f = branching code (f target) := rfl

@[simp] theorem rename_append (a b : Region) : (a ++ b).rename f = a.rename f ++ b.rename f := by
  show (append a b).rename f = append (a.rename f) (b.rename f)
  simp only [rename, append, shift, size, List.map_append, List.map_map]
  rfl

theorem openJumps_rename (r : Region) : (r.rename f).openJumps = r.openJumps.map (Jump.rename f) := by
  have order : ∀ j k : Jump, (j.rename f).site < (k.rename f).site ↔ j.site < k.site :=
    fun _ _ => Iff.rfl
  exact Jump.foldr_insertNew_map order r.jumps

variable {f}

theorem offset?_rename (inj : Function.Injective f) (r : Region) (l : Label) :
    (r.rename f).offset? (f l) = r.offset? l := by
  have found := lookup_map_of_injective inj id r.labels.reverse l
  rw [offset?, rename, ← List.map_reverse, offset?]
  simpa using found

theorem resolve?_rename (inj : Function.Injective f) (r : Region) (stop : Nat) (j : Jump) :
    resolve? (r.rename f).offset? stop (j.rename f)
      = (resolve? r.offset? stop j).mapError (LowerError.rename f) := by
  obtain ⟨site, target⟩ := j
  cases target with
  | none =>
    simp only [Jump.rename, resolve?, Option.map_none, Option.elim_none]
    cases branchDelta? (site + 2) stop <;> rfl
  | some l =>
    simp only [Jump.rename, resolve?, Option.map_some, Option.elim_some, offset?_rename inj]
    cases r.offset? l with
    | none => rfl
    | some p =>
      simp only
      cases branchDelta? (site + 2) p <;> rfl

theorem resolveAll_rename (inj : Function.Injective f) (r : Region) (stop : Nat) (js : List Jump) :
    resolveAll (r.rename f).offset? stop (js.map (Jump.rename f))
      = ((resolveAll r.offset? stop js).1,
        (resolveAll r.offset? stop js).2.map (LowerError.rename f)) := by
  induction js with
  | nil => rfl
  | cons j js ih =>
    rw [List.map_cons, resolveAll, resolveAll, resolve?_rename inj, ih]
    cases resolve? r.offset? stop j <;> rfl

theorem patches_rename (inj : Function.Injective f) (r : Region) (stop : Nat) :
    (r.rename f).patches stop
      = ((r.patches stop).1, (r.patches stop).2.map (LowerError.rename f)) := by
  rw [patches_eq_resolveAll, patches_eq_resolveAll, openJumps_rename, resolveAll_rename inj]

end Region

theorem continuation_rename {f : Label → Label} (inj : Function.Injective f)
    (target next : Option Label) :
    continuation (target.map f) (next.map f) = (continuation target next).rename f := by
  unfold continuation
  by_cases elided : target = next
  · rw [if_pos elided, if_pos (congrArg _ elided)]
    rfl
  · rw [if_neg elided, if_neg (mt (Option.map_injective inj).eq_iff.mp elided)]
    cases target <;> rfl

end ActionFlow
