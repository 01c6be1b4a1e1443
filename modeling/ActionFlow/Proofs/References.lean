import ActionFlow.Proofs.Faults

/-!
# References to labels

The blocks of a region name labels as places to go to. Lowering looks up a label only where it
writes a branch: a block that is followed by its target gets none, so its reference is never looked
up. Nothing is missed by this, because what follows a block is known by a label only if a block of
the same region has it. The labels that are looked up and not found are therefore exactly the
dangling ones: those that a region names and does not define.

## Main statements

- `Graph.references`, `Graph.Closed`: the labels that a region names, and that it defines them all.
- `Region.mentions`: the labels that the branches of a region look up.
- `Graph.accounts_plan`: a label is looked up only if it is named, and a label that is named is
  looked up, or defined, or known to follow.
- `lowerRegion_reports_dangling`: lowering succeeds on closed regions only, and reports a missing
  label only if it is dangling.
-/

namespace ActionFlow

/-! ## §1 The labels that a region names -/

/-- The labels that a flow names as places to go to. A suppressed continuation names none. -/
def Flow.references (suppressed : Bool) : Flow → List Label
  | .simple next => if suppressed then [] else next.toList
  | .branch onTrue onFalse => onTrue :: onFalse.toList
  | .waitForFrame _ ready loading => [ready, loading]
  | .waitForFrame2 ready loading => [ready, loading]
  | _ => []

/-- The labels that a block names. With `tight`, a block that ends with a terminal action does not
    continue anywhere. -/
def Block.references (tight : Bool) (b : Block) : List Label :=
  b.flow.references (tight && b.endsTerminal)

namespace Graph

/-- The labels that the blocks of a region name: those of clauses are included, those of function
    bodies are not. -/
def references (tight : Bool) (g : Graph) : List Label :=
  (layout g).flatMap (Block.references tight)

/-- The region defines every label that it names. -/
def Closed (tight : Bool) (g : Graph) : Prop :=
  ∀ l ∈ references tight g, l ∈ regionLabels g

instance (tight : Bool) (g : Graph) : Decidable (Closed tight g) :=
  inferInstanceAs (Decidable (∀ l ∈ references tight g, l ∈ regionLabels g))

theorem references_cons (tight : Bool) (b : Block) (rest : List Block) :
    references tight (b :: rest)
      = b.references tight ++ (flowLayout b.flow).flatMap (Block.references tight)
        ++ references tight rest := by
  cases b
  simp [references, layout]

theorem regionLabels_cons (b : Block) (rest : List Block) :
    regionLabels (b :: rest)
      = b.label :: (flowLayout b.flow).map Block.label ++ regionLabels rest := by
  cases b
  simp [regionLabels, layout]

theorem mem_regionLabels_of_firstLabel? {g : Graph} {l : Label} (h : firstLabel? g = some l) :
    l ∈ regionLabels g := by
  cases g with
  | nil => simp [firstLabel?] at h
  | cons b rest =>
    obtain rfl : b.label = l := by simpa [firstLabel?] using h
    simp [regionLabels_cons]

end Graph

/-! ## §2 The labels that branches look up -/

namespace Region

/-- The labels that the branches of a region look up, in written order. -/
def mentions (r : Region) : List Label := r.jumps.filterMap Jump.target

@[simp] theorem mentions_append (a b : Region) : (a ++ b).mentions = a.mentions ++ b.mentions := by
  have same : Jump.target ∘ Jump.shift a.size = Jump.target := rfl
  rw [mentions, jumps_append, List.filterMap_append, List.filterMap_map, same]
  rfl

@[simp] theorem mentions_ofCode (code : Bytes) : (ofCode code).mentions = [] := rfl

@[simp] theorem mentions_define (l : Label) : (define l).mentions = [] := rfl

@[simp] theorem mentions_transfer (kind : BranchKind) (target : Label) :
    (Plan.nodeRegion (.transfer kind target)).mentions = [target] := rfl

end Region

theorem Plan.mentions_continuation (target next : Option Label) :
    (region (continuation target next)).mentions = if target = next then [] else target.toList := by
  unfold continuation
  split
  · rfl
  · cases target <;> rfl

/-! ## §3 Every reference is accounted for -/

/-- What is looked up is named; what is named is looked up, or defined, or known to follow. -/
structure Accounts (next : Option Label) (named defined mentioned : List Label) : Prop where
  sound : ∀ l ∈ mentioned, l ∈ named
  complete : ∀ l ∈ named, l ∈ mentioned ∨ l ∈ defined ∨ next = some l

namespace Accounts

variable {first next : Option Label} {named named' defined defined' mentioned mentioned' : List Label}

/-- The block behind a part of a region is known by a label that the rest of the region defines. -/
theorem append (h : Accounts (first.or next) named defined mentioned)
    (h' : Accounts next named' defined' mentioned') (known : ∀ l, first = some l → l ∈ defined') :
    Accounts next (named ++ named') (defined ++ defined') (mentioned ++ mentioned') where
  sound l hl := by
    rcases List.mem_append.mp hl with hl | hl
    · exact List.mem_append_left _ (h.sound l hl)
    · exact List.mem_append_right _ (h'.sound l hl)
  complete l hl := by
    simp only [List.mem_append]
    rcases List.mem_append.mp hl with hl | hl
    · rcases h.complete l hl with looked_up | own | follows
      · exact .inl (.inl looked_up)
      · exact .inr (.inl (.inl own))
      · -- It follows the first part: it is defined in the second part, or it follows both.
        rcases Option.or_eq_some_iff.mp follows with at_front | ⟨-, behind⟩
        · exact .inr (.inl (.inr (known l at_front)))
        · exact .inr (.inr behind)
    · rcases h'.complete l hl with looked_up | own | follows
      · exact .inl (.inr looked_up)
      · exact .inr (.inl (.inr own))
      · exact .inr (.inr follows)

theorem define (h : Accounts next named defined mentioned) (l : Label) :
    Accounts next named (l :: defined) mentioned where
  sound := h.sound
  complete k hk := by
    rcases h.complete k hk with looked_up | own | follows
    · exact .inl looked_up
    · exact .inr (.inl (List.mem_cons_of_mem _ own))
    · exact .inr (.inr follows)

theorem continuation (target next : Option Label) :
    Accounts next target.toList [] (Plan.region (Plan.continuation target next)).mentions := by
  rw [Plan.mentions_continuation]
  split
  next elided =>
    -- No branch is written because the target is what follows.
    refine ⟨by simp, fun l hl => ?_⟩
    rw [← elided]
    exact .inr (.inr (Option.mem_toList.mp hl))
  next => exact ⟨fun l hl => hl, fun l hl => .inl hl⟩

theorem same (names : List Label) : Accounts next names [] names :=
  ⟨fun _ hl => hl, fun _ hl => .inl hl⟩

end Accounts

namespace Graph

variable {tight : Bool}

/-- Whatever follows the blocks, the region of their plan accounts for what they name. -/
def Accounted (tight : Bool) (g : Graph) : Prop :=
  ∀ next, Accounts next (references tight g) (regionLabels g)
    (Plan.region (plan tight next g)).mentions

theorem accounts_flowPlan {flow : Flow} (clauses : ∀ c ∈ flow.clauses, Accounted tight c)
    (next : Option Label) (b : Block) :
    Accounts next (flow.references (tight && b.endsTerminal)
        ++ (flowLayout flow).flatMap (Block.references tight))
      ((flowLayout flow).map Block.label)
      (Plan.region (flowPlan tight next b flow)).mentions := by
  cases flow with
  | simple target =>
    simp only [flowPlan, Flow.references, flowLayout, List.flatMap_nil, List.append_nil]
    split
    · exact .same []
    · exact .continuation target next
  | branch onTrue onFalse =>
    have taken : Accounts (none.or next) [onTrue] [] [onTrue] := .same [onTrue]
    have both := taken.append (.continuation onFalse next) (by simp)
    simpa [flowPlan, Flow.references, flowLayout, Plan.region] using both
  | within body =>
    have in_body := clauses body (by simp [Flow.clauses]) next
    simpa [flowPlan, Flow.references, flowLayout, Plan.region, Plan.nodeRegion, references,
      regionLabels] using in_body
  | protect t =>
    have in_body := clauses t.body (by simp [Flow.clauses])
      (((firstLabel? t.handlerBlocks).or (firstLabel? t.finalizerBlocks)).or next)
    have in_handler := clauses t.handlerBlocks (by simp [Flow.clauses])
      ((firstLabel? t.finalizerBlocks).or next)
    have in_finalizer := clauses t.finalizerBlocks (by simp [Flow.clauses]) next
    have behind := in_handler.append in_finalizer fun l => mem_regionLabels_of_firstLabel?
    have all := in_body.append behind fun l first => by
      rw [List.mem_append]
      rcases Option.or_eq_some_iff.mp first with in_handler | ⟨-, in_finalizer⟩
      · exact .inl (mem_regionLabels_of_firstLabel? in_handler)
      · exact .inr (mem_regionLabels_of_firstLabel? in_finalizer)
    rw [flowPlan_protect, flowLayout_eq_flatMap, ← firstLabel?_handlerBlocks_or,
      ← firstLabel?_finalizerBlocks_or, ← Option.or_assoc]
    simpa [Flow.references, Flow.clauses, Plan.region, Plan.nodeRegion, references, regionLabels]
      using all
  | waitForFrame frame ready loading => exact .same [ready, loading]
  | waitForFrame2 ready loading => exact .same [ready, loading]
  | leave => exact .same []
  | raise => exact .same []
  | broken note => exact .same []

/-- The region of a plan accounts for the labels that the graph names. -/
theorem accounts_plan (tight : Bool) (g : Graph) : Accounted tight g := by
  induction g using induction with
  | nil => exact fun next => .same []
  | cons label actions flow rest _ clauses_ih rest_ih =>
    intro next
    have exit := accounts_flowPlan clauses_ih ((firstLabel? rest).or next) ⟨label, actions, flow⟩
    have all := (exit.define label).append (rest_ih next) fun l => mem_regionLabels_of_firstLabel?
    rw [references_cons, regionLabels_cons, plan, Plan.region, Plan.nodeRegion,
      Plan.region_actionsPlan]
    simpa [Block.references] using all

end Graph

/-! ## §4 Faults and dangling labels -/

theorem regionLabels_of_emitBlocks {o : Options} {depth : Nat} {next : Option Label} {g : Graph}
    {r : Region} (emitted : (emitBlocks o depth next g).result = .ok r) :
    r.labels.map Prod.fst = Graph.regionLabels g := by
  obtain ⟨fits, sound, rfl⟩ := (emitBlocks_eq_ok_iff o depth next g r).mp emitted
  exact (Graph.lists_plan g fits next sound).labels_eq

namespace Graph

/-- A label that is not found is dangling. -/
theorem dangling_of_faultyAlone {o : Options} {g : Graph} {l : Label} {site : Nat}
    (fault : FaultyAlone o g (.labelNotFound l site)) :
    l ∈ references o.suppressUnreachableTail g ∧ l ∉ regionLabels g := by
  obtain ⟨depth, region, terminate, emitted, failed⟩ := fault
  have labels_eq := regionLabels_of_emitBlocks emitted
  obtain ⟨j, in_table, target_eq, not_defined⟩ := Region.exists_jump_of_labelNotFound failed
  have looked_up : l ∈ region.mentions :=
    List.mem_filterMap.mpr ⟨j, Region.mem_of_mem_openJumps in_table, target_eq⟩
  constructor
  · obtain ⟨-, -, rfl⟩ := (emitBlocks_eq_ok_iff o depth none g region).mp emitted
    exact (accounts_plan _ g none).sound l looked_up
  · rw [← labels_eq, ← Region.isSome_offset?_iff, not_defined]
    simp

/-- A graph that can be lowered is closed: a label that no branch looks up is defined, because
    nothing is known to follow the region. -/
theorem closed_of_lowerRegion {o : Options} {terminate : Bool} {g : Graph} {code : Bytes}
    (lowered : lowerRegion g terminate o = .ok code) : Closed o.suppressUnreachableTail g := by
  obtain ⟨fits, sound, resolvable, -⟩ := lowerRegion_eq_ok_iff.mp lowered
  have listed : ListsPlan o 0 g := lists_plan g fits
  have labels_eq := (listed none sound).labels_eq
  intro l named
  rcases (accounts_plan _ g none).complete l named with looked_up | own | follows
  · -- A branch looks the label up, and every branch finds its target.
    obtain ⟨j, hj, target_eq⟩ := List.mem_filterMap.mp looked_up
    have reached := (Plan.tidy_region _).resolvable_iff.mp resolvable j hj
    have defined := reached.defined
    rw [target_eq] at defined
    rw [regionLabels, ← labels_eq]
    exact Region.isSome_offset?_iff.mp defined
  · exact own
  · cases follows

end Graph

/-- The regions of a graph that can be lowered can be lowered on their own. -/
theorem exists_lowerRegion_of_mem_regions {g r : Graph} {terminate : Bool} {o : Options}
    {bytes : Bytes} (lowered : lowerRegion g terminate o = .ok bytes) (hr : r ∈ Graph.regions g) :
    ∃ terminate' room code, lowerRegion r terminate' { o with maxDepth := room } = .ok code := by
  rcases List.mem_cons.mp hr with rfl | inner
  · exact ⟨terminate, o.maxDepth, bytes, lowered⟩
  · obtain ⟨outer, last, header, is_function, rfl⟩ := Graph.exists_plug_of_mem_innerRegions inner
    obtain ⟨_, front, back, lowered_iff⟩ := exists_lowerRegion_plug_iff outer is_function terminate o
      (Plan.size (Graph.plan o.suppressUnreachableTail none r))
    obtain ⟨-, code, body_lowered, -⟩ := (lowered_iff r rfl bytes).mp lowered
    exact ⟨false, _, code, body_lowered⟩

/-- Lowering and dangling labels, in the graph and in every function body in it. If lowering
    succeeds, no label dangles; if it does not find a label, that label dangles in some region. So
    a graph without dangling labels is never refused for a label that is not found, and a graph with
    one is never lowered. -/
theorem lowerRegion_reports_dangling (g : Graph) (terminate : Bool) (o : Options) :
    (∀ bytes, lowerRegion g terminate o = .ok bytes →
        ∀ r ∈ Graph.regions g, Graph.Closed o.suppressUnreachableTail r)
      ∧ (∀ l site, lowerRegion g terminate o = .error (.labelNotFound l site) →
        ∃ r ∈ Graph.regions g, l ∈ Graph.references o.suppressUnreachableTail r
          ∧ l ∉ Graph.regionLabels r)
      ∧ ((∀ r ∈ Graph.regions g, Graph.Closed o.suppressUnreachableTail r) →
        ∀ l site, lowerRegion g terminate o ≠ .error (.labelNotFound l site))
      ∧ ((∃ r ∈ Graph.regions g, ∃ l ∈ Graph.references o.suppressUnreachableTail r,
          l ∉ Graph.regionLabels r) → ∀ bytes, lowerRegion g terminate o ≠ .ok bytes) := by
  have closed : ∀ bytes, lowerRegion g terminate o = .ok bytes →
      ∀ r ∈ Graph.regions g, Graph.Closed o.suppressUnreachableTail r := by
    intro bytes lowered r hr
    obtain ⟨_, room, code, alone⟩ := exists_lowerRegion_of_mem_regions lowered hr
    have alone_closed := Graph.closed_of_lowerRegion alone
    exact alone_closed
  have dangling : ∀ l site, lowerRegion g terminate o = .error (.labelNotFound l site) →
      ∃ r ∈ Graph.regions g, l ∈ Graph.references o.suppressUnreachableTail r
        ∧ l ∉ Graph.regionLabels r := by
    intro l site failed
    rcases failsOnly_lowerRegion g terminate o _ failed with of_record | ⟨r, hr, fault⟩
    · -- A label that is not found is not the fault of a record.
      cases of_record
    · exact ⟨r, hr, Graph.dangling_of_faultyAlone fault⟩
  refine ⟨closed, dangling, ?_, ?_⟩
  · intro all_closed l site failed
    obtain ⟨r, hr, named, not_defined⟩ := dangling l site failed
    exact not_defined (all_closed r hr l named)
  · rintro ⟨r, hr, l, named, not_defined⟩ bytes lowered
    exact not_defined (closed bytes lowered r hr l named)

/-- A function that would go on at a block outside of it. -/
def strayFunction : Graph :=
  [⟨⟨"start"⟩, [.define ⟨.classic "f" [], [⟨⟨"body"⟩, [], .branch ⟨"start"⟩ none⟩]⟩],
    .simple (some ⟨"last"⟩)⟩, ⟨⟨"last"⟩, [], .leave⟩]

theorem strayFunction_reports_dangling :
    (∀ r ∈ Graph.regions guardedLoop, Graph.Closed false r)
      ∧ (∀ l site, lowerRegion guardedLoop true {} ≠ .error (.labelNotFound l site))
      ∧ lowerRegion strayFunction true {} = .error (.labelNotFound ⟨"start"⟩ 3)
      ∧ (∃ r ∈ Graph.regions strayFunction, ⟨"start"⟩ ∈ Graph.references false r
        ∧ ⟨"start"⟩ ∉ Graph.regionLabels r)
      ∧ ∀ bytes, lowerRegion strayFunction true {} ≠ .ok bytes := by
  have failed : lowerRegion strayFunction true {} = .error (.labelNotFound ⟨"start"⟩ 3) := by
    decide +kernel
  obtain ⟨closed, -, never_missing, -⟩ := lowerRegion_reports_dangling guardedLoop true {}
  obtain ⟨-, dangling, -, never_lowered⟩ := lowerRegion_reports_dangling strayFunction true {}
  obtain ⟨r, hr, named, not_defined⟩ := dangling _ _ failed
  refine ⟨closed _ lowerRegion_guardedLoop, never_missing (by decide +kernel), failed, ?_, ?_⟩
  · exact ⟨r, hr, named, not_defined⟩
  · exact never_lowered ⟨r, hr, _, named, not_defined⟩

end ActionFlow
