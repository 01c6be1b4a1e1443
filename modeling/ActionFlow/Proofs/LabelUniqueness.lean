import ActionFlow.Proofs.Renaming
import Mathlib.Data.List.Nodup

/-!
# Labels are unique in each region

Validation goes through the regions of a graph and looks for a label that a region defines twice.
The regions are those that the graph holds by its syntax: the graph itself, and every function body
in it, at any depth. They can be found with a stack: the function bodies of a region are put on top
of it when the region has been checked, and the next region is taken from the top. Each region is
taken exactly once, in the order of `Graph.regions`, so that the stack is empty after as many steps
as there are regions.

## Main statements

- `Graph.DefinesBody`: a function body is defined somewhere in a graph.
- `Graph.mem_innerRegions_iff`: the regions below a graph are the function bodies in it.
- `Graph.checkPending`: validation with a stack of regions.
- `Graph.regions_pending`: what one step of it leaves to do.
- `Label.exists_earlier_of_firstRepeat`: the first repeat in a list of labels.
- `Graph.validate_decides_uniqueness`: validation decides that labels are unique in each region.
-/

namespace ActionFlow

namespace Graph

/-! ## §1 The function bodies in a graph -/

/-- The graph `r` is the body of a function that is defined somewhere in `g`. -/
inductive DefinesBody : Graph → Graph → Prop where
  /-- An action of a block defines the function. -/
  | action {g : Graph} {b : Block} {f : Function} (in_graph : b ∈ g)
      (defined : Action.define f ∈ b.actions) : DefinesBody g f.body
  /-- The function is defined in the body of another one. -/
  | inFunction {g r : Graph} {b : Block} {f : Function} (in_graph : b ∈ g)
      (defined : Action.define f ∈ b.actions) (inner : DefinesBody f.body r) : DefinesBody g r
  /-- The function is defined in a scope, or in a clause of a try. -/
  | inClause {g r : Graph} {b : Block} {c : List Block} (in_graph : b ∈ g)
      (clause : c ∈ b.flow.clauses) (inner : DefinesBody c r) : DefinesBody g r

theorem DefinesBody.mono {g g' r : Graph} (h : DefinesBody g r) (sub : g ⊆ g') :
    DefinesBody g' r := by
  cases h with
  | action in_graph defined => exact .action (sub in_graph) defined
  | inFunction in_graph defined inner => exact .inFunction (sub in_graph) defined inner
  | inClause in_graph clause inner => exact .inClause (sub in_graph) clause inner

theorem mem_innerRegions_of_mem {g r : Graph} {b : Block} (hb : b ∈ g)
    (h : (∃ f, Action.define f ∈ b.actions ∧ r ∈ regions f.body)
      ∨ ∃ c ∈ b.flow.clauses, r ∈ innerRegions c) : r ∈ innerRegions g := by
  induction g with
  | nil => simp at hb
  | cons b' rest ih =>
    obtain ⟨label, actions, flow⟩ := b'
    -- The regions come in three groups: of the blocks behind, of the clauses, of the actions.
    simp only [innerRegions, List.mem_append, flowRegions_eq_flatMap, List.mem_flatMap,
      List.mem_reverse, mem_actionRegions]
    rcases List.mem_cons.mp hb with rfl | hb
    · rcases h with own | ⟨c, hc, hr⟩
      · exact .inr own
      · exact .inl (.inr ⟨c, hc, hr⟩)
    · exact .inl (.inl (ih hb))

/-- The regions below a graph are the function bodies in it. -/
theorem mem_innerRegions_iff {g r : Graph} : r ∈ innerRegions g ↔ DefinesBody g r := by
  constructor
  · intro h
    induction g using induction with
    | nil => simp [innerRegions] at h
    | cons label actions flow rest bodies_ih clauses_ih rest_ih =>
      simp only [innerRegions, flowRegions_eq_flatMap, List.mem_append, List.mem_flatMap,
        List.mem_reverse, mem_actionRegions, regions, List.mem_cons] at h
      rcases h with (h | ⟨c, hc, h⟩) | ⟨f, hf, rfl | h⟩
      · exact (rest_ih h).mono (List.subset_cons_self _ _)
      · exact .inClause List.mem_cons_self hc (clauses_ih c hc h)
      · exact .action List.mem_cons_self hf
      · exact .inFunction List.mem_cons_self hf (bodies_ih f hf h)
  · intro h
    induction h with
    | action in_graph defined =>
      exact mem_innerRegions_of_mem in_graph (.inl ⟨_, defined, List.mem_cons_self⟩)
    | inFunction in_graph defined _ ih =>
      exact mem_innerRegions_of_mem in_graph (.inl ⟨_, defined, List.mem_cons_of_mem _ ih⟩)
    | inClause in_graph clause _ ih => exact mem_innerRegions_of_mem in_graph (.inr ⟨_, clause, ih⟩)

/-! ## §2 A stack of regions -/

theorem actionRegions_eq_flatMap (actions : List Action) :
    actionRegions actions = (actionBodies actions).reverse.flatMap regions := by
  induction actions with
  | nil => rfl
  | cons a rest ih =>
    rcases a with i | ⟨header, body⟩
    · exact ih
    · have bodies_eq : actionBodies (.define ⟨header, body⟩ :: rest) = body :: actionBodies rest :=
        rfl
      rw [actionRegions, ih, bodies_eq, List.reverse_cons, List.flatMap_append,
        List.flatMap_singleton]
      rfl

/-- The regions below a graph are its own function bodies, the last one first, each followed by the
    regions below it. -/
theorem innerRegions_eq_flatMap (g : Graph) :
    innerRegions g = (functionBodies g).reverse.flatMap regions := by
  induction g using induction with
  | nil => rfl
  | cons label actions flow rest _ clauses_ih rest_ih =>
    have in_clauses : flowRegions flow = (flowBodies flow).reverse.flatMap regions := by
      rw [flowRegions_eq_flatMap, flowBodies, List.reverse_flatMap, List.flatMap_assoc]
      apply List.flatMap_congr
      intro c hc
      exact clauses_ih c (List.mem_reverse.mp hc)
    rw [innerRegions, functionBodies_cons, List.reverse_append, List.reverse_append,
      List.flatMap_append, List.flatMap_append, ← rest_ih, ← in_clauses, ← actionRegions_eq_flatMap]

/-- One step takes the first of the regions that are left to check. What it leaves are the others:
    the function bodies of the region, the last one on top, and what was below it on the stack. -/
theorem regions_pending (r : Graph) (pending : List Graph) :
    (r :: pending).flatMap regions
      = r :: ((functionBodies r).reverse ++ pending).flatMap regions := by
  rw [List.flatMap_cons, regions, List.flatMap_append, ← innerRegions_eq_flatMap]
  rfl

/-- Checks the regions on a stack, and the function bodies in them. -/
def checkPending (pending : List Graph) : Except LowerError Unit :=
  match pending with
  | [] => .ok ()
  | r :: pending =>
    match repeatedLabel? r with
    | some label => .error (.duplicateLabel label)
    | none => checkPending ((functionBodies r).reverse ++ pending)
-- The number of regions that are left to check, those below pending ones included.
termination_by (pending.flatMap regions).length
decreasing_by
  rw [regions_pending, List.length_cons]
  exact Nat.lt_succ_self _

/-- What is reported for the first label, if there is one, that a region repeats. -/
def verdict (repeated : Option Label) : Except LowerError Unit :=
  repeated.elim (.ok ()) fun label => .error (.duplicateLabel label)

theorem validate_eq_verdict (g : Graph) :
    g.validate = verdict ((regions g).findSome? repeatedLabel?) := by
  unfold validate
  cases (regions g).findSome? repeatedLabel? with
  | none => rfl
  | some label => rfl

/-- The stack goes through the regions in the order in which they are listed. -/
theorem checkPending_eq_verdict (pending : List Graph) :
    checkPending pending = verdict ((pending.flatMap regions).findSome? repeatedLabel?) := by
  induction pending using checkPending.induct with
  | case1 =>
    rw [checkPending]
    rfl
  | case2 r pending label repeated =>
    rw [checkPending, regions_pending, List.findSome?_cons, repeated]
    rfl
  | case3 r pending unique ih =>
    rw [checkPending, regions_pending, List.findSome?_cons, unique]
    exact ih

theorem validate_eq_checkPending (g : Graph) : g.validate = checkPending [g] := by
  rw [validate_eq_verdict, checkPending_eq_verdict, List.flatMap_singleton]

end Graph

/-! ## §3 The first repeat -/

theorem Label.nodup_of_firstRepeat {seen ls : List Label} (h : firstRepeat seen ls = none) :
    ls.Nodup ∧ ∀ l ∈ ls, l ∉ seen := by
  induction ls generalizing seen with
  | nil => simp
  | cons l ls ih =>
    rw [firstRepeat] at h
    split at h
    next => simp at h
    next fresh =>
      obtain ⟨nodup, apart⟩ := ih h
      refine ⟨List.nodup_cons.mpr ⟨fun again => apart l again List.mem_cons_self, nodup⟩, ?_⟩
      intro x hx
      rcases List.mem_cons.mp hx with rfl | hx
      · exact fresh
      · exact fun old => apart x hx (List.mem_cons_of_mem _ old)

/-- The first repeat in a list of labels has occurred before, and nothing before it is a repeat. -/
theorem Label.exists_earlier_of_firstRepeat {seen ls : List Label} {l : Label}
    (h : firstRepeat seen ls = some l) :
    ∃ front behind, ls = front ++ l :: behind ∧ (l ∈ seen ∨ l ∈ front) ∧ front.Nodup
      ∧ ∀ k ∈ front, k ∉ seen := by
  induction ls generalizing seen with
  | nil => simp [firstRepeat] at h
  | cons k ls ih =>
    rw [firstRepeat] at h
    split at h
    next old =>
      obtain rfl := Option.some.inj h
      exact ⟨[], ls, rfl, .inl old, List.nodup_nil, by simp⟩
    next fresh =>
      obtain ⟨front, behind, rfl, earlier, nodup, apart⟩ := ih h
      have new : k ∉ front := fun again => apart k again List.mem_cons_self
      refine ⟨k :: front, behind, rfl, ?_, List.nodup_cons.mpr ⟨new, nodup⟩, ?_⟩
      · -- Seen before is now either seen before the list, or the first of it.
        rcases earlier with before | inside
        · rcases List.mem_cons.mp before with rfl | before
          · exact .inr List.mem_cons_self
          · exact .inl before
        · exact .inr (List.mem_cons_of_mem _ inside)
      · intro x hx
        rcases List.mem_cons.mp hx with rfl | hx
        · exact fresh
        · exact fun old => apart x hx (List.mem_cons_of_mem _ old)

namespace Graph

/-- The label is the earliest repeat among the labels of the region in written order. -/
def EarliestRepeat (r : Graph) (label : Label) : Prop :=
  ∃ front behind, regionLabels r = front ++ label :: behind ∧ label ∈ front ∧ front.Nodup

theorem EarliestRepeat.two_le_count {r : Graph} {label : Label} (h : EarliestRepeat r label) :
    2 ≤ (regionLabels r).count label := by
  obtain ⟨front, behind, labels_eq, earlier, -⟩ := h
  have once := List.one_le_count_iff.mpr earlier
  rw [labels_eq, List.count_append, List.count_cons_self]
  omega

theorem earliestRepeat_of_repeatedLabel? {r : Graph} {label : Label}
    (h : repeatedLabel? r = some label) : EarliestRepeat r label := by
  obtain ⟨front, behind, labels_eq, earlier, nodup, -⟩ := Label.exists_earlier_of_firstRepeat h
  exact ⟨front, behind, labels_eq, earlier.resolve_left List.not_mem_nil, nodup⟩

theorem repeatedLabel?_eq_none_iff {r : Graph} :
    repeatedLabel? r = none ↔ (regionLabels r).Nodup := by
  constructor
  · intro unique
    exact (Label.nodup_of_firstRepeat unique).1
  · intro nodup
    cases repeated : repeatedLabel? r with
    | none => rfl
    | some label =>
      have twice := (earliestRepeat_of_repeatedLabel? repeated).two_le_count
      have once := List.nodup_iff_count_le_one.mp nodup label
      omega

/-! ## §4 Validation -/

theorem mem_regions_iff {g r : Graph} : r ∈ regions g ↔ r = g ∨ DefinesBody g r := by
  rw [regions, List.mem_cons, mem_innerRegions_iff]

theorem validate_eq_ok_iff {g : Graph} :
    g.validate = .ok () ↔ ∀ r ∈ regions g, (regionLabels r).Nodup := by
  simp only [← repeatedLabel?_eq_none_iff, ← List.findSome?_eq_none_iff]
  rw [validate_eq_verdict]
  cases (regions g).findSome? repeatedLabel? with
  | none => simp [verdict]
  | some label => simp [verdict]

theorem nodup_regionLabels {g r : Graph} (valid : g.validate = .ok ()) (hr : r ∈ regions g) :
    (regionLabels r).Nodup :=
  validate_eq_ok_iff.mp valid r hr

theorem exists_earliestRepeat_of_validate {g : Graph} {e : LowerError}
    (failed : g.validate = .error e) :
    ∃ r ∈ regions g, ∃ label, e = .duplicateLabel label ∧ EarliestRepeat r label := by
  rw [validate_eq_verdict] at failed
  cases first : (regions g).findSome? repeatedLabel? with
  | none => simp [first, verdict] at failed
  | some label =>
    rw [first] at failed
    obtain ⟨r, hr, repeated⟩ := List.exists_of_findSome?_eq_some first
    exact ⟨r, hr, label, (Except.error.inj failed).symm, earliestRepeat_of_repeatedLabel? repeated⟩

/-- Validation decides that labels are unique in each region. The stack of regions runs empty and
    gives the same answer. The graph is accepted exactly if neither it nor any function body in it
    defines a label twice. What is reported otherwise is the earliest repeat in one of them; a label
    that occurs in several of them, once in each, is not reported. -/
theorem validate_decides_uniqueness (g : Graph) :
    g.validate = checkPending [g]
      ∧ (g.validate = .ok () ↔ ∀ r, r = g ∨ DefinesBody g r → (regionLabels r).Nodup)
      ∧ (∀ e, g.validate = .error e → ∃ r label, (r = g ∨ DefinesBody g r)
          ∧ e = .duplicateLabel label ∧ EarliestRepeat r label
          ∧ 2 ≤ (regionLabels r).count label)
      ∧ ∀ label, (∀ r, r = g ∨ DefinesBody g r → (regionLabels r).count label ≤ 1) →
          g.validate ≠ .error (.duplicateLabel label) := by
  simp only [← mem_regions_iff]
  refine ⟨validate_eq_checkPending g, validate_eq_ok_iff, ?_, ?_⟩
  · intro e failed
    obtain ⟨r, hr, label, rfl, earliest⟩ := exists_earliestRepeat_of_validate failed
    exact ⟨r, label, hr, rfl, earliest, earliest.two_le_count⟩
  · intro label once failed
    obtain ⟨r, hr, label', same, earliest⟩ := exists_earliestRepeat_of_validate failed
    obtain rfl : label = label' := by injection same
    exact absurd (once r hr) (Nat.not_le.mpr earliest.two_le_count)

/-- A function in a catch clause of a function repeats two labels. A third label occurs once in each
    of the three regions. -/
def hiddenRepeat : Graph :=
  [⟨⟨"a"⟩,
    [.define ⟨.classic "f" [], [⟨⟨"a"⟩, [], .protect ⟨[],
      some ⟨.register 0, [⟨⟨"b"⟩,
        [.define ⟨.classic "g" [], [⟨⟨"x"⟩, [], .leave⟩, ⟨⟨"a"⟩, [], .within [⟨⟨"y"⟩, [], .leave⟩]⟩,
          ⟨⟨"y"⟩, [], .leave⟩, ⟨⟨"x"⟩, [], .leave⟩]⟩], .leave⟩]⟩, none⟩⟩]⟩], .leave⟩]

theorem hiddenRepeat_reported :
    hiddenRepeat.validate = .error (.duplicateLabel ⟨"y"⟩)
      ∧ checkPending [hiddenRepeat] = .error (.duplicateLabel ⟨"y"⟩)
      ∧ (∃ r, (r = hiddenRepeat ∨ DefinesBody hiddenRepeat r) ∧ EarliestRepeat r ⟨"y"⟩)
      ∧ hiddenRepeat.validate ≠ .error (.duplicateLabel ⟨"a"⟩)
      ∧ (∀ r, r = guardedLoop ∨ DefinesBody guardedLoop r → (regionLabels r).Nodup) := by
  have failed : hiddenRepeat.validate = .error (.duplicateLabel ⟨"y"⟩) := by decide +kernel
  have once : ∀ r ∈ regions hiddenRepeat, (regionLabels r).count ⟨"a"⟩ ≤ 1 := by decide +kernel
  obtain ⟨stacked, -, reported, never⟩ := validate_decides_uniqueness hiddenRepeat
  obtain ⟨r, label, hr, same, earliest, -⟩ := reported _ failed
  obtain rfl : (⟨"y"⟩ : Label) = label := by injection same
  refine ⟨failed, stacked ▸ failed, ⟨r, hr, earliest⟩, ?_, ?_⟩
  · exact never _ fun r hr => once r (mem_regions_iff.mpr hr)
  · exact (validate_decides_uniqueness guardedLoop).2.1.mp (by decide +kernel)

end Graph

end ActionFlow
