import ActionFlow.Proofs.Layout
import Mathlib.Data.List.Forall2

/-!
# The label table of a region

Emission notes each label with the offset at which its block starts. Clauses are emitted on their
own and put behind their header later, with their notes moved. The labels of a graph are listed by
another walk, block by block from the front. Here the two are compared: the notes are in the order
of that list, each one stands where the code of its block starts, and a label that is defined more
than once keeps the last note.

## Main statements

- `Region.offset?_append`, `Region.offset?_eq_some_iff`: what a table says about a label.
- `Region.Lists`: the notes of a region are those of given blocks; kept by `++`.
- `Graph.lists_plan`: the notes of a region are those of its blocks in written order.
- `Region.Ordered`: notes do not go back; kept by `++`.
- `emitBlocks_labelTable`: the label table of what emission writes.
-/

namespace ActionFlow

/-! ## §1 Reading a table -/

/-- A table whose keys are renamed says the same under the new name of a key, if no other key in it
    gets that name. -/
theorem lookup_map_of_apart {κ α β : Type} [BEq κ] [LawfulBEq κ] {f : κ → κ} {k : κ}
    {xs : List (κ × α)} (apart : ∀ x ∈ xs, f k = f x.1 → k = x.1) (h : α → β) :
    (xs.map fun x => (f x.1, h x.2)).lookup (f k) = (xs.lookup k).map h := by
  induction xs with
  | nil => rfl
  | cons x xs ih =>
    obtain ⟨key, value⟩ := x
    rw [List.forall_mem_cons] at apart
    by_cases same : k = key
    · subst same
      simp
    · have other : f k ≠ f key := fun clash => same (apart.1 clash)
      simp only [List.map_cons, List.lookup_cons, beq_false_of_ne same, beq_false_of_ne other]
      exact ih apart.2

theorem lookup_map_of_injective {f : Label → Label} (inj : Function.Injective f) (h : Nat → Nat)
    (xs : List (Label × Nat)) (l : Label) :
    (xs.map fun x => (f x.1, h x.2)).lookup (f l) = (xs.lookup l).map h :=
  lookup_map_of_apart (fun _ _ clash => inj clash) h

namespace Region

/-- Labels are moved with the region. -/
theorem offset?_shift (base : Nat) (r : Region) (l : Label) :
    (r.shift base).offset? l = (r.offset? l).map (base + ·) := by
  rw [offset?, shift, ← List.map_reverse]
  exact lookup_map_of_injective Function.injective_id (base + ·) r.labels.reverse l

theorem offset?_wrap (r : Region) (l : Label) :
    r.wrap.offset? l = (r.offset? l).map (· % offsetCount) := by
  rw [offset?, wrap, ← List.map_reverse]
  exact lookup_map_of_injective Function.injective_id (· % offsetCount) r.labels.reverse l

/-- Of two regions the second one decides about the labels that it defines. -/
theorem offset?_append (a b : Region) (l : Label) :
    (a ++ b).offset? l = ((b.offset? l).map (a.size + ·)).or (a.offset? l) := by
  rw [← offset?_shift, offset?, labels_append, List.reverse_append, List.lookup_append]
  rfl

theorem isSome_offset?_iff {r : Region} {l : Label} :
    (r.offset? l).isSome ↔ l ∈ r.labels.map Prod.fst := by
  rw [offset?, List.lookup_isSome_iff, List.mem_map]
  simp only [List.mem_reverse, beq_iff_eq, @eq_comm Label l]

/-- The offset of a label is the one that was noted last. -/
theorem offset?_eq_some_iff {r : Region} {l : Label} {p : Nat} :
    r.offset? l = some p ↔
      ∃ i : Nat, r.labels[i]? = some (l, p) ∧ ∀ j, i < j → (r.labels.map Prod.fst)[j]? ≠ some l := by
  rw [offset?, List.lookup_eq_some_iff]
  constructor
  · -- The search goes from the back: what it passes by stands behind the note.
    rintro ⟨passed, before, reverse_eq, fresh⟩
    have labels_eq : r.labels = before.reverse ++ (l, p) :: passed.reverse := by
      rw [← List.reverse_reverse r.labels, reverse_eq]
      simp
    refine ⟨before.length, by simp [labels_eq], ?_⟩
    intro j hj again
    have in_passed : l ∈ passed.reverse.map Prod.fst := by
      rw [labels_eq, List.map_append, List.getElem?_append_right (by simp; omega), List.map_cons,
        List.getElem?_cons, if_neg (by simp; omega)] at again
      exact List.mem_of_getElem? again
    obtain ⟨x, hx, rfl⟩ := List.mem_map.mp in_passed
    have other := fresh x (List.mem_reverse.mp hx)
    simp at other
  · rintro ⟨i, here, last⟩
    obtain ⟨bound, here⟩ := List.getElem?_eq_some_iff.mp here
    refine ⟨(r.labels.drop (i + 1)).reverse, (r.labels.take i).reverse, ?_, ?_⟩
    · calc r.labels.reverse
          = (r.labels.take i ++ (l, p) :: r.labels.drop (i + 1)).reverse := by
            rw [← here, ← List.drop_eq_getElem_cons bound, List.take_append_drop]
        _ = _ := by simp
    · intro x hx
      obtain ⟨k, hk⟩ := List.mem_iff_getElem?.mp (List.mem_reverse.mp hx)
      rw [List.getElem?_drop] at hk
      have other := last (i + 1 + k) (by omega)
      rw [List.getElem?_map, hk] at other
      rw [bne_iff_ne]
      rintro rfl
      exact other rfl

theorem offset?_of_nodup {r : Region} (nodup : (r.labels.map Prod.fst).Nodup) {x : Label × Nat}
    (hx : x ∈ r.labels) : r.offset? x.1 = some x.2 := by
  obtain ⟨i, here⟩ := List.mem_iff_getElem?.mp hx
  refine offset?_eq_some_iff.mpr ⟨i, here, ?_⟩
  intro j hj again
  have first : (r.labels.map Prod.fst)[i]? = some x.1 := by rw [List.getElem?_map, here]; rfl
  obtain ⟨bound, -⟩ := List.getElem?_eq_some_iff.mp first
  have same := (List.getElem?_inj bound nodup).mp (first.trans again.symm)
  omega

/-- The table lists every label once, with the offset that counts. -/
theorem mem_labelTable {r : Region} {l : Label} {p : Nat} :
    (l, p) ∈ r.labelTable ↔ r.offset? l = some p := by
  simp only [labelTable, Label.sortedDistinct, List.mem_filterMap, List.mem_mergeSort,
    List.mem_eraseDups, Option.map_eq_some_iff, Prod.mk.injEq]
  constructor
  · rintro ⟨_, -, _, found, rfl, rfl⟩
    exact found
  · intro found
    have noted : l ∈ r.labels.map Prod.fst := isSome_offset?_iff.mp (by rw [found]; rfl)
    exact ⟨l, noted, p, found, rfl, rfl⟩

theorem eraseDups_of_nodup {ls : List Label} (nodup : ls.Nodup) : ls.eraseDups = ls := by
  induction ls with
  | nil => rfl
  | cons l ls ih =>
    obtain ⟨fresh, nodup⟩ := List.nodup_cons.mp nodup
    have kept : ls.filter (fun k => !k == l) = ls := by
      rw [List.filter_eq_self]
      intro k hk
      have other : k ≠ l := fun same => fresh (same ▸ hk)
      simp [other]
    rw [List.eraseDups_cons, kept, ih nodup]

/-- If no label was noted twice, the table has one entry for each note. -/
theorem length_labelTable {r : Region} (nodup : (r.labels.map Prod.fst).Nodup) :
    r.labelTable.length = r.labels.length := by
  have keys : r.labelTable.map Prod.fst = Label.sortedDistinct (r.labels.map Prod.fst) := by
    rw [labelTable, List.map_filterMap]
    refine (List.filterMap_eq_map_iff_forall_eq_some.mpr ?_).trans (List.map_id _)
    intro l hl
    have noted : l ∈ r.labels.map Prod.fst := by
      simpa only [Label.sortedDistinct, List.mem_mergeSort, List.mem_eraseDups] using hl
    obtain ⟨p, found⟩ := Option.isSome_iff_exists.mp (isSome_offset?_iff.mpr noted)
    simp [found]
  calc r.labelTable.length
      = (r.labelTable.map Prod.fst).length := (List.length_map _).symm
    _ = (r.labels.map Prod.fst).length := by
        rw [keys, Label.sortedDistinct, eraseDups_of_nodup nodup]
        exact (List.mergeSort_perm _ _).length_eq
    _ = r.labels.length := List.length_map _

/-! ## §2 Blocks in a region -/

/-- What emission writes for the block on its own is part of the region, and starts at offset `p`. -/
def Holds (o : Options) (depth : Nat) (r : Region) (b : Block) (p : Nat) : Prop :=
  ∃ next before own behind, (emitBlocks o depth next [b]).result = .ok own
    ∧ r = before ++ (own ++ behind) ∧ before.size = p

/-- The notes of a region are those of the given blocks, each at the offset where it holds the
    block. -/
def Lists (o : Options) (depth : Nat) (bs : List Block) (r : Region) : Prop :=
  List.Forall₂ (fun b x => x.1 = b.label ∧ r.Holds o depth b x.2) bs r.labels

section Lists

variable {o : Options} {depth : Nat} {a r z : Region} {b : Block} {bs cs : List Block} {p : Nat}

theorem Holds.append_right (h : r.Holds o depth b p) : (r ++ z).Holds o depth b p := by
  obtain ⟨next, before, own, behind, emitted, rfl, rfl⟩ := h
  exact ⟨next, before, own, behind ++ z, emitted, by simp only [append_assoc], rfl⟩

theorem Holds.append_left (h : r.Holds o depth b p) : (a ++ r).Holds o depth b (a.size + p) := by
  obtain ⟨next, before, own, behind, emitted, rfl, rfl⟩ := h
  exact ⟨next, a ++ before, own, behind, emitted, (append_assoc _ _ _).symm, size_append _ _⟩

theorem lists_of_labels_eq_nil (h : r.labels = []) : r.Lists o depth [] := by
  rw [Lists, h]
  exact .nil

theorem Lists.append (hr : r.Lists o depth bs) (hz : z.Lists o depth cs) :
    (r ++ z).Lists o depth (bs ++ cs) := by
  rw [Lists, labels_append]
  apply List.rel_append
  · exact hr.imp fun b x h => ⟨h.1, h.2.append_right⟩
  · rw [List.forall₂_map_right_iff]
    exact hz.imp fun b x h => ⟨h.1, h.2.append_left⟩

theorem Lists.behind_code (hr : r.Lists o depth bs) (code : Bytes) :
    (ofCode code ++ r).Lists o depth bs :=
  (lists_of_labels_eq_nil (labels_ofCode code)).append hr

/-- A block is noted before the blocks of its clauses. -/
theorem Lists.cons {label : Label} (hr : r.Lists o depth bs) (labelled : label = b.label)
    (held : (define label ++ r).Holds o depth b 0) : (define label ++ r).Lists o depth (b :: bs) := by
  have moved : List.Forall₂ (fun c x => x.1 = c.label ∧ (define label ++ r).Holds o depth c x.2) bs
      (r.labels.map fun x => (x.1, 0 + x.2)) := by
    rw [List.forall₂_map_right_iff]
    exact hr.imp fun c x h => ⟨h.1, h.2.append_left⟩
  exact List.Forall₂.cons ⟨labelled, held⟩ moved

end Lists

end Region

/-! ## §3 The notes of a graph -/

namespace Graph

variable {o : Options} {depth : Nat}

theorem lists_continuation (target next : Option Label) :
    (Plan.region (Plan.continuation target next)).Lists o depth [] := by
  apply Region.lists_of_labels_eq_nil
  unfold Plan.continuation
  split
  · rfl
  · cases target <;> rfl

/-- Whatever follows a list of blocks, the region of its plan notes them in written order. -/
def ListsPlan (o : Options) (depth : Nat) (c : List Block) : Prop :=
  ∀ next, Plan.Sound (plan o.suppressUnreachableTail next c) →
    (Plan.region (plan o.suppressUnreachableTail next c)).Lists o depth (layout c)

theorem lists_flowPlan {flow : Flow} (clauses : ∀ c ∈ flow.clauses, ListsPlan o depth c)
    {next : Option Label} {b : Block}
    (sound : Plan.Sound (flowPlan o.suppressUnreachableTail next b flow)) :
    (Plan.region (flowPlan o.suppressUnreachableTail next b flow)).Lists o depth
      (flowLayout flow) := by
  rw [flowLayout_eq_flatMap]
  cases flow with
  | simple target =>
    rw [flowPlan]
    split
    · exact Region.lists_of_labels_eq_nil rfl
    · exact lists_continuation target next
  | branch onTrue onFalse =>
    rw [flowPlan, Plan.region]
    exact (Region.lists_of_labels_eq_nil rfl).append (lists_continuation onFalse next)
  | within body =>
    obtain ⟨⟨sound_body, -⟩, -⟩ := sound
    have in_body := clauses body (by simp [Flow.clauses]) next sound_body
    rw [flowPlan, Plan.region, Plan.nodeRegion, Plan.region, Region.append_empty]
    simpa [Flow.clauses] using in_body.behind_code _
  | protect t =>
    rw [flowPlan_protect] at sound ⊢
    obtain ⟨⟨sound_body, sound_handler, sound_finalizer, -⟩, -⟩ := sound
    have in_body := clauses t.body (by simp [Flow.clauses]) _ sound_body
    have in_handler := clauses t.handlerBlocks (by simp [Flow.clauses]) _ sound_handler
    have in_finalizer := clauses t.finalizerBlocks (by simp [Flow.clauses]) _ sound_finalizer
    rw [Plan.region, Plan.nodeRegion, Plan.region, Region.append_empty]
    simpa [Flow.clauses] using (in_body.append (in_handler.append in_finalizer)).behind_code _
  | _ =>
    apply Region.lists_of_labels_eq_nil
    simp [flowPlan, Plan.region, Plan.nodeRegion, Region.branching]

/-- The region of a plan notes the blocks of the graph in written order. -/
theorem lists_plan (g : Graph) (fits : nesting g ≤ o.maxDepth - depth) : ListsPlan o depth g := by
  induction g using induction with
  | nil => exact fun _ _ => Region.lists_of_labels_eq_nil rfl
  | cons label actions flow rest _ clauses_ih rest_ih =>
    intro next sound
    rw [nesting] at fits
    rw [plan] at sound ⊢
    obtain ⟨⟨sound_actions, sound_exit⟩, sound_rest⟩ := sound
    have fits_clause : ∀ c ∈ flow.clauses, nesting c ≤ o.maxDepth - depth := by
      intro c hc
      have := nesting_le_of_mem_clauses hc
      omega
    have in_exit := lists_flowPlan (fun c hc => clauses_ih c hc (fits_clause c hc)) sound_exit
    have in_rest := rest_ih (by omega) next sound_rest
    -- On its own the block is written as here, if it is told to expect the same block behind it.
    let behind := (firstLabel? rest).or next
    let node : Node := .block ⟨label, actions, flow⟩ (actionsPlan o.suppressUnreachableTail actions)
      (flowPlan o.suppressUnreachableTail behind ⟨label, actions, flow⟩ flow)
    have emitted : (emitBlocks o depth behind [⟨label, actions, flow⟩]).result
        = .ok (Plan.nodeRegion node) := by
      apply (emitBlocks_eq_ok_iff o depth _ _ _).mpr
      refine ⟨?_, ⟨⟨sound_actions, sound_exit⟩, trivial⟩, (Region.append_empty _).symm⟩
      simp only [nesting]
      omega
    have in_block : (Plan.nodeRegion node).Lists o depth (⟨label, actions, flow⟩ :: flowLayout flow) := by
      have held : (Plan.nodeRegion node).Holds o depth ⟨label, actions, flow⟩ 0 :=
        ⟨behind, Region.empty, _, Region.empty, emitted, by simp, rfl⟩
      simp only [node, Plan.nodeRegion] at held ⊢
      rw [Plan.region_actionsPlan] at held ⊢
      exact (in_exit.behind_code _).cons rfl held
    exact in_block.append in_rest

end Graph

/-! ## §4 The order of the notes -/

namespace Region

/-- The offsets at which the labels of a region were noted, in the order of the notes. -/
def starts (r : Region) : List Nat := r.labels.map Prod.snd

/-- Notes do not go back in the code. -/
def Ordered (r : Region) : Prop := r.starts.Pairwise (· ≤ ·)

theorem Ordered.append {a b : Region} (ha : a.Ordered) (tidy : a.Tidy) (hb : b.Ordered) :
    (a ++ b).Ordered := by
  have starts_eq : (a ++ b).starts = a.starts ++ b.starts.map (a.size + ·) := by simp [starts]
  rw [Ordered, starts_eq, List.pairwise_append]
  refine ⟨ha, ?_, ?_⟩
  · rw [List.pairwise_map]
    exact hb.imp fun h => Nat.add_le_add_left h _
  · -- The notes of the first region lie inside of it, and those of the second one behind it.
    intro p hp q hq
    obtain ⟨x, hx, rfl⟩ := List.mem_map.mp hp
    obtain ⟨y, -, rfl⟩ := List.mem_map.mp hq
    have := tidy.inside x hx
    omega

end Region

theorem Plan.ordered_region (ns : Plan) : (region ns).Ordered := by
  -- That notes lie inside of their region is part of the induction.
  suffices both : (region ns).Tidy ∧ (region ns).Ordered from both.2
  refine region_induction (P := fun r => r.Tidy ∧ r.Ordered) ?_ ?_ ?_ ?_ ?_ ns
  · exact ⟨Region.tidy_empty, List.Pairwise.nil⟩
  · exact fun code => ⟨Region.tidy_ofCode code, List.Pairwise.nil⟩
  · exact fun l => ⟨Region.tidy_define l, List.pairwise_singleton _ _⟩
  · exact fun kind target => ⟨tidy_transfer kind target, List.Pairwise.nil⟩
  · intro a b ha hb
    exact ⟨ha.1.append hb.1, ha.2.append ha.1 hb.2⟩

/-! ## §5 The table of an emitted region -/

theorem map_eq_map_of_forall₂ {α β γ : Type} {f : α → γ} {g : β → γ} {xs : List α} {ys : List β}
    (h : List.Forall₂ (fun x y => f x = g y) xs ys) : xs.map f = ys.map g := by
  rw [← List.forall₂_eq_eq_eq, List.forall₂_map_left_iff, List.forall₂_map_right_iff]
  exact h

theorem Region.Lists.labels_eq {o : Options} {depth : Nat} {r : Region} {bs : List Block}
    (listed : r.Lists o depth bs) : r.labels.map Prod.fst = bs.map Block.label := by
  apply Eq.symm
  apply map_eq_map_of_forall₂
  exact listed.imp fun b x h => h.1.symm

/-- The label table of what emission writes. The blocks of the region are noted in written order,
    each at the offset where its code starts, and these offsets do not decrease. The table has
    exactly the labels of the region, each with the start of its last block. -/
theorem emitBlocks_labelTable {o : Options} {depth : Nat} {next : Option Label} {g : Graph}
    {r : Region} (emitted : (emitBlocks o depth next g).result = .ok r) :
    List.Forall₂ (r.Holds o depth) (Graph.layout g) r.starts
      ∧ r.starts.Pairwise (· ≤ ·)
      ∧ (∀ l, l ∈ r.labelTable.map Prod.fst ↔ l ∈ Graph.regionLabels g)
      ∧ (∀ l p, (l, p) ∈ r.labelTable ↔ r.offset? l = some p)
      ∧ (∀ l p, r.offset? l = some p ↔ ∃ i : Nat, (Graph.regionLabels g)[i]? = some l
          ∧ r.starts[i]? = some p ∧ ∀ j, i < j → (Graph.regionLabels g)[j]? ≠ some l)
      ∧ ((Graph.regionLabels g).Nodup → r.labelTable.length = (Graph.layout g).length
          ∧ (Graph.regionLabels g).map r.offset? = r.starts.map some) := by
  obtain ⟨fits, sound, rfl⟩ := (emitBlocks_eq_ok_iff o depth next g r).mp emitted
  generalize region_eq : Plan.region (Graph.plan o.suppressUnreachableTail next g) = r
  have listed : r.Lists o depth (Graph.layout g) := region_eq ▸ Graph.lists_plan g fits next sound
  have labels_eq : r.labels.map Prod.fst = Graph.regionLabels g := listed.labels_eq
  refine ⟨?_, region_eq ▸ Plan.ordered_region _, ?_, fun l p => Region.mem_labelTable, ?_, ?_⟩
  · rw [Region.starts, List.forall₂_map_right_iff]
    exact listed.imp fun b x h => h.2
  · intro l
    rw [← labels_eq, ← Region.isSome_offset?_iff, Option.isSome_iff_exists, List.mem_map]
    constructor
    · rintro ⟨⟨_, p⟩, entry, rfl⟩
      exact ⟨p, Region.mem_labelTable.mp entry⟩
    · rintro ⟨p, found⟩
      exact ⟨(l, p), Region.mem_labelTable.mpr found, rfl⟩
  · intro l p
    rw [Region.offset?_eq_some_iff, labels_eq]
    -- A note is a label at a place of the list and an offset at the same place.
    have note_iff : ∀ i : Nat, r.labels[i]? = some (l, p) ↔
        (Graph.regionLabels g)[i]? = some l ∧ r.starts[i]? = some p := by
      intro i
      rw [← labels_eq, Region.starts, List.getElem?_map, List.getElem?_map]
      cases r.labels[i]? <;> simp [Prod.ext_iff]
    simp only [note_iff, and_assoc]
  · intro nodup
    rw [← labels_eq] at nodup ⊢
    refine ⟨(Region.length_labelTable nodup).trans listed.length_eq.symm, ?_⟩
    rw [Region.starts, List.map_map, List.map_map]
    apply List.map_congr_left
    intro x hx
    exact Region.offset?_of_nodup nodup hx

/-- Two blocks of one name in the clauses of a try, and two of another name around it. -/
def repeatedNames : Graph :=
  [⟨⟨"a"⟩, [.plain (.op .pop)], .protect ⟨[⟨⟨"b"⟩, [.plain (.op .pop)], .simple none⟩], none,
      some [⟨⟨"b"⟩, [.plain (.op .pop)], .simple none⟩]⟩⟩,
    ⟨⟨"a"⟩, [], .leave⟩]

theorem repeatedNames_labelTable : ∃ r, (emitBlocks {} 0 none repeatedNames).result = .ok r
    ∧ List.Forall₂ (r.Holds {} 0) (Graph.layout repeatedNames) r.starts
    ∧ r.starts = [0, 12, 14, 16] ∧ r.offset? ⟨"b"⟩ = some 14 ∧ r.offset? ⟨"a"⟩ = some 16 := by
  have emitted : (emitBlocks {} 0 none repeatedNames).result
      = .ok ⟨[0x17, 0x8f, 8, 0, 2, 2, 0, 0, 0, 2, 0, 0, 0x17, 0, 0x17, 0, 0x3e],
        [(⟨"a"⟩, 0), (⟨"b"⟩, 12), (⟨"b"⟩, 14), (⟨"a"⟩, 16)], []⟩ := by
    decide +kernel
  have labels_eq : Graph.regionLabels repeatedNames = [⟨"a"⟩, ⟨"b"⟩, ⟨"b"⟩, ⟨"a"⟩] := by
    decide +kernel
  obtain ⟨held, -, -, -, last, -⟩ := emitBlocks_labelTable emitted
  rw [labels_eq] at last
  refine ⟨_, emitted, held, rfl, (last _ _).mpr ⟨2, rfl, rfl, ?_⟩, (last _ _).mpr ⟨3, rfl, rfl, ?_⟩⟩
  · rintro (_ | _ | _ | _ | j) hj
    all_goals simp at hj ⊢
  · rintro (_ | _ | _ | _ | j) hj
    all_goals simp at hj ⊢

end ActionFlow
