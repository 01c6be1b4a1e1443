import ActionFlow.Proofs.LabelTable
import ActionFlow.Proofs.Mirroring
import Mathlib

/-!
# Leaving out what is not reached

A block that ends with a terminal action can be written without its continuation. That moves
everything behind it to the front, in this region and in those around it: labels, operands of
branches and sizes in headers all change. Here the two layouts of a graph are compared. Offsets of
the one are mapped to offsets of the other by a map that keeps their order and lengthens no
distance. Whatever was in reach stays in reach, and whatever fitted a field still fits, so lowering
that succeeds with all continuations succeeds without the suppressed ones, with exactly their bytes
left out.

## Main statements

- `Contraction`: a map of offsets that keeps order and lengthens no distance.
- `Region.Shrinks`: a region with some of its bytes left out; kept by `++`.
- `Region.Shrinks.resolvable`: branches that can be resolved still can.
- `Graph.everyExit`: every block of a graph with the block that is written behind it.
- `Graph.trims_plan`: what suppression leaves out of a plan.
- `lower_suppressed`: suppression keeps success and saves exactly the suppressed continuations.
-/

namespace ActionFlow

/-! ## §1 Offsets that move together -/

/-- A map of offsets that keeps their order and lengthens no distance. -/
structure Contraction (move : Nat → Nat) : Prop where
  mono : ∀ {p q : Nat}, p ≤ q → move p ≤ move q
  short : ∀ {p q : Nat}, p ≤ q → move q + p ≤ move p + q

namespace Contraction

theorem id : Contraction fun p => p := ⟨fun h => h, fun _ => by omega⟩

/-- Only the first `n` bytes are kept. -/
theorem upTo (n : Nat) : Contraction fun p => min p n := ⟨by intros; omega, by intros; omega⟩

/-- Up to an offset the one map, and behind it the other. -/
theorem join {move move' : Nat → Nat} (h : Contraction move) (h' : Contraction move') (n : Nat) :
    Contraction fun p => move (min p n) + move' (p - n) where
  mono {p q} le := by
    have first := h.mono (show min p n ≤ min q n by omega)
    have second := h'.mono (show p - n ≤ q - n by omega)
    omega
  short {p q} le := by
    -- The way from `p` to `q` is split at `n`, and neither part gets longer.
    have first := h.short (show min p n ≤ min q n by omega)
    have second := h'.short (show p - n ≤ q - n by omega)
    omega

/-- What is in reach stays in reach. -/
theorem inReach {move : Nat → Nat} (h : Contraction move) (start : move 0 = 0) {source target : Nat}
    (reach : InReach source target) : InReach (move source) (move target) := by
  obtain ⟨source_lt, target_lt, lower, upper⟩ := reach
  have source_le := h.short (Nat.zero_le source)
  have target_le := h.short (Nat.zero_le target)
  -- Forward or backward, the distance keeps its sign and does not grow.
  rcases Nat.le_total source target with le | le
  · have kept := h.mono le
    have distance := h.short le
    constructor <;> omega
  · have kept := h.mono le
    have distance := h.short le
    constructor <;> omega

end Contraction

/-! ## §2 Regions with bytes left out -/

namespace Region

/-- The region `tight` is `wide` with `saved` of its bytes left out. Its labels and operands are
    those of `wide`, moved along; branches may be missing. -/
structure ShrinksBy (move : Nat → Nat) (saved : Nat) (wide tight : Region) : Prop where
  contraction : Contraction move
  start : move 0 = 0
  stop : move wide.size = tight.size
  size_eq : wide.size = tight.size + saved
  labels_eq : tight.labels = wide.labels.map fun x => (x.1, move x.2)
  jumps_moved : ∀ j ∈ tight.jumps, ∃ k ∈ wide.jumps, j.target = k.target
    ∧ j.site + 2 = move (k.site + 2)

/-- Some map of offsets takes the one region to the other. -/
def Shrinks (saved : Nat) (wide tight : Region) : Prop := ∃ move, ShrinksBy move saved wide tight

namespace Shrinks

theorem refl (r : Region) : r.Shrinks 0 r :=
  ⟨fun p => p, .id, rfl, rfl, rfl, (List.map_id _).symm, fun j hj => ⟨j, hj, rfl, rfl⟩⟩

/-- Of plain code any number of bytes can be left out, and of code with branches all of them. -/
theorem ofCode {wide : Region} (unlabelled : wide.labels = []) {code : Bytes} {saved : Nat}
    (size_eq : wide.size = code.length + saved) : wide.Shrinks saved (ofCode code) := by
  refine ⟨fun p => min p code.length, .upTo _, Nat.zero_min _, ?_, size_eq, ?_, ?_⟩
  · exact Nat.min_eq_right (by omega)
  · rw [unlabelled]
    rfl
  · simp

/-- What is left out of two regions, one after the other, is left out of both. -/
theorem append {a a' b b' : Region} {saved saved' : Nat} (tidy : a.Tidy) (ha : a.Shrinks saved a')
    (hb : b.Shrinks saved' b') : (a ++ b).Shrinks (saved + saved') (a' ++ b') := by
  obtain ⟨move, ha⟩ := ha
  obtain ⟨move', hb⟩ := hb
  -- Offsets up to the end of `a` move with `a`; those behind it move with `b`, behind `a'`.
  have inside : ∀ p ≤ a.size, move (min p a.size) + move' (p - a.size) = move p := by
    intro p le
    rw [Nat.min_eq_left le, Nat.sub_eq_zero_of_le le, hb.start, Nat.add_zero]
  have behind : ∀ p, move (min (a.size + p) a.size) + move' (a.size + p - a.size)
      = a'.size + move' p := by
    intro p
    rw [Nat.min_eq_right (Nat.le_add_right _ _), Nat.add_sub_cancel_left, ha.stop]
  refine ⟨fun p => move (min p a.size) + move' (p - a.size), ha.contraction.join hb.contraction _,
    ?_, ?_, ?_, ?_, ?_⟩
  · rw [inside 0 (Nat.zero_le _), ha.start]
  · rw [size_append, behind, hb.stop, size_append]
  · have := ha.size_eq
    have := hb.size_eq
    rw [size_append, size_append]
    omega
  · rw [labels_append, labels_append, List.map_append, ha.labels_eq, hb.labels_eq, List.map_map,
      List.map_map]
    congr 1
    · -- The labels of `a` lie inside it.
      apply List.map_congr_left
      intro x hx
      rw [inside _ (tidy.inside x hx)]
    · apply List.map_congr_left
      intro x _
      simp only [Function.comp_apply, behind]
  · intro j hj
    simp only [jumps_append, List.mem_append, List.mem_map] at hj ⊢
    rcases hj with hj | ⟨i, hi, rfl⟩
    · -- An operand is moved by its end, which is still inside `a`.
      obtain ⟨k, hk, target_eq, site_eq⟩ := ha.jumps_moved j hj
      refine ⟨k, .inl hk, target_eq, ?_⟩
      rw [inside _ (tidy.bound k hk).2, site_eq]
    · obtain ⟨k, hk, target_eq, site_eq⟩ := hb.jumps_moved i hi
      refine ⟨k.shift a.size, .inr ⟨k, hk, rfl⟩, target_eq, ?_⟩
      simp only [Jump.shift]
      rw [Nat.add_assoc, site_eq, Nat.add_assoc, behind]

theorem size_eq {wide tight : Region} {saved : Nat} (h : wide.Shrinks saved tight) :
    wide.size = tight.size + saved := by
  obtain ⟨_, h⟩ := h
  exact h.size_eq

/-- Branches that can be resolved still can be when bytes are left out. -/
theorem resolvable {wide tight : Region} {saved : Nat} (h : wide.Shrinks saved tight)
    (wide_tidy : wide.Tidy) (tight_tidy : tight.Tidy) (resolved : wide.Resolvable) :
    tight.Resolvable := by
  obtain ⟨move, h⟩ := h
  -- A target of the one region is the moved target of the other.
  have moved : ∀ target : Option Label, target.elim (some tight.size) tight.offset?
      = (target.elim (some wide.size) wide.offset?).map move := by
    intro target
    cases target with
    | none => rw [Option.elim_none, Option.elim_none, Option.map_some, h.stop]
    | some l =>
      have found := lookup_map_of_injective Function.injective_id move wide.labels.reverse l
      simp only [id_eq, List.map_reverse] at found
      rw [Option.elim_some, Option.elim_some, offset?, h.labels_eq, found]
      rfl
  rw [tight_tidy.resolvable_iff]
  intro j hj
  obtain ⟨k, hk, target_eq, site_eq⟩ := h.jumps_moved j hj
  obtain ⟨defined, close⟩ := wide_tidy.resolvable_iff.mp resolved k hk
  obtain ⟨offset, offset_eq⟩ := Option.isSome_iff_exists.mp defined
  rw [goal, offset_eq] at close
  constructor
  · rw [target_eq, moved, offset_eq]
    rfl
  · rw [goal, target_eq, moved, offset_eq, site_eq]
    exact h.contraction.inReach h.start close

end Shrinks

end Region

/-! ## §3 Headers with other sizes -/

/-- Whether a record can be written, and with how many bytes, does not depend on the values of its
    operands if these take up the same number of bytes. -/
theorem Record.write_of_same_length {r r' : Record} (coded : r'.code = r.code)
    (long : ¬ r.code < 0x80) (named : r'.unencodable? = none)
    (payload : ∀ body, r.payload = .ok body →
      ∃ body', r'.payload = .ok body' ∧ body'.length = body.length)
    (h : r.write.error? = none) :
    r'.write.error? = none ∧ r'.write.bytes.length = r.write.bytes.length := by
  obtain ⟨framed, bytes_eq⟩ := write_of_encodable h
  obtain ⟨body, payload_eq, length_eq⟩ := payload _ (payload_of_encodable h long)
  have written := write_eq_frame named (coded ▸ long) payload_eq (length_eq ▸ framed.long)
  rw [written, bytes_eq, coded, Bytes.length_frame _ long, Bytes.length_frame _ long, length_eq]
  exact ⟨rfl, rfl⟩

namespace Node

theorem functionHeader_resize {f : Function} {n : Nat} (m : Nat)
    (h : (functionHeader f n).write.error? = none) :
    (functionHeader f m).write.error? = none
      ∧ (functionHeader f m).write.bytes.length = (functionHeader f n).write.bytes.length := by
  obtain ⟨header, body⟩ := f
  refine Record.write_of_same_length ?_ ?_ ?_ ?_ h
  · rfl
  · cases header with
    | classic name parameters => exact (by decide : ¬ Code.defineFunction < 0x80)
    | registers name registerCount flags parameters =>
      exact (by decide : ¬ Code.defineFunction2 < 0x80)
  · rfl
  · intro payload payload_eq
    cases header with
    | classic name parameters =>
      obtain ⟨count, counted, payload_eq⟩ := bind_eq_ok_iff.mp payload_eq
      obtain rfl := pure_eq_ok_iff.mp payload_eq
      exact ⟨_, bind_eq_ok_iff.mpr ⟨count, counted, rfl⟩, by simp⟩
    | registers name registerCount flags parameters =>
      obtain ⟨count, counted, payload_eq⟩ := bind_eq_ok_iff.mp payload_eq
      obtain rfl := pure_eq_ok_iff.mp payload_eq
      exact ⟨_, bind_eq_ok_iff.mpr ⟨count, counted, rfl⟩, by simp⟩

theorem protectHeader_resize {target : Option CatchTarget} {finalized : Bool} {a b c : Nat}
    (a' b' c' : Nat) (h : (protectHeader target finalized a b c).write.error? = none) :
    (protectHeader target finalized a' b' c').write.error? = none
      ∧ (protectHeader target finalized a' b' c').write.bytes.length
        = (protectHeader target finalized a b c).write.bytes.length := by
  refine Record.write_of_same_length ?_ ?_ ?_ ?_ h
  · rfl
  · exact (by decide : ¬ Code.protect < 0x80)
  · rfl
  · intro payload payload_eq
    obtain rfl := Except.ok.inj payload_eq
    refine ⟨_, rfl, ?_⟩
    rcases target with _ | (index | name) <;> simp [TryHeader.payload]

end Node

/-! ## §4 Plans with parts left out -/

namespace Plan

/-- The plan `tight` is `wide` with parts left out that take up `saved` bytes, and nothing in it
    stops lowering if nothing in `wide` does. -/
def Trims (saved : Nat) (wide tight : Plan) : Prop :=
  Sound wide → Sound tight ∧ (region wide).Shrinks saved (region tight)

namespace Trims

variable {saved saved' saved'' : Nat} {xs xs' ys ys' zs zs' : Plan}

theorem refl (ns : Plan) : Trims 0 ns ns := fun sound => ⟨sound, .refl _⟩

theorem append (hx : Trims saved xs xs') (hy : Trims saved' ys ys') :
    Trims (saved + saved') (xs ++ ys) (xs' ++ ys') := by
  intro sound
  obtain ⟨sound_xs, sound_ys⟩ := sound_append.mp sound
  obtain ⟨sound_xs', shrinks_xs⟩ := hx sound_xs
  obtain ⟨sound_ys', shrinks_ys⟩ := hy sound_ys
  refine ⟨sound_append.mpr ⟨sound_xs', sound_ys'⟩, ?_⟩
  rw [region_append, region_append]
  exact shrinks_xs.append (tidy_region xs) shrinks_ys

theorem cons {n n' : Node} (hn : Trims saved [n] [n']) (hs : Trims saved' xs xs') :
    Trims (saved + saved') (n :: xs) (n' :: xs') := hn.append hs

/-- A whole part can be left out if it holds no labels. -/
theorem drop (unlabelled : (region xs).labels = []) : Trims (size xs) xs [] :=
  fun _ => ⟨trivial, .ofCode unlabelled (Nat.zero_add _).symm⟩

theorem block (b : Block) (hx : Trims saved xs xs') (hy : Trims saved' ys ys') :
    Trims (saved + saved') [.block b xs ys] [.block b xs' ys'] := by
  rintro ⟨⟨sound_xs, sound_ys⟩, -⟩
  obtain ⟨sound_both, shrinks⟩ := hx.append hy (sound_append.mpr ⟨sound_xs, sound_ys⟩)
  refine ⟨⟨sound_append.mp sound_both, trivial⟩, ?_⟩
  rw [region_append, region_append] at shrinks
  have labelled := (Region.Shrinks.refl _).append (Region.tidy_define b.label) shrinks
  rw [Nat.zero_add] at labelled
  simpa only [region, nodeRegion, Region.append_empty] using labelled

/-- The body of a function is resolved anew, and its header gets the new size. -/
theorem function (f : Function) (hx : Trims saved xs xs') :
    Trims saved [.function f xs] [.function f xs'] := by
  rintro ⟨⟨sound, resolvable, fits, encodable⟩, -⟩
  obtain ⟨sound', shrinks⟩ := hx sound
  have size_eq := shrinks.size_eq
  obtain ⟨encodable', header_eq⟩ := Node.functionHeader_resize (region xs').size encodable
  -- Offsets in a body count from its start, so its branches are resolved without those around it.
  have resolvable' := shrinks.resolvable (tidy_region xs) (tidy_region xs') resolvable
  refine ⟨⟨⟨sound', resolvable', by omega, encodable'⟩, trivial⟩, ?_⟩
  simp only [region, nodeRegion, Region.append_empty]
  -- Seen from around it, a lowered function is plain code.
  apply Region.Shrinks.ofCode rfl
  rw [Region.size_ofCode, List.length_append, List.length_append, Region.length_sealed,
    Region.length_sealed]
  omega

/-- The header of a scope gets the new size, and its length stays. -/
theorem within (hx : Trims saved xs xs') : Trims saved [.within xs] [.within xs'] := by
  rintro ⟨⟨sound, fits⟩, -⟩
  obtain ⟨sound', shrinks⟩ := hx sound
  have size_eq := shrinks.size_eq
  refine ⟨⟨⟨sound', by omega⟩, trivial⟩, ?_⟩
  have header : (Region.ofCode (Node.withinHeader (region xs).size).write.bytes).Shrinks 0
      (Region.ofCode (Node.withinHeader (region xs').size).write.bytes) := by
    apply Region.Shrinks.ofCode rfl
    simp [Node.withinHeader, Bytes.length_frame _ (show ¬ Code.within < 0x80 by decide)]
  have both := header.append (Region.tidy_ofCode _) shrinks
  rw [Nat.zero_add] at both
  simpa only [region, nodeRegion, Region.append_empty] using both

/-- The header of a try gets the new sizes of all clauses. -/
theorem protect (target : Option CatchTarget) (finalized : Bool) (hx : Trims saved xs xs')
    (hy : Trims saved' ys ys') (hz : Trims saved'' zs zs') (handler : target = none → ys' = [])
    (finalizer : finalized = false → zs' = []) :
    Trims (saved + (saved' + saved'')) [.protect target finalized xs ys zs]
      [.protect target finalized xs' ys' zs'] := by
  rintro ⟨⟨sound_x, sound_y, sound_z, fits_x, fits_y, fits_z, encodable, -, -⟩, -⟩
  obtain ⟨sound_x', shrinks_x⟩ := hx sound_x
  obtain ⟨sound_y', shrinks_y⟩ := hy sound_y
  obtain ⟨sound_z', shrinks_z⟩ := hz sound_z
  have size_x := shrinks_x.size_eq
  have size_y := shrinks_y.size_eq
  have size_z := shrinks_z.size_eq
  obtain ⟨encodable', header_eq⟩ := Node.protectHeader_resize (region xs').size (region ys').size
    (region zs').size encodable
  refine ⟨⟨⟨sound_x', sound_y', sound_z', by omega, by omega, by omega, encodable', handler,
    finalizer⟩, trivial⟩, ?_⟩
  have header : (Region.ofCode (Node.protectHeader target finalized (region xs).size
      (region ys).size (region zs).size).write.bytes).Shrinks 0
      (Region.ofCode (Node.protectHeader target finalized (region xs').size (region ys').size
        (region zs').size).write.bytes) :=
    .ofCode rfl (by rw [Region.size_ofCode, header_eq, Nat.add_zero])
  have clauses := shrinks_x.append (tidy_region xs) (shrinks_y.append (tidy_region ys) shrinks_z)
  have both := header.append (Region.tidy_ofCode _) clauses
  rw [Nat.zero_add] at both
  simpa only [region, nodeRegion, Region.append_empty] using both

end Trims

end Plan

/-! ## §5 What suppression leaves out -/

/-- Number of bytes of the continuation to `target`, where the next bytes belong to `next`. -/
def continuationSize (target next : Option Label) : Nat :=
  if target = next then 0 else if target = none then 1 else 5

/-- A block with the label of the block that is written behind it, if there is one. -/
structure Exit where
  block : Block
  next : Option Label

namespace Exit

/-- Number of bytes that suppression saves at a block: those of the continuation, if the block has a
    plain one and its last action is terminal. -/
def suppressed (x : Exit) : Nat :=
  match x.block.flow with
  | .simple target => if x.block.endsTerminal then continuationSize target x.next else 0
  | _ => 0

/-- Number of bytes that suppression saves at some blocks. -/
def totalSuppressed (xs : List Exit) : Nat := (xs.map suppressed).sum

@[simp] theorem totalSuppressed_nil : totalSuppressed [] = 0 := rfl

@[simp] theorem totalSuppressed_cons (x : Exit) (xs : List Exit) :
    totalSuppressed (x :: xs) = x.suppressed + totalSuppressed xs := by
  simp [totalSuppressed]

@[simp] theorem totalSuppressed_append (xs ys : List Exit) :
    totalSuppressed (xs ++ ys) = totalSuppressed xs + totalSuppressed ys := by
  simp [totalSuppressed]

end Exit

namespace Graph

mutual

/-- The blocks of a region in written order, each with the label of the block behind it; `next` is
    the one behind them all. -/
def exits (next : Option Label) : List Block → List Exit
  | [] => []
  | ⟨label, actions, flow⟩ :: rest =>
    ⟨⟨label, actions, flow⟩, (firstLabel? rest).or next⟩
      :: (flowExits ((firstLabel? rest).or next) flow ++ exits next rest)

/-- The blocks of the clauses of a flow. A clause is followed by the first clause behind it that
    has blocks. -/
def flowExits (next : Option Label) : Flow → List Exit
  | .within body => exits next body
  | .protect ⟨body, handler, finalizer⟩ =>
    exits (clauseNext (handler.map Handler.body) (clauseNext finalizer next)) body
      ++ (match handler with
        | some ⟨_, clause⟩ => exits (clauseNext finalizer next) clause
        | none => [])
      ++ (match finalizer with
        | some clause => exits next clause
        | none => [])
  | _ => []

end

/-- Every block of a graph: those of its clauses and scopes, and those of function bodies. Nothing
    is written behind a region. -/
def everyExit (g : Graph) : List Exit := (regions g).flatMap (exits none)

theorem flowExits_protect (next : Option Label) (t : TryScope) :
    flowExits next (.protect t)
      = exits (clauseNext (t.handler.map Handler.body) (clauseNext t.finalizer next)) t.body
        ++ (exits (clauseNext t.finalizer next) t.handlerBlocks
          ++ exits next t.finalizerBlocks) := by
  rcases t with ⟨body, _ | ⟨target, clause⟩, _ | finish⟩
  all_goals simp [flowExits, TryScope.handlerBlocks, TryScope.finalizerBlocks, exits]

theorem map_block_flowExits {flow : Flow}
    (clauses : ∀ c ∈ flow.clauses, ∀ next, (exits next c).map Exit.block = layout c)
    (next : Option Label) : (flowExits next flow).map Exit.block = flowLayout flow := by
  rw [flowLayout_eq_flatMap]
  cases flow with
  | within body =>
    rw [flowExits, clauses body (by simp [Flow.clauses])]
    simp [Flow.clauses]
  | protect t =>
    rw [flowExits_protect, List.map_append, List.map_append,
      clauses t.body (by simp [Flow.clauses]), clauses t.handlerBlocks (by simp [Flow.clauses]),
      clauses t.finalizerBlocks (by simp [Flow.clauses])]
    simp [Flow.clauses]
  | _ => simp [flowExits, Flow.clauses]

/-- The exits of a region are those of its blocks in written order. -/
theorem map_block_exits (g : Graph) (next : Option Label) :
    (exits next g).map Exit.block = layout g := by
  induction g using induction generalizing next with
  | nil => simp [exits, layout]
  | cons label actions flow rest _ clauses_ih rest_ih =>
    rw [exits, layout, List.map_cons, List.map_append, map_block_flowExits clauses_ih, rest_ih]

theorem map_block_everyExit (g : Graph) : g.everyExit.map Exit.block = g.everyBlock := by
  rw [everyExit, everyBlock, List.map_flatMap]
  congr 1
  funext r
  exact map_block_exits r none

/-! ## §6 The plan without suppressed continuations -/

/-- Number of bytes that suppression saves in some regions, none of which has a block behind it. -/
def suppressedIn (rs : List Graph) : Nat := Exit.totalSuppressed (rs.flatMap (exits none))

@[simp] theorem suppressedIn_append (rs qs : List Graph) :
    suppressedIn (rs ++ qs) = suppressedIn rs + suppressedIn qs := by
  simp [suppressedIn]

/-- Number of bytes that suppression saves in blocks followed by `next` and in function bodies. -/
def suppressedBytes (next : Option Label) (g : Graph) : Nat :=
  Exit.totalSuppressed (exits next g) + suppressedIn (innerRegions g)

/-- Whatever follows a list of blocks, suppression leaves the suppressed continuations out of its
    plan. -/
def TrimsPlan (g : List Block) : Prop :=
  ∀ next, Plan.Trims (suppressedBytes next g) (plan false next g) (plan true next g)

theorem size_continuation (target next : Option Label) :
    Plan.size (Plan.continuation target next) = continuationSize target next := by
  unfold Plan.continuation continuationSize
  split
  · rfl
  · cases target <;> simp

theorem labels_continuation (target next : Option Label) :
    (Plan.region (Plan.continuation target next)).labels = [] := by
  unfold Plan.continuation
  split
  · rfl
  · cases target <;> rfl

theorem trims_actionsPlan {actions : List Action}
    (bodies : ∀ f, Action.define f ∈ actions → TrimsPlan f.body) :
    Plan.Trims (suppressedIn (actionRegions actions)) (actionsPlan false actions)
      (actionsPlan true actions) := by
  induction actions with
  | nil => exact .refl _
  | cons a rest ih =>
    have behind := ih fun f hf => bodies f (List.mem_cons_of_mem _ hf)
    rcases a with i | ⟨header, body⟩
    · have both := (Plan.Trims.refl [.record (.action (.plain i))]).append behind
      simpa [actionRegions, actionsPlan] using both
    · -- The body of a function is a region of its own, with the regions below it.
      have own := (bodies ⟨header, body⟩ List.mem_cons_self none).function ⟨header, body⟩
      have both := own.append behind
      have total : suppressedIn (actionRegions (.define ⟨header, body⟩ :: rest))
          = suppressedBytes none body + suppressedIn (actionRegions rest) := by
        rw [actionRegions, suppressedIn_append, Nat.add_comm]
        simp [suppressedIn, suppressedBytes]
      rw [total, actionsPlan, actionsPlan]
      exact both

theorem trims_flowPlan {flow : Flow} (clauses : ∀ c ∈ flow.clauses, TrimsPlan c)
    (next : Option Label) (label : Label) (actions : List Action) :
    Plan.Trims (Exit.suppressed ⟨⟨label, actions, flow⟩, next⟩
        + (Exit.totalSuppressed (flowExits next flow) + suppressedIn (flowRegions flow)))
      (flowPlan false next ⟨label, actions, flow⟩ flow)
      (flowPlan true next ⟨label, actions, flow⟩ flow) := by
  rw [flowRegions_eq_flatMap]
  cases flow with
  | simple target =>
    -- The only flow at which something is left out.
    simp only [flowPlan, Exit.suppressed, flowExits, Flow.clauses, suppressedIn, List.reverse_nil,
      List.flatMap_nil, Exit.totalSuppressed_nil, Nat.add_zero, Bool.false_and, Bool.true_and,
      Bool.false_eq_true, if_false]
    split
    · rw [← size_continuation]
      exact .drop (labels_continuation target next)
    · exact .refl _
  | within body =>
    have in_body := clauses body (by simp [Flow.clauses]) next
    simpa [flowPlan, Exit.suppressed, flowExits, Flow.clauses, suppressedBytes] using in_body.within
  | protect t =>
    -- An absent clause is planned like one without blocks, and saves nothing.
    have in_body := clauses t.body (by simp [Flow.clauses])
      (clauseNext (t.handler.map Handler.body) (clauseNext t.finalizer next))
    have in_handler := clauses t.handlerBlocks (by simp [Flow.clauses])
      (clauseNext t.finalizer next)
    have in_finalizer := clauses t.finalizerBlocks (by simp [Flow.clauses]) next
    have all := in_body.protect (t.handler.map Handler.target) t.finalizer.isSome in_handler
      in_finalizer
      (fun absent => by simp_all [TryScope.handlerBlocks, plan])
      (fun absent => by simp_all [TryScope.finalizerBlocks, plan])
    rw [flowPlan_protect, flowPlan_protect]
    convert all using 1
    simp only [Exit.suppressed, flowExits_protect, Exit.totalSuppressed_append, Flow.clauses,
      List.reverse_cons, List.reverse_nil, List.nil_append, List.cons_append, List.flatMap_cons,
      List.flatMap_nil, List.append_nil, suppressedIn_append, Nat.zero_add, suppressedBytes]
    omega
  | _ =>
    simp only [flowPlan, Exit.suppressed, flowExits, Flow.clauses, suppressedIn, List.reverse_nil,
      List.flatMap_nil, Exit.totalSuppressed_nil, Nat.add_zero]
    exact .refl _

/-- Suppression leaves exactly the suppressed continuations out of the plan of a graph. -/
theorem trims_plan (g : Graph) : TrimsPlan g := by
  induction g using induction with
  | nil => exact fun next => .refl _
  | cons label actions flow rest bodies_ih clauses_ih rest_ih =>
    intro next
    have in_actions := trims_actionsPlan bodies_ih
    have in_flow := trims_flowPlan clauses_ih ((firstLabel? rest).or next) label actions
    have all := (in_actions.block ⟨label, actions, flow⟩ in_flow).cons (rest_ih next)
    rw [plan, plan]
    convert all using 1
    -- The plan has functions where they are defined; the sum has their blocks at the end.
    rw [suppressedBytes, suppressedBytes, exits, innerRegions]
    simp only [Exit.totalSuppressed_cons, Exit.totalSuppressed_append, suppressedIn_append]
    omega

end Graph

/-! ## §7 Lowering -/

/-- Suppression keeps success, and the code is shorter by exactly the continuations of those blocks,
    among all blocks of the graph, that end with a terminal action. -/
theorem lower_suppressed {g : Graph} {o : Options} {code : Bytes}
    (lowered : lower g { o with suppressUnreachableTail := false } = .ok code) :
    ∃ tight, lower g { o with suppressUnreachableTail := true } = .ok tight
      ∧ g.everyExit.map Exit.block = g.everyBlock
      ∧ code.length = tight.length + (g.everyExit.map Exit.suppressed).sum := by
  rw [lower_eq] at lowered
  obtain ⟨checked, valid, lowered⟩ := bind_eq_ok_iff.mp lowered
  obtain ⟨fits, sound, resolvable, rfl⟩ := lowerRegion_eq_ok_iff.mp lowered
  obtain ⟨sound', shrinks⟩ := Graph.trims_plan g none sound
  have resolvable' := shrinks.resolvable (Plan.tidy_region _) (Plan.tidy_region _) resolvable
  -- Validation does not look at the options, so only the region has to be lowered again.
  have lowered' :
      lowerRegion g o.appendTerminator { o with suppressUnreachableTail := true } = .ok _ :=
    lowerRegion_eq_ok_iff.mpr ⟨fits, sound', resolvable', rfl⟩
  have total : (g.everyExit.map Exit.suppressed).sum = Graph.suppressedBytes none g := by
    simp [Graph.everyExit, Graph.regions, Graph.suppressedBytes, Graph.suppressedIn,
      Exit.totalSuppressed]
  have size_eq := shrinks.size_eq
  refine ⟨_, (lower_eq _ _).trans (bind_eq_ok_iff.mpr ⟨checked, valid, lowered'⟩),
    Graph.map_block_everyExit g, ?_⟩
  simp only [List.length_append, Region.length_sealed]
  omega

/-- A function that leaves early in two places, between blocks that end with a terminal action. -/
def earlyExits : Graph :=
  [⟨⟨"start"⟩,
      [.define ⟨.classic "f" [], [⟨⟨"a"⟩, [.plain (.op .ret)], .simple none⟩,
        ⟨⟨"b"⟩, [.plain (.op .throwValue)], .simple (some ⟨"a"⟩)⟩]⟩],
      .branch ⟨"last"⟩ (some ⟨"start"⟩)⟩,
    ⟨⟨"middle"⟩, [.plain (.raw Code.jump [0, 0])], .simple (some ⟨"start"⟩)⟩,
    ⟨⟨"last"⟩, [.plain (.op .ret)], .simple none⟩]

theorem earlyExits_suppressed : ∃ wide tight, lower earlyExits {} = .ok wide ∧ wide.length = 39
    ∧ lower earlyExits { suppressUnreachableTail := true } = .ok tight ∧ tight.length = 28 := by
  obtain ⟨wide, lowered, length_eq⟩ :
      ∃ wide, lower earlyExits {} = .ok wide ∧ wide.length = 39 := by
    refine ⟨[0x9b, 6, 0, 102, 0, 0, 0, 8, 0, 0x3e, 0, 0x2a, 0x99, 2, 0, 248, 255,
      0x9d, 2, 0, 15, 0, 0x99, 2, 0, 229, 255, 0x99, 2, 0, 0, 0, 0x99, 2, 0, 219, 255, 0x3e, 0],
      ?_, rfl⟩
    decide +kernel
  obtain ⟨tight, lowered', -, shorter⟩ := lower_suppressed (o := {}) lowered
  have saved : (earlyExits.everyExit.map Exit.suppressed).sum = 11 := by decide +kernel
  exact ⟨wide, tight, lowered, length_eq, lowered', by omega⟩

end ActionFlow
