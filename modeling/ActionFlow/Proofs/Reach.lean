import ActionFlow.Proofs.Faults
import ActionFlow.Proofs.Operands

/-!
# Targets out of reach

A branch holds the distance to its target as a signed word, counted from the byte after the operand.
Backwards it can span 32768 bytes and forwards 32767. Lowering refuses a graph for a target out of
reach only if one of its regions has a branch that needs more. Such a region is long: a branch and
its target both lie inside of the region, and the operand ends there too, so that 32768 bytes are
never too many.

## Main statements

- `Region.BranchesAt`: a region is cut at one of its branches.
- `Plan.branched_region`: every branch in the table of an emitted region was written there.
- `Region.Patchable.inReach_of_size_le`: in a short region every label is in reach of every branch.
- `lowerRegion_reports_unreachable`: what is reported is out of reach, and not in a short region.
-/

namespace ActionFlow

/-! ## §1 Branches that were written -/

namespace Region

/-- The region has a branch to the label with its operand at `site`: what stands before the branch,
    the branch with a blank operand, and what stands behind it. -/
def BranchesAt (r : Region) (site : Nat) (target : Label) : Prop :=
  ∃ (kind : BranchKind) (before behind : Region),
    r = before ++ (branching (kind.record 0).write.bytes target ++ behind) ∧ site = before.size + 3

section BranchesAt

variable {a b : Region} {site : Nat} {target : Label}

theorem BranchesAt.append_right (h : a.BranchesAt site target) :
    (a ++ b).BranchesAt site target := by
  obtain ⟨kind, before, behind, rfl, site_eq⟩ := h
  refine ⟨kind, before, behind ++ b, ?_, site_eq⟩
  rw [append_assoc, append_assoc]

theorem BranchesAt.append_left (h : b.BranchesAt site target) :
    (a ++ b).BranchesAt (a.size + site) target := by
  obtain ⟨kind, before, behind, rfl, rfl⟩ := h
  refine ⟨kind, a ++ before, behind, ?_, ?_⟩
  · rw [append_assoc]
  · rw [size_append, Nat.add_assoc]

end BranchesAt

/-- Every branch in the table was written at its place. -/
def Branched (r : Region) : Prop :=
  ∀ j ∈ r.jumps, ∃ l, j.target = some l ∧ r.BranchesAt j.site l

theorem Branched.append {a b : Region} (ha : a.Branched) (hb : b.Branched) : (a ++ b).Branched := by
  intro j hj
  rw [jumps_append, List.mem_append, List.mem_map] at hj
  rcases hj with hj | ⟨k, hk, rfl⟩
  · obtain ⟨l, named, written⟩ := ha j hj
    exact ⟨l, named, written.append_right⟩
  · obtain ⟨l, named, written⟩ := hb k hk
    exact ⟨l, named, written.append_left⟩

theorem branched_of_jumps_eq_nil {r : Region} (none_open : r.jumps = []) : r.Branched := by
  intro j hj
  rw [none_open] at hj
  cases hj

end Region

theorem Plan.branched_transfer (kind : BranchKind) (target : Label) :
    (nodeRegion (.transfer kind target)).Branched := by
  intro j hj
  obtain rfl : j = ⟨3, some target⟩ := by
    cases kind <;> exact List.mem_singleton.mp hj
  refine ⟨target, rfl, kind, Region.empty, Region.empty, ?_, rfl⟩
  rw [Region.append_empty, Region.empty_append, nodeRegion]

/-- Every branch in the table of an emitted region was written there. -/
theorem Plan.branched_region (ns : Plan) : (region ns).Branched := by
  refine region_induction (P := Region.Branched) ?_ ?_ ?_ ?_ ?_ ns
  · exact Region.branched_of_jumps_eq_nil rfl
  · exact fun _ => Region.branched_of_jumps_eq_nil rfl
  · exact fun _ => Region.branched_of_jumps_eq_nil rfl
  · exact branched_transfer
  · exact fun _ _ => Region.Branched.append

/-! ## §2 Long and short regions -/

namespace Region

variable {r : Region}

/-- What emission builds can be patched in place, if its offsets have no more than 63 bits. -/
theorem Patchable.patchSafe (hr : r.Patchable) (size_lt : r.size < 0x8000000000000000) :
    r.PatchSafe r.size where
  apart := by
    -- The table ascends, so of two branches the one with the smaller site comes first.
    apply List.Pairwise.forall_of_forall_of_flip
    · exact fun j _ before => absurd before (Nat.lt_irrefl _)
    · exact hr.apart.imp fun apart _ => by omega
    · exact hr.apart.imp fun apart (before : _ < _) => by omega
  inside := hr.operands_inside
  size_lt := size_lt
  stop_lt := size_lt
  label_lt l p defined := Nat.lt_of_le_of_lt (hr.inside l p defined) size_lt

/-- In a short region every label is in reach of every branch: the operand ends inside, so a branch
    spans at most all 32768 bytes backwards, and its own header is missing from what it can span
    forwards. -/
theorem Patchable.inReach_of_size_le (hr : r.Patchable) (short : r.size ≤ 32768) {j : Jump}
    (hj : j ∈ r.openJumps) {l : Label} {target : Nat} (defined : r.offset? l = some target) :
    InReach (j.site + 2) target := by
  have bound := hr.bound j hj
  have inside := hr.inside l target defined
  exact ⟨by omega, by omega, by omega, by omega⟩

/-- A target that is reported as out of reach is that of a branch in the table. -/
theorem Patchable.exists_far_of_finish (hr : r.Patchable) {terminate : Bool} {site target : Nat}
    (failed : (r.finish terminate).result = .error (.jumpOutOfRange site target)) :
    ∃ j ∈ r.openJumps, j.site = site ∧ branchDelta? (site + 2) target = none
      ∧ ∃ l, j.target = some l ∧ r.offset? l = some target := by
  obtain ⟨j, hj, at_fault⟩ := exists_fault_of_finish failed
  obtain ⟨l, named⟩ := hr.named j hj
  rcases resolve?_eq_error_iff.mp at_fault with ⟨_, _, _, other⟩ | ⟨goal, reached, far, same⟩
  · cases other
  · obtain ⟨rfl, rfl⟩ := LowerError.jumpOutOfRange.inj same
    rw [named] at reached
    exact ⟨j, hj, rfl, far, l, named, reached⟩

end Region

/-! ## §3 Lowering -/

namespace Graph

variable {o : Options} {g : Graph} {site target : Nat}

/-- A region that is refused for a target out of reach has the branch that cannot reach it. -/
theorem far_of_faultyAlone (fault : FaultyAlone o g (.jumpOutOfRange site target)) :
    ∃ depth region label, (emitBlocks o depth none g).result = .ok region
      ∧ region.BranchesAt site label ∧ region.offset? label = some target
      ∧ (region.size < 0x8000000000000000 →
        (target : Int) - ((site + 2 : Nat) : Int) < -32768
          ∨ 32767 < (target : Int) - ((site + 2 : Nat) : Int)) := by
  obtain ⟨depth, region, terminate, emitted, failed⟩ := fault
  have patchable := patchable_of_emitBlocks emitted
  obtain ⟨j, hj, rfl, far, l, named, defined⟩ := patchable.exists_far_of_finish failed
  refine ⟨depth, region, l, emitted, ?_, defined, ?_⟩
  · -- The table of an emitted region lists branches that were written.
    obtain ⟨-, -, rfl⟩ := (emitBlocks_eq_ok_iff o depth none g region).mp emitted
    obtain ⟨l', named', written⟩ := Plan.branched_region _ j (Region.mem_of_mem_openJumps hj)
    obtain rfl : l = l' := Option.some.inj (named.symm.trans named')
    exact written
  · intro size_lt
    have reached : region.target? region.size j = some target := by
      rw [Region.target?, named]
      exact defined
    have close_iff := (patchable.patchSafe size_lt).inReach_iff hj reached
    rw [Jump.distance] at close_iff
    by_contra close
    rw [not_or, Int.not_lt, Int.not_lt] at close
    rw [branchDelta?_eq_some_iff.mpr ⟨close_iff.mpr close, rfl⟩] at far
    cases far

theorem not_faultyAlone_of_size_le
    (short : ∀ depth region,
      (emitBlocks o depth none g).result = .ok region → region.size ≤ 32768) :
    ¬ FaultyAlone o g (.jumpOutOfRange site target) := by
  rintro ⟨depth, region, terminate, emitted, failed⟩
  have patchable := patchable_of_emitBlocks emitted
  obtain ⟨j, hj, rfl, far, l, -, defined⟩ := patchable.exists_far_of_finish failed
  have reach := patchable.inReach_of_size_le (short depth region emitted) hj defined
  rw [branchDelta?_eq_some_iff.mpr ⟨reach, rfl⟩] at far
  cases far

end Graph

/-- A target out of reach, in the graph or in one of the function bodies in it. What is reported is
    a branch that was written into the region, and the offset of its label there; the distance
    between them does not fit a signed word. (Offsets of code that a machine can hold have 63 bits.)
    If no region has more than 32768 bytes, before the stop action at the end of the graph, then
    nothing is ever reported as out of reach. -/
theorem lowerRegion_reports_unreachable (g : Graph) (terminate : Bool) (o : Options) :
    (∀ site target, lowerRegion g terminate o = .error (.jumpOutOfRange site target) →
      ∃ r ∈ Graph.regions g, ∃ depth region label, (emitBlocks o depth none r).result = .ok region
        ∧ region.BranchesAt site label ∧ region.offset? label = some target
        ∧ (region.size < 0x8000000000000000 →
          (target : Int) - ((site + 2 : Nat) : Int) < -32768
            ∨ 32767 < (target : Int) - ((site + 2 : Nat) : Int)))
      ∧ ((∀ r ∈ Graph.regions g, ∀ depth region,
          (emitBlocks o depth none r).result = .ok region → region.size ≤ 32768) →
        ∀ site target, lowerRegion g terminate o ≠ .error (.jumpOutOfRange site target)) := by
  have traced : ∀ site target, lowerRegion g terminate o = .error (.jumpOutOfRange site target) →
      ∃ r ∈ Graph.regions g, Graph.FaultyAlone o r (.jumpOutOfRange site target) := by
    intro site target failed
    rcases failsOnly_lowerRegion g terminate o _ failed with of_record | at_fault
    · -- Nothing that is written on its own is out of reach.
      cases of_record
    · exact at_fault
  constructor
  · intro site target failed
    obtain ⟨r, hr, fault⟩ := traced site target failed
    exact ⟨r, hr, Graph.far_of_faultyAlone fault⟩
  · intro short site target failed
    obtain ⟨r, hr, fault⟩ := traced site target failed
    exact Graph.not_faultyAlone_of_size_le (short r hr) fault

/-! ## §4 A loop of any length -/

/-- A loop around an action with a payload of `n` bytes. -/
def paddedLoop (n : Nat) : Graph :=
  [⟨⟨"start"⟩, [.plain (.raw Code.push (List.replicate n 0))], .branch ⟨"start"⟩ none⟩]

/-- What emission builds for the loop. -/
def paddedLoopRegion (n : Nat) : Region :=
  Plan.region (Graph.plan false none (paddedLoop n))

theorem write_padding {n : Nat} (fits : n ≤ 65535) :
    (Record.action (.plain (.raw Code.push (List.replicate n 0)))).write
      = ⟨Bytes.frame Code.push (List.replicate n 0), none⟩ :=
  Record.write_eq_frame rfl (show ¬ Code.push < 0x80 by decide) rfl
    (by rw [List.length_replicate]; exact fits)

theorem emitBlocks_paddedLoop {n : Nat} (fits : n ≤ 65535) :
    (emitBlocks {} 0 none (paddedLoop n)).result = .ok (paddedLoopRegion n) := by
  apply (emitBlocks_eq_ok_iff {} 0 none (paddedLoop n) _).mpr
  refine ⟨by simp [paddedLoop, Graph.nesting, Graph.actionsNesting, Graph.flowNesting], ?_, rfl⟩
  simp [paddedLoop, Graph.plan, Graph.actionsPlan, Graph.flowPlan, Plan.continuation, Plan.Sound,
    Plan.NodeSound, write_padding fits, Graph.firstLabel?]

theorem paddedLoopRegion_eq {n : Nat} (fits : n ≤ 65535) :
    paddedLoopRegion n = Region.define ⟨"start"⟩
      ++ (Region.ofCode (Bytes.frame Code.push (List.replicate n 0))
        ++ Region.branching (BranchKind.onTrue.record 0).write.bytes ⟨"start"⟩) := by
  simp [paddedLoopRegion, paddedLoop, Graph.plan, Graph.actionsPlan, Graph.flowPlan,
    Plan.continuation, Plan.region, Plan.nodeRegion, write_padding fits, Graph.firstLabel?]

theorem size_paddedLoopRegion {n : Nat} (fits : n ≤ 65535) : (paddedLoopRegion n).size = n + 8 := by
  rw [paddedLoopRegion_eq fits]
  simp [Region.define, Region.branching, BranchKind.record, Region.size,
    Bytes.length_frame _ (show ¬ Code.push < 0x80 by decide),
    Bytes.length_frame _ (show ¬ Code.branch < 0x80 by decide)]

theorem openJumps_paddedLoopRegion {n : Nat} (fits : n ≤ 65535) :
    (paddedLoopRegion n).openJumps = [⟨n + 6, some ⟨"start"⟩⟩] := by
  have tidy : (paddedLoopRegion n).Tidy := Plan.tidy_region _
  rw [tidy.openJumps, paddedLoopRegion_eq fits]
  simp [Region.define, Region.branching, Jump.shift, BranchKind.record, Region.size,
    Bytes.length_frame _ (show ¬ Code.push < 0x80 by decide),
    Bytes.length_frame _ (show ¬ Code.branch < 0x80 by decide)]

theorem offset?_paddedLoopRegion {n : Nat} (fits : n ≤ 65535) :
    (paddedLoopRegion n).offset? ⟨"start"⟩ = some 0 := by
  rw [paddedLoopRegion_eq fits, Region.offset?]
  simp [Region.define, Region.branching]

/-- A loop of more than 32768 bytes cannot be closed. -/
theorem lowerRegion_paddedLoop {n : Nat} (fits : n ≤ 65535) (long : 32760 < n) (terminate : Bool) :
    lowerRegion (paddedLoop n) terminate {} = .error (.jumpOutOfRange (n + 6) 0) := by
  have far : branchDelta? (n + 6 + 2) 0 = none := by
    rw [branchDelta?, if_neg]
    omega
  have fault : (paddedLoopRegion n).patches (paddedLoopRegion n).size
      = ([], some (.jumpOutOfRange (n + 6) 0)) := by
    rw [Region.patches_eq_resolveAll, openJumps_paddedLoopRegion fits, Region.resolveAll]
    simp [Region.resolve?, offset?_paddedLoopRegion fits, far]
  rw [lowerRegion, lowerRegionTraced, Traced.result_bind, emitBlocks_paddedLoop fits, ok_bind,
    Region.result_finish, fault]

/-- The threshold is sharp: a loop of 32768 bytes is never refused, and one more byte is. -/
theorem paddedLoop_reports_unreachable :
    (∀ site target, lowerRegion (paddedLoop 32760) true {} ≠ .error (.jumpOutOfRange site target))
      ∧ ∃ region label, (emitBlocks {} 0 none (paddedLoop 32761)).result = .ok region
        ∧ region.size = 32769 ∧ region.BranchesAt 32767 label ∧ region.offset? label = some 0 := by
  obtain ⟨-, never⟩ := lowerRegion_reports_unreachable (paddedLoop 32760) true {}
  obtain ⟨far, -⟩ := lowerRegion_reports_unreachable (paddedLoop 32761) true {}
  have alone : ∀ n, ∀ r ∈ Graph.regions (paddedLoop n), r = paddedLoop n := by
    intro n r hr
    exact List.mem_singleton.mp hr
  have emitted : ∀ n depth region, (emitBlocks {} depth none (paddedLoop n)).result = .ok region →
      region = paddedLoopRegion n := by
    intro n depth region emitted
    exact ((emitBlocks_eq_ok_iff {} depth none (paddedLoop n) region).mp emitted).2.2
  constructor
  · apply never
    intro r hr depth region emitted_r
    rw [alone _ r hr] at emitted_r
    rw [emitted 32760 depth region emitted_r, size_paddedLoopRegion (by decide)]
  · obtain ⟨r, hr, depth, region, label, emitted_r, written, defined, -⟩ :=
      far 32767 0 (lowerRegion_paddedLoop (by decide) (by decide) true)
    rw [alone _ r hr] at emitted_r
    obtain rfl := emitted 32761 depth region emitted_r
    exact ⟨_, label, emitBlocks_paddedLoop (by decide), size_paddedLoopRegion (by decide), written,
      defined⟩

end ActionFlow
