import ActionFlow.Proofs.Patching

/-!
# Patching in place, byte by byte

Patching goes through the table of branches by ascending operand offset and stops at the first one
that cannot be resolved. Here its effect is told for any code and any tables, as long as the
operands lie inside of the code and do not overlap: which bytes it changes and to what, and which it
leaves alone. The branches that were passed before the fault have their operands; all that was not
reached is as it was.

## Main statements

- `Region.sorted_openJumps`: the table ascends, so the first fault is the one with the least offset.
- `Patch.signedAt?_foldl_apply`, `Patch.getElem?_foldl_apply`: operands that are written apart from
  each other are all there in the end, and nothing else has changed.
- `Region.resolveAll_split`: a run over the table is the branches before the first fault, and it.
- `Region.PatchSafe.rewritten`: the bytes after such a run.
- `Region.patched_exact`: when patching succeeds, what it reports otherwise, and what it writes.
-/

namespace ActionFlow

/-! ## §1 The table ascends -/

theorem Jump.sorted_insertNew (j : Jump) {ks : List Jump}
    (sorted : ks.Pairwise fun a b => a.site < b.site) :
    (insertNew j ks).Pairwise fun a b => a.site < b.site := by
  induction ks with
  | nil => simp [insertNew]
  | cons k ks ih =>
    rw [List.pairwise_cons] at sorted
    rw [insertNew]
    split
    next first =>
      -- The new branch comes before `k`, and so before all others.
      refine List.pairwise_cons.mpr ⟨?_, List.pairwise_cons.mpr sorted⟩
      intro i hi
      rcases List.mem_cons.mp hi with rfl | hi
      · exact first
      · exact Nat.lt_trans first (sorted.1 i hi)
    next not_first =>
      split
      · exact List.pairwise_cons.mpr sorted
      next other =>
        refine List.pairwise_cons.mpr ⟨?_, ih sorted.2⟩
        intro i hi
        rcases mem_of_mem_insertNew hi with rfl | hi
        · omega
        · exact sorted.1 i hi

/-- The table of a region ascends by operand offset, whatever was entered in which order. -/
theorem Region.sorted_openJumps (r : Region) :
    r.openJumps.Pairwise fun j k => j.site < k.site := by
  unfold openJumps
  induction r.jumps with
  | nil => exact .nil
  | cons j js ih => exact Jump.sorted_insertNew j ih

/-! ## §2 Writing operands -/

/-- The signed word at an offset, if there are two bytes. -/
def Bytes.signedAt? (code : Bytes) (site : Nat) : Option Int :=
  match code[site]?, code[site + 1]? with
  | some lo, some hi => some (signedWord lo hi)
  | _, _ => none

namespace Patch

/-- An operand changes no byte but its own two. -/
theorem getElem?_apply_of_ne {code : Bytes} {p : Patch} {i : Nat}
    (outside : i ≠ p.site ∧ i ≠ p.site + 1) : (apply code p)[i]? = code[i]? := by
  unfold apply
  rw [List.getElem?_set_ne outside.2.symm, List.getElem?_set_ne outside.1.symm]

/-- An operand that was written is read back. -/
theorem signedAt?_apply {code : Bytes} {p : Patch} (inside : p.site + 2 ≤ code.length) :
    Bytes.signedAt? (apply code p) p.site = some p.delta.toInt := by
  have low : (apply code p)[p.site]? = some p.delta.toUInt16.toUInt8 := by
    unfold apply
    rw [List.getElem?_set_ne (by omega), List.getElem?_set_self (by omega)]
  have high : (apply code p)[p.site + 1]? = some (p.delta.toUInt16 >>> 8).toUInt8 := by
    unfold apply
    rw [List.getElem?_set_self (by rw [List.length_set]; omega)]
  unfold Bytes.signedAt?
  rw [low, high]
  exact congrArg some (Bytes.signedWord_ofInt16 p.delta)

/-- Operands that are written change no byte but their own. -/
theorem getElem?_foldl_apply {ps : List Patch} {i : Nat}
    (outside : ∀ p ∈ ps, i ≠ p.site ∧ i ≠ p.site + 1) (code : Bytes) :
    (ps.foldl apply code)[i]? = code[i]? := by
  induction ps generalizing code with
  | nil => rfl
  | cons p ps ih =>
    rw [List.forall_mem_cons] at outside
    rw [List.foldl_cons, ih outside.2, getElem?_apply_of_ne outside.1]

/-- Operands that are written apart from each other are all read back in the end. -/
theorem signedAt?_foldl_apply {ps : List Patch} {code : Bytes}
    (apart : ps.Pairwise fun p q => p.site + 2 ≤ q.site)
    (inside : ∀ p ∈ ps, p.site + 2 ≤ code.length) :
    ∀ p ∈ ps, Bytes.signedAt? (ps.foldl apply code) p.site = some p.delta.toInt := by
  induction ps generalizing code with
  | nil => simp
  | cons p ps ih =>
    rw [List.pairwise_cons] at apart
    rw [List.forall_mem_cons] at inside ⊢
    constructor
    · -- The others are written behind this one, so its two bytes stay as they are.
      have stays : ∀ i < p.site + 2,
          (ps.foldl apply (apply code p))[i]? = (apply code p)[i]? := by
        intro i before
        apply getElem?_foldl_apply
        intro q hq
        have := apart.1 q hq
        omega
      rw [List.foldl_cons, Bytes.signedAt?, stays p.site (by omega), stays (p.site + 1) (by omega)]
      exact signedAt?_apply inside.1
    · rw [List.foldl_cons]
      apply ih apart.2
      intro q hq
      rw [length_apply]
      exact inside.2 q hq

end Patch

/-! ## §3 A run over the table -/

namespace Region

/-- The offset that a branch is to reach: that of its label, or `stop` if it has none. -/
def target? (r : Region) (stop : Nat) (j : Jump) : Option Nat :=
  j.target.elim (some stop) r.offset?

/-- A run over the table passes the branches before the first one at fault, and stops there. -/
theorem resolveAll_split (offset? : Label → Option Nat) (stop : Nat) (js : List Jump) :
    ∃ done rest, js = done ++ rest
      ∧ done.map (resolve? offset? stop) = (resolveAll offset? stop js).1.map .ok
      ∧ ((rest = [] ∧ (resolveAll offset? stop js).2 = none)
        ∨ ∃ j pending e, rest = j :: pending ∧ resolve? offset? stop j = .error e
          ∧ (resolveAll offset? stop js).2 = some e) := by
  induction js with
  | nil => exact ⟨[], [], rfl, rfl, .inl ⟨rfl, rfl⟩⟩
  | cons j js ih =>
    rw [resolveAll]
    cases resolved : resolve? offset? stop j with
    | error e => exact ⟨[], j :: js, rfl, rfl, .inr ⟨j, js, e, rfl, resolved, rfl⟩⟩
    | ok p =>
      obtain ⟨done, rest, split, passed, ending⟩ := ih
      refine ⟨j :: done, rest, congrArg (j :: ·) split, ?_, ending⟩
      rw [List.map_cons, List.map_cons, resolved, passed]

theorem sites_of_passed {offset? : Label → Option Nat} {stop : Nat} {done : List Jump}
    {ps : List Patch} (passed : done.map (resolve? offset? stop) = ps.map .ok) :
    ps.map Patch.site = done.map Jump.site := by
  induction done generalizing ps with
  | nil =>
    obtain rfl : ps = [] := by simpa using passed.symm
    rfl
  | cons j done ih =>
    obtain ⟨p, ps, rfl, resolved, rest⟩ := List.map_eq_cons_iff.mp passed.symm
    rw [List.map_cons, List.map_cons, site_of_resolve? resolved.symm, ih rest.symm]

end Region

/-- The distance that the operand of a branch has to hold for a target: it counts from the byte
    after the operand. -/
def Jump.distance (j : Jump) (target : Nat) : Int := (target : Int) - ((j.site + 2 : Nat) : Int)

namespace Region

/-- The branch has a target, and a signed word can hold the distance to it. -/
def Bridges (r : Region) (stop : Nat) (j : Jump) : Prop :=
  ∃ target, r.target? stop j = some target
    ∧ -32768 ≤ j.distance target ∧ j.distance target ≤ 32767

/-- What patching in place can rely on: operands do not overlap and lie inside of the code, and the
    offsets have no more than 63 bits. -/
structure PatchSafe (r : Region) (stop : Nat) : Prop where
  apart : ∀ j ∈ r.openJumps, ∀ k ∈ r.openJumps, j.site < k.site → j.site + 2 ≤ k.site
  inside : ∀ j ∈ r.openJumps, j.site + 2 ≤ r.size
  size_lt : r.size < 0x8000000000000000
  stop_lt : stop < 0x8000000000000000
  label_lt : ∀ l p, r.offset? l = some p → p < 0x8000000000000000

/-- The region `r'` is `r` with the operands of the branches `done` written: each holds the distance
    to its target, every other byte is that of `r`, and so are the tables. -/
structure Rewritten (r : Region) (stop : Nat) (done : List Jump) (r' : Region) : Prop where
  operand : ∀ j ∈ done, ∃ target, r.target? stop j = some target
    ∧ Bytes.signedAt? r'.code j.site = some (j.distance target)
  unchanged : ∀ i, (∀ j ∈ done, i ≠ j.site ∧ i ≠ j.site + 1) → r'.code[i]? = r.code[i]?
  labels_eq : r'.labels = r.labels
  jumps_eq : r'.jumps = r.jumps

/-- The fault of a branch without a target in reach. -/
inductive FaultOf (r : Region) (stop : Nat) (j : Jump) : LowerError → Prop where
  | missing (l : Label) (named : j.target = some l) (absent : r.offset? l = none) :
      FaultOf r stop j (.labelNotFound l j.site)
  | tooFar (target : Nat) (reached : r.target? stop j = some target) :
      FaultOf r stop j (.jumpOutOfRange j.site target)

namespace PatchSafe

variable {r : Region} {stop : Nat}

theorem target_lt (safe : r.PatchSafe stop) {j : Jump} {target : Nat}
    (reached : r.target? stop j = some target) : target < 0x8000000000000000 := by
  unfold target? at reached
  cases named : j.target with
  | none =>
    rw [named] at reached
    obtain rfl : stop = target := Option.some.inj reached
    exact safe.stop_lt
  | some l =>
    rw [named] at reached
    exact safe.label_lt l target reached

/-- With offsets of 63 bits, only the distance decides whether a target is in reach. -/
theorem inReach_iff (safe : r.PatchSafe stop) {j : Jump} (hj : j ∈ r.openJumps) {target : Nat}
    (reached : r.target? stop j = some target) :
    InReach (j.site + 2) target ↔ -32768 ≤ j.distance target ∧ j.distance target ≤ 32767 := by
  constructor
  · intro reach
    exact ⟨reach.lower, reach.upper⟩
  · rintro ⟨lower, upper⟩
    have source_lt : j.site + 2 < 0x8000000000000000 :=
      Nat.lt_of_le_of_lt (safe.inside j hj) safe.size_lt
    exact ⟨source_lt, safe.target_lt reached, lower, upper⟩

/-- A branch that is resolved gets the distance to its target. -/
theorem bridges_of_resolve? (safe : r.PatchSafe stop) {j : Jump} (hj : j ∈ r.openJumps) {p : Patch}
    (resolved : resolve? r.offset? stop j = .ok p) :
    ∃ target, r.target? stop j = some target ∧ p.site = j.site
      ∧ p.delta.toInt = j.distance target
      ∧ -32768 ≤ j.distance target ∧ j.distance target ≤ 32767 := by
  unfold resolve? at resolved
  split at resolved
  · cases resolved
  next target reached =>
    split at resolved
    next delta close =>
      obtain rfl := Except.ok.inj resolved
      obtain ⟨reach, rfl⟩ := branchDelta?_eq_some_iff.mp close
      exact ⟨target, reached, rfl, reach.toInt_distance, (safe.inReach_iff hj reached).mp reach⟩
    next => cases resolved

/-- A branch that is not resolved has no target in reach, and the fault says which. -/
theorem faultOf_of_resolve? (safe : r.PatchSafe stop) {j : Jump} (hj : j ∈ r.openJumps)
    {e : LowerError} (failed : resolve? r.offset? stop j = .error e) :
    ¬ r.Bridges stop j ∧ r.FaultOf stop j e := by
  rcases resolve?_eq_error_iff.mp failed with ⟨l, named, absent, rfl⟩ | ⟨target, reached, far, rfl⟩
  · refine ⟨?_, .missing l named absent⟩
    rintro ⟨target, reached, -⟩
    simp [target?, named, absent] at reached
  · refine ⟨?_, .tooFar target reached⟩
    rintro ⟨target', reached', close⟩
    obtain rfl : target = target' := Option.some.inj (reached.symm.trans reached')
    have reach := (safe.inReach_iff hj reached).mpr close
    rw [branchDelta?_eq_some_iff.mpr ⟨reach, rfl⟩] at far
    cases far

/-- The bytes after a run: what was passed holds its distance, and all else is as it was. -/
theorem rewritten (safe : r.PatchSafe stop) {done : List Jump} {ps : List Patch}
    (table : done.Sublist r.openJumps)
    (passed : done.map (resolve? r.offset? stop) = ps.map .ok) :
    r.Rewritten stop done { r with code := Patch.applyAll ps r.code } := by
  have sites_eq := sites_of_passed passed
  have apart : ps.Pairwise fun p q => p.site + 2 ≤ q.site := by
    -- The sites are those of a part of the table, which ascends.
    have ascending : done.Pairwise fun j k => j.site + 2 ≤ k.site := by
      refine ((sorted_openJumps r).sublist table).imp_of_mem ?_
      intro j k hj hk before
      exact safe.apart j (table.subset hj) k (table.subset hk) before
    rw [← List.pairwise_map (f := Patch.site) (R := fun s t => s + 2 ≤ t), sites_eq,
      List.pairwise_map]
    exact ascending
  have from_table : ∀ p ∈ ps, ∃ j ∈ done, j.site = p.site := by
    intro p hp
    have in_done : p.site ∈ done.map Jump.site := sites_eq ▸ List.mem_map_of_mem hp
    exact List.mem_map.mp in_done
  have inside : ∀ p ∈ ps, p.site + 2 ≤ r.code.length := by
    intro p hp
    obtain ⟨j, hj, site_eq⟩ := from_table p hp
    exact site_eq ▸ safe.inside j (table.subset hj)
  refine ⟨?_, ?_, rfl, rfl⟩
  · intro j hj
    obtain ⟨p, hp, resolved⟩ := List.mem_map.mp (passed ▸ List.mem_map_of_mem hj)
    obtain ⟨target, reached, site_eq, delta_eq, -⟩ :=
      safe.bridges_of_resolve? (table.subset hj) resolved.symm
    refine ⟨target, reached, ?_⟩
    rw [Patch.applyAll_eq_foldl, ← site_eq, ← delta_eq]
    exact Patch.signedAt?_foldl_apply apart inside p hp
  · intro i outside
    show (Patch.applyAll ps r.code)[i]? = _
    rw [Patch.applyAll_eq_foldl]
    apply Patch.getElem?_foldl_apply
    intro p hp
    obtain ⟨j, hj, site_eq⟩ := from_table p hp
    exact site_eq ▸ outside j hj

end PatchSafe

/-! ## §4 Patching in place -/

/-- The branches before one of the table are those with a smaller operand offset. -/
theorem filter_openJumps {r : Region} {done pending : List Jump} {j : Jump}
    (split : r.openJumps = done ++ j :: pending) :
    r.openJumps.filter (·.site < j.site) = done := by
  have sorted := sorted_openJumps r
  rw [split, List.pairwise_append, List.pairwise_cons] at sorted
  obtain ⟨-, ⟨behind, -⟩, before⟩ := sorted
  have kept : ∀ k ∈ done, decide (k.site < j.site) = true := by
    intro k hk
    exact decide_eq_true (before k hk j List.mem_cons_self)
  have dropped : ∀ k ∈ j :: pending, ¬ decide (k.site < j.site) = true := by
    intro k hk
    rw [decide_eq_true_iff]
    rcases List.mem_cons.mp hk with rfl | hk
    · exact Nat.lt_irrefl _
    · exact Nat.lt_asymm (behind k hk)
  rw [split, List.filter_append, List.filter_eq_self.mpr kept, List.filter_eq_nil_iff.mpr dropped,
    List.append_nil]

/-- Patching in place, for any code and any tables with operands that lie inside and apart. It
    succeeds exactly if every branch has a target and the distance to it fits; then each operand
    holds its distance. Otherwise it reports the branch with the least operand offset that has no
    target in reach; the operands before that one are written. No other byte ever changes. -/
theorem patched_exact {r : Region} {stop : Nat} (safe : r.PatchSafe stop) :
    ((r.patched stop).2 = .complete ↔ ∀ j ∈ r.openJumps, r.Bridges stop j)
      ∧ ((r.patched stop).2 = .complete → r.Rewritten stop r.openJumps (r.patched stop).1)
      ∧ ((r.patched stop).2 ≠ .complete → ∃ j ∈ r.openJumps, ∃ e,
          ¬ r.Bridges stop j ∧ (∀ k ∈ r.openJumps, k.site < j.site → r.Bridges stop k)
          ∧ (r.patched stop).2 = .failed e ∧ r.FaultOf stop j e
          ∧ r.Rewritten stop (r.openJumps.filter (·.site < j.site)) (r.patched stop).1) := by
  have short : r.size < offsetCount := Nat.lt_trans safe.size_lt (by decide)
  obtain ⟨done, rest, split, passed, ending⟩ := resolveAll_split r.offset? stop r.openJumps
  rw [← patches_eq_resolveAll] at passed ending
  have table : done.Sublist r.openJumps := split ▸ List.sublist_append_left done rest
  have written := safe.rewritten table passed
  have bridged : ∀ j ∈ done, r.Bridges stop j := by
    intro j hj
    obtain ⟨p, -, resolved⟩ := List.mem_map.mp (passed ▸ List.mem_map_of_mem hj)
    obtain ⟨target, reached, -, -, close⟩ :=
      safe.bridges_of_resolve? (table.subset hj) resolved.symm
    exact ⟨target, reached, close⟩
  rw [patched_eq safe.inside]
  rcases ending with ⟨rfl, no_fault⟩ | ⟨j, pending, e, rfl, failed, fault⟩
  · -- The run came to the end of the table.
    rw [List.append_nil] at split
    rw [no_fault, split]
    exact ⟨⟨fun _ => bridged, fun _ => rfl⟩, fun _ => written, fun stopped => absurd rfl stopped⟩
  · -- The run stopped at `j`, and what it passed is what comes before `j` in the table.
    have hj : j ∈ r.openJumps := split ▸ List.mem_append_right _ List.mem_cons_self
    obtain ⟨not_bridged, fault_of⟩ := safe.faultOf_of_resolve? hj failed
    have outcome : outcomeOf e = .failed e := outcomeOf_fault safe.inside short fault
    rw [fault, Option.elim_some, outcome]
    refine ⟨⟨?_, ?_⟩, ?_, ?_⟩
    · rintro ⟨⟩
    · intro all_bridged
      exact absurd (all_bridged j hj) not_bridged
    · rintro ⟨⟩
    · intro _
      refine ⟨j, hj, e, not_bridged, ?_, rfl, fault_of, ?_⟩
      · intro k hk before
        apply bridged
        rw [← filter_openJumps split, List.mem_filter]
        exact ⟨hk, decide_eq_true before⟩
      · rw [filter_openJumps split]
        exact written

/-- Two branches, entered in reverse order: the first one leads to the end, the second one to a
    label whose offset is given. -/
def twoBranches (far : Nat) : Region :=
  { code := [Code.branch, 2, 0, 0, 0, Code.jump, 2, 0, 0, 0]
    labels := [(⟨"far"⟩, far)]
    jumps := [⟨8, some ⟨"far"⟩⟩, ⟨3, none⟩] }

theorem openJumps_twoBranches (far : Nat) :
    (twoBranches far).openJumps = [⟨3, none⟩, ⟨8, some ⟨"far"⟩⟩] := rfl

theorem size_twoBranches (far : Nat) : (twoBranches far).size = 10 := rfl

theorem patchSafe_twoBranches (far : Nat) (far_lt : far < 0x8000000000000000) :
    (twoBranches far).PatchSafe 10 where
  apart := by
    rw [openJumps_twoBranches]
    decide
  inside := by
    rw [openJumps_twoBranches, size_twoBranches]
    decide
  size_lt := by
    rw [size_twoBranches]
    decide
  stop_lt := by decide
  label_lt l p defined := by
    have entry := mem_labels_of_offset? defined
    obtain ⟨-, rfl⟩ : l = ⟨"far"⟩ ∧ p = far := by simpa [twoBranches] using entry
    exact far_lt

/-- A label 32767 bytes behind the operand is in reach, and the next byte is not. -/
theorem twoBranches_patched :
    (((twoBranches 32777).patched 10).2 = .complete
      ∧ (twoBranches 32777).Rewritten 10 [⟨3, none⟩, ⟨8, some ⟨"far"⟩⟩]
          ((twoBranches 32777).patched 10).1)
    ∧ (((twoBranches 32778).patched 10).2 = .failed (.jumpOutOfRange 8 32778)
      ∧ (twoBranches 32778).Rewritten 10 [⟨3, none⟩] ((twoBranches 32778).patched 10).1) := by
  obtain ⟨-, in_reach, -⟩ := patched_exact (patchSafe_twoBranches 32777 (by decide))
  obtain ⟨-, -, out_of_reach⟩ := patched_exact (patchSafe_twoBranches 32778 (by decide))
  refine ⟨⟨by decide, in_reach (by decide)⟩, ?_⟩
  obtain ⟨j, hj, e, not_bridged, -, -, -, written⟩ := out_of_reach (by decide)
  refine ⟨by decide, ?_⟩
  -- The branch at fault is not the first one, which leads to the end.
  have first : (twoBranches 32778).Bridges 10 ⟨3, none⟩ := ⟨10, rfl, by decide, by decide⟩
  rcases List.mem_pair.mp hj with rfl | rfl
  · exact absurd first not_bridged
  · exact written

end Region

end ActionFlow
