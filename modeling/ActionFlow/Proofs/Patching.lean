import ActionFlow.Proofs.Embedding
import ActionFlow.Proofs.LabelTable
import ActionFlow.Proofs.Placement
import Mathlib.Data.List.TakeWhile

/-!
# Operands are patched inside the code

While a region grows, the sites of its open branches are plain numbers in a table, and the bytes
that they stand for are moved with every region that is put behind another one. Here the two are
kept together: every site in the table is that of a branch whose operand is still zero, sites are so
far apart that operands do not overlap, and labels lie inside of the code. A region with this
property can be patched in place: no operand lies outside of the code, whatever the targets are.

## Main statements

- `Region.openJumps_append`: the branches of two regions, one after the other.
- `Region.Patchable`: what the tables of a region say fits its code; kept by `++` and by `splice`.
- `Region.sites_resolveAll`: operands are written in the order of the table, up to the first fault.
- `Region.Patchable.finish_eq_ok_iff`: finishing a region is patching it in place.
- `emission_patchable`: emission keeps regions patchable, and none of them is ever overrun.
-/

namespace ActionFlow

/-! ## §1 The branches in a table -/

namespace Jump

theorem mem_of_mem_insertNew {j k : Jump} {ks : List Jump} (h : k ∈ insertNew j ks) :
    k = j ∨ k ∈ ks := by
  induction ks with
  | nil => simpa [insertNew] using h
  | cons x xs ih =>
    rw [insertNew] at h
    split at h
    · simpa using h
    · split at h
      · exact .inr h
      · rcases List.mem_cons.mp h with rfl | h
        · exact .inr List.mem_cons_self
        · rcases ih h with rfl | h
          · exact .inl rfl
          · exact .inr (List.mem_cons_of_mem _ h)

/-- A site that is added is in the table, and so are the sites that were in it before. -/
theorem mem_sites_insertNew {j : Jump} {ks : List Jump} {s : Nat} :
    s ∈ (insertNew j ks).map site ↔ s = j.site ∨ s ∈ ks.map site := by
  induction ks with
  | nil => simp [insertNew]
  | cons x xs ih =>
    rw [insertNew]
    split
    · simp
    · split
      next same => simp [same]
      next =>
        rw [List.map_cons, List.mem_cons, ih, List.map_cons, List.mem_cons, or_left_comm]

theorem insertNew_append {j : Jump} {ks : List Jump} (xs : List Jump)
    (h : ∀ k ∈ ks, j.site < k.site) : insertNew j (xs ++ ks) = insertNew j xs ++ ks := by
  induction xs with
  | nil => exact Region.insertNew_of_forall_lt h
  | cons x xs ih =>
    rw [List.cons_append, insertNew, insertNew, ih]
    split
    · rfl
    · split <;> rfl

theorem foldr_insertNew_append {js ks : List Jump} (h : ∀ j ∈ js, ∀ k ∈ ks, j.site < k.site) :
    js.foldr insertNew ks = js.foldr insertNew [] ++ ks := by
  induction js with
  | nil => rfl
  | cons j js ih =>
    rw [List.foldr_cons, ih fun k hk => h k (List.mem_cons_of_mem _ hk), List.foldr_cons,
      insertNew_append _ (h j List.mem_cons_self)]

section Map

variable {f : Jump → Jump}

/-- A table that is changed all over is as if each branch had been changed before it was added, if
    the order of the operands stays. -/
theorem map_insertNew (order : ∀ j k, (f j).site < (f k).site ↔ j.site < k.site) (j : Jump)
    (ks : List Jump) : (insertNew j ks).map f = insertNew (f j) (ks.map f) := by
  induction ks with
  | nil => rfl
  | cons k ks ih =>
    -- Equal sites are those of which neither comes first.
    have same : (f j).site = (f k).site ↔ j.site = k.site := by
      have := order j k
      have := order k j
      omega
    simp only [insertNew, List.map_cons, order, same]
    split
    · rfl
    · split
      · rfl
      · rw [List.map_cons, ih]

theorem foldr_insertNew_map (order : ∀ j k, (f j).site < (f k).site ↔ j.site < k.site)
    (js : List Jump) : (js.map f).foldr insertNew [] = (js.foldr insertNew []).map f := by
  induction js with
  | nil => rfl
  | cons j js ih => rw [List.map_cons, List.foldr_cons, ih, List.foldr_cons, map_insertNew order]

end Map

end Jump

namespace Region

theorem mem_of_mem_openJumps {r : Region} {j : Jump} (h : j ∈ r.openJumps) : j ∈ r.jumps := by
  unfold openJumps at h
  generalize r.jumps = js at h
  induction js with
  | nil => simp at h
  | cons k ks ih =>
    rcases Jump.mem_of_mem_insertNew h with rfl | h
    · exact List.mem_cons_self
    · exact List.mem_cons_of_mem _ (ih h)

theorem mem_sites_openJumps {r : Region} {s : Nat} :
    s ∈ r.openJumps.map Jump.site ↔ s ∈ r.jumps.map Jump.site := by
  unfold openJumps
  generalize r.jumps = js
  induction js with
  | nil => rfl
  | cons k ks ih => rw [List.foldr_cons, Jump.mem_sites_insertNew, ih, List.map_cons, List.mem_cons]

/-- The branches of two regions: those of the first one come before those of the second one, if
    their sites lie inside of it. -/
theorem openJumps_append {a b : Region} (inside : ∀ j ∈ a.openJumps, j.site < a.size) :
    (a ++ b).openJumps = a.openJumps ++ b.openJumps.map (Jump.shift a.size) := by
  have before : ∀ j ∈ a.jumps, ∀ k ∈ b.openJumps.map (Jump.shift a.size), j.site < k.site := by
    intro j hj k hk
    obtain ⟨i, hi, same⟩ := List.mem_map.mp (mem_sites_openJumps.mpr (List.mem_map_of_mem hj))
    obtain ⟨k, -, rfl⟩ := List.mem_map.mp hk
    have := inside i hi
    simp only [Jump.shift]
    omega
  have order : ∀ j k : Jump, (j.shift a.size).site < (k.shift a.size).site ↔ j.site < k.site := by
    simp [Jump.shift]
  rw [openJumps, jumps_append, List.foldr_append, Jump.foldr_insertNew_map order]
  exact Jump.foldr_insertNew_append before

/-! ## §2 Patchable regions -/

/-- What the tables of a region say fits its code. -/
structure Patchable (r : Region) : Prop where
  /-- An operand lies inside of the code, with room for a header before it. -/
  bound : ∀ j ∈ r.openJumps, 3 ≤ j.site ∧ j.site + 2 ≤ r.size
  /-- It is the operand of a branch: a code, the length of the operand, and two zeros. -/
  blank : ∀ j ∈ r.openJumps, ∃ c, (c = Code.jump ∨ c = Code.branch)
    ∧ Stands r.code (j.site - 3) [c, 2, 0, 0, 0]
  /-- Two operands are as far apart as two branches. -/
  apart : r.openJumps.Pairwise fun j k => j.site + 5 ≤ k.site
  /-- Branches have labels. -/
  named : ∀ j ∈ r.openJumps, ∃ l, j.target = some l
  /-- Labels lie inside of the code. -/
  inside : ∀ l p, r.offset? l = some p → p ≤ r.size

theorem patchable_of_jumps_eq_nil {r : Region} (none_open : r.jumps = [])
    (inside : ∀ x ∈ r.labels, x.2 ≤ r.size) : r.Patchable := by
  have table_eq : r.openJumps = [] := by rw [openJumps, none_open]; rfl
  refine ⟨?_, ?_, ?_, ?_, fun l p defined => inside (l, p) (mem_labels_of_offset? defined)⟩
  all_goals simp [table_eq]

theorem patchable_ofCode (code : Bytes) : (ofCode code).Patchable :=
  patchable_of_jumps_eq_nil rfl (by simp)

theorem patchable_transfer (kind : BranchKind) (target : Label) :
    (Plan.nodeRegion (.transfer kind target)).Patchable := by
  have code_eq : (Plan.nodeRegion (.transfer kind target)).code = [kind.code, 2, 0, 0, 0] := by
    cases kind <;> rfl
  have table_eq : (Plan.nodeRegion (.transfer kind target)).openJumps = [⟨3, some target⟩] := by
    cases kind <;> rfl
  refine ⟨?_, ?_, ?_, ?_, by simp [Plan.nodeRegion, branching, offset?]⟩
  · simp [table_eq]
  · rw [table_eq, code_eq, List.forall_mem_singleton]
    exact ⟨kind.code, by cases kind <;> simp [BranchKind.code], List.prefix_refl _⟩
  · simp [table_eq]
  · simp [table_eq]

theorem stands_append_left {x y bytes : Bytes} {p : Nat} (h : Stands x p bytes) :
    Stands (x ++ y) p bytes := by
  unfold Stands at h ⊢
  rw [List.drop_append]
  exact h.trans (List.prefix_append _ _)

theorem stands_append_right {x y bytes : Bytes} {p : Nat} (h : Stands y p bytes) :
    Stands (x ++ y) (x.length + p) bytes := by
  unfold Stands at h ⊢
  rwa [← List.drop_drop, List.drop_left]

theorem Patchable.openJumps_append {a : Region} (ha : a.Patchable) (b : Region) :
    (a ++ b).openJumps = a.openJumps ++ b.openJumps.map (Jump.shift a.size) := by
  apply Region.openJumps_append
  intro j hj
  have := ha.bound j hj
  omega

theorem Patchable.append {a b : Region} (ha : a.Patchable) (hb : b.Patchable) :
    (a ++ b).Patchable where
  bound j hj := by
    rw [ha.openJumps_append, List.mem_append, List.mem_map] at hj
    rw [size_append]
    rcases hj with hj | ⟨k, hk, rfl⟩
    · have := ha.bound j hj
      omega
    · have := hb.bound k hk
      simp only [Jump.shift]
      omega
  blank j hj := by
    rw [ha.openJumps_append, List.mem_append, List.mem_map] at hj
    rw [code_append]
    rcases hj with hj | ⟨k, hk, rfl⟩
    · obtain ⟨c, is_branch, stands⟩ := ha.blank j hj
      exact ⟨c, is_branch, stands_append_left stands⟩
    · obtain ⟨c, is_branch, stands⟩ := hb.blank k hk
      have site_eq : (k.shift a.size).site - 3 = a.code.length + (k.site - 3) :=
        Nat.add_sub_assoc (hb.bound k hk).1 _
      rw [site_eq]
      exact ⟨c, is_branch, stands_append_right stands⟩
  apart := by
    rw [ha.openJumps_append, List.pairwise_append]
    refine ⟨ha.apart, ?_, ?_⟩
    · rw [List.pairwise_map]
      refine hb.apart.imp fun h => ?_
      simp only [Jump.shift]
      omega
    · -- The last operand of `a` ends inside of `a`, and a header stands before the first of `b`.
      intro j hj k' hk'
      obtain ⟨k, hk, rfl⟩ := List.mem_map.mp hk'
      have := ha.bound j hj
      have := hb.bound k hk
      simp only [Jump.shift]
      omega
  named j hj := by
    rw [ha.openJumps_append, List.mem_append, List.mem_map] at hj
    rcases hj with hj | ⟨k, hk, rfl⟩
    · exact ha.named j hj
    · exact hb.named k hk
  inside l p defined := by
    rw [offset?_append, Option.or_eq_some_iff, Option.map_eq_some_iff] at defined
    rw [size_append]
    rcases defined with ⟨q, in_b, rfl⟩ | ⟨-, in_a⟩
    · have := hb.inside l q in_b
      omega
    · have := ha.inside l p in_a
      omega

/-- Offsets in 64 bits make no difference for code that is shorter than that. -/
theorem Patchable.wrap {r : Region} (hr : r.Patchable) (short : r.size < offsetCount) :
    r.wrap.Patchable := by
  -- The sites lie inside of the code, so none of them is beyond the last offset.
  have jumps_eq : r.wrap.jumps = r.jumps := by
    refine (List.map_congr_left fun j hj => ?_).trans (List.map_id _)
    obtain ⟨k, hk, same⟩ := List.mem_map.mp (mem_sites_openJumps.mpr (List.mem_map_of_mem hj))
    have bound := hr.bound k hk
    have small : j.site % offsetCount = j.site := Nat.mod_eq_of_lt (by omega)
    rw [small]
    rfl
  have table_eq : r.wrap.openJumps = r.openJumps := by rw [openJumps, jumps_eq, openJumps]
  refine ⟨table_eq ▸ hr.bound, table_eq ▸ hr.blank, table_eq ▸ hr.apart, table_eq ▸ hr.named, ?_⟩
  intro l p defined
  rw [offset?_wrap] at defined
  obtain ⟨q, before, rfl⟩ := Option.map_eq_some_iff.mp defined
  exact Nat.le_trans (Nat.mod_le _ _) (hr.inside l q before)

end Region

theorem Plan.patchable_region (ns : Plan) : (region ns).Patchable := by
  refine region_induction (P := Region.Patchable) ?_ ?_ ?_ ?_ ?_ ns
  · exact Region.patchable_of_jumps_eq_nil rfl (by simp [Region.empty])
  · exact Region.patchable_ofCode
  · exact fun l => Region.patchable_of_jumps_eq_nil rfl (by simp [Region.define])
  · exact Region.patchable_transfer
  · exact fun a b => Region.Patchable.append

/-! ## §3 Faults and operands -/

namespace Region

/-- A branch is at fault if its label is not defined, or if its target is too far away. -/
theorem resolve?_eq_error_iff {offset? : Label → Option Nat} {stop : Nat} {j : Jump}
    {e : LowerError} :
    resolve? offset? stop j = .error e ↔
      (∃ l, j.target = some l ∧ offset? l = none ∧ e = .labelNotFound l j.site)
        ∨ ∃ target, j.target.elim (some stop) offset? = some target
          ∧ branchDelta? (j.site + 2) target = none ∧ e = .jumpOutOfRange j.site target := by
  obtain ⟨site, target⟩ := j
  simp only [resolve?]
  cases target with
  | none =>
    simp only [Option.elim_none]
    cases close : branchDelta? (site + 2) stop <;> simp [@eq_comm _ _ e, close]
  | some l =>
    simp only [Option.elim_some]
    cases defined : offset? l with
    | none => simp [@eq_comm _ _ e, defined]
    | some p =>
      simp only
      cases close : branchDelta? (site + 2) p <;> simp [@eq_comm _ _ e, defined, close]

theorem exists_fault_of_resolveAll {offset? : Label → Option Nat} {stop : Nat} {js : List Jump}
    {e : LowerError} (h : (resolveAll offset? stop js).2 = some e) :
    ∃ j ∈ js, resolve? offset? stop j = .error e := by
  induction js with
  | nil => simp [resolveAll] at h
  | cons j js ih =>
    rw [resolveAll] at h
    cases hj : resolve? offset? stop j with
    | error e' =>
      obtain rfl : e' = e := by simpa [hj] using h
      exact ⟨j, List.mem_cons_self, hj⟩
    | ok p =>
      obtain ⟨k, hk, fault⟩ := ih (by simpa [hj] using h)
      exact ⟨k, List.mem_cons_of_mem _ hk, fault⟩

/-- Operands are written in the order of the table, up to the first fault. -/
theorem sites_resolveAll (offset? : Label → Option Nat) (stop : Nat) (js : List Jump) :
    (resolveAll offset? stop js).1.map Patch.site <+: js.map Jump.site := by
  induction js with
  | nil => exact List.prefix_refl _
  | cons j js ih =>
    rw [resolveAll]
    cases hj : resolve? offset? stop j with
    | error e => exact List.nil_prefix
    | ok p =>
      simp only [List.map_cons, site_of_resolve? hj]
      exact (List.prefix_cons_inj _).mpr ih

section Inside

variable {r : Region} (inside : ∀ j ∈ r.openJumps, j.site + 2 ≤ r.size)

include inside

theorem fits_of_mem_patches (stop : Nat) : ∀ p ∈ (r.patches stop).1, p.site + 2 ≤ r.size := by
  intro p hp
  have in_table := (sites_resolveAll r.offset? stop r.openJumps).subset (List.mem_map_of_mem hp)
  obtain ⟨j, hj, site_eq⟩ := List.mem_map.mp in_table
  have := inside j hj
  omega

/-- A fault is reported as it is, unless offsets wrap around. -/
theorem outcomeOf_fault (short : r.size < offsetCount) {stop : Nat} {e : LowerError}
    (fault : (r.patches stop).2 = some e) : outcomeOf e = .failed e := by
  obtain ⟨j, hj, at_fault⟩ := exists_fault_of_resolveAll fault
  rcases resolve?_eq_error_iff.mp at_fault with ⟨l, -, -, rfl⟩ | ⟨target, -, -, rfl⟩
  · rfl
  · -- The operand ends inside of the code, and so before the last offset.
    have bound := inside j hj
    rw [outcomeOf, if_neg]
    omega

/-- Patching in place writes all operands up to the first fault: the write never stops earlier. -/
theorem patched_eq (stop : Nat) :
    r.patched stop = ({ r with code := Patch.applyAll (r.patches stop).1 r.code },
      (r.patches stop).2.elim .complete outcomeOf) := by
  have fits : ∀ p ∈ (r.patches stop).1, Patch.fits r.size p = true := by
    intro p hp
    exact decide_eq_true (fits_of_mem_patches inside stop p hp)
  have all_written : (r.patches stop).1.takeWhile (Patch.fits r.size) = (r.patches stop).1 :=
    List.takeWhile_eq_self_iff.mpr fits
  unfold patched
  simp only [all_written, List.getElem?_length]
  cases (r.patches stop).2 <;> rfl

end Inside

namespace Patchable

variable {r : Region}

theorem operands_inside (hr : r.Patchable) : ∀ j ∈ r.openJumps, j.site + 2 ≤ r.size :=
  fun j hj => (hr.bound j hj).2

theorem fits_of_mem_patches (hr : r.Patchable) (stop : Nat) :
    ∀ p ∈ (r.patches stop).1, p.site + 2 ≤ r.size :=
  Region.fits_of_mem_patches hr.operands_inside stop

theorem pairwise_patches (hr : r.Patchable) (stop : Nat) :
    (r.patches stop).1.Pairwise fun p q => p.site + 2 ≤ q.site := by
  have table : (r.openJumps.map Jump.site).Pairwise fun s t => s + 2 ≤ t := by
    rw [List.pairwise_map]
    exact hr.apart.imp fun h => by omega
  have operands := table.sublist (sites_resolveAll r.offset? stop r.openJumps).sublist
  rwa [List.pairwise_map] at operands

theorem patched_ne_overrun (hr : r.Patchable) (short : r.size < offsetCount) (stop site : Nat) :
    (r.patched stop).2 ≠ .overrun site := by
  rw [patched_eq hr.operands_inside]
  cases fault : (r.patches stop).2 with
  | none => simp
  | some e => simp [outcomeOf_fault hr.operands_inside short fault]

end Patchable

theorem append_ofCode (r : Region) (code : Bytes) :
    r ++ ofCode code = { r with code := r.code ++ code } := by
  show append _ _ = _
  simp [append, ofCode, shift]

theorem result_finish (r : Region) (terminate : Bool) :
    (r.finish terminate).result = match r.patches r.size with
      | (ps, none) => .ok (Patch.applyAll ps (r.code ++ terminator terminate))
      | (_, some e) => .error e := by
  unfold finish
  rcases r.patches r.size with ⟨ps, _ | e⟩
  · cases terminate <;> simp [terminator]
  · rfl

theorem outcomeOf_ne_complete (e : LowerError) : outcomeOf e ≠ .complete := by
  unfold outcomeOf
  split
  · split <;> simp
  · simp

theorem patches_append_ofCode (r : Region) (code : Bytes) (stop : Nat) :
    (r ++ ofCode code).patches stop = r.patches stop := by
  rw [append_ofCode]
  rfl

namespace Patchable

variable {r : Region} {terminate : Bool}

/-- Finishing a region is patching it in place, with the stop action behind it. -/
theorem finish_eq_ok_iff (hr : r.Patchable) {code : Bytes} :
    (r.finish terminate).result = .ok code ↔
      (r ++ ofCode (terminator terminate)).patched r.size = ({ r with code := code }, .complete) := by
  have full := hr.append (patchable_ofCode (terminator terminate))
  rw [patched_eq full.operands_inside, patches_append_ofCode, result_finish, append_ofCode]
  rcases r.patches r.size with ⟨ps, _ | e⟩
  · simp
  · simp [outcomeOf_ne_complete]

theorem finish_eq_error_iff (hr : r.Patchable)
    (short : (r ++ ofCode (terminator terminate)).size < offsetCount) {e : LowerError} :
    (r.finish terminate).result = .error e ↔
      ((r ++ ofCode (terminator terminate)).patched r.size).2 = .failed e := by
  have full := hr.append (patchable_ofCode (terminator terminate))
  have reported : ∀ fault, (r.patches r.size).2 = some fault → outcomeOf fault = .failed fault := by
    intro fault at_fault
    exact outcomeOf_fault full.operands_inside short
      ((patches_append_ofCode r _ _).symm ▸ at_fault)
  rw [patched_eq full.operands_inside, patches_append_ofCode, result_finish]
  rcases hp : r.patches r.size with ⟨ps, _ | fault⟩
  · simp
  · simp [reported fault (by rw [hp])]

end Patchable

end Region

/-! ## §4 Emission -/

theorem patchable_of_emitBlocks {o : Options} {depth : Nat} {next : Option Label} {g : Graph}
    {r : Region} (emitted : (emitBlocks o depth next g).result = .ok r) : r.Patchable := by
  obtain ⟨-, -, rfl⟩ := (emitBlocks_eq_ok_iff o depth next g r).mp emitted
  exact Plan.patchable_region _

/-- What emission builds is patchable. A block of any kind behind a patchable region keeps it so,
    and so does a patchable region that is spliced behind it. When a patchable region is finished,
    each operand is written inside of the code, no two of them overlap, and the outcome is that of
    patching in place, which never runs over the end. -/
theorem emission_patchable (o : Options) :
    (∀ depth next g r, (emitBlocks o depth next g).result = .ok r → r.Patchable)
      ∧ (∀ a : Region, a.Patchable → ∀ depth next block r,
          (emitBlocks o depth next [block]).result = .ok r → (a ++ r).Patchable)
      ∧ (∀ a b : Region, a.Patchable → b.Patchable → a.size + b.size < Region.offsetCount →
          (a.splice b).Patchable)
      ∧ ∀ (r full : Region) (terminate : Bool), r.Patchable →
          full = r ++ Region.ofCode (Region.terminator terminate) →
          full.size < Region.offsetCount →
          (∀ p ∈ (full.patches r.size).1, p.site + 2 ≤ full.size)
            ∧ ((full.patches r.size).1.Pairwise fun p q => p.site + 2 ≤ q.site)
            ∧ (∀ site, (full.patched r.size).2 ≠ .overrun site)
            ∧ (∀ code, (r.finish terminate).result = .ok code ↔
                full.patched r.size = ({ r with code := code }, .complete))
            ∧ ∀ e, (r.finish terminate).result = .error e ↔
                (full.patched r.size).2 = .failed e := by
  refine ⟨?_, ?_, ?_, ?_⟩
  · intro depth next g r emitted
    exact patchable_of_emitBlocks emitted
  · intro a ha depth next block r emitted
    exact ha.append (patchable_of_emitBlocks emitted)
  · intro a b ha hb short
    exact (ha.append hb).wrap ((Region.size_append a b).symm ▸ short)
  · rintro r full terminate hr rfl short
    have whole := hr.append (Region.patchable_ofCode (Region.terminator terminate))
    refine ⟨whole.fits_of_mem_patches _, whole.pairwise_patches _, ?_, ?_, ?_⟩
    · exact whole.patched_ne_overrun short _
    · exact fun code => hr.finish_eq_ok_iff
    · exact fun e => hr.finish_eq_error_iff short

theorem guardedLoop_patchable : ∃ r, (emitBlocks {} 0 none guardedLoop).result = .ok r
    ∧ r.openJumps = [⟨42, some ⟨"start"⟩⟩] ∧ r.Patchable ∧ (r.splice r).Patchable
    ∧ ((r ++ Region.ofCode [Code.stop]).patched r.size).2 = .complete := by
  have emitted : (emitBlocks {} 0 none guardedLoop).result
      = .ok ⟨[0x9b, 8, 0, 102, 0, 1, 0, 120, 0, 9, 0, 0x96, 1, 0, 2, 0x9d, 2, 0, 247, 255,
          0x8f, 8, 0, 7, 6, 0, 0, 0, 1, 0, 1, 0x94, 2, 0, 1, 0, 0x17, 0,
          0x42, 0x9d, 2, 0, 0, 0],
        [(⟨"start"⟩, 0), (⟨"body"⟩, 31), (⟨"inner"⟩, 36), (⟨"last"⟩, 37), (⟨"next"⟩, 38)],
        [⟨42, some ⟨"start"⟩⟩]⟩ := by
    decide +kernel
  obtain ⟨code, finished⟩ : ∃ code, lowerRegion guardedLoop true {} = .ok code :=
    ⟨_, lowerRegion_guardedLoop⟩
  obtain ⟨invariant, -, spliced, resolved⟩ := emission_patchable {}
  have patchable := invariant _ _ _ _ emitted
  refine ⟨_, emitted, rfl, patchable, spliced _ _ patchable patchable (by decide), ?_⟩
  obtain ⟨-, -, -, complete, -⟩ := resolved _ _ true patchable rfl (by decide)
  rw [lowerRegion, lowerRegionTraced, Traced.result_bind, emitted] at finished
  exact congrArg Prod.snd ((complete code).mp finished)

end ActionFlow
