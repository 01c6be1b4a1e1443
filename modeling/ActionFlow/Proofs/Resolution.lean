import ActionFlow.Lowering

/-!
# Resolved regions

Lowering writes the operands of branches as zeros and fills them in once the layout is final. Here
the result of that pass is brought into a form that follows the layout: the resolved code of two
regions, one after the other, is the resolved code of the first followed by that of the second.

## Main statements

- `Region.Tidy`: what holds of every region that lowering builds; kept by `++`.
- `Region.settle_append`: resolved code follows the layout.
- `Region.Tidy.sealed_eq_settle`: the resolving pass computes `settle`.
- `Region.Tidy.finish_eq_ok_iff`: finishing succeeds exactly when every branch reaches its target.
-/

namespace ActionFlow

/-! ## §1 Writing operands -/

namespace Patch

@[simp] theorem length_apply (code : Bytes) (p : Patch) : (apply code p).length = code.length := by
  simp [apply]

/-- An operand inside the first part of code leaves the second part alone. -/
theorem apply_append_left {x y : Bytes} {p : Patch} (h : p.site + 2 ≤ x.length) :
    apply (x ++ y) p = apply x p ++ y := by
  have h1 : p.site < x.length := by omega
  have h2 : p.site + 1 < (x.set p.site p.delta.toUInt16.toUInt8).length := by
    rw [List.length_set]
    omega
  unfold apply
  rw [List.set_append_left _ _ h1, List.set_append_left _ _ h2]

/-- An operand inside the second part of code leaves the first part alone. -/
theorem apply_append_right (x y : Bytes) (p : Patch) :
    apply (x ++ y) { p with site := x.length + p.site } = x ++ apply y p := by
  unfold apply
  rw [List.set_append_right _ _ (by simp), List.set_append_right _ _ (by simp; omega)]
  congr 2
  · simp
  · simp
    omega

@[simp] theorem length_foldl_apply (ps : List Patch) (x : Bytes) :
    (ps.foldl apply x).length = x.length := by
  induction ps generalizing x with
  | nil => rfl
  | cons p ps ih => rw [List.foldl_cons, ih, length_apply]

theorem foldl_apply_append_left {ps : List Patch} {x : Bytes} (y : Bytes)
    (h : ∀ p ∈ ps, p.site + 2 ≤ x.length) :
    ps.foldl apply (x ++ y) = ps.foldl apply x ++ y := by
  induction ps generalizing x with
  | nil => rfl
  | cons p ps ih =>
    rw [List.foldl_cons, apply_append_left (h p (List.mem_cons_self ..)), ih, List.foldl_cons]
    intro q hq
    rw [length_apply]
    exact h q (List.mem_cons_of_mem _ hq)

theorem foldl_apply_append_right (ps : List Patch) (x y : Bytes) :
    (ps.map fun p => { p with site := x.length + p.site }).foldl apply (x ++ y)
      = x ++ ps.foldl apply y := by
  induction ps generalizing y with
  | nil => rfl
  | cons p ps ih => rw [List.map_cons, List.foldl_cons, apply_append_right, ih, List.foldl_cons]

end Patch

/-! ## §2 Targets in reach -/

/-- The distance between two offsets fits the operand of a branch. -/
structure InReach (source target : Nat) : Prop where
  source_lt : source < 0x8000000000000000
  target_lt : target < 0x8000000000000000
  lower : -32768 ≤ (target : Int) - (source : Int)
  upper : (target : Int) - (source : Int) ≤ 32767

/-- A distance that fits the operand is read back from it. -/
theorem InReach.toInt_distance {source target : Nat} (h : InReach source target) :
    (Int16.ofInt ((target : Int) - (source : Int))).toInt = (target : Int) - (source : Int) := by
  have lower := h.lower
  have upper := h.upper
  generalize (target : Int) - (source : Int) = d at *
  exact Int16.toInt_ofInt_of_le lower (by omega)

theorem branchDelta?_eq_some_iff {source target : Nat} {delta : Int16} :
    branchDelta? source target = some delta ↔
      InReach source target ∧ delta = Int16.ofInt ((target : Int) - (source : Int)) := by
  simp only [branchDelta?]
  split
  · rename_i h
    have reach : InReach source target := ⟨h.1, h.2.1, h.2.2.1, h.2.2.2⟩
    simp only [Option.some.injEq, reach, true_and]
    exact eq_comm
  · rename_i h
    simp only [reduceCtorEq, false_iff]
    rintro ⟨reach, -⟩
    exact h ⟨reach.source_lt, reach.target_lt, reach.lower, reach.upper⟩

namespace Region

/-- Where a branch to a label ends up; without a label, at the end of the region. -/
def goal (r : Region) (target : Option Label) : Nat :=
  (target.elim (some r.size) r.offset?).getD 0

theorem mem_labels_of_offset? {r : Region} {label : Label} {offset : Nat}
    (h : r.offset? label = some offset) : (label, offset) ∈ r.labels := by
  obtain ⟨before, behind, labels_eq, -⟩ := List.lookup_eq_some_iff.mp h
  rw [← List.mem_reverse, labels_eq]
  simp

/-- A branch with its operand at `site` has a target in reach. -/
structure Reaches (r : Region) (site : Nat) (target : Option Label) : Prop where
  defined : (target.elim (some r.size) r.offset?).isSome
  close : InReach (site + 2) (r.goal target)

/-- The operand of a branch in code that starts at `pos`, where `goal` gives the targets. -/
def operand (goal : Option Label → Nat) (pos : Nat) (j : Jump) : Patch :=
  ⟨j.site, goal j.target, Int16.ofInt ((goal j.target : Int) - ((pos + j.site + 2 : Nat) : Int))⟩

theorem resolve?_eq_ok_iff {r : Region} {j : Jump} {p : Patch} :
    resolve? r.offset? r.size j = .ok p ↔ r.Reaches j.site j.target ∧ p = operand r.goal 0 j := by
  unfold resolve?
  cases ht : j.target.elim (some r.size) r.offset? with
  | none =>
    simp only [reduceCtorEq, false_iff]
    rintro ⟨h, -⟩
    simpa [ht] using h.defined
  | some target =>
    have hgoal : r.goal j.target = target := by simp [goal, ht]
    have hop : operand r.goal 0 j
        = ⟨j.site, target, Int16.ofInt ((target : Int) - ((j.site + 2 : Nat) : Int))⟩ := by
      simp only [operand, hgoal, Nat.zero_add]
    have hreach : r.Reaches j.site j.target ↔ InReach (j.site + 2) target := by
      constructor
      · intro h
        exact hgoal ▸ h.close
      · intro h
        exact ⟨by simp [ht], hgoal.symm ▸ h⟩
    rw [hreach, hop]
    simp only
    cases hd : branchDelta? (j.site + 2) target with
    | none =>
      simp only [reduceCtorEq, false_iff]
      rintro ⟨h, -⟩
      simpa [hd] using branchDelta?_eq_some_iff.mpr ⟨h, rfl⟩
    | some delta =>
      obtain ⟨h, rfl⟩ := branchDelta?_eq_some_iff.mp hd
      simp only [h, true_and, Except.ok.injEq]
      exact eq_comm

/-- If every branch is in reach, all of them are resolved. -/
theorem resolveAll_of_reaches {r : Region} {js : List Jump}
    (h : ∀ j ∈ js, r.Reaches j.site j.target) :
    resolveAll r.offset? r.size js = (js.map (operand r.goal 0), none) := by
  induction js with
  | nil => rfl
  | cons j js ih =>
    rw [resolveAll, resolve?_eq_ok_iff.mpr ⟨h j (List.mem_cons_self ..), rfl⟩]
    simp only
    rw [ih fun k hk => h k (List.mem_cons_of_mem _ hk)]
    rfl

/-- If resolving meets no fault, every branch is in reach. -/
theorem reaches_of_resolveAll {r : Region} {js : List Jump}
    (h : (resolveAll r.offset? r.size js).2 = none) : ∀ j ∈ js, r.Reaches j.site j.target := by
  induction js with
  | nil => simp
  | cons j js ih =>
    rw [resolveAll] at h
    cases hj : resolve? r.offset? r.size j with
    | error e => simp [hj] at h
    | ok p =>
      simp only [hj] at h
      intro k hk
      rcases List.mem_cons.mp hk with rfl | hk
      · exact (resolve?_eq_ok_iff.mp hj).1
      · exact ih h k hk

/-! ## §3 Tidy regions -/

/-- What holds of every region that lowering builds: the operands of branches lie inside the code,
    behind their headers and apart from each other; branches have labels; and labels lie inside. -/
structure Tidy (r : Region) : Prop where
  bound : ∀ j ∈ r.jumps, 3 ≤ j.site ∧ j.site + 2 ≤ r.size
  apart : r.jumps.Pairwise fun j k => j.site + 5 ≤ k.site
  named : ∀ j ∈ r.jumps, j.target.isSome
  inside : ∀ x ∈ r.labels, x.2 ≤ r.size

@[simp] theorem size_append (a b : Region) : (a ++ b).size = a.size + b.size := by
  show (append a b).size = _
  simp [append, size, shift]

@[simp] theorem code_append (a b : Region) : (a ++ b).code = a.code ++ b.code := rfl

@[simp] theorem jumps_append (a b : Region) :
    (a ++ b).jumps = a.jumps ++ b.jumps.map (Jump.shift a.size) := rfl

@[simp] theorem labels_append (a b : Region) :
    (a ++ b).labels = a.labels ++ b.labels.map fun x => (x.1, a.size + x.2) := rfl

@[simp] theorem size_empty : empty.size = 0 := rfl

@[simp] theorem size_ofCode (code : Bytes) : (ofCode code).size = code.length := rfl

@[simp] theorem labels_ofCode (code : Bytes) : (ofCode code).labels = [] := rfl

@[simp] theorem jumps_ofCode (code : Bytes) : (ofCode code).jumps = [] := rfl

@[simp] theorem code_ofCode (code : Bytes) : (ofCode code).code = code := rfl

@[simp] theorem size_define (label : Label) : (define label).size = 0 := rfl

/-- Code is put one after the other like regions. -/
theorem ofCode_append (x y : Bytes) : ofCode (x ++ y) = ofCode x ++ ofCode y := by
  show _ = append _ _
  simp [ofCode, append, shift]

theorem tidy_empty : empty.Tidy :=
  ⟨by simp [empty], by simp [empty], by simp [empty], by simp [empty]⟩

theorem tidy_ofCode (code : Bytes) : (ofCode code).Tidy :=
  ⟨by simp [ofCode], by simp [ofCode], by simp [ofCode], by simp [ofCode]⟩

theorem tidy_define (label : Label) : (define label).Tidy :=
  ⟨by simp [define], by simp [define], by simp [define], by simp [define]⟩

theorem tidy_branching {code : Bytes} (target : Label) (h : 5 ≤ code.length) :
    (branching code target).Tidy := by
  refine ⟨?_, by simp [branching], by simp [branching], by simp [branching]⟩
  intro j hj
  obtain rfl : j = ⟨code.length - 2, some target⟩ := by simpa [branching] using hj
  simp only [size, branching]
  omega

theorem Tidy.append {a b : Region} (ha : a.Tidy) (hb : b.Tidy) : (a ++ b).Tidy where
  bound j hj := by
    rw [jumps_append, List.mem_append, List.mem_map] at hj
    rw [size_append]
    rcases hj with hj | ⟨k, hk, rfl⟩
    · have := ha.bound j hj
      omega
    · have := hb.bound k hk
      simp only [Jump.shift]
      omega
  apart := by
    rw [jumps_append, List.pairwise_append]
    refine ⟨ha.apart, ?_, ?_⟩
    · rw [List.pairwise_map]
      refine hb.apart.imp fun h => ?_
      simp only [Jump.shift]
      omega
    · -- The first operand ends inside `a`, and three header bytes stand before the second.
      intro j hj k' hk'
      obtain ⟨k, hk, rfl⟩ := List.mem_map.mp hk'
      have h1 := ha.bound j hj
      have h2 := hb.bound k hk
      simp only [Jump.shift]
      omega
  named j hj := by
    rw [jumps_append, List.mem_append, List.mem_map] at hj
    rcases hj with hj | ⟨k, hk, rfl⟩
    · exact ha.named j hj
    · exact hb.named k hk
  inside x hx := by
    rw [labels_append, List.mem_append, List.mem_map] at hx
    rw [size_append]
    rcases hx with hx | ⟨y, hy, rfl⟩
    · have := ha.inside x hx
      omega
    · have := hb.inside y hy
      simp only
      omega

/-- A branch before all others is put at the front. -/
theorem insertNew_of_forall_lt {j : Jump} {ks : List Jump} (h : ∀ k ∈ ks, j.site < k.site) :
    Jump.insertNew j ks = j :: ks := by
  cases ks with
  | nil => rfl
  | cons k ks => rw [Jump.insertNew, if_pos (h k (List.mem_cons_self ..))]

/-- The branches of a tidy region are written in the order in which they are resolved. -/
theorem Tidy.openJumps {r : Region} (h : r.Tidy) : r.openJumps = r.jumps := by
  unfold Region.openJumps
  have apart := h.apart
  generalize r.jumps = js at apart
  induction js with
  | nil => rfl
  | cons j js ih =>
    rw [List.pairwise_cons] at apart
    rw [List.foldr_cons, ih apart.2, insertNew_of_forall_lt]
    intro k hk
    have := apart.1 k hk
    omega

/-! ## §4 Resolved code -/

/-- The code of a region that starts at `pos`, with every branch set to where `goal` says. -/
def settle (goal : Option Label → Nat) (pos : Nat) (r : Region) : Bytes :=
  (r.jumps.map (operand goal pos)).foldl Patch.apply r.code

@[simp] theorem length_settle (goal : Option Label → Nat) (pos : Nat) (r : Region) :
    (r.settle goal pos).length = r.size :=
  Patch.length_foldl_apply _ _

@[simp] theorem settle_empty (goal : Option Label → Nat) (pos : Nat) : empty.settle goal pos = [] :=
  rfl

@[simp] theorem settle_ofCode (goal : Option Label → Nat) (pos : Nat) (code : Bytes) :
    (ofCode code).settle goal pos = code := rfl

@[simp] theorem settle_define (goal : Option Label → Nat) (pos : Nat) (label : Label) :
    (define label).settle goal pos = [] := rfl

/-- The resolved code of two regions is that of the first followed by that of the second. -/
theorem settle_append (goal : Option Label → Nat) (pos : Nat) {a : Region} (ha : a.Tidy)
    (b : Region) :
    (a ++ b).settle goal pos = a.settle goal pos ++ b.settle goal (pos + a.size) := by
  have hleft : ∀ p ∈ a.jumps.map (operand goal pos), p.site + 2 ≤ a.code.length := by
    intro p hp
    obtain ⟨j, hj, rfl⟩ := List.mem_map.mp hp
    exact (ha.bound j hj).2
  -- The operands of `b` are those of `b` on its own, behind the code of `a`.
  have hright : (b.jumps.map (Jump.shift a.size)).map (operand goal pos)
      = (b.jumps.map (operand goal (pos + a.size))).map
          fun p => { p with site := (a.settle goal pos).length + p.site } := by
    rw [List.map_map, List.map_map]
    apply List.map_congr_left
    intro j _
    simp [operand, Jump.shift, Nat.add_assoc]
  unfold settle at hright ⊢
  rw [jumps_append, List.map_append, List.foldl_append, code_append,
    Patch.foldl_apply_append_left _ hleft, hright, Patch.foldl_apply_append_right]

/-- The code of a region with its branches resolved, up to the first one at fault. -/
def sealed (r : Region) : Bytes := Patch.applyAll (r.patches r.size).1 r.code

/-- Resolving the region meets no fault. -/
def Resolvable (r : Region) : Prop := (r.patches r.size).2 = none

@[simp] theorem length_sealed (r : Region) : r.sealed.length = r.size := by
  rw [sealed, Patch.applyAll_eq_foldl, Patch.length_foldl_apply]
  rfl

theorem Tidy.resolvable_iff {r : Region} (h : r.Tidy) :
    r.Resolvable ↔ ∀ j ∈ r.jumps, r.Reaches j.site j.target := by
  unfold Resolvable
  rw [patches_eq_resolveAll, h.openJumps]
  refine ⟨reaches_of_resolveAll, fun hr => ?_⟩
  rw [resolveAll_of_reaches hr]

theorem Tidy.patches_eq {r : Region} (h : r.Tidy) (hr : r.Resolvable) :
    r.patches r.size = (r.jumps.map (operand r.goal 0), none) := by
  rw [patches_eq_resolveAll, h.openJumps, resolveAll_of_reaches (h.resolvable_iff.mp hr)]

/-- The resolving pass computes the code that follows the layout. -/
theorem Tidy.sealed_eq_settle {r : Region} (h : r.Tidy) (hr : r.Resolvable) :
    r.sealed = r.settle r.goal 0 := by
  rw [sealed, h.patches_eq hr, Patch.applyAll_eq_foldl, settle]

/-- The bytes behind the last one of a region. -/
def terminator (terminate : Bool) : Bytes := if terminate then [Code.stop] else []

/-- Finishing succeeds exactly when every branch can be resolved; the stop action stands behind
    the resolved code and has no other effect. -/
theorem Tidy.finish_eq_ok_iff {r : Region} (h : r.Tidy) {terminate : Bool} {code : Bytes} :
    (r.finish terminate).result = .ok code ↔
      r.Resolvable ∧ code = r.sealed ++ terminator terminate := by
  by_cases hr : r.Resolvable
  · have hfits : ∀ p ∈ r.jumps.map (operand r.goal 0), p.site + 2 ≤ r.code.length := by
      intro p hp
      obtain ⟨j, hj, rfl⟩ := List.mem_map.mp hp
      exact (h.bound j hj).2
    have hstop : Record.stop.write.bytes = [Code.stop] := by decide
    simp only [finish, h.patches_eq hr, h.sealed_eq_settle hr, hr, Patch.applyAll_eq_foldl, hstop,
      true_and, Except.ok.injEq]
    cases terminate with
    | false => simp [terminator, settle, eq_comm]
    | true =>
      rw [if_pos rfl, Patch.foldl_apply_append_left _ hfits]
      exact eq_comm
  · have hfault : (r.patches r.size).2 ≠ none := hr
    simp only [hr, false_and, iff_false, finish]
    cases hp : (r.patches r.size).2 with
    | none => exact absurd hp hfault
    | some e => simp

end Region

end ActionFlow
