import ActionFlow.Proofs.Operands
import Mathlib.Data.List.Sort

/-!
# Splicing

A region keeps its tables as notes, in the order in which they were made, and splicing puts the
notes of one region, moved, behind those of another. What counts of the notes are the tables that
are read from them: one branch for each operand and one offset for each label, where a later note
overwrites an earlier one. The notes may be about anything: operands behind the end of the code, so
that the notes of two regions meet in one operand, and labels that several regions define.

Here the tables of a spliced region are told from the tables of its parts, and regions are shown to
be a monoid: it does not matter in which order regions are spliced, the region without code changes
nothing, and regions with the same tables can stand for each other.

## Main statements

- `Region.mem_openJumps_iff`: the table of branches has the last note for each operand.
- `Region.openJumps_eq_iff`, `Region.labelTable_eq_iff`: a table is known from its entries.
- `Region.Same`: two regions with the same bytes and the same tables.
- `Region.splice_assoc`, `Region.splice_empty`, `Region.empty_splice`: the laws for notes.
- `Region.overlays_splice`: the tables of a spliced region.
- `Region.splice_monoid`: all of it together.
-/

namespace ActionFlow

/-! ## §1 The table of branches -/

/-- A branch is added to an ascending table only if its operand is not in it yet. -/
theorem Jump.mem_insertNew_iff {j k : Jump} {ks : List Jump}
    (sorted : ks.Pairwise fun a b => a.site < b.site) :
    k ∈ insertNew j ks ↔ k ∈ ks ∨ k = j ∧ j.site ∉ ks.map site := by
  induction ks with
  | nil => simp [insertNew]
  | cons x xs ih =>
    rw [List.pairwise_cons] at sorted
    rw [insertNew]
    split
    next first =>
      -- The new branch comes before all others, so its operand is not among theirs.
      have fresh : j.site ∉ (x :: xs).map site := by
        intro again
        obtain ⟨i, hi, same⟩ := List.mem_map.mp again
        rcases List.mem_cons.mp hi with rfl | hi
        · omega
        · have := sorted.1 i hi
          omega
      rw [List.mem_cons, or_comm]
      simp only [fresh, not_false_eq_true, and_true]
    next =>
      split
      next same => simp [same]
      next other =>
        rw [List.mem_cons, ih sorted.2, List.mem_cons, List.map_cons, List.mem_cons, not_or,
          or_assoc]
        simp [other]

namespace Region

/-- The target of the branch whose operand stands at `site`, as it was noted last. -/
def branchAt? (r : Region) (site : Nat) : Option (Option Label) :=
  (r.jumps.map fun j => (j.site, j.target)).reverse.lookup site

theorem isSome_branchAt?_iff {r : Region} {s : Nat} :
    (r.branchAt? s).isSome ↔ s ∈ r.jumps.map Jump.site := by
  rw [branchAt?, List.lookup_isSome_iff]
  simp [@eq_comm Nat s]

/-- The table has a branch exactly if it was noted last for its operand. -/
theorem mem_openJumps_iff {r : Region} {j : Jump} :
    j ∈ r.openJumps ↔ r.branchAt? j.site = some j.target := by
  obtain ⟨code, labels, jumps⟩ := r
  -- The table is built from the last note to the first one, and an operand keeps what it has.
  induction jumps with
  | nil => simp [openJumps, branchAt?]
  | cons k ks ih =>
    have sorted := sorted_openJumps ⟨code, labels, ks⟩
    have free : k.site ∉ (openJumps ⟨code, labels, ks⟩).map Jump.site ↔
        branchAt? ⟨code, labels, ks⟩ k.site = none := by
      rw [mem_sites_openJumps, ← isSome_branchAt?_iff, Option.not_isSome_iff_eq_none]
    have earliest : branchAt? ⟨code, labels, k :: ks⟩ j.site
        = (branchAt? ⟨code, labels, ks⟩ j.site).or ([(k.site, k.target)].lookup j.site) := by
      rw [branchAt?, List.map_cons, List.reverse_cons, List.lookup_append]
      rfl
    show j ∈ Jump.insertNew k (openJumps ⟨code, labels, ks⟩) ↔ _
    rw [Jump.mem_insertNew_iff sorted, ih, earliest, Option.or_eq_some_iff, free]
    apply or_congr_right
    constructor
    · rintro ⟨rfl, unset⟩
      exact ⟨unset, by simp⟩
    · rintro ⟨unset, noted⟩
      have same : j.site = k.site := by
        by_contra other
        simp [List.lookup_cons, beq_false_of_ne other] at noted
      obtain ⟨site, target⟩ := j
      obtain ⟨site', target'⟩ := k
      obtain rfl : site = site' := same
      obtain rfl : target = target' := by simpa [eq_comm] using noted
      exact ⟨rfl, unset⟩

/-- The table of branches is known from what it says about each operand. -/
theorem openJumps_eq_iff {a b : Region} :
    a.openJumps = b.openJumps ↔ ∀ s, a.branchAt? s = b.branchAt? s := by
  constructor
  · intro same s
    apply Option.ext
    intro t
    have entry : ∀ r : Region, r.branchAt? s = some t ↔ ⟨s, t⟩ ∈ r.openJumps :=
      fun r => (mem_openJumps_iff (r := r) (j := ⟨s, t⟩)).symm
    rw [entry, entry, same]
  · intro same
    -- Both tables ascend, so they are equal if they have the same entries.
    have asymmetric : Std.Asymm fun j k : Jump => j.site < k.site :=
      ⟨fun _ _ before => Nat.lt_asymm before⟩
    have irreflexive : Std.Irrefl fun j k : Jump => j.site < k.site :=
      ⟨fun _ => Nat.lt_irrefl _⟩
    apply List.Pairwise.eq_of_mem_iff (sorted_openJumps a) (sorted_openJumps b)
    intro j
    rw [mem_openJumps_iff, mem_openJumps_iff, same]

end Region

/-! ## §2 The table of labels -/

namespace Label

theorem nodup_eraseDups (ls : List Label) : ls.eraseDups.Nodup := by
  match ls with
  | [] => exact .nil
  | l :: ls =>
    rw [List.eraseDups_cons, List.nodup_cons]
    exact ⟨by simp, nodup_eraseDups _⟩
termination_by ls.length
decreasing_by exact Nat.lt_succ_of_le (List.length_filter_le _ _)

/-- Lists with the same labels are the same list once they are in order, each label once. -/
theorem sortedDistinct_congr {ks ls : List Label} (same : ∀ l, l ∈ ks ↔ l ∈ ls) :
    sortedDistinct ks = sortedDistinct ls := by
  have ordered : ∀ xs : List Label, (xs.mergeSort le).Pairwise fun a b => le a b := by
    apply List.pairwise_mergeSort
    · intro a b c
      simpa [le] using String.le_trans
    · intro a b
      simpa [le] using String.le_total a.text b.text
  have antisymmetric : ∀ a b : Label, le a b → le b a → a = b := by
    rintro ⟨a⟩ ⟨b⟩ before behind
    apply congrArg Label.mk
    apply String.le_antisymm
    · simpa [le] using before
    · simpa [le] using behind
  have shuffled : ks.eraseDups.Perm ls.eraseDups := by
    rw [List.perm_ext_iff_of_nodup (nodup_eraseDups ks) (nodup_eraseDups ls)]
    simpa using same
  apply List.Perm.eq_of_pairwise (fun a b _ _ => antisymmetric a b) (ordered _) (ordered _)
  exact (List.mergeSort_perm _ _).trans (shuffled.trans (List.mergeSort_perm _ _).symm)

end Label

namespace Region

/-- The table of labels is known from what it says about each label. -/
theorem labelTable_eq_iff {a b : Region} :
    a.labelTable = b.labelTable ↔ ∀ l, a.offset? l = b.offset? l := by
  constructor
  · intro same l
    apply Option.ext
    intro p
    rw [← mem_labelTable, same, mem_labelTable]
  · intro same
    have labels_eq : ∀ l, l ∈ a.labels.map Prod.fst ↔ l ∈ b.labels.map Prod.fst := by
      intro l
      rw [← isSome_offset?_iff, same, isSome_offset?_iff]
    simp only [labelTable, Label.sortedDistinct_congr labels_eq, same]

/-! ## §3 Regions that say the same -/

/-- Two regions with the same bytes and the same tables, whatever notes the tables are read from. -/
structure Same (a b : Region) : Prop where
  code_eq : a.code = b.code
  openJumps_eq : a.openJumps = b.openJumps
  labelTable_eq : a.labelTable = b.labelTable

theorem same_iff {a b : Region} :
    a.Same b ↔ a.code = b.code ∧ (∀ s, a.branchAt? s = b.branchAt? s)
      ∧ ∀ l, a.offset? l = b.offset? l := by
  rw [← openJumps_eq_iff, ← labelTable_eq_iff]
  constructor
  · intro h
    exact ⟨h.code_eq, h.openJumps_eq, h.labelTable_eq⟩
  · rintro ⟨code_eq, branches_eq, labels_eq⟩
    exact ⟨code_eq, branches_eq, labels_eq⟩

/-! ## §4 Notes in 64 bits -/

/-- All offsets in the notes of a region have 64 bits. -/
structure Bounded (r : Region) : Prop where
  label_lt : ∀ x ∈ r.labels, x.2 < offsetCount
  site_lt : ∀ j ∈ r.jumps, j.site < offsetCount

/-- Nothing is cut off from offsets that have 64 bits. -/
theorem Bounded.wrap_eq {r : Region} (hr : r.Bounded) : r.wrap = r := by
  obtain ⟨code, labels, jumps⟩ := r
  have labels_eq : labels.map (fun x => (x.1, x.2 % offsetCount)) = labels := by
    refine (List.map_congr_left fun x hx => ?_).trans (List.map_id _)
    rw [Nat.mod_eq_of_lt (hr.label_lt x hx)]
    rfl
  have jumps_eq : jumps.map (fun j => { j with site := j.site % offsetCount }) = jumps := by
    refine (List.map_congr_left fun j hj => ?_).trans (List.map_id _)
    rw [Nat.mod_eq_of_lt (hr.site_lt j hj)]
    rfl
  rw [wrap]
  simp only [labels_eq, jumps_eq]

/-- Splicing gives offsets in 64 bits, whatever the notes of the parts are. -/
theorem bounded_splice (a b : Region) : (a.splice b).Bounded := by
  have below : ∀ n : Nat, n % offsetCount < offsetCount := fun n => Nat.mod_lt n (by decide)
  constructor
  · intro x hx
    obtain ⟨y, -, rfl⟩ := List.mem_map.mp hx
    exact below _
  · intro j hj
    obtain ⟨k, -, rfl⟩ := List.mem_map.mp hj
    exact below _

/-- It does not matter whether the offsets of a part have been cut off before: the size of the first
    part is added, and what is left of the sum is the same. -/
theorem wrap_wrap_append (a b : Region) : (a.wrap ++ b).wrap = (a ++ b).wrap := by
  show (append a.wrap b).wrap = (append a b).wrap
  simp [append, wrap, shift, size, Function.comp_def]

theorem wrap_append_wrap (a b : Region) : (a ++ b.wrap).wrap = (a ++ b).wrap := by
  show (append a b.wrap).wrap = (append a b).wrap
  simp [append, wrap, shift, size, Function.comp_def, Jump.shift]

/-- Of three regions it does not matter which two are spliced first, not even if offsets grow
    beyond 64 bits on the way. -/
theorem splice_assoc (a b c : Region) : (a.splice b).splice c = a.splice (b.splice c) := by
  unfold splice
  rw [wrap_wrap_append, wrap_append_wrap, append_assoc]

theorem splice_empty {a : Region} (ha : a.Bounded) : a.splice empty = a := by
  rw [splice, append_empty, ha.wrap_eq]

theorem empty_splice {a : Region} (ha : a.Bounded) : empty.splice a = a := by
  rw [splice, empty_append, ha.wrap_eq]

/-! ## §5 The tables of a spliced region -/

section Splice

variable {a : Region} (ha : a.Bounded) (b : Region)
include ha

/-- The notes of a spliced region: those of the second part are moved and come last. -/
theorem splice_eq : a.splice b =
    { code := a.code ++ b.code
      labels := a.labels ++ (b.rebase a.size).labels
      jumps := a.jumps ++ (b.rebase a.size).jumps } := by
  have in_parts : a.splice b =
      { code := a.code ++ b.code
        labels := a.wrap.labels ++ (b.rebase a.size).labels
        jumps := a.wrap.jumps ++ (b.rebase a.size).jumps } := by
    rw [splice, wrap, labels_append, jumps_append, List.map_append, List.map_append]
    rfl
  rwa [ha.wrap_eq] at in_parts

/-- The region behind decides about the operands that it has a branch for. -/
theorem branchAt?_splice (s : Nat) :
    (a.splice b).branchAt? s = ((b.rebase a.size).branchAt? s).or (a.branchAt? s) := by
  rw [splice_eq ha, branchAt?, List.map_append, List.reverse_append, List.lookup_append]
  rfl

/-- The region behind decides about the labels that it defines. -/
theorem offset?_splice (l : Label) :
    (a.splice b).offset? l = ((b.rebase a.size).offset? l).or (a.offset? l) := by
  rw [splice_eq ha, offset?, List.reverse_append, List.lookup_append]
  rfl

end Splice

theorem offset?_rebase (base : Nat) (r : Region) (l : Label) :
    (r.rebase base).offset? l = (r.offset? l).map fun p => (base + p) % offsetCount := by
  rw [rebase, offset?_wrap, offset?_shift, Option.map_map]
  rfl

/-- Operands are moved with their branches. Two of them never meet, since a sum in 64 bits is still
    different for different offsets. -/
theorem branchAt?_rebase {r : Region} (hr : r.Bounded) (base : Nat) {s : Nat}
    (hs : s < offsetCount) :
    (r.rebase base).branchAt? ((base + s) % offsetCount) = r.branchAt? s := by
  have apart : ∀ x ∈ (r.jumps.map fun j => (j.site, j.target)).reverse,
      (base + s) % offsetCount = (base + x.1) % offsetCount → s = x.1 := by
    intro x hx clash
    obtain ⟨j, hj, rfl⟩ := List.mem_map.mp (List.mem_reverse.mp hx)
    have site_lt := hr.site_lt j hj
    unfold offsetCount at *
    dsimp only at *
    omega
  have moved := lookup_map_of_apart (f := fun s => (base + s) % offsetCount) apart id
  rw [Option.map_id_apply, List.map_reverse, List.map_map] at moved
  rw [branchAt?, rebase, wrap, shift, List.map_map, List.map_map]
  exact moved

theorem branchAt?_rebase_eq_none {r : Region} {base s : Nat}
    (free : ∀ s', (r.branchAt? s').isSome → (base + s') % offsetCount ≠ s) :
    (r.rebase base).branchAt? s = none := by
  rw [← Option.not_isSome_iff_eq_none, isSome_branchAt?_iff]
  intro noted
  -- A note of the moved region is a note of the region, shifted and then cut off.
  obtain ⟨k, hk, rfl⟩ := List.mem_map.mp noted
  obtain ⟨i, hi, rfl⟩ := List.mem_map.mp hk
  obtain ⟨j, hj, rfl⟩ := List.mem_map.mp hi
  exact free j.site (isSome_branchAt?_iff.mpr (List.mem_map_of_mem hj)) rfl

/-- The region `r` is `a` overlaid with `b`: the bytes follow each other, each entry in the tables
    of `b` is moved by the size of `a` and takes the place of what `a` says there, and elsewhere the
    tables are those of `a`. -/
structure Overlays (a b r : Region) : Prop where
  code_eq : r.code = a.code ++ b.code
  offset?_eq : ∀ l, r.offset? l
    = ((b.offset? l).map fun p => (a.size + p) % offsetCount).or (a.offset? l)
  moved : ∀ s t, b.branchAt? s = some t → r.branchAt? ((a.size + s) % offsetCount) = some t
  kept : ∀ s, (∀ s', (b.branchAt? s').isSome → (a.size + s') % offsetCount ≠ s) →
    r.branchAt? s = a.branchAt? s

theorem overlays_splice {a b : Region} (ha : a.Bounded) (hb : b.Bounded) :
    Overlays a b (a.splice b) where
  code_eq := rfl
  offset?_eq l := by rw [offset?_splice ha, offset?_rebase]
  moved s t noted := by
    have in_notes : s ∈ b.jumps.map Jump.site := isSome_branchAt?_iff.mp (by rw [noted]; rfl)
    obtain ⟨j, hj, rfl⟩ := List.mem_map.mp in_notes
    rw [branchAt?_splice ha, branchAt?_rebase hb _ (hb.site_lt j hj), noted, Option.some_or]
  kept s free := by
    rw [branchAt?_splice ha, branchAt?_rebase_eq_none free, Option.none_or]

/-- The tables of the parts decide about the tables of the whole. -/
theorem Overlays.same {a b r a' b' r' : Region} (h : Overlays a b r) (h' : Overlays a' b' r')
    (ha : a.Same a') (hb : b.Same b') : r.Same r' := by
  obtain ⟨code_a, branches_a, labels_a⟩ := same_iff.mp ha
  obtain ⟨code_b, branches_b, labels_b⟩ := same_iff.mp hb
  have size_eq : a.size = a'.size := congrArg List.length code_a
  refine same_iff.mpr ⟨?_, ?_, ?_⟩
  · rw [h.code_eq, h'.code_eq, code_a, code_b]
  · intro s
    by_cases covered : ∃ s', (b.branchAt? s').isSome ∧ (a.size + s') % offsetCount = s
    · obtain ⟨s', noted, rfl⟩ := covered
      obtain ⟨t, noted⟩ := Option.isSome_iff_exists.mp noted
      rw [h.moved s' t noted, size_eq, h'.moved s' t (branches_b s' ▸ noted)]
    · -- No branch of `b` is moved here, so both regions have what their first part has.
      have free : ∀ s', (b.branchAt? s').isSome → (a.size + s') % offsetCount ≠ s :=
        fun s' noted here => covered ⟨s', noted, here⟩
      rw [h.kept s free, branches_a]
      simp only [branches_b, size_eq] at free
      rw [h'.kept s free]
  · intro l
    rw [h.offset?_eq, h'.offset?_eq, labels_a, labels_b, size_eq]

/-! ## §6 The monoid of regions -/

/-- Regions with any bytes and any notes in 64 bits are a monoid under splicing. The order of
    splicing does not matter, and the region without code changes nothing, not even the notes. What
    is spliced behind overwrites the tables, entry by entry. So regions with the same tables give
    regions with the same tables, and the laws are laws of the tables as well. -/
theorem splice_monoid {a b : Region} (ha : a.Bounded) (hb : b.Bounded) (c : Region) :
    (a.splice b).Bounded
      ∧ (a.splice b).splice c = a.splice (b.splice c)
      ∧ a.splice empty = a ∧ empty.splice a = a
      ∧ Overlays a b (a.splice b)
      ∧ ∀ a' b', a'.Bounded → b'.Bounded → a.Same a' → b.Same b' →
          (a.splice b).Same (a'.splice b') := by
  refine ⟨bounded_splice a b, splice_assoc a b c, splice_empty ha, empty_splice ha,
    overlays_splice ha hb, ?_⟩
  intro a' b' ha' hb' same_a same_b
  exact (overlays_splice ha hb).same (overlays_splice ha' hb') same_a same_b

/-- Two bytes of code, with branches that are noted for operands behind them. -/
def overhang : Region :=
  { code := [0x17, 0x17]
    labels := [(⟨"top"⟩, 0)]
    jumps := [⟨5, none⟩, ⟨10, none⟩] }

/-- The same tables, read from notes in another order and with some that are overwritten. -/
def retoldOverhang : Region :=
  { code := [0x17, 0x17]
    labels := [(⟨"top"⟩, 7), (⟨"top"⟩, 0)]
    jumps := [⟨10, none⟩, ⟨5, some ⟨"top"⟩⟩, ⟨5, none⟩] }

/-- A jump to a label behind it. -/
def jumpOver : Region :=
  { code := [Code.jump, 2, 0, 0, 0]
    labels := [(⟨"top"⟩, 5)]
    jumps := [⟨3, some ⟨"top"⟩⟩] }

theorem same_retoldOverhang : overhang.Same retoldOverhang where
  code_eq := rfl
  openJumps_eq := rfl
  labelTable_eq := by
    rw [labelTable_eq_iff]
    intro l
    simp only [offset?, overhang, retoldOverhang, List.reverse_cons, List.reverse_nil,
      List.nil_append, List.cons_append, List.lookup_cons]
    cases l == (⟨"top"⟩ : Label) <;> rfl

/-- The jump is spliced twice: its operand meets one of the operands that were noted before each
    time, and its label is defined three times in the end. -/
theorem overhang_spliced :
    (overhang.splice jumpOver).splice jumpOver = overhang.splice (jumpOver.splice jumpOver)
      ∧ ((overhang.splice jumpOver).splice jumpOver).openJumps
          = [⟨5, some ⟨"top"⟩⟩, ⟨10, some ⟨"top"⟩⟩]
      ∧ overhang.splice empty = overhang ∧ empty.splice overhang = overhang
      ∧ (overhang.splice jumpOver).branchAt? 5 = some (some ⟨"top"⟩)
      ∧ (overhang.splice jumpOver).branchAt? 10 = some none
      ∧ (overhang.splice jumpOver).offset? ⟨"top"⟩ = some 7
      ∧ (overhang.splice jumpOver).Same (retoldOverhang.splice jumpOver) := by
  have bounded : overhang.Bounded := ⟨by decide, by decide⟩
  have bounded_retold : retoldOverhang.Bounded := ⟨by decide, by decide⟩
  have bounded_jump : jumpOver.Bounded := ⟨by decide, by decide⟩
  obtain ⟨-, assoc, right, left, overlaid, congruent⟩ :=
    splice_monoid bounded bounded_jump jumpOver
  refine ⟨assoc, by decide, right, left, ?_, ?_, ?_, ?_⟩
  · exact overlaid.moved 3 (some ⟨"top"⟩) rfl
  · rw [overlaid.kept 10]
    · rfl
    · intro s noted
      obtain rfl : s = 3 := by simpa [isSome_branchAt?_iff, jumpOver] using noted
      decide
  · rw [overlaid.offset?_eq]
    rfl
  · exact congruent _ _ bounded_retold bounded_jump same_retoldOverhang ⟨rfl, rfl, rfl⟩

end Region

end ActionFlow
