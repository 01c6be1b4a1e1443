import ActionFlow.Bytes
import ActionFlow.Label

/-!
# Regions

A region is code whose branches are not resolved yet. Beside the bytes it keeps, in the order in
which they were written, the labels with the offsets at which their blocks start, and the branches
with the offsets of their operands. All offsets count from the start of the region.

Regions are put one after the other with `++`, which moves the offsets of the second one. Of two
entries for one label, or for one operand, the later one counts: `offset?` and `openJumps` read
the tables so.

## Main definitions

- `Jump`, `Region`, and `Region.append` as `++`.
- `Region.concat`: any number of regions one after the other.
- `Region.offset?`: where a label was defined last.
- `Region.openJumps`: the branches by ascending operand offset, one for each operand.
- `Region.labelTable`: the labels in order with their offsets.
- `Region.splice`, `Region.rebase`: `++` and `shift` for tables that may hold any 64-bit offset.
-/

namespace ActionFlow

/-- Lists one after the other. The last one that holds something is not copied. -/
def joined {α : Type} : List (List α) → List α
  | [] => []
  | x :: xs =>
    match joined xs with
    | [] => x
    | y :: ys => x ++ y :: ys

/-- Joining goes from the right. -/
@[simp] theorem joined_cons {α : Type} (x : List α) (xs : List (List α)) :
    joined (x :: xs) = x ++ joined xs := by
  rw [joined]
  split <;> simp_all

/-- What is done to all elements of all lists can be done afterwards. -/
theorem map_joined {α β : Type} (f : α → β) (xs : List (List α)) :
    (joined xs).map f = joined (xs.map (List.map f)) := by
  induction xs with
  | nil => rfl
  | cons x xs ih => simp [ih]

/-- A branch whose operand is still open. -/
structure Jump where
  /-- The offset of the two-byte operand. -/
  site : Nat
  /-- The label to reach; without one, the end of the region. -/
  target : Option Label
deriving DecidableEq, Repr

namespace Jump

/-- The same branch in code that starts `base` bytes later. -/
def shift (base : Nat) (j : Jump) : Jump := { j with site := base + j.site }

@[simp] theorem shift_zero : shift 0 = id := by
  funext j
  simp [shift]

/-- Moving twice is moving once by both distances. -/
@[simp] theorem shift_shift (a b : Nat) (j : Jump) : shift a (shift b j) = shift (a + b) j := by
  simp [shift, Nat.add_assoc]

/-- Adds a branch to a table that ascends by operand offset, unless the operand is in it. -/
def insertNew (j : Jump) : List Jump → List Jump
  | [] => [j]
  | k :: ks =>
    if j.site < k.site then j :: k :: ks
    else if j.site = k.site then k :: ks
    else k :: insertNew j ks

end Jump

/-- Code with open branches. -/
structure Region where
  code : Bytes := []
  /-- Each label with the offset of its block, in the order of definition. -/
  labels : List (Label × Nat) := []
  /-- The branches in the order in which they were written. -/
  jumps : List Jump := []
deriving DecidableEq, Repr, Inhabited

namespace Region

/-- The region without code. -/
def empty : Region := {}

/-- Code without labels and branches. -/
def ofCode (code : Bytes) : Region := { code := code }

/-- The definition of a label at the point where it stands. -/
def define (label : Label) : Region := { labels := [(label, 0)] }

/-- Code that ends with the operand of a branch to a label. -/
def branching (code : Bytes) (target : Label) : Region :=
  { code := code, jumps := [⟨code.length - 2, some target⟩] }

/-- Number of bytes. -/
def size (r : Region) : Nat := r.code.length

/-- The same region with all table entries `base` bytes later. -/
def shift (base : Nat) (r : Region) : Region :=
  { r with
    labels := r.labels.map fun (label, offset) => (label, base + offset)
    jumps := r.jumps.map (Jump.shift base) }

/-- One region after another. -/
def append (a b : Region) : Region :=
  let moved := b.shift a.size
  { code := a.code ++ moved.code
    labels := a.labels ++ moved.labels
    jumps := a.jumps ++ moved.jumps }

instance : Append Region := ⟨append⟩

/-- Nothing behind a region changes nothing. -/
@[simp] theorem append_empty (r : Region) : r ++ empty = r := by
  show append r empty = r
  simp [append, empty, shift]

/-- Nothing before a region changes nothing. -/
@[simp] theorem empty_append (r : Region) : empty ++ r = r := by
  show append empty r = r
  simp [append, empty, shift, size]

/-- Of three regions it does not matter which two are put together first. -/
theorem append_assoc (a b c : Region) : a ++ b ++ c = a ++ (b ++ c) := by
  show append (append a b) c = append a (append b c)
  simp [append, shift, size, Function.comp_def, Nat.add_assoc]

/-- Regions that follow each other from an offset on, with their table entries in place. -/
def placed (base : Nat) : List Region → List Region
  | [] => []
  | r :: rs => r.shift base :: placed (base + r.size) rs

/-- Regions one after the other. Each table entry is moved only once. -/
def concat (rs : List Region) : Region :=
  let rs := placed 0 rs
  { code := joined (rs.map code), labels := joined (rs.map labels), jumps := joined (rs.map jumps) }

@[simp] theorem shift_zero (r : Region) : r.shift 0 = r := by simp [shift]

/-- Moving twice is moving once by both distances. -/
@[simp] theorem shift_shift (a b : Nat) (r : Region) : (r.shift b).shift a = r.shift (a + b) := by
  simp [shift, Function.comp_def, Nat.add_assoc]

/-- Regions further on are the same regions, moved. -/
theorem placed_eq_map (base : Nat) (rs : List Region) :
    placed base rs = (placed 0 rs).map (shift base) := by
  induction rs generalizing base with
  | nil => rfl
  | cons r rs ih =>
    simp only [placed, List.map_cons]
    rw [ih (base + r.size), ih (0 + r.size)]
    simp [Function.comp_def]

@[simp] theorem concat_nil : concat [] = empty := rfl

/-- Regions are put one after the other from the right. -/
@[simp] theorem concat_cons (r : Region) (rs : List Region) : concat (r :: rs) = r ++ concat rs := by
  show _ = append r (concat rs)
  simp only [concat, append, placed, shift_zero, List.map_cons, joined_cons]
  rw [placed_eq_map (0 + r.size)]
  simp [shift, map_joined, Function.comp_def]

/-- The offset at which a label was defined last. -/
def offset? (r : Region) (label : Label) : Option Nat :=
  r.labels.reverse.lookup label

/-- The branches by ascending operand offset; of several for one operand, the last. -/
def openJumps (r : Region) : List Jump :=
  r.jumps.foldr Jump.insertNew []

/-- The defined labels, each once, in the order of their first definition. -/
def definedLabels (r : Region) : List Label :=
  (r.labels.map Prod.fst).eraseDups

/-- The labels in alphabetical order, each with the offset that counts. -/
def labelTable (r : Region) : List (Label × Nat) :=
  (Label.sortedDistinct (r.labels.map Prod.fst)).filterMap fun label =>
    (r.offset? label).map fun offset => (label, offset)

/-! ## Offsets in 64 bits

Code that exists is short, and its offsets never come near the limit of 64 bits. The tables of a
region can be filled with any offsets, though, and sums of these are taken in 64 bits. -/

/-- The number of 64-bit offsets. -/
def offsetCount : Nat := 0x10000000000000000

/-- The same region with what is left of its table entries in 64 bits. -/
def wrap (r : Region) : Region :=
  { r with
    labels := r.labels.map fun (label, offset) => (label, offset % offsetCount)
    jumps := r.jumps.map fun j => { j with site := j.site % offsetCount } }

/-- The region with all table entries `base` bytes later, in 64 bits. -/
def rebase (base : Nat) (r : Region) : Region := (r.shift base).wrap

/-- One region after another, with table entries in 64 bits. -/
def splice (a b : Region) : Region := (a ++ b).wrap

end Region

end ActionFlow
