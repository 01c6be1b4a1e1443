import ActionFlow.LowerError
import ActionFlow.Region

/-!
# Resolving branches

The operand of a branch is the distance from the byte after the operand to the target, as a signed
16-bit word. Branches are resolved by ascending operand offset, and the first one that has no
target, or whose target is too far away, ends the work.

## Main definitions

- `branchDelta?`: the distance, if it fits.
- `Region.resolve?`: the patch for one branch.
- `Region.patches`: the patches before the first branch at fault, and that fault.
- `Patch.apply`: writes an operand into code.
-/

namespace ActionFlow

/-- The distance from `source` to `target`, if both are below `2 ^ 63` and it fits 16 bits. -/
def branchDelta? (source target : Nat) : Option Int16 :=
  let delta : Int := (target : Int) - (source : Int)
  if source < 0x8000000000000000 ∧ target < 0x8000000000000000 ∧ -32768 ≤ delta ∧ delta ≤ 32767 then
    some (Int16.ofInt delta)
  else
    none

/-- The operand that a branch gets. -/
structure Patch where
  /-- The offset of the operand. -/
  site : Nat
  /-- The offset that the branch reaches. -/
  target : Nat
  /-- The operand. -/
  delta : Int16
deriving DecidableEq, Repr

namespace Patch

/-- Whether the operand lies inside code of the given size. -/
def fits (size : Nat) (p : Patch) : Bool := p.site + 2 ≤ size

/-- Writes the operand, low byte first. -/
def apply (code : Bytes) (p : Patch) : Bytes :=
  (code.set p.site p.delta.toUInt16.toUInt8).set (p.site + 1) (p.delta.toUInt16 >>> 8).toUInt8

/-- Writes the operand into an array. -/
def applyTo (code : Array UInt8) (p : Patch) : Array UInt8 :=
  (code.setIfInBounds p.site p.delta.toUInt16.toUInt8).setIfInBounds (p.site + 1)
    (p.delta.toUInt16 >>> 8).toUInt8

/-- Writes all operands in order. -/
def applyAll (patches : List Patch) (code : Bytes) : Bytes :=
  if patches.isEmpty then code else (patches.foldl applyTo code.toArray).toList

/-- The operands are written one after the other. -/
theorem applyAll_eq_foldl (patches : List Patch) (code : Bytes) :
    applyAll patches code = patches.foldl apply code := by
  have written : (patches.foldl applyTo code.toArray).toList = patches.foldl apply code := by
    induction patches generalizing code with
    | nil => simp
    | cons p ps ih =>
      have h : applyTo code.toArray p = (apply code p).toArray := by simp [applyTo, apply]
      simp only [List.foldl_cons, h, ih]
  unfold applyAll
  split <;> simp_all

end Patch

namespace Region

/-- The patch for a branch, given the offsets of labels; one without a label reaches `stop`. -/
def resolve? (offset? : Label → Option Nat) (stop : Nat) (j : Jump) : Except LowerError Patch :=
  match j.target.elim (some stop) offset? with
  | none => .error (.labelNotFound (j.target.getD ⟨""⟩) j.site)
  | some target =>
    match branchDelta? (j.site + 2) target with
    | some delta => .ok ⟨j.site, target, delta⟩
    | none => .error (.jumpOutOfRange j.site target)

/-- Resolves branches in the given order up to the first one at fault. -/
def resolveAll (offset? : Label → Option Nat) (stop : Nat) :
    List Jump → List Patch × Option LowerError
  | [] => ([], none)
  | j :: js =>
    match resolve? offset? stop j with
    | .error e => ([], some e)
    | .ok p =>
      let (ps, fault) := resolveAll offset? stop js
      (p :: ps, fault)

/-- The patches of a region whose end is at `stop`: those before the first branch at fault, and
    the fault. -/
def patches (r : Region) (stop : Nat) : List Patch × Option LowerError :=
  let lastFirst := r.labels.reverse
  resolveAll (fun label => lastFirst.lookup label) stop r.openJumps

/-- Branches reach the offset at which their label was defined last. -/
theorem patches_eq_resolveAll (r : Region) (stop : Nat) :
    r.patches stop = resolveAll r.offset? stop r.openJumps := rfl

/-- How resolving a region in place ends. -/
inductive PatchOutcome where
  | complete
  | failed (error : LowerError)
  /-- An operand lies outside the code. -/
  | overrun (site : Nat)
deriving DecidableEq, Repr

/-- How resolving ends at a branch at fault. The end of an operand is an offset in 64 bits: behind
    the last two offsets it lies at the start, and targets there are in reach. Such an operand lies
    outside the code. -/
def outcomeOf : LowerError → PatchOutcome
  | .jumpOutOfRange site target =>
    if offsetCount ≤ site + 2 ∧ (branchDelta? (site + 2 - offsetCount) target).isSome then .overrun site
    else .failed (.jumpOutOfRange site target)
  | e => .failed e

/-- Resolves a region in place: the code with the operands that were written, and how it ended.
    Writing stops at the first operand that does not lie inside the code. -/
def patched (r : Region) (stop : Nat) : Region × PatchOutcome :=
  let (ps, fault) := r.patches stop
  let written := ps.takeWhile (Patch.fits r.size)
  let outcome := match ps[written.length]?, fault with
    | some p, _ => .overrun p.site
    | none, some e => outcomeOf e
    | none, none => .complete
  ({ r with code := Patch.applyAll written r.code }, outcome)

end Region

end ActionFlow
