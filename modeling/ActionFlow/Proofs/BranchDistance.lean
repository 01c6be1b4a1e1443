import ActionFlow.Proofs.Grammar

/-!
# Distances and targets of branches

The operand of a branch is made in one place and read in another. Resolving a region takes the
distance from the byte after the operand to the target and writes it as two bytes, low byte first.
A listing reads two bytes as a signed word and counts it from the start of the action, with the five
bytes of the action added. Here the two are put side by side: both say that the target lies as many
bytes behind the action as the signed word says, and every pair of bytes is the operand of exactly
one such word. So each of them undoes the other, and a distance is refused exactly if no operand
leads to the target.

## Main statements

- `Bytes.exists_ofInt16_eq`: two bytes are those of a signed word.
- `branchTarget_ofInt16_eq_ok_iff`, `branchDelta?_eq_some_iff_toInt`: one equation for both sides.
- `branchDelta?_inverts_branchTarget`: the two are inverse to each other.
-/

namespace ActionFlow

/-! ## §1 Signed words -/

namespace Bytes

/-- The bytes of a signed word spell it. -/
theorem signedWord_of_ofInt16_eq {d : Int16} {lo hi : UInt8} (bytes_eq : ofInt16 d = [lo, hi]) :
    signedWord lo hi = d.toInt := by
  obtain ⟨low, high⟩ := List.cons_eq_cons.mp bytes_eq
  rw [← signedWord_ofInt16, low, (List.cons_eq_cons.mp high).1]

/-- Two bytes are those of a signed word. -/
theorem exists_ofInt16_eq (lo hi : UInt8) : ∃ d : Int16, ofInt16 d = [lo, hi] := by
  refine ⟨(UInt16.ofNat (word lo hi)).toInt16, ?_⟩
  rw [ofInt16, UInt16.toUInt16_toInt16, ofUInt16_word]

end Bytes

/-! ## §2 One equation for both sides -/

/-- Reading an operand: the target lies `d` bytes behind the five bytes of the action. -/
theorem branchTarget_ofInt16_eq_ok_iff {offset target : Nat} {d : Int16} :
    branchTarget offset (Bytes.ofInt16 d) = .ok target ↔
      (target : Int) = ((offset + 5 : Nat) : Int) + d.toInt := by
  constructor
  · intro reached
    obtain ⟨lo, hi, bytes_eq, distance⟩ := branchTarget_eq_ok_iff.mp reached
    rw [distance, Bytes.signedWord_of_ofInt16_eq bytes_eq]
  · intro distance
    exact branchTarget_ofInt16 distance.symm

/-- Making an operand: as long as everything in reach has an offset below `2 ^ 63`, the distance
    `d` is the one to the target, and nothing else is asked. -/
theorem branchDelta?_eq_some_iff_toInt {source target : Nat} {d : Int16}
    (low : source + 32767 < 0x8000000000000000) :
    branchDelta? source target = some d ↔ (target : Int) = (source : Int) + d.toInt := by
  rw [branchDelta?_eq_some_iff]
  constructor
  · rintro ⟨reach, rfl⟩
    rw [reach.toInt_distance]
    omega
  · intro distance
    -- A signed word has 16 bits, so the target cannot be out of reach.
    have lower := d.le_toInt
    have upper := d.toInt_lt
    have difference : (target : Int) - (source : Int) = d.toInt := by omega
    refine ⟨⟨by omega, by omega, by omega, by omega⟩, ?_⟩
    rw [difference, Int16.ofInt_toInt]

/-! ## §3 Each undoes the other -/

/-- For an action at an offset below `2 ^ 62` and any target: the operand that is made for the
    target is read as the target; a payload that is read as the target is the operand that is made
    for it; and no operand is made exactly if no two bytes are read as the target. -/
theorem branchDelta?_inverts_branchTarget {offset : Nat} (low : offset < 0x4000000000000000)
    (target : Nat) :
    (∀ d, branchDelta? (offset + 5) target = some d →
        branchTarget offset (Bytes.ofInt16 d) = .ok target)
      ∧ (∀ payload, branchTarget offset payload = .ok target →
          ∃ d, branchDelta? (offset + 5) target = some d ∧ Bytes.ofInt16 d = payload)
      ∧ (branchDelta? (offset + 5) target = none ↔
          ∀ lo hi, branchTarget offset [lo, hi] ≠ .ok target) := by
  have made_iff_read : ∀ d, branchDelta? (offset + 5) target = some d ↔
      branchTarget offset (Bytes.ofInt16 d) = .ok target := by
    intro d
    rw [branchDelta?_eq_some_iff_toInt (by omega), branchTarget_ofInt16_eq_ok_iff]
  have made_of_read : ∀ payload, branchTarget offset payload = .ok target →
      ∃ d, branchDelta? (offset + 5) target = some d ∧ Bytes.ofInt16 d = payload := by
    intro payload reached
    obtain ⟨lo, hi, rfl, -⟩ := branchTarget_eq_ok_iff.mp reached
    obtain ⟨d, bytes_eq⟩ := Bytes.exists_ofInt16_eq lo hi
    rw [← bytes_eq, ← made_iff_read] at reached
    exact ⟨d, reached, bytes_eq⟩
  refine ⟨fun d made => (made_iff_read d).mp made, made_of_read, ?_, ?_⟩
  · intro refused lo hi reached
    obtain ⟨d, made, -⟩ := made_of_read [lo, hi] reached
    rw [refused] at made
    cases made
  · intro unread
    cases made : branchDelta? (offset + 5) target with
    | none => rfl
    | some d => exact absurd ((made_iff_read d).mp made) (unread _ _)

/-- A jump at offset 6 gets the operand -11 to lead back to the start. The last byte that it can
    reach lies 32767 bytes behind it; there is no operand for the next one. -/
theorem jumpToStart_read_back :
    branchDelta? (6 + 5) 0 = some (-11)
      ∧ branchTarget 6 (Bytes.ofInt16 (-11)) = .ok 0
      ∧ (∃ d, branchDelta? (6 + 5) 32778 = some d ∧ Bytes.ofInt16 d = [0xff, 0x7f])
      ∧ branchDelta? (6 + 5) 32779 = none
      ∧ ∀ lo hi, branchTarget 6 [lo, hi] ≠ .ok 32779 := by
  have low : 6 < 0x4000000000000000 := by decide
  have back : branchDelta? (6 + 5) 0 = some (-11) := by decide
  have last : branchTarget 6 [0xff, 0x7f] = .ok 32778 := by decide
  have far : branchDelta? (6 + 5) 32779 = none := by decide
  refine ⟨back, ?_, ?_, far, ?_⟩
  · exact (branchDelta?_inverts_branchTarget low 0).1 _ back
  · exact (branchDelta?_inverts_branchTarget low 32778).2.1 _ last
  · exact (branchDelta?_inverts_branchTarget low 32779).2.2.mp far

end ActionFlow
