import ActionFlow.Proofs.Grammar

/-!
# The first malformed action

A listing fails at the first action that is malformed. There are four ways for an action to be so,
and no action is malformed in two of them: the input ends inside the length, or inside the payload;
a branch has an operand that is no word, or it leads to an offset before the input. All that stands
before such an action is a listing by itself. The first two are about input that ends too early, and
more bytes may mend them; the others stay, whatever follows.

## Main statements

- `Malformed`: the four ways, each with the error that it is reported as.
- `readEntry_eq_error_iff`: one step of the reader fails exactly on malformed actions.
- `entriesFrom_eq_error_iff`: a run of the reader fails exactly at the first of them.
- `disassemble_locates_malformed`: the error of a listing, and when it is final.
-/

namespace ActionFlow

/-! ## §1 Malformed actions -/

/-- The bytes, of which the first one stands at `offset`, start with a malformed action, which is
    reported by the error. -/
inductive Malformed (offset : Nat) : Bytes → ListingError → Prop where
  /-- A code from 0x80 on, and fewer than two bytes for the length. -/
  | lengthCut (code : UInt8) (rest : Bytes) (long : 0x80 ≤ code) (cut : rest.length < 2) :
      Malformed offset (code :: rest) ⟨offset + 1, .lengthCut⟩
  /-- A length that is greater than what is left of the input. -/
  | payloadCut (code lo hi : UInt8) (rest : Bytes) (long : 0x80 ≤ code)
      (cut : rest.length < Bytes.word lo hi) :
      Malformed offset (code :: lo :: hi :: rest) ⟨offset, .payloadCut code (Bytes.word lo hi)⟩
  /-- A branch with a complete payload that is not two bytes long. -/
  | operandSize (code lo hi : UInt8) (rest : Bytes) (branch : code = Code.branch ∨ code = Code.jump)
      (complete : Bytes.word lo hi ≤ rest.length) (no_word : Bytes.word lo hi ≠ 2) :
      Malformed offset (code :: lo :: hi :: rest) ⟨offset, .branchPayload (Bytes.word lo hi)⟩
  /-- A branch to a negative offset. -/
  | beforeStart (code lo hi a b : UInt8) (rest : Bytes)
      (branch : code = Code.branch ∨ code = Code.jump) (word : Bytes.word lo hi = 2)
      (negative : ((offset + 5 : Nat) : Int) + Bytes.signedWord a b < 0) :
      Malformed offset (code :: lo :: hi :: a :: b :: rest)
        ⟨offset, .branchBeforeStart ((offset + 5 : Nat) + Bytes.signedWord a b)⟩

/-- The fault is about the operand of a branch. -/
inductive ListingFault.OfBranch : ListingFault → Prop where
  | payload (size : Nat) : OfBranch (.branchPayload size)
  | beforeStart (target : Int) : OfBranch (.branchBeforeStart target)

theorem not_lt_of_branch {code : UInt8} (branch : code = Code.branch ∨ code = Code.jump) :
    ¬ code < 0x80 := by
  rcases branch with rfl | rfl <;> decide

/-- A malformed branch stays malformed, whatever follows: all of it is there. -/
theorem Malformed.append {offset : Nat} {bytes : Bytes} {e : ListingError}
    (h : Malformed offset bytes e) (of_branch : e.fault.OfBranch) (behind : Bytes) :
    Malformed offset (bytes ++ behind) e := by
  cases h with
  | lengthCut code rest long cut => cases of_branch
  | payloadCut code lo hi rest long cut => cases of_branch
  | operandSize code lo hi rest branch complete no_word =>
    refine .operandSize code lo hi (rest ++ behind) branch ?_ no_word
    rw [List.length_append]
    exact Nat.le_add_right_of_le complete
  | beforeStart code lo hi a b rest branch word negative =>
    exact .beforeStart code lo hi a b (rest ++ behind) branch word negative

/-! ## §2 One step of the reader -/

/-- A branch has no target if its operand is no word, or leads to a negative offset. -/
theorem branchTarget_eq_error_iff {offset : Nat} {payload : Bytes} {e : ListingError} :
    branchTarget offset payload = .error e ↔
      (payload.length ≠ 2 ∧ e = ⟨offset, .branchPayload payload.length⟩) ∨ ∃ a b,
        payload = [a, b] ∧ ((offset + 5 : Nat) : Int) + Bytes.signedWord a b < 0
          ∧ e = ⟨offset, .branchBeforeStart ((offset + 5 : Nat) + Bytes.signedWord a b)⟩ := by
  constructor
  · unfold branchTarget
    split
    next a b =>
      intro failed
      dsimp only at failed
      split at failed
      · cases failed
      next negative =>
        exact .inr ⟨a, b, rfl, Int.not_le.mp negative, (Except.error.inj failed).symm⟩
    next no_word =>
      intro failed
      refine .inl ⟨?_, (Except.error.inj failed).symm⟩
      intro two
      match payload, two with
      | [a, b], _ => exact no_word a b rfl
  · rintro (⟨no_word, rfl⟩ | ⟨a, b, rfl, negative, rfl⟩)
    · unfold branchTarget
      split
      · exact absurd rfl no_word
      · rfl
    · simp only [branchTarget]
      rw [if_neg (Int.not_le.mpr negative)]

/-- A code from 0x80 on without a length. -/
theorem readEntry_of_cut {offset : Nat} {code : UInt8} {rest : Bytes} (long : ¬ code < 0x80)
    (cut : rest.length < 2) : readEntry offset code rest = .error ⟨offset + 1, .lengthCut⟩ := by
  unfold readEntry
  rw [if_neg long]
  split
  next lo hi body =>
    simp only [List.length_cons] at cut
    omega
  next => rfl

/-- A code from 0x80 on with its length: what follows may be too short for it, or no operand of a
    branch. -/
theorem readEntry_long_eq_error_iff {offset : Nat} {code lo hi : UInt8} {body : Bytes}
    {e : ListingError} (long : ¬ code < 0x80) :
    readEntry offset code (lo :: hi :: body) = .error e ↔
      (body.length < Bytes.word lo hi ∧ e = ⟨offset, .payloadCut code (Bytes.word lo hi)⟩)
        ∨ (Bytes.word lo hi ≤ body.length ∧ (code = Code.branch ∨ code = Code.jump)
          ∧ branchTarget offset (body.take (Bytes.word lo hi)) = .error e) := by
  rw [readEntry, if_neg long]
  dsimp only
  rw [List.length_take, ← isBranchCode_iff]
  by_cases cut : body.length < Bytes.word lo hi
  · rw [if_pos (by omega)]
    simp only [cut, Nat.not_le.mpr cut, true_and, false_and, or_false]
    exact ⟨fun failed => (Except.error.inj failed).symm, fun cause => congrArg _ cause.symm⟩
  · rw [if_neg (by omega)]
    by_cases branch : isBranchCode code
    · rw [if_pos branch]
      cases branchTarget offset (body.take (Bytes.word lo hi)) with
      | ok target => simp [cut]
      | error fault => simp [cut, branch, Nat.not_lt.mp cut]
    · rw [if_neg branch]
      simp [cut, branch]

/-- One step of the reader fails exactly on malformed actions. -/
theorem readEntry_eq_error_iff {offset : Nat} {code : UInt8} {rest : Bytes} {e : ListingError} :
    readEntry offset code rest = .error e ↔ Malformed offset (code :: rest) e := by
  constructor
  · intro failed
    have long : ¬ code < 0x80 := by
      -- A short code is an action by itself.
      intro short
      unfold readEntry at failed
      rw [if_pos short] at failed
      cases failed
    by_cases cut : rest.length < 2
    · rw [readEntry_of_cut long cut] at failed
      obtain rfl := Except.error.inj failed
      exact .lengthCut code rest (UInt8.not_lt.mp long) cut
    · match rest, cut with
      | [_], cut => exact absurd Nat.one_lt_two cut
      | lo :: hi :: body, _ =>
        rcases (readEntry_long_eq_error_iff long).mp failed with
          ⟨cut, rfl⟩ | ⟨complete, branch, no_target⟩
        · exact .payloadCut code lo hi body (UInt8.not_lt.mp long) cut
        · -- The payload is there in full, so its length is the one that was declared.
          have size_eq : (body.take (Bytes.word lo hi)).length = Bytes.word lo hi :=
            List.length_take_of_le complete
          rcases branchTarget_eq_error_iff.mp no_target with
            ⟨no_word, rfl⟩ | ⟨a, b, payload_eq, negative, rfl⟩
          · rw [size_eq] at no_word ⊢
            exact .operandSize code lo hi body branch complete no_word
          · have word : Bytes.word lo hi = 2 := by
              rw [← size_eq, payload_eq]
              rfl
            rw [word] at payload_eq
            obtain ⟨behind, rfl⟩ : [a, b] <+: body := payload_eq ▸ List.take_prefix 2 body
            exact .beforeStart code lo hi a b behind branch word negative
  · intro malformed
    cases malformed with
    | lengthCut _ _ long cut => exact readEntry_of_cut (UInt8.not_lt.mpr long) cut
    | payloadCut _ lo hi body long cut =>
      exact (readEntry_long_eq_error_iff (UInt8.not_lt.mpr long)).mpr (.inl ⟨cut, rfl⟩)
    | operandSize _ lo hi body branch complete no_word =>
      apply (readEntry_long_eq_error_iff (not_lt_of_branch branch)).mpr
      refine .inr ⟨complete, branch, branchTarget_eq_error_iff.mpr (.inl ?_)⟩
      rw [List.length_take_of_le complete]
      exact ⟨no_word, rfl⟩
    | beforeStart _ lo hi a b body branch word negative =>
      apply (readEntry_long_eq_error_iff (not_lt_of_branch branch)).mpr
      refine .inr ⟨?_, branch, branchTarget_eq_error_iff.mpr (.inr ⟨a, b, ?_, negative, rfl⟩)⟩
      · rw [word]
        exact Nat.le_add_left 2 body.length
      · rw [word]
        rfl

/-- No action is malformed in two ways. -/
theorem Malformed.unique {offset : Nat} {bytes : Bytes} {e e' : ListingError}
    (h : Malformed offset bytes e) (h' : Malformed offset bytes e') : e = e' := by
  cases bytes with
  | nil => cases h
  | cons code rest =>
    have first := readEntry_eq_error_iff.mpr h
    have second := readEntry_eq_error_iff.mpr h'
    exact Except.error.inj (first.symm.trans second)

/-! ## §3 A run of the reader -/

/-- A run of the reader fails exactly if it meets a malformed action behind actions that it has
    read. -/
theorem entriesFrom_eq_error_iff {offset : Nat} {found : List Entry} {input : Bytes}
    {e : ListingError} :
    entriesFrom offset found input = .error e ↔ ∃ front back es, input = front ++ back
      ∧ Reads offset front es ∧ Malformed (offset + front.length) back e := by
  constructor
  · intro failed
    -- The induction is on the steps of the reader, which put read actions before the malformed one.
    fun_induction entriesFrom offset found input with
    | case1 offset found => cases failed
    | case2 offset found code rest fault read =>
      obtain rfl := Except.error.inj failed
      exact ⟨[], code :: rest, [], rfl, .nil offset, readEntry_eq_error_iff.mp read⟩
    | case3 offset found code rest entry read ih =>
      obtain ⟨rfl, well, input_eq⟩ := readEntry_sound read
      obtain ⟨front, back, es, rest_eq, reads, malformed⟩ := ih failed
      refine ⟨entry.bytes ++ front, back, entry :: es, ?_, ?_, ?_⟩
      · rw [input_eq, rest_eq, List.append_assoc]
      · exact well.reads.append reads (by rw [well.length_bytes]; rfl)
      · rw [List.length_append, well.length_bytes, ← Nat.add_assoc]
        exact malformed
  · rintro ⟨front, back, es, rfl, reads, malformed⟩
    rw [reads]
    cases back with
    | nil => cases malformed
    | cons code rest =>
      rw [entriesFrom, readEntry_eq_error_iff.mpr malformed]

/-- What has a listing is read so before anything else. -/
theorem reads_of_disassemble {input : Bytes} {es : List Entry}
    (listed : disassemble input = .ok es) : Reads 0 input es := by
  obtain ⟨behind, rfl, spans, rfl, well⟩ := entriesFrom_sound listed
  exact spans.reads well

/-! ## §4 Listings that fail -/

/-- A listing fails exactly if there is a malformed action behind bytes that have a listing. The
    error is that of this action, which is malformed in this way only; if it is a branch with
    all of its bytes, the error is final, whatever follows. -/
theorem disassemble_locates_malformed {input : Bytes} {e : ListingError} :
    (disassemble input = .error e ↔ ∃ o < input.length, (∃ es, disassemble (input.take o) = .ok es)
        ∧ Malformed o (input.drop o) e ∧ ∀ e', Malformed o (input.drop o) e' → e' = e)
      ∧ (disassemble input = .error e → e.fault.OfBranch →
          ∀ behind, disassemble (input ++ behind) = .error e) := by
  refine ⟨⟨?_, ?_⟩, ?_⟩
  · intro failed
    obtain ⟨front, back, es, rfl, reads, malformed⟩ := entriesFrom_eq_error_iff.mp failed
    rw [Nat.zero_add] at malformed
    have nonempty : 0 < back.length := by
      cases malformed <;> exact Nat.succ_pos _
    refine ⟨front.length, ?_, ⟨es, ?_⟩, ?_, ?_⟩
    · rw [List.length_append]
      exact Nat.lt_add_of_pos_right nonempty
    · rw [List.take_left]
      exact reads.disassemble_eq
    · rw [List.drop_left]
      exact malformed
    · intro e' malformed'
      rw [List.drop_left] at malformed'
      exact malformed'.unique malformed
  · -- The bytes before the action have a listing, so the reader passes them and meets the action.
    rintro ⟨o, inside, ⟨es, listed⟩, malformed, -⟩
    apply entriesFrom_eq_error_iff.mpr
    refine ⟨input.take o, input.drop o, es, (List.take_append_drop o input).symm,
      reads_of_disassemble listed, ?_⟩
    rw [List.length_take_of_le (Nat.le_of_lt inside), Nat.zero_add]
    exact malformed
  · -- More bytes change neither what was read nor the branch that is at fault.
    intro failed of_branch behind
    obtain ⟨front, back, es, rfl, reads, malformed⟩ := entriesFrom_eq_error_iff.mp failed
    apply entriesFrom_eq_error_iff.mpr
    exact ⟨front, back ++ behind, es, List.append_assoc _ _ _, reads,
      malformed.append of_branch behind⟩

/-- A plain action, and behind it a jump to an offset before the input. -/
def strayJump : Bytes := [0x06, 0x99, 0x02, 0x00, 0xf0, 0xff]

/-- The jump is at fault, not the action before it, and no byte behind the jump can mend it. -/
theorem strayJump_located :
    (∃ o < strayJump.length, (∃ es, disassemble (strayJump.take o) = .ok es)
        ∧ Malformed o (strayJump.drop o) ⟨1, .branchBeforeStart (-10)⟩
        ∧ ∀ e', Malformed o (strayJump.drop o) e' → e' = ⟨1, .branchBeforeStart (-10)⟩)
      ∧ ∀ behind, disassemble (strayJump ++ behind) = .error ⟨1, .branchBeforeStart (-10)⟩ := by
  have failed : disassemble strayJump = .error ⟨1, .branchBeforeStart (-10)⟩ := by
    decide +kernel
  refine ⟨disassemble_locates_malformed.1.mp failed, ?_⟩
  exact disassemble_locates_malformed.2 failed (.beforeStart _)

end ActionFlow
