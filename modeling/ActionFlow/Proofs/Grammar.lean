import ActionFlow.Proofs.LinearReading

/-!
# The grammar of listings

A listing is found by a reader that goes from action to action. Here it is described without the
reader: entries that lie one behind the other from the start of the input to its end, whose bytes
are the input, and each of which is an action that the stream can hold. A listing exists exactly if
there are such entries, and then it consists of them, so no byte is lost and no input has two
listings.

## Main statements

- `Entry.bytes`: the bytes of the input that an entry stands for.
- `Entry.WellFormed`: an entry that some input can have.
- `Tiles`: the entries cover the input without gap and overlap.
- `readEntry_sound`: one step of the reader.
- `disassemble_eq_ok_iff_tiles`: the reader accepts exactly the inputs that can be tiled.
-/

namespace ActionFlow

/-! ## §1 Entries -/

namespace Entry

/-- The bytes that an entry stands for: its code, the length word of codes from 0x80 on, and its
    payload. -/
def bytes (e : Entry) : Bytes :=
  e.code :: ((if 0x80 ≤ e.code then Bytes.ofUInt16 (UInt16.ofNat e.length) else []) ++ e.payload)

/-- What an entry says fits together: the length is that of the payload and fits its word, codes
    below 0x80 have no payload, the operand of a branch is one word that leads to the target, and
    nothing else has a target. -/
structure WellFormed (e : Entry) : Prop where
  length_eq : e.length = e.payload.length
  fits : e.length ≤ 65535
  short : e.code < 0x80 → e.length = 0 ∧ e.payload = []
  branch : e.code = Code.branch ∨ e.code = Code.jump → ∃ lo hi target,
    e.payload = [lo, hi] ∧ e.target = some target
      ∧ (target : Int) = ((e.offset + 5 : Nat) : Int) + Bytes.signedWord lo hi
  plain : e.code ≠ Code.branch → e.code ≠ Code.jump → e.target = none

end Entry

/-- The entries cover the input: they lie one behind the other from its start to its end, their
    bytes are the input, and each of them is well formed. -/
structure Tiles (input : Bytes) (es : List Entry) : Prop where
  spans : Spans es 0 input.length
  bytes_eq : es.flatMap Entry.bytes = input
  wellFormed : ∀ e ∈ es, e.WellFormed

theorem isBranchCode_iff {code : UInt8} :
    isBranchCode code = true ↔ code = Code.branch ∨ code = Code.jump := by
  simp [isBranchCode]

/-- A branch has an operand of one word, and reaches an offset that is not negative. -/
theorem branchTarget_eq_ok_iff {offset target : Nat} {payload : Bytes} :
    branchTarget offset payload = .ok target ↔ ∃ lo hi, payload = [lo, hi]
      ∧ (target : Int) = ((offset + 5 : Nat) : Int) + Bytes.signedWord lo hi := by
  constructor
  · unfold branchTarget
    split
    · next lo hi =>
      intro reached
      dsimp only at reached
      split at reached
      · -- The offset is not negative, so nothing is cut off.
        exact ⟨lo, hi, rfl, by have := Except.ok.inj reached; omega⟩
      · cases reached
    · intro reached
      cases reached
  · rintro ⟨lo, hi, rfl, distance⟩
    simp only [branchTarget]
    rw [if_pos (by omega), ← distance, Int.toNat_natCast]

namespace Entry

/-- A well-formed entry is that of a framed action. -/
theorem wellFormed_iff {e : Entry} :
    e.WellFormed ↔ Frameable e.code e.payload ∧ e.length = e.payload.length
      ∧ targetOf e.offset e.code e.payload = .ok e.target := by
  constructor
  · intro h
    refine ⟨⟨fun low => (h.short low).2, h.length_eq ▸ h.fits⟩, h.length_eq, ?_⟩
    unfold targetOf
    split
    · next is_branch =>
      obtain ⟨lo, hi, target, payload_eq, target_eq, distance⟩ :=
        h.branch (isBranchCode_iff.mp is_branch)
      rw [branchTarget_eq_ok_iff.mpr ⟨lo, hi, payload_eq, distance⟩, target_eq]
      rfl
    · next no_branch =>
      rw [isBranchCode_iff, not_or] at no_branch
      rw [h.plain no_branch.1 no_branch.2]
  · rintro ⟨framed, length_eq, target_eq⟩
    unfold targetOf at target_eq
    refine ⟨length_eq, length_eq ▸ framed.long, ?_, ?_, ?_⟩
    · intro low
      exact ⟨by rw [length_eq, framed.short low]; rfl, framed.short low⟩
    · intro is_branch
      rw [if_pos (isBranchCode_iff.mpr is_branch)] at target_eq
      cases reached : branchTarget e.offset e.payload with
      | error fault => simp [reached, Except.map] at target_eq
      | ok target =>
        obtain ⟨lo, hi, payload_eq, distance⟩ := branchTarget_eq_ok_iff.mp reached
        rw [reached] at target_eq
        exact ⟨lo, hi, target, payload_eq, (Except.ok.inj target_eq).symm, distance⟩
    · intro no_branch no_jump
      rw [if_neg (by simp [isBranchCode, no_branch, no_jump])] at target_eq
      exact (Except.ok.inj target_eq).symm

theorem WellFormed.bytes_eq {e : Entry} (h : e.WellFormed) :
    e.bytes = Bytes.frame e.code e.payload := by
  unfold bytes Bytes.frame
  by_cases low : e.code < 0x80
  · rw [if_neg (UInt8.not_le.mpr low), if_pos low, (h.short low).2]
    rfl
  · rw [if_pos (UInt8.not_lt.mp low), if_neg low, h.length_eq]

theorem WellFormed.length_bytes {e : Entry} (h : e.WellFormed) : e.bytes.length = e.size := by
  obtain ⟨framed, length_eq, -⟩ := wellFormed_iff.mp h
  rw [h.bytes_eq, ← size_ofFrame framed e.offset e.target]
  rfl

end Entry

/-! ## §2 What the reader finds is a tiling -/

/-- A byte pair is the length word of the number that it spells. -/
theorem Bytes.ofUInt16_word (lo hi : UInt8) : ofUInt16 (UInt16.ofNat (word lo hi)) = [lo, hi] := by
  have := lo.toNat_lt
  have := hi.toNat_lt
  have spelled : (UInt16.ofNat (word lo hi)).toNat = word lo hi := by
    rw [UInt16.toNat_ofNat']
    apply Nat.mod_eq_of_lt
    unfold word
    omega
  have low : (UInt16.ofNat (word lo hi)).toUInt8 = lo := by
    rw [← UInt8.toNat_inj, UInt16.toNat_toUInt8, spelled]
    unfold word
    omega
  have high : (UInt16.ofNat (word lo hi) >>> 8).toUInt8 = hi := by
    rw [← UInt8.toNat_inj, UInt16.toNat_toUInt8, UInt16.toNat_shiftRight, spelled,
      Nat.shiftRight_eq_div_pow, show (8 : UInt16).toNat % 16 = 8 from rfl]
    unfold word
    omega
  rw [ofUInt16, low, high]

/-- One step of the reader: the entry that it finds at an offset is well formed, and its bytes stand
    at the front of the input. -/
theorem readEntry_sound {offset : Nat} {code : UInt8} {rest : Bytes} {e : Entry}
    (h : readEntry offset code rest = .ok e) :
    e.offset = offset ∧ e.WellFormed ∧ code :: rest = e.bytes ++ rest.drop (e.size - 1) := by
  unfold readEntry at h
  split at h
  · -- A short code is an action by itself.
    next low =>
    obtain rfl := Except.ok.inj h
    have framed : Frameable code [] := ⟨fun _ => rfl, by simp⟩
    have well : (⟨offset, code, 0, [], none⟩ : Entry).WellFormed :=
      Entry.wellFormed_iff.mpr ⟨framed, rfl, by simp [targetOf, isBranchCode_of_lt low]⟩
    refine ⟨rfl, well, ?_⟩
    rw [well.bytes_eq, Bytes.frame, if_pos low]
    simp [Entry.size, Entry.headerSize, UInt8.not_le.mpr low]
  · next long =>
    split at h
    · next lo hi body =>
      dsimp only at h
      split at h
      · cases h
      · next enough =>
        -- The payload is there in full, so it has the length that the word spells.
        have length_eq : (body.take (Bytes.word lo hi)).length = Bytes.word lo hi := by
          have := List.length_take_le (Bytes.word lo hi) body
          omega
        have fits : Bytes.word lo hi ≤ 65535 := by
          have := lo.toNat_lt
          have := hi.toNat_lt
          unfold Bytes.word
          omega
        have framed : Frameable code (body.take (Bytes.word lo hi)) :=
          ⟨fun low => absurd low long, by omega⟩
        -- Whatever the target is, the bytes are those of the frame.
        suffices found : ∃ target, targetOf offset code (body.take (Bytes.word lo hi)) = .ok target
            ∧ e = ⟨offset, code, Bytes.word lo hi, body.take (Bytes.word lo hi), target⟩ by
          obtain ⟨target, target_eq, rfl⟩ := found
          have well : (⟨offset, code, Bytes.word lo hi, body.take (Bytes.word lo hi), target⟩ :
              Entry).WellFormed := Entry.wellFormed_iff.mpr ⟨framed, length_eq.symm, target_eq⟩
          refine ⟨rfl, well, ?_⟩
          rw [well.bytes_eq, Bytes.frame, if_neg long, length_eq, Bytes.ofUInt16_word]
          simp [Entry.size, Entry.headerSize, UInt8.not_lt.mp long, length_eq,
            show 3 + Bytes.word lo hi - 1 = Bytes.word lo hi + 2 by omega]
        split at h
        · next is_branch =>
          split at h
          · next target reached =>
            exact ⟨some target, by simp [targetOf, is_branch, reached, Except.map],
              (Except.ok.inj h).symm⟩
          · cases h
        · next no_branch =>
          exact ⟨none, by simp [targetOf, no_branch], (Except.ok.inj h).symm⟩
    · cases h

/-- A run of the reader from an offset on: the entries that it adds tile what was left of the
    input. -/
theorem entriesFrom_sound {offset : Nat} {found : List Entry} {input : Bytes} {es : List Entry}
    (h : entriesFrom offset found input = .ok es) :
    ∃ behind, es = found.reverse ++ behind ∧ Spans behind offset (offset + input.length)
      ∧ behind.flatMap Entry.bytes = input ∧ ∀ e ∈ behind, e.WellFormed := by
  -- The induction is on the steps of the reader; the offset moves on with what is left.
  fun_induction entriesFrom offset found input with
  | case1 offset found =>
    obtain rfl := Except.ok.inj h
    exact ⟨[], by simp, .nil _, rfl, by simp⟩
  | case2 => cases h
  | case3 offset found code rest e read ih =>
    obtain ⟨rfl, well, input_eq⟩ := readEntry_sound read
    obtain ⟨behind, rfl, spans, bytes_eq, all_well⟩ := ih h
    -- The rest ends where the whole input does, as the bytes of the entry are those passed over.
    have reaches : e.stop + (rest.drop (e.size - 1)).length = e.offset + (code :: rest).length := by
      rw [input_eq, List.length_append, well.length_bytes, Entry.stop, Nat.add_assoc]
    rw [reaches] at spans
    refine ⟨e :: behind, by simp, .cons spans, ?_, ?_⟩
    · rw [List.flatMap_cons, bytes_eq, ← input_eq]
    · simpa using ⟨well, all_well⟩

/-! ## §3 A tiling is what the reader finds -/

/-- A well-formed entry is read from its bytes, whatever follows them. -/
theorem Entry.WellFormed.reads {e : Entry} (h : e.WellFormed) : Reads e.offset e.bytes [e] := by
  obtain ⟨framed, length_eq, target_eq⟩ := wellFormed_iff.mp h
  intro found rest
  rw [h.bytes_eq, entriesFrom_frame framed target_eq]
  have entry_eq : ofFrame e.offset e.code e.payload e.target = e := by
    rw [ofFrame, ← length_eq]
  rw [entry_eq]
  rfl

/-- Well-formed entries that lie one behind the other are read one after the other. -/
theorem Spans.reads {es : List Entry} {start stop : Nat} (h : Spans es start stop)
    (well : ∀ e ∈ es, e.WellFormed) : Reads start (es.flatMap Entry.bytes) es := by
  induction h with
  | nil offset => exact .nil offset
  | @cons e es stop behind ih =>
    simp only [List.mem_cons, forall_eq_or_imp] at well
    rw [List.flatMap_cons]
    -- The entry behind starts where the bytes of this one end.
    apply well.1.reads.append (ih well.2)
    rw [well.1.length_bytes]
    rfl

/-- A listing consists of exactly the entries that tile the input. The reader accepts every input
    that can be tiled and no other one; of the input nothing is lost, and nothing is read twice. -/
theorem disassemble_eq_ok_iff_tiles {input : Bytes} {es : List Entry} :
    disassemble input = .ok es ↔ Tiles input es := by
  constructor
  · intro listed
    obtain ⟨behind, rfl, spans, bytes_eq, well⟩ := entriesFrom_sound listed
    rw [Nat.zero_add] at spans
    exact ⟨spans, bytes_eq, well⟩
  · rintro ⟨spans, rfl, well⟩
    apply Reads.disassemble_eq
    exact spans.reads well

end ActionFlow
