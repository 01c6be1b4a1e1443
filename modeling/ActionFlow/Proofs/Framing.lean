import ActionFlow.Listing
import ActionFlow.Record

/-!
# Framed actions

An action of the byte stream is a code byte, and for codes of 0x80 and above a length word and a
payload of that length. Records are written in this form, and listings read it back: what a reader
finds at the start of a framed action is that action, whatever follows.

## Main statements

- `Bytes.frame`: an action as the stream stores it.
- `Record.write_of_encodable`: a record that can be written is framed.
- `readEntry_frame`, `entriesFrom_frame`: reading a framed action.
-/

namespace ActionFlow

/-! ## §1 Words -/

namespace Bytes

theorem word_ofUInt16 (w : UInt16) : word w.toUInt8 (w >>> 8).toUInt8 = w.toNat := by
  have hlt := w.toNat_lt
  simp only [word, UInt16.toNat_toUInt8, UInt16.toNat_shiftRight, UInt16.toNat_ofNat]
  rw [Nat.shiftRight_eq_div_pow, show 8 % 2 ^ 16 % 16 = 8 from rfl]
  omega

/-- A number that fits 16 bits is read back. -/
theorem word_ofNat {n : Nat} (h : n ≤ 65535) :
    word (UInt16.ofNat n).toUInt8 (UInt16.ofNat n >>> 8).toUInt8 = n := by
  rw [word_ofUInt16, UInt16.toNat_ofNat']
  omega

theorem signedWord_ofUInt16 (w : UInt16) :
    signedWord w.toUInt8 (w >>> 8).toUInt8 = Int.bmod w.toNat 65536 := by
  unfold signedWord
  rw [word_ofUInt16]

/-- A signed word is read back. -/
theorem signedWord_ofInt16 (d : Int16) :
    signedWord d.toUInt16.toUInt8 (d.toUInt16 >>> 8).toUInt8 = d.toInt := by
  have h : d.toInt = Int.bmod d.toUInt16.toNat 65536 := BitVec.toInt_eq_toNat_bmod d.toBitVec
  rw [h]
  exact signedWord_ofUInt16 _

/-! ## §2 Frames -/

/-- An action as the stream stores it. -/
def frame (code : UInt8) (payload : Bytes) : Bytes :=
  if code < 0x80 then [code] else code :: (ofUInt16 (UInt16.ofNat payload.length) ++ payload)

theorem frame_eq_cons (code : UInt8) (payload : Bytes) :
    frame code payload = code :: (frame code payload).tail := by
  unfold frame
  split <;> rfl

end Bytes

/-- A code and a payload that an action can have. -/
structure Frameable (code : UInt8) (payload : Bytes) : Prop where
  short : code < 0x80 → payload = []
  long : payload.length ≤ 65535

namespace Record

/-- The payload with which a record is written. -/
def content (r : Record) : Bytes := if r.code < 0x80 then [] else r.payload.toOption.getD []

/-- A record with a payload that fits is written whole. -/
theorem write_eq_frame {r : Record} {body : Bytes} (hu : r.unencodable? = none)
    (hc : ¬ r.code < 0x80) (hp : r.payload = .ok body) (hl : body.length ≤ 65535) :
    r.write = ⟨Bytes.frame r.code body, none⟩ := by
  have htail : r.tail = .ok (Bytes.ofUInt16 (UInt16.ofNat body.length) ++ body) := by
    simp only [tail, hc, if_false, hp, sizeWord]
    simp [bind, Except.bind, hl]
    rfl
  simp only [write, hu, htail, Bytes.frame, hc, if_false]

/-- A record that can be written is framed. -/
theorem write_of_encodable {r : Record} (h : r.write.error? = none) :
    Frameable r.code r.content ∧ r.write.bytes = Bytes.frame r.code r.content := by
  unfold write at h ⊢
  cases hu : r.unencodable? with
  | some construct => simp [hu] at h
  | none =>
    simp only [hu, tail, Bytes.frame, content] at h ⊢
    by_cases hc : r.code < 0x80
    · by_cases hr : r.rawData.isEmpty
      · simp only [hc, hr, if_true]
        exact ⟨⟨fun _ => rfl, by simp⟩, trivial⟩
      · simp [hc, hr] at h
    · simp only [hc, if_false] at h ⊢
      cases hp : r.payload with
      | error e => simp [hp, bind, Except.bind] at h
      | ok body =>
        simp only [hp, sizeWord, bind, Except.bind, pure, Except.pure] at h ⊢
        by_cases hl : body.length ≤ 65535
        · simp only [hl, if_true, Except.toOption, Option.getD_some]
          exact ⟨⟨fun hc' => absurd hc' hc, hl⟩, trivial⟩
        · simp [hl] at h

theorem payload_of_encodable {r : Record} (h : r.write.error? = none) (hc : ¬ r.code < 0x80) :
    r.payload = .ok r.content := by
  cases hp : r.payload with
  | ok body => simp [content, hc, hp, Except.toOption]
  | error e =>
    -- An error of the payload is an error of the record.
    unfold write at h
    cases hu : r.unencodable? <;> simp [hu, tail, hc, hp, bind, Except.bind] at h

/-! ## §3 Records of control flow -/

@[simp] theorem write_stop : stop.write = ⟨[Code.stop], none⟩ := by decide

@[simp] theorem write_jump (d : Int16) :
    (jump d).write = ⟨Bytes.frame Code.jump (Bytes.ofInt16 d), none⟩ :=
  write_eq_frame rfl (show ¬ Code.jump < 0x80 by decide) rfl (by simp)

@[simp] theorem write_branch (d : Int16) :
    (branch d).write = ⟨Bytes.frame Code.branch (Bytes.ofInt16 d), none⟩ :=
  write_eq_frame rfl (show ¬ Code.branch < 0x80 by decide) rfl (by simp)

@[simp] theorem write_within (size : UInt16) :
    (within size).write = ⟨Bytes.frame Code.within (Bytes.ofUInt16 size), none⟩ :=
  write_eq_frame rfl (show ¬ Code.within < 0x80 by decide) rfl (by simp)

@[simp] theorem write_waitForFrame (frame : UInt16) (skip : UInt8) :
    (waitForFrame frame skip).write
      = ⟨Bytes.frame Code.waitForFrame (Bytes.ofUInt16 frame ++ [skip]), none⟩ :=
  write_eq_frame rfl (show ¬ Code.waitForFrame < 0x80 by decide) rfl (by simp)

@[simp] theorem write_waitForFrame2 (skip : UInt8) :
    (waitForFrame2 skip).write = ⟨Bytes.frame Code.waitForFrame2 [skip], none⟩ :=
  write_eq_frame rfl (show ¬ Code.waitForFrame2 < 0x80 by decide) rfl (by simp)

end Record

theorem Bytes.length_frame {code : UInt8} (payload : Bytes) (h : ¬ code < 0x80) :
    (Bytes.frame code payload).length = payload.length + 3 := by
  simp only [Bytes.frame, h, if_false, List.length_cons, List.length_append, length_ofUInt16]
  omega

/-! ## §4 Reading -/

/-- A branch with an operand `d` reaches the offset that lies `d` bytes behind the operand. -/
theorem branchTarget_ofInt16 {offset target : Nat} {d : Int16}
    (h : ((offset + 5 : Nat) : Int) + d.toInt = (target : Int)) :
    branchTarget offset (Bytes.ofInt16 d) = .ok target := by
  simp only [branchTarget, Bytes.ofInt16, Bytes.ofUInt16, Bytes.signedWord_ofInt16, h]
  simp

/-- Where an action at `offset` branches to, if its code is that of a branch. -/
def targetOf (offset : Nat) (code : UInt8) (payload : Bytes) : Except ListingError (Option Nat) :=
  if isBranchCode code then (branchTarget offset payload).map some else .ok none

namespace Entry

/-- The entry of a framed action. -/
def ofFrame (offset : Nat) (code : UInt8) (payload : Bytes) (target : Option Nat) : Entry :=
  ⟨offset, code, payload.length, payload, target⟩

theorem size_ofFrame {code : UInt8} {payload : Bytes} (h : Frameable code payload) (offset : Nat)
    (target : Option Nat) :
    (ofFrame offset code payload target).size = (Bytes.frame code payload).length := by
  unfold size headerSize ofFrame Bytes.frame
  by_cases hc : code < 0x80
  · have hc' : ¬ (0x80 : UInt8) ≤ code := UInt8.not_le.mpr hc
    simp [hc, hc', h.short hc]
  · have hc' : (0x80 : UInt8) ≤ code := UInt8.not_lt.mp hc
    simp only [hc, hc', if_true, if_false, List.length_cons, List.length_append,
      Bytes.length_ofUInt16]
    omega

end Entry

/-- Branches have payloads. -/
theorem isBranchCode_of_lt {code : UInt8} (h : code < 0x80) : isBranchCode code = false := by
  have h1 : code ≠ Code.branch := by
    rintro rfl
    exact absurd h (by decide)
  have h2 : code ≠ Code.jump := by
    rintro rfl
    exact absurd h (by decide)
  simp [isBranchCode, h1, h2]

/-- What a reader finds at the start of a framed action. -/
theorem readEntry_frame {offset : Nat} {code : UInt8} {payload : Bytes} {target : Option Nat}
    (h : Frameable code payload) (ht : targetOf offset code payload = .ok target) (rest : Bytes) :
    readEntry offset code ((Bytes.frame code payload).tail ++ rest)
      = .ok (Entry.ofFrame offset code payload target) := by
  unfold readEntry Bytes.frame Entry.ofFrame
  unfold targetOf at ht
  by_cases hc : code < 0x80
  · obtain rfl : target = none := by simpa [isBranchCode_of_lt hc, eq_comm] using ht
    simp [hc, h.short hc]
  · simp only [hc, if_false, List.tail_cons, Bytes.ofUInt16, List.cons_append, List.nil_append,
      Bytes.word_ofNat h.long, List.take_left']
    by_cases hb : isBranchCode code
    · simp only [hb, if_true] at ht ⊢
      cases hx : branchTarget offset payload with
      | error e => simp [hx, Except.map] at ht
      | ok t => simp_all [Except.map]
    · simp_all

/-- A listing goes on behind a framed action. -/
theorem entriesFrom_frame {offset : Nat} {found : List Entry} {code : UInt8} {payload : Bytes}
    {target : Option Nat} (h : Frameable code payload)
    (ht : targetOf offset code payload = .ok target) (rest : Bytes) :
    entriesFrom offset found (Bytes.frame code payload ++ rest)
      = entriesFrom (offset + (Bytes.frame code payload).length)
          (Entry.ofFrame offset code payload target :: found) rest := by
  have hcons := Bytes.frame_eq_cons code payload
  have hsize := Entry.size_ofFrame h offset target
  have htail : (Bytes.frame code payload).length - 1 = (Bytes.frame code payload).tail.length := by
    simp
  rw [hcons, List.cons_append, entriesFrom, readEntry_frame h ht]
  simp only [Entry.stop, hsize]
  rw [htail, List.drop_left, ← hcons]
  rfl

end ActionFlow
