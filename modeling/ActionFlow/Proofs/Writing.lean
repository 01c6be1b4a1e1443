import ActionFlow.Proofs.Emission

/-!
# Writing into a stream

A record is written behind what a stream holds. Nothing of that is touched; what is added is the
whole record, framed, or, if the record is refused, at most its code byte. Which records are refused
can be read off their fields: the size of a payload is the total of the widths of its fields, and
the only limits are those of the words that hold a size or a count.

## Main statements

- `Record.payloadSize`, `Record.count`: the size of a payload and the count in it, by its fields.
- `Record.Refused`: the records that cannot be written.
- `Record.Framed`: a record as the stream stores it.
- `Record.exists_payload`: the payload of a record has the size that its fields say.
- `Record.writeTo_appends_frame`: what writing a record adds to a stream.
-/

namespace ActionFlow

/-! ## §1 Widths of fields -/

/-- The size of parts that lie one behind the other. -/
def totalSize {α : Type} (size : α → Nat) : List α → Nat
  | [] => 0
  | a :: as => size a + totalSize size as

/-- The size of a text: its UTF-8 bytes and the zero behind them. -/
def textSize (s : String) : Nat := s.utf8ByteSize + 1

/-- The size of a pushed value with its kind byte. -/
def Operand.size : Operand → Nat
  | text s => 1 + textSize s
  | single _ => 5
  | null => 1
  | undefined => 1
  | register _ => 2
  | boolean _ => 2
  | double _ => 9
  | integer _ => 5
  | constant c => if c ≤ 255 then 2 else 3

/-- The size of the payload of an instruction. -/
def Instruction.payloadSize : Instruction → Nat
  | constantPool pool => 2 + totalSize textSize pool
  | getUrl url target => textSize url + textSize target
  | getUrl2 _ _ _ => 1
  | gotoFrame _ => 2
  | gotoFrame2 _ sceneBias => if sceneBias = 0 then 1 else 3
  | gotoLabel label => textSize label
  | push values => totalSize Operand.size values
  | raw _ data => data.length
  | setTarget name => textSize name
  | storeRegister _ => 1
  | strictMode _ => 1
  | op _ => 0
  | error _ => 0

/-- The size of the payload of a function definition. -/
def FunctionHeader.payloadSize : FunctionHeader → Nat
  | classic name parameters => textSize name + 2 + totalSize textSize parameters + 2
  | registers name _ _ parameters =>
    textSize name + 5 + totalSize (fun p => 1 + textSize p.name) parameters + 2

/-- The size of the payload of a try: its flags, three sizes, and where the caught value goes. -/
def TryHeader.payloadSize (h : TryHeader) : Nat :=
  match h.handler with
  | some (.named name, _) => 7 + textSize name
  | some (.register _, _) => 8
  | none => 8

namespace Record

/-- The size of the payload of a record. -/
def payloadSize : Record → Nat
  | action (.plain i) => i.payloadSize
  | action (.define _) => 0
  | function header _ => header.payloadSize
  | stop => 0
  | branch _ => 2
  | jump _ => 2
  | protect header => header.payloadSize
  | within _ => 2
  | waitForFrame _ _ => 3
  | waitForFrame2 _ => 1

/-- The count that a record stores: entries of a constant pool, or parameters. -/
def count : Record → Nat
  | action (.plain (.constantPool pool)) => pool.length
  | function (.classic _ parameters) _ => parameters.length
  | function (.registers _ _ _ parameters) _ => parameters.length
  | _ => 0

/-- The records that cannot be written. -/
inductive Refused : Record → Prop where
  /-- An action that is known to be broken. -/
  | broken (note : Option String) : Refused (action (.plain (.error note)))
  /-- A function definition without the size of its body. -/
  | unlowered (f : Function) : Refused (action (.define f))
  /-- Data behind a code that has no payload. -/
  | shortData (code : UInt8) (data : Bytes) (short : code < 0x80) (some_data : data ≠ []) :
      Refused (action (.plain (.raw code data)))
  | count {r : Record} (exceeds : 65535 < r.count) : Refused r
  | size {r : Record} (exceeds : 65535 < r.payloadSize) : Refused r

/-- A record as the stream stores it, with all of its payload. -/
inductive Framed (r : Record) : Bytes → Prop where
  | short (low : r.code < 0x80) (no_payload : r.payload = .ok []) : Framed r [r.code]
  | long (high : 0x80 ≤ r.code) (n : UInt16) (body : Bytes) (payload_eq : r.payload = .ok body)
      (n_eq : n.toNat = body.length) : Framed r (r.code :: (Bytes.ofUInt16 n ++ body))

end Record

/-! ## §2 Payloads have the size of their fields -/

theorem length_flatMap_eq_totalSize {α : Type} {bytes : α → Bytes} {size : α → Nat}
    (length_eq : ∀ a, (bytes a).length = size a) (as : List α) :
    (as.flatMap bytes).length = totalSize size as := by
  induction as with
  | nil => rfl
  | cons a as ih => rw [List.flatMap_cons, List.length_append, length_eq, ih, totalSize]

theorem Bytes.length_ofText (s : String) : (ofText s).length = s.utf8ByteSize := by
  rw [← String.size_toByteArray, ← String.utf8Encode_toList]
  simp [ofText, List.utf8Encode]

theorem length_ofTerminatedText_eq_textSize (s : String) :
    (Bytes.ofTerminatedText s).length = textSize s := by
  rw [Bytes.length_ofTerminatedText, Bytes.length_ofText, textSize]

theorem length_texts (texts : List String) :
    (texts.flatMap Bytes.ofTerminatedText).length = totalSize textSize texts :=
  length_flatMap_eq_totalSize length_ofTerminatedText_eq_textSize texts

theorem Operand.length_bytes (v : Operand) : v.bytes.length = v.size := by
  cases v with
  | text s => rw [bytes, size, List.length_cons, length_ofTerminatedText_eq_textSize, Nat.add_comm]
  | constant c =>
    by_cases small : c ≤ 255
    · simp [bytes, size, small]
    · simp [bytes, size, small]
  | _ => rfl

theorem TryHeader.length_payload (h : TryHeader) : h.payload.length = h.payloadSize := by
  obtain ⟨bodySize, handler, finalizerSize⟩ := h
  rcases handler with _ | ⟨index | name, size⟩
  · rfl
  · rfl
  · simp only [payload, payloadSize, List.length_cons, List.length_append, Bytes.length_ofUInt16,
      length_ofTerminatedText_eq_textSize]
    omega

/-- A count that fits is stored, and what goes with it follows. -/
theorem sizeWord_bind_of_le {what : String} {size : Nat} (fits : size ≤ 65535)
    (f : UInt16 → Bytes) :
    (do let n ← sizeWord what size; pure (f n)) = .ok (f (UInt16.ofNat size)) := by
  rw [sizeWord_eq_ok_iff.mpr ⟨fits, rfl⟩]
  rfl

theorem sizeWord_bind_of_lt {what : String} {size : Nat} (exceeds : 65535 < size)
    (f : UInt16 → Bytes) :
    (do let n ← sizeWord what size; pure (f n)) = .error (.tooLarge what size) := by
  unfold sizeWord
  rw [if_neg (Nat.not_le.mpr exceeds)]
  rfl

namespace Record

/-- If the count fits its word, a record has a payload, of the size that its fields say. -/
theorem exists_payload {r : Record} (fits : r.count ≤ 65535) :
    ∃ body, r.payload = .ok body ∧ body.length = r.payloadSize := by
  cases r with
  | action a =>
    cases a with
    | define f => exact ⟨[], rfl, rfl⟩
    | plain i =>
      cases i with
      | constantPool pool =>
        refine ⟨_, sizeWord_bind_of_le fits _, ?_⟩
        rw [List.length_append, length_texts]
        rfl
      | getUrl url target =>
        refine ⟨_, rfl, ?_⟩
        rw [List.length_append, length_ofTerminatedText_eq_textSize,
          length_ofTerminatedText_eq_textSize]
        rfl
      | gotoFrame2 play sceneBias =>
        refine ⟨_, rfl, ?_⟩
        by_cases biased : sceneBias = 0 <;> simp [payloadSize, Instruction.payloadSize, biased]
      | push values =>
        exact ⟨_, rfl, length_flatMap_eq_totalSize Operand.length_bytes values⟩
      | gotoLabel label => exact ⟨_, rfl, length_ofTerminatedText_eq_textSize label⟩
      | setTarget name => exact ⟨_, rfl, length_ofTerminatedText_eq_textSize name⟩
      | _ => exact ⟨_, rfl, rfl⟩
  | function header bodySize =>
    cases header with
    | classic name parameters =>
      refine ⟨_, sizeWord_bind_of_le fits _, ?_⟩
      simp only [List.length_append, length_ofTerminatedText_eq_textSize, Bytes.length_ofUInt16,
        length_texts, payloadSize, FunctionHeader.payloadSize]
    | registers name registerCount flags parameters =>
      refine ⟨_, sizeWord_bind_of_le fits _, ?_⟩
      have each (p : Parameter) :
          (p.register :: Bytes.ofTerminatedText p.name).length = 1 + textSize p.name := by
        rw [List.length_cons, length_ofTerminatedText_eq_textSize, Nat.add_comm]
      simp only [List.length_append, List.length_cons, length_ofTerminatedText_eq_textSize,
        Bytes.length_ofUInt16, length_flatMap_eq_totalSize each, payloadSize,
        FunctionHeader.payloadSize]
      omega
  | protect header => exact ⟨_, rfl, header.length_payload⟩
  | _ => exact ⟨_, rfl, rfl⟩

/-- A count that does not fit its word is the error of the payload. -/
theorem count_le_of_payload {r : Record} {body : Bytes} (h : r.payload = .ok body) :
    r.count ≤ 65535 := by
  apply Nat.not_lt.mp
  intro exceeds
  unfold count at exceeds
  -- Three kinds of records store a count; of the others there is none to be too large.
  split at exceeds
  · exact absurd (h.symm.trans (sizeWord_bind_of_lt exceeds _)) nofun
  · exact absurd (h.symm.trans (sizeWord_bind_of_lt exceeds _)) nofun
  · exact absurd (h.symm.trans (sizeWord_bind_of_lt exceeds _)) nofun
  · exact absurd exceeds (by decide)

theorem length_of_payload {r : Record} {body : Bytes} (h : r.payload = .ok body) :
    body.length = r.payloadSize := by
  obtain ⟨body', h', length_eq⟩ := exists_payload (count_le_of_payload h)
  obtain rfl := Except.ok.inj (h.symm.trans h')
  exact length_eq

/-- The records with operands have codes from 0x80 on. -/
theorem payload_of_short {r : Record} (low : r.code < 0x80) (no_data : r.rawData = []) :
    r.payload = .ok [] := by
  cases r with
  | action a =>
    cases a with
    | define f => rfl
    | plain i =>
      cases i with
      | op o => rfl
      | error note => rfl
      | raw code data => exact congrArg _ no_data
      | _ =>
        -- The other instructions have operands, so the code cannot be a short one.
        simp only [code, Action.code, Instruction.code] at low
        exact absurd low (by decide)
  | stop => rfl
  | function header bodySize =>
    cases header <;> exact absurd low (by simp only [code, FunctionHeader.code]; decide)
  | _ =>
    simp only [code] at low
    exact absurd low (by decide)

theorem rawData_of_payload {r : Record} (h : r.payload = .ok []) : r.rawData = [] := by
  unfold rawData
  split
  · exact Except.ok.inj h
  · rfl

/-! ## §3 What can be written -/

/-- A record is encoded exactly as its frame, if it has an encoding at all. -/
theorem encode_eq_ok_iff_framed {r : Record} {bytes : Bytes} :
    r.encode = .ok bytes ↔ r.unencodable? = none ∧ r.Framed bytes := by
  constructor
  · intro encoded
    obtain ⟨complete, rfl⟩ := encode_eq_ok_iff.mp encoded
    have encodable : r.unencodable? = none := by
      cases found : r.unencodable? with
      | none => rfl
      | some construct => simp [write, found] at complete
    obtain ⟨framed, bytes_eq⟩ := write_of_encodable complete
    refine ⟨encodable, ?_⟩
    rw [bytes_eq, Bytes.frame]
    by_cases low : r.code < 0x80
    · -- Data behind a short code would have been an error.
      have no_data : r.rawData = [] := by
        cases found : r.rawData with
        | nil => rfl
        | cons b rest => simp [write, encodable, tail, low, found] at complete
      rw [if_pos low]
      exact .short low (payload_of_short low no_data)
    · rw [if_neg low]
      apply Framed.long (UInt8.not_lt.mp low)
      · exact payload_of_encodable complete low
      · exact UInt16.toNat_ofNat_of_lt (Nat.lt_succ_of_le framed.long)
  · rintro ⟨encodable, framed⟩
    cases framed with
    | short low no_payload =>
      apply encode_eq_ok_iff.mpr
      simp [write, encodable, tail, low, rawData_of_payload no_payload]
    | long high n body payload_eq n_eq =>
      have fits : body.length ≤ 65535 := n_eq ▸ Nat.le_of_lt_succ n.toNat_lt
      have written := write_eq_frame encodable (UInt8.not_lt.mpr high) payload_eq fits
      apply encode_eq_ok_iff.mpr
      rw [written, Bytes.frame, if_neg (UInt8.not_lt.mpr high), ← n_eq, UInt16.ofNat_toNat]
      exact ⟨rfl, rfl⟩

/-- A record that is not refused has a frame. -/
theorem exists_framed {r : Record} (accepted : ¬ r.Refused) :
    r.unencodable? = none ∧ ∃ bytes, r.Framed bytes := by
  constructor
  · -- What has no encoding is refused by its kind.
    unfold unencodable?
    split
    · exact absurd (.broken _) accepted
    · exact absurd (.broken _) accepted
    · exact absurd (.unlowered _) accepted
    · rfl
  · by_cases low : r.code < 0x80
    · refine ⟨_, .short low (payload_of_short low ?_)⟩
      unfold rawData
      split
      · next code data =>
        apply Decidable.byContradiction
        intro some_data
        exact accepted (.shortData code data low some_data)
      · rfl
    · -- The count fits, so there is a payload; it has the size of its fields, which fits too.
      obtain ⟨body, payload_eq, length_eq⟩ :=
        exists_payload (Nat.not_lt.mp fun exceeds => accepted (.count exceeds))
      have fits : body.length ≤ 65535 :=
        length_eq ▸ Nat.not_lt.mp fun exceeds => accepted (.size exceeds)
      exact ⟨_, .long (UInt8.not_lt.mp low) (UInt16.ofNat body.length) body payload_eq
        (UInt16.toNat_ofNat_of_lt (Nat.lt_succ_of_le fits))⟩

/-- The payload in a frame is that of the record, and fits. -/
theorem Framed.exists_payload {r : Record} {bytes : Bytes} (h : r.Framed bytes) :
    ∃ body, r.payload = .ok body ∧ body.length ≤ 65535 ∧ (r.code < 0x80 → body = []) := by
  cases h with
  | short low no_payload => exact ⟨[], no_payload, Nat.zero_le _, fun _ => rfl⟩
  | long high n body payload_eq n_eq =>
    refine ⟨body, payload_eq, n_eq ▸ Nat.le_of_lt_succ n.toNat_lt, ?_⟩
    intro low
    exact absurd low (UInt8.not_lt.mpr high)

/-- A refused record has no encoding, or no frame. -/
theorem not_refused_of_framed {r : Record} {bytes : Bytes} (encodable : r.unencodable? = none)
    (framed : r.Framed bytes) : ¬ r.Refused := by
  intro refused
  obtain ⟨body, payload_eq, fits, no_body⟩ := framed.exists_payload
  cases refused with
  | broken note => cases note <;> cases encodable
  | unlowered f => cases encodable
  | shortData code data short some_data =>
    obtain rfl := Except.ok.inj payload_eq
    exact some_data (no_body short)
  | count exceeds => exact absurd (count_le_of_payload payload_eq) (Nat.not_le.mpr exceeds)
  | size exceeds =>
    rw [← length_of_payload payload_eq] at exceeds
    exact absurd fits (Nat.not_le.mpr exceeds)

/-- A record is encoded exactly if it is not refused. -/
theorem exists_encode_iff {r : Record} : (∃ bytes, r.encode = .ok bytes) ↔ ¬ r.Refused := by
  constructor
  · rintro ⟨bytes, encoded⟩
    obtain ⟨encodable, framed⟩ := encode_eq_ok_iff_framed.mp encoded
    exact not_refused_of_framed encodable framed
  · intro accepted
    obtain ⟨encodable, bytes, framed⟩ := exists_framed accepted
    exact ⟨bytes, encode_eq_ok_iff_framed.mpr ⟨encodable, framed⟩⟩

/-! ## §4 What is added to a stream -/

/-- Writing into a stream adds what writing by itself yields, and stops for the same reason. -/
theorem writeTo_eq (out : Bytes) (r : Record) :
    r.writeTo out = (out ++ r.write.bytes, r.encode.map fun _ => ()) := by
  unfold writeTo encode write
  cases r.unencodable? with
  | some construct => simp [Except.map]
  | none =>
    cases r.tail with
    | ok rest => simp [Except.map]
    | error e => simp [Except.map]

/-- A record that is not written whole leaves at most its code. -/
theorem write_bytes_of_encode_error {r : Record} {e : LowerError} (h : r.encode = .error e) :
    r.write.bytes = [] ∨ r.write.bytes = [r.code] := by
  unfold encode write at h
  unfold write
  cases found : r.unencodable? with
  | some construct => exact .inl rfl
  | none =>
    cases behind : r.tail with
    | ok rest => simp [found, behind] at h
    | error e => exact .inr rfl

/-- Writing a record into a stream keeps what is there. A record that is not refused is added whole:
    these are the bytes of its encoding, and they frame all of its payload. A refused record fails
    with the error of its encoding, and at most its code is added. -/
theorem writeTo_appends_frame (out : Bytes) (r : Record) :
    (¬ r.Refused ∧ ∃ bytes, r.encode = .ok bytes ∧ r.writeTo out = (out ++ bytes, .ok ())
        ∧ r.Framed bytes)
      ∨ (r.Refused ∧ ∃ e left, r.encode = .error e ∧ r.writeTo out = (out ++ left, .error e)
        ∧ (left = [] ∨ left = [r.code])) := by
  cases encoded : r.encode with
  | ok bytes =>
    refine .inl ⟨exists_encode_iff.mp ⟨bytes, encoded⟩, bytes, rfl, ?_, ?_⟩
    · rw [writeTo_eq, encoded, ← (encode_eq_ok_iff.mp encoded).2]
      rfl
    · exact (encode_eq_ok_iff_framed.mp encoded).2
  | error e =>
    refine .inr ⟨?_, e, r.write.bytes, rfl, ?_, write_bytes_of_encode_error encoded⟩
    · apply Classical.byContradiction
      intro accepted
      obtain ⟨bytes, encoded'⟩ := exists_encode_iff.mpr accepted
      cases encoded.symm.trans encoded'
    · rw [writeTo_eq, encoded]
      rfl

end Record

end ActionFlow
