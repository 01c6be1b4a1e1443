import ActionFlow.Proofs.Decoding
import ActionFlow.Proofs.Writing

/-!
# Texts with zero characters

A text is stored with a zero byte behind it, and a reader takes the first zero byte for its end. A
zero character inside of a text is spelled with a zero byte too. Records do not look for one: a
record that holds such a text is written like any other, and refused only if it is too large. What
is lost is the way back, since no reader of the layouts ever yields a text with a zero character:
the bytes behind the first zero byte are taken for the next field.

## Main statements

- `Scan.Always`: what holds of everything that a scanner can yield.
- `Record.always_decode`: a reader of the layouts yields readable records only.
- `Record.decode_encode_iff`: the records that are read back are the readable ones.
- `Record.refused_iff_of_holdsZero`: a zero character is no reason to refuse a record.
- `Record.zero_character_is_written`: a record with a zero character is written and cannot be read.
- `Record.encode_shiftZero`, `Record.encode_push_joinTexts`: records that only differ in what a zero
  character divides have the same bytes.
-/

namespace ActionFlow

/-! ## §1 What scanners can yield -/

namespace Scan

variable {α β : Type} {d : Scan α}

/-- Whatever the scanner yields has the property. -/
def Always (d : Scan α) (P : α → Prop) : Prop :=
  ∀ input x rest, d.run input = some (x, rest) → P x

namespace Always

theorem of_forall {P : α → Prop} (h : ∀ x, P x) : Always d P := fun _ x _ _ => h x

theorem pure {P : α → Prop} {a : α} (h : P a) : Always (Pure.pure a) P := by
  intro input x rest run_eq
  obtain ⟨rfl, -⟩ := Prod.mk.inj (Option.some.inj run_eq)
  exact h

theorem failure {P : α → Prop} : Always (Alternative.failure : Scan α) P := by
  intro input x rest run_eq
  cases run_eq

theorem bind {Q : α → Prop} {P : β → Prop} {f : α → Scan β} (first : Always d Q)
    (second : ∀ a, Q a → Always (f a) P) : Always (d >>= f) P := by
  intro input x rest run_eq
  obtain ⟨⟨a, left⟩, first_eq, second_eq⟩ := Option.bind_eq_some_iff.mp run_eq
  exact second a (first input a left first_eq) left x rest second_eq

theorem map {f : α → β} {P : β → Prop} (h : Always d fun a => P (f a)) : Always (f <$> d) P := by
  rw [← bind_pure_comp]
  exact h.bind fun _ holds => .pure holds

/-- What comes before a field does not matter if the field alone makes the property true. -/
theorem behind {P : β → Prop} {f : α → Scan β} (h : ∀ a, Always (f a) P) : Always (d >>= f) P :=
  bind (Q := fun _ => True) (of_forall fun _ => trivial) fun a _ => h a

theorem counted {P : α → Prop} (h : Always d P) (n : Nat) :
    Always (counted d n) fun xs => ∀ x ∈ xs, P x := by
  induction n with
  | zero => exact .pure (by simp)
  | succ n ih =>
    refine h.bind fun x holds => ih.bind fun xs all => .pure ?_
    simpa using ⟨holds, all⟩

theorem toEnd {P : α → Prop} (h : Always d P) :
    Always (toEnd d) fun xs => ∀ x ∈ xs, P x := by
  intro input xs rest run_eq
  unfold StateT.run at run_eq
  -- The induction is on the steps of the scanner; each step yields one more item.
  fun_induction Scan.toEnd d input generalizing xs with
  | case1 =>
    obtain ⟨rfl, -⟩ := Prod.mk.inj (Option.some.inj run_eq)
    simp
  | case2 => cases run_eq
  | case3 input nonempty x left read shorter ih =>
    obtain ⟨⟨ys, end_⟩, behind_eq, pair_eq⟩ := Option.map_eq_some_iff.mp run_eq
    obtain ⟨rfl, rfl⟩ := Prod.mk.inj pair_eq
    simpa using ⟨h input x left read, ih ys behind_eq⟩
  | case4 => cases run_eq

end Always

/-- The bytes before the first zero byte hold none. -/
theorem always_untilZero : Always untilZero fun front => (0 : UInt8) ∉ front := by
  intro input front rest run_eq
  simp only [untilZero, StateT.run] at run_eq
  split at run_eq
  · cases run_eq
  · obtain ⟨rfl, -⟩ := Prod.mk.inj (Option.some.inj run_eq)
    intro zero
    simpa using List.mem_takeWhile_imp zero

/-- A zero character is spelled with a zero byte, so a text up to the first zero byte holds none. -/
theorem always_text : Always text fun s => '\x00' ∉ s.toList := by
  refine always_untilZero.bind fun front no_zero => ?_
  split
  · next chars decoded =>
    refine .pure fun zero => no_zero ?_
    rw [String.toList_ofList] at zero
    -- What was decoded is spelled by the bytes that it was decoded from.
    have spelled : chars.toList.utf8Encode = front.toByteArray := by
      simpa [decoded] using ByteArray.utf8Encode_get_utf8Decode? (b := front.toByteArray)
        (h := by rw [decoded]; rfl)
    have front_eq : chars.toList.flatMap String.utf8EncodeChar = front := by
      have bytes_eq := congrArg (fun b => b.data.toList) spelled
      simpa [List.utf8Encode] using bytes_eq
    rw [← front_eq]
    exact List.mem_flatMap.mpr ⟨'\x00', zero, by decide⟩
  · exact .failure

end Scan

/-! ## §2 Everything that is read is readable -/

/-- The texts can be closed by a zero byte. -/
def Closed (texts : List String) : Prop := ∀ s ∈ texts, '\x00' ∉ s.toList

theorem closed_nil : Closed [] := by simp [Closed]

theorem closed_single {s : String} (h : '\x00' ∉ s.toList) : Closed [s] := by simpa [Closed] using h

open Scan

theorem always_operand : operand.Always fun o => Closed o.texts := by
  refine .behind fun kind => ?_
  split
  · exact .map fun _ _ _ read => closed_single (always_text _ _ _ read)
  -- The other kinds have no text.
  · exact .map (.of_forall fun _ => closed_nil)
  · exact .pure closed_nil
  · exact .pure closed_nil
  · exact .map (.of_forall fun _ => closed_nil)
  · exact .map (.of_forall fun _ => closed_nil)
  · exact .map (.of_forall fun _ => closed_nil)
  · exact .map (.of_forall fun _ => closed_nil)
  · exact .map (.of_forall fun _ => closed_nil)
  · exact .map (.of_forall fun _ => closed_nil)
  · exact .failure

namespace Instruction

/-- An instruction with a layout, and texts that can be closed. -/
def ReadBack (i : Instruction) : Prop := (Record.action (.plain i)).Readable

theorem always_operandLayouts {code : UInt8} {layout : Scan Instruction}
    (mem : (code, layout) ∈ operandLayouts) : layout.Always ReadBack := by
  simp only [operandLayouts, List.mem_cons, Prod.mk.injEq, List.not_mem_nil, or_false] at mem
  -- One case for each layout; those without texts have nothing to show.
  rcases mem with ⟨-, rfl⟩ | ⟨-, rfl⟩ | ⟨-, rfl⟩ | ⟨-, rfl⟩ | ⟨-, rfl⟩ | ⟨-, rfl⟩ | ⟨-, rfl⟩
    | ⟨-, rfl⟩ | ⟨-, rfl⟩ | ⟨-, rfl⟩
  · exact .map (.of_forall fun _ => ⟨rfl, closed_nil⟩)
  · refine always_text.bind fun url closed => always_text.bind fun target closed' => .pure ⟨rfl, ?_⟩
    simpa [Record.texts, texts] using ⟨closed, closed'⟩
  · exact .map (.of_forall fun _ => ⟨rfl, closed_nil⟩)
  · exact .behind fun count => (always_text.counted _).bind fun pool closed => .pure ⟨rfl, closed⟩
  · exact .map (.of_forall fun _ => ⟨rfl, closed_nil⟩)
  · exact .map fun _ _ _ read => ⟨rfl, closed_single (always_text _ _ _ read)⟩
  · exact .map fun _ _ _ read => ⟨rfl, closed_single (always_text _ _ _ read)⟩
  · refine .map fun _ _ _ read => ⟨rfl, ?_⟩
    have values_closed := always_operand.toEnd _ _ _ read
    intro s hs
    obtain ⟨o, ho, hs⟩ := List.mem_flatMap.mp hs
    exact values_closed o ho s hs
  · refine .behind fun flags => ?_
    split
    · exact .pure ⟨rfl, closed_nil⟩
    · exact .failure
  · refine .behind fun flags => ?_
    split
    · exact .behind fun bias => .pure ⟨rfl, closed_nil⟩
    · exact .behind fun bias => .pure ⟨rfl, closed_nil⟩

theorem always_layouts {code : UInt8} {layout : Scan Instruction}
    (mem : (code, layout) ∈ layouts) : layout.Always ReadBack := by
  rcases List.mem_append.mp mem with mem | mem
  · exact always_operandLayouts mem
  · obtain ⟨o, -, pair_eq⟩ := List.mem_map.mp mem
    obtain ⟨-, rfl⟩ := Prod.mk.inj pair_eq
    exact .pure ⟨rfl, closed_nil⟩

end Instruction

theorem FunctionHeader.always_classicLayout :
    classicLayout.Always fun f => Closed f.1.texts := by
  refine always_text.bind fun name closed => .behind fun count => ?_
  refine (always_text.counted _).bind fun parameters closed' => .behind fun bodySize => .pure ?_
  simpa [Closed, texts] using ⟨closed, closed'⟩

theorem FunctionHeader.always_registersLayout :
    registersLayout.Always fun f => Closed f.1.texts := by
  have always_parameter : parameter.Always fun p => '\x00' ∉ p.name.toList :=
    .behind fun register => always_text.bind fun name closed => .pure closed
  refine always_text.bind fun name closed => .behind fun count => .behind fun registerCount =>
    .behind fun flags => ?_
  refine (always_parameter.counted _).bind fun parameters closed' => .behind fun bodySize =>
    .pure ?_
  simpa [Closed, texts] using ⟨closed, closed'⟩

theorem TryHeader.always_layout : layout.Always fun h => Closed h.texts := by
  refine .behind fun flags => .behind fun bodySize => .behind fun handlerSize =>
    .behind fun finalizerSize => ?_
  -- Only a catch target that is a variable has a text.
  have always_target : ∀ caught inRegister,
      (target caught inRegister).Always fun t => ∀ name, t = some (.named name) →
        '\x00' ∉ name.toList := by
    intro caught inRegister
    unfold target
    split
    · exact .map (.of_forall fun _ => by simp)
    · exact .map (.of_forall fun _ => by simp)
    · exact .map fun _ _ _ read => by simpa using always_text _ _ _ read
  refine (always_target _ _).bind fun t closed => .pure ?_
  rcases t with _ | (index | name)
  · exact closed_nil
  · exact closed_nil
  · exact closed_single (closed name rfl)

namespace Record

theorem always_flowLayouts {code : UInt8} {layout : Scan Record}
    (mem : (code, layout) ∈ flowLayouts) : layout.Always Readable := by
  simp only [flowLayouts, List.mem_cons, Prod.mk.injEq, List.not_mem_nil, or_false] at mem
  rcases mem with ⟨-, rfl⟩ | ⟨-, rfl⟩ | ⟨-, rfl⟩ | ⟨-, rfl⟩ | ⟨-, rfl⟩ | ⟨-, rfl⟩ | ⟨-, rfl⟩
    | ⟨-, rfl⟩ | ⟨-, rfl⟩
  · exact .pure ⟨rfl, closed_nil⟩
  · exact .map (.of_forall fun _ => ⟨rfl, closed_nil⟩)
  · exact .map (.of_forall fun _ => ⟨rfl, closed_nil⟩)
  · exact .map (.of_forall fun _ => ⟨rfl, closed_nil⟩)
  · exact .behind fun frame => .behind fun skip => .pure ⟨rfl, closed_nil⟩
  · exact .map (.of_forall fun _ => ⟨rfl, closed_nil⟩)
  · exact .map fun _ _ _ read => ⟨rfl, TryHeader.always_layout _ _ _ read⟩
  · exact .map fun _ _ _ read => ⟨rfl, FunctionHeader.always_classicLayout _ _ _ read⟩
  · exact .map fun _ _ _ read => ⟨rfl, FunctionHeader.always_registersLayout _ _ _ read⟩

/-- What a table has for a key is one of its entries. -/
theorem mem_of_lookup {α β : Type} [BEq α] [LawfulBEq α] {entries : List (α × β)} {a : α} {b : β}
    (found : entries.lookup a = some b) : (a, b) ∈ entries := by
  obtain ⟨before, behind, rfl, -⟩ := List.lookup_eq_some_iff.mp found
  simp

theorem always_layout? {code : UInt8} {layout : Scan Record} (h : layout? code = some layout) :
    layout.Always Readable := by
  unfold layout? at h
  split at h
  · next flow found =>
    obtain rfl := Option.some.inj h
    exact always_flowLayouts (mem_of_lookup found)
  · obtain ⟨instruction, found, rfl⟩ := Option.map_eq_some_iff.mp h
    exact .map fun _ _ _ read =>
      Instruction.always_layouts (mem_of_lookup found) _ _ _ read

/-- Whatever bytes are read, the record that they are taken for is readable. -/
theorem always_decode : decode.Always Readable := by
  refine .behind fun frame => ?_
  dsimp only
  split
  · next r read =>
    obtain ⟨layout, layout_eq, run_eq⟩ := Option.bind_eq_some_iff.mp read
    exact .pure (always_layout? layout_eq _ _ _ run_eq)
  · exact .failure

/-- A record is read back from its bytes exactly if it is readable. -/
theorem decode_encode_iff {r : Record} {bytes : Bytes} (encoded : r.encode = .ok bytes)
    (rest : Bytes) : decode.run (bytes ++ rest) = some (r, rest) ↔ r.Readable := by
  constructor
  · intro read
    exact always_decode _ _ _ read
  · intro readable
    exact finds_decode readable encoded rest

/-! ## §3 Nobody looks for zero characters -/

/-- One of the texts of the record holds a zero character. -/
def HoldsZero (r : Record) : Prop := ∃ s ∈ r.texts, '\x00' ∈ s.toList

theorem not_closed_iff_holdsZero {r : Record} : ¬ Closed r.texts ↔ r.HoldsZero := by
  simp [Closed, HoldsZero]

/-- A record with a zero character is refused only for its size or its count. -/
theorem refused_iff_of_holdsZero {r : Record} (zero : r.HoldsZero) :
    r.Refused ↔ 65535 < r.count ∨ 65535 < r.payloadSize := by
  obtain ⟨s, hs, -⟩ := zero
  constructor
  · intro refused
    -- The records that are refused for what they are have no texts.
    cases refused with
    | broken note => cases hs
    | unlowered f => cases hs
    | shortData code data short some_data => cases hs
    | count exceeds => exact .inl exceeds
    | size exceeds => exact .inr exceeds
  · rintro (exceeds | exceeds)
    · exact .count exceeds
    · exact .size exceeds

theorem exists_error_iff_refused (out : Bytes) (r : Record) :
    (∃ e, (r.writeTo out).2 = .error e) ↔ r.Refused := by
  rw [← not_iff_not, ← exists_encode_iff, writeTo_eq]
  cases r.encode with
  | ok bytes => simp [Except.map]
  | error e => simp [Except.map]

/-- A zero character in a text is no reason to refuse a record: only its size and its count are.
    A record with such a text that is not too large is written whole, and is never read back from
    its bytes. Two records with the same bytes are the same unless one of them has such a text. -/
theorem zero_character_is_written {r : Record} (zero : r.HoldsZero) (out : Bytes) :
    ((∃ e, (r.writeTo out).2 = .error e) ↔ 65535 < r.count ∨ 65535 < r.payloadSize)
      ∧ (∀ bytes, r.encode = .ok bytes → r.writeTo out = (out ++ bytes, .ok ())
        ∧ ∀ rest, decode.run (bytes ++ rest) ≠ some (r, rest))
      ∧ ∀ (a b : Record) (bytes : Bytes), a.hasLayout = true → b.hasLayout = true →
        a.encode = .ok bytes → b.encode = .ok bytes → a ≠ b → a.HoldsZero ∨ b.HoldsZero := by
  refine ⟨?_, ?_, ?_⟩
  · rw [exists_error_iff_refused, refused_iff_of_holdsZero zero]
  · intro bytes encoded
    constructor
    · rw [writeTo_eq, encoded, (encode_eq_ok_iff.mp encoded).2]
      rfl
    · intro rest
      rw [Ne, decode_encode_iff encoded]
      intro readable
      exact not_closed_iff_holdsZero.mpr zero readable.closed
  · intro a b bytes described described' encoded encoded' different
    -- If both were readable, a reader would have to yield both of them.
    by_contra neither
    rw [not_or, ← not_closed_iff_holdsZero, ← not_closed_iff_holdsZero, not_not, not_not] at neither
    have read := (decode_encode_iff encoded []).mpr ⟨described, neither.1⟩
    rw [(decode_encode_iff encoded' []).mpr ⟨described', neither.2⟩] at read
    exact different (Prod.mk.inj (Option.some.inj read)).1.symm

/-- A pool whose first text ends with a zero character. -/
def zeroInPool : Record := .action (.plain (.constantPool ["a\x00", "b"]))

theorem zeroInPool_is_written :
    zeroInPool.HoldsZero ∧ zeroInPool.writeTo [7]
        = ([7, 0x88, 7, 0, 2, 0, 0x61, 0, 0, 0x62, 0], .ok ())
      ∧ ∀ rest, decode.run ([0x88, 7, 0, 2, 0, 0x61, 0, 0, 0x62, 0] ++ rest)
        ≠ some (zeroInPool, rest) := by
  have zero : zeroInPool.HoldsZero := ⟨"a\x00", by decide, by decide⟩
  have encoded : zeroInPool.encode = .ok [0x88, 7, 0, 2, 0, 0x61, 0, 0, 0x62, 0] := by decide
  obtain ⟨-, written, -⟩ := zero_character_is_written zero [7]
  exact ⟨zero, written _ encoded⟩

/-! ## §4 Records with the same bytes -/

/-- The bytes of a record are a matter of its code and its payload. -/
theorem encode_congr {a b : Record} (code_eq : a.code = b.code)
    (unencodable_eq : a.unencodable? = b.unencodable?) (rawData_eq : a.rawData = b.rawData)
    (name_eq : a.payloadName = b.payloadName) (payload_eq : a.payload = b.payload) :
    a.encode = b.encode := by
  unfold encode write tail
  rw [code_eq, unencodable_eq, rawData_eq, name_eq, payload_eq]

end Record

theorem Bytes.ofText_append (s t : String) : ofText (s ++ t) = ofText s ++ ofText t := by
  simp [ofText]

/-- It cannot be told from the bytes which of two texts a zero character between them belongs to. -/
theorem Bytes.ofTerminatedText_shiftZero (s t u : String) :
    ofTerminatedText (s ++ "\x00" ++ t) ++ ofTerminatedText u
      = ofTerminatedText s ++ ofTerminatedText (t ++ "\x00" ++ u) := by
  have zero : ofText "\x00" = [0] := by decide
  simp [ofTerminatedText, ofText_append, zero]

namespace Record

theorem flatMap_shiftZero (before behind : List String) (s t u : String) :
    (before ++ (s ++ "\x00" ++ t) :: u :: behind).flatMap Bytes.ofTerminatedText
      = (before ++ s :: (t ++ "\x00" ++ u) :: behind).flatMap Bytes.ofTerminatedText := by
  have shifted := Bytes.ofTerminatedText_shiftZero s t u
  simp only [List.flatMap_append, List.flatMap_cons]
  rw [← List.append_assoc (Bytes.ofTerminatedText (s ++ "\x00" ++ t)), shifted, List.append_assoc]

/-- Constant pools and parameter lists in which a zero character stands in the one or in the other
    of two neighbours have the same bytes. -/
theorem encode_shiftZero (before behind : List String) (s t u name : String) (bodySize : UInt16) :
    let one := before ++ (s ++ "\x00" ++ t) :: u :: behind
    let other := before ++ s :: (t ++ "\x00" ++ u) :: behind
    (action (.plain (.constantPool one))).encode = (action (.plain (.constantPool other))).encode
      ∧ (function (.classic name one) bodySize).encode
        = (function (.classic name other) bodySize).encode := by
  intro one other
  have length_eq : one.length = other.length := by simp [one, other]
  have bytes_eq := flatMap_shiftZero before behind s t u
  constructor
  · refine encode_congr rfl rfl rfl rfl ?_
    simp only [payload, Instruction.payload, length_eq, one, other, bytes_eq]
  · refine encode_congr rfl rfl rfl rfl ?_
    simp only [payload, FunctionHeader.payload, length_eq, one, other, bytes_eq]

/-- Two pushed texts have the bytes of one text with two zero characters between them: the second
    zero character passes for the kind byte of a text. -/
theorem encode_push_joinTexts (before behind : List Operand) (s t : String) :
    (action (.plain (.push (before ++ .text (s ++ "\x00\x00" ++ t) :: behind)))).encode
      = (action (.plain (.push (before ++ .text s :: .text t :: behind)))).encode := by
  have zeros : Bytes.ofText "\x00\x00" = [0, 0] := by decide
  refine encode_congr rfl rfl rfl rfl ?_
  simp [payload, Instruction.payload, Operand.bytes, Bytes.ofTerminatedText, Bytes.ofText_append,
    zeros]

/-- A pool, a push and a function header with zero characters in their texts are written all the
    same, and have the bytes of another pool, another push and another function header. -/
theorem zero_characters_collide :
    zeroInPool.HoldsZero
      ∧ (["a\x00", "b"] ≠ ["a", "\x00b"] ∧ ∃ bytes, zeroInPool.encode = .ok bytes
        ∧ (action (.plain (.constantPool ["a", "\x00b"]))).encode = .ok bytes)
      ∧ ([Operand.text "a\x00\x00b"] ≠ [.text "a", .text "b"]
        ∧ ∃ bytes, (action (.plain (.push [.text "a\x00\x00b"]))).encode = .ok bytes
          ∧ (action (.plain (.push [.text "a", .text "b"]))).encode = .ok bytes)
      ∧ (FunctionHeader.classic "f" ["a\x00", "b"] ≠ .classic "f" ["a", "\x00b"]
        ∧ ∃ bytes, (function (.classic "f" ["a\x00", "b"]) 1).encode = .ok bytes
          ∧ (function (.classic "f" ["a", "\x00b"]) 1).encode = .ok bytes) := by
  have pools : zeroInPool.encode = (action (.plain (.constantPool ["a", "\x00b"]))).encode := by
    simpa [zeroInPool] using (encode_shiftZero [] [] "a" "" "b" "f" 1).1
  have pushes : (action (.plain (.push [.text "a\x00\x00b"]))).encode
      = (action (.plain (.push [.text "a", .text "b"]))).encode := by
    simpa using encode_push_joinTexts [] [] "a" "b"
  have headers : (function (.classic "f" ["a\x00", "b"]) 1).encode
      = (function (.classic "f" ["a", "\x00b"]) 1).encode := by
    simpa using (encode_shiftZero [] [] "a" "" "b" "f" 1).2
  rw [← pools, ← headers, ← pushes]
  simp only [and_self]
  exact ⟨⟨"a\x00", by decide, by decide⟩,
    ⟨by decide, [0x88, 7, 0, 2, 0, 0x61, 0, 0, 0x62, 0], by decide⟩,
    ⟨by decide, [0x96, 6, 0, 0, 0x61, 0, 0, 0x62, 0], by decide⟩,
    by decide, [0x9b, 11, 0, 0x66, 0, 2, 0, 0x61, 0, 0, 0x62, 0, 1, 0], by decide⟩

end Record

end ActionFlow
