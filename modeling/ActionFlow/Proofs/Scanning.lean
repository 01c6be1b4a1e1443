import ActionFlow.Graph
import ActionFlow.Proofs.Framing
import Mathlib

/-!
# Scanning fields

A scanner reads a value from the start of a byte string and leaves the bytes behind it. A layout is
a concatenation of fields, and the scanner of a layout is the sequence of the scanners of its
fields: when each of them finds its field whatever follows, so does the sequence.

## Main statements

- `Scan`, `Scan.Finds`: scanners, and the bytes in which a scanner finds a value.
- `Scan.Finds.unique`: no byte string starts with two different findings of one scanner.
- `Scan.number`, `Scan.text`, `Scan.counted`, `Scan.toEnd`: numbers, closed texts, counted items,
  and items up to the end of the input.
-/

namespace ActionFlow

/-! ## §1 Scanners -/

/-- A reader of a value at the start of a byte string; what it leaves is the rest. -/
abbrev Scan := StateT Bytes Option

namespace Scan

variable {α β : Type}

/-- The scanner reads the bytes as the value, whatever follows them. -/
def Finds (d : Scan α) (bytes : Bytes) (x : α) : Prop :=
  ∀ rest, d.run (bytes ++ rest) = some (x, rest)

/-- The scanner reads the value from exactly these bytes. -/
def FindsWhole (d : Scan α) (bytes : Bytes) (x : α) : Prop :=
  d.run bytes = some (x, [])

namespace Finds

variable {d : Scan α} {x y : Bytes} {a b : α}

theorem pure (a : α) : Finds (Pure.pure a) [] a := fun _ => rfl

theorem bind {f : α → Scan β} {c : β} (first : Finds d x a) (second : Finds (f a) y c) :
    Finds (d >>= f) (x ++ y) c := by
  intro rest
  rw [StateT.run_bind, List.append_assoc, first]
  exact second rest

theorem map (f : α → β) (h : Finds d x a) : Finds (f <$> d) x (f a) := by
  intro rest
  rw [StateT.run_map, h]
  rfl

/-- The last field of a layout. -/
theorem last {f : α → β} (h : Finds d x a) : Finds (d >>= fun a => Pure.pure (f a)) x (f a) := by
  rw [bind_pure_comp]
  exact h.map f

theorem whole (h : Finds d x a) : FindsWhole d x a := by
  have nothing := h []
  rwa [List.append_nil] at nothing

/-- What a scanner finds at the start of a byte string is determined by the byte string. -/
theorem unique {s t : Bytes} (hx : Finds d x a) (hy : Finds d y b) (same : x ++ s = y ++ t) :
    s = t ∧ a = b := by
  have found : some (a, s) = some (b, t) := by
    rw [← hx s, same, hy t]
  obtain ⟨rfl, rfl⟩ := Prod.mk.inj (Option.some.inj found)
  exact ⟨rfl, rfl⟩

end Finds

theorem FindsWhole.map {d : Scan α} {x : Bytes} {a : α} (f : α → β) (h : FindsWhole d x a) :
    FindsWhole (f <$> d) x (f a) := by
  unfold FindsWhole at h ⊢
  rw [StateT.run_map, h]
  rfl

/-! ## §2 Bytes and numbers -/

/-- One byte. -/
def byte : Scan UInt8
  | [] => none
  | b :: rest => some (b, rest)

theorem finds_byte (b : UInt8) : byte.Finds [b] b := fun _ => rfl

/-- The given number of bytes. -/
def bytes (n : Nat) : Scan Bytes := fun input =>
  if n ≤ input.length then some (input.take n, input.drop n) else none

theorem finds_bytes {x : Bytes} {n : Nat} (length_eq : x.length = n) : (bytes n).Finds x x := by
  intro rest
  subst length_eq
  simp [bytes, StateT.run]

/-- The number that bytes spell, low byte first. -/
def lowFirst (digits : Bytes) : Nat :=
  digits.foldr (fun b n => b.toNat + 256 * n) 0

/-- A number of the given width in bytes. -/
def number (width : Nat) : Scan Nat :=
  lowFirst <$> bytes width

theorem finds_number {x : Bytes} {width : Nat} (length_eq : x.length = width) :
    (number width).Finds x (lowFirst x) :=
  (finds_bytes length_eq).map lowFirst

theorem lowFirst_ofUInt16 (n : UInt16) : lowFirst (Bytes.ofUInt16 n) = n.toNat :=
  Bytes.word_ofUInt16 n

theorem lowFirst_ofUInt32 (n : UInt32) : lowFirst (Bytes.ofUInt32 n) = n.toNat := by
  have bound := n.toNat_lt
  simp only [lowFirst, Bytes.ofUInt32, List.foldr_cons, List.foldr_nil, UInt32.toNat_toUInt8,
    UInt32.toNat_shiftRight, UInt32.reduceToNat, Nat.reduceMod, Nat.shiftRight_eq_div_pow]
  omega

/-- A 16-bit word. -/
def word : Scan UInt16 :=
  UInt16.ofNat <$> number 2

theorem finds_word (n : UInt16) : word.Finds (Bytes.ofUInt16 n) n := by
  have found := (finds_number (Bytes.length_ofUInt16 n)).map UInt16.ofNat
  rwa [lowFirst_ofUInt16, UInt16.ofNat_toNat] at found

/-- A 32-bit word. -/
def longWord : Scan UInt32 :=
  UInt32.ofNat <$> number 4

theorem finds_longWord (n : UInt32) : longWord.Finds (Bytes.ofUInt32 n) n := by
  have found := (finds_number (Bytes.length_ofUInt32 n)).map UInt32.ofNat
  rwa [lowFirst_ofUInt32, UInt32.ofNat_toNat] at found

/-- A signed 16-bit word. -/
def signedWord : Scan Int16 :=
  UInt16.toInt16 <$> word

theorem finds_signedWord (n : Int16) : signedWord.Finds (Bytes.ofInt16 n) n :=
  (finds_word n.toUInt16).map UInt16.toInt16

/-- A signed 32-bit word. -/
def signedLongWord : Scan Int32 :=
  UInt32.toInt32 <$> longWord

theorem finds_signedLongWord (n : Int32) : signedLongWord.Finds (Bytes.ofInt32 n) n :=
  (finds_longWord n.toUInt32).map UInt32.toInt32

/-- A 64-bit word whose high half comes first. -/
def halves : Scan UInt64 := do
  let high ← longWord
  let low ← longWord
  pure (UInt64.ofNat (low.toNat + 2 ^ 32 * high.toNat))

theorem finds_halves (n : UInt64) : halves.Finds (Bytes.ofUInt64HighFirst n) n := by
  have joined : UInt64.ofNat (n.toUInt32.toNat + 2 ^ 32 * (n >>> 32).toUInt32.toNat) = n := by
    apply UInt64.toNat.inj
    have bound := n.toNat_lt
    simp only [UInt64.toNat_ofNat', UInt64.toNat_toUInt32, UInt64.toNat_shiftRight,
      UInt64.reduceToNat, Nat.reduceMod, Nat.shiftRight_eq_div_pow]
    omega
  have found : halves.Finds (Bytes.ofUInt64HighFirst n)
      (UInt64.ofNat (n.toUInt32.toNat + 2 ^ 32 * (n >>> 32).toUInt32.toNat)) :=
    (finds_longWord _).bind (finds_longWord _).last
  rwa [joined] at found

/-! ## §3 Texts -/

/-- The bytes before the first zero byte, which is passed over. -/
def untilZero : Scan Bytes := fun input =>
  match input.dropWhile (· ≠ 0) with
  | [] => none
  | _ :: rest => some (input.takeWhile (· ≠ 0), rest)

theorem finds_untilZero {x : Bytes} (h : (0 : UInt8) ∉ x) : untilZero.Finds (x ++ [0]) x := by
  intro rest
  have nonzero : ∀ b ∈ x, decide (b ≠ 0) = true := by
    intro b hb
    simpa using ne_of_mem_of_not_mem hb h
  have behind : (x ++ [0] ++ rest).dropWhile (· ≠ 0) = 0 :: rest := by
    rw [List.append_assoc, List.dropWhile_append_of_pos nonzero]
    simp
  have before : (x ++ [0] ++ rest).takeWhile (· ≠ 0) = x := by
    rw [List.append_assoc, List.takeWhile_append_of_pos nonzero]
    simp
  simp only [untilZero, StateT.run, behind, before]

/-- A text up to its closing zero byte. -/
def text : Scan String := do
  let front ← untilZero
  match front.toByteArray.utf8Decode? with
  | some chars => pure (String.ofList chars.toList)
  | none => failure

end Scan

namespace Bytes

/-- Only the zero character is spelled with a zero byte. -/
theorem zero_not_mem_utf8EncodeChar {c : Char} (h : c ≠ '\x00') :
    (0 : UInt8) ∉ String.utf8EncodeChar c := by
  have positive : c.val.toNat ≠ 0 := by
    intro zero
    apply h
    apply Char.ext
    exact UInt32.toNat.inj zero
  -- One case for each length: in a longer encoding every byte has its high bit set.
  fun_cases String.utf8EncodeChar
  all_goals
    simp only [List.mem_cons, List.not_mem_nil, or_false, ← UInt8.toNat_inj]
    simp
    omega

theorem zero_not_mem_ofText {s : String} (h : '\x00' ∉ s.toList) : (0 : UInt8) ∉ ofText s := by
  intro zero
  obtain ⟨c, hc, spelled⟩ := List.mem_flatMap.mp zero
  exact zero_not_mem_utf8EncodeChar (ne_of_mem_of_not_mem hc h) spelled

end Bytes

namespace Scan

variable {α β : Type}

/-- A text without zero characters is read back from its closed form. -/
theorem finds_text {s : String} (h : '\x00' ∉ s.toList) :
    text.Finds (Bytes.ofTerminatedText s) s := by
  have decoded : (Bytes.ofText s).toByteArray.utf8Decode? = some s.toList.toArray := by
    exact List.utf8Decode?_utf8Encode
  have last := Finds.pure s
  rw [← List.append_nil (Bytes.ofTerminatedText s)]
  -- The first zero byte is the closing one, so exactly the bytes of the text are decoded.
  refine (finds_untilZero (Bytes.zero_not_mem_ofText h)).bind ?_
  rw [decoded]
  simpa using last

/-! ## §4 Items -/

/-- The given number of items. -/
def counted (d : Scan α) : Nat → Scan (List α)
  | 0 => pure []
  | n + 1 => do
    let x ← d
    let xs ← counted d n
    pure (x :: xs)

theorem finds_counted {d : Scan α} {encode : α → Bytes} {items : List α}
    (each : ∀ x ∈ items, d.Finds (encode x) x) :
    (counted d items.length).Finds (items.flatMap encode) items := by
  induction items with
  | nil => exact .pure []
  | cons x xs ih =>
    have others := ih fun y hy => each y (List.mem_cons_of_mem _ hy)
    exact (each x List.mem_cons_self).bind others.last

/-- Items whose count is stored as a word. -/
theorem finds_countedWord {d : Scan α} {encode : α → Bytes} {items : List α}
    (fits : items.length ≤ 65535) (each : ∀ x ∈ items, d.Finds (encode x) x) :
    (counted d (UInt16.ofNat items.length).toNat).Finds (items.flatMap encode) items := by
  rw [UInt16.toNat_ofNat_of_lt' (Nat.lt_succ_of_le fits)]
  exact finds_counted each

/-- Items up to the end of the input, each of which takes at least one byte. -/
def toEnd (d : Scan α) (input : Bytes) : Option (List α × Bytes) :=
  if input = [] then some ([], [])
  else
    match d.run input with
    | none => none
    | some (x, rest) =>
      if rest.length < input.length then (toEnd d rest).map fun (xs, left) => (x :: xs, left)
      else none
termination_by input.length

theorem findsWhole_toEnd {d : Scan α} {encode : α → Bytes} {items : List α}
    (each : ∀ x ∈ items, d.Finds (encode x) x) (nonempty : ∀ x, encode x ≠ []) :
    FindsWhole (toEnd d) (items.flatMap encode) items := by
  unfold FindsWhole StateT.run
  induction items with
  | nil => simp [toEnd]
  | cons x xs ih =>
    have others := ih fun y hy => each y (List.mem_cons_of_mem _ hy)
    -- The scanner only goes on if it has moved.
    have shorter : (xs.flatMap encode).length < (encode x ++ xs.flatMap encode).length := by
      have := List.length_pos_iff.mpr (nonempty x)
      rw [List.length_append]
      omega
    rw [List.flatMap_cons, toEnd, if_neg (by simp [nonempty x])]
    rw [each x List.mem_cons_self]
    simp only [shorter, if_true, others, Option.map_some]

end Scan

/-! ## §5 Flags -/

/-- A flag is the bit at its place. -/
theorem testBit_ofFlags (flags : List Bool) (i : Nat) :
    (Bytes.ofFlags flags).testBit i = flags.getD i false := by
  induction flags generalizing i with
  | nil => simp [Bytes.ofFlags]
  | cons b flags ih =>
    have step : Bytes.ofFlags (b :: flags) = b.toNat + 2 * Bytes.ofFlags flags := rfl
    cases i with
    | zero => cases b <;> simp [step, Nat.testBit_zero]
    | succ i =>
      -- Half of the number holds the flags behind the first.
      rw [Nat.testBit_succ, step, List.getD_cons_succ, ← ih]
      congr 1
      cases b <;> simp
      omega

theorem ofFlags_lt (flags : List Bool) : Bytes.ofFlags flags < 2 ^ flags.length := by
  induction flags with
  | nil => simp [Bytes.ofFlags]
  | cons b flags ih =>
    have step : Bytes.ofFlags (b :: flags) = b.toNat + 2 * Bytes.ofFlags flags := rfl
    rw [step, List.length_cons, Nat.pow_succ]
    cases b <;> simp <;> omega

/-- Up to eight flags are kept in a byte. -/
theorem testBit_flagByte {flags : List Bool} (few : flags.length ≤ 8) (i : Nat) :
    (UInt8.ofNat (Bytes.ofFlags flags)).toNat.testBit i = flags.getD i false := by
  have bound : Bytes.ofFlags flags < 2 ^ 8 :=
    (ofFlags_lt flags).trans_le (Nat.pow_le_pow_right (by decide) few)
  rw [UInt8.toNat_ofNat_of_lt' bound, testBit_ofFlags]

/-- Up to sixteen flags are kept in a word. -/
theorem testBit_flagWord {flags : List Bool} (few : flags.length ≤ 16) (i : Nat) :
    (UInt16.ofNat (Bytes.ofFlags flags)).toNat.testBit i = flags.getD i false := by
  have bound : Bytes.ofFlags flags < 2 ^ 16 :=
    (ofFlags_lt flags).trans_le (Nat.pow_le_pow_right (by decide) few)
  rw [UInt16.toNat_ofNat_of_lt' bound, testBit_ofFlags]

end ActionFlow
