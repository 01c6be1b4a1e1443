import ActionFlow.Json.Container
import ActionFlow.Json.Render
import Mathlib

/-!
# Texts and numerals are read back

What is written for a text or an integer is read back as it was. A text is delimited by its closing
quote, so anything may follow; the digits of an integer end where something follows that is no
digit, as a comma or a closing bracket does.

## Main statements

- `Reader.Takes`, `Reader.Reads`: a reader finds a value, whatever follows or in front of a
  separator.
- `Reader.takes_text`: every text is read back from between its quotes.
- `Reader.reads_numeral`: every integer of 64 bits is read back from its digits.
-/

namespace ActionFlow.Json

/-! ## §1 What a reader finds -/

/-- What may follow a value: the end of the text, a comma, or a closing bracket. -/
def Closes (rest : List Char) : Prop :=
  ∀ c ∈ rest.head?, c = ',' ∨ c = ']' ∨ c = '\x7d'

theorem closes_nil : Closes [] := by
  intro c hc
  cases hc

theorem closes_comma (rest : List Char) : Closes (',' :: rest) := by
  intro c hc
  obtain rfl := Option.some.inj hc
  exact .inl rfl

theorem closes_list (rest : List Char) : Closes (']' :: rest) := by
  intro c hc
  obtain rfl := Option.some.inj hc
  exact .inr (.inl rfl)

theorem closes_object (rest : List Char) : Closes ('\x7d' :: rest) := by
  intro c hc
  obtain rfl := Option.some.inj hc
  exact .inr (.inr rfl)

namespace Reader

variable {α β : Type}

/-- The reader takes the characters as the value, whatever follows them. -/
def Takes (x : Reader α) (s : List Char) (a : α) : Prop :=
  ∀ rest, x.run (s ++ rest) = .ok (a, rest)

/-- The reader takes the characters as the value where a value ends behind them. -/
def Reads (x : Reader α) (s : List Char) (a : α) : Prop :=
  ∀ rest, Closes rest → x.run (s ++ rest) = .ok (a, rest)

theorem Takes.reads {x : Reader α} {s : List Char} {a : α} (h : Takes x s a) : Reads x s a :=
  fun rest _ => h rest

theorem Takes.bind_reads {x : Reader α} {f : α → Reader β} {s t : List Char} {a : α} {b : β}
    (first : Takes x s a) (second : Reads (f a) t b) : Reads (x >>= f) (s ++ t) b := by
  intro rest closes
  rw [run_bind, List.append_assoc, first]
  exact second rest closes

/-- A reader that goes on without reading. -/
theorem Reads.bind_pure {x : Reader α} {f : α → β} {s : List Char} {a : α} (h : Reads x s a) :
    Reads (x >>= fun a => pure (f a)) s (f a) := by
  intro rest closes
  rw [run_bind, h rest closes]
  rfl

theorem Reads.map {x : Reader α} {s : List Char} {a : α} (f : α → β) (h : Reads x s a) :
    Reads (f <$> x) s (f a) :=
  h.bind_pure

theorem run_peekToken {c : Char} (h : isBlank c = false) (s : List Char) :
    peekToken.run (c :: s) = .ok (some c, c :: s) := by
  have kept : skipBlanks (c :: s) = c :: s := by simp [skipBlanks, h]
  simp only [peekToken, run_bind, blanks, kept]
  rfl

/-- Looking at the next character takes nothing. -/
theorem run_peekToken_bind {c : Char} (h : isBlank c = false) (f : Option Char → Reader α)
    (s : List Char) : (peekToken >>= f).run (c :: s) = (f (some c)).run (c :: s) := by
  rw [run_bind, run_peekToken h]

end Reader

/-! ## §2 Texts -/

theorem hexValue4?_control {n : Nat} (h : n < 32) :
    hexValue4? '0' '0' (hexChar (n / 16)) (hexChar (n % 16)) = some n := by
  revert n
  decide

/-- A character is read back from the way it is written inside a text. -/
theorem textTail_escapedChar (found : List Char) (c : Char) (rest : List Char) :
    textTail found (escapedChar c ++ rest) = textTail (c :: found) rest := by
  unfold escapedChar
  split_ifs with quote backslash backspace feed newline ret tab control
  rotate_left 7
  · -- The other control characters are written by their number, which is no surrogate.
    have small : c.toNat < 32 := control
    have low : isLowSurrogate c.toNat = false := by
      simp [isLowSurrogate]
      omega
    have high : isHighSurrogate c.toNat = false := by
      simp [isHighSurrogate]
      omega
    simp only [List.cons_append, List.nil_append, textTail, hexValue4?_control small, low, high,
      Bool.false_eq_true, if_false, Char.ofNat_toNat]
  · rw [List.singleton_append, textTail.eq_def]
    split <;> simp_all
  -- What is left are the characters with an escape of their own.
  all_goals
    subst c
    simp [textTail, escapeLetter?]

theorem textTail_escaped (found : List Char) (cs rest : List Char) :
    textTail found (cs.flatMap escapedChar ++ '"' :: rest)
      = .ok (String.ofList (found.reverse ++ cs), rest) := by
  induction cs generalizing found with
  | nil => simp [textTail]
  | cons c cs ih =>
    rw [List.flatMap_cons, List.append_assoc, textTail_escapedChar, ih]
    simp

/-- A text is read back from between its quotes. -/
theorem textTail_textChars (s : String) (rest : List Char) :
    textTail [] ((textChars s).tail ++ rest) = .ok (s, rest) := by
  have tail_eq : (textChars s).tail ++ rest = s.toList.flatMap escapedChar ++ '"' :: rest := by
    simp [textChars]
  rw [tail_eq, textTail_escaped]
  simp

theorem Reader.takes_text (s : String) : Takes Reader.text (textChars s) s :=
  textTail_textChars s

/-! ## §3 Integers -/

theorem isDigit_of_mem_toDigits {n : Nat} {c : Char} (h : c ∈ Nat.toDigits 10 n) :
    isDigit c = true :=
  Nat.isDigit_of_mem_toDigits (by decide) (by decide) h

/-- A positive number does not start with a zero. -/
theorem toDigits_eq_cons {n : Nat} (positive : 0 < n) :
    ∃ c ds, Nat.toDigits 10 n = c :: ds ∧ c ≠ '0' := by
  induction n using Nat.strong_induction_on with
  | _ n ih =>
    by_cases small : n < 10
    · refine ⟨n.digitChar, [], Nat.toDigits_of_lt_base small, ?_⟩
      rw [Ne, Nat.digitChar_eq_zero]
      omega
    · -- The digits go on from those of the tenth part.
      obtain ⟨c, ds, digits_eq, nonzero⟩ := ih (n / 10) (by omega) (by omega)
      refine ⟨c, ds ++ [(n % 10).digitChar], ?_, nonzero⟩
      rw [Nat.toDigits_of_base_le (by decide) (by omega), digits_eq]
      rfl

theorem le_ofDigitChars (ds : List Char) (init : Nat) : init ≤ Nat.ofDigitChars 10 ds init := by
  rw [Nat.ofDigitChars_eq_ofDigitChars_zero]
  exact (Nat.le_mul_of_pos_left init (by positivity)).trans (Nat.le_add_right _ _)

/-- All digits are collected when the number fits. -/
theorem collectDigits_append {ds rest : List Char} (digits : ∀ c ∈ ds, isDigit c = true)
    (stops : ∀ c ∈ rest.head?, isDigit c = false) {significand : Nat} (kept : Nat)
    (fits : Nat.ofDigitChars 10 ds significand < 0x10000000000000000) :
    collectDigits significand kept (ds ++ rest)
      = ⟨Nat.ofDigitChars 10 ds significand, kept + ds.length, 0, rest⟩ := by
  induction ds generalizing significand kept with
  | nil =>
    cases rest with
    | nil => rfl
    | cons c rest => simp [collectDigits, stops c rfl]
  | cons c ds ih =>
    have value_eq : 10 * significand + (c.toNat - '0'.toNat) = significand * 10 + digitValue c := by
      rw [Nat.mul_comm]
      rfl
    rw [Nat.ofDigitChars_cons, value_eq] at fits ⊢
    -- The digits so far spell no more than all digits do, so none of them is dropped.
    have next : fitsWord (significand * 10 + digitValue c) = true := by
      simpa [fitsWord] using (le_ofDigitChars ds _).trans_lt fits
    rw [List.cons_append, collectDigits, if_pos (digits c List.mem_cons_self)]
    simp only [next, if_true]
    rw [ih (fun d hd => digits d (List.mem_cons_of_mem _ hd)) (kept + 1) fits, List.length_cons]
    congr 1
    omega

theorem Closes.not_digit {rest : List Char} (h : Closes rest) :
    ∀ c ∈ rest.head?, isDigit c = false := by
  intro c hc
  obtain rfl | rfl | rfl := h c hc <;> rfl

/-- A whole number ends where a value ends. -/
theorem afterWhole_of_closes {negative : Bool} {significand kept : Nat} {rest : List Char}
    (h : Closes rest) :
    afterWhole negative ⟨significand, kept, 0, rest⟩
      = .ok (wholeValue negative significand, rest) := by
  cases rest with
  | nil => rfl
  | cons c rest => obtain rfl | rfl | rfl := h c rfl <;> rfl

theorem numeralTail_toDigits {n : Nat} (fits : n < 0x10000000000000000) (negative : Bool)
    {rest : List Char} (closes : Closes rest) :
    numeralTail negative (Nat.toDigits 10 n ++ rest) = .ok (wholeValue negative n, rest) := by
  by_cases zero : n = 0
  · -- Zero is the only number that starts with the digit zero.
    subst zero
    rw [Nat.toDigits_zero, List.singleton_append]
    cases rest with
    | nil => rfl
    | cons c rest =>
      simp only [numeralTail, closes.not_digit c rfl, Bool.false_eq_true, if_false]
      exact afterWhole_of_closes closes
  · obtain ⟨c, ds, digits_eq, nonzero⟩ := toDigits_eq_cons (Nat.pos_of_ne_zero zero)
    have digits : ∀ d ∈ c :: ds, isDigit d = true := by
      intro d hd
      rw [← digits_eq] at hd
      exact isDigit_of_mem_toDigits hd
    have value_eq : Nat.ofDigitChars 10 ds (digitValue c) = n := by
      have whole := Nat.ofDigitChars_ten_toDigits (n := n)
      rwa [digits_eq, Nat.ofDigitChars_cons, Nat.mul_zero, Nat.zero_add] at whole
    have collected := collectDigits_append (fun d hd => digits d (List.mem_cons_of_mem _ hd))
      closes.not_digit 1 (value_eq.trans_lt fits)
    rw [digits_eq, List.cons_append, numeralTail.eq_def]
    split
    · next heq => cases heq
    · next heq => exact absurd (List.cons.inj heq).1 nonzero
    · next c' s _ heq =>
      obtain ⟨rfl, rfl⟩ := List.cons.inj heq
      rw [if_pos (digits c List.mem_cons_self), collected, afterWhole_of_closes closes, value_eq]

/-- An integer that a numeral can stand for. -/
def IsWhole (n : Int) : Prop := -0x8000000000000000 ≤ n ∧ n < 0x10000000000000000

theorem Reader.reads_numeral {n : Int} (whole : IsWhole n) :
    Reads Reader.numeral (integerChars n) (.integer n) := by
  intro rest closes
  unfold IsWhole at whole
  unfold integerChars
  by_cases negative : n < 0
  · rw [if_pos negative]
    have value_eq : wholeValue true n.natAbs = .integer n := by
      unfold wholeValue
      rw [if_neg (by simp), if_neg (by omega)]
      congr 1
      omega
    rw [← value_eq]
    exact numeralTail_toDigits (by omega) true closes
  · rw [if_neg negative]
    have value_eq : wholeValue false n.natAbs = .integer n := by
      unfold wholeValue
      rw [if_pos (by simp)]
      congr 1
      omega
    have unsigned : takeSign (Nat.toDigits 10 n.natAbs ++ rest)
        = (false, Nat.toDigits 10 n.natAbs ++ rest) := by
      have nonempty : Nat.toDigits 10 n.natAbs ≠ [] := Nat.toDigits_ne_nil
      obtain ⟨c, ds, digits_eq⟩ := List.exists_cons_of_ne_nil nonempty
      have digit : isDigit c = true := isDigit_of_mem_toDigits (n := n.natAbs) (by simp [digits_eq])
      rw [digits_eq, List.cons_append, takeSign.eq_def]
      split
      · next heq =>
        obtain ⟨rfl, -⟩ := List.cons.inj heq
        cases digit
      · rfl
    rw [← value_eq]
    simp only [Reader.numeral, unsigned]
    exact numeralTail_toDigits (by omega) false closes

end ActionFlow.Json
