import ActionFlow.Json.Reader

/-!
# Numerals

A numeral is a whole part, an optional fraction and an optional exponent. Without fraction and
exponent it is an integer if it fits 64 bits; minus zero and everything else is a number with a
floating point.

Digits are collected in a significand of 64 bits. Once a digit does not fit, further digits of the
whole part only raise the exponent, and further digits of the fraction are dropped.

- `numeralTail`: a numeral after its sign.
- `skipNumeralTail`: the same without its value, which is therefore never out of range.
-/

namespace ActionFlow.Json

open Number (Double)

/-- The value of a numeral. -/
inductive Numeral where
  | integer (value : Int)
  | double (value : Double)
deriving DecidableEq, Repr

/-- Whether a character is a decimal digit. -/
def isDigit (c : Char) : Bool := '0' ≤ c && c ≤ '9'

/-- The value of a decimal digit. -/
def digitValue (c : Char) : Nat := c.toNat - '0'.toNat

/-- Whether a significand fits 64 bits. -/
def fitsWord (n : Nat) : Bool := n < 0x10000000000000000

/-- Digits at the front of a text. -/
structure Digits where
  /-- The significand with the digits that fit. -/
  significand : Nat
  /-- Number of digits in the significand. -/
  kept : Nat
  /-- Number of digits that did not fit. -/
  dropped : Nat
  rest : List Char
deriving Repr

/-- Adds digits to a significand, up to the first one that does not fit. -/
def collectDigits (significand kept : Nat) : List Char → Digits
  | [] => ⟨significand, kept, 0, []⟩
  | c :: s =>
    if isDigit c then
      let next := significand * 10 + digitValue c
      if fitsWord next then collectDigits next (kept + 1) s
      else ⟨significand, kept, ((c :: s).takeWhile isDigit).length, (c :: s).dropWhile isDigit⟩
    else ⟨significand, kept, 0, c :: s⟩

/-- The number with a given significand and exponent. -/
def finishDouble (negative : Bool) (significand : Nat) (exponent : Int) (s : List Char) :
    Outcome Numeral :=
  match Double.ofDecimal? negative significand exponent with
  | some x => .ok (.double x, s)
  | none => .error ⟨.numberOutOfRange, s, some 0⟩

/-- An exponent within the range of 32 bits. -/
def clampExponent (e : Int) : Int := max (-2147483648) (min 2147483647 e)

/-- The digits of an exponent after the first one. An exponent that does not fit 32 bits makes the
    number zero, or puts it out of range if it is positive and the significand is not zero. -/
def exponentDigits (negative : Bool) (significand : Nat) (start : Int) (down : Bool)
    (exponent : Nat) : List Char → Outcome Numeral
  | [] => finish []
  | c :: s =>
    if isDigit c then
      let next := exponent * 10 + digitValue c
      if next ≤ 2147483647 then exponentDigits negative significand start down next s
      else if significand ≠ 0 ∧ ¬down then .error ⟨.numberOutOfRange, s, some 0⟩
      else .ok (.double (Double.ofParts negative 0), s.dropWhile isDigit)
    else finish (c :: s)
where
  /-- The number when all digits of the exponent are known. -/
  finish (s : List Char) : Outcome Numeral :=
    let written : Int := if down then -exponent else exponent
    finishDouble negative significand (clampExponent (start + written)) s

/-- The first digit of an exponent. -/
def exponentStart (negative : Bool) (significand : Nat) (start : Int) (down : Bool) :
    List Char → Outcome Numeral
  | [] => .error ⟨.endInValue, [], some 0⟩
  | c :: s =>
    if isDigit c then exponentDigits negative significand start down (digitValue c) s
    else .error ⟨.invalidNumber, c :: s, some 1⟩

/-- An exponent after its mark. -/
def exponentTail (negative : Bool) (significand : Nat) (start : Int) :
    List Char → Outcome Numeral
  | '+' :: s => exponentStart negative significand start false s
  | '-' :: s => exponentStart negative significand start true s
  | s => exponentStart negative significand start false s

/-- What may follow the digits of a number with a floating point. -/
def afterFraction (negative : Bool) (significand : Nat) (exponent : Int) :
    List Char → Outcome Numeral
  | 'e' :: s => exponentTail negative significand exponent s
  | 'E' :: s => exponentTail negative significand exponent s
  | s => finishDouble negative significand exponent s

/-- A fraction after its point. -/
def fractionTail (negative : Bool) (significand : Nat) (exponent : Int) (s : List Char) :
    Outcome Numeral :=
  match s with
  | [] => .error ⟨.endInValue, [], some 0⟩
  | c :: _ =>
    if isDigit c then
      let ds := collectDigits significand 0 s
      afterFraction negative ds.significand (exponent - ds.kept) ds.rest
    else .error ⟨.invalidNumber, s, some 1⟩

/-- The value of a whole number; minus zero and numbers below the range are no integers. -/
def wholeValue (negative : Bool) (significand : Nat) : Numeral :=
  if ¬negative then .integer significand
  else if significand = 0 ∨ 0x8000000000000000 < significand then
    .double (Double.ofParts true (Number.double.round ⟨significand, 1⟩))
  else .integer (-significand)

/-- What may follow the whole part. -/
def afterWhole (negative : Bool) (ds : Digits) : Outcome Numeral :=
  match ds.rest with
  | '.' :: s => fractionTail negative ds.significand ds.dropped s
  | 'e' :: s => exponentTail negative ds.significand ds.dropped s
  | 'E' :: s => exponentTail negative ds.significand ds.dropped s
  | s =>
    if ds.dropped = 0 then .ok (wholeValue negative ds.significand, s)
    else finishDouble negative ds.significand ds.dropped s

/-- A numeral after its sign. -/
def numeralTail (negative : Bool) : List Char → Outcome Numeral
  | [] => .error ⟨.endInValue, [], some 0⟩
  | '0' :: s =>
    match s with
    | c :: _ =>
      if isDigit c then .error ⟨.invalidNumber, s, some 1⟩
      else afterWhole negative ⟨0, 1, 0, s⟩
    | [] => afterWhole negative ⟨0, 1, 0, s⟩
  | c :: s =>
    if isDigit c then afterWhole negative (collectDigits (digitValue c) 1 s)
    else .error ⟨.invalidNumber, c :: s, some 1⟩

/-! ## Numerals that are passed over -/

/-- Digits after at least one of them. -/
def skipExponentStart : List Char → Outcome Unit
  | [] => .error ⟨.invalidNumber, [], some 0⟩
  | c :: s =>
    if isDigit c then .ok ((), s.dropWhile isDigit) else .error ⟨.invalidNumber, c :: s, some 1⟩

/-- An exponent after its mark. -/
def skipExponentTail : List Char → Outcome Unit
  | '+' :: s => skipExponentStart s
  | '-' :: s => skipExponentStart s
  | s => skipExponentStart s

/-- What may follow a fraction. -/
def skipAfterFraction : List Char → Outcome Unit
  | 'e' :: s => skipExponentTail s
  | 'E' :: s => skipExponentTail s
  | s => .ok ((), s)

/-- A fraction after its point. -/
def skipFractionTail (s : List Char) : Outcome Unit :=
  match s with
  | [] => .error ⟨.invalidNumber, [], some 1⟩
  | c :: t =>
    if isDigit c then skipAfterFraction (t.dropWhile isDigit)
    else .error ⟨.invalidNumber, s, some 1⟩

/-- What may follow the whole part. -/
def skipAfterWhole : List Char → Outcome Unit
  | '.' :: s => skipFractionTail s
  | s => skipAfterFraction s

/-- A numeral that is passed over, after its sign. -/
def skipNumeralTail : List Char → Outcome Unit
  | [] => .error ⟨.invalidNumber, [], some 0⟩
  | '0' :: s =>
    match s with
    | c :: _ => if isDigit c then .error ⟨.invalidNumber, s, some 1⟩ else skipAfterWhole s
    | [] => skipAfterWhole s
  | c :: s =>
    if isDigit c then skipAfterWhole (s.dropWhile isDigit)
    else .error ⟨.invalidNumber, c :: s, some 1⟩

/-! ## Readers never lengthen the text -/

theorem length_dropDigits_le (s : List Char) : (s.dropWhile isDigit).length ≤ s.length :=
  (List.dropWhile_suffix _).length_le

theorem length_collectDigits_le (significand kept : Nat) (s : List Char) :
    (collectDigits significand kept s).rest.length ≤ s.length := by
  fun_induction collectDigits significand kept s with
  | case1 => simp
  | case2 => simp only [List.length_cons]; omega
  | case3 _ _ c s => exact length_dropDigits_le (c :: s)
  | case4 => simp

theorem length_finishDouble_le {negative : Bool} {significand : Nat} {exponent : Int}
    {s r : List Char} {n : Numeral}
    (h : finishDouble negative significand exponent s = .ok (n, r)) : r.length ≤ s.length := by
  unfold finishDouble at h
  split at h <;> cases h
  exact Nat.le_refl _

theorem length_exponentDigits_le {negative : Bool} {significand : Nat} {start : Int}
    {down : Bool} {exponent : Nat} {s r : List Char} {n : Numeral}
    (h : exponentDigits negative significand start down exponent s = .ok (n, r)) :
    r.length ≤ s.length := by
  fun_induction exponentDigits negative significand start down exponent s with
  | case1 => exact length_finishDouble_le h
  | case2 _ _ _ _ _ _ ih => exact Nat.le_trans (ih h) (Nat.le_succ _)
  | case3 => cases h
  | case4 _ _ s =>
    cases h
    exact Nat.le_trans (length_dropDigits_le s) (Nat.le_succ _)
  | case5 => exact length_finishDouble_le h

theorem length_exponentStart_le {negative : Bool} {significand : Nat} {start : Int}
    {down : Bool} {s r : List Char} {n : Numeral}
    (h : exponentStart negative significand start down s = .ok (n, r)) :
    r.length ≤ s.length := by
  unfold exponentStart at h
  split at h
  · cases h
  · split at h
    · exact Nat.le_trans (length_exponentDigits_le h) (Nat.le_succ _)
    · cases h

theorem length_exponentTail_le {negative : Bool} {significand : Nat} {start : Int}
    {s r : List Char} {n : Numeral}
    (h : exponentTail negative significand start s = .ok (n, r)) : r.length ≤ s.length := by
  unfold exponentTail at h
  split at h
  · exact Nat.le_trans (length_exponentStart_le h) (Nat.le_succ _)
  · exact Nat.le_trans (length_exponentStart_le h) (Nat.le_succ _)
  · exact length_exponentStart_le h

theorem length_afterFraction_le {negative : Bool} {significand : Nat} {exponent : Int}
    {s r : List Char} {n : Numeral}
    (h : afterFraction negative significand exponent s = .ok (n, r)) : r.length ≤ s.length := by
  unfold afterFraction at h
  split at h
  · exact Nat.le_trans (length_exponentTail_le h) (Nat.le_succ _)
  · exact Nat.le_trans (length_exponentTail_le h) (Nat.le_succ _)
  · exact length_finishDouble_le h

theorem length_fractionTail_le {negative : Bool} {significand : Nat} {exponent : Int}
    {s r : List Char} {n : Numeral}
    (h : fractionTail negative significand exponent s = .ok (n, r)) : r.length ≤ s.length := by
  unfold fractionTail at h
  split at h
  · cases h
  · split at h
    · exact Nat.le_trans (length_afterFraction_le h) (length_collectDigits_le _ _ _)
    · cases h

theorem length_afterWhole_le {negative : Bool} {ds : Digits} {r : List Char} {n : Numeral}
    (h : afterWhole negative ds = .ok (n, r)) : r.length ≤ ds.rest.length := by
  unfold afterWhole at h
  split at h
  · next heq => rw [heq]; exact Nat.le_trans (length_fractionTail_le h) (Nat.le_succ _)
  · next heq => rw [heq]; exact Nat.le_trans (length_exponentTail_le h) (Nat.le_succ _)
  · next heq => rw [heq]; exact Nat.le_trans (length_exponentTail_le h) (Nat.le_succ _)
  · split at h
    · cases h; exact Nat.le_refl _
    · exact length_finishDouble_le h

theorem length_numeralTail_lt {negative : Bool} {s r : List Char} {n : Numeral}
    (h : numeralTail negative s = .ok (n, r)) : r.length < s.length := by
  unfold numeralTail at h
  split at h
  · cases h
  · split at h
    · split at h
      · cases h
      · exact Nat.lt_succ_of_le (length_afterWhole_le h)
    · exact Nat.lt_succ_of_le (length_afterWhole_le h)
  · split at h
    · exact Nat.lt_succ_of_le (Nat.le_trans (length_afterWhole_le h) (length_collectDigits_le _ _ _))
    · cases h

theorem length_skipExponentTail_le {s r : List Char} {u : Unit}
    (h : skipExponentTail s = .ok (u, r)) : r.length ≤ s.length := by
  have start : ∀ {t : List Char}, skipExponentStart t = .ok (u, r) → r.length ≤ t.length := by
    intro t ht
    unfold skipExponentStart at ht
    split at ht
    · cases ht
    · split at ht <;> cases ht
      exact Nat.le_trans (length_dropDigits_le _) (Nat.le_succ _)
  unfold skipExponentTail at h
  split at h
  · exact Nat.le_trans (start h) (Nat.le_succ _)
  · exact Nat.le_trans (start h) (Nat.le_succ _)
  · exact start h

theorem length_skipAfterFraction_le {s r : List Char} {u : Unit}
    (h : skipAfterFraction s = .ok (u, r)) : r.length ≤ s.length := by
  unfold skipAfterFraction at h
  split at h
  · exact Nat.le_trans (length_skipExponentTail_le h) (Nat.le_succ _)
  · exact Nat.le_trans (length_skipExponentTail_le h) (Nat.le_succ _)
  · cases h; exact Nat.le_refl _

theorem length_skipAfterWhole_le {s r : List Char} {u : Unit}
    (h : skipAfterWhole s = .ok (u, r)) : r.length ≤ s.length := by
  unfold skipAfterWhole at h
  split at h
  · unfold skipFractionTail at h
    split at h
    · cases h
    · split at h
      · have := Nat.le_trans (length_skipAfterFraction_le h) (length_dropDigits_le _)
        simp only [List.length_cons]
        omega
      · cases h
  · exact length_skipAfterFraction_le h

theorem length_skipNumeralTail_lt {s r : List Char} {u : Unit}
    (h : skipNumeralTail s = .ok (u, r)) : r.length < s.length := by
  unfold skipNumeralTail at h
  split at h
  · cases h
  · split at h
    · split at h
      · cases h
      · exact Nat.lt_succ_of_le (length_skipAfterWhole_le h)
    · exact Nat.lt_succ_of_le (length_skipAfterWhole_le h)
  · split at h
    · exact Nat.lt_succ_of_le (Nat.le_trans (length_skipAfterWhole_le h) (length_dropDigits_le _))
    · cases h

/-- A text without the minus sign at its front, and whether there was one. -/
def takeSign : List Char → Bool × List Char
  | '-' :: s => (true, s)
  | s => (false, s)

theorem length_takeSign_le (s : List Char) : (takeSign s).2.length ≤ s.length := by
  unfold takeSign
  split
  · exact Nat.le_succ _
  · exact Nat.le_refl _

namespace Reader

/-- A numeral, whose sign or first digit is next. -/
def numeral : Reader Numeral where
  run s := numeralTail (takeSign s).1 (takeSign s).2
  shrinks s _ _ h :=
    Nat.le_trans (Nat.le_of_lt (length_numeralTail_lt h)) (length_takeSign_le s)

end Reader

end ActionFlow.Json
