import ActionFlow.Json.Reader

/-!
# Text between quotes

A text ends at the first quote that no backslash stands before. Escapes are a letter after a
backslash, or `u` and four hexadecimal digits; two such escapes that form a surrogate pair stand
for one character.

- `textTail`: the characters of a text, after its opening quote.
- `skipTextTail`: the same without keeping the characters; it does not look at surrogates, and it
  stops in front of a control character instead of behind it.
-/

namespace ActionFlow.Json

/-- The value of a hexadecimal digit of either case. -/
def hexValue? (c : Char) : Option Nat :=
  if '0' ≤ c ∧ c ≤ '9' then some (c.toNat - '0'.toNat)
  else if 'a' ≤ c ∧ c ≤ 'f' then some (c.toNat - 'a'.toNat + 10)
  else if 'A' ≤ c ∧ c ≤ 'F' then some (c.toNat - 'A'.toNat + 10)
  else none

/-- The value of four hexadecimal digits. -/
def hexValue4? (a b c d : Char) : Option Nat := do
  let a ← hexValue? a
  let b ← hexValue? b
  let c ← hexValue? c
  let d ← hexValue? d
  pure (((a * 16 + b) * 16 + c) * 16 + d)

/-- The fault of a numbered escape whose digits should stand at the front of `s`. -/
def escapeFault (s : List Char) : Fault :=
  if byteLength s < 4 then ⟨.endInText, [], some 0⟩ else ⟨.invalidEscape, s, some 4⟩

/-- The character that a letter after a backslash stands for. -/
def escapeLetter? (c : Char) : Option Char :=
  if c = '"' then some '"'
  else if c = '\\' then some '\\'
  else if c = '/' then some '/'
  else if c = 'b' then some '\x08'
  else if c = 'f' then some '\x0c'
  else if c = 'n' then some '\n'
  else if c = 'r' then some '\r'
  else if c = 't' then some '\t'
  else none

/-- Whether a number is the first half of a surrogate pair. -/
def isHighSurrogate (n : Nat) : Bool := 0xd800 ≤ n && n ≤ 0xdbff

/-- Whether a number is the second half of a surrogate pair. -/
def isLowSurrogate (n : Nat) : Bool := 0xdc00 ≤ n && n ≤ 0xdfff

/-- The character of a surrogate pair. -/
def pairChar (high low : Nat) : Char :=
  Char.ofNat ((high - 0xd800) * 0x400 + (low - 0xdc00) + 0x10000)

/-- The rest of a text after its opening quote; `found` are the characters so far, the last one
    first. -/
def textTail (found : List Char) : List Char → Outcome String
  | [] => .error ⟨.endInText, [], some 0⟩
  | '"' :: s => .ok (String.ofList found.reverse, s)
  | '\\' :: 'u' :: a :: b :: c :: d :: s =>
    match hexValue4? a b c d with
    | none => .error (escapeFault (a :: b :: c :: d :: s))
    | some n =>
      if isLowSurrogate n then .error ⟨.loneSurrogate, s, some 0⟩
      else if isHighSurrogate n then
        match s with
        | '\\' :: 'u' :: e :: f :: g :: h :: t =>
          match hexValue4? e f g h with
          | none => .error (escapeFault (e :: f :: g :: h :: t))
          | some m =>
            if isLowSurrogate m then textTail (pairChar n m :: found) t
            else .error ⟨.loneSurrogate, t, some 0⟩
        | '\\' :: 'u' :: t => .error (escapeFault t)
        | ['\\'] => .error ⟨.endInText, [], some 0⟩
        | '\\' :: t => .error ⟨.unfinishedSurrogatePair, t, some 1⟩
        | [] => .error ⟨.endInText, [], some 0⟩
        | t => .error ⟨.unfinishedSurrogatePair, t, some 1⟩
      else textTail (Char.ofNat n :: found) s
  | '\\' :: 'u' :: s => .error (escapeFault s)
  | ['\\'] => .error ⟨.endInText, [], some 0⟩
  | '\\' :: c :: s =>
    match escapeLetter? c with
    | some e => textTail (e :: found) s
    | none => .error ⟨.invalidEscape, c :: s, some 1⟩
  | c :: s =>
    if c < ' ' then .error ⟨.controlCharacter, c :: s, some 1⟩ else textTail (c :: found) s

/-- The rest of a text that is passed over. -/
def skipTextTail : List Char → Outcome Unit
  | [] => .error ⟨.endInText, [], some 0⟩
  | '"' :: s => .ok ((), s)
  | '\\' :: 'u' :: a :: b :: c :: d :: s =>
    match hexValue4? a b c d with
    | none => .error (escapeFault (a :: b :: c :: d :: s))
    | some _ => skipTextTail s
  | '\\' :: 'u' :: s => .error (escapeFault s)
  | ['\\'] => .error ⟨.endInText, [], some 0⟩
  | '\\' :: c :: s =>
    match escapeLetter? c with
    | some _ => skipTextTail s
    | none => .error ⟨.invalidEscape, c :: s, some 1⟩
  | c :: s =>
    if c < ' ' then .error ⟨.controlCharacter, c :: s, some 0⟩ else skipTextTail s

theorem length_textTail_lt {found s r : List Char} {t : String}
    (h : textTail found s = .ok (t, r)) : r.length < s.length := by
  fun_induction textTail found s <;> simp_all <;> omega

theorem length_skipTextTail_lt {s r : List Char} {u : Unit}
    (h : skipTextTail s = .ok (u, r)) : r.length < s.length := by
  fun_induction skipTextTail s <;> simp_all <;> omega

namespace Reader

/-- A text, whose opening quote is next. -/
def text : Reader String where
  run s := textTail [] s.tail
  shrinks s a r h := by
    have := length_textTail_lt h
    simp at this
    omega

end Reader

end ActionFlow.Json
