import ActionFlow.Json.Container

/-!
# Values that are passed over

The value of a key without a meaning is passed over. It has to follow the grammar, but it may be
nested to any depth, its numerals have no range, and its texts may hold half surrogate pairs. The
brackets that are open are kept in a list, the innermost one first.
-/

namespace ActionFlow.Json

/-- An open bracket. -/
inductive Bracket where
  | list
  | object
deriving DecidableEq, Repr

namespace Bracket

/-- The character that closes a bracket. -/
def closer : Bracket → Char
  | list => ']'
  | object => '\x7d'

/-- The fault of a text that ends inside a bracket. -/
def endCause : Bracket → Cause
  | list => .endInList
  | object => .endInObject

/-- The fault of a character that can not follow an element. -/
def separatorCause : Bracket → Cause
  | list => .expectedListSeparator
  | object => .expectedObjectSeparator

end Bracket

/-- A word, numeral or text that is passed over. -/
def skipScalar (s : List Char) : Outcome Unit :=
  match s with
  | [] => .error ⟨.endInValue, [], some 0⟩
  | 'n' :: t => Reader.takeWord ['u', 'l', 'l'] t
  | 't' :: t => Reader.takeWord ['r', 'u', 'e'] t
  | 'f' :: t => Reader.takeWord ['a', 'l', 's', 'e'] t
  | '"' :: t => skipTextTail t
  | '-' :: t => skipNumeralTail t
  | c :: t =>
    if isDigit c then skipNumeralTail (c :: t) else .error ⟨.expectedValue, s, some 1⟩

/-- The colon after a key that was passed over. -/
def skipColon (s : List Char) : Outcome Unit :=
  match skipBlanks s with
  | [] => .error ⟨.endInObject, [], some 0⟩
  | ':' :: t => .ok ((), t)
  | t => .error ⟨.expectedColon, t, some 1⟩

/-- What stands before the value of an element: nothing in a list, a key and a colon in an
    object. -/
def skipKey (b : Bracket) (s : List Char) : Outcome Unit :=
  match b with
  | .list => .ok ((), s)
  | .object =>
    match skipBlanks s with
    | [] => .error ⟨.endInObject, [], some 0⟩
    | '"' :: t =>
      match skipTextTail t with
      | .error e => .error e
      | .ok (_, r) => skipColon r
    | t => .error ⟨.keyNotText, t, some 1⟩

theorem length_skipScalar_lt {s r : List Char} {u : Unit}
    (h : skipScalar s = .ok (u, r)) : r.length < s.length := by
  unfold skipScalar at h
  split at h
  · cases h
  · exact Nat.lt_succ_of_le (Reader.length_takeWord_le h)
  · exact Nat.lt_succ_of_le (Reader.length_takeWord_le h)
  · exact Nat.lt_succ_of_le (Reader.length_takeWord_le h)
  · exact Nat.lt_succ_of_lt (length_skipTextTail_lt h)
  · exact Nat.lt_succ_of_lt (length_skipNumeralTail_lt h)
  · split at h
    · exact length_skipNumeralTail_lt h
    · cases h

theorem length_skipColon_le {s r : List Char} {u : Unit}
    (h : skipColon s = .ok (u, r)) : r.length ≤ s.length := by
  have hs := length_skipBlanks_le s
  unfold skipColon at h
  split at h
  · cases h
  · next heq =>
    cases h
    rw [heq] at hs
    exact Nat.le_trans (Nat.le_succ _) hs
  · cases h

theorem length_skipKey_le {b : Bracket} {s r : List Char} {u : Unit}
    (h : skipKey b s = .ok (u, r)) : r.length ≤ s.length := by
  unfold skipKey at h
  split at h
  · cases h; exact Nat.le_refl _
  · have hs := length_skipBlanks_le s
    split at h
    · cases h
    · next t heq =>
      rw [heq] at hs
      simp only [List.length_cons] at hs
      split at h
      · cases h
      · next ht =>
        have h₁ := length_skipTextTail_lt ht
        have h₂ := length_skipColon_le h
        omega
    · cases h

/-- What comes next in a value that is passed over. -/
inductive SkipState where
  /-- A value. -/
  | value
  /-- The first element of the innermost bracket, or its end. -/
  | opened
  /-- The next element of the innermost bracket, or its end. -/
  | after
deriving DecidableEq, Repr

/-- Orders the states that share a text: behind an opening bracket a value may come next. -/
def SkipState.rank : SkipState → Nat
  | opened => 1
  | _ => 0

/-- Passes over values until all brackets are closed. -/
def skipFrom (state : SkipState) (stack : List Bracket) (s : List Char) : Outcome Unit :=
  match state with
  | .value =>
    match _hs : skipBlanks s with
    | '[' :: t => skipFrom .opened (.list :: stack) t
    | '\x7b' :: t => skipFrom .opened (.object :: stack) t
    | t =>
      match _ht : skipScalar t with
      | .error e => .error e
      | .ok (_, r) => skipFrom .after stack r
  | .opened =>
    match stack with
    | [] => .ok ((), s)
    | b :: outer =>
      match _hs : skipBlanks s with
      | [] => .error ⟨b.endCause, [], some 0⟩
      | c :: t =>
        if c = b.closer then skipFrom .after outer t
        else
          match _ht : skipKey b (c :: t) with
          | .error e => .error e
          | .ok (_, r) => skipFrom .value (b :: outer) r
  | .after =>
    match stack with
    | [] => .ok ((), s)
    | b :: outer =>
      match _hs : skipBlanks s with
      | [] => .error ⟨b.endCause, [], some 0⟩
      | c :: t =>
        if c = b.closer then skipFrom .after outer t
        else if c = ',' then
          match _ht : skipKey b t with
          | .error e => .error e
          | .ok (_, r) => skipFrom .value (b :: outer) r
        else .error ⟨b.separatorCause, c :: t, some 1⟩
termination_by 2 * s.length + state.rank
decreasing_by
  all_goals
    have hb := length_skipBlanks_le s
    rw [_hs] at hb
    simp only [SkipState.rank, List.length_cons] at *
  · omega
  · omega
  · have := length_skipScalar_lt _ht
    omega
  · omega
  · have := length_skipKey_le _ht
    simp only [List.length_cons] at this
    omega
  · omega
  · have := length_skipKey_le _ht
    omega

theorem length_skipFrom_le {state : SkipState} {stack : List Bracket} {s r : List Char} {u : Unit}
    (h : skipFrom state stack s = .ok (u, r)) : r.length ≤ s.length := by
  fun_induction skipFrom state stack s <;>
    grind [→ length_lt_of_skipBlanks, length_skipBlanks_le, → length_skipScalar_lt,
      → length_skipKey_le]

namespace Reader

/-- A whole value that is passed over. -/
def skipValue : Reader Unit where
  run s := skipFrom .value [] s
  shrinks _ _ _ h := length_skipFrom_le h

end Reader

end ActionFlow.Json
