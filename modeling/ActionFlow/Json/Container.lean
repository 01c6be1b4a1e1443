import ActionFlow.Json.Numeral
import ActionFlow.Json.Quote

/-!
# Lists, objects and whole values

Lists and objects are read element by element, so that each element can be read as what is
expected there. A reader that goes into a list or object is given *room*, the number of further
lists and objects that may be open inside each other.

When a fault without a place comes up inside a list or object, the reader still tries to close it:
the closing bracket is taken if it is next, and the fault is placed after it.

## Main definitions

- `separator`, `key`: moves to the next element or entry, if there is one.
- `Reader.elements`, `Reader.entries`: all elements or entries.
- `Reader.inList`, `Reader.inObject`: what stands between brackets.
- `Reader.value`: a whole value.
-/

namespace ActionFlow.Json

/-! ## Moving on inside brackets -/

/-- Moves to the next element of a list, and says whether there is one. The closing bracket stays. -/
def separator (first : Bool) (s : List Char) : Outcome Bool :=
  match skipBlanks s with
  | [] => .error ⟨.endInList, [], some 0⟩
  | ']' :: t => .ok (false, ']' :: t)
  | c :: t =>
    if first then .ok (true, c :: t)
    else if c = ',' then
      match skipBlanks t with
      | [] => .error ⟨.endInValue, [], some 0⟩
      | ']' :: u => .error ⟨.trailingComma, ']' :: u, some 1⟩
      | u => .ok (true, u)
    else .error ⟨.expectedListSeparator, c :: t, some 1⟩

/-- A key at the front of a text. -/
def keyText (s : List Char) : Outcome (Option String) :=
  match s with
  | '"' :: t =>
    match textTail [] t with
    | .ok (k, r) => .ok (some k, r)
    | .error e => .error e
  | _ => .error ⟨.keyNotText, s, some 1⟩

/-- Moves to the next entry of an object and reads its key, if there is one. The closing bracket
    stays. -/
def key (first : Bool) (s : List Char) : Outcome (Option String) :=
  match skipBlanks s with
  | [] => .error ⟨.endInObject, [], some 0⟩
  | '\x7d' :: t => .ok (none, '\x7d' :: t)
  | c :: t =>
    if first then keyText (c :: t)
    else if c = ',' then
      match skipBlanks t with
      | [] => .error ⟨.endInValue, [], some 0⟩
      | '\x7d' :: u => .error ⟨.trailingComma, '\x7d' :: u, some 1⟩
      | u => keyText u
    else .error ⟨.expectedObjectSeparator, c :: t, some 1⟩

theorem length_separator_le {first more : Bool} {s r : List Char}
    (h : separator first s = .ok (more, r)) : r.length ≤ s.length := by
  have hs := length_skipBlanks_le s
  unfold separator at h
  split at h
  · cases h
  · next heq => cases h; rw [heq] at hs; exact hs
  · next c t _ heq =>
    rw [heq] at hs
    have ht := length_skipBlanks_le t
    simp only [List.length_cons] at hs
    split at h
    · cases h; exact hs
    · split at h
      · split at h <;> cases h
        omega
      · cases h

theorem length_separator_lt {s r : List Char}
    (h : separator false s = .ok (true, r)) : r.length < s.length := by
  have hs := length_skipBlanks_le s
  unfold separator at h
  split at h
  · cases h
  · cases h
  · next c t _ heq =>
    rw [heq] at hs
    have ht := length_skipBlanks_le t
    simp only [List.length_cons] at hs
    split at h
    · contradiction
    · split at h
      · split at h <;> cases h
        omega
      · cases h

theorem length_keyText_lt {s r : List Char} {k : Option String}
    (h : keyText s = .ok (k, r)) : r.length < s.length := by
  unfold keyText at h
  split at h
  · split at h
    · next heq =>
      cases h
      have := length_textTail_lt heq
      simp only [List.length_cons]
      omega
    · cases h
  · cases h

theorem length_key_lt {first : Bool} {s r : List Char} {k : String}
    (h : key first s = .ok (some k, r)) : r.length < s.length := by
  have hs := length_skipBlanks_le s
  unfold key at h
  split at h
  · cases h
  · cases h
  · next c t _ heq =>
    rw [heq] at hs
    have ht := length_skipBlanks_le t
    simp only [List.length_cons] at hs
    split at h
    · have := length_keyText_lt h
      simp only [List.length_cons] at this
      omega
    · split at h
      · split at h
        · cases h
        · cases h
        · have := length_keyText_lt h
          omega
      · cases h

theorem length_key_le {first : Bool} {s r : List Char} {k : Option String}
    (h : key first s = .ok (k, r)) : r.length ≤ s.length := by
  cases k with
  | some k => exact Nat.le_of_lt (length_key_lt h)
  | none =>
    have hs := length_skipBlanks_le s
    unfold key at h
    split at h
    · cases h
    · next heq => cases h; rw [heq] at hs; exact hs
    · next c t _ heq =>
      rw [heq] at hs
      have ht := length_skipBlanks_le t
      simp only [List.length_cons] at hs
      split at h
      · have := length_keyText_lt h
        simp only [List.length_cons] at this
        omega
      · split at h
        · split at h
          · cases h
          · cases h
          · have := length_keyText_lt h
            omega
        · cases h

namespace Reader

/-- Moves to the next element of a list, and says whether there is one. -/
def nextElement (first : Bool) : Reader Bool where
  run s := separator first s
  shrinks _ _ _ h := length_separator_le h

/-- Takes the colon between a key and its value. -/
def colon : Reader Unit := do
  match ← peekToken with
  | some ':' => skip
  | some _ => failPeek .expectedColon
  | none => failPeek .endInObject

/-! ## Loops -/

/-- The elements of a list behind those found already, the last one first. -/
def elementsFrom {α : Type} (x : Reader α) (first : Bool) (found : List α) (s : List Char) :
    Outcome (List α) :=
  match _hm : separator first s with
  | .error e => .error e
  | .ok (false, r) => .ok (found.reverse, r)
  | .ok (true, r) =>
    match _hx : x.run r with
    | .error e => .error e
    | .ok (a, t) => elementsFrom x false (a :: found) t
termination_by 2 * s.length + first.toNat
decreasing_by
  have h₁ := x.shrinks _ _ _ _hx
  have h₂ := length_separator_le _hm
  cases first with
  | true => simp only [Bool.toNat_true, Bool.toNat_false]; omega
  | false =>
    have h₃ := length_separator_lt _hm
    simp only [Bool.toNat_false]
    omega

theorem length_elementsFrom_le {α : Type} {x : Reader α} {first : Bool} {found as : List α}
    {s r : List Char} (h : elementsFrom x first found s = .ok (as, r)) : r.length ≤ s.length := by
  fun_induction elementsFrom x first found s with
  | case1 => cases h
  | case2 => next hm => cases h; exact length_separator_le hm
  | case3 => cases h
  | case4 =>
    next hm _ _ hx ih =>
    exact Nat.le_trans (ih h) (Nat.le_trans (x.shrinks _ _ _ hx) (length_separator_le hm))

/-- All elements of a list, from its first one or from behind an element on. -/
def elements {α : Type} (x : Reader α) (first : Bool) : Reader (List α) where
  run s := elementsFrom x first [] s
  shrinks _ _ _ h := length_elementsFrom_le h

/-- The entries of an object: `step` is given the state so far and a key, and reads the rest of
    the entry. -/
def entriesFrom {σ : Type} (step : σ → String → Reader σ) (first : Bool) (state : σ)
    (s : List Char) : Outcome σ :=
  match _hk : key first s with
  | .error e => .error e
  | .ok (none, r) => .ok (state, r)
  | .ok (some k, r) =>
    match _hx : (step state k).run r with
    | .error e => .error e
    | .ok (next, t) => entriesFrom step false next t
termination_by s.length
decreasing_by
  have h₁ := (step state k).shrinks _ _ _ _hx
  have h₂ := length_key_lt _hk
  omega

theorem length_entriesFrom_le {σ : Type} {step : σ → String → Reader σ} {first : Bool}
    {state final : σ} {s r : List Char} (h : entriesFrom step first state s = .ok (final, r)) :
    r.length ≤ s.length := by
  fun_induction entriesFrom step first state s with
  | case1 => cases h
  | case2 => next hk => cases h; exact length_key_le hk
  | case3 => cases h
  | case4 =>
    next hk _ _ hx ih =>
    exact Nat.le_trans (ih h)
      (Nat.le_trans ((step _ _).shrinks _ _ _ hx) (Nat.le_of_lt (length_key_lt hk)))

/-- All entries of an object, folded over a state. -/
def entries {σ : Type} (step : σ → String → Reader σ) (start : σ) : Reader σ where
  run s := entriesFrom step true start s
  shrinks _ _ _ h := length_entriesFrom_le h

/-! ## Brackets -/

/-- Tries to close a list after a fault: takes its bracket, or a comma with the blanks after it. -/
def closeList (s : List Char) : List Char :=
  match skipBlanks s with
  | ']' :: t => t
  | ',' :: t => skipBlanks t
  | t => t

/-- Tries to close an object after a fault: takes its bracket. -/
def closeObject (s : List Char) : List Char :=
  match skipBlanks s with
  | '\x7d' :: t => t
  | t => t

/-- The closing bracket of a list. -/
def endList : Reader Unit := do
  match ← peekToken with
  | some ']' => skip
  | some ',' =>
    skip
    match ← peekToken with
    | some ']' => failPeek .trailingComma
    | _ => failPeek .trailingCharacters
  | some _ => failPeek .trailingCharacters
  | none => failPeek .endInList

/-- The closing bracket of an object. -/
def endObject : Reader Unit := do
  match ← peekToken with
  | some '\x7d' => skip
  | some ',' => failPeek .trailingComma
  | some _ => failPeek .trailingCharacters
  | none => failPeek .endInObject

/-- What stands in a list whose opening bracket is next. -/
def listBody {α : Type} (inner : Reader α) : Reader α := do
  skip
  let a ← placingAfter closeList inner
  endList
  pure a

/-- What stands in an object whose opening bracket is next. -/
def objectBody {α : Type} (inner : Reader α) : Reader α := do
  skip
  let a ← placingAfter closeObject inner
  endObject
  pure a

/-- A list, if there is room for it; `inner` is given the room that is left. -/
def inList {α : Type} (inner : Nat → Reader α) : Nat → Reader α
  | 0 => failPeek .nestingLimit
  | room + 1 => listBody (inner room)

/-- An object, if there is room for it; `inner` is given the room that is left. -/
def inObject {α : Type} (inner : Nat → Reader α) : Nat → Reader α
  | 0 => failPeek .nestingLimit
  | room + 1 => objectBody (inner room)

/-! ## Whole values -/

/-- What stands next in the text, where something else was expected. Words, numerals and texts are
    read; brackets are only seen. -/
def found : Reader Found := do
  match ← peek with
  | some 'n' => do word "null"; pure .null
  | some 't' => do word "true"; pure (.boolean true)
  | some 'f' => do word "false"; pure (.boolean false)
  | some '"' => do
    let s ← text
    pure (.text s)
  | some '[' => pure .list
  | some '\x7b' => pure .object
  | some c =>
    if c = '-' || isDigit c then do
      match ← numeral with
      | .integer n => pure (.integer n)
      | .double x => pure (.double x)
    else failPeek .expectedValue
  | none => failPeek .endInValue

/-- A value, given how lists and objects are read. -/
def valueWith (list object : Reader Value) : Reader Value := do
  match ← peekToken with
  | some '[' => list
  | some '\x7b' => object
  | _ => do
    match ← found with
    | .null => pure .null
    | .boolean b => pure (.boolean b)
    | .integer n => pure (.integer n)
    | .double x => pure (.double x)
    | .text s => pure (.text s)
    | .list => failPeek .expectedValue
    | .object => failPeek .expectedValue

/-- One entry of an object that is kept, in front of those found before it. -/
def keepEntry (x : Reader Value) (found : List (String × Value)) (k : String) :
    Reader (List (String × Value)) := do
  colon
  let v ← x
  pure ((k, v) :: found)

/-- A whole value with the given room. -/
def value : Nat → Reader Value
  | 0 => valueWith (failPeek .nestingLimit) (failPeek .nestingLimit)
  | room + 1 =>
    valueWith
      (listBody do
        let items ← elements (value room) true
        pure (.list items))
      (objectBody do
        let found ← entries (keepEntry (value room)) []
        pure (.object found.reverse))

end Reader

end ActionFlow.Json
