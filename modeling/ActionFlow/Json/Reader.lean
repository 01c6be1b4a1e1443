import ActionFlow.Json.Fault

/-!
# Readers

A reader takes characters from the front of a text and returns a value with what is left, or a
fault. It never returns more than it was given: `Reader.shrinks` is part of the type, and loops
over readers end because of it.

## Main definitions

- `Reader`, with its monad.
- `Reader.peek`, `Reader.skip`, `Reader.blanks`, `Reader.word`: the smallest readers.
- `Reader.failPeek`, `Reader.failHere`, `Reader.failUnplaced`: faults at the next character, at the
  point reached, and without a place.
- `Reader.placingAfter`: gives a fault without a place the point at which reading stopped, after
  moving on over what is left.
-/

namespace ActionFlow.Json

/-- A result with the characters that are left. -/
abbrev Outcome (α : Type) := Except Fault (α × List Char)

/-- Reads a value from the front of a text. -/
structure Reader (α : Type) where
  run : List Char → Outcome α
  shrinks : ∀ (s : List Char) (a : α) (r : List Char), run s = .ok (a, r) → r.length ≤ s.length

/-- Whether a character separates tokens. -/
def isBlank (c : Char) : Bool :=
  c == ' ' || c == '\t' || c == '\r' || c == '\n'

/-- A text without the blanks at its front. -/
def skipBlanks (s : List Char) : List Char := s.dropWhile isBlank

theorem length_skipBlanks_le (s : List Char) : (skipBlanks s).length ≤ s.length :=
  (List.dropWhile_suffix _).length_le

theorem length_lt_of_skipBlanks {c : Char} {s t : List Char} (h : skipBlanks s = c :: t) :
    t.length < s.length := by
  have hs := length_skipBlanks_le s
  rw [h] at hs
  exact hs

namespace Reader

/-! ## Sequencing -/

/-- Reads nothing. -/
def give {α : Type} (a : α) : Reader α where
  run s := .ok (a, s)
  shrinks s b r h := by
    cases h
    exact Nat.le_refl _

/-- One reader after another. -/
def andThen {α β : Type} (x : Reader α) (f : α → Reader β) : Reader β where
  run s :=
    match x.run s with
    | .error e => .error e
    | .ok (a, r) => (f a).run r
  shrinks s b r h := by
    split at h
    · cases h
    · next a t ht => exact Nat.le_trans ((f a).shrinks _ _ _ h) (x.shrinks _ _ _ ht)

instance : Monad Reader where
  pure := give
  bind := andThen

@[simp] theorem run_pure {α : Type} (a : α) (s : List Char) :
    (pure a : Reader α).run s = .ok (a, s) := rfl

@[simp] theorem run_bind {α β : Type} (x : Reader α) (f : α → Reader β) (s : List Char) :
    (x >>= f).run s =
      match x.run s with
      | .error e => .error e
      | .ok (a, r) => (f a).run r := rfl

/-! ## Faults -/

/-- Fails with a fault that may depend on what is left. -/
def failWith {α : Type} (fault : List Char → Fault) : Reader α where
  run s := .error (fault s)
  shrinks s a r h := by cases h

/-- A fault at the point reached. -/
def failHere {α : Type} (cause : Cause) : Reader α :=
  failWith fun s => ⟨cause, s, some 0⟩

/-- A fault one byte further on, or at the end of the text. -/
def failPeek {α : Type} (cause : Cause) : Reader α :=
  failWith fun s => ⟨cause, s, some 1⟩

/-- A fault that has no place yet. -/
def failUnplaced {α : Type} (cause : Cause) : Reader α :=
  failWith fun s => ⟨cause, s, none⟩

/-- A result that was found without reading. -/
def ofExcept {α : Type} : Except Cause α → Reader α
  | .ok a => pure a
  | .error cause => failUnplaced cause

/-- Moves on over what is left when a fault without a place comes, then places it there. -/
def placingAfter {α : Type} (close : List Char → List Char) (x : Reader α) : Reader α where
  run s :=
    match x.run s with
    | .error f => .error (if f.ahead.isSome then f else { f with rest := close f.rest, ahead := some 0 })
    | .ok result => .ok result
  shrinks s a r h := by
    split at h
    · cases h
    · next result hr => exact x.shrinks s a r (by rw [hr]; exact h)

/-! ## The smallest readers -/

/-- The next character, which stays. -/
def peek : Reader (Option Char) where
  run s := .ok (s.head?, s)
  shrinks s a r h := by
    cases h
    exact Nat.le_refl _

/-- Takes one character. -/
def skip : Reader Unit where
  run s := .ok ((), s.tail)
  shrinks s a r h := by
    cases h
    simp

/-- Takes blanks. -/
def blanks : Reader Unit where
  run s := .ok ((), skipBlanks s)
  shrinks s a r h := by
    cases h
    exact length_skipBlanks_le s

/-- Takes blanks and looks at the character after them. -/
def peekToken : Reader (Option Char) := do
  blanks
  peek

/-- Takes the given characters one by one. A character that differs is taken before the fault. -/
def takeWord : List Char → List Char → Outcome Unit
  | [], s => .ok ((), s)
  | _ :: _, [] => .error ⟨.endInValue, [], some 0⟩
  | w :: ws, c :: s =>
    if c = w then takeWord ws s else .error ⟨.expectedWord, c :: s, some 1⟩

theorem length_takeWord_le {w s r : List Char} {u : Unit} (h : takeWord w s = .ok (u, r)) :
    r.length ≤ s.length := by
  fun_induction takeWord w s with
  | case1 s => cases h; exact Nat.le_refl _
  | case2 => cases h
  | case3 w ws s ih => exact Nat.le_trans (ih h) (Nat.le_succ _)
  | case4 => cases h

/-- Takes the rest of a word of the grammar, after its first character was seen. -/
def word (w : String) : Reader Unit where
  run s := takeWord w.toList.tail s.tail
  shrinks s a r h := by
    have := length_takeWord_le h
    simp at this
    omega

end Reader

end ActionFlow.Json
