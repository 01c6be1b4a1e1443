import ActionFlow.Path

/-!
# File patterns

A pattern stands for all paths that match it, component by component. In a component `?` stands for
any character, `*` for any text, and `[…]` or `[!…]` for a character that is, or is not, in a class.
The component `**` stands for any number of folders.

## Main definitions

- `Glob.Token`, `Glob.tokens`: the parts of a pattern, or where its spelling is wrong.
- `Glob.fits`: whether a name matches a component.
- `Glob`: a pattern; `Glob.ofText` reads one.
-/

namespace ActionFlow

namespace Glob

/-- Single characters and ranges of a class. -/
inductive CharRange where
  | single (c : Char)
  | range (first last : Char)
deriving DecidableEq, Repr

/-- Whether a range holds a character. An inverted range holds none. -/
def CharRange.holds (r : CharRange) (c : Char) : Bool :=
  match r with
  | single a => c == a
  | range first last => decide (first ≤ c) && decide (c ≤ last)

/-- The parts of a pattern. -/
inductive Token where
  | char (c : Char)
  /-- Any single character. -/
  | anyChar
  /-- Any text. -/
  | anyText
  /-- Any number of folders. -/
  | anyFolders
  | oneOf (ranges : List CharRange)
  | noneOf (ranges : List CharRange)
deriving DecidableEq, Repr

/-- What is wrong with the spelling of a pattern. -/
inductive Mistake where
  /-- More than two stars in a row. -/
  | stars
  /-- A double star beside something else in its component. -/
  | folders
  /-- A class that is not closed. -/
  | range
deriving DecidableEq, Repr

/-- The wording of a mistake. -/
def Mistake.message : Mistake → String
  | stars => "wildcards are either regular \x60*\x60 or recursive \x60**\x60"
  | folders => "recursive wildcards must form a single path component"
  | range => "invalid range pattern"

/-- A mistake and the number of characters before it. -/
structure PatternError where
  position : Nat
  mistake : Mistake
deriving DecidableEq, Repr

/-- The wording of an error. -/
def PatternError.message (e : PatternError) : String :=
  "Pattern syntax error near position " ++ toString e.position ++ ": " ++ e.mistake.message

/-! ## Reading -/

/-- The ranges of a class. -/
def ranges : List Char → List CharRange
  | a :: '-' :: b :: cs => .range a b :: ranges cs
  | c :: cs => .single c :: ranges cs
  | [] => []

/-- A text up to the first closing bracket, and what follows it. -/
def untilBracket : List Char → Option (List Char × List Char)
  | [] => none
  | c :: cs =>
    if c = ']' then some ([], cs)
    else (untilBracket cs).map fun (inner, rest) => (c :: inner, rest)

/-- What follows a closing bracket is shorter than the text. -/
theorem length_of_untilBracket {cs inner rest : List Char}
    (h : untilBracket cs = some (inner, rest)) : rest.length < cs.length := by
  induction cs generalizing inner with
  | nil => simp [untilBracket] at h
  | cons c cs ih =>
    simp only [untilBracket] at h
    split at h
    · simp_all
    · obtain ⟨⟨i, r⟩, hu, he⟩ := Option.map_eq_some_iff.1 h
      simp only [Prod.mk.injEq] at he
      obtain ⟨_, rfl⟩ := he
      have := ih hu
      simp only [List.length_cons]
      omega

/-- The class after an opening bracket, and what follows it. The first character of a class may be
    a closing bracket. -/
def charClass? : List Char → Option (Token × List Char)
  | '!' :: c :: cs => (untilBracket cs).map fun (inner, rest) => (.noneOf (ranges (c :: inner)), rest)
  | '!' :: [] => none
  | c :: cs => (untilBracket cs).map fun (inner, rest) => (.oneOf (ranges (c :: inner)), rest)
  | [] => none

/-- What follows a class is shorter than the text. -/
theorem length_of_charClass? {cs rest : List Char} {t : Token}
    (h : charClass? cs = some (t, rest)) : rest.length < cs.length := by
  unfold charClass? at h
  split at h
  all_goals
    simp only [Option.map_eq_some_iff, Prod.mk.injEq, Prod.exists, reduceCtorEq] at h
  all_goals
    obtain ⟨inner, _, hu, _, rfl⟩ := h
    have := length_of_untilBracket hu
    simp only [List.length_cons]
    omega

/-- The parts of a pattern from a position on; `before` is the character at its left. -/
def tokensFrom (position : Nat) (before : Option Char) :
    List Char → Except PatternError (List Token)
  | [] => .ok []
  | '*' :: '*' :: '*' :: _ => .error ⟨position + 2, .stars⟩
  | '*' :: '*' :: rest =>
    if before = none ∨ before = some '/' then
      match rest with
      | [] => .ok [.anyFolders]
      -- A double star takes the separator behind it along.
      | '/' :: rest =>
        match tokensFrom (position + 3) (some '/') rest with
        | .error e => .error e
        | .ok ts => .ok (.anyFolders :: ts)
      | _ :: _ => .error ⟨position + 2, .folders⟩
    else .error ⟨position - 1, .folders⟩
  | '[' :: rest =>
    match _h : charClass? rest with
    | none => .error ⟨position, .range⟩
    | some (t, after) =>
      match tokensFrom (position + 1 + (rest.length - after.length)) (some ']') after with
      | .error e => .error e
      | .ok ts => .ok (t :: ts)
  | c :: rest =>
    let t := if c = '?' then .anyChar else if c = '*' then .anyText else .char c
    match tokensFrom (position + 1) (some c) rest with
    | .error e => .error e
    | .ok ts => .ok (t :: ts)
termination_by cs => cs.length
decreasing_by
  all_goals simp only [List.length_cons]
  all_goals grind [→ length_of_charClass?]

/-- The parts of a pattern, or its first mistake. -/
def tokens (text : String) : Except PatternError (List Token) := tokensFrom 0 none text.toList

/-! ## Matching -/

/-- Whether a part that stands for a single character stands for `c`. -/
def Token.takes (c : Char) : Token → Bool
  | .char a => a == c
  | .anyChar => true
  | .oneOf rs => rs.any (·.holds c)
  | .noneOf rs => !rs.any (·.holds c)
  | .anyText | .anyFolders => false

/-- The answers for a text and all its tails when one more part stands before a pattern, from the
    answers `rest` for that pattern. -/
def before (t : Token) : List Char → List Bool → List Bool
  | [], rest => [(t == .anyText || t == .anyFolders) && rest.headD false]
  | c :: cs, rest =>
    let tails := before t cs rest.tail
    let here :=
      if t == .anyText || t == .anyFolders then rest.headD false || tails.headD false
      else t.takes c && rest.tail.headD false
    here :: tails

/-- Whether a text and its tails, in this order, match some parts. -/
def tailsFit : List Token → List Char → List Bool
  | [], cs => List.replicate cs.length false ++ [true]
  | t :: ts, cs => before t cs (tailsFit ts cs)

/-- Whether a name matches the parts of a component. -/
def fits (ts : List Token) (cs : List Char) : Bool := (tailsFit ts cs).headD false

/-- The answers for the tails of a text are the answers for the text after the first one. -/
theorem tail_tailsFit (ts : List Token) (c : Char) (cs : List Char) :
    (tailsFit ts (c :: cs)).tail = tailsFit ts cs := by
  induction ts with
  | nil => simp [tailsFit, List.replicate_succ]
  | cons t ts ih => simp [tailsFit, before, ih]

/-- Without parts only the empty text matches. -/
theorem fits_nil (cs : List Char) : fits [] cs = cs.isEmpty := by
  cases cs <;> simp [fits, tailsFit, List.replicate_succ]

/-- Any text stands for nothing, or for one character and any text after it. -/
theorem fits_anyText (ts : List Token) (c : Char) (cs : List Char) :
    fits (.anyText :: ts) (c :: cs) = (fits ts (c :: cs) || fits (.anyText :: ts) cs) := by
  simp [fits, tailsFit, before, tail_tailsFit]

/-- A part that stands for a single character takes the first one. -/
theorem fits_takes (t : Token) (ts : List Token) (c : Char) (cs : List Char)
    (h : t ≠ .anyText) (h' : t ≠ .anyFolders) :
    fits (t :: ts) (c :: cs) = (t.takes c && fits ts cs) := by
  simp [fits, tailsFit, before, tail_tailsFit, h, h']

/-- A component of a pattern. -/
inductive Component where
  /-- A name without wildcards. -/
  | name (text : String)
  | wild (tokens : List Token)
  /-- Any number of folders. -/
  | folders
deriving DecidableEq, Repr

/-- The text of parts that are all single characters. -/
def plainText? : List Token → Option (List Char)
  | [] => some []
  | .char c :: ts => (plainText? ts).map (c :: ·)
  | _ => none

/-- The component with the given parts. -/
def Component.ofTokens (ts : List Token) : Component :=
  match plainText? ts with
  | some cs => .name (String.ofList cs)
  | none => if ts = [.anyFolders] then .folders else .wild ts

/-- Whether a name matches a component. -/
def Component.fits (c : Component) (name : String) : Bool :=
  match c with
  | .name text => name == text
  | .wild ts => Glob.fits ts name.toList
  | .folders => true

/-- Components with one `**` for each row of them. -/
def collapse : List Component → List Component
  | .folders :: .folders :: cs => collapse (.folders :: cs)
  | c :: cs => c :: collapse cs
  | [] => []

end Glob

/-- A file pattern. -/
structure Glob where
  /-- The pattern starts at the root. -/
  absolute : Bool
  components : List Glob.Component
  /-- Only folders match. -/
  foldersOnly : Bool
deriving DecidableEq, Repr

namespace Glob

/-- Whether a text is a pattern and not just a path. -/
def isPattern (text : String) : Bool := text.toList.any fun c => c == '*' || c == '?' || c == '['

/-- The pattern with a given text. The text as a whole is checked before its components. -/
def ofText (text : String) : Except PatternError Glob := do
  -- A class may hold a separator here, but not in a component.
  let _ ← tokens text
  let absolute := text.startsWith "/"
  let relative := String.ofList (if absolute then text.toList.drop 1 else text.toList)
  let pieces := Path.pieces relative
  let foldersOnly := text.endsWith "/"
  -- A closing separator starts no component.
  let pieces := if pieces.getLast? = some "" then pieces.dropLast else pieces
  let components ← pieces.mapM fun piece => return Component.ofTokens (← tokens piece)
  return ⟨absolute, collapse components, foldersOnly⟩

end Glob

end ActionFlow
