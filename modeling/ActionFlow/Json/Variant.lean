import ActionFlow.Json.Shape

/-!
# Choices between variants

A choice is told by the name of one of its variants, the *tag*. There are three forms.

- *Names* (`Tag.name`): nothing but the name, as a text or as the only key of an object whose value
  is null.
- *Inner tags* (`InnerTagged`): the tag is one entry of an object, and the other entries are the
  fields of the variant. They are read as values first, because the tag may come last.
- *Adjacent tags* (`AdjacentTagged`): the tag and the content are two entries of an object. Content
  that comes before the tag is read as a value first.

Both tagged forms may also be lists that start with the tag.
-/

namespace ActionFlow.Json

/-! ## Tags -/

/-- The number of the variant with a given name. -/
def variantIndex (names : List String) (name : String) : Except Cause (Fin names.length) :=
  match names.findFinIdx? (· == name) with
  | some i => .ok i
  | none => .error (.unknownVariant name names)

namespace Tag

/-- A tag in the text: the name of a variant. -/
def readText (names : List String) : Reader (Fin names.length) := do
  match ← Reader.peekToken with
  | some '"' => do
    let name ← Reader.text
    match variantIndex names name with
    | .ok i => pure i
    | .error cause => Reader.failHere cause
  | _ => Reader.refuse "variant identifier"

/-- A tag from a value: the name of a variant or its number. -/
def ofValue (names : List String) : Value → Except Cause (Fin names.length)
  | .text name => variantIndex names name
  | .integer n =>
    if 0 ≤ n then
      if h : n.toNat < names.length then .ok ⟨n.toNat, h⟩
      else .error (.wrongValue (.integer n)
        ("variant index 0 <= i < " ++ toString names.length))
    else .error (.wrongType (.integer n) "variant identifier")
  | v => v.refuse "variant identifier"

/-- Nothing, written as null, in the text. -/
def readUnit : Reader Unit := do
  match ← Reader.peekToken with
  | some 'n' => Reader.word "null"
  | _ => Reader.refuse "unit"

/-- Nothing, written as null or as an empty object. -/
def unitOfValue : Value → Except Cause Unit
  | .null => .ok ()
  | .object [] => .ok ()
  | v => v.refuse "unit"

/-- The name of a variant as a key, in the text. -/
def readKey (names : List String) : Reader (Fin names.length) := do
  match ← Reader.peekToken with
  | some '"' => readText names
  | some '\x7d' => Reader.failPeek .expectedValue
  | some _ => Reader.failPeek .keyNotText
  | none => Reader.failPeek .endInObject

/-- The name of a variant as the only key of an object, in the text. -/
def readKeyed (names : List String) : Nat → Reader (Fin names.length)
  | 0 => Reader.failPeek .nestingLimit
  | _ + 1 => do
    Reader.skip
    let i ← readKey names
    Reader.colon
    readUnit
    match ← Reader.peekToken with
    | some '\x7d' => do
      Reader.skip
      pure i
    | some _ => Reader.failHere .expectedValue
    | none => Reader.failHere .endInObject

/-- The name of a variant and nothing else. -/
def name (names : List String) : Decoder (Fin names.length) where
  read room := do
    match ← Reader.peekToken with
    | some '"' => readText names
    | some '\x7b' => readKeyed names room
    | some _ => Reader.failPeek .expectedValue
    | none => Reader.failPeek .endInValue
  decode
    | .text s => variantIndex names s
    | .object [(s, v)] => do
      let i ← variantIndex names s
      unitOfValue v
      pure i
    | .object _ => .error (.wrongValue .object "map with a single key")
    | v => v.refuse "string or map"

end Tag

/-! ## Inner tags -/

/-- A variant with an inner tag. -/
inductive InnerBody (α : Type) where
  /-- A variant without fields. -/
  | unit (value : α)
  /-- A variant with the fields of a record. -/
  | record (title : String) (shape : Shape α)

/-- What stands beside an inner tag. -/
inductive Remainder where
  | entries (entries : List (String × Value))
  | items (items : List Value)

/-- A variant, from what stands beside its tag. A variant without fields passes over entries. -/
def InnerBody.decode {α : Type} : InnerBody α → Remainder → Except Cause α
  | unit a, .entries _ => .ok a
  | unit a, .items items => do
    Shape.noneLeft 0 items
    pure a
  | record _ shape, .entries entries => shape.ofEntries entries
  | record title shape, .items items => shape.ofItems title items

/-- A choice with an inner tag. -/
structure InnerTagged (α : Type) where
  title : String
  /-- The key of the tag. -/
  tag : String
  variants : List (String × InnerBody α)

namespace InnerTagged

/-- The names of the variants. -/
def names {α : Type} (t : InnerTagged α) : List String := t.variants.map Prod.fst

/-- The variant with a given number. -/
def body {α : Type} (t : InnerTagged α) (i : Fin t.names.length) : InnerBody α :=
  (t.variants.get ⟨i.val, by have := i.isLt; simpa [names] using this⟩).2

/-- A tag, if it was found, and the other entries, the last one first. -/
abbrev Found {α : Type} (t : InnerTagged α) :=
  Option (Fin t.names.length) × List (String × Value)

/-- The tag and what stands beside it, when all entries are known. -/
def complete {α : Type} (t : InnerTagged α) (found : t.Found) :
    Except Cause (Fin t.names.length × Remainder) :=
  match found.1 with
  | some i => .ok (i, .entries found.2.reverse)
  | none => .error (.missingField t.tag)

/-- One entry in the text. -/
def readEntry {α : Type} (t : InnerTagged α) (room : Nat) (found : t.Found) (key : String) :
    Reader t.Found :=
  if key == t.tag then
    if found.1.isSome then Reader.failUnplaced (.duplicateField t.tag)
    else do
      Reader.colon
      let i ← Tag.readText t.names
      pure (some i, found.2)
  else do
    let kept ← Reader.keepEntry (Reader.value room) found.2 key
    pure (found.1, kept)

/-- The tag and what stands beside it, in the text. -/
def readParts {α : Type} (t : InnerTagged α) (room : Nat) :
    Reader (Fin t.names.length × Remainder) := do
  match ← Reader.peekToken with
  | some '[' =>
    Reader.inList (fun left => do
      if ← Reader.nextElement true then do
        let i ← Tag.readText t.names
        let items ← Reader.elements (Reader.value left) false
        pure (i, .items items)
      else Reader.failUnplaced (.missingField t.tag)) room
  | some '\x7b' =>
    Reader.inObject (fun left => do
      let found ← Reader.entries (t.readEntry left) (none, [])
      Reader.ofExcept (t.complete found)) room
  | _ => Reader.refuse t.title

/-- One entry of an object. -/
def takeEntry {α : Type} (t : InnerTagged α) (found : t.Found) (entry : String × Value) :
    Except Cause t.Found :=
  if entry.1 == t.tag then
    if found.1.isSome then .error (.duplicateField t.tag)
    else do
      let i ← Tag.ofValue t.names entry.2
      pure (some i, found.2)
  else .ok (found.1, entry :: found.2)

/-- The tag and what stands beside it, from a value. -/
def partsOfValue {α : Type} (t : InnerTagged α) : Value →
    Except Cause (Fin t.names.length × Remainder)
  | .object entries => do
    let found ← entries.foldlM t.takeEntry (none, [])
    t.complete found
  | .list [] => .error (.missingField t.tag)
  | .list (v :: items) => do
    let i ← Tag.ofValue t.names v
    pure (i, .items items)
  | v => v.refuse t.title

/-- A choice with an inner tag. The variant itself is always taken from values. -/
def decoder {α : Type} (t : InnerTagged α) : Decoder α where
  read room := do
    let (i, rest) ← t.readParts room
    Reader.ofExcept ((t.body i).decode rest)
  decode v := do
    let (i, rest) ← t.partsOfValue v
    (t.body i).decode rest

end InnerTagged

/-! ## Adjacent tags -/

/-- The content of a variant with an adjacent tag. -/
inductive Content (α : Type) where
  /-- A variant without content. -/
  | unit (value : α)
  /-- A variant whose content is found by a decoder. -/
  | payload (d : Decoder α)

/-- A choice with an adjacent tag. -/
structure AdjacentTagged (α : Type) where
  /-- The name of the choice. -/
  name : String
  /-- The key of the tag. -/
  tag : String
  /-- The key of the content. -/
  content : String
  variants : List (String × Content α)

/-- How far an object with an adjacent tag was read. -/
inductive AdjacentState (α : Type) (n : Nat) where
  | empty
  | tagged (index : Fin n)
  | held (content : Value)
  | complete (value : α)

namespace AdjacentTagged

/-- How the choice is called where something else stands. -/
def title {α : Type} (t : AdjacentTagged α) : String := "adjacently tagged enum " ++ t.name

/-- The names of the variants. -/
def names {α : Type} (t : AdjacentTagged α) : List String := t.variants.map Prod.fst

/-- The variant with a given number. -/
def variant {α : Type} (t : AdjacentTagged α) (i : Fin t.names.length) : String × Content α :=
  t.variants.get ⟨i.val, by have := i.isLt; simpa [names] using this⟩

/-- How a variant without content is called where it has some. -/
def unitTitle {α : Type} (t : AdjacentTagged α) (i : Fin t.names.length) : String :=
  "unit variant " ++ t.name ++ "::" ++ (t.variant i).1

/-- Null in the text, for a variant without content. A list or object is entered before it is
    refused. -/
def readNull (title : String) (room : Nat) : Reader Unit := do
  match ← Reader.peekToken with
  | some 'n' => Reader.word "null"
  | some '[' => Reader.inList (fun _ => Reader.failUnplaced (.wrongType .list title)) room
  | some '\x7b' => Reader.inObject (fun _ => Reader.failUnplaced (.wrongType .object title)) room
  | _ => Reader.refuse title

/-- The content of a variant in the text. -/
def readContent {α : Type} (t : AdjacentTagged α) (i : Fin t.names.length) (room : Nat) :
    Reader α :=
  match (t.variant i).2 with
  | .unit a => do
    readNull (t.unitTitle i) room
    pure a
  | .payload d => d.read room

/-- The content of a variant from a value. -/
def contentOfValue {α : Type} (t : AdjacentTagged α) (i : Fin t.names.length) (v : Value) :
    Except Cause α :=
  match (t.variant i).2 with
  | .unit a =>
    match v with
    | .null => .ok a
    | v => v.refuse (t.unitTitle i)
  | .payload d => d.decode v

/-- The state of a choice of which the object is still being read. -/
abbrev State {α : Type} (t : AdjacentTagged α) := AdjacentState α t.names.length

/-- The choice, when all entries are known. -/
def finish {α : Type} (t : AdjacentTagged α) : t.State → Except Cause α
  | .complete a => .ok a
  | .tagged i =>
    match (t.variant i).2 with
    | .unit a => .ok a
    | .payload _ => .error (.missingField t.content)
  | .empty => .error (.missingField t.tag)
  | .held _ => .error (.missingField t.tag)

/-- One entry in the text. -/
def readEntry {α : Type} (t : AdjacentTagged α) (room : Nat) (state : t.State) (key : String) :
    Reader t.State :=
  if key == t.tag then
    match state with
    | .empty => do
      Reader.colon
      let i ← (Tag.name t.names).read room
      pure (.tagged i)
    | .held v => do
      Reader.colon
      let i ← (Tag.name t.names).read room
      let a ← Reader.ofExcept (t.contentOfValue i v)
      pure (.complete a)
    | _ => Reader.failUnplaced (.duplicateField t.tag)
  else if key == t.content then
    match state with
    | .empty => do
      Reader.colon
      let v ← Reader.value room
      pure (.held v)
    | .tagged i => do
      Reader.colon
      let a ← t.readContent i room
      pure (.complete a)
    | _ => Reader.failUnplaced (.duplicateField t.content)
  else do
    Reader.colon
    Reader.skipValue
    pure state

/-- A tag and its content as the elements of a list, in the text. -/
def readItems {α : Type} (t : AdjacentTagged α) (room : Nat) : Reader α := do
  if ← Reader.nextElement true then do
    let i ← Tag.readText t.names
    if ← Reader.nextElement false then t.readContent i room
    else Reader.failUnplaced (.wrongLength 1 t.title)
  else Reader.failUnplaced (.wrongLength 0 t.title)

/-- One entry of an object. -/
def takeEntry {α : Type} (t : AdjacentTagged α) (state : t.State) (entry : String × Value) :
    Except Cause t.State :=
  if entry.1 == t.tag then
    match state with
    | .empty => do
      let i ← (Tag.name t.names).decode entry.2
      pure (.tagged i)
    | .held v => do
      let i ← (Tag.name t.names).decode entry.2
      let a ← t.contentOfValue i v
      pure (.complete a)
    | _ => .error (.duplicateField t.tag)
  else if entry.1 == t.content then
    match state with
    | .empty => .ok (.held entry.2)
    | .tagged i => do
      let a ← t.contentOfValue i entry.2
      pure (.complete a)
    | _ => .error (.duplicateField t.content)
  else .ok state

/-- A tag and its content as the elements of a list. -/
def ofItems {α : Type} (t : AdjacentTagged α) : List Value → Except Cause α
  | [] => .error (.wrongLength 0 t.title)
  | [v] => do
    let _ ← Tag.ofValue t.names v
    .error (.wrongLength 1 t.title)
  | v :: w :: left => do
    let i ← Tag.ofValue t.names v
    let a ← t.contentOfValue i w
    Shape.noneLeft 2 left
    pure a

/-- A choice with an adjacent tag. -/
def decoder {α : Type} (t : AdjacentTagged α) : Decoder α where
  read room := do
    match ← Reader.peekToken with
    | some '[' => Reader.inList t.readItems room
    | some '\x7b' =>
      Reader.inObject (fun left => do
        let state ← Reader.entries (t.readEntry left) .empty
        Reader.ofExcept (t.finish state)) room
    | _ => Reader.refuse t.title
  decode
    | .object entries => do
      let state ← entries.foldlM t.takeEntry .empty
      t.finish state
    | .list items => t.ofItems items
    | v => v.refuse t.title

end AdjacentTagged

end ActionFlow.Json
