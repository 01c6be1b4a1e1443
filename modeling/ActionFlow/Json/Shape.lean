import ActionFlow.Json.Decoder

/-!
# Records

A record is written as an object with named fields, or as a list of its fields in order. In an
object the fields may come in any order, unknown keys are passed over, and a field may come only
once. Fields with a default may be left out; in a list, only from the end.

## Main definitions

- `Shape`: the fields of a record, with a draft that holds those already found.
- `Shape.field`, `Shape.optional`, `Shape.both`, `Shape.map`: how shapes are built.
- `Shape.read`, `Shape.ofEntries`, `Shape.ofItems`: how records are found.
-/

namespace ActionFlow.Json

/-- A field of a record whose fields are collected in a draft. -/
structure Field (σ : Type) where
  name : String
  /-- Whether the record is incomplete without the field. -/
  required : Bool
  /-- Whether a draft already has the field. -/
  given : σ → Bool
  /-- How the field is found and put into a draft. -/
  decoder : Decoder (σ → σ)

/-- The field, in a draft that is the first part of another. -/
def Field.inFirst {σ τ : Type} (f : Field σ) : Field (σ × τ) where
  name := f.name
  required := f.required
  given draft := f.given draft.1
  decoder := f.decoder.map fun set draft => (set draft.1, draft.2)

/-- The field, in a draft that is the second part of another. -/
def Field.inSecond {σ τ : Type} (f : Field τ) : Field (σ × τ) where
  name := f.name
  required := f.required
  given draft := f.given draft.2
  decoder := f.decoder.map fun set draft => (draft.1, set draft.2)

/-- The fields of a record. -/
structure Shape (α : Type) where
  /-- What holds the fields that were found so far. -/
  Draft : Type
  /-- The draft without any field. -/
  start : Draft
  fields : List (Field Draft)
  /-- The record of a draft, if no field is missing. -/
  finish : Draft → Except Cause α

namespace Shape

/-- A record of one field that has to be there. -/
def field {α : Type} (name : String) (d : Decoder α) : Shape α where
  Draft := Option α
  start := none
  fields := [{ name, required := true, given := Option.isSome, decoder := d.map fun a _ => some a }]
  finish
    | some a => .ok a
    | none => .error (.missingField name)

/-- A record of one field that may be left out. -/
def optional {α : Type} (name : String) (d : Decoder α) (default : α) : Shape α where
  Draft := Option α
  start := none
  fields := [{ name, required := false, given := Option.isSome, decoder := d.map fun a _ => some a }]
  finish draft := .ok (draft.getD default)

/-- The fields of two records as one. -/
def both {α β : Type} (a : Shape α) (b : Shape β) : Shape (α × β) where
  Draft := a.Draft × b.Draft
  start := (a.start, b.start)
  fields := a.fields.map Field.inFirst ++ b.fields.map Field.inSecond
  finish draft := do
    let x ← a.finish draft.1
    let y ← b.finish draft.2
    pure (x, y)

/-- A record with another meaning. -/
def map {α β : Type} (f : α → β) (a : Shape α) : Shape β where
  Draft := a.Draft
  start := a.start
  fields := a.fields
  finish draft := f <$> a.finish draft

/-- A count of elements in words. -/
def countWords (n : Nat) : String :=
  if n = 1 then "1 element" else toString n ++ " elements"

/-- How a record is called where it has too few elements. -/
def fullTitle {α : Type} (a : Shape α) (title : String) : String :=
  title ++ " with " ++ countWords a.fields.length

/-- The fault of a list that ends before some fields, the first of them at `index`: the first one
    that has to be there. -/
def shortfall {σ : Type} (title : String) (index : Nat) : List (Field σ) → Except Cause Unit
  | [] => .ok ()
  | f :: fs =>
    if f.required then .error (.wrongLength index title) else shortfall title (index + 1) fs

/-! ## From text -/

/-- One entry of a record in the text. -/
def readEntry {σ : Type} (fields : List (Field σ)) (room : Nat) (draft : σ) (key : String) :
    Reader σ :=
  match fields.find? (·.name == key) with
  | none => do
    Reader.colon
    Reader.skipValue
    pure draft
  | some f =>
    if f.given draft then Reader.failUnplaced (.duplicateField key)
    else do
      Reader.colon
      let set ← f.decoder.read room
      pure (set draft)

/-- The elements of a record in the text, from the field at `index` on. -/
def readItems {σ : Type} (title : String) (room : Nat) (index : Nat) (draft : σ) :
    List (Field σ) → Reader σ
  | [] => pure draft
  | f :: fs => do
    if ← Reader.nextElement (index == 0) then do
      let set ← f.decoder.read room
      readItems title room (index + 1) (set draft) fs
    else do
      Reader.ofExcept (shortfall title index (f :: fs))
      pure draft

/-- A record in the text. -/
def read {α : Type} (a : Shape α) (title : String) (room : Nat) : Reader α := do
  match ← Reader.peekToken with
  | some '[' =>
    Reader.inList (fun left => do
      let draft ← readItems (a.fullTitle title) left 0 a.start a.fields
      Reader.ofExcept (a.finish draft)) room
  | some '\x7b' =>
    Reader.inObject (fun left => do
      let draft ← Reader.entries (readEntry a.fields left) a.start
      Reader.ofExcept (a.finish draft)) room
  | _ => Reader.refuse title

/-! ## From values -/

/-- One entry of a record. -/
def takeEntry {σ : Type} (fields : List (Field σ)) (draft : σ) (entry : String × Value) :
    Except Cause σ :=
  match fields.find? (·.name == entry.1) with
  | none => .ok draft
  | some f =>
    if f.given draft then .error (.duplicateField entry.1)
    else do
      let set ← f.decoder.decode entry.2
      pure (set draft)

/-- A record from the entries of an object. -/
def ofEntries {α : Type} (a : Shape α) (entries : List (String × Value)) : Except Cause α := do
  let draft ← entries.foldlM (takeEntry a.fields) a.start
  a.finish draft

/-- The elements of a record, from the field at `index` on; those behind the last field are left. -/
def takeItems {σ : Type} (title : String) (index : Nat) (draft : σ) :
    List (Field σ) → List Value → Except Cause (σ × List Value)
  | [], items => .ok (draft, items)
  | f :: fs, [] => do
    shortfall title index (f :: fs)
    pure (draft, [])
  | f :: fs, v :: items => do
    let set ← f.decoder.decode v
    takeItems title (index + 1) (set draft) fs items

/-- Refuses elements behind the last one that was used. -/
def noneLeft (used : Nat) (items : List Value) : Except Cause Unit :=
  if items.isEmpty then .ok ()
  else .error (.wrongLength (used + items.length) (countWords used ++ " in sequence"))

/-- A record from the elements of a list. -/
def ofItems {α : Type} (a : Shape α) (title : String) (items : List Value) : Except Cause α := do
  let (draft, left) ← takeItems (a.fullTitle title) 0 a.start a.fields items
  let result ← a.finish draft
  noneLeft a.fields.length left
  pure result

/-- A record under its title. -/
def decoder {α : Type} (a : Shape α) (title : String) : Decoder α where
  read := a.read title
  decode
    | .object entries => a.ofEntries entries
    | .list items => a.ofItems title items
    | v => v.refuse title

end Shape

end ActionFlow.Json
