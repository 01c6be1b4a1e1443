import ActionFlow.Bytes
import ActionFlow.Path

/-!
# Directories

A directory is the value of all files below a place of the file system. Folders are not kept on
their own: a folder is there if a file lies below it.

## Main definitions

- `Directory`: files by their location.
- `Directory.locate`: what a path leads to.
- `Directory.read`, `Directory.write`: files by path, or why there is none.
-/

namespace ActionFlow

/-- Why a file cannot be read or written. -/
inductive FileError where
  | notFound
  | notFolder
  | isFolder
  /-- A component, or the path as a whole, has too many bytes. -/
  | tooLong
  | other (message : String)
deriving DecidableEq, Repr

namespace FileError

/-- The wording of an error. -/
def message : FileError → String
  | notFound => "No such file or directory (os error 2)"
  | notFolder => "Not a directory (os error 20)"
  | isFolder => "Is a directory (os error 21)"
  | tooLong => "File name too long (os error 36)"
  | other text => text

end FileError

/-- The names on the way to a file or folder. What lies outside a directory starts with `..` or
    with the root `/`. -/
abbrev Location := List String

/-- What a path leads to. -/
inductive Place where
  | file (place : Location)
  | folder (place : Location)
  /-- Nothing yet, in a folder that is there. -/
  | vacant (place : Location)
deriving DecidableEq, Repr

/-- All files below a place. -/
structure Directory where
  files : List (Location × Bytes) := []
deriving DecidableEq, Repr

namespace Directory

/-! ## Files by location -/

/-- What the file at a location holds. -/
def content? (d : Directory) (l : Location) : Option Bytes := d.files.lookup l

/-- The files with `bytes` at the location `l`. -/
def putIn (l : Location) (bytes : Bytes) : List (Location × Bytes) → List (Location × Bytes)
  | [] => [(l, bytes)]
  | (k, old) :: rest => if l = k then (l, bytes) :: rest else (k, old) :: putIn l bytes rest

/-- The directory with `bytes` in the file at a location. -/
def put (d : Directory) (l : Location) (bytes : Bytes) : Directory := ⟨putIn l bytes d.files⟩

/-- A file holds what was put there last, and no other file changes. -/
@[simp] theorem content?_put (d : Directory) (l k : Location) (bytes : Bytes) :
    (d.put l bytes).content? k = if k = l then some bytes else d.content? k := by
  obtain ⟨files⟩ := d
  simp only [content?, put]
  induction files with
  | nil => grind [putIn]
  | cons f rest ih => grind [putIn]

/-- The folders that are there without a file below them: the directory itself, those around it,
    and the root. -/
def isOuter (l : Location) : Bool := l.all (· == "..") || l == ["/"]

/-- Whether there is a folder at a location. -/
def hasFolder (d : Directory) (l : Location) : Bool :=
  isOuter l || d.files.any fun (k, _) => l.isPrefixOf k && l.length < k.length

/-- What is at a location whose folder is there. -/
def place (d : Directory) (l : Location) : Place :=
  match d.content? l with
  | some _ => .file l
  | none => if d.hasFolder l then .folder l else .vacant l

/-- The folder around a folder. -/
def around (l : Location) : Location :=
  if l = ["/"] then l else if l.all (· == "..") then ".." :: l else l.dropLast

/-! ## Files by path -/

/-- A component has at most this many bytes. -/
def nameLimit : Nat := 255

/-- A path has fewer bytes than this. -/
def pathLimit : Nat := 4096

/-- One more component on the way. -/
def step (d : Directory) (here : Place) (piece : String) : Except FileError Place :=
  match here with
  | .file _ => .error .notFolder
  | .vacant _ => .error .notFound
  | .folder l =>
    if piece = "" ∨ piece = "." then .ok here
    else if piece = ".." then .ok (.folder (around l))
    else if nameLimit < piece.utf8ByteSize then .error .tooLong
    else .ok (d.place (l ++ [piece]))

/-- What the pieces of a path lead to. -/
def follow (d : Directory) (pieces : List String) : Except FileError Place :=
  pieces.foldlM d.step (.folder (if pieces.head? = some "" then ["/"] else []))

/-- What a path leads to. -/
def locate (d : Directory) (path : String) : Except FileError Place :=
  if path = "" then .error .notFound
  else if pathLimit ≤ path.utf8ByteSize then .error .tooLong
  else d.follow (Path.pieces path)

/-- What the file with a given path holds. -/
def read (d : Directory) (path : String) : Except FileError Bytes :=
  match d.locate path with
  | .error e => .error e
  | .ok (.folder _) => .error .isFolder
  | .ok (.vacant _) => .error .notFound
  | .ok (.file l) => .ok ((d.content? l).getD [])

/-- Where writing to a path puts a file: in a folder that is there. A path that ends with a
    separator stands for a folder. -/
def target (d : Directory) (path : String) : Except FileError Location :=
  if path = "" then .error .notFound
  else if pathLimit ≤ path.utf8ByteSize then .error .tooLong
  else
    let pieces := Path.pieces path
    let named := (pieces.reverse.dropWhile (· == "")).reverse
    -- With closing separators the name before them is not looked up.
    let followed := if named.length < pieces.length then named.dropLast ++ ["."] else named
    match d.follow followed with
    | .error e => .error e
    | .ok (.folder _) => .error .isFolder
    | .ok (.file l) | .ok (.vacant l) => .ok l

/-- The directory after writing to a path. -/
def write (d : Directory) (path : String) (bytes : Bytes) : Except FileError Directory :=
  match d.target path with
  | .error e => .error e
  | .ok l => .ok (d.put l bytes)

/-- Whether a path leads to a file or a folder. -/
def isPresent (d : Directory) (path : String) : Bool :=
  match d.locate path with
  | .ok (.file _) | .ok (.folder _) => true
  | _ => false

/-- Whether a path leads to a folder. -/
def isFolder (d : Directory) (path : String) : Bool :=
  match d.locate path with
  | .ok (.folder _) => true
  | _ => false

/-- The names in the folder with a given path, in order. -/
def names (d : Directory) (path : String) : List String :=
  match d.locate path with
  | .ok (.folder l) =>
    let below := d.files.filterMap fun (k, _) =>
      if l.isPrefixOf k then k[l.length]? else none
    (below.mergeSort fun a b => decide (a ≤ b)).eraseDups
  | _ => []

end Directory

end ActionFlow
