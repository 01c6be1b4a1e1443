/-!
# Paths

A path is a text whose components are divided by `/`. Empty components and `.` say nothing, so a
path may end with them without naming another file.

## Main definitions

- `Path.pieces`: all that stands between the separators.
- `Path.fileName?`: the last component that names something.
- `Path.withExtension`: the path of the neighbour with another extension.
- `Path.isHere`: whether a path leads nowhere else.
-/

namespace ActionFlow.Path

/-- What stands between the separators of a path, as lists of characters. -/
def pieceChars : List Char → List (List Char)
  | [] => [[]]
  | c :: cs =>
    if c = '/' then [] :: pieceChars cs
    else match pieceChars cs with
      | [] => [[c]]
      | p :: ps => (c :: p) :: ps

/-- What stands between the separators of a path. -/
def pieces (path : String) : List String :=
  (pieceChars path.toList).map String.ofList

/-- A reversed path without the separators and components `.` that it starts with. -/
def dropClosing : List Char → List Char
  | '/' :: cs => dropClosing cs
  | '.' :: '/' :: cs => dropClosing cs
  | cs => cs

/-- A path up to its last component, and that component, if it names something. -/
def split? (path : String) : Option (String × String) :=
  let reversed := dropClosing path.toList.reverse
  let name := String.ofList (reversed.takeWhile (· != '/')).reverse
  let before := String.ofList (reversed.dropWhile (· != '/')).reverse
  if name = "" ∨ name = "." ∨ name = ".." then none else some (before, name)

/-- The last component of a path, if it names something. -/
def fileName? (path : String) : Option String := (split? path).map (·.2)

/-- A file name without its extension, which starts at the last dot that has something before it. -/
def stem (name : String) : String :=
  match name.toList.reverse.dropWhile (· != '.') with
  | '.' :: c :: cs => String.ofList (c :: cs).reverse
  | _ => name

/-- The path with the given extension in place of that of the file name. Where the extension of the
    file name follows two dots, these are left alone, and stand for the folder around. -/
def withExtension (extension path : String) : String :=
  match split? path with
  | none => path
  | some (before, name) =>
    if stem name = "." then before ++ ".." else before ++ stem name ++ "." ++ extension

/-- Whether a path stands for the folder that it starts from. -/
def isHere (path : String) : Bool :=
  match pieces path with
  | [] => false
  | first :: rest => first == "." && rest.all fun piece => piece == "" || piece == "."

/-- The path of `name` below `folder`. -/
def join (folder name : String) : String :=
  if folder = "" ∨ folder.endsWith "/" then folder ++ name else folder ++ "/" ++ name

end ActionFlow.Path
