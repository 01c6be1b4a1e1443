import ActionFlow.Glob
import ActionFlow.Host

/-!
# Searching for a pattern

The paths that match a pattern are found folder by folder. The names in a folder are tried in
order, and what lies below a folder comes right after it.
-/

namespace ActionFlow.Glob

variable {m : Type → Type} [Monad m] [Host m]

/-- No path has more components: it has at most 4096 bytes. -/
def depthLimit : Nat := 4096

/-- The path of a name in a folder, where the folder that the search starts from is left out. -/
def inFolder (folder name : String) : String :=
  if Path.isHere folder then name else Path.join folder name

/-- All that `visit` finds at a path and below it. -/
def walk (visit : String → String → Bool → m (List String)) : Nat → String → String → m (List String)
  | 0, _, _ => pure []
  | n + 1, name, path => do
    let isFolder ← Host.isFolder path
    let here ← visit name path isFolder
    let names ← if isFolder then Host.names path else pure []
    let below ← names.mapM fun child => walk visit n child (inFolder path child)
    return here ++ below.flatten

/-- Whether the component `name` leads on from `folder` to `path`. -/
def leadsOn (folder name path : String) : m Bool :=
  if name = "." ∨ name = ".." then Host.isFolder folder else Host.isPresent path

/-- The components `.` and `..` match only a component that starts with a dot. -/
def dots : List Token → List String
  | .char '.' :: ts => ["..", "."].filter fun name => fits (.char '.' :: ts) name.toList
  | _ => []

/-- The paths below a folder that match the components. -/
def search : List Component → String → m (List String)
  | [], path => pure [path]
  | .name text :: rest, folder => do
    let path := inFolder folder text
    if ← leadsOn folder text path then search rest path else pure []
  | .wild ts :: rest, folder => do
    if ← Host.isFolder folder then
      -- These two are not among the names of the folder.
      let special ← (dots ts).mapM fun name => search rest (Path.join folder name)
      let names ← Host.names folder
      let found ← (names.filter fun name => fits ts name.toList).mapM fun name =>
        search rest (inFolder folder name)
      return special.flatten ++ found.flatten
    else pure []
  | [.folders], folder => do
    let names ← Host.names folder
    let visit := fun _ path isFolder => pure (if isFolder then [path] else [])
    let found ← names.mapM fun name => walk visit depthLimit name (inFolder folder name)
    return found.flatten
  | .folders :: next :: rest, folder => do
    let names ← Host.names folder
    let visit := fun name path _ => if next.fits name then search rest path else pure []
    let found ← names.mapM fun name => walk visit depthLimit name (inFolder folder name)
    return found.flatten

/-- The paths that match a pattern, in order. -/
def expand (g : Glob) : m (List String) := do
  let found ← search g.components (if g.absolute then "/" else ".")
  if g.foldersOnly then found.filterM fun path => Host.isFolder path
  else return found

end ActionFlow.Glob
