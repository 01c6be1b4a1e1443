import ActionFlow.Directory

/-!
# Hosts

A command reads and writes files and prints. A host is what it does this with: the system that it
runs on, or a directory that is a value, with the texts that have been printed.

## Main definitions

- `Host`: the operations that a command may use.
- `World`: a directory with what has been printed.
- `Session`: computations on a world, as a host.
-/

namespace ActionFlow

/-- What a command runs on. -/
class Host (m : Type → Type) where
  /-- What a file holds. -/
  read : String → m (Except FileError Bytes)
  /-- Puts bytes into a file. -/
  write : String → Bytes → m (Except FileError Unit)
  /-- Whether a path leads to a file or a folder. -/
  isPresent : String → m Bool
  /-- Whether a path leads to a folder. -/
  isFolder : String → m Bool
  /-- The names in a folder, in order. -/
  names : String → m (List String)
  /-- Prints a text. -/
  print : String → m Unit
  /-- Prints a text beside the results. -/
  complain : String → m Unit

/-- A directory with what has been printed. -/
structure World where
  directory : Directory
  printed : String := ""
  complaints : String := ""
deriving DecidableEq, Repr

/-- Computations on a world. -/
abbrev Session := StateM World

instance : Host Session where
  read path := fun w => (w.directory.read path, w)
  write path bytes := fun w =>
    match w.directory.write path bytes with
    | .error e => (.error e, w)
    | .ok d => (.ok (), { w with directory := d })
  isPresent path := fun w => (w.directory.isPresent path, w)
  isFolder path := fun w => (w.directory.isFolder path, w)
  names path := fun w => (w.directory.names path, w)
  print text := fun w => ((), { w with printed := w.printed ++ text })
  complain text := fun w => ((), { w with complaints := w.complaints ++ text })

end ActionFlow
