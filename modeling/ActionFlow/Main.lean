import ActionFlow.Command

/-!
# The program

Runs a command line on the system.
-/

namespace ActionFlow

/-- Whether an error code of the system, which may come negated, is `n`. -/
def isErrorCode (n code : UInt32) : Bool := code == n || code == 0 - n

/-- The file error for an error of the system. -/
def FileError.ofSystem (e : IO.Error) : FileError :=
  match e with
  | .noFileOrDirectory .. => .notFound
  | .inappropriateType _ code _ =>
    if isErrorCode 20 code then .notFolder
    else if isErrorCode 21 code then .isFolder
    else .other (toString e)
  | .invalidArgument _ code _ => if isErrorCode 36 code then .tooLong else .other (toString e)
  | e => .other (toString e)

/-- The system as a host. -/
instance : Host IO where
  read path := do
    try
      let bytes ← IO.FS.readBinFile path
      return .ok bytes.toList
    catch e => return .error (.ofSystem e)
  write path bytes := do
    try
      IO.FS.writeBinFile path ⟨bytes.toArray⟩
      return .ok ()
    catch e => return .error (.ofSystem e)
  isPresent path := do ((← IO.currentDir) / path).pathExists
  isFolder path := do ((← IO.currentDir) / path).isDir
  names path := do
    try
      let entries ← ((← IO.currentDir) / path).readDir
      return (entries.toList.map fun e => e.fileName).mergeSort fun a b => decide (a ≤ b)
    catch _ => return []
  print text := do
    let out ← IO.getStdout
    out.putStr text
  complain text := do
    let out ← IO.getStderr
    out.putStr text

end ActionFlow

/-- Runs the command line. -/
def main (arguments : List String) : IO UInt32 := do
  let status ← ActionFlow.runCommand arguments (← IO.getEnv "RUST_LOG")
  return status.code.toUInt32
