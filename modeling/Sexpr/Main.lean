import Sexpr.Command

/-!
# The executable

The outermost layer: it collects the environment, the input and the bytes of the named files, lets
`Command.run` decide, and passes on what that leaves behind.
-/

namespace Sexpr.Command

/-- The bytes that a path of the file system leads to. A path without the null character is an
invalid argument only if it is too long. -/
def readPath (path : Path) : IO (Except AccessFault (List Nat)) := do
  try
    let bytes ← IO.FS.readBinFile (String.ofList path.text)
    pure (.ok (bytes.toList.map UInt8.toNat))
  catch
    | .noFileOrDirectory .. => pure (.error .missing)
    | .permissionDenied .. => pure (.error .denied)
    | .inappropriateType _ 21 _ => pure (.error .isDirectory)
    | .inappropriateType .. => pure (.error .notDirectory)
    | .invalidArgument .. => pure (.error .tooLong)
    | error => throw error

/-- The rest of a stream. -/
partial def readAll (stream : IO.FS.Stream) (before : String) : IO String := do
  let line ← stream.getLine
  if line.isEmpty then pure before else readAll stream (before ++ line)

/-- The files that the arguments ask to run. -/
def filesOf (arguments : List String) : List String :=
  match Request.ofArguments arguments with
  | .ok (.run files _) => files
  | _ => []

/-- Run the program in its process and give the exit status. -/
def start (arguments : List String) : IO UInt32 := do
  let env : Environment := ⟨← IO.getEnv "CATA_MAX_DEPTH", ← IO.getEnv "CATA_LOG_LEVEL"⟩
  let paths := (filesOf arguments).map fun name => Path.ofText name.toList
  let found ← paths.mapM fun path => do pure (path, ← readPath path)
  let input ← if paths.isEmpty then pure "" else readAll (← IO.getStdin) ""
  let report := run env (fun path => (found.lookup path).getD (.error .missing)) input arguments
  IO.print report.out
  IO.eprint report.err
  match report.status with
  | .ok status => pure status.toUInt32
  | .error error =>
      IO.eprintln error.message
      pure 1

end Sexpr.Command

/-- The entry point. -/
def main (arguments : List String) : IO UInt32 := Sexpr.Command.start arguments
