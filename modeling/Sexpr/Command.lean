import Sexpr.Command.File
import Sexpr.Command.Request
import Sexpr.Config
import Sexpr.Interpreter

/-!
# The command line

The files named on the command line run one after the other on one machine. A file that cannot be
read is reported and passed over; the first fault of a program, or its wish to end, ends them all. A
name with the null character is no name of a file and breaks the program off when it is reached.
-/

namespace Sexpr.Command

/-- A record of the command line. -/
def record (level : LogLevel) (message : String) : LogRecord := ⟨level, "cata.cli", message⟩

/-- What breaks the program off, so that it has no exit status. -/
inductive Abort where
  /-- The configuration cannot be used. -/
  | config (error : ConfigError)
  /-- A file has the null character in its name. -/
  | nullInName
deriving DecidableEq, Repr

/-- The reason as it is worded for the user. -/
def Abort.message : Abort → String
  | config error => error.message
  | nullInName => "embedded null byte"

/-- How a run of files ended. -/
inductive Conclusion where
  /-- All files were gone through. -/
  | finished
  /-- A program ended itself. -/
  | exited
  /-- A program was at fault. -/
  | failed
  /-- A name was reached that is no name of a file. -/
  | broken
deriving DecidableEq, Repr

/-- The exit status of a run that ended like this. -/
def Conclusion.status : Conclusion → Except Abort Nat
  | finished => .ok 0
  | exited => .ok 0
  | failed => .ok 1
  | broken => .error .nullInName

/-- Run source files on a machine. -/
def runFiles : List SourceFile → Machine → Conclusion × Machine
  | [], m => (.finished, m)
  | file :: rest, m =>
      if file.path.hasNull then (.broken, m)
      else
        match file.content with
        | .error fault =>
            let reported := m.report (record .warning (file.complaint fault))
            runFiles rest (reported.writeLine s!"error: could not read file {file.name}".toList)
        | .ok source =>
            match Interpreter.run source (m.report (record .debug s!"running {file.name}")) with
            | (.ok _, after) => runFiles rest after
            | (.error stop, after) =>
                match stop.message? with
                | none => (.exited, after)
                | some message => (.failed, after.writeLine s!"error: {message}".toList)

/-- What the program leaves behind: its exit status, or what broke it off, and what it wrote to its
two channels. -/
structure Report where
  status : Except Abort Nat
  out : String
  err : String

/-- The form of a call. -/
def usage : String := "usage: cata [-v] <file>...\n"

/-- The explanation of the arguments. -/
def helpText : String :=
  usage ++
  "\n" ++
  "positional arguments:\n" ++
  "  FILE           source files to run\n" ++
  "\n" ++
  "options:\n" ++
  "  -h, --help     show this help message and exit\n" ++
  "  -v, --verbose  log each form as it is evaluated\n" ++
  "  --version      show program's version number and exit\n"

/-- The name of the program and its version. -/
def versionText : String := "cata 0.1.0\n"

/-- The records that are shown, a line each. -/
def shownLog (level : LogLevel) (log : List LogRecord) : String :=
  String.join ((log.filter (·.isShown level)).map fun record => record.text ++ "\n")

/-- Run files, showing records of a level and above. Without files there is only a hint. -/
def runAll (env : Environment) (input : String) (level : LogLevel) :
    List SourceFile → Report
  | [] => ⟨.ok 0, "usage: cata <file>\n", ""⟩
  | files =>
      match env.depthLimit with
      | .error error => ⟨.error (.config error), "", ""⟩
      | .ok limit =>
          let (conclusion, m) := runFiles files (.ofInput input limit)
          ⟨conclusion.status, String.ofList m.output, shownLog level m.log⟩

/-- The whole program: do what the arguments ask for in an environment, with an input text and what
paths lead to. -/
def run (env : Environment) (read : Path → Except AccessFault (List Nat)) (input : String)
    (arguments : List String) : Report :=
  match Request.ofArguments arguments with
  | .error error => ⟨.ok 2, "", usage ++ s!"cata: error: {error.message}\n"⟩
  | .ok .help => ⟨.ok 0, helpText, ""⟩
  | .ok .version => ⟨.ok 0, versionText, ""⟩
  | .ok (.run names verbose) =>
      match if verbose then .ok .debug else env.level with
      | .error error => ⟨.error (.config error), "", ""⟩
      | .ok level => runAll env input level (names.map (SourceFile.load read))

end Sexpr.Command
