import Sexpr.Command.Argument

/-!
# Requests

What the arguments of a command line ask for together. All arguments are classified before any of
them takes effect, so that an abbreviation of several flags is refused even behind a call for help;
what does take effect does so from left to right. Files form one group: those after a flag that
follows a file are not recognized.
-/

namespace Sexpr.Command

/-- The flags that are joined to a short flag behind its dash. -/
def Flag.joined (flag : Flag) : List Char → Except ArgumentError (List Flag)
  | [] => .ok [flag]
  | c :: rest =>
      match Flag.ofSpelling? ['-', c] with
      | some second => (second.joined rest).map (flag :: ·)
      | none => .error (.ignoredValue flag (c :: rest))

/-- The flags of one argument. Text after a flag is further short flags or a value, which no flag
takes. -/
def Flag.expand (flag : Flag) (short : Bool) : Option (List Char) → Except ArgumentError (List Flag)
  | none => .ok [flag]
  | some value =>
      if short && !value.isEmpty then flag.joined value
      else .error (.ignoredValue flag value)

/-- What the arguments ask for. -/
inductive Request where
  | help
  | version
  | run (files : List String) (verbose : Bool)
deriving DecidableEq, Repr

/-- The group of files: its files so far, and whether a flag has ended it. -/
structure FileGroup where
  files : List (List Char)
  started : Bool
  ended : Bool
deriving DecidableEq, Repr

namespace FileGroup

/-- The group before the first file. -/
def empty : FileGroup := ⟨[], false, false⟩

/-- A flag ends the group if it has started. -/
def interrupt (group : FileGroup) : FileGroup := { group with ended := group.started }

/-- Add files to the group, or none after it has ended. -/
def add? (group : FileGroup) (files : List (List Char)) : Option FileGroup :=
  if group.ended then none else some ⟨group.files ++ files, true, false⟩

end FileGroup

namespace Request

/-- What the classified arguments ask for, given the group of files, whether records of all levels
are wanted, and the arguments not recognized so far. -/
def collect (group : FileGroup) (verbose : Bool) (extras : List (List Char)) :
    List Argument → Except ArgumentError Request
  | [] =>
      if extras.isEmpty then .ok (.run (group.files.map String.ofList) verbose)
      else .error (.unrecognized extras)
  | .file text :: rest =>
      match group.add? [text] with
      | some group => collect group verbose extras rest
      | none => collect group verbose (extras ++ [text]) rest
  | .separator :: rest =>
      match group.add? [] with
      | some group => collect group verbose extras rest
      | none => collect group verbose (extras ++ [['-', '-']]) rest
  | .unknown text :: rest => collect group.interrupt verbose (extras ++ [text]) rest
  | .flag flag short value :: rest => do
      let flags ← flag.expand short value
      match flags.find? (· ≠ .verbose) with
      | some .help => pure .help
      | some .version => pure .version
      | _ => collect group.interrupt true extras rest

/-- What the arguments of the command line ask for. -/
def ofArguments (arguments : List String) : Except ArgumentError Request := do
  collect .empty false [] (← Argument.ofTexts (arguments.map String.toList))

end Request

end Sexpr.Command
