import Sexpr.Command.Path
import Sexpr.Text.Line
import Sexpr.Text.Quoted
import Sexpr.Text.Utf8

/-!
# Source files

A source file is found by its path, decoded as UTF-8 and brought to one kind of line end. A file
that cannot be found or decoded has a fault instead of a text. `FileTree` is a directory tree held
in memory, in which paths are followed name by name; outside of its working directory it knows no
more than what every system has.
-/

namespace Sexpr.Command

/-- Why a path leads to no bytes. -/
inductive AccessFault where
  | missing
  | denied
  | notDirectory
  | isDirectory
  | tooLong
deriving DecidableEq, Repr

/-- The fault of a path as it is worded for the user. -/
def AccessFault.message (path : Path) (fault : AccessFault) : String :=
  let reason :=
    match fault with
    | missing => "[Errno 2] No such file or directory: "
    | denied => "[Errno 13] Permission denied: "
    | notDirectory => "[Errno 20] Not a directory: "
    | isDirectory => "[Errno 21] Is a directory: "
    | tooLong => "[Errno 36] File name too long: "
  reason ++ String.ofList (Text.quoted path.text)

/-- Why a file has no text. -/
inductive FileFault where
  /-- Its path leads to no bytes. -/
  | access (fault : AccessFault)
  /-- Its bytes are not UTF-8. -/
  | decoding (fault : Text.Utf8Fault)
deriving DecidableEq, Repr

/-- The fault of the file at a path as it is worded for the user. -/
def FileFault.message (path : Path) : FileFault → String
  | access fault => fault.message path
  | decoding fault =>
      let place :=
        if fault.first = fault.last then
          s!"byte 0x{String.ofList (Text.hex 2 fault.lead)} in position {fault.first}"
        else s!"bytes in position {fault.first}-{fault.last}"
      s!"'utf-8' codec can't decode {place}: {fault.reason.text}"

/-- The text of a file with these bytes. -/
def decodeFile (bytes : List Nat) : Except FileFault String :=
  match Text.decodeUtf8 bytes with
  | .error fault => .error (.decoding fault)
  | .ok text => .ok (String.ofList (Text.unifyLineEnds text))

/-- A file named on the command line: the name as it was given, its path, and its text or why it has
none. -/
structure SourceFile where
  name : String
  path : Path
  content : Except FileFault String

/-- The source file of a name, given what its path leads to. -/
def SourceFile.load (read : Path → Except AccessFault (List Nat)) (name : String) : SourceFile :=
  let path := Path.ofText name.toList
  match read path with
  | .error fault => ⟨name, path, .error (.access fault)⟩
  | .ok bytes => ⟨name, path, decodeFile bytes⟩

/-- The report of a file that has no text. -/
def SourceFile.complaint (file : SourceFile) (fault : FileFault) : String :=
  s!"could not read {String.ofList file.path.text}: {fault.message file.path}"

/-- What stands at a path of a tree. -/
inductive Entry where
  | file (bytes : List Nat)
  | directory
deriving DecidableEq, Repr

/-- The entries of a working directory and of the directories in it, by their paths. The directories
on the way to an entry need not be listed. -/
abbrev FileTree := List (Path × Entry)

namespace FileTree

/-- A place in a tree: a list of names from the working directory, a directory that many levels
outside of it, of which nothing is known, or a list of names from the root. -/
inductive Place where
  | inside (names : List (List Char))
  | outside (levels : Nat)
  | rooted (names : List (List Char))
deriving DecidableEq, Repr

namespace Place

/-- The place of the directory around a place; the root is its own. -/
def parent : Place → Place
  | inside [] => outside 1
  | inside names => inside names.dropLast
  | outside levels => outside (levels + 1)
  | rooted names => rooted names.dropLast

/-- The place of a name within a directory, if anything is known of it. -/
def child? (name : List Char) : Place → Option Place
  | inside names => some (inside (names ++ [name]))
  | outside _ => none
  | rooted names => some (rooted (names ++ [name]))

end Place

/-- The directories that are found at the root of every system. -/
def standardDirectories : List String :=
  ["bin", "dev", "etc", "lib", "proc", "sys", "tmp", "usr", "var"]

/-- What stands at the place with these names from the root: a standard directory or the device
that is an empty file. -/
def standard? : List (List Char) → Option Entry
  | [] => some .directory
  | [name] => if String.ofList name ∈ standardDirectories then some .directory else none
  | names => if names = ["dev".toList, "null".toList] then some (.file []) else none

/-- What stands at a place. -/
def entry? (tree : FileTree) : Place → Option Entry
  | .outside _ => some .directory
  | .rooted names => standard? names
  | .inside names =>
      match tree.find? (·.1.names = names) with
      | some (_, entry) => some entry
      | none =>
          if names.isEmpty || tree.any fun entry => names.isPrefixOf entry.1.names then
            some .directory
          else none

/-- The place that a name leads to from a directory. -/
def step (place : Place) (name : List Char) : Except AccessFault Place :=
  if name = ['.', '.'] then .ok place.parent
  else if Path.maxName < byteLength name then .error .tooLong
  else
    match place.child? name with
    | some place => .ok place
    | none => .error .missing

/-- Follow names from a place; all but the last must lead to directories. -/
def follow (tree : FileTree) (place : Place) : List (List Char) → Except AccessFault (List Nat)
  | [] =>
      match tree.entry? place with
      | some (.file bytes) => .ok bytes
      | some .directory => .error .isDirectory
      | none => .error .missing
  | name :: names =>
      match tree.entry? place with
      | some .directory => do
          let place ← step place name
          tree.follow place names
      | some (.file _) => .error .notDirectory
      | none => .error .missing

/-- The bytes of the file that a path leads to. -/
def read (tree : FileTree) (path : Path) : Except AccessFault (List Nat) :=
  if path.isTooLong then .error .tooLong
  else tree.follow (if path.root.isEmpty then .inside [] else .rooted []) path.names

end FileTree

end Sexpr.Command
