/-!
# Paths

A path is a sequence of names, from the root or from the working directory. Empty names and names
for the directory itself are left out when a path is read, so that a path has one spelling; names
for the parent directory stay. Two slashes at the beginning, no more and no fewer, are kept.

The length of names and paths is bounded; it is counted in bytes of UTF-8. The null character occurs
in no path that can be opened.
-/

namespace Sexpr.Command

/-- A path as it is opened: the slashes it begins with, and its names. -/
structure Path where
  root : List Char
  names : List (List Char)
deriving DecidableEq, Repr

/-- The number of bytes of a text. -/
def byteLength (text : List Char) : Nat := text.foldl (fun length c => length + c.utf8Size) 0

namespace Path

/-- The greatest length of a name. -/
def maxName : Nat := 255

/-- The greatest length of a path. -/
def maxLength : Nat := 4095

/-- The path that a text spells. -/
def ofText (text : List Char) : Path :=
  let slashes := (text.takeWhile (· = '/')).length
  ⟨if slashes = 0 then [] else if slashes = 2 then ['/', '/'] else ['/'],
    (text.splitOnP (· = '/')).filter fun name => !name.isEmpty && name ≠ ['.']⟩

/-- The one spelling of a path; the working directory is a point. -/
def text (path : Path) : List Char :=
  let spelling := path.root ++ (path.names.intersperse ['/']).flatten
  if spelling.isEmpty then ['.'] else spelling

/-- The path is too long to be opened. -/
def isTooLong (path : Path) : Bool := maxLength < byteLength path.text

/-- The null character occurs in the path. -/
def hasNull (path : Path) : Bool := path.names.any (·.contains '\x00')

end Path

end Sexpr.Command
