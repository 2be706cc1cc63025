import Sexpr.Text.Numeral
import Sexpr.Text.Quoted

/-!
# Command-line arguments

By its looks an argument is a file, a flag, or something that looks like a flag and is none. A long
flag may be cut short as long as only one flag begins like that. A dash alone, a negative number and
a text with a space are files even though they begin with a dash.
-/

namespace Sexpr.Command

/-- What can be switched on. -/
inductive Flag where
  | help
  | verbose
  | version
deriving DecidableEq, Repr

namespace Flag

/-- The spellings of the flags. -/
def spellings : List (List Char × Flag) :=
  [("-h".toList, help), ("--help".toList, help), ("-v".toList, verbose),
    ("--verbose".toList, verbose), ("--version".toList, version)]

/-- The flag with exactly this spelling. -/
def ofSpelling? (text : List Char) : Option Flag := spellings.lookup text

/-- The flag as messages name it. -/
def label : Flag → String
  | help => "-h/--help"
  | verbose => "-v/--verbose"
  | version => "--version"

end Flag

/-- Why the arguments cannot be used. -/
inductive ArgumentError where
  /-- The argument abbreviates all of these spellings. -/
  | ambiguous (argument : List Char) (candidates : List (List Char))
  /-- A flag was given a value. -/
  | ignoredValue (flag : Flag) (value : List Char)
  /-- These arguments are neither flags nor among the files. -/
  | unrecognized (arguments : List (List Char))
deriving DecidableEq, Repr

/-- The fault as it is worded for the user. -/
def ArgumentError.message : ArgumentError → String
  | ambiguous argument candidates =>
      s!"ambiguous option: {String.ofList argument} could match " ++
        ", ".intercalate (candidates.map String.ofList)
  | ignoredValue flag value =>
      s!"argument {flag.label}: ignored explicit argument " ++ String.ofList (Text.quoted value)
  | unrecognized arguments =>
      "unrecognized arguments: " ++ " ".intercalate (arguments.map String.ofList)

/-- What an argument is by its looks. -/
inductive Argument where
  | file (text : List Char)
  /-- The mark after which every argument is a file. -/
  | separator
  /-- A flag, and the text that follows it in the same argument, if any. Only after a `short` flag
  can that text be further flags. -/
  | flag (flag : Flag) (short : Bool) (value : Option (List Char))
  /-- It looks like a flag but is none. -/
  | unknown (text : List Char)
deriving DecidableEq, Repr

namespace Argument

/-- Split a text at the first equals sign. -/
def splitValue (text : List Char) : List Char × Option (List Char) :=
  match text.dropWhile (· ≠ '=') with
  | [] => (text, none)
  | _ :: value => (text.takeWhile (· ≠ '='), some value)

/-- A decimal digit of any script. -/
def isAnyDigit (c : Char) : Bool := (Text.digit? c).isSome

/-- A non-empty run of decimal digits of any script, which a line feed may follow. -/
def isDigitLine (text : List Char) : Bool :=
  let tail := text.dropWhile isAnyDigit
  !(text.takeWhile isAnyDigit).isEmpty && (tail.isEmpty || tail == ['\n'])

/-- A negative number: digits, or a point followed by digits with or without digits before it. -/
def isNegativeNumber : List Char → Bool
  | '-' :: text =>
      isDigitLine text ||
        match text.dropWhile isAnyDigit with
        | '.' :: fraction => isDigitLine fraction
        | _ => false
  | _ => false

/-- An argument that begins with a dash and is no flag. Numbers and texts with a space are files. -/
def ofDashed (text : List Char) : Argument :=
  if isNegativeNumber text || text.contains ' ' then .file text else .unknown text

/-- An argument that begins with two dashes: the beginning of one flag, of several or of none. -/
def ofLong (text : List Char) : Except ArgumentError Argument :=
  let (name, value) := splitValue text
  match Flag.spellings.filter fun spelling => name.isPrefixOf spelling.1 with
  | [] => .ok (ofDashed text)
  | [(_, found)] => .ok (.flag found false value)
  | candidates => .error (.ambiguous text (candidates.map Prod.fst))

/-- An argument that begins with one dash: a short flag with more text behind it, or no flag. -/
def ofShort (text : List Char) : Argument :=
  match Flag.ofSpelling? (text.take 2) with
  | some found => .flag found true (some (text.drop 2))
  | none => ofDashed text

/-- The spelling has two dashes. -/
def isLong : List Char → Bool
  | '-' :: '-' :: _ => true
  | _ => false

/-- What an argument is by its looks. -/
def ofText (text : List Char) : Except ArgumentError Argument :=
  match text with
  | '-' :: _ :: _ =>
      match Flag.ofSpelling? text, Flag.ofSpelling? (splitValue text).1 with
      | some found, _ => .ok (.flag found (!isLong text) none)
      | none, some found => .ok (.flag found (!isLong text) (splitValue text).2)
      | none, none => if isLong text then ofLong text else .ok (ofShort text)
  | _ => .ok (.file text)

/-- What all arguments are by their looks. After the separator every argument is a file. -/
def ofTexts : List (List Char) → Except ArgumentError (List Argument)
  | [] => .ok []
  | text :: rest =>
      if text = ['-', '-'] then .ok (.separator :: rest.map .file)
      else do
        let argument ← ofText text
        let arguments ← ofTexts rest
        pure (argument :: arguments)

end Argument

end Sexpr.Command
