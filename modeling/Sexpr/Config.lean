import Sexpr.Log
import Sexpr.Text.Numeral
import Sexpr.Text.Quoted
import Sexpr.Text.Space
import Sexpr.Text.Uppercase

/-!
# Configuration

Two variables of the environment configure the program: the nesting limit, shared by the reader and
the evaluator, and the level of the records that are shown.
-/

namespace Sexpr

/-- The variables of the environment that the program looks at, if they are set. -/
structure Environment where
  maxDepth : Option String
  logLevel : Option String
deriving DecidableEq, Repr

/-- Why the configuration cannot be used. -/
inductive ConfigError where
  | depthNotInteger (text : String)
  | depthNotPositive (value : Int)
  | unknownLevel (name : String)
  /-- No variable can be set to a text with the null character. -/
  | nullCharacter
deriving DecidableEq, Repr

/-- The fault as it is worded for the user. -/
def ConfigError.message : ConfigError → String
  | depthNotInteger text =>
      "CATA_MAX_DEPTH must be an integer, got " ++ String.ofList (Text.quoted text.toList)
  | depthNotPositive value => s!"CATA_MAX_DEPTH must be positive, got {value}"
  | unknownLevel name => "Unknown level: " ++ String.ofList (Text.quoted name.toList)
  | nullCharacter => "embedded null byte"

namespace Environment

/-- The environment with these variables. -/
def ofVariables (maxDepth logLevel : Option String) : Except ConfigError Environment :=
  if (maxDepth.toList ++ logLevel.toList).any (·.contains '\x00') then .error .nullCharacter
  else .ok ⟨maxDepth, logLevel⟩

/-- The nesting limit of an environment that sets none. -/
def defaultDepth : Int := 128

/-- The nesting limit: a positive integer, with white space around it. An empty text sets none. -/
def depthLimit (env : Environment) : Except ConfigError Int :=
  match env.maxDepth with
  | none => .ok defaultDepth
  | some text =>
      if text.isEmpty then .ok defaultDepth
      else
        match Text.integer (Text.strip text.toList) with
        | .error _ => .error (.depthNotInteger text)
        | .ok value => if value < 1 then .error (.depthNotPositive value) else .ok value

/-- The name of the level of records that are shown, in upper case and without white space around
it. Whether there is such a level is not looked at. -/
def levelName (env : Environment) : String :=
  String.ofList (Text.uppercase (Text.strip (env.logLevel.getD "WARNING").toList))

/-- The level of records that are shown. -/
def level (env : Environment) : Except ConfigError LogLevel :=
  match LogLevel.ofName? env.levelName with
  | some level => .ok level
  | none => .error (.unknownLevel env.levelName)

end Environment

end Sexpr
