/-!
# Lines

Input is taken line by line; a line reaches up to and includes its line feed. Source files may end
their lines in any of three ways, and are brought to the line feed before they are read.
-/

namespace Sexpr.Text

/-- The first line of a text, its line feed included, and the text after it. -/
def splitLine : List Char → List Char × List Char
  | [] => ([], [])
  | c :: rest =>
      if c = '\n' then ([c], rest)
      else
        let later := splitLine rest
        (c :: later.1, later.2)

/-- A line and the text after it make up the text. -/
theorem splitLine_append (text : List Char) : (splitLine text).1 ++ (splitLine text).2 = text := by
  induction text with
  | nil => rfl
  | cons c rest ih => by_cases h : c = '\n' <;> simp [splitLine, h, ih]

/-- The first line of a text takes at least one of its characters. -/
theorem length_splitLine_snd (text : List Char) :
    (splitLine text).2.length ≤ text.length - 1 := by
  induction text with
  | nil => simp [splitLine]
  | cons c rest ih =>
      by_cases h : c = '\n'
      · simp [splitLine, h]
      · simp only [splitLine, h, if_false, List.length_cons]
        omega

/-- Every carriage return, with the line feed after it if there is one, becomes a line feed. -/
def unifyLineEnds : List Char → List Char
  | [] => []
  | '\r' :: '\n' :: rest => '\n' :: unifyLineEnds rest
  | '\r' :: rest => '\n' :: unifyLineEnds rest
  | c :: rest => c :: unifyLineEnds rest

end Sexpr.Text
