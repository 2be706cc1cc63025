/-!
# White space and words

White space is what separates words in running text of any script: more than the blanks that the
grammar of forms knows. `words` splits a text at it, `strip` removes it from both ends.
-/

namespace Sexpr.Text

/-- The white space of every script. -/
def isSpace (c : Char) : Bool :=
  let code := c.toNat
  (0x9 ≤ code && code ≤ 0xD) || (0x1C ≤ code && code ≤ 0x20) || code == 0x85 || code == 0xA0 ||
    code == 0x1680 || (0x2000 ≤ code && code ≤ 0x200A) || code == 0x2028 || code == 0x2029 ||
    code == 0x202F || code == 0x205F || code == 0x3000

/-- The words of a text, in order: its maximal non-empty runs without white space. -/
def words (text : List Char) : List (List Char) :=
  (text.splitOnP isSpace).filter (!·.isEmpty)

/-- White space ends a word: the words before it and those after it are all there are. -/
theorem words_append_cons {c : Char} (hc : isSpace c = true) (before rest : List Char) :
    words (before ++ c :: rest) = words before ++ words rest := by
  unfold words
  rw [List.splitOnP_append_cons before rest hc, List.filter_append]

/-- The text without the white space at its two ends. -/
def strip (text : List Char) : List Char :=
  ((text.dropWhile isSpace).reverse.dropWhile isSpace).reverse

end Sexpr.Text
