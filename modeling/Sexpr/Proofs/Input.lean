import Sexpr.Eval.Machine

/-!
# Input line by line and word by word

The machine fetches its input a line at a time, and lines end in white space, so no word reaches
from one line into the next. What is left of the input is `Machine.words`: the words that wait and
then those of the text that is still to be fetched. `Machine.takeWord_eq` says that taking a word
takes the first of these.
-/

namespace Sexpr

namespace Text

/-- The empty text has no words. -/
@[simp]
theorem words_nil : words [] = [] := by
  unfold words
  rw [List.splitOnP_nil]
  rfl

/-- A line reaches to its line feed or to the end of the text. -/
theorem splitLine_ends (text : List Char) :
    (∃ before, (splitLine text).1 = before ++ ['\n']) ∨ (splitLine text).2 = [] := by
  induction text with
  | nil => exact .inr rfl
  | cons c rest ih =>
      by_cases hc : c = '\n'
      · refine .inl ⟨[], ?_⟩
        simp [splitLine, hc]
      · simp only [splitLine, if_neg hc]
        obtain ⟨before, hbefore⟩ | hrest := ih
        · exact .inl ⟨c :: before, by rw [hbefore]; rfl⟩
        · exact .inr hrest

/-- The words of the first line and those of the text after it are the words of the text. -/
theorem words_splitLine (text : List Char) :
    words (splitLine text).1 ++ words (splitLine text).2 = words text := by
  have hspace : isSpace '\n' = true := rfl
  have happend := splitLine_append text
  obtain ⟨before, hbefore⟩ | hrest := splitLine_ends text
  · rw [hbefore, List.append_assoc, List.singleton_append] at happend
    rw [hbefore, words_append_cons hspace, words_nil, List.append_nil, ← happend,
      words_append_cons hspace]
    rw [happend]
  · rw [hrest, List.append_nil] at happend
    rw [hrest, happend, words_nil, List.append_nil]

/-- A text without white space that is not empty is one word. -/
theorem words_eq_singleton {text : List Char} (hsolid : ∀ c ∈ text, isSpace c = false)
    (hnonempty : text ≠ []) : words text = [text] := by
  unfold words
  rw [List.splitOnP_eq_singleton hsolid]
  simpa using hnonempty

/-- The words of a text after the first are the words of a text. -/
theorem exists_words_eq_tail (text : List Char) : ∃ rest, words rest = (words text).tail := by
  induction text with
  | nil => exact ⟨[], by rw [words_nil]; rfl⟩
  | cons c text ih =>
      by_cases hc : isSpace c = true
      · have hskip := words_append_cons hc [] text
        rw [List.nil_append, words_nil, List.nil_append] at hskip
        rwa [hskip]
      · -- The first word reaches to the next white space, or to the end of the text.
        have hsolid : ∀ d ∈ (c :: text).takeWhile (!isSpace ·), isSpace d = false := by
          intro d hd
          simpa using List.all_eq_true.mp List.all_takeWhile d hd
        have hfirst := words_eq_singleton hsolid (by simp [hc])
        have happend := List.takeWhile_append_dropWhile (p := (!isSpace ·)) (l := c :: text)
        cases hrest : (c :: text).dropWhile (!isSpace ·) with
        | nil =>
            rw [hrest, List.append_nil] at happend
            rw [happend] at hfirst
            exact ⟨[], by rw [hfirst, words_nil]; rfl⟩
        | cons d rest =>
            have hd : isSpace d = true := by
              have hhead := List.head?_dropWhile_not (!isSpace ·) (c :: text)
              rw [hrest] at hhead
              simpa using hhead
            rw [hrest] at happend
            refine ⟨rest, ?_⟩
            rw [← happend, words_append_cons hd, hfirst]
            rfl

/-- The last words of a text are the words of a text. -/
theorem exists_words_eq_of_suffix {text : List Char} {last : List (List Char)}
    (h : last <:+ words text) : ∃ rest, words rest = last := by
  obtain ⟨first, hfirst⟩ := h
  induction first generalizing text with
  | nil => exact ⟨text, hfirst.symm⟩
  | cons word first ih =>
      obtain ⟨rest, hrest⟩ := exists_words_eq_tail text
      rw [← hfirst] at hrest
      exact ih hrest.symm

end Text

namespace Machine

/-- The words that were fetched and those of the text that was not are the words of the text. -/
theorem words_fetch (text : List Char) :
    (fetch text).1 ++ Text.words (fetch text).2 = Text.words text := by
  fun_induction fetch text with
  | case1 text hempty =>
      rw [List.isEmpty_iff.mp hempty]
      rfl
  | case2 text hnonempty hblank ih => rw [ih, ← Text.words_splitLine text, hblank, List.nil_append]
  | case3 text hnonempty hwords => exact Text.words_splitLine text

/-- No words are fetched only if none are left. -/
theorem words_eq_nil_of_fetch {text : List Char} (h : (fetch text).1 = []) :
    Text.words text = [] ∧ (fetch text).2 = [] := by
  fun_induction fetch text with
  | case1 text hempty =>
      rw [List.isEmpty_iff.mp hempty]
      exact ⟨Text.words_nil, rfl⟩
  | case2 text hnonempty hblank ih =>
      rw [← Text.words_splitLine text, hblank, List.nil_append]
      exact ih h
  | case3 text hnonempty hwords => exact absurd h hwords

/-- The words of the input that are not yet taken. -/
def words (m : Machine) : List (List Char) := m.pending ++ Text.words m.unread

/-- Taking a word takes the first that is left and moves nothing but the place in the input. -/
theorem takeWord_eq (m : Machine) :
    m.takeWord.1 = m.words.head? ∧ m.takeWord.2.words = m.words.tail ∧
      m.takeWord.2 = { m with pending := m.takeWord.2.pending, unread := m.takeWord.2.unread } := by
  unfold takeWord words
  split
  · next word pending hpending =>
      rw [hpending]
      exact ⟨rfl, rfl, rfl⟩
  · next hpending =>
      have hwords := words_fetch m.unread
      rw [hpending, List.nil_append]
      split
      · next unread hfetch =>
          -- A fetch without words has gone to the end of the input, so none are left there either.
          obtain ⟨hnone, hunread⟩ := words_eq_nil_of_fetch (congrArg Prod.fst hfetch)
          rw [hfetch] at hunread
          dsimp only at hunread ⊢
          rw [hnone, hunread]
          exact ⟨rfl, Text.words_nil, rfl⟩
      · next word pending unread hfetch =>
          rw [hfetch, List.cons_append] at hwords
          rw [← hwords]
          exact ⟨rfl, rfl, rfl⟩

end Machine

end Sexpr
