import Mathlib.Data.List.Induction
import Sexpr.Proofs.Acceptance
import Sexpr.Proofs.Matching
import Sexpr.Proofs.Translation

/-!
# One program after another

Two source texts with blanks between them are read as the forms of the first and then the forms of
the second, whose positions are counted on from the end of the blanks: `Position.shift` says by how
much. Running the two as one text is running them one after the other, which
`concatenation_runs_in_sequence` states together with what is read.
-/

namespace Sexpr

namespace Position

/-- The position after `text` is put in front of the text it belongs to. Only on the first line of
that text does the column change: by the number of characters on the last line of `text`. -/
def shift (text : List Char) (p : Position) : Position where
  offset := p.offset + text.length
  line := p.line + text.count '\n'
  column :=
    if p.line = 1 then p.column + (text.reverse.takeWhile (· ≠ '\n')).length else p.column

/-- The beginning of a text is shifted to the end of what is put in front of it. -/
theorem shift_start (text : List Char) : start.shift text = start.after text := by
  induction text using List.reverseRecOn with
  | nil => rfl
  | append_singleton text c ih =>
      rw [after_append, ← ih]
      by_cases hc : c = '\n'
      · simp [shift, start, advance, hc]
        omega
      · simp [shift, start, advance, hc]
        omega

/-- From the first line on, shifting keeps step with one character. -/
theorem shift_advance (text : List Char) {p : Position} (h : 1 ≤ p.line) (c : Char) :
    (p.advance c).shift text = (p.shift text).advance c := by
  by_cases hc : c = '\n'
  · have hline : p.line + 1 ≠ 1 := by omega
    simp [shift, advance, hc, hline]
    omega
  · by_cases hline : p.line = 1
    · simp [shift, advance, hc, hline]
      omega
    · simp [shift, advance, hc, hline]
      omega

/-- From the first line on, shifting keeps step with every text. -/
theorem inStep_shift (text : List Char) {p : Position} (h : 1 ≤ p.line) :
    InStep (shift text) p := by
  intro more
  induction more generalizing p with
  | nil => rfl
  | cons c more ih =>
      have hline : 1 ≤ (p.advance c).line := by
        unfold advance
        split
        · exact Int.le_trans h (Int.le_add_of_nonneg_right (by decide))
        · exact h
      rw [after_cons, after_cons, ih hline, shift_advance text h]

end Position

/-! ## Reading -/

/-- Reading all forms leaves the reader where reading ended. -/
theorem Reader.cursor_readForms (reader : Reader) :
    reader.readForms.2.cursor = reader.outcome.cursor := by
  unfold Reader.readForms
  dsimp only
  split <;> rfl

/-- Before a closing parenthesis something is left. -/
theorem Reader.atEnd_of_closing {reader : Reader} (h : reader.cursor.rest.head? = some ')') :
    reader.atEnd = false := by
  obtain ⟨⟨rest, p⟩, depth, limit⟩ := reader
  obtain ⟨more, rfl⟩ := List.head?_eq_some_iff.mp h
  have hskip : Cursor.skipBlanks ⟨')' :: more, p⟩ = ⟨')' :: more, p⟩ :=
    Cursor.skipBlanks_eq_self (by simp [isBlank])
  simp [Reader.atEnd, Reader.skipBlanks, Reader.peek, hskip, Cursor.peek]

/-- A text that is read up to its end is read without a fault and without an unmatched
parenthesis. -/
theorem resume_of_atEnd {source : String} {limit : Int} {forms : List Node} {reader : Reader}
    (h : (Reader.ofText source limit).readForms = (.ok forms, reader))
    (hend : reader.atEnd = true) :
    (resume limit 0 [] (.ofText source.toList)).halt = .finished ∧
      (resume limit 0 [] (.ofText source.toList)).forms.map Prod.fst = forms := by
  have hparse : parse source limit = .ok forms := congrArg Prod.fst h
  obtain ⟨hhalt, hforms⟩ := parse_eq_ok_iff.mp hparse
  refine ⟨?_, hforms⟩
  have hcursor : reader.cursor = (resume limit 0 [] (.ofText source.toList)).cursor := by
    have hreader := (Reader.ofText source limit).cursor_readForms
    rw [h] at hreader
    exact hreader
  have hfits := halt_fits_resume limit 0 [] (.ofText source.toList)
  cases hcase : (resume limit 0 [] (.ofText source.toList)).halt with
  | finished => rfl
  | fault error => exact absurd hcase (hhalt error)
  | unmatched =>
      rw [hcase, ← hcursor] at hfits
      rw [Reader.atEnd_of_closing hfits] at hend
      cases hend

/-- After a text that is read to its end and blanks, another text is read as it is on its own, with
its positions shifted. -/
theorem resume_append {limit : Int} {first blanks : List Char} (second : List Char)
    (hfinished : (resume limit 0 [] (.ofText first)).halt = .finished)
    (hblanks : ∀ c ∈ blanks, isBlank c = true) (hnonempty : blanks ≠ []) :
    (resume limit 0 [] (.ofText (first ++ blanks ++ second))).forms.map Prod.fst =
        (resume limit 0 [] (.ofText first)).forms.map Prod.fst ++
          Node.relocateItems (some ∘ Position.shift (first ++ blanks))
            ((resume limit 0 [] (.ofText second)).forms.map Prod.fst) ∧
      (resume limit 0 [] (.ofText (first ++ blanks ++ second))).halt =
        (resume limit 0 [] (.ofText second)).halt.move (Position.shift (first ++ blanks)) := by
  have hmore : EndsAtom (blanks ++ second) := by
    obtain ⟨c, blanks, rfl⟩ := List.exists_cons_of_ne_nil hnonempty
    rintro d ⟨⟩
    simp [isDelimiter, hblanks c List.mem_cons_self]
  obtain ⟨hforms, hhalt⟩ := resume_extend hmore [] (.ofText first) hfinished
  -- The second text is read from where the first text and the blanks end.
  have hcursor : (resume limit 0 [] (.ofText first)).cursor =
      ⟨[], Position.start.after first⟩ := by
    have hfits := halt_fits_resume limit 0 [] (.ofText first)
    rw [hfinished] at hfits
    have hposition := (reaches_resume limit 0 [] (.ofText first)).position_of_nil hfits
    exact congr (congrArg Cursor.mk hfits) hposition
  have hnext : Cursor.next ⟨blanks ++ second, Position.start.after first⟩ =
      Cursor.next ((Cursor.ofText second).move (Position.shift (first ++ blanks))) := by
    rw [Cursor.next_append_blanks hblanks, ← Position.after_append, ← Position.shift_start]
    rfl
  have hsecond : resume limit 0 []
        ((resume limit 0 [] (.ofText first)).cursor.extend (blanks ++ second)) =
      (resume limit 0 [] (.ofText second)).move (Position.shift (first ++ blanks)) := by
    rw [hcursor]
    refine (resume_congr hnext).trans ?_
    exact resume_move limit 0 [] (.ofText second) (Position.inStep_shift _ (Int.le_refl 1))
  have hwhole : (Cursor.ofText first).extend (blanks ++ second) =
      .ofText (first ++ blanks ++ second) := by
    rw [List.append_assoc]
    rfl
  rw [hwhole, hsecond] at hforms hhalt
  refine ⟨?_, hhalt⟩
  rw [hforms, Node.relocateItems_eq_map]
  simp [Outcome.move, Function.comp_def]

/-- After a text that is read to its end and blanks, another text gives its forms or its fault, with
the positions shifted. -/
theorem parse_append {first blanks : String} {limit : Int} {forms : List Node} {reader : Reader}
    (second : String) (hread : (Reader.ofText first limit).readForms = (.ok forms, reader))
    (hend : reader.atEnd = true) (hnonempty : blanks ≠ "")
    (hblanks : ∀ c ∈ blanks.toList, isBlank c = true) :
    parse (first ++ blanks ++ second) limit =
      match parse second limit with
      | .ok more =>
          .ok (forms ++ Node.relocateItems (some ∘ Position.shift (first ++ blanks).toList) more)
      | .error error => .error (error.move (Position.shift (first ++ blanks).toList)) := by
  obtain ⟨hfinished, rfl⟩ := resume_of_atEnd hread hend
  obtain ⟨hforms, hhalt⟩ := resume_append second.toList hfinished hblanks (by simpa using hnonempty)
  simp only [← String.toList_append] at hforms hhalt
  cases hcase : (resume limit 0 [] (.ofText second.toList)).halt with
  | fault error =>
      rw [hcase] at hhalt
      rw [parse_of_fault hcase, parse_of_fault hhalt]
  | finished | unmatched =>
      have hsecond : parse second limit = .ok _ := parse_eq_ok_iff.mpr ⟨by simp [hcase], rfl⟩
      rw [hcase] at hhalt
      rw [hsecond]
      exact parse_eq_ok_iff.mpr ⟨by simp only [hhalt]; exact nofun, hforms⟩

/-! ## Running -/

namespace Interpreter

/-- Forms are run one after the other. -/
theorem runForms_append (forms more : List Node) :
    runForms (forms ++ more) = runForms forms >>= fun _ => runForms more := by
  induction forms with
  | nil => rfl
  | cons form forms ih => simp only [List.cons_append, runForms, ih, bind_assoc]

/-- Run a source text and, if that returned, another one whose faults are relocated. -/
def runInTurn (first second : String) (f : Position → Option Position) : Eval Unit := do
  run first
  (run second).relocate f

/-- A text that is read as the forms of two others, the second of them relocated, does what the two
do in turn. -/
theorem run_matches_of_append {whole first second : String} {limit : Int} {forms more : List Node}
    {f : Position → Option Position}
    (hwhole : parse whole limit = .ok (forms ++ Node.relocateItems f more))
    (hfirst : parse first limit = .ok forms) (hsecond : parse second limit = .ok more) :
    Eval.Matches limit (run whole) (runInTurn first second f) := by
  have hforms := run_matches hwhole
  rw [runForms_append, runForms_relocate] at hforms
  refine hforms.trans ?_
  exact (run_matches hfirst).symm.bind fun _ => ((run_matches hsecond).relocate f).symm

end Interpreter

/-- A source text that is read to its end, blanks, and another source text make one text. It can be
read exactly if the second text can: as the forms of the first, with their positions, and the forms
of the second, with all positions shifted, or with the fault of the second, shifted. If it is read,
running it ends like running the first text and, if that returned, the second, with the positions of
its faults shifted, and leaves the same output and the same words. -/
theorem concatenation_runs_in_sequence (first blanks second : String) (limit : Int)
    (forms : List Node) (reader : Reader)
    (hread : (Reader.ofText first limit).readForms = (.ok forms, reader))
    (hend : reader.atEnd = true) (hnonempty : blanks ≠ "")
    (hblanks : ∀ c ∈ blanks.toList, isBlank c = true) :
    parse (first ++ blanks ++ second) limit =
      (match parse second limit with
        | .ok more =>
            .ok (forms ++
              Node.relocateItems (some ∘ Position.shift (first ++ blanks).toList) more)
        | .error error => .error (error.move (Position.shift (first ++ blanks).toList))) ∧
    ∀ (m : Machine) (more : List Node), m.limit = limit → parse second limit = .ok more →
      (Interpreter.run (first ++ blanks ++ second) m).1 =
        (Interpreter.runInTurn first second
          (some ∘ Position.shift (first ++ blanks).toList) m).1 ∧
      (Interpreter.run (first ++ blanks ++ second) m).2.output =
        (Interpreter.runInTurn first second
          (some ∘ Position.shift (first ++ blanks).toList) m).2.output ∧
      (Interpreter.run (first ++ blanks ++ second) m).2.words =
        (Interpreter.runInTurn first second
          (some ∘ Position.shift (first ++ blanks).toList) m).2.words := by
  have hparse := parse_append second hread hend hnonempty hblanks
  refine ⟨hparse, ?_⟩
  rintro m more rfl hsecond
  rw [hsecond] at hparse
  obtain ⟨hsame, hlevel⟩ := Interpreter.run_matches_of_append hparse (congrArg Prod.fst hread)
    hsecond m m ⟨rfl, rfl, rfl, rfl⟩
  exact ⟨hsame, hlevel.output_eq, hlevel.words_eq⟩

/-- After a text of two lines that ends with an atom, a literal that is not closed and an unbound
name are found in the column that is counted on from that atom. -/
theorem concatenation_shifts_faults :
    parse ("(print-int 1)\n7" ++ "\t " ++ "x \"") 1 =
      .error ⟨.unterminated, ⟨19, 2, 6⟩⟩ ∧
    (Interpreter.run ("(print-int 1)\n7" ++ "\t " ++ "8 (foo)") (.ofInput "" 1)).1 =
      .error (.failed ⟨.unbound (.ofText "FOO"), some ⟨20, 2, 7⟩⟩) ∧
    (Interpreter.run ("(print-int 1)\n7" ++ "\t " ++ "8 (foo)") (.ofInput "" 1)).2.output =
      ['1', '\n'] := by
  obtain ⟨forms, hforms, -⟩ :
      ∃ forms ∈ (parse "(print-int 1)\n7" 1).toOption, forms.length = 2 := by
    decide +kernel
  have hread : (Reader.ofText "(print-int 1)\n7" 1).readForms = (.ok forms, _) :=
    Prod.ext (parse_of_mem_toOption hforms) rfl
  have hend : (Reader.ofText "(print-int 1)\n7" 1).readForms.2.atEnd = true := by decide +kernel
  have hblanks : ∀ c ∈ "\t ".toList, isBlank c = true := by simp [isBlank]
  have hopen : parse "x \"" 1 = .error ⟨.unterminated, ⟨2, 1, 3⟩⟩ :=
    parse_of_fault (by decide +kernel)
  obtain ⟨more, hmore, -⟩ : ∃ more ∈ (parse "8 (foo)" 1).toOption, more.length = 2 := by
    decide +kernel
  obtain ⟨hsame, houtput, -⟩ := (concatenation_runs_in_sequence _ _ "8 (foo)" 1 _ _ hread hend
    (by decide) hblanks).2 (.ofInput "" 1) more rfl (parse_of_mem_toOption hmore)
  refine ⟨?_, ?_, ?_⟩
  · rw [(concatenation_runs_in_sequence _ _ "x \"" 1 _ _ hread hend (by decide) hblanks).1, hopen]
    exact congrArg Except.error (by decide +kernel)
  · rw [hsame]
    decide +kernel
  · rw [houtput]
    decide +kernel

end Sexpr
