import Sexpr.Proofs.Matching
import Sexpr.Proofs.RoundTrip

/-!
# Writing a program anew

Layout, letter case, escapes and leading zeros are gone once a source text is read. What a program
does depends on its forms alone: `Interpreter.run_matches_of_same_forms` compares two texts that are
read as the same forms. Every text without a literal that wraps to a negative integer can be
replaced by what is written for its forms, with a space between two of them:
`reformatting_preserves_run`.
-/

namespace Sexpr

/-- Two computations ended alike: with the same result, or because the program ended itself, or with
the same fault, whose kind and message do not say where it is. -/
def EndsLike {α : Type} : Except Stop α → Except Stop α → Prop
  | .ok value, .ok other => value = other
  | .error .exit, .error .exit => True
  | .error (.misread error), .error (.misread other) => error.fault = other.fault
  | .error (.failed error), .error (.failed other) => error.fault = other.fault
  | _, _ => False

/-- Ends that are the same once positions are dropped are alike. -/
theorem endsLike_of_relocate {α : Type} {end₁ end₂ : Except Stop α}
    (h : end₁.mapError (Stop.relocate fun _ => none) =
      end₂.mapError (Stop.relocate fun _ => none)) : EndsLike end₁ end₂ := by
  cases end₁ with
  | ok value =>
      cases end₂ with
      | ok other =>
          cases h
          exact rfl
      | error => cases h
  | error stop =>
      cases end₂ with
      | ok => cases h
      | error other =>
          have hstop : stop.relocate (fun _ => none) = other.relocate fun _ => none :=
            Except.error.inj h
          cases stop <;> cases other <;> simp_all [Stop.relocate, EndsLike]

namespace Interpreter

/-- Texts that are read as the same forms do the same, up to the positions of faults. -/
theorem run_matches_of_same_forms {source other : String} {limit : Int} {forms others : List Node}
    (h : parse source limit = .ok forms) (hother : parse other limit = .ok others)
    (hsame : Node.bareItems forms = Node.bareItems others) :
    Eval.Matches limit ((run source).relocate fun _ => none)
      ((run other).relocate fun _ => none) := by
  have hbare : (runForms forms).relocate (fun _ => none) =
      (runForms others).relocate fun _ => none := by
    rw [← runForms_relocate, ← runForms_relocate, Node.relocateItems_none, Node.relocateItems_none,
      hsame]
  have hrun := (run_matches h).relocate fun _ => none
  rw [hbare] at hrun
  exact hrun.trans ((run_matches hother).relocate fun _ => none).symm

end Interpreter

namespace Node

/-- The texts of forms stand one after the other with a space between two of them. -/
theorem renderItems_eq_intercalate (nodes : List Node) :
    renderItems nodes = [' '].intercalate (nodes.map render) := by
  induction nodes with
  | nil => rfl
  | cons node nodes ih =>
      cases nodes with
      | nil => simp [renderItems]
      | cons next nodes => simp [renderItems, ih, List.intercalate_cons_cons]

/-- Forms without holes can all be written. -/
theorem map_text?_of_allWhole {nodes : List Node} (h : allWhole nodes = true) :
    nodes.map text? = (nodes.map fun node => String.ofList node.render).map some := by
  induction nodes with
  | nil => rfl
  | cons node nodes ih =>
      obtain ⟨hnode, hnodes⟩ := Bool.and_eq_true_iff.mp h
      simp only [List.map_cons, ih hnodes, text?, if_pos hnode]

end Node

/-- A source text that is read as forms without negative integers can be written anew from its
forms, with a space between two of them. What is written is read as the same forms, and run on any
machine it ends like the source text and leaves the same output and the same words. -/
theorem reformatting_preserves_run (source : String) (m : Machine) (forms : List Node)
    (hparse : parse source m.limit = .ok forms) (hnonneg : Node.allNonneg forms = true) :
    ∃ texts again, forms.map Node.text? = texts.map some ∧
      (Interpreter.read (" ".intercalate texts) m).1 = .ok again ∧
      Node.sameItems again forms = true ∧
      EndsLike (Interpreter.run (" ".intercalate texts) m).1 (Interpreter.run source m).1 ∧
      (Interpreter.run (" ".intercalate texts) m).2.output =
        (Interpreter.run source m).2.output ∧
      (Interpreter.run (" ".intercalate texts) m).2.words =
        (Interpreter.run source m).2.words := by
  obtain ⟨hlow, hroom⟩ := legible_of_parse hparse
  have hlegible : Node.LegibleItems 0 forms := hlow.of_allNonneg hnonneg
  have hwritten : (" ".intercalate (forms.map fun node => String.ofList node.render)).toList =
      Node.renderItems forms := by
    rw [String.toList_intercalate, Node.renderItems_eq_intercalate, List.map_map]
    simp [Function.comp_def]
  have hends : EndsAtom [] := nofun
  have hsequence := Node.sequence_render hlegible hends
  rw [hlegible.asRead_eq, List.append_nil, ← hwritten] at hsequence
  obtain ⟨again, hagain, hsame⟩ := parse_complete hsequence (.inl rfl) hroom
  have hlevel : Machine.Level m.limit m m := ⟨rfl, rfl, rfl, rfl⟩
  obtain ⟨hend, hafter⟩ :=
    Interpreter.run_matches_of_same_forms hagain hparse hsame m m hlevel
  exact ⟨_, again, Node.map_text?_of_allWhole hlegible.allWhole,
    (Interpreter.read_matches hagain m m hlevel).1, (Node.sameItems_iff again forms).mpr hsame,
    endsLike_of_relocate hend, hafter.output_eq, hafter.words_eq⟩

/-- A text with line breaks, small letters, an escape, leading zeros, an unbound name on its second
line and junk after an unmatched parenthesis can be written anew. -/
theorem untidy_run_is_preserved :
    ∃ forms texts again, parse "(print-int(read-int))\r\n\t(foo \"\\\"\" 007))x(" 2 = .ok forms ∧
      Node.allNonneg forms = true ∧ forms.map Node.text? = texts.map some ∧
      (Interpreter.read (" ".intercalate texts) (.ofInput "5 6" 2)).1 = .ok again ∧
      Node.sameItems again forms = true ∧
      EndsLike (Interpreter.run (" ".intercalate texts) (.ofInput "5 6" 2)).1
        (Interpreter.run "(print-int(read-int))\r\n\t(foo \"\\\"\" 007))x(" (.ofInput "5 6" 2)).1 ∧
      (Interpreter.run (" ".intercalate texts) (.ofInput "5 6" 2)).2.output = ['5', '\n'] ∧
      (Interpreter.run (" ".intercalate texts) (.ofInput "5 6" 2)).2.words = [['6']] := by
  obtain ⟨forms, hforms, hnonneg⟩ :
      ∃ forms ∈ (parse "(print-int(read-int))\r\n\t(foo \"\\\"\" 007))x(" 2).toOption,
        Node.allNonneg forms = true := by
    decide +kernel
  have hparse := parse_of_mem_toOption hforms
  obtain ⟨texts, again, htexts, hagain, hsame, hend, houtput, hwords⟩ :=
    reformatting_preserves_run _ (.ofInput "5 6" 2) forms hparse hnonneg
  refine ⟨forms, texts, again, hparse, hnonneg, htexts, hagain, hsame, hend, ?_, ?_⟩
  · rw [houtput]
    decide +kernel
  · rw [hwords]
    decide +kernel

end Sexpr
