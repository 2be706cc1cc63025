import Sexpr.Proofs.Acceptance
import Sexpr.Proofs.Legible

/-!
# Reading what was written

A legible tree that is not nested too deep is read back from its text as `Node.asRead` says. Since
the reader returns nothing that is not legible, `text_reads_back` can say exactly which trees are
read back as they were.
-/

namespace Sexpr

variable {limit : Int} {node : Node}

/-- What is read is legible and not nested deeper than the limit. -/
theorem legible_of_parse {source : String} {nodes : List Node}
    (h : parse source limit = .ok nodes) :
    Node.LegibleItems (-2147483648) nodes ∧ Node.nestingItems nodes ≤ room limit 0 := by
  obtain ⟨hroom, hderived⟩ := parse_sound h
  refine ⟨?_, hroom⟩
  rcases hderived with hend | ⟨more, hclose⟩
  · exact hend.legible
  · exact hclose.legible

/-- What is read as one form is legible and not nested deeper than the limit. -/
theorem legible_of_parseForm {source : String} (h : parseForm source limit = .ok node) :
    node.Legible (-2147483648) ∧ node.nesting ≤ room limit 0 := by
  obtain ⟨hhalt, hforms⟩ := parseForm_eq_ok_iff.mp h
  have hparse : parse source limit = .ok [node] :=
    parse_eq_ok_iff.mpr ⟨by simp [hhalt], hforms⟩
  obtain ⟨hlegible, hroom⟩ := legible_of_parse hparse
  exact ⟨hlegible.1, Nat.le_trans (Nat.le_max_left _ _) hroom⟩

/-- A derived form that makes up a whole text is read as that form. -/
theorem parseForm_of_form {text : List Char} (h : Form text node [])
    (hroom : node.nesting ≤ room limit 0) :
    ∃ read, parseForm (String.ofList text) limit = .ok read ∧ read.bare = node.bare := by
  obtain ⟨read, q, hbare, hspans⟩ := h.spans .start
  have hfits : read.nesting + ([] : List OpenList).length ≤ room limit 0 := by
    rwa [← Node.nesting_bare, hbare, Node.nesting_bare]
  have houtcome := hspans.resume_eq hfits
  have hend : Cursor.skipBlanks ⟨[], q⟩ = ⟨[], q⟩ := rfl
  rw [absorb, resume_of_skipBlanks (congrArg Cursor.rest hend)] at houtcome
  refine ⟨read, parseForm_eq_ok_iff.mpr ?_, hbare⟩
  simp [Cursor.ofText, houtcome]

/-- The text of a legible tree within the limit is read as `Node.asRead` says. -/
theorem parseForm_render {low : Int} (h : node.Legible low) (hroom : node.nesting ≤ room limit 0) :
    ∃ read, parseForm (String.ofList node.render) limit = .ok read ∧
      read.bare = node.asRead.bare := by
  have hends : EndsAtom [] := nofun
  have hform := Node.form_render h hends
  rw [List.append_nil] at hform
  exact parseForm_of_form hform (by simpa using hroom)

/-- A tree is read back from its text exactly when it is not nested deeper than the limit and its
leaves are legible, with no negative integer among them. -/
theorem text_reads_back (node : Node) (limit : Int) :
    (∃ text read, node.text? = some text ∧ parseForm text limit = .ok read ∧
        Node.same read node = true) ↔
      (node.nesting : Int) ≤ max limit 0 ∧ node.Legible 0 := by
  constructor
  · rintro ⟨text, read, htext, hread, hsame⟩
    have hbare := (Node.same_iff read node).mp hsame
    obtain ⟨hlegible, hroom⟩ := legible_of_parseForm hread
    rw [← Node.legible_bare, hbare, Node.legible_bare] at hlegible
    rw [← Node.nesting_bare, hbare, Node.nesting_bare] at hroom
    obtain ⟨again, hagain, hasRead⟩ := parseForm_render hlegible hroom
    have hrender : String.ofList node.render = text := by
      rw [Node.text?, if_pos hlegible.isWhole] at htext
      exact Option.some.inj htext
    rw [hrender, hread] at hagain
    cases hagain
    exact ⟨le_room_iff.mp hroom, hlegible.nonneg (hasRead.symm.trans hbare)⟩
  · rintro ⟨hnesting, hlegible⟩
    obtain ⟨read, hread, hbare⟩ := parseForm_render hlegible (le_room_iff.mpr hnesting)
    rw [hlegible.asRead_eq] at hbare
    exact ⟨_, read, if_pos hlegible.isWhole, hread, (Node.same_iff read node).mpr hbare⟩

end Sexpr
