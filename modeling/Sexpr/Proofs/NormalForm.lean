import Sexpr.Proofs.Reformatting

/-!
# What the reader can return, and how it is written

`trees_that_are_read` describes the trees that the reader returns for some text, leaf by leaf. A
text for such a tree is what is written for it, except that a negative integer has no spelling of
its own: it is spelled by the number below `2 ^ 32` that wraps to it (`Node.unwrapped`). What is
written for a tree that was read is a normal form: `written_form_is_normal` says what is read from
it, which is `Node.asRead`, and that this is written in the same way.
-/

namespace Sexpr

/-! ## Every tree that can be read -/

/-- The name of a symbol that is read: the text of an atom, not all digits, in upper case. -/
structure IsName (name : List Char) : Prop extends IsAtom name where
  notDigits : Word.isDigits name = false
  notLower : ∀ c ∈ name, c.isLower = false

/-- A symbol has no letter in lower case. -/
theorem Symbol.isLower_eq_false (s : Symbol) {c : Char} (hc : c ∈ s.name.toList) :
    c.isLower = false := by
  have hupper : s.name.toList.map Char.toUpper = s.name.toList := by
    rw [← String.toList_ofList (l := s.name.toList.map Char.toUpper)]
    exact congrArg String.toList s.upcase_name
  rw [← hupper] at hc
  obtain ⟨d, -, rfl⟩ := List.mem_map.mp hc
  rw [Bool.eq_false_iff]
  intro hlower
  have hrange : (decide ('a'.val ≤ d.toUpper.val) && decide (d.toUpper.val ≤ 'z'.val)) = true :=
    hlower
  exact not_lower_toUpper d (by simpa using hrange)

namespace Node

/-- The form by itself, whatever occurs within it, can be read: a symbol has a name that can be
read, a string has no backslash, and an integer is a word. There is no hole. -/
def IsReadable : Node → Prop
  | list _ _ => True
  | symbol s _ => IsName s.name.toList
  | string text _ => '\\' ∉ text.toList
  | integer value _ => Word.InRange value
  | hole => False

mutual

/-- A form is legible if it and everything within it can be read. -/
theorem legible_iff (node : Node) :
    node.Legible (-2147483648) ↔ ∀ form ∈ node.subforms, form.IsReadable := by
  cases node with
  | list items p =>
      simp only [Legible, subforms, List.forall_mem_cons, IsReadable, true_and]
      exact legibleItems_iff items
  | symbol s p =>
      simp only [subforms, List.forall_mem_singleton]
      constructor
      · intro h
        exact ⟨h.1, h.2, fun c hc => s.isLower_eq_false hc⟩
      · intro h
        exact ⟨h.toIsAtom, h.notDigits⟩
  | string | integer | hole =>
      simp only [subforms, List.forall_mem_singleton]
      exact Iff.rfl

/-- Forms are legible if they and everything within them can be read. -/
theorem legibleItems_iff (nodes : List Node) :
    LegibleItems (-2147483648) nodes ↔ ∀ form ∈ subformsItems nodes, form.IsReadable := by
  cases nodes with
  | nil => simp [LegibleItems, subformsItems]
  | cons node nodes =>
      simp only [LegibleItems, subformsItems, List.forall_mem_append, legible_iff node,
        legibleItems_iff nodes]

end

mutual

/-- The form with every negative integer replaced by the number below `2 ^ 32` that wraps to it. -/
def unwrapped : Node → Node
  | list items position => list (unwrappedItems items) position
  | integer value position => integer (value % Word.size) position
  | node => node

/-- The forms with every negative integer replaced by the number that wraps to it. -/
def unwrappedItems : List Node → List Node
  | [] => []
  | node :: nodes => unwrapped node :: unwrappedItems nodes

end

/-- A word is read from the digits of its residue. -/
theorem form_residue {value : Int} (h : Word.InRange value) {rest : List Char}
    (hrest : EndsAtom rest) (position : Option Position) :
    Form ((toString (value % Word.size)).toList ++ rest) (.integer value position) rest := by
  have hnonneg : 0 ≤ value % Word.size := Int.emod_nonneg value (by decide)
  have hwrap : Word.wrap (value % Word.size) = value := by
    rw [Word.wrap, Int.emod_bmod]
    exact Word.wrap_eq_self h
  have hform := form_toDigits (value % Word.size).toNat hrest position
  rwa [Int.toNat_of_nonneg hnonneg, hwrap, ← Word.toList_toString_of_nonneg hnonneg] at hform

mutual

/-- What is written for a legible form with its integers unwrapped derives the form itself. -/
theorem form_unwrapped {node : Node} (h : node.Legible (-2147483648)) {rest : List Char}
    (hrest : EndsAtom rest) : Form (node.unwrapped.render ++ rest) node rest := by
  cases node with
  | list items p =>
      have hitems := sequence_unwrapped h (endsAtom_closing rest)
      simpa [unwrapped, render] using Form.list p hitems
  | integer value p => exact form_residue h hrest p
  | symbol | string => exact form_render h hrest
  | hole => exact absurd h id

/-- What is written for legible forms with their integers unwrapped derives the forms. -/
theorem sequence_unwrapped {nodes : List Node} (h : LegibleItems (-2147483648) nodes)
    {rest : List Char} (hrest : EndsAtom rest) :
    Sequence (renderItems (unwrappedItems nodes) ++ rest) nodes rest := by
  match nodes with
  | [] => exact .nil (.none rest)
  | [node] => exact .cons (.none _) (form_unwrapped h.1 hrest) (.nil (.none rest))
  | node :: next :: nodes =>
      have hmore := sequence_unwrapped h.2 hrest
      have hform := form_unwrapped h.1
        (endsAtom_space (renderItems (unwrappedItems (next :: nodes)) ++ rest))
      simp only [unwrappedItems, renderItems, List.append_assoc, List.cons_append] at hmore hform ⊢
      exact .cons (.none _) hform (hmore.blank rfl)

end

end Node

/-- A tree is read from some text exactly when it is not nested deeper than the limit and everything
that occurs in it can be read: names of symbols, strings without backslashes, and words. -/
theorem trees_that_are_read (node : Node) (limit : Int) :
    (∃ source read, parseForm source limit = .ok read ∧ Node.same read node = true) ↔
      (node.nesting : Int) ≤ max limit 0 ∧ ∀ form ∈ node.subforms, form.IsReadable := by
  rw [← Node.legible_iff]
  constructor
  · rintro ⟨source, read, hread, hsame⟩
    have hbare := (Node.same_iff read node).mp hsame
    obtain ⟨hlegible, hroom⟩ := legible_of_parseForm hread
    rw [← Node.legible_bare, hbare, Node.legible_bare] at hlegible
    rw [← Node.nesting_bare, hbare, Node.nesting_bare] at hroom
    exact ⟨le_room_iff.mp hroom, hlegible⟩
  · rintro ⟨hnesting, hlegible⟩
    have hends : EndsAtom [] := nofun
    have hform := Node.form_unwrapped hlegible hends
    rw [List.append_nil] at hform
    obtain ⟨read, hread, hbare⟩ := parseForm_of_form hform (le_room_iff.mpr hnesting)
    exact ⟨_, read, hread, (Node.same_iff read node).mpr hbare⟩

/-! ## The written form of what was read -/

/-- A digit is its own upper case. -/
theorem toUpper_of_isDigit {c : Char} (h : Word.isDigit c = true) : c.toUpper = c := by
  simp only [Word.isDigit, Bool.and_eq_true, decide_eq_true_eq] at h
  refine toUpper_eq_self fun hlower => ?_
  exact absurd (UInt32.le_trans hlower.1 h.2) (by decide)

/-- The digits of a number are their own upper case. -/
theorem map_toUpper_toDigits (n : Nat) :
    (Nat.toDigits 10 n).map Char.toUpper = Nat.toDigits 10 n := by
  have hdigits := (Bool.and_eq_true_iff.mp (Word.isDigits_toDigits n)).2
  rw [List.map_congr_left fun c hc => toUpper_of_isDigit (List.all_eq_true.mp hdigits c hc)]
  exact List.map_id _

/-- The text of an integer has no letters. -/
theorem upcase_toString (value : Int) : upcase (toString value) = toString value := by
  rw [← String.toList_inj, upcase, String.toList_ofList]
  by_cases hneg : value < 0
  · rw [Word.toList_toString_of_neg hneg, List.map_cons, map_toUpper_toDigits]
    rfl
  · rw [Word.toList_toString_of_nonneg (Int.not_lt.mp hneg), map_toUpper_toDigits]

namespace Node

mutual

/-- A form and what is read back from its text are written in the same way. -/
theorem render_asRead (node : Node) : node.asRead.render = node.render := by
  cases node with
  | list items p => simp only [asRead, render, renderItems_asRead items]
  | integer value p =>
      simp only [asRead]
      split
      · simp only [render, Symbol.ofText, upcase_toString]
      · rfl
  | symbol | string | hole => rfl

/-- Forms and what is read back from their texts are written in the same way. -/
theorem renderItems_asRead (nodes : List Node) :
    renderItems (asReadItems nodes) = renderItems nodes := by
  match nodes with
  | [] => rfl
  | [node] => exact render_asRead node
  | node :: next :: nodes =>
      have hmore := renderItems_asRead (next :: nodes)
      rw [asReadItems] at hmore
      simp only [asReadItems, renderItems, render_asRead node, hmore]

end

/-- Without its positions a form is written in the same way. -/
theorem render_bare (node : Node) : node.bare.render = node.render := by
  rw [← relocate_none, render_relocate]

end Node

/-- A tree that was read can be written. What is written for it is read, under the same limit, as
the tree with each negative integer replaced by the symbol that is spelled like it, so as the tree
itself if and only if no negative integer occurs in that; and what was read then is written as the
very same text. -/
theorem written_form_is_normal (source : String) (limit : Int) (node : Node)
    (h : parseForm source limit = .ok node) :
    ∃ text read, node.text? = some text ∧ parseForm text limit = .ok read ∧
      Node.same read node.asRead = true ∧
      (Node.same read node = true ↔ node.isNonneg = true) ∧
      read.text? = some text := by
  obtain ⟨hlegible, hroom⟩ := legible_of_parseForm h
  obtain ⟨read, hread, hbare⟩ := parseForm_render hlegible hroom
  have htext : node.text? = some (String.ofList node.render) := if_pos hlegible.isWhole
  have hwritten : read.render = node.render := by
    rw [← Node.render_bare, hbare, Node.render_bare, Node.render_asRead]
  refine ⟨_, read, htext, hread, (Node.same_iff _ _).mpr hbare, ?_, ?_⟩
  · rw [Node.same_iff, hbare, Node.bare_asRead_iff]
  · rw [Node.text?, if_pos (legible_of_parseForm hread).1.isWhole, hwritten]

/-- A list with a wrapped literal, an escape and small letters is written with a sign, which makes
a symbol of the literal. -/
theorem written_form_of_wrapped_literal :
    ∃ node read, parseForm "(4294967295 \"a\\\"\" -x 007)" 1 = .ok node ∧
      node.isNonneg = false ∧ node.text? = some "(-1 \"a\\\"\" -X 7)" ∧
      parseForm "(-1 \"a\\\"\" -X 7)" 1 = .ok read ∧
      Node.same read node.asRead = true ∧ Node.same read node = false ∧
      read.text? = some "(-1 \"a\\\"\" -X 7)" := by
  obtain ⟨node, hnode, hneg, htext⟩ :
      ∃ node ∈ (parseForm "(4294967295 \"a\\\"\" -x 007)" 1).toOption,
        node.isNonneg = false ∧ node.text? = some "(-1 \"a\\\"\" -X 7)" := by
    decide +kernel
  have hparse := eq_ok_of_mem_toOption hnode
  obtain ⟨text, read, hwritten, hread, hsame, hequal, hagain⟩ :=
    written_form_is_normal _ 1 node hparse
  obtain rfl := Option.some.inj (htext.symm.trans hwritten)
  refine ⟨node, read, hparse, hneg, htext, hread, hsame, ?_, hagain⟩
  rw [Bool.eq_false_iff, Ne, hequal, hneg]
  exact Bool.false_ne_true

end Sexpr
