import Sexpr.Proofs.Decimal
import Sexpr.Proofs.Lexical
import Sexpr.Proofs.Tree
import Sexpr.Reader

/-!
# The grammar of source texts

`Form text node rest` and `Sequence text nodes rest` derive trees from texts without a cursor:
`text` begins with what makes the trees and goes on with `rest`. A derivation says nothing about
the positions in its trees, so it holds of all trees that differ in positions only. `Node.ofAtom`
and the grammar agree on atoms, although one wraps an integer after each digit and the other once.
-/

namespace Sexpr

mutual

/-- `Form text node rest` says that `text` begins with a form that makes the tree `node` and goes on
with `rest`. -/
inductive Form : List Char → Node → List Char → Prop where
  | list {text rest : List Char} {items : List Node} (position : Option Position) :
      Sequence text items (')' :: rest) → Form ('(' :: text) (.list items position) rest
  | string {text decoded rest : List Char} (position : Option Position) :
      Units text decoded ('"' :: rest) →
      Form ('"' :: text) (.string (String.ofList decoded) position) rest
  | integer {text rest : List Char} (position : Option Position) :
      IsAtom text → EndsAtom rest → Word.isDigits text = true →
      Form (text ++ rest) (.integer (Word.wrap (Nat.ofDigitChars 10 text 0)) position) rest
  | symbol {text rest : List Char} (position : Option Position) :
      IsAtom text → EndsAtom rest → Word.isDigits text = false →
      Form (text ++ rest) (.symbol (.ofText (String.ofList text)) position) rest

/-- `Sequence text nodes rest` says that `text` begins with forms that make the trees `nodes`, with
blanks anywhere around them, and goes on with `rest`. -/
inductive Sequence : List Char → List Node → List Char → Prop where
  | nil {text rest : List Char} : Blanks text rest → Sequence text [] rest
  | cons {text start more rest : List Char} {node : Node} {nodes : List Node} :
      Blanks text start → Form start node more → Sequence more nodes rest →
      Sequence text (node :: nodes) rest

end

/-- An atom is a form, whatever it consists of. -/
theorem Form.atom {text rest : List Char} (hatom : IsAtom text) (hends : EndsAtom rest)
    (position : Position) : Form (text ++ rest) (.ofAtom text position) rest := by
  unfold Node.ofAtom
  split
  · rename_i hdigits
    rw [Word.ofDigits_eq_wrap (Bool.and_eq_true_iff.mp hdigits).2]
    exact .integer _ hatom hends hdigits
  · rename_i hdigits
    exact .symbol _ hatom hends (Bool.not_eq_true _ ▸ hdigits)

/-- An atom makes an integer or a symbol. -/
theorem Node.ofAtom_eq (text : List Char) (position : Position) :
    (∃ value, Node.ofAtom text position = .integer value position) ∨
      ∃ s, Node.ofAtom text position = .symbol s position := by
  unfold Node.ofAtom
  split
  · exact .inl ⟨_, rfl⟩
  · exact .inr ⟨_, rfl⟩

/-- What an atom makes is no list. -/
@[simp]
theorem Node.nesting_ofAtom (text : List Char) (position : Position) :
    (Node.ofAtom text position).nesting = 0 := by
  unfold Node.ofAtom
  split <;> rfl

mutual

/-- A derivation holds of every tree that differs in positions only. -/
theorem Form.congr {text rest : List Char} {node other : Node} (h : Form text node rest)
    (hsame : node.bare = other.bare) : Form text other rest := by
  cases h with
  | list _ hitems =>
      cases other with
      | list others position =>
          simp only [Node.bare, Node.list.injEq, and_true] at hsame
          exact .list position (hitems.congr hsame)
      | symbol | string | integer | hole => simp [Node.bare] at hsame
  | string _ hunits =>
      cases other with
      | string other position =>
          simp only [Node.bare, Node.string.injEq, and_true] at hsame
          subst hsame
          exact .string position hunits
      | list | symbol | integer | hole => simp [Node.bare] at hsame
  | integer _ hatom hends hdigits =>
      cases other with
      | integer other position =>
          simp only [Node.bare, Node.integer.injEq, and_true] at hsame
          subst hsame
          exact .integer position hatom hends hdigits
      | list | symbol | string | hole => simp [Node.bare] at hsame
  | symbol _ hatom hends hdigits =>
      cases other with
      | symbol other position =>
          simp only [Node.bare, Node.symbol.injEq, and_true] at hsame
          subst hsame
          exact .symbol position hatom hends hdigits
      | list | string | integer | hole => simp [Node.bare] at hsame

/-- A derivation of a sequence holds of all trees that differ in positions only. -/
theorem Sequence.congr {text rest : List Char} {nodes others : List Node}
    (h : Sequence text nodes rest) (hsame : Node.bareItems nodes = Node.bareItems others) :
    Sequence text others rest := by
  cases h with
  | nil hblanks =>
      cases others with
      | nil => exact .nil hblanks
      | cons => simp [Node.bareItems] at hsame
  | cons hblanks hform hmore =>
      cases others with
      | nil => simp [Node.bareItems] at hsame
      | cons other others =>
          simp only [Node.bareItems, List.cons.injEq] at hsame
          exact .cons hblanks (hform.congr hsame.1) (hmore.congr hsame.2)

end

end Sexpr
