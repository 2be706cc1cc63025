import Sexpr.Proofs.Grammar

/-!
# Legible trees

A tree is legible if what is written for it can be read. `Form.legible` says that everything the
grammar derives is legible, and `Node.form_render` that the text of a legible tree derives the
tree itself, except that a negative integer comes back as the symbol that is spelled like it:
`Node.asRead` makes that exception, and nothing else.
-/

namespace Sexpr

namespace Node

mutual

/-- Every leaf of the form can be written so that it is read as a leaf of its kind: a symbol is an
atom that is not all digits, a string has no backslash, and an integer is not below `low` and is
below `2 ^ 31`. There are no holes. -/
def Legible (low : Int) : Node → Prop
  | list items _ => LegibleItems low items
  | symbol s _ => IsAtom s.name.toList ∧ Word.isDigits s.name.toList = false
  | string text _ => '\\' ∉ text.toList
  | integer value _ => low ≤ value ∧ value < 2147483648
  | hole => False

/-- All of the forms are legible. -/
def LegibleItems (low : Int) : List Node → Prop
  | [] => True
  | node :: nodes => Legible low node ∧ LegibleItems low nodes

end

mutual

/-- The form as it is read back: a negative integer is read as the symbol spelled like it. -/
def asRead : Node → Node
  | list items position => list (asReadItems items) position
  | integer value position =>
      if value < 0 then symbol (.ofText (toString value)) position else integer value position
  | node => node

/-- The forms as they are read back. -/
def asReadItems : List Node → List Node
  | [] => []
  | node :: nodes => asRead node :: asReadItems nodes

end

mutual

/-- No negative integer occurs in the form. -/
def isNonneg : Node → Bool
  | list items _ => allNonneg items
  | integer value _ => 0 ≤ value
  | _ => true

/-- No negative integer occurs in the forms. -/
def allNonneg : List Node → Bool
  | [] => true
  | node :: nodes => isNonneg node && allNonneg nodes

end

mutual

/-- Being legible is no matter of positions. -/
theorem legible_bare {low : Int} (node : Node) : node.bare.Legible low ↔ node.Legible low := by
  cases node with
  | list items p => exact legibleItems_bare items
  | symbol | string | integer | hole => rfl

/-- Being legible is no matter of positions for a sequence either. -/
theorem legibleItems_bare {low : Int} (nodes : List Node) :
    LegibleItems low (bareItems nodes) ↔ LegibleItems low nodes := by
  cases nodes with
  | nil => rfl
  | cons node nodes =>
      simp only [bareItems, LegibleItems, legible_bare node, legibleItems_bare nodes]

end

mutual

/-- A legible form has no holes. -/
theorem Legible.isWhole {low : Int} {node : Node} (h : node.Legible low) :
    node.isWhole = true := by
  cases node with
  | list items p => exact LegibleItems.allWhole h
  | symbol | string | integer => rfl
  | hole => exact absurd h id

/-- Legible forms have no holes. -/
theorem LegibleItems.allWhole {low : Int} {nodes : List Node} (h : LegibleItems low nodes) :
    Node.allWhole nodes = true := by
  cases nodes with
  | nil => rfl
  | cons node nodes =>
      simp only [Node.allWhole, Legible.isWhole h.1, LegibleItems.allWhole h.2, Bool.and_self]

end

mutual

/-- Lists are read back as lists. -/
@[simp]
theorem nesting_asRead (node : Node) : node.asRead.nesting = node.nesting := by
  cases node with
  | list items p => simp [asRead, nesting, nestingItems_asRead items]
  | integer value p =>
      simp only [asRead]
      split <;> rfl
  | symbol | string | hole => rfl

/-- Sequences are read back with their nesting. -/
@[simp]
theorem nestingItems_asRead (nodes : List Node) :
    nestingItems (asReadItems nodes) = nestingItems nodes := by
  cases nodes with
  | nil => rfl
  | cons node nodes =>
      simp [asReadItems, nestingItems, nesting_asRead node, nestingItems_asRead nodes]

end

mutual

/-- A form without negative integers is read back as it is. -/
theorem Legible.asRead_eq {node : Node} (h : node.Legible 0) : node.asRead = node := by
  cases node with
  | list items p => simp [asRead, LegibleItems.asRead_eq h]
  | integer value p => exact if_neg (Int.not_lt.mpr h.1)
  | symbol | string | hole => rfl

/-- Forms without negative integers are read back as they are. -/
theorem LegibleItems.asRead_eq {nodes : List Node} (h : LegibleItems 0 nodes) :
    asReadItems nodes = nodes := by
  cases nodes with
  | nil => rfl
  | cons node nodes => simp [asReadItems, Legible.asRead_eq h.1, LegibleItems.asRead_eq h.2]

end

mutual

/-- A form is read back as it is exactly when no negative integer occurs in it. -/
theorem bare_asRead_iff (node : Node) : node.asRead.bare = node.bare ↔ node.isNonneg = true := by
  cases node with
  | list items p => simpa [asRead, bare, isNonneg] using bareItems_asRead_iff items
  | integer value p =>
      by_cases hneg : value < 0
      · simp [asRead, bare, isNonneg, hneg]
      · simp [asRead, bare, isNonneg, hneg, Int.not_lt.mp hneg]
  | symbol | string | hole => exact iff_of_true rfl rfl

/-- Forms are read back as they are exactly when no negative integer occurs in them. -/
theorem bareItems_asRead_iff (nodes : List Node) :
    bareItems (asReadItems nodes) = bareItems nodes ↔ allNonneg nodes = true := by
  cases nodes with
  | nil => exact iff_of_true rfl rfl
  | cons node nodes =>
      simp [asReadItems, bareItems, allNonneg, bare_asRead_iff node, bareItems_asRead_iff nodes]

end

mutual

/-- A legible form without negative integers is legible as it is. -/
theorem Legible.of_isNonneg {low : Int} {node : Node} (h : node.Legible low)
    (hnonneg : node.isNonneg = true) : node.Legible 0 := by
  cases node with
  | list items p => exact LegibleItems.of_allNonneg h hnonneg
  | integer value p => exact ⟨of_decide_eq_true hnonneg, h.2⟩
  | symbol | string | hole => exact h

/-- Legible forms without negative integers are legible as they are. -/
theorem LegibleItems.of_allNonneg {low : Int} {nodes : List Node} (h : LegibleItems low nodes)
    (hnonneg : Node.allNonneg nodes = true) : LegibleItems 0 nodes := by
  cases nodes with
  | nil => trivial
  | cons node nodes =>
      obtain ⟨hnode, hnodes⟩ := Bool.and_eq_true_iff.mp hnonneg
      exact ⟨Legible.of_isNonneg h.1 hnode, LegibleItems.of_allNonneg h.2 hnodes⟩

end

/-- Only a form without negative integers is read back as it is. -/
theorem Legible.nonneg {low : Int} {node : Node} (h : node.Legible low)
    (hsame : node.asRead.bare = node.bare) : node.Legible 0 :=
  h.of_isNonneg ((bare_asRead_iff node).mp hsame)

end Node

/-! ## Everything derived is legible -/

/-- Upper-casing turns no other character into one below the letters. -/
theorem toUpper_eq_iff {c d : Char} (hd : d.toNat < 'A'.toNat) : c.toUpper = d ↔ c = d := by
  by_cases hlower : 'a'.val ≤ c.val ∧ c.val ≤ 'z'.val
  · have hval : c.toUpper.val = c.val + ('A'.val - 'a'.val) := by
      unfold Char.toUpper
      rw [dif_pos hlower]
    have hupper : 'A'.toNat ≤ c.toUpper.toNat ∧ 'A'.toNat ≤ c.toNat := by
      have ha : 'a'.val.toNat = 97 := rfl
      have hz : 'z'.val.toNat = 122 := rfl
      have hshift : ('A'.val - 'a'.val).toNat = 2 ^ 32 - 32 := rfl
      have hA : 'A'.val.toNat = 65 := rfl
      simp only [UInt32.le_iff_toNat_le, ha, hz] at hlower
      simp only [Char.toNat, hval, UInt32.toNat_add, hshift, hA]
      omega
    constructor
    · rintro rfl
      omega
    · rintro rfl
      omega
  · rw [toUpper_eq_self hlower]

/-- Upper-casing does not change whether a character is of a kind found only below the letters. -/
theorem toUpper_kind {p : Char → Bool} (hp : ∀ d, p d = true → d.toNat < 'A'.toNat) (c : Char) :
    p c.toUpper = p c := by
  rw [Bool.eq_iff_iff]
  constructor
  · intro h
    have hself : c = c.toUpper := (toUpper_eq_iff (hp _ h)).mp rfl
    rwa [← hself] at h
  · intro h
    have hself : c.toUpper = c := (toUpper_eq_iff (hp _ h)).mpr rfl
    rwa [hself]

/-- Delimiters stay delimiters in upper case, and nothing else becomes one. -/
theorem isDelimiter_toUpper (c : Char) : isDelimiter c.toUpper = isDelimiter c := by
  refine toUpper_kind (fun d hd => ?_) c
  simp only [isDelimiter, isBlank, Bool.or_eq_true, beq_iff_eq] at hd
  rcases hd with ((((rfl | rfl) | rfl) | rfl) | rfl) | rfl <;> decide

/-- Digits stay digits in upper case, and nothing else becomes one. -/
theorem isDigit_toUpper (c : Char) : Word.isDigit c.toUpper = Word.isDigit c := by
  refine toUpper_kind (fun d hd => ?_) c
  simp only [Word.isDigit, Bool.and_eq_true, decide_eq_true_eq] at hd
  exact Nat.lt_of_le_of_lt (UInt32.le_iff_toNat_le.mp hd.2) (by decide)

/-- What an atom is in upper case is an atom. -/
theorem IsAtom.upcase {text : List Char} (h : IsAtom text) : IsAtom (text.map Char.toUpper) := by
  refine ⟨?_, ?_, ?_⟩
  · simpa using h.nonempty
  · intro c hc
    obtain ⟨d, hd, rfl⟩ := List.mem_map.mp hc
    rw [isDelimiter_toUpper]
    exact h.plain d hd
  · intro hquote
    rw [List.head?_map, Option.map_eq_some_iff] at hquote
    obtain ⟨c, hc, hupper⟩ := hquote
    rw [toUpper_eq_iff (by decide)] at hupper
    exact h.unquoted (hupper ▸ hc)

/-- Upper-casing does not change whether a text is all digits. -/
theorem isDigits_upcase (text : List Char) :
    Word.isDigits (text.map Char.toUpper) = Word.isDigits text := by
  simp [Word.isDigits, List.all_map, Function.comp_def, isDigit_toUpper]

/-- What the units of a literal stand for has no backslash. -/
theorem Units.backslash_notMem {text decoded rest : List Char} (h : Units text decoded rest) :
    '\\' ∉ decoded := by
  induction h with
  | none => exact List.not_mem_nil
  | plain _ _ hslash _ ih => simpa using ⟨Ne.symm hslash, ih⟩
  | lineFeed _ ih | quote _ ih => simpa using ih

mutual

/-- A form that the grammar derives is legible, with integers of any sign. -/
theorem Form.legible {text rest : List Char} {node : Node} (h : Form text node rest) :
    node.Legible (-2147483648) := by
  cases h with
  | list _ hitems => exact hitems.legible
  | string _ hunits => simpa [Node.Legible] using hunits.backslash_notMem
  | integer => exact Word.inRange_wrap _
  | symbol _ hatom _ hdigits =>
      simp only [Node.Legible, Symbol.ofText, Sexpr.upcase, String.toList_ofList, isDigits_upcase]
      exact ⟨hatom.upcase, hdigits⟩

/-- Forms that the grammar derives are legible, with integers of any sign. -/
theorem Sequence.legible {text rest : List Char} {nodes : List Node}
    (h : Sequence text nodes rest) : Node.LegibleItems (-2147483648) nodes := by
  cases h with
  | nil => trivial
  | cons _ hform hmore => exact ⟨hform.legible, hmore.legible⟩

end

/-! ## What is written for a legible tree -/

/-- A digit is no delimiter. -/
theorem isDelimiter_of_isDigit {c : Char} (h : Word.isDigit c = true) : isDelimiter c = false := by
  rw [Bool.eq_false_iff]
  intro hc
  simp only [isDelimiter, isBlank, Bool.or_eq_true, beq_iff_eq] at hc
  rcases hc with ((((rfl | rfl) | rfl) | rfl) | rfl) | rfl <;> exact absurd h (by decide)

/-- A run of digits is an atom. -/
theorem isAtom_of_isDigits {text : List Char} (h : Word.isDigits text = true) : IsAtom text := by
  simp only [Word.isDigits, Bool.and_eq_true, List.all_eq_true] at h
  refine ⟨by simpa using h.1, fun c hc => isDelimiter_of_isDigit (h.2 c hc), ?_⟩
  intro hquote
  exact absurd (h.2 _ (List.mem_of_head? hquote)) (by decide)

/-- A run of digits with a minus sign is an atom that is not all digits. -/
theorem isAtom_negative {digits : List Char} (h : Word.isDigits digits = true) :
    IsAtom ('-' :: digits) ∧ Word.isDigits ('-' :: digits) = false := by
  have hatom := isAtom_of_isDigits h
  refine ⟨⟨by simp, ?_, by simp⟩, by simp [Word.isDigits, Word.isDigit]⟩
  intro c hc
  rcases List.mem_cons.mp hc with rfl | hc
  · decide
  · exact hatom.plain c hc

/-- What is written for a string without backslashes stands for that string. -/
theorem units_literal {text : List Char} (h : '\\' ∉ text) (rest : List Char) :
    Units (text.flatMap Node.literalChar ++ '"' :: rest) text ('"' :: rest) := by
  induction text with
  | nil => exact .none _
  | cons c text ih =>
      obtain ⟨hslash, htext⟩ : c ≠ '\\' ∧ '\\' ∉ text := by
        simpa [Ne, eq_comm] using h
      rw [List.flatMap_cons, List.append_assoc]
      unfold Node.literalChar
      split
      · subst c
        exact .quote (ih htext)
      · rename_i hquote
        split
        · subst c
          exact .lineFeed (ih htext)
        · rename_i hfeed
          exact .plain hfeed hquote hslash (ih htext)

/-- Blanks in front belong to a sequence. -/
theorem Sequence.blank {c : Char} (hc : isBlank c = true) {text rest : List Char}
    {nodes : List Node} (h : Sequence text nodes rest) : Sequence (c :: text) nodes rest := by
  cases h with
  | nil hblanks => exact .nil (.more hc hblanks)
  | cons hblanks hform hmore => exact .cons (.more hc hblanks) hform hmore

/-- The digits of a natural number derive that number, wrapped. -/
theorem form_toDigits (n : Nat) {rest : List Char} (hrest : EndsAtom rest)
    (position : Option Position) :
    Form (Nat.toDigits 10 n ++ rest) (.integer (Word.wrap n) position) rest := by
  have hdigits := Word.isDigits_toDigits n
  have hform := Form.integer position (isAtom_of_isDigits hdigits) hrest hdigits
  rwa [Nat.ofDigitChars_ten_toDigits] at hform

/-- The text of an integer below `2 ^ 31` derives it as it is read back. -/
theorem form_toString {value : Int} (h : value < 2147483648) {rest : List Char}
    (hrest : EndsAtom rest) (position : Option Position) :
    Form ((toString value).toList ++ rest) (Node.integer value position).asRead rest := by
  by_cases hneg : value < 0
  · have hasRead : (Node.integer value position).asRead =
        .symbol (.ofText (toString value)) position := if_pos hneg
    obtain ⟨hatom, hdigits⟩ := isAtom_negative (Word.isDigits_toDigits (-value).toNat)
    rw [← Word.toList_toString_of_neg hneg] at hatom hdigits
    have hform := Form.symbol position hatom hrest hdigits
    rwa [String.ofList_toList, ← hasRead] at hform
  · have hasRead : (Node.integer value position).asRead = .integer value position := if_neg hneg
    have hnonneg : 0 ≤ value := Int.not_lt.mp hneg
    have hform := form_toDigits value.toNat hrest position
    rwa [Int.toNat_of_nonneg hnonneg, Word.wrap_eq_self ⟨by omega, h⟩,
      ← Word.toList_toString_of_nonneg hnonneg, ← hasRead] at hform

/-- A space ends an atom. -/
theorem endsAtom_space (rest : List Char) : EndsAtom (' ' :: rest) := by
  simp [EndsAtom, isDelimiter, isBlank]

/-- A closing parenthesis ends an atom. -/
theorem endsAtom_closing (rest : List Char) : EndsAtom (')' :: rest) := by
  simp [EndsAtom, isDelimiter]

namespace Node

mutual

/-- In front of a text that ends an atom, the text of a legible form derives the form as it is read
back. -/
theorem form_render {low : Int} {node : Node} (h : node.Legible low) {rest : List Char}
    (hrest : EndsAtom rest) : Form (node.render ++ rest) node.asRead rest := by
  cases node with
  | list items p =>
      have hitems := sequence_render h (endsAtom_closing rest)
      simpa [render, asRead] using Form.list p hitems
  | symbol s p =>
      have hname : Symbol.ofText (String.ofList s.name.toList) = s :=
        Symbol.eq_of_name_eq (by simp [Symbol.ofText, s.upcase_name])
      have hform := Form.symbol p h.1 hrest h.2
      rwa [hname] at hform
  | string text p =>
      have hform := Form.string p (units_literal h rest)
      simpa [render, literal, asRead] using hform
  | integer value p => exact form_toString h.2 hrest p
  | hole => exact absurd h id

/-- In front of a text that ends an atom, the texts of legible forms derive the forms as they are
read back. -/
theorem sequence_render {low : Int} {nodes : List Node} (h : LegibleItems low nodes)
    {rest : List Char} (hrest : EndsAtom rest) :
    Sequence (renderItems nodes ++ rest) (asReadItems nodes) rest := by
  match nodes with
  | [] => exact .nil (.none rest)
  | [node] => exact .cons (.none _) (form_render h.1 hrest) (.nil (.none rest))
  | node :: next :: nodes =>
      -- The space between two forms ends the first if that is an atom, and is a blank to the rest.
      have hmore := sequence_render h.2 hrest
      have hform := form_render h.1 (endsAtom_space (renderItems (next :: nodes) ++ rest))
      simp only [renderItems, List.append_assoc, List.cons_append]
      exact .cons (.none _) hform (hmore.blank rfl)

end

end Node

end Sexpr
