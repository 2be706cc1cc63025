import Mathlib.Algebra.BigOperators.Group.List.Basic
import Mathlib.Data.Int.ModEq
import Sexpr.Proofs.Domain
import Sexpr.Proofs.Echo
import Sexpr.Proofs.Legible
import Sexpr.Proofs.Places

/-!
# Sums

A sum is written with runs of digits, calls that read an integer, and additions of two sums, in any
layout and nested in any way. Its exact value is the sum of the numbers of its digits and of the
words it reads (`SumExpr.total`). The program never computes that number: it wraps after each digit
of a run and of a word, after the sign of a word, and after each addition. `SumExpr.yields` shows by
induction over the sum that one wrap at the end would do, and that the words are taken in the order
in which the calls that read are written. `sums_are_exact` says so of source texts.
-/

namespace Sexpr

/-! ## Residues -/

namespace Word

/-- Integers are wrapped to the same word exactly when they are congruent. -/
theorem wrap_eq_wrap_iff {a b : Int} : wrap a = wrap b ↔ a ≡ b [ZMOD 2 ^ 32] := by
  show wrap a = wrap b ↔ a % size = b % size
  constructor
  · intro h
    rw [← wrap_emod a, h, wrap_emod]
  · intro h
    rw [wrap, wrap, ← Int.emod_bmod, h, Int.emod_bmod]

/-- Wrapping gives the one word that is congruent to an integer. -/
theorem eq_wrap_iff {n value : Int} :
    n = wrap value ↔ InRange n ∧ n ≡ value [ZMOD 2 ^ 32] := by
  constructor
  · rintro rfl
    exact ⟨inRange_wrap value, wrap_eq_wrap_iff.mp (wrap_eq_self (inRange_wrap value))⟩
  · rintro ⟨hrange, hmod⟩
    rw [← wrap_eq_wrap_iff.mpr hmod, wrap_eq_self hrange]

/-- Integers need not be wrapped before they are added. -/
theorem wrap_add_wrap (a b : Int) : wrap (wrap a + wrap b) = wrap (a + b) := by
  rw [wrap, wrap, wrap, Int.add_bmod_bmod, Int.bmod_add_bmod]
  rfl

/-- A run of digits with at most one sign stands for an integer and is read as that, wrapped. -/
theorem exists_integer?_of_isSigned {word : List Char} (h : isSigned word = true) :
    ∃ n, Reference.integer? word = some n ∧ ofSigned word = wrap n := by
  have hvalue := Reference.map_wrap_integer? word
  rw [if_pos h] at hvalue
  obtain ⟨n, hn, hwrap⟩ := Option.map_eq_some_iff.mp hvalue
  exact ⟨n, hn, hwrap.symm⟩

end Word

/-! ## Sums and their texts -/

/-- A sum of digits, of words that are read, and of sums. -/
inductive SumExpr where
  | digits (run : List Char)
  | reading
  | add (left right : SumExpr)
deriving DecidableEq, Repr

namespace SumExpr

/-- The runs of digits of a sum. -/
def runs : SumExpr → List (List Char)
  | digits run => [run]
  | reading => []
  | add left right => left.runs ++ right.runs

/-- The number of words that a sum reads. -/
def reads : SumExpr → Nat
  | digits _ => 0
  | reading => 1
  | add left right => left.reads + right.reads

/-- The number of lists around the most deeply nested place of a sum, its own counted. -/
def nesting : SumExpr → Nat
  | digits _ => 0
  | reading => 1
  | add left right => max left.nesting right.nesting + 1

/-- The exact sum of the numbers of all digits and of the words that are read, the first of
`words`. -/
def total (e : SumExpr) (words : List (List Char)) : Int :=
  (e.runs.map fun run => (Nat.ofDigitChars 10 run 0 : Int)).sum +
    ((words.take e.reads).filterMap Reference.integer?).sum

/-- The first of the words are integers, as many as the sum reads. -/
structure IsFed (e : SumExpr) (words : List (List Char)) : Prop where
  enough : e.reads ≤ words.length
  signed : ∀ word ∈ words.take e.reads, Word.isSigned word = true

/-- The tree of a sum, without positions. -/
def node : SumExpr → Node
  | digits run => .integer (Word.wrap (Nat.ofDigitChars 10 run 0)) none
  | reading => .list [.symbol Native.readInt.symbol none] none
  | add left right => .list [.symbol Native.add.symbol none, left.node, right.node] none

end SumExpr

/-- `Opens f text rest` says that `text` begins with an opening parenthesis and the name of the
function, in letters of any case, and goes on with `rest`. -/
inductive Opens (f : Native) : List Char → List Char → Prop where
  | intro {text name rest : List Char} :
      Blanks text (name ++ rest) → upcase (String.ofList name) = f.name → EndsAtom rest →
      Opens f ('(' :: text) rest

/-- `Spelled text e rest` says that `text` begins with blanks, or with none, and with the sum, and
goes on with `rest`. -/
inductive Spelled : List Char → SumExpr → List Char → Prop where
  | blank {c : Char} {text rest : List Char} {e : SumExpr} :
      isBlank c = true → Spelled text e rest → Spelled (c :: text) e rest
  | digits {run rest : List Char} :
      Word.isDigits run = true → EndsAtom rest → Spelled (run ++ rest) (.digits run) rest
  | reading {text more rest : List Char} :
      Opens .readInt text more → Blanks more (')' :: rest) → Spelled text .reading rest
  | add {text first second last rest : List Char} {left right : SumExpr} :
      Opens .add text first → Spelled first left second → Spelled second right last →
      Blanks last (')' :: rest) → Spelled text (.add left right) rest

/-- The source text is that of the sum, with blanks anywhere around it. -/
def SumExpr.IsSource (e : SumExpr) (source : String) : Prop :=
  ∃ rest, Spelled source.toList e rest ∧ Blanks rest []

/-- The source text asks whether two sums are equal. -/
inductive IsEquation (left right : SumExpr) (source : String) : Prop where
  | intro {start first second last rest : List Char} :
      Blanks source.toList start → Opens .equal start first → Spelled first left second →
      Spelled second right last → Blanks last (')' :: rest) → Blanks rest [] →
      IsEquation left right source

/-! ## Reading the text of a sum -/

/-- A text is an atom if it is one in upper case. -/
theorem IsAtom.of_upcase {text : List Char} (h : IsAtom (text.map Char.toUpper)) :
    IsAtom text := by
  refine ⟨?_, ?_, ?_⟩
  · simpa using h.nonempty
  · intro c hc
    rw [← isDelimiter_toUpper]
    exact h.plain _ (List.mem_map_of_mem hc)
  · intro hquote
    exact h.unquoted (by rw [List.head?_map, hquote]; rfl)

/-- The name of a native function is an atom and no number. -/
theorem Native.isAtom_name (f : Native) :
    IsAtom f.name.toList ∧ Word.isDigits f.name.toList = false := by
  have hplain : f.name.toList.all (!isDelimiter ·) = true := by cases f <;> rfl
  refine ⟨⟨?_, ?_, ?_⟩, ?_⟩
  · cases f <;> decide
  · intro c hc
    simpa using List.all_eq_true.mp hplain c hc
  · cases f <;> decide
  · cases f <;> rfl

/-- The name of a native function, in letters of any case, is read as its symbol. -/
theorem Native.form_name {f : Native} {name rest : List Char}
    (hname : upcase (String.ofList name) = f.name) (hends : EndsAtom rest) :
    Form (name ++ rest) (.symbol f.symbol none) rest := by
  obtain ⟨hatom, hdigits⟩ := f.isAtom_name
  have hupper : name.map Char.toUpper = f.name.toList := by
    rw [← hname, upcase, String.toList_ofList, String.toList_ofList]
  rw [← hupper] at hatom hdigits
  rw [isDigits_upcase] at hdigits
  have hsymbol : Symbol.ofText (String.ofList name) = f.symbol :=
    Symbol.eq_of_name_eq (hname.trans f.name_symbol.symm)
  rw [← hsymbol]
  exact .symbol none hatom.of_upcase hends hdigits

/-- What opens a call of a function, and operands up to the closing parenthesis, are that call. -/
theorem Opens.form {f : Native} {text more rest : List Char} {operands : List Node}
    (h : Opens f text more) (hoperands : Sequence more operands (')' :: rest)) :
    Form text (.list (.symbol f.symbol none :: operands) none) rest := by
  obtain ⟨hblanks, hname, hends⟩ := h
  exact .list none (.cons hblanks (Native.form_name hname hends) hoperands)

/-- The text of a sum derives its tree, in front of whatever follows. -/
theorem Spelled.sequence {text rest stop : List Char} {e : SumExpr} {nodes : List Node}
    (h : Spelled text e rest) (hmore : Sequence rest nodes stop) :
    Sequence text (e.node :: nodes) stop := by
  induction h generalizing nodes stop with
  | blank hc _ ih => exact .blank hc (ih hmore)
  | digits hdigits hends =>
      exact .cons (.none _) (.integer none (isAtom_of_isDigits hdigits) hends hdigits) hmore
  | reading hopens hblanks => exact .cons (.none _) (hopens.form (.nil hblanks)) hmore
  | add hopens _ _ hblanks ihleft ihright =>
      exact .cons (.none _) (hopens.form (ihleft (ihright (.nil hblanks)))) hmore

/-- The tree of a sum is nested as deep as the sum. -/
theorem SumExpr.nesting_node (e : SumExpr) : e.node.nesting = e.nesting := by
  induction e with
  | digits | reading => rfl
  | add left right ihleft ihright =>
      simp [node, nesting, Node.nesting, Node.nestingItems, ihleft, ihright]

/-- A text that derives one form is read as that form with its positions, if there is room, and the
forms within it begin one after the other. -/
theorem parse_single {source : String} {limit : Int} {node : Node}
    (h : Sequence source.toList [node] []) (hroom : node.nesting ≤ room limit 0) :
    ∃ read, parse source limit = .ok [read] ∧ read.bare = node.bare ∧
      read.subforms.Pairwise Node.Precedes := by
  obtain ⟨reads, hparse, hsame⟩ :=
    parse_complete h (.inl rfl) (by simpa [Node.nestingItems] using hroom)
  obtain _ | ⟨read, _ | ⟨other, others⟩⟩ := reads
  · cases hsame
  · have hplaces := (Reader.ofText source limit).outcome_placed.trail.forms.2
    obtain ⟨-, hforms⟩ := parse_eq_ok_iff.mp hparse
    refine ⟨read, hparse, (List.cons.inj hsame).1, ?_⟩
    have hforms : (Reader.ofText source limit).outcome.forms.map Prod.fst = [read] := hforms
    rw [hforms] at hplaces
    simpa [Node.subformsItems] using hplaces
  · cases (List.cons.inj hsame).2

/-! ## Evaluation of sums -/

/-- Where the calls that read were made, one after the other. -/
def readingPlaces (calls : List NativeCall) : List (Option Position) :=
  (calls.filter NativeCall.isReading).map NativeCall.position

/-- Calls in a row read at the places of the first and then of the others. -/
theorem readingPlaces_append (calls more : List NativeCall) :
    readingPlaces (calls ++ more) = readingPlaces calls ++ readingPlaces more := by
  rw [readingPlaces, List.filter_append, List.map_append]
  rfl

/-- A native function is no special form. -/
theorem Native.ofSymbol?_symbol (f : Native) : SpecialForm.ofSymbol? f.symbol = none := by
  cases f <;> rfl

namespace Node

/-- The form is a call that reads an integer. -/
def isReading : Node → Bool
  | list [symbol s _] _ => s == Native.readInt.symbol
  | _ => false

/-- Where the calls that read stand within the forms, in the order in which they are written. -/
def readings (nodes : List Node) : List (Option Position) :=
  ((subformsItems nodes).filter isReading).map position

/-- In the global scope the form has an integer as its value. Its evaluation writes nothing and
makes a number of calls that read, in the order in which they are written. -/
structure Gives (node : Node) (n : Int) (reads : Nat) (m after : Machine) : Prop where
  eval_eq : node.eval .global m = (.ok (.int n), after)
  readings_eq : readingPlaces (node.journal .global m) = readings [node]
  length_readings : (readings [node]).length = reads
  output_eq : after.output = m.output
  at_same : after.At m.depth m.limit

/-- Evaluation takes as many words as there are calls that read. -/
theorem Gives.words_eq {node : Node} {n : Int} {reads : Nat} {m after : Machine}
    (h : node.Gives n reads m after) : after.words = m.words.drop reads := by
  obtain ⟨hwords, -⟩ := (node.eval_records .global m).words_eq
  have hcount := h.length_readings
  rw [← h.readings_eq, readingPlaces, List.length_map] at hcount
  rwa [h.eval_eq, hcount] at hwords

section Calls

variable {f : Native} {place position : Option Position} {operands : List Node}
  {arguments : List Value} {value : Value} {m after last : Machine}

/-- With room for it, a call of a native function is that function applied to what the operands
come to. -/
theorem eval_call (hroom : m.depth < m.limit)
    (hoperands : evalOperands .global operands { m with depth := m.depth + 1 } =
      (.ok arguments, after))
    (hcall : f.call position arguments after = (.ok value, last)) :
    eval .global (.list (.symbol f.symbol place :: operands) position) m =
      (.ok value, { last with depth := last.depth - 1 }) := by
  rw [eval_native f.ofSymbol?_symbol f.lookup_global_symbol hroom hoperands, hcall]

/-- With room for it, a call of a native function makes the calls of its operands and then that
call. -/
theorem journal_call (hroom : m.depth < m.limit)
    (hoperands : evalOperands .global operands { m with depth := m.depth + 1 } =
      (.ok arguments, after)) :
    journal .global (.list (.symbol f.symbol place :: operands) position) m =
      journalItems .global operands { m with depth := m.depth + 1 } ++
        [⟨f, position, arguments, after⟩] := by
  simp only [journal, Journal.nested, if_neg (Int.not_le.mpr hroom), formJournal,
    f.ofSymbol?_symbol, f.lookup_global_symbol, Eval.follow, hoperands]
  rfl

end Calls

/-- A call that reads gives the word that comes next. -/
theorem gives_reading {place position : Option Position} {m : Machine} {word : List Char}
    (hroom : m.depth < m.limit) (hword : m.words.head? = some word)
    (hsigned : Word.isSigned word = true) :
    ∃ after, Gives (.list [.symbol Native.readInt.symbol place] position) (Word.ofSigned word) 1 m
      after := by
  have hoperands : evalOperands .global [] { m with depth := m.depth + 1 } =
      (.ok [], { m with depth := m.depth + 1 }) := rfl
  have hcall : Native.readInt.call position [] { m with depth := m.depth + 1 } =
      (.ok (.int (Word.ofSigned word)),
        (Machine.takeWord { m with depth := m.depth + 1 }).2) := by
    have hnext : Machine.words { m with depth := m.depth + 1 } = m.words := rfl
    refine (Native.readWord_apply position _).trans ?_
    rw [hnext, hword, Native.reading, if_pos hsigned]
  obtain ⟨-, -, hframe⟩ := Machine.takeWord_eq { m with depth := m.depth + 1 }
  refine ⟨_, eval_call hroom hoperands hcall, ?_, rfl, ?_, ?_⟩
  · rw [journal_call hroom hoperands]
    rfl
  · rw [hframe]
  · rw [hframe]
    exact ⟨Int.add_sub_cancel m.depth 1, rfl⟩

/-- A call with two operands that have integers as their values, of a function that does not read,
gives what the function makes of these integers. -/
theorem gives_binary {f : Native} {place position : Option Position} {x y : Node} {a b n : Int}
    {j k : Nat} {m middle after : Machine} (hroom : m.depth < m.limit) (hf : f ≠ .readInt)
    (hx : x.Gives a j { m with depth := m.depth + 1 } middle) (hy : y.Gives b k middle after)
    (hcall : f.call position [.int a, .int b] = pure (.int n)) :
    Gives (.list [.symbol f.symbol place, x, y] position) n (j + k) m
      { after with depth := after.depth - 1 } := by
  have hoperands : evalOperands .global [x, y] { m with depth := m.depth + 1 } =
      (.ok [.int a, .int b], after) := by
    simp only [evalOperands]
    rw [Eval.bind_of_ok hx.eval_eq, bind_assoc, Eval.bind_of_ok hy.eval_eq]
    rfl
  have hjournal : journalItems .global [x, y] { m with depth := m.depth + 1 } =
      x.journal .global { m with depth := m.depth + 1 } ++ y.journal .global middle := by
    simp [journalItems, Eval.follow, hx.eval_eq, hy.eval_eq, Journal.none]
  have hreadings : readings [.list [.symbol f.symbol place, x, y] position] =
      readings [x] ++ readings [y] := by
    simp [readings, subformsItems, subforms, isReading]
  have hquiet : readingPlaces [⟨f, position, [.int a, .int b], after⟩] = [] := by
    simp [readingPlaces, NativeCall.isReading, hf]
  refine ⟨eval_call hroom hoperands (congrFun hcall after), ?_, ?_, ?_, ?_⟩
  · rw [journal_call hroom hoperands, readingPlaces_append, hquiet, List.append_nil, hjournal,
      readingPlaces_append, hx.readings_eq, hy.readings_eq, hreadings]
  · rw [hreadings, List.length_append, hx.length_readings, hy.length_readings]
  · exact hy.output_eq.trans hx.output_eq
  · obtain ⟨hxdepth, hxlimit⟩ := hx.at_same
    obtain ⟨hydepth, hylimit⟩ := hy.at_same
    refine ⟨?_, hylimit.trans hxlimit⟩
    dsimp only at hxdepth ⊢
    omega

/-- Without its positions a call is still a call of the same name. -/
theorem eq_call_of_bare {node : Node} {s : Symbol} {others : List Node}
    (h : node.bare = .list (.symbol s none :: others) none) :
    ∃ place items position, node = .list (.symbol s place :: items) position ∧
      bareItems items = others := by
  cases node with
  | symbol | string | integer | hole => cases h
  | list items position =>
      obtain _ | ⟨first, items⟩ := items
      · cases h
      · simp only [bare, bareItems, list.injEq, List.cons.injEq, and_true] at h
        cases first with
        | symbol t place =>
            simp only [bare, symbol.injEq, and_true] at h
            exact ⟨place, items, position, by rw [h.1], h.2⟩
        | list | string | integer | hole => simp [bare] at h

/-- Without its positions a call with two operands is still one. -/
theorem eq_binary_of_bare {node : Node} {s : Symbol} {a b : Node}
    (h : node.bare = .list [.symbol s none, a, b] none) :
    ∃ place x y position, node = .list [.symbol s place, x, y] position ∧
      x.bare = a ∧ y.bare = b := by
  obtain ⟨place, items, position, rfl, hitems⟩ := eq_call_of_bare h
  match items with
  | [x, y] =>
      simp only [bareItems, List.cons.injEq, and_true] at hitems
      exact ⟨place, x, y, position, rfl, hitems⟩
  | [] | [_] | _ :: _ :: _ :: _ => simp [bareItems] at hitems

end Node

namespace SumExpr

variable {left right : SumExpr} {words : List (List Char)}

/-- The exact value of a sum of two, of which the second reads the words that the first leaves. -/
theorem total_add :
    (add left right).total words = left.total words + right.total (words.drop left.reads) := by
  simp only [total, runs, reads, List.map_append, List.sum_append, List.take_add,
    List.filterMap_append]
  omega

/-- The words that feed a sum of two feed the first, and what it leaves feeds the second. -/
theorem IsFed.of_add (h : (add left right).IsFed words) :
    left.IsFed words ∧ right.IsFed (words.drop left.reads) := by
  obtain ⟨henough, hsigned⟩ := h
  simp only [reads, List.take_add, List.mem_append] at henough hsigned
  refine ⟨⟨by omega, fun word hword => hsigned word (.inl hword)⟩, ?_, ?_⟩
  · rw [List.length_drop]
    omega
  · exact fun word hword => hsigned word (.inr hword)

/-- With room for its lists and words for its calls, the form has the value of the sum, wrapped. -/
def Yields (e : SumExpr) (form : Node) : Prop :=
  ∀ m : Machine, e.nesting ≤ (m.limit - m.depth).toNat → e.IsFed m.words →
    ∃ after, form.Gives (Word.wrap (e.total m.words)) e.reads m after

/-- What a call with two sums as its operands gives: they are evaluated from left to right. -/
theorem gives_of_yields {f : Native} {g : Int → Int → Int} {place position : Option Position}
    {x y : Node} {m : Machine} (hf : f ≠ .readInt)
    (hcall : ∀ a b, f.call position [.int a, .int b] = pure (.int (g a b)))
    (hleft : left.Yields x) (hright : right.Yields y)
    (hroom : (add left right).nesting ≤ (m.limit - m.depth).toNat)
    (hfed : (add left right).IsFed m.words) :
    ∃ after, Node.Gives (.list [.symbol f.symbol place, x, y] position)
      (g (Word.wrap (left.total m.words)) (Word.wrap (right.total (m.words.drop left.reads))))
      (left.reads + right.reads) m after := by
  obtain ⟨hfedLeft, hfedRight⟩ := hfed.of_add
  rw [nesting] at hroom
  have hroomLeft : left.nesting ≤ (m.limit - (m.depth + 1)).toNat := by omega
  obtain ⟨middle, hx⟩ := hleft { m with depth := m.depth + 1 } hroomLeft hfedLeft
  have hwords : middle.words = m.words.drop left.reads := hx.words_eq
  have hdepth : middle.depth = m.depth + 1 := hx.at_same.depth_eq
  have hlimit : middle.limit = m.limit := hx.at_same.limit_eq
  obtain ⟨after, hy⟩ := hright middle (by omega) (hwords ▸ hfedRight)
  rw [hwords] at hy
  exact ⟨_, Node.gives_binary (by omega) hf hx hy (hcall _ _)⟩

/-- The form that a sum is read as has the value of the sum, wrapped. -/
theorem yields {e : SumExpr} {form : Node} (h : form.bare = e.node.bare) : e.Yields form := by
  -- The second of two sums finds another machine than the first, so it is the whole of `Yields`,
  -- for every machine, that the induction is about.
  induction e generalizing form with
  | digits run =>
      intro m _ _
      cases form with
      | integer value position =>
          have hvalue : value = Word.wrap (Nat.ofDigitChars 10 run 0) := (Node.integer.inj h).1
          have htotal : (digits run).total m.words = Nat.ofDigitChars 10 run 0 := by
            simp [total, runs, reads]
          rw [htotal, ← hvalue]
          exact ⟨m, rfl, rfl, rfl, rfl, rfl, rfl⟩
      | list | symbol | string | hole => cases h
  | reading =>
      intro m hroom hfed
      obtain ⟨place, items, position, rfl, hitems⟩ := Node.eq_call_of_bare h
      obtain rfl : items = [] := by
        cases items with
        | nil => rfl
        | cons => cases hitems
      obtain ⟨word, words, hwords⟩ := List.exists_cons_of_length_pos hfed.enough
      have hsigned : Word.isSigned word = true := hfed.signed word (by simp [hwords, reads])
      obtain ⟨n, hn, hvalue⟩ := Word.exists_integer?_of_isSigned hsigned
      have htotal : reading.total m.words = n := by simp [total, runs, reads, hwords, hn]
      rw [htotal, ← hvalue]
      rw [nesting] at hroom
      exact Node.gives_reading (by omega) (by rw [hwords]; rfl) hsigned
  | add left right ihleft ihright =>
      intro m hroom hfed
      obtain ⟨place, x, y, position, rfl, hx, hy⟩ := Node.eq_binary_of_bare h
      rw [total_add, ← Word.wrap_add_wrap]
      have hcall (a b : Int) : Native.add.call position [.int a, .int b] =
          pure (.int (Word.wrap (a + b))) := rfl
      exact gives_of_yields (f := .add) nofun hcall (ihleft hx) (ihright hy) hroom hfed

end SumExpr

namespace Interpreter

/-- A source text with one form is evaluated as that form is. -/
theorem eval_single {source : String} {m : Machine} {form : Node}
    (h : parse source m.limit = .ok [form]) :
    ∃ log, Interpreter.eval source m = form.eval .global { m with log := log, depth := 0 } ∧
      (Call.eval source).journal m = form.journal .global { m with log := log, depth := 0 } := by
  obtain ⟨log, hread⟩ := read_of_ok h
  have hforms : evalForms .nothing [form] = evalTop form := bind_pure (evalTop form)
  refine ⟨log, ?_, ?_⟩
  · rw [Interpreter.eval, Eval.bind_of_ok hread, hforms, evalTop_apply]
  · simp only [Call.journal, Eval.follow, hread, formsJournal, Journal.none, List.nil_append,
      Eval.pure_apply]
    split <;> simp

/-- Evaluation of the source text gives an integer and writes nothing. It makes a number of calls
that read, in the order in which they are written, and the first of them takes the first word, and
so on. -/
structure Computes (source : String) (m : Machine) (n : Int) (reads : Nat) : Prop where
  value_eq : (Interpreter.eval source m).1 = .ok (.int n)
  words_eq : (Interpreter.eval source m).2.words = m.words.drop reads
  output_eq : (Interpreter.eval source m).2.output = m.output
  in_order : ∃ form, parse source m.limit = .ok [form] ∧
    form.subforms.Pairwise Node.Precedes ∧ (Node.readings [form]).length = reads ∧
    readingPlaces ((Call.eval source).journal m) = Node.readings [form]
  each_word : ∀ i call,
    (((Call.eval source).journal m).filter NativeCall.isReading)[i]? = some call →
    call.machine.words = m.words.drop i

/-- A source text computes what its one form gives, with the room that there is for its lists. -/
theorem computes_of_gives {source : String} {m : Machine} {node : Node} {n : Int} {reads : Nat}
    (h : Sequence source.toList [node] []) (hroom : node.nesting ≤ room m.limit 0)
    (hgives : ∀ (form : Node) (log : List LogRecord), form.bare = node.bare →
      ∃ after, form.Gives n reads { m with log := log, depth := 0 } after) :
    Computes source m n reads := by
  obtain ⟨form, hparse, hbare, hprecedes⟩ := parse_single h hroom
  obtain ⟨log, heval, hjournal⟩ := eval_single hparse
  obtain ⟨after, hform⟩ := hgives form log hbare
  have hwords := (form.eval_records .global { m with log := log, depth := 0 }).words_eq.2
  rw [hform.eval_eq] at heval
  refine ⟨by rw [heval], ?_, ?_, ⟨form, hparse, hprecedes, hform.length_readings, ?_⟩, ?_⟩
  · rw [heval]
    exact hform.words_eq
  · rw [heval]
    exact hform.output_eq
  · rw [hjournal]
    exact hform.readings_eq
  · rw [hjournal]
    exact hwords

end Interpreter

/-- A source text that is a sum computes its value, wrapped. -/
theorem SumExpr.computes {e : SumExpr} {source : String} {m : Machine} (hsource : e.IsSource source)
    (hroom : (e.nesting : Int) ≤ max m.limit 0) (hfed : e.IsFed m.words) :
    Interpreter.Computes source m (Word.wrap (e.total m.words)) e.reads := by
  obtain ⟨rest, hspelled, hblanks⟩ := hsource
  have hroom : e.nesting ≤ room m.limit 0 := le_room_iff.mpr hroom
  refine Interpreter.computes_of_gives (hspelled.sequence (.nil hblanks)) ?_ ?_
  · rwa [e.nesting_node]
  · intro form log hbare
    exact yields hbare { m with log := log, depth := 0 } hroom hfed

/-- A source text that compares two sums computes whether they are congruent. -/
theorem IsEquation.computes {left right : SumExpr} {source : String} {m : Machine}
    (h : IsEquation left right source)
    (hroom : ((SumExpr.add left right).nesting : Int) ≤ max m.limit 0)
    (hfed : (SumExpr.add left right).IsFed m.words) :
    Interpreter.Computes source m
      (if left.total m.words ≡ right.total (m.words.drop left.reads) [ZMOD 2 ^ 32] then 1 else 0)
      (left.reads + right.reads) := by
  obtain ⟨hstart, hopens, hleft, hright, hlast, hend⟩ := h
  have hroom : (SumExpr.add left right).nesting ≤ room m.limit 0 := le_room_iff.mpr hroom
  have hform := hopens.form (hleft.sequence (hright.sequence (.nil hlast)))
  refine Interpreter.computes_of_gives (.cons hstart hform (.nil hend)) ?_ ?_
  · simpa [Node.nesting, Node.nestingItems, SumExpr.nesting_node, SumExpr.nesting] using hroom
  · intro form log hbare
    obtain ⟨place, x, y, position, rfl, hx, hy⟩ := Node.eq_binary_of_bare hbare
    have hcall (a b : Int) : Native.equal.call position [.int a, .int b] =
        pure (.int (if a = b then 1 else 0)) := rfl
    simp only [← Word.wrap_eq_wrap_iff]
    exact SumExpr.gives_of_yields (f := .equal) (m := { m with log := log, depth := 0 }) nofun hcall
      (SumExpr.yields hx) (SumExpr.yields hy) hroom hfed

/-- Sums with the same digits that read the same words, in any order, have the same exact value. -/
theorem SumExpr.total_of_perm {e other : SumExpr} {words others : List (List Char)}
    (hruns : e.runs.Perm other.runs)
    (hwords : (words.take e.reads).Perm (others.take other.reads)) :
    e.total words = other.total others := by
  rw [total, total, (hruns.map _).sum_eq, (hwords.filterMap _).sum_eq]

/-- Sums are exact modulo `2 ^ 32` whatever their shape. A source text that is a sum, nested within
the limit, on a machine whose next words are integers, as many as it reads, has as its value the one
word that is congruent to the exact sum of all its digits and of these words, and takes exactly
these words in the order in which the calls that read are written. So sums of the same digits and
words are equal, in whatever order and however they are nested, and a text that compares two sums,
of which the second reads the words that the first leaves, gives one if their exact values are
congruent and zero if they are not. -/
theorem sums_are_exact :
    (∀ (e : SumExpr) (source : String) (m : Machine), e.IsSource source →
      (e.nesting : Int) ≤ max m.limit 0 → e.IsFed m.words →
      ∃ value, Interpreter.Computes source m value e.reads ∧
        ∀ n, n = value ↔ Word.InRange n ∧ n ≡ e.total m.words [ZMOD 2 ^ 32]) ∧
    (∀ (e other : SumExpr) (source text : String) (m machine : Machine),
      e.IsSource source → (e.nesting : Int) ≤ max m.limit 0 → e.IsFed m.words →
      other.IsSource text → (other.nesting : Int) ≤ max machine.limit 0 →
      other.IsFed machine.words → e.runs.Perm other.runs →
      (m.words.take e.reads).Perm (machine.words.take other.reads) →
      (Interpreter.eval source m).1 = (Interpreter.eval text machine).1) ∧
    ∀ (left right : SumExpr) (source : String) (m : Machine), IsEquation left right source →
      ((SumExpr.add left right).nesting : Int) ≤ max m.limit 0 →
      (SumExpr.add left right).IsFed m.words →
      Interpreter.Computes source m
        (if left.total m.words ≡ right.total (m.words.drop left.reads) [ZMOD 2 ^ 32] then 1 else 0)
        (left.reads + right.reads) := by
  refine ⟨?_, ?_, ?_⟩
  · intro e source m hsource hroom hfed
    exact ⟨_, SumExpr.computes hsource hroom hfed, fun n => Word.eq_wrap_iff⟩
  · intro e other source text m machine hsource hroom hfed htext hother hfedOther hruns hwords
    rw [(SumExpr.computes hsource hroom hfed).value_eq,
      (SumExpr.computes htext hother hfedOther).value_eq, SumExpr.total_of_perm hruns hwords]
  · intro left right source m hequation hroom hfed
    exact hequation.computes hroom hfed

/-- The least word, which is read, and a number above `2 ^ 32` add up to a word in either order, and
the least word is equal to a number that is congruent to it. -/
theorem sum_beyond_words_is_exact :
    let m := Machine.ofInput "-2147483648 x" 2
    Interpreter.Computes "(+ (Read-Int) 04294967297)" m (-2147483647) 1 ∧
      (Interpreter.eval "(+ (Read-Int) 04294967297)" m).1 =
        (Interpreter.eval "(+ 04294967297 (Read-Int))" m).1 ∧
      Interpreter.Computes "(= (Read-Int) 2147483648)" m 1 1 := by
  intro m
  have hwords : m.words = ["-2147483648".toList, "x".toList] := by decide +kernel
  have hfed (e : SumExpr) (h : e.reads = 1) : e.IsFed m.words := by
    rw [hwords]
    exact ⟨by rw [h]; decide, by rw [h]; decide⟩
  have hopens (f : Native) (name rest : List Char) (hname : upcase (String.ofList name) = f.name)
      (hends : EndsAtom rest) : Opens f ('(' :: (name ++ rest)) rest :=
    .intro (.none _) hname hends
  have hreading (rest : List Char) :
      Spelled ('(' :: ("Read-Int".toList ++ ')' :: rest)) .reading rest :=
    .reading (hopens _ _ _ (by decide) (endsAtom_closing _)) (.none _)
  have hfirst : (SumExpr.add .reading (.digits "04294967297".toList)).IsSource
      "(+ (Read-Int) 04294967297)" := by
    have htext : "(+ (Read-Int) 04294967297)".toList = '(' :: (['+'] ++ ' ' :: '(' ::
        ("Read-Int".toList ++ ')' :: ' ' :: ("04294967297".toList ++ [')']))) := by decide
    refine ⟨[], ?_, .none _⟩
    rw [htext]
    exact .add (hopens _ _ _ (by decide) (endsAtom_space _)) (.blank rfl (hreading _))
      (.blank rfl (.digits (by decide) (endsAtom_closing _))) (.none _)
  have hsecond : (SumExpr.add (.digits "04294967297".toList) .reading).IsSource
      "(+ 04294967297 (Read-Int))" := by
    have htext : "(+ 04294967297 (Read-Int))".toList = '(' :: (['+'] ++ ' ' ::
        ("04294967297".toList ++ ' ' :: '(' :: ("Read-Int".toList ++ [')', ')']))) := by decide
    refine ⟨[], ?_, .none _⟩
    rw [htext]
    exact .add (hopens _ _ _ (by decide) (endsAtom_space _))
      (.blank rfl (.digits (by decide) (endsAtom_space _))) (.blank rfl (hreading _)) (.none _)
  have hthird : IsEquation .reading (.digits "2147483648".toList)
      "(= (Read-Int) 2147483648)" := by
    have htext : "(= (Read-Int) 2147483648)".toList = '(' :: (['='] ++ ' ' :: '(' ::
        ("Read-Int".toList ++ ')' :: ' ' :: ("2147483648".toList ++ [')']))) := by decide
    exact .intro (.none _) (htext ▸ hopens _ _ _ (by decide) (endsAtom_space _))
      (.blank rfl (hreading _)) (.blank rfl (.digits (by decide) (endsAtom_closing _))) (.none _)
      (.none _)
  obtain ⟨hsum, hsame, hequation⟩ := sums_are_exact
  refine ⟨?_, ?_, ?_⟩
  · obtain ⟨value, hvalue, hunique⟩ := hsum _ _ m hfirst (by decide) (hfed _ rfl)
    obtain rfl : -2147483647 = value := (hunique _).mpr (by rw [hwords]; decide)
    exact hvalue
  · refine hsame _ _ _ _ m m hfirst (by decide) (hfed _ rfl) hsecond (by decide) (hfed _ rfl) ?_ ?_
    · exact .refl _
    · exact .refl _
  · have hcompared := hequation _ _ _ m hthird (by decide) (hfed _ rfl)
    rw [hwords] at hcompared
    exact hcompared

end Sexpr
