import Sexpr.Proofs.FreeNames

/-!
# Where values, lines and faults come from

Evaluation makes values of the leaves of the forms it is given, of what the scope holds and of
words; it writes a line for such a value; and every fault with which it stops blames one of the
forms, as `Blames` says for each kind of fault. `Node.eval_stems` is the induction over forms, for
any predicate on values that holds of the leaves, of the words and in the scope: all values, lines
and faults of an evaluation stem from them.
-/

namespace Sexpr

namespace Node

mutual

/-- In a form that is not whole a hole occurs. -/
theorem hole_mem_subforms {node : Node} (h : node.isWhole = false) : hole ∈ node.subforms := by
  cases node with
  | list items position => exact List.mem_cons_of_mem _ (hole_mem_subformsItems h)
  | symbol | string | integer => cases h
  | hole => exact self_mem_subforms hole

/-- Among forms that are not all whole a hole occurs. -/
theorem hole_mem_subformsItems {nodes : List Node} (h : allWhole nodes = false) :
    hole ∈ subformsItems nodes := by
  cases nodes with
  | nil => cases h
  | cons node nodes =>
      rcases Bool.and_eq_false_iff.mp h with hnode | hnodes
      · exact List.mem_append_left _ (hole_mem_subforms hnode)
      · exact List.mem_append_right _ (hole_mem_subformsItems hnodes)

end

/-- The items of a list of alternating names and forms, two by two. A last item without another is
left out. -/
def paired : List Node → List (Node × Node)
  | name :: form :: rest => (name, form) :: paired rest
  | _ => []

/-- What is paired are items. -/
theorem mem_of_mem_paired {pair : Node × Node} {pairs : List Node} (h : pair ∈ paired pairs) :
    pair.1 ∈ pairs ∧ pair.2 ∈ pairs := by
  match pairs with
  | name :: form :: rest =>
      rcases List.mem_cons.mp h with rfl | h
      · exact ⟨List.mem_cons_self, List.mem_cons_of_mem _ List.mem_cons_self⟩
      · obtain ⟨hname, hform⟩ := mem_of_mem_paired h
        exact ⟨List.mem_cons_of_mem _ (List.mem_cons_of_mem _ hname),
          List.mem_cons_of_mem _ (List.mem_cons_of_mem _ hform)⟩
  | [] | [_] => cases h

/-- Among the forms is a list at `position` that begins with a symbol, before these operands: the
special form that the symbol names, or with `none` a call. -/
def Applies (nodes : List Node) (form : Option SpecialForm) (operands : List Node)
    (position : Option Position) : Prop :=
  ∃ s place, SpecialForm.ofSymbol? s = form ∧ list (symbol s place :: operands) position ∈ nodes

end Node

/-! ## What faults say of the forms -/

/-- The fault at `position` blames one of the forms, for something that is wrong with it: each kind
of fault has its own kind of form, and stands where that form began. -/
inductive Blames (nodes : List Node) : EvalFault → Option Position → Prop where
  /-- The list is empty. -/
  | emptyForm {position : Option Position} :
      .list [] position ∈ nodes → Blames nodes .emptyForm position
  /-- The first item of a list is no symbol. -/
  | operatorNotSymbol {operator : Node} {operands : List Node} {position : Option Position} :
      .list (operator :: operands) position ∈ nodes → (∀ s place, operator ≠ .symbol s place) →
      Blames nodes (.operatorNotSymbol (String.ofList operator.render)) operator.position
  /-- What stands for a name in the binding list of a binding form is no symbol. -/
  | nameNotSymbol {name form first : Node} {pairs body : List Node}
      {place position : Option Position} :
      Node.Applies nodes (some .binding) (.list pairs place :: first :: body) position →
      (name, form) ∈ Node.paired pairs → (∀ s place, name ≠ .symbol s place) →
      Blames nodes (.nameNotSymbol (String.ofList name.render)) name.position
  /-- A conditional has not three operands. -/
  | ifArity {operands : List Node} {position : Option Position} :
      Node.Applies nodes (some .conditional) operands position → operands.length ≠ 3 →
      Blames nodes (.ifArity operands.length) position
  /-- A binding form has fewer than two operands. -/
  | letArity {operands : List Node} {position : Option Position} :
      Node.Applies nodes (some .binding) operands position → operands.length < 2 →
      Blames nodes (.letArity operands.length) position
  /-- A call has not the number of operands that its function takes. -/
  | callArity {f : Native} {operands : List Node} {position : Option Position} :
      Node.Applies nodes none operands position → operands.length ≠ f.arity →
      Blames nodes (.callArity f operands.length) position
  /-- The first operand of a conditional has a value that is no integer. -/
  | conditionNotInteger {condition : Node} {branches : List Node} {value : Value}
      {position : Option Position} :
      Node.Applies nodes (some .conditional) (condition :: branches) position →
      (∀ n, value ≠ .int n) → Blames nodes (.conditionNotInteger value) condition.position
  /-- The first operand of a binding form is no list. -/
  | bindingsNotList {bindings : Node} {body : List Node} {position : Option Position} :
      Node.Applies nodes (some .binding) (bindings :: body) position →
      (∀ pairs place, bindings ≠ .list pairs place) →
      Blames nodes .bindingsNotList bindings.position
  /-- An operand of a call has a value of another kind than its function takes. -/
  | argumentKind {f : Native} {operands : List Node} {index : Nat} {wanted : Kind} {value : Value}
      {position : Option Position} :
      Node.Applies nodes none operands position → operands.length = f.arity →
      f.parameters[index]? = some wanted → value.hasKind wanted = false →
      Blames nodes (.argumentKind f index wanted value) position
  /-- A symbol is not bound. -/
  | unbound {s : Symbol} {position : Option Position} :
      .symbol s position ∈ nodes → Blames nodes (.unbound s) position
  /-- The symbol at the head of a call is bound to no function. -/
  | notCallable {s : Symbol} {place position : Option Position} {operands : List Node} :
      .list (.symbol s place :: operands) position ∈ nodes → SpecialForm.ofSymbol? s = none →
      Blames nodes (.notCallable s) place
  /-- A call without operands finds no more input. -/
  | inputEnded {position : Option Position} :
      Node.Applies nodes none [] position → Blames nodes .inputEnded position
  /-- A call without operands finds input that is no integer. -/
  | inputNotInteger {word : List Char} {position : Option Position} :
      Node.Applies nodes none [] position → Word.isSigned word = false →
      Blames nodes (.inputNotInteger word) position
  /-- A list is within too many others. -/
  | tooDeep {items : List Node} {limit : Int} {position : Option Position} :
      .list items position ∈ nodes → Blames nodes (.tooDeep limit) position
  /-- A hole is evaluated. -/
  | holeEvaluated : .hole ∈ nodes → Blames nodes .holeEvaluated none
  /-- A hole is within a form that is refused. -/
  | holeWritten : .hole ∈ nodes → Blames nodes .holeWritten none
  /-- A hole stands in place of a form that is refused. -/
  | holePosition : .hole ∈ nodes → Blames nodes .holePosition none

/-- A computation that only evaluates the forms may stop for this reason. -/
def Stop.StemsFrom (nodes : List Node) : Stop → Prop
  | exit => True
  | misread _ => False
  | failed error => Blames nodes error.fault error.position

/-! ## What is written -/

/-- The lines that are written for values that satisfy `D`. -/
def Shows (D : Value → Prop) (line : List Char) : Prop :=
  (∃ n, D (.int n) ∧ line = (toString n).toList) ∨ ∃ text, D (.str text) ∧ line = text.toList

/-- From the first machine to the second only lines that satisfy `P` were written. -/
def Machine.Prints (P : List Char → Prop) (m after : Machine) : Prop :=
  ∃ lines : List (List Char),
    (∀ line ∈ lines, P line) ∧ after.output = m.output ++ lines.flatMap (· ++ ['\n'])

namespace Machine.Prints

variable {P : List Char → Prop} {m middle after : Machine}

/-- Where the output stays as it is no lines were written. -/
theorem of_output_eq (h : after.output = m.output) : Prints P m after :=
  ⟨[], nofun, by simpa using h⟩

/-- Lines that were written in two steps were written in one. -/
theorem trans (h : Prints P m middle) (hmore : Prints P middle after) : Prints P m after := by
  obtain ⟨lines, hlines, houtput⟩ := h
  obtain ⟨more, hlater, hagain⟩ := hmore
  refine ⟨lines ++ more, ?_, ?_⟩
  · intro line hline
    exact (List.mem_append.mp hline).elim (hlines line) (hlater line)
  · rw [hagain, houtput, List.flatMap_append, List.append_assoc]

/-- Writing a line writes that line. -/
theorem writeLine {line : List Char} (h : P line) (m : Machine) : Prints P m (m.writeLine line) :=
  ⟨[line], by simpa using h, by simp [Machine.writeLine]⟩

end Machine.Prints

/-- Taking a word leaves the output as it is. -/
theorem Machine.output_takeWord (m : Machine) : m.takeWord.2.output = m.output := by
  obtain ⟨-, -, hframe⟩ := m.takeWord_eq
  rw [hframe]

/-! ## Computations -/

namespace Eval

variable {nodes : List Node} {D : Value → Prop} {α β : Type}

/-- All that the computation comes to stems from the forms and from values that satisfy `D`: the
lines that it writes show such values, and it has a result that satisfies `Q` or stops for a reason
that blames a form. -/
def Stems (nodes : List Node) (D : Value → Prop) (Q : α → Prop) (x : Eval α) : Prop :=
  ∀ m, m.Prints (Shows D) (x m).2 ∧
    match (x m).1 with
    | .ok value => Q value
    | .error stop => stop.StemsFrom nodes

variable {Q : α → Prop} {R : β → Prop}

/-- A value stems from what it has to. -/
theorem Stems.pure {value : α} (h : Q value) : Stems nodes D Q (pure value) :=
  fun _ => ⟨.of_output_eq rfl, h⟩

/-- A fault stems from the form it blames. -/
theorem Stems.fail {fault : EvalFault} {position : Option Position}
    (h : Blames nodes fault position) : Stems nodes D Q (fail fault position) :=
  fun _ => ⟨.of_output_eq rfl, h⟩

/-- What follows a computation may rely on its result. -/
theorem Stems.bind {first : Eval α} {next : α → Eval β} (hfirst : Stems nodes D Q first)
    (hnext : ∀ value, Q value → Stems nodes D R (next value)) :
    Stems nodes D R (first >>= next) := by
  intro m
  obtain ⟨hprints, hend⟩ := hfirst m
  rcases hresult : first m with ⟨stop | value, after⟩ <;> rw [hresult] at hprints hend
  · rw [bind_of_error hresult]
    exact ⟨hprints, hend⟩
  · rw [bind_of_ok hresult]
    obtain ⟨hmore, hlast⟩ := hnext value hend after
    exact ⟨hprints.trans hmore, hlast⟩

/-- Writing a line for a value that satisfies `D`. -/
theorem stems_writeLine {line : List Char} (h : Shows D line) :
    Stems nodes D (fun _ => True) (writeLine line) :=
  fun m => ⟨.writeLine h m, trivial⟩

/-- Taking a word writes nothing. -/
theorem stems_takeWord : Stems nodes D (fun _ => True) takeWord :=
  fun m => ⟨.of_output_eq m.output_takeWord, trivial⟩

/-- Within one more list, only that list can be blamed besides. -/
theorem Stems.nested {items : List Node} {position : Option Position} {inner : Eval α}
    (hlist : .list items position ∈ nodes) (hinner : Stems nodes D Q inner) :
    Stems nodes D Q (nested position inner) := by
  intro m
  by_cases hroom : m.depth < m.limit
  · obtain ⟨hprints, hend⟩ := hinner { m with depth := m.depth + 1 }
    rw [nested_of_lt hroom]
    exact ⟨hprints, hend⟩
  · rw [nested_of_le (Int.not_lt.mp hroom)]
    exact ⟨.of_output_eq rfl, .tooDeep hlist⟩

end Eval

/-! ## Native functions -/

/-- Appending digits to a word makes a word. -/
theorem Word.inRange_foldl_pushDigit {n : Int} (h : InRange n) (text : List Char) :
    InRange (text.foldl pushDigit n) := by
  induction text generalizing n with
  | nil => exact h
  | cons c text ih => exact ih (inRange_wrap _)

/-- The word of a run of digits with a sign is one. -/
theorem Word.inRange_ofSigned (text : List Char) : InRange (ofSigned text) := by
  unfold ofSigned
  split
  · exact inRange_wrap _
  · exact inRange_foldl_pushDigit (by decide) _

/-- `CallStep position f arguments x` says how the call `x` of a function from the form at
`position` comes about. -/
inductive CallStep (position : Option Position) : Native → List Value → Eval Value → Prop where
  | printString (text : String) :
      CallStep position .printString [.str text] (do
        Eval.writeLine text.toList
        pure (.int 0))
  | printInt (n : Int) :
      CallStep position .printInt [.int n] (do
        Eval.writeLine (toString n).toList
        pure (.int 0))
  | readInt : CallStep position .readInt [] (Native.readWord position)
  | add (a b : Int) :
      CallStep position .add [.int a, .int b] (pure (.int (Word.wrap (a + b))))
  | equal (a b : Int) :
      CallStep position .equal [.int a, .int b] (pure (.int (if a = b then 1 else 0)))
  | exit : CallStep position .exit [] (Eval.stop .exit)
  | arity {f : Native} {arguments : List Value} :
      arguments.length ≠ f.arity →
      CallStep position f arguments (Eval.fail (.callArity f arguments.length) position)
  | kind {f : Native} {arguments : List Value} {index : Nat} {wanted : Kind} {value : Value} :
      arguments.length = f.arity → f.parameters[index]? = some wanted →
      value.hasKind wanted = false →
      CallStep position f arguments (Eval.fail (.argumentKind f index wanted value) position)

namespace Native

/-- A call comes about in one of the ways listed. -/
theorem call_step (position : Option Position) (f : Native) (arguments : List Value) :
    CallStep position f arguments (f.call position arguments) := by
  obtain haccepts | ⟨fault, hrefuses⟩ := f.accepts_or_refuses arguments
  · cases haccepts.actsOn with
    | printString text => exact .printString text
    | printInt n => exact .printInt n
    | readInt => exact .readInt
    | add a b => exact .add a b
    | equal a b => exact .equal a b
    | exit => exact .exit
  · rw [call_of_refuses hrefuses]
    cases hrefuses with
    | arity harity => exact .arity harity
    | kind harity hmisfit =>
        have hkind := mt Value.hasKind_iff.mp hmisfit.not_holds
        exact .kind harity hmisfit.wanted_eq (Bool.eq_false_iff.mpr hkind)

end Native

/-- The predicate holds of the values of all leaves of the forms and of all words. -/
structure Covers (nodes : List Node) (D : Value → Prop) : Prop where
  integer {n : Int} {position : Option Position} : .integer n position ∈ nodes → D (.int n)
  string {text : String} {position : Option Position} :
    .string text position ∈ nodes → D (.str text)
  word {n : Int} : Word.InRange n → D (.int n)

variable {nodes : List Node} {D : Value → Prop}

namespace Native

/-- Reading a word gives a word, or blames the call. -/
theorem readWord_stems (hD : Covers nodes D) {position : Option Position}
    (hcall : Node.Applies nodes none [] position) : Eval.Stems nodes D D (readWord position) := by
  refine Eval.stems_takeWord.bind fun next _ => ?_
  cases next with
  | none => exact .fail (.inputEnded hcall)
  | some word =>
      dsimp only
      split
      · exact .pure (hD.word (Word.inRange_ofSigned word))
      · next hsigned => exact .fail (.inputNotInteger hcall (Bool.not_eq_true _ ▸ hsigned))

/-- A call shows its arguments only, gives a word, and is blamed for arguments that its function
does not take. -/
theorem call_stems (hD : Covers nodes D) (f : Native) {operands : List Node}
    {position : Option Position} {arguments : List Value}
    (hcall : Node.Applies nodes none operands position)
    (hlength : arguments.length = operands.length) (harguments : ∀ value ∈ arguments, D value) :
    Eval.Stems nodes D D (f.call position arguments) := by
  have hword (n : Int) (h : Word.InRange n) : Eval.Stems nodes D D (pure (.int n)) :=
    .pure (hD.word h)
  have hstep := f.call_step position arguments
  generalize f.call position arguments = call at hstep
  cases hstep with
  | printString text =>
      have hshows : Shows D text.toList := .inr ⟨text, harguments _ List.mem_cons_self, rfl⟩
      exact (Eval.stems_writeLine hshows).bind fun _ _ => hword 0 (by decide)
  | printInt n =>
      have hshows : Shows D (toString n).toList := .inl ⟨n, harguments _ List.mem_cons_self, rfl⟩
      exact (Eval.stems_writeLine hshows).bind fun _ _ => hword 0 (by decide)
  | readInt =>
      obtain rfl := List.length_eq_zero_iff.mp hlength.symm
      exact readWord_stems hD hcall
  | add a b => exact hword _ (Word.inRange_wrap _)
  | equal a b =>
      have hflag : Word.InRange (if a = b then 1 else 0) := by split <;> decide
      exact hword _ hflag
  | exit => exact fun _ => ⟨.of_output_eq rfl, trivial⟩
  | arity harity =>
      rw [hlength] at harity ⊢
      exact .fail (.callArity hcall harity)
  | kind harity hwanted hvalue =>
      exact .fail (.argumentKind hcall (hlength.symm.trans harity) hwanted hvalue)

end Native

/-! ## Scopes -/

/-- The predicate holds of every value that a name has in the scope. -/
def Scope.Holds (D : Value → Prop) (scope : Scope) : Prop :=
  ∀ s value, scope.lookup s = some value → D value

/-- A frame of values that satisfy the predicate can be added. -/
theorem Scope.Holds.child {scope : Scope} (h : scope.Holds D) {bindings : Bindings}
    (hbindings : ∀ binding ∈ bindings, D binding.2) : (scope.child bindings).Holds D := by
  intro s value hvalue
  rw [Scope.lookup_child_apply] at hvalue
  rcases Option.or_eq_some_iff.mp hvalue with hbound | ⟨-, houter⟩
  · obtain ⟨front, back, rfl, -⟩ := List.lookup_eq_some_iff.mp hbound
    exact hbindings (s, value) (by simp)
  · exact h s value houter

/-- What a scope has for a symbol, or else the symbol is blamed. -/
theorem Scope.Holds.fetch_stems {scope : Scope} (h : scope.Holds D) {s : Symbol}
    {position : Option Position} (hsymbol : .symbol s position ∈ nodes) :
    Eval.Stems nodes D D (scope.fetch s position) := by
  unfold Scope.fetch
  split
  · next value hvalue => exact .pure (h s value hvalue)
  · exact .fail (.unbound hsymbol)

/-! ## Forms -/

namespace Node

/-- A form that is no hole is refused for itself if it can be written. -/
theorem refusal_of_isWhole {node : Node} (h : node.isWhole = true) (fault : String → EvalFault) :
    node.refusal fault = ⟨fault (String.ofList node.render), node.position⟩ := by
  have htext : node.text? = some (String.ofList node.render) := if_pos h
  unfold refusal
  rw [htext]
  cases node with
  | hole => cases h
  | list | symbol | string | integer => rfl

/-- A form that cannot be written is refused for a hole, in it or in its place. -/
theorem refusal_of_not_isWhole {node : Node} (h : ¬node.isWhole = true)
    (fault : String → EvalFault) :
    node.refusal fault = ⟨.holePosition, none⟩ ∨ node.refusal fault = ⟨.holeWritten, none⟩ := by
  have htext : node.text? = none := if_neg h
  unfold refusal
  rw [htext]
  cases node with
  | hole => exact .inl rfl
  | list | symbol | string | integer => exact .inr rfl

/-- A form is refused with a fault that blames it, or a hole within it. -/
theorem refuse_stems {α : Type} {Q : α → Prop} {node : Node} {fault : String → EvalFault}
    (hsub : node.subforms ⊆ nodes)
    (h : Blames nodes (fault (String.ofList node.render)) node.position) :
    Eval.Stems nodes D Q (node.refuse fault) := by
  refine .fail ?_
  by_cases hwhole : node.isWhole = true
  · rw [refusal_of_isWhole hwhole]
    exact h
  · have hhole : .hole ∈ nodes := hsub (hole_mem_subforms (Bool.not_eq_true _ ▸ hwhole))
    obtain hrefusal | hrefusal := refusal_of_not_isWhole hwhole fault
    all_goals rw [hrefusal]
    · exact .holePosition hhole
    · exact .holeWritten hhole

mutual

/-- All that the evaluation of a form comes to stems from the forms within it and from the scope. -/
theorem eval_stems (hD : Covers nodes D) {scope : Scope} (hscope : scope.Holds D) (node : Node)
    (hsub : node.subforms ⊆ nodes) : Eval.Stems nodes D D (node.eval scope) := by
  cases node with
  | integer n position => exact .pure (hD.integer (hsub (self_mem_subforms _)))
  | string text position => exact .pure (hD.string (hsub (self_mem_subforms _)))
  | symbol s position => exact hscope.fetch_stems (hsub (self_mem_subforms _))
  | hole => exact .fail (.holeEvaluated (hsub (self_mem_subforms _)))
  | list items position =>
      obtain ⟨hlist, hitems⟩ := List.cons_subset.mp hsub
      exact .nested hlist (evalForm_stems hD hscope hlist hitems)

/-- What the evaluation of a list comes to. -/
theorem evalForm_stems (hD : Covers nodes D) {scope : Scope} (hscope : scope.Holds D)
    {position : Option Position} {items : List Node} (hlist : list items position ∈ nodes)
    (hsub : subformsItems items ⊆ nodes) :
    Eval.Stems nodes D D (evalForm scope position items) := by
  match items with
  | [] => exact .fail (.emptyForm hlist)
  | symbol s place :: operands =>
      obtain ⟨hsymbol, hoperands⟩ := List.cons_subset.mp hsub
      simp only [evalForm]
      split
      · next hform => exact evalConditional_stems hD hscope ⟨s, place, hform, hlist⟩ hoperands
      · next hform => exact evalBinding_stems hD hscope ⟨s, place, hform, hlist⟩ hoperands
      · next hform =>
          refine (evalOperands_stems hD hscope operands hoperands).bind fun arguments h => ?_
          refine (hscope.fetch_stems hsymbol).bind fun operator _ => ?_
          cases operator with
          | native f => exact f.call_stems hD ⟨s, place, hform, hlist⟩ h.1 h.2
          | int | str | bool | nothing => exact .fail (.notCallable hlist hform)
  | list _ _ :: _ | string _ _ :: _ | integer _ _ :: _ | hole :: _ =>
      simp only [evalForm]
      refine refuse_stems (List.append_subset.mp hsub).1 ?_
      exact .operatorNotSymbol hlist (by simp)

/-- What the evaluation of a conditional comes to. -/
theorem evalConditional_stems (hD : Covers nodes D) {scope : Scope} (hscope : scope.Holds D)
    {position : Option Position} {operands : List Node}
    (hform : Applies nodes (some .conditional) operands position)
    (hsub : subformsItems operands ⊆ nodes) :
    Eval.Stems nodes D D (evalConditional scope position operands) := by
  match operands with
  | [condition, consequent, alternative] =>
      simp only [subformsItems, List.append_subset] at hsub
      obtain ⟨hcondition, hconsequent, halternative, -⟩ := hsub
      refine (eval_stems hD hscope condition hcondition).bind fun value _ => ?_
      cases value with
      | int n =>
          dsimp only
          split
          · exact eval_stems hD hscope alternative halternative
          · exact eval_stems hD hscope consequent hconsequent
      | str | native | bool | nothing => exact .fail (.conditionNotInteger hform (by simp))
  | [] | [_] | [_, _] | _ :: _ :: _ :: _ :: _ => exact .fail (.ifArity hform (by simp))

/-- What the evaluation of a binding form comes to. -/
theorem evalBinding_stems (hD : Covers nodes D) {scope : Scope} (hscope : scope.Holds D)
    {position : Option Position} {operands : List Node}
    (hform : Applies nodes (some .binding) operands position)
    (hsub : subformsItems operands ⊆ nodes) :
    Eval.Stems nodes D D (evalBinding scope position operands) := by
  match operands with
  | list pairs place :: first :: body =>
      simp only [subformsItems, subforms, List.append_subset, List.cons_subset] at hsub
      obtain ⟨⟨-, hpairs⟩, hfirst, hbody⟩ := hsub
      have hnames : ∀ pair ∈ paired pairs, (∀ s place, pair.1 ≠ symbol s place) →
          Blames nodes (.nameNotSymbol (String.ofList pair.1.render)) pair.1.position :=
        fun _ => .nameNotSymbol hform
      refine (evalPairs_stems hD hscope pairs hnames hpairs).bind fun bindings hbindings => ?_
      have hchild := hscope.child hbindings
      refine (eval_stems hD hchild first hfirst).bind fun value hvalue => ?_
      exact evalBody_stems hD hchild hvalue body hbody
  | symbol _ _ :: _ :: _ | string _ _ :: _ :: _ | integer _ _ :: _ :: _ =>
      exact .fail (.bindingsNotList hform (by simp))
  | hole :: _ :: _ => exact .fail (.holePosition (hsub (by simp [subformsItems, subforms])))
  | [] => exact .fail (.letArity hform (by simp))
  | [operand] => cases operand <;> exact .fail (.letArity hform (by simp))

/-- What the evaluation of operands comes to: as many values as there are operands. -/
theorem evalOperands_stems (hD : Covers nodes D) {scope : Scope} (hscope : scope.Holds D)
    (operands : List Node) (hsub : subformsItems operands ⊆ nodes) :
    Eval.Stems nodes D (fun values => values.length = operands.length ∧ ∀ value ∈ values, D value)
      (evalOperands scope operands) := by
  match operands with
  | [] => exact .pure ⟨rfl, List.forall_mem_nil _⟩
  | operand :: operands =>
      obtain ⟨hoperand, hoperands⟩ := List.append_subset.mp hsub
      refine (eval_stems hD hscope operand hoperand).bind fun value hvalue => ?_
      refine (evalOperands_stems hD hscope operands hoperands).bind fun values hvalues => ?_
      exact .pure ⟨congrArg (· + 1) hvalues.1, List.forall_mem_cons.mpr ⟨hvalue, hvalues.2⟩⟩

/-- What the evaluation of bindings comes to, if what is no symbol in the place of a name is to be
blamed. -/
theorem evalPairs_stems (hD : Covers nodes D) {scope : Scope} (hscope : scope.Holds D)
    (pairs : List Node)
    (hnames : ∀ pair ∈ paired pairs, (∀ s place, pair.1 ≠ symbol s place) →
      Blames nodes (.nameNotSymbol (String.ofList pair.1.render)) pair.1.position)
    (hsub : subformsItems pairs ⊆ nodes) :
    Eval.Stems nodes D (fun bindings => ∀ binding ∈ bindings, D binding.2)
      (evalPairs scope pairs) := by
  match pairs with
  | symbol s place :: form :: rest =>
      obtain ⟨-, hsub⟩ := List.append_subset.mp hsub
      obtain ⟨hform, hrest⟩ := List.append_subset.mp hsub
      obtain ⟨-, hnames⟩ := List.forall_mem_cons.mp hnames
      refine (eval_stems hD hscope form hform).bind fun value hvalue => ?_
      refine (evalPairs_stems hD hscope rest hnames hrest).bind fun bindings hbindings => ?_
      exact .pure (List.forall_mem_cons.mpr ⟨hvalue, hbindings⟩)
  | list _ _ :: _ :: _ | string _ _ :: _ :: _ | integer _ _ :: _ :: _ | hole :: _ :: _ =>
      refine refuse_stems (List.append_subset.mp hsub).1 ?_
      exact hnames _ List.mem_cons_self (by simp)
  | [] => exact .pure (List.forall_mem_nil _)
  | [name] => cases name <;> exact .pure (List.forall_mem_nil _)

/-- What the evaluation of forms in order comes to. -/
theorem evalBody_stems (hD : Covers nodes D) {scope : Scope} (hscope : scope.Holds D)
    {last : Value} (hlast : D last) (forms : List Node) (hsub : subformsItems forms ⊆ nodes) :
    Eval.Stems nodes D D (evalBody scope last forms) := by
  match forms with
  | [] => exact .pure hlast
  | form :: forms =>
      obtain ⟨hform, hforms⟩ := List.append_subset.mp hsub
      refine (eval_stems hD hscope form hform).bind fun value hvalue => ?_
      exact evalBody_stems hD hscope hvalue forms hforms

end

end Node

/-! ## The interpreter -/

namespace Interpreter

/-- All that the evaluation of a top-level form comes to stems from the form. -/
theorem evalTop_stems (hD : Covers nodes D) (hglobal : Scope.global.Holds D) {form : Node}
    (hsub : form.subforms ⊆ nodes) : Eval.Stems nodes D D (evalTop form) := by
  intro m
  rw [evalTop_apply]
  exact form.eval_stems hD hglobal hsub { m with depth := 0 }

/-- All that running forms comes to stems from the forms. -/
theorem runForms_stems (hD : Covers nodes D) (hglobal : Scope.global.Holds D) {forms : List Node}
    (hsub : Node.subformsItems forms ⊆ nodes) :
    Eval.Stems nodes D (fun _ => True) (runForms forms) := by
  induction forms with
  | nil => exact .pure trivial
  | cons form forms ih =>
      obtain ⟨hform, hforms⟩ := List.append_subset.mp hsub
      have hreport : Eval.Stems nodes D (fun _ => True) (Eval.report (evaluating form)) :=
        fun _ => ⟨.of_output_eq rfl, trivial⟩
      refine hreport.bind fun _ _ => ?_
      exact (evalTop_stems hD hglobal hform).bind fun _ _ => ih hforms

/-- All that evaluating forms comes to stems from the forms and from the value before them. -/
theorem evalForms_stems (hD : Covers nodes D) (hglobal : Scope.global.Holds D) {last : Value}
    (hlast : D last) {forms : List Node} (hsub : Node.subformsItems forms ⊆ nodes) :
    Eval.Stems nodes D D (evalForms last forms) := by
  induction forms generalizing last with
  | nil => exact .pure hlast
  | cons form forms ih =>
      obtain ⟨hform, hforms⟩ := List.append_subset.mp hsub
      exact (evalTop_stems hD hglobal hform).bind fun _ hvalue => ih hvalue hforms

end Interpreter

end Sexpr
