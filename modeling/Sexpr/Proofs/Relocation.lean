import Sexpr.Proofs.Evaluation

/-!
# Evaluation and positions

The positions in a tree say where its faults are, and that is all they are for. `Node.relocate`
changes every position of a tree, `Eval.relocate` those in the faults of a computation, and
`Node.eval_relocate` says that the two come to the same: a relocated form is evaluated like the
form itself, up to the positions of faults.
-/

namespace Sexpr

namespace Node

mutual

/-- The form with every position changed by `f`, which may also drop it. -/
def relocate (f : Position → Option Position) : Node → Node
  | list items position => list (relocateItems f items) (position.bind f)
  | symbol s position => symbol s (position.bind f)
  | string text position => string text (position.bind f)
  | integer value position => integer value (position.bind f)
  | hole => hole

/-- The forms with every position changed by `f`. -/
def relocateItems (f : Position → Option Position) : List Node → List Node
  | [] => []
  | node :: nodes => relocate f node :: relocateItems f nodes

end

variable (f : Position → Option Position)

/-- Relocating moves the place where a form began. -/
theorem position_relocate (node : Node) : (node.relocate f).position = node.position.bind f := by
  cases node <;> rfl

/-- Forms are relocated one by one. -/
theorem relocateItems_eq_map (nodes : List Node) :
    relocateItems f nodes = nodes.map (relocate f) := by
  induction nodes with
  | nil => rfl
  | cons node nodes ih => rw [relocateItems, ih, List.map_cons]

/-- Relocating keeps the number of forms. -/
@[simp]
theorem length_relocateItems (nodes : List Node) :
    (relocateItems f nodes).length = nodes.length := by
  rw [relocateItems_eq_map, List.length_map]

mutual

/-- Dropping every position leaves the bare form. -/
theorem relocate_none (node : Node) : node.relocate (fun _ => none) = node.bare := by
  cases node with
  | list items position =>
      simp only [relocate, bare, Option.bind_fun_none, relocateItems_none items]
  | symbol | string | integer => simp only [relocate, bare, Option.bind_fun_none]
  | hole => rfl

/-- Dropping every position leaves the bare forms. -/
theorem relocateItems_none (nodes : List Node) :
    relocateItems (fun _ => none) nodes = bareItems nodes := by
  cases nodes with
  | nil => rfl
  | cons node nodes => rw [relocateItems, bareItems, relocate_none node, relocateItems_none nodes]

end

mutual

/-- Relocating leaves the bare form as it is. -/
theorem bare_relocate (node : Node) : (node.relocate f).bare = node.bare := by
  cases node with
  | list items position => simp only [relocate, bare, bareItems_relocate items]
  | symbol | string | integer | hole => rfl

/-- Relocating leaves the bare forms as they are. -/
theorem bareItems_relocate (nodes : List Node) :
    bareItems (relocateItems f nodes) = bareItems nodes := by
  cases nodes with
  | nil => rfl
  | cons node nodes =>
      simp only [relocateItems, bareItems, bare_relocate node, bareItems_relocate nodes]

end

mutual

/-- Positions leave no trace in the text of a form. -/
@[simp]
theorem render_relocate (node : Node) : (node.relocate f).render = node.render := by
  cases node with
  | list items position => simp only [relocate, render, renderItems_relocate items]
  | symbol | string | integer | hole => rfl

/-- Positions leave no trace in the text of forms. -/
@[simp]
theorem renderItems_relocate (nodes : List Node) :
    renderItems (relocateItems f nodes) = renderItems nodes := by
  match nodes with
  | [] => rfl
  | [node] => exact render_relocate node
  | node :: next :: nodes =>
      have hmore := renderItems_relocate (next :: nodes)
      rw [relocateItems] at hmore
      simp only [relocateItems, renderItems, render_relocate node, hmore]

end

mutual

/-- Relocating neither makes nor fills holes. -/
@[simp]
theorem isWhole_relocate (node : Node) : (node.relocate f).isWhole = node.isWhole := by
  cases node with
  | list items position => simp only [relocate, isWhole, allWhole_relocate items]
  | symbol | string | integer | hole => rfl

/-- Relocating neither makes nor fills holes in forms. -/
@[simp]
theorem allWhole_relocate (nodes : List Node) :
    allWhole (relocateItems f nodes) = allWhole nodes := by
  cases nodes with
  | nil => rfl
  | cons node nodes =>
      simp only [relocateItems, allWhole, isWhole_relocate node, allWhole_relocate nodes]

end

/-- A relocated form has the same source text. -/
theorem text?_relocate (node : Node) : (node.relocate f).text? = node.text? := by
  simp only [text?, isWhole_relocate, render_relocate]

end Node

/-- The stop with the position of a fault of evaluation changed by `f`. -/
def Stop.relocate (f : Position → Option Position) : Stop → Stop
  | failed error => failed { error with position := error.position.bind f }
  | stop => stop

namespace Eval

variable {α β : Type} (f : Position → Option Position)

/-- The computation with the positions in its faults changed by `f`. -/
def relocate (x : Eval α) : Eval α := fun m => ((x m).1.mapError (Stop.relocate f), (x m).2)

/-- Computations in a row are relocated one by one. -/
theorem relocate_bind (first : Eval α) (next : α → Eval β) :
    relocate f (first >>= next) = relocate f first >>= fun value => relocate f (next value) := by
  funext m
  simp only [relocate, bind_apply]
  rcases first m with ⟨_ | _, _⟩ <;> rfl

/-- A computation within one more list is relocated with that list. -/
theorem relocate_nested (position : Option Position) (inner : Eval α) :
    relocate f (nested position inner) = nested (position.bind f) (relocate f inner) := by
  funext m
  by_cases hroom : m.limit ≤ m.depth
  · rw [nested_of_le hroom, relocate, nested_of_le hroom]
    rfl
  · have hlt := Int.not_le.mp hroom
    rw [nested_of_lt hlt, relocate, nested_of_lt hlt]
    rfl

end Eval

variable (f : Position → Option Position)

/-- Reading an integer is relocated with the form that asks for it. -/
theorem Native.readWord_relocate (position : Option Position) :
    readWord (position.bind f) = (readWord position).relocate f := by
  unfold readWord
  rw [Eval.relocate_bind]
  refine congrArg _ (funext fun next => ?_)
  cases next with
  | none => rfl
  | some word =>
      dsimp only
      split <;> rfl

/-- A call is relocated with its form. -/
theorem Native.call_relocate (g : Native) (position : Option Position) (arguments : List Value) :
    g.call (position.bind f) arguments = (g.call position arguments).relocate f := by
  by_cases hread : g = .readInt ∧ arguments = []
  · obtain ⟨rfl, rfl⟩ := hread
    exact readWord_relocate f position
  · unfold call
    split
    all_goals first | rfl | exact absurd ⟨rfl, rfl⟩ hread

/-- Looking up a name is relocated with the symbol. -/
theorem Scope.fetch_relocate (scope : Scope) (s : Symbol) (position : Option Position) :
    scope.fetch s (position.bind f) = (scope.fetch s position).relocate f := by
  unfold Scope.fetch
  cases scope.lookup s <;> rfl

namespace Node

/-- A form is refused with the same text, at its own position. -/
theorem refuse_relocate {α : Type} (node : Node) (fault : String → EvalFault) :
    ((node.relocate f).refuse fault : Eval α) = (node.refuse fault).relocate f := by
  unfold refuse refusal
  rw [text?_relocate, position_relocate]
  generalize node.text? = shown
  cases node with
  | hole => rfl
  | list | symbol | string | integer => cases shown <;> rfl

mutual

/-- A relocated form is evaluated like the form, up to the positions of faults. -/
theorem eval_relocate (scope : Scope) (node : Node) :
    (node.relocate f).eval scope = (node.eval scope).relocate f := by
  cases node with
  | integer | string | hole => rfl
  | symbol s position => exact scope.fetch_relocate f s position
  | list items position =>
      rw [relocate, eval, eval, Eval.relocate_nested, evalForm_relocate scope position items]

/-- A relocated list is evaluated like the list. -/
theorem evalForm_relocate (scope : Scope) (position : Option Position) (items : List Node) :
    evalForm scope (position.bind f) (relocateItems f items) =
      (evalForm scope position items).relocate f := by
  match items with
  | [] => rfl
  | symbol s place :: operands =>
      simp only [relocateItems, relocate, evalForm]
      cases SpecialForm.ofSymbol? s with
      | some special =>
          cases special with
          | conditional => exact evalConditional_relocate scope position operands
          | binding => exact evalBinding_relocate scope position operands
      | none =>
          dsimp only
          rw [Eval.relocate_bind, evalOperands_relocate scope operands]
          refine congrArg _ (funext fun arguments => ?_)
          rw [Eval.relocate_bind, scope.fetch_relocate]
          refine congrArg _ (funext fun operator => ?_)
          cases operator with
          | native g => exact g.call_relocate f position arguments
          | int | str | bool | nothing => rfl
  | list items place :: _ => exact refuse_relocate f (list items place) .operatorNotSymbol
  | string text place :: _ => exact refuse_relocate f (string text place) .operatorNotSymbol
  | integer value place :: _ => exact refuse_relocate f (integer value place) .operatorNotSymbol
  | hole :: _ => exact refuse_relocate f hole .operatorNotSymbol

/-- A relocated conditional is evaluated like the conditional. -/
theorem evalConditional_relocate (scope : Scope) (position : Option Position)
    (operands : List Node) :
    evalConditional scope (position.bind f) (relocateItems f operands) =
      (evalConditional scope position operands).relocate f := by
  match operands with
  | [condition, consequent, alternative] =>
      simp only [relocateItems, evalConditional]
      rw [Eval.relocate_bind, eval_relocate scope condition]
      refine congrArg _ (funext fun value => ?_)
      cases value with
      | int n =>
          dsimp only
          split
          · exact eval_relocate scope alternative
          · exact eval_relocate scope consequent
      | str | native | bool | nothing => rw [position_relocate]; rfl
  | [] | [_] | [_, _] => rfl
  | _ :: _ :: _ :: _ :: more =>
      simp only [relocateItems, evalConditional, List.length_cons, length_relocateItems]
      rfl

/-- A relocated binding form is evaluated like the binding form. -/
theorem evalBinding_relocate (scope : Scope) (position : Option Position)
    (operands : List Node) :
    evalBinding scope (position.bind f) (relocateItems f operands) =
      (evalBinding scope position operands).relocate f := by
  match operands with
  | list pairs _ :: first :: body =>
      simp only [relocateItems, relocate, evalBinding]
      rw [Eval.relocate_bind, evalPairs_relocate scope pairs]
      refine congrArg _ (funext fun bindings => ?_)
      rw [Eval.relocate_bind, eval_relocate _ first]
      exact congrArg _ (funext fun value => evalBody_relocate _ value body)
  | symbol _ _ :: _ :: _ | string _ _ :: _ :: _ | integer _ _ :: _ :: _ | hole :: _ :: _ => rfl
  | [] => rfl
  | [operand] => cases operand <;> rfl

/-- Relocated operands are evaluated like the operands. -/
theorem evalOperands_relocate (scope : Scope) (operands : List Node) :
    evalOperands scope (relocateItems f operands) = (evalOperands scope operands).relocate f := by
  match operands with
  | [] => rfl
  | operand :: operands =>
      simp only [relocateItems, evalOperands]
      rw [Eval.relocate_bind, eval_relocate scope operand]
      refine congrArg _ (funext fun value => ?_)
      rw [Eval.relocate_bind, evalOperands_relocate scope operands]
      rfl

/-- Relocated bindings are evaluated like the bindings. -/
theorem evalPairs_relocate (scope : Scope) (pairs : List Node) :
    evalPairs scope (relocateItems f pairs) = (evalPairs scope pairs).relocate f := by
  match pairs with
  | symbol s _ :: form :: rest =>
      simp only [relocateItems, relocate, evalPairs]
      rw [Eval.relocate_bind, eval_relocate scope form]
      refine congrArg _ (funext fun value => ?_)
      rw [Eval.relocate_bind, evalPairs_relocate scope rest]
      rfl
  | list _ _ :: _ :: _ | string _ _ :: _ :: _ | integer _ _ :: _ :: _ | hole :: _ :: _ =>
      exact refuse_relocate f _ _
  | [] => rfl
  | [name] => cases name <;> rfl

/-- Relocated forms in order are evaluated like the forms. -/
theorem evalBody_relocate (scope : Scope) (last : Value) (forms : List Node) :
    evalBody scope last (relocateItems f forms) = (evalBody scope last forms).relocate f := by
  match forms with
  | [] => rfl
  | form :: forms =>
      simp only [relocateItems, evalBody]
      rw [Eval.relocate_bind, eval_relocate scope form]
      exact congrArg _ (funext fun value => evalBody_relocate scope value forms)

end

end Node

/-- Relocated forms are run like the forms, with the same records. -/
theorem Interpreter.runForms_relocate (forms : List Node) :
    runForms (Node.relocateItems f forms) = (runForms forms).relocate f := by
  induction forms with
  | nil => rfl
  | cons form forms ih =>
      have hrecord : evaluating (form.relocate f) = evaluating form := by
        rw [evaluating, evaluating, Node.render_relocate]
      have htop : evalTop (form.relocate f) = (evalTop form).relocate f := by
        rw [evalTop, evalTop, Eval.relocate_bind, Node.eval_relocate]
        rfl
      simp only [Node.relocateItems, runForms]
      rw [Eval.relocate_bind, hrecord]
      refine congrArg _ (funext fun _ => ?_)
      rw [Eval.relocate_bind, htop]
      exact congrArg _ (funext fun _ => ih)

end Sexpr
