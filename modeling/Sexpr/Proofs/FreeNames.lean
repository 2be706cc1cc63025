import Sexpr.Proofs.Refinement

/-!
# Free names

`Node.freeNames` lists the names that a form leaves to the scope around it: every symbol that is
evaluated or called, except within the bodies of a binding form that binds it. The names of the
special forms are known without the scope, so they are not free as operators. `Node.eval_congr`
says that nothing else of a scope can be noticed: two scopes in which the free names of a form mean
the same, however their frames are made up, are the same to its evaluation.
-/

namespace Sexpr

namespace Node

/-- The names that a list of alternating names and forms binds. A last name without a form is not
bound, and what is no symbol binds nothing. -/
def boundNames : List Node → List Symbol
  | symbol s _ :: _ :: rest => s :: boundNames rest
  | _ :: _ :: rest => boundNames rest
  | _ => []

mutual

/-- The names that the form leaves to the scope around it. -/
def freeNames : Node → List Symbol
  | symbol s _ => [s]
  | list (symbol s _ :: operands) _ =>
      match SpecialForm.ofSymbol? s with
      | some .conditional => freeNamesItems operands
      | some .binding => freeNamesBinding operands
      | none => s :: freeNamesItems operands
  | _ => []

/-- The free names of a binding form with these operands: those of the forms it binds names to, and
those of its bodies that it does not bind. -/
def freeNamesBinding : List Node → List Symbol
  | list pairs _ :: body =>
      freeNamesPairs pairs ++ (freeNamesItems body).filter (· ∉ boundNames pairs)
  | _ => []

/-- The free names of the forms in a list of alternating names and forms. -/
def freeNamesPairs : List Node → List Symbol
  | _ :: form :: rest => freeNames form ++ freeNamesPairs rest
  | _ => []

/-- The free names of some forms. -/
def freeNamesItems : List Node → List Symbol
  | [] => []
  | node :: nodes => freeNames node ++ freeNamesItems nodes

end

end Node

namespace Bindings

variable {bindings : Bindings} {s : Symbol}

/-- A name that is among those bound has a value. -/
theorem exists_lookup_eq_some (h : s ∈ bindings.map Prod.fst) :
    ∃ value, bindings.lookup s = some value := by
  rw [← Option.isSome_iff_exists, List.lookup_isSome_iff]
  obtain ⟨binding, hbinding, rfl⟩ := List.mem_map.mp h
  exact ⟨binding, hbinding, beq_self_eq_true _⟩

/-- A name that is not among those bound has no value. -/
theorem lookup_eq_none (h : s ∉ bindings.map Prod.fst) : bindings.lookup s = none := by
  rw [List.lookup_eq_none_iff]
  rintro ⟨name, value⟩ hmem
  have hne : s ≠ name := by
    rintro rfl
    exact h (List.mem_map.mpr ⟨_, hmem, rfl⟩)
  simpa using hne

end Bindings

/-- In a scope with one more frame a name has the value that the frame gives it, or else the value
that it had. -/
theorem Scope.lookup_child_apply (scope : Scope) (bindings : Bindings) (s : Symbol) :
    (scope.child bindings).lookup s = (bindings.lookup s).or (scope.lookup s) := by
  rw [Scope.lookup_child]
  rfl

/-- The names mean the same in both scopes. -/
def Scope.AgreeOn (names : List Symbol) (scope other : Scope) : Prop :=
  ∀ s ∈ names, scope.lookup s = other.lookup s

namespace Scope.AgreeOn

variable {names more : List Symbol} {scope other : Scope}

/-- Scopes that agree on names agree on some of them. -/
theorem mono (h : AgreeOn names scope other) (hsub : more ⊆ names) : AgreeOn more scope other :=
  fun s hs => h s (hsub hs)

/-- Scopes agree on two lists of names exactly when they agree on both. -/
theorem append_iff :
    AgreeOn (names ++ more) scope other ↔ AgreeOn names scope other ∧ AgreeOn more scope other := by
  simp only [AgreeOn, List.mem_append, or_imp, forall_and]

/-- With the same frame inside, scopes need to agree only on names that this frame does not
bind. -/
theorem child {bindings : Bindings}
    (h : AgreeOn (names.filter (· ∉ bindings.map Prod.fst)) scope other) :
    AgreeOn names (scope.child bindings) (other.child bindings) := by
  intro s hs
  rw [lookup_child_apply, lookup_child_apply]
  by_cases hbound : s ∈ bindings.map Prod.fst
  · obtain ⟨value, hvalue⟩ := Bindings.exists_lookup_eq_some hbound
    rw [hvalue]
    rfl
  · rw [h s (List.mem_filter.mpr ⟨hs, by simpa using hbound⟩)]

/-- A frame that binds none of the names is not noticed. -/
theorem child_self {bindings : Bindings} (h : ∀ s ∈ names, s ∉ bindings.map Prod.fst) :
    AgreeOn names (scope.child bindings) scope := by
  intro s hs
  rw [lookup_child_apply, Bindings.lookup_eq_none (h s hs)]
  rfl

end Scope.AgreeOn

/-- Two computations with the same beginning are equal if they go on equally after every result
that it can have. -/
theorem Eval.bind_congr_of_ok {α β : Type} {first : Eval α} {next next' : α → Eval β}
    (h : ∀ m value after, first m = (.ok value, after) → next value = next' value) :
    first >>= next = first >>= next' := by
  funext m
  rcases hresult : first m with ⟨stop | value, after⟩
  · rw [bind_of_error hresult, bind_of_error hresult]
  · rw [bind_of_ok hresult, bind_of_ok hresult, h m value after hresult]

/-- Scopes that agree on a name fetch the same for it. -/
theorem Scope.AgreeOn.fetch_eq {names : List Symbol} {scope other : Scope} {s : Symbol}
    (h : AgreeOn names scope other) (hs : s ∈ names) (position : Option Position) :
    scope.fetch s position = other.fetch s position := by
  unfold Scope.fetch
  rw [h s hs]

namespace Node

/-- A form that is refused has no result. -/
theorem refuse_ne_ok {α : Type} {m after : Machine} {value : α} (node : Node)
    (fault : String → EvalFault) : node.refuse fault m ≠ (.ok value, after) := nofun

/-- The bindings that were evaluated have the names that the list binds. -/
theorem names_of_evalPairs {scope : Scope} {pairs : List Node} {m after : Machine}
    {bindings : Bindings} (h : evalPairs scope pairs m = (.ok bindings, after)) :
    bindings.map Prod.fst = boundNames pairs := by
  match pairs with
  | symbol s _ :: form :: rest =>
      simp only [evalPairs] at h
      rcases hform : form.eval scope m with ⟨stop | value, next⟩
      · rw [Eval.bind_of_error hform] at h
        cases h
      rw [Eval.bind_of_ok hform] at h
      rcases hrest : evalPairs scope rest next with ⟨stop | later, last⟩
      · rw [Eval.bind_of_error hrest] at h
        cases h
      rw [Eval.bind_of_ok hrest] at h
      cases h
      simp only [List.map_cons, boundNames, names_of_evalPairs hrest]
  | list _ _ :: _ :: _ | string _ _ :: _ :: _ | integer _ _ :: _ :: _ | hole :: _ :: _ =>
      exact absurd h (refuse_ne_ok _ _)
  | [] =>
      cases h
      rfl
  | [name] => cases name <;> cases h <;> rfl

mutual

/-- Scopes that agree on the free names of a form are the same to its evaluation. -/
theorem eval_congr {scope other : Scope} (node : Node)
    (h : Scope.AgreeOn node.freeNames scope other) : node.eval scope = node.eval other := by
  cases node with
  | integer | string | hole => rfl
  | symbol s position => exact h.fetch_eq List.mem_cons_self position
  | list items position => simp only [eval, evalForm_congr position items h]

/-- Scopes that agree on the free names of a list are the same to its evaluation. -/
theorem evalForm_congr {scope other : Scope} (position : Option Position) (items : List Node)
    (h : Scope.AgreeOn (list items position).freeNames scope other) :
    evalForm scope position items = evalForm other position items := by
  match items with
  | [] => rfl
  | symbol s place :: operands =>
      simp only [freeNames] at h
      simp only [evalForm]
      cases hspecial : SpecialForm.ofSymbol? s with
      | some special =>
          rw [hspecial] at h
          cases special with
          | conditional => exact evalConditional_congr position operands h
          | binding => exact evalBinding_congr position operands h
      | none =>
          rw [hspecial] at h
          have hoperands := evalOperands_congr operands (h.mono (List.subset_cons_self _ _))
          simp only [hoperands, h.fetch_eq List.mem_cons_self place]
  | list _ _ :: _ | string _ _ :: _ | integer _ _ :: _ | hole :: _ => rfl

/-- Scopes that agree on the free names of the operands are the same to a conditional. -/
theorem evalConditional_congr {scope other : Scope} (position : Option Position)
    (operands : List Node)
    (h : Scope.AgreeOn (freeNamesItems operands) scope other) :
    evalConditional scope position operands = evalConditional other position operands := by
  match operands with
  | [condition, consequent, alternative] =>
      simp only [freeNamesItems, Scope.AgreeOn.append_iff] at h
      obtain ⟨hcondition, hconsequent, halternative, -⟩ := h
      simp only [evalConditional, eval_congr condition hcondition,
        eval_congr consequent hconsequent, eval_congr alternative halternative]
  | [] | [_] | [_, _] | _ :: _ :: _ :: _ :: _ => rfl

/-- Scopes that agree on the free names of a binding form are the same to its evaluation: its frame
is the same in both. -/
theorem evalBinding_congr {scope other : Scope} (position : Option Position)
    (operands : List Node)
    (h : Scope.AgreeOn (freeNamesBinding operands) scope other) :
    evalBinding scope position operands = evalBinding other position operands := by
  match operands with
  | list pairs _ :: first :: body =>
      simp only [freeNamesBinding, Scope.AgreeOn.append_iff] at h
      simp only [evalBinding, evalPairs_congr pairs h.1]
      refine Eval.bind_congr_of_ok fun m bindings after hpairs => ?_
      -- In the bodies the names of the list mean the same, and all others what they meant outside.
      have hbody : Scope.AgreeOn (freeNamesItems (first :: body)) (scope.child bindings)
          (other.child bindings) := by
        refine .child ?_
        rw [names_of_evalPairs hpairs]
        exact h.2
      simp only [freeNamesItems, Scope.AgreeOn.append_iff] at hbody
      rw [eval_congr first hbody.1]
      exact congrArg _ (funext fun value => evalBody_congr value body hbody.2)
  | symbol _ _ :: _ :: _ | string _ _ :: _ :: _ | integer _ _ :: _ :: _ | hole :: _ :: _ => rfl
  | [] => rfl
  | [operand] => cases operand <;> rfl

/-- Scopes that agree on the free names of operands are the same to their evaluation. -/
theorem evalOperands_congr {scope other : Scope} (operands : List Node)
    (h : Scope.AgreeOn (freeNamesItems operands) scope other) :
    evalOperands scope operands = evalOperands other operands := by
  match operands with
  | [] => rfl
  | operand :: operands =>
      simp only [freeNamesItems, Scope.AgreeOn.append_iff] at h
      simp only [evalOperands, eval_congr operand h.1, evalOperands_congr operands h.2]

/-- Scopes that agree on the free names of the forms in a binding list are the same to their
evaluation. -/
theorem evalPairs_congr {scope other : Scope} (pairs : List Node)
    (h : Scope.AgreeOn (freeNamesPairs pairs) scope other) :
    evalPairs scope pairs = evalPairs other pairs := by
  match pairs with
  | symbol s _ :: form :: rest =>
      simp only [freeNamesPairs, Scope.AgreeOn.append_iff] at h
      simp only [evalPairs, eval_congr form h.1, evalPairs_congr rest h.2]
  | list _ _ :: _ :: _ | string _ _ :: _ :: _ | integer _ _ :: _ :: _ | hole :: _ :: _ => rfl
  | [] => rfl
  | [name] => cases name <;> rfl

/-- Scopes that agree on the free names of forms are the same to their evaluation in order. -/
theorem evalBody_congr {scope other : Scope} (last : Value) (forms : List Node)
    (h : Scope.AgreeOn (freeNamesItems forms) scope other) :
    evalBody scope last forms = evalBody other last forms := by
  match forms with
  | [] => rfl
  | form :: forms =>
      simp only [freeNamesItems, Scope.AgreeOn.append_iff] at h
      simp only [evalBody, eval_congr form h.1]
      exact congrArg _ (funext fun value => evalBody_congr value forms h.2)

end

end Node

/-- Evaluation depends on the scope only through the free names of the form: where two scopes agree
on these, the outcome and the machine afterwards are the same. So a frame that binds the names of
special forms only is not noticed where these names are not evaluated, a binding form does not
notice what the names it binds mean around it unless its list of bindings uses them, and a name
that is unbound stays so after every form, whatever that form binds within itself. -/
theorem evaluation_depends_on_free_names :
    (∀ (node : Node) (scope other : Scope),
      (∀ s ∈ node.freeNames, scope.lookup s = other.lookup s) →
        ∀ m, node.eval scope m = node.eval other m) ∧
    (∀ (node : Node) (scope : Scope) (bindings : Bindings),
      (∀ binding ∈ bindings, (SpecialForm.ofSymbol? binding.1).isSome) →
      (∀ s ∈ node.freeNames, SpecialForm.ofSymbol? s = none) →
        ∀ m, node.eval (scope.child bindings) m = node.eval scope m) ∧
    (∀ (operator : Symbol) (pairs body : List Node) (place inner position : Option Position)
      (scope : Scope) (bindings : Bindings), SpecialForm.ofSymbol? operator = some .binding →
      (∀ binding ∈ bindings,
        binding.1 ∈ Node.boundNames pairs ∧ binding.1 ∉ Node.freeNamesPairs pairs) →
      ∀ m, Node.eval (scope.child bindings)
          (.list (.symbol operator place :: .list pairs inner :: body) position) m =
        Node.eval scope
          (.list (.symbol operator place :: .list pairs inner :: body) position) m) ∧
    (∀ (form : Node) (s : Symbol) (position : Option Position) (scope : Scope) (value : Value)
      (m after : Machine), scope.lookup s = none → form.eval scope m = (.ok value, after) →
      Node.evalOperands scope [form, .symbol s position] m =
        (.error (.failed ⟨.unbound s, position⟩), after)) := by
  refine ⟨?_, ?_, ?_, ?_⟩
  · intro node scope other h m
    rw [node.eval_congr h]
  · intro node scope bindings hbindings hfree m
    rw [node.eval_congr (Scope.AgreeOn.child_self fun s hs hbound => ?_)]
    obtain ⟨binding, hbinding, rfl⟩ := List.mem_map.mp hbound
    have hspecial := hbindings binding hbinding
    rw [hfree _ hs] at hspecial
    cases hspecial
  · intro operator pairs body place inner position scope bindings hoperator hbindings m
    rw [Node.eval_congr _ (Scope.AgreeOn.child_self fun s hs hbound => ?_)]
    obtain ⟨binding, hbinding, rfl⟩ := List.mem_map.mp hbound
    obtain ⟨hinside, houtside⟩ := hbindings binding hbinding
    simp only [Node.freeNames, hoperator, Node.freeNamesBinding, List.mem_append,
      List.mem_filter, decide_eq_true_eq] at hs
    obtain hpairs | ⟨-, hbody⟩ := hs
    · exact houtside hpairs
    · exact hbody hinside
  · intro form s position scope value m after hs hform
    simp only [Node.evalOperands]
    rw [Eval.bind_of_ok hform]
    refine Eval.bind_of_error (Eval.bind_of_error ?_)
    simp only [Node.eval, Scope.fetch, hs, Eval.fail_apply]

/-- A binding form that is given its variable's meaning by frames of different shape, a conditional
where both special forms are shadowed, a binding form around whose variable another value is
bound, and that variable after the form. -/
theorem free_names_of_shadowed_forms :
    Node.eval [⟨[(.ofText "X", .int 1), (.ofText "Y", .int 2)], false⟩]
        (.list [.symbol (.ofText "LET") none,
          .list [.symbol (.ofText "X") none, .symbol (.ofText "Y") none] none,
          .symbol (.ofText "X") none] none) (.ofInput "" 1) =
      Node.eval [⟨[(.ofText "LET", .int 3)], true⟩, ⟨[(.ofText "Y", .int 2)], false⟩]
        (.list [.symbol (.ofText "LET") none,
          .list [.symbol (.ofText "X") none, .symbol (.ofText "Y") none] none,
          .symbol (.ofText "X") none] none) (.ofInput "" 1) ∧
    Node.eval (Scope.global.child [(.ofText "IF", .int 5), (.ofText "LET", .int 6)])
        (.list [.symbol (.ofText "IF") none, .integer 0 none, .integer 1 none, .integer 2 none]
          none) (.ofInput "" 1) =
      Node.eval .global
        (.list [.symbol (.ofText "IF") none, .integer 0 none, .integer 1 none, .integer 2 none]
          none) (.ofInput "" 1) ∧
    Node.eval (Scope.global.child [(.ofText "X", .int 9)])
        (.list [.symbol (.ofText "LET") none,
          .list [.symbol (.ofText "X") none, .integer 1 none] none, .symbol (.ofText "X") none]
          none) (.ofInput "" 1) =
      Node.eval .global
        (.list [.symbol (.ofText "LET") none,
          .list [.symbol (.ofText "X") none, .integer 1 none] none, .symbol (.ofText "X") none]
          none) (.ofInput "" 1) ∧
    Node.evalOperands .global
        [.list [.symbol (.ofText "LET") none,
          .list [.symbol (.ofText "X") none, .integer 1 none] none, .symbol (.ofText "X") none]
          none, .symbol (.ofText "X") none] (.ofInput "" 1) =
      (.error (.failed ⟨.unbound (.ofText "X"), none⟩), .ofInput "" 1) := by
  refine ⟨?_, ?_, ?_, ?_⟩
  · exact evaluation_depends_on_free_names.1 _ _ _ (by decide +kernel) _
  · exact evaluation_depends_on_free_names.2.1 _ _ _ (by decide +kernel) (by decide +kernel) _
  · exact evaluation_depends_on_free_names.2.2.1 _ _ _ _ _ _ _ _ rfl (by decide +kernel) _
  · exact evaluation_depends_on_free_names.2.2.2 _ _ _ _ (.int 1) _ _ rfl rfl

end Sexpr
