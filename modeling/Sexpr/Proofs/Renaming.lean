import Mathlib.Control.Monad.Basic
import Sexpr.Proofs.FreeNames

/-!
# Renaming what a binding form binds

A binding form may call its variables as it likes. `Node.rename` replaces a name by another one
wherever the name is free, and `Node.eval_rename` says that a renamed form means in one scope what
the form means in another, if the new name stands there for what the old one stands for here and
occurs nowhere in the form. A binding form that binds a name and the form that binds a new one in
its place give rise to just such scopes, so that they cannot be told apart
(`bound_names_can_be_renamed`), except that a name which could not be called is reported as it is
written.
-/

namespace Sexpr

/-- The name, replaced by `y` if it is `x`. -/
def Symbol.rename (s x y : Symbol) : Symbol := if s = x then y else s

/-- The name that is replaced becomes the new one. -/
@[simp]
theorem Symbol.rename_self (x y : Symbol) : x.rename x y = y := if_pos rfl

/-- Every other name stays. -/
theorem Symbol.rename_of_ne {s x : Symbol} (h : s ≠ x) (y : Symbol) : s.rename x y = s := if_neg h

namespace Node

mutual

/-- The form with `y` in place of every free occurrence of `x`. -/
def rename (x y : Symbol) : Node → Node
  | symbol s position => symbol (s.rename x y) position
  | list (symbol s place :: operands) position =>
      match SpecialForm.ofSymbol? s with
      | some .conditional => list (symbol s place :: renameItems x y operands) position
      | some .binding => list (symbol s place :: renameBinding x y operands) position
      | none => list (symbol (s.rename x y) place :: renameItems x y operands) position
  | node => node

/-- The operands of a binding form with `y` in place of every free occurrence of `x`: of those in
the bodies only if the form does not bind `x` itself. -/
def renameBinding (x y : Symbol) : List Node → List Node
  | list pairs place :: body =>
      list (renamePairs x y pairs) place ::
        if x ∈ boundNames pairs then body else renameItems x y body
  | operands => operands

/-- A list of alternating names and forms with `y` in place of every free occurrence of `x` in the
forms. -/
def renamePairs (x y : Symbol) : List Node → List Node
  | name :: form :: rest => name :: rename x y form :: renamePairs x y rest
  | rest => rest

/-- The forms with `y` in place of every free occurrence of `x`. -/
def renameItems (x y : Symbol) : List Node → List Node
  | [] => []
  | node :: nodes => rename x y node :: renameItems x y nodes

end

/-- A list of alternating names and forms with the name `x` replaced by `y`, its forms as they are.
A last name without a form is not bound, and so it stays. -/
def renameBound (x y : Symbol) : List Node → List Node
  | symbol s place :: form :: rest => symbol (s.rename x y) place :: form :: renameBound x y rest
  | name :: form :: rest => name :: form :: renameBound x y rest
  | rest => rest

/-- No symbol among the forms has this name. -/
def Lacks (y : Symbol) (nodes : List Node) : Prop := ∀ position, symbol y position ∉ nodes

variable {x y : Symbol}

/-- Two sequences of forms lack a name together if each of them does. -/
@[simp]
theorem lacks_append {nodes others : List Node} :
    Lacks y (nodes ++ others) ↔ Lacks y nodes ∧ Lacks y others := by
  simp only [Lacks, List.mem_append, not_or, forall_and]

/-- A list has no name of its own. -/
@[simp]
theorem lacks_list {items nodes : List Node} {position : Option Position} :
    Lacks y (list items position :: nodes) ↔ Lacks y nodes := by
  simp [Lacks]

/-- A symbol lacks every name but its own. -/
@[simp]
theorem lacks_symbol {s : Symbol} {position : Option Position} :
    Lacks y [symbol s position] ↔ s ≠ y := by
  simp [Lacks, eq_comm]

/-- A name that does not occur is not bound. -/
theorem notMem_boundNames {pairs : List Node} (h : Lacks y (subformsItems pairs)) :
    y ∉ boundNames pairs := by
  fun_induction boundNames pairs with
  | case1 s place form rest ih =>
      simp only [subformsItems, subforms, lacks_append, lacks_symbol] at h
      simpa [h.1.symm] using ih h.2.2
  | case2 name form rest hname ih =>
      simp only [subformsItems, lacks_append] at h
      exact ih h.2.2
  | case3 => exact List.not_mem_nil

mutual

/-- A name that does not occur in a form is not free there. -/
theorem notMem_freeNames {node : Node} (h : Lacks y node.subforms) : y ∉ node.freeNames := by
  match node with
  | symbol s position => simpa [freeNames, eq_comm, subforms] using h
  | list (symbol s place :: operands) position =>
      simp only [subforms, subformsItems, lacks_append, lacks_list, lacks_symbol] at h
      simp only [freeNames]
      split
      · exact notMem_freeNamesItems h.2
      · exact notMem_freeNamesBinding h.2
      · simpa [h.1.symm] using notMem_freeNamesItems h.2
  | list [] _ | list (list _ _ :: _) _ | list (string _ _ :: _) _ | list (integer _ _ :: _) _
  | list (hole :: _) _ | string _ _ | integer _ _ | hole => simp [freeNames]

/-- A name that does not occur in the operands of a binding form is not free there. -/
theorem notMem_freeNamesBinding {operands : List Node} (h : Lacks y (subformsItems operands)) :
    y ∉ freeNamesBinding operands := by
  match operands with
  | list pairs place :: body =>
      simp only [subformsItems, subforms, lacks_append, lacks_list] at h
      simp only [freeNamesBinding, List.mem_append, List.mem_filter, not_or, not_and]
      exact ⟨notMem_freeNamesPairs h.1, fun hbody => absurd hbody (notMem_freeNamesItems h.2)⟩
  | [] | symbol _ _ :: _ | string _ _ :: _ | integer _ _ :: _ | hole :: _ =>
      simp [freeNamesBinding]

/-- A name that does not occur in a list of bindings is not free in its forms. -/
theorem notMem_freeNamesPairs {pairs : List Node} (h : Lacks y (subformsItems pairs)) :
    y ∉ freeNamesPairs pairs := by
  match pairs with
  | name :: form :: rest =>
      simp only [subformsItems, lacks_append] at h
      simp only [freeNamesPairs, List.mem_append, not_or]
      exact ⟨notMem_freeNames h.2.1, notMem_freeNamesPairs h.2.2⟩
  | [] | [_] => simp [freeNamesPairs]

/-- A name that does not occur in forms is not free there. -/
theorem notMem_freeNamesItems {nodes : List Node} (h : Lacks y (subformsItems nodes)) :
    y ∉ freeNamesItems nodes := by
  match nodes with
  | [] => simp [freeNamesItems]
  | node :: nodes =>
      simp only [subformsItems, lacks_append] at h
      simp only [freeNamesItems, List.mem_append, not_or]
      exact ⟨notMem_freeNames h.1, notMem_freeNamesItems h.2⟩

end

end Node

/-! ## Scopes -/

/-- The name is bound in the first scope, the new name stands in the second for what it stands for
in the first, and every other name means the same in both. -/
structure Scope.Renamed (x y : Symbol) (scope other : Scope) : Prop where
  bound : (scope.lookup x).isSome
  lookup_new : other.lookup y = scope.lookup x
  lookup_other : ∀ s, s ≠ x → s ≠ y → other.lookup s = scope.lookup s

namespace Bindings

/-- The bindings with the name `x` replaced by `y`. -/
def rename (x y : Symbol) (bindings : Bindings) : Bindings :=
  bindings.map fun binding => (binding.1.rename x y, binding.2)

variable {x y : Symbol} {bindings : Bindings}

/-- A new name has the value of the name that it replaces. -/
theorem lookup_rename_new (hy : y ∉ bindings.map Prod.fst) :
    (bindings.rename x y).lookup y = bindings.lookup x := by
  induction bindings with
  | nil => rfl
  | cons binding rest ih =>
      obtain ⟨name, value⟩ := binding
      obtain ⟨hname, hrest⟩ : y ≠ name ∧ y ∉ rest.map Prod.fst := by simpa using hy
      show List.lookup y ((name.rename x y, value) :: rename x y rest) = _
      by_cases hx : name = x
      · subst hx
        simp
      · simp only [Symbol.rename_of_ne hx, List.lookup_cons, beq_false_of_ne hname,
          beq_false_of_ne (Ne.symm hx), ih hrest]

/-- Any other name keeps its value. -/
theorem lookup_rename_other {s : Symbol} (hx : s ≠ x) (hy : s ≠ y) :
    (bindings.rename x y).lookup s = bindings.lookup s := by
  induction bindings with
  | nil => rfl
  | cons binding rest ih =>
      obtain ⟨name, value⟩ := binding
      show List.lookup s ((name.rename x y, value) :: rename x y rest) = _
      by_cases hname : name = x
      · subst hname
        simp only [Symbol.rename_self, List.lookup_cons, beq_false_of_ne hx, beq_false_of_ne hy, ih]
      · simp only [Symbol.rename_of_ne hname, List.lookup_cons, ih]

end Bindings

namespace Scope.Renamed

variable {x y : Symbol} {scope other : Scope} {bindings : Bindings}

/-- A frame that binds neither of the two names can be put inside both scopes. -/
theorem child (h : Scope.Renamed x y scope other) (hx : x ∉ bindings.map Prod.fst)
    (hy : y ∉ bindings.map Prod.fst) :
    Scope.Renamed x y (scope.child bindings) (other.child bindings) := by
  have hxnone := Bindings.lookup_eq_none hx
  have hynone := Bindings.lookup_eq_none hy
  refine ⟨?_, ?_, ?_⟩
  · rw [lookup_child_apply, hxnone]
    exact h.bound
  · rw [lookup_child_apply, lookup_child_apply, hxnone, hynone]
    exact h.lookup_new
  · intro s hsx hsy
    rw [lookup_child_apply, lookup_child_apply, h.lookup_other s hsx hsy]

/-- A frame that binds the name, and the frame that binds the new name in its place. -/
theorem of_child (scope : Scope) (hx : x ∈ bindings.map Prod.fst)
    (hy : y ∉ bindings.map Prod.fst) :
    Scope.Renamed x y (scope.child bindings) (scope.child (bindings.rename x y)) := by
  obtain ⟨value, hvalue⟩ := Bindings.exists_lookup_eq_some hx
  have hnew : (bindings.rename x y).lookup y = some value :=
    (Bindings.lookup_rename_new hy).trans hvalue
  refine ⟨?_, ?_, ?_⟩
  · rw [lookup_child_apply, hvalue]
    rfl
  · rw [lookup_child_apply, lookup_child_apply, hvalue, hnew]
    rfl
  · intro s hsx hsy
    rw [lookup_child_apply, lookup_child_apply, Bindings.lookup_rename_other hsx hsy]

/-- Scopes agree on all names if a frame within both binds the replaced name and the new one is
left out. -/
theorem agreeOn_child (h : Scope.Renamed x y scope other) {names : List Symbol}
    (hx : x ∈ bindings.map Prod.fst) (hy : y ∉ names) :
    Scope.AgreeOn names (scope.child bindings) (other.child bindings) := by
  refine .child fun s hs => ?_
  obtain ⟨hname, hfree⟩ : s ∈ names ∧ s ∉ bindings.map Prod.fst := by simpa using hs
  have hsx : s ≠ x := fun heq => hfree (heq ▸ hx)
  have hsy : s ≠ y := fun heq => hy (heq ▸ hname)
  exact (h.lookup_other s hsx hsy).symm

end Scope.Renamed

/-! ## Computations -/

/-- Two ends of a computation differ at most in the name of what could not be called, which is `x`
in the first and `y` in the second. -/
def EndsRenamed {α : Type} (x y : Symbol) (first second : Except Stop α) : Prop :=
  second = first ∨ ∃ place,
    first = .error (.failed ⟨.notCallable x, place⟩) ∧
      second = .error (.failed ⟨.notCallable y, place⟩)

namespace Eval

variable {x y : Symbol} {α β : Type}

/-- On every machine both computations leave the same machine, and they end alike up to the name of
what could not be called. -/
def Renamed (x y : Symbol) (first second : Eval α) : Prop :=
  ∀ m, EndsRenamed x y (first m).1 (second m).1 ∧ (second m).2 = (first m).2

/-- A computation ends like itself. -/
theorem Renamed.refl (first : Eval α) : Renamed x y first first := fun _ => ⟨.inl rfl, rfl⟩

/-- What could not be called under one name cannot be called under the other. -/
theorem renamed_notCallable (place : Option Position) :
    Renamed x y (fail (.notCallable x) place : Eval α) (fail (.notCallable y) place) :=
  fun _ => ⟨.inr ⟨place, rfl, rfl⟩, rfl⟩

/-- Computations in a row end alike if they do so one by one, after every value that the first of
them can have. -/
theorem Renamed.bind {first second : Eval α} {next next' : α → Eval β}
    (h : Renamed x y first second)
    (hnext : ∀ m value after, first m = (.ok value, after) →
      Renamed x y (next value) (next' value)) :
    Renamed x y (first >>= next) (second >>= next') := by
  intro m
  obtain ⟨hend, hafter⟩ := h m
  rcases hfirst : first m with ⟨stop | value, after⟩
  all_goals rw [hfirst] at hend hafter
  · obtain hsame | ⟨place, hstop, hother⟩ := hend
    · rw [bind_of_error hfirst, bind_of_error (Prod.ext hsame hafter)]
      exact ⟨.inl rfl, rfl⟩
    · rw [bind_of_error hfirst, bind_of_error (Prod.ext hother hafter)]
      cases hstop
      exact ⟨.inr ⟨place, rfl, rfl⟩, rfl⟩
  · obtain hsame | ⟨place, ⟨⟩, -⟩ := hend
    rw [bind_of_ok hfirst, bind_of_ok (Prod.ext hsame hafter)]
    exact hnext m value after hfirst after

/-- Within one more list, computations end alike if they do so without it. -/
theorem Renamed.nested {inner inner' : Eval α} (h : Renamed x y inner inner')
    (position : Option Position) :
    Renamed x y (nested position inner) (nested position inner') := by
  intro m
  by_cases hroom : m.limit ≤ m.depth
  · rw [nested_of_le hroom, nested_of_le hroom]
    exact ⟨.inl rfl, rfl⟩
  · obtain ⟨hend, hafter⟩ := h { m with depth := m.depth + 1 }
    rw [nested_of_lt (Int.not_le.mp hroom), nested_of_lt (Int.not_le.mp hroom), hafter]
    exact ⟨hend, rfl⟩

end Eval

open Eval (Renamed)

/-- A name that is not the new one is looked up under the name it gets. -/
theorem Scope.Renamed.fetch_eq {x y s : Symbol} {scope other : Scope}
    (h : Scope.Renamed x y scope other) (hs : s ≠ y) (position : Option Position) :
    other.fetch (s.rename x y) position = scope.fetch s position := by
  unfold Scope.fetch
  by_cases hx : s = x
  · subst hx
    obtain ⟨value, hvalue⟩ := Option.isSome_iff_exists.mp h.bound
    rw [Symbol.rename_self, h.lookup_new, hvalue]
  · rw [Symbol.rename_of_ne hx, h.lookup_other s hx hs]

namespace Node

variable {x y : Symbol}

/-- Nothing follows a form that is refused. -/
theorem refuse_bind {α β : Type} (node : Node) (fault : String → EvalFault) (next : α → Eval β) :
    (node.refuse fault >>= next) = node.refuse fault := rfl

/-- Renaming forms keeps their number. -/
@[simp]
theorem length_renameItems (nodes : List Node) :
    (renameItems x y nodes).length = nodes.length := by
  induction nodes with
  | nil => rfl
  | cons node nodes ih => rw [renameItems, List.length_cons, ih, List.length_cons]

/-- A renamed form stands where the form stood. -/
@[simp]
theorem position_rename (node : Node) : (node.rename x y).position = node.position := by
  match node with
  | list (symbol s place :: operands) position =>
      simp only [rename]
      split <;> rfl
  | list [] _ | list (list _ _ :: _) _ | list (string _ _ :: _) _ | list (integer _ _ :: _) _
  | list (hole :: _) _ | symbol _ _ | string _ _ | integer _ _ | hole => rfl

/-- Replacing the names of a list of bindings replaces the names of the bindings that it gives. -/
theorem evalPairs_renameBound (scope : Scope) (pairs : List Node) :
    evalPairs scope (renameBound x y pairs) =
      evalPairs scope pairs >>= fun bindings => pure (bindings.rename x y) := by
  cases pairs with
  | nil => rfl
  | cons name rest =>
      cases rest with
      | nil => cases name <;> rfl
      | cons form rest =>
          have hrest := evalPairs_renameBound scope rest
          cases name with
          | symbol s place =>
              simp only [renameBound, evalPairs, hrest, bind_assoc, pure_bind]
              rfl
          | list | string | integer | hole => simp only [renameBound, evalPairs, refuse_bind]

mutual

/-- In a scope where the new name stands for the old one, the renamed form is evaluated like the
form. -/
theorem eval_rename (hy : SpecialForm.ofSymbol? y = none) {scope other : Scope}
    (h : Scope.Renamed x y scope other) (node : Node) (hfresh : Lacks y node.subforms) :
    Renamed x y (node.eval scope) ((node.rename x y).eval other) := by
  match node with
  | integer _ _ | string _ _ | hole => exact .refl _
  | symbol s position =>
      have hs : s ≠ y := by simpa [subforms] using hfresh
      rw [rename, eval, eval, h.fetch_eq hs]
      exact .refl _
  | list (symbol s place :: operands) position =>
      simp only [subforms, subformsItems, lacks_append, lacks_list, lacks_symbol] at hfresh
      simp only [rename]
      cases hspecial : SpecialForm.ofSymbol? s with
      | some special =>
          cases special with
          | conditional =>
              refine .nested ?_ position
              simp only [hspecial]
              exact evalConditional_rename hy h position operands hfresh.2
          | binding =>
              refine .nested ?_ position
              simp only [hspecial]
              exact evalBinding_rename hy h position operands hfresh.2
      | none =>
          have hcall : SpecialForm.ofSymbol? (s.rename x y) = none := by
            by_cases hs : s = x
            · rwa [hs, Symbol.rename_self]
            · rwa [Symbol.rename_of_ne hs]
          refine .nested ?_ position
          simp only [hspecial, hcall, h.fetch_eq hfresh.1]
          refine .bind (evalOperands_rename hy h operands hfresh.2) fun _ arguments _ _ => ?_
          refine .bind (.refl _) fun _ operator _ _ => ?_
          cases operator with
          | native f => exact .refl _
          | int | str | bool | nothing =>
              by_cases hs : s = x
              · rw [hs, Symbol.rename_self]
                exact Eval.renamed_notCallable place
              · rw [Symbol.rename_of_ne hs]
                exact .refl _
  | list [] _ | list (list _ _ :: _) _ | list (string _ _ :: _) _ | list (integer _ _ :: _) _
  | list (hole :: _) _ => exact .refl _

/-- The operands of a renamed conditional are evaluated like those of the conditional. -/
theorem evalConditional_rename (hy : SpecialForm.ofSymbol? y = none) {scope other : Scope}
    (h : Scope.Renamed x y scope other)
    (position : Option Position) (operands : List Node)
    (hfresh : Lacks y (subformsItems operands)) :
    Renamed x y (evalConditional scope position operands)
      (evalConditional other position (renameItems x y operands)) := by
  match operands with
  | [condition, consequent, alternative] =>
      simp only [subformsItems, lacks_append] at hfresh
      obtain ⟨hcondition, hconsequent, halternative, -⟩ := hfresh
      simp only [renameItems, evalConditional, position_rename]
      refine .bind (eval_rename hy h condition hcondition) fun _ value _ _ => ?_
      cases value with
      | int n =>
          dsimp only
          split
          · exact eval_rename hy h alternative halternative
          · exact eval_rename hy h consequent hconsequent
      | str | native | bool | nothing => exact .refl _
  | [] | [_] | [_, _] => exact .refl _
  | _ :: _ :: _ :: _ :: more =>
      simp only [renameItems, evalConditional, List.length_cons, length_renameItems]
      exact .refl _

/-- The operands of a renamed binding form are evaluated like those of the binding form. -/
theorem evalBinding_rename (hy : SpecialForm.ofSymbol? y = none) {scope other : Scope}
    (h : Scope.Renamed x y scope other)
    (position : Option Position) (operands : List Node)
    (hfresh : Lacks y (subformsItems operands)) :
    Renamed x y (evalBinding scope position operands)
      (evalBinding other position (renameBinding x y operands)) := by
  match operands with
  | list pairs place :: first :: body =>
      simp only [subformsItems, subforms, lacks_append, lacks_list] at hfresh
      obtain ⟨hpairs, hfirst, hbody⟩ := hfresh
      have hynames := notMem_boundNames hpairs
      by_cases hbound : x ∈ boundNames pairs
      · -- The bodies belong to the inner name, so they stay, and the scopes agree on all they use.
        simp only [renameBinding, if_pos hbound, evalBinding]
        refine .bind (evalPairs_rename hy h pairs hpairs) fun _ bindings _ hresult => ?_
        rw [← names_of_evalPairs hresult] at hbound
        rw [eval_congr first (h.agreeOn_child hbound (notMem_freeNames hfirst))]
        refine .bind (.refl _) fun _ value _ _ => ?_
        rw [evalBody_congr value body (h.agreeOn_child hbound (notMem_freeNamesItems hbody))]
        exact .refl _
      · simp only [renameBinding, if_neg hbound, renameItems, evalBinding]
        refine .bind (evalPairs_rename hy h pairs hpairs) fun _ bindings _ hresult => ?_
        rw [← names_of_evalPairs hresult] at hbound hynames
        have hchild := h.child hbound hynames
        refine .bind (eval_rename hy hchild first hfirst) fun _ value _ _ => ?_
        exact evalBody_rename hy hchild value body hbody
  | [list pairs place] =>
      simp only [renameBinding, renameItems, ite_self]
      exact .refl _
  | symbol _ _ :: _ :: _ | string _ _ :: _ :: _ | integer _ _ :: _ :: _ | hole :: _ :: _ =>
      exact .refl _
  | [] | [symbol _ _] | [string _ _] | [integer _ _] | [hole] => exact .refl _

/-- Renamed operands are evaluated like the operands. -/
theorem evalOperands_rename (hy : SpecialForm.ofSymbol? y = none) {scope other : Scope}
    (h : Scope.Renamed x y scope other)
    (operands : List Node) (hfresh : Lacks y (subformsItems operands)) :
    Renamed x y (evalOperands scope operands) (evalOperands other (renameItems x y operands)) := by
  match operands with
  | [] => exact .refl _
  | operand :: operands =>
      simp only [subformsItems, lacks_append] at hfresh
      refine .bind (eval_rename hy h operand hfresh.1) fun _ value _ _ => ?_
      refine .bind (evalOperands_rename hy h operands hfresh.2) fun _ values _ _ => ?_
      exact .refl _

/-- A list of bindings whose forms are renamed is evaluated like the list. -/
theorem evalPairs_rename (hy : SpecialForm.ofSymbol? y = none) {scope other : Scope}
    (h : Scope.Renamed x y scope other)
    (pairs : List Node) (hfresh : Lacks y (subformsItems pairs)) :
    Renamed x y (evalPairs scope pairs) (evalPairs other (renamePairs x y pairs)) := by
  match pairs with
  | symbol s _ :: form :: rest =>
      simp only [subformsItems, lacks_append] at hfresh
      refine .bind (eval_rename hy h form hfresh.2.1) fun _ value _ _ => ?_
      refine .bind (evalPairs_rename hy h rest hfresh.2.2) fun _ bindings _ _ => ?_
      exact .refl _
  | list _ _ :: _ :: _ | string _ _ :: _ :: _ | integer _ _ :: _ :: _ | hole :: _ :: _ =>
      exact .refl _
  | [] => exact .refl _
  | [name] => cases name <;> exact .refl _

/-- Renamed forms in order are evaluated like the forms. -/
theorem evalBody_rename (hy : SpecialForm.ofSymbol? y = none) {scope other : Scope}
    (h : Scope.Renamed x y scope other) (last : Value)
    (forms : List Node) (hfresh : Lacks y (subformsItems forms)) :
    Renamed x y (evalBody scope last forms) (evalBody other last (renameItems x y forms)) := by
  match forms with
  | [] => exact .refl _
  | form :: forms =>
      simp only [subformsItems, lacks_append] at hfresh
      refine .bind (eval_rename hy h form hfresh.1) fun _ value _ _ => ?_
      exact evalBody_rename hy h value forms hfresh.2

end

/-- A binding form whose names are replaced, in its list and in its bodies, is evaluated like the
binding form. -/
theorem evalBinding_renameBound (hy : SpecialForm.ofSymbol? y = none) {pairs body : List Node}
    (hbound : x ∈ boundNames pairs) (hpairs : Lacks y (subformsItems pairs))
    (hbody : Lacks y (subformsItems body)) (scope : Scope) (inner position : Option Position) :
    Renamed x y (evalBinding scope position (list pairs inner :: body))
      (evalBinding scope position
        (list (renameBound x y pairs) inner :: renameItems x y body)) := by
  cases body with
  | nil => exact .refl _
  | cons first body =>
      simp only [subformsItems, lacks_append] at hbody
      simp only [renameItems, evalBinding, evalPairs_renameBound, bind_assoc, pure_bind]
      refine .bind (.refl _) fun _ bindings _ hresult => ?_
      -- The two frames differ in the two names only, and the first one binds the old name.
      have hnames := names_of_evalPairs hresult
      have hchild : Scope.Renamed x y (scope.child bindings)
          (scope.child (bindings.rename x y)) := by
        refine .of_child scope ?_ ?_
        · rwa [hnames]
        · rw [hnames]
          exact notMem_boundNames hpairs
      refine .bind (eval_rename hy hchild first hbody.1) fun _ value _ _ => ?_
      exact evalBody_rename hy hchild value body hbody.2

end Node

/-- A binding form may bind a new name in place of any name that it binds. The names in its list of
bindings are replaced and so are the free occurrences in its bodies; the forms that the names are
bound to stay. If the new name does not occur in the form and names no special form, then in every
scope and on every machine the two forms leave the same machine and end with the same value, with
the exit of the program, or with the same fault at the same place; only a name that could not be
called is reported as it is written. -/
theorem bound_names_can_be_renamed (operator x y : Symbol) (pairs body : List Node)
    (place inner position : Option Position)
    (hoperator : SpecialForm.ofSymbol? operator = some .binding)
    (hbound : x ∈ Node.boundNames pairs) (hy : SpecialForm.ofSymbol? y = none) :
    let form := Node.list (.symbol operator place :: .list pairs inner :: body) position
    let renamed := Node.list (.symbol operator place ::
      .list (Node.renameBound x y pairs) inner :: Node.renameItems x y body) position
    (∀ q, Node.symbol y q ∉ form.subforms) → ∀ (scope : Scope) (m : Machine),
      (renamed.eval scope m).2 = (form.eval scope m).2 ∧
        EndsRenamed x y (form.eval scope m).1 (renamed.eval scope m).1 := by
  intro form renamed hfresh scope m
  obtain ⟨-, hpairs, hbody⟩ : operator ≠ y ∧ Node.Lacks y (Node.subformsItems pairs) ∧
      Node.Lacks y (Node.subformsItems body) := by
    have hlacks : Node.Lacks y form.subforms := hfresh
    simp only [form, Node.subforms, Node.subformsItems, Node.lacks_append, Node.lacks_list,
      Node.lacks_symbol] at hlacks
    exact hlacks
  have hbinding := Node.evalBinding_renameBound hy hbound hpairs hbody scope inner position
  obtain ⟨hend, hafter⟩ := hbinding.nested position m
  simp only [form, renamed, Node.eval, Node.evalForm, hoperator]
  exact ⟨hafter, hend⟩

/-- A variable is bound twice, stands without a form at the end of the list, is bound anew by an
inner form that uses it for that, and is called at last, where another value has the new name
around the form: under the new name the form prints the same, and the call fails at the same
place. -/
theorem bound_name_renamed_among_shadows :
    let x : Symbol := .ofText "X"
    let y : Symbol := .ofText "Y"
    let plus (a b : Node) : Node := .list [.symbol (.ofText "+") none, a, b] none
    let binding (pairs body : List Node) : Node :=
      .list (.symbol (.ofText "LET") none :: .list pairs none :: body) none
    let form (name : Symbol) : Node :=
      binding
        [.symbol name none, plus (.list [.symbol (.ofText "READ-INT") none] none) (.symbol x none),
          .symbol name none, .integer 2 none, .symbol x none]
        [.list [.symbol (.ofText "PRINT-INT") none, plus (.symbol name none)
            (binding [.symbol x none, plus (.symbol name none) (.integer 5 none)]
              [.symbol x none])] none,
          .list [.symbol name (some ⟨60, 1, 61⟩)] none]
    let scope := Scope.global.child [(y, .int 7), (x, .int 9)]
    ((form y).eval scope (.ofInput "1" 5)).2.output = ['2', '5', '\n'] ∧
      EndsRenamed x y (.error (.failed ⟨.notCallable x, some ⟨60, 1, 61⟩⟩))
        ((form y).eval scope (.ofInput "1" 5)).1 := by
  intro x y plus binding form scope
  have houtput : ((form x).eval scope (.ofInput "1" 5)).2.output = ['2', '5', '\n'] := by
    decide +kernel
  have hend : ((form x).eval scope (.ofInput "1" 5)).1 =
      .error (.failed ⟨.notCallable x, some ⟨60, 1, 61⟩⟩) := by
    decide +kernel
  have hfresh : ∀ q, Node.symbol y q ∉ (form x).subforms := by
    have hne : y ≠ x ∧ y ≠ .ofText "LET" ∧ y ≠ .ofText "READ-INT" ∧ y ≠ .ofText "PRINT-INT" ∧
        y ≠ .ofText "+" := by decide
    simp [form, binding, plus, Node.subforms, Node.subformsItems, hne]
  obtain ⟨hafter, hsame⟩ := bound_names_can_be_renamed (.ofText "LET") x y _ _ none none none
    (by decide) (List.mem_cons_self) (by decide) hfresh scope (.ofInput "1" 5)
  rw [hend] at hsame
  exact ⟨(congrArg Machine.output hafter).trans houtput, hsame⟩

end Sexpr
