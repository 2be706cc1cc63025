import Sexpr.Node

/-!
# Shapes of syntax trees

`Node.nesting` counts how deep lists are nested in a tree, `Node.bare` removes its positions, and
`Node.subforms` lists everything that occurs in it. `Node.same_iff` says that comparing trees
without looking at positions is comparing them after their positions are removed, so that
everything about the comparison follows from equality.
-/

namespace Sexpr.Node

mutual

/-- The number of lists around the most deeply nested place of a form, the form itself counted. -/
def nesting : Node → Nat
  | list items _ => nestingItems items + 1
  | _ => 0

/-- The nesting of the most deeply nested of some forms. -/
def nestingItems : List Node → Nat
  | [] => 0
  | node :: nodes => max (nesting node) (nestingItems nodes)

end

mutual

/-- The form without positions. -/
def bare : Node → Node
  | list items _ => list (bareItems items) none
  | symbol s _ => symbol s none
  | string text _ => string text none
  | integer value _ => integer value none
  | hole => hole

/-- The forms without positions. -/
def bareItems : List Node → List Node
  | [] => []
  | node :: nodes => bare node :: bareItems nodes

end

mutual

/-- The form itself and all forms within it, in the order in which they are written. -/
def subforms : Node → List Node
  | list items position => list items position :: subformsItems items
  | node => [node]

/-- The forms and all forms within them, in the order in which they are written. -/
def subformsItems : List Node → List Node
  | [] => []
  | node :: nodes => subforms node ++ subformsItems nodes

end

/-- What occurs in two sequences in a row occurs in one and then in the other. -/
theorem subformsItems_append (nodes others : List Node) :
    subformsItems (nodes ++ others) = subformsItems nodes ++ subformsItems others := by
  induction nodes with
  | nil => rfl
  | cons node nodes ih => simp only [List.cons_append, subformsItems, ih, List.append_assoc]

/-- A form occurs in itself. -/
theorem self_mem_subforms (node : Node) : node ∈ node.subforms := by
  cases node <;> exact List.mem_cons_self

/-- What occurs in an item occurs among the items. -/
theorem subforms_subset_of_mem {node : Node} {nodes : List Node} (h : node ∈ nodes) :
    node.subforms ⊆ subformsItems nodes := by
  induction nodes with
  | nil => cases h
  | cons first nodes ih =>
      rcases List.mem_cons.mp h with rfl | h
      · exact List.subset_append_left _ _
      · exact List.subset_append_of_subset_right _ (ih h)

mutual

/-- What occurs in a form that occurs in another occurs in that as well. -/
theorem subforms_subset {node other : Node} (h : node ∈ other.subforms) :
    node.subforms ⊆ other.subforms := by
  cases other with
  | list items position =>
      rcases List.mem_cons.mp h with rfl | hitem
      · exact List.Subset.refl _
      · exact List.subset_cons_of_subset _ (subforms_subset_items hitem)
  | symbol | string | integer | hole =>
      obtain rfl := List.mem_singleton.mp h
      exact List.Subset.refl _

/-- What occurs in a form that occurs among others occurs among them as well. -/
theorem subforms_subset_items {node : Node} {nodes : List Node} (h : node ∈ subformsItems nodes) :
    node.subforms ⊆ subformsItems nodes := by
  cases nodes with
  | nil => cases h
  | cons first nodes =>
      rcases List.mem_append.mp h with hfirst | hnodes
      · exact List.subset_append_of_subset_left _ (subforms_subset hfirst)
      · exact List.subset_append_of_subset_right _ (subforms_subset_items hnodes)

end

/-- The items of a list that occurs among some forms occur there too. -/
theorem items_subset {items nodes : List Node} {position : Option Position}
    (h : list items position ∈ subformsItems nodes) : items ⊆ subformsItems nodes := by
  have hwithin : subformsItems items ⊆ subformsItems nodes :=
    (List.cons_subset.mp (subforms_subset_items h)).2
  intro item hitem
  exact hwithin (subforms_subset_of_mem hitem (self_mem_subforms item))

/-- The items of any form that occurs among some forms occur there too. -/
theorem item_mem_subformsItems {node item : Node} {nodes : List Node}
    (h : node ∈ subformsItems nodes) (hitem : item ∈ node.items) : item ∈ subformsItems nodes := by
  cases node with
  | list items position => exact items_subset h hitem
  | symbol | string | integer | hole => cases hitem

/-- The nesting of forms in a row is that of the deeper ones. -/
theorem nestingItems_append (nodes others : List Node) :
    nestingItems (nodes ++ others) = max (nestingItems nodes) (nestingItems others) := by
  induction nodes with
  | nil => simp [nestingItems]
  | cons node nodes ih => simp only [List.cons_append, nestingItems, ih, Nat.max_assoc]

/-- No item is nested deeper than the most deeply nested one. -/
theorem nesting_le_of_mem {node : Node} {nodes : List Node} (h : node ∈ nodes) :
    node.nesting ≤ nestingItems nodes := by
  induction nodes with
  | nil => cases h
  | cons first nodes ih =>
      simp only [nestingItems]
      rcases List.mem_cons.mp h with rfl | h
      · exact Nat.le_max_left _ _
      · exact Nat.le_trans (ih h) (Nat.le_max_right _ _)

mutual

/-- Nothing that occurs in a form is nested deeper than the form. -/
theorem nesting_le_of_mem_subforms {form node : Node} (h : form ∈ node.subforms) :
    form.nesting ≤ node.nesting := by
  cases node with
  | list items position =>
      rcases List.mem_cons.mp h with rfl | hitem
      · exact Nat.le_refl _
      · exact Nat.le_succ_of_le (nesting_le_of_mem_subformsItems hitem)
  | symbol | string | integer | hole =>
      obtain rfl := List.mem_singleton.mp h
      exact Nat.le_refl _

/-- Nothing that occurs in some forms is nested deeper than the most deeply nested one. -/
theorem nesting_le_of_mem_subformsItems {form : Node} {nodes : List Node}
    (h : form ∈ subformsItems nodes) : form.nesting ≤ nestingItems nodes := by
  cases nodes with
  | nil => cases h
  | cons node nodes =>
      rcases List.mem_append.mp h with hnode | hnodes
      · exact Nat.le_trans (nesting_le_of_mem_subforms hnode) (Nat.le_max_left _ _)
      · exact Nat.le_trans (nesting_le_of_mem_subformsItems hnodes) (Nat.le_max_right _ _)

end

mutual

/-- Forms are the same exactly when they are equal without their positions. -/
theorem same_iff (node other : Node) : same node other = true ↔ node.bare = other.bare := by
  cases node with
  | list items p =>
      cases other with
      | list others q => simpa [same, bare] using sameItems_iff items others
      | symbol | string | integer | hole => simp [same, bare]
  | symbol | string | integer | hole => cases other <;> simp [same, bare]

/-- Sequences of forms are the same exactly when they are equal without their positions. -/
theorem sameItems_iff (nodes others : List Node) :
    sameItems nodes others = true ↔ bareItems nodes = bareItems others := by
  cases nodes with
  | nil => cases others <;> simp [sameItems, bareItems]
  | cons node nodes =>
      cases others with
      | nil => simp [sameItems, bareItems]
      | cons other others =>
          simp [sameItems, bareItems, same_iff node other, sameItems_iff nodes others]

end

mutual

/-- Removing positions keeps the nesting. -/
@[simp]
theorem nesting_bare (node : Node) : node.bare.nesting = node.nesting := by
  cases node with
  | list items p => simp [bare, nesting, nestingItems_bare items]
  | symbol | string | integer | hole => rfl

/-- Removing positions keeps the nesting of a sequence. -/
@[simp]
theorem nestingItems_bare (nodes : List Node) :
    nestingItems (bareItems nodes) = nestingItems nodes := by
  cases nodes with
  | nil => rfl
  | cons node nodes =>
      simp [bareItems, nestingItems, nesting_bare node, nestingItems_bare nodes]

end

end Sexpr.Node
