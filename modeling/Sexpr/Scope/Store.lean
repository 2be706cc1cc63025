import Sexpr.Scope

/-!
# Stores of scopes

Scopes that are made one after another, bound into and frozen, share frames: a change to one is seen
by all scopes inside it. A store keeps every frame once, under the number of the scope it belongs
to, together with the number of the enclosing scope. An enclosing scope is always older, so that
the way outwards ends.
-/

namespace Sexpr

/-- A frame and the number of the scope around it. -/
structure Cell where
  frame : Frame
  outer : Option Nat
deriving DecidableEq, Repr

/-- Scopes in the order in which they were made. -/
structure Store where
  cells : List Cell
deriving DecidableEq, Repr

namespace Store

/-- The store without scopes. -/
def empty : Store := ⟨[]⟩

/-- The number that the next scope will have. -/
def size (store : Store) : Nat := store.cells.length

/-- The store with one more scope. -/
def push (store : Store) (frame : Frame) (outer : Option Nat) : Store :=
  ⟨store.cells ++ [⟨frame, outer⟩]⟩

/-- The frame of a scope. -/
def frame? (store : Store) (id : Nat) : Option Frame := (store.cells[id]?).map Cell.frame

/-- The number of the scope around a scope. -/
def outer? (store : Store) (id : Nat) : Option Nat := store.cells[id]?.bind Cell.outer

/-- The frame of a scope; a number without scope has the empty frame. -/
def frame (store : Store) (id : Nat) : Frame := (store.frame? id).getD .empty

/-- Replace the frame of a scope. -/
def setFrame (store : Store) (id : Nat) (frame : Frame) : Store :=
  ⟨store.cells.modify id ({ · with frame := frame })⟩

/-- Bind a key in a scope. -/
def define (store : Store) (id : Nat) (key : Key) (value : Value) : Except ScopeError Store :=
  ((store.frame id).define key value).map (store.setFrame id)

/-- Bind the table of some entries in a scope. What was bound before a refusal stays bound. -/
def update (store : Store) (id : Nat) (entries : Entries) : Option ScopeError × Store :=
  let (error, frame) := (store.frame id).update entries
  (error, store.setFrame id frame)

/-- Bind the native functions in a scope. -/
def register (store : Store) (id : Nat) : Option ScopeError × Store :=
  store.update id Native.entries

/-- Make a scope inside another one, with bindings from the start. A refusal makes none. -/
def child (store : Store) (id : Nat) (entries : Entries) : Except ScopeError Store :=
  match Frame.empty.update entries with
  | (none, frame) => .ok (store.push frame id)
  | (some error, _) => .error error

/-- Let a scope take no more bindings. -/
def freeze (store : Store) (id : Nat) : Store := store.setFrame id (store.frame id).freeze

/-- The numbers of a scope and of those around it, innermost first. -/
def path (store : Store) (id : Nat) : List Nat :=
  match store.outer? id with
  | none => [id]
  | some outer => if outer < id then id :: store.path outer else [id]
termination_by id

/-- The scope of a number as a chain of frames. -/
def scope (store : Store) (id : Nat) : Scope := (store.path id).map store.frame

/-- The number of the innermost scope that binds a key. -/
def find? (store : Store) (id : Nat) (key : Key) : Option Nat :=
  match key.symbol? with
  | none => none
  | some name => (store.path id).find? fun i => ((store.frame i).find? name).isSome

/-- The value of a key: the innermost scope that binds it decides. -/
def lookup (store : Store) (id : Nat) (key : Key) : Except ScopeError Value :=
  match key.symbol?.bind (store.scope id).lookup with
  | some value => .ok value
  | none => .error (.unbound key)

end Store

end Sexpr
