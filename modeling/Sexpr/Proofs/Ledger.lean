import Sexpr.Proofs.StoreOperations

/-!
# Definitions on record

A ledger is kept of what is done to a store: which scope is inside which, which scopes are frozen,
and every definition that took place, in order. It holds no frame. `Ledger.Describes` says that it
tells the same as the store, and `Ledger.Describes.record` that it does so after one more operation.
So what a name means in a scope can be read off the record of definitions:
`lookup_follows_definitions`.
-/

namespace Sexpr

/-! ## Entries that are taken -/

/-- The key is a symbol. -/
def Key.isSymbol : Key → Bool
  | symbol _ => true
  | _ => false

/-- The entries before the first that is not under a symbol. -/
def Entries.accepted : Entries → Bindings
  | (.symbol name, value) :: rest => (name, value) :: Entries.accepted rest
  | _ => []

/-- The last value that is given to a name. -/
def Bindings.last? (bindings : Bindings) (name : Symbol) : Option Value :=
  (bindings.filter (·.1 = name)).getLast?.map Prod.snd

/-- A value that is given first counts only if no other is given to the name. -/
theorem Bindings.last?_cons (first : Symbol) (value : Value) (rest : Bindings) (name : Symbol) :
    Bindings.last? ((first, value) :: rest) name =
      (Bindings.last? rest name).or (if name = first then some value else none) := by
  by_cases hname : name = first
  · subst hname
    simp only [last?, decide_true, List.filter_cons_of_pos, List.getLast?_cons, if_true]
    cases (List.filter (fun binding => decide (binding.1 = name)) rest).getLast? <;> rfl
  · simp [last?, Ne.symm hname, hname]

namespace Frame

variable {frame : Frame}

/-- A frozen frame takes no entries. -/
theorem defineAll_of_frozen (h : frame.frozen = true) (entries : Entries) :
    (frame.defineAll entries).2 = frame :=
  (frame.defineAll_grows entries).settled h

/-- Entries do not freeze a frame. -/
@[simp]
theorem frozen_defineAll (frame : Frame) (entries : Entries) :
    (frame.defineAll entries).2.frozen = frame.frozen := by
  induction entries generalizing frame with
  | nil => rfl
  | cons entry rest ih =>
      obtain ⟨key, value⟩ := entry
      unfold defineAll
      split
      · next defined hdefine =>
          rw [ih]
          cases key with
          | symbol name =>
              rw [define_symbol] at hdefine
              split at hdefine <;> cases hdefine
              rfl
          | text | number | real | bool | nothing => cases hdefine
      · rfl

/-- A frame that is not frozen takes a name. -/
theorem define_of_open (h : frame.frozen = false) (name : Symbol) (value : Value) :
    frame.define (.symbol name) value = .ok ⟨frame.bindings.insert name value, false⟩ := by
  rw [define_symbol, h]
  rfl

/-- A frame that is not frozen takes the entries before the first that is not under a symbol; the
last value of a name counts. -/
theorem find?_defineAll (h : frame.frozen = false) (entries : Entries) (name : Symbol) :
    (frame.defineAll entries).2.find? name =
      (entries.accepted.last? name).or (frame.find? name) := by
  induction entries generalizing frame with
  | nil => rfl
  | cons entry rest ih =>
      obtain ⟨key, value⟩ := entry
      cases key with
      | symbol first =>
          have hfind : Frame.find? ⟨frame.bindings.insert first value, false⟩ name =
              if name = first then some value else frame.find? name :=
            Bindings.find?_insert first name value frame.bindings
          simp only [defineAll, define_of_open h]
          refine (ih rfl).trans ?_
          rw [hfind, Entries.accepted, Bindings.last?_cons, Option.or_assoc]
          by_cases hname : name = first <;> simp [hname]
      | text | number | real | bool | nothing => rfl

/-- A frame that is not frozen refuses none of the entries exactly if all are under symbols. -/
theorem defineAll_eq_none (h : frame.frozen = false) (entries : Entries) :
    (frame.defineAll entries).1 = none ↔ entries.all (·.1.isSymbol) = true := by
  induction entries generalizing frame with
  | nil => exact ⟨fun _ => rfl, fun _ => rfl⟩
  | cons entry rest ih =>
      obtain ⟨key, value⟩ := entry
      cases key with
      | symbol first =>
          simp only [defineAll, define_of_open h]
          exact (ih rfl).trans (by simp [Key.isSymbol])
      | text | number | real | bool | nothing => simp [defineAll, define, Key.isSymbol]

end Frame

/-- No two native functions have one name. -/
theorem Native.distinct_entries : Native.entries.distinct = Native.entries := by
  decide +kernel

/-- A binding leaves the frame as one entry does, also if it is refused. -/
theorem Store.perform_define {store : Store} {id : Nat} (h : id < store.size) (key : Key)
    (value : Value) :
    (store.perform (.define id key value)).2 =
      store.setFrame id ((store.frame id).defineAll [(key, value)]).2 := by
  simp only [Store.perform, Store.define, Frame.defineAll]
  cases (store.frame id).define key value with
  | error error => exact (Store.setFrame_frame h).symm
  | ok frame => rfl

/-! ## The ledger -/

/-- A definition that took place. -/
structure Definition where
  scope : Nat
  name : Symbol
  value : Value
deriving DecidableEq, Repr

/-- What is known of a scope without its frame. -/
structure Outline where
  outer : Option Nat
  frozen : Bool
deriving DecidableEq, Repr

/-- The outline of a scope. -/
def Cell.outline (cell : Cell) : Outline := ⟨cell.outer, cell.frame.frozen⟩

/-- What was done to scopes: their outlines, in the order in which they were made, and the
definitions that took place, in order. -/
structure Ledger where
  outlines : List Outline
  definitions : List Definition
deriving DecidableEq, Repr

namespace Ledger

/-- The ledger before anything is done. -/
def empty : Ledger := ⟨[], []⟩

/-- The scope around a scope. -/
def outer? (ledger : Ledger) (id : Nat) : Option Nat := ledger.outlines[id]?.bind Outline.outer

/-- The scope takes no more definitions. -/
def isFrozen (ledger : Ledger) (id : Nat) : Bool :=
  (ledger.outlines[id]?.map Outline.frozen).getD false

/-- Note definitions that took place in a scope. -/
def note (ledger : Ledger) (id : Nat) (bindings : Bindings) : Ledger :=
  { ledger with
    definitions := ledger.definitions ++ bindings.map fun binding => ⟨id, binding.1, binding.2⟩ }

/-- Offer the entries of a table to a scope. A frozen scope takes none, any other takes those before
the first that is not under a symbol. -/
def offer (ledger : Ledger) (id : Nat) (entries : Entries) : Ledger :=
  if ledger.isFrozen id then ledger else ledger.note id entries.accepted

/-- Note that a scope was made with definitions. -/
def make (ledger : Ledger) (outline : Outline) (bindings : Bindings) : Ledger :=
  note { ledger with outlines := ledger.outlines ++ [outline] } ledger.outlines.length bindings

/-- Note what an operation does. -/
def record (ledger : Ledger) : Store.Operation → Ledger
  | .new => ledger.make ⟨none, false⟩ []
  | .global => ledger.make ⟨none, true⟩ Native.entries.accepted
  | .child id entries =>
      if entries.distinct.all (·.1.isSymbol) then
        ledger.make ⟨some id, false⟩ entries.distinct.accepted
      else ledger
  | .define id key value => ledger.offer id [(key, value)]
  | .update id entries => ledger.offer id entries.distinct
  | .register id => ledger.offer id Native.entries
  | .freeze id => { ledger with outlines := ledger.outlines.modify id ({ · with frozen := true }) }

/-- The ledger after more operations. -/
def recordAll (ledger : Ledger) (ops : List Store.Operation) : Ledger := ops.foldl record ledger

/-- The ledger of operations from the beginning. -/
def ofHistory (ops : List Store.Operation) : Ledger := empty.recordAll ops

/-- The definitions in a scope of the name that a text spells, in upper or lower case. -/
def definitionsOf (ledger : Ledger) (id : Nat) (text : String) : List Definition :=
  ledger.definitions.filter fun d => d.scope = id && upcase d.name.name = upcase text

/-- `Chain ledger id chain` says that `chain` is the scope and those around it, innermost first. -/
inductive Chain (ledger : Ledger) : Nat → List Nat → Prop where
  | last {id : Nat} : ledger.outer? id = none → Chain ledger id [id]
  | link {id outer : Nat} {chain : List Nat} :
      ledger.outer? id = some outer → Chain ledger outer chain → Chain ledger id (id :: chain)

/-- A scope has one chain. -/
theorem Chain.eq_of_chain {ledger : Ledger} {id : Nat} {chain other : List Nat}
    (h : ledger.Chain id chain) (hother : ledger.Chain id other) : chain = other := by
  induction h generalizing other with
  | last hnone =>
      cases hother with
      | last => rfl
      | link houter => cases hnone.symm.trans houter
  | link houter _ ih =>
      cases hother with
      | last hnone => cases hnone.symm.trans houter
      | link houter' hchain =>
          cases houter.symm.trans houter'
          exact congrArg _ (ih hchain)

/-- The ledger has the scopes of the store, and the value of a name in a frame is that of its last
definition there. -/
structure Describes (ledger : Ledger) (store : Store) : Prop where
  outlines_eq : ledger.outlines = store.cells.map Cell.outline
  find_eq : ∀ id text, (store.frame id).find? (.ofText text) =
    (ledger.definitionsOf id text).getLast?.map Definition.value

variable {ledger : Ledger} {store : Store} {id : Nat}

/-- A text spells a name exactly if both are the same in upper case. -/
theorem upcase_name_eq_iff (name : Symbol) (text : String) :
    upcase name.name = upcase text ↔ name = .ofText text := by
  rw [name.upcase_name]
  exact ⟨fun h => Symbol.eq_of_name_eq h, fun h => congrArg Symbol.name h⟩

/-- Definitions that are noted come after those that were noted before. -/
theorem definitionsOf_note (ledger : Ledger) (id : Nat) (bindings : Bindings) (other : Nat)
    (text : String) :
    (ledger.note id bindings).definitionsOf other text =
      ledger.definitionsOf other text ++
        if other = id then
          (bindings.filter (·.1 = .ofText text)).map fun binding => ⟨id, binding.1, binding.2⟩
        else [] := by
  simp only [definitionsOf, note, List.filter_append, List.filter_map, upcase_name_eq_iff]
  by_cases hother : other = id
  · simp [hother, Function.comp_def]
  · simp [hother, Ne.symm hother, Function.comp_def]

/-- The last value of a name is the one that was noted last. -/
theorem getLast?_note (ledger : Ledger) (id : Nat) (bindings : Bindings) (other : Nat)
    (text : String) :
    ((ledger.note id bindings).definitionsOf other text).getLast?.map Definition.value =
      (if other = id then bindings.last? (.ofText text) else none).or
        ((ledger.definitionsOf other text).getLast?.map Definition.value) := by
  rw [definitionsOf_note, List.getLast?_append, Option.map_or]
  by_cases hother : other = id
  · simp [hother, Bindings.last?, List.getLast?_map, Function.comp_def]
  · simp [hother]

namespace Describes

/-- The ledger has as many scopes as the store. -/
theorem length_eq (h : ledger.Describes store) : ledger.outlines.length = store.size := by
  simp [h.outlines_eq, Store.size]

/-- The ledger knows the scope around a scope. -/
theorem outer_eq (h : ledger.Describes store) (id : Nat) : ledger.outer? id = store.outer? id := by
  simp only [outer?, Store.outer?, h.outlines_eq, List.getElem?_map]
  cases store.cells[id]? <;> rfl

/-- The ledger knows which scopes are frozen. -/
theorem frozen_eq (h : ledger.Describes store) (id : Nat) :
    ledger.isFrozen id = (store.frame id).frozen := by
  simp only [isFrozen, Store.frame, Store.frame?, h.outlines_eq, List.getElem?_map]
  cases store.cells[id]? <;> rfl

/-- Before anything is done there is nothing to describe. -/
theorem empty : Ledger.empty.Describes .empty :=
  ⟨rfl, fun _ _ => rfl⟩

/-- A scope that is made is described if its definitions are. -/
theorem make (h : ledger.Describes store) {frame : Frame} {bindings : Bindings}
    (hframe : ∀ name, frame.find? name = bindings.last? name) (outer : Option Nat) :
    (ledger.make ⟨outer, frame.frozen⟩ bindings).Describes (store.push frame outer) := by
  refine ⟨?_, ?_⟩
  · simp [Ledger.make, note, Store.push, h.outlines_eq, Cell.outline]
  · intro id text
    have hold := h.find_eq id text
    refine Eq.trans ?_ (getLast?_note _ _ bindings id text).symm
    rw [h.length_eq, Store.frame_push]
    split
    · next hnew =>
        -- The number of the new scope had the empty frame, so no definition was noted under it.
        rw [Store.frame_of_size_le (Nat.le_of_eq hnew.symm)] at hold
        have hnone : ((ledger.definitionsOf id text).getLast?.map Definition.value) = none :=
          hold.symm
        rw [hframe]
        exact (Option.or_none.symm.trans (congrArg _ hnone.symm))
    · exact hold

/-- Another frame for a scope is described if the scope stays frozen or not frozen as it was. -/
theorem outlines_setFrame (h : ledger.Describes store) {frame : Frame}
    (hfrozen : frame.frozen = (store.frame id).frozen) :
    ledger.outlines = (store.setFrame id frame).cells.map Cell.outline := by
  rw [h.outlines_eq]
  refine List.ext_getElem? fun other => ?_
  simp only [Store.setFrame, List.getElem?_map, List.getElem?_modify]
  by_cases hother : id = other
  · subst hother
    simp only [Store.frame, Store.frame?] at hfrozen
    cases hcell : store.cells[id]? with
    | none => rfl
    | some cell =>
        rw [hcell] at hfrozen
        simpa [Cell.outline] using hfrozen.symm
  · simp [hother]

/-- What a scope takes of some entries is described. -/
theorem offer (h : ledger.Describes store) (hid : id < store.size) (entries : Entries) :
    (ledger.offer id entries).Describes
      (store.setFrame id ((store.frame id).defineAll entries).2) := by
  unfold Ledger.offer
  rw [h.frozen_eq]
  by_cases hfrozen : (store.frame id).frozen = true
  · rw [if_pos hfrozen, Frame.defineAll_of_frozen hfrozen, Store.setFrame_frame hid]
    exact h
  · have hopen : (store.frame id).frozen = false := by simpa using hfrozen
    rw [if_neg hfrozen]
    refine ⟨h.outlines_setFrame (Frame.frozen_defineAll _ entries), ?_⟩
    intro other text
    rw [getLast?_note, ← h.find_eq other text]
    by_cases hother : other = id
    · rw [if_pos hother, hother, Store.frame_setFrame_self hid, Frame.find?_defineAll hopen]
    · rw [if_neg hother, Store.frame_setFrame_of_ne store hother]
      rfl

/-- A scope that is frozen is described. -/
theorem freeze (h : ledger.Describes store) (hid : id < store.size) :
    (ledger.record (.freeze id)).Describes (store.freeze id) := by
  refine ⟨?_, ?_⟩
  · refine List.ext_getElem? fun other => ?_
    simp only [record, Store.freeze, Store.setFrame, h.outlines_eq, List.getElem?_map,
      List.getElem?_modify]
    by_cases hother : id = other
    · subst hother
      cases store.cells[id]? <;> simp [Cell.outline, Frame.freeze]
    · simp [hother]
  · intro other text
    refine Eq.trans ?_ (h.find_eq other text)
    unfold Store.freeze
    by_cases hother : other = id
    · rw [hother, Store.frame_setFrame_self hid]
      rfl
    · rw [Store.frame_setFrame_of_ne store hother]

/-- After one more operation, on record too, the ledger describes the store. -/
theorem record (h : ledger.Describes store) {op : Store.Operation} (hop : op.IsOn store) :
    (ledger.record op).Describes (store.perform op).2 := by
  have hempty : ∀ entries : Entries, ∀ name,
      (Frame.empty.defineAll entries).2.find? name = entries.accepted.last? name := by
    intro entries name
    rw [Frame.find?_defineAll rfl]
    exact Option.or_none
  cases op with
  | new =>
      have hnew : ∀ name, Frame.empty.find? name = Bindings.last? [] name := fun _ => rfl
      exact h.make hnew none
  | global =>
      have hglobal : ∀ name, Frame.global.find? name = Native.entries.accepted.last? name := by
        have hnatives := hempty Native.entries.distinct
        rwa [Native.distinct_entries] at hnatives
      exact h.make hglobal none
  | child id entries =>
      have hnone : (Frame.empty.defineAll entries.distinct).1 = none ↔ _ :=
        Frame.defineAll_eq_none rfl entries.distinct
      have hframe := hempty entries.distinct
      have hfrozen := Frame.empty.frozen_defineAll entries.distinct
      simp only [Ledger.record, Store.perform, Store.child, Frame.update]
      generalize Frame.empty.defineAll entries.distinct = updated at hnone hframe hfrozen ⊢
      obtain ⟨_ | error, frame⟩ := updated
      · rw [if_pos (hnone.mp rfl)]
        have hmake := h.make hframe (some id)
        rw [hfrozen] at hmake
        exact hmake
      · rw [if_neg (fun hall => by cases hnone.mpr hall)]
        exact h
  | define id key value =>
      rw [Store.perform_define (hop id rfl)]
      exact h.offer (hop id rfl) [(key, value)]
  | update id entries => exact h.offer (hop id rfl) entries.distinct
  | register id =>
      have hoffer := h.offer (hop id rfl) Native.entries.distinct
      rw [Native.distinct_entries] at hoffer
      exact hoffer
  | freeze id => exact h.freeze (hop id rfl)

/-- After any operations, on record too, the ledger describes the store. -/
theorem recordAll (h : ledger.Describes store) {ops : List Store.Operation}
    (hops : store.Admits ops) : (ledger.recordAll ops).Describes (store.performAll ops) := by
  induction ops generalizing ledger store with
  | nil => exact h
  | cons op ops ih => exact ih (h.record hops.1) hops.2

end Describes

/-- The definitions that took place after those in another ledger. -/
def since (later ledger : Ledger) : List Definition :=
  later.definitions.drop ledger.definitions.length

/-- An operation adds to the definitions on record. -/
theorem definitions_record (ledger : Ledger) (op : Store.Operation) :
    ledger.definitions <+: (ledger.record op).definitions := by
  have hoffer : ∀ id entries, ledger.definitions <+: (ledger.offer id entries).definitions := by
    intro id entries
    unfold offer
    split
    · exact List.prefix_rfl
    · exact List.prefix_append _ _
  cases op with
  | new | global => exact List.prefix_append _ _
  | child id entries =>
      simp only [record]
      split
      · exact List.prefix_append _ _
      · exact List.prefix_rfl
  | define | update | register => exact hoffer _ _
  | freeze => exact List.prefix_rfl

/-- Operations add to the definitions on record. -/
theorem definitions_recordAll (ledger : Ledger) (ops : List Store.Operation) :
    ledger.definitions <+: (ledger.recordAll ops).definitions := by
  induction ops generalizing ledger with
  | nil => exact List.prefix_rfl
  | cons op ops ih => exact (ledger.definitions_record op).trans (ih (ledger.record op))

/-- The definitions of a name are those that were on record and those that took place since. -/
theorem definitionsOf_recordAll (ledger : Ledger) (ops : List Store.Operation) (id : Nat)
    (text : String) :
    (ledger.recordAll ops).definitionsOf id text = ledger.definitionsOf id text ++
      ((ledger.recordAll ops).since ledger).filter
        fun d => d.scope = id && upcase d.name.name = upcase text := by
  obtain ⟨made, hmade⟩ := ledger.definitions_recordAll ops
  simp only [definitionsOf, since, ← hmade, List.filter_append, List.drop_left]

/-- Where a scope and all around it are younger than what is around them, the way outwards through
the store is the chain on record. -/
theorem Describes.chain_path (h : ledger.Describes store)
    (hyounger : ∀ {id outer}, store.outer? id = some outer → outer < id) (id : Nat) :
    ledger.Chain id (store.path id) := by
  induction id using Nat.strongRecOn with
  | ind id ih =>
      have houter := h.outer_eq id
      rw [Store.path_eq hyounger]
      cases haround : store.outer? id with
      | none => exact .last (houter.trans haround)
      | some outer => exact .link (houter.trans haround) (ih outer (hyounger haround))

/-- The scope that is found for a name is the first on the way outwards with a definition of it. -/
theorem Describes.find?_eq (h : ledger.Describes store) (id : Nat) (text : String) :
    store.find? id (.symbol (.ofText text)) =
      (store.path id).find? fun scope => !(ledger.definitionsOf scope text).isEmpty := by
  rw [Store.find?_eq]
  congr 1
  funext scope
  have hvalue : (store.frame scope).get? (.symbol (.ofText text)) =
      (ledger.definitionsOf scope text).getLast?.map Definition.value := h.find_eq scope text
  rw [hvalue]
  cases ledger.definitionsOf scope text <;> simp

/-- The value of a name is that of its last definition in the scope that is found for it. -/
theorem Describes.lookup_eq (h : ledger.Describes store) (id : Nat) (text : String) :
    store.lookup id (.symbol (.ofText text)) =
      match (store.find? id (.symbol (.ofText text))).bind fun owner =>
        (ledger.definitionsOf owner text).getLast? with
      | some d => .ok d.value
      | none => .error (.unbound (.symbol (.ofText text))) := by
  rw [Store.lookup_eq]
  cases store.find? id (.symbol (.ofText text)) with
  | none => rfl
  | some owner =>
      have hvalue : (store.frame owner).get? (.symbol (.ofText text)) =
          (ledger.definitionsOf owner text).getLast?.map Definition.value := h.find_eq owner text
      rw [Option.bind_some, Option.bind_some, hvalue]
      cases (ledger.definitionsOf owner text).getLast? <;> rfl

/-- In the scope that is found for a name there is a last definition of it. -/
theorem Describes.lookup_of_found (h : ledger.Describes store) {text : String} {owner : Nat}
    (hfound : store.find? id (.symbol (.ofText text)) = some owner) :
    ∃ d, (ledger.definitionsOf owner text).getLast? = some d ∧
      store.lookup id (.symbol (.ofText text)) = .ok d.value := by
  have hdefined := List.find?_some ((h.find?_eq id text).symm.trans hfound)
  have hne : ledger.definitionsOf owner text ≠ [] := by simpa using hdefined
  refine ⟨_, List.getLast?_eq_some_getLast hne, ?_⟩
  rw [h.lookup_eq, hfound, Option.bind_some, List.getLast?_eq_some_getLast hne]

/-- A name is unbound exactly if no scope on the way outwards has a definition of it. -/
theorem Describes.unbound_iff (h : ledger.Describes store) (id : Nat) (text : String) :
    store.lookup id (.symbol (.ofText text)) = .error (.unbound (.symbol (.ofText text))) ↔
      ∀ scope ∈ store.path id, ledger.definitionsOf scope text = [] := by
  have hfind := h.find?_eq id text
  cases hfound : store.find? id (.symbol (.ofText text)) with
  | none =>
      have hnone := List.find?_eq_none.mp (hfind.symm.trans hfound)
      rw [h.lookup_eq, hfound]
      exact ⟨fun _ scope hscope => by simpa using hnone scope hscope, fun _ => rfl⟩
  | some owner =>
      obtain ⟨d, hlast, hvalue⟩ := h.lookup_of_found hfound
      have hmem := List.mem_of_find?_eq_some (hfind.symm.trans hfound)
      rw [hvalue]
      refine ⟨nofun, fun hall => ?_⟩
      rw [hall owner hmem] at hlast
      cases hlast

end Ledger

/-! ## The way outwards -/

namespace Store

variable {store later : Store}

/-- The scopes on the way outwards are older and older. -/
theorem path_decreasing (h : ∀ {id outer}, store.outer? id = some outer → outer < id) (id : Nat) :
    (∀ other ∈ store.path id, other ≤ id) ∧ (store.path id).Pairwise (· > ·) := by
  induction id using Nat.strongRecOn with
  | ind id ih =>
      rw [path_eq h]
      cases houter : store.outer? id with
      | none => simp
      | some outer =>
          obtain ⟨hle, hpairwise⟩ := ih outer (h houter)
          have hlt : ∀ other ∈ store.path outer, other < id :=
            fun other hother => Nat.lt_of_le_of_lt (hle other hother) (h houter)
          refine ⟨?_, List.pairwise_cons.mpr ⟨hlt, hpairwise⟩⟩
          intro other hother
          rcases List.mem_cons.mp hother with rfl | hother
          · exact Nat.le_refl _
          · exact Nat.le_of_lt (hlt other hother)

/-- Later operations do not change the way outwards from a scope. -/
theorem Preserves.path_eq (h : store.Preserves later)
    (hyounger : ∀ {id outer}, store.outer? id = some outer → outer < id)
    (hyounger' : ∀ {id outer}, later.outer? id = some outer → outer < id) {id : Nat}
    (hid : id < store.size) : later.path id = store.path id := by
  induction id using Nat.strongRecOn with
  | ind id ih =>
      rw [Store.path_eq hyounger, Store.path_eq hyounger', h.outer_eq id hid]
      cases houter : store.outer? id with
      | none => rfl
      | some outer =>
          have hlt := hyounger houter
          exact congrArg (id :: ·) (ih outer hlt (Nat.lt_trans hlt hid))

end Store

/-- If all later definitions of a name along a chain lie behind a scope in which the name was
defined, the search along the chain finds the same scope, and this has the same definitions. -/
theorem Ledger.find?_eq_of_behind (ledger : Ledger) (ops : List Store.Operation) (text : String)
    {chain : List Nat} (hnodup : chain.Nodup)
    (h : ∀ d ∈ (ledger.recordAll ops).since ledger, upcase d.name.name = upcase text →
      d.scope ∈ chain →
      ∃ nearer ∈ chain.takeWhile (· ≠ d.scope), ledger.definitionsOf nearer text ≠ []) :
    (chain.find? fun scope => !((ledger.recordAll ops).definitionsOf scope text).isEmpty) =
        (chain.find? fun scope => !(ledger.definitionsOf scope text).isEmpty) ∧
      ∀ owner ∈ chain.find? fun scope => !(ledger.definitionsOf scope text).isEmpty,
        (ledger.recordAll ops).definitionsOf owner text = ledger.definitionsOf owner text := by
  induction chain with
  | nil => exact ⟨rfl, nofun⟩
  | cons scope chain ih =>
      -- No scope is nearer than the first, so the name was not defined again there.
      have hfirst : (ledger.recordAll ops).definitionsOf scope text =
          ledger.definitionsOf scope text := by
        rw [definitionsOf_recordAll, List.filter_eq_nil_iff.mpr, List.append_nil]
        intro d hd hname
        obtain ⟨hscope, hname⟩ : d.scope = scope ∧ upcase d.name.name = upcase text := by
          simpa using hname
        obtain ⟨nearer, hnearer, -⟩ := h d hd hname (hscope ▸ List.mem_cons_self)
        simp [hscope] at hnearer
      cases hhere : ledger.definitionsOf scope text with
      | cons definition more =>
          rw [List.find?_cons_of_pos (by simp [hfirst, hhere]),
            List.find?_cons_of_pos (by simp [hhere])]
          refine ⟨rfl, ?_⟩
          rintro owner ⟨⟩
          rw [hfirst, hhere]
      | nil =>
          rw [List.find?_cons_of_neg (by simp [hfirst, hhere]),
            List.find?_cons_of_neg (by simp [hhere])]
          obtain ⟨hnew, hnodup⟩ := List.nodup_cons.mp hnodup
          refine ih hnodup fun d hd hname hscope => ?_
          have hne : scope ≠ d.scope := fun hsame => hnew (hsame ▸ hscope)
          obtain ⟨nearer, hnearer, hdefined⟩ := h d hd hname (List.mem_cons_of_mem scope hscope)
          rw [List.takeWhile_cons_of_pos (by simpa using hne)] at hnearer
          rcases List.mem_cons.mp hnearer with rfl | hnearer
          · exact absurd hhere hdefined
          · exact ⟨nearer, hnearer, hdefined⟩

/-- Later operations whose definitions of a name lie behind a scope in which it was defined, or off
the way outwards, change neither where the name is found nor its value. -/
theorem Ledger.Describes.lookup_kept {ledger : Ledger} {store : Store} {keys : List Key} {id : Nat}
    {text : String} {more : List Store.Operation} (h : ledger.Describes store)
    (hsound : store.Sound keys) (hid : id < store.size) (hmore : store.Admits more)
    (hbehind : ∀ d ∈ (ledger.recordAll more).since ledger, upcase d.name.name = upcase text →
      d.scope ∈ store.path id →
      ∃ nearer ∈ (store.path id).takeWhile (· ≠ d.scope),
        ledger.definitionsOf nearer text ≠ []) :
    (store.performAll more).find? id (.symbol (.ofText text)) =
        store.find? id (.symbol (.ofText text)) ∧
      (store.performAll more).lookup id (.symbol (.ofText text)) =
        store.lookup id (.symbol (.ofText text)) := by
  have hlater := h.recordAll hmore
  have hpath := (Store.preserves_performAll hmore).path_eq hsound.outer_lt
    (hsound.performAll hmore).outer_lt hid
  have hnodup : (store.path id).Nodup :=
    (Store.path_decreasing hsound.outer_lt id).2.imp fun hgt => Ne.symm (Nat.ne_of_lt hgt)
  obtain ⟨hsame, hkept⟩ := ledger.find?_eq_of_behind more text hnodup hbehind
  have hfind : (store.performAll more).find? id (.symbol (.ofText text)) =
      store.find? id (.symbol (.ofText text)) := by
    rw [hlater.find?_eq, hpath, hsame, ← h.find?_eq]
  refine ⟨hfind, ?_⟩
  rw [hlater.lookup_eq, h.lookup_eq, hfind]
  cases hfound : store.find? id (.symbol (.ofText text)) with
  | none => rfl
  | some owner =>
      rw [Option.bind_some, Option.bind_some, hkept owner ((h.find?_eq id text).symm.trans hfound)]

/-- Any operations are done, each to a scope that is there, and each succeeds or is refused. The
scope that is found for a name is the first, from a scope outwards, in which a definition of the
name took place, in upper or lower case; the value of the name is that of the last such definition
there, and the name is unbound exactly if there is none in any of these scopes. More definitions
make no difference as long as each of this name is in a scope that is not among these, or behind one
in which the name was defined. -/
theorem lookup_follows_definitions (ops : List Store.Operation) (hops : Store.empty.Admits ops)
    (id : Nat) (hid : id < (Store.empty.performAll ops).size) (text : String) :
    let store := Store.empty.performAll ops
    let ledger := Ledger.ofHistory ops
    let key := Key.symbol (.ofText text)
    (∃ chain, ledger.Chain id chain) ∧
    ∀ chain, ledger.Chain id chain →
      store.find? id key =
        (chain.find? fun scope => !(ledger.definitionsOf scope text).isEmpty) ∧
      (∀ owner, store.find? id key = some owner →
        ∃ d, (ledger.definitionsOf owner text).getLast? = some d ∧
          store.lookup id key = .ok d.value) ∧
      (store.lookup id key = .error (.unbound key) ↔
        ∀ scope ∈ chain, ledger.definitionsOf scope text = []) ∧
      ∀ more, store.Admits more →
        (∀ d ∈ (Ledger.ofHistory (ops ++ more)).since ledger, upcase d.name.name = upcase text →
          d.scope ∈ chain →
          ∃ nearer ∈ chain.takeWhile (· ≠ d.scope), ledger.definitionsOf nearer text ≠ []) →
        (store.performAll more).find? id key = store.find? id key ∧
        (store.performAll more).lookup id key = store.lookup id key := by
  intro store ledger key
  have hdescribes : ledger.Describes store := Ledger.Describes.empty.recordAll hops
  have hsound := Store.sound_empty.performAll hops
  have hpath := hdescribes.chain_path hsound.outer_lt id
  refine ⟨⟨_, hpath⟩, fun chain hchain => ?_⟩
  obtain rfl := hchain.eq_of_chain hpath
  refine ⟨hdescribes.find?_eq id text, fun owner hfound => hdescribes.lookup_of_found hfound,
    hdescribes.unbound_iff id text, fun more hmore hbehind => ?_⟩
  have hledger : Ledger.ofHistory (ops ++ more) = ledger.recordAll more := List.foldl_append
  rw [hledger] at hbehind
  exact hdescribes.lookup_kept hsound hid hmore hbehind

/-- In a scope inside two others a name is found where it was last defined nearest, whatever the
case of its letters. A table that is refused at its second entry has defined the first. Definitions
in the scope outside all others, and in a scope beside these, do not matter. -/
theorem lookup_follows_definitions_after_refusal :
    let ops : List Store.Operation :=
      [.new, .define 0 (.symbol (.ofText "x")) (.int 1), .child 0 [],
        .update 1 [(.symbol (.ofText "x"), .int 2), (.text "y", .int 3),
          (.symbol (.ofText "z"), .int 4)],
        .child 1 []]
    let more : List Store.Operation :=
      [.define 0 (.symbol (.ofText "X")) (.int 5), .child 1 [(.symbol (.ofText "x"), .int 6)]]
    let store := Store.empty.performAll ops
    Store.empty.Admits ops ∧ 2 < store.size ∧ store.Admits more ∧
    (Ledger.ofHistory (ops ++ more)).since (Ledger.ofHistory ops) =
      [⟨0, .ofText "x", .int 5⟩, ⟨3, .ofText "x", .int 6⟩] ∧
    store.find? 2 (.symbol (.ofText "X")) = some 1 ∧
    store.lookup 2 (.symbol (.ofText "X")) = .ok (.int 2) ∧
    (store.performAll more).lookup 2 (.symbol (.ofText "X")) = .ok (.int 2) ∧
    store.lookup 2 (.symbol (.ofText "z")) = .error (.unbound (.symbol (.ofText "z"))) := by
  intro ops more store
  have hops : Store.empty.Admits ops := by decide +kernel
  have hmore : store.Admits more := by decide +kernel
  have hsize : 2 < store.size := by decide +kernel
  have hfound : store.find? 2 (.symbol (.ofText "X")) = some 1 := by decide +kernel
  have hsince : (Ledger.ofHistory (ops ++ more)).since (Ledger.ofHistory ops) =
      [⟨0, .ofText "x", .int 5⟩, ⟨3, .ofText "x", .int 6⟩] := by
    decide +kernel
  have hchain : (Ledger.ofHistory ops).Chain 2 [2, 1, 0] :=
    .link (by decide +kernel) (.link (by decide +kernel) (.last (by decide +kernel)))
  obtain ⟨-, hvalue, -, hkept⟩ :=
    (lookup_follows_definitions ops hops 2 hsize "X").2 _ hchain
  obtain ⟨-, -, hunbound, -⟩ := (lookup_follows_definitions ops hops 2 hsize "z").2 _ hchain
  have hlookup : store.lookup 2 (.symbol (.ofText "X")) = .ok (.int 2) := by
    obtain ⟨d, hlast, hlookup⟩ := hvalue 1 hfound
    have hd : (Ledger.definitionsOf (.ofHistory ops) 1 "X").getLast? =
        some ⟨1, .ofText "x", .int 2⟩ := by
      decide +kernel
    obtain rfl := Option.some.inj (hlast.symm.trans hd)
    exact hlookup
  refine ⟨hops, hsize, hmore, hsince, hfound, hlookup, ?_, hunbound.mpr (by decide +kernel)⟩
  refine (hkept more hmore ?_).2.trans hlookup
  rw [hsince]
  decide +kernel

end Sexpr
