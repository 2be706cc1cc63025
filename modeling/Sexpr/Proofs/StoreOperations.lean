import Sexpr.Scope.Store

/-!
# Operations on a store

Scopes are made, bound into and frozen in any order, and every operation succeeds or is refused.
`Store.perform` does one operation and `Store.performAll` does many. What one of them can do is said
once, in `Store.Step`: nothing, one more scope inside an older one, or one frame that grows. From
that it follows what holds of every scope after any operations (`Store.Sound`) and what later
operations leave as it is (`Store.Preserves`). `scopes_survive_any_history` puts this together with
what an operation that is refused leaves behind.
-/

namespace Sexpr

/-! ## Names of a frame -/

/-- The names that are bound, in the order in which they were first bound. -/
def Bindings.names (bindings : Bindings) : List Symbol := bindings.map Prod.fst

/-- The names of a table come in the order of its bindings. -/
@[simp]
theorem Bindings.names_cons (name : Symbol) (value : Value) (rest : Bindings) :
    Bindings.names ((name, value) :: rest) = name :: rest.names := rfl

/-- Binding a name adds it after the others, unless it is there. -/
theorem Bindings.names_insert (name : Symbol) (value : Value) (bindings : Bindings) :
    (Bindings.insert name value bindings).names =
      if name ∈ bindings.names then bindings.names else bindings.names ++ [name] := by
  induction bindings with
  | nil => rfl
  | cons binding rest ih =>
      obtain ⟨first, present⟩ := binding
      by_cases hfirst : name = first
      · simp [insert, hfirst]
      · by_cases hmem : name ∈ names rest <;> simp [insert, hfirst, ih, hmem]

namespace Entries

/-- The keys of the entries. -/
def keys (entries : Entries) : List Key := entries.map Prod.fst

/-- Entering a value brings no other key into a table. -/
theorem keys_insert_subset (key : Key) (value : Value) (table : Entries) :
    (Entries.insert key value table).keys ⊆ key :: table.keys := by
  induction table with
  | nil => exact List.Subset.refl _
  | cons entry rest ih =>
      obtain ⟨other, present⟩ := entry
      unfold insert
      split
      · exact List.subset_cons_self key _
      · intro k hk
        rcases List.mem_cons.mp hk with rfl | hk
        · simp [keys]
        · rcases List.mem_cons.mp (ih hk) with rfl | hk
          · exact List.mem_cons_self
          · exact List.mem_cons_of_mem _ (List.mem_cons_of_mem _ hk)

/-- The table of some entries has no other keys than these. -/
theorem keys_distinct_subset (entries : Entries) : entries.distinct.keys ⊆ entries.keys := by
  have hfold : ∀ table : Entries,
      keys (entries.foldl (fun table entry => table.insert entry.1 entry.2) table) ⊆
        table.keys ++ entries.keys := by
    induction entries with
    | nil => simp [keys]
    | cons entry rest ih =>
        intro table k hk
        rcases List.mem_append.mp (ih _ hk) with hk | hk
        · rcases List.mem_cons.mp (keys_insert_subset _ _ _ hk) with rfl | hk
          · simp [keys]
          · exact List.mem_append_left _ hk
        · exact List.mem_append_right _ (List.mem_cons_of_mem _ hk)
  exact hfold []

end Entries

/-! ## Frames -/

namespace Frame

/-- From the first frame to the second names were bound that were offered under these keys, and none
of them became bound twice. A frozen frame has not changed. -/
structure Grows (keys : List Key) (frame after : Frame) : Prop where
  settled : frame.frozen = true → after = frame
  origin : ∀ name ∈ after.bindings.names, name ∈ frame.bindings.names ∨ .symbol name ∈ keys
  nodup : frame.bindings.names.Nodup → after.bindings.names.Nodup

variable {keys more : List Key} {frame middle after : Frame}

/-- A frame grows into itself. -/
theorem Grows.refl (keys : List Key) (frame : Frame) : frame.Grows keys frame :=
  ⟨fun _ => rfl, fun _ => .inl, id⟩

/-- A frame that grows twice has grown. -/
theorem Grows.trans (h : frame.Grows keys middle) (hafter : middle.Grows keys after) :
    frame.Grows keys after where
  settled hfrozen := by
    have hsame := h.settled hfrozen
    subst hsame
    exact hafter.settled hfrozen
  origin name hname := by
    rcases hafter.origin name hname with hname | hkey
    · exact h.origin name hname
    · exact .inr hkey
  nodup := hafter.nodup ∘ h.nodup

/-- More keys may have been offered than were used. -/
theorem Grows.mono (h : frame.Grows keys after) (hkeys : keys ⊆ more) : frame.Grows more after :=
  ⟨h.settled, fun name hname => (h.origin name hname).imp_right (@hkeys _), h.nodup⟩

/-- A key is bound if it is a symbol and the frame is not frozen. -/
theorem define_symbol (frame : Frame) (name : Symbol) (value : Value) :
    frame.define (.symbol name) value =
      if frame.frozen then .error (.frozen name)
      else .ok { frame with bindings := frame.bindings.insert name value } := rfl

/-- A key that is no symbol is refused, whether the frame is frozen or not. -/
theorem define_of_not_symbol {key : Key} (h : ∀ name, key ≠ .symbol name) (frame : Frame)
    (value : Value) : frame.define key value = .error (.notSymbol key) := by
  cases key with
  | symbol name => exact absurd rfl (h name)
  | text | number | real | bool | nothing => rfl

/-- Binding a key lets a frame grow. -/
theorem define_grows {key : Key} {value : Value} (h : frame.define key value = .ok after) :
    frame.Grows [key] after := by
  cases key with
  | text | number | real | bool | nothing => cases h
  | symbol name =>
      rw [define_symbol] at h
      split at h
      · cases h
      · next hopen =>
          cases h
          refine ⟨fun hfrozen => absurd hfrozen hopen, ?_, ?_⟩
          · intro other hother
            rw [Bindings.names_insert] at hother
            split at hother
            · exact .inl hother
            · rcases List.mem_append.mp hother with hother | hother
              · exact .inl hother
              · rw [List.mem_singleton.mp hother]
                exact .inr List.mem_cons_self
          · intro hnodup
            rw [Bindings.names_insert]
            split
            · exact hnodup
            · next hnew =>
                refine List.nodup_append.mpr ⟨hnodup, List.pairwise_singleton _ _, ?_⟩
                rintro other hother _ hname rfl
                exact hnew (List.mem_singleton.mp hname ▸ hother)

/-- Binding entries lets a frame grow, also if one of them is refused. -/
theorem defineAll_grows (frame : Frame) (entries : Entries) :
    frame.Grows entries.keys (frame.defineAll entries).2 := by
  induction entries generalizing frame with
  | nil => exact .refl _ _
  | cons entry rest ih =>
      obtain ⟨key, value⟩ := entry
      unfold defineAll
      split
      · next defined hdefine =>
          have hkey : [key] ⊆ Entries.keys ((key, value) :: rest) := by simp [Entries.keys]
          have hfirst := (define_grows hdefine).mono hkey
          exact hfirst.trans ((ih defined).mono (List.subset_cons_self _ _))
      · exact .refl _ _

/-- Binding a table of entries lets a frame grow. -/
theorem update_grows (frame : Frame) (entries : Entries) :
    frame.Grows entries.keys (frame.update entries).2 :=
  (frame.defineAll_grows entries.distinct).mono entries.keys_distinct_subset

/-- Freezing a frame binds nothing, and does nothing to a frame that is frozen. -/
theorem freeze_grows (keys : List Key) (frame : Frame) : frame.Grows keys frame.freeze := by
  refine ⟨?_, fun _ => .inl, id⟩
  intro hfrozen
  cases frame
  simp_all [freeze]

/-- The frame of the native functions grows from the empty one. -/
theorem global_grows : Frame.empty.Grows Native.entries.keys .global :=
  (Frame.empty.update_grows Native.entries).trans (freeze_grows _ _)

/-- Bind entries one after the other; the first that is refused ends it. -/
def defineEach (frame : Frame) (entries : Entries) : Except ScopeError Frame :=
  entries.foldlM (fun frame entry => frame.define entry.1 entry.2) frame

/-- Where entries are refused, those before the first that is refused were bound, and no others. -/
theorem defineAll_error {entries : Entries} {error : ScopeError}
    (h : frame.defineAll entries = (some error, after)) :
    ∃ before key value later, entries = before ++ (key, value) :: later ∧
      frame.defineEach before = .ok after ∧ after.define key value = .error error := by
  induction entries generalizing frame with
  | nil => cases h
  | cons entry rest ih =>
      obtain ⟨key, value⟩ := entry
      unfold defineAll at h
      split at h
      · next defined hdefine =>
          obtain ⟨before, other, refused, later, rfl, hbefore, hrefused⟩ := ih h
          refine ⟨(key, value) :: before, other, refused, later, rfl, ?_, hrefused⟩
          simp only [defineEach, List.foldlM_cons, hdefine]
          exact hbefore
      · next hdefine =>
          cases h
          exact ⟨[], key, value, rest, rfl, rfl, hdefine⟩

/-- What a key finds in the frame. -/
def get? (frame : Frame) (key : Key) : Option Value := key.symbol?.bind frame.find?

end Frame

namespace Store

variable {store after : Store} {id : Nat}

/-! ## Scopes by their numbers -/

/-- A number without scope has the empty frame. -/
theorem frame_of_size_le (h : store.size ≤ id) : store.frame id = .empty := by
  simp [frame, frame?, List.getElem?_eq_none h]

/-- A number without scope has no scope around it. -/
theorem outer?_of_size_le (h : store.size ≤ id) : store.outer? id = none := by
  simp [outer?, List.getElem?_eq_none h]

/-- A new scope is one more. -/
@[simp]
theorem size_push (store : Store) (frame : Frame) (outer : Option Nat) :
    (store.push frame outer).size = store.size + 1 := by
  simp [push, size]

/-- Another frame for a scope is no new scope. -/
@[simp]
theorem size_setFrame (store : Store) (id : Nat) (frame : Frame) :
    (store.setFrame id frame).size = store.size := by
  simp [setFrame, size]

/-- Only the new scope has the new frame. -/
theorem frame_push (store : Store) (frame : Frame) (outer : Option Nat) (id : Nat) :
    (store.push frame outer).frame id = if id = store.size then frame else store.frame id := by
  rcases Nat.lt_trichotomy id store.size with hlt | rfl | hgt
  · rw [if_neg (Nat.ne_of_lt hlt)]
    simp only [Store.frame, frame?, push, List.getElem?_append_left hlt]
  · rw [if_pos rfl]
    simp [Store.frame, frame?, push, size]
  · rw [if_neg (Nat.ne_of_gt hgt), frame_of_size_le (by rwa [size_push]),
      frame_of_size_le (Nat.le_of_lt hgt)]

/-- Only the new scope has the new scope around it. -/
theorem outer?_push (store : Store) (frame : Frame) (outer : Option Nat) (id : Nat) :
    (store.push frame outer).outer? id = if id = store.size then outer else store.outer? id := by
  rcases Nat.lt_trichotomy id store.size with hlt | rfl | hgt
  · rw [if_neg (Nat.ne_of_lt hlt)]
    simp only [outer?, push, List.getElem?_append_left hlt]
  · rw [if_pos rfl]
    simp [outer?, push, size]
  · rw [if_neg (Nat.ne_of_gt hgt), outer?_of_size_le (by rwa [size_push]),
      outer?_of_size_le (Nat.le_of_lt hgt)]

/-- Another frame for a scope leaves all scopes where they are. -/
@[simp]
theorem outer?_setFrame (store : Store) (id : Nat) (frame : Frame) (other : Nat) :
    (store.setFrame id frame).outer? other = store.outer? other := by
  simp only [outer?, setFrame, List.getElem?_modify]
  cases store.cells[other]? with
  | none => rfl
  | some cell => by_cases hid : id = other <;> simp [hid]

/-- Only the scope that is meant gets the new frame. -/
theorem frame_setFrame_of_ne (store : Store) {id other : Nat} (h : other ≠ id) (frame : Frame) :
    (store.setFrame id frame).frame other = store.frame other := by
  simp [Store.frame, frame?, setFrame, Ne.symm h]

/-- A scope that is there gets the new frame. -/
theorem frame_setFrame_self (h : id < store.size) (frame : Frame) :
    (store.setFrame id frame).frame id = frame := by
  have hcell : store.cells[id]? = some store.cells[id] := List.getElem?_eq_getElem h
  simp [Store.frame, frame?, setFrame, hcell]

/-- Of two new frames for a scope the second counts. -/
theorem setFrame_setFrame (store : Store) (id : Nat) (frame other : Frame) :
    (store.setFrame id frame).setFrame id other = store.setFrame id other := by
  simp only [setFrame, List.modify_modify_eq]
  rfl

/-- The frame that a scope has is no change. -/
theorem setFrame_frame (h : id < store.size) : store.setFrame id (store.frame id) = store := by
  have hcell : store.cells[id]? = some store.cells[id] := List.getElem?_eq_getElem h
  cases store with
  | mk cells =>
      refine congrArg Store.mk (List.ext_getElem? fun other => ?_)
      rw [List.getElem?_modify]
      by_cases hid : id = other
      · subst hid
        simp [Store.frame, frame?, hcell]
      · simp [hid]

/-! ## Operations -/

/-- What can be done to the scopes of a store. A scope is meant by its number. -/
inductive Operation where
  /-- Make a scope inside no other. -/
  | new
  /-- Make a frozen scope that binds the native functions. -/
  | global
  /-- Make a scope inside another one, with bindings from the start. -/
  | child (id : Nat) (entries : Entries)
  | define (id : Nat) (key : Key) (value : Value)
  | update (id : Nat) (entries : Entries)
  | register (id : Nat)
  | freeze (id : Nat)
deriving DecidableEq, Repr

namespace Operation

/-- The scope that has to be there for the operation. -/
def target? : Operation → Option Nat
  | new => none
  | global => none
  | child id _ => some id
  | define id _ _ => some id
  | update id _ => some id
  | register id => some id
  | freeze id => some id

/-- The keys under which the operation offers values. -/
def keys : Operation → List Key
  | new => []
  | global => Native.entries.keys
  | child _ entries => entries.keys
  | define _ key _ => [key]
  | update _ entries => entries.keys
  | register _ => Native.entries.keys
  | freeze _ => []

/-- The operation is done to a scope of the store, or to none. -/
def IsOn (store : Store) (op : Operation) : Prop := ∀ id ∈ op.target?, id < store.size

instance (store : Store) (op : Operation) : Decidable (op.IsOn store) :=
  inferInstanceAs (Decidable (∀ id ∈ op.target?, id < store.size))

end Operation

/-- Do an operation: why it was refused, if it was, and the store afterwards. -/
def perform (store : Store) : Operation → Option ScopeError × Store
  | .new => (none, store.push .empty none)
  | .global => (none, store.push .global none)
  | .child id entries =>
      match store.child id entries with
      | .ok after => (none, after)
      | .error error => (some error, store)
  | .define id key value =>
      match store.define id key value with
      | .ok after => (none, after)
      | .error error => (some error, store)
  | .update id entries => store.update id entries
  | .register id => store.register id
  | .freeze id => (none, store.freeze id)

/-- The store after operations one after the other, whether or not each was refused. -/
def performAll (store : Store) (ops : List Operation) : Store :=
  ops.foldl (fun store op => (store.perform op).2) store

/-- Every operation is done to a scope that is there by then. -/
def Admits (store : Store) : List Operation → Prop
  | [] => True
  | op :: ops => op.IsOn store ∧ (store.perform op).2.Admits ops

/-- Whether operations are admitted can be decided by doing them. -/
def decideAdmits (store : Store) : (ops : List Operation) → Decidable (store.Admits ops)
  | [] => .isTrue trivial
  | op :: ops =>
      have := (store.perform op).2.decideAdmits ops
      inferInstanceAs (Decidable (op.IsOn store ∧ (store.perform op).2.Admits ops))

instance (store : Store) (ops : List Operation) : Decidable (store.Admits ops) :=
  store.decideAdmits ops

/-- What one operation that offers these keys can do: nothing, one more scope inside an older one or
inside none, or one frame that grows. -/
inductive Step (store : Store) (keys : List Key) : Store → Prop where
  | unchanged : Step store keys store
  | pushed {frame : Frame} {outer : Option Nat} :
      Frame.empty.Grows keys frame → (∀ id ∈ outer, id < store.size) →
      Step store keys (store.push frame outer)
  | grown {id : Nat} {frame : Frame} :
      id < store.size → (store.frame id).Grows keys frame →
      Step store keys (store.setFrame id frame)

/-- Every operation does what one operation can do, also if it is refused. -/
theorem step_perform {op : Operation} (h : op.IsOn store) :
    store.Step op.keys (store.perform op).2 := by
  cases op with
  | new => exact .pushed (.refl _ _) nofun
  | global => exact .pushed Frame.global_grows nofun
  | child id entries =>
      have hgrows := Frame.empty.update_grows entries
      simp only [perform, child]
      generalize Frame.empty.update entries = updated at hgrows ⊢
      obtain ⟨_ | error, frame⟩ := updated
      · exact .pushed hgrows h
      · exact .unchanged
  | define id key value =>
      simp only [perform, define]
      cases hdefine : (store.frame id).define key value with
      | error error => exact .unchanged
      | ok frame => exact .grown (h id rfl) (Frame.define_grows hdefine)
  | update id entries => exact .grown (h id rfl) ((store.frame id).update_grows entries)
  | register id => exact .grown (h id rfl) ((store.frame id).update_grows Native.entries)
  | freeze id => exact .grown (h id rfl) (Frame.freeze_grows _ _)

/-! ## What holds after any operations -/

/-- Every name that is bound was offered as a symbol under one of the keys and is bound once in its
frame, and every scope is younger than the one around it. -/
structure Sound (keys : List Key) (store : Store) : Prop where
  origin : ∀ id, ∀ name ∈ (store.frame id).bindings.names, .symbol name ∈ keys
  nodup : ∀ id, (store.frame id).bindings.names.Nodup
  outer_lt : ∀ {id outer}, store.outer? id = some outer → outer < id

/-- The store without scopes is sound. -/
theorem sound_empty : Sound [] .empty :=
  ⟨nofun, fun _ => List.Pairwise.nil, nofun⟩

/-- A frame that grows from a sound one is sound. -/
theorem Sound.grow {keys more : List Key} (h : store.Sound keys) {frame : Frame}
    (hframe : (store.frame id).Grows more frame) :
    (∀ name ∈ frame.bindings.names, .symbol name ∈ keys ++ more) ∧ frame.bindings.names.Nodup := by
  refine ⟨?_, hframe.nodup (h.nodup id)⟩
  intro name hname
  rcases hframe.origin name hname with hname | hkey
  · exact List.mem_append_left more (h.origin id name hname)
  · exact List.mem_append_right keys hkey

/-- One operation keeps a store sound. -/
theorem Sound.step {keys more : List Key} (h : store.Sound keys) (hstep : store.Step more after) :
    after.Sound (keys ++ more) := by
  have hold : ∀ id, ∀ name ∈ (store.frame id).bindings.names, .symbol name ∈ keys ++ more :=
    fun id name hname => List.mem_append_left more (h.origin id name hname)
  cases hstep with
  | unchanged => exact ⟨hold, h.nodup, h.outer_lt⟩
  | @pushed frame outer hframe houter =>
      -- The number of the new scope had the empty frame before.
      rw [← frame_of_size_le (Nat.le_refl store.size)] at hframe
      obtain ⟨horigin, hnodup⟩ := h.grow hframe
      refine ⟨?_, ?_, ?_⟩
      · intro id
        rw [frame_push]
        split
        · exact horigin
        · exact hold id
      · intro id
        rw [frame_push]
        split
        · exact hnodup
        · exact h.nodup id
      · intro id around haround
        rw [outer?_push] at haround
        split at haround
        · next hid =>
            rw [hid]
            exact houter around haround
        · exact h.outer_lt haround
  | @grown target frame htarget hframe =>
      obtain ⟨horigin, hnodup⟩ := h.grow hframe
      refine ⟨?_, ?_, ?_⟩
      · intro id
        by_cases hid : id = target
        · rw [hid, frame_setFrame_self htarget]
          exact horigin
        · rw [frame_setFrame_of_ne store hid]
          exact hold id
      · intro id
        by_cases hid : id = target
        · rw [hid, frame_setFrame_self htarget]
          exact hnodup
        · rw [frame_setFrame_of_ne store hid]
          exact h.nodup id
      · intro id around haround
        rw [outer?_setFrame] at haround
        exact h.outer_lt haround

/-- Any operations keep a store sound. -/
theorem Sound.performAll {keys : List Key} (h : store.Sound keys) {ops : List Operation}
    (hops : store.Admits ops) :
    (store.performAll ops).Sound (keys ++ ops.flatMap Operation.keys) := by
  induction ops generalizing store keys with
  | nil =>
      rw [List.flatMap_nil, List.append_nil]
      exact h
  | cons op ops ih =>
      have hlater := ih (h.step (step_perform hops.1)) hops.2
      rw [List.append_assoc] at hlater
      exact hlater

/-- The scopes of the first store are in the second with the same scopes around them, and those that
are frozen have not changed. -/
structure Preserves (store after : Store) : Prop where
  size_le : store.size ≤ after.size
  outer_eq : ∀ id < store.size, after.outer? id = store.outer? id
  settled : ∀ id < store.size, (store.frame id).frozen = true → after.frame id = store.frame id

/-- A store preserves itself. -/
theorem Preserves.refl (store : Store) : store.Preserves store :=
  ⟨Nat.le_refl _, fun _ _ => rfl, fun _ _ _ => rfl⟩

/-- What is preserved twice is preserved. -/
theorem Preserves.trans {middle : Store} (h : store.Preserves middle)
    (hafter : middle.Preserves after) : store.Preserves after where
  size_le := Nat.le_trans h.size_le hafter.size_le
  outer_eq id hid :=
    (hafter.outer_eq id (Nat.lt_of_lt_of_le hid h.size_le)).trans (h.outer_eq id hid)
  settled id hid hfrozen := by
    have hmiddle := h.settled id hid hfrozen
    have hlater := hafter.settled id (Nat.lt_of_lt_of_le hid h.size_le) (hmiddle ▸ hfrozen)
    exact hlater.trans hmiddle

/-- One operation preserves what is settled. -/
theorem Step.preserves {keys : List Key} (h : store.Step keys after) : store.Preserves after := by
  cases h with
  | unchanged => exact .refl store
  | pushed =>
      refine ⟨by simp, ?_, ?_⟩
      · intro id hid
        rw [outer?_push, if_neg (Nat.ne_of_lt hid)]
      · intro id hid _
        rw [frame_push, if_neg (Nat.ne_of_lt hid)]
  | @grown target frame htarget hframe =>
      refine ⟨by simp, fun id _ => by simp, ?_⟩
      intro id hid hfrozen
      by_cases htarget : id = target
      · subst htarget
        rw [frame_setFrame_self hid]
        exact hframe.settled hfrozen
      · exact frame_setFrame_of_ne store htarget frame

/-- Any operations preserve what is settled. -/
theorem preserves_performAll {ops : List Operation} (h : store.Admits ops) :
    store.Preserves (store.performAll ops) := by
  induction ops generalizing store with
  | nil => exact .refl store
  | cons op ops ih => exact (step_perform h.1).preserves.trans (ih h.2)

/-! ## The way outwards -/

/-- `Search store key id found` says that the search for a key from a scope outwards, one scope
after the other, comes to an end, and that it ends with `found`. -/
inductive Search (store : Store) (key : Key) : Nat → Option Nat → Prop where
  | here {id : Nat} {value : Value} :
      (store.frame id).get? key = some value → Search store key id (some id)
  | outward {id outer : Nat} {found : Option Nat} :
      (store.frame id).get? key = none → store.outer? id = some outer →
      Search store key outer found → Search store key id found
  | nowhere {id : Nat} :
      (store.frame id).get? key = none → store.outer? id = none → Search store key id none

/-- The way outwards from a scope begins there and goes on from the scope around it. -/
theorem path_eq (h : ∀ {id outer}, store.outer? id = some outer → outer < id) (id : Nat) :
    store.path id = id :: ((store.outer? id).map store.path).getD [] := by
  rw [path]
  cases houter : store.outer? id with
  | none => rfl
  | some outer => simp [h houter]

/-- The scope that is found for a key is the first on the way outwards whose frame finds it. -/
theorem find?_eq (store : Store) (id : Nat) (key : Key) :
    store.find? id key =
      (store.path id).find? fun other => ((store.frame other).get? key).isSome := by
  unfold find? Frame.get?
  cases key.symbol? with
  | none =>
      symm
      exact List.find?_eq_none.mpr (by simp)
  | some name => rfl

/-- If every scope is younger than the one around it, the search for a key ends. -/
theorem search_find? (h : ∀ {id outer}, store.outer? id = some outer → outer < id) (key : Key)
    (id : Nat) : store.Search key id (store.find? id key) := by
  induction id using Nat.strongRecOn with
  | ind id ih =>
      cases hhere : (store.frame id).get? key with
      | some value =>
          have hfound : store.find? id key = some id := by
            rw [find?_eq, path_eq h, List.find?_cons_of_pos (by simp [hhere])]
          rw [hfound]
          exact .here hhere
      | none =>
          have hskip : store.find? id key =
              (((store.outer? id).map store.path).getD []).find?
                fun other => ((store.frame other).get? key).isSome := by
            rw [find?_eq, path_eq h, List.find?_cons_of_neg (by simp [hhere])]
          cases houter : store.outer? id with
          | none =>
              rw [hskip, houter]
              exact .nowhere hhere houter
          | some outer =>
              have hsame : store.find? id key = store.find? outer key := by
                rw [hskip, houter, find?_eq]
                rfl
              rw [hsame]
              exact .outward hhere houter (ih outer (h houter))

/-- The value of a key is what it finds in the scope that is found for it. -/
theorem lookup_eq (store : Store) (id : Nat) (key : Key) :
    store.lookup id key =
      match (store.find? id key).bind fun owner => (store.frame owner).get? key with
      | some value => .ok value
      | none => .error (.unbound key) := by
  have hvalue : key.symbol?.bind (store.scope id).lookup =
      (store.find? id key).bind fun owner => (store.frame owner).get? key := by
    rw [find?_eq]
    unfold Frame.get? scope Scope.lookup
    cases key.symbol? with
    | none => simp
    | some name =>
        rw [Option.bind_some]
        induction store.path id with
        | nil => rfl
        | cons other path ih =>
            cases hother : (store.frame other).find? name <;> simp [hother, ih]
  rw [← hvalue]
  rfl

/-! ## Operations that are refused -/

/-- Bind entries in a scope one after the other; the first that is refused ends it. -/
def defineEach (store : Store) (id : Nat) (entries : Entries) : Except ScopeError Store :=
  entries.foldlM (fun store entry => store.define id entry.1 entry.2) store

/-- Binding entries in a scope is binding them in its frame. -/
theorem defineEach_eq (h : id < store.size) (entries : Entries) :
    store.defineEach id entries =
      ((store.frame id).defineEach entries).map (store.setFrame id) := by
  induction entries generalizing store with
  | nil => exact congrArg Except.ok (setFrame_frame h).symm
  | cons entry rest ih =>
      simp only [defineEach, Frame.defineEach, List.foldlM_cons, define]
      cases hdefine : (store.frame id).define entry.1 entry.2 with
      | error error => rfl
      | ok frame =>
          have hrest := @ih (store.setFrame id frame) (by simpa using h)
          rw [frame_setFrame_self h] at hrest
          refine hrest.trans ?_
          congr 1
          funext other
          exact setFrame_setFrame store id frame other

/-- A table of entries that is refused leaves those before the first refused entry bound in the one
frame, and everything else as it is. -/
theorem update_error (h : id < store.size) {entries : Entries} {error : ScopeError}
    (hupdate : store.update id entries = (some error, after)) :
    (∃ before key value later, entries.distinct = before ++ (key, value) :: later ∧
      store.defineEach id before = .ok after ∧ after.define id key value = .error error) ∧
    after.size = store.size ∧
    (∀ other, after.outer? other = store.outer? other) ∧
    (∀ other ≠ id, after.frame other = store.frame other) := by
  cases hframe : (store.frame id).update entries with
  | mk refused frame =>
      simp only [update, hframe] at hupdate
      cases hupdate
      refine ⟨?_, size_setFrame .., outer?_setFrame store id frame, ?_⟩
      · obtain ⟨before, key, value, later, hentries, hbefore, hrefused⟩ :=
          Frame.defineAll_error hframe
        refine ⟨before, key, value, later, hentries, ?_, ?_⟩
        · rw [defineEach_eq h, hbefore]
          rfl
        · rw [define, frame_setFrame_self h, hrefused]
          rfl
      · intro other hother
        exact frame_setFrame_of_ne store hother frame

/-- A binding is refused under a key that is no symbol and, under a symbol, in a frozen scope. -/
theorem perform_define_eq_some (store : Store) (id : Nat) (key : Key) (value : Value)
    (error : ScopeError) :
    (store.perform (.define id key value)).1 = some error ↔
      (∀ name, key ≠ .symbol name) ∧ error = .notSymbol key ∨
      ∃ name, key = .symbol name ∧ (store.frame id).frozen = true ∧ error = .frozen name := by
  simp only [perform, define]
  by_cases hkey : ∃ name, key = .symbol name
  · obtain ⟨name, rfl⟩ := hkey
    rw [Frame.define_symbol]
    by_cases hfrozen : (store.frame id).frozen = true
    · simp [hfrozen, Except.map, eq_comm]
    · simp [hfrozen, Except.map]
  · have hnone : ∀ name, key ≠ .symbol name := fun name hname => hkey ⟨name, hname⟩
    rw [Frame.define_of_not_symbol hnone]
    refine ⟨?_, ?_⟩
    · rintro ⟨⟩
      exact .inl ⟨hnone, rfl⟩
    · rintro (⟨-, rfl⟩ | ⟨name, hname, -⟩)
      · rfl
      · exact absurd hname (hnone name)

/-- A binding that is refused changes nothing. -/
theorem perform_define_of_refused {key : Key} {value : Value}
    (h : (store.perform (.define id key value)).1 ≠ none) :
    (store.perform (.define id key value)).2 = store := by
  simp only [perform] at h ⊢
  cases hdefine : store.define id key value with
  | error error => rfl
  | ok after =>
      rw [hdefine] at h
      exact absurd rfl h

/-- A scope that cannot be made leaves the others as they are. -/
theorem perform_child_of_refused {entries : Entries}
    (h : (store.perform (.child id entries)).1 ≠ none) :
    (store.perform (.child id entries)).2 = store := by
  simp only [perform] at h ⊢
  cases hchild : store.child id entries with
  | error error => rfl
  | ok after =>
      rw [hchild] at h
      exact absurd rfl h

/-- Any operations are done, each to a scope that is there, and each succeeds or is refused.
Afterwards every name that is bound is in upper case, was offered as a symbol and is bound once in
its frame. Every scope is younger than the one around it, so the search for a key outwards ends, and
the value of the key is what it finds there. Whatever is done later, a scope stays within the same
scope, and a frozen scope keeps its frame. A binding is refused under a key that is no symbol, also
in a frozen scope, and under a symbol in a frozen scope, and then nothing has changed. A table that
is refused has bound the entries before the refused one in its frame and changed nothing else. A
scope that cannot be made leaves the others as they are. -/
theorem scopes_survive_any_history (ops : List Operation) (hops : empty.Admits ops) :
    let store := empty.performAll ops
    (∀ id, ∀ name ∈ (store.frame id).bindings.names,
      upcase name.name = name.name ∧ ∃ op ∈ ops, .symbol name ∈ op.keys) ∧
    (∀ id, (store.frame id).bindings.names.Nodup) ∧
    (∀ id outer, store.outer? id = some outer → outer < id) ∧
    (∀ id key, store.Search key id (store.find? id key) ∧
      store.lookup id key =
        match (store.find? id key).bind fun owner => (store.frame owner).get? key with
        | some value => .ok value
        | none => .error (.unbound key)) ∧
    (∀ later, store.Admits later → ∀ id < store.size,
      (store.performAll later).outer? id = store.outer? id ∧
      ((store.frame id).frozen = true →
        (store.performAll later).frame id = store.frame id)) ∧
    (∀ id key value,
      (∀ error, (store.perform (.define id key value)).1 = some error ↔
        (∀ name, key ≠ .symbol name) ∧ error = .notSymbol key ∨
        ∃ name, key = .symbol name ∧ (store.frame id).frozen = true ∧ error = .frozen name) ∧
      ((store.perform (.define id key value)).1 ≠ none →
        (store.perform (.define id key value)).2 = store)) ∧
    (∀ id < store.size, store.perform (.register id) = store.perform (.update id Native.entries) ∧
      ∀ entries error after, store.perform (.update id entries) = (some error, after) →
        (∃ before key value rest, entries.distinct = before ++ (key, value) :: rest ∧
          store.defineEach id before = .ok after ∧ after.define id key value = .error error) ∧
        after.size = store.size ∧
        (∀ other, after.outer? other = store.outer? other) ∧
        (∀ other ≠ id, after.frame other = store.frame other)) ∧
    (∀ id entries, (store.perform (.child id entries)).1 ≠ none →
      (store.perform (.child id entries)).2 = store) := by
  intro store
  have hsound : store.Sound ([] ++ ops.flatMap Operation.keys) := sound_empty.performAll hops
  refine ⟨?_, hsound.nodup, fun _ _ => hsound.outer_lt, ?_, ?_, ?_, ?_, ?_⟩
  · intro id name hname
    have hkey : .symbol name ∈ ops.flatMap Operation.keys := hsound.origin id name hname
    exact ⟨name.upcase_name, List.mem_flatMap.mp hkey⟩
  · intro id key
    exact ⟨search_find? hsound.outer_lt key id, lookup_eq store id key⟩
  · intro later hlater id hid
    have hpreserves := preserves_performAll hlater
    exact ⟨hpreserves.outer_eq id hid, hpreserves.settled id hid⟩
  · intro id key value
    exact ⟨perform_define_eq_some store id key value, perform_define_of_refused⟩
  · intro id hid
    exact ⟨rfl, fun _ _ _ => update_error hid⟩
  · intro id entries
    exact perform_child_of_refused

/-- A scope is frozen and then refuses a number and a name; a scope inside it takes the first entry
of a table whose second entry is under a text. The name is found in the frozen scope, which native
functions do not get into. -/
theorem scopes_survive_refusals :
    let ops : List Operation :=
      [.new, .define 0 (.symbol (.ofText "x")) (.int 1), .freeze 0, .define 0 (.number 5) .nothing,
        .define 0 (.symbol (.ofText "y")) (.int 2), .child 0 [],
        .update 1 [(.symbol (.ofText "a"), .int 3), (.text "B", .int 4),
          (.symbol (.ofText "c"), .int 5)],
        .child 1 [(.nothing, .int 6)]]
    let store := empty.performAll ops
    empty.Admits ops ∧ store.size = 2 ∧
    (store.frame 1).bindings.names = [.ofText "A"] ∧
    store.find? 1 (.symbol (.ofText "X")) = some 0 ∧
    store.Search (.symbol (.ofText "X")) 1 (some 0) ∧
    (store.frame 0).frozen = true ∧
    (store.performAll [.register 0, .register 1]).frame 0 = store.frame 0 := by
  intro ops store
  have hops : empty.Admits ops := by decide +kernel
  have hlater : store.Admits [.register 0, .register 1] := by decide +kernel
  have hsize : store.size = 2 := by decide +kernel
  have hfound : store.find? 1 (.symbol (.ofText "X")) = some 0 := by decide +kernel
  have hfrozen : (store.frame 0).frozen = true := by decide +kernel
  obtain ⟨-, -, -, hsearch, hkept, -, -, -⟩ := scopes_survive_any_history ops hops
  refine ⟨hops, hsize, by decide +kernel, hfound, hfound ▸ (hsearch 1 _).1, hfrozen, ?_⟩
  exact (hkept _ hlater 0 (hsize ▸ Nat.zero_lt_two)).2 hfrozen

end Store

end Sexpr
