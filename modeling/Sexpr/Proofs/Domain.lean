import Mathlib.Control.Monad.Basic
import Sexpr.Proofs.Legible
import Sexpr.Proofs.Provenance
import Sexpr.Proofs.Session

/-!
# The values of programs

Programs compute with words, with the texts of their own string literals and with the native
functions of the global scope: `Value.InDomain` says so of one value, for any texts that are
allowed. Evaluation keeps to these values, and so does everything that it evaluates on the way:
`Enters` lists the forms that the evaluation of a form evaluates at once, in which scopes, and
`Involves` is any number of such steps. `values_stay_in_domain` adds what is written, and what
follows for calls one after the other.
-/

namespace Sexpr

/-! ## The domain -/

/-- The value is a word, a text that is allowed, or a native function of the global scope. -/
def Value.InDomain (allowed : String → Prop) : Value → Prop
  | int n => Word.InRange n
  | str text => allowed text
  | native f => Scope.global.lookup f.symbol = some (.native f)
  | bool _ | nothing => False

variable {allowed : String → Prop}

/-- The global scope binds every native function to its name. -/
theorem Native.lookup_global_symbol (f : Native) :
    Scope.global.lookup f.symbol = some (.native f) := by
  cases f <;> rfl

/-- The values of the global scope are in the domain. -/
theorem Scope.global_holds : Scope.global.Holds (Value.InDomain allowed) := by
  intro s value hvalue
  rw [Scope.lookup_global] at hvalue
  obtain ⟨f, -, rfl⟩ := Option.map_eq_some_iff.mp hvalue
  exact f.lookup_global_symbol

/-- The domain covers forms whose integers are words and whose strings are allowed. -/
theorem covers_of_leaves {nodes : List Node}
    (hintegers : ∀ n position, .integer n position ∈ nodes → Word.InRange n)
    (hstrings : ∀ text position, .string text position ∈ nodes → allowed text) :
    Covers nodes (Value.InDomain allowed) :=
  ⟨hintegers _ _, hstrings _ _, id⟩

/-! ## Everything that is evaluated on the way -/

/-- `Enters scope node inner form` says that the evaluation of `node` in `scope` may at once
evaluate `form` in `inner`: an operand of a conditional or of a call, a form that a binding form
binds to a name, or a form of its body, in the scope with the bindings found on some machine. -/
inductive Enters (scope : Scope) : Node → Scope → Node → Prop where
  | operand {s : Symbol} {place position : Option Position} {operands : List Node} {form : Node} :
      SpecialForm.ofSymbol? s ≠ some .binding → form ∈ operands →
      Enters scope (.list (.symbol s place :: operands) position) scope form
  | bound {s : Symbol} {place position q : Option Position} {pairs body : List Node}
      {name form : Node} :
      SpecialForm.ofSymbol? s = some .binding → (name, form) ∈ Node.paired pairs →
      Enters scope (.list (.symbol s place :: .list pairs q :: body) position) scope form
  | body {s : Symbol} {place position q : Option Position} {pairs body : List Node} {form : Node}
      {bindings : Bindings} {m after : Machine} :
      SpecialForm.ofSymbol? s = some .binding →
      Node.evalPairs scope pairs m = (.ok bindings, after) → form ∈ body →
      Enters scope (.list (.symbol s place :: .list pairs q :: body) position)
        (scope.child bindings) form

/-- `Involves scope node inner form` says that the evaluation of `node` in `scope` may at some time
evaluate `form` in `inner`. -/
inductive Involves (scope : Scope) (node : Node) : Scope → Node → Prop where
  | self : Involves scope node scope node
  | step {inner deeper : Scope} {form last : Node} :
      Involves scope node inner form → Enters inner form deeper last →
      Involves scope node deeper last

variable {nodes : List Node} {D : Value → Prop}

/-- What evaluation enters is a form within the given ones, in a scope that still satisfies the
predicate. -/
theorem Enters.keeps (hD : Covers nodes D) {scope inner : Scope} {node form : Node}
    (h : Enters scope node inner form) (hsub : node.subforms ⊆ nodes) (hscope : scope.Holds D) :
    form.subforms ⊆ nodes ∧ inner.Holds D := by
  cases h with
  | operand _ hform =>
      simp only [Node.subforms, Node.subformsItems, List.cons_subset, List.append_subset] at hsub
      obtain ⟨-, -, hoperands⟩ := hsub
      exact ⟨List.Subset.trans (Node.subforms_subset_of_mem hform) hoperands, hscope⟩
  | bound _ hform =>
      simp only [Node.subforms, Node.subformsItems, List.cons_subset, List.append_subset] at hsub
      obtain ⟨-, -, ⟨-, hpairs⟩, -⟩ := hsub
      have hwithin := Node.subforms_subset_of_mem (Node.mem_of_mem_paired hform).2
      exact ⟨List.Subset.trans hwithin hpairs, hscope⟩
  | @body s place position q pairs body form bindings m after hs hbindings hform =>
      obtain ⟨hlist, -⟩ := List.cons_subset.mp hsub
      simp only [Node.subforms, Node.subformsItems, List.cons_subset, List.append_subset] at hsub
      obtain ⟨-, -, ⟨-, hpairs⟩, hbody⟩ := hsub
      refine ⟨List.Subset.trans (Node.subforms_subset_of_mem hform) hbody, hscope.child ?_⟩
      -- The bindings have values that stem from the forms of the pairs.
      obtain ⟨first, body, rfl⟩ := List.exists_cons_of_ne_nil (List.ne_nil_of_mem hform)
      have hvalues := (Node.evalPairs_stems hD hscope pairs
        (fun _ => .nameNotSymbol ⟨s, place, hs, hlist⟩) hpairs m).2
      rw [hbindings] at hvalues
      exact hvalues

/-- What evaluation involves is a form within the given ones, in a scope that still satisfies the
predicate. -/
theorem Involves.keeps (hD : Covers nodes D) {scope inner : Scope} {node form : Node}
    (h : Involves scope node inner form) (hsub : node.subforms ⊆ nodes) (hscope : scope.Holds D) :
    form.subforms ⊆ nodes ∧ inner.Holds D := by
  induction h with
  | self => exact ⟨hsub, hscope⟩
  | step _ henters ih => exact henters.keeps hD ih.1 ih.2

/-- A value that evaluation gives satisfies the predicate. -/
theorem Node.value_of_eval (hD : Covers nodes D) {scope : Scope} (hscope : scope.Holds D)
    {node : Node} (hsub : node.subforms ⊆ nodes) {m : Machine} {value : Value}
    (h : (node.eval scope m).1 = .ok value) : D value := by
  have hvalue := (node.eval_stems hD hscope hsub m).2
  rw [h] at hvalue
  exact hvalue

/-! ## The leaves of what is read -/

/-- The text is what a literal stands for that the source text spells. -/
def SpelledIn (source text : List Char) : Prop :=
  ∃ literal rest, '"' :: literal <:+ source ∧ Units literal text ('"' :: rest)

/-- A leaf that the source text makes: an integer is a word, and a string is spelled. -/
def Node.IsLeafOf (source : List Char) : Node → Prop
  | integer n _ => Word.InRange n
  | string text _ => SpelledIn source text.toList
  | _ => True

/-- A leaf of the end of a text is a leaf of the text. -/
theorem Node.IsLeafOf.mono {source longer : List Char} {node : Node} (h : node.IsLeafOf source)
    (hsuffix : source <:+ longer) : node.IsLeafOf longer := by
  cases node with
  | string text position =>
      obtain ⟨literal, rest, hliteral, hunits⟩ := h
      exact ⟨literal, rest, hliteral.trans hsuffix, hunits⟩
  | list | symbol | integer | hole => exact h

/-- What follows blanks is the end of the text. -/
theorem Blanks.suffix {text rest : List Char} (h : Blanks text rest) : rest <:+ text := by
  induction h with
  | none => exact List.suffix_refl _
  | more _ _ ih => exact ih.trans (List.suffix_cons _ _)

/-- What follows units of a literal is the end of the text. -/
theorem Units.suffix {text decoded rest : List Char} (h : Units text decoded rest) :
    rest <:+ text := by
  induction h with
  | none => exact List.suffix_refl _
  | plain _ _ _ _ ih => exact ih.trans (List.suffix_cons _ _)
  | lineFeed _ ih | quote _ ih =>
      exact ih.trans ((List.suffix_cons _ _).trans (List.suffix_cons _ _))

mutual

/-- What follows a form is the end of the text. -/
theorem Form.suffix {text rest : List Char} {node : Node} (h : Form text node rest) :
    rest <:+ text := by
  cases h with
  | list _ hitems =>
      exact (List.suffix_cons _ _).trans (hitems.suffix.trans (List.suffix_cons _ _))
  | string _ hunits =>
      exact (List.suffix_cons _ _).trans (hunits.suffix.trans (List.suffix_cons _ _))
  | integer | symbol => exact List.suffix_append _ _

/-- What follows forms is the end of the text. -/
theorem Sequence.suffix {text rest : List Char} {nodes : List Node}
    (h : Sequence text nodes rest) : rest <:+ text := by
  cases h with
  | nil hblanks => exact hblanks.suffix
  | cons hblanks hform hmore => exact hmore.suffix.trans (hform.suffix.trans hblanks.suffix)

end

mutual

/-- The leaves of a form that a text derives are leaves of that text. -/
theorem Form.isLeafOf {text rest : List Char} {node : Node} (h : Form text node rest) :
    ∀ leaf ∈ node.subforms, leaf.IsLeafOf text := by
  intro leaf hleaf
  cases h with
  | list position hitems =>
      rcases List.mem_cons.mp hleaf with rfl | hleaf
      · trivial
      · exact (hitems.isLeafOf leaf hleaf).mono (List.suffix_cons _ _)
  | string position hunits =>
      obtain rfl := List.mem_singleton.mp hleaf
      exact ⟨_, _, List.suffix_refl _, by simpa using hunits⟩
  | integer =>
      obtain rfl := List.mem_singleton.mp hleaf
      exact Word.inRange_wrap _
  | symbol =>
      obtain rfl := List.mem_singleton.mp hleaf
      trivial

/-- The leaves of forms that a text derives are leaves of that text. -/
theorem Sequence.isLeafOf {text rest : List Char} {nodes : List Node}
    (h : Sequence text nodes rest) : ∀ leaf ∈ Node.subformsItems nodes, leaf.IsLeafOf text := by
  intro leaf hleaf
  cases h with
  | nil => cases hleaf
  | cons hblanks hform hmore =>
      rcases List.mem_append.mp hleaf with hleaf | hleaf
      · exact (hform.isLeafOf leaf hleaf).mono hblanks.suffix
      · exact (hmore.isLeafOf leaf hleaf).mono (hform.suffix.trans hblanks.suffix)

end

/-- The leaves of the forms that are read are leaves of the source text. -/
theorem isLeafOf_of_parse {source : String} {limit : Int} {forms : List Node}
    (h : parse source limit = .ok forms) :
    ∀ leaf ∈ Node.subformsItems forms, leaf.IsLeafOf source.toList := by
  rcases (parse_sound h).2 with hend | ⟨more, hclose⟩
  · exact hend.isLeafOf
  · exact hclose.isLeafOf

/-- The text is that of a string literal among the forms of the source text. -/
def IsLiteralOf (source : String) (limit : Int) (text : String) : Prop :=
  ∃ forms position, parse source limit = .ok forms ∧
    .string text position ∈ Node.subformsItems forms

/-- The text of a literal is spelled in the source text, and has no backslash. -/
theorem IsLiteralOf.spelled {source text : String} {limit : Int}
    (h : IsLiteralOf source limit text) :
    SpelledIn source.toList text.toList ∧ '\\' ∉ text.toList := by
  obtain ⟨forms, position, hparse, hmem⟩ := h
  obtain ⟨literal, rest, hliteral, hunits⟩ := isLeafOf_of_parse hparse _ hmem
  exact ⟨⟨literal, rest, hliteral, hunits⟩, hunits.backslash_notMem⟩

/-- The domain of a source text covers its forms. -/
theorem covers_of_parse {source : String} {limit : Int} {forms : List Node}
    (h : parse source limit = .ok forms) :
    Covers (Node.subformsItems forms) (Value.InDomain (IsLiteralOf source limit)) :=
  covers_of_leaves (fun _ _ hmem => isLeafOf_of_parse h _ hmem)
    fun _ position hmem => ⟨forms, position, h, hmem⟩

/-! ## What is written -/

/-- The lines that a native function writes for arguments in the domain. -/
def Native.Writes (allowed : String → Prop) : Native → List Char → Prop
  | printInt, line => ∃ n, Word.InRange n ∧ line = (toString n).toList
  | printString, line => ∃ text, allowed text ∧ line = text.toList
  | _, _ => False

/-- A call with arguments in the domain writes only lines of its function. -/
theorem Native.call_prints (f : Native) (position : Option Position) {arguments : List Value}
    (harguments : ∀ value ∈ arguments, value.InDomain allowed) (m : Machine) :
    m.Prints (f.Writes allowed) (f.call position arguments m).2 := by
  have hstep := f.call_step position arguments
  generalize f.call position arguments = call at hstep
  cases hstep with
  | printString text => exact .writeLine ⟨text, harguments _ List.mem_cons_self, rfl⟩ m
  | printInt n => exact .writeLine ⟨n, harguments _ List.mem_cons_self, rfl⟩ m
  | readInt =>
      refine .of_output_eq ?_
      rw [Native.readWord, Eval.bind_of_ok (Eval.takeWord_apply m)]
      cases m.takeWord.1 with
      | none => exact m.output_takeWord
      | some word =>
          dsimp only
          split <;> exact m.output_takeWord
  | add | equal | exit | arity | kind => exact .of_output_eq rfl

/-- No integer is written with a backslash. -/
theorem Word.backslash_notMem_toString (n : Int) : '\\' ∉ (toString n).toList := by
  have hdigits (k : Nat) : '\\' ∉ Nat.toDigits 10 k := by
    intro hmem
    have hall := (Bool.and_eq_true_iff.mp (isDigits_toDigits k)).2
    exact absurd (List.all_eq_true.mp hall _ hmem) (by decide)
  by_cases hneg : n < 0
  · rw [toList_toString_of_neg hneg]
    simpa using hdigits (-n).toNat
  · rw [toList_toString_of_nonneg (Int.not_lt.mp hneg)]
    exact hdigits n.toNat

/-- No line that shows a value of a program has a backslash. -/
theorem backslash_notMem_of_shows {source : String} {limit : Int} {line : List Char}
    (h : Shows (Value.InDomain (IsLiteralOf source limit)) line) : '\\' ∉ line := by
  rcases h with ⟨n, -, rfl⟩ | ⟨text, htext, rfl⟩
  · exact Word.backslash_notMem_toString n
  · exact (IsLiteralOf.spelled htext).2

namespace Machine.Prints

variable {P Q : List Char → Prop} {m after : Machine}

/-- Lines of one kind are lines of a wider kind. -/
theorem mono (h : Prints P m after) (hPQ : ∀ line, P line → Q line) : Prints Q m after := by
  obtain ⟨lines, hlines, houtput⟩ := h
  exact ⟨lines, fun line hline => hPQ line (hlines line hline), houtput⟩

/-- Where lines without backslashes were written no backslash was. -/
theorem backslash_notMem (h : Prints ('\\' ∉ ·) m after) (hm : '\\' ∉ m.output) :
    '\\' ∉ after.output := by
  obtain ⟨lines, hlines, houtput⟩ := h
  rw [houtput, List.mem_append, not_or]
  refine ⟨hm, ?_⟩
  intro hmem
  obtain ⟨line, hline, hc⟩ := List.mem_flatMap.mp hmem
  rcases List.mem_append.mp hc with hc | hc
  · exact hlines line hline hc
  · simp at hc

end Machine.Prints

namespace Interpreter

/-- If what is done with the forms of a source text stems from them, only values in the domain are
shown, and a result is as promised for these forms. -/
theorem prints_of_stems {α : Type} {Q : List Node → α → Prop} {next : List Node → Eval α}
    {source : String} {m : Machine}
    (hstems : ∀ forms, parse source m.limit = .ok forms → Eval.Stems (Node.subformsItems forms)
      (Value.InDomain (IsLiteralOf source m.limit)) (Q forms) (next forms)) :
    m.Prints (Shows (Value.InDomain (IsLiteralOf source m.limit))) ((read source >>= next) m).2 ∧
      ∀ value, ((read source >>= next) m).1 = .ok value →
        ∃ forms, parse source m.limit = .ok forms ∧ Q forms value := by
  cases hparse : parse source m.limit with
  | error error =>
      rw [bind_read_of_error hparse]
      exact ⟨.of_output_eq rfl, nofun⟩
  | ok forms =>
      obtain ⟨log, hread⟩ := read_of_ok hparse
      rw [Eval.bind_of_ok hread]
      obtain ⟨hprints, hend⟩ := hstems forms hparse { m with log := log }
      refine ⟨hprints, ?_⟩
      intro value hvalue
      rw [hvalue] at hend
      exact ⟨forms, rfl, hend⟩

/-- Running the forms of a source text keeps to its domain. -/
theorem runForms_inDomain {source : String} {limit : Int} {forms : List Node}
    (h : parse source limit = .ok forms) :
    Eval.Stems (Node.subformsItems forms) (Value.InDomain (IsLiteralOf source limit))
      (fun _ => True) (runForms forms) :=
  runForms_stems (covers_of_parse h) Scope.global_holds (List.Subset.refl _)

/-- Evaluating the forms of a source text keeps to its domain; only without forms the value is
absent. -/
theorem evalForms_inDomain {source : String} {limit : Int} {forms : List Node}
    (h : parse source limit = .ok forms) :
    Eval.Stems (Node.subformsItems forms) (Value.InDomain (IsLiteralOf source limit))
      (fun value => if forms = [] then value = .nothing
        else value.InDomain (IsLiteralOf source limit))
      (evalForms .nothing forms) := by
  have hcovers := covers_of_parse h
  cases forms with
  | nil => exact .pure rfl
  | cons form forms =>
      obtain ⟨hform, hforms⟩ := List.append_subset.mp
        (List.Subset.refl (Node.subformsItems (form :: forms)))
      refine (evalTop_stems hcovers Scope.global_holds hform).bind fun value hvalue => ?_
      exact evalForms_stems hcovers Scope.global_holds hvalue hforms

/-- A call writes no backslash. -/
theorem Call.perform_prints (call : Call) (m : Machine) :
    m.Prints ('\\' ∉ ·) (call.perform m).2 := by
  have hprints {next : List Node → Eval Answer} {source : String}
      (hstems : ∀ forms, parse source m.limit = .ok forms →
        Eval.Stems (Node.subformsItems forms) (Value.InDomain (IsLiteralOf source m.limit))
          (fun _ => True) (next forms)) :
      m.Prints ('\\' ∉ ·) ((Interpreter.read source >>= next) m).2 :=
    (prints_of_stems hstems).1.mono fun _ => backslash_notMem_of_shows
  cases call with
  | read source => exact hprints fun _ _ => .pure trivial
  | run source =>
      have hrun : (Call.run source).perform = Interpreter.read source >>= fun forms =>
          runForms forms >>= fun _ => pure .done := bind_assoc _ _ _
      rw [hrun]
      exact hprints fun _ hparse => (runForms_inDomain hparse).bind fun _ _ => .pure trivial
  | eval source =>
      have heval : (Call.eval source).perform = Interpreter.read source >>= fun forms =>
          evalForms .nothing forms >>= fun value => pure (.value value) := bind_assoc _ _ _
      rw [heval]
      exact hprints fun _ hparse => (evalForms_inDomain hparse).bind fun _ _ => .pure trivial

/-- Calls one after the other write no backslash. -/
theorem session_prints (calls : List Call) (m : Machine) :
    m.Prints ('\\' ∉ ·) (session calls m) := by
  induction calls generalizing m with
  | nil => exact .of_output_eq rfl
  | cons call calls ih => exact (call.perform_prints m).trans (ih _)

end Interpreter

/-- Values stay in the domain. Evaluation of a form whose integers are words and whose strings are
allowed, in a scope of values in the domain, gives a value in the domain. For a source text the
texts allowed are those of its own string literals, which it spells and which have no backslash:
whatever the state of the machine, all scopes and values of all evaluations that its forms involve
are in the domain, and so is the value of the last form; the value is absent exactly if there is no
form. What is written shows values in the domain, each function writing lines of its own kind, and
no calls one after the other ever write a backslash. -/
theorem values_stay_in_domain :
    (∀ (allowed : String → Prop) (scope : Scope) (node : Node),
      (∀ n position, .integer n position ∈ node.subforms → Word.InRange n) →
      (∀ text position, .string text position ∈ node.subforms → allowed text) →
      scope.Holds (Value.InDomain allowed) →
      ∀ m value, (node.eval scope m).1 = .ok value → value.InDomain allowed) ∧
    (∀ (source : String) (m : Machine),
      (∀ forms, parse source m.limit = .ok forms → ∀ form ∈ forms, ∀ scope node,
        Involves .global form scope node →
        scope.Holds (Value.InDomain (IsLiteralOf source m.limit)) ∧
        ∀ machine value, (node.eval scope machine).1 = .ok value →
          value.InDomain (IsLiteralOf source m.limit)) ∧
      (∀ forms value, parse source m.limit = .ok forms → forms ≠ [] →
        (Interpreter.eval source m).1 = .ok value →
        value.InDomain (IsLiteralOf source m.limit)) ∧
      ((Interpreter.eval source m).1 = .ok .nothing ↔ parse source m.limit = .ok []) ∧
      (∀ text, IsLiteralOf source m.limit text →
        SpelledIn source.toList text.toList ∧ '\\' ∉ text.toList) ∧
      m.Prints (Shows (Value.InDomain (IsLiteralOf source m.limit)))
        (Interpreter.run source m).2 ∧
      m.Prints (Shows (Value.InDomain (IsLiteralOf source m.limit)))
        (Interpreter.eval source m).2) ∧
    (∀ (allowed : String → Prop) (f : Native) (position : Option Position)
      (arguments : List Value) (m : Machine),
      (∀ value ∈ arguments, value.InDomain allowed) →
      m.Prints (f.Writes allowed) (f.call position arguments m).2) ∧
    ∀ (calls : List Interpreter.Call) (input : String) (limit : Int),
      '\\' ∉ (Interpreter.session calls (.ofInput input limit)).output := by
  refine ⟨?_, ?_, ?_, ?_⟩
  · intro allowed scope node hintegers hstrings hscope m value hvalue
    exact node.value_of_eval (covers_of_leaves hintegers hstrings) hscope
      (List.Subset.refl _) hvalue
  · intro source m
    have hrun : m.Prints _ (Interpreter.run source m).2 ∧ _ :=
      Interpreter.prints_of_stems fun _ => Interpreter.runForms_inDomain
    have heval : m.Prints _ (Interpreter.eval source m).2 ∧ _ :=
      Interpreter.prints_of_stems fun _ => Interpreter.evalForms_inDomain
    refine ⟨?_, ?_, ?_, fun text => IsLiteralOf.spelled, hrun.1, heval.1⟩
    · intro forms hparse form hform scope node hinvolves
      have hcovers := covers_of_parse hparse
      obtain ⟨hsub, hscope⟩ := hinvolves.keeps hcovers (Node.subforms_subset_of_mem hform)
        Scope.global_holds
      refine ⟨hscope, ?_⟩
      intro machine value hvalue
      exact node.value_of_eval hcovers hscope hsub hvalue
    · intro forms value hparse hforms hvalue
      obtain ⟨read, hread, hend⟩ := heval.2 value hvalue
      cases hparse.symm.trans hread
      rwa [if_neg hforms] at hend
    · constructor
      · intro hnothing
        obtain ⟨forms, hparse, hend⟩ := heval.2 .nothing hnothing
        split at hend
        · next hforms => rw [hparse, hforms]
        · exact absurd hend id
      · intro hparse
        obtain ⟨log, hread⟩ := Interpreter.read_of_ok hparse
        show ((Interpreter.read source >>= Interpreter.evalForms .nothing) m).1 = _
        rw [Eval.bind_of_ok hread]
        rfl
  · intro allowed f position arguments m harguments
    exact f.call_prints position harguments m
  · intro calls input limit
    exact (Interpreter.session_prints calls _).backslash_notMem List.not_mem_nil

/-- The sum of the two lowest operands is a word, a text that a name was bound to is that of the
literal, and a text without a form has no value. -/
theorem values_stay_in_domain_at_bounds :
    (Node.eval .global (.list [.symbol (.ofText "+") none, .integer (-2147483648) none,
      .integer (-1) none] none) (.ofInput "" 1)).1 = .ok (.int 2147483647) ∧
    Value.InDomain (fun _ => False) (.int 2147483647) ∧
    (Interpreter.eval "(let (s \"a\\n\") s)" (.ofInput "" 2)).1 = .ok (.str "a\n") ∧
    IsLiteralOf "(let (s \"a\\n\") s)" 2 "a\n" ∧
    (Interpreter.eval " ) 7" (.ofInput "" 2)).1 = .ok .nothing ∧
    parse " ) 7" 2 = .ok [] := by
  obtain ⟨heval, hsource, -, -⟩ := values_stay_in_domain
  have hsum : (Node.eval .global (.list [.symbol (.ofText "+") none, .integer (-2147483648) none,
      .integer (-1) none] none) (.ofInput "" 1)).1 = .ok (.int 2147483647) := by
    decide +kernel
  have htext : (Interpreter.eval "(let (s \"a\\n\") s)" (.ofInput "" 2)).1 = .ok (.str "a\n") := by
    decide +kernel
  have hnothing : (Interpreter.eval " ) 7" (.ofInput "" 2)).1 = .ok .nothing := by decide +kernel
  obtain ⟨forms, hforms, hlength⟩ :
      ∃ forms ∈ (parse "(let (s \"a\\n\") s)" 2).toOption, forms.length = 1 := by
    decide +kernel
  refine ⟨hsum, ?_, htext, ?_, hnothing, (hsource " ) 7" (.ofInput "" 2)).2.2.1.mp hnothing⟩
  · refine heval _ _ _ ?_ ?_ Scope.global_holds _ _ hsum
    · intro n position hmem
      simp only [Node.subforms, Node.subformsItems, List.append_nil, List.singleton_append,
        List.mem_cons, List.not_mem_nil, or_false, reduceCtorEq, false_or,
        Node.integer.injEq] at hmem
      rcases hmem with ⟨rfl, -⟩ | ⟨rfl, -⟩ <;> decide
    · intro text position hmem
      simp [Node.subforms, Node.subformsItems] at hmem
  · have hne : forms ≠ [] := List.ne_nil_of_length_eq_add_one hlength
    exact (hsource _ (.ofInput "" 2)).2.1 forms _ (parse_of_mem_toOption hforms) hne htext

end Sexpr
