import Mathlib.Control.Monad.Basic
import Sexpr.Proofs.Effects

/-!
# Room for evaluation

A list is evaluated if the depth is below the limit, so what matters of the two is how far apart
they are. `Eval.Steady` says what more room can do to a computation: nothing, unless the computation
was cut off for want of room, and then the longer run goes on from the place where the shorter one
ended. All that evaluation is made of is steady, and it leaves the depth as it found it however it
ends. `limit_only_cuts_evaluation_off` says what this comes to for the evaluation of a form.
-/

namespace Sexpr

namespace Machine

/-- The machine with another depth and another limit. -/
def within (m : Machine) (depth limit : Int) : Machine := { m with depth := depth, limit := limit }

end Machine

namespace Eval

variable {α β : Type}

/-- The result is that a list was refused because it is within too many others. -/
def IsCutOff (result : Except Stop α) : Prop :=
  ∃ limit position, result = .error (.failed ⟨.tooDeep limit, position⟩)

/-- A value is no refusal. -/
theorem not_isCutOff_ok (value : α) : ¬IsCutOff (.ok value) := nofun

/-- A reason to stop is the same for computations of any kind. -/
theorem isCutOff_error_iff {stop : Stop} :
    IsCutOff (.error stop : Except Stop α) ↔ IsCutOff (.error stop : Except Stop β) := by
  simp [IsCutOff]

/-- `Widens depth limit narrow wide` says how a computation ended with less room, and how it ended
with more, within `depth` lists of `limit`: in the same way, or the first was cut off and the second
went on from there. -/
inductive Widens (depth limit : Int) :
    Except Stop α × Machine → Except Stop α × Machine → Prop where
  | same {result : Except Stop α} {after : Machine} :
      ¬IsCutOff result → Widens depth limit (result, after) (result, after.within depth limit)
  | later {result other : Except Stop α} {after wide : Machine} {text : List Char} :
      IsCutOff result → (after.within depth limit).Grows text [] wide →
      Widens depth limit (result, after) (other, wide)

/-- Computations that end within a list end in the same way after they have left it. -/
theorem Widens.leave {depth limit : Int} {narrow wide : Except Stop α × Machine}
    (h : Widens (depth + 1) limit narrow wide) (hdepth : wide.2.depth = depth + 1) :
    Widens depth limit (narrow.1, { narrow.2 with depth := narrow.2.depth - 1 })
      (wide.1, { wide.2 with depth := wide.2.depth - 1 }) := by
  rw [show wide.2.depth - 1 = depth by omega]
  cases h with
  | same hresult => exact .same hresult
  | later hcut hgrows =>
      exact .later hcut ⟨hgrows.output_eq, hgrows.log_eq, hgrows.words_suffix, hgrows.limit_eq⟩

/-- The computation restores the depth, it only writes and takes words, and with more room it does
the same or goes on from where it was cut off. -/
structure Steady (x : Eval α) : Prop where
  depth_eq (m : Machine) : (x m).2.depth = m.depth
  grows (m : Machine) : ∃ text, m.Grows text [] (x m).2
  widens (m : Machine) (depth limit : Int) : m.limit - m.depth ≤ limit - depth →
    Widens depth limit (x m) (x (m.within depth limit))

/-- A computation that leaves the machine as it is and is never cut off is steady. -/
theorem Steady.of_const {x : Eval α} {result : Except Stop α} (hresult : ¬IsCutOff result)
    (h : ∀ m, x m = (result, m)) : Steady x where
  depth_eq m := by rw [h m]
  grows m := ⟨[], by rw [h m]; exact .refl m⟩
  widens m depth limit _ := by
    rw [h m, h (m.within depth limit)]
    exact .same hresult

/-- Writing a line is steady. -/
theorem steady_writeLine (line : List Char) : Steady (writeLine line) where
  depth_eq _ := rfl
  grows m := ⟨line ++ ['\n'], m.grows_writeLine line⟩
  widens _ _ _ _ := .same (not_isCutOff_ok ())

/-- Taking a word does not look at the depth and the limit. -/
theorem takeWord_within (m : Machine) (depth limit : Int) :
    takeWord (m.within depth limit) = ((takeWord m).1, (takeWord m).2.within depth limit) := by
  unfold takeWord Machine.takeWord Machine.within
  dsimp only
  rcases m.pending with _ | ⟨word, pending⟩
  · rcases Machine.fetch m.unread with ⟨_ | ⟨word, pending⟩, unread⟩ <;> rfl
  · rfl

/-- Taking a word is steady. -/
theorem steady_takeWord : Steady takeWord where
  depth_eq m := by
    obtain ⟨-, -, hframe⟩ := m.takeWord_eq
    show m.takeWord.2.depth = m.depth
    rw [hframe]
  grows m := ⟨[], m.grows_takeWord⟩
  widens m depth limit _ := by
    rw [takeWord_within]
    exact .same (not_isCutOff_ok _)

/-- Steady computations in a row are steady. -/
theorem Steady.bind {first : Eval α} {next : α → Eval β} (hfirst : Steady first)
    (hnext : ∀ value, Steady (next value)) : Steady (first >>= next) where
  depth_eq m := by
    have hdepth := hfirst.depth_eq m
    rcases hx : first m with ⟨stop | value, after⟩ <;> rw [hx] at hdepth
    · rw [bind_of_error hx]
      exact hdepth
    · rw [bind_of_ok hx, (hnext value).depth_eq]
      exact hdepth
  grows m := by
    obtain ⟨text, hgrows⟩ := hfirst.grows m
    rcases hx : first m with ⟨stop | value, after⟩ <;> rw [hx] at hgrows
    · rw [bind_of_error hx]
      exact ⟨text, hgrows⟩
    · obtain ⟨more, hmore⟩ := (hnext value).grows after
      rw [bind_of_ok hx]
      exact ⟨text ++ more, hgrows.trans hmore⟩
  widens m depth limit hroom := by
    have hdepth := hfirst.depth_eq m
    obtain ⟨text, hgrows⟩ := hfirst.grows m
    have hwidens := hfirst.widens m depth limit hroom
    rcases hx : first m with ⟨result, after⟩
    rcases hy : first (m.within depth limit) with ⟨other, wide⟩
    rw [hx] at hdepth hgrows hwidens
    rw [hy] at hwidens
    cases hwidens with
    | same hresult =>
        cases result with
        | error stop =>
            rw [bind_of_error hx, bind_of_error hy]
            exact .same fun hcut => hresult (isCutOff_error_iff.mp hcut)
        | ok value =>
            -- The room is the same after the first computation as it was before.
            rw [bind_of_ok hx, bind_of_ok hy]
            refine (hnext value).widens after depth limit ?_
            rwa [hdepth, hgrows.limit_eq]
    | later hcut hlater =>
        obtain ⟨bound, position, rfl⟩ := hcut
        rw [bind_of_error hx]
        cases other with
        | error stop =>
            rw [bind_of_error hy]
            exact .later ⟨bound, position, rfl⟩ hlater
        | ok value =>
            obtain ⟨more, hmore⟩ := (hnext value).grows wide
            rw [bind_of_ok hy]
            exact .later ⟨bound, position, rfl⟩ (hlater.trans hmore)

/-- Within one more list a steady computation is steady. -/
theorem Steady.nested {inner : Eval α} (hinner : Steady inner) (position : Option Position) :
    Steady (nested position inner) := by
  have hgrows (m : Machine) : ∃ text, m.Grows text [] (Eval.nested position inner m).2 := by
    by_cases hroom : m.depth < m.limit
    · obtain ⟨text, hinside⟩ := hinner.grows { m with depth := m.depth + 1 }
      rw [nested_of_lt hroom]
      exact ⟨text, hinside.of_depth _⟩
    · rw [nested_of_le (Int.not_lt.mp hroom)]
      exact ⟨[], .refl m⟩
  refine ⟨?_, hgrows, ?_⟩
  · intro m
    by_cases hroom : m.depth < m.limit
    · have hdepth := hinner.depth_eq { m with depth := m.depth + 1 }
      rw [nested_of_lt hroom]
      dsimp only at hdepth ⊢
      omega
    · rw [nested_of_le (Int.not_lt.mp hroom)]
  · intro m depth limit hmore
    by_cases hroom : m.depth < m.limit
    · have hwider : (m.within depth limit).depth < (m.within depth limit).limit := by
        show depth < limit
        omega
      have hwidens := hinner.widens { m with depth := m.depth + 1 } (depth + 1) limit
        (by dsimp only; omega)
      rw [nested_of_lt hroom, nested_of_lt hwider]
      exact hwidens.leave (hinner.depth_eq (m.within (depth + 1) limit))
    · rw [nested_of_le (Int.not_lt.mp hroom)]
      obtain ⟨text, hlater⟩ := hgrows (m.within depth limit)
      exact .later ⟨m.limit, position, rfl⟩ hlater

/-- All that evaluation is made of is steady. -/
theorem closed_steady : Closed fun _ _ x => Steady x where
  pure _ value := .of_const (not_isCutOff_ok value) fun _ => rfl
  bind hfirst hnext := hfirst.bind hnext
  fail _ _ hfault := by
    refine .of_const ?_ fun _ => rfl
    rintro ⟨limit, position, ⟨⟩⟩
    exact hfault limit rfl
  exit _ := .of_const (by rintro ⟨_, _, ⟨⟩⟩) fun _ => rfl
  writeLine _ line := steady_writeLine line
  takeWord _ := steady_takeWord
  nested position hinner := hinner.nested position

end Eval

/-- Evaluation of a form is steady. -/
theorem Node.eval_steady (scope : Scope) (node : Node) : Eval.Steady (node.eval scope) :=
  node.eval_closed Eval.closed_steady scope (Nat.le_refl _)

/-- The limit only ever cuts evaluation off. Evaluation leaves the depth as it was, however it ends
and whatever the depth was, also above the limit. With at least as much room between another depth
and another limit, evaluation that was not cut off ends in the same way and leaves the same machine,
apart from the depth and the limit given; and evaluation that was cut off has written a beginning of
what it writes with more room, and taken the first of the words that it takes then. -/
theorem limit_only_cuts_evaluation_off (scope : Scope) (node : Node) (m : Machine) :
    (node.eval scope m).2.depth = m.depth ∧
    ∀ depth limit : Int, m.limit - m.depth ≤ limit - depth →
      (¬Eval.IsCutOff (node.eval scope m).1 →
        node.eval scope (m.within depth limit) =
          ((node.eval scope m).1, (node.eval scope m).2.within depth limit)) ∧
      (Eval.IsCutOff (node.eval scope m).1 →
        ∃ written taken written' taken',
          (node.eval scope m).2.output = m.output ++ written ∧
          m.words = taken ++ (node.eval scope m).2.words ∧
          (node.eval scope (m.within depth limit)).2.output = m.output ++ written' ∧
          m.words = taken' ++ (node.eval scope (m.within depth limit)).2.words ∧
          written <+: written' ∧ taken <+: taken') := by
  have hsteady := node.eval_steady scope
  refine ⟨hsteady.depth_eq m, ?_⟩
  intro depth limit hroom
  obtain ⟨written, hgrows⟩ := hsteady.grows m
  have hwidens := hsteady.widens m depth limit hroom
  rcases hnarrow : node.eval scope m with ⟨result, after⟩
  rcases hwide : node.eval scope (m.within depth limit) with ⟨other, wide⟩
  rw [hnarrow] at hgrows hwidens
  rw [hwide] at hwidens
  cases hwidens with
  | same hresult => exact ⟨fun _ => rfl, fun hcut => absurd hcut hresult⟩
  | @later _ _ _ _ more hcut hlater =>
      refine ⟨fun hresult => absurd hcut hresult, fun _ => ?_⟩
      obtain ⟨taken, htaken⟩ := hgrows.words_suffix
      obtain ⟨later, hlaterWords⟩ := hlater.words_suffix
      have houtput : wide.output = after.output ++ more := hlater.output_eq
      have hwords : later ++ wide.words = after.words := hlaterWords
      refine ⟨written, taken, written ++ more, taken ++ later, hgrows.output_eq, htaken.symm, ?_,
        ?_, List.prefix_append _ _, List.prefix_append _ _⟩
      · rw [houtput, hgrows.output_eq, List.append_assoc]
      · rw [List.append_assoc, hwords, htaken]

/-- A binding form that reads and writes before it comes to a list in a list is cut off there by a
limit of two, after it has written a line. With a limit of three it has a value, and it comes to the
same below zero. -/
theorem limit_cuts_off_after_first_line :
    let operator name := Node.symbol (.ofText name) none
    let sum operand := Node.list [operator "+", operator "A", operand] none
    let form : Node := .list [operator "LET",
      .list [operator "A", .list [operator "READ-INT"] none, operator "B",
        .list [operator "PRINT-INT", .integer 5 none] none] none,
      sum (sum (operator "A"))] none
    let m := Machine.ofInput "7 8" 2
    Eval.IsCutOff (form.eval .global m).1 ∧
      ['5', '\n'] <+: (form.eval .global (m.within 0 3)).2.output ∧
      (form.eval .global (m.within 0 3)).1 = .ok (.int 21) ∧
      form.eval .global ((m.within 0 3).within (-5) (-2)) =
        (.ok (.int 21), (form.eval .global (m.within 0 3)).2.within (-5) (-2)) := by
  intro operator sum form m
  have hcut : (form.eval .global m).1 = .error (.failed ⟨.tooDeep 2, none⟩) := by decide +kernel
  have hline : (form.eval .global m).2.output = ['5', '\n'] := by decide +kernel
  have hvalue : (form.eval .global (m.within 0 3)).1 = .ok (.int 21) := by decide +kernel
  obtain ⟨-, hnarrow⟩ := limit_only_cuts_evaluation_off .global form m
  obtain ⟨-, hwide⟩ := limit_only_cuts_evaluation_off .global form (m.within 0 3)
  refine ⟨⟨2, none, hcut⟩, ?_, hvalue, ?_⟩
  · obtain ⟨written, _, written', _, hwritten, -, hwritten', -, hprefix, -⟩ :=
      (hnarrow 0 3 (by decide)).2 ⟨2, none, hcut⟩
    rw [hwritten', ← hline, hwritten]
    exact hprefix
  · have hsame := (hwide (-5) (-2) (by decide)).1 (by rw [hvalue]; exact Eval.not_isCutOff_ok _)
    rw [hsame, hvalue]

end Sexpr
