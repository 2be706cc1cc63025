import Sexpr.Proofs.Journal

/-!
# Integers that are written and read back

The decimal text of an integer is a word of the input: it has no white space in it, and it stands
for the integer (`Reference.integer?_toString`). Lines of such texts are split into these texts
again, `Text.words_lines`, so that what one program writes another reads:
`reading_undoes_printing`. A number that is read is wrapped, digit by digit and once more for its
sign, which changes no integer that is a word.
-/

namespace Sexpr

/-! ## Decimal texts as words -/

namespace Reference

/-- A run of digits stands for its number. -/
theorem natural?_of_isDigits {text : List Char} (h : Word.isDigits text = true) :
    natural? text = some (Nat.ofDigitChars 10 text 0) :=
  if_pos h

/-- A run of digits without a sign stands for its number. -/
theorem integer?_of_isDigits {text : List Char} (h : Word.isDigits text = true) :
    integer? text = some (Nat.ofDigitChars 10 text 0 : Int) := by
  unfold integer?
  split
  · simp [Word.isDigits, Word.isDigit] at h
  · simp [Word.isDigits, Word.isDigit] at h
  · rw [natural?_of_isDigits h]
    rfl

/-- What is written for an integer stands for it. -/
theorem integer?_toString (n : Int) : integer? (toString n).toList = some n := by
  by_cases hneg : n < 0
  · rw [Word.toList_toString_of_neg hneg, integer?, natural?_of_isDigits (Word.isDigits_toDigits _),
      Nat.ofDigitChars_ten_toDigits]
    show some (-((-n).toNat : Int)) = some n
    congr 1
    omega
  · rw [Word.toList_toString_of_nonneg (Int.not_lt.mp hneg),
      integer?_of_isDigits (Word.isDigits_toDigits _), Nat.ofDigitChars_ten_toDigits]
    congr 1
    omega

end Reference

namespace Word

/-- A word of the input that is an integer is read as that integer, wrapped. -/
theorem ofSigned_of_integer? {word : List Char} {n : Int} (h : Reference.integer? word = some n) :
    isSigned word = true ∧ ofSigned word = wrap n := by
  have hvalue := Reference.map_wrap_integer? word
  rw [h, Option.map_some] at hvalue
  split at hvalue
  · next hsigned => exact ⟨hsigned, (Option.some.inj hvalue).symm⟩
  · cases hvalue

/-- A digit is no white space. -/
theorem isSpace_of_isDigit {c : Char} (h : isDigit c = true) : Text.isSpace c = false := by
  simp only [isDigit, Bool.and_eq_true, decide_eq_true_eq] at h
  have hlow : '0'.toNat ≤ c.toNat := UInt32.le_iff_toNat_le.mp h.1
  have hhigh : c.toNat ≤ '9'.toNat := UInt32.le_iff_toNat_le.mp h.2
  have hzero : '0'.toNat = 48 := rfl
  have hnine : '9'.toNat = 57 := rfl
  simp only [Text.isSpace, Bool.or_eq_false_iff, Bool.and_eq_false_iff, decide_eq_false_iff_not,
    beq_eq_false_iff_ne]
  omega

/-- What is written for an integer is one word. -/
theorem words_toString (n : Int) : Text.words (toString n).toList = [(toString n).toList] := by
  have hdigits (k : Nat) : ∀ c ∈ Nat.toDigits 10 k, Text.isSpace c = false := by
    intro c hc
    obtain ⟨-, hall⟩ := Bool.and_eq_true_iff.mp (isDigits_toDigits k)
    exact isSpace_of_isDigit (List.all_eq_true.mp hall c hc)
  by_cases hneg : n < 0
  · rw [toList_toString_of_neg hneg]
    refine Text.words_eq_singleton ?_ (List.cons_ne_nil _ _)
    intro c hc
    rcases List.mem_cons.mp hc with rfl | hc
    · rfl
    · exact hdigits _ c hc
  · rw [toList_toString_of_nonneg (Int.not_lt.mp hneg)]
    exact Text.words_eq_singleton (hdigits _) Nat.toDigits_ne_nil

end Word

/-- Integers that are written on lines of their own are the words of the text. -/
theorem Text.words_lines (ns : List Int) :
    words (ns.flatMap fun n => (toString n).toList ++ ['\n']) =
      ns.map fun n => (toString n).toList := by
  induction ns with
  | nil => exact words_nil
  | cons n ns ih =>
      rw [List.flatMap_cons, List.append_assoc, List.singleton_append,
        words_append_cons (rfl : isSpace '\n' = true), ih, Word.words_toString]
      rfl

/-! ## Calls one after the other -/

namespace Native

variable (position : Option Position)

/-- Integers that are printed are written on lines of their own. -/
theorem printInt_each (ns : List Int) (m : Machine) :
    (ns.mapM fun n => printInt.call position [.int n]) m =
      (.ok (ns.map fun _ => .int 0),
        { m with output := m.output ++ ns.flatMap fun n => (toString n).toList ++ ['\n'] }) := by
  induction ns generalizing m with
  | nil => simp
  | cons n ns ih =>
      have hfirst : printInt.call position [.int n] m =
          (.ok (.int 0), m.writeLine (toString n).toList) := rfl
      rw [List.mapM_cons, Eval.bind_of_ok hfirst, Eval.bind_of_ok (ih _)]
      simp [Machine.writeLine]

/-- Words that are integers are read one after the other. -/
theorem readInt_each {words rest : List (List Char)} {m : Machine}
    (hsigned : ∀ word ∈ words, Word.isSigned word = true) (hm : m.words = words ++ rest) :
    ∃ after, ((List.replicate words.length []).mapM (readInt.call position)) m =
        (.ok (words.map fun word => .int (Word.ofSigned word)), after) ∧ after.words = rest := by
  induction words generalizing m with
  | nil => exact ⟨m, rfl, hm⟩
  | cons word words ih =>
      have hfirst : readInt.call position [] m =
          (.ok (.int (Word.ofSigned word)), m.takeWord.2) := by
        refine (readWord_apply position m).trans ?_
        rw [hm]
        simp [reading, hsigned word List.mem_cons_self]
      have hleft : m.takeWord.2.words = words ++ rest := by
        rw [m.takeWord_eq.2.1, hm]
        rfl
      obtain ⟨after, hlater, hrest⟩ :=
        ih (fun other hother => hsigned other (List.mem_cons_of_mem _ hother)) hleft
      refine ⟨after, ?_, hrest⟩
      rw [List.length_cons, List.replicate_succ, List.mapM_cons, Eval.bind_of_ok hfirst,
        Eval.bind_of_ok hlater]
      rfl

end Native

/-- Reading undoes printing. Words that are printed one after the other on a fresh machine are
printed without a fault; and if all that was written is the input of another fresh machine, as many
calls that read give these words again in order, and the next call finds that the input has
ended. -/
theorem reading_undoes_printing (ns : List Int) (h : ∀ n ∈ ns, Word.InRange n) (input : String)
    (limit newLimit : Int) (position : Option Position) :
    let printed := (ns.mapM fun n => Native.printInt.call position [.int n])
      (.ofInput input limit)
    let read := ((List.replicate ns.length []).mapM (Native.readInt.call position))
      (.ofInput (String.ofList printed.2.output) newLimit)
    printed.1 = .ok (ns.map fun _ => .int 0) ∧ read.1 = .ok (ns.map .int) ∧
      (Native.readInt.call position [] read.2).1 = .error (.failed ⟨.inputEnded, position⟩) := by
  intro printed read
  have hprinted : printed = _ := Native.printInt_each position ns (.ofInput input limit)
  have hwords : (Machine.ofInput (String.ofList printed.2.output) newLimit).words =
      (ns.map fun n => (toString n).toList) ++ [] := by
    rw [hprinted, List.append_nil, ← Text.words_lines]
    show Text.words (String.ofList ([] ++ _)).toList = _
    rw [String.toList_ofList, List.nil_append]
  have hsigned : ∀ word ∈ ns.map fun n => (toString n).toList, Word.isSigned word = true := by
    intro word hword
    obtain ⟨n, -, rfl⟩ := List.mem_map.mp hword
    exact (Word.ofSigned_of_integer? (Reference.integer?_toString n)).1
  have hvalues : ((ns.map fun n => (toString n).toList).map fun word =>
      Value.int (Word.ofSigned word)) = ns.map .int := by
    rw [List.map_map]
    refine List.map_congr_left fun n hn => congrArg Value.int ?_
    have hvalue := (Word.ofSigned_of_integer? (Reference.integer?_toString n)).2
    exact hvalue.trans (Word.wrap_eq_self (h n hn))
  obtain ⟨after, hread, hleft⟩ := Native.readInt_each position hsigned hwords
  rw [List.length_map, hvalues] at hread
  have hread : read = (.ok (ns.map .int), after) := hread
  refine ⟨by rw [hprinted], by rw [hread], ?_⟩
  rw [hread]
  refine (congrArg Prod.fst (Native.readWord_apply position after)).trans ?_
  rw [hleft]
  rfl

/-- The least word, whose opposite is no word, is read back like any other. -/
theorem extreme_words_are_read_back :
    let ns : List Int := [-2147483648, 2147483647, -7]
    let printed := (ns.mapM fun n => Native.printInt.call none [.int n]) (.ofInput "" 1)
    let read := ((List.replicate 3 []).mapM (Native.readInt.call none))
      (.ofInput (String.ofList printed.2.output) 1)
    read.1 = .ok [.int (-2147483648), .int 2147483647, .int (-7)] ∧
      (Native.readInt.call none [] read.2).1 = .error (.failed ⟨.inputEnded, none⟩) :=
  (reading_undoes_printing [-2147483648, 2147483647, -7] (by decide) "" 1 1 none).2

end Sexpr
