import Sexpr.Word

/-!
# Decimal texts

A run of digits is wrapped after each of its digits; `Word.ofDigits_eq_wrap` says that this comes to
wrapping the number it stands for once. Integers are written in decimal, and what is written for
an integer that is not negative is a run of digits that stands for it.
-/

namespace Sexpr.Word

/-- Appending a digit to a wrapped number is wrapping the number with the digit appended. -/
theorem pushDigit_wrap {c : Char} (hc : isDigit c = true) (n : Nat) :
    pushDigit (wrap n) c = wrap (10 * n + (c.toNat - '0'.toNat) : Nat) := by
  have hlow : '0'.toNat ≤ c.toNat := by
    simp only [isDigit, Bool.and_eq_true, decide_eq_true_eq] at hc
    exact UInt32.le_iff_toNat_le.mp hc.1
  unfold pushDigit wrap
  rw [Int.add_comm, ← Int.add_bmod_bmod, Int.bmod_mul_bmod, Int.add_bmod_bmod]
  congr 1
  omega

/-- Digits appended one by one to a wrapped number make the wrapped number of all digits. -/
theorem foldl_pushDigit {text : List Char} (h : text.all isDigit = true) (n : Nat) :
    text.foldl pushDigit (wrap n) = wrap (Nat.ofDigitChars 10 text n) := by
  induction text generalizing n with
  | nil => rw [List.foldl_nil, Nat.ofDigitChars_nil]
  | cons c text ih =>
      obtain ⟨hc, htext⟩ : isDigit c = true ∧ text.all isDigit = true := by simpa using h
      rw [List.foldl_cons, pushDigit_wrap hc, Nat.ofDigitChars_cons]
      exact ih htext _

/-- A run of digits stands for its number, wrapped. -/
theorem ofDigits_eq_wrap {text : List Char} (h : text.all isDigit = true) :
    ofDigits text = wrap (Nat.ofDigitChars 10 text 0) :=
  foldl_pushDigit h 0

/-- A natural number is written with digits only. -/
theorem isDigits_toDigits (n : Nat) : isDigits (Nat.toDigits 10 n) = true := by
  simp only [isDigits, Bool.and_eq_true, List.all_eq_true]
  refine ⟨by simp, ?_⟩
  intro c hc
  exact Nat.isDigit_of_mem_toDigits (by decide) (by decide) hc

/-- An integer that is not negative is written with its digits. -/
theorem toList_toString_of_nonneg {n : Int} (h : 0 ≤ n) :
    (toString n).toList = Nat.toDigits 10 n.toNat := by
  rw [Int.toString_eq_repr, Int.repr_eq_if, if_pos h, Nat.toList_repr]

/-- A negative integer is written with a sign before its digits. -/
theorem toList_toString_of_neg {n : Int} (h : n < 0) :
    (toString n).toList = '-' :: Nat.toDigits 10 (-n).toNat := by
  rw [Int.toString_eq_repr, Int.repr_eq_if, if_neg (Int.not_le.mpr h), String.toList_append,
    Nat.toList_repr]
  rfl

end Sexpr.Word
