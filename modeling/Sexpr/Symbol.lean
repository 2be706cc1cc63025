/-!
# Symbols

Names do not distinguish the case of ASCII letters: a symbol is a name in which none of them is in
lower case. Letters of other scripts are kept as they are.
-/

namespace Sexpr

/-- The text with its ASCII letters in upper case, everything else as it is. -/
def upcase (text : String) : String := String.ofList (text.toList.map Char.toUpper)

/-- A character that is no ASCII letter in lower case is its own upper case. -/
theorem toUpper_eq_self {c : Char} (h : ¬('a'.val ≤ c.val ∧ c.val ≤ 'z'.val)) : c.toUpper = c :=
  dif_neg h

/-- The upper case of a character is no ASCII letter in lower case. -/
theorem not_lower_toUpper (c : Char) : ¬('a'.val ≤ c.toUpper.val ∧ c.toUpper.val ≤ 'z'.val) := by
  by_cases h : 'a'.val ≤ c.val ∧ c.val ≤ 'z'.val
  · have hval : c.toUpper.val = c.val + ('A'.val - 'a'.val) := by
      unfold Char.toUpper
      rw [dif_pos h]
    have ha : 'a'.val.toNat = 97 := rfl
    have hz : 'z'.val.toNat = 122 := rfl
    have hd : ('A'.val - 'a'.val).toNat = 2 ^ 32 - 32 := rfl
    rw [hval]
    simp only [UInt32.le_iff_toNat_le, UInt32.toNat_add, ha, hz, hd] at h ⊢
    omega
  · rwa [toUpper_eq_self h]

/-- Upper-casing a character twice is upper-casing it once. -/
theorem toUpper_toUpper (c : Char) : c.toUpper.toUpper = c.toUpper :=
  toUpper_eq_self (not_lower_toUpper c)

/-- Upper-casing a text twice is upper-casing it once. -/
@[simp]
theorem upcase_upcase (text : String) : upcase (upcase text) = upcase text := by
  simp only [upcase, String.toList_ofList, List.map_map]
  congr 1
  exact List.map_congr_left fun c _ => toUpper_toUpper c

/-- A name without ASCII letters in lower case. -/
structure Symbol where
  name : String
  upcase_name : upcase name = name
deriving DecidableEq, Repr

/-- The symbol that a text names. -/
def Symbol.ofText (text : String) : Symbol := ⟨upcase text, upcase_upcase text⟩

/-- Two symbols with one name are the same. -/
theorem Symbol.eq_of_name_eq {s t : Symbol} (h : s.name = t.name) : s = t := by
  cases s
  cases t
  simp_all

/-- Texts name the same symbol exactly when they differ in the case of ASCII letters at most. -/
theorem Symbol.ofText_eq_ofText {text other : String} :
    Symbol.ofText text = Symbol.ofText other ↔ upcase text = upcase other := by
  simp [Symbol.ofText]

end Sexpr
