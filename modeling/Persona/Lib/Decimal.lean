import Persona.Lib.PyText
import Mathlib.Data.Nat.Digits.Defs

/-!
# Numbers as decimal texts

What `str(n)` makes of a natural number, `int` reads.
-/

namespace Persona.Lib.PyText

/-- The decimal digits of ASCII have their values. -/
def Digits (decimal : Char → Option ℕ) : Prop := ∀ c : Char, c.isDigit = true → decimal c = some (c.toNat - '0'.toNat)

theorem digits_asciiDecimal : Digits asciiDecimal := fun _ h => if_pos h

theorem not_isSpace_of_isDigit {c : Char} (h : c.isDigit = true) : isSpace c = false := by
  rw [Char.isDigit, Bool.and_eq_true, decide_eq_true_eq, decide_eq_true_eq] at h
  have hlow : 48 ≤ c.toNat := h.1
  have hhigh : c.toNat ≤ 57 := h.2
  simp only [isSpace, Bool.or_eq_false_iff, Bool.and_eq_false_iff, decide_eq_false_iff_not, beq_eq_false_iff_ne]
  omega

theorem toList_toString (n : ℕ) : (toString n).toList = Nat.toDigits 10 n := Nat.toList_repr

theorem isDigit_of_mem_toString {n : ℕ} {c : Char} (h : c ∈ (toString n).toList) : c.isDigit = true := by
  rw [toList_toString] at h
  exact Nat.isDigit_of_mem_toDigits (by omega) (by omega) h

theorem toString_ne_empty (n : ℕ) : toString n ≠ "" := by
  intro h
  have hnil : Nat.toDigits 10 n = [] := by rw [← toList_toString, h, String.toList_empty]
  exact Nat.toDigits_ne_nil hnil

theorem strip_toString (n : ℕ) : strip (toString n) = toString n := by
  have hspace : ∀ c ∈ (toString n).toList, isSpace c = false := fun c hc => not_isSpace_of_isDigit (isDigit_of_mem_toString hc)
  have hself := strip_eq_self (fun c hc => hspace c (List.mem_of_mem_head? hc)) (fun c hc => hspace c (List.mem_of_mem_getLast? hc))
  rw [strip, hself, String.ofList_toList]

/-- Numbers with one text are one. -/
theorem toString_injective : Function.Injective (toString : ℕ → String) := by
  intro m n h
  have hdigits : Nat.toDigits 10 m = Nat.toDigits 10 n := by rw [← toList_toString, ← toList_toString, h]
  have hvalue := congrArg (Nat.ofDigitChars 10 · 0) hdigits
  rwa [Nat.ofDigitChars_ten_toDigits, Nat.ofDigitChars_ten_toDigits] at hvalue

variable {decimal : Char → Option ℕ}

theorem mapM_of_isDigit (hdecimal : Digits decimal) {cs : List Char} (hcs : ∀ c ∈ cs, c.isDigit = true) :
    cs.mapM decimal = some (cs.map fun c => c.toNat - '0'.toNat) := by
  induction cs with
  | nil => rfl
  | cons c cs ih =>
    rw [List.mapM_cons, hdecimal c (hcs c List.mem_cons_self), ih fun d hd => hcs d (List.mem_cons_of_mem _ hd)]
    rfl

/-- The digits of a number stand for it. -/
theorem ofDigits_toDigits (hdecimal : Digits decimal) (n : ℕ) : ofDigits decimal (Nat.toDigits 10 n) = some n := by
  have hdigits : ∀ c ∈ Nat.toDigits 10 n, c.isDigit = true := fun c hc => Nat.isDigit_of_mem_toDigits (by omega) (by omega) hc
  rw [ofDigits, mapM_of_isDigit hdecimal hdigits, Option.map_some, List.foldl_map, ← Nat.ofDigitChars_eq_foldl,
    Nat.ofDigitChars_ten_toDigits]

/-- `int` reads what `str` makes of a number. -/
theorem int_toString (hdecimal : Digits decimal) (n : ℕ) : int decimal (toString n) = some (n : ℤ) := by
  have hdigits : ∀ c ∈ (toString n).toList, c.isDigit = true := fun c hc => isDigit_of_mem_toString hc
  have hvalue := ofDigits_toDigits hdecimal n
  rw [← toList_toString] at hvalue
  simp only [int, strip_toString]
  obtain ⟨c, cs, hcs⟩ : ∃ c cs, (toString n).toList = c :: cs :=
    List.exists_cons_of_ne_nil (by rw [toList_toString]; exact Nat.toDigits_ne_nil)
  rw [hcs] at hdigits hvalue ⊢
  have hunder : '_' ∉ cs := fun h => absurd (hdigits _ (List.mem_cons_of_mem _ h)) (by decide)
  split
  · rename_i heq
    cases heq
  · rename_i heq
    obtain ⟨rfl, -⟩ := List.cons.inj heq
    exact absurd (hdigits _ List.mem_cons_self) (by decide)
  · rename_i heq
    obtain ⟨rfl, -⟩ := List.cons.inj heq
    exact absurd (hdigits _ List.mem_cons_self) (by decide)
  · rename_i heq
    obtain ⟨rfl, rfl⟩ := List.cons.inj heq
    rw [← ofDigits_cons c hunder, hvalue]
    rfl

end Persona.Lib.PyText
