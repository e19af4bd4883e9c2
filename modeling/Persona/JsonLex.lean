import Persona.JsonText
import Mathlib.Data.List.TakeWhile

/-!
# What a JSON text looks like

A text that `value` reads from the front of a list stands there by itself: what follows it may
be anything else that does not go on with a number (`IsText`). It consists of string literals
and of characters outside them, which are few (`Lexed`).

Read from within a string literal, such a text is inside out: what is read as a string was
outside the literals (`Flipped`), so the strings of a value that is read there are made of the
few characters alone (`flipped`).
-/

namespace Persona.JsonText

open Persona.Lib.PyText (PyChar PyStr isSpace)

variable {F : Floats}

/-! ### Characters and literals -/

/-- A character that may stand outside the string literals of a text. -/
def outside (c : Char) : Bool :=
  isBlank c || c.isDigit || c ∈ ['\x7b', '\x7d', '[', ']', ',', ':', '-', '+', '.', 'e', 'E', 't', 'r', 'u', 'f', 'a', 'l',
    's', 'n', 'N', 'I', 'i', 'y']

theorem outside_ne {c : Char} (h : outside c = true) : c ≠ '"' ∧ c ≠ '\\' ∧ c ≠ 'm' ∧ c ≠ 'c' := by
  refine ⟨?_, ?_, ?_, ?_⟩ <;> rintro rfl <;> revert h <;> decide

theorem outside_of_isBlank {c : Char} (h : isBlank c = true) : outside c = true := by simp [outside, h]

theorem outside_of_isDigit {c : Char} (h : c.isDigit = true) : outside c = true := by simp [outside, h]

/-- What stands between the quotes of a literal. -/
inductive Body : List Char → Prop
  | nil : Body []
  | plain {c : Char} {cs : List Char} (hquote : c ≠ '"') (hescape : c ≠ '\\') (h : Body cs) : Body (c :: cs)
  | escape {c : Char} {cs : List Char} (h : Body cs) : Body ('\\' :: c :: cs)

/-- String literals and characters outside them. -/
inductive Lexed : List Char → Prop
  | nil : Lexed []
  | char {c : Char} {cs : List Char} (hc : outside c = true) (h : Lexed cs) : Lexed (c :: cs)
  | literal {b cs : List Char} (hb : Body b) (h : Lexed cs) : Lexed ('"' :: (b ++ '"' :: cs))

theorem Lexed.append {cs ds : List Char} (h : Lexed cs) (hds : Lexed ds) : Lexed (cs ++ ds) := by
  induction h with
  | nil => exact hds
  | char hc _ ih => exact .char hc ih
  | literal hb _ ih =>
    rw [List.cons_append, List.append_assoc, List.cons_append]
    exact .literal hb ih

theorem lexed_of_outside {cs : List Char} (h : ∀ c ∈ cs, outside c = true) : Lexed cs := by
  induction cs with
  | nil => exact .nil
  | cons c cs ih => exact .char (h c List.mem_cons_self) (ih fun d hd => h d (List.mem_cons_of_mem c hd))

/-- What is skipped before a text. -/
theorem skipBlanks_spec (cs : List Char) :
    ∃ ws, cs = ws ++ skipBlanks cs ∧ (∀ c ∈ ws, isBlank c = true) ∧ skipBlanks (skipBlanks cs) = skipBlanks cs := by
  refine ⟨cs.takeWhile isBlank, List.takeWhile_append_dropWhile.symm, fun c hc => List.mem_takeWhile_imp hc, ?_⟩
  have hhead := List.head?_dropWhile_not isBlank cs
  unfold skipBlanks
  cases hcs : cs.dropWhile isBlank with
  | nil => rfl
  | cons c ds =>
    rw [hcs] at hhead
    exact List.dropWhile_cons_of_neg (by simpa using hhead)

theorem skipBlanks_append {ws : List Char} (h : ∀ c ∈ ws, isBlank c = true) (cs : List Char) :
    skipBlanks (ws ++ cs) = skipBlanks cs := List.dropWhile_append_of_pos h

/-! ### Strings -/

theorem hexValue_ne {c : Char} {n : ℕ} (h : hexValue c = some n) : c ≠ '"' ∧ c ≠ '\\' := by
  constructor <;> rintro rfl <;> revert h <;> simp [hexValue]

theorem exists_hexValue {x y z w : Char} {u : PyChar} (h : hexUnit x y z w = some u) :
    ∀ c ∈ [x, y, z, w], ∃ n, hexValue c = some n := by
  unfold hexUnit at h
  split at h
  · rename_i hx hy hz hw
    simp [hx, hy, hz, hw]
  · cases h

/-- How `scanString` takes a string from the front of a list. -/
inductive ReadsString : List Char → PyStr → List Char → Prop
  | done {rest : List Char} : ReadsString ('"' :: rest) [] rest
  | unit {x y z w : Char} {u : PyChar} {cs rest : List Char} {s : PyStr} (hunit : hexUnit x y z w = some u)
      (h : ReadsString cs s rest) : ReadsString ('\\' :: 'u' :: x :: y :: z :: w :: cs) (u :: s) rest
  | simple {c u : Char} {cs rest : List Char} {s : PyStr} (hescape : simpleEscape c = some u) (h : ReadsString cs s rest) :
      ReadsString ('\\' :: c :: cs) (.scalar u :: s) rest
  | plain {c : Char} {cs rest : List Char} {s : PyStr} (hquote : c ≠ '"') (hescape : c ≠ '\\') (hcontrol : ¬ c.toNat < 0x20)
      (h : ReadsString cs s rest) : ReadsString (c :: cs) (.scalar c :: s) rest

theorem readsString {cs : List Char} {s : PyStr} {rest : List Char} (h : scanString cs = some (s, rest)) : ReadsString cs s rest := by
  induction cs using scanString.induct generalizing s with
  | case1 => cases h
  | case2 cs =>
    cases h
    exact .done
  | case3 x y z w cs u s' rest' hscan hunit ih =>
    rw [scanString, hunit, hscan] at h
    obtain ⟨rfl, rfl⟩ : u :: s' = s ∧ rest' = rest := by simpa using h
    exact .unit hunit (ih hscan)
  | case4 x y z w cs hnone =>
    rw [scanString] at h
    split at h
    · rename_i hunit hscan
      exact absurd hscan (hnone _ _ _ hunit)
    · cases h
  | case5 c cs hu u s' rest' hscan hescape ih =>
    rw [scanString_simple hescape, hscan] at h
    obtain ⟨rfl, rfl⟩ : .scalar u :: s' = s ∧ rest' = rest := by simpa using h
    exact .simple hescape (ih hscan)
  | case6 c cs hu hnone =>
    rw [scanString.eq_4 c cs hu] at h
    split at h
    · rename_i hescape hscan
      exact absurd hscan (hnone _ _ _ hescape)
    · cases h
  | case7 c cs hquote h3 h4 hc =>
    rw [scanString.eq_5 c cs hquote h3 h4, if_pos hc] at h
    cases h
  | case8 c cs hquote h3 h4 hc ih =>
    rw [not_or] at hc
    rw [scanString_plain hquote hc.1 hc.2] at h
    obtain ⟨⟨s', rest'⟩, hscan, heq⟩ := Option.map_eq_some_iff.mp h
    obtain ⟨rfl, rfl⟩ : .scalar c :: s' = s ∧ rest' = rest := by simpa using heq
    exact .plain hquote hc.1 hc.2 (ih hscan)

/-- A string is read from a literal. -/
theorem scanString_body {cs : List Char} {s : PyStr} {rest : List Char} (h : scanString cs = some (s, rest)) :
    ∃ b, cs = b ++ '"' :: rest ∧ Body b ∧ ∀ rest', scanString (b ++ '"' :: rest') = some (s, rest') := by
  have hreads := readsString h
  clear h
  induction hreads with
  | done => exact ⟨[], rfl, .nil, fun rest' => rfl⟩
  | @unit x y z w u cs rest s hunit _ ih =>
    obtain ⟨b, rfl, hb, hstable⟩ := ih
    have hdigits : ∀ c ∈ [x, y, z, w], c ≠ '"' ∧ c ≠ '\\' := by
      intro c hc
      obtain ⟨n, hn⟩ := exists_hexValue hunit c hc
      exact hexValue_ne hn
    simp only [List.forall_mem_cons] at hdigits
    obtain ⟨hx, hy, hz, hw, -⟩ := hdigits
    refine ⟨'\\' :: 'u' :: x :: y :: z :: w :: b, rfl,
      .escape (.plain hx.1 hx.2 (.plain hy.1 hy.2 (.plain hz.1 hz.2 (.plain hw.1 hw.2 hb)))), fun rest' => ?_⟩
    simp only [List.cons_append]
    rw [scanString, hunit, hstable]
  | @simple c u cs rest s hescape _ ih =>
    obtain ⟨b, rfl, hb, hstable⟩ := ih
    refine ⟨'\\' :: c :: b, rfl, .escape hb, fun rest' => ?_⟩
    rw [List.cons_append, List.cons_append, scanString_simple hescape, hstable]
    rfl
  | @plain c cs rest s hquote hescape hcontrol _ ih =>
    obtain ⟨b, rfl, hb, hstable⟩ := ih
    refine ⟨c :: b, rfl, .plain hquote hescape hb, fun rest' => ?_⟩
    rw [List.cons_append, scanString_plain hquote hescape hcontrol, hstable]
    rfl

/-! ### Numbers and constants -/

/-- No digit is in front. -/
def NoDigit (rest : List Char) : Prop := ∀ c ∈ rest.head?, ¬ c.isDigit

theorem noDigit_cons {c : Char} {rest : List Char} (h : c.isDigit = false) : NoDigit (c :: rest) := by
  intro d hd
  obtain rfl : c = d := by simpa using hd
  simp [h]

/-- A character of a number or of a constant. -/
def inAtom (c : Char) : Bool := outside c && c ∉ ['\x7b', '\x7d', '[', ']', ',', ':'] && !isBlank c

theorem outside_of_inAtom {c : Char} (h : inAtom c = true) : outside c = true := by
  simp only [inAtom, Bool.and_eq_true] at h
  exact h.1.1

theorem inAtom_of_isDigit {c : Char} (h : c.isDigit = true) : inAtom c = true := by
  have hne : ∀ d : Char, d.isDigit = false → c ≠ d := by
    rintro d hd rfl
    rw [hd] at h
    cases h
  simp [inAtom, outside_of_isDigit h, isBlank, hne]

theorem scanNatural_spec {cs ds rest : List Char} (h : scanNatural cs = some (ds, rest)) :
    cs = ds ++ rest ∧ (∀ c ∈ ds, c.isDigit = true) ∧ ds ≠ [] ∧
      ∀ rest', NoDigit rest' → scanNatural (ds ++ rest') = some (ds, rest') := by
  rw [scanNatural] at h
  split_ifs at h with hzero hempty
  · obtain ⟨rfl, rfl⟩ : ['0'] = ds ∧ cs.tail = rest := by simpa using h
    exact ⟨List.eq_cons_of_mem_head? hzero, by simp, by simp, fun rest' _ => rfl⟩
  · obtain ⟨rfl, rfl⟩ : cs.takeWhile Char.isDigit = ds ∧ cs.dropWhile Char.isDigit = rest := by simpa using h
    have hdigits : ∀ c ∈ cs.takeWhile Char.isDigit, c.isDigit = true := fun c hc => List.mem_takeWhile_imp hc
    have hne : cs.takeWhile Char.isDigit ≠ [] := by simpa using hempty
    refine ⟨List.takeWhile_append_dropWhile.symm, hdigits, hne, fun rest' hrest => ?_⟩
    have hspan := span_digits hdigits hrest
    have hhead : (cs.takeWhile Char.isDigit ++ rest').head? = cs.head? := by
      cases cs with
      | nil => exact absurd rfl hne
      | cons c cs =>
        cases hc : c.isDigit with
        | false => simp [hc] at hne
        | true => simp [hc]
    rw [scanNatural, hhead, if_neg hzero, hspan.1, hspan.2, if_neg hempty]

theorem scanInteger_spec {cs ds rest : List Char} (h : scanInteger cs = some (ds, rest)) :
    cs = ds ++ rest ∧ (∀ c ∈ ds, inAtom c = true) ∧ ∀ rest', NoDigit rest' → scanInteger (ds ++ rest') = some (ds, rest') := by
  rw [scanInteger] at h
  split_ifs at h with hminus
  · obtain ⟨⟨es, rest''⟩, hnat, heq⟩ := Option.map_eq_some_iff.mp h
    obtain ⟨rfl, rfl⟩ : '-' :: es = ds ∧ rest'' = rest := by simpa using heq
    obtain ⟨htail, hdigits, -, hstable⟩ := scanNatural_spec hnat
    refine ⟨?_, ?_, fun rest' hrest => ?_⟩
    · rw [List.cons_append, ← htail]
      exact List.eq_cons_of_mem_head? hminus
    · intro c hc
      rcases List.mem_cons.mp hc with rfl | hc
      · decide
      · exact inAtom_of_isDigit (hdigits c hc)
    · rw [scanInteger, List.cons_append, List.head?_cons, if_pos rfl, List.tail_cons, hstable rest' hrest]
      rfl
  · obtain ⟨hcs, hdigits, hne, hstable⟩ := scanNatural_spec h
    refine ⟨hcs, fun c hc => inAtom_of_isDigit (hdigits c hc), fun rest' hrest => ?_⟩
    have hhead : (ds ++ rest').head? ≠ some '-' := by
      have hsame : (ds ++ rest').head? = (ds ++ rest).head? := by
        rw [List.head?_append_of_ne_nil _ hne, List.head?_append_of_ne_nil _ hne]
      rwa [hsame, ← hcs]
    rw [scanInteger, if_neg hhead, hstable rest' hrest]

theorem scanFraction_spec (cs : List Char) : ∃ f rest, scanFraction cs = (f, rest) ∧ cs = f ++ rest ∧
    (∀ c ∈ f, inAtom c = true) ∧ (f = [] ∨ f.head? = some '.') ∧
      ∀ rest', NoDigit rest' → rest'.head? ≠ some '.' → scanFraction (f ++ rest') = (f, rest') := by
  by_cases h : cs.head? = some '.' ∧ (cs.tail.takeWhile Char.isDigit).isEmpty = false
  · have hdigits : ∀ c ∈ cs.tail.takeWhile Char.isDigit, c.isDigit = true := fun c hc => List.mem_takeWhile_imp hc
    refine ⟨'.' :: cs.tail.takeWhile Char.isDigit, cs.tail.dropWhile Char.isDigit, if_pos h, ?_, ?_, .inr rfl,
      fun rest' hrest _ => ?_⟩
    · rw [List.cons_append, List.takeWhile_append_dropWhile]
      exact List.eq_cons_of_mem_head? h.1
    · intro c hc
      rcases List.mem_cons.mp hc with rfl | hc
      · decide
      · exact inAtom_of_isDigit (hdigits c hc)
    · have hspan := span_digits hdigits hrest
      rw [scanFraction, List.cons_append, List.head?_cons, List.tail_cons, hspan.1, hspan.2, if_pos ⟨rfl, h.2⟩]
  · refine ⟨[], cs, if_neg h, rfl, by simp, .inl rfl, fun rest' _ hdot => ?_⟩
    exact if_neg fun hrest => hdot hrest.1

/-- An exponent is read back. -/
theorem scanExponent_eq {x : Char} {sign ds rest : List Char} (hx : x = 'e' ∨ x = 'E')
    (hsign : sign = [] ∨ sign = ['-'] ∨ sign = ['+']) (hdigits : ∀ c ∈ ds, c.isDigit = true) (hne : ds ≠ [])
    (hrest : NoDigit rest) : scanExponent (x :: (sign ++ (ds ++ rest))) = (x :: (sign ++ ds), rest) := by
  have hspan := span_digits hdigits hrest
  have hempty : ds.isEmpty = false := by simpa using hne
  rcases hsign with rfl | rfl | rfl
  · have hhead : ∀ c : Char, c.isDigit = false → (ds ++ rest).head? ≠ some c := by
      rintro c hc hhead
      rw [List.head?_append_of_ne_nil _ hne] at hhead
      rw [hdigits c (List.mem_of_mem_head? hhead)] at hc
      cases hc
    have hunsigned : ¬ ((ds ++ rest).head? = some '-' ∨ (ds ++ rest).head? = some '+') := by
      rw [not_or]
      exact ⟨hhead _ rfl, hhead _ rfl⟩
    simp only [scanExponent, List.nil_append, if_neg hunsigned, List.length_nil, List.drop_zero, hspan.1, hspan.2]
    rw [if_pos ⟨hx, hempty⟩]
  · simp only [scanExponent, List.cons_append, List.nil_append, List.head?_cons, true_or, if_true, List.take_succ_cons,
      List.take_zero, List.length_singleton, List.drop_succ_cons, List.drop_zero, hspan.1, hspan.2]
    rw [if_pos ⟨hx, hempty⟩]
  · simp only [scanExponent, List.cons_append, List.nil_append, List.head?_cons, or_true, if_true, List.take_succ_cons,
      List.take_zero, List.length_singleton, List.drop_succ_cons, List.drop_zero, hspan.1, hspan.2]
    rw [if_pos ⟨hx, hempty⟩]

theorem scanExponent_spec (cs : List Char) : ∃ e rest, scanExponent cs = (e, rest) ∧ cs = e ++ rest ∧
    (∀ c ∈ e, inAtom c = true) ∧ (e = [] ∨ e.head? = some 'e' ∨ e.head? = some 'E') ∧
      ∀ rest', EndsNumber rest' → scanExponent (e ++ rest') = (e, rest') := by
  have hnothing : ∀ rest', EndsNumber rest' → scanExponent ([] ++ rest') = ([], rest') := fun rest' hrest =>
    (scan_endsNumber hrest).2
  cases cs with
  | nil => exact ⟨[], [], rfl, rfl, by simp, .inl rfl, hnothing⟩
  | cons x cs =>
    rw [scanExponent]
    set sign := if cs.head? = some '-' ∨ cs.head? = some '+' then cs.take 1 else [] with hdef
    split_ifs with h
    · have hdigits : ∀ c ∈ (cs.drop sign.length).takeWhile Char.isDigit, c.isDigit = true := fun c hc =>
        List.mem_takeWhile_imp hc
      have hne : (cs.drop sign.length).takeWhile Char.isDigit ≠ [] := by simpa using h.2
      have hsign : (sign = [] ∨ sign = ['-'] ∨ sign = ['+']) ∧ sign ++ cs.drop sign.length = cs := by
        cases cs with
        | nil => simp [hdef]
        | cons y cs =>
          by_cases hy : y = '-' ∨ y = '+'
          · rcases hy with rfl | rfl <;> simp [hdef]
          · simp [hdef, hy]
      refine ⟨_, _, rfl, ?_, ?_, ?_, fun rest' hrest => ?_⟩
      · rw [List.cons_append, List.append_assoc, List.takeWhile_append_dropWhile, hsign.2]
      · intro c hc
        rcases List.mem_cons.mp hc with rfl | hc
        · rcases h.1 with rfl | rfl <;> decide
        · rcases List.mem_append.mp hc with hc | hc
          · rcases hsign.1 with hs | hs | hs <;> rw [hs] at hc
            · cases hc
            · obtain rfl := List.mem_singleton.mp hc
              decide
            · obtain rfl := List.mem_singleton.mp hc
              decide
          · exact inAtom_of_isDigit (hdigits c hc)
      · rcases h.1 with rfl | rfl <;> simp
      · rw [List.cons_append, List.append_assoc]
        exact scanExponent_eq h.1 hsign.1 hdigits hne fun c hc => (hrest c hc).1
    · exact ⟨[], x :: cs, rfl, rfl, by simp, .inl rfl, hnothing⟩

/-- A number is read from its text, if it ends there. -/
theorem scanNumber_spec {cs token rest : List Char} {isFloat : Bool} (h : scanNumber cs = some (token, isFloat, rest)) :
    cs = token ++ rest ∧ (∀ c ∈ token, inAtom c = true) ∧
      ∀ rest', EndsNumber rest' → scanNumber (token ++ rest') = some (token, isFloat, rest') := by
  obtain ⟨⟨i, cs₁⟩, hint, heq⟩ := Option.map_eq_some_iff.mp h
  obtain ⟨hcs, hi, hstable⟩ := scanInteger_spec hint
  obtain ⟨f, cs₂, hfrac, hcs₁, hf, hfhead, hfstable⟩ := scanFraction_spec cs₁
  obtain ⟨e, cs₃, hexp, hcs₂, he, hehead, hestable⟩ := scanExponent_spec cs₂
  simp only [hfrac, hexp, Prod.mk.injEq] at heq
  obtain ⟨rfl, rfl, rfl⟩ := heq
  refine ⟨by rw [hcs, hcs₁, hcs₂, List.append_assoc, List.append_assoc], ?_, fun rest' hrest => ?_⟩
  · intro c hc
    simp only [List.mem_append] at hc
    rcases hc with (hc | hc) | hc
    · exact hi c hc
    · exact hf c hc
    · exact he c hc
  · -- after the integer comes no digit, and after the fraction neither a digit nor a point
    have hafter : NoDigit (e ++ rest') ∧ (e ++ rest').head? ≠ some '.' := by
      cases e with
      | nil =>
        refine ⟨fun c hc => (hrest c hc).1, fun hdot => ?_⟩
        exact (hrest '.' hdot).2.1 rfl
      | cons x e =>
        have hx : x = 'e' ∨ x = 'E' := by simpa using hehead
        refine ⟨noDigit_cons ?_, ?_⟩ <;> rcases hx with rfl | rfl <;> simp
    have hbefore : NoDigit (f ++ (e ++ rest')) := by
      cases f with
      | nil => exact hafter.1
      | cons x f =>
        have hx : x = '.' := by simpa using hfhead
        exact noDigit_cons (by rw [hx]; rfl)
    rw [scanNumber, List.append_assoc, List.append_assoc, hstable _ hbefore]
    simp only [Option.map_some, hfstable _ hafter.1 hafter.2, hestable _ hrest]

/-- The text of the value ends before this one. -/
def Separated : Json → List Char → Prop
  | .int _, rest => EndsNumber rest
  | .float _, rest => EndsNumber rest
  | _, _ => True

theorem separated_of_endsNumber {v : Json} {rest : List Char} (h : EndsNumber rest) : Separated v rest := by
  cases v <;> first | exact h | exact trivial

/-- A value that is no string, object or array. -/
def Atomic : Json → Prop
  | .str _ => False
  | .arr _ => False
  | .obj _ => False
  | _ => True

theorem scanAtom_spec {cs : List Char} {v : Json} {rest : List Char} (h : scanAtom F cs = some (v, rest)) :
    ∃ token, cs = token ++ rest ∧ token ≠ [] ∧ (∀ c ∈ token, inAtom c = true) ∧ Atomic v ∧
      ∀ rest', Separated v rest' → scanAtom F (token ++ rest') = some (v, rest') := by
  rw [scanAtom] at h
  split at h
  · rename_i w u hfind
    obtain ⟨rfl, rfl⟩ : u = v ∧ cs.drop w.length = rest := by simpa using h
    have hmem := List.mem_of_find?_eq_some hfind
    have hprefix : w.toList.isPrefixOf cs = true := by
      have hpred := List.find?_some hfind
      exact hpred
    obtain ⟨tail, rfl⟩ := List.isPrefixOf_iff_prefix.mp hprefix
    rw [← String.length_toList, List.drop_left]
    refine ⟨w.toList, rfl, ?_⟩
    simp only [constants, List.mem_cons, Prod.mk.injEq, List.not_mem_nil, or_false] at hmem
    rcases hmem with ⟨rfl, rfl⟩ | ⟨rfl, rfl⟩ | ⟨rfl, rfl⟩ | ⟨rfl, rfl⟩ | ⟨rfl, rfl⟩ | ⟨rfl, rfl⟩ <;>
      exact ⟨by decide, by decide, trivial, fun rest' _ => rfl⟩
  · obtain ⟨⟨token, isFloat, rest'⟩, hscan, heq⟩ := Option.map_eq_some_iff.mp h
    obtain ⟨rfl, rfl⟩ := Prod.mk.inj heq
    obtain ⟨hcs, hchars, hstable⟩ := scanNumber_spec hscan
    refine ⟨token, hcs, ?_, hchars, by cases isFloat <;> trivial, fun rest'' hrest => ?_⟩
    · rintro rfl
      have hnil := hstable [] endsNumber_nil
      cases hnil
    · have hends : EndsNumber rest'' := by cases isFloat <;> exact hrest
      rw [scanAtom_number F (hstable _ hends)]

/-! ### Texts -/

/-- The form of a value's text. -/
def Shape : Json → List Char → Prop
  | .obj _, c => ∃ d, c = '\x7b' :: (d ++ ['\x7d'])
  | .arr _, c => ∃ d, c = '[' :: (d ++ [']'])
  | .str _, c => ∃ b, c = '"' :: (b ++ ['"']) ∧ Body b
  | _, c => ∀ x ∈ c, inAtom x = true

/-- The text of a value: it is read from there, whatever follows. -/
structure IsText (F : Floats) (v : Json) (c : List Char) : Prop where
  shape : Shape v c
  lexed : Lexed c
  begins : Begins c
  read : ∀ m rest, c.length < m → Separated v rest → value F m (c ++ rest) = some (v, rest)

/-- The text of elements, up to the bracket. -/
structure IsElements (F : Floats) (xs : List Json) (c : List Char) : Prop where
  lexed : Lexed c
  begins : Begins c
  read : ∀ m rest, c.length + 1 < m → elements F m (c ++ ']' :: rest) = some (xs, rest)

/-- The text of items, up to the brace. -/
structure IsMembers (F : Floats) (kvs : List (String × Json)) (c : List Char) : Prop where
  lexed : Lexed c
  begins : Begins c
  read : ∀ m rest, c.length + 1 < m → members F m (c ++ '\x7d' :: rest) = some (kvs, rest)

theorem lexed_of_blanks {ws : List Char} (h : ∀ c ∈ ws, isBlank c = true) : Lexed ws :=
  lexed_of_outside fun c hc => outside_of_isBlank (h c hc)

/-- A number ends where blanks and then one of these characters come. -/
theorem endsNumber_blanks {ws : List Char} (hws : ∀ c ∈ ws, isBlank c = true) {c : Char}
    (hc : ¬ c.isDigit ∧ c ≠ '.' ∧ c ≠ 'e' ∧ c ≠ 'E') (rest : List Char) : EndsNumber (ws ++ c :: rest) := by
  cases ws with
  | nil => exact endsNumber_cons hc
  | cons d ws =>
    refine endsNumber_cons ?_
    have hd : isBlank d = true := hws d List.mem_cons_self
    simp only [isBlank, Bool.or_eq_true, decide_eq_true_eq] at hd
    rcases hd with ((rfl | rfl) | rfl) | rfl <;> decide

/-- What is skipped to. -/
theorem head?_skipBlanks {cs : List Char} {c : Char} (h : (skipBlanks cs).head? = some c) :
    ∃ ws, cs = ws ++ c :: (skipBlanks cs).tail ∧ ∀ d ∈ ws, isBlank d = true := by
  obtain ⟨ws, hcs, hws, -⟩ := skipBlanks_spec cs
  refine ⟨ws, ?_, hws⟩
  rw [← List.eq_cons_of_mem_head? h]
  exact hcs

section

variable {ws : List Char} (hws : ∀ c ∈ ws, isBlank c = true)
include hws

theorem isText_obj_nil : IsText F (.obj []) ('\x7b' :: (ws ++ ['\x7d'])) where
  shape := ⟨ws, rfl⟩
  lexed := .char (by decide) ((lexed_of_blanks hws).append (.char (by decide) .nil))
  begins := ⟨_, _, rfl, by decide⟩
  read m rest hm _ := by
    cases m with
    | zero => omega
    | succ m =>
      rw [List.cons_append, List.append_assoc, value, if_neg (by decide), if_pos rfl, skipBlanks_append hws,
        List.singleton_append, skipBlanks_cons (by decide), List.head?_cons, if_pos rfl, List.tail_cons]

theorem isText_arr_nil : IsText F (.arr []) ('[' :: (ws ++ [']'])) where
  shape := ⟨ws, rfl⟩
  lexed := .char (by decide) ((lexed_of_blanks hws).append (.char (by decide) .nil))
  begins := ⟨_, _, rfl, by decide⟩
  read m rest hm _ := by
    cases m with
    | zero => omega
    | succ m =>
      rw [List.cons_append, List.append_assoc, value, if_neg (by decide), if_neg (by decide), if_pos rfl,
        skipBlanks_append hws, List.singleton_append, skipBlanks_cons (by decide), List.head?_cons, if_pos rfl,
        List.tail_cons]

theorem isText_obj {kvs : List (String × Json)} {c : List Char} (h : IsMembers F kvs c) :
    IsText F (.obj (dict kvs)) ('\x7b' :: (ws ++ c ++ ['\x7d'])) where
  shape := ⟨ws ++ c, rfl⟩
  lexed := .char (by decide) (((lexed_of_blanks hws).append h.lexed).append (.char (by decide) .nil))
  begins := ⟨_, _, rfl, by decide⟩
  read m rest hm _ := by
    cases m with
    | zero => omega
    | succ m =>
      simp only [List.length_cons, List.length_append, List.length_nil] at hm
      have hbegin : Begins (c ++ '\x7d' :: rest) := h.begins.append _
      rw [List.cons_append, List.append_assoc, List.append_assoc, value, if_neg (by decide), if_pos rfl,
        skipBlanks_append hws, List.singleton_append, hbegin.skipBlanks_eq, if_neg hbegin.head?_ne.2,
        h.read m rest (by omega)]
      rfl

theorem isText_arr {xs : List Json} {c : List Char} (h : IsElements F xs c) :
    IsText F (.arr xs) ('[' :: (ws ++ c ++ [']'])) where
  shape := ⟨ws ++ c, rfl⟩
  lexed := .char (by decide) (((lexed_of_blanks hws).append h.lexed).append (.char (by decide) .nil))
  begins := ⟨_, _, rfl, by decide⟩
  read m rest hm _ := by
    cases m with
    | zero => omega
    | succ m =>
      simp only [List.length_cons, List.length_append, List.length_nil] at hm
      have hbegin : Begins (c ++ ']' :: rest) := h.begins.append _
      rw [List.cons_append, List.append_assoc, List.append_assoc, value, if_neg (by decide), if_neg (by decide), if_pos rfl,
        skipBlanks_append hws, List.singleton_append, hbegin.skipBlanks_eq, if_neg hbegin.head?_ne.1,
        h.read m rest (by omega)]
      rfl

theorem isElements_last {x : Json} {c : List Char} (h : IsText F x c) : IsElements F [x] (c ++ ws) where
  lexed := h.lexed.append (lexed_of_blanks hws)
  begins := h.begins.append ws
  read m rest hm := by
    cases m with
    | zero => omega
    | succ m =>
      rw [List.length_append] at hm
      have hread := h.read m (ws ++ ']' :: rest) (by omega) (separated_of_endsNumber (endsNumber_blanks hws (by decide) rest))
      rw [List.append_assoc, elements, hread]
      simp only [skipBlanks_append hws, skipBlanks_cons (c := ']') rfl, List.head?_cons, if_true, List.tail_cons]

theorem isElements_cons {ws' : List Char} (hws' : ∀ c ∈ ws', isBlank c = true) {x : Json} {xs : List Json} {c d : List Char}
    (h : IsText F x c) (hxs : IsElements F xs d) : IsElements F (x :: xs) (c ++ (ws ++ ',' :: (ws' ++ d))) where
  lexed := h.lexed.append ((lexed_of_blanks hws).append (.char (by decide) ((lexed_of_blanks hws').append hxs.lexed)))
  begins := h.begins.append _
  read m rest hm := by
    cases m with
    | zero => omega
    | succ m =>
      simp only [List.length_append, List.length_cons] at hm
      have hread := h.read m (ws ++ ',' :: (ws' ++ (d ++ ']' :: rest))) (by omega)
        (separated_of_endsNumber (endsNumber_blanks hws (by decide) _))
      have hbegin : Begins (d ++ ']' :: rest) := hxs.begins.append _
      simp only [List.append_assoc, List.cons_append]
      rw [elements, hread]
      simp only [skipBlanks_append hws, skipBlanks_cons (c := ',') rfl, List.head?_cons, Option.some.injEq, List.tail_cons,
        skipBlanks_append hws', hbegin.skipBlanks_eq, hxs.read m rest (by omega)]
      rfl

/-- The text of a key, with the colon. -/
theorem members_read {ws' b c : List Char} {k : PyStr} (hws' : ∀ c ∈ ws', isBlank c = true)
    (hb : ∀ rest, scanString (b ++ '"' :: rest) = some (k, rest)) {x : Json} (h : IsText F x c) {m : ℕ} {rest : List Char}
    (hm : c.length < m) (hrest : Separated x rest) :
    members F (m + 1) ('"' :: (b ++ '"' :: (ws ++ ':' :: (ws' ++ (c ++ rest))))) =
      if (skipBlanks rest).head? = some '\x7d' then some ([(stringText k, x)], (skipBlanks rest).tail)
      else if (skipBlanks rest).head? = some ',' then
        (members F m (skipBlanks (skipBlanks rest).tail)).map fun (kvs, rest) => ((stringText k, x) :: kvs, rest)
      else none := by
  have hbegin : Begins (c ++ rest) := h.begins.append _
  rw [members, List.head?_cons, if_pos rfl, List.tail_cons, hb]
  simp only [skipBlanks_append hws, skipBlanks_cons (c := ':') rfl, List.head?_cons, if_true, List.tail_cons,
    skipBlanks_append hws', hbegin.skipBlanks_eq, h.read m rest hm hrest]

/-- A key with its value. -/
theorem lexed_member {ws' b c d : List Char} (hws' : ∀ c ∈ ws', isBlank c = true) (hb : Body b) (hc : Lexed c) (hd : Lexed d) :
    Lexed ('"' :: (b ++ '"' :: (ws ++ ':' :: (ws' ++ (c ++ d))))) :=
  .literal hb ((lexed_of_blanks hws).append (.char (by decide) ((lexed_of_blanks hws').append (hc.append hd))))

theorem isMembers_last {ws' ws'' b c : List Char} {k : PyStr} (hws' : ∀ c ∈ ws', isBlank c = true)
    (hws'' : ∀ c ∈ ws'', isBlank c = true) (hbody : Body b) (hb : ∀ rest, scanString (b ++ '"' :: rest) = some (k, rest))
    {x : Json} (h : IsText F x c) :
    IsMembers F [(stringText k, x)] ('"' :: (b ++ '"' :: (ws ++ ':' :: (ws' ++ (c ++ ws''))))) where
  lexed := lexed_member hws hws' hbody h.lexed (lexed_of_blanks hws'')
  begins := ⟨_, _, rfl, by decide⟩
  read m rest hm := by
    cases m with
    | zero => omega
    | succ m =>
      simp only [List.length_cons, List.length_append] at hm
      have hrest : Separated x (ws'' ++ '\x7d' :: rest) :=
        separated_of_endsNumber (endsNumber_blanks hws'' (by decide) rest)
      simp only [List.cons_append, List.append_assoc]
      rw [members_read hws hws' hb h (by omega) hrest, skipBlanks_append hws'', skipBlanks_cons rfl, List.head?_cons,
        if_pos rfl, List.tail_cons]

theorem isMembers_cons {ws' ws'' ws₃ b c d : List Char} {k : PyStr} {kvs : List (String × Json)}
    (hws' : ∀ c ∈ ws', isBlank c = true) (hws'' : ∀ c ∈ ws'', isBlank c = true) (hws₃ : ∀ c ∈ ws₃, isBlank c = true)
    (hbody : Body b) (hb : ∀ rest, scanString (b ++ '"' :: rest) = some (k, rest)) {x : Json} (h : IsText F x c)
    (hkvs : IsMembers F kvs d) : IsMembers F ((stringText k, x) :: kvs)
      ('"' :: (b ++ '"' :: (ws ++ ':' :: (ws' ++ (c ++ (ws'' ++ ',' :: (ws₃ ++ d))))))) where
  lexed := lexed_member hws hws' hbody h.lexed
    ((lexed_of_blanks hws'').append (.char (by decide) ((lexed_of_blanks hws₃).append hkvs.lexed)))
  begins := ⟨_, _, rfl, by decide⟩
  read m rest hm := by
    cases m with
    | zero => omega
    | succ m =>
      simp only [List.length_cons, List.length_append] at hm
      have hrest : Separated x (ws'' ++ ',' :: (ws₃ ++ (d ++ '\x7d' :: rest))) :=
        separated_of_endsNumber (endsNumber_blanks hws'' (by decide) _)
      have hbegin : Begins (d ++ '\x7d' :: rest) := hkvs.begins.append _
      simp only [List.cons_append, List.append_assoc]
      rw [members_read hws hws' hb h (by omega) hrest, skipBlanks_append hws'', skipBlanks_cons rfl, List.head?_cons,
        if_neg (by decide), if_pos rfl, List.tail_cons, skipBlanks_append hws₃, hbegin.skipBlanks_eq,
        hkvs.read m rest (by omega)]
      rfl

end

theorem isText_str {b : List Char} {s : PyStr} (hbody : Body b) (hb : ∀ rest, scanString (b ++ '"' :: rest) = some (s, rest)) :
    IsText F (.str (stringText s)) ('"' :: (b ++ ['"'])) where
  shape := ⟨b, rfl, hbody⟩
  lexed := .literal hbody .nil
  begins := ⟨_, _, rfl, by decide⟩
  read m rest hm _ := by
    cases m with
    | zero => omega
    | succ m =>
      rw [List.cons_append, List.append_assoc, List.singleton_append, value, if_pos rfl, hb]
      rfl

theorem isText_atom {v : Json} {c : List Char} (hne : c ≠ []) (hchars : ∀ x ∈ c, inAtom x = true) (hv : Atomic v)
    (hread : ∀ rest, Separated v rest → scanAtom F (c ++ rest) = some (v, rest)) : IsText F v c := by
  obtain ⟨x, tail, rfl⟩ := List.exists_cons_of_ne_nil hne
  have hx := hchars x List.mem_cons_self
  have hx' : ∀ d, inAtom d = false → x ≠ d := by
    rintro d hd rfl
    rw [hd] at hx
    cases hx
  refine ⟨?_, lexed_of_outside fun d hd => outside_of_inAtom (hchars d hd), ⟨x, tail, rfl, ?_, hx' _ rfl, hx' _ rfl⟩, ?_⟩
  · cases v <;> first | exact hchars | exact hv.elim
  · by_contra hblank
    simp [inAtom, hblank] at hx
  · intro m rest hm hrest
    cases m with
    | zero => omega
    | succ m =>
      have hbrace : x ≠ '\x7b' := hx' _ rfl
      have hbracket : x ≠ '[' := hx' _ rfl
      have hquote : x ≠ '"' := (outside_ne (outside_of_inAtom hx)).1
      rw [value_atom (by simp) (by simpa using hquote) (by simpa using hbrace) (by simpa using hbracket), hread rest hrest]

/-! ### What the readers take -/

/-- How `value` takes a value from the front of a list; `n` is left for what is in it. -/
inductive ReadsValue (F : Floats) (n : ℕ) : List Char → Json → List Char → Prop
  | str {cs rest : List Char} {s : PyStr} (hscan : scanString cs = some (s, rest)) :
      ReadsValue F n ('"' :: cs) (.str (stringText s)) rest
  | objNil {ws rest : List Char} (hws : ∀ c ∈ ws, isBlank c = true) :
      ReadsValue F n ('\x7b' :: (ws ++ '\x7d' :: rest)) (.obj []) rest
  | obj {ws cs rest : List Char} {kvs : List (String × Json)} (hws : ∀ c ∈ ws, isBlank c = true)
      (hkvs : members F n cs = some (kvs, rest)) : ReadsValue F n ('\x7b' :: (ws ++ cs)) (.obj (dict kvs)) rest
  | arrNil {ws rest : List Char} (hws : ∀ c ∈ ws, isBlank c = true) : ReadsValue F n ('[' :: (ws ++ ']' :: rest)) (.arr []) rest
  | arr {ws cs rest : List Char} {xs : List Json} (hws : ∀ c ∈ ws, isBlank c = true)
      (hxs : elements F n cs = some (xs, rest)) : ReadsValue F n ('[' :: (ws ++ cs)) (.arr xs) rest
  | atom {cs rest : List Char} {v : Json} (h : scanAtom F cs = some (v, rest)) : ReadsValue F n cs v rest

/-- How `elements` takes elements. -/
inductive ReadsElements (F : Floats) (n : ℕ) : List Char → List Json → List Char → Prop
  | last {cs ws rest : List Char} {x : Json} (hx : value F n cs = some (x, ws ++ ']' :: rest)) (hws : ∀ c ∈ ws, isBlank c = true) :
      ReadsElements F n cs [x] rest
  | cons {cs ws ws' ds rest : List Char} {x : Json} {xs : List Json} (hx : value F n cs = some (x, ws ++ ',' :: (ws' ++ ds)))
      (hws : ∀ c ∈ ws, isBlank c = true) (hws' : ∀ c ∈ ws', isBlank c = true) (hxs : elements F n ds = some (xs, rest)) :
      ReadsElements F n cs (x :: xs) rest

/-- How `members` takes items. -/
inductive ReadsMembers (F : Floats) (n : ℕ) : List Char → List (String × Json) → List Char → Prop
  | last {cs ws ws' ws'' ds rest : List Char} {k : PyStr} {x : Json} (hscan : scanString cs = some (k, ws ++ ':' :: (ws' ++ ds)))
      (hws : ∀ c ∈ ws, isBlank c = true) (hws' : ∀ c ∈ ws', isBlank c = true)
      (hx : value F n ds = some (x, ws'' ++ '\x7d' :: rest)) (hws'' : ∀ c ∈ ws'', isBlank c = true) :
      ReadsMembers F n ('"' :: cs) [(stringText k, x)] rest
  | cons {cs ws ws' ws'' ws₃ ds es rest : List Char} {k : PyStr} {x : Json} {kvs : List (String × Json)}
      (hscan : scanString cs = some (k, ws ++ ':' :: (ws' ++ ds))) (hws : ∀ c ∈ ws, isBlank c = true)
      (hws' : ∀ c ∈ ws', isBlank c = true) (hx : value F n ds = some (x, ws'' ++ ',' :: (ws₃ ++ es)))
      (hws'' : ∀ c ∈ ws'', isBlank c = true) (hws₃ : ∀ c ∈ ws₃, isBlank c = true) (hkvs : members F n es = some (kvs, rest)) :
      ReadsMembers F n ('"' :: cs) ((stringText k, x) :: kvs) rest

theorem readsValue {n : ℕ} {cs rest : List Char} {v : Json} (h : value F (n + 1) cs = some (v, rest)) : ReadsValue F n cs v rest := by
  cases cs with
  | nil => cases h
  | cons x cs =>
    rw [value] at h
    split_ifs at h with hquote hbrace hempty hbracket hempty
    · subst hquote
      obtain ⟨⟨s, rest'⟩, hscan, heq⟩ := Option.map_eq_some_iff.mp h
      obtain ⟨rfl, rfl⟩ := Prod.mk.inj heq
      exact .str hscan
    · subst hbrace
      obtain ⟨rfl, htail⟩ : .obj [] = v ∧ (skipBlanks cs).tail = rest := by simpa using h
      obtain ⟨ws, hcs, hws⟩ := head?_skipBlanks hempty
      rw [hcs, htail]
      exact .objNil hws
    · subst hbrace
      obtain ⟨⟨kvs, rest'⟩, hread, heq⟩ := Option.map_eq_some_iff.mp h
      obtain ⟨rfl, rfl⟩ := Prod.mk.inj heq
      obtain ⟨ws, hcs, hws, -⟩ := skipBlanks_spec cs
      rw [hcs]
      exact .obj hws hread
    · subst hbracket
      obtain ⟨rfl, htail⟩ : .arr [] = v ∧ (skipBlanks cs).tail = rest := by simpa using h
      obtain ⟨ws, hcs, hws⟩ := head?_skipBlanks hempty
      rw [hcs, htail]
      exact .arrNil hws
    · subst hbracket
      obtain ⟨⟨xs, rest'⟩, hread, heq⟩ := Option.map_eq_some_iff.mp h
      obtain ⟨rfl, rfl⟩ := Prod.mk.inj heq
      obtain ⟨ws, hcs, hws, -⟩ := skipBlanks_spec cs
      rw [hcs]
      exact .arr hws hread
    · exact .atom h

theorem readsElements {n : ℕ} {cs rest : List Char} {xs : List Json} (h : elements F (n + 1) cs = some (xs, rest)) :
    ReadsElements F n cs xs rest := by
  rw [elements] at h
  split at h
  · cases h
  · rename_i x rest' hread
    split_ifs at h with hend hnext
    · obtain ⟨rfl, htail⟩ : [x] = xs ∧ (skipBlanks rest').tail = rest := by simpa using h
      obtain ⟨ws, hrest, hws⟩ := head?_skipBlanks hend
      rw [hrest, htail] at hread
      exact .last hread hws
    · obtain ⟨⟨ys, rest''⟩, hys, heq⟩ := Option.map_eq_some_iff.mp h
      obtain ⟨rfl, rfl⟩ := Prod.mk.inj heq
      obtain ⟨ws, hrest, hws⟩ := head?_skipBlanks hnext
      obtain ⟨ws', hrest', hws', -⟩ := skipBlanks_spec (skipBlanks rest').tail
      rw [hrest, hrest'] at hread
      exact .cons hread hws hws' hys

theorem readsMembers {n : ℕ} {cs rest : List Char} {kvs : List (String × Json)} (h : members F (n + 1) cs = some (kvs, rest)) :
    ReadsMembers F n cs kvs rest := by
  rw [members] at h
  split_ifs at h with hquote
  obtain ⟨tail, rfl⟩ : ∃ tail, cs = '"' :: tail := ⟨cs.tail, List.eq_cons_of_mem_head? hquote⟩
  rw [List.tail_cons] at h
  split at h
  · cases h
  · rename_i k rest' hscan
    split_ifs at h with hcolon
    obtain ⟨ws, hrest, hws⟩ := head?_skipBlanks hcolon
    obtain ⟨ws', hrest', hws', -⟩ := skipBlanks_spec (skipBlanks rest').tail
    rw [hrest, hrest'] at hscan
    split at h
    · cases h
    · rename_i x rest₂ hread
      split_ifs at h with hend hnext
      · obtain ⟨rfl, htail⟩ : [(stringText k, x)] = kvs ∧ (skipBlanks rest₂).tail = rest := by simpa using h
        obtain ⟨ws'', hrest₂, hws''⟩ := head?_skipBlanks hend
        rw [hrest₂, htail] at hread
        exact .last hscan hws hws' hread hws''
      · obtain ⟨⟨ys, rest₃⟩, hys, heq⟩ := Option.map_eq_some_iff.mp h
        obtain ⟨rfl, rfl⟩ := Prod.mk.inj heq
        obtain ⟨ws'', hrest₂, hws''⟩ := head?_skipBlanks hnext
        obtain ⟨ws₃, hrest₃, hws₃, -⟩ := skipBlanks_spec (skipBlanks rest₂).tail
        rw [hrest₂, hrest₃] at hread
        exact .cons hscan hws hws' hread hws'' hws₃ hys

/-- **Where a value is read there is its text.** -/
theorem texts (n : ℕ) :
    (∀ cs v rest, value F n cs = some (v, rest) → ∃ c, cs = c ++ rest ∧ IsText F v c) ∧
    (∀ cs xs rest, elements F n cs = some (xs, rest) → ∃ c, cs = c ++ ']' :: rest ∧ IsElements F xs c) ∧
    (∀ cs kvs rest, members F n cs = some (kvs, rest) → ∃ c, cs = c ++ '\x7d' :: rest ∧ IsMembers F kvs c) := by
  induction n with
  | zero =>
    refine ⟨fun cs v rest h => ?_, fun cs xs rest h => ?_, fun cs kvs rest h => ?_⟩
    · cases h
    · cases h
    · cases h
  | succ n ih =>
    obtain ⟨ihValue, ihElements, ihMembers⟩ := ih
    refine ⟨fun cs v rest h => ?_, fun cs xs rest h => ?_, fun cs kvs rest h => ?_⟩
    · cases readsValue h with
      | str hscan =>
        obtain ⟨b, rfl, hbody, hb⟩ := scanString_body hscan
        exact ⟨'"' :: (b ++ ['"']), by simp, isText_str hbody hb⟩
      | objNil hws => exact ⟨_, by simp, isText_obj_nil hws⟩
      | obj hws hkvs =>
        obtain ⟨c, rfl, htext⟩ := ihMembers _ _ _ hkvs
        exact ⟨_, by simp, isText_obj hws htext⟩
      | arrNil hws => exact ⟨_, by simp, isText_arr_nil hws⟩
      | arr hws hxs =>
        obtain ⟨c, rfl, htext⟩ := ihElements _ _ _ hxs
        exact ⟨_, by simp, isText_arr hws htext⟩
      | atom h =>
        obtain ⟨c, hcs, hne, hchars, hv, hread⟩ := scanAtom_spec h
        exact ⟨c, hcs, isText_atom hne hchars hv hread⟩
    · cases readsElements h with
      | last hx hws =>
        obtain ⟨c, rfl, htext⟩ := ihValue _ _ _ hx
        exact ⟨_, by simp, isElements_last hws htext⟩
      | cons hx hws hws' hxs =>
        obtain ⟨c, rfl, htext⟩ := ihValue _ _ _ hx
        obtain ⟨d, rfl, htexts⟩ := ihElements _ _ _ hxs
        exact ⟨_, by simp, isElements_cons hws hws' htext htexts⟩
    · cases readsMembers h with
      | last hscan hws hws' hx hws'' =>
        obtain ⟨b, rfl, hbody, hb⟩ := scanString_body hscan
        obtain ⟨c, rfl, htext⟩ := ihValue _ _ _ hx
        exact ⟨_, by simp, isMembers_last hws hws' hws'' hbody hb htext⟩
      | cons hscan hws hws' hx hws'' hws₃ hkvs =>
        obtain ⟨b, rfl, hbody, hb⟩ := scanString_body hscan
        obtain ⟨c, rfl, htext⟩ := ihValue _ _ _ hx
        obtain ⟨d, rfl, htexts⟩ := ihMembers _ _ _ hkvs
        exact ⟨_, by simp, isMembers_cons hws hws' hws'' hws₃ hbody hb htext htexts⟩

/-! ### Whole texts -/

theorem isSpace_of_isBlank {c : Char} (h : isBlank c = true) : isSpace c = true := by
  simp only [isBlank, Bool.or_eq_true, decide_eq_true_eq] at h
  rcases h with ((rfl | rfl) | rfl) | rfl <;> rfl

/-- What is read is the text of a value, between blanks. -/
theorem parts_of_loads {s : String} {v : Json} (h : loads F s = some v) :
    ∃ ws core ws', s.toList = ws ++ (core ++ ws') ∧ (∀ c ∈ ws, isBlank c = true) ∧ (∀ c ∈ ws', isBlank c = true) ∧
      IsText F v core := by
  rw [loads] at h
  split at h
  · rename_i u rest hread
    split_ifs at h with hrest
    obtain rfl := Option.some.inj h
    obtain ⟨ws, hs, hws, -⟩ := skipBlanks_spec s.toList
    obtain ⟨core, hcore, htext⟩ := (texts _).1 _ _ _ hread
    exact ⟨ws, core, rest, by rw [← hcore]; exact hs, hws, List.dropWhile_eq_nil_iff.mp (List.isEmpty_iff.mp hrest), htext⟩
  · cases h

/-- The text of a value is read. -/
theorem loads_of_isText {cs : List Char} {v : Json} (h : IsText F v cs) : loads F (String.ofList cs) = some v := by
  have hread := h.read (cs.length + 1) [] (by omega) (separated_of_endsNumber endsNumber_nil)
  rw [List.append_nil] at hread
  rw [loads, String.toList_ofList, h.begins.skipBlanks_eq, hread]
  rfl

/-- A text without blanks around it is read whole. -/
theorem isText_of_loads {cs : List Char} {v : Json} (h : loads F (String.ofList cs) = some v)
    (hfirst : ∀ c ∈ cs.head?, isSpace c = false) (hlast : ∀ c ∈ cs.getLast?, isSpace c = false) : IsText F v cs := by
  obtain ⟨ws, core, ws', hcs, hws, hws', htext⟩ := parts_of_loads h
  rw [String.toList_ofList] at hcs
  subst hcs
  obtain rfl : ws = [] := by
    cases ws with
    | nil => rfl
    | cons c ws =>
      have hc := hfirst c rfl
      rw [isSpace_of_isBlank (hws c List.mem_cons_self)] at hc
      cases hc
  obtain rfl : ws' = [] := by
    cases List.eq_nil_or_concat ws' with
    | inl hnil => exact hnil
    | inr hcons =>
      obtain ⟨ws', c, rfl⟩ := hcons
      have hc := hlast c (by simp)
      rw [isSpace_of_isBlank (hws' c (by simp))] at hc
      cases hc
  simpa using htext

/-- An opening bracket. -/
def IsOpening (o : Char) : Prop := o = '\x7b' ∨ o = '['

section

variable {v u : Json} {o : Char} {t xs ys : List Char}

theorem separated_of_opening (h : IsText F v (o :: t)) (ho : IsOpening o) (rest : List Char) : Separated v rest := by
  have hshape := h.shape
  cases v
  case int | float =>
    have ho' := hshape o List.mem_cons_self
    rcases ho with rfl | rfl <;> cases ho'
  all_goals exact trivial

/-- Two texts that begin at one bracket are one. -/
theorem isText_unique {t' rest rest' : List Char} (ho : IsOpening o) (h : IsText F v (o :: t)) (h' : IsText F u t')
    (heq : (o :: t) ++ rest = t' ++ rest') : v = u ∧ rest = rest' := by
  obtain ⟨c, t', rfl, -⟩ := h'.begins
  obtain ⟨rfl, -⟩ := List.cons.inj heq
  have hread := h.read ((o :: t).length + (o :: t').length + 1) rest (by omega) (separated_of_opening h ho rest)
  have hread' := h'.read ((o :: t).length + (o :: t').length + 1) rest' (by omega) (separated_of_opening h' ho rest')
  rw [heq, hread'] at hread
  obtain ⟨hv, hrest⟩ := Prod.mk.inj (Option.some.inj hread)
  exact ⟨hv.symm, hrest.symm⟩

/-- A text that begins with a bracket has no blank at its end. -/
theorem getLast?_of_opening (h : IsText F v (o :: t)) (ho : IsOpening o) : ∀ c ∈ (o :: t).getLast?, isSpace c = false := by
  have hshape := h.shape
  cases v
  case obj | arr =>
    obtain ⟨d, hd⟩ := hshape
    rw [hd, ← List.cons_append, List.getLast?_concat]
    rintro c ⟨⟩
    rfl
  case str =>
    obtain ⟨b, hb, -⟩ := hshape
    obtain ⟨rfl, -⟩ := List.cons.inj hb
    rcases ho with ho | ho <;> cases ho
  all_goals
    have ho' := hshape o List.mem_cons_self
    rcases ho with rfl | rfl <;> cases ho'

/-- What is read around such a text is read whole. -/
theorem isText_around (h : IsText F v (o :: t)) (ho : IsOpening o) (hfirst : ∀ c ∈ xs.head?, isSpace c = false)
    (hlast : ∀ c ∈ ys.getLast?, isSpace c = false) (hload : loads F (String.ofList (xs ++ ((o :: t) ++ ys))) = some u) :
    IsText F u (xs ++ ((o :: t) ++ ys)) := by
  refine isText_of_loads hload (fun c hc => ?_) fun c hc => ?_
  · cases xs with
    | nil =>
      obtain rfl := Option.some.inj hc
      rcases ho with rfl | rfl <;> rfl
    | cons x xs => exact hfirst c hc
  · by_cases hys : ys = []
    · rw [hys, List.append_nil, List.getLast?_append_of_ne_nil _ (List.cons_ne_nil _ _)] at hc
      exact getLast?_of_opening h ho c hc
    · rw [← List.append_assoc, List.getLast?_append_of_ne_nil _ hys] at hc
      exact hlast c hc

/-- With something beside it that does not begin with a bracket or a quote, such a text is not read. -/
theorem loads_beside (h : IsText F v (o :: t)) (ho : IsOpening o) (hxs : ∀ c ∈ xs.head?, ¬ IsOpening c ∧ c ≠ '"')
    (hfirst : ∀ c ∈ xs.head?, isSpace c = false) (hlast : ∀ c ∈ ys.getLast?, isSpace c = false) (hne : xs ≠ [] ∨ ys ≠ []) :
    loads F (String.ofList (xs ++ ((o :: t) ++ ys))) = none := by
  by_contra hload
  obtain ⟨u, hu⟩ := Option.ne_none_iff_exists'.mp hload
  have hwhole := isText_around h ho hfirst hlast hu
  cases xs with
  | nil =>
    -- the text is read, and something is left
    have heq : (o :: t) ++ ys = ([] ++ ((o :: t) ++ ys)) ++ [] := (List.append_nil _).symm
    obtain ⟨-, hys⟩ := isText_unique ho h hwhole heq
    exact hne.elim (fun hne => hne rfl) fun hne => hne hys
  | cons x xs =>
    obtain ⟨hopening, hquote⟩ := hxs x rfl
    have hshape := hwhole.shape
    cases u
    case obj =>
      obtain ⟨d, hd⟩ := hshape
      exact hopening (.inl (List.cons.inj hd).1)
    case arr =>
      obtain ⟨d, hd⟩ := hshape
      exact hopening (.inr (List.cons.inj hd).1)
    case str =>
      obtain ⟨b, hb, -⟩ := hshape
      exact hquote (List.cons.inj hb).1
    all_goals
      -- an atom has no bracket in it
      have hin := hshape o (by simp)
      rcases ho with rfl | rfl <;> cases hin

end

/-! ### From within a literal -/

/-- What is left of a literal, and what follows it. -/
inductive Flipped : List Char → Prop
  | mk {b cs : List Char} (hb : Body b) (hcs : Lexed cs) : Flipped (b ++ '"' :: cs)

theorem Flipped.tail {c : Char} {cs : List Char} (h : Flipped (c :: cs)) (hc : c ≠ '"' ∧ c ≠ '\\') : Flipped cs := by
  generalize hds : c :: cs = ds at h
  obtain ⟨hb, hcs⟩ := h
  cases hb with
  | nil => exact absurd (List.cons.inj hds).1 hc.1
  | plain _ _ hb =>
    obtain rfl := (List.cons.inj hds).2
    exact .mk hb hcs
  | escape hb => exact absurd (List.cons.inj hds).1 hc.2

theorem Flipped.drop {cs rest : List Char} (h : Flipped (cs ++ rest)) (hcs : ∀ c ∈ cs, outside c = true) : Flipped rest := by
  induction cs with
  | nil => exact h
  | cons c cs ih =>
    have hc := outside_ne (hcs c List.mem_cons_self)
    exact ih (h.tail ⟨hc.1, hc.2.1⟩) fun d hd => hcs d (List.mem_cons_of_mem c hd)

theorem Flipped.dropBlanks {ws cs : List Char} (h : Flipped (ws ++ cs)) (hws : ∀ c ∈ ws, isBlank c = true) : Flipped cs :=
  h.drop fun c hc => outside_of_isBlank (hws c hc)

/-- The next character is skipped. -/
theorem Flipped.next {ws cs : List Char} {c : Char} (h : Flipped (ws ++ c :: cs)) (hws : ∀ c ∈ ws, isBlank c = true)
    (hc : c ≠ '"' ∧ c ≠ '\\') : Flipped cs := (h.dropBlanks hws).tail hc

theorem Flipped.lexed {cs : List Char} (h : Flipped ('"' :: cs)) : Lexed cs := by
  generalize hds : '"' :: cs = ds at h
  obtain ⟨hb, hcs⟩ := h
  cases hb with
  | nil =>
    obtain rfl := (List.cons.inj hds).2
    exact hcs
  | plain hquote _ _ => exact absurd (List.cons.inj hds).1.symm hquote
  | escape _ => exact absurd (List.cons.inj hds).1 (by decide)

/-- A string that is read outside the literals consists of what may stand there. -/
theorem Lexed.of_scanString {cs : List Char} (h : Lexed cs) {s : PyStr} {rest : List Char}
    (hscan : scanString cs = some (s, rest)) : Flipped rest ∧ ∃ k : List Char, s = k.map .scalar ∧ ∀ c ∈ k, outside c = true := by
  induction h generalizing s with
  | nil => cases hscan
  | @char c cs hc _ ih =>
    have hne := outside_ne hc
    by_cases hcontrol : c.toNat < 0x20
    · rw [scanString.eq_5 c cs hne.1 (by simp [hne]) (by simp [hne]), if_pos (.inr hcontrol)] at hscan
      cases hscan
    · rw [scanString_plain hne.1 hne.2.1 hcontrol] at hscan
      obtain ⟨⟨s', rest'⟩, hrest, heq⟩ := Option.map_eq_some_iff.mp hscan
      obtain ⟨rfl, rfl⟩ := Prod.mk.inj heq
      obtain ⟨hflip, k, rfl, hk⟩ := ih hrest
      refine ⟨hflip, c :: k, rfl, fun d hd => ?_⟩
      rcases List.mem_cons.mp hd with rfl | hd
      · exact hc
      · exact hk d hd
  | literal hb hcs _ =>
    cases hscan
    exact ⟨.mk hb hcs, [], rfl, by simp⟩

/-- The character is in a string of the value. -/
inductive Holds (c : Char) : Json → Prop
  | str {s : String} (h : c ∈ s.toList) : Holds c (.str s)
  | element {xs : List Json} {x : Json} (hx : x ∈ xs) (h : Holds c x) : Holds c (.arr xs)
  | key {kvs : List (String × Json)} {kv : String × Json} (hkv : kv ∈ kvs) (h : c ∈ kv.1.toList) : Holds c (.obj kvs)
  | item {kvs : List (String × Json)} {kv : String × Json} (hkv : kv ∈ kvs) (h : Holds c kv.2) : Holds c (.obj kvs)

/-- The strings consist of characters that may stand outside the literals. -/
def Outside (v : Json) : Prop := ∀ c, Holds c v → outside c = true

/-- The keys consist of characters that may stand outside the literals. -/
def KeysOutside (kvs : List (String × Json)) : Prop := ∀ kv ∈ kvs, ∀ c ∈ kv.1.toList, outside c = true

theorem Outside.keys {kvs : List (String × Json)} (h : Outside (.obj kvs)) : KeysOutside kvs :=
  fun _ hkv c hc => h c (.key hkv hc)

theorem outside_arr {xs : List Json} (h : ∀ x ∈ xs, Outside x) : Outside (.arr xs) := by
  rintro c (_ | ⟨hx, hc⟩)
  exact h _ hx c hc

theorem outside_obj {kvs : List (String × Json)} (hkeys : KeysOutside kvs) (h : ∀ kv ∈ kvs, Outside kv.2) : Outside (.obj kvs) := by
  rintro c (_ | _ | ⟨hkv, hc⟩ | ⟨hkv, hc⟩)
  · exact hkeys _ hkv c hc
  · exact h _ hkv c hc

theorem outside_atom {v : Json} (h : Atomic v) : Outside v := by
  rintro c (_ | _ | _ | _) <;> exact h.elim

theorem mem_of_mem_dict {kvs : List (String × Json)} {kv : String × Json} (h : kv ∈ dict kvs) : kv ∈ kvs := by
  suffices ∀ pre, kv ∈ kvs.foldl setKey pre → kv ∈ pre ∨ kv ∈ kvs by simpa using this [] h
  clear h
  induction kvs with
  | nil => simp
  | cons new kvs ih =>
    intro pre hmem
    rcases ih _ hmem with hpre | hkvs
    · rw [setKey] at hpre
      split_ifs at hpre
      · obtain ⟨old, hold, heq⟩ := List.mem_map.mp hpre
        split_ifs at heq
        · exact .inr (by simp [heq])
        · exact .inl (heq ▸ hold)
      · rcases List.mem_append.mp hpre with hpre | hnew
        · exact .inl hpre
        · exact .inr (by simp [List.mem_singleton.mp hnew])
    · exact .inr (List.mem_cons_of_mem _ hkvs)

theorem stringText_map_scalar (k : List Char) : stringText (k.map .scalar) = String.ofList k := by
  have hk := stringText_scalar (String.ofList k)
  rwa [String.toList_ofList] at hk

theorem outside_str {k : List Char} (hk : ∀ c ∈ k, outside c = true) : Outside (.str (stringText (k.map .scalar))) := by
  rintro c ⟨hc⟩
  rw [stringText_map_scalar, String.toList_ofList] at hc
  exact hk c hc

/-- The items are made of characters from outside the literals. -/
def ItemsOutside (kvs : List (String × Json)) : Prop := ∀ kv ∈ kvs, (∀ c ∈ kv.1.toList, outside c = true) ∧ Outside kv.2

theorem ItemsOutside.cons {k : List Char} {x : Json} {kvs : List (String × Json)} (hk : ∀ c ∈ k, outside c = true)
    (hx : Outside x) (h : ItemsOutside kvs) : ItemsOutside ((stringText (k.map .scalar), x) :: kvs) := by
  intro kv hkv
  rcases List.mem_cons.mp hkv with rfl | hkv
  · refine ⟨fun c hc => ?_, hx⟩
    rw [stringText_map_scalar, String.toList_ofList] at hc
    exact hk c hc
  · exact h kv hkv

/-- **What is read from within a literal** ends within a literal, and its strings consist of characters
from outside the literals. -/
theorem flipped (n : ℕ) :
    (∀ cs v rest, value F n cs = some (v, rest) → Flipped cs → Flipped rest ∧ Outside v) ∧
    (∀ cs xs rest, elements F n cs = some (xs, rest) → Flipped cs → Flipped rest ∧ ∀ x ∈ xs, Outside x) ∧
    (∀ cs kvs rest, members F n cs = some (kvs, rest) → Flipped cs → Flipped rest ∧ ItemsOutside kvs) := by
  induction n with
  | zero =>
    refine ⟨fun cs v rest h => ?_, fun cs xs rest h => ?_, fun cs kvs rest h => ?_⟩
    · cases h
    · cases h
    · cases h
  | succ n ih =>
    obtain ⟨ihValue, ihElements, ihMembers⟩ := ih
    refine ⟨fun cs v rest h hflip => ?_, fun cs xs rest h hflip => ?_, fun cs kvs rest h hflip => ?_⟩
    · cases readsValue h with
      | str hscan =>
        obtain ⟨hrest, k, rfl, hk⟩ := hflip.lexed.of_scanString hscan
        exact ⟨hrest, outside_str hk⟩
      | objNil hws =>
        have hinner := hflip.tail (by decide)
        exact ⟨hinner.next hws (by decide), outside_obj (fun _ hkv => absurd hkv List.not_mem_nil) fun _ hkv =>
          absurd hkv List.not_mem_nil⟩
      | obj hws hkvs =>
        have hinner := hflip.tail (by decide)
        obtain ⟨hrest, hitems⟩ := ihMembers _ _ _ hkvs (hinner.dropBlanks hws)
        exact ⟨hrest, outside_obj (fun kv hkv => (hitems kv (mem_of_mem_dict hkv)).1) fun kv hkv =>
          (hitems kv (mem_of_mem_dict hkv)).2⟩
      | arrNil hws =>
        have hinner := hflip.tail (by decide)
        exact ⟨hinner.next hws (by decide), outside_arr fun _ hx => absurd hx List.not_mem_nil⟩
      | arr hws hxs =>
        have hinner := hflip.tail (by decide)
        obtain ⟨hrest, hout⟩ := ihElements _ _ _ hxs (hinner.dropBlanks hws)
        exact ⟨hrest, outside_arr hout⟩
      | atom h =>
        obtain ⟨c, hcs, -, hchars, hv, -⟩ := scanAtom_spec h
        rw [hcs] at hflip
        exact ⟨hflip.drop fun d hd => outside_of_inAtom (hchars d hd), outside_atom hv⟩
    · cases readsElements h with
      | last hx hws =>
        obtain ⟨hrest, hout⟩ := ihValue _ _ _ hx hflip
        exact ⟨hrest.next hws (by decide), List.forall_mem_singleton.mpr hout⟩
      | cons hx hws hws' hxs =>
        obtain ⟨hrest, hout⟩ := ihValue _ _ _ hx hflip
        have hinner := hrest.next hws (by decide)
        obtain ⟨hrest', hout'⟩ := ihElements _ _ _ hxs (hinner.dropBlanks hws')
        exact ⟨hrest', List.forall_mem_cons.mpr ⟨hout, hout'⟩⟩
    · cases readsMembers h with
      | last hscan hws hws' hx hws'' =>
        obtain ⟨hkey, k, rfl, hk⟩ := hflip.lexed.of_scanString hscan
        have hafter := hkey.next hws (by decide)
        obtain ⟨hrest, hout⟩ := ihValue _ _ _ hx (hafter.dropBlanks hws')
        refine ⟨hrest.next hws'' (by decide), ItemsOutside.cons hk hout ?_⟩
        intro kv hkv
        cases hkv
      | cons hscan hws hws' hx hws'' hws₃ hkvs =>
        obtain ⟨hkey, k, rfl, hk⟩ := hflip.lexed.of_scanString hscan
        have hafter := hkey.next hws (by decide)
        obtain ⟨hrest, hout⟩ := ihValue _ _ _ hx (hafter.dropBlanks hws')
        have hinner := hrest.next hws'' (by decide)
        obtain ⟨hrest', hitems⟩ := ihMembers _ _ _ hkvs (hinner.dropBlanks hws₃)
        exact ⟨hrest', hitems.cons hk hout⟩

/-! ### The objects in a list -/

/-- What follows a brace in a literal. -/
theorem Body.of_dropWhile {b t : List Char} (h : Body b) (hb : b.dropWhile (· ≠ '\x7b') = '\x7b' :: t) : Body t := by
  induction h with
  | nil => cases hb
  | @plain c cs hquote hescape h ih =>
    by_cases hc : c = '\x7b'
    · rw [List.dropWhile_cons_of_neg (by simp [hc])] at hb
      obtain rfl := (List.cons.inj hb).2
      exact h
    · rw [List.dropWhile_cons_of_pos (by simp [hc])] at hb
      exact ih hb
  | @escape c cs h ih =>
    rw [List.dropWhile_cons_of_pos (by decide)] at hb
    by_cases hc : c = '\x7b'
    · rw [List.dropWhile_cons_of_neg (by simp [hc])] at hb
      obtain rfl := (List.cons.inj hb).2
      exact h
    · rw [List.dropWhile_cons_of_pos (by simp [hc])] at hb
      exact ih hb

theorem Flipped.cons {c : Char} {cs : List Char} (h : Flipped cs) (hc : c ≠ '"' ∧ c ≠ '\\') : Flipped (c :: cs) := by
  obtain ⟨hb, hcs⟩ := h
  exact Flipped.mk (.plain hc.1 hc.2 hb) hcs

/-- The value is an object or a string. -/
def ObjectOrString : Json → Prop
  | .obj _ => True
  | .str _ => True
  | _ => False

/-- No brace is skipped with blanks. -/
theorem dropWhile_blanks {ws : List Char} (hws : ∀ c ∈ ws, isBlank c = true) (cs : List Char) :
    (ws ++ cs).dropWhile (· ≠ '\x7b') = cs.dropWhile (· ≠ '\x7b') := by
  refine List.dropWhile_append_of_pos fun d hd => ?_
  rw [decide_eq_true_eq]
  rintro rfl
  exact absurd (hws _ hd) (by decide)

theorem dropWhile_blanks_cons {ws : List Char} (hws : ∀ c ∈ ws, isBlank c = true) {c : Char} (hc : c ≠ '\x7b') (cs : List Char) :
    (ws ++ c :: cs).dropWhile (· ≠ '\x7b') = cs.dropWhile (· ≠ '\x7b') := by
  rw [dropWhile_blanks hws, List.dropWhile_cons_of_pos (by simp [hc])]

/-- Where an object or a string stands first, the first brace is that of the object, or it is in the literal, or
it comes later. -/
theorem first_brace_of_isText {x : Json} {c after t : List Char} (htext : IsText F x c) (hx : ObjectOrString x) (hafter : Lexed after)
    (ht : (c ++ after).dropWhile (· ≠ '\x7b') = '\x7b' :: t) :
    Flipped t ∨ (∃ kvs, x = .obj kvs ∧ '\x7b' :: t = c ++ after) ∨ after.dropWhile (· ≠ '\x7b') = '\x7b' :: t := by
  cases x with
  | obj kvs =>
    obtain ⟨d, hd⟩ := htext.shape
    refine .inr (.inl ⟨kvs, rfl, ?_⟩)
    rw [← ht, hd, List.cons_append, List.dropWhile_cons_of_neg (by simp)]
  | str s =>
    obtain ⟨b, rfl, hb⟩ := htext.shape
    rw [List.cons_append, List.dropWhile_cons_of_pos (by decide), List.append_assoc, List.singleton_append,
      List.dropWhile_append] at ht
    split_ifs at ht with hempty
    · rw [List.dropWhile_cons_of_pos (by decide)] at ht
      exact .inr (.inr ht)
    · -- the literal holds the brace
      obtain ⟨b', hb'⟩ : ∃ b', b.dropWhile (· ≠ '\x7b') = '\x7b' :: b' := by
        cases hdrop : b.dropWhile (· ≠ '\x7b') with
        | nil => exact absurd (by rw [hdrop]; rfl) hempty
        | cons d b' =>
          rw [hdrop, List.cons_append] at ht
          exact ⟨b', by rw [(List.cons.inj ht).1]⟩
      rw [hb', List.cons_append] at ht
      rw [← (List.cons.inj ht).2]
      exact .inl (.mk (hb.of_dropWhile hb') hafter)
  | _ => exact absurd hx id

/-- The first brace in a list of objects and strings is that of an object, or it is in a literal. -/
theorem first_brace {n : ℕ} {cs rest : List Char} {xs : List Json} (h : elements F n cs = some (xs, rest))
    (hxs : ∀ x ∈ xs, ObjectOrString x) (hrest : Lexed rest) (hnone : '\x7b' ∉ rest) {t : List Char}
    (ht : cs.dropWhile (· ≠ '\x7b') = '\x7b' :: t) :
    Flipped t ∨ ∃ kvs c rest', .obj kvs ∈ xs ∧ '\x7b' :: t = c ++ rest' ∧ IsText F (.obj kvs) c := by
  induction n generalizing cs xs with
  | zero => cases h
  | succ n ih =>
    cases readsElements h with
    | @last ws _ x hx hws =>
      obtain ⟨c, rfl, htext⟩ := (texts n).1 _ _ _ hx
      have hafter : Lexed (ws ++ ']' :: rest) := (lexed_of_blanks hws).append (.char (by decide) hrest)
      rcases first_brace_of_isText htext (hxs x (List.mem_singleton_self x)) hafter ht with hflip | ⟨kvs, rfl, heq⟩ | hlater
      · exact .inl hflip
      · exact .inr ⟨kvs, c, _, List.mem_singleton_self _, heq, htext⟩
      · rw [dropWhile_blanks_cons hws (by decide)] at hlater
        have hmem := (List.dropWhile_suffix (· ≠ '\x7b')).subset (hlater ▸ List.mem_cons_self)
        exact absurd hmem hnone
    | @cons ws ws' ds _ x ys hx hws hws' hys =>
      obtain ⟨c, rfl, htext⟩ := (texts n).1 _ _ _ hx
      have hafter : Lexed (ws ++ ',' :: (ws' ++ ds)) := by
        obtain ⟨d, rfl, htexts⟩ := (texts n).2.1 _ _ _ hys
        exact (lexed_of_blanks hws).append (.char (by decide) ((lexed_of_blanks hws').append
          (htexts.lexed.append (.char (by decide) hrest))))
      rcases first_brace_of_isText htext (hxs x List.mem_cons_self) hafter ht with hflip | ⟨kvs, rfl, heq⟩ | hlater
      · exact .inl hflip
      · exact .inr ⟨kvs, c, _, List.mem_cons_self, heq, htext⟩
      · rw [dropWhile_blanks_cons hws (by decide), dropWhile_blanks hws'] at hlater
        rcases ih hys (fun y hy => hxs y (List.mem_cons_of_mem _ hy)) hlater with hflip | ⟨kvs, c, rest', hmem, htail, hobj⟩
        · exact .inl hflip
        · exact .inr ⟨kvs, c, rest', List.mem_cons_of_mem _ hmem, htail, hobj⟩

theorem elements_ne_nil {n : ℕ} {cs rest : List Char} : elements F n cs ≠ some ([], rest) := by
  intro h
  cases n with
  | zero => cases h
  | succ n => cases readsElements h

/-- **An object that is read from the first brace in a list of objects and strings** is in the
list, or its keys consist of characters from outside the literals. -/
theorem object_within {n m : ℕ} {core w tail : List Char} {xs : List Json} {kvs : List (String × Json)}
    (h : value F n core = some (.arr xs, [])) (hxs : ∀ x ∈ xs, ObjectOrString x)
    (hcore : core.dropWhile (· ≠ '\x7b') = w ++ tail) (hw : value F m w = some (.obj kvs, [])) :
    xs ≠ [] ∧ (.obj kvs ∈ xs ∨ KeysOutside kvs) := by
  obtain ⟨c, hc, htext⟩ := (texts m).1 _ _ _ hw
  obtain rfl : w = c := by simpa using hc
  obtain ⟨d, hd⟩ := htext.shape
  have hread : ∀ k, w.length < k → value F k (w ++ tail) = some (.obj kvs, tail) := fun k hk => htext.read k tail hk trivial
  obtain ⟨t, ht⟩ : ∃ t, w ++ tail = '\x7b' :: t := ⟨d ++ ['\x7d'] ++ tail, by rw [hd]; rfl⟩
  rw [ht] at hcore
  cases n with
  | zero => cases h
  | succ n =>
    cases readsValue h with
    | arrNil hws =>
      -- in an empty list there is none
      rw [List.dropWhile_cons_of_pos (by decide), dropWhile_blanks_cons hws (by decide)] at hcore
      cases hcore
    | arr hws hys =>
      rw [List.dropWhile_cons_of_pos (by decide), dropWhile_blanks hws] at hcore
      refine ⟨fun hnil => elements_ne_nil (hnil ▸ hys), ?_⟩
      rcases first_brace hys hxs .nil (by simp) hcore with hflip | ⟨kvs', c, rest', hmem, htail, hobj⟩
      · exact .inr (((flipped (w.length + 1)).1 _ _ _ (hread _ (by omega)) (ht ▸ hflip.cons (by decide))).2.keys)
      · have hsame := hobj.read (w.length + 1 + c.length) rest' (by omega) trivial
        rw [← htail, ← ht, hread _ (by omega)] at hsame
        obtain ⟨hkvs, -⟩ := Prod.mk.inj (Option.some.inj hsame)
        exact .inl (hkvs ▸ hmem)
    | atom h =>
      obtain ⟨-, -, -, -, hatomic, -⟩ := scanAtom_spec h
      exact hatomic.elim

end Persona.JsonText
