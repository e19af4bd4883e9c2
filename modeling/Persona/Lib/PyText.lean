import Mathlib.Data.List.Basic
import Mathlib.Data.List.TakeWhile
import Mathlib.Data.Int.Notation

/-!
# Text as Python treats it

The methods of Python's `str` that the code uses, on the list of a text's
characters: `strip`, `rstrip`, `lower`, `splitlines`, and what a text's first line
is.
-/

namespace Persona.Lib.PyText

/-- What is said of the characters of a text is decided by going over the text. -/
instance (priority := 2000) decidableForallMem {p : Char → Prop} [DecidablePred p] (cs : List Char) : Decidable (∀ c ∈ cs, p c) :=
  List.decidableBAll p cs

instance (priority := 2000) decidableExistsMem {p : Char → Prop} [DecidablePred p] (cs : List Char) : Decidable (∃ c ∈ cs, p c) :=
  List.decidableBEx p cs

instance (priority := 2000) decidableForallMemOption {p : Char → Prop} [DecidablePred p] (o : Option Char) : Decidable (∀ c ∈ o, p c) :=
  match o with
  | none => .isTrue (by simp)
  | some c => decidable_of_iff (p c) (by simp)

/-- `str.isspace` of one character: the whitespace of the Unicode database. -/
def isSpace (c : Char) : Bool :=
  let n := c.toNat
  (9 ≤ n && n ≤ 13) || (28 ≤ n && n ≤ 32) || n == 0x85 || n == 0xA0 || n == 0x1680 ||
    (0x2000 ≤ n && n ≤ 0x200A) || n == 0x2028 || n == 0x2029 || n == 0x202F || n == 0x205F || n == 0x3000

/-- `str.lstrip`. -/
def lstripL (cs : List Char) : List Char := cs.dropWhile isSpace

/-- `str.rstrip`. -/
def rstripL (cs : List Char) : List Char := (cs.reverse.dropWhile isSpace).reverse

/-- `str.strip`. -/
def strip (s : String) : String := String.ofList (rstripL (lstripL s.toList))

/-- `str.rstrip`. -/
def rstrip (s : String) : String := String.ofList (rstripL s.toList)

/-- `str.lstrip`. -/
def lstrip (s : String) : String := String.ofList (lstripL s.toList)

/-- `str.lower` of one character, as far as ASCII sees it: the ASCII capitals, and the
one other character whose lower case is a single ASCII letter (the Kelvin sign). Any
other character is left alone; its lower case has a character outside ASCII. -/
def lowerChar (c : Char) : Char := if c.toNat = 0x212A then 'k' else c.toLower

/-- `str.lower`, compared only with ASCII texts. -/
def lower (s : String) : String := String.ofList (s.toList.map lowerChar)

/-- A character that ends a line for `str.splitlines`. -/
def isLineBreak (c : Char) : Bool :=
  let n := c.toNat
  (10 ≤ n && n ≤ 13) || (28 ≤ n && n ≤ 30) || n == 0x85 || n == 0x2028 || n == 0x2029

/-- `str.splitlines`; `line` is the line so far, last character first. -/
def splitlinesL (line : List Char) : List Char → List (List Char)
  | [] => if line.isEmpty then [] else [line.reverse]
  | '\r' :: '\n' :: cs => line.reverse :: splitlinesL [] cs
  | c :: cs => if isLineBreak c then line.reverse :: splitlinesL [] cs else splitlinesL (c :: line) cs

/-- `str.splitlines`. -/
def splitlines (s : String) : List String := (splitlinesL [] s.toList).map String.ofList

/-- The first line of a text. -/
def firstLine (s : String) : String := String.ofList (s.toList.takeWhile (· ≠ '\n'))

/-- What Python knows of the characters outside ASCII. -/
structure Unicode where
  /-- `str.lower`. -/
  lower : String → String
  /-- `\w`. -/
  isWord : Char → Bool
  /-- `\d`. -/
  isDecimal : Char → Bool
  /-- `str.isdigit` of one character. -/
  isDigit : Char → Bool

/-- Of ASCII alone. -/
def Unicode.ascii : Unicode := ⟨PyText.lower, fun c => c.isAlphanum || c = '_', Char.isDigit, Char.isDigit⟩

/-- The value of the digits that follow a number's first ones, with single `_` between them. -/
def digitsFrom (decimal : Char → Option ℕ) (value : ℕ) : List Char → Option ℕ
  | [] => some value
  | '_' :: c :: cs => (decimal c).bind fun d => digitsFrom decimal (10 * value + d) cs
  | c :: cs => (decimal c).bind fun d => digitsFrom decimal (10 * value + d) cs

/-- `int(s)`, given the values of the decimal digits; `none` is a `ValueError`. -/
def int (decimal : Char → Option ℕ) (s : String) : Option ℤ :=
  match (strip s).toList with
  | [] => none
  | '-' :: c :: cs => ((decimal c).bind fun d => digitsFrom decimal d cs).map fun n => -n
  | '+' :: c :: cs => ((decimal c).bind fun d => digitsFrom decimal d cs).map fun n => n
  | c :: cs => ((decimal c).bind fun d => digitsFrom decimal d cs).map fun n => n

/-- The number that decimal digits stand for. -/
def ofDigits (decimal : Char → Option ℕ) (cs : List Char) : Option ℕ :=
  (cs.mapM decimal).map fun ds => ds.foldl (fun n d => 10 * n + d) 0

/-- A decimal integer literal and its value: digits, with or without a minus sign before them. -/
def IsLiteral (decimal : Char → Option ℕ) (cs : List Char) (i : ℤ) : Prop :=
  ∃ ds n, ds ≠ [] ∧ ofDigits decimal ds = some n ∧ (cs = ds ∧ i = n ∨ cs = '-' :: ds ∧ i = -n)

/-- The decimal digits of ASCII. -/
def asciiDecimal (c : Char) : Option ℕ := if c.isDigit then some (c.toNat - '0'.toNat) else none

/-- `s[-n:]`. -/
def lastChars (n : ℕ) (s : String) : String := String.ofList (s.toList.drop (s.toList.length - n))

/-- A line break is a blank. -/
theorem isSpace_of_isLineBreak {c : Char} (h : isLineBreak c = true) : isSpace c = true := by
  simp only [isLineBreak, isSpace, Bool.or_eq_true, Bool.and_eq_true, decide_eq_true_eq, beq_iff_eq] at h ⊢
  omega

/-- What ends in a character that is no blank keeps it under `rstrip`, whatever follows. -/
theorem rstripL_append {xs ys : List Char} (h : ∀ c ∈ xs.getLast?, isSpace c = false) (hne : xs ≠ []) :
    rstripL (xs ++ ys) = xs ++ rstripL ys := by
  obtain ⟨zs, c, rfl⟩ := List.eq_nil_or_concat xs |>.resolve_left hne
  have hc : isSpace c = false := h c (by simp)
  have hrev : (zs.concat c ++ ys).reverse = ys.reverse ++ c :: zs.reverse := by simp
  rw [rstripL, rstripL, hrev, List.dropWhile_append]
  split_ifs with hys
  · have hys : ys.reverse.dropWhile isSpace = [] := by simpa using hys
    rw [hys, List.dropWhile_cons_of_neg (by simp [hc])]
    simp
  · simp

theorem rstripL_prefix (cs : List Char) : rstripL cs <+: cs := by
  have h := List.reverse_prefix.mpr (List.dropWhile_suffix isSpace (l := cs.reverse))
  rwa [List.reverse_reverse] at h

/-- What stands between characters that are no blanks is kept by `strip`. -/
theorem strip_around {xs core ys : List Char} (hne : core ≠ []) (hfirst : ∀ c ∈ core.head?, isSpace c = false)
    (hlast : ∀ c ∈ core.getLast?, isSpace c = false) :
    rstripL (lstripL (xs ++ (core ++ ys))) = lstripL xs ++ (core ++ rstripL ys) := by
  have hstart : lstripL (core ++ ys) = core ++ ys := by
    obtain ⟨c, core, rfl⟩ := List.exists_cons_of_ne_nil hne
    exact List.dropWhile_cons_of_neg (by simp [hfirst c rfl])
  have hleft : lstripL (xs ++ (core ++ ys)) = lstripL xs ++ core ++ ys := by
    rw [lstripL, lstripL, List.dropWhile_append]
    split_ifs with hxs
    · rw [List.isEmpty_iff.mp hxs]
      exact hstart
    · rw [List.append_assoc]
  rw [hleft, rstripL_append (by rwa [List.getLast?_append_of_ne_nil _ hne]) (by simp [hne]), List.append_assoc]

theorem lstripL_eq_nil_iff {cs : List Char} : lstripL cs = [] ↔ ∀ c ∈ cs, isSpace c = true := List.dropWhile_eq_nil_iff

theorem rstripL_eq_nil_iff {cs : List Char} : rstripL cs = [] ↔ ∀ c ∈ cs, isSpace c = true := by
  rw [rstripL, List.reverse_eq_nil_iff, List.dropWhile_eq_nil_iff]
  simp

theorem head?_lstripL {cs : List Char} : ∀ c ∈ (lstripL cs).head?, isSpace c = false := by
  intro c hc
  have hhead := List.head?_dropWhile_not isSpace cs
  rw [lstripL, Option.mem_def] at hc
  rw [hc] at hhead
  simpa using hhead

theorem getLast?_rstripL {cs : List Char} : ∀ c ∈ (rstripL cs).getLast?, isSpace c = false := by
  intro c hc
  have hhead := List.head?_dropWhile_not isSpace cs.reverse
  rw [rstripL, List.getLast?_reverse, Option.mem_def] at hc
  rw [hc] at hhead
  simpa using hhead

theorem head?_strip {cs : List Char} : ∀ c ∈ (rstripL (lstripL cs)).head?, isSpace c = false := by
  intro c hc
  obtain ⟨tail, htail⟩ := rstripL_prefix (lstripL cs)
  have hne : rstripL (lstripL cs) ≠ [] := by
    intro hnil
    rw [hnil] at hc
    cases hc
  have hhead : (lstripL cs).head? = (rstripL (lstripL cs)).head? := by
    conv_lhs => rw [← htail]
    exact List.head?_append_of_ne_nil _ hne
  exact head?_lstripL c (hhead ▸ hc)

/-- A text without blanks at its end keeps it under `rstrip`. -/
theorem rstripL_eq_self {cs : List Char} (h : ∀ c ∈ cs.getLast?, isSpace c = false) : rstripL cs = cs := by
  by_cases hne : cs = []
  · rw [hne]
    rfl
  · have happend : rstripL (cs ++ []) = cs ++ rstripL [] := rstripL_append h hne
    have hnil : rstripL [] = [] := rfl
    rwa [List.append_nil, hnil, List.append_nil] at happend

/-- A text without blanks at its ends has nothing to strip. -/
theorem strip_eq_self {cs : List Char} (hfirst : ∀ c ∈ cs.head?, isSpace c = false)
    (hlast : ∀ c ∈ cs.getLast?, isSpace c = false) : rstripL (lstripL cs) = cs := by
  cases cs with
  | nil => rfl
  | cons c cs =>
    have hstart : lstripL (c :: cs) = c :: cs := List.dropWhile_cons_of_neg (by simp [hfirst c rfl])
    rw [hstart, rstripL_eq_self hlast]

theorem strip_strip (s : String) : strip (strip s) = strip s := by
  conv_lhs => rw [strip]
  rw [strip, String.toList_ofList, strip_eq_self head?_strip getLast?_rstripL]

theorem strip_ofList (cs : List Char) : strip (String.ofList cs) = String.ofList (rstripL (lstripL cs)) := by
  rw [strip, String.toList_ofList]

/-- Blanks are all that is stripped to nothing. -/
theorem strip_eq_empty_iff {s : String} : strip s = "" ↔ ∀ c ∈ s.toList, isSpace c = true := by
  rw [strip, String.ofList_eq_empty_iff, rstripL_eq_nil_iff]
  constructor
  · intro h
    refine lstripL_eq_nil_iff.mp ?_
    by_contra hne
    obtain ⟨c, rest, hcs⟩ := List.exists_cons_of_ne_nil hne
    have hfirst : isSpace c = false := head?_lstripL c (by rw [hcs]; rfl)
    rw [h c (by rw [hcs]; exact List.mem_cons_self)] at hfirst
    cases hfirst
  · intro h c hc
    exact h c ((List.dropWhile_suffix _).subset hc)

/-- A line that is stripped already is the first line of what it begins. -/
theorem firstLine_rstrip {s : String} (t : String) (hne : s.toList ≠ []) (hline : '\n' ∉ s.toList)
    (hlast : ∀ c ∈ s.toList.getLast?, isSpace c = false) : firstLine (rstrip (s ++ "\n" ++ t) ++ "\n") = s := by
  have hlist : (rstrip (s ++ "\n" ++ t) ++ "\n").toList = s.toList ++ (rstripL ('\n' :: t.toList) ++ ['\n']) := by
    have hbreak : "\n".toList = ['\n'] := rfl
    rw [rstrip, String.toList_append, String.toList_ofList, String.toList_append, String.toList_append,
      List.append_assoc, hbreak, List.singleton_append, rstripL_append hlast hne, List.append_assoc]
  have hrest : (rstripL ('\n' :: t.toList) ++ ['\n']).takeWhile (· ≠ '\n') = [] := by
    have hpre := rstripL_prefix ('\n' :: t.toList)
    cases hr : rstripL ('\n' :: t.toList) with
    | nil => rfl
    | cons c cs =>
      rw [hr, List.cons_prefix_cons] at hpre
      rw [hpre.1]
      rfl
  have hself : ∀ c ∈ s.toList, decide (c ≠ '\n') = true := by
    intro c hc
    rw [decide_eq_true_eq]
    rintro rfl
    exact hline hc
  rw [firstLine, hlist, List.takeWhile_append_of_pos hself, hrest, List.append_nil, String.ofList_toList]

/-- A text between braces has nothing to strip. -/
theorem strip_braces (s : String) : strip ("\x7b" ++ s ++ "\x7d") = "\x7b" ++ s ++ "\x7d" := by
  have hl : ("\x7b" ++ s ++ "\x7d").toList = '\x7b' :: s.toList ++ ['\x7d'] := by
    simp only [String.toList_append]
    rfl
  have hstart : lstripL ('\x7b' :: s.toList ++ ['\x7d']) = '\x7b' :: s.toList ++ ['\x7d'] :=
    List.dropWhile_cons_of_neg (by decide)
  have hstop : rstripL ('\x7b' :: s.toList ++ ['\x7d']) = '\x7b' :: s.toList ++ ['\x7d'] := by
    rw [rstripL, List.reverse_append]
    exact (congrArg List.reverse (List.dropWhile_cons_of_neg (by decide))).trans (by simp)
  rw [strip, hl, hstart, hstop, ← hl, String.ofList_toList]

/-! ### Integer literals -/

section

variable {decimal : Char → Option ℕ} {cs : List Char} {i : ℤ}

theorem digitsFrom_eq (h : '_' ∉ cs) (n : ℕ) :
    digitsFrom decimal n cs = (cs.mapM decimal).map fun ds => ds.foldl (fun n d => 10 * n + d) n := by
  induction cs generalizing n with
  | nil => rfl
  | cons c cs ih =>
    obtain ⟨hc, hcs⟩ := not_or.mp (mt List.mem_cons.mpr h)
    have hstep : digitsFrom decimal n (c :: cs) = (decimal c).bind fun d => digitsFrom decimal (10 * n + d) cs := by
      rw [digitsFrom]
      rintro d ds rfl
      exact absurd rfl hc
    rw [hstep, List.mapM_cons]
    cases decimal c with
    | none => rfl
    | some d =>
      simp only [Option.bind_some, ih hcs]
      cases cs.mapM decimal <;> rfl

theorem ofDigits_cons (c : Char) (h : '_' ∉ cs) :
    ofDigits decimal (c :: cs) = (decimal c).bind fun d => digitsFrom decimal d cs := by
  rw [ofDigits, List.mapM_cons]
  cases decimal c with
  | none => rfl
  | some d =>
    simp only [Option.bind_some, digitsFrom_eq h]
    cases cs.mapM decimal <;> simp

/-- **What `int` takes** of the texts that have no `_` and no plus sign. -/
theorem int_eq_some_iff {s : String} (hplus : '+' ∉ (strip s).toList) (hunder : '_' ∉ (strip s).toList)
    (hminus : decimal '-' = none) : int decimal s = some i ↔ IsLiteral decimal (strip s).toList i := by
  unfold int IsLiteral
  generalize (strip s).toList = cs at hplus hunder ⊢
  split
  · simp
  · rename_i c cs
    have hcs : '_' ∉ cs := fun h => hunder (List.mem_cons_of_mem _ (List.mem_cons_of_mem _ h))
    rw [← ofDigits_cons c hcs]
    have hnone : ofDigits decimal ('-' :: c :: cs) = none := by
      rw [ofDigits, List.mapM_cons, hminus]
      rfl
    constructor
    · intro h
      cases hn : ofDigits decimal (c :: cs) with
      | none =>
        rw [hn] at h
        cases h
      | some n =>
        rw [hn] at h
        exact ⟨c :: cs, n, List.cons_ne_nil _ _, hn, .inr ⟨rfl, (Option.some.inj h).symm⟩⟩
    · rintro ⟨ds, n, -, hn, ⟨rfl, rfl⟩ | ⟨heq, rfl⟩⟩
      · rw [hnone] at hn
        cases hn
      · obtain rfl := (List.cons.inj heq).2
        rw [hn]
        rfl
  · exact absurd List.mem_cons_self hplus
  · rename_i c cs hnot _
    have hcs : '_' ∉ cs := fun h => hunder (List.mem_cons_of_mem _ h)
    rw [← ofDigits_cons c hcs]
    constructor
    · intro h
      cases hn : ofDigits decimal (c :: cs) with
      | none =>
        rw [hn] at h
        cases h
      | some n =>
        rw [hn] at h
        exact ⟨c :: cs, n, List.cons_ne_nil _ _, hn, .inl ⟨rfl, (Option.some.inj h).symm⟩⟩
    · rintro ⟨ds, n, hne, hn, ⟨rfl, rfl⟩ | ⟨heq, rfl⟩⟩
      · rw [hn]
        rfl
      · obtain ⟨rfl, rfl⟩ := List.cons.inj heq
        obtain ⟨d, ds, rfl⟩ := List.exists_cons_of_ne_nil hne
        exact absurd rfl (hnot d ds rfl)

end

/-! ### Texts with surrogates -/

/-- A character of a Python text: a Unicode scalar value, or a lone surrogate, which JSON can
bring in. -/
inductive PyChar where
  | scalar (c : Char)
  | surrogate (n : Fin 2048)
  deriving DecidableEq

/-- A Python text in full generality. -/
abbrev PyStr := List PyChar

namespace PyStr

/-- `str.isspace` of one character. -/
def isSpace : PyChar → Bool
  | .scalar c => PyText.isSpace c
  | .surrogate _ => false

/-- `str.rstrip`. -/
def rstrip (s : PyStr) : PyStr := (s.reverse.dropWhile isSpace).reverse

/-- `str.strip`. -/
def strip (s : PyStr) : PyStr := rstrip (s.dropWhile isSpace)

/-- `s[:n]`. -/
def upTo (n : ℤ) (s : PyStr) : PyStr := s.take (if 0 ≤ n then n.toNat else s.length - n.natAbs)

/-- A text without surrogates. -/
def ofString (s : String) : PyStr := s.toList.map .scalar

/-- What is encoded for a character by `encode("utf-8", "replace")`. -/
def replaced : PyChar → Char
  | .scalar c => c
  | .surrogate _ => '?'

/-- `s.encode("utf-8", "replace")`. -/
def encode (s : PyStr) : ByteArray := (String.ofList (s.map replaced)).toUTF8

/-- Two texts have one encoding exactly when they differ in surrogates and question marks alone. -/
theorem encode_eq_iff {s t : PyStr} : encode s = encode t ↔ s.map replaced = t.map replaced := by
  rw [encode, encode, String.toUTF8_eq_toByteArray, String.toUTF8_eq_toByteArray, String.toByteArray_inj,
    String.ofList_inj]

end PyStr

end Persona.Lib.PyText
