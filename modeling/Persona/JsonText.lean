import Persona.Json

/-!
# JSON texts

`json.loads` and `json.dumps(obj, ensure_ascii=False)` of Python's library, on the
characters of a text. `loads` follows the scanner of the library: blanks, strings with their
escapes, numbers, the constants that are no JSON, objects and arrays, and nothing after the
value. In an object the last value of a key counts.

Floats are left to a `Floats`, since reading and writing them is a matter of rounding. A
lone surrogate that an escape stands for is read as the replacement character, and no limit
is put on the depth of a value or on the length of an integer.

`loads_dumps` says that a value is read back from its text.
-/

namespace Persona.JsonText

open Persona.Lib.PyText (PyChar PyStr)

/-! ### Reading -/

/-- A blank of JSON. -/
def isBlank (c : Char) : Bool := c = ' ' || c = '\t' || c = '\n' || c = '\r'

def skipBlanks (cs : List Char) : List Char := cs.dropWhile isBlank

/-- The value of a hexadecimal digit. -/
def hexValue (c : Char) : Option ℕ :=
  if '0' ≤ c ∧ c ≤ '9' then some (c.toNat - '0'.toNat)
  else if 'a' ≤ c ∧ c ≤ 'f' then some (c.toNat - 'a'.toNat + 10)
  else if 'A' ≤ c ∧ c ≤ 'F' then some (c.toNat - 'A'.toNat + 10)
  else none

/-- The code unit that an escape stands for. -/
def codeUnit (n : ℕ) : PyChar :=
  if h : 0xD800 ≤ n ∧ n < 0xE000 then .surrogate ⟨n - 0xD800, by omega⟩ else .scalar (Char.ofNat n)

/-- `\uXXXX`. -/
def hexUnit (a b c d : Char) : Option PyChar :=
  match hexValue a, hexValue b, hexValue c, hexValue d with
  | some a, some b, some c, some d => some (codeUnit (16 * (16 * (16 * a + b) + c) + d))
  | _, _, _, _ => none

/-- The character that a backslash and this one stand for. -/
def simpleEscape (c : Char) : Option Char :=
  if c = '"' ∨ c = '\\' ∨ c = '/' then some c
  else if c = 'b' then some '\x08'
  else if c = 'f' then some '\x0c'
  else if c = 'n' then some '\n'
  else if c = 'r' then some '\r'
  else if c = 't' then some '\t'
  else none

/-- The characters of a string, after its opening quote, and what follows the closing one. -/
def scanString : List Char → Option (PyStr × List Char)
  | [] => none
  | '"' :: cs => some ([], cs)
  | '\\' :: 'u' :: a :: b :: c :: d :: cs =>
    match hexUnit a b c d, scanString cs with
    | some u, some (s, rest) => some (u :: s, rest)
    | _, _ => none
  | '\\' :: c :: cs =>
    match simpleEscape c, scanString cs with
    | some u, some (s, rest) => some (.scalar u :: s, rest)
    | _, _ => none
  | c :: cs =>
    if c = '\\' ∨ c.toNat < 0x20 then none
    else (scanString cs).map fun r => (.scalar c :: r.1, r.2)

/-- Two surrogates that make a character. -/
def joinSurrogates : PyStr → PyStr
  | .surrogate h :: .surrogate l :: s =>
    if h.val < 0x400 ∧ 0x400 ≤ l.val then
      .scalar (Char.ofNat (0x10000 + 0x400 * h.val + (l.val - 0x400))) :: joinSurrogates s
    else .surrogate h :: joinSurrogates (.surrogate l :: s)
  | c :: s => c :: joinSurrogates s
  | [] => []

/-- The text of a string. -/
def stringText (s : PyStr) : String :=
  String.ofList ((joinSurrogates s).map fun
    | .scalar c => c
    | .surrogate _ => '\uFFFD')

/-- The integer part of a number: a zero, or digits that do not begin with one. -/
def scanNatural (cs : List Char) : Option (List Char × List Char) :=
  if cs.head? = some '0' then some (['0'], cs.tail)
  else if (cs.takeWhile Char.isDigit).isEmpty then none
  else some (cs.takeWhile Char.isDigit, cs.dropWhile Char.isDigit)

/-- The sign of a number and its integer part. -/
def scanInteger (cs : List Char) : Option (List Char × List Char) :=
  if cs.head? = some '-' then (scanNatural cs.tail).map fun (ds, rest) => ('-' :: ds, rest) else scanNatural cs

/-- The fraction of a number, if there is one. -/
def scanFraction (cs : List Char) : List Char × List Char :=
  if cs.head? = some '.' ∧ (cs.tail.takeWhile Char.isDigit).isEmpty = false then
    ('.' :: cs.tail.takeWhile Char.isDigit, cs.tail.dropWhile Char.isDigit)
  else ([], cs)

/-- The exponent of a number, if there is one. -/
def scanExponent : List Char → List Char × List Char
  | [] => ([], [])
  | e :: cs =>
    let sign := if cs.head? = some '-' ∨ cs.head? = some '+' then cs.take 1 else []
    let ds := (cs.drop sign.length).takeWhile Char.isDigit
    if (e = 'e' ∨ e = 'E') ∧ ds.isEmpty = false then (e :: (sign ++ ds), (cs.drop sign.length).dropWhile Char.isDigit)
    else ([], e :: cs)

/-- A number: its text, whether it is a float, and what follows it. -/
def scanNumber (cs : List Char) : Option (List Char × Bool × List Char) :=
  (scanInteger cs).map fun (i, cs) =>
    let (f, cs) := scanFraction cs
    let (e, cs) := scanExponent cs
    (i ++ f ++ e, !(f.isEmpty && e.isEmpty), cs)

/-- The number that the text of an integer stands for. -/
def integer (cs : List Char) : ℤ :=
  if cs.head? = some '-' then -(Nat.ofDigitChars 10 cs.tail 0 : ℤ) else Nat.ofDigitChars 10 cs 0

/-- What is known of floats. -/
structure Floats where
  /-- The rational number is one. -/
  IsDouble : ℚ → Prop
  /-- `float.__repr__`. -/
  repr : ℚ → List Char
  /-- `float` of the text of a number. -/
  read : List Char → PyFloat
  read_repr : ∀ q, IsDouble q → read (repr q) = .fin q
  /-- A float is written with a fraction or an exponent. -/
  scan_repr : ∀ q, IsDouble q → ∀ rest, (∀ c ∈ rest.head?, ¬ c.isDigit ∧ c ≠ '.' ∧ c ≠ 'e' ∧ c ≠ 'E') →
    scanNumber (repr q ++ rest) = some (repr q, true, rest)

/-- No float is known. -/
def Floats.none : Floats where
  IsDouble _ := False
  repr _ := []
  read _ := .nonfinite
  read_repr _ h := h.elim
  scan_repr _ h := h.elim

variable (F : Floats)

/-- The constants, with the three that are no JSON. -/
def constants : List (String × Json) :=
  [("null", .null), ("true", .bool true), ("false", .bool false), ("NaN", .float .nonfinite),
    ("Infinity", .float .nonfinite), ("-Infinity", .float .nonfinite)]

/-- A value that is no string, object or array. -/
def scanAtom (cs : List Char) : Option (Json × List Char) :=
  match constants.find? fun c => c.1.toList.isPrefixOf cs with
  | some (w, v) => some (v, cs.drop w.length)
  | none =>
    (scanNumber cs).map fun (token, isFloat, rest) =>
      (if isFloat then .float (F.read token) else .int (integer token), rest)

/-- An item is set in a dictionary: an old key keeps its place. -/
def setKey (kvs : List (String × Json)) (kv : String × Json) : List (String × Json) :=
  if kv.1 ∈ kvs.map Prod.fst then kvs.map fun old => if old.1 = kv.1 then kv else old else kvs ++ [kv]

/-- The dictionary of the items of an object. -/
def dict (kvs : List (String × Json)) : List (String × Json) := kvs.foldl setKey []

mutual

/-- A value, and what follows it. -/
def value : ℕ → List Char → Option (Json × List Char)
  | 0, _ => none
  | n + 1, cs =>
    match cs with
    | [] => none
    | c :: rest =>
      if c = '"' then (scanString rest).map fun (s, rest) => (.str (stringText s), rest)
      else if c = '\x7b' then
        if (skipBlanks rest).head? = some '\x7d' then some (.obj [], (skipBlanks rest).tail)
        else (members n (skipBlanks rest)).map fun (kvs, rest) => (.obj (dict kvs), rest)
      else if c = '[' then
        if (skipBlanks rest).head? = some ']' then some (.arr [], (skipBlanks rest).tail)
        else (elements n (skipBlanks rest)).map fun (xs, rest) => (.arr xs, rest)
      else scanAtom F cs

/-- The elements of an array, up to its end. -/
def elements : ℕ → List Char → Option (List Json × List Char)
  | 0, _ => none
  | n + 1, cs =>
    match value n cs with
    | none => none
    | some (x, rest) =>
      if (skipBlanks rest).head? = some ']' then some ([x], (skipBlanks rest).tail)
      else if (skipBlanks rest).head? = some ',' then
        (elements n (skipBlanks (skipBlanks rest).tail)).map fun (xs, rest) => (x :: xs, rest)
      else none

/-- The items of an object, up to its end. -/
def members : ℕ → List Char → Option (List (String × Json) × List Char)
  | 0, _ => none
  | n + 1, cs =>
    if cs.head? = some '"' then
      match scanString cs.tail with
      | none => none
      | some (k, rest) =>
        if (skipBlanks rest).head? = some ':' then
          match value n (skipBlanks (skipBlanks rest).tail) with
          | none => none
          | some (x, rest) =>
            if (skipBlanks rest).head? = some '\x7d' then some ([(stringText k, x)], (skipBlanks rest).tail)
            else if (skipBlanks rest).head? = some ',' then
              (members n (skipBlanks (skipBlanks rest).tail)).map fun (kvs, rest) => ((stringText k, x) :: kvs, rest)
            else none
        else none
    else none

end

/-- `json.loads`; `none` when it raises. -/
def loads (s : String) : Option Json :=
  match value F (s.toList.length + 1) (skipBlanks s.toList) with
  | some (v, rest) => if (skipBlanks rest).isEmpty then some v else none
  | none => none

/-! ### Writing -/

/-- A hexadecimal digit. -/
def hexDigit (n : ℕ) : Char := if n < 10 then Char.ofNat ('0'.toNat + n) else Char.ofNat ('a'.toNat + (n - 10))

/-- A character of a string. -/
def escape (c : Char) : List Char :=
  if c = '"' ∨ c = '\\' then ['\\', c]
  else if c = '\x08' then ['\\', 'b']
  else if c = '\x0c' then ['\\', 'f']
  else if c = '\n' then ['\\', 'n']
  else if c = '\r' then ['\\', 'r']
  else if c = '\t' then ['\\', 't']
  else if c.toNat < 0x20 then ['\\', 'u', '0', '0', hexDigit (c.toNat / 16), hexDigit (c.toNat % 16)]
  else [c]

/-- A string. -/
def dumpString (s : String) : List Char := '"' :: (s.toList.flatMap escape ++ ['"'])

/-- An integer. -/
def dumpInt (n : ℤ) : List Char :=
  if n < 0 then '-' :: Nat.toDigits 10 n.natAbs else Nat.toDigits 10 n.natAbs

mutual

/-- A value. -/
def dump : Json → List Char
  | .null => "null".toList
  | .bool b => if b then "true".toList else "false".toList
  | .int n => dumpInt n
  | .float (.fin q) => F.repr q
  | .float .nonfinite => "NaN".toList
  | .str s => dumpString s
  | .arr xs => '[' :: (dumpElements xs ++ [']'])
  | .obj kvs => '\x7b' :: (dumpMembers kvs ++ ['\x7d'])

/-- The elements of an array. -/
def dumpElements : List Json → List Char
  | [] => []
  | [x] => dump x
  | x :: y :: xs => dump x ++ ", ".toList ++ dumpElements (y :: xs)

/-- The items of an object. -/
def dumpMembers : List (String × Json) → List Char
  | [] => []
  | [(k, x)] => dumpString k ++ ": ".toList ++ dump x
  | (k, x) :: kv :: kvs => dumpString k ++ ": ".toList ++ dump x ++ ", ".toList ++ dumpMembers (kv :: kvs)

end

/-- `json.dumps(obj, ensure_ascii=False)`. -/
def dumps (v : Json) : String := String.ofList (dump F v)

/-! ### Strings -/

theorem hexValue_hexDigit : ∀ n < 16, hexValue (hexDigit n) = some n := by decide

/-- An escape of one character is read as what it stands for. -/
theorem scanString_simple {a c : Char} (h : simpleEscape a = some c) (cs : List Char) :
    scanString ('\\' :: a :: cs) = (scanString cs).map fun r => (.scalar c :: r.1, r.2) := by
  have hu : a ≠ 'u' := by
    rintro rfl
    have hnone : simpleEscape 'u' = none := rfl
    rw [hnone] at h
    cases h
  rw [scanString.eq_4 a cs (by simp [hu]), h]
  cases scanString cs <;> rfl

/-- Any other character is read as itself. -/
theorem scanString_plain {c : Char} (hq : c ≠ '"') (hb : c ≠ '\\') (hc : ¬ c.toNat < 0x20) (cs : List Char) :
    scanString (c :: cs) = (scanString cs).map fun r => (.scalar c :: r.1, r.2) := by
  rw [scanString.eq_5 c cs hq (by simp [hb]) (by simp [hb]), if_neg (by simp [hb, hc])]

theorem scanString_escape (c : Char) (cs : List Char) :
    scanString (escape c ++ cs) = (scanString cs).map fun r => (.scalar c :: r.1, r.2) := by
  unfold escape
  split_ifs with h1 h2 h3 h4 h5 h6 h7
  · exact scanString_simple (by rcases h1 with rfl | rfl <;> rfl) cs
  · exact scanString_simple (by rw [h2]; rfl) cs
  · exact scanString_simple (by rw [h3]; rfl) cs
  · exact scanString_simple (by rw [h4]; rfl) cs
  · exact scanString_simple (by rw [h5]; rfl) cs
  · exact scanString_simple (by rw [h6]; rfl) cs
  · -- a control character is written in hexadecimal
    have hhigh := hexValue_hexDigit (c.toNat / 16) (by omega)
    have hlow := hexValue_hexDigit (c.toNat % 16) (by omega)
    have hzero : hexValue '0' = some 0 := rfl
    have hunit : hexUnit '0' '0' (hexDigit (c.toNat / 16)) (hexDigit (c.toNat % 16)) = some (.scalar c) := by
      have hn : 16 * (16 * (16 * 0 + 0) + c.toNat / 16) + c.toNat % 16 = c.toNat := by omega
      simp only [hexUnit, hzero, hhigh, hlow, hn]
      rw [codeUnit, dif_neg (by omega), Char.ofNat_toNat]
    simp only [List.cons_append, List.nil_append]
    rw [scanString, hunit]
    cases scanString cs <;> rfl
  · rw [not_or] at h1
    exact scanString_plain h1.1 h1.2 h7 cs

/-- A string is read back. -/
theorem scanString_flatMap_escape (s rest : List Char) :
    scanString (s.flatMap escape ++ '"' :: rest) = some (s.map .scalar, rest) := by
  induction s with
  | nil => rfl
  | cons c s ih =>
    rw [List.flatMap_cons, List.append_assoc, scanString_escape, ih]
    rfl

theorem joinSurrogates_scalar (s : List Char) : joinSurrogates (s.map .scalar) = s.map .scalar := by
  induction s with
  | nil => rfl
  | cons c s ih =>
    rw [List.map_cons, joinSurrogates, ih]
    intro h l t hsurr
    cases hsurr

theorem stringText_scalar (s : String) : stringText (s.toList.map .scalar) = s := by
  rw [stringText, joinSurrogates_scalar, List.map_map]
  exact (congrArg String.ofList (List.map_id _)).trans String.ofList_toList

/-! ### Numbers -/

/-- A number ends before this text. -/
def EndsNumber (rest : List Char) : Prop := ∀ c ∈ rest.head?, ¬ c.isDigit ∧ c ≠ '.' ∧ c ≠ 'e' ∧ c ≠ 'E'

theorem isDigit_of_mem_toDigits {n : ℕ} {c : Char} (h : c ∈ Nat.toDigits 10 n) : c.isDigit = true :=
  Nat.isDigit_of_mem_toDigits (by decide) (by decide) h

/-- The digits of a number begin with a zero only if it is zero. -/
theorem eq_zero_of_head?_toDigits (n : ℕ) (h : (Nat.toDigits 10 n).head? = some '0') : n = 0 := by
  induction n using Nat.strong_induction_on with
  | _ n ih =>
    by_cases hn : n < 10
    · rw [Nat.toDigits_of_lt_base hn] at h
      simpa using h
    · rw [Nat.toDigits_of_base_le (by decide) (by omega), List.head?_append_of_ne_nil _ Nat.toDigits_ne_nil] at h
      have := ih (n / 10) (by omega) h
      omega

/-- What has no digit in front is left by a scan of digits. -/
theorem span_digits {ds rest : List Char} (hds : ∀ c ∈ ds, c.isDigit = true) (hrest : ∀ c ∈ rest.head?, ¬ c.isDigit) :
    (ds ++ rest).takeWhile Char.isDigit = ds ∧ (ds ++ rest).dropWhile Char.isDigit = rest := by
  rw [List.takeWhile_append_of_pos hds, List.dropWhile_append_of_pos hds]
  cases rest with
  | nil => simp
  | cons c rest =>
    have hc : c.isDigit = false := by simpa using hrest c rfl
    simp [hc]

theorem scanNatural_toDigits {n : ℕ} {rest : List Char} (hrest : EndsNumber rest) :
    scanNatural (Nat.toDigits 10 n ++ rest) = some (Nat.toDigits 10 n, rest) := by
  have hdigits : ∀ c ∈ Nat.toDigits 10 n, c.isDigit = true := fun c hc => isDigit_of_mem_toDigits hc
  have hspan := span_digits hdigits fun c hc => (hrest c hc).1
  have hhead : (Nat.toDigits 10 n ++ rest).head? = (Nat.toDigits 10 n).head? :=
    List.head?_append_of_ne_nil _ Nat.toDigits_ne_nil
  rw [scanNatural, hhead, hspan.1, hspan.2]
  split_ifs with hzero hempty
  · obtain rfl := eq_zero_of_head?_toDigits n hzero
    rfl
  · exact absurd (List.isEmpty_iff.mp hempty) Nat.toDigits_ne_nil
  · rfl

theorem scanInteger_dumpInt (n : ℤ) {rest : List Char} (hrest : EndsNumber rest) :
    scanInteger (dumpInt n ++ rest) = some (dumpInt n, rest) := by
  have hminus : ∀ m : ℕ, (Nat.toDigits 10 m ++ rest).head? ≠ some '-' := by
    intro m h
    rw [List.head?_append_of_ne_nil _ Nat.toDigits_ne_nil] at h
    have hdigit := isDigit_of_mem_toDigits (List.mem_of_mem_head? h)
    revert hdigit
    decide
  rw [dumpInt]
  split_ifs with hn
  · rw [List.cons_append, scanInteger, List.head?_cons, if_pos rfl, List.tail_cons, scanNatural_toDigits hrest]
    rfl
  · rw [scanInteger, if_neg (hminus _), scanNatural_toDigits hrest]

theorem integer_dumpInt (n : ℤ) : integer (dumpInt n) = n := by
  have hnat : ∀ m : ℕ, Nat.ofDigitChars 10 (Nat.toDigits 10 m) 0 = m := fun m =>
    Nat.ofDigitChars_toDigits (by decide) (by decide)
  have hminus : ∀ m : ℕ, (Nat.toDigits 10 m).head? ≠ some '-' := by
    intro m h
    have hdigit := isDigit_of_mem_toDigits (List.mem_of_mem_head? h)
    revert hdigit
    decide
  rw [dumpInt]
  split_ifs with hn
  · rw [integer, List.head?_cons, if_pos rfl, List.tail_cons, hnat]
    omega
  · rw [integer, if_neg (hminus _), hnat]
    omega

/-- Where a number ends there is no fraction and no exponent. -/
theorem scan_endsNumber {rest : List Char} (h : EndsNumber rest) :
    scanFraction rest = ([], rest) ∧ scanExponent rest = ([], rest) := by
  cases rest with
  | nil => exact ⟨rfl, rfl⟩
  | cons c rest =>
    obtain ⟨-, hdot, he, hE⟩ := h c rfl
    simp [scanFraction, scanExponent, hdot, he, hE]

theorem scanNumber_dumpInt (n : ℤ) {rest : List Char} (hrest : EndsNumber rest) :
    scanNumber (dumpInt n ++ rest) = some (dumpInt n, false, rest) := by
  rw [scanNumber, scanInteger_dumpInt n hrest]
  simp [(scan_endsNumber hrest).1, (scan_endsNumber hrest).2]

/-- A number begins with a digit, maybe after a minus sign. -/
theorem digit_of_scanNumber {cs : List Char} {r : List Char × Bool × List Char} (h : scanNumber cs = some r) :
    ∃ d ds, d.isDigit = true ∧ (cs = d :: ds ∨ cs = '-' :: d :: ds) := by
  have hnat : ∀ cs r, scanNatural cs = some r → ∃ d ds, d.isDigit = true ∧ cs = d :: ds := by
    intro cs r hcs
    cases cs with
    | nil => cases hcs
    | cons d ds =>
      refine ⟨d, ds, ?_, rfl⟩
      rw [scanNatural] at hcs
      split_ifs at hcs with hzero hempty
      · rw [List.head?_cons, Option.some.injEq] at hzero
        rw [hzero]
        rfl
      · cases hd : d.isDigit with
        | true => rfl
        | false => simp [hd] at hempty
  obtain ⟨⟨i, rest⟩, hint, -⟩ := Option.map_eq_some_iff.mp h
  rw [scanInteger] at hint
  split_ifs at hint with hminus
  · obtain ⟨x, hx, -⟩ := Option.map_eq_some_iff.mp hint
    obtain ⟨d, ds, hd, htail⟩ := hnat _ _ hx
    refine ⟨d, ds, hd, .inr ?_⟩
    rw [← htail]
    exact List.eq_cons_of_mem_head? hminus
  · obtain ⟨d, ds, hd, hcs⟩ := hnat _ _ hint
    exact ⟨d, ds, hd, .inl hcs⟩

/-- A number is none of the constants. -/
theorem scanAtom_number {cs token rest : List Char} {isFloat : Bool} (h : scanNumber cs = some (token, isFloat, rest)) :
    scanAtom F cs = some (if isFloat then .float (F.read token) else .int (integer token), rest) := by
  have hnone : constants.find? (fun c => c.1.toList.isPrefixOf cs) = none := by
    obtain ⟨d, ds, hd, hcs⟩ := digit_of_scanNumber h
    have hne : ∀ c : Char, c.isDigit = false → (c == d) = false := by
      intro c hc
      rw [beq_eq_false_iff_ne]
      rintro rfl
      rw [hd] at hc
      cases hc
    rw [List.find?_eq_none]
    intro c hc
    simp only [constants, List.mem_cons, List.not_mem_nil, or_false] at hc
    rcases hcs with rfl | rfl <;> rcases hc with rfl | rfl | rfl | rfl | rfl | rfl <;> simp [List.isPrefixOf, hne]
  rw [scanAtom, hnone, h]
  rfl

/-! ### The round trip -/

variable {F}

/-- A value that has a text: its floats are finite ones, and its dictionaries have each key once. -/
inductive Encodable (F : Floats) : Json → Prop
  | null : Encodable F .null
  | bool (b : Bool) : Encodable F (.bool b)
  | int (n : ℤ) : Encodable F (.int n)
  | float {q : ℚ} (hq : F.IsDouble q) : Encodable F (.float (.fin q))
  | str (s : String) : Encodable F (.str s)
  | arr {xs : List Json} (h : ∀ x ∈ xs, Encodable F x) : Encodable F (.arr xs)
  | obj {kvs : List (String × Json)} (hkeys : (kvs.map Prod.fst).Nodup) (h : ∀ kv ∈ kvs, Encodable F kv.2) :
      Encodable F (.obj kvs)

/-- What the text of a value begins with. -/
def Begins (cs : List Char) : Prop := ∃ c rest, cs = c :: rest ∧ isBlank c = false ∧ c ≠ ']' ∧ c ≠ '\x7d'

theorem Begins.append {cs : List Char} (h : Begins cs) (rest : List Char) : Begins (cs ++ rest) := by
  obtain ⟨c, tail, rfl, hc⟩ := h
  exact ⟨c, tail ++ rest, rfl, hc⟩

theorem Begins.skipBlanks_eq {cs : List Char} (h : Begins cs) : skipBlanks cs = cs := by
  obtain ⟨c, rest, rfl, hc, -⟩ := h
  exact List.dropWhile_cons_of_neg (by simp [hc])

theorem Begins.head?_ne {cs : List Char} (h : Begins cs) : cs.head? ≠ some ']' ∧ cs.head? ≠ some '\x7d' := by
  obtain ⟨c, rest, rfl, -, hbracket, hbrace⟩ := h
  simp [hbracket, hbrace]

theorem begins_of_scanNumber {cs : List Char} {r : List Char × Bool × List Char} (h : scanNumber cs = some r) :
    Begins cs ∧ cs.head? ≠ some '"' ∧ cs.head? ≠ some '\x7b' ∧ cs.head? ≠ some '[' := by
  obtain ⟨d, ds, hd, hcs⟩ := digit_of_scanNumber h
  have hne : ∀ c : Char, c.isDigit = false → d ≠ c := by
    rintro c hc rfl
    rw [hd] at hc
    cases hc
  have hblank : isBlank d = false := by
    simp [isBlank, hne]
  rcases hcs with rfl | rfl
  · exact ⟨⟨d, ds, rfl, hblank, hne _ rfl, hne _ rfl⟩, by simp [hne], by simp [hne], by simp [hne]⟩
  · exact ⟨⟨'-', d :: ds, rfl, by decide⟩, by simp, by simp, by simp⟩

/-- What is no string, object or array is an atom. -/
theorem value_atom {n : ℕ} {cs : List Char} (hne : cs ≠ []) (hquote : cs.head? ≠ some '"') (hbrace : cs.head? ≠ some '\x7b')
    (hbracket : cs.head? ≠ some '[') : value F (n + 1) cs = scanAtom F cs := by
  cases cs with
  | nil => exact absurd rfl hne
  | cons c rest =>
    simp only [List.head?_cons, ne_eq, Option.some.injEq] at hquote hbrace hbracket
    rw [value, if_neg hquote, if_neg hbrace, if_neg hbracket]

theorem value_number {n : ℕ} {cs token rest : List Char} {isFloat : Bool} (h : scanNumber cs = some (token, isFloat, rest)) :
    value F (n + 1) cs = some (if isFloat then .float (F.read token) else .int (integer token), rest) := by
  obtain ⟨⟨c, tail, rfl, -⟩, hquote, hbrace, hbracket⟩ := begins_of_scanNumber h
  rw [value_atom (List.cons_ne_nil _ _) hquote hbrace hbracket, scanAtom_number F h]

theorem endsNumber_nil : EndsNumber [] := by
  intro c hc
  cases hc

theorem endsNumber_cons {c : Char} {rest : List Char} (h : ¬ c.isDigit ∧ c ≠ '.' ∧ c ≠ 'e' ∧ c ≠ 'E') :
    EndsNumber (c :: rest) := by
  intro d hd
  obtain rfl : c = d := by simpa using hd
  exact h

theorem begins_dump {v : Json} (h : Encodable F v) : Begins (dump F v) := by
  cases h with
  | null => exact ⟨'n', _, rfl, by decide⟩
  | bool b =>
    cases b with
    | false => exact ⟨'f', _, rfl, by decide⟩
    | true => exact ⟨'t', _, rfl, by decide⟩
  | int n =>
    have hscan := scanNumber_dumpInt n endsNumber_nil
    rw [List.append_nil] at hscan
    rw [dump]
    exact (begins_of_scanNumber hscan).1
  | @float q hq =>
    have hscan := F.scan_repr q hq [] endsNumber_nil
    rw [List.append_nil] at hscan
    rw [dump]
    exact (begins_of_scanNumber hscan).1
  | str s => exact ⟨'"', _, by rw [dump, dumpString], by decide⟩
  | arr => exact ⟨'[', _, by rw [dump], by decide⟩
  | obj => exact ⟨'\x7b', _, by rw [dump], by decide⟩

/-- Values that are read back. -/
def ReadBack (F : Floats) (v : Json) : Prop :=
  ∀ n rest, (dump F v).length < n → EndsNumber rest → value F n (dump F v ++ rest) = some (v, rest)

theorem skipBlanks_cons {c : Char} {cs : List Char} (h : isBlank c = false) : skipBlanks (c :: cs) = c :: cs :=
  List.dropWhile_cons_of_neg (by simp [h])

theorem begins_dumpElements {x : Json} {xs : List Json} (h : Begins (dump F x)) : Begins (dumpElements F (x :: xs)) := by
  cases xs with
  | nil => rwa [dumpElements]
  | cons y ys =>
    rw [dumpElements, List.append_assoc]
    exact h.append _

/-- The elements of an array are read back, if each of them is. -/
theorem elements_dumpElements {x : Json} {xs : List Json} (hbegins : ∀ y ∈ x :: xs, Begins (dump F y))
    (h : ∀ y ∈ x :: xs, ReadBack F y) (n : ℕ) (rest : List Char) (hn : (dumpElements F (x :: xs)).length + 1 < n) :
    elements F n (dumpElements F (x :: xs) ++ ']' :: rest) = some (x :: xs, rest) := by
  induction xs generalizing x n with
  | nil =>
    cases n with
    | zero => omega
    | succ n =>
      rw [dumpElements] at hn ⊢
      have hx := h x List.mem_cons_self n (']' :: rest) (by omega) (endsNumber_cons (by decide))
      rw [elements, hx]
      simp only [skipBlanks_cons (c := ']') rfl, List.head?_cons, if_true, List.tail_cons]
  | cons y ys ih =>
    cases n with
    | zero => omega
    | succ n =>
      have hsep : ", ".toList = [',', ' '] := rfl
      rw [dumpElements, hsep] at hn ⊢
      simp only [List.length_append, List.length_cons, List.length_nil] at hn
      have hx := h x List.mem_cons_self n (',' :: ' ' :: (dumpElements F (y :: ys) ++ ']' :: rest)) (by omega)
        (endsNumber_cons (by decide))
      have hys := ih (fun z hz => hbegins z (List.mem_cons_of_mem x hz)) (fun z hz => h z (List.mem_cons_of_mem x hz)) n
        (by omega)
      have hbegin : Begins (dumpElements F (y :: ys) ++ ']' :: rest) :=
        (begins_dumpElements (hbegins y (by simp))).append _
      have hblank : skipBlanks (' ' :: (dumpElements F (y :: ys) ++ ']' :: rest)) = dumpElements F (y :: ys) ++ ']' :: rest :=
        (List.dropWhile_cons_of_pos rfl).trans hbegin.skipBlanks_eq
      simp only [List.append_assoc, List.cons_append, List.nil_append]
      rw [elements, hx]
      simp only [skipBlanks_cons (c := ',') rfl, List.head?_cons, Option.some.injEq, List.tail_cons, hblank, hys]
      rfl

theorem dumpString_append (s : String) (rest : List Char) :
    dumpString s ++ rest = '"' :: (s.toList.flatMap escape ++ '"' :: rest) := by
  simp [dumpString]

theorem begins_dumpMembers (kv : String × Json) (kvs : List (String × Json)) : Begins (dumpMembers F (kv :: kvs)) := by
  obtain ⟨k, x⟩ := kv
  cases kvs with
  | nil => exact ⟨'"', _, by rw [dumpMembers, dumpString]; rfl, by decide⟩
  | cons kv' kvs => exact ⟨'"', _, by rw [dumpMembers, dumpString]; rfl, by decide⟩

/-- An item is read back, if its value is; what follows it decides how it goes on. -/
theorem members_item {x : Json} (hbegins : Begins (dump F x)) (hx : ReadBack F x) (k : String) {n : ℕ} {rest : List Char}
    (hn : (dump F x).length < n) (hrest : EndsNumber rest) :
    members F (n + 1) (dumpString k ++ ": ".toList ++ dump F x ++ rest) =
      if (skipBlanks rest).head? = some '\x7d' then some ([(k, x)], (skipBlanks rest).tail)
      else if (skipBlanks rest).head? = some ',' then
        (members F n (skipBlanks (skipBlanks rest).tail)).map fun (kvs, rest) => ((k, x) :: kvs, rest)
      else none := by
  have hsep : ": ".toList = [':', ' '] := rfl
  have hblank : skipBlanks (' ' :: (dump F x ++ rest)) = dump F x ++ rest :=
    (List.dropWhile_cons_of_pos rfl).trans (hbegins.append rest).skipBlanks_eq
  rw [hsep, List.append_assoc, List.append_assoc, dumpString_append]
  simp only [List.cons_append, List.nil_append]
  rw [members, List.head?_cons, if_pos rfl, List.tail_cons, scanString_flatMap_escape]
  simp only [skipBlanks_cons (c := ':') rfl, List.head?_cons, if_true, List.tail_cons, hblank, hx n rest hn hrest,
    stringText_scalar]

/-- The items of an object are read back, if their values are. -/
theorem members_dumpMembers {kv : String × Json} {kvs : List (String × Json)} (hbegins : ∀ y ∈ kv :: kvs, Begins (dump F y.2))
    (h : ∀ y ∈ kv :: kvs, ReadBack F y.2) (n : ℕ) (rest : List Char) (hn : (dumpMembers F (kv :: kvs)).length + 1 < n) :
    members F n (dumpMembers F (kv :: kvs) ++ '\x7d' :: rest) = some (kv :: kvs, rest) := by
  induction kvs generalizing kv n with
  | nil =>
    cases n with
    | zero => omega
    | succ n =>
      obtain ⟨k, x⟩ := kv
      rw [dumpMembers] at hn ⊢
      simp only [List.length_append] at hn
      have hx : ReadBack F x := h (k, x) List.mem_cons_self
      have hbegin : Begins (dump F x) := hbegins (k, x) List.mem_cons_self
      rw [members_item hbegin hx k (by omega) (endsNumber_cons (by decide)),
        skipBlanks_cons rfl, List.head?_cons, if_pos rfl, List.tail_cons]
  | cons kv' kvs ih =>
    cases n with
    | zero => omega
    | succ n =>
      obtain ⟨k, x⟩ := kv
      have hsep : ", ".toList = [',', ' '] := rfl
      rw [dumpMembers, hsep] at hn ⊢
      simp only [List.length_append, List.length_cons, List.length_nil] at hn
      have hx : ReadBack F x := h (k, x) List.mem_cons_self
      have hkvs := ih (fun z hz => hbegins z (List.mem_cons_of_mem _ hz)) (fun z hz => h z (List.mem_cons_of_mem _ hz)) n
        (by omega)
      have hbegin : Begins (dump F x) := hbegins (k, x) List.mem_cons_self
      have hblank : skipBlanks (' ' :: (dumpMembers F (kv' :: kvs) ++ '\x7d' :: rest)) =
          dumpMembers F (kv' :: kvs) ++ '\x7d' :: rest :=
        (List.dropWhile_cons_of_pos rfl).trans ((begins_dumpMembers kv' kvs).append _).skipBlanks_eq
      have hnext : EndsNumber ([',', ' '] ++ (dumpMembers F (kv' :: kvs) ++ '\x7d' :: rest)) := endsNumber_cons (by decide)
      rw [List.append_assoc, List.append_assoc, members_item hbegin hx k (by omega) hnext]
      simp only [List.cons_append, List.nil_append, skipBlanks_cons (c := ',') rfl, List.head?_cons, Option.some.injEq,
        List.tail_cons, hblank, hkvs]
      rfl

theorem setKey_of_notMem {kvs : List (String × Json)} {kv : String × Json} (h : kv.1 ∉ kvs.map Prod.fst) :
    setKey kvs kv = kvs ++ [kv] := if_neg h

/-- The items of a dictionary make it. -/
theorem dict_of_nodup {kvs : List (String × Json)} (h : (kvs.map Prod.fst).Nodup) : dict kvs = kvs := by
  suffices hfold : ∀ pre, ((pre ++ kvs).map Prod.fst).Nodup → kvs.foldl setKey pre = pre ++ kvs by
    exact hfold [] h
  clear h
  induction kvs with
  | nil => simp
  | cons kv kvs ih =>
    intro pre hpre
    have hnew : kv.1 ∉ pre.map Prod.fst := by
      rw [List.map_append, List.nodup_append] at hpre
      exact fun hmem => hpre.2.2 _ hmem _ List.mem_cons_self rfl
    rw [List.foldl_cons, setKey_of_notMem hnew, ih (pre ++ [kv]) (by simpa using hpre)]
    simp

theorem readBack_number {v : Json} {token : List Char} (isFloat : Bool) (hdump : dump F v = token)
    (hscan : ∀ rest, EndsNumber rest → scanNumber (token ++ rest) = some (token, isFloat, rest))
    (hv : (if isFloat then .float (F.read token) else .int (integer token)) = v) : ReadBack F v := by
  intro n rest hn hrest
  cases n with
  | zero => omega
  | succ n => rw [hdump, value_number (hscan rest hrest), hv]

theorem readBack_constant {v : Json} {w : String} (hdump : dump F v = w.toList)
    (hw : (w, v) = ("null", .null) ∨ (w, v) = ("true", .bool true) ∨ (w, v) = ("false", .bool false)) : ReadBack F v := by
  intro n rest hn hrest
  cases n with
  | zero => omega
  | succ n =>
    rw [hdump]
    rcases hw with hw | hw | hw <;> obtain ⟨rfl, rfl⟩ := Prod.mk.inj hw <;>
      exact value_atom (by simp) (by simp) (by simp) (by simp)

/-- A value is read back from its text, whatever follows it. -/
theorem readBack {v : Json} (h : Encodable F v) : ReadBack F v := by
  induction h with
  | null => exact readBack_constant (w := "null") (by rw [dump]) (.inl rfl)
  | bool b =>
    cases b with
    | true => exact readBack_constant (w := "true") (by rw [dump]; rfl) (.inr (.inl rfl))
    | false => exact readBack_constant (w := "false") (by rw [dump]; rfl) (.inr (.inr rfl))
  | int n =>
    exact readBack_number false (by rw [dump]) (fun rest hrest => scanNumber_dumpInt n hrest)
      (by rw [integer_dumpInt]; rfl)
  | @float q hq =>
    exact readBack_number true (by rw [dump]) (fun rest hrest => F.scan_repr q hq rest hrest)
      (by rw [F.read_repr q hq]; rfl)
  | str s =>
    intro n rest hn hrest
    cases n with
    | zero => omega
    | succ n =>
      rw [dump, dumpString_append, value, if_pos rfl, scanString_flatMap_escape]
      simp only [Option.map_some, stringText_scalar]
  | @arr xs hxs ih =>
    intro n rest hn hrest
    cases n with
    | zero => omega
    | succ n =>
      rw [dump] at hn ⊢
      simp only [List.length_cons, List.length_append, List.length_nil] at hn
      rw [List.cons_append, List.append_assoc, List.cons_append, List.nil_append, value, if_neg (by decide),
        if_neg (by decide), if_pos rfl]
      cases xs with
      | nil => rfl
      | cons x xs =>
        have hbegin : Begins (dumpElements F (x :: xs) ++ ']' :: rest) :=
          (begins_dumpElements (begins_dump (hxs x List.mem_cons_self))).append _
        rw [hbegin.skipBlanks_eq, if_neg hbegin.head?_ne.1,
          elements_dumpElements (fun y hy => begins_dump (hxs y hy)) ih n rest (by omega)]
        rfl
  | @obj kvs hkeys hkvs ih =>
    intro n rest hn hrest
    cases n with
    | zero => omega
    | succ n =>
      rw [dump] at hn ⊢
      simp only [List.length_cons, List.length_append, List.length_nil] at hn
      rw [List.cons_append, List.append_assoc, List.cons_append, List.nil_append, value, if_neg (by decide), if_pos rfl]
      cases kvs with
      | nil => rfl
      | cons kv kvs =>
        have hbegin : Begins (dumpMembers F (kv :: kvs) ++ '\x7d' :: rest) := (begins_dumpMembers kv kvs).append _
        rw [hbegin.skipBlanks_eq, if_neg hbegin.head?_ne.2,
          members_dumpMembers (fun y hy => begins_dump (hkvs y hy)) ih n rest (by omega)]
        simp only [Option.map_some, dict_of_nodup hkeys]

/-- `json.loads` of `json.dumps` of a value is the value. -/
theorem loads_dumps {v : Json} (h : Encodable F v) : loads F (dumps F v) = some v := by
  have hread := readBack h ((dump F v).length + 1) [] (by omega) endsNumber_nil
  rw [List.append_nil] at hread
  rw [loads, dumps, String.toList_ofList, (begins_dump h).skipBlanks_eq, hread]
  rfl

end Persona.JsonText
