import Persona.JsonText
import Persona.Lib.Assoc
import Mathlib.Data.List.Nodup
import Mathlib.Data.List.TakeWhile

/-!
# TOML documents of lines

`tomllib.loads` on the documents whose tables are written under headers, with an entry to a
line: `[a.b]`, `key = value`, comments and blank lines. A text is the list of its characters.

The values are the strings of one line, decimal integers and booleans; any other kind of value
is left to a scanner `others`, which is any function. Arrays of tables, dotted keys before an
equals sign and strings of several lines are no part of these documents.

A document means the tables and values in it (`Item`); it is valid if none of them is given
twice and no value stands where a table is.
-/

namespace Persona.TomlText

open Persona.JsonText (hexValue scanInteger integer dumpInt)

/-- A text. -/
abbrev Text := List Char

variable {V : Type*}

/-! ### Lines -/

/-- A blank of TOML. -/
def isBlank (c : Char) : Bool := c = ' ' || c = '\t'

/-- A character that may not stand in a line. -/
def isControl (c : Char) : Bool := c ≠ '\t' && (c.toNat < 0x20 || c.toNat = 0x7F)

/-- A character of a bare key. -/
def isBare (c : Char) : Bool := c.isAlphanum || c = '_' || c = '-'

/-- A character of a number, a date or a boolean. -/
def isToken (c : Char) : Bool := isBare c || c = '+' || c = '.' || c = ':'

def skip (cs : Text) : Text := cs.dropWhile isBlank

/-- A value. -/
inductive Value (V : Type*) where
  | str (s : Text)
  | int (n : ℤ)
  | bool (b : Bool)
  | other (v : V)
  deriving DecidableEq

/-- The character with this code, in hexadecimal digits. -/
def hexChar (n : ℕ) (cs : Text) : Option Char :=
  if n ≤ cs.length then
    match (cs.take n).mapM hexValue with
    | some ds =>
      let k := ds.foldl (fun k d => 16 * k + d) 0
      if k.isValidChar then some (Char.ofNat k) else none
    | none => none
  else none

/-- The character that an escape stands for, and how many characters it has after the backslash. -/
def escape : Text → Option (Char × ℕ)
  | [] => none
  | c :: cs =>
    if c = 'u' then (hexChar 4 cs).map fun u => (u, 5)
    else if c = 'U' then (hexChar 8 cs).map fun u => (u, 9)
    else if c = '"' ∨ c = '\\' then some (c, 1)
    else if c = 'b' then some ('\x08', 1)
    else if c = 't' then some ('\t', 1)
    else if c = 'n' then some ('\n', 1)
    else if c = 'f' then some ('\x0c', 1)
    else if c = 'r' then some ('\r', 1)
    else none

/-- A basic string after its opening quote and `n` characters that are part of an escape, and
what follows the string. -/
def scanBasic : ℕ → Text → Option (Text × Text)
  | _, [] => none
  | n + 1, _ :: cs => scanBasic n cs
  | 0, c :: cs =>
    if c = '"' then some ([], cs)
    else if c = '\\' then
      match escape cs with
      | some (u, n) => (scanBasic n cs).map fun (s, rest) => (u :: s, rest)
      | none => none
    else (scanBasic 0 cs).map fun (s, rest) => (c :: s, rest)

/-- A literal string after its opening quote, and what follows it. -/
def scanLiteral (cs : Text) : Option (Text × Text) :=
  if '\'' ∈ cs then some (cs.takeWhile (· ≠ '\''), (cs.dropWhile (· ≠ '\'')).tail) else none

/-- A string of one line. -/
def scanString : Text → Option (Text × Text)
  | [] => none
  | c :: cs =>
    if cs.take 2 = [c, c] then none
    else if c = '"' then scanBasic 0 cs
    else if c = '\'' then scanLiteral cs
    else none

/-- A key: whether it is quoted, and what follows it. -/
def scanKey (cs : Text) : Option (Bool × Text × Text) :=
  if cs.head? = some '"' ∨ cs.head? = some '\'' then (scanString cs).map fun (k, rest) => (true, k, rest)
  else if (cs.takeWhile isBare).isEmpty then none
  else some (false, cs.takeWhile isBare, cs.dropWhile isBare)

/-- The decimal integer that a token stands for. -/
def decimal (token : Text) : Option ℤ :=
  match scanInteger token with
  | some (ds, []) => some (integer ds)
  | _ => none

/-- A value, and what follows it. -/
def scanValue (others : Text → Option (V × Text)) (cs : Text) : Option (Value V × Text) :=
  if cs.head? = some '"' ∨ cs.head? = some '\'' then (scanString cs).map fun (s, rest) => (.str s, rest)
  else if cs.takeWhile isToken = "true".toList then some (.bool true, cs.dropWhile isToken)
  else if cs.takeWhile isToken = "false".toList then some (.bool false, cs.dropWhile isToken)
  else
    match decimal (cs.takeWhile isToken) with
    | some n => some (.int n, cs.dropWhile isToken)
    | none => (others cs).map fun (v, rest) => (.other v, rest)

/-- The keys of a header, up to its end. -/
def scanPath : ℕ → Text → Option (List Text × Text)
  | 0, _ => none
  | n + 1, cs =>
    match scanKey cs with
    | some (_, k, rest) =>
      if (skip rest).head? = some '.' then
        (scanPath n (skip (skip rest).tail)).map fun (ks, rest) => (k :: ks, rest)
      else some ([k], skip rest)
    | none => none

/-- Nothing but a comment. -/
def ends (cs : Text) : Bool := (skip cs).isEmpty || (skip cs).head? = some '#'

/-- A line. -/
inductive Line (V : Type*) where
  | blank
  | header (path : List Text)
  /-- With the key quoted or not. -/
  | entry (quoted : Bool) (key : Text) (value : Value V)
  deriving DecidableEq

variable (others : Text → Option (V × Text))

/-- What stands in a line; `none` when it is invalid. -/
def readLine (ln : Text) : Option (Line V) :=
  if ln.any isControl then none
  else if ends ln then some .blank
  else if (skip ln).head? = some '[' then
    match scanPath ln.length (skip (skip ln).tail) with
    | some (path, rest) => if rest.head? = some ']' ∧ ends rest.tail then some (.header path) else none
    | none => none
  else
    match scanKey (skip ln) with
    | some (quoted, key, rest) =>
      if (skip rest).head? = some '=' then
        match scanValue others (skip (skip rest).tail) with
        | some (value, rest) => if ends rest then some (.entry quoted key value) else none
        | none => none
      else none
    | none => none

def readAll : List Text → Option (List (Line V))
  | [] => some []
  | ln :: lns =>
    match readLine others ln, readAll lns with
    | some l, some ls => some (l :: ls)
    | _, _ => none

/-! ### Documents -/

/-- A table that a document has a header for, or a value in a table. -/
inductive Item (V : Type*) where
  | table (path : List Text)
  | value (path : List Text) (key : Text) (value : Value V)
  deriving DecidableEq

/-- What lines give, in the table of this path. -/
def items : List Text → List (Line V) → List (Item V)
  | _, [] => []
  | path, .blank :: ls => items path ls
  | _, .header path :: ls => .table path :: items path ls
  | path, .entry _ key value :: ls => .value path key value :: items path ls

/-- Where the table of an item is. -/
def Item.tablePath : Item V → Option (List Text)
  | .table path => some path
  | .value _ _ _ => none

/-- Where the value of an item is. -/
def Item.valuePath : Item V → Option (List Text)
  | .table _ => none
  | .value path key _ => some (path ++ [key])

/-- Nothing is given twice, and no value stands where a table is. -/
structure Valid (is : List (Item V)) : Prop where
  tables : (is.filterMap Item.tablePath).Nodup
  values : (is.filterMap Item.valuePath).Nodup
  apart : ∀ p ∈ is.filterMap Item.valuePath, ∀ q ∈ is.filterMap Item.tablePath, ¬ p <+: q

instance (is : List (Item V)) : Decidable (Valid is) :=
  decidable_of_iff ((is.filterMap Item.tablePath).Nodup ∧ (is.filterMap Item.valuePath).Nodup ∧
    ∀ p ∈ is.filterMap Item.valuePath, ∀ q ∈ is.filterMap Item.tablePath, ¬ p <+: q)
    ⟨fun h => ⟨h.1, h.2.1, h.2.2⟩, fun h => ⟨h.tables, h.values, h.apart⟩⟩

/-- The document of the lines; `none` when it is invalid. -/
def parseLines (lines : List Text) : Option (List (Item V)) :=
  match readAll others lines with
  | some ls => if Valid (items [] ls) then some (items [] ls) else none
  | none => none

/-- `tomllib.loads`. -/
def parse (text : Text) : Option (List (Item V)) := parseLines others (text.splitOn '\n')

/-- The table is there, by a header of its own or of a table in it. -/
def HasTable (is : List (Item V)) (path : List Text) : Prop := ∃ q, .table q ∈ is ∧ path <+: q

/-- The second document is the first with these entries of a table, the table being there. -/
structure Overrides (path : List Text) (kvs : List (Text × Value V)) (is is' : List (Item V)) : Prop where
  tables : ∀ p, HasTable is' p ↔ HasTable is p ∨ p <+: path
  values : ∀ p k v, .value p k v ∈ is' ↔ if p = path ∧ k ∈ kvs.map Prod.fst then (k, v) ∈ kvs else .value p k v ∈ is

/-! ### Strings -/

theorem one_le_of_escape {cs : Text} {u : Char} {n : ℕ} (h : escape cs = some (u, n)) : 1 ≤ n := by
  cases cs with
  | nil => cases h
  | cons c cs =>
    rw [escape] at h
    split_ifs at h
    · obtain ⟨_, -, heq⟩ := Option.map_eq_some_iff.mp h
      obtain ⟨-, rfl⟩ := Prod.mk.inj heq
      decide
    · obtain ⟨_, -, heq⟩ := Option.map_eq_some_iff.mp h
      obtain ⟨-, rfl⟩ := Prod.mk.inj heq
      decide
    all_goals
      obtain ⟨-, rfl⟩ := Prod.mk.inj (Option.some.inj h)
      exact le_rfl

/-- A string is not longer than its text. -/
theorem length_scanBasic {n : ℕ} {cs s rest : Text} (h : scanBasic n cs = some (s, rest)) :
    n + s.length + 1 + rest.length ≤ cs.length := by
  induction cs generalizing n s with
  | nil => cases n <;> cases h
  | cons c cs ih =>
    cases n with
    | succ n =>
      have hle := ih h
      rw [List.length_cons]
      omega
    | zero =>
      rw [scanBasic] at h
      split_ifs at h
      · obtain ⟨rfl, rfl⟩ := Prod.mk.inj (Option.some.inj h)
        simp only [List.length_cons, List.length_nil]
        omega
      · split at h
        · obtain ⟨⟨t, rest'⟩, hscan, heq⟩ := Option.map_eq_some_iff.mp h
          obtain ⟨rfl, rfl⟩ := Prod.mk.inj heq
          have hle := ih hscan
          simp only [List.length_cons]
          omega
        · cases h
      · obtain ⟨⟨t, rest'⟩, hscan, heq⟩ := Option.map_eq_some_iff.mp h
        obtain ⟨rfl, rfl⟩ := Prod.mk.inj heq
        have hle := ih hscan
        simp only [List.length_cons]
        omega

/-- A text that stands for itself between quotes. -/
def Plain (s : Text) : Prop := ∀ c ∈ s, c ≠ '"' ∧ c ≠ '\\' ∧ isControl c = false

instance (s : Text) : Decidable (Plain s) := inferInstanceAs (Decidable (∀ _ ∈ _, _))

theorem scanBasic_plain {s : Text} (h : ∀ c ∈ s, c ≠ '"' ∧ c ≠ '\\') (rest : Text) :
    scanBasic 0 (s ++ '"' :: rest) = some (s, rest) := by
  induction s with
  | nil => rfl
  | cons c s ih =>
    obtain ⟨hquote, hescape⟩ := h c List.mem_cons_self
    rw [List.cons_append, scanBasic, if_neg hquote, if_neg hescape, ih fun d hd => h d (List.mem_cons_of_mem c hd)]
    rfl

/-- A string as long as its text has no escapes in it. -/
theorem plain_of_scanBasic {cs s rest : Text} (h : scanBasic 0 cs = some (s, rest)) (hlen : cs.length ≤ s.length + 1) :
    cs = s ++ ['"'] ∧ ∀ c ∈ s, c ≠ '"' ∧ c ≠ '\\' := by
  induction cs generalizing s with
  | nil => cases h
  | cons c cs ih =>
    rw [scanBasic] at h
    split_ifs at h with hquote hescape
    · obtain ⟨rfl, rfl⟩ := Prod.mk.inj (Option.some.inj h)
      obtain rfl : cs = [] := by simpa using hlen
      exact ⟨by rw [hquote]; rfl, by simp⟩
    · split at h
      · rename_i u n hchar
        obtain ⟨⟨t, rest'⟩, hscan, heq⟩ := Option.map_eq_some_iff.mp h
        obtain ⟨rfl, rfl⟩ := Prod.mk.inj heq
        have hle := length_scanBasic hscan
        have hone := one_le_of_escape hchar
        simp only [List.length_cons] at hlen
        omega
      · cases h
    · obtain ⟨⟨t, rest'⟩, hscan, heq⟩ := Option.map_eq_some_iff.mp h
      obtain ⟨rfl, rfl⟩ := Prod.mk.inj heq
      obtain ⟨hcs, ht⟩ := ih hscan (by simpa using hlen)
      refine ⟨by rw [hcs]; rfl, fun d hd => ?_⟩
      rcases List.mem_cons.mp hd with rfl | hd
      · exact ⟨hquote, hescape⟩
      · exact ht d hd

/-! ### Lines that are written -/

theorem isBare_ne {c : Char} (h : isBare c = true) :
    c ≠ '"' ∧ c ≠ '\'' ∧ c ≠ '#' ∧ c ≠ '[' ∧ c ≠ ']' ∧ c ≠ '=' ∧ c ≠ '.' := by
  refine ⟨?_, ?_, ?_, ?_, ?_, ?_, ?_⟩ <;> rintro rfl <;> revert h <;> decide

theorem isBlank_of_isBare {c : Char} (h : isBare c = true) : isBlank c = false := by
  rw [isBlank, Bool.or_eq_false_iff, decide_eq_false_iff_not, decide_eq_false_iff_not]
  constructor <;> rintro rfl <;> revert h <;> decide

/-- A bare key is printable ASCII. -/
theorem toNat_of_isBare {c : Char} (h : isBare c = true) : 0x20 < c.toNat ∧ c.toNat < 0x7F := by
  have halpha : c.isAlpha = (decide (c.val ≥ 'A'.val ∧ c.val ≤ 'Z'.val) || (c.val ≥ 'a'.val && c.val ≤ 'z'.val)) := rfl
  simp only [isBare, Char.isAlphanum, halpha, Char.isDigit, Bool.or_eq_true, Bool.and_eq_true, decide_eq_true_eq, ge_iff_le, UInt32.le_iff_toNat_le] at h
  simp only [Char.toNat]
  rcases h with (((h | h) | h) | rfl) | rfl
  · exact ⟨Nat.lt_of_lt_of_le (by decide) h.1, Nat.lt_of_le_of_lt h.2 (by decide)⟩
  · exact ⟨Nat.lt_of_lt_of_le (by decide) h.1, Nat.lt_of_le_of_lt h.2 (by decide)⟩
  · exact ⟨Nat.lt_of_lt_of_le (by decide) h.1, Nat.lt_of_le_of_lt h.2 (by decide)⟩
  · decide
  · decide

theorem isControl_of_isBare {c : Char} (h : isBare c = true) : isControl c = false := by
  have hrange := toNat_of_isBare h
  simp only [isControl, Bool.and_eq_false_imp, Bool.or_eq_false_iff, decide_eq_false_iff_not]
  omega

/-- A bare key. -/
def Bare (k : Text) : Prop := k ≠ [] ∧ ∀ c ∈ k, isBare c = true

instance (k : Text) : Decidable (Bare k) := inferInstanceAs (Decidable (_ ∧ _))

theorem skip_append {ws cs : Text} (h : ∀ c ∈ ws, isBlank c = true) : skip (ws ++ cs) = skip cs :=
  List.dropWhile_append_of_pos h

theorem skip_cons {c : Char} {cs : Text} (h : isBlank c = false) : skip (c :: cs) = c :: cs :=
  List.dropWhile_cons_of_neg (by simp [h])

/-- What is skipped. -/
theorem skip_spec (cs : Text) : ∃ ws, cs = ws ++ skip cs ∧ ∀ c ∈ ws, isBlank c = true :=
  ⟨cs.takeWhile isBlank, List.takeWhile_append_dropWhile.symm, fun _ hc => List.mem_takeWhile_imp hc⟩

theorem head?_skip {cs : Text} {c : Char} (h : (skip cs).head? = some c) :
    ∃ ws, cs = ws ++ c :: (skip cs).tail ∧ ∀ d ∈ ws, isBlank d = true := by
  obtain ⟨ws, hcs, hws⟩ := skip_spec cs
  refine ⟨ws, ?_, hws⟩
  rw [← List.eq_cons_of_mem_head? h]
  exact hcs

/-- A bare key is read up to what is none of its characters. -/
theorem scanKey_bare {k : Text} (hk : Bare k) {rest : Text} (hrest : ∀ c ∈ rest.head?, isBare c = false) :
    scanKey (k ++ rest) = some (false, k, rest) := by
  have hspan : (k ++ rest).takeWhile isBare = k ∧ (k ++ rest).dropWhile isBare = rest := by
    rw [List.takeWhile_append_of_pos hk.2, List.dropWhile_append_of_pos hk.2]
    cases rest with
    | nil => simp
    | cons c rest =>
      have hc : isBare c = false := hrest c rfl
      simp [hc]
  have hhead : ∀ d : Char, isBare d = false → (k ++ rest).head? ≠ some d := by
    rintro d hd hhead
    rw [List.head?_append_of_ne_nil _ hk.1] at hhead
    rw [hk.2 d (List.mem_of_mem_head? hhead)] at hd
    cases hd
  have hquote : ¬ ((k ++ rest).head? = some '"' ∨ (k ++ rest).head? = some '\'') := by
    rw [not_or]
    exact ⟨hhead _ rfl, hhead _ rfl⟩
  rw [scanKey, if_neg hquote, hspan.1, hspan.2, if_neg (by simpa using hk.1)]

/-- An entry with a bare key is read as such. -/
theorem readLine_bare {ws ws' k text : Text} (hws : ∀ c ∈ ws, isBlank c = true) (hk : Bare k)
    (hws' : ∀ c ∈ ws', isBlank c = true) (htext : (ws ++ (k ++ (ws' ++ '=' :: text))).any isControl = false) :
    readLine others (ws ++ (k ++ (ws' ++ '=' :: text))) =
      match scanValue others (skip text) with
      | some (value, rest) => if ends rest then some (.entry false k value) else none
      | none => none := by
  obtain ⟨c, k', rfl⟩ := List.exists_cons_of_ne_nil hk.1
  have hc := isBare_ne (hk.2 c List.mem_cons_self)
  have hskip : skip (ws ++ (c :: k' ++ (ws' ++ '=' :: text))) = c :: k' ++ (ws' ++ '=' :: text) := by
    rw [skip_append hws, List.cons_append, skip_cons (isBlank_of_isBare (hk.2 c List.mem_cons_self))]
  have hbound : ∀ d ∈ (ws' ++ '=' :: text).head?, isBare d = false := by
    intro d hd
    cases ws' with
    | nil =>
      obtain rfl : '=' = d := by simpa using hd
      decide
    | cons e ws' =>
      obtain rfl : e = d := by simpa using hd
      by_contra hbare
      rw [Bool.not_eq_false] at hbare
      have hblank := hws' e List.mem_cons_self
      rw [isBlank_of_isBare hbare] at hblank
      cases hblank
  have hends : ends (ws ++ (c :: k' ++ (ws' ++ '=' :: text))) = false := by
    rw [ends, hskip]
    simp [hc.2.2.1]
  have heq : (skip (ws' ++ '=' :: text)).head? = some '=' ∧ (skip (ws' ++ '=' :: text)).tail = text := by
    rw [skip_append hws', skip_cons (by decide)]
    exact ⟨rfl, rfl⟩
  have hbracket : (c :: k' ++ (ws' ++ '=' :: text)).head? ≠ some '[' := by simp [hc.2.2.2.1]
  rw [readLine, htext, hends, hskip, if_neg (by decide), if_neg (by decide), if_neg hbracket, scanKey_bare hk hbound]
  simp only [heq.1, heq.2, if_true]

variable {others}

/-- What a line begins with says what stands in it. -/
inductive LineForm (ln : Text) : Line V → Prop
  | blank (h : ends ln = true) : LineForm ln .blank
  | header {path : List Text} (h : (skip ln).head? = some '[') : LineForm ln (.header path)
  | quoted {key : Text} {value : Value V} (h : (skip ln).head? = some '"' ∨ (skip ln).head? = some '\'') :
      LineForm ln (.entry true key value)
  | bare {key : Text} {value : Value V} {ws ws' text : Text} (hws : ∀ c ∈ ws, isBlank c = true) (hkey : Bare key)
      (hws' : ∀ c ∈ ws', isBlank c = true) (hln : ln = ws ++ (key ++ (ws' ++ '=' :: text))) :
      LineForm ln (.entry false key value)

theorem not_control_of_readLine {ln : Text} {l : Line V} (h : readLine others ln = some l) : ln.any isControl = false := by
  by_contra hcontrol
  rw [Bool.not_eq_false] at hcontrol
  rw [readLine, if_pos hcontrol] at h
  cases h

theorem lineForm {ln : Text} {l : Line V} (h : readLine others ln = some l) : LineForm ln l := by
  rw [readLine, if_neg (by simp [not_control_of_readLine h])] at h
  split_ifs at h with hends hbracket
  · obtain rfl := Option.some.inj h
    exact .blank hends
  · split at h
    · split_ifs at h
      obtain rfl := Option.some.inj h
      exact .header hbracket
    · cases h
  · split at h
    · rename_i q key rest hkey
      split_ifs at h with heq
      split at h
      · split_ifs at h
        obtain rfl := Option.some.inj h
        rw [scanKey] at hkey
        split_ifs at hkey with hquote hempty
        · obtain ⟨⟨k, rest'⟩, -, hk⟩ := Option.map_eq_some_iff.mp hkey
          obtain ⟨rfl, -⟩ := Prod.mk.inj hk
          exact .quoted hquote
        · obtain ⟨rfl, hk⟩ := Prod.mk.inj (Option.some.inj hkey)
          obtain ⟨rfl, rfl⟩ := Prod.mk.inj hk
          obtain ⟨ws, hln, hws⟩ := skip_spec ln
          obtain ⟨ws', hrest, hws'⟩ := head?_skip heq
          have hparts : ln = ws ++ ((skip ln).takeWhile isBare ++
              (ws' ++ '=' :: (skip ((skip ln).dropWhile isBare)).tail)) := by
            rw [← hrest, List.takeWhile_append_dropWhile]
            exact hln
          exact .bare hws ⟨by simpa using hempty, fun c hc => List.mem_takeWhile_imp hc⟩ hws' hparts
      · cases h
    · cases h

/-! ### Values that are written -/

theorem scanValue_str {s : Text} (h : Plain s) : scanValue others ('"' :: (s ++ ['"'])) = some (.str s, []) := by
  have hscan : scanBasic 0 (s ++ ['"']) = some (s, []) := scanBasic_plain (fun c hc => ⟨(h c hc).1, (h c hc).2.1⟩) []
  have htake : (s ++ ['"']).take 2 ≠ ['"', '"'] := by
    cases s with
    | nil => decide
    | cons c s =>
      intro htake
      exact (h c List.mem_cons_self).1 (List.cons.inj htake).1
  rw [scanValue, List.head?_cons, if_pos (.inl rfl), scanString, if_neg htake, if_pos rfl, hscan]
  rfl

/-- If a text is read back between quotes, there is nothing in it that needs an escape. -/
theorem plain_of_scanValue {s piece rest : Text} {v : Value V} (h : scanValue others ('"' :: piece) = some (v, rest))
    (hv : v = .str s) (hlen : piece.length ≤ s.length + 1) : piece = s ++ ['"'] ∧ ∀ c ∈ s, c ≠ '"' ∧ c ≠ '\\' := by
  rw [scanValue, List.head?_cons, if_pos (.inl rfl)] at h
  obtain ⟨⟨t, rest'⟩, hscan, heq⟩ := Option.map_eq_some_iff.mp h
  obtain ⟨rfl, -⟩ := Prod.mk.inj heq
  obtain rfl := Value.str.inj hv
  rw [scanString] at hscan
  split_ifs at hscan with htriple hquote
  · exact plain_of_scanBasic hscan hlen
  · exact absurd rfl hquote

theorem isToken_of_isDigit {c : Char} (h : c.isDigit = true) : isToken c = true := by
  simp [isToken, isBare, Char.isAlphanum, h]

theorem scanValue_token {token : Text} (htoken : ∀ c ∈ token, isToken c = true) {v : Value V}
    (hv : v = .bool true ∧ token = "true".toList ∨ v = .bool false ∧ token = "false".toList ∨
      ∃ n, v = .int n ∧ decimal token = some n ∧ token ≠ "true".toList ∧ token ≠ "false".toList) :
    scanValue others token = some (v, []) := by
  have hhead : ∀ d : Char, isToken d = false → token.head? ≠ some d := by
    rintro d hd hhead
    rw [htoken d (List.mem_of_mem_head? hhead)] at hd
    cases hd
  have hquote : ¬ (token.head? = some '"' ∨ token.head? = some '\'') := by
    rw [not_or]
    exact ⟨hhead _ rfl, hhead _ rfl⟩
  have hspan : token.takeWhile isToken = token ∧ token.dropWhile isToken = [] :=
    ⟨List.takeWhile_eq_self_iff.mpr htoken, List.dropWhile_eq_nil_iff.mpr htoken⟩
  rw [scanValue, if_neg hquote, hspan.1, hspan.2]
  rcases hv with ⟨rfl, rfl⟩ | ⟨rfl, rfl⟩ | ⟨n, rfl, hn, htrue, hfalse⟩
  · rfl
  · rfl
  · rw [if_neg htrue, if_neg hfalse, hn]

theorem scanValue_bool (b : Bool) : scanValue others (if b then "true".toList else "false".toList) = some (.bool b, []) := by
  cases b with
  | false => exact scanValue_token (by decide) (.inr (.inl ⟨rfl, rfl⟩))
  | true => exact scanValue_token (by decide) (.inl ⟨rfl, rfl⟩)

theorem decimal_dumpInt (n : ℤ) : decimal (dumpInt n) = some n := by
  have hscan := JsonText.scanInteger_dumpInt n JsonText.endsNumber_nil
  rw [List.append_nil] at hscan
  rw [decimal, hscan]
  exact congrArg some (JsonText.integer_dumpInt n)

/-- The characters of an integer. -/
theorem mem_dumpInt {n : ℤ} {c : Char} (h : c ∈ dumpInt n) : c = '-' ∨ c.isDigit = true := by
  rw [dumpInt] at h
  split_ifs at h
  · rcases List.mem_cons.mp h with rfl | h
    · exact .inl rfl
    · exact .inr (JsonText.isDigit_of_mem_toDigits h)
  · exact .inr (JsonText.isDigit_of_mem_toDigits h)

theorem scanValue_int (n : ℤ) : scanValue others (dumpInt n) = some (.int n, []) := by
  have htoken : ∀ c ∈ dumpInt n, isToken c = true := by
    intro c hc
    rcases mem_dumpInt hc with rfl | hc
    · decide
    · exact isToken_of_isDigit hc
  have hne : ∀ c : Char, c.isDigit = false → c ≠ '-' → c ∉ dumpInt n := by
    intro c hdigit hminus hc
    rcases mem_dumpInt hc with rfl | hc
    · exact hminus rfl
    · rw [hc] at hdigit
      cases hdigit
  refine scanValue_token htoken (.inr (.inr ⟨n, rfl, decimal_dumpInt n, fun h => ?_, fun h => ?_⟩))
  · exact hne 'e' (by decide) (by decide) (h ▸ by decide)
  · exact hne 'e' (by decide) (by decide) (h ▸ by decide)

/-- A header of one bare key is read as such. -/
theorem readLine_section {ln name post : Text} (hname : Bare name) (hln : skip ln = '[' :: (name ++ ']' :: post))
    (hcontrol : ln.any isControl = false) : readLine others ln = if ends post then some (.header [name]) else none := by
  have hbound : ∀ d ∈ (']' :: post).head?, isBare d = false := by
    intro d hd
    obtain rfl : ']' = d := by simpa using hd
    decide
  have hends : ends ln = false := by simp [ends, hln]
  have hname' : skip (name ++ ']' :: post) = name ++ ']' :: post := by
    obtain ⟨c, name', rfl⟩ := List.exists_cons_of_ne_nil hname.1
    exact skip_cons (isBlank_of_isBare (hname.2 c List.mem_cons_self))
  have hlen : ∃ n, ln.length = n + 1 := by
    cases ln with
    | nil => cases hln
    | cons c ln => exact ⟨ln.length, rfl⟩
  obtain ⟨n, hn⟩ := hlen
  have hpath : scanPath ln.length (skip (skip ln).tail) = some ([name], ']' :: post) := by
    rw [hln, List.tail_cons, hname', hn, scanPath, scanKey_bare hname hbound]
    rfl
  rw [readLine, hcontrol, hends, if_neg (by decide), if_neg (by decide), hpath]
  simp [hln]

/-! ### Documents of several parts -/

variable {a b zs : List (Line V)} {xs ys : List Text} {path p : List Text} {k : Text} {v : Value V}

theorem readAll_append : readAll others (xs ++ ys) = some zs ↔
    ∃ a b, readAll others xs = some a ∧ readAll others ys = some b ∧ zs = a ++ b := by
  induction xs generalizing zs with
  | nil => simp [readAll, eq_comm]
  | cons x xs ih =>
    rw [List.cons_append, readAll, readAll]
    cases readLine others x with
    | none => simp
    | some l =>
      constructor
      · intro h
        split at h
        · rename_i l' ls hl hls
          obtain rfl := Option.some.inj hl
          obtain ⟨a, b, ha, hb, rfl⟩ := ih.mp hls
          obtain rfl := Option.some.inj h
          exact ⟨l :: a, b, by rw [ha], hb, rfl⟩
        · cases h
      · rintro ⟨a, b, ha, hb, rfl⟩
        split at ha
        · rename_i l' ls hl hls
          obtain rfl := Option.some.inj hl
          obtain rfl := Option.some.inj ha
          rw [ih.mpr ⟨ls, b, hls, hb, rfl⟩]
          rfl
        · cases ha

theorem readAll_cons {x : Text} : readAll others (x :: xs) = some zs ↔
    ∃ l ls, readLine others x = some l ∧ readAll others xs = some ls ∧ zs = l :: ls := by
  rw [readAll]
  cases readLine others x <;> cases readAll others xs <;> simp [eq_comm]

/-- The table of the entries after the lines. -/
def pathAfter : List Text → List (Line V) → List Text
  | path, [] => path
  | _, .header path :: ls => pathAfter path ls
  | path, _ :: ls => pathAfter path ls

theorem items_append (path : List Text) (a b : List (Line V)) : items path (a ++ b) = items path a ++ items (pathAfter path a) b := by
  induction a generalizing path with
  | nil => rfl
  | cons l a ih => cases l <;> simp [items, pathAfter, ih]

/-- A value is in the table that the lines begin in, or in one of theirs. -/
theorem mem_items_value (h : .value p k v ∈ items path a) : p = path ∨ .table p ∈ items path a := by
  induction a generalizing path with
  | nil => cases h
  | cons l a ih =>
    cases l with
    | blank => exact ih h
    | header q =>
      rcases List.mem_cons.mp h with h | h
      · cases h
      · rcases ih h with rfl | h
        · exact .inr List.mem_cons_self
        · exact .inr (List.mem_cons_of_mem _ h)
    | entry q k' v' =>
      rcases List.mem_cons.mp h with h | h
      · obtain ⟨rfl, -⟩ := Item.value.inj h
        exact .inl rfl
      · rcases ih h with rfl | h
        · exact .inl rfl
        · exact .inr (List.mem_cons_of_mem _ h)

theorem pathAfter_eq (path : List Text) (a : List (Line V)) : pathAfter path a = path ∨ .table (pathAfter path a) ∈ items path a := by
  induction a generalizing path with
  | nil => exact .inl rfl
  | cons l a ih =>
    cases l with
    | blank => exact ih path
    | header q =>
      rcases ih q with h | h
      · exact .inr (by rw [pathAfter, h]; exact List.mem_cons_self)
      · exact .inr (List.mem_cons_of_mem _ h)
    | entry q k' v' =>
      rcases ih path with h | h
      · exact .inl h
      · exact .inr (List.mem_cons_of_mem _ h)

theorem parseLines_eq_some {lines : List Text} {is : List (Item V)} :
    parseLines others lines = some is ↔ ∃ ls, readAll others lines = some ls ∧ items [] ls = is ∧ Valid is := by
  rw [parseLines]
  cases readAll others lines with
  | none => simp
  | some ls =>
    simp only [Option.some.injEq, exists_eq_left']
    split_ifs with hvalid
    · constructor
      · intro h
        obtain rfl := Option.some.inj h
        exact ⟨rfl, hvalid⟩
      · rintro ⟨rfl, -⟩
        rfl
    · constructor
      · intro h
        cases h
      · rintro ⟨rfl, h⟩
        exact absurd h hvalid

/-- A line that is read holds no line break. -/
theorem splitOn_of_readLine {ln : Text} {l : Line V} (h : readLine others ln = some l) : ln.splitOn '\n' = [ln] := by
  apply List.splitOn_eq_singleton
  intro hmem
  have hcontrol := not_control_of_readLine h
  rw [List.any_eq_false] at hcontrol
  exact hcontrol '\n' hmem (by decide)

/-- The first line of a text. -/
theorem splitOn_eq_cons (cs : Text) : ∃ more, cs.splitOn '\n' = cs.takeWhile (· ≠ '\n') :: more := by
  induction cs with
  | nil => exact ⟨[], List.splitOn_nil '\n'⟩
  | cons c cs ih =>
    obtain ⟨more, hmore⟩ := ih
    rw [List.splitOn_cons_eq_if_modifyHead, hmore]
    by_cases hc : c = '\n'
    · exact ⟨_, by rw [if_pos (by simp [hc]), List.takeWhile_cons_of_neg (by simp [hc])]⟩
    · exact ⟨more, by rw [if_neg (by simp [hc]), List.takeWhile_cons_of_pos (by simp [hc]), List.modifyHead_cons]⟩

theorem flatMap_splitOn_of_readAll {ls : List (Line V)} (h : readAll others xs = some ls) :
    xs.flatMap (·.splitOn '\n') = xs := by
  induction xs generalizing ls with
  | nil => rfl
  | cons x xs ih =>
    obtain ⟨l, ls', hl, hls, -⟩ := readAll_cons.mp h
    rw [List.flatMap_cons, ih hls, splitOn_of_readLine hl]
    rfl

/-- The lines of a text that is put together from texts. -/
theorem splitOn_intercalate_flatMap (hne : xs ≠ []) :
    ((['\n'] : Text).intercalate xs).splitOn '\n' = xs.flatMap (·.splitOn '\n') := by
  induction xs with
  | nil => exact absurd rfl hne
  | cons x xs ih =>
    cases xs with
    | nil => simp
    | cons y ys =>
      rw [List.flatMap_cons, ← ih (by simp), List.intercalate_cons_cons, List.append_assoc, List.singleton_append,
        List.splitOn_append_cons_self]

/-- A blank line at the end changes nothing. -/
theorem parseLines_concat_nil : parseLines others (xs ++ [[]]) = parseLines others xs := by
  have hblank : ∀ (p : List Text) (a : List (Line V)), items p (a ++ [.blank]) = items p a := by
    intro p a
    rw [items_append]
    exact List.append_nil _
  have hnil : readAll others [[]] = some [.blank] := rfl
  rw [parseLines, parseLines]
  cases h : readAll others xs with
  | none =>
    have hnone : readAll others (xs ++ [[]]) = none := by
      by_contra hsome
      obtain ⟨ls, hls⟩ := Option.ne_none_iff_exists'.mp hsome
      obtain ⟨a, b, ha, -⟩ := readAll_append.mp hls
      rw [h] at ha
      cases ha
    rw [hnone]
  | some ls =>
    rw [readAll_append.mpr ⟨ls, [.blank], h, hnil, rfl⟩]
    simp only [hblank]

/-! ### The lines of one table -/

/-- No line is a header. -/
def Flat (ls : List (Line V)) : Prop := ∀ path, .header path ∉ ls

/-- If there are lines, they begin with a header. -/
def Opens (ls : List (Line V)) : Prop := ls = [] ∨ ∃ path more, ls = .header path :: more

/-- The entry of a line. -/
def Line.entry? : Line V → Option (Text × Value V)
  | .entry _ key value => some (key, value)
  | _ => none

def entries (ls : List (Line V)) : List (Text × Value V) := ls.filterMap Line.entry?

theorem Flat.append (ha : Flat a) (hb : Flat b) : Flat (a ++ b) := by
  intro path hmem
  rcases List.mem_append.mp hmem with h | h
  · exact ha path h
  · exact hb path h

theorem Flat.of_cons {l : Line V} (h : Flat (l :: a)) : Flat a := fun path hmem => h path (List.mem_cons_of_mem l hmem)

theorem Flat.pathAfter_eq (h : Flat a) : pathAfter path a = path := by
  induction a with
  | nil => rfl
  | cons l a ih =>
    cases l with
    | header q => exact absurd List.mem_cons_self (h q)
    | blank => exact ih h.of_cons
    | entry => exact ih h.of_cons

theorem Flat.items_eq (h : Flat a) : items path a = (entries a).map fun x => .value path x.1 x.2 := by
  induction a with
  | nil => rfl
  | cons l a ih =>
    cases l with
    | header q => exact absurd List.mem_cons_self (h q)
    | blank => exact ih h.of_cons
    | entry q k v => exact congrArg (Item.value path k v :: ·) (ih h.of_cons)

theorem Flat.mem_items_iff (h : Flat a) : .value p k v ∈ items path a ↔ p = path ∧ (k, v) ∈ entries a := by
  rw [h.items_eq, List.mem_map]
  constructor
  · rintro ⟨x, hx, heq⟩
    obtain ⟨rfl, rfl, rfl⟩ := Item.value.inj heq
    exact ⟨rfl, hx⟩
  · rintro ⟨rfl, hx⟩
    exact ⟨(k, v), hx, rfl⟩

theorem Flat.valuePaths_eq (h : Flat a) :
    (items path a).filterMap Item.valuePath = ((entries a).map Prod.fst).map fun k => path ++ [k] := by
  rw [h.items_eq, List.filterMap_map, List.map_map, ← List.filterMap_eq_map]
  rfl

theorem mem_entries : (k, v) ∈ entries a ↔ ∃ quoted, .entry quoted k v ∈ a := by
  rw [entries, List.mem_filterMap]
  constructor
  · rintro ⟨l, hl, heq⟩
    cases l with
    | entry quoted k' v' =>
      obtain ⟨rfl, rfl⟩ := Prod.mk.inj (Option.some.inj heq)
      exact ⟨quoted, hl⟩
    | blank => cases heq
    | header => cases heq
  · rintro ⟨quoted, hl⟩
    exact ⟨_, hl, rfl⟩

/-- A key is in one line only. -/
theorem entry_unique (hnodup : ((entries a).map Prod.fst).Nodup) {q q' : Bool} {v' : Value V} (h : .entry q k v ∈ a)
    (h' : .entry q' k v' ∈ a) : q = q' := by
  induction a with
  | nil => cases h
  | cons l a ih =>
    have hcons : ∀ {q v}, l = .entry q k v → ∀ {q' v'}, .entry q' k v' ∉ a := by
      rintro q v rfl q' v' hmem
      exact (List.nodup_cons.mp hnodup).1 (Lib.Assoc.mem_keys_of_mem (mem_entries.mpr ⟨q', hmem⟩))
    have hrest : ((entries a).map Prod.fst).Nodup := by
      rw [entries, List.filterMap_cons] at hnodup
      split at hnodup
      · exact hnodup
      · exact (List.nodup_cons.mp hnodup).2
    rcases List.mem_cons.mp h with heq | h <;> rcases List.mem_cons.mp h' with heq' | h'
    · rw [← heq] at heq'
      exact (Line.entry.inj heq').1.symm
    · exact absurd h' (hcons heq.symm)
    · exact absurd h (hcons heq'.symm)
    · exact ih hrest h h'

/-- What is read from the lines. -/
theorem mem_of_readAll (h : readAll others xs = some zs) {l : Line V} : l ∈ zs ↔ ∃ x ∈ xs, readLine others x = some l := by
  induction xs generalizing zs with
  | nil =>
    obtain rfl := Option.some.inj h
    simp
  | cons x xs ih =>
    obtain ⟨l', ls, hl, hls, rfl⟩ := readAll_cons.mp h
    rw [List.mem_cons, ih hls]
    simp [hl, eq_comm]

theorem readable_of_readAll (h : readAll others xs = some zs) : ∀ x ∈ xs, ∃ l, readLine others x = some l := by
  induction xs generalizing zs with
  | nil => simp
  | cons x xs ih =>
    obtain ⟨l, ls, hl, hls, -⟩ := readAll_cons.mp h
    intro y hy
    rcases List.mem_cons.mp hy with rfl | hy
    · exact ⟨l, hl⟩
    · exact ih hls y hy

/-- After a header, it does not matter in which table the lines begin. -/
theorem Opens.items_eq (h : Opens a) (path path' : List Text) : items path a = items path' a := by
  rcases h with rfl | ⟨q, more, rfl⟩ <;> rfl

theorem Opens.table_mem (h : Opens a) (hmem : .value p k v ∈ items path a) : .table p ∈ items path a := by
  rcases h with rfl | ⟨q, more, rfl⟩
  · cases hmem
  · rcases List.mem_cons.mp hmem with heq | hmem
    · cases heq
    · rcases mem_items_value hmem with rfl | hmem
      · exact List.mem_cons_self
      · exact List.mem_cons_of_mem _ hmem

/-! ### A table with new entries -/

/-- The items are values in a table. -/
def Within (path : List Text) (is : List (Item V)) : Prop := ∀ i ∈ is, ∃ k v, i = .value path k v

theorem Within.table_notMem {is : List (Item V)} (h : Within path is) (p : List Text) : .table p ∉ is := by
  intro hmem
  obtain ⟨k, v, heq⟩ := h _ hmem
  cases heq

theorem Within.path_eq {is : List (Item V)} (h : Within path is) (hmem : .value p k v ∈ is) : p = path := by
  obtain ⟨k', v', heq⟩ := h _ hmem
  exact (Item.value.inj heq).1

theorem mem_tables_iff {is : List (Item V)} : p ∈ is.filterMap Item.tablePath ↔ .table p ∈ is := by
  rw [List.mem_filterMap]
  constructor
  · rintro ⟨i, hi, heq⟩
    cases i with
    | table q =>
      obtain rfl := Option.some.inj heq
      exact hi
    | value => cases heq
  · exact fun h => ⟨_, h, rfl⟩

theorem mem_values_iff {is : List (Item V)} {q : List Text} :
    q ∈ is.filterMap Item.valuePath ↔ ∃ p k v, .value p k v ∈ is ∧ q = p ++ [k] := by
  rw [List.mem_filterMap]
  constructor
  · rintro ⟨i, hi, heq⟩
    cases i with
    | table q => cases heq
    | value p k v => exact ⟨p, k, v, hi, (Option.some.inj heq).symm⟩
  · rintro ⟨p, k, v, hi, rfl⟩
    exact ⟨_, hi, rfl⟩

theorem Within.tables_eq_nil {is : List (Item V)} (h : Within path is) : is.filterMap Item.tablePath = [] := by
  rw [List.eq_nil_iff_forall_not_mem]
  exact fun q hq => h.table_notMem q (mem_tables_iff.mp hq)

/-- The parts of a document around the entries of a table that has no table before it. -/
structure Parts (name : Text) (before own after : List (Item V)) : Prop where
  table_before : .table [name] ∉ before
  path_before : ∀ p k v, .value p k v ∈ before → p = [] ∨ .table p ∈ before
  within : Within [name] own
  path_after : ∀ p k v, .value p k v ∈ after → .table p ∈ after
  table_after : .table [name] ∉ after

theorem items_section (name : Text) {own after : List (Line V)} (hflat : Flat own) :
    items [] (a ++ .header [name] :: (own ++ after)) =
      items [] a ++ (.table [name] :: (items [name] own ++ items [name] after)) := by
  rw [items_append, items, items_append, hflat.pathAfter_eq]

/-- The keys of the table are different. -/
theorem nodup_entries_of_valid {name : Text} {own after : List (Line V)} (hflat : Flat own)
    (hvalid : Valid (items [] (a ++ .header [name] :: (own ++ after)))) : ((entries own).map Prod.fst).Nodup := by
  have hvalues := hvalid.values
  have hheader : Item.valuePath (.table [name] : Item V) = none := rfl
  rw [items_section name hflat, List.filterMap_append, List.filterMap_cons_none hheader, List.filterMap_append,
    List.nodup_append', List.nodup_append', hflat.valuePaths_eq] at hvalues
  exact hvalues.2.1.1.of_map _

/-- The parts of a document, by its lines. -/
theorem parts_of_lines {name : Text} {own after : List (Line V)} (hflat : Flat own) (hopens : Opens after)
    (hvalid : Valid (items [] (a ++ .header [name] :: (own ++ after)))) :
    Parts name (items [] a) (items [name] own) (items [name] after) := by
  have htables := hvalid.tables
  rw [items_section name hflat, List.filterMap_append] at htables
  have hheader : Item.tablePath (.table [name] : Item V) = some [name] := rfl
  rw [List.filterMap_cons_some hheader, List.filterMap_append, List.nodup_append', List.nodup_cons] at htables
  obtain ⟨-, ⟨hafter, -⟩, hbefore⟩ := htables
  refine ⟨fun hmem => ?_, fun p k v hmem => mem_items_value hmem, ?_, fun p k v hmem => hopens.table_mem hmem, fun hmem => ?_⟩
  · exact hbefore (mem_tables_iff.mpr hmem) List.mem_cons_self
  · intro i hi
    rw [hflat.items_eq] at hi
    obtain ⟨x, -, rfl⟩ := List.mem_map.mp hi
    exact ⟨x.1, x.2, rfl⟩
  · exact hafter (List.mem_append_right _ (mem_tables_iff.mpr hmem))

variable {name : Text} {before own after new : List (Item V)} {kvs : List (Text × Value V)}

theorem Parts.ne_of_mem (h : Parts name before own after) (hmem : .value p k v ∈ before ∨ .value p k v ∈ after) : p ≠ [name] := by
  rintro rfl
  rcases hmem with hmem | hmem
  · rcases h.path_before _ _ _ hmem with hnil | htable
    · cases hnil
    · exact h.table_before htable
  · exact h.table_after (h.path_after _ _ _ hmem)

section

variable (h : Parts name before own after) {table : List (Item V)}
  (htable : table = [.table [name]] ∨ table = [] ∧ own = [] ∧ after = []) (hnew : Within [name] new)
  (hvalues : ∀ k v, .value [name] k v ∈ new ↔ if k ∈ kvs.map Prod.fst then (k, v) ∈ kvs else .value [name] k v ∈ own)
include h hnew

/-- The paths of the values in the table are not those of others. -/
theorem Parts.disjoint {q : List Text} (hmem : q ∈ before.filterMap Item.valuePath ∨ q ∈ after.filterMap Item.valuePath) :
    q ∉ new.filterMap Item.valuePath := by
  intro hq
  obtain ⟨p, k, v, hpk, rfl⟩ := mem_values_iff.mp hq
  obtain rfl := hnew.path_eq hpk
  have hother : ∃ p k' v, (.value p k' v ∈ before ∨ .value p k' v ∈ after) ∧ [name] ++ [k] = p ++ [k'] := by
    rcases hmem with hmem | hmem
    · obtain ⟨p, k', v, hv, heq⟩ := mem_values_iff.mp hmem
      exact ⟨p, k', v, .inl hv, heq⟩
    · obtain ⟨p, k', v, hv, heq⟩ := mem_values_iff.mp hmem
      exact ⟨p, k', v, .inr hv, heq⟩
  obtain ⟨p, k', v, hv, heq⟩ := hother
  exact h.ne_of_mem hv (List.append_inj_left' heq rfl).symm

include htable

theorem Parts.tables_iff (q : List Text) : .table q ∈ before ++ (.table [name] :: (new ++ after)) ↔
    .table q ∈ before ++ (table ++ (own ++ after)) ∨ q = [name] := by
  have hnone := hnew.table_notMem q
  have hnone' := h.within.table_notMem q
  rcases htable with rfl | ⟨rfl, rfl, rfl⟩
  · simp only [List.mem_append, List.mem_cons, Item.table.injEq, hnone, hnone', List.not_mem_nil]
    tauto
  · simp [hnone]

include hvalues

theorem Parts.values_iff (p : List Text) (k : Text) (v : Value V) :
    .value p k v ∈ before ++ (.table [name] :: (new ++ after)) ↔
      if p = [name] ∧ k ∈ kvs.map Prod.fst then (k, v) ∈ kvs else .value p k v ∈ before ++ (table ++ (own ++ after)) := by
  have hnotTable : .value p k v ∉ table := by
    rcases htable with rfl | ⟨rfl, -⟩ <;> simp
  have hmem : .value p k v ∈ before ++ (.table [name] :: (new ++ after)) ↔
      (.value p k v ∈ before ∨ .value p k v ∈ after) ∨ .value p k v ∈ new := by
    simp only [List.mem_append, List.mem_cons, reduceCtorEq, false_or]
    rw [← or_assoc, or_right_comm]
  have hmem' : .value p k v ∈ before ++ (table ++ (own ++ after)) ↔
      (.value p k v ∈ before ∨ .value p k v ∈ after) ∨ .value p k v ∈ own := by
    simp only [List.mem_append, hnotTable, false_or]
    rw [← or_assoc, or_right_comm]
  rw [hmem, hmem']
  by_cases hp : p = [name]
  · subst hp
    have hnone : ¬ (.value [name] k v ∈ before ∨ .value [name] k v ∈ after) := fun hmem => h.ne_of_mem hmem rfl
    simp only [hnone, false_or, true_and, hvalues]
  · have hnone : .value p k v ∉ new := fun hmem => hp (hnew.path_eq hmem)
    have hnone' : .value p k v ∉ own := fun hmem => hp (h.within.path_eq hmem)
    simp [hp, hnone, hnone']

/-- **A document with new entries in a table** is valid, and has them in place of the old ones. -/
theorem Parts.overrides (hvalid : Valid (before ++ (table ++ (own ++ after))))
    (hnodup : (new.filterMap Item.valuePath).Nodup)
    (hnotValue : ∀ v, .value [] name v ∉ before ++ (table ++ (own ++ after)))
    (hnotTable : ∀ k ∈ kvs.map Prod.fst, ¬ HasTable (before ++ (table ++ (own ++ after))) [name, k]) :
    Valid (before ++ (.table [name] :: (new ++ after))) ∧
      Overrides [name] kvs (before ++ (table ++ (own ++ after))) (before ++ (.table [name] :: (new ++ after))) := by
  have htables := h.tables_iff htable hnew
  have hvaluesIff := h.values_iff htable hnew hvalues
  have hvalidTables := hvalid.tables
  have hvalidValues := hvalid.values
  refine ⟨⟨?_, ?_, ?_⟩, ⟨fun p => ?_, hvaluesIff⟩⟩
  · rcases htable with rfl | ⟨rfl, rfl, rfl⟩
    · simpa [List.filterMap_append, h.within.tables_eq_nil, hnew.tables_eq_nil, Item.tablePath] using hvalidTables
    · have hnotMem : [name] ∉ before.filterMap Item.tablePath := fun hmem => h.table_before (mem_tables_iff.mp hmem)
      simp only [List.append_nil] at hvalidTables
      simpa [List.filterMap_append, hnew.tables_eq_nil, Item.tablePath] using hvalidTables.concat hnotMem
  · have hnoTable : table.filterMap Item.valuePath = [] := by
      rcases htable with rfl | ⟨rfl, -⟩ <;> rfl
    have hnoHeader : Item.valuePath (.table [name] : Item V) = none := rfl
    rw [List.filterMap_append, List.filterMap_append, List.filterMap_append, hnoTable, List.nil_append,
      List.nodup_append'] at hvalidValues
    obtain ⟨hbefore, hrest, hapart⟩ := hvalidValues
    rw [List.nodup_append'] at hrest
    rw [List.disjoint_append_right] at hapart
    rw [List.filterMap_append, List.filterMap_cons_none hnoHeader, List.filterMap_append, List.nodup_append',
      List.nodup_append', List.disjoint_append_right]
    refine ⟨hbefore, ⟨hnodup, hrest.2.1, fun q hq hafter => ?_⟩, fun q hmem => ?_, hapart.2⟩
    · exact h.disjoint hnew (.inr hafter) hq
    · exact h.disjoint hnew (.inl hmem)
  · intro p hp q hq
    obtain ⟨p, k, v, hv, rfl⟩ := mem_values_iff.mp hp
    rw [hvaluesIff] at hv
    rcases (htables q).mp (mem_tables_iff.mp hq) with hold | rfl
    · split_ifs at hv with hkey
      · obtain ⟨rfl, hkey⟩ := hkey
        exact fun hprefix => hnotTable k hkey ⟨q, hold, hprefix⟩
      · exact hvalid.apart _ (mem_values_iff.mpr ⟨p, k, v, hv, rfl⟩) q (mem_tables_iff.mpr hold)
    · intro hprefix
      have hlen := hprefix.length_le
      obtain rfl : p = [] := by
        simpa using hlen
      obtain rfl : k = name := by simpa using hprefix
      rw [if_neg (by simp)] at hv
      exact hnotValue v hv
  · constructor
    · rintro ⟨q, hq, hprefix⟩
      rcases (htables q).mp hq with hold | rfl
      · exact .inl ⟨q, hold, hprefix⟩
      · exact .inr hprefix
    · rintro (⟨q, hq, hprefix⟩ | hprefix)
      · exact ⟨q, (htables q).mpr (.inl hq), hprefix⟩
      · exact ⟨[name], (htables [name]).mpr (.inr rfl), hprefix⟩

end

end Persona.TomlText
