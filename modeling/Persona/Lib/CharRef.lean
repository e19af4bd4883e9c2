import Mathlib.Data.List.DropRight
import Mathlib.Data.List.Infix
import Mathlib.Data.List.TakeWhile

/-!
# Character references

`html.unescape`: after an ampersand stands a number, or a name of HTML's table, and the character that it refers
to is put in its place. A name may go on, and may lack its semicolon; then the longest one that the text begins
with counts.

Every reference is longer than what is put in its place, so that a text is left as it is just when it has none
(`unescape_eq_self_iff`). A reference ends before a blank (`refers_append_blank`).
-/

namespace Persona.Lib

/-- `[^\t\n\f <&#;]`. -/
def isNameChar (c : Char) : Bool :=
  c ≠ '\t' && c ≠ '\n' && c ≠ '\x0c' && c ≠ ' ' && c ≠ '<' && c ≠ '&' && c ≠ '#' && c ≠ ';'

/-- `[0-9a-fA-F]`. -/
def isHexDigit (c : Char) : Bool := c.isDigit || ('a' ≤ c && c ≤ 'f') || ('A' ≤ c && c ≤ 'F')

/-- A table of names: `html.entities.html5`. -/
structure Html5 where
  /-- The characters that a name refers to. -/
  text : List Char → Option (List Char)
  /-- A name has two to 32 characters, and a semicolon or none. -/
  name : ∀ {n t}, text n = some t →
    ∃ m, (n = m ∨ n = m ++ [';']) ∧ 2 ≤ m.length ∧ m.length ≤ 32 ∧ ∀ c ∈ m, isNameChar c = true
  /-- It refers to two characters at most. -/
  short : ∀ {n t}, text n = some t → t.length ≤ 2

namespace CharRef

/-! ### What is replaced -/

/-- `;?`. -/
def semicolon (cs : List Char) : List Char := if cs.head? = some ';' then [';'] else []

/-- `[^\t\n\f <&#;]{1,32}`, or nothing. -/
def namePart (cs : List Char) : List Char := (cs.takeWhile isNameChar).take 32

/-- The group of `_charref`, at the characters after an ampersand. -/
def charref : List Char → Option (List Char)
  | '#' :: rest =>
    let ds := rest.takeWhile Char.isDigit
    if ds ≠ [] then some ('#' :: (ds ++ semicolon (rest.drop ds.length)))
    else match rest with
      | x :: rest =>
        let hs := rest.takeWhile isHexDigit
        if (x = 'x' ∨ x = 'X') ∧ hs ≠ [] then some ('#' :: x :: (hs ++ semicolon (rest.drop hs.length))) else none
      | [] => none
  | cs => if namePart cs ≠ [] then some (namePart cs ++ semicolon (cs.drop (namePart cs).length)) else none

/-! ### What it is replaced by -/

/-- `_invalid_charrefs`. -/
def invalidCharrefs : List (ℕ × ℕ) :=
  [(0x00, 0xFFFD), (0x0D, 0x0D), (0x80, 0x20AC), (0x81, 0x81), (0x82, 0x201A), (0x83, 0x0192), (0x84, 0x201E),
    (0x85, 0x2026), (0x86, 0x2020), (0x87, 0x2021), (0x88, 0x02C6), (0x89, 0x2030), (0x8A, 0x0160), (0x8B, 0x2039),
    (0x8C, 0x0152), (0x8D, 0x8D), (0x8E, 0x017D), (0x8F, 0x8F), (0x90, 0x90), (0x91, 0x2018), (0x92, 0x2019),
    (0x93, 0x201C), (0x94, 0x201D), (0x95, 0x2022), (0x96, 0x2013), (0x97, 0x2014), (0x98, 0x02DC), (0x99, 0x2122),
    (0x9A, 0x0161), (0x9B, 0x203A), (0x9C, 0x0153), (0x9D, 0x9D), (0x9E, 0x017E), (0x9F, 0x0178)]

/-- `num in _invalid_codepoints`, up to the last code point. -/
def isInvalid (num : ℕ) : Bool :=
  (0x1 ≤ num && num ≤ 0x8) || num = 0xB || (0xE ≤ num && num ≤ 0x1F) || (0x7F ≤ num && num ≤ 0x9F) ||
    (0xFDD0 ≤ num && num ≤ 0xFDEF) || 0xFFFE ≤ num % 0x10000

/-- The number that digits stand for. -/
def number (base : ℕ) (digits : List Char) : ℕ :=
  digits.foldl (fun n c => base * n +
    if c.isDigit then c.toNat - '0'.toNat else if 'a' ≤ c then c.toNat - 'a'.toNat + 10 else c.toNat - 'A'.toNat + 10) 0

/-- The characters that a number refers to. For a decimal one of thousands of digits newer versions of `int` raise;
the others find, as here, that it is too large. -/
def replaceNumber (num : ℕ) : List Char :=
  match invalidCharrefs.lookup num with
  | some n => [Char.ofNat n]
  | none =>
    if 0xD800 ≤ num ∧ num ≤ 0xDFFF ∨ 0x10FFFF < num then [Char.ofNat 0xFFFD]
    else if isInvalid num then []
    else [Char.ofNat num]

variable (T : Html5)

/-- The characters that a name refers to, or the longest name that it begins with. -/
def replaceName (s : List Char) : List Char :=
  match T.text s with
  | some t => t
  | none =>
    (((List.range' 2 (s.length - 2)).reverse.findSome? fun x => (T.text (s.take x)).map (· ++ s.drop x))).getD ('&' :: s)

/-- `_replace_charref`. -/
def replaceCharref : List Char → List Char
  | '#' :: x :: cs =>
    if x = 'x' ∨ x = 'X' then replaceNumber (number 16 (cs.rdropWhile (· = ';')))
    else replaceNumber (number 10 ((x :: cs).rdropWhile (· = ';')))
  | s => replaceName T s

/-- The text from a place on, after `skip` characters that belong to a reference. -/
def unescapeFrom : ℕ → List Char → List Char
  | _, [] => []
  | skip + 1, _ :: cs => unescapeFrom skip cs
  | 0, c :: cs =>
    if c = '&' then
      match charref cs with
      | some ref => replaceCharref T ref ++ unescapeFrom ref.length cs
      | none => c :: unescapeFrom 0 cs
    else c :: unescapeFrom 0 cs

/-- `html.unescape`. -/
def unescape (cs : List Char) : List Char := unescapeFrom T 0 cs

/-! ### References -/

/-- A number, or a name of the table, comes first. -/
inductive Begins : List Char → Prop where
  | decimal {d : Char} (rest : List Char) : d.isDigit = true → Begins ('#' :: d :: rest)
  | hex {x h : Char} (rest : List Char) : x = 'x' ∨ x = 'X' → isHexDigit h = true → Begins ('#' :: x :: h :: rest)
  | named {n t : List Char} (rest : List Char) : T.text n = some t → Begins (n ++ rest)

/-- The text has a character reference. -/
def Refers (cs : List Char) : Prop := ∃ pre post, cs = pre ++ '&' :: post ∧ Begins T post

variable {T} {cs ds m n t ref s : List Char}

/-! ### What is matched -/

theorem append_semicolon_isPrefix (h : ds <+: cs) : ds ++ semicolon (cs.drop ds.length) <+: cs := by
  obtain ⟨rest, rfl⟩ := h
  rw [List.drop_left, List.prefix_append_right_inj, semicolon]
  split_ifs with hhead
  · obtain ⟨rest, rfl⟩ := List.head?_eq_some_iff.mp hhead
    exact ⟨rest, rfl⟩
  · exact List.nil_prefix

theorem amp_notMem_append_semicolon (h : '&' ∉ ds) (cs : List Char) : '&' ∉ ds ++ semicolon cs := by
  rw [List.mem_append, not_or, semicolon]
  refine ⟨h, ?_⟩
  split_ifs <;> decide

theorem amp_notMem_takeWhile {p : Char → Bool} (hp : p '&' = false) (cs : List Char) : '&' ∉ cs.takeWhile p := by
  intro hmem
  have hamp := List.mem_takeWhile_imp hmem
  rw [hp] at hamp
  cases hamp

theorem namePart_isPrefix (cs : List Char) : namePart cs <+: cs := (List.take_prefix _ _).trans (List.takeWhile_prefix _)

theorem charref_name (h : cs.head? ≠ some '#') : charref cs =
    if namePart cs ≠ [] then some (namePart cs ++ semicolon (cs.drop (namePart cs).length)) else none := by
  rw [charref]
  rintro rest rfl
  exact h rfl

/-- A name of the table at which the text begins is in what is matched. -/
theorem prefix_of_text (h : T.text n = some t) (hn : n <+: cs) : n <+: namePart cs ++ semicolon (cs.drop (namePart cs).length) := by
  obtain ⟨m, hname, -, hlen, hchars⟩ := T.name h
  rcases hname with rfl | rfl
  · refine List.IsPrefix.trans ?_ (List.prefix_append _ _)
    obtain ⟨rest, rfl⟩ := hn
    rw [namePart, List.takeWhile_append_of_pos hchars, List.prefix_take_iff]
    exact ⟨List.prefix_append _ _, hlen⟩
  · obtain ⟨rest, rfl⟩ := hn
    have hpart : namePart (m ++ [';'] ++ rest) = m := by
      have hstop : (';' :: rest).takeWhile isNameChar = [] := rfl
      rw [namePart, List.append_assoc, List.singleton_append, List.takeWhile_append_of_pos hchars, hstop, List.append_nil,
        List.take_of_length_le hlen]
    rw [hpart, List.append_assoc, List.drop_left]
    exact List.prefix_rfl

theorem name_ne_nil (h : T.text n = some t) : ∃ c n', n = c :: n' ∧ isNameChar c = true := by
  obtain ⟨m, hname, hlen, -, hchars⟩ := T.name h
  obtain ⟨c, m, rfl⟩ := List.exists_cons_of_length_pos (Nat.lt_of_lt_of_le Nat.zero_lt_two hlen)
  have hc := hchars c List.mem_cons_self
  rcases hname with rfl | rfl
  · exact ⟨c, m, rfl, hc⟩
  · exact ⟨c, _, rfl, hc⟩

theorem two_le_length (h : T.text n = some t) : 2 ≤ n.length := by
  obtain ⟨m, rfl | rfl, hlen, -, -⟩ := T.name h
  · exact hlen
  · rw [List.length_append]
    exact Nat.le_add_right_of_le hlen

theorem begins_of_text (h : T.text n = some t) (hn : n <+: cs) : Begins T cs := by
  obtain ⟨rest, rfl⟩ := hn
  exact .named rest h

/-! ### What becomes of it -/

theorem length_replaceNumber (num : ℕ) : (replaceNumber num).length ≤ 1 := by
  rw [replaceNumber]
  split
  · exact le_rfl
  · split_ifs <;> simp

/-- A name is replaced by something no longer, or it is none and is left. -/
theorem replaceName_cases (T : Html5) (s : List Char) :
    ((∃ n t, T.text n = some t ∧ n <+: s) ∧ (replaceName T s).length ≤ s.length) ∨
      (∀ n t, T.text n = some t → ¬ n <+: s) ∧ replaceName T s = '&' :: s := by
  rw [replaceName]
  cases hs : T.text s with
  | some t => exact .inl ⟨⟨s, t, hs, List.prefix_rfl⟩, (T.short hs).trans (two_le_length hs)⟩
  | none =>
    dsimp only
    cases hfind : (List.range' 2 (s.length - 2)).reverse.findSome? fun x => (T.text (s.take x)).map (· ++ s.drop x) with
    | some r =>
      obtain ⟨x, hx, hr⟩ := List.exists_of_findSome?_eq_some hfind
      obtain ⟨t, ht, rfl⟩ := Option.map_eq_some_iff.mp hr
      have hrange := List.mem_range'_1.mp (List.mem_reverse.mp hx)
      have hshort := T.short ht
      refine .inl ⟨⟨_, _, ht, List.take_prefix x s⟩, ?_⟩
      rw [Option.getD_some, List.length_append, List.length_drop]
      omega
    | none =>
      refine .inr ⟨fun n t hn hpre => ?_, rfl⟩
      have htake := List.prefix_iff_eq_take.mp hpre
      have hlt : n.length < s.length := by
        refine lt_of_le_of_ne hpre.length_le fun heq => ?_
        rw [hpre.eq_of_length heq, hs] at hn
        cases hn
      have hmem : n.length ∈ (List.range' 2 (s.length - 2)).reverse := by
        have htwo := two_le_length hn
        rw [List.mem_reverse, List.mem_range'_1]
        omega
      have hnone := List.findSome?_eq_none_iff.mp hfind _ hmem
      rw [← htake, hn] at hnone
      cases hnone

/-- What is matched after an ampersand. -/
structure Matched (T : Html5) (cs ref : List Char) : Prop where
  prefix_cs : ref <+: cs
  amp : '&' ∉ ref
  replaced : (Begins T cs ∧ (replaceCharref T ref).length ≤ ref.length) ∨ (¬ Begins T cs ∧ replaceCharref T ref = '&' :: ref)

theorem charref_hash (rest : List Char) : charref ('#' :: rest) =
    if rest.takeWhile Char.isDigit ≠ [] then
      some ('#' :: (rest.takeWhile Char.isDigit ++ semicolon (rest.drop (rest.takeWhile Char.isDigit).length)))
    else match rest with
      | x :: rest =>
        if (x = 'x' ∨ x = 'X') ∧ rest.takeWhile isHexDigit ≠ [] then
          some ('#' :: x :: (rest.takeWhile isHexDigit ++ semicolon (rest.drop (rest.takeWhile isHexDigit).length)))
        else none
      | [] => none := rfl

theorem length_replaceCharref_hash (x : Char) (cs : List Char) : (replaceCharref T ('#' :: x :: cs)).length ≤ 1 := by
  rw [replaceCharref]
  split_ifs <;> exact length_replaceNumber _

theorem matched_number {x : Char} {cs ref : List Char} (h : Begins T ('#' :: x :: cs)) (hpre : ref <+: cs) (hx : x ≠ '&')
    (hamp : '&' ∉ ref) : Matched T ('#' :: x :: cs) ('#' :: x :: ref) where
  prefix_cs := (List.prefix_cons_inj _).mpr ((List.prefix_cons_inj _).mpr hpre)
  amp := by simp [hx.symm, hamp]
  replaced := .inl ⟨h, (length_replaceCharref_hash x ref).trans (by simp)⟩

theorem begins_hash_iff {rest : List Char} : Begins T ('#' :: rest) ↔ (∃ d post, rest = d :: post ∧ d.isDigit = true) ∨
    ∃ x h post, rest = x :: h :: post ∧ (x = 'x' ∨ x = 'X') ∧ isHexDigit h = true := by
  constructor
  · intro h
    generalize hcs : '#' :: rest = cs at h
    cases h with
    | decimal post hd => exact .inl ⟨_, post, (List.cons.inj hcs).2, hd⟩
    | hex post hx hh => exact .inr ⟨_, _, post, (List.cons.inj hcs).2, hx, hh⟩
    | named post hn =>
      obtain ⟨c, n, rfl, hc⟩ := name_ne_nil hn
      obtain ⟨rfl, -⟩ := List.cons.inj hcs
      cases hc
  · rintro (⟨d, post, rfl, hd⟩ | ⟨x, h, post, rfl, hx, hh⟩)
    · exact .decimal post hd
    · exact .hex post hx hh

theorem exists_cons_of_takeWhile {p : Char → Bool} (h : cs.takeWhile p ≠ []) : ∃ c rest, cs = c :: rest ∧ p c = true := by
  cases cs with
  | nil => exact absurd rfl h
  | cons c rest =>
    refine ⟨c, rest, rfl, ?_⟩
    by_contra hc
    exact h (List.takeWhile_cons_of_neg hc)

theorem charref_hash_cases (T : Html5) (rest : List Char) :
    (∃ ref, charref ('#' :: rest) = some ref ∧ Matched T ('#' :: rest) ref) ∨
      charref ('#' :: rest) = none ∧ ¬ Begins T ('#' :: rest) := by
  cases rest with
  | nil => exact .inr ⟨rfl, by rw [begins_hash_iff]; simp⟩
  | cons x rest =>
    rw [charref_hash]
    by_cases hx : x.isDigit = true
    · have hamp : x ≠ '&' := by
        rintro rfl
        cases hx
      rw [List.takeWhile_cons_of_pos hx, if_pos (List.cons_ne_nil _ _)]
      exact .inl ⟨_, rfl, matched_number (.decimal rest hx) (append_semicolon_isPrefix (List.takeWhile_prefix _)) hamp
        (amp_notMem_append_semicolon (amp_notMem_takeWhile rfl rest) _)⟩
    · rw [List.takeWhile_cons_of_neg hx, if_neg (fun hne => hne rfl)]
      dsimp only
      split_ifs with hhex
      · obtain ⟨h, post, rfl, hh⟩ := exists_cons_of_takeWhile hhex.2
        have hamp : x ≠ '&' := by
          rintro rfl
          exact absurd hhex.1 (by decide)
        exact .inl ⟨_, rfl, matched_number (.hex post hhex.1 hh) (append_semicolon_isPrefix (List.takeWhile_prefix _)) hamp
          (amp_notMem_append_semicolon (amp_notMem_takeWhile rfl _) _)⟩
      · refine .inr ⟨rfl, ?_⟩
        rw [begins_hash_iff]
        rintro (⟨d, post, heq, hd⟩ | ⟨x', h, post, heq, hx', hh⟩)
        · obtain ⟨rfl, -⟩ := List.cons.inj heq
          exact hx hd
        · obtain ⟨rfl, rfl⟩ := List.cons.inj heq
          exact hhex ⟨hx', by rw [List.takeWhile_cons_of_pos hh]; exact List.cons_ne_nil _ _⟩

theorem charref_name_cases (T : Html5) (h : cs.head? ≠ some '#') :
    (∃ ref, charref cs = some ref ∧ Matched T cs ref) ∨ charref cs = none ∧ ¬ Begins T cs := by
  have hbegins : Begins T cs ↔ ∃ n t, T.text n = some t ∧ n <+: cs := by
    constructor
    · intro hcs
      cases hcs with
      | decimal | hex => exact absurd rfl h
      | named rest hn => exact ⟨_, _, hn, List.prefix_append _ _⟩
    · rintro ⟨n, t, hn, hpre⟩
      exact begins_of_text hn hpre
  rw [charref_name h]
  split_ifs with hpart
  · have hpre := append_semicolon_isPrefix (namePart_isPrefix cs)
    have hamp : '&' ∉ namePart cs := fun hmem => amp_notMem_takeWhile rfl cs (List.mem_of_mem_take hmem)
    refine .inl ⟨_, rfl, hpre, amp_notMem_append_semicolon hamp _, ?_⟩
    have hname : ∀ ref : List Char, ref.head? ≠ some '#' → replaceCharref T ref = replaceName T ref := by
      intro ref href
      rw [replaceCharref]
      rintro x rest rfl
      exact href rfl
    have hhead : (namePart cs ++ semicolon (cs.drop (namePart cs).length)).head? ≠ some '#' := by
      obtain ⟨rest, hrest⟩ := namePart_isPrefix cs
      rw [← hrest, List.head?_append_of_ne_nil _ hpart] at h
      rwa [List.head?_append_of_ne_nil _ hpart]
    rw [hname _ hhead]
    refine (replaceName_cases T _).imp (fun hlong => ⟨?_, hlong.2⟩) fun hnone => ⟨?_, hnone.2⟩
    · obtain ⟨⟨n, t, hn, hmatched⟩, -⟩ := hlong
      exact hbegins.mpr ⟨n, t, hn, hmatched.trans hpre⟩
    · rw [hbegins]
      rintro ⟨n, t, hn, hcs⟩
      exact hnone.1 n t hn (prefix_of_text hn hcs)
  · refine .inr ⟨rfl, ?_⟩
    rw [hbegins]
    rintro ⟨n, t, hn, hcs⟩
    obtain ⟨c, n, rfl, hc⟩ := name_ne_nil hn
    obtain ⟨rest, rfl⟩ := hcs
    refine hpart ?_
    rw [namePart, List.cons_append, List.takeWhile_cons_of_pos hc]
    exact List.cons_ne_nil _ _

/-- What `_charref` matches after an ampersand, if anything. -/
theorem charref_cases (T : Html5) (cs : List Char) :
    (∃ ref, charref cs = some ref ∧ Matched T cs ref) ∨ charref cs = none ∧ ¬ Begins T cs := by
  by_cases h : cs.head? = some '#'
  · obtain ⟨rest, rfl⟩ := List.head?_eq_some_iff.mp h
    exact charref_hash_cases T rest
  · exact charref_name_cases T h

/-! ### A text and its references -/

theorem not_refers_nil : ¬ Refers T [] := by
  rintro ⟨pre, post, hcs, -⟩
  cases pre <;> cases hcs

theorem refers_amp_iff : Refers T ('&' :: cs) ↔ Begins T cs ∨ Refers T cs := by
  constructor
  · rintro ⟨pre, post, heq, h⟩
    cases pre with
    | nil =>
      obtain rfl := (List.cons.inj heq).2
      exact .inl h
    | cons c pre => exact .inr ⟨pre, post, (List.cons.inj heq).2, h⟩
  · rintro (h | ⟨pre, post, rfl, h⟩)
    · exact ⟨[], cs, rfl, h⟩
    · exact ⟨'&' :: pre, post, rfl, h⟩

/-- A reference begins at an ampersand. -/
theorem refers_append_iff (h : '&' ∉ ds) : Refers T (ds ++ cs) ↔ Refers T cs := by
  induction ds with
  | nil => rfl
  | cons d ds ih =>
    obtain ⟨hd, hds⟩ := List.ne_and_not_mem_of_not_mem_cons h
    rw [← ih hds, List.cons_append]
    constructor
    · rintro ⟨pre, post, heq, hbegins⟩
      cases pre with
      | nil => exact absurd (List.cons.inj heq).1.symm hd
      | cons c pre => exact ⟨pre, post, (List.cons.inj heq).2, hbegins⟩
    · rintro ⟨pre, post, heq, hbegins⟩
      exact ⟨d :: pre, post, by rw [heq]; rfl, hbegins⟩

/-- A text without references is left; one with references gets shorter. -/
theorem unescapeFrom_cases (T : Html5) (skip : ℕ) (cs : List Char) :
    (¬ Refers T (cs.drop skip) ∧ unescapeFrom T skip cs = cs.drop skip) ∨
      (Refers T (cs.drop skip) ∧ (unescapeFrom T skip cs).length < (cs.drop skip).length) := by
  induction cs generalizing skip with
  | nil => exact .inl ⟨by rw [List.drop_nil]; exact not_refers_nil, by cases skip <;> rfl⟩
  | cons c cs ih =>
    cases skip with
    | succ skip => exact ih skip
    | zero =>
      rw [List.drop_zero, unescapeFrom]
      by_cases hc : c = '&'
      · rw [if_pos hc, hc, refers_amp_iff]
        rcases charref_cases T cs with ⟨ref, hmatch, ⟨rest, rfl⟩, hamp, hreplaced⟩ | ⟨hmatch, hnot⟩
        · have hrest := ih ref.length
          rw [List.drop_left] at hrest
          rw [hmatch, refers_append_iff hamp]
          dsimp only
          rw [List.length_append, List.length_cons, List.length_append]
          rcases hreplaced with ⟨hbegins, hlen⟩ | ⟨hbegins, hsame⟩
          · have hle : (unescapeFrom T ref.length (ref ++ rest)).length ≤ rest.length := by
              rcases hrest with ⟨-, heq⟩ | ⟨-, hlt⟩
              · rw [heq]
              · exact hlt.le
            exact .inr ⟨.inl hbegins, by omega⟩
          · rw [hsame, List.length_cons]
            rcases hrest with ⟨hnone, heq⟩ | ⟨hrefers, hlt⟩
            · exact .inl ⟨not_or.mpr ⟨hbegins, hnone⟩, by rw [heq]; rfl⟩
            · exact .inr ⟨.inr hrefers, by omega⟩
        · rw [hmatch]
          rcases ih 0 with ⟨hnone, heq⟩ | ⟨hrefers, hlt⟩
          · exact .inl ⟨not_or.mpr ⟨hnot, hnone⟩, congrArg _ heq⟩
          · exact .inr ⟨.inr hrefers, Nat.succ_lt_succ hlt⟩
      · have hskip : Refers T ([c] ++ cs) ↔ Refers T cs := refers_append_iff (by simpa using Ne.symm hc)
        rw [if_neg hc, ← List.singleton_append, hskip]
        rcases ih 0 with ⟨hnone, heq⟩ | ⟨hrefers, hlt⟩
        · exact .inl ⟨hnone, congrArg _ heq⟩
        · exact .inr ⟨hrefers, Nat.succ_lt_succ hlt⟩

/-- **What has no references** is left as it is, and nothing else is. -/
theorem unescape_eq_self_iff : unescape T cs = cs ↔ ¬ Refers T cs := by
  rcases unescapeFrom_cases T 0 cs with ⟨hnone, heq⟩ | ⟨hrefers, hlt⟩
  · exact iff_of_true heq hnone
  · refine iff_of_false (fun heq => ?_) (not_not.mpr hrefers)
    rw [← unescape, heq] at hlt
    exact lt_irrefl _ hlt

/-! ### Words -/

/-- A reference is told by its first characters, none of which is a blank. -/
theorem Begins.exists_prefix (h : Begins T cs) : ∃ w, w <+: cs ∧ ' ' ∉ w ∧ ∀ rest, Begins T (w ++ rest) := by
  cases h with
  | @decimal d rest hd =>
    refine ⟨['#', d], List.prefix_append ['#', d] rest, ?_, fun rest => .decimal rest hd⟩
    rintro hmem
    obtain rfl : ' ' = d := by simpa using hmem
    cases hd
  | @hex x h rest hx hh =>
    refine ⟨['#', x, h], List.prefix_append ['#', x, h] rest, ?_, fun rest => .hex rest hx hh⟩
    intro hmem
    obtain rfl | rfl : ' ' = x ∨ ' ' = h := by simpa using hmem
    · exact absurd hx (by decide)
    · cases hh
  | @named n t rest hn =>
    refine ⟨n, List.prefix_append n rest, fun hmem => ?_, fun rest => .named rest hn⟩
    obtain ⟨m, rfl | rfl, -, -, hchars⟩ := T.name hn
    · exact absurd (hchars ' ' hmem) (by decide)
    · have hm : ' ' ∈ m := by simpa using hmem
      exact absurd (hchars ' ' hm) (by decide)

/-- A reference ends before a blank. -/
theorem begins_append_blank (post : List Char) : Begins T (cs ++ ' ' :: post) ↔ Begins T cs := by
  constructor
  · intro h
    obtain ⟨w, hw, hblank, hbegins⟩ := h.exists_prefix
    rcases List.prefix_or_prefix_of_prefix hw (List.prefix_append cs (' ' :: post)) with ⟨rest, rfl⟩ | ⟨rest, rfl⟩
    · exact hbegins rest
    · cases rest with
      | nil =>
        rw [List.append_nil] at hbegins
        have hcs := hbegins []
        rwa [List.append_nil] at hcs
      | cons c rest =>
        have hrest := (List.prefix_append_right_inj cs).mp hw
        obtain rfl := (List.cons_prefix_cons.mp hrest).1
        exact absurd (List.mem_append_right cs List.mem_cons_self) hblank
  · intro h
    obtain ⟨w, ⟨rest, rfl⟩, -, hbegins⟩ := h.exists_prefix
    rw [List.append_assoc]
    exact hbegins _

/-- The references of texts with a blank between them are those of the texts. -/
theorem refers_append_blank (post : List Char) : Refers T (cs ++ ' ' :: post) ↔ Refers T cs ∨ Refers T post := by
  constructor
  · rintro ⟨pre, after, heq, hbegins⟩
    rcases List.append_eq_append_iff.mp heq with ⟨mid, rfl, hmid⟩ | ⟨mid, rfl, hmid⟩
    · right
      cases mid with
      | nil => exact absurd (List.cons.inj hmid).1 (by decide)
      | cons c mid => exact ⟨mid, after, (List.cons.inj hmid).2, hbegins⟩
    · left
      cases mid with
      | nil => exact absurd (List.cons.inj hmid).1 (by decide)
      | cons c mid =>
        obtain ⟨rfl, rfl⟩ := List.cons.inj hmid
        exact ⟨pre, mid, rfl, (begins_append_blank post).mp hbegins⟩
  · rintro (⟨pre, after, rfl, hbegins⟩ | ⟨pre, after, rfl, hbegins⟩)
    · exact ⟨pre, after ++ ' ' :: post, by simp, (begins_append_blank post).mpr hbegins⟩
    · exact ⟨cs ++ ' ' :: pre, after, by simp, hbegins⟩

end CharRef

end Persona.Lib
