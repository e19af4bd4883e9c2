import Persona.Lib.Lines

/-!
# Files as texts

What Python's text mode makes of the bytes of a file, and what becomes of a text that is written: UTF-8 that is
read with `errors="ignore"`, line ends that become newlines, and the lines of a text with and without their ends.

A file that is read and written again loses what is no UTF-8 and its carriage returns, and nothing else
(`utf8_readText_iff`); its lines, with their ends, are the text (`flatten_keepends`).
-/

namespace Persona.Lib.TextFile

/-! ### Line ends -/

/-- Universal newlines: `\r\n` and `\r` become `\n`. -/
def universal : List Char → List Char
  | [] => []
  | '\r' :: '\n' :: cs => '\n' :: universal cs
  | c :: cs => (if c = '\r' then '\n' else c) :: universal cs

/-- `readlines`; `line` is the line so far, last character first. -/
def readlinesFrom (line : List Char) : List Char → List (List Char)
  | [] => if line.isEmpty then [] else [line.reverse]
  | c :: cs => if c = '\n' then (c :: line).reverse :: readlinesFrom [] cs else readlinesFrom (c :: line) cs

/-- `f.readlines()`. -/
def readlines (text : List Char) : List (List Char) := readlinesFrom [] text

theorem cr_notMem_universal (cs : List Char) : '\r' ∉ universal cs := by
  fun_induction universal cs with
  | case1 => exact List.not_mem_nil
  | case2 cs ih => exact List.not_mem_cons_of_ne_of_not_mem (by decide) ih
  | case3 c cs hcrlf ih =>
    refine List.not_mem_cons_of_ne_of_not_mem ?_ ih
    split_ifs with hc
    · decide
    · exact Ne.symm hc

theorem universal_eq_self {cs : List Char} (h : '\r' ∉ cs) : universal cs = cs := by
  fun_induction universal cs with
  | case1 => rfl
  | case2 cs ih => exact absurd List.mem_cons_self h
  | case3 c cs hcrlf ih =>
    obtain ⟨hc, hcs⟩ := List.ne_and_not_mem_of_not_mem_cons h
    rw [if_neg (Ne.symm hc), ih hcs]

theorem universal_cons {c : Char} (hr : c ≠ '\r') (cs : List Char) : universal (c :: cs) = c :: universal cs := by
  rw [universal, if_neg hr]
  rintro ys rfl
  exact absurd rfl hr

/-- A last character that is no line end stays the last one. -/
theorem universal_concat {c : Char} (hr : c ≠ '\r') (hn : c ≠ '\n') (cs : List Char) :
    universal (cs ++ [c]) = universal cs ++ [c] := by
  fun_induction universal cs with
  | case1 => exact universal_cons hr []
  | case2 cs ih => exact congrArg ('\n' :: ·) ih
  | case3 d cs hcrlf ih =>
    rw [List.cons_append, universal, ih, List.cons_append]
    rintro ys rfl hys
    cases cs with
    | nil => exact hn (List.cons.inj hys).1
    | cons e cs =>
      obtain ⟨rfl, -⟩ := List.cons.inj hys
      exact hcrlf cs rfl rfl

/-! ### Bytes -/

/-- `s.encode("utf-8")`. -/
def utf8 (cs : List Char) : List UInt8 := cs.flatMap String.utf8EncodeChar

/-- The character that the bytes begin with. -/
def charAt (bs : List UInt8) : Option Char := ByteArray.utf8DecodeChar? ⟨bs.toArray⟩ 0

/-- The characters of the bytes, the first `skip` of which belong to one already. -/
def decodeFrom : ℕ → List UInt8 → List Char
  | _, [] => []
  | skip + 1, _ :: bs => decodeFrom skip bs
  | 0, b :: bs =>
    match charAt (b :: bs) with
    | some c => c :: decodeFrom (c.utf8Size - 1) bs
    | none => decodeFrom 0 bs

/-- `bs.decode("utf-8", "ignore")`: a byte that begins no character is left out. -/
def decodeIgnore (bs : List UInt8) : List Char := decodeFrom 0 bs

/-- `path.read_text(encoding="utf-8", errors="ignore")` of a file with the bytes. -/
def readText (bs : List UInt8) : List Char := universal (decodeIgnore bs)

@[simp] theorem utf8_nil : utf8 [] = [] := rfl

theorem utf8_cons (c : Char) (cs : List Char) : utf8 (c :: cs) = String.utf8EncodeChar c ++ utf8 cs := rfl

@[simp] theorem utf8_append (cs ds : List Char) : utf8 (cs ++ ds) = utf8 cs ++ utf8 ds := List.flatMap_append

theorem charAt_append (c : Char) (bs : List UInt8) : charAt (String.utf8EncodeChar c ++ bs) = some c := by
  have h := @ByteArray.utf8DecodeChar?_utf8EncodeChar_append ⟨bs.toArray⟩ c
  rw [charAt, ← h]
  congr 1
  apply ByteArray.ext
  simp

/-- The bytes of the character they begin with come first. -/
theorem prefix_of_charAt {bs : List UInt8} {c : Char} (h : charAt bs = some c) : String.utf8EncodeChar c <+: bs := by
  obtain ⟨l, hl⟩ := ByteArray.exists_of_utf8DecodeChar?_eq_some h
  have hdata := congrArg (fun b : ByteArray => b.data.toList) hl
  simp at hdata
  exact ⟨l.data.toList, hdata.symm⟩

theorem decodeIgnore_cons (b : UInt8) (bs : List UInt8) : decodeIgnore (b :: bs) =
    match charAt (b :: bs) with
    | some c => c :: decodeFrom (c.utf8Size - 1) bs
    | none => decodeIgnore bs := rfl

theorem decodeIgnore_of_charAt {b : UInt8} {bs : List UInt8} {c : Char} (h : charAt (b :: bs) = some c) :
    decodeIgnore (b :: bs) = c :: decodeFrom (c.utf8Size - 1) bs := by
  rw [decodeIgnore_cons, h]

theorem decodeIgnore_of_charAt_none {b : UInt8} {bs : List UInt8} (h : charAt (b :: bs) = none) :
    decodeIgnore (b :: bs) = decodeIgnore bs := by
  rw [decodeIgnore_cons, h]

theorem decodeFrom_length (xs bs : List UInt8) : decodeFrom xs.length (xs ++ bs) = decodeIgnore bs := by
  induction xs with
  | nil => cases bs <;> rfl
  | cons x xs ih => exact ih

theorem decodeIgnore_append (c : Char) (bs : List UInt8) : decodeIgnore (String.utf8EncodeChar c ++ bs) = c :: decodeIgnore bs := by
  have hchar := charAt_append c bs
  have hlen := String.length_utf8EncodeChar c
  cases henc : String.utf8EncodeChar c with
  | nil =>
    rw [henc] at hlen
    exact absurd hlen.symm c.utf8Size_pos.ne'
  | cons b xs =>
    rw [henc, List.cons_append] at hchar
    rw [henc] at hlen
    have hskip : c.utf8Size - 1 = xs.length := by rw [← hlen, List.length_cons, Nat.add_sub_cancel]
    rw [List.cons_append, decodeIgnore_of_charAt hchar, hskip, decodeFrom_length]

/-- What is written is read. -/
@[simp] theorem decodeIgnore_utf8 (cs : List Char) : decodeIgnore (utf8 cs) = cs := by
  induction cs with
  | nil => rfl
  | cons c cs ih => rw [utf8_cons, decodeIgnore_append, ih]

theorem utf8_decodeFrom (skip : ℕ) (bs : List UInt8) : (utf8 (decodeFrom skip bs)).Sublist (bs.drop skip) := by
  induction bs generalizing skip with
  | nil => cases skip <;> exact List.Sublist.refl []
  | cons b bs ih =>
    cases skip with
    | succ skip => exact ih skip
    | zero =>
      rw [← decodeIgnore, List.drop_zero]
      cases hchar : charAt (b :: bs) with
      | none =>
        rw [decodeIgnore_of_charAt_none hchar]
        exact (ih 0).cons b
      | some c =>
        obtain ⟨rest, hrest⟩ := prefix_of_charAt hchar
        have hdrop : rest = bs.drop (c.utf8Size - 1) := by
          have h := congrArg (List.drop c.utf8Size) hrest
          rw [← String.length_utf8EncodeChar, List.drop_left, String.length_utf8EncodeChar,
            ← Nat.sub_add_cancel c.utf8Size_pos, List.drop_succ_cons] at h
          exact h
        rw [decodeIgnore_of_charAt hchar, utf8_cons, ← hrest, hdrop]
        exact (ih _).append_left _

/-- What is read is in the file. -/
theorem utf8_decodeIgnore (bs : List UInt8) : (utf8 (decodeIgnore bs)).Sublist bs := utf8_decodeFrom 0 bs

theorem cr_mem_utf8EncodeChar {c : Char} : (13 : UInt8) ∈ String.utf8EncodeChar c ↔ c = '\r' := by
  constructor
  · intro h
    have hval : c.val.toNat = 13 := by
      -- The bytes of a longer encoding are all at least 128.
      unfold String.utf8EncodeChar at h
      dsimp only at h
      split_ifs at h with h₁ h₂ h₃ <;>
        simp only [List.mem_cons, List.not_mem_nil, or_false, ← UInt8.toNat_inj, UInt8.toNat_ofNat', UInt8.reduceToNat] at h <;>
        omega
    exact Char.ext (UInt32.toNat_inj.mp hval)
  · rintro rfl
    decide

/-- A carriage return is a byte of a text just when it is a character of it. -/
theorem cr_mem_utf8 {cs : List Char} : (13 : UInt8) ∈ utf8 cs ↔ '\r' ∈ cs := by
  rw [utf8, List.mem_flatMap]
  constructor
  · rintro ⟨c, hc, h⟩
    rwa [cr_mem_utf8EncodeChar.mp h] at hc
  · exact fun h => ⟨'\r', h, cr_mem_utf8EncodeChar.mpr rfl⟩

theorem cr_notMem_readText (bs : List UInt8) : (13 : UInt8) ∉ utf8 (readText bs) :=
  fun h => cr_notMem_universal _ (cr_mem_utf8.mp h)

/-- A file that is read and written again is left alone just when it is UTF-8 without carriage returns. -/
theorem utf8_readText_iff {bs : List UInt8} : utf8 (readText bs) = bs ↔ ∃ cs, bs = utf8 cs ∧ '\r' ∉ cs := by
  constructor
  · exact fun h => ⟨readText bs, h.symm, cr_notMem_universal _⟩
  · rintro ⟨cs, rfl, hcr⟩
    rw [readText, decodeIgnore_utf8, universal_eq_self hcr]

/-- A file without carriage returns that keeps its length is left alone. -/
theorem utf8_readText_of_length {bs : List UInt8} (hcr : (13 : UInt8) ∉ bs) (hlen : (utf8 (readText bs)).length = bs.length) :
    utf8 (readText bs) = bs := by
  have hsub := utf8_decodeIgnore bs
  have hread : readText bs = decodeIgnore bs := universal_eq_self fun h => hcr (hsub.subset (cr_mem_utf8.mpr h))
  rw [hread] at hlen ⊢
  exact hsub.eq_of_length hlen

/-! ### Texts with surrogates -/

section

open PyText

/-- A text without surrogates, of its characters. -/
abbrev ofChars (cs : List Char) : PyStr := cs.map .scalar

/-- The characters of a text without surrogates. -/
def scalars : PyStr → Option (List Char)
  | [] => some []
  | .scalar c :: s => (scalars s).map (c :: ·)
  | .surrogate _ :: _ => none

/-- `s.encode("utf-8")`; `none` when it raises. -/
def encode? (s : PyStr) : Option (List UInt8) := (scalars s).map utf8

/-- `s.encode("utf-8", errors="ignore")`. -/
def encodeIgnore (s : PyStr) : List UInt8 := s.flatMap fun
  | .scalar c => String.utf8EncodeChar c
  | .surrogate _ => []

@[simp] theorem scalars_nil : scalars [] = some [] := rfl

theorem scalars_cons (c : Char) (s : PyStr) : scalars (.scalar c :: s) = (scalars s).map (c :: ·) := rfl

theorem scalars_append (s t : PyStr) : scalars (s ++ t) = (scalars s).bind fun cs => (scalars t).map (cs ++ ·) := by
  induction s with
  | nil => simp
  | cons c s ih =>
    cases c with
    | surrogate n => rfl
    | scalar c =>
      rw [List.cons_append, scalars_cons, scalars_cons, ih]
      cases scalars s <;> cases scalars t <;> rfl

@[simp] theorem scalars_ofChars (cs : List Char) : scalars (ofChars cs) = some cs := by
  induction cs with
  | nil => rfl
  | cons c cs ih => rw [ofChars, List.map_cons, scalars_cons, ih, Option.map_some]

theorem eq_ofChars_of_scalars {s : PyStr} {cs : List Char} (h : scalars s = some cs) : s = ofChars cs := by
  induction s generalizing cs with
  | nil =>
    obtain rfl := Option.some.inj h
    rfl
  | cons c s ih =>
    cases c with
    | surrogate n => cases h
    | scalar c =>
      obtain ⟨ds, hds, rfl⟩ := Option.map_eq_some_iff.mp h
      rw [ih hds]
      rfl

/-- A text is told by its encoding. -/
theorem encode?_injective {a b : PyStr} {bytes : List UInt8} (ha : encode? a = some bytes) (hb : encode? b = some bytes) : a = b := by
  obtain ⟨cs, hcs, rfl⟩ := Option.map_eq_some_iff.mp ha
  obtain ⟨ds, hds, hbytes⟩ := Option.map_eq_some_iff.mp hb
  obtain rfl : ds = cs := by rw [← decodeIgnore_utf8 ds, hbytes, decodeIgnore_utf8]
  rw [eq_ofChars_of_scalars hcs, eq_ofChars_of_scalars hds]

/-- What was read and is written again is encoded as it was. -/
theorem encode?_around (before after : List Char) (s : PyStr) :
    encode? (ofChars before ++ (s ++ ofChars after)) = (encode? s).map fun ins => utf8 before ++ (ins ++ utf8 after) := by
  rw [encode?, scalars_append, scalars_ofChars, scalars_append, scalars_ofChars, encode?]
  cases scalars s with
  | none => rfl
  | some cs => simp

end

/-! ### Lines -/

/-- `splitlines(keepends=True)`; `line` is the line so far, last character first. -/
def keependsFrom (line : List Char) : List Char → List (List Char)
  | [] => if line.isEmpty then [] else [line.reverse]
  | '\r' :: '\n' :: cs => ('\n' :: '\r' :: line).reverse :: keependsFrom [] cs
  | c :: cs => if PyText.isLineBreak c then (c :: line).reverse :: keependsFrom [] cs else keependsFrom (c :: line) cs

/-- `s.splitlines(keepends=True)`. -/
def keepends (cs : List Char) : List (List Char) := keependsFrom [] cs

/-- A line without its end. -/
def dropEnd (line : List Char) : List Char :=
  match line.reverse with
  | '\n' :: '\r' :: cs => cs.reverse
  | c :: cs => if PyText.isLineBreak c then cs.reverse else line
  | [] => []

theorem flatten_keependsFrom (line cs : List Char) : (keependsFrom line cs).flatten = line.reverse ++ cs := by
  fun_induction keependsFrom line cs with
  | case1 line h => simp [List.isEmpty_iff.mp h]
  | case2 line h => simp
  | case3 line cs ih => simp [ih]
  | case4 line c cs hcrlf hc ih => simp [ih]
  | case5 line c cs hcrlf hc ih => simp [ih]

/-- The lines with their ends are the text. -/
theorem flatten_keepends (cs : List Char) : (keepends cs).flatten = cs := flatten_keependsFrom [] cs

/-- The end of a line is its last character, or both of `\r\n`. -/
theorem dropEnd_reverse {c : Char} {line : List Char} (h : ∀ c ∈ line, PyText.isLineBreak c = false) :
    dropEnd (c :: line).reverse = if PyText.isLineBreak c then line.reverse else (c :: line).reverse := by
  rw [dropEnd, List.reverse_reverse]
  split
  · rename_i heq
    obtain ⟨-, rfl⟩ := List.cons.inj heq
    exact absurd (h '\r' List.mem_cons_self) (by decide)
  · rename_i heq
    obtain ⟨rfl, rfl⟩ := List.cons.inj heq
    rfl
  · rename_i heq
    cases heq

theorem dropEnd_of_noBreak {line : List Char} (h : ∀ c ∈ line, PyText.isLineBreak c = false) : dropEnd line.reverse = line.reverse := by
  cases line with
  | nil => rfl
  | cons c line =>
    obtain ⟨hc, hline⟩ := List.forall_mem_cons.mp h
    rw [dropEnd_reverse hline, if_neg (by simp [hc])]

theorem dropEnd_of_break {line : List Char} {c : Char} (hc : PyText.isLineBreak c = true)
    (h : ∀ c ∈ line, PyText.isLineBreak c = false) : dropEnd (c :: line).reverse = line.reverse := by
  rw [dropEnd_reverse h, if_pos hc]

/-- `splitlines` without `keepends` leaves the ends of the lines out. -/
theorem map_dropEnd_keepends {line : List Char} (cs : List Char) (h : ∀ c ∈ line, PyText.isLineBreak c = false) :
    (keependsFrom line cs).map dropEnd = PyText.splitlinesL line cs := by
  fun_induction keependsFrom line cs with
  | case1 line hline =>
    rw [List.isEmpty_iff.mp hline]
    rfl
  | case2 line hline =>
    rw [List.map_singleton, dropEnd_of_noBreak h, PyText.splitlinesL_nil fun hnil => hline (List.isEmpty_iff.mpr hnil)]
  | case3 line cs ih =>
    have hend : dropEnd ('\n' :: '\r' :: line).reverse = line.reverse := by
      rw [dropEnd, List.reverse_reverse]
      rfl
    rw [List.map_cons, hend, ih (List.forall_mem_nil _), PyText.splitlinesL_crlf]
  | case4 line c cs hcrlf hc ih =>
    have hnot : ¬ (c = '\r' ∧ cs.head? = some '\n') := by
      rintro ⟨rfl, hhead⟩
      obtain ⟨cs', rfl⟩ := List.head?_eq_some_iff.mp hhead
      exact hcrlf cs' rfl rfl
    rw [List.map_cons, dropEnd_of_break hc h, ih (List.forall_mem_nil _), PyText.splitlinesL_cons_break hc hnot]
  | case5 line c cs hcrlf hc ih =>
    rw [ih (List.forall_mem_cons.mpr ⟨by simpa using hc, h⟩), PyText.splitlinesL_cons (by simpa using hc)]

/-! ### Splicing -/

/-- The new bytes are the old ones with `ins` in the place of `mid`. -/
def Spliced (old mid new ins : List UInt8) : Prop := ∃ p s, old = p ++ (mid ++ s) ∧ new = p ++ (ins ++ s)

/-- Bytes put in the place of a part of the text that was read are spliced into the file just when reading and
writing leaves the file alone. -/
theorem spliced_iff {bs ins : List UInt8} {before mid after : List Char} (h : readText bs = before ++ (mid ++ after)) :
    Spliced bs (utf8 mid) (utf8 before ++ (ins ++ utf8 after)) ins ↔ utf8 (readText bs) = bs := by
  have hbytes : utf8 (readText bs) = utf8 before ++ (utf8 mid ++ utf8 after) := by rw [h, utf8_append, utf8_append]
  constructor
  · rintro ⟨p, s, hold, hnew⟩
    have hread := cr_notMem_readText bs
    rw [hbytes] at hread
    -- What is outside the region has as many carriage returns before as after, and as many bytes.
    have hcount := congrArg (List.count (13 : UInt8)) hnew
    have hlen := congrArg List.length hnew
    simp only [List.count_append, List.length_append] at hcount hlen
    have hzero := List.count_eq_zero.mpr hread
    simp only [List.count_append] at hzero
    refine utf8_readText_of_length (List.count_eq_zero.mp ?_) ?_
    · rw [hold, List.count_append, List.count_append]
      omega
    · rw [hbytes, hold, List.length_append, List.length_append, List.length_append, List.length_append]
      omega
  · intro hsame
    exact ⟨utf8 before, utf8 after, by rw [← hbytes, hsame], rfl⟩

end Persona.Lib.TextFile
