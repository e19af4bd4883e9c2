import Persona.Lib.PyText
import Mathlib.Data.List.Infix

/-!
# Signs between blanks

`re.sub(r"\s+σ\s+", repl, s)` for a sign `σ`: where it stands alone between blanks it is replaced together
with them, from left to right. The blanks after a sign are used up, so that of two signs in a row only the
first is replaced.

A text that is cut at the end of a word is replaced part by part, unless this word is the sign
(`subSign_append`); a text in which the sign never stands alone is left as it is (`subSign_eq_self`).
-/

namespace Persona.Lib.PyText

/-- `re.sub(r"\s+σ\s+", repl, s)`. The blanks that were read last wait for what comes after them, last one
first; `none` stands for the blanks after a sign, which are dropped. -/
def subSign (sign : Char) (repl : List Char) : Option (List Char) → List Char → List Char
  | none, [] => []
  | none, c :: cs => if isSpace c then subSign sign repl none cs else c :: subSign sign repl (some []) cs
  | some blanks, [] => blanks.reverse
  | some blanks, c :: cs =>
    if isSpace c then subSign sign repl (some (c :: blanks)) cs
    else if c = sign ∧ blanks ≠ [] ∧ cs.head?.any isSpace = true then repl ++ subSign sign repl none cs
    else blanks.reverse ++ c :: subSign sign repl (some []) cs

/-- The text ends in a blank and the sign. -/
def EndsSigned (sign : Char) (cs : List Char) : Prop := ∃ pre a, isSpace a = true ∧ cs = pre ++ [a, sign]

/-- The sign stands between two blanks. -/
def Signed (sign : Char) (cs : List Char) : Prop := ∃ a z, isSpace a = true ∧ isSpace z = true ∧ [a, sign, z] <:+: cs

variable {sign other c : Char} {repl blanks xs ys word : List Char} {pending : Option (List Char)}

@[simp]
theorem subSign_some_nil : subSign sign repl (some blanks) [] = blanks.reverse := rfl

theorem subSign_none_cons : subSign sign repl none (c :: xs) =
    if isSpace c then subSign sign repl none xs else c :: subSign sign repl (some []) xs := rfl

theorem subSign_some_cons : subSign sign repl (some blanks) (c :: xs) =
    if isSpace c then subSign sign repl (some (c :: blanks)) xs
    else if c = sign ∧ blanks ≠ [] ∧ xs.head?.any isSpace = true then repl ++ subSign sign repl none xs
    else blanks.reverse ++ c :: subSign sign repl (some []) xs := rfl

theorem EndsSigned.append (h : EndsSigned sign ys) (xs : List Char) : EndsSigned sign (xs ++ ys) := by
  obtain ⟨pre, a, ha, rfl⟩ := h
  exact ⟨xs ++ pre, a, ha, (List.append_assoc ..).symm⟩

theorem Signed.mono (h : Signed sign xs) (hsub : xs <:+: ys) : Signed sign ys := by
  obtain ⟨a, z, ha, hz, hin⟩ := h
  exact ⟨a, z, ha, hz, hin.trans hsub⟩

theorem subSign_dropped (hc : isSpace c = false) : subSign sign repl none (c :: xs) = c :: subSign sign repl (some []) xs := by
  rw [subSign_none_cons, hc, if_neg (by simp)]

theorem subSign_kept (hc : isSpace c = false) (hnot : ¬ (c = sign ∧ blanks ≠ [] ∧ xs.head?.any isSpace = true)) :
    subSign sign repl (some blanks) (c :: xs) = blanks.reverse ++ c :: subSign sign repl (some []) xs := by
  rw [subSign_some_cons, hc, if_neg (by simp), if_neg hnot]

/-- A character of the result is one of the text, or of what a sign is replaced by. -/
theorem mem_subSign (h : c ∈ subSign sign repl pending xs) : c ∈ pending.getD [] ∨ c ∈ xs ∨ c ∈ repl := by
  induction xs generalizing pending with
  | nil =>
    cases pending with
    | none => cases h
    | some blanks => exact .inl (List.mem_reverse.mp h)
  | cons x xs ih =>
    have hcons : ∀ pending', pending'.getD [] ⊆ x :: pending.getD [] → c ∈ subSign sign repl pending' xs →
        c ∈ pending.getD [] ∨ c ∈ x :: xs ∨ c ∈ repl := by
      intro pending' hsub h
      rcases ih h with h | h | h
      · rcases List.mem_cons.mp (hsub h) with rfl | h
        · exact .inr (.inl List.mem_cons_self)
        · exact .inl h
      · exact .inr (.inl (List.mem_cons_of_mem _ h))
      · exact .inr (.inr h)
    cases pending with
    | none =>
      rw [subSign_none_cons] at h
      split_ifs at h with hx
      · exact hcons none (by simp) h
      · rcases List.mem_cons.mp h with rfl | h
        · exact .inr (.inl List.mem_cons_self)
        · exact hcons (some []) (by simp) h
    | some blanks =>
      rw [subSign_some_cons] at h
      split_ifs at h with hx hsign
      · exact hcons (some (x :: blanks)) (by simp) h
      · rcases List.mem_append.mp h with h | h
        · exact .inr (.inr h)
        · exact hcons none (by simp) h
      · rcases List.mem_append.mp h with h | h
        · exact .inl (List.mem_reverse.mp h)
        · rcases List.mem_cons.mp h with rfl | h
          · exact .inr (.inl List.mem_cons_self)
          · exact hcons (some []) (by simp) h

/-- **A cut at the end of a word** that is not the sign. -/
theorem subSign_append (hne : xs ≠ []) (hlast : ∀ c ∈ xs.getLast?, isSpace c = false)
    (hsign : ¬ EndsSigned sign ((pending.getD []).reverse ++ xs)) (hblanks : ∀ c ∈ pending.getD [], isSpace c = true)
    (ys : List Char) : subSign sign repl pending (xs ++ ys) = subSign sign repl pending xs ++ subSign sign repl (some []) ys := by
  induction xs generalizing pending with
  | nil => exact absurd rfl hne
  | cons x xs ih =>
    rw [List.cons_append]
    cases xs with
    | nil =>
      have hx : isSpace x = false := hlast x rfl
      cases pending with
      | none =>
        rw [subSign_dropped hx, subSign_dropped hx]
        rfl
      | some blanks =>
        -- the sign itself, after blanks, is not the last word
        have hnot : ∀ zs : List Char, ¬ (x = sign ∧ blanks ≠ [] ∧ zs.head?.any isSpace = true) := by
          rintro zs ⟨rfl, hblank, -⟩
          obtain ⟨b, blanks, rfl⟩ := List.exists_cons_of_ne_nil hblank
          exact hsign ⟨blanks.reverse, b, hblanks b List.mem_cons_self, by simp⟩
        rw [subSign_kept hx (hnot _), subSign_kept hx (hnot _), subSign_some_nil, List.append_assoc]
        rfl
    | cons y xs =>
      have hlast' : ∀ c ∈ (y :: xs).getLast?, isSpace c = false := by rwa [List.getLast?_cons_cons] at hlast
      have hnone : ¬ EndsSigned sign (y :: xs) := fun h => by
        have happend := h.append ((pending.getD []).reverse ++ [x])
        rw [List.append_assoc] at happend
        exact hsign happend
      have ihnone := @ih none (List.cons_ne_nil _ _) hlast' hnone (by simp)
      have ihnil := @ih (some []) (List.cons_ne_nil _ _) hlast' hnone (by simp)
      cases pending with
      | none =>
        rw [subSign_none_cons, subSign_none_cons]
        split_ifs with hx
        · exact ihnone
        · rw [ihnil, List.cons_append]
      | some blanks =>
        rw [subSign_some_cons, subSign_some_cons, List.cons_append, List.head?_cons, List.head?_cons]
        split_ifs with hx hs
        · refine ih (List.cons_ne_nil _ _) hlast' (by simpa using hsign) (List.forall_mem_cons.mpr ⟨hx, hblanks⟩)
        · rw [← List.cons_append, ihnone, List.append_assoc]
        · rw [← List.cons_append, ihnil, List.append_assoc, List.cons_append]

/-- A text in which the sign does not stand alone is left as it is. -/
theorem subSign_eq_self (hblanks : ∀ c ∈ blanks, isSpace c = true) (h : ¬ Signed sign (blanks.reverse ++ xs)) :
    subSign sign repl (some blanks) xs = blanks.reverse ++ xs := by
  induction xs generalizing blanks with
  | nil => rw [subSign_some_nil, List.append_nil]
  | cons x xs ih =>
    rw [subSign_some_cons]
    split_ifs with hx hs
    · rw [ih (List.forall_mem_cons.mpr ⟨hx, hblanks⟩) (by simpa using h)]
      simp
    · exfalso
      obtain ⟨rfl, hblank, hnext⟩ := hs
      obtain ⟨b, blanks, rfl⟩ := List.exists_cons_of_ne_nil hblank
      cases xs with
      | nil => cases hnext
      | cons z xs => exact h ⟨b, z, hblanks b List.mem_cons_self, by simpa using hnext, blanks.reverse, xs, by simp⟩
    · have hrest : ¬ Signed sign ([].reverse ++ xs) := fun hin =>
        h (hin.mono ⟨blanks.reverse ++ [x], [], by simp⟩)
      rw [ih (by simp) hrest]
      rfl

theorem subSign_word (hword : ∀ c ∈ word, isSpace c = false) : subSign sign repl (some []) word = word := by
  refine subSign_eq_self (by simp) ?_
  rintro ⟨a, z, ha, -, hin⟩
  rw [List.reverse_nil, List.nil_append] at hin
  rw [hword a (hin.subset List.mem_cons_self)] at ha
  cases ha

/-- A word at the end of the text stays there, were it the sign. -/
theorem subSign_append_word (hne : word ≠ []) (hword : ∀ c ∈ word, isSpace c = false) (xs : List Char) :
    ∃ out, subSign sign repl pending (xs ++ word) = out ++ word := by
  induction xs generalizing pending with
  | nil =>
    obtain ⟨w, word, rfl⟩ := List.exists_cons_of_ne_nil hne
    obtain ⟨hw, hword⟩ := List.forall_mem_cons.mp hword
    have hrest : subSign sign repl (some []) word = word := subSign_word hword
    have hnot : ∀ blanks : List Char, ¬ (w = sign ∧ blanks ≠ [] ∧ word.head?.any isSpace = true) := by
      rintro blanks ⟨-, -, hnext⟩
      cases word with
      | nil => cases hnext
      | cons z word =>
        rw [List.head?_cons, Option.any_some, hword z List.mem_cons_self] at hnext
        cases hnext
    cases pending with
    | none => exact ⟨[], by rw [List.nil_append, subSign_dropped hw, hrest]⟩
    | some blanks => exact ⟨blanks.reverse, by rw [List.nil_append, subSign_kept hw (hnot blanks), hrest]⟩
  | cons x xs ih =>
    have hstep : ∀ pre pending', ∃ out, pre ++ subSign sign repl pending' (xs ++ word) = out ++ word := by
      intro pre pending'
      obtain ⟨out, hout⟩ := @ih pending'
      exact ⟨pre ++ out, by rw [hout, List.append_assoc]⟩
    rw [List.cons_append]
    cases pending with
    | none =>
      rw [subSign_none_cons]
      split_ifs
      · exact hstep [] none
      · exact hstep [x] (some [])
    | some blanks =>
      rw [subSign_some_cons]
      split_ifs
      · exact hstep [] (some (x :: blanks))
      · exact hstep repl none
      · obtain ⟨out, hout⟩ := hstep (blanks.reverse ++ [x]) (some [])
        exact ⟨out, by rw [← hout]; simp⟩

/-- The end of a text stays free of another sign. -/
theorem not_endsSigned_subSign (hlast : ∀ c ∈ xs.getLast?, isSpace c = false) (h : ¬ EndsSigned other xs) :
    ¬ EndsSigned other (subSign sign repl (some []) xs) := by
  rintro ⟨pre, a, ha, heq⟩
  rcases List.eq_nil_or_concat xs with rfl | ⟨init, c, rfl⟩
  · simp at heq
  · rw [List.concat_eq_append] at h hlast heq
    have hc : isSpace c = false := hlast c (by simp)
    have hend : ∀ w : List Char, w ≠ [] → (∀ d ∈ w, isSpace d = false) → w.length ≤ 2 → ∀ zs, init ++ [c] = zs ++ w →
        w <:+ [a, other] := by
      intro w hne hw hlen zs hzs
      obtain ⟨out, hout⟩ : ∃ out, subSign sign repl (some []) (zs ++ w) = out ++ w := subSign_append_word hne hw zs
      rw [hzs, hout] at heq
      exact List.suffix_of_suffix_length_le ⟨out, heq⟩ (List.suffix_append pre _) hlen
    obtain rfl : c = other := by
      have hsuffix := hend [c] (by simp) (by simpa using hc) (by simp) init rfl
      simpa using (List.suffix_iff_eq_append.mp hsuffix)
    rcases List.eq_nil_or_concat init with rfl | ⟨init, d, rfl⟩
    · have hlen := congrArg List.length heq
      rw [List.nil_append, subSign_kept hc (by simp)] at hlen
      simp at hlen
    · rw [List.concat_eq_append] at h hend
      by_cases hd : isSpace d = true
      · exact h ⟨init, d, hd, by simp⟩
      · have hsuffix := hend [d, c] (by simp) (by simpa [hc] using hd) (by simp) init (by simp)
        obtain ⟨rfl, -⟩ := List.cons.inj (hsuffix.eq_of_length rfl)
        exact hd ha

theorem subSign_blanks (hblanks : ∀ c ∈ xs, isSpace c = true) (ys : List Char) :
    subSign sign repl (some blanks) (xs ++ ys) = subSign sign repl (some (xs.reverse ++ blanks)) ys := by
  induction xs generalizing blanks with
  | nil => rfl
  | cons x xs ih =>
    obtain ⟨hx, hxs⟩ := List.forall_mem_cons.mp hblanks
    rw [List.cons_append, subSign_some_cons, if_pos hx, ih hxs, List.reverse_cons, List.append_assoc]
    rfl

/-- Where blanks with a line break wait, the result begins with blanks and a line break. -/
theorem subSign_newline (hbreak : '\n' ∈ blanks) (hblanks : ∀ c ∈ blanks, isSpace c = true) (xs : List Char) :
    ∃ ws zs, subSign sign ('\n' :: repl) (some blanks) xs = ws ++ '\n' :: zs ∧ ∀ c ∈ ws, isSpace c = true := by
  have hpending : ∀ zs, ∃ ws zs', blanks.reverse ++ zs = ws ++ '\n' :: zs' ∧ ∀ c ∈ ws, isSpace c = true := by
    intro zs
    obtain ⟨ws, zs', hsplit⟩ := List.append_of_mem (List.mem_reverse.mpr hbreak)
    refine ⟨ws, zs' ++ zs, by rw [hsplit]; simp, fun c hc => hblanks c (List.mem_reverse.mp ?_)⟩
    rw [hsplit]
    exact List.mem_append_left _ hc
  induction xs generalizing blanks with
  | nil =>
    have h := hpending []
    rwa [List.append_nil] at h
  | cons x xs ih =>
    rw [subSign_some_cons]
    split_ifs with hx
    · refine ih (List.mem_cons_of_mem _ hbreak) (List.forall_mem_cons.mpr ⟨hx, hblanks⟩) fun zs => ?_
      obtain ⟨ws, zs', hsplit, hws⟩ := hpending (x :: zs)
      exact ⟨ws, zs', by rw [← hsplit]; simp, hws⟩
    · exact ⟨[], _, rfl, by simp⟩
    · exact hpending _

/-- A line break after blanks, at the start of a text, stays. -/
theorem subSign_line (hblanks : ∀ c ∈ blanks, isSpace c = true) (xs : List Char) :
    ∃ ws zs, subSign sign ('\n' :: repl) (some []) (blanks ++ '\n' :: xs) = ws ++ '\n' :: zs ∧ ∀ c ∈ ws, isSpace c = true := by
  have hpending : ∀ c ∈ '\n' :: (blanks.reverse ++ []), isSpace c = true := by
    simpa using ⟨rfl, hblanks⟩
  rw [subSign_blanks hblanks, subSign_some_cons, if_pos (show isSpace '\n' = true from rfl)]
  exact subSign_newline List.mem_cons_self hpending xs

end Persona.Lib.PyText
