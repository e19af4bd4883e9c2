import Persona.Lib.PyText
import Mathlib.Data.List.Infix
import Mathlib.Algebra.GroupWithZero.Nat

/-!
# The lines of a text

`str.splitlines` cuts at any of Python's line breaks. A newline is always one of the cuts
(`splitlinesL_append_newline`), and a line stands at the start of the text or after a line break
(`mem_splitlinesL`).
-/

namespace Persona.Lib.PyText

variable {xs ys line acc : List Char}

theorem splitlinesL_cons_break {c : Char} (hc : isLineBreak c = true) (hcrlf : ¬ (c = '\r' ∧ xs.head? = some '\n')) :
    splitlinesL acc (c :: xs) = acc.reverse :: splitlinesL [] xs := by
  rw [splitlinesL]
  · rw [if_pos hc]
  · rintro ys rfl rfl
    exact hcrlf ⟨rfl, rfl⟩

theorem splitlinesL_cons {c : Char} (hc : isLineBreak c = false) : splitlinesL acc (c :: xs) = splitlinesL (c :: acc) xs := by
  rw [splitlinesL]
  · rw [hc, if_neg (by simp)]
  · rintro ys rfl rfl
    cases hc

@[simp]
theorem splitlinesL_nil_nil : splitlinesL [] [] = [] := rfl

theorem splitlinesL_nil (hacc : acc ≠ []) : splitlinesL acc [] = [acc.reverse] := if_neg (by simpa using hacc)

theorem splitlinesL_crlf (acc xs : List Char) : splitlinesL acc ('\r' :: '\n' :: xs) = acc.reverse :: splitlinesL [] xs := rfl

/-- The steps of `splitlines`: the end of the text, two line breaks that count as one, another line break, and a
character of the line. -/
@[elab_as_elim]
theorem splitlinesL_induction {motive : List Char → List Char → Prop} (nil : ∀ acc, motive acc [])
    (crlf : ∀ acc xs, motive [] xs → motive acc ('\r' :: '\n' :: xs))
    (ending : ∀ acc c xs, isLineBreak c = true → ¬ (c = '\r' ∧ xs.head? = some '\n') → motive [] xs → motive acc (c :: xs))
    (cons : ∀ acc c xs, isLineBreak c = false → motive (c :: acc) xs → motive acc (c :: xs)) (acc xs : List Char) :
    motive acc xs := by
  induction acc, xs using splitlinesL.induct with
  | case1 acc hempty => exact nil acc
  | case2 acc hempty => exact nil acc
  | case3 acc xs ih => exact crlf acc xs ih
  | case4 acc c xs hcrlf hc ih =>
    refine ending acc c xs hc ?_ ih
    rintro ⟨rfl, hhead⟩
    exact hcrlf xs.tail rfl (List.eq_cons_of_mem_head? hhead)
  | case5 acc c xs hcrlf hc ih => exact cons acc c xs (by simpa using hc) ih

/-- A newline ends a line, whatever follows. -/
theorem splitlinesL_append_newline (xs acc ys : List Char) :
    splitlinesL acc (xs ++ '\n' :: ys) = splitlinesL acc (xs ++ ['\n']) ++ splitlinesL [] ys := by
  induction acc, xs using splitlinesL_induction with
  | nil acc => rfl
  | crlf acc xs ih =>
    rw [List.cons_append, List.cons_append, List.cons_append, List.cons_append, splitlinesL_crlf, splitlinesL_crlf, ih,
      List.cons_append]
  | ending acc c xs hc hcrlf ih =>
    rw [List.cons_append, List.cons_append]
    cases xs with
    | nil =>
      by_cases hr : c = '\r'
      · subst hr
        rfl
      · have hrest : ∀ zs : List Char, ¬ (c = '\r' ∧ ([] ++ '\n' :: zs).head? = some '\n') := fun zs h => hr h.1
        rw [splitlinesL_cons_break hc (hrest ys), splitlinesL_cons_break hc (hrest []), ih, List.cons_append]
    | cons d xs =>
      have hrest : ∀ zs : List Char, ¬ (c = '\r' ∧ (d :: xs ++ '\n' :: zs).head? = some '\n') := fun zs h => hcrlf h
      rw [splitlinesL_cons_break hc (hrest ys), splitlinesL_cons_break hc (hrest []), ih]
      rfl
  | cons acc c xs hc ih => rw [List.cons_append, List.cons_append, splitlinesL_cons hc, splitlinesL_cons hc, ih]

/-- A newline at the end of a line that has not ended adds no line. -/
theorem splitlinesL_snoc_newline (hne : acc ≠ [] ∨ xs ≠ []) (hlast : ∀ c ∈ xs.getLast?, isLineBreak c = false) :
    splitlinesL acc (xs ++ ['\n']) = splitlinesL acc xs := by
  induction acc, xs using splitlinesL_induction with
  | nil acc =>
    rw [List.nil_append, splitlinesL_cons_break rfl (by simp), splitlinesL_nil (hne.resolve_right fun h => h rfl),
      splitlinesL_nil_nil]
  | crlf acc xs ih =>
    have hxs : xs ≠ [] := by
      rintro rfl
      cases hlast '\n' rfl
    rw [List.cons_append, List.cons_append, splitlinesL_crlf, splitlinesL_crlf, ih (.inr hxs)]
    intro c hc
    exact hlast c (by simp [List.getLast?_cons, Option.mem_def.mp hc])
  | ending acc c xs hc hcrlf ih =>
    have hxs : xs ≠ [] := by
      rintro rfl
      rw [hlast c rfl] at hc
      cases hc
    have hcrlf' : ¬ (c = '\r' ∧ (xs ++ ['\n']).head? = some '\n') := by
      rw [List.head?_append_of_ne_nil _ hxs]
      exact hcrlf
    rw [List.cons_append, splitlinesL_cons_break hc hcrlf', splitlinesL_cons_break hc hcrlf, ih (.inr hxs)]
    intro d hd
    exact hlast d (by rw [List.getLast?_cons_of_ne_nil hxs]; exact hd)
  | cons acc c xs hc ih =>
    rw [List.cons_append, splitlinesL_cons hc, splitlinesL_cons hc, ih (.inl (List.cons_ne_nil _ _))]
    intro d hd
    cases xs with
    | nil => cases hd
    | cons e xs => exact hlast d hd

/-- Where a line stands: at the start, or after a line break. -/
theorem mem_splitlinesL (h : line ∈ splitlinesL acc xs) :
    (∃ l z, line = acc.reverse ++ l ∧ xs = l ++ z) ∨ ∃ x b z, isLineBreak b = true ∧ xs = x ++ b :: (line ++ z) := by
  induction acc, xs using splitlinesL_induction with
  | nil acc =>
    by_cases hacc : acc = []
    · subst hacc
      cases h
    · rw [splitlinesL_nil hacc, List.mem_singleton] at h
      exact .inl ⟨[], [], by rw [h, List.append_nil], rfl⟩
  | crlf acc xs ih =>
    rw [splitlinesL_crlf] at h
    rcases List.mem_cons.mp h with rfl | h
    · exact .inl ⟨[], _, by simp, rfl⟩
    · rcases ih h with ⟨l, z, rfl, rfl⟩ | ⟨x, b, z, hb, rfl⟩
      · exact .inr ⟨['\r'], '\n', z, rfl, rfl⟩
      · exact .inr ⟨'\r' :: '\n' :: x, b, z, hb, rfl⟩
  | ending acc c xs hc hcrlf ih =>
    rw [splitlinesL_cons_break hc hcrlf] at h
    rcases List.mem_cons.mp h with rfl | h
    · exact .inl ⟨[], _, by simp, rfl⟩
    · rcases ih h with ⟨l, z, rfl, rfl⟩ | ⟨x, b, z, hb, rfl⟩
      · exact .inr ⟨[], c, z, hc, rfl⟩
      · exact .inr ⟨c :: x, b, z, hb, rfl⟩
  | cons acc c xs hc ih =>
    rw [splitlinesL_cons hc] at h
    rcases ih h with ⟨l, z, rfl, rfl⟩ | ⟨x, b, z, hb, rfl⟩
    · exact .inl ⟨c :: l, z, by simp, rfl⟩
    · exact .inr ⟨c :: x, b, z, hb, rfl⟩

/-- A line is part of the text. -/
theorem infix_of_mem_splitlinesL (h : line ∈ splitlinesL [] xs) : line <:+: xs := by
  rcases mem_splitlinesL h with ⟨l, z, rfl, rfl⟩ | ⟨x, b, z, -, rfl⟩
  · exact ⟨[], z, rfl⟩
  · exact ⟨x ++ [b], z, by simp⟩

/-- No line has a line break. -/
theorem isLineBreak_of_mem_splitlinesL (h : line ∈ splitlinesL acc xs) (hacc : ∀ c ∈ acc, isLineBreak c = false) :
    ∀ c ∈ line, isLineBreak c = false := by
  have hrev : ∀ c ∈ acc.reverse, isLineBreak c = false := fun c hc => hacc c (List.mem_reverse.mp hc)
  induction acc, xs using splitlinesL_induction with
  | nil acc =>
    by_cases hempty : acc = []
    · subst hempty
      cases h
    · rw [splitlinesL_nil hempty, List.mem_singleton] at h
      exact h ▸ hrev
  | crlf acc xs ih =>
    rw [splitlinesL_crlf] at h
    rcases List.mem_cons.mp h with rfl | h
    · exact hrev
    · exact ih h (by simp) (by simp)
  | ending acc c xs hc hcrlf ih =>
    rw [splitlinesL_cons_break hc hcrlf] at h
    rcases List.mem_cons.mp h with rfl | h
    · exact hrev
    · exact ih h (by simp) (by simp)
  | cons acc c xs hc ih =>
    rw [splitlinesL_cons hc] at h
    have hacc' : ∀ d ∈ c :: acc, isLineBreak d = false := List.forall_mem_cons.mpr ⟨hc, hacc⟩
    exact ih h hacc' fun d hd => hacc' d (List.mem_reverse.mp hd)

/-- A text without line breaks is one line. -/
theorem splitlinesL_of_noBreak (hne : acc ≠ [] ∨ xs ≠ []) (h : ∀ c ∈ xs, isLineBreak c = false) :
    splitlinesL acc xs = [acc.reverse ++ xs] := by
  induction xs generalizing acc with
  | nil => rw [splitlinesL_nil (hne.resolve_right fun h => h rfl), List.append_nil]
  | cons c xs ih =>
    rw [splitlinesL_cons (h c List.mem_cons_self), ih (.inl (List.cons_ne_nil _ _)) fun d hd => h d (List.mem_cons_of_mem _ hd)]
    simp

/-! ### Lines that are joined -/

theorem splitlinesL_line (h : ∀ c ∈ line, isLineBreak c = false) : splitlinesL [] (line ++ ['\n']) = [line] := by
  by_cases hne : line = []
  · rw [hne]
    rfl
  · rw [splitlinesL_snoc_newline (.inr hne) fun c hc => h c (List.mem_of_mem_getLast? hc), splitlinesL_of_noBreak (.inr hne) h,
      List.reverse_nil, List.nil_append]

/-- Lines that are ended are the first lines of the text. -/
theorem splitlinesL_ended {ls : List (List Char)} (h : ∀ l ∈ ls, ∀ c ∈ l, isLineBreak c = false) (ys : List Char) :
    splitlinesL [] (ls.flatMap (· ++ ['\n']) ++ ys) = ls ++ splitlinesL [] ys := by
  induction ls with
  | nil => rfl
  | cons l ls ih =>
    obtain ⟨hl, hls⟩ := List.forall_mem_cons.mp h
    have hparts : (l :: ls).flatMap (· ++ ['\n']) ++ ys = l ++ '\n' :: (ls.flatMap (· ++ ['\n']) ++ ys) := by simp
    rw [hparts, splitlinesL_append_newline, splitlinesL_line hl, ih hls]
    rfl

/-- Lines that are joined, but for the last, are ended. -/
theorem intercalate_concat (ls : List (List Char)) (l : List Char) :
    ['\n'].intercalate (ls ++ [l]) = ls.flatMap (· ++ ['\n']) ++ l := by
  induction ls with
  | nil => simp
  | cons m ls ih =>
    obtain ⟨d, ds, hd⟩ := List.exists_cons_of_ne_nil (List.append_ne_nil_of_right_ne_nil ls (List.cons_ne_nil l []))
    rw [List.cons_append, hd, List.intercalate_cons_cons, ← hd, ih]
    simp

/-- Lines that are joined are the lines of the text, if the last is not empty. -/
theorem splitlines_intercalate {ls : List String} (h : ∀ l ∈ ls, ∀ c ∈ l.toList, isLineBreak c = false)
    (hlast : ∀ l ∈ ls.getLast?, l ≠ "") : splitlines ("\n".intercalate ls) = ls := by
  rcases List.eq_nil_or_concat ls with rfl | ⟨ls, l, rfl⟩
  · rfl
  · rw [List.concat_eq_append] at h hlast ⊢
    have hl : l ≠ "" := hlast l (by simp)
    have hne : l.toList ≠ [] := fun hnil => hl (String.toList_inj.mp hnil)
    have hbreak : "\n".toList = ['\n'] := rfl
    have hlines : ∀ m ∈ ls.map String.toList, ∀ c ∈ m, isLineBreak c = false := by
      intro m hm
      obtain ⟨line, hline, rfl⟩ := List.mem_map.mp hm
      exact h line (List.mem_append_left _ hline)
    rw [splitlines, String.toList_intercalate, hbreak, List.map_append, List.map_singleton, intercalate_concat,
      splitlinesL_ended hlines, splitlinesL_of_noBreak (.inr hne) (h l (List.mem_append_right _ (List.mem_singleton_self l)))]
    simp [Function.comp_def]

/-! ### Picking lines -/

section

variable {β : Type*} {f : List Char → Option β}

/-- What a function makes of the lines. -/
def pickLines (f : List Char → Option β) (acc xs : List Char) : List β := (splitlinesL acc xs).filterMap f

theorem pickLines_nil (hf : f [] = none) (acc : List Char) : pickLines f acc [] = (f acc.reverse).toList := by
  by_cases hempty : acc = []
  · rw [hempty, List.reverse_nil, hf]
    rfl
  · rw [pickLines, splitlinesL_nil hempty]
    cases h : f acc.reverse <;> simp [h]

theorem pickLines_cons {c : Char} (hc : isLineBreak c = false) : pickLines f acc (c :: xs) = pickLines f (c :: acc) xs := by
  rw [pickLines, pickLines, splitlinesL_cons hc]

theorem filterMap_cons_toList {α : Type*} (g : α → Option β) (a : α) (l : List α) :
    (a :: l).filterMap g = (g a).toList ++ l.filterMap g := by
  cases h : g a <;> simp [h]

/-- A line break ends a line; of two that count as one, the second ends an empty one. -/
theorem pickLines_break (hf : f [] = none) {c : Char} (hc : isLineBreak c = true) :
    pickLines f acc (c :: xs) = (f acc.reverse).toList ++ pickLines f [] xs := by
  by_cases hcrlf : c = '\r' ∧ xs.head? = some '\n'
  · obtain ⟨rfl, hhead⟩ := hcrlf
    obtain ⟨ys, rfl⟩ : ∃ ys, xs = '\n' :: ys := ⟨xs.tail, List.eq_cons_of_mem_head? hhead⟩
    have hnewline : splitlinesL [] ('\n' :: ys) = [] :: splitlinesL [] ys := splitlinesL_cons_break rfl (by simp)
    rw [pickLines, pickLines, hnewline, splitlinesL_crlf, filterMap_cons_toList, filterMap_cons_toList, hf]
    rfl
  · rw [pickLines, pickLines, splitlinesL_cons_break hc hcrlf, filterMap_cons_toList]

/-- **Lines split at a line break**: what stands on its sides has its own lines. -/
theorem pickLines_append_break (hf : f [] = none) {c : Char} (hc : isLineBreak c = true) (acc xs ys : List Char) :
    pickLines f acc (xs ++ c :: ys) = pickLines f acc xs ++ pickLines f [] ys := by
  induction xs generalizing acc with
  | nil => rw [List.nil_append, pickLines_break hf hc, pickLines_nil hf]
  | cons x xs ih =>
    rw [List.cons_append]
    by_cases hx : isLineBreak x = true
    · rw [pickLines_break hf hx, pickLines_break hf hx, ih, List.append_assoc]
    · rw [Bool.not_eq_true] at hx
      rw [pickLines_cons hx, pickLines_cons hx, ih]

theorem pickLines_append_blank (hf : f [] = none) (hblank : ∀ l c, isSpace c = true → f (l ++ [c]) = f l) {w : Char}
    (hw : isSpace w = true) (acc xs : List Char) : pickLines f acc (xs ++ [w]) = pickLines f acc xs := by
  induction xs generalizing acc with
  | nil =>
    rw [List.nil_append, pickLines_nil hf]
    by_cases hbreak : isLineBreak w = true
    · rw [pickLines_break hf hbreak, pickLines_nil hf, List.reverse_nil, hf]
      simp
    · rw [pickLines_cons (by simpa using hbreak), pickLines_nil hf, List.reverse_cons, hblank _ _ hw]
  | cons x xs ih =>
    rw [List.cons_append]
    by_cases hx : isLineBreak x = true
    · rw [pickLines_break hf hx, pickLines_break hf hx, ih]
    · rw [pickLines_cons (by simpa using hx), pickLines_cons (by simpa using hx), ih]

/-- Blanks at the end of a text pick nothing, where they do not matter at the end of a line. -/
theorem pickLines_append_blanks (hf : f [] = none) (hblank : ∀ l c, isSpace c = true → f (l ++ [c]) = f l) {ws : List Char}
    (hws : ∀ c ∈ ws, isSpace c = true) (acc xs : List Char) : pickLines f acc (xs ++ ws) = pickLines f acc xs := by
  induction ws generalizing xs with
  | nil => rw [List.append_nil]
  | cons w ws ih =>
    obtain ⟨hw, hws⟩ := List.forall_mem_cons.mp hws
    rw [← List.singleton_append, ← List.append_assoc, ih hws, pickLines_append_blank hf hblank hw]

theorem pickLines_unbroken (hf : f [] = none) (h : ∀ c ∈ xs, isLineBreak c = false) : pickLines f [] xs = (f xs).toList := by
  by_cases hne : xs = []
  · rw [hne, pickLines_nil hf]
    rfl
  · rw [pickLines, splitlinesL_of_noBreak (.inr hne) h, filterMap_cons_toList, List.filterMap_nil, List.append_nil]
    rfl

end

/-! ### Lines that are not blank -/

/-- The line has a character that is no blank. -/
def isSolid (line : List Char) : Bool := line.any fun c => !isSpace c

/-- A line that is not blank. -/
def solid (line : List Char) : Option Unit := if isSolid line then some () else none

/-- The number of lines that are not blank. -/
def solidLines (acc xs : List Char) : ℕ := (pickLines solid acc xs).length

theorem solidLines_append_break {c : Char} (hc : isLineBreak c = true) (acc xs ys : List Char) :
    solidLines acc (xs ++ c :: ys) = solidLines acc xs + solidLines [] ys := by
  rw [solidLines, pickLines_append_break rfl hc, List.length_append, solidLines, solidLines]

theorem solidLines_nil (acc : List Char) : solidLines acc [] = if isSolid acc.reverse then 1 else 0 := by
  rw [solidLines, pickLines_nil rfl, solid]
  split_ifs <;> rfl

theorem solidLines_cons {c : Char} (hc : isLineBreak c = false) : solidLines acc (c :: xs) = solidLines (c :: acc) xs := by
  rw [solidLines, solidLines, pickLines_cons hc]

theorem solidLines_break {c : Char} (hc : isLineBreak c = true) :
    solidLines acc (c :: xs) = (if isSolid acc.reverse then 1 else 0) + solidLines [] xs := by
  rw [solidLines, pickLines_break rfl hc, List.length_append, ← solidLines, solid]
  split_ifs <;> rfl

theorem solidLines_pos (h : isSolid (acc ++ xs) = true) : 0 < solidLines acc xs := by
  induction xs generalizing acc with
  | nil =>
    rw [List.append_nil] at h
    have hrev : isSolid acc.reverse = true := by
      rw [isSolid, List.any_reverse]
      exact h
    rw [solidLines_nil, if_pos hrev]
    exact Nat.one_pos
  | cons x xs ih =>
    rw [isSolid, List.any_append, List.any_cons] at h
    by_cases hx : isLineBreak x = true
    · rw [isSpace_of_isLineBreak hx, Bool.not_true, Bool.false_or, Bool.or_eq_true] at h
      rw [solidLines_break hx]
      rcases h with h | h
      · have hrev : isSolid acc.reverse = true := by
          rw [isSolid, List.any_reverse]
          exact h
        rw [if_pos hrev]
        exact Nat.lt_add_right _ Nat.one_pos
      · exact Nat.lt_add_left _ (ih h)
    · rw [Bool.not_eq_true] at hx
      rw [solidLines_cons hx]
      refine ih ?_
      rw [isSolid, List.any_append, List.any_cons]
      simpa [or_assoc, or_comm, or_left_comm] using h

theorem solidLines_unbroken (h : ∀ c ∈ xs, isLineBreak c = false) : solidLines [] xs = if isSolid xs then 1 else 0 := by
  rw [solidLines, pickLines_unbroken rfl h, solid]
  split_ifs <;> rfl

/-- The lines of joined texts are those of the texts, but for the blank ones. -/
theorem solidLines_intercalate (ls : List (List Char)) :
    solidLines [] (['\n'].intercalate ls) = (ls.map (solidLines [])).sum := by
  induction ls with
  | nil => rfl
  | cons l ls ih =>
    cases ls with
    | nil => simp
    | cons m ls =>
      rw [List.intercalate_cons_cons, List.append_assoc, List.singleton_append, solidLines_append_break rfl, ih,
        ← List.sum_cons, ← List.map_cons]

/-- They are those of the lines of the text. -/
theorem solidLines_eq_sum (xs : List Char) : solidLines [] xs = ((splitlinesL [] xs).map (solidLines [])).sum := by
  have hall : ∀ l ∈ splitlinesL [] xs, ∀ c ∈ l, isLineBreak c = false := fun l hl => isLineBreak_of_mem_splitlinesL hl (by simp)
  rw [solidLines, pickLines]
  generalize splitlinesL [] xs = ls at hall ⊢
  induction ls with
  | nil => rfl
  | cons l ls ih =>
    obtain ⟨hl, hls⟩ := List.forall_mem_cons.mp hall
    rw [filterMap_cons_toList, List.length_append, ih hls, List.map_cons, List.sum_cons, solidLines, pickLines_unbroken rfl hl]

end Persona.Lib.PyText
