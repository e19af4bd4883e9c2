import Persona.Taskman.Edits

/-!
# What an edit leaves of a file

An edit is asked to be a splice: the new bytes are the old ones with the inserted text between them, on lines of
its own after the matched line, or with the replacement in the place of the match.

The file is read leniently and written as a whole, so what was no UTF-8 is gone, carriage returns are newlines,
and a text that is inserted after a last line without an end goes on with that line. `edits_splice_iff` says that
nothing else goes wrong.
-/

namespace Persona.Taskman

open Persona.Lib PyText TextFile

variable {σ P : Type} {R : Repository σ P} {E : Engine PyChar} {s s' : σ} {relPath pattern text repl info : PyStr}

/-- A line, or a text, that ends in a line break. -/
def Ended (line : List Char) : Prop := ∃ c, line.getLast? = some c ∧ isLineBreak c = true

namespace Target

variable {flags : RegexFlags}

/-- The file is UTF-8 without carriage returns. -/
def Kept (t : Target R E s relPath pattern flags) : Prop := ∃ cs, t.bytes = utf8 cs ∧ '\r' ∉ cs

/-- The insertion of `text` after the line `idx` (from 0) is a splice: the bytes before it are those of the text up
to that line, and what is inserted is on lines of its own. -/
def InsertSplices (t : Target R E s relPath pattern flags) (s' : σ) (text : PyStr) (idx : ℕ) : Prop :=
  ∃ before ins post, before = ((keepends t.src).take (idx + 1)).flatten ∧ encode? (insertedText text) = some ins ∧
    t.bytes = utf8 before ++ post ∧ R.read s' t.path = some (utf8 before ++ (ins ++ post)) ∧
    (insertedText text = [] ∨ Ended before ∧ (insertedText text).getLast? = some (.scalar '\n'))

/-- The replacement of the match `m` by `new` is a splice. -/
def ReplaceSplices (t : Target R E s relPath pattern flags) (s' : σ) (m : Found PyChar) (new : PyStr) : Prop :=
  ∃ ins post, encode? new = some ins ∧
    t.bytes = utf8 (t.src.take m.start) ++ (utf8 ((t.src.take m.stop).drop m.start) ++ post) ∧
    R.read s' t.path = some (utf8 (t.src.take m.start) ++ (ins ++ post))

theorem kept_iff {t : Target R E s relPath pattern flags} : t.Kept ↔ utf8 t.src = t.bytes := utf8_readText_iff.symm

end Target

/-! ### Lines of their own -/

theorem insertedText_eq_nil_iff : insertedText text = [] ↔ text = [] := by
  rw [insertedText]
  split_ifs with h
  · simp [h.1]
  · rfl

/-- What is inserted ends in a newline. -/
theorem getLast?_insertedText (h : text ≠ []) : (insertedText text).getLast? = some (.scalar '\n') := by
  rw [insertedText]
  split_ifs with hlast
  · exact List.getLast?_concat
  · by_contra hne
    exact hlast ⟨h, hne⟩

theorem keependsFrom_ne_nil {line cs l : List Char} (h : l ∈ keependsFrom line cs) : l ≠ [] := by
  fun_induction keependsFrom line cs with
  | case1 line hline => cases h
  | case2 line hline =>
    obtain rfl := List.mem_singleton.mp h
    simpa using hline
  | case3 line cs ih =>
    rcases List.mem_cons.mp h with rfl | h
    · simp
    · exact ih h
  | case4 line c cs hcrlf hc ih =>
    rcases List.mem_cons.mp h with rfl | h
    · simp
    · exact ih h
  | case5 line c cs hcrlf hc ih => exact ih h

/-- The text up to a line ends as the line does. -/
theorem ended_take_iff {cs line : List Char} {idx : ℕ} (h : (keepends cs)[idx]? = some line) :
    Ended ((keepends cs).take (idx + 1)).flatten ↔ Ended line := by
  have hne : line ≠ [] := keependsFrom_ne_nil (List.mem_of_getElem? h)
  rw [List.take_add_one, h, Option.toList_some, List.flatten_append, List.flatten_singleton, Ended, Ended,
    List.getLast?_append_of_ne_nil _ hne]

/-! ### Insertions -/

/-- What a successful `do_insert_after` has done. -/
theorem Target.doInsertAfter_ok {t : Target R E s relPath pattern ⟨false, false⟩}
    (h : Taskman.doInsertAfter R E s relPath pattern text = (s', some (true, info))) :
    ∃ idx, firstFound E t.rx (keepends t.src) = some idx ∧ info = PyStr.ofString ("inserted after line " ++ (idx + 1).repr) ∧
      writeTextAtomic R s t.path (insertedAfter (keepends t.src) idx (insertedText text)) = (s', true) := by
  rw [t.doInsertAfter] at h
  cases hfound : firstFound E t.rx (keepends t.src) with
  | none => simp [hfound] at h
  | some idx =>
    rw [hfound] at h
    obtain ⟨hstate, hinfo⟩ := Prod.mk.inj h
    split_ifs at hinfo with hok
    exact ⟨idx, rfl, (Prod.mk.inj (Option.some.inj hinfo)).2.symm, Prod.ext hstate hok⟩

/-- An insertion is a splice just when the file is kept, and the matched line has an end unless nothing is
inserted. -/
theorem Target.insertSplices_iff {t : Target R E s relPath pattern ⟨false, false⟩} {idx : ℕ} {line : List Char}
    (hline : (keepends t.src)[idx]? = some line)
    (hwrite : writeTextAtomic R s t.path (insertedAfter (keepends t.src) idx (insertedText text)) = (s', true)) :
    t.InsertSplices s' text idx ↔ t.Kept ∧ (text = [] ∨ Ended line) := by
  obtain ⟨hidx, -⟩ := List.getElem?_eq_some_iff.mp hline
  obtain ⟨new, hencode, hread⟩ := read_writeTextAtomic hwrite
  rw [insertedAfter_eq hidx, encode?_around] at hencode
  obtain ⟨ins, hins, rfl⟩ := Option.map_eq_some_iff.mp hencode
  have hsrc : t.src = ((keepends t.src).take (idx + 1)).flatten ++ ([] ++ ((keepends t.src).drop (idx + 1)).flatten) := by
    rw [List.nil_append, ← List.flatten_append, List.take_append_drop, flatten_keepends]
  have hspliced := @spliced_iff t.bytes ins _ _ _ hsrc
  rw [t.kept_iff]
  constructor
  · rintro ⟨before, ins', post, rfl, hins', hold, hnew, hown⟩
    obtain rfl := Option.some.inj (hins.symm.trans hins')
    refine ⟨hspliced.mp ⟨_, post, hold, Option.some.inj (hread.symm.trans hnew)⟩, ?_⟩
    rcases hown with hnil | ⟨hended, -⟩
    · exact Or.inl (insertedText_eq_nil_iff.mp hnil)
    · exact Or.inr ((ended_take_iff hline).mp hended)
  · rintro ⟨hkept, hown⟩
    have hbytes : t.bytes = utf8 ((keepends t.src).take (idx + 1)).flatten ++ utf8 ((keepends t.src).drop (idx + 1)).flatten := by
      rw [← utf8_append, ← List.flatten_append, List.take_append_drop, flatten_keepends]
      exact hkept.symm
    refine ⟨_, ins, _, rfl, hins, hbytes, hread, ?_⟩
    by_cases hempty : text = []
    · exact Or.inl (insertedText_eq_nil_iff.mpr hempty)
    · exact Or.inr ⟨(ended_take_iff hline).mpr (hown.resolve_left hempty), getLast?_insertedText hempty⟩

/-! ### Replacements -/

/-- A replacement is a splice just when the file is kept. -/
theorem Target.replaceSplices_iff {flags : PyStr} {t : Target R E s relPath pattern (rxFlags flags)} {m : Found PyChar}
    {new : PyStr} (hsearch : E.search t.rx (ofChars t.src) = some m)
    (hwrite : writeTextAtomic R s t.path ((ofChars t.src).take m.start ++ (new ++ (ofChars t.src).drop m.stop)) = (s', true)) :
    t.ReplaceSplices s' m new ↔ t.Kept := by
  obtain ⟨bytes, hencode, hread⟩ := read_writeTextAtomic hwrite
  rw [ofChars, ← List.map_take, ← List.map_drop, encode?_around] at hencode
  obtain ⟨ins, hins, rfl⟩ := Option.map_eq_some_iff.mp hencode
  have hsrc : t.src = t.src.take m.start ++ ((t.src.take m.stop).drop m.start ++ t.src.drop m.stop) :=
    (Engine.take_between_drop (E.bounds hsearch).1 t.src).symm
  have hspliced := @spliced_iff t.bytes ins _ _ _ hsrc
  rw [t.kept_iff]
  constructor
  · rintro ⟨ins', post, hins', hold, hnew⟩
    obtain rfl := Option.some.inj (hins.symm.trans hins')
    exact hspliced.mp ⟨_, post, hold, Option.some.inj (hread.symm.trans hnew)⟩
  · intro hkept
    have hbytes : t.bytes = utf8 (t.src.take m.start) ++ (utf8 ((t.src.take m.stop).drop m.start) ++ utf8 (t.src.drop m.stop)) := by
      rw [← utf8_append, ← utf8_append, ← hsrc]
      exact hkept.symm
    exact ⟨ins, _, hins, hbytes, hread⟩

/-- **Edits splice** just in files that are UTF-8 without carriage returns, and an insertion only after a line with
an end, unless it inserts nothing. -/
theorem edits_splice_iff (R : Repository σ P) (E : Engine PyChar) (s s' : σ) (relPath pattern : PyStr) :
    (∀ text info, doInsertAfter R E s relPath pattern text = (s', some (true, info)) →
      ∃ (t : Target R E s relPath pattern ⟨false, false⟩) (idx : ℕ) (line : List Char),
        firstFound E t.rx (keepends t.src) = some idx ∧ (keepends t.src)[idx]? = some line ∧
          (t.InsertSplices s' text idx ↔ t.Kept ∧ (text = [] ∨ Ended line))) ∧
    ∀ repl flags info, doReplaceRegex R E s relPath pattern repl flags = (s', some (true, info)) →
      ∃ (t : Target R E s relPath pattern (rxFlags flags)) (m : Found PyChar) (expand : List (Option PyStr) → PyStr),
        E.search t.rx (ofChars t.src) = some m ∧ E.template t.rx repl = some expand ∧
          (t.ReplaceSplices s' m (expand m.groups) ↔ t.Kept) := by
  constructor
  · intro text info h
    obtain ⟨t⟩ := exists_target_of_insert h
    obtain ⟨idx, hfound, -, hwrite⟩ := t.doInsertAfter_ok h
    obtain ⟨line, hline, -⟩ := firstFound_spec hfound
    exact ⟨t, idx, line, hfound, hline, t.insertSplices_iff hline hwrite⟩
  · intro repl flags info h
    obtain ⟨t⟩ := exists_target_of_replace h
    obtain ⟨m, expand, hsearch, htemplate, hwrite⟩ := t.doReplaceRegex_ok h
    exact ⟨t, m, expand, hsearch, htemplate, t.replaceSplices_iff hsearch hwrite⟩

/-- In a file with newlines alone a text and a replacement are spliced. -/
theorem edits_splice_newlines :
    (∃ t : Target oneFile (Engine.literal fun _ => false) (utf8 ['a', '\n', 'b']) [] [.scalar 'a'] ⟨false, false⟩,
      t.InsertSplices (utf8 ['a', '\n', 'x', '\n', 'b']) [.scalar 'x'] 0) ∧
    ∃ t : Target oneFile (Engine.literal fun _ => false) (utf8 ['a', '\n', 'b']) [] [.scalar 'a'] (rxFlags []),
      t.ReplaceSplices (utf8 ['x', '\n', 'b']) ⟨0, 1, [some [.scalar 'a']]⟩ [.scalar 'x'] := by
  have hkept : ∃ cs, utf8 ['a', '\n', 'b'] = utf8 cs ∧ '\r' ∉ cs := ⟨_, rfl, by decide⟩
  constructor
  · obtain ⟨⟨path, bytes, rx, htarget, hread, hcompiled⟩, idx, line, hfound, hline, hiff⟩ :=
      (edits_splice_iff oneFile (Engine.literal fun _ => false) (utf8 ['a', '\n', 'b']) (utf8 ['a', '\n', 'x', '\n', 'b']) []
        [.scalar 'a']).1 [.scalar 'x'] _ rfl
    obtain rfl := Option.some.inj hread
    obtain rfl := Option.some.inj hcompiled
    obtain rfl : 0 = idx := Option.some.inj hfound
    obtain rfl : ['a', '\n'] = line := Option.some.inj hline
    exact ⟨_, hiff.mpr ⟨hkept, Or.inr ⟨'\n', rfl, rfl⟩⟩⟩
  · obtain ⟨⟨path, bytes, rx, htarget, hread, hcompiled⟩, m, expand, hsearch, htemplate, hiff⟩ :=
      (edits_splice_iff oneFile (Engine.literal fun _ => false) (utf8 ['a', '\n', 'b']) (utf8 ['x', '\n', 'b']) []
        [.scalar 'a']).2 [.scalar 'x'] [] _ rfl
    obtain rfl := Option.some.inj hread
    obtain rfl := Option.some.inj hcompiled
    obtain rfl := Option.some.inj hsearch
    obtain rfl := Option.some.inj htemplate
    exact ⟨_, hiff.mpr hkept⟩

/-- A file with the line ends of Windows loses them. -/
theorem not_splices_crlf :
    let E := Engine.literal fun _ => false
    let bytes := utf8 ['a', '\r', '\n', 'b', '\r', '\n']
    ∃ s' info, doInsertAfter oneFile E bytes [] [.scalar 'a'] [.scalar 'x'] = (s', some (true, info)) ∧
      ∀ (t : Target oneFile E bytes [] [.scalar 'a'] ⟨false, false⟩) (idx : ℕ), ¬ t.InsertSplices s' [.scalar 'x'] idx := by
  intro E bytes
  refine ⟨utf8 ['a', '\n', 'x', '\n', 'b', '\n'], PyStr.ofString "inserted after line 1", rfl, ?_⟩
  rintro t idx ⟨before, ins, post, -, hins, hold, hnew, -⟩
  have hread : bytes = t.bytes := Option.some.inj t.read
  obtain rfl : utf8 ['x', '\n'] = ins := Option.some.inj hins
  have hold := congrArg List.length (hread.trans hold)
  have hnew := congrArg List.length (Option.some.inj hnew)
  rw [List.length_append] at hold hnew
  rw [List.length_append] at hnew
  have hbytes : bytes.length = 6 := rfl
  have hins : (utf8 ['x', '\n']).length = 2 := rfl
  have hafter : (utf8 ['a', '\n', 'x', '\n', 'b', '\n']).length = 6 := rfl
  omega

end Persona.Taskman
