import Persona.Taskman.Edits

/-!
# What is previewed and what is applied

A preview is asked to say what the edit then does to the same file: whether it succeeds, after which line it
inserts, and what it puts in the place of which match.

A preview looks for the pattern in lines without their ends, the edit in lines with them; and a preview runs the
substitution on the matched text alone. `previews_iff` says when neither makes a difference.
-/

namespace Persona.Taskman

open Persona.Lib PyText TextFile

variable {σ P : Type} (R : Repository σ P) (E : Engine PyChar) (s : σ) (relPath pattern text repl : PyStr)

/-- A preview that reports ok. -/
def Shows (preview : Option Preview) : Prop := ∃ pv, preview = some pv ∧ pv.ok = true

/-- An edit that succeeds. -/
def Succeeds (result : σ × Option (Bool × PyStr)) : Prop := ∃ info, result.2 = some (true, info)

/-- What `preview_insert_after` shows is what `do_insert_after` does. -/
structure InsertAgrees : Prop where
  ok : Shows (previewInsertAfter R E s relPath pattern) ↔ Succeeds (doInsertAfter R E s relPath pattern text)
  line : ∀ n snippet context, previewInsertAfter R E s relPath pattern = some (.insertAfter n snippet context) →
    ∀ s' info, doInsertAfter R E s relPath pattern text = (s', some (true, info)) →
      info = PyStr.ofString ("inserted after line " ++ n.repr) ∧
        ∀ t : Target R E s relPath pattern ⟨false, false⟩, ∃ bytes,
          encode? (insertedAfter (keepends t.src) (n - 1) (insertedText text)) = some bytes ∧ R.read s' t.path = some bytes

/-- What `preview_replace_regex` shows is what `do_replace_regex` does. -/
structure ReplaceAgrees (flags : PyStr) : Prop where
  ok : Shows (previewReplaceRegex R E s relPath pattern repl flags) ↔ Succeeds (doReplaceRegex R E s relPath pattern repl flags)
  span : ∀ start stop before after, previewReplaceRegex R E s relPath pattern repl flags = some (.replaceRegex start stop before after) →
    ∀ s' info, doReplaceRegex R E s relPath pattern repl flags = (s', some (true, info)) →
      ∀ t : Target R E s relPath pattern (rxFlags flags), ∃ new bytes,
        encode? ((ofChars t.src).take start ++ (new ++ (ofChars t.src).drop stop)) = some bytes ∧
          R.read s' t.path = some bytes ∧ after = new.take 600

variable {R E s relPath pattern text repl}

namespace Target

variable {flags : RegexFlags}

/-- A text can be written to the file. -/
def Writes (t : Target R E s relPath pattern flags) (content : PyStr) : Prop := (writeTextAtomic R s t.path content).2 = true

/-- The pattern is found in a line with its end. -/
def FindsWhole (t : Target R E s relPath pattern flags) (line : List Char) : Prop := E.finds t.rx (ofChars line) = true

/-- The pattern is found in a line without its end. -/
def FindsBare (t : Target R E s relPath pattern flags) (line : List Char) : Prop := E.finds t.rx (ofChars (dropEnd line)) = true

/-- The first line that the pattern is found in with its end or without it. -/
structure FirstLine (t : Target R E s relPath pattern flags) (before : List (List Char)) (line : List Char) (after : List (List Char)) :
    Prop where
  lines : keepends t.src = before ++ line :: after
  whole : ∀ l ∈ before, ¬ t.FindsWhole l
  bare : ∀ l ∈ before, ¬ t.FindsBare l

/-- The first line that the pattern is found in with its end or without it is one that it is found in either way,
and the text can be written after it; or it is found in no line without its end, and after the first that it is
found in with it, if there is one, the text cannot be written. -/
def SameLine (t : Target R E s relPath pattern flags) (text : PyStr) : Prop :=
  (∃ before line after, t.FirstLine before line after ∧ t.FindsWhole line ∧ t.FindsBare line ∧
      t.Writes (insertedAfter (keepends t.src) before.length (insertedText text))) ∨
    (∀ line ∈ keepends t.src, ¬ t.FindsBare line) ∧
      ∀ before line after, t.FirstLine before line after → t.FindsWhole line →
        ¬ t.Writes (insertedAfter (keepends t.src) before.length (insertedText text))

/-- The replacement of a match can be written, and it begins, as far as it is shown, like what is put together when
the matched text is searched alone. -/
def SameAlone (t : Target R E s relPath pattern flags) (expand : List (Option PyStr) → PyStr) (m : Found PyChar) : Prop :=
  t.Writes ((ofChars t.src).take m.start ++ (expand m.groups ++ (ofChars t.src).drop m.stop)) ∧
    match E.search t.rx (matched (ofChars t.src) m) with
    | none => (matched (ofChars t.src) m).take 600 = (expand m.groups).take 600
    | some alone =>
      ((matched (ofChars t.src) m).take alone.start ++ (expand alone.groups ++ (matched (ofChars t.src) m).drop alone.stop)).take 600 =
        (expand m.groups).take 600

end Target

/-! ### The first line -/

theorem findIdx?_eq_some_iff_append {α : Type*} {p : α → Bool} {xs : List α} {idx : ℕ} :
    xs.findIdx? p = some idx ↔
      ∃ before x after, xs = before ++ x :: after ∧ before.length = idx ∧ (∀ y ∈ before, ¬ p y = true) ∧ p x = true := by
  induction xs generalizing idx with
  | nil => simp
  | cons x xs ih =>
    rw [List.findIdx?_cons]
    by_cases hx : p x = true
    · rw [if_pos hx]
      constructor
      · rintro ⟨⟩
        exact ⟨[], x, xs, rfl, rfl, List.forall_mem_nil _, hx⟩
      · rintro ⟨before, y, after, hxs, rfl, hbefore, hy⟩
        cases before with
        | nil => rfl
        | cons b before =>
          obtain ⟨rfl, -⟩ := List.cons.inj hxs
          exact absurd hx (hbefore x List.mem_cons_self)
    · rw [if_neg hx, Option.map_eq_some_iff]
      constructor
      · rintro ⟨i, hi, rfl⟩
        obtain ⟨before, y, after, rfl, rfl, hbefore, hy⟩ := ih.mp hi
        exact ⟨x :: before, y, after, rfl, rfl, List.forall_mem_cons.mpr ⟨hx, hbefore⟩, hy⟩
      · rintro ⟨before, y, after, hxs, rfl, hbefore, hy⟩
        cases before with
        | nil =>
          obtain ⟨rfl, -⟩ := List.cons.inj hxs
          exact absurd hy hx
        | cons b before =>
          obtain ⟨rfl, rfl⟩ := List.cons.inj hxs
          exact ⟨before.length, ih.mpr ⟨before, y, after, rfl, rfl, (List.forall_mem_cons.mp hbefore).2, hy⟩, rfl⟩

namespace Target

variable {flags : RegexFlags} {t : Target R E s relPath pattern flags} {idx : ℕ}

theorem firstFound_whole_iff : firstFound E t.rx (keepends t.src) = some idx ↔
    ∃ before line after, keepends t.src = before ++ line :: after ∧ before.length = idx ∧
      (∀ l ∈ before, ¬ t.FindsWhole l) ∧ t.FindsWhole line := findIdx?_eq_some_iff_append

theorem firstFound_bare_iff : firstFound E t.rx (splitlinesL [] t.src) = some idx ↔
    ∃ before line after, keepends t.src = before ++ line :: after ∧ before.length = idx ∧
      (∀ l ∈ before, ¬ t.FindsBare l) ∧ t.FindsBare line := by
  rw [firstFound, ← map_dropEnd_keepends t.src (List.forall_mem_nil _), List.findIdx?_map]
  exact findIdx?_eq_some_iff_append

theorem firstFound_bare_eq_none_iff :
    firstFound E t.rx (splitlinesL [] t.src) = none ↔ ∀ line ∈ keepends t.src, ¬ t.FindsBare line := by
  rw [firstFound, ← map_dropEnd_keepends t.src (List.forall_mem_nil _), List.findIdx?_map, List.findIdx?_eq_none_iff]
  simp [FindsBare, keepends]

/-- The two searches stop at one line, after which the text can be written; or the one without the ends finds
nothing, and where the other one stops the text cannot be written. -/
theorem sameLine_iff : t.SameLine text ↔
    (∃ idx, firstFound E t.rx (splitlinesL [] t.src) = some idx ∧ firstFound E t.rx (keepends t.src) = some idx ∧
      t.Writes (insertedAfter (keepends t.src) idx (insertedText text))) ∨
    firstFound E t.rx (splitlinesL [] t.src) = none ∧ ∀ idx, firstFound E t.rx (keepends t.src) = some idx →
      ¬ t.Writes (insertedAfter (keepends t.src) idx (insertedText text)) := by
  rw [firstFound_bare_eq_none_iff]
  refine or_congr ⟨?_, ?_⟩ (and_congr_right fun hnone => ⟨?_, ?_⟩)
  · rintro ⟨before, line, after, hfirst, hwhole, hbare, hwrites⟩
    exact ⟨before.length, firstFound_bare_iff.mpr ⟨before, line, after, hfirst.lines, rfl, hfirst.bare, hbare⟩,
      firstFound_whole_iff.mpr ⟨before, line, after, hfirst.lines, rfl, hfirst.whole, hwhole⟩, hwrites⟩
  · rintro ⟨idx, hbare, hwhole, hwrites⟩
    obtain ⟨before, line, after, hlines, rfl, hbefore, hline⟩ := firstFound_bare_iff.mp hbare
    obtain ⟨before', line', after', hlines', hlength, hbefore', hline'⟩ := firstFound_whole_iff.mp hwhole
    obtain ⟨rfl, htail⟩ := List.append_inj (hlines'.symm.trans hlines) hlength
    obtain ⟨rfl, rfl⟩ := List.cons.inj htail
    exact ⟨before', line', after', ⟨hlines, hbefore', hbefore⟩, hline', hline, hwrites⟩
  · intro h idx hwhole
    obtain ⟨before, line, after, hlines, rfl, hbefore, hline⟩ := firstFound_whole_iff.mp hwhole
    exact h before line after ⟨hlines, hbefore, fun l hl => hnone l (by rw [hlines]; exact List.mem_append_left _ hl)⟩ hline
  · intro h before line after hfirst hwhole
    exact h before.length (firstFound_whole_iff.mpr ⟨before, line, after, hfirst.lines, rfl, hfirst.whole, hwhole⟩)

end Target

/-! ### Insertions -/

instance {flags : RegexFlags} : Subsingleton (Target R E s relPath pattern flags) where
  allEq := by
    rintro ⟨path, bytes, rx, htarget, hread, hcompiled⟩ ⟨path', bytes', rx', htarget', hread', hcompiled'⟩
    obtain rfl := Except.ok.inj (Option.some.inj (htarget.symm.trans htarget'))
    obtain rfl := Option.some.inj (hread.symm.trans hread')
    obtain rfl := Option.some.inj (hcompiled.symm.trans hcompiled')
    rfl

theorem ofString_line_injective {m n : ℕ}
    (h : PyStr.ofString ("inserted after line " ++ m.repr) = PyStr.ofString ("inserted after line " ++ n.repr)) : m = n := by
  have hchars := List.map_injective_iff.mpr (fun _ _ => PyChar.scalar.inj) h
  rw [String.toList_append, String.toList_append] at hchars
  have hdigits := List.append_cancel_left hchars
  rw [Nat.toList_repr, Nat.toList_repr] at hdigits
  rw [← @Nat.ofDigitChars_ten_toDigits m, hdigits, Nat.ofDigitChars_ten_toDigits]

theorem Target.shows_insert_iff (t : Target R E s relPath pattern ⟨false, false⟩) :
    Shows (Taskman.previewInsertAfter R E s relPath pattern) ↔ ∃ idx, firstFound E t.rx (splitlinesL [] t.src) = some idx := by
  rw [t.previewInsertAfter]
  cases firstFound E t.rx (splitlinesL [] t.src) with
  | none => simp [Shows, Preview.ok]
  | some idx => simp [Shows, Preview.ok]

theorem Target.succeeds_insert_iff (t : Target R E s relPath pattern ⟨false, false⟩) :
    Succeeds (Taskman.doInsertAfter R E s relPath pattern text) ↔ ∃ idx, firstFound E t.rx (keepends t.src) = some idx ∧
      t.Writes (insertedAfter (keepends t.src) idx (insertedText text)) := by
  rw [t.doInsertAfter]
  cases firstFound E t.rx (keepends t.src) with
  | none => simp [Succeeds]
  | some idx => simp [Succeeds, Target.Writes]

/-- An insertion into a file is previewed just when the two searches stop at one line. -/
theorem Target.insertAgrees_iff (t : Target R E s relPath pattern ⟨false, false⟩) :
    InsertAgrees R E s relPath pattern text ↔ t.SameLine text := by
  rw [t.sameLine_iff]
  constructor
  · intro h
    have hok := h.ok
    rw [t.shows_insert_iff, t.succeeds_insert_iff] at hok
    cases hbare : firstFound E t.rx (splitlinesL [] t.src) with
    | none =>
      refine Or.inr ⟨rfl, fun idx hwhole hwrites => ?_⟩
      obtain ⟨i, hi⟩ := hok.mpr ⟨idx, hwhole, hwrites⟩
      rw [hbare] at hi
      cases hi
    | some i =>
      obtain ⟨j, hwhole, hwrites⟩ := hok.mp ⟨i, hbare⟩
      have hpreview := t.previewInsertAfter
      rw [hbare] at hpreview
      obtain ⟨hinfo, -⟩ := h.line _ _ _ hpreview _ _ (t.doInsertAfter_of_write hwhole hwrites)
      obtain rfl : j = i := Nat.succ.inj (ofString_line_injective hinfo)
      exact Or.inl ⟨j, rfl, hwhole, hwrites⟩
  · rintro (⟨idx, hbare, hwhole, hwrites⟩ | ⟨hbare, hwhole⟩)
    · refine ⟨?_, fun n snippet context hpreview s' info hdo => ?_⟩
      · rw [t.shows_insert_iff, t.succeeds_insert_iff]
        exact ⟨fun _ => ⟨idx, hwhole, hwrites⟩, fun _ => ⟨idx, hbare⟩⟩
      · rw [t.previewInsertAfter, hbare] at hpreview
        obtain ⟨rfl, -, -⟩ := Preview.insertAfter.inj (Option.some.inj hpreview)
        rw [t.doInsertAfter_of_write hwhole hwrites] at hdo
        obtain ⟨hstate, hinfo⟩ := Prod.mk.inj hdo
        refine ⟨(Prod.mk.inj (Option.some.inj hinfo)).2.symm, fun t' => ?_⟩
        obtain rfl := Subsingleton.elim t t'
        exact read_writeTextAtomic (Prod.ext hstate hwrites)
    · refine ⟨?_, fun n snippet context hpreview => ?_⟩
      · rw [t.shows_insert_iff, t.succeeds_insert_iff]
        refine ⟨?_, ?_⟩
        · rintro ⟨idx, hidx⟩
          rw [hbare] at hidx
          cases hidx
        · rintro ⟨idx, hidx, hwrites⟩
          exact absurd hwrites (hwhole idx hidx)
      · rw [t.previewInsertAfter, hbare] at hpreview
        cases hpreview

/-- Without a file to edit, nothing is shown and nothing is done. -/
theorem insertAgrees_of_not (hnone : ¬ Nonempty (Target R E s relPath pattern ⟨false, false⟩)) :
    InsertAgrees R E s relPath pattern text := by
  refine ⟨⟨?_, ?_⟩, fun n snippet context hpreview => ?_⟩
  · rintro ⟨pv, hpreview, hok⟩
    exact absurd (exists_target_of_previewInsert hpreview hok) hnone
  · rintro ⟨info, hdo⟩
    exact absurd (exists_target_of_insert (Prod.ext rfl hdo)) hnone
  · exact absurd (exists_target_of_previewInsert hpreview rfl) hnone

/-! ### Replacements -/

section

variable {flags : PyStr}

theorem Target.shows_replace_iff (t : Target R E s relPath pattern (rxFlags flags)) :
    Shows (Taskman.previewReplaceRegex R E s relPath pattern repl flags) ↔
      ∃ m expand, E.search t.rx (ofChars t.src) = some m ∧ E.template t.rx repl = some expand := by
  rw [t.previewReplaceRegex]
  cases E.search t.rx (ofChars t.src) with
  | none => simp [Shows, Preview.ok]
  | some m => cases E.template t.rx repl <;> simp [Shows, Preview.ok]

theorem Target.succeeds_replace_iff (t : Target R E s relPath pattern (rxFlags flags)) :
    Succeeds (Taskman.doReplaceRegex R E s relPath pattern repl flags) ↔
      ∃ m expand, E.search t.rx (ofChars t.src) = some m ∧ E.template t.rx repl = some expand ∧
        t.Writes ((ofChars t.src).take m.start ++ (expand m.groups ++ (ofChars t.src).drop m.stop)) := by
  rw [t.doReplaceRegex]
  cases E.search t.rx (ofChars t.src) with
  | none => simp [Succeeds]
  | some m => cases E.template t.rx repl <;> simp [Succeeds, Target.Writes]

theorem Target.sameAlone_iff {t : Target R E s relPath pattern (rxFlags flags)} {expand : List (Option PyStr) → PyStr}
    {m : Found PyChar} : t.SameAlone expand m ↔
      t.Writes ((ofChars t.src).take m.start ++ (expand m.groups ++ (ofChars t.src).drop m.stop)) ∧
        (E.replaceFirst t.rx expand (matched (ofChars t.src) m)).take 600 = (expand m.groups).take 600 := by
  rw [SameAlone, Engine.replaceFirst]
  cases E.search t.rx (matched (ofChars t.src) m) <;> rfl

/-- A replacement in a file is previewed just when the match that there is can be replaced, and its replacement
begins like the one of the matched text alone. -/
theorem Target.replaceAgrees_iff (t : Target R E s relPath pattern (rxFlags flags)) :
    ReplaceAgrees R E s relPath pattern repl flags ↔
      ∀ m expand, E.search t.rx (ofChars t.src) = some m → E.template t.rx repl = some expand → t.SameAlone expand m := by
  constructor
  · intro h m expand hsearch htemplate
    rw [t.sameAlone_iff]
    have hok := h.ok
    rw [t.shows_replace_iff, t.succeeds_replace_iff] at hok
    obtain ⟨m', expand', hsearch', htemplate', hwrites⟩ := hok.mp ⟨m, expand, hsearch, htemplate⟩
    obtain rfl := Option.some.inj (hsearch.symm.trans hsearch')
    obtain rfl := Option.some.inj (htemplate.symm.trans htemplate')
    refine ⟨hwrites, ?_⟩
    have hpreview := t.previewReplaceRegex repl
    rw [hsearch, htemplate] at hpreview
    obtain ⟨new, bytes, hencode, hread, hafter⟩ := h.span _ _ _ _ hpreview _ _ (t.doReplaceRegex_of_write hsearch htemplate hwrites) t
    obtain ⟨bytes', hencode', hread'⟩ := read_writeTextAtomic (Prod.ext rfl hwrites)
    obtain rfl := Option.some.inj (hread.symm.trans hread')
    -- What is written tells what was put in the place of the match.
    have hnew := List.append_cancel_right (List.append_cancel_left (encode?_injective hencode hencode'))
    rw [hafter, hnew]
  · intro h
    refine ⟨?_, fun start stop before after hpreview s' info hdo t' => ?_⟩
    · rw [t.shows_replace_iff, t.succeeds_replace_iff]
      constructor
      · rintro ⟨m, expand, hsearch, htemplate⟩
        exact ⟨m, expand, hsearch, htemplate, (h m expand hsearch htemplate).1⟩
      · rintro ⟨m, expand, hsearch, htemplate, -⟩
        exact ⟨m, expand, hsearch, htemplate⟩
    · obtain rfl := Subsingleton.elim t t'
      obtain ⟨m, expand, hsearch, htemplate, hwrite⟩ := t.doReplaceRegex_ok hdo
      rw [t.previewReplaceRegex, hsearch, htemplate] at hpreview
      obtain ⟨rfl, rfl, rfl, rfl⟩ := Preview.replaceRegex.inj (Option.some.inj hpreview)
      obtain ⟨bytes, hencode, hread⟩ := read_writeTextAtomic hwrite
      exact ⟨expand m.groups, bytes, hencode, hread, (t.sameAlone_iff.mp (h m expand hsearch htemplate)).2⟩

theorem replaceAgrees_of_not (hnone : ¬ Nonempty (Target R E s relPath pattern (rxFlags flags))) :
    ReplaceAgrees R E s relPath pattern repl flags := by
  refine ⟨⟨?_, ?_⟩, fun start stop before after hpreview => ?_⟩
  · rintro ⟨pv, hpreview, hok⟩
    exact absurd (exists_target_of_previewReplace hpreview hok) hnone
  · rintro ⟨info, hdo⟩
    exact absurd (exists_target_of_replace (Prod.ext rfl hdo)) hnone
  · exact absurd (exists_target_of_previewReplace hpreview rfl) hnone

end

/-- **What is previewed is what is applied** just when the two searches of an insertion stop at one line, and what is
put in the place of a match begins like what is put together from the matched text alone. -/
theorem previews_iff (R : Repository σ P) (E : Engine PyChar) (s : σ) (relPath pattern text repl flags : PyStr) :
    (InsertAgrees R E s relPath pattern text ↔ ∀ t : Target R E s relPath pattern ⟨false, false⟩, t.SameLine text) ∧
    (ReplaceAgrees R E s relPath pattern repl flags ↔ ∀ t : Target R E s relPath pattern (rxFlags flags), ∀ m expand,
      E.search t.rx (ofChars t.src) = some m → E.template t.rx repl = some expand → t.SameAlone expand m) := by
  constructor
  · by_cases hfile : Nonempty (Target R E s relPath pattern ⟨false, false⟩)
    · obtain ⟨t⟩ := hfile
      rw [t.insertAgrees_iff]
      refine ⟨fun h t' => ?_, fun h => h t⟩
      rwa [Subsingleton.elim t' t]
    · exact iff_of_true (insertAgrees_of_not hfile) fun t => absurd ⟨t⟩ hfile
  · by_cases hfile : Nonempty (Target R E s relPath pattern (rxFlags flags))
    · obtain ⟨t⟩ := hfile
      rw [t.replaceAgrees_iff]
      refine ⟨fun h t' => ?_, fun h => h t⟩
      rwa [Subsingleton.elim t' t]
    · exact iff_of_true (replaceAgrees_of_not hfile) fun t => absurd ⟨t⟩ hfile

/-- A pattern that is a newline is found in no line without its end. -/
theorem not_insertAgrees_newline :
    ¬ InsertAgrees oneFile (Engine.literal fun _ => false) (utf8 ['a', '\n']) [] [.scalar '\n'] [.scalar 'x'] := by
  intro h
  obtain ⟨pv, hpreview, hok⟩ := h.ok.mpr ⟨_, rfl⟩
  obtain rfl := Option.some.inj hpreview
  cases hok

end Persona.Taskman
