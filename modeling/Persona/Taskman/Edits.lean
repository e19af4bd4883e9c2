import Persona.Lib.TextFile
import Persona.Lib.Pattern

/-!
# The edits of a job

The edits that `taskman2.py` previews and makes: a file is written, a text is inserted after the first line that a
pattern is found in, or the first match of a pattern is replaced. A file is read as UTF-8 with what is none left
out and its line ends made newlines, and it is written as a whole through a temporary file.

A preview is `none`, and so is what an edit returns, when an exception leaves the function; the state of the
repository is then the one the exception leaves.
-/

namespace Persona.Taskman

open Persona.Lib PyText TextFile

/-- A repository with the file system it is in: `σ` are its states, `P` the paths. -/
structure Repository (σ P : Type) where
  /-- `repo / rel_path`. -/
  join : PyStr → P
  /-- `p.resolve()`; `none` when it raises. -/
  resolve : σ → P → Option P
  /-- `is_under_repo(repo, p)`. -/
  isUnderRepo : σ → P → Bool
  /-- `p.exists()`; `none` when it raises. -/
  there : σ → P → Option Bool
  /-- The bytes of a file; `none` when reading it raises. -/
  read : σ → P → Option (List UInt8)
  /-- `path.parent.mkdir(parents=True, exist_ok=True)`, and whether it goes well. -/
  makeParent : σ → P → σ × Bool
  /-- The temporary file of `path` is opened for writing, and whether it goes well. -/
  openTemp : σ → P → σ × Bool
  /-- The bytes are written to the temporary file, which takes the place of `path`, and whether that goes well. -/
  replace : σ → P → List UInt8 → σ × Bool
  /-- A file that was written has the bytes. -/
  read_replace : ∀ {s s' p bytes}, replace s p bytes = (s', true) → read s' p = some bytes

/-- What a preview says. -/
inductive Preview where
  /-- `{"ok": False, "error": …}`. -/
  | refused (error : PyStr)
  | write (there : Bool) (oldSha256 newSha256 : String) (oldBytes newBytes : ℕ)
  | insertAfter (matchLine : ℕ) (matchSnippet : PyStr) (context : List PyStr)
  | replaceRegex (start stop : ℕ) (before after : PyStr)

/-- `preview.get("ok")`. -/
def Preview.ok : Preview → Bool
  | .refused _ => false
  | _ => true

variable {σ P : Type} (R : Repository σ P) (E : Engine PyChar)

/-- `write_text_atomic`, and whether it returns. -/
def writeTextAtomic (s : σ) (path : P) (content : PyStr) : σ × Bool :=
  let (s₁, made) := R.makeParent s path
  if made then
    let (s₂, opened) := R.openTemp s₁ path
    if opened then
      match encode? content with
      | some bytes => R.replace s₂ path bytes
      | none => (s₂, false)
    else (s₂, false)
  else (s₁, false)

/-! ### Writing a file -/

/-- `preview_write`, with `hashlib.sha256` for `sha256`. -/
def previewWrite (sha256 : List UInt8 → String) (s : σ) (relPath newContent : PyStr) : Option Preview :=
  (R.resolve s (R.join relPath)).bind fun p =>
    if R.isUnderRepo s p then
      (R.there s p).bind fun there =>
        (if there then (R.read s p).map readText else some []).map fun old =>
          .write there (sha256 (utf8 old)) (sha256 (encodeIgnore newContent)) (utf8 old).length (encodeIgnore newContent).length
    else some (.refused (PyStr.ofString "Refusing to write outside repo: " ++ relPath))

/-- `do_write`, with the text of an exception in `failed`. -/
def doWrite (failed : PyStr) (s : σ) (relPath newContent : PyStr) : σ × Option (Bool × PyStr) :=
  match R.resolve s (R.join relPath) with
  | none => (s, none)
  | some p =>
    if R.isUnderRepo s p then
      let (s', ok) := writeTextAtomic R s p newContent
      (s', some (if ok then (true, PyStr.ofString "wrote file") else (false, PyStr.ofString "write failed: " ++ failed)))
    else (s, some (false, PyStr.ofString "Refusing to write outside repo: " ++ relPath))

/-! ### Editing a file -/

/-- The file that is to be edited, or why there is none; `none` when looking for it raises. -/
def editTarget (s : σ) (relPath : PyStr) : Option (Except PyStr P) :=
  (R.resolve s (R.join relPath)).bind fun p =>
    if R.isUnderRepo s p then
      (R.there s p).map fun there =>
        if there then .ok p else .error (PyStr.ofString "Target file does not exist: " ++ relPath)
    else some (.error (PyStr.ofString "Refusing to edit outside repo: " ++ relPath))

/-- The file that is edited, its text and the compiled pattern, or why there is none. -/
def opened (s : σ) (relPath pattern : PyStr) (flags : RegexFlags) : Option (Except PyStr (P × List Char × E.Rx)) :=
  (editTarget R s relPath).bind fun
    | .error error => some (.error error)
    | .ok p => (R.read s p).bind fun bytes => (E.compile pattern flags).map fun rx => .ok (p, readText bytes, rx)

/-- The index of the first line that the pattern is found in. -/
def firstFound (rx : E.Rx) (lines : List (List Char)) : Option ℕ := lines.findIdx? fun line => E.finds rx (ofChars line)

/-- The text that is inserted: it ends in a newline unless it is empty. -/
def insertedText (text : PyStr) : PyStr :=
  if text ≠ [] ∧ text.getLast? ≠ some (.scalar '\n') then text ++ [.scalar '\n'] else text

/-- `"".join(lines)` after `lines.insert(idx + 1, ins)`. -/
def insertedAfter (lines : List (List Char)) (idx : ℕ) (ins : PyStr) : PyStr :=
  ((lines.map ofChars).insertIdx (idx + 1) ins).flatten

/-- `preview_insert_after`. -/
def previewInsertAfter (s : σ) (relPath pattern : PyStr) : Option Preview :=
  (opened R E s relPath pattern ⟨false, false⟩).map fun
    | .error error => .refused error
    | .ok (_, src, rx) =>
      let lines := splitlinesL [] src
      match firstFound E rx lines with
      | some idx =>
        .insertAfter (idx + 1) ((PyStr.strip (ofChars (lines.getD idx []))).take 200)
          (((lines.take (idx + 3)).drop (idx - 2)).map ofChars)
      | none => .refused (PyStr.ofString "Pattern not found in " ++ (relPath ++ (PyStr.ofString ": " ++ pattern)))

/-- `do_insert_after`. -/
def doInsertAfter (s : σ) (relPath pattern text : PyStr) : σ × Option (Bool × PyStr) :=
  match opened R E s relPath pattern ⟨false, false⟩ with
  | none => (s, none)
  | some (.error error) => (s, some (false, error))
  | some (.ok (p, src, rx)) =>
    let lines := keepends src
    match firstFound E rx lines with
    | some idx =>
      let (s', ok) := writeTextAtomic R s p (insertedAfter lines idx (insertedText text))
      (s', if ok then some (true, PyStr.ofString ("inserted after line " ++ (idx + 1).repr)) else none)
    | none => (s, some (false, PyStr.ofString "Pattern not found: " ++ pattern))

/-- `str.upper` of one character, as far as it is compared with `MULTILINE` and `DOTALL`: the capitals of ASCII, and
of the two other characters whose capital is one of its letters. -/
def upperChar : PyChar → PyChar
  | .scalar c => .scalar (if c.toNat = 0x131 then 'I' else if c.toNat = 0x17F then 'S' else c.toUpper)
  | c => c

/-- `_rx_flags`. -/
def rxFlags (flags : PyStr) : RegexFlags :=
  let parts := ((flags.splitOn (.scalar ',')).map PyStr.strip).filter (· ≠ []) |>.map fun x => x.map upperChar
  ⟨PyStr.ofString "MULTILINE" ∈ parts, PyStr.ofString "DOTALL" ∈ parts⟩

/-- `preview_replace_regex`. -/
def previewReplaceRegex (s : σ) (relPath pattern repl flags : PyStr) : Option Preview :=
  (opened R E s relPath pattern (rxFlags flags)).bind fun
    | .error error => some (.refused error)
    | .ok (_, src, rx) =>
      let src := ofChars src
      match E.search rx src with
      | none => some (.refused (PyStr.ofString "No match for replace_regex in " ++ (relPath ++ (PyStr.ofString ": " ++ pattern))))
      | some m =>
        let before := (src.take m.stop).drop m.start
        (E.sub rx repl before).map fun after => .replaceRegex m.start m.stop (before.take 600) (after.take 600)

/-- `do_replace_regex`. -/
def doReplaceRegex (s : σ) (relPath pattern repl flags : PyStr) : σ × Option (Bool × PyStr) :=
  match opened R E s relPath pattern (rxFlags flags) with
  | none => (s, none)
  | some (.error error) => (s, some (false, error))
  | some (.ok (p, src, rx)) =>
    if E.finds rx (ofChars src) then
      match E.sub rx repl (ofChars src) with
      | some out =>
        let (s', ok) := writeTextAtomic R s p out
        (s', if ok then some (true, PyStr.ofString "replaced first match") else none)
      | none => (s, none)
    else (s, some (false, PyStr.ofString "pattern not found"))

/-! ### What an edit works on -/

/-- The file an edit works on, and its compiled pattern. -/
structure Target (s : σ) (relPath pattern : PyStr) (flags : RegexFlags) where
  path : P
  bytes : List UInt8
  rx : E.Rx
  target : editTarget R s relPath = some (.ok path)
  read : R.read s path = some bytes
  compiled : E.compile pattern flags = some rx

/-- A repository of one file, which is written without fail. -/
def oneFile : Repository (List UInt8) Unit where
  join _ := ()
  resolve _ p := some p
  isUnderRepo _ _ := true
  there _ _ := some true
  read s _ := some s
  makeParent s _ := (s, true)
  openTemp s _ := (s, true)
  replace _ _ bytes := (bytes, true)
  read_replace h := congrArg some (Prod.mk.inj h).1.symm

variable {R E} {s s' : σ} {path : P} {relPath pattern text repl info content : PyStr} {flags : RegexFlags}

/-- The text of the file. -/
def Target.src (t : Target R E s relPath pattern flags) : List Char := readText t.bytes

theorem Target.opened (t : Target R E s relPath pattern flags) :
    opened R E s relPath pattern flags = some (.ok (t.path, t.src, t.rx)) := by
  rw [Taskman.opened, t.target, Option.bind_some]
  dsimp only
  rw [t.read, Option.bind_some, t.compiled, Option.map_some, Target.src]

theorem target_of_opened {src : List Char} {rx : E.Rx} (h : opened R E s relPath pattern flags = some (.ok (path, src, rx))) :
    ∃ t : Target R E s relPath pattern flags, t.path = path ∧ t.src = src ∧ t.rx = rx := by
  rw [Taskman.opened] at h
  obtain ⟨target, htarget, h⟩ := Option.bind_eq_some_iff.mp h
  cases target with
  | error error => simp at h
  | ok p =>
    obtain ⟨bytes, hread, h⟩ := Option.bind_eq_some_iff.mp h
    obtain ⟨rx', hrx, heq⟩ := Option.map_eq_some_iff.mp h
    obtain ⟨rfl, hsrc⟩ := Prod.mk.inj (Except.ok.inj heq)
    obtain ⟨rfl, rfl⟩ := Prod.mk.inj hsrc
    exact ⟨⟨p, bytes, rx', htarget, hread, hrx⟩, rfl, rfl, rfl⟩

/-! An edit that succeeds, and a preview that is shown, are of a file. -/

theorem exists_target_of_insert (h : doInsertAfter R E s relPath pattern text = (s', some (true, info))) :
    Nonempty (Target R E s relPath pattern ⟨false, false⟩) := by
  rw [doInsertAfter] at h
  cases hopened : opened R E s relPath pattern ⟨false, false⟩ with
  | none => simp [hopened] at h
  | some target =>
    cases target with
    | error error => simp [hopened] at h
    | ok file =>
      obtain ⟨t, -⟩ := target_of_opened hopened
      exact ⟨t⟩

theorem exists_target_of_replace {flags : PyStr}
    (h : doReplaceRegex R E s relPath pattern repl flags = (s', some (true, info))) :
    Nonempty (Target R E s relPath pattern (rxFlags flags)) := by
  rw [doReplaceRegex] at h
  cases hopened : opened R E s relPath pattern (rxFlags flags) with
  | none => simp [hopened] at h
  | some target =>
    cases target with
    | error error => simp [hopened] at h
    | ok file =>
      obtain ⟨t, -⟩ := target_of_opened hopened
      exact ⟨t⟩

theorem exists_target_of_previewInsert {pv : Preview} (h : previewInsertAfter R E s relPath pattern = some pv) (hok : pv.ok = true) :
    Nonempty (Target R E s relPath pattern ⟨false, false⟩) := by
  rw [previewInsertAfter] at h
  obtain ⟨target, hopened, rfl⟩ := Option.map_eq_some_iff.mp h
  cases target with
  | error error => cases hok
  | ok file =>
    obtain ⟨t, -⟩ := target_of_opened hopened
    exact ⟨t⟩

theorem exists_target_of_previewReplace {flags : PyStr} {pv : Preview}
    (h : previewReplaceRegex R E s relPath pattern repl flags = some pv) (hok : pv.ok = true) :
    Nonempty (Target R E s relPath pattern (rxFlags flags)) := by
  rw [previewReplaceRegex] at h
  obtain ⟨target, hopened, h⟩ := Option.bind_eq_some_iff.mp h
  cases target with
  | error error =>
    obtain rfl := Option.some.inj h
    cases hok
  | ok file =>
    obtain ⟨t, -⟩ := target_of_opened hopened
    exact ⟨t⟩

theorem firstFound_spec {rx : E.Rx} {lines : List (List Char)} {idx : ℕ} (h : firstFound E rx lines = some idx) :
    ∃ line, lines[idx]? = some line ∧ E.finds rx (ofChars line) = true := by
  rw [firstFound, List.findIdx?_eq_some_iff_getElem] at h
  obtain ⟨hidx, hfound, -⟩ := h
  exact ⟨lines[idx], List.getElem?_eq_getElem hidx, hfound⟩

/-- A file that was written has the encoding of the text. -/
theorem read_writeTextAtomic (h : writeTextAtomic R s path content = (s', true)) :
    ∃ bytes, encode? content = some bytes ∧ R.read s' path = some bytes := by
  rw [writeTextAtomic] at h
  dsimp only at h
  split_ifs at h
  · cases hencode : encode? content with
    | none => simp [hencode] at h
    | some bytes =>
      rw [hencode] at h
      exact ⟨bytes, rfl, R.read_replace h⟩
  · cases (Prod.mk.inj h).2
  · cases (Prod.mk.inj h).2

/-- What `do_insert_after` does to a file. -/
theorem Target.doInsertAfter (t : Target R E s relPath pattern ⟨false, false⟩) (text : PyStr) :
    doInsertAfter R E s relPath pattern text =
      match firstFound E t.rx (keepends t.src) with
      | some idx =>
        let w := writeTextAtomic R s t.path (insertedAfter (keepends t.src) idx (insertedText text))
        (w.1, if w.2 then some (true, PyStr.ofString ("inserted after line " ++ (idx + 1).repr)) else none)
      | none => (s, some (false, PyStr.ofString "Pattern not found: " ++ pattern)) := by
  rw [Taskman.doInsertAfter, t.opened]

/-- What `do_replace_regex` does to a file. -/
theorem Target.doReplaceRegex {flags : PyStr} (t : Target R E s relPath pattern (rxFlags flags)) (repl : PyStr) :
    doReplaceRegex R E s relPath pattern repl flags =
      match E.search t.rx (ofChars t.src), E.template t.rx repl with
      | some m, some expand =>
        let w := writeTextAtomic R s t.path ((ofChars t.src).take m.start ++ (expand m.groups ++ (ofChars t.src).drop m.stop))
        (w.1, if w.2 then some (true, PyStr.ofString "replaced first match") else none)
      | some _, none => (s, none)
      | none, _ => (s, some (false, PyStr.ofString "pattern not found")) := by
  rw [Taskman.doReplaceRegex, t.opened]
  dsimp only
  rw [Engine.finds, Engine.sub]
  cases hsearch : E.search t.rx (ofChars t.src) with
  | none => rfl
  | some m =>
    cases E.template t.rx repl with
    | none => rfl
    | some expand =>
      rw [Option.map_some, Engine.replaceFirst_of_found hsearch]
      rfl

/-- What a successful `do_replace_regex` has done. -/
theorem Target.doReplaceRegex_ok {flags : PyStr} {t : Target R E s relPath pattern (rxFlags flags)}
    (h : Taskman.doReplaceRegex R E s relPath pattern repl flags = (s', some (true, info))) :
    ∃ m expand, E.search t.rx (ofChars t.src) = some m ∧ E.template t.rx repl = some expand ∧
      writeTextAtomic R s t.path ((ofChars t.src).take m.start ++ (expand m.groups ++ (ofChars t.src).drop m.stop)) = (s', true) := by
  rw [t.doReplaceRegex] at h
  cases hsearch : E.search t.rx (ofChars t.src) with
  | none => simp [hsearch] at h
  | some m =>
    cases htemplate : E.template t.rx repl with
    | none => simp [hsearch, htemplate] at h
    | some expand =>
      rw [hsearch, htemplate] at h
      obtain ⟨hstate, hinfo⟩ := Prod.mk.inj h
      split_ifs at hinfo with hok
      exact ⟨m, expand, rfl, rfl, Prod.ext hstate hok⟩

/-- What `do_replace_regex` does when the text can be written. -/
theorem Target.doReplaceRegex_of_write {flags : PyStr} {t : Target R E s relPath pattern (rxFlags flags)} {m : Found PyChar}
    {expand : List (Option PyStr) → PyStr} (hsearch : E.search t.rx (ofChars t.src) = some m)
    (htemplate : E.template t.rx repl = some expand)
    (hwrite : (writeTextAtomic R s t.path ((ofChars t.src).take m.start ++ (expand m.groups ++ (ofChars t.src).drop m.stop))).2 = true) :
    Taskman.doReplaceRegex R E s relPath pattern repl flags =
      ((writeTextAtomic R s t.path ((ofChars t.src).take m.start ++ (expand m.groups ++ (ofChars t.src).drop m.stop))).1,
        some (true, PyStr.ofString "replaced first match")) := by
  rw [t.doReplaceRegex, hsearch, htemplate]
  dsimp only
  rw [if_pos hwrite]

/-- What `preview_insert_after` says of a file. -/
theorem Target.previewInsertAfter (t : Target R E s relPath pattern ⟨false, false⟩) :
    previewInsertAfter R E s relPath pattern = some
      (match firstFound E t.rx (splitlinesL [] t.src) with
      | some idx =>
        .insertAfter (idx + 1) ((PyStr.strip (ofChars ((splitlinesL [] t.src).getD idx []))).take 200)
          ((((splitlinesL [] t.src).take (idx + 3)).drop (idx - 2)).map ofChars)
      | none => .refused (PyStr.ofString "Pattern not found in " ++ (relPath ++ (PyStr.ofString ": " ++ pattern)))) := by
  rw [Taskman.previewInsertAfter, t.opened]
  rfl

/-- The matched text. -/
def matched (src : PyStr) (m : Found PyChar) : PyStr := (src.take m.stop).drop m.start

/-- What `preview_replace_regex` says of a file. -/
theorem Target.previewReplaceRegex {flags : PyStr} (t : Target R E s relPath pattern (rxFlags flags)) (repl : PyStr) :
    previewReplaceRegex R E s relPath pattern repl flags =
      match E.search t.rx (ofChars t.src), E.template t.rx repl with
      | some m, some expand =>
        some (.replaceRegex m.start m.stop ((matched (ofChars t.src) m).take 600)
          ((E.replaceFirst t.rx expand (matched (ofChars t.src) m)).take 600))
      | some _, none => none
      | none, _ => some (.refused (PyStr.ofString "No match for replace_regex in " ++ (relPath ++ (PyStr.ofString ": " ++ pattern)))) := by
  rw [Taskman.previewReplaceRegex, t.opened, Option.bind_some]
  dsimp only
  cases E.search t.rx (ofChars t.src) with
  | none => rfl
  | some m =>
    dsimp only
    rw [Engine.sub]
    cases E.template t.rx repl <;> rfl

/-- What `do_insert_after` does when the text can be written. -/
theorem Target.doInsertAfter_of_write {t : Target R E s relPath pattern ⟨false, false⟩} {idx : ℕ}
    (hfound : firstFound E t.rx (keepends t.src) = some idx)
    (hwrite : (writeTextAtomic R s t.path (insertedAfter (keepends t.src) idx (insertedText text))).2 = true) :
    Taskman.doInsertAfter R E s relPath pattern text =
      ((writeTextAtomic R s t.path (insertedAfter (keepends t.src) idx (insertedText text))).1,
        some (true, PyStr.ofString ("inserted after line " ++ (idx + 1).repr))) := by
  rw [t.doInsertAfter, hfound]
  dsimp only
  rw [if_pos hwrite]

theorem insertIdx_eq {α : Type*} (xs : List α) {n : ℕ} (h : n ≤ xs.length) (a : α) :
    xs.insertIdx n a = xs.take n ++ a :: xs.drop n := by
  induction xs generalizing n with
  | nil =>
    obtain rfl := Nat.le_zero.mp h
    rfl
  | cons x xs ih =>
    cases n with
    | zero => rfl
    | succ n => rw [List.insertIdx_succ_cons, ih (Nat.le_of_succ_le_succ h), List.take_succ_cons, List.drop_succ_cons, List.cons_append]

/-- The text between the lines. -/
theorem insertedAfter_eq {lines : List (List Char)} {idx : ℕ} (h : idx < lines.length) (ins : PyStr) :
    insertedAfter lines idx ins = ofChars (lines.take (idx + 1)).flatten ++ (ins ++ ofChars (lines.drop (idx + 1)).flatten) := by
  rw [insertedAfter, insertIdx_eq _ (by rw [List.length_map]; exact h), List.flatten_append, List.flatten_cons, ← List.map_take,
    ← List.map_drop, ofChars, ofChars, List.map_flatten, List.map_flatten]

end Persona.Taskman
