import Persona.Lib.PyText
import Persona.Lib.Assoc
import Persona.TomlText
import Mathlib.Data.List.DropRight

/-!
# Wiring a pick into the configuration

`wire_config` of `scripts/provision_fetch.py` sets keys in the table of the operating system,
`[<os>]`, of a TOML file. It works on the lines of the text: the section begins at the first
line that is the header and nothing else, and ends before the next line with a bracket in its
first column. The text is the one that `read_text` returns, with `\n` at the ends of lines; what
a dry run leaves out, writing the file, is left out here.

`Overridden` says what the edit is for. It is for tidy files: `Editable` is what it needs of one,
and `wireConfig_overridden` that this is enough, and that a file in which it does not hold is
spared only by luck (`Lucky`).
-/

namespace Persona.Provision

open Persona.Lib Persona.TomlText

/-! ### The edit -/

/-- A value that is set. -/
inductive Setting where
  | str (s : Text)
  | int (n : ℤ)
  | bool (b : Bool)

/-- `_toml_value`. -/
def tomlValue : Setting → Text
  | .bool b => if b then "true".toList else "false".toList
  | .int n => JsonText.dumpInt n
  | .str s => '"' :: (s ++ ['"'])

/-- `str(v)`. -/
def Setting.pyStr : Setting → Text
  | .bool b => if b then "True".toList else "False".toList
  | .int n => JsonText.dumpInt n
  | .str s => s

/-- `s.strip()`. -/
def strip (cs : Text) : Text := PyText.rstripL (PyText.lstripL cs)

/-- `s.strip(c)`. -/
def stripChar (c : Char) (cs : Text) : Text := ((cs.dropWhile (· = c)).reverse.dropWhile (· = c)).reverse

/-- `"[%s]" % os_tag`. -/
def sectionOf (osTag : Text) : Text := '[' :: (osTag ++ [']'])

/-- `"%s = %s" % (k, _toml_value(v))`. -/
def settingLine (kv : Text × Setting) : Text := kv.1 ++ (" = ".toList ++ tomlValue kv.2)

/-- The key of a line, if there is an equals sign in it and it is no comment. -/
def lineKey (ln : Text) : Option Text :=
  if '=' ∈ strip ln ∧ (strip ln).head? ≠ some '#' then some (strip ((strip ln).takeWhile (· ≠ '='))) else none

/-- `old_val`. -/
def oldValue (ln : Text) : Text := stripChar '"' (strip ((strip ln).dropWhile (· ≠ '=')).tail)

/-- The line that remembers the model before. -/
def breadcrumb (ln : Text) : Text := "# was: ".toList ++ (strip ln ++ "   (provision rollback)".toList)

/-- What the edit of a line adds before it: nothing, or the line that remembers it. -/
def crumbs (ln : Text) (kv : Text × Setting) : List Text :=
  if kv.1 = "PERSONA_MODEL".toList ∧ oldValue ln ≠ kv.2.pyStr then [breadcrumb ln] else []

/-- The loop over the lines of the section: the new lines, the changes, and the settings that
remain. -/
def editBody (remaining : List (Text × Setting)) : List Text → List Text × List Text × List (Text × Setting)
  | [] => ([], [], remaining)
  | ln :: lns =>
    match (lineKey ln).bind fun k => (remaining.lookup k).map fun v => (k, v) with
    | some kv =>
      let (newBody, changes, rest) := editBody (Assoc.without kv.1 remaining) lns
      (crumbs ln kv ++ settingLine kv :: newBody,
        (crumbs ln kv).map (fun _ => "commented prior PERSONA_MODEL".toList) ++ ("set ".toList ++ kv.1) :: changes, rest)
    | none =>
      let (newBody, changes, rest) := editBody remaining lns
      (ln :: newBody, changes, rest)

/-- `"added %s" % k` for each of the settings. -/
def added (kvs : List (Text × Setting)) : List Text := kvs.map fun kv => "added ".toList ++ kv.1

/-- A line of blanks. -/
def isBlankLine (ln : Text) : Bool := (strip ln).isEmpty

/-- The new lines, and the changes. -/
def wireLines (osTag : Text) (kv : List (Text × Setting)) (lines : List Text) : List Text × List Text :=
  match lines.dropWhile fun ln => strip ln ≠ sectionOf osTag with
  | [] =>
    (lines ++ (if lines.getLast?.any fun ln => !isBlankLine ln then [[]] else []) ++ sectionOf osTag :: kv.map settingLine,
      added kv ++ ["added section ".toList ++ sectionOf osTag])
  | header :: rest =>
    let (newBody, changes, remaining) := editBody kv (rest.takeWhile fun ln => ln.head? ≠ some '[')
    ((lines.takeWhile fun ln => strip ln ≠ sectionOf osTag) ++ header ::
        (newBody.rdropWhile isBlankLine ++ remaining.map settingLine ++ newBody.rtakeWhile isBlankLine ++
          rest.dropWhile fun ln => ln.head? ≠ some '['),
      changes ++ added remaining)

/-- What `wire_config` returns. -/
structure Wired where
  changes : List Text
  text : Text

/-- `wire_config`, on the text of the file; a missing file has none. -/
def wireConfig (orig : Text) (osTag : Text) (kv : List (Text × Setting)) : Wired :=
  let (newLines, changes) := wireLines osTag kv (PyText.splitlinesL [] orig)
  let newText := ['\n'].intercalate newLines
  ⟨changes, if (orig.getLast? = some '\n' ∨ orig = []) ∧ newText.getLast? ≠ some '\n' then newText ++ ['\n'] else newText⟩

/-! ### What the edit is for -/

section

variable {V : Type*}

/-- The value that a setting is read as. -/
def Setting.value : Setting → Value V
  | .str s => .str s
  | .int n => .int n
  | .bool b => .bool b

/-- Every text in the setting stands for itself between quotes. -/
def Setting.Plain : Setting → Prop
  | .str s => TomlText.Plain s
  | _ => True

instance : DecidablePred Setting.Plain
  | .str s => inferInstanceAs (Decidable (TomlText.Plain s))
  | .int _ => .isTrue trivial
  | .bool _ => .isTrue trivial

/-- The settings as entries. -/
def settingEntries (kv : List (Text × Setting)) : List (Text × Value V) := kv.map fun s => (s.1, s.2.value)

variable (others : Text → Option (V × Text)) (orig osTag : Text) (kv : List (Text × Setting)) (is : List (Item V))

/-- The new text means the document with the settings in the table. -/
def Overridden : Prop :=
  ∃ is', parse others (wireConfig orig osTag kv).text = some is' ∧ Overrides [osTag] (settingEntries kv) is is'

/-- The line is a header. -/
def isHeader (ln : Text) : Bool :=
  match readLine others ln with
  | some (.header _) => true
  | _ => false

/-- The lines that the edit takes for the section. -/
def sectionBody (lines : List Text) : List Text :=
  (lines.dropWhile fun ln => strip ln ≠ sectionOf osTag).tail.takeWhile fun ln => ln.head? ≠ some '['

/-- Those of them that are in the table. -/
def ownLines (lines : List Text) : List Text := (sectionBody osTag lines).takeWhile fun ln => !isHeader others ln

/-- The line has the key, in quotes or bare. -/
def HasKey (quoted : Bool) (k ln : Text) : Prop := ∃ v, readLine others ln = some (.entry quoted k v)

instance (quoted : Bool) (k ln : Text) : Decidable (HasKey others quoted k ln) :=
  match h : readLine others ln with
  | some (.entry q k' v) =>
    if heq : q = quoted ∧ k' = k then .isTrue ⟨v, by rw [h, heq.1, heq.2]⟩
    else .isFalse fun ⟨w, hw⟩ => heq (by rw [h] at hw; exact ⟨by injections, by injections⟩)
  | some .blank => .isFalse fun ⟨w, hw⟩ => by rw [h] at hw; cases hw
  | some (.header _) => .isFalse fun ⟨w, hw⟩ => by rw [h] at hw; cases hw
  | none => .isFalse fun ⟨w, hw⟩ => by rw [h] at hw; cases hw

/-- What the edit needs of a file. -/
structure Editable : Prop where
  /-- Python breaks the lines where TOML does, as far as it matters. -/
  breaks : parseLines others (PyText.splitlinesL [] orig) = parse others orig
  plain : ∀ s ∈ kv, s.2.Plain
  /-- The header of the table, if there is one, is on a line with nothing else. -/
  header : .table [osTag] ∈ is → ∃ ln ∈ PyText.splitlinesL [] orig, strip ln = sectionOf osTag
  /-- No value stands where the table is. -/
  notValue : ∀ v, .value [] osTag v ∉ is
  /-- No table stands where a setting is. -/
  notTable : ∀ s ∈ kv, ¬ HasTable is [osTag, s.1]
  /-- Each setting has an entry with a bare key; or it has none, and the next header has its
  bracket in the first column. -/
  keys : ∀ s ∈ kv, (∃ ln ∈ ownLines others osTag (PyText.splitlinesL [] orig), HasKey others false s.1 ln) ∨
    ownLines others osTag (PyText.splitlinesL [] orig) = sectionBody osTag (PyText.splitlinesL [] orig) ∧
      ∀ ln ∈ ownLines others osTag (PyText.splitlinesL [] orig), ¬ HasKey others true s.1 ln

/-- Python breaks lines where TOML does not; or a header that is not in the first column follows,
and a setting has its value already, under a key in quotes. -/
def Lucky : Prop :=
  parseLines others (PyText.splitlinesL [] orig) ≠ parse others orig ∨
    ownLines others osTag (PyText.splitlinesL [] orig) ≠ sectionBody osTag (PyText.splitlinesL [] orig) ∧
      ∃ s ∈ kv, ∃ ln ∈ ownLines others osTag (PyText.splitlinesL [] orig),
        readLine others ln = some (.entry true s.1 s.2.value)

end

/-! ### Lines, as the edit and as TOML see them -/

section

variable {V : Type*} {others : Text → Option (V × Text)} {ln k osTag : Text} {v : Value V} {l : Line V}

theorem isSpace_of_isBlank {c : Char} (h : isBlank c = true) : PyText.isSpace c = true := by
  simp only [isBlank, Bool.or_eq_true, decide_eq_true_eq] at h
  rcases h with rfl | rfl <;> decide

theorem not_isSpace_of_isBare {c : Char} (h : isBare c = true) : PyText.isSpace c = false := by
  have hrange := toNat_of_isBare h
  simp only [PyText.isSpace, Bool.or_eq_false_iff, Bool.and_eq_false_imp, decide_eq_true_eq, decide_eq_false_iff_not,
    beq_eq_false_iff_ne]
  omega

theorem lstripL_blanks {ws : Text} (h : ∀ c ∈ ws, isBlank c = true) : PyText.lstripL ws = [] :=
  List.dropWhile_eq_nil_iff.mpr fun c hc => isSpace_of_isBlank (h c hc)

theorem rstripL_blanks {ws : Text} (h : ∀ c ∈ ws, isBlank c = true) : PyText.rstripL ws = [] := by
  rw [PyText.rstripL, List.reverse_eq_nil_iff, List.dropWhile_eq_nil_iff]
  exact fun c hc => isSpace_of_isBlank (h c (List.mem_reverse.mp hc))

/-- The first character that is no blank stays. -/
theorem strip_cons {ws : Text} (hws : ∀ c ∈ ws, isBlank c = true) {c : Char} (hc : PyText.isSpace c = false) (cs : Text) :
    strip (ws ++ c :: cs) = c :: PyText.rstripL cs := by
  have haround : strip (ws ++ ([c] ++ cs)) = PyText.lstripL ws ++ ([c] ++ PyText.rstripL cs) :=
    PyText.strip_around (by simp) (by simpa using hc) (by simpa using hc)
  rwa [lstripL_blanks hws] at haround

theorem strip_bare {ws : Text} (hws : ∀ c ∈ ws, isBlank c = true) (hk : Bare k) : strip (k ++ ws) = k := by
  have hlast : ∀ c ∈ k.getLast?, PyText.isSpace c = false := fun c hc =>
    not_isSpace_of_isBare (hk.2 c (List.mem_of_mem_getLast? hc))
  have hfirst : ∀ c ∈ k.head?, PyText.isSpace c = false := fun c hc =>
    not_isSpace_of_isBare (hk.2 c (List.mem_of_mem_head? hc))
  have haround : strip ([] ++ (k ++ ws)) = PyText.lstripL [] ++ (k ++ PyText.rstripL ws) :=
    PyText.strip_around hk.1 hfirst hlast
  rw [rstripL_blanks hws, List.append_nil] at haround
  exact haround

/-- A bare key is the key of its line. -/
theorem lineKey_bare (h : readLine others ln = some (.entry false k v)) : lineKey ln = some k := by
  cases lineForm h with
  | @bare _ _ ws ws' text hws hk hws' hln =>
    have hne : ∀ c ∈ k ++ ws', c ≠ '=' := by
      intro c hc
      rcases List.mem_append.mp hc with hc | hc
      · exact (isBare_ne (hk.2 c hc)).2.2.2.2.2.1
      · rintro rfl
        exact absurd (hws' _ hc) (by decide)
    have hstrip : strip ln = (k ++ ws') ++ '=' :: PyText.rstripL text := by
      have hcore : ∀ c ∈ (k ++ ws' ++ ['=']).head?, PyText.isSpace c = false := by
        intro c hc
        rw [List.append_assoc, List.head?_append_of_ne_nil _ hk.1] at hc
        exact not_isSpace_of_isBare (hk.2 c (List.mem_of_mem_head? hc))
      have hlast : ∀ c ∈ (k ++ ws' ++ ['=']).getLast?, PyText.isSpace c = false := by
        intro c hc
        rw [List.getLast?_concat] at hc
        obtain rfl : '=' = c := by simpa using hc
        decide
      have haround : strip (ws ++ (k ++ ws' ++ ['='] ++ text)) =
          PyText.lstripL ws ++ (k ++ ws' ++ ['='] ++ PyText.rstripL text) :=
        PyText.strip_around (by simp) hcore hlast
      rw [lstripL_blanks hws, List.nil_append] at haround
      rw [hln]
      simpa only [List.append_assoc, List.singleton_append] using haround
    have hbefore : (strip ln).takeWhile (· ≠ '=') = k ++ ws' := by
      rw [hstrip, List.takeWhile_append_of_pos (by simpa using hne), List.takeWhile_cons_of_neg (by simp), List.append_nil]
    have hhead : (strip ln).head? ≠ some '#' := by
      rw [hstrip, List.append_assoc, List.head?_append_of_ne_nil _ hk.1]
      exact fun hc => (isBare_ne (hk.2 _ (List.mem_of_mem_head? hc))).2.2.1 rfl
    rw [lineKey, if_pos ⟨by rw [hstrip]; simp, hhead⟩, hbefore, strip_bare hws' hk]

/-- A key that does not begin a line in a bare way is not bare. -/
theorem head?_lineKey {ws cs : Text} (hws : ∀ c ∈ ws, isBlank c = true) {c : Char} (hc : PyText.isSpace c = false)
    (hne : c ≠ '=') (h : lineKey (ws ++ c :: cs) = some k) : k.head? = some c := by
  rw [lineKey, strip_cons hws hc] at h
  split_ifs at h
  obtain rfl := Option.some.inj h
  have hnil : strip ([] ++ c :: (PyText.rstripL cs).takeWhile (· ≠ '=')) =
      c :: PyText.rstripL ((PyText.rstripL cs).takeWhile (· ≠ '=')) := strip_cons (by simp) hc _
  rw [List.takeWhile_cons_of_pos (by simpa using hne)]
  rw [List.nil_append] at hnil
  rw [hnil]
  rfl

/-- A line with a bare key is an entry with that key. -/
theorem entry_of_lineKey (h : readLine others ln = some l) (hkey : lineKey ln = some k) (hk : Bare k) :
    ∃ v, l = .entry false k v := by
  have hskip : ∀ c, PyText.isSpace c = false → c ≠ '=' → isBare c = false → (skip ln).head? ≠ some c := by
    intro c hc hne hbare hhead
    obtain ⟨ws, hln, hws⟩ := head?_skip hhead
    rw [hln] at hkey
    rw [hk.2 c (List.mem_of_mem_head? (head?_lineKey hws hc hne hkey))] at hbare
    cases hbare
  cases lineForm h with
  | blank hends =>
    exfalso
    rw [ends, Bool.or_eq_true] at hends
    rcases hends with hempty | hcomment
    · obtain ⟨ws, hln, hws⟩ := skip_spec ln
      rw [List.isEmpty_iff.mp hempty, List.append_nil] at hln
      have hnil : strip ln = [] := by
        rw [hln, strip, lstripL_blanks hws]
        rfl
      rw [lineKey, hnil] at hkey
      simp at hkey
    · obtain ⟨ws, hln, hws⟩ := head?_skip (by simpa using hcomment)
      rw [lineKey, hln, strip_cons hws (by decide)] at hkey
      simp at hkey
  | header hbracket => exact absurd hbracket (hskip '[' (by decide) (by decide) (by decide))
  | quoted hquote =>
    rcases hquote with hquote | hquote
    · exact absurd hquote (hskip '"' (by decide) (by decide) (by decide))
    · exact absurd hquote (hskip '\'' (by decide) (by decide) (by decide))
  | @bare key value ws ws' text hws hkey' hws' hln =>
    rw [lineKey_bare h] at hkey
    obtain rfl := Option.some.inj hkey
    exact ⟨_, rfl⟩

/-- What `strip` takes away. -/
theorem strip_spec (ln : Text) : ∃ pre post, ln = pre ++ (strip ln ++ post) ∧ ∀ c ∈ pre, PyText.isSpace c = true := by
  obtain ⟨post, hpost⟩ := PyText.rstripL_prefix (PyText.lstripL ln)
  refine ⟨ln.takeWhile PyText.isSpace, post, ?_, fun c hc => List.mem_takeWhile_imp hc⟩
  rw [strip, hpost]
  exact List.takeWhile_append_dropWhile.symm

/-- What a line that is read begins with is no space. -/
theorem head?_skip_not_isSpace (h : readLine others ln = some l) : ∀ c ∈ (skip ln).head?, PyText.isSpace c = false := by
  intro c hc
  have hc : (skip ln).head? = some c := hc
  have hsame : ∀ d, (skip ln).head? = some d → d = c := fun d hd => Option.some.inj (hd.symm.trans hc)
  cases lineForm h with
  | blank hends =>
    rw [ends, Bool.or_eq_true] at hends
    rcases hends with hempty | hcomment
    · rw [List.isEmpty_iff.mp hempty] at hc
      cases hc
    · obtain rfl := hsame '#' (by simpa using hcomment)
      decide
  | header hbracket =>
    obtain rfl := hsame '[' hbracket
    decide
  | quoted hquote =>
    rcases hquote with hquote | hquote
    · obtain rfl := hsame '"' hquote
      decide
    · obtain rfl := hsame '\'' hquote
      decide
  | @bare key value ws ws' text hws hkey hws' hln =>
    obtain ⟨d, key', rfl⟩ := List.exists_cons_of_ne_nil hkey.1
    have hd := hkey.2 d List.mem_cons_self
    rw [hln, skip_append hws, List.cons_append, skip_cons (isBlank_of_isBare hd)] at hc
    obtain rfl : d = c := by simpa using hc
    exact not_isSpace_of_isBare hd

theorem strip_subset {c : Char} (h : c ∈ strip ln) : c ∈ ln := by
  obtain ⟨pre, post, hparts, -⟩ := strip_spec ln
  rw [hparts]
  simp [h]

/-- Spaces before a line that is read are blanks. -/
theorem skip_of_spaces {pre cs : Text} (h : readLine others (pre ++ cs) = some l)
    (hpre : ∀ d ∈ pre, PyText.isSpace d = true) (hcs : ∀ c ∈ cs.head?, PyText.isSpace c = false) : skip (pre ++ cs) = cs := by
  have hfirst := head?_skip_not_isSpace h
  have hself : skip cs = cs := by
    cases cs with
    | nil => rfl
    | cons c cs =>
      refine skip_cons ?_
      by_contra hblank
      rw [Bool.not_eq_false] at hblank
      have hspace := hcs c rfl
      rw [isSpace_of_isBlank hblank] at hspace
      cases hspace
  rw [skip, List.dropWhile_append] at hfirst ⊢
  split_ifs at hfirst ⊢ with hempty
  · exact hself
  · exfalso
    obtain ⟨d, ds, hd⟩ := List.exists_cons_of_ne_nil (fun hnil => hempty (List.isEmpty_iff.mpr hnil))
    have hmem : d ∈ pre := (List.dropWhile_suffix isBlank).subset (hd ▸ List.mem_cons_self)
    have hspace := hfirst d (by rw [hd]; rfl)
    rw [hpre d hmem] at hspace
    cases hspace

/-- The line that is found is the header of the section. -/
theorem header_of_strip (h : readLine others ln = some l) (hos : Bare osTag) (hln : strip ln = sectionOf osTag) :
    l = .header [osTag] := by
  obtain ⟨pre, post, hparts, hpre⟩ := strip_spec ln
  rw [hln] at hparts
  have hskip : skip ln = '[' :: (osTag ++ ']' :: post) := by
    rw [hparts] at h ⊢
    rw [skip_of_spaces h hpre (by intro c hc; obtain rfl : '[' = c := by simpa [sectionOf] using hc
                                  decide)]
    simp [sectionOf]
  rw [readLine_section hos hskip (not_control_of_readLine h)] at h
  split_ifs at h
  exact (Option.some.inj h).symm

theorem readLine_sectionOf (hos : Bare osTag) : readLine others (sectionOf osTag) = some (.header [osTag]) := by
  have hskip : skip (sectionOf osTag) = '[' :: (osTag ++ ']' :: []) := skip_cons (by decide)
  have hcontrol : (sectionOf osTag).any isControl = false := by
    rw [List.any_eq_false]
    intro c hc
    simp only [sectionOf, List.mem_cons, List.mem_append, List.not_mem_nil, or_false] at hc
    rcases hc with rfl | hc | rfl
    · decide
    · simp [isControl_of_isBare (hos.2 c hc)]
    · decide
  rw [readLine_section hos hskip hcontrol]
  rfl

/-- A line of blanks has nothing in it. -/
theorem blank_of_isBlankLine (h : readLine others ln = some l) (hln : isBlankLine ln = true) : l = .blank := by
  have hspaces : ∀ c ∈ ln, PyText.isSpace c = true := by
    have hstrip : PyText.rstripL (PyText.lstripL ln) = [] := List.isEmpty_iff.mp hln
    rw [PyText.rstripL, List.reverse_eq_nil_iff, List.dropWhile_eq_nil_iff] at hstrip
    intro c hc
    rw [← List.takeWhile_append_dropWhile (p := PyText.isSpace) (l := ln)] at hc
    rcases List.mem_append.mp hc with hc | hc
    · exact List.mem_takeWhile_imp hc
    · exact hstrip c (List.mem_reverse.mpr hc)
  have hnil : skip ln = [] := by
    have hfirst := head?_skip_not_isSpace h
    cases hskip : skip ln with
    | nil => rfl
    | cons c cs =>
      rw [hskip] at hfirst
      have hsuffix : skip ln <:+ ln := List.dropWhile_suffix _
      have hmem : c ∈ ln := hsuffix.subset (by rw [hskip]; exact List.mem_cons_self)
      have hspace := hfirst c rfl
      rw [hspaces c hmem] at hspace
      cases hspace
  rw [readLine, not_control_of_readLine h, if_neg (by decide), ends, hnil] at h
  exact (Option.some.inj h).symm

/-- A line with a bracket in its first column is a header. -/
theorem header_of_head? (h : readLine others ln = some l) (hln : ln.head? = some '[') : ∃ path, l = .header path := by
  have hskip : (skip ln).head? = some '[' := by
    rw [List.eq_cons_of_mem_head? hln]
    rfl
  have hsame : ∀ d, (skip ln).head? = some d → d = '[' := fun d hd => Option.some.inj (hd.symm.trans hskip)
  cases lineForm h with
  | blank hends =>
    rw [ends, Bool.or_eq_true] at hends
    rcases hends with hempty | hcomment
    · rw [List.isEmpty_iff.mp hempty] at hskip
      cases hskip
    · exact absurd (hsame '#' (by simpa using hcomment)) (by decide)
  | header => exact ⟨_, rfl⟩
  | quoted hquote =>
    rcases hquote with hquote | hquote
    · exact absurd (hsame '"' hquote) (by decide)
    · exact absurd (hsame '\'' hquote) (by decide)
  | @bare key value ws ws' text hws hkey hws' hln' =>
    obtain ⟨d, key', rfl⟩ := List.exists_cons_of_ne_nil hkey.1
    have hd := hkey.2 d List.mem_cons_self
    rw [hln', skip_append hws, List.cons_append, skip_cons (isBlank_of_isBare hd)] at hskip
    obtain rfl : d = '[' := by simpa using hskip
    exact absurd hd (by decide)

theorem not_control_append {a b : Text} (ha : a.any isControl = false) (hb : b.any isControl = false) :
    (a ++ b).any isControl = false := by
  rw [List.any_append, ha, hb]
  rfl

/-- The line that remembers another has nothing in it. -/
theorem readLine_breadcrumb (h : readLine others ln = some l) : readLine others (breadcrumb ln) = some .blank := by
  have hcontrol : (breadcrumb ln).any isControl = false := by
    have hpre : ("# was: ".toList).any isControl = false := by decide
    have hpost : ("   (provision rollback)".toList).any isControl = false := by decide
    have hln := not_control_of_readLine h
    rw [List.any_eq_false] at hln
    have hstrip : (strip ln).any isControl = false := by
      rw [List.any_eq_false]
      exact fun c hc => hln c (strip_subset hc)
    exact not_control_append hpre (not_control_append hstrip hpost)
  have hends : ends (breadcrumb ln) = true := by
    have hsharp : breadcrumb ln = '#' :: (" was: ".toList ++ (strip ln ++ "   (provision rollback)".toList)) := rfl
    rw [ends, hsharp, skip_cons (by decide)]
    simp
  rw [readLine, hcontrol, hends, if_neg (by decide), if_pos rfl]

theorem settingLine_eq (k : Text) (v : Setting) :
    settingLine (k, v) = [] ++ (k ++ ([' '] ++ '=' :: ' ' :: tomlValue v)) := rfl

theorem not_control_tomlValue {v : Setting} (hv : v.Plain) : (tomlValue v).any isControl = false := by
  rw [List.any_eq_false]
  intro c hc
  cases v with
  | str s =>
    simp only [tomlValue, List.mem_cons, List.mem_append, List.not_mem_nil, or_false] at hc
    rcases hc with rfl | hc | rfl
    · decide
    · simp [(hv c hc).2.2]
    · decide
  | int n =>
    rcases mem_dumpInt hc with rfl | hdigit
    · decide
    · simp [isControl_of_isBare (by simp [isBare, Char.isAlphanum, hdigit] : isBare c = true)]
  | bool b =>
    have hboth : ("true".toList ++ "false".toList).any isControl = false := by decide
    rw [List.any_eq_false] at hboth
    refine hboth c ?_
    rw [tomlValue] at hc
    split_ifs at hc
    · exact List.mem_append_left _ hc
    · exact List.mem_append_right _ hc

theorem not_control_settingLine (hk : Bare k) {v : Setting} (hv : v.Plain) : (settingLine (k, v)).any isControl = false := by
  have hkey : k.any isControl = false := by
    rw [List.any_eq_false]
    exact fun c hc => by simp [isControl_of_isBare (hk.2 c hc)]
  have hsep : (" = ".toList).any isControl = false := by decide
  exact not_control_append hkey (not_control_append hsep (not_control_tomlValue hv))

theorem skip_tomlValue (v : Setting) : skip (' ' :: tomlValue v) = tomlValue v := by
  have hself : ∀ c ∈ (tomlValue v).head?, isBlank c = false := by
    intro c hc
    cases v with
    | str s =>
      obtain rfl : '"' = c := by simpa [tomlValue] using hc
      decide
    | int n =>
      rcases mem_dumpInt (List.mem_of_mem_head? hc) with rfl | hdigit
      · decide
      · exact isBlank_of_isBare (by simp [isBare, Char.isAlphanum, hdigit])
    | bool b =>
      cases b with
      | false =>
        obtain rfl : 'f' = c := Option.some.inj hc
        decide
      | true =>
        obtain rfl : 't' = c := Option.some.inj hc
        decide
  have hblank : skip (' ' :: tomlValue v) = skip (tomlValue v) := List.dropWhile_cons_of_pos (by decide)
  rw [hblank]
  cases htext : tomlValue v with
  | nil => rfl
  | cons c cs =>
    rw [htext] at hself
    exact skip_cons (hself c rfl)

theorem scanValue_tomlValue {v : Setting} (hv : v.Plain) : scanValue others (tomlValue v) = some (v.value, []) := by
  cases v with
  | str s => exact scanValue_str hv
  | int n => exact scanValue_int n
  | bool b => exact scanValue_bool b

/-- A setting is read as its entry. -/
theorem readLine_settingLine (hk : Bare k) {v : Setting} (hv : v.Plain) :
    readLine others (settingLine (k, v)) = some (.entry false k v.value) := by
  have hcontrol := not_control_settingLine hk hv
  rw [settingLine_eq] at hcontrol ⊢
  rw [readLine_bare others (by simp) hk (by decide) hcontrol, skip_tomlValue, scanValue_tomlValue hv]
  rfl

/-- If the first line that is written for a setting is read as it should be, the setting needs no
escapes. -/
theorem entry_of_first {first : Text} {more : List Text} (hk : Bare k) {v : Setting}
    (hsplit : (settingLine (k, v)).splitOn '\n' = first :: more) (h : readLine others first = some l) :
    ∃ w, l = .entry false k w ∧ (w = v.value → v.Plain) := by
  obtain ⟨more', hmore⟩ := splitOn_eq_cons (settingLine (k, v))
  obtain rfl : first = (settingLine (k, v)).takeWhile (· ≠ '\n') := by
    rw [hsplit] at hmore
    exact (List.cons.inj hmore).1
  have hnone : ∀ c ∈ k, decide (c ≠ '\n') = true := by
    intro c hc
    rw [decide_eq_true_eq]
    rintro rfl
    exact absurd (isControl_of_isBare (hk.2 _ hc)) (by decide)
  have hfirst : (settingLine (k, v)).takeWhile (· ≠ '\n') =
      [] ++ (k ++ ([' '] ++ '=' :: ' ' :: (tomlValue v).takeWhile (· ≠ '\n'))) := by
    rw [settingLine_eq, List.nil_append, List.takeWhile_append_of_pos hnone]
    rfl
  have hcontrol := not_control_of_readLine h
  rw [hfirst] at h hcontrol
  rw [readLine_bare others (by simp) hk (by decide) hcontrol] at h
  split at h
  · rename_i w rest hscan
    split_ifs at h
    refine ⟨w, (Option.some.inj h).symm, fun hw => ?_⟩
    cases v with
    | str s =>
      have hquote : skip (' ' :: (tomlValue (.str s)).takeWhile (· ≠ '\n')) = '"' :: (s ++ ['"']).takeWhile (· ≠ '\n') := rfl
      rw [hquote] at hscan
      have hlen : ((s ++ ['"']).takeWhile (· ≠ '\n')).length ≤ s.length + 1 := by
        have hle := (List.takeWhile_prefix (· ≠ '\n') (l := s ++ ['"'])).length_le
        simpa using hle
      obtain ⟨hpiece, hplain⟩ := plain_of_scanValue hscan hw hlen
      rw [List.any_eq_false] at hcontrol
      intro c hc
      refine ⟨(hplain c hc).1, (hplain c hc).2, ?_⟩
      have hmem : c ∈ (tomlValue (.str s)).takeWhile (· ≠ '\n') := by
        have htext : (tomlValue (.str s)).takeWhile (· ≠ '\n') = '"' :: (s ++ ['"']).takeWhile (· ≠ '\n') := rfl
        rw [htext, hpiece]
        simp [hc]
      have hline : c ∈ [] ++ (k ++ ([' '] ++ '=' :: ' ' :: (tomlValue (.str s)).takeWhile (· ≠ '\n'))) :=
        List.mem_append_right _ (List.mem_append_right _ (List.mem_append_right _
          (List.mem_cons_of_mem _ (List.mem_cons_of_mem _ hmem))))
      simpa using hcontrol c hline
    | int n => trivial
    | bool b => trivial
  · cases h

end

/-! ### The loop over the section -/

section

variable {V : Type*} {others : Text → Option (V × Text)} {rem : List (Text × Setting)} {lns : List Text} {ln k x : Text}
  {v : Setting}

/-- The lines of the section after the loop. -/
def newBody (rem : List (Text × Setting)) (lns : List Text) : List Text := (editBody rem lns).1

/-- The settings that no line of the section is for. -/
def remaining (rem : List (Text × Setting)) (lns : List Text) : List (Text × Setting) := (editBody rem lns).2.2

/-- A line is for one of the settings, or for none. -/
theorem line_cases (rem : List (Text × Setting)) (ln : Text) :
    (∃ k v, lineKey ln = some k ∧ rem.lookup k = some v) ∨ ∀ k, lineKey ln = some k → k ∉ rem.map Prod.fst := by
  cases hkey : lineKey ln with
  | none => exact .inr fun k h => by cases h
  | some k =>
    cases hlookup : rem.lookup k with
    | none =>
      refine .inr fun k' h => ?_
      obtain rfl := Option.some.inj h
      exact Assoc.lookup_eq_none_iff.mp hlookup
    | some v => exact .inl ⟨k, v, rfl, hlookup⟩

theorem editBody_of_lookup (lns : List Text) (hkey : lineKey ln = some k) (hlookup : rem.lookup k = some v) :
    newBody rem (ln :: lns) = crumbs ln (k, v) ++ settingLine (k, v) :: newBody (Assoc.without k rem) lns ∧
      remaining rem (ln :: lns) = remaining (Assoc.without k rem) lns := by
  simp [newBody, remaining, editBody, hkey, hlookup]

theorem editBody_of_notMem (lns : List Text) (h : ∀ k, lineKey ln = some k → k ∉ rem.map Prod.fst) :
    newBody rem (ln :: lns) = ln :: newBody rem lns ∧ remaining rem (ln :: lns) = remaining rem lns := by
  have hnone : ((lineKey ln).bind fun k => (rem.lookup k).map fun v => (k, v)) = none := by
    rw [Option.bind_eq_none_iff]
    intro k hk
    rw [Assoc.lookup_eq_none_iff.mpr (h k hk)]
    rfl
  simp [newBody, remaining, editBody, hnone]

theorem editBody_append (rem : List (Text × Setting)) (xs ys : List Text) :
    newBody rem (xs ++ ys) = newBody rem xs ++ newBody (remaining rem xs) ys ∧
      remaining rem (xs ++ ys) = remaining (remaining rem xs) ys := by
  induction xs generalizing rem with
  | nil => exact ⟨rfl, rfl⟩
  | cons ln xs ih =>
    rw [List.cons_append]
    rcases line_cases rem ln with ⟨k, v, hkey, hlookup⟩ | hnone
    · obtain ⟨hbody, hrest⟩ := editBody_of_lookup (xs ++ ys) hkey hlookup
      obtain ⟨hbody', hrest'⟩ := editBody_of_lookup xs hkey hlookup
      rw [hbody, hrest, hbody', hrest', (ih _).1, (ih _).2]
      exact ⟨by simp, rfl⟩
    · obtain ⟨hbody, hrest⟩ := editBody_of_notMem (xs ++ ys) hnone
      obtain ⟨hbody', hrest'⟩ := editBody_of_notMem xs hnone
      rw [hbody, hrest, hbody', hrest', (ih _).1, (ih _).2]
      exact ⟨rfl, rfl⟩

theorem editBody_nil_settings (lns : List Text) : newBody [] lns = lns ∧ remaining [] lns = [] := by
  induction lns with
  | nil => exact ⟨rfl, rfl⟩
  | cons ln lns ih =>
    obtain ⟨hbody, hrest⟩ := @editBody_of_notMem [] ln lns (by simp)
    rw [hbody, hrest, ih.1, ih.2]
    exact ⟨rfl, rfl⟩

/-- What the loop leaves of the section. -/
theorem mem_newBody (h : x ∈ newBody rem lns) :
    x ∈ lns ∨ (∃ ln ∈ lns, x = breadcrumb ln) ∨ ∃ s ∈ rem, x = settingLine s ∧ ∃ ln ∈ lns, lineKey ln = some s.1 := by
  induction lns generalizing rem with
  | nil => cases h
  | cons ln lns ih =>
    have hmono : ∀ {rem'}, (∀ s ∈ rem', s ∈ rem) → x ∈ newBody rem' lns → x ∈ ln :: lns ∨
        (∃ ln' ∈ ln :: lns, x = breadcrumb ln') ∨ ∃ s ∈ rem, x = settingLine s ∧ ∃ ln' ∈ ln :: lns, lineKey ln' = some s.1 := by
      intro rem' hsub hmem
      rcases ih hmem with hx | ⟨ln', hln', hx⟩ | ⟨s, hs, hx, ln', hln', hkey⟩
      · exact .inl (List.mem_cons_of_mem _ hx)
      · exact .inr (.inl ⟨ln', List.mem_cons_of_mem _ hln', hx⟩)
      · exact .inr (.inr ⟨s, hsub s hs, hx, ln', List.mem_cons_of_mem _ hln', hkey⟩)
    rcases line_cases rem ln with ⟨k, v, hkey, hlookup⟩ | hnone
    · rw [(editBody_of_lookup lns hkey hlookup).1, List.mem_append, List.mem_cons] at h
      rcases h with hcrumb | rfl | hmem
      · rw [crumbs] at hcrumb
        split_ifs at hcrumb
        · exact .inr (.inl ⟨ln, List.mem_cons_self, List.mem_singleton.mp hcrumb⟩)
        · cases hcrumb
      · exact .inr (.inr ⟨(k, v), Assoc.mem_of_lookup hlookup, rfl, ln, List.mem_cons_self, hkey⟩)
      · exact hmono (fun s hs => (Assoc.mem_without.mp hs).1) hmem
    · rw [(editBody_of_notMem lns hnone).1] at h
      rcases List.mem_cons.mp h with rfl | hmem
      · exact .inl List.mem_cons_self
      · exact hmono (fun s hs => hs) hmem

/-- A line that is for no setting stays. -/
theorem mem_newBody_of_mem (h : x ∈ lns) (hkey : ∀ k, lineKey x = some k → k ∉ rem.map Prod.fst) : x ∈ newBody rem lns := by
  induction lns generalizing rem with
  | nil => cases h
  | cons ln lns ih =>
    rcases line_cases rem ln with ⟨k, v, hln, hlookup⟩ | hnone
    · rw [(editBody_of_lookup lns hln hlookup).1]
      rcases List.mem_cons.mp h with rfl | h
      · exact absurd (Assoc.mem_keys_of_mem (Assoc.mem_of_lookup hlookup)) (hkey k hln)
      · have hrest : x ∈ newBody (Assoc.without k rem) lns :=
          ih h fun k' hk' hmem => hkey k' hk' (Assoc.mem_keys_without.mp hmem).1
        exact List.mem_append_right _ (List.mem_cons_of_mem _ hrest)
    · rw [(editBody_of_notMem lns hnone).1]
      rcases List.mem_cons.mp h with rfl | h
      · exact List.mem_cons_self
      · exact List.mem_cons_of_mem _ (ih h hkey)

/-- A setting remains, or is written in the loop. -/
theorem mem_remaining_or (lns : List Text) {s : Text × Setting} (hnodup : (rem.map Prod.fst).Nodup) (h : s ∈ rem) :
    s ∈ remaining rem lns ∨ settingLine s ∈ newBody rem lns := by
  induction lns generalizing rem with
  | nil => exact .inl h
  | cons ln lns ih =>
    rcases line_cases rem ln with ⟨k, v, hkey, hlookup⟩ | hnone
    · obtain ⟨hbody, hrest⟩ := editBody_of_lookup lns hkey hlookup
      rw [hbody, hrest]
      by_cases hs : s.1 = k
      · subst hs
        rw [Assoc.eq_of_mem hnodup (Assoc.mem_of_lookup hlookup) h]
        exact .inr (List.mem_append_right _ List.mem_cons_self)
      · rcases ih (Assoc.nodup_without hnodup) (Assoc.mem_without.mpr ⟨h, hs⟩) with hmem | hmem
        · exact .inl hmem
        · exact .inr (List.mem_append_right _ (List.mem_cons_of_mem _ hmem))
    · obtain ⟨hbody, hrest⟩ := editBody_of_notMem lns hnone
      rw [hbody, hrest]
      rcases ih hnodup h with hmem | hmem
      · exact .inl hmem
      · exact .inr (List.mem_cons_of_mem _ hmem)

/-- No line is for a setting that remains. -/
theorem of_mem_remaining {s : Text × Setting} (h : s ∈ remaining rem lns) :
    s ∈ rem ∧ ∀ ln ∈ lns, lineKey ln ≠ some s.1 := by
  induction lns generalizing rem with
  | nil => exact ⟨h, by simp⟩
  | cons ln lns ih =>
    rcases line_cases rem ln with ⟨k, v, hkey, hlookup⟩ | hnone
    · rw [(editBody_of_lookup lns hkey hlookup).2] at h
      obtain ⟨hs, hlns⟩ := ih h
      obtain ⟨hs, hne⟩ := Assoc.mem_without.mp hs
      refine ⟨hs, fun ln' hln' => ?_⟩
      rcases List.mem_cons.mp hln' with rfl | hln'
      · rw [hkey]
        exact fun heq => hne (Option.some.inj heq).symm
      · exact hlns ln' hln'
    · rw [(editBody_of_notMem lns hnone).2] at h
      obtain ⟨hs, hlns⟩ := ih h
      refine ⟨hs, fun ln' hln' => ?_⟩
      rcases List.mem_cons.mp hln' with rfl | hln'
      · exact fun heq => hnone _ heq (Assoc.mem_keys_of_mem hs)
      · exact hlns ln' hln'

theorem map_fst_settingEntries (kv : List (Text × Setting)) :
    (settingEntries kv : List (Text × Value V)).map Prod.fst = kv.map Prod.fst := by
  rw [settingEntries, List.map_map]
  rfl

theorem lookup_settingEntries (h : rem.lookup k = some v) : (settingEntries rem : List (Text × Value V)).lookup k = some v.value := by
  induction rem with
  | nil => cases h
  | cons s rem ih =>
    rw [List.lookup_cons] at h
    have hcons : settingEntries (V := V) (s :: rem) = (s.1, s.2.value) :: settingEntries rem := rfl
    rw [hcons, List.lookup_cons]
    split at h
    · rw [Option.some.inj h]
    · exact ih h

theorem settingEntries_without : (settingEntries (Assoc.without k rem) : List (Text × Value V)) =
    Assoc.without k (settingEntries rem) := by
  rw [settingEntries, settingEntries, Assoc.without, Assoc.without, List.filter_map]
  rfl

/-! ### The loop, as TOML sees it -/

variable {ls : List (Line V)} {l : Line V}

theorem readAll_crumbs (h : readLine others ln = some l) (s : Text × Setting) :
    ∃ c, readAll others (crumbs ln s) = some c ∧ Flat c ∧ entries c = [] := by
  rw [crumbs]
  split_ifs
  · exact ⟨[.blank], readAll_cons.mpr ⟨_, [], readLine_breadcrumb h, rfl, rfl⟩, by simp [Flat], rfl⟩
  · exact ⟨[], rfl, by simp [Flat], rfl⟩

theorem readAll_settings (hbare : ∀ s ∈ rem, Bare s.1) (hplain : ∀ s ∈ rem, s.2.Plain) :
    ∃ m : List (Line V), readAll others (rem.map settingLine) = some m ∧ Flat m ∧ entries m = settingEntries rem := by
  induction rem with
  | nil => exact ⟨[], rfl, by simp [Flat], rfl⟩
  | cons s rem ih =>
    obtain ⟨m, hread, hflat, hentries⟩ := ih (fun t ht => hbare t (List.mem_cons_of_mem s ht))
      fun t ht => hplain t (List.mem_cons_of_mem s ht)
    have hs : readLine others (settingLine s) = some (.entry false s.1 s.2.value) :=
      readLine_settingLine (hbare s List.mem_cons_self) (hplain s List.mem_cons_self)
    refine ⟨_, readAll_cons.mpr ⟨_, _, hs, hread, rfl⟩, fun path hmem => ?_, ?_⟩
    · rcases List.mem_cons.mp hmem with heq | hmem
      · cases heq
      · exact hflat path hmem
    · exact congrArg ((s.1, s.2.value) :: ·) hentries

/-- **What the loop does**: the settings take the place of the entries with their keys, and those
without an entry remain. -/
theorem readAll_newBody (hread : readAll others lns = some ls) (hflat : Flat ls) (hnodup : ((entries ls).map Prod.fst).Nodup)
    (hbare : ∀ s ∈ rem, Bare s.1) (hplain : ∀ s ∈ rem, s.2.Plain) (hunquoted : ∀ s ∈ rem, ∀ v, .entry true s.1 v ∉ ls) :
    ∃ m, readAll others (newBody rem lns) = some m ∧ Flat m ∧ entries m = Assoc.override (settingEntries rem) (entries ls) ∧
      settingEntries (remaining rem lns) = Assoc.missing (settingEntries rem) (entries ls) := by
  induction lns generalizing rem ls with
  | nil =>
    obtain rfl := Option.some.inj hread
    exact ⟨[], rfl, by simp [Flat], rfl, Assoc.missing_nil.symm⟩
  | cons ln lns ih =>
    obtain ⟨l, ls', hl, hls, rfl⟩ := readAll_cons.mp hread
    have hunquoted' : ∀ s ∈ rem, ∀ v, .entry true s.1 v ∉ ls' := fun s hs v hmem =>
      hunquoted s hs v (List.mem_cons_of_mem l hmem)
    rcases line_cases rem ln with ⟨k, v, hkey, hlookup⟩ | hnone
    · have hmem := Assoc.mem_of_lookup hlookup
      obtain ⟨w, rfl⟩ := entry_of_lineKey hl hkey (hbare _ hmem)
      have hcons : entries (.entry false k w :: ls') = (k, w) :: entries ls' := rfl
      rw [hcons, List.map_cons, List.nodup_cons] at hnodup
      obtain ⟨hbody, hrest⟩ := editBody_of_lookup lns hkey hlookup
      obtain ⟨m, hm, hflatm, hentries, hremaining⟩ := @ih (Assoc.without k rem) ls' hls hflat.of_cons hnodup.2
        (fun s hs => hbare s (Assoc.mem_without.mp hs).1) (fun s hs => hplain s (Assoc.mem_without.mp hs).1)
        fun s hs => hunquoted' s (Assoc.mem_without.mp hs).1
      obtain ⟨c, hc, hflatc, hentriesc⟩ := readAll_crumbs hl (k, v)
      have hsetting : readLine others (settingLine (k, v)) = some (.entry false k v.value) :=
        readLine_settingLine (hbare _ hmem) (hplain _ hmem)
      rw [settingEntries_without] at hentries hremaining
      rw [hbody, hrest, hcons, Assoc.override_cons_of_lookup (lookup_settingEntries hlookup)]
      refine ⟨c ++ .entry false k v.value :: m, readAll_append.mpr ⟨c, _, hc, readAll_cons.mpr ⟨_, m, hsetting, hm, rfl⟩, rfl⟩,
        ?_, ?_, ?_⟩
      · refine hflatc.append fun path hpath => ?_
        rcases List.mem_cons.mp hpath with heq | hpath
        · cases heq
        · exact hflatm path hpath
      · rw [entries, List.filterMap_append, ← entries, hentriesc, ← Assoc.override_without hnodup.1, ← hentries]
        rfl
      · rw [hremaining, Assoc.missing_without]
    · obtain ⟨hbody, hrest⟩ := editBody_of_notMem lns hnone
      have hnodup' : ((entries ls').map Prod.fst).Nodup := by
        refine hnodup.sublist (List.Sublist.map _ ?_)
        exact List.Sublist.filterMap _ (List.sublist_cons_self l ls')
      obtain ⟨m, hm, hflatm, hentries, hremaining⟩ := ih hls hflat.of_cons hnodup' hbare hplain hunquoted'
      rw [hbody, hrest]
      refine ⟨l :: m, readAll_cons.mpr ⟨l, m, hl, hm, rfl⟩, fun path hpath => ?_, ?_⟩
      · rcases List.mem_cons.mp hpath with rfl | hpath
        · exact hflat path List.mem_cons_self
        · exact hflatm path hpath
      · cases l with
        | blank => exact ⟨hentries, hremaining⟩
        | header path => exact absurd List.mem_cons_self (hflat path)
        | entry q k w =>
          have hk : k ∉ (settingEntries rem : List (Text × Value V)).map Prod.fst := by
            rw [map_fst_settingEntries]
            cases q with
            | false => exact hnone k (lineKey_bare hl)
            | true =>
              intro hmem
              obtain ⟨s, hs, rfl⟩ := List.mem_map.mp hmem
              exact hunquoted s hs w List.mem_cons_self
          have hcons : ∀ m, entries (.entry q k w :: m) = (k, w) :: entries m := fun m => rfl
          rw [hcons, hcons, hentries, hremaining, Assoc.override_cons_of_notMem hk, Assoc.missing_cons_of_notMem hk]
          exact ⟨rfl, rfl⟩

/-! ### The text that is written -/

/-- What the edit may leave in a section: a line that is no header, or a setting. -/
def Written (others : Text → Option (V × Text)) (kv : List (Text × Setting)) (x : Text) : Prop :=
  (∃ l, readLine others x = some l ∧ ∀ path, l ≠ .header path) ∨ ∃ s ∈ kv, x = settingLine s

theorem mem_items_cons {path : List Text} (hl : ∀ q, l ≠ .header q) {i : Item V} (h : i ∈ items path ls) :
    i ∈ items path (l :: ls) := by
  cases l with
  | blank => exact h
  | header q => exact absurd rfl (hl q)
  | entry => exact List.mem_cons_of_mem _ h

/-- If the entries that are read from a section have the values that were set, the settings in it
need no escapes. -/
theorem plain_of_written {lines : List Text} (path : List Text) (hwritten : ∀ x ∈ lines, Written others rem x)
    (hbare : ∀ s ∈ rem, Bare s.1) (hread : readAll others (lines.flatMap (·.splitOn '\n')) = some ls)
    (hvalues : ∀ s ∈ rem, ∀ w, .value path s.1 w ∈ items path ls → w = s.2.value) :
    (∀ s ∈ rem, settingLine s ∈ lines → s.2.Plain) ∧ readAll others lines = some ls ∧ Flat ls := by
  induction lines generalizing ls with
  | nil =>
    obtain rfl := Option.some.inj hread
    exact ⟨by simp, rfl, by simp [Flat]⟩
  | cons x lines ih =>
    rw [List.flatMap_cons, readAll_append] at hread
    obtain ⟨a, b, ha, hb, rfl⟩ := hread
    have hfirst : ∀ s ∈ rem, settingLine s = x → s.2.Plain := by
      rintro s hs rfl
      obtain ⟨more, hsplit⟩ := splitOn_eq_cons (settingLine s)
      rw [hsplit, readAll_cons] at ha
      obtain ⟨l, a', hl, -, rfl⟩ := ha
      obtain ⟨w, rfl, hw⟩ := entry_of_first (hbare s hs) hsplit hl
      exact hw (hvalues s hs w List.mem_cons_self)
    have hline : ∃ l, readLine others x = some l ∧ ∀ q, l ≠ .header q := by
      rcases hwritten x List.mem_cons_self with h | ⟨s, hs, rfl⟩
      · exact h
      · exact ⟨_, readLine_settingLine (hbare s hs) (hfirst s hs rfl), by simp⟩
    obtain ⟨l, hl, hnot⟩ := hline
    obtain rfl : a = [l] := by
      rw [splitOn_of_readLine hl, readAll_cons] at ha
      obtain ⟨l', a', hl', ha', rfl⟩ := ha
      rw [hl] at hl'
      rw [← Option.some.inj hl', ← Option.some.inj ha']
    obtain ⟨hplain, hread, hflat⟩ := ih (fun y hy => hwritten y (List.mem_cons_of_mem x hy)) hb
      fun s hs w hw => hvalues s hs w (mem_items_cons hnot hw)
    refine ⟨fun s hs hmem => ?_, readAll_cons.mpr ⟨l, b, hl, hread, rfl⟩, fun path hmem => ?_⟩
    · rcases List.mem_cons.mp hmem with heq | hmem
      · exact hfirst s hs heq
      · exact hplain s hs hmem
    · rcases List.mem_cons.mp hmem with heq | hmem
      · exact hnot path heq.symm
      · exact hflat path hmem

variable {kv : List (Text × Setting)} {pre mid post : List Text} {header osTag : Text} {p own after m : List (Line V)}
  {is is' : List (Item V)}

theorem flatMap_section (hpre : readAll others pre = some p) (hheader : readLine others header = some l) :
    (pre ++ header :: (mid ++ post)).flatMap (·.splitOn '\n') =
      pre ++ header :: (mid.flatMap (·.splitOn '\n') ++ post.flatMap (·.splitOn '\n')) := by
  rw [List.flatMap_append, List.flatMap_cons, List.flatMap_append, flatMap_splitOn_of_readAll hpre,
    splitOn_of_readLine hheader]
  rfl

/-- A section in which the settings are written as they should be. -/
theorem overrides_of_section (hpre : readAll others pre = some p) (hheader : readLine others header = some (.header [osTag]))
    (hmid : readAll others mid = some m) (hpost : readAll others post = some after) (hflat : Flat m) (hopens : Opens after)
    (hown : Flat own) (hentries : entries m = Assoc.override (settingEntries kv) (entries own) ++
      Assoc.missing (settingEntries kv) (entries own))
    (hnodup : (kv.map Prod.fst).Nodup) (hvalid : Valid is)
    (his : is = items [] (p ++ .header [osTag] :: (own ++ after)) ∨
      is = items [] p ∧ own = [] ∧ after = [] ∧ .table [osTag] ∉ is)
    (hnotValue : ∀ v, .value [] osTag v ∉ is) (hnotTable : ∀ s ∈ kv, ¬ HasTable is [osTag, s.1]) :
    ∃ is', parseLines others ((pre ++ header :: (mid ++ post)).flatMap (·.splitOn '\n')) = some is' ∧
      Overrides [osTag] (settingEntries kv) is is' := by
  have hkeys : ((settingEntries kv : List (Text × Value V)).map Prod.fst).Nodup := by
    rw [map_fst_settingEntries]
    exact hnodup
  have hwithin : ∀ {a : List (Line V)}, Flat a → Within [osTag] (items [osTag] a) := by
    intro a ha i hi
    rw [ha.items_eq] at hi
    obtain ⟨x, -, rfl⟩ := List.mem_map.mp hi
    exact ⟨x.1, x.2, rfl⟩
  have hparts : ∃ table, (table = [.table [osTag]] ∨ table = [] ∧ items [osTag] own = [] ∧ items [osTag] after = []) ∧
      is = items [] p ++ (table ++ (items [osTag] own ++ items [osTag] after)) ∧
      Parts osTag (items [] p) (items [osTag] own) (items [osTag] after) := by
    rcases his with rfl | ⟨rfl, rfl, rfl, hnone⟩
    · exact ⟨[.table [osTag]], .inl rfl, items_section osTag hown, parts_of_lines hown hopens hvalid⟩
    · refine ⟨[], .inr ⟨rfl, rfl, rfl⟩, by simp [items], hnone, fun p k v hmem => mem_items_value hmem, ?_, ?_, ?_⟩
      · intro i hi
        cases hi
      · intro p k v hmem
        cases hmem
      · intro hmem
        cases hmem
  obtain ⟨table, htable, rfl, hparts⟩ := hparts
  have hvalues : ∀ k v, .value [osTag] k v ∈ items [osTag] m ↔ if k ∈ (settingEntries kv : List (Text × Value V)).map Prod.fst
      then (k, v) ∈ settingEntries kv else .value [osTag] k v ∈ items [osTag] own := by
    intro k v
    rw [hflat.mem_items_iff, hown.mem_items_iff, hentries, Assoc.mem_override_append_missing hkeys]
    simp
  have hnew : ((items [osTag] m).filterMap Item.valuePath).Nodup := by
    have hownNodup : ((entries own).map Prod.fst).Nodup := by
      have hvaluesNodup := hvalid.values
      rw [List.filterMap_append, List.filterMap_append, List.filterMap_append, List.nodup_append', List.nodup_append',
        List.nodup_append', hown.valuePaths_eq] at hvaluesNodup
      exact hvaluesNodup.2.1.2.1.1.of_map _
    rw [hflat.valuePaths_eq, hentries]
    refine (Assoc.nodup_override_append_missing hkeys hownNodup).map fun a b hab => ?_
    simpa using hab
  obtain ⟨hvalid', hoverrides⟩ := hparts.overrides htable (hwithin hflat) hvalues hvalid hnew hnotValue (by
    intro k hk
    rw [map_fst_settingEntries] at hk
    obtain ⟨s, hs, rfl⟩ := List.mem_map.mp hk
    exact hnotTable s hs)
  refine ⟨_, parseLines_eq_some.mpr ⟨p ++ .header [osTag] :: (m ++ after), ?_, items_section osTag hflat, hvalid'⟩, hoverrides⟩
  rw [flatMap_section hpre hheader, flatMap_splitOn_of_readAll hmid, flatMap_splitOn_of_readAll hpost]
  exact readAll_append.mpr ⟨p, _, hpre, readAll_cons.mpr ⟨_, _, hheader, readAll_append.mpr ⟨m, after, hmid, hpost, rfl⟩, rfl⟩, rfl⟩

/-- A section that is read as it should be. -/
theorem section_of_overrides (hpre : readAll others pre = some p) (hheader : readLine others header = some (.header [osTag]))
    (hmid : ∀ x ∈ mid, Written others kv x)
    (hpost : post = [] ∨ ∃ h more path, post = h :: more ∧ readLine others h = some (.header path))
    (hbare : ∀ s ∈ kv, Bare s.1) (hnodup : (kv.map Prod.fst).Nodup)
    (hparse : parseLines others ((pre ++ header :: (mid ++ post)).flatMap (·.splitOn '\n')) = some is')
    (hover : Overrides [osTag] (settingEntries kv) is is') :
    ∃ m, readAll others mid = some m ∧ ((entries m).map Prod.fst).Nodup ∧ (∀ s ∈ kv, settingLine s ∈ mid → s.2.Plain) ∧
      (∀ s ∈ kv, (s.1, s.2.value) ∈ entries m) ∧ .table [osTag] ∉ items [] p := by
  rw [flatMap_section hpre hheader, parseLines_eq_some] at hparse
  obtain ⟨ls, hread, rfl, hvalid⟩ := hparse
  obtain ⟨p', rest, hp', hrest, rfl⟩ := readAll_append.mp hread
  obtain rfl := Option.some.inj (hpre.symm.trans hp')
  obtain ⟨l', rest', hl', hrest', rfl⟩ := readAll_cons.mp hrest
  obtain rfl := Option.some.inj (hheader.symm.trans hl')
  obtain ⟨m, after, hm, hafter, rfl⟩ := readAll_append.mp hrest'
  have hopens : Opens after := by
    rcases hpost with rfl | ⟨h, more, path, rfl, hh⟩
    · exact .inl (Option.some.inj hafter).symm
    · rw [List.flatMap_cons, splitOn_of_readLine hh, List.singleton_append, readAll_cons] at hafter
      obtain ⟨l, ls, hl, -, rfl⟩ := hafter
      exact .inr ⟨path, ls, by rw [Option.some.inj (hh.symm.trans hl)]⟩
  have hvalue : ∀ s ∈ kv, ∀ w, .value [osTag] s.1 w ∈ items [] (p ++ .header [osTag] :: (m ++ after)) ↔ w = s.2.value := by
    intro s hs w
    have hkey : s.1 ∈ (settingEntries kv : List (Text × Value V)).map Prod.fst := by
      rw [map_fst_settingEntries]
      exact List.mem_map_of_mem hs
    have hentry : (s.1, s.2.value) ∈ (settingEntries kv : List (Text × Value V)) :=
      List.mem_map_of_mem (f := fun s : Text × Setting => (s.1, s.2.value)) hs
    rw [hover.values, if_pos ⟨rfl, hkey⟩]
    constructor
    · intro hw
      refine Assoc.eq_of_mem ?_ hw hentry
      rw [map_fst_settingEntries]
      exact hnodup
    · rintro rfl
      exact hentry
  obtain ⟨hplain, hreadMid, hflat⟩ := plain_of_written [osTag] hmid hbare hm fun s hs w hw => by
    rw [← hvalue s hs w, items_append, items, items_append]
    exact List.mem_append_right _ (List.mem_cons_of_mem _ (List.mem_append_left _ hw))
  have hparts := parts_of_lines hflat hopens hvalid
  rw [items_section osTag hflat] at hvalue
  refine ⟨m, hreadMid, ?_, hplain, fun s hs => ?_, hparts.table_before⟩
  · exact nodup_entries_of_valid hflat hvalid
  · have hmem := (hvalue s hs _).mpr rfl
    rcases List.mem_append.mp hmem with hbefore | hmem
    · exact absurd rfl (hparts.ne_of_mem (.inl hbefore))
    · rcases List.mem_cons.mp hmem with heq | hmem
      · cases heq
      · rcases List.mem_append.mp hmem with hown | hafter
        · exact (hflat.mem_items_iff.mp hown).2
        · exact absurd rfl (hparts.ne_of_mem (.inr hafter))

/-! ### The parts of the text -/

/-- Blank lines at the end stand after the last line that is none. -/
theorem rdropWhile_append_cons {a : Type*} (f : a → Bool) (xs : List a) {y : a} (hy : f y = false) (ys : List a) :
    (xs ++ y :: ys).rdropWhile f = xs ++ y :: ys.rdropWhile f ∧ (xs ++ y :: ys).rtakeWhile f = ys.rtakeWhile f := by
  induction ys using List.reverseRecOn with
  | nil => exact ⟨List.rdropWhile_concat_neg f xs y (by simp [hy]), List.rtakeWhile_concat_neg f xs y (by simp [hy])⟩
  | append_singleton ys z ih =>
    have hassoc : xs ++ y :: (ys ++ [z]) = (xs ++ y :: ys) ++ [z] := by simp
    rw [hassoc]
    by_cases hz : f z = true
    · rw [List.rdropWhile_concat_pos f _ z hz, List.rdropWhile_concat_pos f _ z hz, List.rtakeWhile_concat_pos f _ z hz,
        List.rtakeWhile_concat_pos f _ z hz, ih.1, ih.2]
      exact ⟨rfl, rfl⟩
    · rw [List.rdropWhile_concat_neg f _ z hz, List.rdropWhile_concat_neg f _ z hz, List.rtakeWhile_concat_neg f _ z hz,
        List.rtakeWhile_concat_neg f _ z hz]
      exact ⟨hassoc.symm, rfl⟩

variable {lines : List Text}

theorem wireLines_missing (kv : List (Text × Setting)) (h : ∀ ln ∈ lines, strip ln ≠ sectionOf osTag) :
    ∃ gap, (gap = [] ∨ gap = [[]]) ∧
      (wireLines osTag kv lines).1 = (lines ++ gap) ++ sectionOf osTag :: (kv.map settingLine ++ []) := by
  have hnone : (lines.dropWhile fun ln => strip ln ≠ sectionOf osTag) = [] :=
    List.dropWhile_eq_nil_iff.mpr (by simpa using h)
  refine ⟨if lines.getLast?.any fun ln => !isBlankLine ln then [[]] else [], ?_, ?_⟩
  · split_ifs
    · exact .inr rfl
    · exact .inl rfl
  · rw [wireLines, hnone, List.append_nil]

theorem wireLines_found (kv : List (Text × Setting)) (h : ∃ ln ∈ lines, strip ln = sectionOf osTag) :
    ∃ pre header post, strip header = sectionOf osTag ∧ lines = pre ++ header :: (sectionBody osTag lines ++ post) ∧
      (post = [] ∨ ∃ ln more, post = ln :: more ∧ ln.head? = some '[') ∧
      (wireLines osTag kv lines).1 = pre ++ header :: ((newBody kv (sectionBody osTag lines)).rdropWhile isBlankLine ++
        (remaining kv (sectionBody osTag lines)).map settingLine ++
          (newBody kv (sectionBody osTag lines)).rtakeWhile isBlankLine ++ post) := by
  cases hdrop : lines.dropWhile fun ln => strip ln ≠ sectionOf osTag with
  | nil =>
    obtain ⟨ln, hln, hstrip⟩ := h
    have hne := List.dropWhile_eq_nil_iff.mp hdrop ln hln
    simp [hstrip] at hne
  | cons header rest =>
    have hbody : sectionBody osTag lines = rest.takeWhile fun ln => ln.head? ≠ some '[' := by
      rw [sectionBody, hdrop, List.tail_cons]
    have hheader := List.head?_dropWhile_not (fun ln => decide (strip ln ≠ sectionOf osTag)) lines
    rw [hdrop] at hheader
    refine ⟨lines.takeWhile fun ln => strip ln ≠ sectionOf osTag, header, rest.dropWhile fun ln => ln.head? ≠ some '[',
      by simpa using hheader, ?_, ?_, ?_⟩
    · rw [hbody, List.takeWhile_append_dropWhile, ← hdrop, List.takeWhile_append_dropWhile]
    · cases hpost : rest.dropWhile fun ln => ln.head? ≠ some '[' with
      | nil => exact .inl rfl
      | cons ln more =>
        have hhead := List.head?_dropWhile_not (fun ln : Text => decide (ln.head? ≠ some '[')) rest
        rw [hpost] at hhead
        exact .inr ⟨ln, more, rfl, by simpa using hhead⟩
    · rw [wireLines, hdrop, hbody]
      simp [newBody, remaining]

theorem isHeader_iff {ln : Text} : isHeader others ln = true ↔ ∃ path, readLine others ln = some (.header path) := by
  rw [isHeader]
  split
  · rename_i path hread
    exact ⟨fun _ => ⟨path, hread⟩, fun _ => rfl⟩
  · rename_i hnot
    constructor
    · intro h
      cases h
    · rintro ⟨path, hread⟩
      exact absurd hread (hnot path)

/-- There are no lines, or a header comes first. -/
def HeaderFirst (others : Text → Option (V × Text)) (lines : List Text) : Prop :=
  lines = [] ∨ ∃ ln more path, lines = ln :: more ∧ readLine others ln = some (.header path)

/-- The parts of the lines before and after the edit. -/
structure Edited (others : Text → Option (V × Text)) (osTag : Text) (kv : List (Text × Setting))
    (lines pre : List Text) (header : Text) (own mid post post' : List Text) : Prop where
  strip_header : strip header = sectionOf osTag
  lines_eq : lines = pre ++ header :: (own ++ post)
  own_flat : ∀ ln ∈ own, isHeader others ln = false
  wire : (wireLines osTag kv lines).1 = pre ++ header :: (mid ++ post')
  post_first : HeaderFirst others post
  post_first' : HeaderFirst others post'
  /-- The section that is edited is the table, or there is a header in it. -/
  parts : own = sectionBody osTag lines ∧ post' = post ∧ mid = (newBody kv own).rdropWhile isBlankLine ++
      (remaining kv own).map settingLine ++ (newBody kv own).rtakeWhile isBlankLine ∨
    own ≠ sectionBody osTag lines ∧ mid = newBody kv own ∧ (remaining kv own = [] → post' = post)

theorem exists_edited (hread : readAll others lines = some ls) (hbare : ∀ s ∈ kv, Bare s.1)
    (h : ∃ ln ∈ lines, strip ln = sectionOf osTag) :
    ∃ pre header mid post post', Edited others osTag kv lines pre header (ownLines others osTag lines) mid post post' := by
  obtain ⟨pre, header, post, hheader, hlines, hpost, hwire⟩ := wireLines_found kv h
  have hreadable : ∀ ln ∈ lines, ∃ l, readLine others ln = some l := by
    exact readable_of_readAll hread
  have hpostFirst : HeaderFirst others post := by
    rcases hpost with rfl | ⟨ln, more, rfl, hhead⟩
    · exact .inl rfl
    · obtain ⟨l, hl⟩ := hreadable ln (by rw [hlines]; simp)
      obtain ⟨path, rfl⟩ := header_of_head? hl hhead
      exact .inr ⟨ln, more, path, rfl, hl⟩
  have hown : ∀ ln ∈ ownLines others osTag lines, isHeader others ln = false := fun ln hln => by
    simpa using List.mem_takeWhile_imp hln
  have hbody : sectionBody osTag lines =
      ownLines others osTag lines ++ (sectionBody osTag lines).dropWhile fun ln => !isHeader others ln :=
    List.takeWhile_append_dropWhile.symm
  cases hover : (sectionBody osTag lines).dropWhile fun ln => !isHeader others ln with
  | nil =>
    rw [hover, List.append_nil] at hbody
    rw [hbody] at hlines hwire
    exact ⟨pre, header, _, post, post, hheader, hlines, hown, hwire, hpostFirst, hpostFirst, .inl ⟨hbody.symm, rfl, rfl⟩⟩
  | cons first more =>
    rw [hover] at hbody
    have hheaderFirst : isHeader others first = true := by
      have hfirst := List.head?_dropWhile_not (fun ln => !isHeader others ln) (sectionBody osTag lines)
      rw [hover] at hfirst
      simpa using hfirst
    obtain ⟨path, hfirst⟩ := isHeader_iff.mp hheaderFirst
    have hnotKey : ∀ k, lineKey first = some k → k ∉ (remaining kv (ownLines others osTag lines)).map Prod.fst := by
      intro k hkey hmem
      obtain ⟨s, hs, rfl⟩ := List.mem_map.mp hmem
      obtain ⟨v, heq⟩ := entry_of_lineKey hfirst hkey (hbare s (of_mem_remaining hs).1)
      cases heq
    have hnotBlank : isBlankLine first = false := by
      by_contra hblank
      rw [Bool.not_eq_false] at hblank
      cases blank_of_isBlankLine hfirst hblank
    obtain ⟨hnew, hrem⟩ := editBody_append kv (ownLines others osTag lines) (first :: more)
    obtain ⟨hnew', hrem'⟩ := editBody_of_notMem more hnotKey
    obtain ⟨hdrop, htake⟩ := rdropWhile_append_cons isBlankLine (newBody kv (ownLines others osTag lines)) hnotBlank
      (newBody (remaining kv (ownLines others osTag lines)) more)
    rw [hbody, hnew, hrem, hnew', hrem', hdrop, htake] at hwire
    rw [hbody] at hlines
    refine ⟨pre, header, newBody kv (ownLines others osTag lines), first :: (more ++ post), _, hheader, ?_, hown,
      by simpa using hwire, .inr ⟨first, more ++ post, path, rfl, hfirst⟩, .inr ⟨first, _, path, rfl, hfirst⟩,
      .inr ⟨fun heq => ?_, rfl, fun hnil => ?_⟩⟩
    · refine hlines.trans ?_
      simp
    · have hlen := congrArg List.length hbody
      rw [← heq] at hlen
      simp at hlen
    · obtain ⟨hsame, hnone⟩ := editBody_nil_settings more
      rw [hnil, hsame, hnone]
      simp [← List.append_assoc, List.rdropWhile_append_rtakeWhile]

theorem wireLines_ne_nil : (wireLines osTag kv lines).1 ≠ [] := by
  rw [wireLines]
  split <;> simp

/-- The text that is written has the new lines. -/
theorem parse_wireConfig (orig : Text) : parse others (wireConfig orig osTag kv).text =
    parseLines others ((wireLines osTag kv (PyText.splitlinesL [] orig)).1.flatMap (·.splitOn '\n')) := by
  rw [parse, ← splitOn_intercalate_flatMap wireLines_ne_nil, wireConfig]
  dsimp only
  split_ifs
  · rw [List.splitOn_append_cons_self]
    exact parseLines_concat_nil
  · rfl

/-- A line that is for no setting by its bare key is for none. -/
theorem lineKey_ne_of_quoted (hbare : ∀ s ∈ kv, Bare s.1) {v : Value V} (h : readLine others x = some (.entry true k v)) :
    ∀ k', lineKey x = some k' → k' ∉ kv.map Prod.fst := by
  intro k' hkey hmem
  obtain ⟨s, hs, rfl⟩ := List.mem_map.mp hmem
  obtain ⟨w, heq⟩ := entry_of_lineKey h hkey (hbare s hs)
  cases heq

/-- The settings for which there is no line remain. -/
theorem mem_remaining {s : Text × Setting} (hs : s ∈ rem) (h : ∀ ln ∈ lns, lineKey ln ≠ some s.1) : s ∈ remaining rem lns := by
  induction lns generalizing rem with
  | nil => exact hs
  | cons ln lns ih =>
    have hrest : ∀ ln ∈ lns, lineKey ln ≠ some s.1 := fun ln' hln' => h ln' (List.mem_cons_of_mem ln hln')
    rcases line_cases rem ln with ⟨k, v, hkey, hlookup⟩ | hnone
    · rw [(editBody_of_lookup lns hkey hlookup).2]
      refine ih (Assoc.mem_without.mpr ⟨hs, fun heq => ?_⟩) hrest
      exact h ln List.mem_cons_self (heq ▸ hkey)
    · rw [(editBody_of_notMem lns hnone).2]
      exact ih hs hrest

/-- The document before the edit, by its parts. -/
theorem Edited.read {own : List Text} {pre header mid post post'} (he : Edited others osTag kv lines pre header own mid post post')
    (hos : Bare osTag) (hread : readAll others lines = some ls) :
    ∃ p o a, readAll others pre = some p ∧ readLine others header = some (.header [osTag]) ∧ readAll others own = some o ∧
      readAll others post = some a ∧ Flat o ∧ Opens a ∧ ls = p ++ .header [osTag] :: (o ++ a) := by
  rw [he.lines_eq] at hread
  obtain ⟨p, rest, hp, hrest, rfl⟩ := readAll_append.mp hread
  obtain ⟨l, rest', hl, hrest', rfl⟩ := readAll_cons.mp hrest
  obtain ⟨o, a, ho, ha, rfl⟩ := readAll_append.mp hrest'
  obtain rfl := header_of_strip hl hos he.strip_header
  refine ⟨p, o, a, hp, hl, ho, ha, fun path hmem => ?_, ?_, rfl⟩
  · obtain ⟨x, hx, hread⟩ := (mem_of_readAll ho).mp hmem
    have hnot := he.own_flat x hx
    rw [isHeader_iff.mpr ⟨path, hread⟩] at hnot
    cases hnot
  · rcases he.post_first with rfl | ⟨ln, more, path, rfl, hln⟩
    · exact .inl (Option.some.inj ha).symm
    · obtain ⟨l, ls, hl, -, rfl⟩ := readAll_cons.mp ha
      exact .inr ⟨path, ls, by rw [Option.some.inj (hln.symm.trans hl)]⟩

theorem flat_of_blank (h : ∀ l ∈ ls, l = .blank) : Flat ls ∧ entries ls = [] := by
  refine ⟨fun path hmem => ?_, ?_⟩
  · cases h _ hmem
  · rw [entries, List.filterMap_eq_nil_iff]
    intro l hl
    rw [h l hl]
    rfl

theorem entries_append (a b : List (Line V)) : entries (a ++ b) = entries a ++ entries b := List.filterMap_append

/-- The lines of the section after the edit: the settings take the place of the entries with their
keys, and come after them under new keys. -/
theorem Edited.readAll_mid {own : List Text} {pre header mid post post'} {o : List (Line V)}
    (he : Edited others osTag kv lines pre header own mid post post') (hread : readAll others own = some o) (hflat : Flat o)
    (hnodup : ((entries o).map Prod.fst).Nodup) (hbare : ∀ s ∈ kv, Bare s.1) (hplain : ∀ s ∈ kv, s.2.Plain)
    (hunquoted : ∀ s ∈ kv, ∀ v, .entry true s.1 v ∉ o) (hrest : own = sectionBody osTag lines ∨ remaining kv own = []) :
    post' = post ∧ ∃ m, readAll others mid = some m ∧ Flat m ∧
      entries m = Assoc.override (settingEntries kv) (entries o) ++ Assoc.missing (settingEntries kv) (entries o) := by
  obtain ⟨m, hm, hflatm, hentries, hremaining⟩ := readAll_newBody hread hflat hnodup hbare hplain hunquoted
  rcases he.parts with ⟨-, hpost, rfl⟩ | ⟨hne, rfl, hpost⟩
  · refine ⟨hpost, ?_⟩
    rw [← @List.rdropWhile_append_rtakeWhile _ isBlankLine (newBody kv own)] at hm
    obtain ⟨a, b, ha, hb, rfl⟩ := readAll_append.mp hm
    have hblank : ∀ l ∈ b, l = .blank := by
      intro l hl
      obtain ⟨x, hx, hl⟩ := (mem_of_readAll hb).mp hl
      exact blank_of_isBlankLine hl (List.mem_rtakeWhile_imp hx)
    obtain ⟨hflatb, hentriesb⟩ := flat_of_blank hblank
    have hsettings : ∃ c, readAll others ((remaining kv own).map settingLine) = some c ∧ Flat c ∧
        entries c = settingEntries (remaining kv own) :=
      readAll_settings (fun s hs => hbare s (of_mem_remaining hs).1) fun s hs => hplain s (of_mem_remaining hs).1
    obtain ⟨c, hc, hflatc, hentriesc⟩ := hsettings
    have hflata : Flat a := fun path hmem => hflatm path (List.mem_append_left _ hmem)
    refine ⟨(a ++ c) ++ b, readAll_append.mpr ⟨a ++ c, b, readAll_append.mpr ⟨a, c, ha, hc, rfl⟩, hb, rfl⟩,
      (hflata.append hflatc).append hflatb, ?_⟩
    rw [entries_append, hentriesb, List.append_nil] at hentries
    rw [entries_append, entries_append, hentriesb, hentriesc, hremaining, List.append_nil, hentries]
  · have hnil : remaining kv own = [] := hrest.resolve_left hne
    refine ⟨hpost hnil, m, hm, hflatm, ?_⟩
    rw [hentries, ← hremaining, hnil]
    exact (List.append_nil _).symm

/-- The lines of the text, if there is no header of the section, read with a blank line after them. -/
theorem readAll_gap {gap : List Text} (hgap : gap = [] ∨ gap = [[]]) (hread : readAll others lines = some ls) :
    ∃ p, readAll others (lines ++ gap) = some p ∧ items [] p = items [] ls := by
  rcases hgap with rfl | rfl
  · exact ⟨ls, by rw [List.append_nil, hread], rfl⟩
  · refine ⟨ls ++ [.blank], readAll_append.mpr ⟨ls, [.blank], hread, rfl, rfl⟩, ?_⟩
    rw [items_append]
    exact List.append_nil _

theorem sectionBody_eq_nil (h : ∀ ln ∈ lines, strip ln ≠ sectionOf osTag) : sectionBody osTag lines = [] := by
  have hnone : (lines.dropWhile fun ln => strip ln ≠ sectionOf osTag) = [] :=
    List.dropWhile_eq_nil_iff.mpr (by simpa using h)
  rw [sectionBody, hnone]
  rfl

variable {orig : Text}

theorem overridden_of_editable (hos : Bare osTag) (hbare : ∀ s ∈ kv, Bare s.1) (hnodup : (kv.map Prod.fst).Nodup)
    (hparse : parse others orig = some is) (h : Editable others orig osTag kv is) : Overridden others orig osTag kv is := by
  obtain ⟨ls, hread, his, hvalid⟩ := parseLines_eq_some.mp (h.breaks.trans hparse)
  rw [Overridden, parse_wireConfig]
  by_cases hfound : ∃ ln ∈ PyText.splitlinesL [] orig, strip ln = sectionOf osTag
  · obtain ⟨pre, header, mid, post, post', he⟩ := exists_edited hread hbare hfound
    obtain ⟨p, o, a, hp, hheader, ho, ha, hflat, hopens, rfl⟩ := he.read hos hread
    have hkeys : ((entries o).map Prod.fst).Nodup := nodup_entries_of_valid hflat (his ▸ hvalid)
    have hunquoted : ∀ s ∈ kv, ∀ v, .entry true s.1 v ∉ o := by
      intro s hs v hmem
      rcases h.keys s hs with ⟨ln, hln, w, hread⟩ | ⟨-, hnone⟩
      · cases entry_unique hkeys hmem ((mem_of_readAll ho).mpr ⟨ln, hln, hread⟩)
      · obtain ⟨ln, hln, hread⟩ := (mem_of_readAll ho).mp hmem
        exact hnone ln hln ⟨v, hread⟩
    have hrest : ownLines others osTag (PyText.splitlinesL [] orig) = sectionBody osTag (PyText.splitlinesL [] orig) ∨
        remaining kv (ownLines others osTag (PyText.splitlinesL [] orig)) = [] := by
      by_cases hwhole : ownLines others osTag (PyText.splitlinesL [] orig) = sectionBody osTag (PyText.splitlinesL [] orig)
      · exact .inl hwhole
      · refine .inr (List.eq_nil_iff_forall_not_mem.mpr fun s hs => ?_)
        obtain ⟨hs, hnone⟩ := of_mem_remaining hs
        rcases h.keys s hs with ⟨ln, hln, w, hread⟩ | ⟨heq, -⟩
        · exact hnone ln hln (lineKey_bare hread)
        · exact hwhole heq
    obtain ⟨rfl, m, hm, hflatm, hentries⟩ := he.readAll_mid ho hflat hkeys hbare h.plain hunquoted hrest
    rw [he.wire]
    exact overrides_of_section hp hheader hm ha hflatm hopens hflat hentries hnodup hvalid (.inl his.symm) h.notValue h.notTable
  · have hnone : ∀ ln ∈ PyText.splitlinesL [] orig, strip ln ≠ sectionOf osTag := fun ln hln heq => hfound ⟨ln, hln, heq⟩
    obtain ⟨gap, hgap, hwire⟩ := wireLines_missing kv hnone
    obtain ⟨p, hp, hitems⟩ := readAll_gap hgap hread
    have hsettings : ∃ m, readAll others (kv.map settingLine) = some m ∧ Flat m ∧ entries m = settingEntries kv :=
      readAll_settings hbare h.plain
    obtain ⟨m, hm, hflatm, hentries⟩ := hsettings
    rw [hwire]
    have hadded : entries m = Assoc.override (settingEntries kv) (entries ([] : List (Line V))) ++
        Assoc.missing (settingEntries kv) (entries ([] : List (Line V))) := by
      rw [hentries]
      exact Assoc.missing_nil.symm
    exact overrides_of_section hp (readLine_sectionOf hos) hm rfl hflatm (.inl rfl) (by simp [Flat]) hadded hnodup
      hvalid (.inr ⟨by rw [hitems, his], rfl, rfl, fun hmem => hfound (h.header hmem)⟩) h.notValue h.notTable

/-- What the parse of the new text says of the document. -/
theorem not_clash (hvalid : Valid is') (hover : Overrides [osTag] (settingEntries kv) is is') :
    (∀ v, .value [] osTag v ∉ is) ∧ ∀ s ∈ kv, ¬ HasTable is [osTag, s.1] := by
  have hclash : ∀ p k v, .value p k v ∈ is' → ¬ HasTable is' (p ++ [k]) := by
    rintro p k v hv ⟨q, hq, hprefix⟩
    exact hvalid.apart _ (mem_values_iff.mpr ⟨p, k, v, hv, rfl⟩) q (mem_tables_iff.mpr hq) hprefix
  constructor
  · intro v hv
    have hv' : .value [] osTag v ∈ is' := by
      rw [hover.values, if_neg (by simp)]
      exact hv
    exact hclash [] osTag v hv' ((hover.tables [osTag]).mpr (.inr List.prefix_rfl))
  · intro s hs htable
    have hkey : s.1 ∈ (settingEntries kv : List (Text × Value V)).map Prod.fst := by
      rw [map_fst_settingEntries]
      exact List.mem_map_of_mem hs
    have hv : .value [osTag] s.1 s.2.value ∈ is' := by
      rw [hover.values, if_pos ⟨rfl, hkey⟩]
      exact List.mem_map_of_mem (f := fun s : Text × Setting => (s.1, s.2.value)) hs
    exact hclash [osTag] s.1 s.2.value hv ((hover.tables [osTag, s.1]).mpr (.inl htable))

theorem Edited.mem_mid {own : List Text} {pre header mid post post'} (he : Edited others osTag kv lines pre header own mid post post')
    (hx : x ∈ mid) : x ∈ newBody kv own ∨ ∃ s ∈ remaining kv own, x = settingLine s := by
  rcases he.parts with ⟨-, -, rfl⟩ | ⟨-, rfl, -⟩
  · rw [List.mem_append, List.mem_append] at hx
    rcases hx with (hx | hx) | hx
    · exact .inl ((List.rdropWhile_prefix isBlankLine _).subset hx)
    · obtain ⟨s, hs, rfl⟩ := List.mem_map.mp hx
      exact .inr ⟨s, hs, rfl⟩
    · exact .inl ((List.rtakeWhile_suffix isBlankLine _).subset hx)
  · exact .inl hx

theorem Edited.newBody_subset {own : List Text} {pre header mid post post'}
    (he : Edited others osTag kv lines pre header own mid post post') (hx : x ∈ newBody kv own) : x ∈ mid := by
  rcases he.parts with ⟨-, -, rfl⟩ | ⟨-, rfl, -⟩
  · rw [← @List.rdropWhile_append_rtakeWhile _ isBlankLine (newBody kv own)] at hx
    rcases List.mem_append.mp hx with hx | hx
    · exact List.mem_append_left _ (List.mem_append_left _ hx)
    · exact List.mem_append_right _ hx
  · exact hx

/-- A setting is in the section after the edit, or there is no line for it and a header follows. -/
theorem Edited.setting_mem {own : List Text} {pre header mid post post'}
    (he : Edited others osTag kv lines pre header own mid post post') (hnodup : (kv.map Prod.fst).Nodup) {s : Text × Setting}
    (hs : s ∈ kv) : settingLine s ∈ mid ∨ own ≠ sectionBody osTag lines ∧ s ∈ remaining kv own := by
  rcases mem_remaining_or own hnodup hs with hrem | hmem
  · rcases he.parts with ⟨-, -, rfl⟩ | ⟨hne, -, -⟩
    · exact .inl (List.mem_append_left _ (List.mem_append_right _ (List.mem_map_of_mem hrem)))
    · exact .inr ⟨hne, hrem⟩
  · exact .inl (he.newBody_subset hmem)

theorem Edited.written {own : List Text} {pre header mid post post'} {o : List (Line V)}
    (he : Edited others osTag kv lines pre header own mid post post') (hread : readAll others own = some o) (hflat : Flat o)
    (hx : x ∈ mid) : Written others kv x := by
  rcases he.mem_mid hx with hx | ⟨s, hs, rfl⟩
  · rcases mem_newBody hx with hx | ⟨ln, hln, rfl⟩ | ⟨s, hs, rfl, -⟩
    · obtain ⟨l, hl⟩ := readable_of_readAll hread x hx
      exact .inl ⟨l, hl, fun path heq => hflat path (heq ▸ (mem_of_readAll hread).mpr ⟨x, hx, hl⟩)⟩
    · obtain ⟨l, hl⟩ := readable_of_readAll hread ln hln
      exact .inl ⟨.blank, readLine_breadcrumb hl, by simp⟩
    · exact .inr ⟨s, hs, rfl⟩
  · exact .inr ⟨s, (of_mem_remaining hs).1, rfl⟩

/-- An entry after the edit with the key of a setting that remains was there, in quotes. -/
theorem Edited.quoted_of_remaining {own : List Text} {pre header mid post post'} {o : List (Line V)}
    (he : Edited others osTag kv lines pre header own mid post post') (hread : readAll others own = some o)
    (hne : own ≠ sectionBody osTag lines) (hbare : ∀ s ∈ kv, Bare s.1) (hplain : ∀ s ∈ kv, settingLine s ∈ mid → s.2.Plain)
    {s : Text × Setting} (hs : s ∈ remaining kv own) {q : Bool} {v : Value V} (hx : x ∈ mid)
    (hentry : readLine others x = some (.entry q s.1 v)) : x ∈ own ∧ q = true := by
  obtain ⟨-, hnone⟩ := of_mem_remaining hs
  have hmid : mid = newBody kv own := by
    rcases he.parts with ⟨heq, -, -⟩ | ⟨-, heq, -⟩
    · exact absurd heq hne
    · exact heq
  have hxNew := hx
  rw [hmid] at hxNew
  rcases mem_newBody hxNew with hown | ⟨ln, hln, rfl⟩ | ⟨t, ht, rfl, ln, hln, hkey⟩
  · cases q with
    | false => exact absurd (lineKey_bare hentry) (hnone x hown)
    | true => exact ⟨hown, rfl⟩
  · obtain ⟨l, hl⟩ := readable_of_readAll hread ln hln
    rw [readLine_breadcrumb hl] at hentry
    cases hentry
  · rw [readLine_settingLine (hbare t ht) (hplain t ht hx)] at hentry
    obtain ⟨-, heq, -⟩ := Line.entry.inj (Option.some.inj hentry)
    exact absurd (heq ▸ hkey) (hnone ln hln)

theorem editable_of_overridden (hos : Bare osTag) (hbare : ∀ s ∈ kv, Bare s.1) (hnodup : (kv.map Prod.fst).Nodup)
    (horig : parse others orig = some is) (h : Overridden others orig osTag kv is) :
    Editable others orig osTag kv is ∨ Lucky others orig osTag kv := by
  by_cases hbreaks : parseLines others (PyText.splitlinesL [] orig) = parse others orig
  · obtain ⟨ls, hread, his, hvalid⟩ := parseLines_eq_some.mp (hbreaks.trans horig)
    obtain ⟨is', hparse, hover⟩ := h
    rw [parse_wireConfig] at hparse
    obtain ⟨-, -, -, hvalid'⟩ := parseLines_eq_some.mp hparse
    obtain ⟨hnotValue, hnotTable⟩ := not_clash hvalid' hover
    by_cases hfound : ∃ ln ∈ PyText.splitlinesL [] orig, strip ln = sectionOf osTag
    · obtain ⟨pre, header, mid, post, post', he⟩ := exists_edited hread hbare hfound
      obtain ⟨p, o, a, hp, hheader, ho, ha, hflat, hopens, rfl⟩ := he.read hos hread
      rw [he.wire] at hparse
      obtain ⟨m, hm, hkeys, hplain, hentries, -⟩ := section_of_overrides hp hheader (fun x hx => he.written ho hflat hx)
        he.post_first' hbare hnodup hparse hover
      by_cases hrest : ∀ s ∈ kv, settingLine s ∈ mid
      · refine .inl ⟨hbreaks, fun s hs => hplain s hs (hrest s hs), fun _ => hfound, hnotValue, hnotTable, fun s hs => ?_⟩
        have hsetting : readLine others (settingLine s) = some (.entry false s.1 s.2.value) :=
          readLine_settingLine (hbare s hs) (hplain s hs (hrest s hs))
        by_cases hwhole : ownLines others osTag (PyText.splitlinesL [] orig) = sectionBody osTag (PyText.splitlinesL [] orig)
        · refine .inr ⟨hwhole, ?_⟩
          rintro ln hln ⟨v, hquoted⟩
          have hmem := he.newBody_subset (mem_newBody_of_mem hln (lineKey_ne_of_quoted hbare hquoted))
          cases entry_unique hkeys ((mem_of_readAll hm).mpr ⟨ln, hmem, hquoted⟩)
            ((mem_of_readAll hm).mpr ⟨_, hrest s hs, hsetting⟩)
        · refine .inl ?_
          by_contra hnoKey
          have hrem : s ∈ remaining kv (ownLines others osTag (PyText.splitlinesL [] orig)) := by
            refine mem_remaining hs fun ln hln hkey => hnoKey ⟨ln, hln, ?_⟩
            obtain ⟨l, hl⟩ := readable_of_readAll ho ln hln
            obtain ⟨v, rfl⟩ := entry_of_lineKey hl hkey (hbare s hs)
            exact ⟨v, hl⟩
          cases (he.quoted_of_remaining ho hwhole hbare hplain hrem (hrest s hs) hsetting).2
      · push Not at hrest
        obtain ⟨s, hs, hnotMid⟩ := hrest
        obtain ⟨hne, hrem⟩ := (he.setting_mem hnodup hs).resolve_left hnotMid
        obtain ⟨q, hentry⟩ := mem_entries.mp (hentries s hs)
        obtain ⟨x, hx, hread⟩ := (mem_of_readAll hm).mp hentry
        obtain ⟨hown, rfl⟩ := he.quoted_of_remaining ho hne hbare hplain hrem hx hread
        exact .inr (.inr ⟨hne, s, hs, x, hown, hread⟩)
    · have hnone : ∀ ln ∈ PyText.splitlinesL [] orig, strip ln ≠ sectionOf osTag := fun ln hln heq => hfound ⟨ln, hln, heq⟩
      obtain ⟨gap, hgap, hwire⟩ := wireLines_missing kv hnone
      obtain ⟨p, hp, hitems⟩ := readAll_gap hgap hread
      rw [hwire] at hparse
      have hwritten : ∀ x ∈ kv.map settingLine, Written others kv x := by
        intro x hx
        obtain ⟨s, hs, rfl⟩ := List.mem_map.mp hx
        exact .inr ⟨s, hs, rfl⟩
      obtain ⟨m, hm, hkeys, hplain, -, hnotTableBefore⟩ :=
        section_of_overrides hp (readLine_sectionOf hos) hwritten (.inl rfl) hbare hnodup hparse hover
      rw [hitems, his] at hnotTableBefore
      refine .inl ⟨hbreaks, fun s hs => hplain s hs (List.mem_map_of_mem hs), fun hmem => absurd hmem hnotTableBefore,
        hnotValue, hnotTable, fun s hs => .inr ?_⟩
      rw [ownLines, sectionBody_eq_nil hnone]
      exact ⟨rfl, by simp⟩
  · exact .inr (.inl hbreaks)

/-- **When the edit does what it is for**: if the file is one that it can edit; in another file, only by luck. -/
theorem wireConfig_overridden (hos : Bare osTag) (hbare : ∀ s ∈ kv, Bare s.1) (hnodup : (kv.map Prod.fst).Nodup)
    (his : parse others orig = some is) :
    (Editable others orig osTag kv is → Overridden others orig osTag kv is) ∧
      (Overridden others orig osTag kv is → Editable others orig osTag kv is ∨ Lucky others orig osTag kv) :=
  ⟨overridden_of_editable hos hbare hnodup his, editable_of_overridden hos hbare hnodup his⟩

end

/-! ### A tidy file, and a header with a comment -/

/-- No other values. -/
def noOthers : Text → Option (Empty × Text) := fun _ => none

def tidyText : Text := "[base]\nA = \"x\"\n\n[linux]\nPERSONA_CTX = 4096 # tokens\n\n[macos]\nB = 1\n".toList

def tidySettings : List (Text × Setting) := [("PERSONA_MODEL".toList, .str "m.gguf".toList), ("PERSONA_CTX".toList, .int 8192)]

def tidyItems : List (Item Empty) :=
  [.table ["base".toList], .value ["base".toList] "A".toList (.str "x".toList), .table ["linux".toList],
    .value ["linux".toList] "PERSONA_CTX".toList (.int 4096), .table ["macos".toList],
    .value ["macos".toList] "B".toList (.int 1)]

theorem parse_tidyText : parse noOthers tidyText = some tidyItems := by decide

theorem editable_tidyText : Editable noOthers tidyText "linux".toList tidySettings tidyItems where
  breaks := by decide
  plain := by decide
  header _ := by decide
  notValue v := by simp [tidyItems]
  notTable s hs := by
    rintro ⟨q, hq, hprefix⟩
    have hlen := hprefix.length_le
    simp only [tidyItems, List.mem_cons, Item.table.injEq, reduceCtorEq, false_or, or_false, List.not_mem_nil] at hq
    rcases hq with rfl | rfl | rfl <;> simp at hlen
  keys := by decide

/-- An edit of a tidy file. -/
theorem overridden_tidyText : Overridden noOthers tidyText "linux".toList tidySettings tidyItems :=
  (wireConfig_overridden (by decide) (by decide) (by decide) parse_tidyText).1 editable_tidyText

/-- A header with a comment is not found: the section is there twice afterwards. -/
theorem not_overridden_comment : ∃ (orig osTag : Text) (kv : List (Text × Setting)) (is : List (Item Empty)),
    Bare osTag ∧ (∀ s ∈ kv, Bare s.1) ∧ (kv.map Prod.fst).Nodup ∧ parse noOthers orig = some is ∧
      ¬ Overridden noOthers orig osTag kv is := by
  refine ⟨"[linux] # this host\nPERSONA_CTX = 4096\n".toList, "linux".toList, [("PERSONA_CTX".toList, .int 8192)],
    [.table ["linux".toList], .value ["linux".toList] "PERSONA_CTX".toList (.int 4096)], by decide, by decide,
    by decide, by decide, ?_⟩
  rintro ⟨is', hparse, -⟩
  have hnone : parse noOthers (wireConfig "[linux] # this host\nPERSONA_CTX = 4096\n".toList "linux".toList
      [("PERSONA_CTX".toList, .int 8192)]).text = none := by decide
  rw [hnone] at hparse
  cases hparse

end Persona.Provision
