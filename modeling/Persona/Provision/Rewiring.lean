import Persona.Provision.Wire
import Persona.Lib.Lines

/-!
# Running the provisioner again

`wire_config` of `scripts/provision_fetch.py` is meant to be repeated: its test runs it twice and finds one
breadcrumb and the value unchanged. On the lines of a file that is so for every layout: the section is found
where it was, each setting has its line, and a line that is set has the old value of its own
(`Sectioned.wireLines_fixed`).

It is not so for the text. `splitlines` and `"\n".join` lose the newline that ends an empty last line, and it
is put back only when the text does not end in one: each run takes one empty line from a file that ends in
two. And `splitlines` cuts a value at a line break that TOML does not know. `rewiring_unchanged_iff` says that nothing
else moves.
-/

namespace Persona.Provision

open Persona.Lib Persona.TomlText

/-- An integer, or a text without quotes. -/
def Setting.Unquoted : Setting → Prop
  | .str s => '"' ∉ s
  | .int _ => True
  | .bool _ => False

/-- No line ends in the value. -/
def Setting.OneLine : Setting → Prop
  | .str s => ∀ c ∈ s, PyText.isLineBreak c = false
  | _ => True

/-- A dictionary of bare keys to integers and texts without quotes. -/
structure Settings (kv : List (Text × Setting)) : Prop where
  bare : ∀ s ∈ kv, Bare s.1
  nodup : (kv.map Prod.fst).Nodup
  unquoted : ∀ s ∈ kv, s.2.Unquoted

variable (orig osTag : Text) (kv : List (Text × Setting))

/-- A second run returns the text of the first. -/
def Unchanged : Prop := (wireConfig (wireConfig orig osTag kv).text osTag kv).text = (wireConfig orig osTag kv).text

/-- The values are on one line, and a file that has the section does not end in two empty lines. -/
structure Settles : Prop where
  oneLine : ∀ s ∈ kv, s.2.OneLine
  ending : (∃ ln ∈ PyText.splitlinesL [] orig, strip ln = sectionOf osTag) → ¬ [[], []] <:+ PyText.splitlinesL [] orig

variable {orig osTag kv} {rem : List (Text × Setting)} {lns xs pre body post lines : List Text} {ln k header : Text} {v : Setting}

/-! ### A line that was set -/

/-- A value has no blanks at its ends. -/
theorem solid_tomlValue (v : Setting) : tomlValue v ≠ [] ∧ (∀ c ∈ (tomlValue v).head?, PyText.isSpace c = false) ∧
    ∀ c ∈ (tomlValue v).getLast?, PyText.isSpace c = false := by
  cases v with
  | str s =>
    refine ⟨List.cons_ne_nil _ _, fun c hc => ?_, fun c hc => ?_⟩
    · obtain rfl : '"' = c := Option.some.inj hc
      decide
    · rw [tomlValue, ← List.cons_append, List.getLast?_concat] at hc
      obtain rfl : '"' = c := Option.some.inj hc
      decide
  | int n =>
    have hspace : ∀ c ∈ JsonText.dumpInt n, PyText.isSpace c = false := by
      intro c hc
      rcases mem_dumpInt hc with rfl | hdigit
      · decide
      · exact not_isSpace_of_isBare (by simp [isBare, Char.isAlphanum, hdigit])
    refine ⟨fun hnil => ?_, fun c hc => hspace c (List.mem_of_mem_head? hc), fun c hc => hspace c (List.mem_of_mem_getLast? hc)⟩
    have hvalue := decimal_dumpInt n
    have hnil : JsonText.dumpInt n = [] := hnil
    rw [hnil] at hvalue
    cases hvalue
  | bool b => cases b <;> decide

theorem strip_settingLine (hk : Bare k) : strip (settingLine (k, v)) = settingLine (k, v) := by
  refine PyText.strip_eq_self ?_ ?_
  · intro c hc
    rw [settingLine, List.head?_append_of_ne_nil _ hk.1] at hc
    exact not_isSpace_of_isBare (hk.2 c (List.mem_of_mem_head? hc))
  · rw [settingLine, ← List.append_assoc, List.getLast?_append_of_ne_nil _ (solid_tomlValue v).1]
    exact (solid_tomlValue v).2.2

theorem bare_ne_equals (hk : Bare k) : ∀ c ∈ k ++ [' '], decide (c ≠ '=') = true := by
  intro c hc
  rw [decide_eq_true_eq]
  rcases List.mem_append.mp hc with hc | hc
  · exact (isBare_ne (hk.2 c hc)).2.2.2.2.2.1
  · obtain rfl := List.mem_singleton.mp hc
    decide

/-- A line that was set has the key of the setting. -/
theorem lineKey_settingLine (hk : Bare k) : lineKey (settingLine (k, v)) = some k := by
  have hparts : settingLine (k, v) = (k ++ [' ']) ++ '=' :: ' ' :: tomlValue v := by simp [settingLine]
  have hhead : (settingLine (k, v)).head? ≠ some '#' := by
    rw [settingLine, List.head?_append_of_ne_nil _ hk.1]
    exact fun hc => (isBare_ne (hk.2 _ (List.mem_of_mem_head? hc))).2.2.1 rfl
  have hbefore : (settingLine (k, v)).takeWhile (· ≠ '=') = k ++ [' '] := by
    rw [hparts, List.takeWhile_append_of_pos (bare_ne_equals hk), List.takeWhile_cons_of_neg (by simp), List.append_nil]
  rw [lineKey, strip_settingLine hk, if_pos ⟨by simp [hparts], hhead⟩, hbefore, strip_bare (by decide) hk]

theorem stripChar_tomlValue (hv : v.Unquoted) : stripChar '"' (tomlValue v) = v.pyStr := by
  have hdrop : ∀ s : Text, '"' ∉ s → s.dropWhile (· = '"') = s := by
    intro s hs
    cases s with
    | nil => rfl
    | cons c s =>
      refine List.dropWhile_cons_of_neg ?_
      rw [decide_eq_true_eq]
      rintro rfl
      exact hs List.mem_cons_self
  cases v with
  | str s =>
    have hs : '"' ∉ s := hv
    rw [stripChar, tomlValue, List.dropWhile_cons_of_pos (by simp), List.dropWhile_append, hdrop s hs]
    split_ifs with hempty
    · obtain rfl := List.isEmpty_iff.mp hempty
      rfl
    · rw [List.reverse_append, List.reverse_singleton, List.singleton_append, List.dropWhile_cons_of_pos (by simp),
        hdrop _ (by simpa using hs), List.reverse_reverse]
      rfl
  | int n =>
    have hn : '"' ∉ JsonText.dumpInt n := by
      intro hmem
      rcases mem_dumpInt hmem with h | h <;> cases h
    rw [stripChar, tomlValue, hdrop _ hn, hdrop _ (by simpa using hn), List.reverse_reverse]
    rfl
  | bool b => exact hv.elim

/-- Its old value is the value that is set. -/
theorem oldValue_settingLine (hk : Bare k) (hv : v.Unquoted) : oldValue (settingLine (k, v)) = v.pyStr := by
  have hparts : settingLine (k, v) = (k ++ [' ']) ++ '=' :: ' ' :: tomlValue v := by simp [settingLine]
  have hafter : ((settingLine (k, v)).dropWhile (· ≠ '=')).tail = ' ' :: tomlValue v := by
    rw [hparts, List.dropWhile_append_of_pos (bare_ne_equals hk), List.dropWhile_cons_of_neg (by simp), List.tail_cons]
  have hblank : PyText.lstripL (' ' :: tomlValue v) = PyText.lstripL (tomlValue v) := List.dropWhile_cons_of_pos (by decide)
  have hstrip : strip (' ' :: tomlValue v) = tomlValue v := by
    rw [strip, hblank, PyText.strip_eq_self (solid_tomlValue v).2.1 (solid_tomlValue v).2.2]
  rw [oldValue, strip_settingLine hk, hafter, hstrip, stripChar_tomlValue hv]

/-- So it is set again without a breadcrumb. -/
theorem crumbs_settingLine (hk : Bare k) (hv : v.Unquoted) : crumbs (settingLine (k, v)) (k, v) = [] := by
  rw [crumbs, if_neg]
  exact fun h => h.2 (oldValue_settingLine hk hv)

theorem lineKey_breadcrumb : lineKey (breadcrumb ln) = none := by
  have hstrip : strip (breadcrumb ln) = '#' :: PyText.rstripL (" was: ".toList ++ (strip ln ++ "   (provision rollback)".toList)) :=
    @strip_cons [] (by simp) '#' (by decide) _
  rw [lineKey, hstrip, if_neg]
  exact fun h => h.2 rfl

theorem lineKey_blank (h : isBlankLine ln = true) : lineKey ln = none := by
  rw [lineKey, List.isEmpty_iff.mp h, if_neg]
  exact fun h => List.not_mem_nil h.1

/-! ### The loop, once more -/

theorem newBody_of_keyless (h : ∀ ln ∈ xs, lineKey ln = none) : newBody rem xs = xs ∧ remaining rem xs = rem := by
  induction xs with
  | nil => exact ⟨rfl, rfl⟩
  | cons ln xs ih =>
    obtain ⟨hln, hxs⟩ := List.forall_mem_cons.mp h
    obtain ⟨hbody, hrest⟩ := @editBody_of_notMem rem ln xs (by simp [hln])
    rw [hbody, hrest, (ih hxs).1, (ih hxs).2]
    exact ⟨rfl, rfl⟩

theorem Settings.without (h : Settings rem) (k : Text) : Settings (Assoc.without k rem) where
  bare s hs := h.bare s (Assoc.mem_without.mp hs).1
  nodup := Assoc.nodup_without h.nodup
  unquoted s hs := h.unquoted s (Assoc.mem_without.mp hs).1

theorem Settings.remaining (h : Settings rem) (lns : List Text) : Settings (remaining rem lns) := by
  induction lns generalizing rem with
  | nil => exact h
  | cons ln lns ih =>
    rcases line_cases rem ln with ⟨k, v, hkey, hlookup⟩ | hnone
    · rw [(editBody_of_lookup lns hkey hlookup).2]
      exact ih (h.without k)
    · rw [(editBody_of_notMem lns hnone).2]
      exact ih h

/-- **The loop leaves its own lines alone**, and takes them for the settings that it took the first for. -/
theorem newBody_newBody (h : Settings rem) (lns : List Text) :
    newBody rem (newBody rem lns) = newBody rem lns ∧ remaining rem (newBody rem lns) = remaining rem lns := by
  induction lns generalizing rem with
  | nil => exact ⟨rfl, rfl⟩
  | cons ln lns ih =>
    rcases line_cases rem ln with ⟨k, v, hkey, hlookup⟩ | hnone
    · have hmem := Assoc.mem_of_lookup hlookup
      have hcrumbs : ∀ x ∈ crumbs ln (k, v), lineKey x = none := by
        intro x hx
        rw [crumbs] at hx
        split_ifs at hx
        · rw [List.mem_singleton.mp hx]
          exact lineKey_breadcrumb
        · cases hx
      obtain ⟨hbody, hrest⟩ := editBody_of_lookup lns hkey hlookup
      obtain ⟨happend, happend'⟩ := editBody_append rem (crumbs ln (k, v)) (settingLine (k, v) :: newBody (Assoc.without k rem) lns)
      obtain ⟨hagain, hagain'⟩ := editBody_of_lookup (newBody (Assoc.without k rem) lns)
        (lineKey_settingLine (h.bare _ hmem)) hlookup
      obtain ⟨hih, hih'⟩ := ih (h.without k)
      rw [hbody, hrest, happend, happend', (newBody_of_keyless hcrumbs).1, (newBody_of_keyless hcrumbs).2, hagain, hagain',
        crumbs_settingLine (h.bare _ hmem) (h.unquoted _ hmem), hih, hih']
      exact ⟨rfl, rfl⟩
    · obtain ⟨hbody, hrest⟩ := editBody_of_notMem lns hnone
      obtain ⟨hagain, hagain'⟩ := editBody_of_notMem (newBody rem lns) hnone
      rw [hbody, hrest, hagain, hagain', (ih h).1, (ih h).2]
      exact ⟨rfl, rfl⟩

/-- The lines of settings are for all of them. -/
theorem newBody_settings (h : Settings rem) :
    newBody rem (rem.map settingLine) = rem.map settingLine ∧ remaining rem (rem.map settingLine) = [] := by
  induction rem with
  | nil => exact ⟨rfl, rfl⟩
  | cons s rem ih =>
    have hs : s ∈ s :: rem := List.mem_cons_self
    have hnot : s.1 ∉ rem.map Prod.fst := (List.nodup_cons.mp h.nodup).1
    have hwithout : Assoc.without s.1 (s :: rem) = rem := by
      rw [Assoc.without, List.filter_cons_of_neg (by simp), List.filter_eq_self]
      intro t ht
      have hne : t.1 ≠ s.1 := fun heq => hnot (heq ▸ List.mem_map_of_mem ht)
      simpa using hne
    have htail : Settings rem := by
      have hwith := h.without s.1
      rwa [hwithout] at hwith
    have hlookup : (s :: rem).lookup s.1 = some s.2 := List.lookup_cons_self
    obtain ⟨hbody, hrest⟩ := editBody_of_lookup (rem.map settingLine) (lineKey_settingLine (h.bare s hs)) hlookup
    rw [hwithout] at hbody hrest
    rw [List.map_cons, hbody, hrest, crumbs_settingLine (h.bare s hs) (h.unquoted s hs), (ih htail).1, (ih htail).2]
    exact ⟨rfl, rfl⟩

/-- The lines of a section as the edit leaves them. -/
def wiredBody (kv : List (Text × Setting)) (own : List Text) : List Text :=
  (newBody kv own).rdropWhile isBlankLine ++ (remaining kv own).map settingLine ++ (newBody kv own).rtakeWhile isBlankLine

/-- The edit has nothing to do in a section: every setting has its line. -/
def Done (kv : List (Text × Setting)) (body : List Text) : Prop := newBody kv body = body ∧ remaining kv body = []

theorem done_wiredBody (h : Settings kv) (own : List Text) : Done kv (wiredBody kv own) := by
  obtain ⟨hbody, hrest⟩ := newBody_newBody h own
  have hsplit : (newBody kv own).rdropWhile isBlankLine ++ (newBody kv own).rtakeWhile isBlankLine = newBody kv own :=
    List.rdropWhile_append_rtakeWhile
  have hkeyless : ∀ ln ∈ (newBody kv own).rtakeWhile isBlankLine, lineKey ln = none := fun ln hln =>
    lineKey_blank (List.mem_rtakeWhile_imp hln)
  unfold wiredBody Done
  generalize (newBody kv own).rdropWhile isBlankLine = core at hsplit ⊢
  generalize (newBody kv own).rtakeWhile isBlankLine = blanks at hsplit hkeyless ⊢
  rw [← hsplit] at hbody hrest
  -- without the blank lines the loop does the same
  obtain ⟨hcore, hcore'⟩ := editBody_append kv core blanks
  rw [hcore, (newBody_of_keyless hkeyless).1] at hbody
  rw [hcore', (newBody_of_keyless hkeyless).2] at hrest
  obtain ⟨hset, hset'⟩ := newBody_settings (h.remaining own)
  obtain ⟨hall, hall'⟩ := editBody_append kv (core ++ (remaining kv own).map settingLine) blanks
  obtain ⟨hfront, hfront'⟩ := editBody_append kv core ((remaining kv own).map settingLine)
  rw [hall, hall', hfront, hfront', hrest, hset, hset', List.append_cancel_right hbody, (newBody_of_keyless hkeyless).1,
    (newBody_of_keyless hkeyless).2]
  exact ⟨rfl, rfl⟩

theorem Done.of_blank (h : Done kv (body ++ [[]])) : Done kv body := by
  obtain ⟨hbody, hrest⟩ := h
  obtain ⟨happend, happend'⟩ := editBody_append kv body [[]]
  have hkeyless : ∀ ln ∈ ([[]] : List Text), lineKey ln = none := by
    intro ln hln
    rw [List.mem_singleton.mp hln]
    exact lineKey_blank rfl
  rw [happend, (newBody_of_keyless hkeyless).1] at hbody
  rw [happend', (newBody_of_keyless hkeyless).2] at hrest
  exact ⟨List.append_cancel_right hbody, hrest⟩

/-! ### The lines of the file -/

/-- The parts of a file that has the section: the lines before it, its header, its own lines, and the lines
after it. -/
structure Sectioned (osTag : Text) (pre : List Text) (header : Text) (body post : List Text) : Prop where
  before : ∀ ln ∈ pre, strip ln ≠ sectionOf osTag
  header : strip header = sectionOf osTag
  body : ∀ ln ∈ body, ln.head? ≠ some '['
  after : ∀ ln ∈ post.head?, ln.head? = some '['

theorem exists_sectioned (h : ∃ ln ∈ lines, strip ln = sectionOf osTag) :
    ∃ pre header body post, lines = pre ++ header :: (body ++ post) ∧ Sectioned osTag pre header body post := by
  cases hdrop : lines.dropWhile fun ln => strip ln ≠ sectionOf osTag with
  | nil =>
    obtain ⟨ln, hln, hstrip⟩ := h
    have hne := List.dropWhile_eq_nil_iff.mp hdrop ln hln
    simp [hstrip] at hne
  | cons header rest =>
    have hheader := List.head?_dropWhile_not (fun ln => decide (strip ln ≠ sectionOf osTag)) lines
    rw [hdrop] at hheader
    refine ⟨lines.takeWhile fun ln => strip ln ≠ sectionOf osTag, header, rest.takeWhile fun ln => ln.head? ≠ some '[',
      rest.dropWhile fun ln => ln.head? ≠ some '[', ?_, fun ln hln => ?_, by simpa using hheader, fun ln hln => ?_, fun ln hln => ?_⟩
    · rw [List.takeWhile_append_dropWhile, ← hdrop, List.takeWhile_append_dropWhile]
    · simpa using List.mem_takeWhile_imp hln
    · simpa using List.mem_takeWhile_imp hln
    · have hhead := List.head?_dropWhile_not (fun ln : Text => decide (ln.head? ≠ some '[')) rest
      rw [Option.mem_def.mp hln] at hhead
      simpa using hhead

/-- **What the edit does to the parts**: only the lines of the section are others. -/
theorem Sectioned.wireLines (h : Sectioned osTag pre header body post) (kv : List (Text × Setting)) :
    (wireLines osTag kv (pre ++ header :: (body ++ post))).1 = pre ++ header :: (wiredBody kv body ++ post) := by
  have hpre : ∀ ln ∈ pre, decide (strip ln ≠ sectionOf osTag) = true := by simpa using h.before
  have hbody : ∀ ln ∈ body, decide (ln.head? ≠ some '[') = true := by simpa using h.body
  have hfound : (pre ++ header :: (body ++ post)).dropWhile (fun ln => strip ln ≠ sectionOf osTag) = header :: (body ++ post) := by
    rw [List.dropWhile_append_of_pos hpre, List.dropWhile_cons_of_neg (by simp [h.header])]
  have hbefore : (pre ++ header :: (body ++ post)).takeWhile (fun ln => strip ln ≠ sectionOf osTag) = pre := by
    rw [List.takeWhile_append_of_pos hpre, List.takeWhile_cons_of_neg (by simp [h.header]), List.append_nil]
  have hends : post.takeWhile (fun ln => ln.head? ≠ some '[') = [] ∧ post.dropWhile (fun ln => ln.head? ≠ some '[') = post := by
    cases post with
    | nil => exact ⟨rfl, rfl⟩
    | cons ln post =>
      have hln : ln.head? = some '[' := h.after ln rfl
      exact ⟨List.takeWhile_cons_of_neg (by simp [hln]), List.dropWhile_cons_of_neg (by simp [hln])⟩
  have hown : (body ++ post).takeWhile (fun ln => ln.head? ≠ some '[') = body := by
    rw [List.takeWhile_append_of_pos hbody, hends.1, List.append_nil]
  have hpost : (body ++ post).dropWhile (fun ln => ln.head? ≠ some '[') = post := by
    rw [List.dropWhile_append_of_pos hbody, hends.2]
  rw [Provision.wireLines, hfound]
  dsimp only
  rw [hown, hpost, hbefore]
  simp [wiredBody, newBody, Provision.remaining]

theorem mem_wiredBody {x : Text} (h : x ∈ wiredBody kv body) :
    x ∈ body ∨ (∃ ln ∈ body, x = breadcrumb ln) ∨ ∃ s ∈ kv, x = settingLine s := by
  have hnew : ∀ x ∈ newBody kv body, x ∈ body ∨ (∃ ln ∈ body, x = breadcrumb ln) ∨ ∃ s ∈ kv, x = settingLine s := by
    intro x hx
    rcases mem_newBody hx with hx | hx | ⟨s, hs, hx, -⟩
    · exact .inl hx
    · exact .inr (.inl hx)
    · exact .inr (.inr ⟨s, hs, hx⟩)
  rcases List.mem_append.mp h with h | h
  · rcases List.mem_append.mp h with h | h
    · exact hnew x ((List.rdropWhile_prefix isBlankLine _).subset h)
    · obtain ⟨s, hs, rfl⟩ := List.mem_map.mp h
      exact .inr (.inr ⟨s, (of_mem_remaining hs).1, rfl⟩)
  · exact hnew x ((List.rtakeWhile_suffix isBlankLine _).subset h)

theorem head?_settingLine (hk : Bare k) : (settingLine (k, v)).head? ≠ some '[' := by
  rw [settingLine, List.head?_append_of_ne_nil _ hk.1]
  intro hc
  exact absurd (hk.2 _ (List.mem_of_mem_head? hc)) (by decide)

/-- The section is where it was. -/
theorem Sectioned.wired (h : Sectioned osTag pre header body post) (hkv : Settings kv) :
    Sectioned osTag pre header (wiredBody kv body) post where
  before := h.before
  header := h.header
  after := h.after
  body x hx := by
    rcases mem_wiredBody hx with hx | ⟨ln, -, rfl⟩ | ⟨s, hs, rfl⟩
    · exact h.body x hx
    · exact fun hc => absurd (Option.some.inj hc) (by decide)
    · exact head?_settingLine (hkv.bare s hs)

/-- The edit leaves a section alone in which there is nothing to do. -/
theorem Sectioned.wireLines_fixed (h : Sectioned osTag pre header body post) (hdone : Done kv body) :
    (Provision.wireLines osTag kv (pre ++ header :: (body ++ post))).1 = pre ++ header :: (body ++ post) := by
  rw [h.wireLines, wiredBody, hdone.1, hdone.2, List.map_nil, List.append_nil, List.rdropWhile_append_rtakeWhile]

theorem Sectioned.header_ne_nil (h : Sectioned osTag pre header body post) : header ≠ [] := by
  rintro rfl
  exact absurd h.header (by simp [strip, PyText.lstripL, PyText.rstripL, sectionOf])

/-- An empty line at the end makes no difference to that. -/
theorem Sectioned.wireLines_fixed_init (h : Sectioned osTag pre header body post) (hdone : Done kv body)
    (heq : pre ++ header :: (body ++ post) = xs ++ [[]]) : (Provision.wireLines osTag kv xs).1 = xs := by
  rcases List.eq_nil_or_concat post with rfl | ⟨post, ln, rfl⟩
  · rcases List.eq_nil_or_concat body with rfl | ⟨body, ln, rfl⟩
    · obtain ⟨-, hheader⟩ := List.append_inj' heq rfl
      exact absurd (List.cons.inj hheader).1 h.header_ne_nil
    · have hassoc : pre ++ header :: ((body ++ [ln]) ++ []) = (pre ++ header :: (body ++ [])) ++ [ln] := by simp
      rw [List.concat_eq_append] at h hdone heq
      rw [hassoc] at heq
      obtain ⟨rfl, hln⟩ := List.append_inj' heq rfl
      obtain rfl := (List.cons.inj hln).1
      have hbody : Sectioned osTag pre header body [] :=
        ⟨h.before, h.header, fun ln hln => h.body ln (List.mem_append_left _ hln), by simp⟩
      exact hbody.wireLines_fixed hdone.of_blank
  · rw [List.concat_eq_append] at h heq
    have hassoc : pre ++ header :: (body ++ (post ++ [ln])) = (pre ++ header :: (body ++ post)) ++ [ln] := by simp
    rw [hassoc] at heq
    obtain ⟨rfl, hln⟩ := List.append_inj' heq rfl
    obtain rfl := (List.cons.inj hln).1
    have hpost : Sectioned osTag pre header body post := by
      refine ⟨h.before, h.header, h.body, fun ln hln => ?_⟩
      refine h.after ln ?_
      rw [List.head?_append_of_ne_nil _ (List.ne_nil_of_mem (List.mem_of_mem_head? hln))]
      exact hln
    exact hpost.wireLines_fixed hdone

/-! ### The last lines -/

theorem isBlankLine_settingLine (hk : Bare k) : isBlankLine (settingLine (k, v)) = false := by
  rw [isBlankLine, strip_settingLine hk, List.isEmpty_eq_false_iff, settingLine]
  exact List.append_ne_nil_of_left_ne_nil hk.1 _

/-- The blank lines at the end of a section are those it had. -/
theorem rtakeWhile_newBody (h : Settings rem) (lns : List Text) :
    (newBody rem lns).rtakeWhile isBlankLine = lns.rtakeWhile isBlankLine := by
  induction lns using List.reverseRecOn with
  | nil => rfl
  | append_singleton lns ln ih =>
    rw [(editBody_append rem lns [ln]).1]
    rcases line_cases (remaining rem lns) ln with ⟨k, v, hkey, hlookup⟩ | hnone
    · have hsolid : isBlankLine ln = false := by
        by_contra hblank
        rw [lineKey_blank (by simpa using hblank)] at hkey
        cases hkey
      have hset : isBlankLine (settingLine (k, v)) = false :=
        isBlankLine_settingLine ((h.remaining lns).bare _ (Assoc.mem_of_lookup hlookup))
      rw [(editBody_of_lookup [] hkey hlookup).1, List.rtakeWhile_concat_neg _ _ _ (by simp [hsolid])]
      have hlast : newBody (Assoc.without k (remaining rem lns)) [] = [] := rfl
      rw [hlast, ← List.append_assoc, List.rtakeWhile_concat_neg _ _ _ (by simp [hset])]
    · have hlast : newBody (remaining rem lns) [] = [] := rfl
      rw [(editBody_of_notMem [] hnone).1, hlast]
      by_cases hblank : isBlankLine ln = true
      · rw [List.rtakeWhile_concat_pos _ _ _ hblank, List.rtakeWhile_concat_pos _ _ _ hblank, ih]
      · rw [List.rtakeWhile_concat_neg _ _ _ hblank, List.rtakeWhile_concat_neg _ _ _ hblank]

theorem rtakeWhile_wiredBody (h : Settings kv) (own : List Text) :
    (wiredBody kv own).rtakeWhile isBlankLine = own.rtakeWhile isBlankLine := by
  rw [← rtakeWhile_newBody h own, wiredBody]
  rcases List.eq_nil_or_concat (remaining kv own) with hnil | ⟨rest, s, hrest⟩
  · rw [hnil, List.map_nil, List.append_nil, List.rdropWhile_append_rtakeWhile]
  · have hset : isBlankLine (settingLine s) = false := by
      refine isBlankLine_settingLine ((h.remaining own).bare s ?_)
      rw [hrest]
      simp
    have hparts : (newBody kv own).rdropWhile isBlankLine ++ (remaining kv own).map settingLine ++
        (newBody kv own).rtakeWhile isBlankLine = ((newBody kv own).rdropWhile isBlankLine ++ rest.map settingLine) ++
          settingLine s :: (newBody kv own).rtakeWhile isBlankLine := by
      rw [hrest]
      simp
    rw [hparts, (rdropWhile_append_cons isBlankLine _ hset _).2, List.rtakeWhile_idempotent]

/-- Two empty lines end a list exactly if they end what follows a line that is not empty. -/
theorem two_suffix_append_cons {ln : Text} (hln : ln ≠ []) : [[], []] <:+ xs ++ ln :: lns ↔ [[], []] <:+ lns := by
  constructor
  · rintro ⟨front, hfront⟩
    rcases List.append_eq_append_iff.mp hfront with ⟨mid, -, hmid⟩ | ⟨mid, -, hmid⟩
    · have hmem : ln ∈ ([[], []] : List Text) := by
        rw [hmid]
        simp
      simp [hln] at hmem
    · cases mid with
      | nil => exact absurd (List.cons.inj hmid).1 hln
      | cons m mid => exact ⟨mid, (List.cons.inj hmid).2.symm⟩
  · exact fun h => h.trans ((List.suffix_cons ln lns).trans (List.suffix_append xs _))

theorem two_suffix_iff_rtakeWhile : [[], []] <:+ lns ↔ [[], []] <:+ lns.rtakeWhile isBlankLine := by
  constructor
  · rintro ⟨front, rfl⟩
    have hassoc : front ++ [[], []] = (front ++ [[]]) ++ [[]] := by simp
    rw [hassoc, List.rtakeWhile_concat_pos _ _ _ rfl, List.rtakeWhile_concat_pos _ _ _ rfl]
    exact ⟨front.rtakeWhile isBlankLine, by simp⟩
  · exact fun h => h.trans (List.rtakeWhile_suffix _ _)

/-- The edit keeps the empty lines at the end of a file. -/
theorem Sectioned.two_suffix_wired (h : Sectioned osTag pre header body post) (hkv : Settings kv) :
    [[], []] <:+ pre ++ header :: (wiredBody kv body ++ post) ↔ [[], []] <:+ pre ++ header :: (body ++ post) := by
  rw [two_suffix_append_cons h.header_ne_nil, two_suffix_append_cons h.header_ne_nil]
  cases post with
  | nil =>
    rw [List.append_nil, List.append_nil, two_suffix_iff_rtakeWhile, rtakeWhile_wiredBody hkv, ← two_suffix_iff_rtakeWhile]
  | cons ln post =>
    have hln : ln ≠ [] := by
      rintro rfl
      cases h.after [] rfl
    rw [two_suffix_append_cons hln, two_suffix_append_cons hln]

/-! ### Lines without line breaks -/

/-- No line ends within the line. -/
def Unbroken (ln : Text) : Prop := ∀ c ∈ ln, PyText.isLineBreak c = false

instance (ln : Text) : Decidable (Unbroken ln) := inferInstanceAs (Decidable (∀ c ∈ ln, PyText.isLineBreak c = false))

theorem Unbroken.append (h : Unbroken ln) {ln' : Text} (h' : Unbroken ln') : Unbroken (ln ++ ln') :=
  List.forall_mem_append.mpr ⟨h, h'⟩

theorem unbroken_of_not_isSpace (h : ∀ c ∈ ln, PyText.isSpace c = false) : Unbroken ln := by
  intro c hc
  by_contra hbreak
  have hspace := PyText.isSpace_of_isLineBreak (by simpa using hbreak)
  rw [h c hc] at hspace
  cases hspace

theorem Unbroken.getLast? (h : Unbroken ln) : ln.getLast? ≠ some '\n' :=
  fun hlast => absurd (h '\n' (List.mem_of_mem_getLast? hlast)) (by decide)

theorem unbroken_settingLine (hk : Bare k) (hv : v.OneLine) : Unbroken (settingLine (k, v)) := by
  have hkey : Unbroken k := unbroken_of_not_isSpace fun c hc => not_isSpace_of_isBare (hk.2 c hc)
  have hsep : Unbroken " = ".toList := by decide
  refine hkey.append (hsep.append ?_)
  cases v with
  | str s =>
    have hs : Unbroken s := hv
    have hquote : Unbroken ['"'] := by decide
    exact hquote.append (hs.append hquote)
  | int n =>
    refine unbroken_of_not_isSpace fun c hc => ?_
    rcases mem_dumpInt hc with rfl | hdigit
    · decide
    · exact not_isSpace_of_isBare (by simp [isBare, Char.isAlphanum, hdigit])
  | bool b =>
    have hboth : ∀ b, Unbroken (tomlValue (.bool b)) := by decide
    exact hboth b

theorem unbroken_breadcrumb (h : Unbroken ln) : Unbroken (breadcrumb ln) := by
  have hfront : Unbroken "# was: ".toList := by decide
  have hback : Unbroken "   (provision rollback)".toList := by decide
  have hstrip : Unbroken (strip ln) := fun c hc => h c (strip_subset hc)
  exact hfront.append (hstrip.append hback)

theorem unbroken_wiredBody (hbare : ∀ s ∈ kv, Bare s.1) (hline : ∀ s ∈ kv, s.2.OneLine) (h : ∀ ln ∈ body, Unbroken ln) :
    ∀ x ∈ wiredBody kv body, Unbroken x := by
  intro x hx
  rcases mem_wiredBody hx with hx | ⟨ln, hln, rfl⟩ | ⟨s, hs, rfl⟩
  · exact h x hx
  · exact unbroken_breadcrumb (h ln hln)
  · exact unbroken_settingLine (hbare s hs) (hline s hs)

theorem unbroken_splitlinesL (orig : Text) : ∀ ln ∈ PyText.splitlinesL [] orig, Unbroken ln :=
  fun _ hln => PyText.isLineBreak_of_mem_splitlinesL hln (by simp)

/-! ### The text of the lines -/

/-- The text that ends a line, or has none. -/
def endsLine (t : Text) : Bool := t.getLast? = some '\n' || t = []

/-- The lines, joined; a newline is put at the end if the text before had one. -/
def render (ended : Bool) (ls : List Text) : Text :=
  if ended = true ∧ (['\n'].intercalate ls).getLast? ≠ some '\n' then ['\n'].intercalate ls ++ ['\n']
  else ['\n'].intercalate ls

theorem wireConfig_text (orig osTag : Text) (kv : List (Text × Setting)) : (wireConfig orig osTag kv).text =
    render (endsLine orig) (wireLines osTag kv (PyText.splitlinesL [] orig)).1 := by
  simp [wireConfig, render, endsLine]

variable {ls : List Text} {e : Bool}

theorem getLast?_ended (hne : ls ≠ []) : (ls.flatMap (· ++ ['\n'])).getLast? = some '\n' := by
  obtain ⟨front, ln, rfl⟩ := List.eq_nil_or_concat ls |>.resolve_left hne
  rw [List.concat_eq_append, List.flatMap_append, List.flatMap_singleton, ← List.append_assoc, List.getLast?_concat]

theorem render_solid (e : Bool) (hne : ln ≠ []) (hln : Unbroken ln) :
    render e (ls ++ [ln]) = ls.flatMap (· ++ ['\n']) ++ (ln ++ if e then ['\n'] else []) := by
  have hlast : (ls.flatMap (· ++ ['\n']) ++ ln).getLast? ≠ some '\n' := by
    rw [List.getLast?_append_of_ne_nil _ hne]
    exact hln.getLast?
  rw [render, PyText.intercalate_concat]
  cases e with
  | false => simp
  | true => rw [if_pos ⟨rfl, hlast⟩, if_pos rfl, List.append_assoc]

theorem render_empty (e : Bool) (hne : ls ≠ []) : render e (ls ++ [[]]) = ls.flatMap (· ++ ['\n']) := by
  rw [render, PyText.intercalate_concat, List.append_nil, if_neg]
  exact fun h => h.2 (getLast?_ended hne)

theorem endsLine_ended (hne : ls ≠ []) : endsLine (ls.flatMap (· ++ ['\n'])) = true := by
  rw [endsLine, getLast?_ended hne]
  rfl

/-- **A text whose last line is not empty** is what its lines give. -/
theorem wireConfig_solid (hfix : (wireLines osTag kv (ls ++ [ln])).1 = ls ++ [ln]) (hls : ∀ l ∈ ls, Unbroken l) (hne : ln ≠ [])
    (hln : Unbroken ln) : (wireConfig (render e (ls ++ [ln])) osTag kv).text = render e (ls ++ [ln]) := by
  have hlines : PyText.splitlinesL [] (render e (ls ++ [ln])) = ls ++ [ln] := by
    rw [render_solid e hne hln, PyText.splitlinesL_ended hls]
    cases e with
    | false => exact congrArg (ls ++ ·) ((congrArg _ (List.append_nil ln)).trans (PyText.splitlinesL_of_noBreak (.inr hne) hln))
    | true => exact congrArg (ls ++ ·) (PyText.splitlinesL_line hln)
  have hends : endsLine (render e (ls ++ [ln])) = e := by
    rw [render_solid e hne hln, endsLine]
    cases e with
    | false => simp [List.getLast?_append_of_ne_nil _ hne, hln.getLast?, hne]
    | true => simp [← List.append_assoc]
  rw [wireConfig_text, hlines, hends, hfix]

/-- **A text whose last line is empty** loses that line, and stays if there was one. -/
theorem wireConfig_empty (hfix : (wireLines osTag kv ls).1 = ls) (hls : ∀ l ∈ ls, Unbroken l) (hne : ls ≠ [[]]) (hnil : ls ≠ []) :
    (wireConfig (render e (ls ++ [[]])) osTag kv).text = render e (ls ++ [[]]) ↔ ¬ [[], []] <:+ ls ++ [[]] := by
  have hlines : PyText.splitlinesL [] (ls.flatMap (· ++ ['\n'])) = ls := by
    have hended := PyText.splitlinesL_ended hls []
    rwa [List.append_nil, show PyText.splitlinesL [] [] = [] from rfl, List.append_nil] at hended
  rw [render_empty e hnil, wireConfig_text, hlines, endsLine_ended hnil, hfix]
  obtain ⟨front, ln, rfl⟩ := List.eq_nil_or_concat ls |>.resolve_left hnil
  rw [List.concat_eq_append] at *
  by_cases hln : ln = []
  · subst hln
    have hfront : front ≠ [] := by
      rintro rfl
      exact hne rfl
    rw [render_empty true hfront]
    refine iff_of_false (fun heq => ?_) (not_not.mpr ⟨front, by simp⟩)
    have hlen := congrArg List.length heq
    simp at hlen
  · have hunbroken : Unbroken ln := hls ln (by simp)
    rw [render_solid true hln hunbroken]
    refine iff_of_true (by simp) ?_
    rintro ⟨more, hmore⟩
    have hassoc : more ++ [[], []] = (more ++ [[]]) ++ [[]] := by simp
    rw [hassoc] at hmore
    obtain ⟨hmore, -⟩ := List.append_inj' hmore rfl
    obtain ⟨-, heq⟩ := List.append_inj' hmore rfl
    exact hln (List.cons.inj heq).1.symm

/-! ### Two runs -/

theorem strip_sectionOf (osTag : Text) : strip (sectionOf osTag) = sectionOf osTag := by
  refine PyText.strip_eq_self ?_ ?_
  · intro c hc
    obtain rfl : '[' = c := Option.some.inj hc
    decide
  · intro c hc
    rw [sectionOf, ← List.cons_append, List.getLast?_concat] at hc
    obtain rfl : ']' = c := Option.some.inj hc
    decide

/-- A file that has the section is left alone unless it ends in two empty lines. -/
theorem unchanged_found (hkv : Settings kv) (hline : ∀ s ∈ kv, s.2.OneLine)
    (h : ∃ ln ∈ PyText.splitlinesL [] orig, strip ln = sectionOf osTag) :
    Unchanged orig osTag kv ↔ ¬ [[], []] <:+ PyText.splitlinesL [] orig := by
  obtain ⟨pre, header, body, post, hparts, hsec⟩ := exists_sectioned h
  have hold := unbroken_splitlinesL orig
  rw [Unchanged, wireConfig_text orig]
  rw [hparts] at hold ⊢
  rw [← hsec.two_suffix_wired hkv, hsec.wireLines]
  have hwired := hsec.wired hkv
  have hdone := done_wiredBody hkv body
  have hnew : ∀ ln ∈ pre ++ header :: (wiredBody kv body ++ post), Unbroken ln := by
    intro ln hln
    simp only [List.mem_append, List.mem_cons] at hold hln
    rcases hln with hln | rfl | hln | hln
    · exact hold ln (.inl hln)
    · exact hold ln (.inr (.inl rfl))
    · exact unbroken_wiredBody hkv.bare hline (fun x hx => hold x (.inr (.inr (.inl hx)))) ln hln
    · exact hold ln (.inr (.inr (.inr hln)))
  have hheader : header ∈ pre ++ header :: (wiredBody kv body ++ post) := by simp
  have hfixed := hwired.wireLines_fixed hdone
  have hinit : ∀ xs, pre ++ header :: (wiredBody kv body ++ post) = xs ++ [[]] → (wireLines osTag kv xs).1 = xs :=
    fun _ heq => hwired.wireLines_fixed_init hdone heq
  generalize pre ++ header :: (wiredBody kv body ++ post) = ls at hnew hheader hfixed hinit
  obtain ⟨front, ln, rfl⟩ := List.eq_nil_or_concat ls |>.resolve_left (List.ne_nil_of_mem hheader)
  rw [List.concat_eq_append] at *
  have hfront : ∀ l ∈ front, Unbroken l := fun l hl => hnew l (List.mem_append_left _ hl)
  by_cases hln : ln = []
  · subst hln
    refine wireConfig_empty (hinit front rfl) hfront ?_ ?_
    · rintro rfl
      exact hsec.header_ne_nil (by simpa using hheader)
    · rintro rfl
      exact hsec.header_ne_nil (by simpa using hheader)
  · refine iff_of_true (wireConfig_solid hfixed hfront hln (hnew ln (by simp))) ?_
    rw [two_suffix_append_cons hln]
    rintro ⟨more, hmore⟩
    simp at hmore

/-- A file without the section has it once it was added. -/
theorem unchanged_missing (hos : Unbroken osTag) (hkv : Settings kv) (hline : ∀ s ∈ kv, s.2.OneLine)
    (h : ∀ ln ∈ PyText.splitlinesL [] orig, strip ln ≠ sectionOf osTag) : Unchanged orig osTag kv := by
  obtain ⟨gap, hgap, hlines⟩ := wireLines_missing kv h
  have hempty : ∀ ln ∈ gap, ln = [] := by
    intro ln hln
    rcases hgap with rfl | rfl
    · cases hln
    · exact List.mem_singleton.mp hln
  have hsec : Sectioned osTag (PyText.splitlinesL [] orig ++ gap) (sectionOf osTag) (kv.map settingLine) [] := by
    refine ⟨fun ln hln => ?_, strip_sectionOf osTag, fun ln hln => ?_, by simp⟩
    · rcases List.mem_append.mp hln with hln | hln
      · exact h ln hln
      · rw [hempty ln hln]
        exact fun heq => by cases heq
    · obtain ⟨s, hs, rfl⟩ := List.mem_map.mp hln
      exact head?_settingLine (hkv.bare s hs)
  have hfixed := hsec.wireLines_fixed (newBody_settings hkv)
  have hadded : ∀ ln ∈ sectionOf osTag :: (kv.map settingLine ++ []), ln ≠ [] ∧ Unbroken ln := by
    intro ln hln
    rw [List.append_nil] at hln
    rcases List.mem_cons.mp hln with rfl | hln
    · have hopening : Unbroken ['['] := by decide
      have hclosing : Unbroken [']'] := by decide
      exact ⟨List.cons_ne_nil _ _, hopening.append (hos.append hclosing)⟩
    · obtain ⟨s, hs, rfl⟩ := List.mem_map.mp hln
      exact ⟨List.append_ne_nil_of_left_ne_nil (hkv.bare s hs).1 _, unbroken_settingLine (hkv.bare s hs) (hline s hs)⟩
  have hnew : ∀ ln ∈ PyText.splitlinesL [] orig ++ gap, Unbroken ln := by
    intro ln hln
    rcases List.mem_append.mp hln with hln | hln
    · exact unbroken_splitlinesL orig ln hln
    · rw [hempty ln hln]
      exact fun c hc => by cases hc
  obtain ⟨front, ln, hlast⟩ := List.eq_nil_or_concat (sectionOf osTag :: (kv.map settingLine ++ [])) |>.resolve_left (by simp)
  rw [List.concat_eq_append] at hlast
  rw [hlast] at hadded hlines hfixed
  obtain ⟨hne, hln⟩ := hadded ln (by simp)
  rw [← List.append_assoc] at hlines hfixed
  rw [Unchanged, wireConfig_text orig, hlines]
  refine wireConfig_solid hfixed (fun l hl => ?_) hne hln
  rcases List.mem_append.mp hl with hl | hl
  · exact hnew l hl
  · exact (hadded l (List.mem_append_left _ hl)).2

/-! ### Values on several lines -/

/-- The number of lines that are not blank in the texts. -/
def solids (ls : List Text) : ℕ := (ls.map (PyText.solidLines [])).sum

theorem solids_append (xs ys : List Text) : solids (xs ++ ys) = solids xs + solids ys := by simp [solids]

theorem solids_cons (x : Text) (xs : List Text) : solids (x :: xs) = PyText.solidLines [] x + solids xs := by simp [solids]

theorem le_solids_of_mem {x : Text} (h : x ∈ xs) : PyText.solidLines [] x ≤ solids xs := by
  obtain ⟨front, back, rfl⟩ := List.append_of_mem h
  rw [solids_append, solids_cons]
  omega

theorem solidLines_render (e : Bool) (ls : List Text) : PyText.solidLines [] (render e ls) = solids ls := by
  rw [render]
  split_ifs
  · rw [PyText.solidLines_append_break rfl, PyText.solidLines_intercalate]
    rfl
  · exact PyText.solidLines_intercalate ls

theorem solidLines_le_one (h : Unbroken ln) : PyText.solidLines [] ln ≤ 1 := by
  rw [PyText.solidLines_unbroken h]
  split_ifs <;> simp

theorem isSolid_bare (hk : Bare k) (ys : Text) : PyText.isSolid (k ++ ys) = true := by
  obtain ⟨c, k, rfl⟩ := List.exists_cons_of_ne_nil hk.1
  simp [PyText.isSolid, not_isSpace_of_isBare (hk.2 c List.mem_cons_self)]

theorem one_le_settingLine (hk : Bare k) : 1 ≤ PyText.solidLines [] (settingLine (k, v)) :=
  PyText.solidLines_pos (isSolid_bare hk _)

/-- The line of a setting whose value has a line break is two lines at least: the key stands before it, and
the quote after it. -/
theorem two_le_settingLine (hk : Bare k) (hv : ¬ v.OneLine) : 2 ≤ PyText.solidLines [] (settingLine (k, v)) := by
  cases v with
  | str s =>
    simp only [Setting.OneLine, not_forall, Bool.not_eq_false] at hv
    obtain ⟨c, hc, hbreak⟩ := hv
    obtain ⟨xs, ys, rfl⟩ := List.append_of_mem hc
    have hparts : settingLine (k, .str (xs ++ c :: ys)) = (k ++ (" = ".toList ++ '"' :: xs)) ++ c :: (ys ++ ['"']) := by
      simp [settingLine, tomlValue]
    have hback : PyText.isSolid (ys ++ ['"']) = true := by
      rw [PyText.isSolid, List.any_append]
      exact Bool.or_eq_true_iff.mpr (.inr rfl)
    have hbefore : 0 < PyText.solidLines [] (k ++ (" = ".toList ++ '"' :: xs)) := PyText.solidLines_pos (isSolid_bare hk _)
    have hafter : 0 < PyText.solidLines [] (ys ++ ['"']) := PyText.solidLines_pos hback
    rw [hparts, PyText.solidLines_append_break hbreak]
    omega
  | int n => exact absurd trivial hv
  | bool b => exact absurd trivial hv

/-- The loop loses no line, and adds one for a value on several lines. -/
theorem solids_newBody (h : Settings rem) (hlns : ∀ ln ∈ lns, Unbroken ln) :
    solids lns ≤ solids (newBody rem lns) + solids ((remaining rem lns).map settingLine) ∧
      ((∃ s ∈ rem, ¬ s.2.OneLine) → solids lns < solids (newBody rem lns) + solids ((remaining rem lns).map settingLine)) := by
  induction lns generalizing rem with
  | nil =>
    refine ⟨Nat.zero_le _, ?_⟩
    rintro ⟨s, hs, hline⟩
    have htwo : 2 ≤ PyText.solidLines [] (settingLine s) := two_le_settingLine (h.bare s hs) hline
    have hle : PyText.solidLines [] (settingLine s) ≤ solids (rem.map settingLine) := le_solids_of_mem (List.mem_map_of_mem hs)
    have hnil : remaining rem [] = rem := rfl
    have hzero : solids [] = 0 := rfl
    rw [hnil]
    omega
  | cons ln lns ih =>
    obtain ⟨hln, hlns⟩ := List.forall_mem_cons.mp hlns
    have hone := solidLines_le_one hln
    rcases line_cases rem ln with ⟨k, v, hkey, hlookup⟩ | hnone
    · have hmem := Assoc.mem_of_lookup hlookup
      have hset : 1 ≤ PyText.solidLines [] (settingLine (k, v)) := one_le_settingLine (h.bare _ hmem)
      obtain ⟨hle, hlt⟩ := ih (h.without k) hlns
      rw [(editBody_of_lookup lns hkey hlookup).1, (editBody_of_lookup lns hkey hlookup).2, solids_append, solids_cons,
        solids_cons]
      refine ⟨by omega, ?_⟩
      rintro ⟨s, hs, hline⟩
      by_cases hk : s.1 = k
      · subst hk
        obtain rfl := Assoc.eq_of_mem h.nodup hmem hs
        have htwo : 2 ≤ PyText.solidLines [] (settingLine (s.1, s.2)) := two_le_settingLine (h.bare _ hmem) hline
        omega
      · have hrest := hlt ⟨s, Assoc.mem_without.mpr ⟨hs, hk⟩, hline⟩
        omega
    · obtain ⟨hle, hlt⟩ := ih h hlns
      rw [(editBody_of_notMem lns hnone).1, (editBody_of_notMem lns hnone).2, solids_cons, solids_cons]
      refine ⟨by omega, fun hexists => ?_⟩
      have hrest := hlt hexists
      omega

theorem solids_wiredBody (kv : List (Text × Setting)) (own : List Text) :
    solids (wiredBody kv own) = solids (newBody kv own) + solids ((remaining kv own).map settingLine) := by
  have hsplit := congrArg solids (@List.rdropWhile_append_rtakeWhile _ isBlankLine (newBody kv own))
  rw [solids_append] at hsplit
  rw [wiredBody, solids_append, solids_append]
  omega

/-- So each run adds a line for a value on several lines. -/
theorem solids_wireLines (h : Settings kv) (hlines : ∀ ln ∈ lines, Unbroken ln) (hline : ∃ s ∈ kv, ¬ s.2.OneLine) :
    solids lines < solids (wireLines osTag kv lines).1 := by
  by_cases hfound : ∃ ln ∈ lines, strip ln = sectionOf osTag
  · obtain ⟨pre, header, body, post, rfl, hsec⟩ := exists_sectioned hfound
    have hbody : ∀ ln ∈ body, Unbroken ln := fun ln hln => hlines ln (by simp [hln])
    have hlt := (solids_newBody h hbody).2 hline
    rw [hsec.wireLines, solids_append, solids_append, solids_cons, solids_cons, solids_append, solids_append, solids_wiredBody]
    omega
  · push Not at hfound
    obtain ⟨gap, -, hadded⟩ := wireLines_missing kv hfound
    obtain ⟨s, hs, hs'⟩ := hline
    have hle : PyText.solidLines [] (settingLine s) ≤ solids (kv.map settingLine) := le_solids_of_mem (List.mem_map_of_mem hs)
    have htwo : 2 ≤ PyText.solidLines [] (settingLine s) := two_le_settingLine (h.bare s hs) hs'
    rw [hadded, List.append_nil, solids_append, solids_append, solids_cons]
    omega

theorem not_unchanged_of_lines (h : Settings kv) (hline : ∃ s ∈ kv, ¬ s.2.OneLine) : ¬ Unchanged orig osTag kv := by
  intro heq
  have hlt : solids (PyText.splitlinesL [] (wireConfig orig osTag kv).text) <
      solids (wireLines osTag kv (PyText.splitlinesL [] (wireConfig orig osTag kv).text)).1 :=
    solids_wireLines h (unbroken_splitlinesL _) hline
  have hsame := congrArg (PyText.solidLines []) heq
  rw [wireConfig_text (wireConfig orig osTag kv).text, solidLines_render, PyText.solidLines_eq_sum] at hsame
  exact absurd hsame hlt.ne'

/-- **Exactly when a second run leaves the text alone.** -/
theorem rewiring_unchanged_iff (hos : ∀ c ∈ osTag, PyText.isLineBreak c = false) (hkv : Settings kv) :
    Unchanged orig osTag kv ↔ Settles orig osTag kv := by
  by_cases hline : ∀ s ∈ kv, s.2.OneLine
  · by_cases hfound : ∃ ln ∈ PyText.splitlinesL [] orig, strip ln = sectionOf osTag
    · rw [unchanged_found hkv hline hfound]
      exact ⟨fun h => ⟨hline, fun _ => h⟩, fun h => h.ending hfound⟩
    · refine iff_of_true (unchanged_missing hos hkv hline ?_) ⟨hline, fun h => absurd h hfound⟩
      push Not at hfound
      exact hfound
  · refine iff_of_false (not_unchanged_of_lines hkv ?_) fun h => hline h.oneLine
    push Not at hline
    exact hline

/-- A setting of the window. -/
def oneSetting : List (Text × Setting) := [("PERSONA_CTX".toList, .int 8192)]

/-- A file that ends in two empty lines. -/
def twoEmptyLines : Text := "[linux]\nPERSONA_CTX = 8192\n\n\n".toList

/-- The second run takes one of them. -/
theorem not_unchanged_twoEmptyLines : ¬ Unchanged twoEmptyLines "linux".toList oneSetting := by
  unfold Unchanged
  decide

theorem settings_oneSetting : Settings oneSetting where
  bare := by decide
  nodup := by decide
  unquoted s hs := by
    rw [List.mem_singleton.mp hs]
    trivial

/-- A file with another value and another section, and no newline at its end. -/
theorem unchanged_otherValue : Unchanged "# mine\n[linux]\nPERSONA_CTX = 4096\n\n[runtime]\nRAG = 1".toList "linux".toList oneSetting := by
  refine (rewiring_unchanged_iff (by decide) settings_oneSetting).mpr ⟨fun s hs => ?_, fun _ => by decide⟩
  rw [List.mem_singleton.mp hs]
  trivial

end Persona.Provision
