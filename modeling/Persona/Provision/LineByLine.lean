import Persona.Provision.Rewiring

/-!
# The edit, line by line

What `wire_config` of `scripts/provision_fetch.py` leaves of a file. `Rewritten` says what may happen to the
lines of the section one by one, with the lines before each as all that matters; the loop keeps the settings
that it has not met instead. `wireConfig_lineByLine` is the frame: every line that is not blank is where it was,
or the assignment of a setting is in its place.

A model that is replaced is remembered by a comment, which has the line without the blanks around it.
-/

namespace Persona.Provision

open Persona.Lib Persona.TomlText

/-! ### The frame -/

/-- The lines that are not blank. -/
def shown (lines : List Text) : List Text := lines.filterMap fun ln => if isBlankLine ln then none else some ln

/-- The setting that a line assigns. -/
def assigned (kv : List (Text × Setting)) (ln : Text) : Option (Text × Setting) :=
  (lineKey ln).bind fun k => (kv.lookup k).map fun v => (k, v)

/-- The line has another model than the setting. -/
def ChangesModel (ln : Text) (s : Text × Setting) : Prop := s.1 = "PERSONA_MODEL".toList ∧ oldValue ln ≠ s.2.pyStr

/-- The lines of a section that come after some others, and what they are replaced by: the first line that
assigns a setting, by the new assignment, with a comment before it that remembers another model. -/
inductive Rewritten (remembers : Text → Text → Prop) (kv : List (Text × Setting)) : List Text → List Text → List Text → Prop
  | nil {earlier : List Text} : Rewritten remembers kv earlier [] []
  | keep {earlier lns out : List Text} {ln : Text} : (∀ s, assigned kv ln = some s → s.1 ∈ earlier.filterMap lineKey) →
      Rewritten remembers kv (earlier ++ [ln]) lns out → Rewritten remembers kv earlier (ln :: lns) (ln :: out)
  | set {earlier lns out : List Text} {ln : Text} {s : Text × Setting} : assigned kv ln = some s →
      s.1 ∉ earlier.filterMap lineKey → ¬ ChangesModel ln s →
      Rewritten remembers kv (earlier ++ [ln]) lns out → Rewritten remembers kv earlier (ln :: lns) (settingLine s :: out)
  | model {earlier lns out : List Text} {ln comment : Text} {s : Text × Setting} : assigned kv ln = some s →
      s.1 ∉ earlier.filterMap lineKey → ChangesModel ln s → comment.head? = some '#' → remembers ln comment →
      Rewritten remembers kv (earlier ++ [ln]) lns out →
      Rewritten remembers kv earlier (ln :: lns) (comment :: settingLine s :: out)

/-- The settings that no line of a section assigns. -/
def unassigned (kv : List (Text × Setting)) (body : List Text) : List (Text × Setting) :=
  kv.filter fun s => !(body.filterMap lineKey).contains s.1

/-- The lines of the result that are not blank are those of the file, but for the rewritten ones of the section
and the assignments that are added at its end; or at the end of the file, in a new section. -/
structure LineByLine (remembers : Text → Text → Prop) (orig osTag : Text) (kv : List (Text × Setting)) (result : List Text) :
    Prop where
  missing : (∀ ln ∈ PyText.splitlinesL [] orig, strip ln ≠ sectionOf osTag) →
    shown result = shown (PyText.splitlinesL [] orig) ++ sectionOf osTag :: kv.map settingLine
  found : ∀ pre header body post, PyText.splitlinesL [] orig = pre ++ header :: (body ++ post) →
    Sectioned osTag pre header body post → ∃ out, Rewritten remembers kv [] body out ∧
      shown result = shown pre ++ header :: (shown out ++ (unassigned kv body).map settingLine ++ shown post)

variable {orig osTag : Text} {kv : List (Text × Setting)} {lns earlier body ls : List Text} {ln k : Text} {v : Setting}

/-! ### The loop -/

theorem lookup_unassigned (h : k ∉ earlier.filterMap lineKey) : (unassigned kv earlier).lookup k = kv.lookup k := by
  induction kv with
  | nil => rfl
  | cons s kv ih =>
    rw [unassigned] at ih ⊢
    by_cases hs : s.1 ∈ earlier.filterMap lineKey
    · have hne : (k == s.1) = false := by
        rw [beq_eq_false_iff_ne]
        rintro rfl
        exact h hs
      rw [List.filter_cons_of_neg (by simpa using hs), ih, List.lookup_cons, hne]
    · rw [List.filter_cons_of_pos (by simpa using hs), List.lookup_cons, List.lookup_cons, ih]

/-- A line with the key of a setting takes it away, if it is still there. -/
theorem unassigned_concat (hkey : lineKey ln = some k) :
    unassigned kv (earlier ++ [ln]) = Assoc.without k (unassigned kv earlier) := by
  rw [unassigned, unassigned, Assoc.without, List.filter_filter, List.filterMap_append, List.filterMap_cons_some hkey,
    List.filterMap_nil]
  refine List.filter_congr fun s _ => ?_
  by_cases hs : s.1 = k <;> simp [hs]

theorem unassigned_concat_of_notMem (h : ∀ k, lineKey ln = some k → k ∉ (unassigned kv earlier).map Prod.fst) :
    unassigned kv (earlier ++ [ln]) = unassigned kv earlier := by
  refine List.filter_congr fun s hs => ?_
  cases hkey : lineKey ln with
  | none => rw [List.filterMap_append, List.filterMap_cons_none hkey, List.filterMap_nil, List.append_nil]
  | some k =>
    have hkeys : (earlier ++ [ln]).filterMap lineKey = earlier.filterMap lineKey ++ [k] := by simp [hkey]
    by_cases hmem : s.1 ∈ earlier.filterMap lineKey
    · simp [hkeys, hmem]
    · have hne : s.1 ≠ k := by
        rintro rfl
        exact h _ hkey (List.mem_map_of_mem (List.mem_filter.mpr ⟨hs, by simpa using hmem⟩))
      simp [hkeys, hmem, hne]

/-- **The loop rewrites the lines**: the settings that it has not met are those that no line before assigns. -/
theorem rewritten_newBody (kv : List (Text × Setting)) (earlier lns : List Text) :
    Rewritten (fun ln comment => strip ln <:+: comment) kv earlier lns (newBody (unassigned kv earlier) lns) ∧
      remaining (unassigned kv earlier) lns = unassigned kv (earlier ++ lns) := by
  induction lns generalizing earlier with
  | nil =>
    rw [List.append_nil]
    exact ⟨.nil, rfl⟩
  | cons ln lns ih =>
    obtain ⟨hbody, hrest⟩ := ih (earlier ++ [ln])
    have hassoc : earlier ++ [ln] ++ lns = earlier ++ ln :: lns := by simp
    rw [hassoc] at hrest
    rcases line_cases (unassigned kv earlier) ln with ⟨k, v, hkey, hlookup⟩ | hnone
    · obtain ⟨hstep, hstep'⟩ := editBody_of_lookup lns hkey hlookup
      have hmem := Assoc.mem_of_lookup hlookup
      have hnew : k ∉ earlier.filterMap lineKey := by simpa using (List.mem_filter.mp hmem).2
      have hassigned : assigned kv ln = some (k, v) := by
        rw [lookup_unassigned hnew] at hlookup
        rw [assigned, hkey, Option.bind_some, hlookup, Option.map_some]
      rw [hstep, hstep', ← unassigned_concat hkey]
      refine ⟨?_, hrest⟩
      by_cases hmodel : ChangesModel ln (k, v)
      · have hcrumbs : crumbs ln (k, v) = [breadcrumb ln] := if_pos hmodel
        rw [hcrumbs]
        exact .model hassigned hnew hmodel rfl ⟨"# was: ".toList, "   (provision rollback)".toList, List.append_assoc ..⟩ hbody
      · have hcrumbs : crumbs ln (k, v) = [] := if_neg hmodel
        rw [hcrumbs]
        exact .set hassigned hnew hmodel hbody
    · obtain ⟨hstep, hstep'⟩ := editBody_of_notMem lns hnone
      rw [unassigned_concat_of_notMem hnone] at hbody hrest
      rw [hstep, hstep']
      refine ⟨.keep (fun s hs => ?_) hbody, hrest⟩
      by_contra hnew
      rw [assigned, Option.bind_eq_some_iff] at hs
      obtain ⟨k, hkey, hs⟩ := hs
      obtain ⟨v, hlookup, rfl⟩ := Option.map_eq_some_iff.mp hs
      rw [← lookup_unassigned hnew] at hlookup
      exact hnone k hkey (Assoc.mem_keys_of_mem (Assoc.mem_of_lookup hlookup))

/-! ### The lines of the text -/

theorem shown_append (xs ys : List Text) : shown (xs ++ ys) = shown xs ++ shown ys := List.filterMap_append

theorem shown_eq_nil (h : ∀ ln ∈ ls, isBlankLine ln = true) : shown ls = [] :=
  List.filterMap_eq_nil_iff.mpr fun ln hln => if_pos (h ln hln)

theorem shown_eq_self (h : ∀ ln ∈ ls, isBlankLine ln = false) : shown ls = ls := by
  induction ls with
  | nil => rfl
  | cons ln ls ih =>
    obtain ⟨hln, hls⟩ := List.forall_mem_cons.mp h
    have hcons : shown (ln :: ls) = ln :: shown ls := by simp [shown, hln]
    rw [hcons, ih hls]

/-- Lines that are joined are the lines of the text, but for blank ones. -/
theorem shown_render (e : Bool) (h : ∀ ln ∈ ls, Unbroken ln) : shown (PyText.splitlinesL [] (render e ls)) = shown ls := by
  have hnil : (if isBlankLine [] then none else some ([] : Text)) = none := rfl
  have hjoin : shown (PyText.splitlinesL [] (['\n'].intercalate ls)) = shown ls := by
    induction ls with
    | nil => rfl
    | cons ln ls ih =>
      obtain ⟨hln, hls⟩ := List.forall_mem_cons.mp h
      have hone : shown (PyText.splitlinesL [] ln) = shown [ln] := by
        rw [shown, ← PyText.pickLines, PyText.pickLines_unbroken hnil hln]
        by_cases hblank : isBlankLine ln = true <;> simp [shown, hblank]
      cases ls with
      | nil => rwa [List.intercalate_singleton]
      | cons next ls =>
        rw [List.intercalate_cons_cons, List.append_assoc, List.singleton_append, shown, ← PyText.pickLines,
          PyText.pickLines_append_break hnil rfl]
        show shown (PyText.splitlinesL [] ln) ++ shown (PyText.splitlinesL [] (['\n'].intercalate (next :: ls))) = _
        rw [hone, ih hls, ← shown_append]
        rfl
  rw [render]
  split_ifs
  · rw [shown, ← PyText.pickLines, PyText.pickLines_append_break hnil rfl]
    show shown (PyText.splitlinesL [] (['\n'].intercalate ls)) ++ [] = _
    rw [hjoin, List.append_nil]
  · exact hjoin

/-- The lines of a section as the edit leaves them, without the blank ones. -/
theorem shown_wiredBody (hbare : ∀ s ∈ kv, Bare s.1) (body : List Text) :
    shown (wiredBody kv body) = shown (newBody kv body) ++ (remaining kv body).map settingLine := by
  have hsettings : shown ((remaining kv body).map settingLine) = (remaining kv body).map settingLine := by
    refine shown_eq_self fun ln hln => ?_
    obtain ⟨s, hs, rfl⟩ := List.mem_map.mp hln
    exact isBlankLine_settingLine (hbare s (of_mem_remaining hs).1)
  have hblanks : shown ((newBody kv body).rtakeWhile isBlankLine) = [] :=
    shown_eq_nil fun ln hln => List.mem_rtakeWhile_imp hln
  have hcore : shown (newBody kv body) = shown ((newBody kv body).rdropWhile isBlankLine) := by
    conv_lhs => rw [← @List.rdropWhile_append_rtakeWhile _ isBlankLine (newBody kv body)]
    rw [shown_append, hblanks, List.append_nil]
  rw [wiredBody, shown_append, shown_append, hsettings, hblanks, List.append_nil, hcore]

theorem isBlankLine_header {header : Text} (h : strip header = sectionOf osTag) : isBlankLine header = false := by
  rw [isBlankLine, h]
  rfl

/-- **The edit is non-destructive line by line.** A model that is replaced is remembered by a comment with the
line, without the blanks around it. -/
theorem wireConfig_lineByLine (orig : Text) (hos : Unbroken osTag) (hbare : ∀ s ∈ kv, Bare s.1)
    (hline : ∀ s ∈ kv, s.2.OneLine) : LineByLine (fun ln comment => strip ln <:+: comment) orig osTag kv
      (PyText.splitlinesL [] (wireConfig orig osTag kv).text) := by
  have hold := unbroken_splitlinesL orig
  constructor
  · intro h
    obtain ⟨gap, hgap, hlines⟩ := wireLines_missing kv h
    have hsection : Unbroken (sectionOf osTag) := by
      have hopening : Unbroken ['['] := by decide
      have hclosing : Unbroken [']'] := by decide
      exact hopening.append (hos.append hclosing)
    have hempty : ∀ ln ∈ gap, ln = [] := by
      intro ln hln
      rcases hgap with rfl | rfl
      · cases hln
      · exact List.mem_singleton.mp hln
    have hadded : shown (sectionOf osTag :: kv.map settingLine) = sectionOf osTag :: kv.map settingLine := by
      refine shown_eq_self fun ln hln => ?_
      rcases List.mem_cons.mp hln with rfl | hln
      · exact isBlankLine_header (strip_sectionOf osTag)
      · obtain ⟨s, hs, rfl⟩ := List.mem_map.mp hln
        exact isBlankLine_settingLine (hbare s hs)
    have hgap' : shown gap = [] := shown_eq_nil fun ln hln => by rw [hempty ln hln]; rfl
    rw [wireConfig_text, hlines, shown_render, List.append_nil, shown_append, shown_append, hgap', List.append_nil, hadded]
    intro ln hln
    simp only [List.append_nil, List.mem_append, List.mem_cons, List.mem_map] at hln
    rcases hln with (hln | hln) | rfl | ⟨s, hs, rfl⟩
    · exact hold ln hln
    · rw [hempty ln hln]
      exact fun c hc => absurd hc List.not_mem_nil
    · exact hsection
    · exact unbroken_settingLine (hbare s hs) (hline s hs)
  · intro pre header body post hparts hsec
    have hall : unassigned kv [] = kv := List.filter_eq_self.mpr (by simp)
    obtain ⟨hrewritten, hrest⟩ := rewritten_newBody kv [] body
    rw [hall] at hrewritten hrest
    rw [List.nil_append] at hrest
    refine ⟨_, hrewritten, ?_⟩
    rw [hparts] at hold
    have hheader : shown [header] = [header] := shown_eq_self (by simpa using isBlankLine_header hsec.header)
    rw [wireConfig_text, hparts, hsec.wireLines, shown_render, shown_append, ← List.singleton_append, shown_append,
      shown_append, hheader, shown_wiredBody hbare, hrest]
    · rfl
    · intro ln hln
      simp only [List.mem_append, List.mem_cons] at hold hln
      rcases hln with hln | rfl | hln | hln
      · exact hold ln (.inl hln)
      · exact hold ln (.inr (.inl rfl))
      · exact unbroken_wiredBody hbare hline (fun x hx => hold x (.inr (.inr (.inl hx)))) ln hln
      · exact hold ln (.inr (.inr (.inr hln)))

/-- A table with a model, a setting that is not wired, and the next table. -/
def linuxText : Text := "[linux]\nPERSONA_MODEL = \"old.gguf\"\nGPU_LAYERS_PERSONA = 999\n\n[runtime]\n".toList

theorem wireConfig_lineByLine_linux : LineByLine (fun ln comment => strip ln <:+: comment) linuxText "linux".toList
    [("PERSONA_MODEL".toList, .str "new.gguf".toList), ("PERSONA_CTX".toList, .int 16384)]
    (PyText.splitlinesL [] (wireConfig linuxText "linux".toList
      [("PERSONA_MODEL".toList, .str "new.gguf".toList), ("PERSONA_CTX".toList, .int 16384)]).text) :=
  wireConfig_lineByLine linuxText (by decide) (by decide) (by
    intro s hs
    rcases List.mem_cons.mp hs with rfl | hs
    · show Unbroken _
      decide
    · rw [List.mem_singleton.mp hs]
      trivial)

/-- The model in a line with a tab before it. -/
def indentedText : Text := "[linux]\n\tPERSONA_MODEL = \"old.gguf\"\n".toList

/-- The comment does not have the whole line: the tab is gone. -/
theorem not_lineByLine_indented : ¬ LineByLine (fun ln comment => ln <:+: comment) indentedText "linux".toList
    [("PERSONA_MODEL".toList, .str "new.gguf".toList)]
    (PyText.splitlinesL [] (wireConfig indentedText "linux".toList
      [("PERSONA_MODEL".toList, .str "new.gguf".toList)]).text) := by
  intro h
  obtain ⟨out, hout, hshown⟩ := h.found [] "[linux]".toList ["\tPERSONA_MODEL = \"old.gguf\"".toList] [] (by decide)
    ⟨by simp, by decide, by decide, by simp⟩
  have hresult : shown (PyText.splitlinesL [] (wireConfig indentedText "linux".toList
      [("PERSONA_MODEL".toList, .str "new.gguf".toList)]).text) = ["[linux]".toList,
        "# was: PERSONA_MODEL = \"old.gguf\"   (provision rollback)".toList, "PERSONA_MODEL = \"new.gguf\"".toList] := by
    decide
  have hassigned : assigned [("PERSONA_MODEL".toList, .str "new.gguf".toList)] "\tPERSONA_MODEL = \"old.gguf\"".toList =
      some ("PERSONA_MODEL".toList, .str "new.gguf".toList) := rfl
  rw [hresult] at hshown
  cases hout with
  | keep hkeep hrest => exact absurd (hkeep _ hassigned) List.not_mem_nil
  | set hset hnew hsame hrest =>
    obtain rfl := Option.some.inj (hassigned.symm.trans hset)
    exact hsame ⟨rfl, by decide⟩
  | @model _ _ out _ comment s hset hnew hchanges hhash hwhole hrest =>
    obtain rfl := Option.some.inj (hassigned.symm.trans hset)
    obtain rfl : out = [] := by
      cases hrest
      rfl
    have hnone : unassigned [("PERSONA_MODEL".toList, .str "new.gguf".toList)] ["\tPERSONA_MODEL = \"old.gguf\"".toList] = [] := rfl
    have hset : shown [comment, settingLine ("PERSONA_MODEL".toList, .str "new.gguf".toList)] =
        shown [comment] ++ ["PERSONA_MODEL = \"new.gguf\"".toList] := shown_append [comment] [_]
    have hlines : ["# was: PERSONA_MODEL = \"old.gguf\"   (provision rollback)".toList] ++
        ["PERSONA_MODEL = \"new.gguf\"".toList] = shown [comment] ++ ["PERSONA_MODEL = \"new.gguf\"".toList] := by
      rw [hnone, hset] at hshown
      have hrest := (List.cons.inj hshown).2
      rwa [List.map_nil, List.append_nil, show shown [] = [] from rfl, List.append_nil] at hrest
    have hcomment := List.append_cancel_right hlines
    by_cases hblank : isBlankLine comment = true
    · rw [shown_eq_nil (by simpa using hblank)] at hcomment
      cases hcomment
    · rw [shown_eq_self (by simpa using hblank)] at hcomment
      rw [← (List.cons.inj hcomment).1] at hwhole
      exact absurd hwhole (by decide)

end Persona.Provision
