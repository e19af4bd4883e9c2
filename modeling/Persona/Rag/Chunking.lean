import Persona.Rag.SelfKnowledge
import Persona.Lib.Outline
import Persona.Lib.Lines
import Persona.Lib.Markdown

/-!
# Cutting a document into chunks

What `chunk_markdown` of `self_knowledge.py` makes of a document. Its headings cut the document into runs of
text, and each run is cut into pieces that stand under the breadcrumb of the headings before it
(`chunkMarkdown_eq`). Nothing but blanks is lost on the way (`chunkMarkdown_keeps`).

The breadcrumb is the one of the enclosing headings (`Outline.foldl_push`), but which lines are headings is
not read as Markdown reads it: a line in a fenced block counts when it looks like one, a heading that is
indented does not (`namesSections_iff`). And the pieces are cut to what the breadcrumb leaves of the size, or
to 200 characters if that is more (`capped_iff`).
-/

namespace Persona.Rag

open Persona.Lib

/-! ### The runs of a document -/

/-- A run of lines that are no headings, and the lines before it. -/
structure Section where
  before : List String
  run : List String

/-- The runs of the lines, `run` being the one that the lines go on with. -/
def sectionsFrom (before run : List String) : List String → List Section
  | [] => [⟨before, run⟩]
  | line :: lines =>
    match headingOf line with
    | some _ => ⟨before, run⟩ :: sectionsFrom (before ++ run ++ [line]) [] lines
    | none => sectionsFrom before (run ++ [line]) lines

/-- The runs of a document. -/
def sections (lines : List String) : List Section := sectionsFrom [] [] lines

/-- The run is as long as it can be: what is before it ends in a heading, and what follows begins with one. -/
structure MaximalRun (lines : List String) (sec : Section) : Prop where
  text : ∀ line ∈ sec.run, headingOf line = none
  before : ∀ line ∈ sec.before.getLast?, headingOf line ≠ none
  after : ∃ rest, lines = sec.before ++ (sec.run ++ rest) ∧ ∀ line ∈ rest.head?, headingOf line ≠ none

/-- The headings of the lines. -/
def headings (lines : List String) : List (ℕ × String) := lines.filterMap headingOf

/-- `stack`, after the lines. -/
def stackOf (lines : List String) : List (ℕ × String) := (headings lines).foldl Outline.push []

/-- The chunks that are made from a run. -/
def madeFrom (source : String) (maxChars minChars : ℤ) (sec : Section) : List Chunk :=
  flush source (headingPath (stackOf sec.before)) sec.run maxChars minChars

variable {source : String} {maxChars minChars : ℤ} {lines before run pre post : List String} {line : String} {sec : Section}

theorem headings_eq_nil (h : ∀ line ∈ run, headingOf line = none) : headings run = [] :=
  List.filterMap_eq_nil_iff.mpr h

/-- A heading goes on the stack. -/
theorem stackOf_heading (hrun : ∀ line ∈ run, headingOf line = none) {heading : ℕ × String}
    (h : headingOf line = some heading) : stackOf (before ++ run ++ [line]) = Outline.push (stackOf before) heading := by
  have hheadings : headings (before ++ run ++ [line]) = headings before ++ [heading] := by
    rw [headings, List.filterMap_append, List.filterMap_append, ← headings, ← headings, headings_eq_nil hrun, List.append_nil,
      List.filterMap_cons_some h, List.filterMap_nil]
  rw [stackOf, hheadings, List.foldl_append]
  rfl

theorem chunkLines_eq (hrun : ∀ line ∈ run, headingOf line = none) :
    chunkLines source maxChars minChars (stackOf before) run lines =
      (sectionsFrom before run lines).flatMap (madeFrom source maxChars minChars) := by
  induction lines generalizing before run with
  | nil =>
    rw [chunkLines, sectionsFrom, List.flatMap_singleton]
    rfl
  | cons line lines ih =>
    rw [chunkLines, sectionsFrom]
    cases hline : headingOf line with
    | some heading =>
      have hrest : chunkLines source maxChars minChars (stackOf (before ++ run ++ [line])) [] lines =
          (sectionsFrom (before ++ run ++ [line]) [] lines).flatMap (madeFrom source maxChars minChars) := ih (by simp)
      dsimp only
      rw [List.flatMap_cons, ← hrest, stackOf_heading hrun hline]
      rfl
    | none =>
      dsimp only
      refine ih fun x hx => ?_
      rcases List.mem_append.mp hx with hx | hx
      · exact hrun x hx
      · rw [List.mem_singleton.mp hx]
        exact hline

/-- **The chunks of a document** are those of its runs. -/
theorem chunkMarkdown_eq (text source : String) (maxChars minChars : ℤ) : chunkMarkdown text source maxChars minChars =
    (sections (PyText.splitlines text)).flatMap (madeFrom source maxChars minChars) :=
  @chunkLines_eq source maxChars minChars (PyText.splitlines text) [] [] (by simp)

/-- A maximal run that does not begin before another one is that run, or begins after its heading. -/
theorem MaximalRun.eq_or_later (h : MaximalRun (before ++ run ++ lines) sec) (hrun : ∀ line ∈ run, headingOf line = none)
    (hlines : ∀ line ∈ lines.head?, headingOf line ≠ none) (hle : before.length ≤ sec.before.length) :
    sec = ⟨before, run⟩ ∨ (before ++ run).length < sec.before.length := by
  obtain ⟨after, hparts, hafter⟩ := h.after
  rw [List.append_assoc] at hparts
  obtain ⟨mid, hbefore, hmid⟩ : ∃ mid, sec.before = before ++ mid ∧ run ++ lines = mid ++ (sec.run ++ after) := by
    rcases List.append_eq_append_iff.mp hparts with ⟨mid, hbefore, hmid⟩ | ⟨mid, hbefore, hmid⟩
    · exact ⟨mid, hbefore, hmid⟩
    · have hnil : mid = [] := by
        have hlen := congrArg List.length hbefore
        rw [List.length_append] at hlen
        exact List.length_eq_zero_iff.mp (by omega)
      rw [hnil, List.append_nil] at hbefore
      rw [hnil, List.nil_append] at hmid
      exact ⟨[], by rw [hbefore, List.append_nil], by rw [List.nil_append, hmid]⟩
  by_cases hnil : mid = []
  · left
    rw [hnil, List.nil_append] at hmid
    rw [hnil, List.append_nil] at hbefore
    have hsame : sec.run = run := by
      rcases List.append_eq_append_iff.mp hmid with ⟨m, hm, hrest⟩ | ⟨m, hm, hrest⟩
      · cases m with
        | nil => rw [hm, List.append_nil]
        | cons x m =>
          rw [hrest] at hlines
          exact absurd (h.text x (by rw [hm]; simp)) (hlines x rfl)
      · cases m with
        | nil => rw [hm, List.append_nil]
        | cons x m =>
          rw [hrest] at hafter
          exact absurd (hrun x (by rw [hm]; simp)) (hafter x rfl)
    obtain ⟨b, r⟩ := sec
    exact congrArg₂ Section.mk hbefore hsame
  · right
    rw [hbefore, List.length_append, List.length_append]
    by_contra hshort
    -- the heading before the run would be a line of the other one
    obtain ⟨m, hm⟩ : mid <+: run := by
      have hprefix : mid <+: run ++ lines := ⟨_, hmid.symm⟩
      exact List.prefix_of_prefix_length_le hprefix (List.prefix_append run lines) (by omega)
    have hlast : mid.getLast hnil ∈ sec.before.getLast? := by
      rw [hbefore, List.getLast?_append_of_ne_nil _ hnil]
      exact List.getLast?_eq_some_getLast hnil
    refine h.before _ hlast (hrun _ ?_)
    rw [← hm]
    exact List.mem_append_left _ (List.getLast_mem hnil)

theorem mem_sectionsFrom (hrun : ∀ line ∈ run, headingOf line = none) (hbefore : ∀ line ∈ before.getLast?, headingOf line ≠ none) :
    sec ∈ sectionsFrom before run lines ↔ MaximalRun (before ++ run ++ lines) sec ∧ before.length ≤ sec.before.length := by
  induction lines generalizing before run with
  | nil =>
    rw [sectionsFrom, List.mem_singleton]
    constructor
    · rintro rfl
      exact ⟨⟨hrun, hbefore, [], by simp, by simp⟩, le_rfl⟩
    · rintro ⟨h, hle⟩
      refine (h.eq_or_later hrun (by simp) hle).resolve_right fun hlt => ?_
      obtain ⟨rest, hparts, -⟩ := h.after
      have hlen := congrArg List.length hparts
      simp only [List.length_append, List.length_nil] at hlen hlt
      omega
  | cons line lines ih =>
    rw [sectionsFrom]
    cases hline : headingOf line with
    | some heading =>
      have hhead : ∀ l ∈ (line :: lines).head?, headingOf l ≠ none := by simp [hline]
      have hassoc : before ++ run ++ (line :: lines) = before ++ run ++ [line] ++ [] ++ lines := by simp
      have hrest : sec ∈ sectionsFrom (before ++ run ++ [line]) [] lines ↔
          MaximalRun (before ++ run ++ [line] ++ [] ++ lines) sec ∧ (before ++ run ++ [line]).length ≤ sec.before.length :=
        ih (by simp) (by simp [hline])
      dsimp only
      rw [List.mem_cons, hrest, ← hassoc]
      constructor
      · rintro (rfl | ⟨h, hle⟩)
        · exact ⟨⟨hrun, hbefore, line :: lines, by simp, hhead⟩, le_rfl⟩
        · refine ⟨h, le_trans ?_ hle⟩
          simp only [List.length_append]
          omega
      · rintro ⟨h, hle⟩
        refine (h.eq_or_later hrun hhead hle).imp_right fun hlt => ⟨h, ?_⟩
        rw [List.length_append, List.length_singleton]
        exact hlt
    | none =>
      have hassoc : before ++ run ++ (line :: lines) = before ++ (run ++ [line]) ++ lines := by simp
      dsimp only
      rw [hassoc]
      refine ih (fun x hx => ?_) hbefore
      rcases List.mem_append.mp hx with hx | hx
      · exact hrun x hx
      · rw [List.mem_singleton.mp hx]
        exact hline

/-- The runs of a document are its maximal runs, -/
theorem mem_sections_iff : sec ∈ sections lines ↔ MaximalRun lines sec := by
  have hfrom : sec ∈ sectionsFrom [] [] lines ↔ MaximalRun ([] ++ [] ++ lines) sec ∧ [].length ≤ sec.before.length :=
    mem_sectionsFrom (by simp) (by simp)
  rw [sections, hfrom]
  simp

theorem pairwise_sectionsFrom (hrun : ∀ line ∈ run, headingOf line = none)
    (hbefore : ∀ line ∈ before.getLast?, headingOf line ≠ none) :
    (sectionsFrom before run lines).Pairwise fun a b => a.before.length < b.before.length := by
  induction lines generalizing before run with
  | nil => exact List.pairwise_singleton _ _
  | cons line lines ih =>
    rw [sectionsFrom]
    cases hline : headingOf line with
    | some heading =>
      have hlast : ∀ l ∈ (before ++ run ++ [line]).getLast?, headingOf l ≠ none := by simp [hline]
      refine List.pairwise_cons.mpr ⟨fun sec hsec => ?_, ih (by simp) hlast⟩
      have hle := ((mem_sectionsFrom (by simp) hlast).mp hsec).2
      simp only [List.length_append, List.length_singleton] at hle
      dsimp only
      omega
    | none =>
      refine ih (fun x hx => ?_) hbefore
      rcases List.mem_append.mp hx with hx | hx
      · exact hrun x hx
      · rw [List.mem_singleton.mp hx]
        exact hline

/-- in the order of the document. -/
theorem pairwise_sections (lines : List String) : (sections lines).Pairwise fun a b => a.before.length < b.before.length :=
  pairwise_sectionsFrom (by simp) (by simp)

/-! ### The pieces of a run -/

/-- The characters that are no blanks. -/
def solidChars (cs : List Char) : List Char := cs.filter fun c => !PyText.isSpace c

theorem solidChars_append (xs ys : List Char) : solidChars (xs ++ ys) = solidChars xs ++ solidChars ys := List.filter_append ..

theorem solidChars_blank {cs : List Char} (h : ∀ c ∈ cs, PyText.isSpace c = true) : solidChars cs = [] :=
  List.filter_eq_nil_iff.mpr fun c hc => by simp [h c hc]

theorem solidChars_lstripL (cs : List Char) : solidChars (PyText.lstripL cs) = solidChars cs := by
  have hparts : cs = cs.takeWhile PyText.isSpace ++ PyText.lstripL cs := List.takeWhile_append_dropWhile.symm
  conv_rhs => rw [hparts, solidChars_append, solidChars_blank fun c hc => List.mem_takeWhile_imp hc, List.nil_append]

theorem solidChars_rstripL (cs : List Char) : solidChars (PyText.rstripL cs) = solidChars cs := by
  have hreverse : ∀ xs : List Char, solidChars xs.reverse = (solidChars xs).reverse := fun xs => List.filter_reverse
  have hleft := solidChars_lstripL cs.reverse
  rw [PyText.lstripL] at hleft
  rw [PyText.rstripL, hreverse, hleft, hreverse, List.reverse_reverse]

/-- Stripping takes only blanks. -/
theorem solidChars_strip (s : String) : solidChars (PyText.strip s).toList = solidChars s.toList := by
  rw [PyText.strip, String.toList_ofList, solidChars_rstripL, solidChars_lstripL]

/-- Joining the lines adds only blanks. -/
theorem solidChars_intercalate (lines : List String) :
    solidChars ("\n".intercalate lines).toList = solidChars (lines.flatMap String.toList) := by
  induction lines with
  | nil => rfl
  | cons line lines ih =>
    cases lines with
    | nil => simp
    | cons next lines =>
      have hnewline : solidChars "\n".toList = [] := by decide
      rw [String.intercalate_cons_cons, String.toList_append, String.toList_append, solidChars_append, solidChars_append,
        hnewline, List.append_nil, ih, ← solidChars_append, ← List.flatMap_cons]

/-- The pieces of a body, stripped, and without those that are blank. -/
def piecesOf (budget : ℕ) (body : String) : List String :=
  ((cuts budget body.length body.toList).map fun piece => PyText.strip (String.ofList piece)).filter (· ≠ "")

theorem solidChars_pieces (pieces : List (List Char)) :
    solidChars (((pieces.map fun piece => PyText.strip (String.ofList piece)).filter (· ≠ "")).flatMap String.toList) =
      solidChars pieces.flatten := by
  induction pieces with
  | nil => rfl
  | cons piece pieces ih =>
    have hpiece : solidChars (PyText.strip (String.ofList piece)).toList = solidChars piece := by
      rw [solidChars_strip, String.toList_ofList]
    rw [List.map_cons, List.flatten_cons, solidChars_append, ← hpiece, ← ih]
    by_cases hempty : PyText.strip (String.ofList piece) = ""
    · rw [List.filter_cons_of_neg (by simpa using hempty), hempty]
      rfl
    · rw [List.filter_cons_of_pos (by simpa using hempty), List.flatMap_cons, solidChars_append]

/-- Each piece takes a character at least, so more fuel than characters makes no difference. -/
theorem cuts_fuel {budget f g : ℕ} {body : List Char} (hbudget : 0 < budget) (hf : body.length ≤ f) (hg : body.length ≤ g) :
    cuts budget f body = cuts budget g body := by
  induction f generalizing g body with
  | zero =>
    obtain rfl := List.length_eq_zero_iff.mp (Nat.le_zero.mp hf)
    cases g <;> rfl
  | succ f ih =>
    cases body with
    | nil => cases g <;> rfl
    | cons c cs =>
      cases g with
      | zero => cases hg
      | succ g =>
        have hpos := cutAt_pos hbudget (List.cons_ne_nil c cs)
        rw [List.length_cons] at hf hg
        have hlength : ((c :: cs).drop (cutAt budget (c :: cs))).length ≤ cs.length := by
          rw [List.length_drop, List.length_cons]
          omega
        have hrest := ih (hlength.trans (Nat.le_of_succ_le_succ hf)) (hlength.trans (Nat.le_of_succ_le_succ hg))
        rw [cuts_of_ne_nil (List.cons_ne_nil c cs), cuts_of_ne_nil (List.cons_ne_nil c cs), hrest]

/-- `body`. -/
def bodyOf (run : List String) : String := PyText.strip ("\n".intercalate run)

/-- `budget`. -/
def budgetOf (source path : String) (maxChars : ℤ) : ℤ := max 200 (maxChars - (breadcrumb source path).length - 1)

/-- A chunk with a piece. -/
def chunkOf (source path piece : String) : Chunk := ⟨source, path, breadcrumb source path ++ "\n" ++ piece⟩

/-- **The chunks of a run**: the pieces of its body under the breadcrumb, unless the body is short and stands
under no heading. -/
theorem flush_eq (source path : String) (run : List String) (maxChars minChars : ℤ) : flush source path run maxChars minChars =
    if (bodyOf run).length < minChars ∧ path = "" then []
    else (piecesOf (budgetOf source path maxChars).toNat (bodyOf run)).map (chunkOf source path) := by
  rw [flush, ← bodyOf]
  dsimp only
  by_cases hempty : bodyOf run = ""
  · rw [if_pos hempty, hempty]
    split_ifs <;> rfl
  · rw [if_neg hempty]
    split_ifs <;> rfl

/-! ### The headings that enclose a run -/

theorem title_ne_empty {heading : ℕ × String} (h : headingOf line = some heading) : heading.2 ≠ "" := by
  rw [headingOf] at h
  split_ifs at h with htitle
  rw [← Option.some.inj h]
  exact htitle.2.2.2

/-- Only a run before the first heading has no path. -/
theorem headingPath_eq_empty_iff (h : ∀ line ∈ before.getLast?, headingOf line ≠ none) :
    headingPath (stackOf before) = "" ↔ before = [] := by
  constructor
  · intro hempty
    by_contra hne
    obtain ⟨front, line, rfl⟩ := List.eq_nil_or_concat before |>.resolve_left hne
    rw [List.concat_eq_append] at h hempty
    obtain ⟨heading, hheading⟩ := Option.ne_none_iff_exists'.mp (h line (by simp))
    have hstack : stackOf (front ++ [line]) = Outline.push (stackOf front) heading := by
      have hheadings : headings (front ++ [line]) = headings front ++ [heading] := by simp [headings, hheading]
      rw [stackOf, hheadings, List.foldl_append]
      rfl
    have hmem : heading ∈ stackOf (front ++ [line]) := by
      rw [hstack, Outline.push]
      simp
    have hparts : ∀ titles : List String, "" = " > ".intercalate titles → ∀ t ∈ titles, t = "" := by
      intro titles
      induction titles with
      | nil => exact fun _ t ht => absurd ht List.not_mem_nil
      | cons t titles ih =>
        intro hjoin
        cases titles with
        | nil => simpa using hjoin.symm
        | cons next titles =>
          rw [String.intercalate_cons_cons] at hjoin
          have hlen := congrArg (fun s : String => s.toList.length) hjoin
          simp at hlen
    refine title_ne_empty hheading (hparts _ hempty.symm _ (List.mem_map_of_mem hmem))
  · rintro rfl
    rfl

/-! ### Nothing is lost -/

/-- The chunks have the pieces of the run, each with a breadcrumb: none is blank, and together they have the
characters of the run that are no blanks. A short run that stands under no heading has no chunks. -/
def Keeps (source : String) (minChars : ℤ) (sec : Section) (chunks : List Chunk) : Prop :=
  ∃ (path : String) (pieces : List String), chunks = pieces.map (chunkOf source path) ∧ (∀ piece ∈ pieces, solidChars piece.toList ≠ []) ∧
    solidChars (pieces.flatMap String.toList) =
      if sec.before = [] ∧ (bodyOf sec.run).length < minChars then [] else solidChars (sec.run.flatMap String.toList)

theorem solidChars_eq_nil_iff (s : String) : solidChars (PyText.strip s).toList = [] ↔ PyText.strip s = "" := by
  constructor
  · intro h
    have hblank : ∀ c ∈ s.toList, PyText.isSpace c = true := by
      rw [solidChars_strip, solidChars, List.filter_eq_nil_iff] at h
      exact fun c hc => by simpa using h c hc
    rw [PyText.strip, PyText.lstripL_eq_nil_iff.mpr hblank]
    rfl
  · intro h
    rw [h]
    rfl

theorem keeps_madeFrom (h : MaximalRun lines sec) : Keeps source minChars sec (madeFrom source maxChars minChars sec) := by
  have hpath := headingPath_eq_empty_iff h.before
  rw [madeFrom, flush_eq]
  by_cases hdropped : (bodyOf sec.run).length < minChars ∧ headingPath (stackOf sec.before) = ""
  · rw [if_pos hdropped]
    exact ⟨"", [], rfl, by simp, by rw [if_pos ⟨hpath.mp hdropped.2, hdropped.1⟩]; rfl⟩
  · rw [if_neg hdropped]
    refine ⟨headingPath (stackOf sec.before), _, rfl, fun piece hpiece => ?_, ?_⟩
    · obtain ⟨hmem, hne⟩ := List.mem_filter.mp hpiece
      obtain ⟨cs, -, rfl⟩ := List.mem_map.mp hmem
      rw [Ne, solidChars_eq_nil_iff]
      simpa using hne
    · have hbudget : 0 < (budgetOf source (headingPath (stackOf sec.before)) maxChars).toNat := by
        unfold budgetOf
        omega
      rw [if_neg fun hshort => hdropped ⟨hshort.2, hpath.mpr hshort.1⟩, piecesOf, solidChars_pieces,
        cuts_flatten hbudget String.length_toList.le, bodyOf, solidChars_strip, solidChars_intercalate]

/-- **Chunking keeps the content.** The chunks of a document are made from its maximal runs of lines that are
no headings, in their order; and those of a run keep what is no blank. The loop that cuts a body has come to
its end after as many steps as there are characters. -/
theorem chunkMarkdown_keeps (text source : String) (maxChars minChars : ℤ) :
    (∃ secs : List Section, secs.Pairwise (fun a b => a.before.length < b.before.length) ∧
      (∀ sec, sec ∈ secs ↔ MaximalRun (PyText.splitlines text) sec) ∧
      chunkMarkdown text source maxChars minChars = secs.flatMap (madeFrom source maxChars minChars) ∧
      ∀ sec ∈ secs, Keeps source minChars sec (madeFrom source maxChars minChars sec)) ∧
    ∀ path body fuel, body.length ≤ fuel → cuts (budgetOf source path maxChars).toNat fuel body =
      cuts (budgetOf source path maxChars).toNat body.length body := by
  refine ⟨⟨sections (PyText.splitlines text), pairwise_sections _, fun sec => mem_sections_iff,
    chunkMarkdown_eq text source maxChars minChars, fun sec hsec => keeps_madeFrom (mem_sections_iff.mp hsec)⟩, ?_⟩
  intro path body fuel hfuel
  refine cuts_fuel ?_ hfuel le_rfl
  unfold budgetOf
  omega

/-! ### The size of a chunk -/

/-- A character that a window is cut at. -/
def isGap (c : Char) : Bool := c = '\n' || c = ' '

/-- Where a window of 200 characters of the text ends: at the last newline or blank in it, if that is past the
120th character. -/
inductive WindowEnd (body : List Char) : ℕ → Prop where
  | rest : body.length ≤ 200 → WindowEnd body body.length
  | gap {n : ℕ} : 200 < body.length → 120 < n → n < 200 → (body.drop n).head?.any isGap = true →
      (∀ c ∈ (body.take 200).drop (n + 1), isGap c = false) → WindowEnd body n
  | full : 200 < body.length → (∀ c ∈ (body.take 200).drop 121, isGap c = false) → WindowEnd body 200

/-- The stretches of a text that is gone through in such windows. -/
inductive Stretch : List Char → List Char → Prop where
  | here {body : List Char} {n : ℕ} : body ≠ [] → WindowEnd body n → Stretch body (body.take n)
  | later {body s : List Char} {n : ℕ} : WindowEnd body n → Stretch (body.drop n) s → Stretch body s

/-- Every chunk has at most `max_chars` characters. -/
def Capped (text source : String) (maxChars minChars : ℤ) : Prop :=
  ∀ ch ∈ chunkMarkdown text source maxChars minChars, (ch.text.length : ℤ) ≤ maxChars

/-- The length of the breadcrumb of a run. -/
def crumbLength (source : String) (sec : Section) : ℤ := (breadcrumb source (headingPath (stackOf sec.before))).length

/-- What a run needs: its breadcrumb leaves 200 characters and the newline, or each stretch of its text fits
beside it. -/
def Fits (source : String) (maxChars : ℤ) (sec : Section) : Prop :=
  crumbLength source sec + 201 ≤ maxChars ∨ ∀ s, Stretch (bodyOf sec.run).toList s →
    ∀ piece, piece = PyText.strip (String.ofList s) → piece ≠ "" → crumbLength source sec + 1 + piece.length ≤ maxChars

variable {body : List Char}

/-- The last newline or blank. -/
theorem lastBreak_spec (window : List Char) : (lastBreak window = -1 ∧ ∀ c ∈ window, isGap c = false) ∨
    ∃ front c back, window = front ++ c :: back ∧ isGap c = true ∧ (∀ c ∈ back, isGap c = false) ∧
      lastBreak window = front.length := by
  induction window using List.reverseRecOn with
  | nil => exact .inl ⟨rfl, by simp⟩
  | append_singleton window c ih =>
    have hidx : lastBreak (window ++ [c]) = if isGap c then (window.length : ℤ) else lastBreak window := by
      rw [lastBreak, lastBreak, List.reverse_append, List.reverse_singleton, List.singleton_append, List.findIdx_cons,
        List.length_append, List.length_singleton]
      by_cases hc : isGap c = true
      · have hgap : (decide (c = '\n') || decide (c = ' ')) = true := hc
        rw [if_pos hc, hgap]
        simp
      · have hgap : (decide (c = '\n') || decide (c = ' ')) = false := by simpa [isGap] using hc
        rw [if_neg hc, hgap]
        simp only [cond_false]
        omega
    by_cases hc : isGap c = true
    · exact .inr ⟨window, c, [], rfl, hc, by simp, by rw [hidx, if_pos hc]⟩
    · rw [hidx, if_neg hc]
      rcases ih with ⟨hnone, hall⟩ | ⟨front, d, back, rfl, hd, hback, hlast⟩
      · refine .inl ⟨hnone, fun x hx => ?_⟩
        rcases List.mem_append.mp hx with hx | hx
        · exact hall x hx
        · rw [List.mem_singleton.mp hx]
          simpa using hc
      · refine .inr ⟨front, d, back ++ [c], by simp, hd, fun x hx => ?_, hlast⟩
        rcases List.mem_append.mp hx with hx | hx
        · exact hback x hx
        · rw [List.mem_singleton.mp hx]
          simpa using hc

/-- The cuts with a budget of 200 are at the ends of the windows. -/
theorem windowEnd_iff {n : ℕ} : WindowEnd body n ↔ n = cutAt 200 body := by
  by_cases hlong : 200 < body.length
  · have hcut : cutAt 200 body = if 120 < lastBreak (body.take 200) then (lastBreak (body.take 200)).toNat else 200 := by
      rw [cutAt, if_pos hlong]
      congr 1
      exact propext ⟨fun h => by omega, fun h => by omega⟩
    have hlength : (body.take 200).length = 200 := by
      rw [List.length_take]
      omega
    rw [hcut]
    rcases lastBreak_spec (body.take 200) with ⟨hnone, hall⟩ | ⟨front, c, back, hwindow, hc, hback, hlast⟩
    · rw [hnone, if_neg (by decide)]
      constructor
      · rintro (hshort | ⟨-, -, hlt, hgap, -⟩ | -)
        · omega
        · -- the character at the cut is in the window
          cases hdrop : (body.drop n).head? with
          | none => simp [hdrop] at hgap
          | some d =>
            have hmem : d ∈ body.take 200 := by
              rw [List.head?_drop] at hdrop
              refine List.mem_iff_getElem?.mpr ⟨n, ?_⟩
              rw [List.getElem?_take_of_lt hlt, hdrop]
            rw [hdrop, Option.any_some, hall d hmem] at hgap
            cases hgap
        · rfl
      · rintro rfl
        exact .full hlong fun d hd => hall d (List.mem_of_mem_drop hd)
    · rw [hlast, Int.toNat_natCast]
      have hlater : ∀ m, m ≤ front.length → c ∈ (body.take 200).drop m := by
        intro m hm
        rw [hwindow, List.drop_append_of_le_length hm]
        simp
      have hthere : (body.drop front.length).head? = some c := by
        rw [← List.take_append_drop 200 body, hwindow, List.append_assoc, List.drop_left]
        rfl
      have hend : front.length < 200 := by
        rw [← hlength, hwindow]
        simp
      constructor
      · rintro (hshort | ⟨-, hpast, hlt, hgap, hafter⟩ | ⟨-, hnone⟩)
        · omega
        · rcases Nat.lt_trichotomy front.length n with hless | rfl | hmore
          · -- the character at the cut is among those after the last gap
            rw [List.head?_drop] at hgap
            have hat : body[n]? = back[n - front.length - 1]? := by
              rw [← List.getElem?_take_of_lt hlt, hwindow, List.getElem?_append_right hless.le,
                show n - front.length = (n - front.length - 1) + 1 by omega, List.getElem?_cons_succ]
              rfl
            cases hd : back[n - front.length - 1]? with
            | none => simp [hat, hd] at hgap
            | some d =>
              rw [hat, hd, Option.any_some, hback d (List.mem_of_getElem? hd)] at hgap
              cases hgap
          · rw [if_pos (by exact_mod_cast hpast)]
          · rw [hafter c (hlater _ hmore)] at hc
            cases hc
        · rw [if_neg]
          intro hpast
          rw [hnone c (hlater 121 (by omega))] at hc
          cases hc
      · rintro rfl
        have hafter : (body.take 200).drop (front.length + 1) = back := by
          rw [hwindow, List.drop_append, Nat.add_sub_cancel_left, List.drop_of_length_le (by omega), List.nil_append]
          rfl
        split_ifs with hpast
        · refine .gap hlong (by omega) hend (by rw [hthere, Option.any_some, hc]) fun d hd => ?_
          rw [hafter] at hd
          exact hback d hd
        · refine .full hlong fun d hd => hback d ?_
          rw [show 121 = (front.length + 1) + (120 - front.length) by omega, ← List.drop_drop, hafter] at hd
          exact List.mem_of_mem_drop hd
  · have hcut : cutAt 200 body = body.length := by rw [cutAt, if_neg hlong]
    rw [hcut]
    constructor
    · rintro (- | ⟨h, -⟩ | h)
      · rfl
      · exact absurd h hlong
      · exact absurd (by assumption) hlong
    · rintro rfl
      exact .rest (by omega)

theorem mem_cuts_iff {fuel : ℕ} {s : List Char} (hfuel : body.length ≤ fuel) : s ∈ cuts 200 fuel body ↔ Stretch body s := by
  constructor
  · intro h
    clear hfuel
    induction fuel generalizing body with
    | zero => cases h
    | succ fuel ih =>
      cases body with
      | nil => cases h
      | cons c cs =>
        rw [cuts_of_ne_nil (List.cons_ne_nil c cs)] at h
        rcases List.mem_cons.mp h with rfl | h
        · exact .here (List.cons_ne_nil c cs) (windowEnd_iff.mpr rfl)
        · exact .later (windowEnd_iff.mpr rfl) (ih h)
  · intro h
    induction h generalizing fuel with
    | @here body n hne hn =>
      obtain rfl := windowEnd_iff.mp hn
      cases fuel with
      | zero => exact absurd (List.length_eq_zero_iff.mp (Nat.le_zero.mp hfuel)) hne
      | succ fuel =>
        rw [cuts_of_ne_nil hne]
        exact List.mem_cons_self
    | @later body s n hn hs ih =>
      obtain rfl := windowEnd_iff.mp hn
      by_cases hne : body = []
      · subst hne
        rw [List.drop_nil] at hs ih
        exact ih (Nat.zero_le _)
      · have hpos := cutAt_pos (by decide : 0 < 200) hne
        cases fuel with
        | zero => exact absurd (List.length_eq_zero_iff.mp (Nat.le_zero.mp hfuel)) hne
        | succ fuel =>
          rw [cuts_of_ne_nil hne]
          refine List.mem_cons_of_mem _ (ih ?_)
          rw [List.length_drop]
          omega

/-- A piece is no longer than the budget. -/
theorem length_of_mem_piecesOf {budget : ℕ} {text piece : String} (h : piece ∈ piecesOf budget text) : piece.length ≤ budget := by
  have hcut : ∀ body : List Char, cutAt budget body ≤ budget := by
    intro body
    unfold cutAt
    split_ifs with hlong hbreak
    · rcases lastBreak_spec (body.take budget) with ⟨hnone, -⟩ | ⟨front, c, back, hwindow, -, -, hlast⟩
      · omega
      · have hlen := congrArg List.length hwindow
        simp only [List.length_take, List.length_append, List.length_cons] at hlen
        omega
    · exact le_rfl
    · omega
  have hcuts : ∀ (fuel : ℕ) (body : List Char), ∀ s ∈ cuts budget fuel body, s.length ≤ budget := by
    intro fuel
    induction fuel with
    | zero => exact fun body s hs => absurd hs List.not_mem_nil
    | succ fuel ih =>
      intro body s hs
      cases body with
      | nil => cases hs
      | cons c cs =>
        rw [cuts_of_ne_nil (List.cons_ne_nil c cs)] at hs
        rcases List.mem_cons.mp hs with rfl | hs
        · exact (List.length_take_le _ _).trans (hcut _)
        · exact ih _ s hs
  obtain ⟨s, hs, rfl⟩ := List.mem_map.mp (List.mem_of_mem_filter h)
  refine le_trans ?_ (hcuts _ _ s hs)
  rw [PyText.strip_ofList, String.length_ofList]
  exact (PyText.rstripL_prefix _).length_le.trans (List.dropWhile_suffix _).length_le

theorem length_chunkOf (source path piece : String) :
    ((chunkOf source path piece).text.length : ℤ) = (breadcrumb source path).length + 1 + piece.length := by
  rw [chunkOf, String.length_append, String.length_append]
  rfl

/-- Where the breadcrumb leaves less, the pieces have 200 characters. -/
theorem toNat_budgetOf (h : ¬ crumbLength source sec + 201 ≤ maxChars) :
    (budgetOf source (headingPath (stackOf sec.before)) maxChars).toNat = 200 := by
  unfold crumbLength at h
  unfold budgetOf
  omega

/-- **The chunks respect the size** exactly when every run that has chunks has what it needs. -/
theorem capped_iff (text source : String) (maxChars minChars : ℤ) : Capped text source maxChars minChars ↔
    ∀ sec, MaximalRun (PyText.splitlines text) sec → ¬ (sec.before = [] ∧ (bodyOf sec.run).length < minChars) →
      Fits source maxChars sec := by
  rw [Capped, chunkMarkdown_eq]
  constructor
  · intro h sec hsec hkept
    rw [Fits]
    by_cases hroom : crumbLength source sec + 201 ≤ maxChars
    · exact .inl hroom
    · refine .inr fun s hs piece hpiece hne => ?_
      have hmem : piece ∈ piecesOf 200 (bodyOf sec.run) := by
        rw [hpiece] at hne ⊢
        exact List.mem_filter.mpr ⟨List.mem_map_of_mem ((mem_cuts_iff String.length_toList.le).mpr hs), by simpa using hne⟩
      have hchunk : chunkOf source (headingPath (stackOf sec.before)) piece ∈ madeFrom source maxChars minChars sec := by
        rw [madeFrom, flush_eq, toNat_budgetOf hroom, if_neg fun hdropped =>
          hkept ⟨(headingPath_eq_empty_iff hsec.before).mp hdropped.2, hdropped.1⟩]
        exact List.mem_map_of_mem hmem
      have hcap := h _ (List.mem_flatMap.mpr ⟨sec, mem_sections_iff.mpr hsec, hchunk⟩)
      rwa [length_chunkOf] at hcap
  · intro h ch hch
    obtain ⟨sec, hsec, hch⟩ := List.mem_flatMap.mp hch
    rw [mem_sections_iff] at hsec
    rw [madeFrom, flush_eq] at hch
    split_ifs at hch with hdropped
    · cases hch
    obtain ⟨piece, hpiece, rfl⟩ := List.mem_map.mp hch
    rw [length_chunkOf]
    by_cases hroom : crumbLength source sec + 201 ≤ maxChars
    · have hlen := length_of_mem_piecesOf hpiece
      unfold crumbLength at hroom
      unfold budgetOf at hlen
      omega
    · have hfits := (h sec hsec fun hshort =>
        hdropped ⟨hshort.2, (headingPath_eq_empty_iff hsec.before).mpr hshort.1⟩).resolve_left hroom
      rw [toNat_budgetOf hroom] at hpiece
      obtain ⟨hmem, hne⟩ := List.mem_filter.mp hpiece
      obtain ⟨s, hs, rfl⟩ := List.mem_map.mp hmem
      exact hfits s ((mem_cuts_iff String.length_toList.le).mp hs) _ rfl (by simpa using hne)

/-- A body within the budget is one piece. -/
theorem piecesOf_of_length_le {budget : ℕ} {body : String} (hne : body ≠ "") (hstrip : PyText.strip body = body)
    (hle : body.length ≤ budget) : piecesOf budget body = [body] := by
  have hlist : body.toList ≠ [] := fun hnil => hne (String.toList_eq_nil_iff.mp hnil)
  have hcuts : cuts budget body.length body.toList = [body.toList] := by
    obtain ⟨n, hn⟩ := Nat.exists_eq_succ_of_ne_zero fun hzero : body.length = 0 =>
      hlist (List.length_eq_zero_iff.mp (String.length_toList.trans hzero))
    have hcut : cutAt budget body.toList = body.toList.length := by
      rw [cutAt, String.length_toList, if_neg (Nat.not_lt.mpr hle)]
    rw [hn, cuts_of_ne_nil hlist, hcut, List.take_length, List.drop_length]
    cases n <;> rfl
  rw [piecesOf, hcuts, List.map_singleton, String.ofList_toList, hstrip, List.filter_cons_of_pos (by simpa using hne)]
  rfl

/-- A line of letters, `n` of them. -/
def letters (n : ℕ) : String := String.ofList (List.replicate n 'a')

theorem toList_letters (n : ℕ) : (letters n).toList = List.replicate n 'a' := String.toList_ofList

theorem headingOf_letters (n : ℕ) : headingOf (letters n) = none := by
  have hlevel : ((letters n).toList.takeWhile (· = '#')).length = 0 := by
    rw [toList_letters]
    cases n <;> rfl
  rw [headingOf, if_neg]
  rintro ⟨hone, -⟩
  rw [hlevel] at hone
  cases hone

theorem strip_letters (n : ℕ) : PyText.strip (letters n) = letters n := by
  have hsolid : ∀ c ∈ List.replicate n 'a', PyText.isSpace c = false := by
    intro c hc
    rw [List.eq_of_mem_replicate hc]
    rfl
  rw [letters, PyText.strip_ofList, PyText.strip_eq_self (fun c hc => hsolid c (List.mem_of_mem_head? hc))
    fun c hc => hsolid c (List.mem_of_mem_getLast? hc)]

theorem splitlines_letters {n : ℕ} (hn : n ≠ 0) : PyText.splitlines ("# Setup\n" ++ letters n) = ["# Setup", letters n] := by
  have hletters : PyText.splitlinesL [] (List.replicate n 'a') = [List.replicate n 'a'] := by
    refine PyText.splitlinesL_of_noBreak (.inr fun hnil => hn (by simpa using hnil)) fun c hc => ?_
    rw [List.eq_of_mem_replicate hc]
    rfl
  have hlist : ("# Setup\n" ++ letters n).toList = "# Setup".toList ++ '\n' :: List.replicate n 'a' := by
    rw [String.toList_append, toList_letters]
    rfl
  rw [PyText.splitlines, hlist, PyText.splitlinesL_append_newline, hletters]
  rfl

/-- 180 letters under a short heading, with a size of 200: the chunk has 220 characters. -/
theorem not_capped_small : ¬ Capped ("# Setup\n" ++ String.ofList (List.replicate 180 'a')) "README.md" 200 60 := by
  intro h
  have hrun : MaximalRun ["# Setup", letters 180] ⟨["# Setup"], [letters 180]⟩ := by
    refine ⟨fun line hline => ?_, by decide, [], rfl, by simp⟩
    rw [List.mem_singleton.mp hline, headingOf_letters]
  have hlength : (letters 180).length = 180 := by
    rw [letters, String.length_ofList, List.length_replicate]
  have hbody : bodyOf [letters 180] = letters 180 := strip_letters 180
  have hpieces : piecesOf 200 (letters 180) = [letters 180] := by
    refine piecesOf_of_length_le (fun hempty => ?_) (strip_letters 180) (by omega)
    rw [hempty] at hlength
    cases hlength
  have hmade : madeFrom "README.md" 200 60 ⟨["# Setup"], [letters 180]⟩ = [chunkOf "README.md" "Setup" (letters 180)] := by
    have hpath : headingPath (stackOf ["# Setup"]) = "Setup" := by decide
    have hbudget : (budgetOf "README.md" "Setup" 200).toNat = 200 := by decide
    rw [madeFrom, flush_eq, hpath, hbudget, hbody, hpieces, if_neg fun hdropped => absurd hdropped.2 (by decide)]
    rfl
  have hmem : chunkOf "README.md" "Setup" (letters 180) ∈
      chunkMarkdown ("# Setup\n" ++ letters 180) "README.md" 200 60 := by
    rw [chunkMarkdown_eq, splitlines_letters (by decide)]
    refine List.mem_flatMap.mpr ⟨_, mem_sections_iff.mpr hrun, ?_⟩
    rw [hmade]
    exact List.mem_singleton_self _
  have hcap := h _ hmem
  have hcrumb : (breadcrumb "README.md" "Setup").length = 39 := by decide
  rw [length_chunkOf, hlength, hcrumb] at hcap
  omega

/-! ### The headings of the document -/

/-- The titles of the headings that enclose what follows them. -/
def pathOf (hs : List (ℕ × String)) : String := headingPath (Outline.enclosing hs)

/-- The lines of `splitlines` that come to their end in a text. -/
def linesBefore (front : List Char) : List String := (Markdown.endedLines PyText.isLineBreak [] front).map String.ofList

/-- After `front`, the document goes on with a character that is no blank, in a line of the run. -/
structure Stands (text : String) (sec : Section) (front : List Char) : Prop where
  there : ∃ c back, text.toList = front ++ c :: back ∧ PyText.isSpace c = false
  start : sec.before.length ≤ (linesBefore front).length
  inside : (linesBefore front).length < sec.before.length + sec.run.length

/-- The chunks are those of the runs, and those of a run have the titles of the headings that enclose each
character of its text, as Markdown reads the document. -/
def NamesSections (text source : String) (maxChars minChars : ℤ) : Prop :=
  chunkMarkdown text source maxChars minChars =
      (sections (PyText.splitlines text)).flatMap (madeFrom source maxChars minChars) ∧
    ∀ sec ∈ sections (PyText.splitlines text), ∀ ch ∈ madeFrom source maxChars minChars sec,
      ∀ front, Stands text sec front → ch.heading = pathOf (Markdown.headings front)

/-- Markdown has the same lines, and each of them is the same heading in the document, or none. -/
structure Agrees (text : String) : Prop where
  ends : ∀ c ∈ text.toList, PyText.isLineBreak c = Markdown.isLineEnd c
  reads : ∀ pre line post, PyText.splitlines text = pre ++ line :: post →
    (Markdown.step (Markdown.State.start.after (pre.map String.toList)) line.toList).2 = headingOf line

section

variable {text : String} {front : List Char}

/-- The lines before a character are lines of the document, and the character's line follows. -/
theorem splitlines_of_stands (h : Stands text sec front) :
    ∃ line rest, PyText.splitlines text = linesBefore front ++ line :: rest ∧ solidChars line.toList ≠ [] := by
  obtain ⟨c, back, htext, hc⟩ := h.there
  have hbreak : PyText.isLineBreak c = false := by
    rw [Bool.eq_false_iff] at hc ⊢
    exact fun hbreak => hc (PyText.isSpace_of_isLineBreak hbreak)
  obtain ⟨l, l', rest, hlines⟩ := Markdown.splitlinesL_append_cons hbreak [] front back
  refine ⟨String.ofList (l ++ c :: l'), rest.map String.ofList, ?_, ?_⟩
  · rw [PyText.splitlines, htext, hlines, List.map_append, List.map_cons, linesBefore]
  · rw [String.toList_ofList, solidChars]
    exact List.ne_nil_of_mem (a := c) (List.mem_filter.mpr ⟨by simp, by simp [hc]⟩)

/-- They end in a part of the run: the headings are those before it. -/
theorem Stands.split (h : Stands text sec front) (hsec : MaximalRun (PyText.splitlines text) sec) :
    ∃ run line rest, sec.run = run ++ line :: rest ∧ linesBefore front = sec.before ++ run ∧ solidChars line.toList ≠ [] := by
  obtain ⟨line, rest, hlines, hsolid⟩ := splitlines_of_stands h
  obtain ⟨after, hparts, -⟩ := hsec.after
  have hstart := h.start
  have hinside := h.inside
  rw [hlines] at hparts
  rcases List.append_eq_append_iff.mp hparts with ⟨mid, hbefore, hmid⟩ | ⟨mid, hbefore, hmid⟩
  · -- the run would begin after the line
    have hlength := congrArg List.length hbefore
    rw [List.length_append] at hlength
    obtain rfl : mid = [] := List.length_eq_zero_iff.mp (by omega)
    rw [List.append_nil] at hbefore
    rw [List.nil_append] at hmid
    cases hrun : sec.run with
    | nil =>
      rw [hbefore, hrun, List.length_nil] at hinside
      omega
    | cons l run =>
      rw [hrun, List.cons_append] at hmid
      obtain ⟨rfl, -⟩ := List.cons.inj hmid
      exact ⟨[], line, run, rfl, by rw [hbefore, List.append_nil], hsolid⟩
  · have hlength := congrArg List.length hbefore
    rw [List.length_append] at hlength
    rcases List.append_eq_append_iff.mp hmid with ⟨m, hm, hrest⟩ | ⟨m, hm, hrest⟩
    · have hshort := congrArg List.length hm
      rw [List.length_append] at hshort
      obtain rfl : m = [] := List.length_eq_zero_iff.mp (by omega)
      rw [List.append_nil] at hm
      rw [hm] at hlength
      omega
    · cases m with
      | nil =>
        rw [List.append_nil] at hm
        rw [hm] at hinside
        omega
      | cons l m =>
        obtain ⟨rfl, -⟩ := List.cons.inj hrest
        exact ⟨mid, line, m, hm, hbefore, hsolid⟩

/-- The chunks of a run have the titles of the lines before it that look like headings. -/
theorem heading_of_mem_madeFrom {ch : Chunk} (h : ch ∈ madeFrom source maxChars minChars sec) :
    ch.heading = pathOf (headings sec.before) ∧ ¬ (sec.before = [] ∧ (bodyOf sec.run).length < minChars) := by
  rw [madeFrom, flush_eq] at h
  split_ifs at h with hdropped
  · cases h
  obtain ⟨piece, hpiece, rfl⟩ := List.mem_map.mp h
  refine ⟨by rw [pathOf, ← Outline.foldl_push]; rfl, fun hshort => hdropped ⟨hshort.2, ?_⟩⟩
  rw [hshort.1]
  rfl

/-- A run with text has a chunk, unless it is short and stands under no heading. -/
theorem exists_mem_madeFrom (h : MaximalRun lines sec) (hkept : ¬ (sec.before = [] ∧ ((bodyOf sec.run).length : ℤ) < minChars))
    {line : String} (hline : line ∈ sec.run) (hsolid : solidChars line.toList ≠ []) :
    ∃ ch, ch ∈ madeFrom source maxChars minChars sec := by
  obtain ⟨path, pieces, hmade, -, hchars⟩ := @keeps_madeFrom source maxChars minChars lines sec h
  rw [if_neg hkept] at hchars
  cases pieces with
  | nil =>
    refine absurd (List.filter_eq_nil_iff.mp hchars.symm) fun hblank => hsolid (solidChars_blank fun c hc => ?_)
    simpa using hblank c (List.mem_flatMap.mpr ⟨line, hline, hc⟩)
  | cons piece pieces => exact ⟨_, by rw [hmade]; exact List.mem_cons_self⟩

/-- Where Markdown agrees, the headings of the lines before a character are those of Markdown. -/
theorem Agrees.headings_eq (hagrees : Agrees text) (h : Stands text sec front) : headings (linesBefore front) = Markdown.headings front := by
  obtain ⟨line, rest, hlines, -⟩ := splitlines_of_stands h
  obtain ⟨c, back, htext, -⟩ := h.there
  have hsame : Markdown.endedLines PyText.isLineBreak [] front = Markdown.endedLines Markdown.isLineEnd [] front :=
    Markdown.endedLines_congr (fun d hd => hagrees.ends d (by rw [htext]; exact List.mem_append_left _ hd)) []
  have hheadings : Markdown.headingsFrom .start (Markdown.endedLines Markdown.isLineEnd [] front) =
      (Markdown.endedLines Markdown.isLineEnd [] front).filterMap fun l => headingOf (String.ofList l) := by
    refine Markdown.headingsFrom_eq_filterMap fun pre l post hparts => ?_
    have hat := hagrees.reads (pre.map String.ofList) (String.ofList l) (post.map String.ofList ++ line :: rest) (by
      rw [hlines, linesBefore, hsame, hparts]
      simp)
    rwa [List.map_map, String.toList_ofList, show String.toList ∘ String.ofList = id from funext fun _ => String.toList_ofList,
      List.map_id] at hat
  rw [Markdown.headings, hheadings, headings, linesBefore, hsame, List.filterMap_map]
  rfl

end

/-- **The breadcrumbs name the sections** exactly when, for each character of a text that has chunks, the lines
that look like headings enclose it with the same titles as the headings of the document; and so they do when
the lines and the headings that Markdown reads are those. -/
theorem namesSections_iff (text source : String) (maxChars minChars : ℤ) :
    (NamesSections text source maxChars minChars ↔ ∀ sec front, MaximalRun (PyText.splitlines text) sec →
      ¬ (sec.before = [] ∧ (bodyOf sec.run).length < minChars) → Stands text sec front →
        pathOf (headings (linesBefore front)) = pathOf (Markdown.headings front)) ∧
    (Agrees text → NamesSections text source maxChars minChars) := by
  have hrun : ∀ {sec front}, MaximalRun (PyText.splitlines text) sec → Stands text sec front →
      headings (linesBefore front) = headings sec.before := by
    intro sec front hsec hstands
    obtain ⟨run, line, rest, hparts, hbefore, -⟩ := hstands.split hsec
    have hnone : headings run = [] := headings_eq_nil fun l hl => hsec.text l (by rw [hparts]; exact List.mem_append_left _ hl)
    rw [hbefore, headings, List.filterMap_append, ← headings, ← headings, hnone, List.append_nil]
  have hiff : NamesSections text source maxChars minChars ↔ ∀ sec front, MaximalRun (PyText.splitlines text) sec →
      ¬ (sec.before = [] ∧ (bodyOf sec.run).length < minChars) → Stands text sec front →
        pathOf (headings (linesBefore front)) = pathOf (Markdown.headings front) := by
    constructor
    · rintro ⟨-, h⟩ sec front hsec hkept hstands
      obtain ⟨run, line, rest, hparts, -, hsolid⟩ := hstands.split hsec
      obtain ⟨ch, hch⟩ := @exists_mem_madeFrom source maxChars minChars _ sec hsec hkept line (by rw [hparts]; simp) hsolid
      rw [hrun hsec hstands, ← (heading_of_mem_madeFrom hch).1]
      exact h sec (mem_sections_iff.mpr hsec) ch hch front hstands
    · intro h
      refine ⟨chunkMarkdown_eq text source maxChars minChars, fun sec hsec ch hch front hstands => ?_⟩
      obtain ⟨hheading, hkept⟩ := heading_of_mem_madeFrom hch
      rw [hheading, ← hrun (mem_sections_iff.mp hsec) hstands]
      exact h sec front (mem_sections_iff.mp hsec) hkept hstands
  exact ⟨hiff, fun hagrees => hiff.mpr fun sec front _ _ hstands => congrArg pathOf (hagrees.headings_eq hstands)⟩

/-- The lines of a script in a document. -/
def setupText : String := "# Setup\n\x60\x60\x60\n# install\nmake\n\x60\x60\x60\n"

/-- What follows a comment of the script is put under the comment. -/
theorem not_namesSections_setup : ¬ NamesSections setupText "README.md" 1200 60 := by
  rintro ⟨-, h⟩
  have hmem : (⟨["# Setup", "\x60\x60\x60", "# install"], ["make", "\x60\x60\x60"]⟩ : Section) ∈
      sections (PyText.splitlines setupText) := by
    rw [mem_sections_iff]
    exact ⟨by decide, by decide, [], by decide, by simp⟩
  have hmade : madeFrom "README.md" 1200 60 ⟨["# Setup", "\x60\x60\x60", "# install"], ["make", "\x60\x60\x60"]⟩ =
      [chunkOf "README.md" "install" "make\n\x60\x60\x60"] := by decide
  have hstands : Stands setupText ⟨["# Setup", "\x60\x60\x60", "# install"], ["make", "\x60\x60\x60"]⟩
      "# Setup\n\x60\x60\x60\n# install\n".toList :=
    ⟨⟨'m', "ake\n\x60\x60\x60\n".toList, by decide, by decide⟩, by decide, by decide⟩
  have hheading := h _ hmem _ (hmade ▸ List.mem_singleton_self _) _ hstands
  exact absurd hheading (by decide)

end Persona.Rag
