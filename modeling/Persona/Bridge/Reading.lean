import Persona.Bridge.Starvation
import Persona.JsonLayout
import Persona.Lib.Lines

/-!
# Reading what Hermes prints

`_loads_lenient` of `tools/hermes_bridge.py` and of `tools/hermes_dispatch_loop.py` look for JSON in the
output of a command line. Both try the whole output first and what is between the outermost braces last. The
second says that it mirrors the first; but the first tries each line in between, from the last, so that a line
of a pretty-printed object which is JSON by itself (an empty object in a list, say) is taken for the result.
`readBy_iff` says when both read the object.
-/

namespace Persona.Bridge

open Persona.Lib Persona.JsonText
open Persona.Lib.PyText (isSpace isLineBreak splitlinesL lstripL rstripL)

/-- `_loads_lenient` of `hermes_dispatch_loop`. -/
def DispatchLoop.loadsLenient (P : Python) (stdout : String) : Option Json :=
  let s := PyText.strip stdout
  if s = "" then none else (P.loads s).or ((braced s).bind P.loads)

variable {F : Floats}

/-! ### Texts and lines -/

section Texts

/-- A line without the blanks around it. -/
theorem strip_parts (cs : List Char) : ∃ a b, cs = a ++ (rstripL (lstripL cs) ++ b) ∧ ∀ c ∈ a, isSpace c = true := by
  obtain ⟨b, hb⟩ := PyText.rstripL_prefix (lstripL cs)
  refine ⟨cs.takeWhile isSpace, b, ?_, fun c hc => List.mem_takeWhile_imp hc⟩
  rw [hb]
  exact List.takeWhile_append_dropWhile.symm

/-- **A line of a text of an object** that is JSON in brackets by itself, and not the whole text, is not the object:
it is a part of it, or it begins in a string of it that has a line break, and has no such string itself. -/
theorem ne_of_line {kvs : List (String × Json)} {cs line t : List Char} {v : Json} {o : Char} (hlayout : Layout F (.obj kvs) cs)
    (hline : line ∈ splitlinesL [] cs) (ht : rstripL (lstripL line) = o :: t) (ho : IsOpening o) (hne : o :: t ≠ cs)
    (h : IsText F v (o :: t)) : v ≠ .obj kvs := by
  have htext := hlayout.isText
  obtain ⟨d, hd⟩ := htext.shape
  obtain ⟨a, b, hab, ha⟩ := strip_parts line
  rw [ht] at hab
  rcases PyText.mem_splitlinesL hline with ⟨l, z, hl, hcs⟩ | ⟨x, e, z, he, hcs⟩
  · -- on the first line there is nothing before the object
    exfalso
    rw [List.reverse_nil, List.nil_append] at hl
    rw [← hl, hab] at hcs
    cases a with
    | nil =>
      have heq : (o :: t) ++ (b ++ z) = cs ++ [] := by
        rw [hcs]
        simp
      obtain ⟨-, hrest⟩ := isText_unique ho h htext heq
      rw [hrest, List.append_nil] at heq
      exact hne (by simpa using heq)
    | cons s a =>
      have hs := ha s List.mem_cons_self
      rw [hd] at hcs
      obtain ⟨rfl, -⟩ := List.cons.inj hcs
      cases hs
  · rw [hab] at hcs
    have hplace : cs = (x ++ e :: a) ++ o :: (t ++ (b ++ z)) := by
      rw [hcs]
      simp
    rcases hlayout.at_bracket ho hplace with ⟨w, t', rest, hsame, ht', -, hlt⟩ | ⟨hflip, x₀, b', hx, hbreaks⟩
    · have heq : (o :: t) ++ (b ++ z) = t' ++ rest := by
        rw [← hsame]
        simp
      obtain ⟨rfl, -⟩ := isText_unique ho h ht' heq
      intro hobj
      have hsmall := hlt (by simp)
      rw [hobj] at hsmall
      exact lt_irrefl _ hsmall
    · -- the line break is in the string, too
      have hquote : '"' ∉ e :: a := by
        intro hmem
        rcases List.mem_cons.mp hmem with rfl | hmem
        · cases he
        · cases ha _ hmem
      obtain ⟨z', rfl, -⟩ := at_append_left hx hquote
      obtain ⟨hholds, hout⟩ := hbreaks e (by simp) he
      have hread := h.read ((o :: t).length + 1) (b ++ z) (by omega) (separated_of_opening h ho _)
      have houtside := ((flipped _).1 _ _ _ hread (by simpa using hflip)).2
      rintro rfl
      rw [houtside e hholds] at hout
      cases hout

end Texts

/-! ### Chatter -/

/-- The characters are none of the brackets and braces. -/
def NoBrackets (cs : List Char) : Prop := ∀ c ∈ cs, c ∉ ['\x7b', '\x7d', '[', ']']

/-- Lines before and after an object, without brackets and braces. -/
structure Chatter (before after : String) : Prop where
  noneBefore : NoBrackets before.toList
  noneAfter : NoBrackets after.toList
  /-- The last line before the object is ended. -/
  ended : before = "" ∨ before.toList.getLast? = some '\n'
  /-- The object's last line is ended. -/
  begun : after = "" ∨ after.toList.head? = some '\n'

/-- What is left of the chatter when the output is stripped. -/
structure Stripped (p q : List Char) : Prop where
  noneBefore : NoBrackets p
  noneAfter : NoBrackets q
  ended : p = [] ∨ ∃ p', p = p' ++ ['\n']
  begun : q = [] ∨ ∃ q', q = '\n' :: q'
  first : ∀ c ∈ p.head?, isSpace c = false
  last : ∀ c ∈ q.getLast?, isSpace c = false

section Chatter

theorem stripped_of_chatter {before after : String} (h : Chatter before after) :
    Stripped (lstripL before.toList) (rstripL after.toList) where
  noneBefore c hc := h.noneBefore c ((List.dropWhile_suffix _).subset hc)
  noneAfter c hc := h.noneAfter c ((PyText.rstripL_prefix _).subset hc)
  ended := by
    rcases h.ended with rfl | hlast
    · exact .inl rfl
    · by_cases hempty : lstripL before.toList = []
      · exact .inl hempty
      · obtain ⟨cs, hcs⟩ : lstripL before.toList <:+ before.toList := List.dropWhile_suffix isSpace
        rw [← hcs, List.getLast?_append_of_ne_nil _ hempty] at hlast
        exact .inr (List.getLast?_eq_some_iff.mp hlast)
  begun := by
    rcases h.begun with rfl | hhead
    · exact .inl rfl
    · by_cases hempty : rstripL after.toList = []
      · exact .inl hempty
      · obtain ⟨cs, hcs⟩ := PyText.rstripL_prefix after.toList
        rw [← hcs, List.head?_append_of_ne_nil _ hempty] at hhead
        exact .inr (List.head?_eq_some_iff.mp hhead)
  first := PyText.head?_lstripL
  last := PyText.getLast?_rstripL

variable {p q cs d : List Char} {kvs : List (String × Json)}

theorem NoBrackets.notMem {c : Char} (h : NoBrackets p) (hc : c ∈ ['\x7b', '\x7d', '[', ']']) : c ∉ p := fun hmem => h c hmem hc

/-- The lines around an object. -/
theorem lines_around (h : Stripped p q) (hne : cs ≠ []) (hlast : ∀ c ∈ cs.getLast?, isLineBreak c = false) :
    ∃ before after, splitlinesL [] (p ++ (cs ++ q)) = before ++ (splitlinesL [] cs ++ after) ∧
      (∀ line ∈ before, line <:+: p) ∧ ∀ line ∈ after, line <:+: q := by
  have hafter : ∃ after, splitlinesL [] (cs ++ q) = splitlinesL [] cs ++ after ∧ ∀ line ∈ after, line <:+: q := by
    rcases h.begun with rfl | ⟨q', rfl⟩
    · exact ⟨[], by simp, fun line hline => absurd hline List.not_mem_nil⟩
    · refine ⟨splitlinesL [] q', ?_, fun line hline => ?_⟩
      · rw [PyText.splitlinesL_append_newline, PyText.splitlinesL_snoc_newline (.inr hne) hlast]
      · exact (PyText.infix_of_mem_splitlinesL hline).trans (List.infix_cons (List.infix_refl q'))
  obtain ⟨after, heq, hmem⟩ := hafter
  rcases h.ended with rfl | ⟨p', rfl⟩
  · exact ⟨[], after, heq, fun line hline => absurd hline List.not_mem_nil, hmem⟩
  · refine ⟨splitlinesL [] (p' ++ ['\n']), after, ?_, fun line => PyText.infix_of_mem_splitlinesL, hmem⟩
    rw [List.append_assoc, List.singleton_append, PyText.splitlinesL_append_newline, heq]

theorem findIdx_append_cons {c : Char} {xs : List Char} (h : c ∉ xs) (ys : List Char) :
    (xs ++ c :: ys).findIdx (· == c) = xs.length := by
  have hnone : xs.findIdx (· == c) = xs.length := by
    refine List.findIdx_eq_length_of_false fun d hd => ?_
    rw [beq_eq_false_iff_ne]
    rintro rfl
    exact h hd
  rw [List.findIdx_append, hnone, if_neg (lt_irrefl _), List.findIdx_cons]
  simp

/-- The outermost braces are those of the object. -/
theorem braced_around (hp : NoBrackets p) (hq : NoBrackets q) (hcs : cs = '\x7b' :: (d ++ ['\x7d'])) :
    braced (String.ofList (p ++ (cs ++ q))) = some (String.ofList cs) := by
  have hstart : (p ++ (cs ++ q)).findIdx (· == '\x7b') = p.length := by
    rw [hcs]
    exact findIdx_append_cons (hp.notMem (by simp)) _
  have hstop : (p ++ (cs ++ q)).reverse.findIdx (· == '\x7d') = q.length := by
    have hrev : (p ++ (cs ++ q)).reverse = q.reverse ++ '\x7d' :: (p ++ '\x7b' :: d).reverse := by
      rw [hcs]
      simp
    have hnone : '\x7d' ∉ q.reverse := by
      rw [List.mem_reverse]
      exact hq.notMem (by simp)
    rw [hrev, findIdx_append_cons hnone, List.length_reverse]
  have hlength : (p ++ (cs ++ q)).length - q.length = p.length + cs.length := by
    rw [List.length_append, List.length_append]
    omega
  have htwo : 1 < cs.length := by
    rw [hcs]
    simp
  have hcut : ((p ++ (cs ++ q)).take (p.length + cs.length)).drop p.length = cs := by
    rw [List.take_length_add_append, List.drop_left, List.take_left]
  unfold braced
  rw [String.toList_ofList]
  dsimp only
  rw [hstart, hstop, hlength, if_pos (by omega), hcut]

/-- With chatter around it the whole output is no JSON. -/
theorem loads_around (h : Stripped p q) (hlayout : Layout F (.obj kvs) cs) (hsome : p ≠ [] ∨ q ≠ []) :
    loads F (String.ofList (p ++ (cs ++ q))) = none := by
  have htext := hlayout.isText
  obtain ⟨d, rfl⟩ := htext.shape
  by_cases hquote : p.head? = some '"'
  · -- a string does not go past the end of its line
    by_contra hload
    obtain ⟨v, hv⟩ := Option.ne_none_iff_exists'.mp hload
    have hwhole := isText_around htext (.inl rfl) h.first h.last hv
    obtain ⟨p, rfl⟩ : ∃ p', p = '"' :: p' := ⟨p.tail, List.eq_cons_of_mem_head? hquote⟩
    have hread := hwhole.read _ [] (Nat.lt_succ_self _) (separated_of_endsNumber endsNumber_nil)
    rw [List.append_nil, List.cons_append, value, if_pos rfl] at hread
    obtain ⟨⟨s', rest⟩, hscan, heq⟩ := Option.map_eq_some_iff.mp hread
    obtain ⟨-, rfl⟩ := Prod.mk.inj heq
    obtain ⟨p', hp'⟩ := h.ended.resolve_left (List.cons_ne_nil _ _)
    have hmem : '\n' ∈ p := by
      have hin : '\n' ∈ '"' :: p := by
        rw [hp']
        simp
      exact (List.mem_cons.mp hin).resolve_left (by decide)
    obtain ⟨-, hcontrol⟩ := (lineBreak_mem_of_scanString hscan (List.mem_append_left _ hmem) rfl).resolve_right List.not_mem_nil
    exact hcontrol (by decide)
  · refine loads_beside htext (.inl rfl) (fun c hc => ⟨?_, ?_⟩) h.first h.last hsome
    · have hnone := h.noneBefore c (List.mem_of_mem_head? hc)
      rintro (rfl | rfl) <;> simp at hnone
    · rintro rfl
      exact hquote hc

end Chatter

/-! ### The readers -/

section Readers

/-- Python's library, with its JSON. -/
def pythonWithJson (P : Python) (F : Floats) : Python := { P with loads := loads F }

/-- A text that begins with a bracket and is JSON. -/
def IsJson (F : Floats) (s : String) : Prop := (s.startsWith "\x7b" || s.startsWith "[") = true ∧ loads F s ≠ none

/-- No line of the text is JSON in brackets by itself, unless it is the whole text. -/
def NoJsonLine (F : Floats) (text : String) : Prop :=
  ∀ line ∈ PyText.splitlines text, PyText.strip line = text ∨ ¬ IsJson F (PyText.strip line)

/-- The JSON of a line that begins with a bracket. -/
def lineJson (P : Python) (line : String) : Option Json :=
  if (PyText.strip line).startsWith "\x7b" || (PyText.strip line).startsWith "[" then P.loads (PyText.strip line) else none

theorem firstJson_eq (P : Python) (lines : List String) : firstJson P lines = lines.findSome? (lineJson P) := by
  induction lines with
  | nil => rfl
  | cons line lines ih =>
    rw [firstJson, List.findSome?_cons, lineJson, ih]
    split_ifs
    · cases P.loads (PyText.strip line) <;> rfl
    · rfl

theorem lineJson_eq {P : Python} {line : String} {v : Json} : lineJson (pythonWithJson P F) line = some v ↔
    ((PyText.strip line).startsWith "\x7b" || (PyText.strip line).startsWith "[") = true ∧ loads F (PyText.strip line) = some v := by
  have hloads : (pythonWithJson P F).loads = loads F := rfl
  rw [lineJson, hloads]
  split_ifs with h
  · exact (and_iff_right h).symm
  · exact ⟨fun hv => absurd hv (by simp), fun hv => absurd hv.1 h⟩

theorem isJson_iff {P : Python} {line : String} : IsJson F (PyText.strip line) ↔ lineJson (pythonWithJson P F) line ≠ none := by
  rw [IsJson, Option.ne_none_iff_exists', Option.ne_none_iff_exists', ← exists_and_left]
  exact exists_congr fun v => lineJson_eq.symm

variable {P : Python} {text : String} {kvs : List (String × Json)} {p q : List Char}

theorem opening_iff {s : String} : (s.startsWith "\x7b" || s.startsWith "[") = true ↔ ∃ o ∈ s.toList.head?, IsOpening o := by
  have hbrace : "\x7b".toList = ['\x7b'] := rfl
  have hbracket : "[".toList = ['['] := rfl
  rw [Bool.or_eq_true, String.startsWith_string_iff, String.startsWith_string_iff, hbrace, hbracket]
  cases s.toList with
  | nil => simp
  | cons c cs => simp [IsOpening, eq_comm]

/-- A line of chatter is not taken for JSON. -/
theorem lineJson_chatter {line : List Char} (hp : NoBrackets p) (h : line <:+: p) : lineJson P (String.ofList line) = none := by
  rw [lineJson, if_neg]
  rw [opening_iff, PyText.strip_ofList, String.toList_ofList]
  rintro ⟨o, ho, hopening⟩
  obtain ⟨a, b, hab, -⟩ := strip_parts line
  have hmem : o ∈ line := by
    rw [hab]
    exact List.mem_append_right _ (List.mem_append_left _ (List.mem_of_mem_head? ho))
  rcases hopening with rfl | rfl
  · exact hp.notMem (by simp) (h.subset hmem)
  · exact hp.notMem (by simp) (h.subset hmem)

theorem splitlines_ofList (cs : List Char) : PyText.splitlines (String.ofList cs) = (splitlinesL [] cs).map String.ofList := by
  rw [PyText.splitlines, String.toList_ofList]

/-- Of the lines around an object, those of the object count. -/
theorem firstJson_around (h : Stripped p q) (hne : text.toList ≠ []) (hlast : ∀ c ∈ text.toList.getLast?, isLineBreak c = false) :
    firstJson P (PyText.splitlines (String.ofList (p ++ (text.toList ++ q)))).reverse =
      (PyText.splitlines text).reverse.findSome? (lineJson P) := by
  have hnone : ∀ {cs : List Char} {lines : List (List Char)}, NoBrackets cs → (∀ line ∈ lines, line <:+: cs) →
      (lines.map String.ofList).reverse.findSome? (lineJson P) = none := by
    intro cs lines hcs hlines
    rw [List.findSome?_eq_none_iff]
    intro line hline
    rw [List.mem_reverse] at hline
    obtain ⟨l, hl, rfl⟩ := List.mem_map.mp hline
    exact lineJson_chatter hcs (hlines l hl)
  obtain ⟨before, after, heq, hbefore, hafter⟩ := lines_around h hne hlast
  rw [firstJson_eq, splitlines_ofList, heq, List.map_append, List.map_append, List.reverse_append, List.reverse_append,
    List.findSome?_append, List.findSome?_append, hnone h.noneBefore hbefore, hnone h.noneAfter hafter, Option.none_or,
    Option.or_none]
  rfl

theorem getLast?_of_layout (hlayout : Layout F (.obj kvs) text.toList) : text.toList.getLast? = some '\x7d' := by
  obtain ⟨d, hd⟩ := hlayout.isText.shape
  rw [hd, ← List.cons_append, List.getLast?_append_of_ne_nil _ (by simp)]
  rfl

/-- An object has no blanks around it. -/
theorem strip_layout (hlayout : Layout F (.obj kvs) text.toList) : rstripL (lstripL text.toList) = text.toList := by
  have hlast := getLast?_of_layout hlayout
  obtain ⟨d, hd⟩ := hlayout.isText.shape
  have hfirst : ∀ c ∈ text.toList.head?, isSpace c = false := by
    rw [hd]
    rintro c ⟨⟩
    rfl
  have hstrip : rstripL (lstripL ([] ++ (text.toList ++ []))) = lstripL [] ++ (text.toList ++ rstripL []) :=
    PyText.strip_around (by rw [hd]; simp) hfirst (by rw [hlast]; rintro c ⟨⟩; rfl)
  rw [List.nil_append, List.append_nil] at hstrip
  rw [hstrip]
  simp [lstripL, rstripL]

/-- A line that is the whole text but for blanks is the only one. -/
theorem splitlines_of_whole {l : String} (hlayout : Layout F (.obj kvs) text.toList) (hl : l ∈ PyText.splitlines text)
    (heq : PyText.strip l = text) : PyText.splitlines text = [text] := by
  obtain ⟨line, hline, rfl⟩ := List.mem_map.mp hl
  rw [PyText.strip_ofList] at heq
  have hnobreak : ∀ c ∈ text.toList, isLineBreak c = false := by
    intro c hc
    obtain ⟨a, b, hab, -⟩ := strip_parts line
    refine PyText.isLineBreak_of_mem_splitlinesL hline (by simp) c ?_
    rw [← heq, String.toList_ofList] at hc
    rw [hab]
    exact List.mem_append_right _ (List.mem_append_left _ hc)
  obtain ⟨d, hd⟩ := hlayout.isText.shape
  have hne : text.toList ≠ [] := by
    rw [hd]
    simp
  rw [PyText.splitlines, PyText.splitlinesL_of_noBreak (.inr hne) hnobreak, List.reverse_nil, List.nil_append, List.map_singleton,
    String.ofList_toList]

/-- A line that is JSON in brackets by itself, and not the whole text, is not read as the object. -/
theorem ne_of_lineJson {l : String} {v : Json} (hlayout : Layout F (.obj kvs) text.toList) (hl : l ∈ PyText.splitlines text)
    (hne : PyText.strip l ≠ text) (hv : lineJson (pythonWithJson P F) l = some v) : v ≠ .obj kvs := by
  obtain ⟨line, hline, rfl⟩ := List.mem_map.mp hl
  obtain ⟨hopening, hload⟩ := lineJson_eq.mp hv
  rw [opening_iff] at hopening
  rw [PyText.strip_ofList] at hne hload hopening
  rw [String.toList_ofList] at hopening
  obtain ⟨o, ho, hopening⟩ := hopening
  have ht := List.eq_cons_of_mem_head? ho
  refine ne_of_line hlayout hline ht hopening ?_ ?_
  · rintro heq
    rw [← ht] at heq
    exact hne (by rw [heq, String.ofList_toList])
  · rw [← ht]
    refine isText_of_loads hload (fun c hc => ?_) PyText.getLast?_rstripL
    rw [ht] at hc
    obtain rfl := Option.some.inj hc
    rcases hopening with rfl | rfl <;> rfl

/-- **When no line is taken for the object.** -/
theorem findSome?_lines (hlayout : Layout F (.obj kvs) text.toList) (P : Python) :
    ((PyText.splitlines text).reverse.findSome? (lineJson (pythonWithJson P F))).or (some (.obj kvs)) = some (.obj kvs) ↔
      NoJsonLine F text := by
  constructor
  · intro hsame line hline
    by_contra hno
    rw [not_or, not_not, isJson_iff (P := P)] at hno
    obtain ⟨hne, hjson⟩ := hno
    cases hfound : (PyText.splitlines text).reverse.findSome? (lineJson (pythonWithJson P F)) with
    | none => exact hjson (List.findSome?_eq_none_iff.mp hfound line (List.mem_reverse.mpr hline))
    | some v =>
      rw [hfound, Option.some_or, Option.some.injEq] at hsame
      obtain ⟨l, hl, hv⟩ := List.exists_of_findSome?_eq_some hfound
      rw [List.mem_reverse] at hl
      by_cases hwhole : PyText.strip l = text
      · -- then there is no other line
        rw [splitlines_of_whole hlayout hl hwhole, List.mem_singleton] at hline
        refine hne ?_
        rw [hline, PyText.strip, strip_layout hlayout, String.ofList_toList]
      · exact ne_of_lineJson hlayout hl hwhole hv hsame
  · intro hno
    cases hfound : (PyText.splitlines text).reverse.findSome? (lineJson (pythonWithJson P F)) with
    | none => rfl
    | some v =>
      obtain ⟨l, hl, hv⟩ := List.exists_of_findSome?_eq_some hfound
      rcases hno l (List.mem_reverse.mp hl) with heq | hnot
      · have hload := loads_of_isText hlayout.isText
        rw [String.ofList_toList] at hload
        rw [lineJson_eq, heq, hload] at hv
        rw [← hv.2]
        rfl
      · rw [isJson_iff (P := P), hv] at hnot
        exact absurd (by simp) hnot

end Readers

/-! ### What is read -/

section Card

/-- Only blanks. -/
def Blank (s : String) : Prop := ∀ c ∈ s.toList, isSpace c = true

/-- The host, with Python's JSON. -/
def Host.withJson (H : Host) (F : Floats) : Host := { H with toPython := pythonWithJson H.toPython F }

/-- Both readers read the object from the output, and so do those that call the bridge's. -/
structure ReadBy (H : Host) (out : String) (kvs : List (String × Json)) : Prop where
  bridge : loadsLenient H.toPython out = some (.obj kvs)
  dispatch : DispatchLoop.loadsLenient H.toPython out = some (.obj kvs)
  created : parseCreatedId H.toPython out = (Json.get kvs "id").or (Json.get kvs "task_id")
  fetched : ∀ err, fetchTask H (0, out, err) = some kvs

variable {H : Host} {before text after : String} {kvs : List (String × Json)}

theorem readBy_of_loads {out : String} (hbridge : loadsLenient H.toPython out = some (.obj kvs))
    (hdispatch : DispatchLoop.loadsLenient H.toPython out = some (.obj kvs)) : ReadBy H out kvs where
  bridge := hbridge
  dispatch := hdispatch
  created := by rw [parseCreatedId, hbridge]
  fetched err := by
    rw [fetchTask, if_neg (by simp), hbridge]

theorem loadsLenient_eq (P : Python) {out : String} (hne : PyText.strip out ≠ "") (hbraced : braced (PyText.strip out) = some text) :
    loadsLenient P out = (P.loads (PyText.strip out)).or
      ((firstJson P (PyText.splitlines (PyText.strip out)).reverse).or (P.loads text)) := by
  unfold loadsLenient
  dsimp only
  rw [if_neg hne, hbraced, Option.bind_some]

theorem dispatch_eq (P : Python) {out : String} (hne : PyText.strip out ≠ "") (hbraced : braced (PyText.strip out) = some text) :
    DispatchLoop.loadsLenient P out = (P.loads (PyText.strip out)).or (P.loads text) := by
  unfold DispatchLoop.loadsLenient
  dsimp only
  rw [if_neg hne, hbraced, Option.bind_some]

/-- **When the object is read**: both readers read it exactly when there is no chatter, or no line of its text is
JSON in brackets by itself. -/
theorem readBy_iff (H : Host) (F : Floats) (hlayout : Layout F (.obj kvs) text.toList) (hchatter : Chatter before after) :
    ReadBy (H.withJson F) (before ++ text ++ after) kvs ↔ Blank before ∧ Blank after ∨ NoJsonLine F text := by
  have hstripped := stripped_of_chatter hchatter
  have hload : loads F text = some (.obj kvs) := by
    have hload := loads_of_isText hlayout.isText
    rwa [String.ofList_toList] at hload
  obtain ⟨d, hd⟩ := hlayout.isText.shape
  have hlast := getLast?_of_layout hlayout
  have hne : text.toList ≠ [] := by
    rw [hd]
    simp
  have hstrip : PyText.strip (before ++ text ++ after) =
      String.ofList (lstripL before.toList ++ (text.toList ++ rstripL after.toList)) := by
    rw [PyText.strip, String.toList_append, String.toList_append, List.append_assoc, PyText.strip_around hne]
    · rw [hd]
      rintro c ⟨⟩
      rfl
    · rw [hlast]
      rintro c ⟨⟩
      rfl
  have hnonempty : PyText.strip (before ++ text ++ after) ≠ "" := by
    rw [hstrip]
    intro hempty
    have hnil := congrArg String.toList hempty
    rw [String.toList_ofList, hd] at hnil
    simp at hnil
  have hbraced := braced_around hstripped.noneBefore hstripped.noneAfter hd
  rw [← hstrip, String.ofList_toList] at hbraced
  have hloads : (pythonWithJson H.toPython F).loads = loads F := rfl
  have hpython : (H.withJson F).toPython = pythonWithJson H.toPython F := rfl
  have hbridge := loadsLenient_eq (pythonWithJson H.toPython F) hnonempty hbraced
  have hdispatch := dispatch_eq (pythonWithJson H.toPython F) hnonempty hbraced
  rw [hloads, hload] at hbridge hdispatch
  rw [← hpython] at hdispatch
  by_cases hblank : Blank before ∧ Blank after
  · -- the output is the object's text
    rw [PyText.lstripL_eq_nil_iff.mpr hblank.1, PyText.rstripL_eq_nil_iff.mpr hblank.2, List.nil_append, List.append_nil,
      String.ofList_toList] at hstrip
    rw [hstrip, hload, Option.some_or] at hbridge hdispatch
    rw [← hpython] at hbridge
    exact iff_of_true (readBy_of_loads hbridge hdispatch) (.inl hblank)
  · have hsome : lstripL before.toList ≠ [] ∨ rstripL after.toList ≠ [] := by
      rw [Ne, Ne, PyText.lstripL_eq_nil_iff, PyText.rstripL_eq_nil_iff, ← not_and_or]
      exact hblank
    have hnone := loads_around hstripped hlayout hsome
    rw [← hstrip] at hnone
    rw [hnone, Option.none_or] at hbridge hdispatch
    rw [hstrip, firstJson_around hstripped hne (by rw [hlast]; rintro c ⟨⟩; rfl)] at hbridge
    have hlines := findSome?_lines hlayout H.toPython
    rw [or_iff_right hblank, ← hlines, ← hbridge, ← hpython]
    exact ⟨fun h => h.bridge, fun h => readBy_of_loads h hdispatch⟩

/-- A card with one run of which nothing is known. -/
def blankRun : List (String × Json) := [("id", .str "t1"), ("runs", .arr [.obj []])]

/-- The card as it is printed with an indent of two. -/
def blankRunText : String := "\x7b\n  \"id\": \"t1\",\n  \"runs\": [\n    \x7b\x7d\n  ]\n\x7d"

/-- The list of its runs, as it is printed. -/
theorem layout_runs : Layout F (.arr [.obj []]) "[\n    \x7b\x7d\n  ]".toList := by
  have hnone : Blanks [] := fun c hc => absurd hc List.not_mem_nil
  have hempty : Layout F (.obj []) "\x7b\x7d".toList := .objNil hnone
  have hrun : Blanks "\n    ".toList ∧ Blanks "\n  ".toList := by
    unfold Blanks
    decide
  let run : Element := ⟨"\n    ".toList, "\x7b\x7d".toList, "\n  ".toList, .obj []⟩
  have hruns : Layout F (.arr ([run].map Element.value)) ('[' :: (commas ([run].map Element.part) ++ [']'])) :=
    .arr (by simp) (List.forall_mem_singleton.mpr hrun) (List.forall_mem_singleton.mpr hempty)
  exact hruns

theorem layout_blankRun : Layout F (.obj blankRun) blankRunText.toList := by
  have hid : Literal "id" "\"id\"".toList := ⟨_, _, rfl, rfl, rfl⟩
  have hruns : Literal "runs" "\"runs\"".toList := ⟨_, _, rfl, rfl, rfl⟩
  have ht1 : Literal "t1" "\"t1\"".toList := ⟨_, _, rfl, rfl, rfl⟩
  have hblanks : Blanks "\n  ".toList ∧ Blanks " ".toList ∧ Blanks "\n".toList ∧ Blanks [] := by
    unfold Blanks
    decide
  obtain ⟨hindent, hspace, hend, hnone⟩ := hblanks
  let ms : List Member := [⟨⟨" ".toList, "\"t1\"".toList, [], .str "t1"⟩, "id", "\"id\"".toList, "\n  ".toList, []⟩,
    ⟨⟨" ".toList, "[\n    \x7b\x7d\n  ]".toList, "\n".toList, .arr [.obj []]⟩, "runs", "\"runs\"".toList, "\n  ".toList, []⟩]
  have hcard : Layout F (.obj (ms.map fun m => (m.key, m.value))) ('\x7b' :: (commas (ms.map Member.part) ++ ['\x7d'])) := by
    refine .obj (by simp [ms]) (by simp [ms]) ?_ ?_ ?_
    · simp only [ms, List.forall_mem_cons]
      exact ⟨⟨hid, hindent, hnone⟩, ⟨hruns, hindent, hnone⟩, fun m hm => absurd hm List.not_mem_nil⟩
    · simp only [ms, List.forall_mem_cons]
      exact ⟨⟨hspace, hnone⟩, ⟨hspace, hend⟩, fun m hm => absurd hm List.not_mem_nil⟩
    · simp only [ms, List.forall_mem_cons]
      exact ⟨.str ht1, layout_runs, fun m hm => absurd hm List.not_mem_nil⟩
  exact hcard

theorem chatter_created : Chatter "Created.\n" "" where
  noneBefore := by
    unfold NoBrackets
    decide
  noneAfter := by
    unfold NoBrackets
    decide
  ended := .inr rfl
  begun := .inl rfl

theorem readBy_iff_blankRun : ReadBy (deafHost.withJson .none) ("Created.\n" ++ blankRunText ++ "") blankRun ↔
    Blank "Created.\n" ∧ Blank "" ∨ NoJsonLine .none blankRunText :=
  readBy_iff deafHost .none layout_blankRun chatter_created

/-- The empty run is taken for the card, and the card's id is lost. -/
theorem not_readBy_blankRun : ¬ ∀ (H : Host) (F : Floats) (kvs : List (String × Json)) (before text after : String),
    Layout F (.obj kvs) text.toList → Chatter before after → ReadBy (H.withJson F) (before ++ text ++ after) kvs := by
  intro h
  have hcreated := (h deafHost .none blankRun "Created.\n" blankRunText "" layout_blankRun chatter_created).created
  have hlost : (parseCreatedId (deafHost.withJson .none).toPython ("Created.\n" ++ blankRunText ++ "")).truthy = false := by
    decide +kernel
  rw [hcreated] at hlost
  exact absurd hlost (by decide)

end Card

end Persona.Bridge
