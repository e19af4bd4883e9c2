import Persona.Lib.CharRef
import Persona.SortingLine.Inbox

/-!
# The text of an HTML file

`_TextHTMLParser` counts the script and style elements that are open, and keeps the character data outside them;
`text` joins what it kept, splits it at blanks, joins the words with one blank between them, and unescapes them.

Up to there nothing goes wrong: when the elements are nested, the words are those of the character data outside
every script and style (`htmlText_eq`). But the parser has replaced the character references already, and `text`
does it once more. The words are the ones that the parser reports exactly when none of them has a reference still
(`htmlText_exact_iff`), and a page about markup is where they have.
-/

namespace Persona.SortingLine

open Persona.Lib

variable {β V : Type*}

/-- The library with `html.unescape` over a table of names. -/
def Library.withHtml5 (L : Library β V) (T : Html5) : Library β V :=
  { L with unescape := fun s => String.ofList (CharRef.unescape T s.toList) }

/-! ### Inside and outside -/

/-- The open elements after an end tag, the last one first. Where none is open, the tag is stray; `none` when it ends
another one than the last. -/
def closeElem (tag : String) : List String → Option (List String)
  | [] => some []
  | elem :: elems => if elem = tag then some elems else none

/-- The script and style elements that are open after an event. -/
def openStep (elems : List String) : HtmlEvent → Option (List String)
  | .starttag tag => some (if tag = "script" ∨ tag = "style" then tag :: elems else elems)
  | .endtag tag => if tag = "script" ∨ tag = "style" then closeElem tag elems else some elems
  | .data _ => some elems

/-- The script and style elements that are open after some events. -/
def openAfter (es : List HtmlEvent) : Option (List String) := es.foldlM openStep []

/-- Script and style elements are properly nested; end tags may be stray. -/
def Nested (es : List HtmlEvent) : Prop := openAfter es ≠ none

instance (es : List HtmlEvent) : Decidable (Nested es) := inferInstanceAs (Decidable (openAfter es ≠ none))

/-- The character data of an event, when no script or style is open after the events before it. -/
def dataOutside (before : List HtmlEvent) : HtmlEvent → List String
  | .data text => if openAfter before = some [] then [text] else []
  | _ => []

/-- The character data outside every script and style, after the events before. -/
def outsideFrom (before es : List HtmlEvent) : List String :=
  (es.inits.zip es).flatMap fun e => dataOutside (before ++ e.1) e.2

/-- The character data outside every script and style. -/
def outside (es : List HtmlEvent) : List String := outsideFrom [] es

variable {L : Library β V} {T : Html5} {elems elems' : List String} {before es : List HtmlEvent} {e : HtmlEvent}

theorem openAfter_append : openAfter (before ++ es) = (openAfter before).bind fun elems => es.foldlM openStep elems :=
  List.foldlM_append

theorem openAfter_concat (h : openAfter before = some elems) : openAfter (before ++ [e]) = openStep elems e := by
  rw [openAfter_append, h, Option.bind_some, List.foldlM_cons, Option.bind_eq_bind]
  exact Option.bind_fun_some _

theorem outsideFrom_cons (before : List HtmlEvent) (e : HtmlEvent) (es : List HtmlEvent) :
    outsideFrom before (e :: es) = dataOutside before e ++ outsideFrom (before ++ [e]) es := by
  rw [outsideFrom, List.inits_cons, List.zip_cons_cons, List.flatMap_cons, List.append_nil, outsideFrom]
  congr 1
  rw [List.zip_map_left, List.flatMap_map]
  simp

theorem length_closeElem {tag : String} (h : closeElem tag elems = some elems') : elems'.length = elems.length - 1 := by
  cases elems with
  | nil =>
    obtain rfl := Option.some.inj h
    rfl
  | cons elem elems =>
    rw [closeElem] at h
    split_ifs at h
    obtain rfl := Option.some.inj h
    rfl

/-- The counter is the number of the open elements, and an event adds the data that is no blank. -/
theorem chunks_cons (hbefore : openAfter before = some elems) (h : openStep elems e = some elems') :
    chunks elems.length (e :: es) =
      (dataOutside before e).filter (fun s => PyText.strip s ≠ "") ++ chunks elems'.length es := by
  cases e with
  | starttag tag =>
    obtain rfl := Option.some.inj h
    rw [chunks]
    split_ifs <;> simp [dataOutside]
  | endtag tag =>
    dsimp only [openStep] at h
    rw [chunks]
    split_ifs at h ⊢ with htag
    · rw [length_closeElem h]
      rfl
    · obtain rfl := Option.some.inj h
      rfl
  | data text =>
    obtain rfl := Option.some.inj h
    rw [chunks, dataOutside, hbefore]
    by_cases hopen : elems = []
    · by_cases hblank : PyText.strip text = "" <;> simp [hopen, hblank]
    · have hsome : some elems ≠ some [] := fun heq => hopen (Option.some.inj heq)
      rw [if_neg hsome, if_neg fun hdepth => hopen (List.length_eq_zero_iff.mp hdepth.1)]
      rfl

theorem chunks_from (hbefore : openAfter before = some elems) (h : Nested (before ++ es)) :
    chunks elems.length es = (outsideFrom before es).filter fun s => PyText.strip s ≠ "" := by
  induction es generalizing before elems with
  | nil => rfl
  | cons e es ih =>
    have happend : before ++ e :: es = before ++ [e] ++ es := by rw [List.append_assoc, List.singleton_append]
    rw [happend] at h
    cases hstep : openStep elems e with
    | none =>
      rw [Nested, openAfter_append, openAfter_concat hbefore, hstep] at h
      exact absurd rfl h
    | some elems' =>
      have hafter : openAfter (before ++ [e]) = some elems' := (openAfter_concat hbefore).trans hstep
      rw [chunks_cons hbefore hstep, outsideFrom_cons, List.filter_append, ih hafter h]

/-- **What is kept** is the data outside every script and style, but for blank data. -/
theorem chunks_eq (h : Nested es) : chunks 0 es = (outside es).filter fun s => PyText.strip s ≠ "" := by
  have hstart : openAfter [] = some [] := rfl
  exact chunks_from hstart h

/-! ### Words -/

/-- Words are told apart by a blank. -/
theorem words_append (s t : String) : words (s ++ " " ++ t) = words s ++ words t := by
  have hlist : (s ++ " " ++ t).toList = s.toList ++ ' ' :: t.toList := by simp
  rw [words, hlist, List.splitOnP_append_cons _ _ rfl, List.filter_append, List.map_append]
  rfl

theorem words_empty : words "" = [] := by simp [words, List.splitOnP_nil]

theorem words_intercalate (ss : List String) : words (" ".intercalate ss) = ss.flatMap words := by
  induction ss with
  | nil => rw [String.intercalate_nil, words_empty, List.flatMap_nil]
  | cons s ss ih =>
    cases ss with
    | nil => rw [String.intercalate_singleton, List.flatMap_singleton]
    | cons t ss => rw [String.intercalate_cons_cons, words_append, ih, List.flatMap_cons (x := s)]

/-- Blanks alone have no words. -/
theorem splitOnP_blank {cs : List Char} (h : ∀ c ∈ cs, PyText.isSpace c = true) :
    (cs.splitOnP PyText.isSpace).filter (· ≠ []) = [] := by
  induction cs with
  | nil => simp [List.splitOnP_nil]
  | cons c cs ih =>
    obtain ⟨hc, hcs⟩ := List.forall_mem_cons.mp h
    rw [← List.nil_append (c :: cs), List.splitOnP_append_cons _ _ hc, List.filter_append, ih hcs]
    simp [List.splitOnP_nil]

theorem words_of_strip {s : String} (h : PyText.strip s = "") : words s = [] := by
  rw [words, splitOnP_blank (PyText.strip_eq_empty_iff.mp h), List.map_nil]

/-- What is blank may be left out. -/
theorem flatMap_words_filter (ss : List String) :
    (ss.filter fun s => PyText.strip s ≠ "").flatMap words = ss.flatMap words := by
  induction ss with
  | nil => rfl
  | cons s ss ih =>
    rw [List.flatMap_cons, ← ih]
    by_cases h : PyText.strip s = ""
    · rw [List.filter_cons_of_neg (by simpa using h), words_of_strip h, List.nil_append]
    · rw [List.filter_cons_of_pos (by simpa using h), List.flatMap_cons]

/-- The words that are to be delivered. -/
def delivered (es : List HtmlEvent) : List String := (outside es).flatMap words

/-- **The text of a file**: its words with a blank between them, unescaped once more. -/
theorem htmlText_eq (L : Library β V) (h : Nested es) :
    htmlText L es = L.unescape (" ".intercalate (delivered es)) := by
  rw [htmlText, words_intercalate, chunks_eq h, flatMap_words_filter, delivered]

/-! ### When it is exact -/

/-- A text has a reference when one of its words has. -/
theorem refers_intercalate (ws : List String) :
    CharRef.Refers T (" ".intercalate ws).toList ↔ ∃ w ∈ ws, CharRef.Refers T w.toList := by
  induction ws with
  | nil => simp [CharRef.not_refers_nil]
  | cons w ws ih =>
    cases ws with
    | nil => simp
    | cons w' ws =>
      have hlist : (" ".intercalate (w :: w' :: ws)).toList = w.toList ++ ' ' :: (" ".intercalate (w' :: ws)).toList := by
        rw [String.intercalate_cons_cons]
        simp
      rw [hlist, CharRef.refers_append_blank, ih, List.exists_mem_cons_iff _ w]

theorem unescape_intercalate_iff (T : Html5) (L : Library β V) (ws : List String) :
    (L.withHtml5 T).unescape (" ".intercalate ws) = " ".intercalate ws ↔ ∀ w ∈ ws, ¬ CharRef.Refers T w.toList := by
  have hlist : (L.withHtml5 T).unescape (" ".intercalate ws) =
      String.ofList (CharRef.unescape T (" ".intercalate ws).toList) := rfl
  rw [hlist, ← String.toList_inj, String.toList_ofList, CharRef.unescape_eq_self_iff, refers_intercalate]
  push Not
  rfl

/-- **The text is exact** when no word outside the scripts and styles has a character reference, and only then. -/
theorem htmlText_exact_iff (T : Html5) (L : Library β V) (h : Nested es) :
    htmlText (L.withHtml5 T) es = " ".intercalate (delivered es) ↔ ∀ w ∈ delivered es, ¬ CharRef.Refers T w.toList := by
  rw [htmlText_eq _ h]
  exact unescape_intercalate_iff T L _

/-- The names of the three characters of markup. -/
def markupNames : Html5 where
  text
    | ['l', 't'] | ['l', 't', ';'] => some ['<']
    | ['g', 't'] | ['g', 't', ';'] => some ['>']
    | ['a', 'm', 'p'] | ['a', 'm', 'p', ';'] => some ['&']
    | _ => none
  name h := by
    split at h
    · exact ⟨['l', 't'], .inl rfl, by decide⟩
    · exact ⟨['l', 't'], .inr rfl, by decide⟩
    · exact ⟨['g', 't'], .inl rfl, by decide⟩
    · exact ⟨['g', 't'], .inr rfl, by decide⟩
    · exact ⟨['a', 'm', 'p'], .inl rfl, by decide⟩
    · exact ⟨['a', 'm', 'p'], .inr rfl, by decide⟩
    · cases h
  short h := by
    split at h <;> cases h <;> decide

/-- A page with a script. -/
def page : List HtmlEvent :=
  [.endtag "style", .starttag "p", .data " AT&T  and ", .starttag "script", .data "a < b", .endtag "script", .data "co", .endtag "p"]

/-- A page of words without references. -/
theorem htmlText_exact_page :
    Nested page ∧ htmlText (plainLibrary.withHtml5 markupNames) page = " ".intercalate (delivered page) := by
  have hnested : Nested page := by decide
  refine ⟨hnested, (htmlText_exact_iff markupNames plainLibrary hnested).mpr ?_⟩
  have hwords : delivered page = ["AT&T", "and", "co"] := by decide
  rw [hwords]
  intro w hw
  rw [← CharRef.unescape_eq_self_iff]
  revert w
  decide

/-- A page about markup: the parser has replaced the references of its source once. -/
def tutorial : List HtmlEvent := [.starttag "p", .data "use &lt;b&gt; here", .endtag "p"]

/-- The text of the page is not what it says. -/
theorem not_exact_tutorial :
    Nested tutorial ∧ htmlText (plainLibrary.withHtml5 markupNames) tutorial ≠ " ".intercalate (delivered tutorial) := by
  have htext : htmlText (plainLibrary.withHtml5 markupNames) tutorial = "use <b> here" := by decide
  have hwords : delivered tutorial = ["use", "&lt;b&gt;", "here"] := by decide
  refine ⟨by decide, ?_⟩
  rw [htext, hwords]
  decide

end Persona.SortingLine
