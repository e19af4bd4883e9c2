import Persona.Intake.Record
import Persona.JsonLex
import Persona.Lib.Assoc
import Persona.Lib.Regex
import Mathlib.Data.List.DropRight

/-!
# A model's chatter

What a model writes around the JSON it was asked for: a block of reasoning before it, and
prose on both sides. `parse_facts` of `services/api/memory_distiller.py` and `parse_intake`
and `parse_conflict` of `services/api/memory_intake.py` remove the block and look for a
brace first, and for a bracket only when there is no pair of braces.

So an object is found in any prose, and a list only if no pair of braces is in it:
`unchanged_iff` says when the answer is read as the payload alone would be.
-/

namespace Persona.Intake

open Persona.Lib Persona.JsonText

/-! ### Facts -/

section

variable (L : Library)

/-- A literal text under `(?i)`, and what follows it. -/
def literal (pat : List Char) (r : Regex Char) : Regex Char :=
  pat.foldr (fun p r => .seq (.one (Markup.sameLetter p)) r) r

/-- `\b`. -/
def wordBoundary : Regex Char := .look fun before after => before.any L.isWord != after.any L.isWord

/-- `(?i)\bnext actions\b`. -/
def nextActions : Regex Char := .seq (wordBoundary L) (literal "next actions".toList (wordBoundary L))

/-- `re.sub(r"^[-*•]\s+", "", s)`, blanks being single. -/
def dropBullet : List Char → List Char
  | c :: s :: cs => if c ∈ ['-', '*', '•'] ∧ PyText.isSpace s = true then cs else c :: s :: cs
  | cs => cs

/-- `_cleanup_fact`. -/
def cleanupFact (s : String) : String :=
  let s := PyText.strip (String.ofList (dropBullet (collapse false (PyText.strip s).toList)))
  if (nextActions L).search s.toList then ""
  else if 140 < s.toList.length then PyText.rstrip (String.ofList (s.toList.take 140))
  else s

/-- `_extract_json_object`. -/
def extractJsonObject (s : String) : String := ((between '\x7b' '\x7d' s.toList).map String.ofList).getD ""

/-- The value in a text, as `parse_facts` looks for it. -/
def loadsFacts (raw : String) : Except String Json := do
  let obj ← match L.loads raw with
    | some obj => .ok obj
    | none =>
      if extractJsonObject raw = "" then .error "no_json_object"
      else
        match L.loads (extractJsonObject raw) with
        | some obj => .ok obj
        | none => .error "json_parse_failed"
  match obj with
  | .str s =>
    match L.loads s with
    | some obj => .ok obj
    | none => .error "double_encoded_json_parse_failed"
  | obj => .ok obj

/-- The value of the first of the keys that is there. -/
def lookupFirst (kvs : List (String × Json)) (keys : List String) : Option Json := keys.findSome? fun k => kvs.lookup k

/-- The loop over the facts: those that were seen, in lower case, and those to come. -/
def collectFacts (seen : List String) : List Json → List String
  | [] => []
  | .str f :: fs =>
    let cf := cleanupFact L f
    if cf = "" ∨ L.lower cf ∈ seen then collectFacts seen fs else cf :: collectFacts (L.lower cf :: seen) fs
  | _ :: fs => collectFacts seen fs

/-- `parse_facts`. -/
def parseFacts (text : String) : Except String (List String) := do
  let raw := stripThink (PyText.strip text)
  if raw = "" then .error "empty"
  else
    match ← loadsFacts L raw with
    | .obj kvs =>
      match (lookupFirst kvs ["facts", "\"facts\"", "\\\"facts\\\""]).getD (.arr []) with
      | .null => .ok []
      | .arr xs => .ok ((collectFacts L [] xs).take 3)
      | _ => .error "facts_not_list"
    | _ => .error "json_not_object"

/-- The note that `parse_conflict` returns. -/
def conflictNote (text : String) : String :=
  match loadsOutput L (stripThink (PyText.strip text)) with
  | .ok (.obj kvs) =>
    match (Json.get kvs "supersede").or (.arr []) with
    | .arr _ => L.toStr ((Json.get kvs "note").or (.str ""))
    | _ => ""
  | _ => ""

/-- `parse_conflict`, with the note; `none` when it raises. -/
def parseConflictNote (text : String) (n : ℕ) : Option (List ℕ × String) :=
  (parseConflict L text n).map fun is => (is, conflictNote L text)

end

/-! ### Answers -/

/-- Python's library, with its JSON. -/
def Library.withJson (L : Library) (F : Floats) : Library := { L with loads := loads F }

/-- The parsers of a model's answers. -/
inductive Parser where
  | facts
  | intake
  /-- With the number of candidates. -/
  | conflict (n : ℕ)

/-- The parser reads both texts alike. -/
def Parser.Same (L : Library) : Parser → String → String → Prop
  | .facts, s, t => parseFacts L s = parseFacts L t
  | .intake, s, t => parseIntake L s = parseIntake L t
  | .conflict n, s, t => parseConflictNote L s n = parseConflictNote L t n

/-- The parser accepts the text. -/
def Parser.Accepts (L : Library) : Parser → String → Prop
  | .facts, s => ∃ facts, parseFacts L s = .ok facts
  | .intake, s => ∃ records, parseIntake L s = .ok records
  | .conflict n, s => parseConflictNote L s n ≠ none

/-- The payloads of a parser: an object, or for `parse_intake` a list of objects and strings. -/
def Parser.Takes : Parser → Json → Prop
  | _, .obj _ => True
  | .intake, .arr xs => ∀ x ∈ xs, ObjectOrString x
  | _, _ => False

/-- The tag is in the text, in any letter case. -/
def HasTag (tag s : String) : Prop := Markup.indexOf Markup.sameLetter tag.toList s.toList ≠ none

/-- Prose: no braces, brackets and quotes, and no opening tag. -/
structure Prose (s : String) : Prop where
  chars : ∀ c ∈ s.toList, c ∉ ['\x7b', '\x7d', '[', ']', '"']
  tag : ¬ HasTag "<think>" s

/-- A payload with reasoning before it, and prose around it. -/
def answer (r a payload b : String) : String := "<think>" ++ r ++ "</think>" ++ a ++ payload ++ b

/-- Only blanks. -/
def Blank (s : String) : Prop := ∀ c ∈ s.toList, PyText.isSpace c = true

/-- The payload is an object, or there is no prose around it, or it has no pair of braces. -/
def Found (a payload b : String) (v : Json) : Prop :=
  (∃ kvs, v = .obj kvs) ∨ Blank a ∧ Blank b ∨ between '\x7b' '\x7d' payload.toList = none

/-! ### Between the brackets -/

section

variable {o c : Char} {xs ys zs : List Char}

/-- What stands around a text without the brackets is not between them. -/
theorem between_append (hxs : o ∉ xs) (hys : o ∉ ys) (hys' : c ∉ ys) : between o c (xs ++ (zs ++ ys)) = between o c zs := by
  have hskip : ∀ l : List Char, o ∉ l → ∀ d ∈ l, decide (d ≠ o) = true := by
    intro l hl d hd
    rw [decide_eq_true_eq]
    rintro rfl
    exact hl hd
  have hdrop : ∀ l : List Char, ((l ++ ys).reverse.dropWhile (· ≠ c)).reverse = (l.reverse.dropWhile (· ≠ c)).reverse := by
    intro l
    rw [List.reverse_append, List.dropWhile_append_of_pos]
    intro d hd
    rw [decide_eq_true_eq]
    rintro rfl
    exact hys' (List.mem_reverse.mp hd)
  have hnone : ys.dropWhile (· ≠ o) = [] := List.dropWhile_eq_nil_iff.mpr (hskip ys hys)
  have hsame : (((xs ++ (zs ++ ys)).dropWhile (· ≠ o)).reverse.dropWhile (· ≠ c)).reverse =
      ((zs.dropWhile (· ≠ o)).reverse.dropWhile (· ≠ c)).reverse := by
    rw [List.dropWhile_append_of_pos (hskip xs hxs), List.dropWhile_append]
    split_ifs with hempty
    · rw [List.isEmpty_iff.mp hempty, hnone]
    · exact hdrop _
  rw [between, between, hsame]

/-- A text in brackets is between them. -/
theorem between_self : between o c (o :: (zs ++ [c])) = some (o :: (zs ++ [c])) := by
  have hstart : (o :: (zs ++ [c])).dropWhile (· ≠ o) = o :: (zs ++ [c]) := List.dropWhile_cons_of_neg (by simp)
  have hstop : ((o :: (zs ++ [c])).reverse.dropWhile (· ≠ c)).reverse = o :: (zs ++ [c]) := by
    have hrev : (o :: (zs ++ [c])).reverse = c :: (o :: zs).reverse := by simp
    rw [hrev, List.dropWhile_cons_of_neg (by simp)]
    simp
  rw [between, hstart, hstop]
  rfl

/-- What is between the brackets begins at the first of them, and ends in the other. -/
theorem between_eq_some {w : List Char} (h : between o c zs = some w) :
    (∃ tail, zs.dropWhile (· ≠ o) = w ++ tail) ∧ w.head? = some o ∧ w.getLast? = some c := by
  unfold between at h
  dsimp only at h
  generalize hinner : zs.dropWhile (· ≠ o) = inner at h ⊢
  generalize houter : (inner.reverse.dropWhile (· ≠ c)).reverse = outer at h
  split_ifs at h with hempty
  obtain rfl := Option.some.inj h
  have hne : outer ≠ [] := fun hnil => hempty (List.isEmpty_iff.mpr hnil)
  obtain ⟨tail, htail⟩ : outer <+: inner := by
    have hpre := List.reverse_prefix.mpr (List.dropWhile_suffix (· ≠ c) (l := inner.reverse))
    rwa [List.reverse_reverse, houter] at hpre
  refine ⟨⟨tail, htail.symm⟩, ?_, ?_⟩
  · have hhead := List.head?_dropWhile_not (· ≠ o) zs
    rw [hinner, ← htail, List.head?_append_of_ne_nil _ hne] at hhead
    obtain ⟨d, ds, hd⟩ := List.exists_cons_of_ne_nil hne
    rw [hd] at hhead ⊢
    simpa using hhead
  · have hlast := List.head?_dropWhile_not (· ≠ c) inner.reverse
    have hrev : inner.reverse.dropWhile (· ≠ c) = outer.reverse := by
      rw [← houter, List.reverse_reverse]
    rw [hrev, List.head?_reverse] at hlast
    cases hd : outer.getLast? with
    | none => exact absurd (List.getLast?_eq_none_iff.mp hd) hne
    | some d =>
      rw [hd] at hlast
      simpa using hlast

end

/-! ### What is left of an answer -/

/-- A text without blanks at its ends. -/
structure Solid (cs : List Char) : Prop where
  ne_nil : cs ≠ []
  first : ∀ c ∈ cs.head?, PyText.isSpace c = false
  last : ∀ c ∈ cs.getLast?, PyText.isSpace c = false

section

variable {core xs ys : List Char}

theorem Solid.strip (h : Solid core) (xs ys : List Char) :
    PyText.rstripL (PyText.lstripL (xs ++ (core ++ ys))) = PyText.lstripL xs ++ (core ++ PyText.rstripL ys) :=
  PyText.strip_around h.ne_nil h.first h.last

/-- A text is stripped once. -/
theorem Solid.strip_strip (h : Solid core) (xs ys : List Char) :
    PyText.strip (String.ofList (PyText.lstripL xs ++ (core ++ PyText.rstripL ys))) =
      String.ofList (PyText.lstripL xs ++ (core ++ PyText.rstripL ys)) := by
  have hl : PyText.lstripL (PyText.lstripL xs) = PyText.lstripL xs := List.dropWhile_idempotent _ _
  have hr : PyText.rstripL (PyText.rstripL ys) = PyText.rstripL ys := by
    rw [PyText.rstripL, PyText.rstripL, List.reverse_reverse, List.dropWhile_idempotent]
  rw [PyText.strip_ofList, h.strip, hl, hr]

variable (htag : Markup.indexOf Markup.sameLetter "<think>".toList (xs ++ (core ++ ys)) = none)

include htag in
/-- Nothing of a text without a tag is taken for reasoning. -/
theorem noTag_strip : Markup.indexOf Markup.sameLetter "<think>".toList (PyText.lstripL xs ++ (core ++ PyText.rstripL ys)) =
    none := by
  obtain ⟨pre, hpre⟩ : PyText.lstripL xs <:+ xs := List.dropWhile_suffix _
  obtain ⟨post, hpost⟩ := PyText.rstripL_prefix ys
  have hparts : xs ++ (core ++ ys) = pre ++ ((PyText.lstripL xs ++ (core ++ PyText.rstripL ys)) ++ post) := by
    conv_lhs => rw [← hpre, ← hpost]
    simp
  rw [hparts] at htag
  exact (Markup.indexOf_none_of_append (Markup.indexOf_none_of_append htag).2).1

theorem stripThink_ofList {cs kept cs' : List Char}
    (hkept : Markup.withoutBlocks Markup.sameLetter "<think>" "</think>" cs = kept)
    (hstrip : PyText.strip (String.ofList kept) = String.ofList cs')
    (htag : Markup.indexOf Markup.sameLetter "<think>".toList cs' = none)
    (hsame : PyText.strip (String.ofList cs') = String.ofList cs') : stripThink (String.ofList cs) = String.ofList cs' := by
  unfold stripThink
  dsimp only
  rw [String.toList_ofList, hkept, hstrip, String.toList_ofList, Markup.upTo_of_none htag, hsame]

include htag

theorem stripThink_plain (h : Solid core) : stripThink (PyText.strip (String.ofList (xs ++ (core ++ ys)))) =
    String.ofList (PyText.lstripL xs ++ (core ++ PyText.rstripL ys)) := by
  have hnone := noTag_strip htag
  rw [PyText.strip_ofList, h.strip]
  exact stripThink_ofList (Markup.withoutBlocks_of_none _ hnone) (h.strip_strip xs ys) hnone (h.strip_strip xs ys)

/-- Reasoning is removed, whatever braces are in it. -/
theorem stripThink_block (h : Solid core) {r : List Char} (hr : Markup.indexOf Markup.sameLetter "</think>".toList r = none) :
    stripThink (PyText.strip (String.ofList ("<think>".toList ++ (r ++ ("</think>".toList ++ (xs ++ (core ++ ys))))))) =
      String.ofList (PyText.lstripL xs ++ (core ++ PyText.rstripL ys)) := by
  have hblock : Solid ("<think>".toList ++ (r ++ "</think>".toList)) := by
    refine ⟨by simp, ?_, ?_⟩
    · intro c hc
      obtain rfl : '<' = c := by simpa using hc
      decide
    · intro c hc
      have hlast : "</think>".toList.getLast? = some '>' := rfl
      rw [← List.append_assoc, List.getLast?_append_of_ne_nil _ (by decide), hlast] at hc
      obtain rfl : '>' = c := by simpa using hc
      decide
  have hends : PyText.rstripL (xs ++ (core ++ ys)) = xs ++ (core ++ PyText.rstripL ys) := by
    have hlast : ∀ c ∈ (xs ++ core).getLast?, PyText.isSpace c = false := by
      rw [List.getLast?_append_of_ne_nil _ h.ne_nil]
      exact h.last
    rw [← List.append_assoc, PyText.rstripL_append hlast (by simp [h.ne_nil]), List.append_assoc]
  have hinner : Markup.indexOf Markup.sameLetter "<think>".toList (xs ++ (core ++ PyText.rstripL ys)) = none := by
    obtain ⟨post, hpost⟩ := PyText.rstripL_prefix ys
    have hparts : xs ++ (core ++ ys) = xs ++ (core ++ PyText.rstripL ys) ++ post := by
      conv_lhs => rw [← hpost]
      simp
    rw [hparts] at htag
    exact (Markup.indexOf_none_of_append htag).1
  have hstrip : PyText.strip (String.ofList ("<think>".toList ++ (r ++ ("</think>".toList ++ (xs ++ (core ++ ys)))))) =
      String.ofList ("<think>".toList ++ (r ++ ("</think>".toList ++ (xs ++ (core ++ PyText.rstripL ys))))) := by
    have hwhole := hblock.strip [] (xs ++ (core ++ ys))
    have hnil : PyText.lstripL [] = [] := rfl
    rw [hends, hnil, List.nil_append, List.nil_append, List.append_assoc, List.append_assoc, List.append_assoc,
      List.append_assoc] at hwhole
    rw [PyText.strip_ofList, hwhole]
  have hopening : "<think>".toList = '<' :: "think>".toList := rfl
  have hclosing : "</think>".toList = '<' :: "/think>".toList := rfl
  have hremoved : Markup.withoutBlocks Markup.sameLetter "<think>" "</think>"
      ("<think>".toList ++ (r ++ ("</think>".toList ++ (xs ++ (core ++ PyText.rstripL ys))))) =
        xs ++ (core ++ PyText.rstripL ys) := by
    rw [hclosing] at hr ⊢
    rw [hopening, Markup.withoutBlocks_block hopening hclosing (by decide) (by decide) (by decide) hr,
      Markup.withoutBlocks_of_none _ hinner]
  have hstripped : PyText.strip (String.ofList (xs ++ (core ++ PyText.rstripL ys))) =
      String.ofList (PyText.lstripL xs ++ (core ++ PyText.rstripL ys)) := by
    have hr : PyText.rstripL (PyText.rstripL ys) = PyText.rstripL ys := by
      rw [PyText.rstripL, PyText.rstripL, List.reverse_reverse, List.dropWhile_idempotent]
    rw [PyText.strip_ofList, h.strip, hr]
  rw [hstrip]
  exact stripThink_ofList hremoved hstripped (noTag_strip htag) (h.strip_strip xs ys)

end

/-! ### What is read -/

section

variable {F : Floats} {v : Json} {core xs ys : List Char}

/-- The text of an object or a list. -/
def Bracketed (core : List Char) : Prop :=
  ∃ o d c, core = o :: (d ++ [c]) ∧ (o = '\x7b' ∧ c = '\x7d' ∨ o = '[' ∧ c = ']')

theorem Bracketed.solid (h : Bracketed core) : Solid core := by
  obtain ⟨o, d, c, rfl, hoc⟩ := h
  refine ⟨by simp, fun x hx => ?_, fun x hx => ?_⟩
  · obtain rfl : o = x := by simpa using hx
    rcases hoc with ⟨rfl, rfl⟩ | ⟨rfl, rfl⟩ <;> decide
  · rw [← List.cons_append, List.getLast?_concat] at hx
    obtain rfl : c = x := by simpa using hx
    rcases hoc with ⟨rfl, rfl⟩ | ⟨rfl, rfl⟩ <;> decide

/-- The value of a payload is an object or a list. -/
def Container : Json → Prop
  | .obj _ => True
  | .arr _ => True
  | _ => False

theorem Container.bracketed (hv : Container v) (h : IsText F v core) : Bracketed core := by
  cases v with
  | obj kvs =>
    obtain ⟨d, rfl⟩ := h.shape
    exact ⟨_, d, _, rfl, .inl ⟨rfl, rfl⟩⟩
  | arr zs =>
    obtain ⟨d, rfl⟩ := h.shape
    exact ⟨_, d, _, rfl, .inr ⟨rfl, rfl⟩⟩
  | _ => exact hv.elim

/-- With prose on a side, the text of an object or a list is not read. -/
theorem loads_prose (hv : Container v) (h : IsText F v core) (hxs : ∀ c ∈ xs, c ∉ ['\x7b', '\x7d', '[', ']', '"'])
    (hfirst : ∀ c ∈ xs.head?, PyText.isSpace c = false) (hlast : ∀ c ∈ ys.getLast?, PyText.isSpace c = false)
    (hne : xs ≠ [] ∨ ys ≠ []) : loads F (String.ofList (xs ++ (core ++ ys))) = none := by
  obtain ⟨o, d, c, rfl, hoc⟩ := hv.bracketed h
  refine loads_beside h (hoc.imp And.left And.left) (fun x hx => ?_) hfirst hlast hne
  have hnone := hxs x (List.mem_of_mem_head? hx)
  exact ⟨by rintro (rfl | rfl) <;> simp at hnone, by rintro rfl; simp at hnone⟩

end

section

variable {L : Library} {v : Json} {raw : String}

theorem loadsOutput_of_loads (h : L.loads raw = some v) (hv : Container v) : loadsOutput L raw = .ok v := by
  rw [loadsOutput, h]
  cases v <;> first | rfl | exact hv.elim

theorem loadsOutput_of_extract (h : L.loads raw = none) (hne : extractJson raw ≠ "")
    (hextract : L.loads (extractJson raw) = some v) (hv : Container v) : loadsOutput L raw = .ok v := by
  rw [loadsOutput, h]
  dsimp only
  rw [if_neg hne, hextract]
  cases v <;> first | rfl | exact hv.elim

theorem loadsOutput_of_failed (h : L.loads raw = none) (hne : extractJson raw ≠ "")
    (hextract : L.loads (extractJson raw) = none) : loadsOutput L raw = .error "json_parse_failed" := by
  rw [loadsOutput, h]
  dsimp only
  rw [if_neg hne, hextract]
  rfl

theorem loadsFacts_of_loads (h : L.loads raw = some v) (hv : Container v) : loadsFacts L raw = .ok v := by
  rw [loadsFacts, h]
  cases v <;> first | rfl | exact hv.elim

theorem loadsFacts_of_extract (h : L.loads raw = none) (hne : extractJsonObject raw ≠ "")
    (hextract : L.loads (extractJsonObject raw) = some v) (hv : Container v) : loadsFacts L raw = .ok v := by
  rw [loadsFacts, h]
  dsimp only
  rw [if_neg hne, hextract]
  cases v <;> first | rfl | exact hv.elim

/-- A parser reads two texts alike if it finds the same value in them. -/
theorem Parser.same_of_loads {s t raw' : String} (p : Parser) (hs : stripThink (PyText.strip s) = raw)
    (ht : stripThink (PyText.strip t) = raw') (hraw : raw ≠ "") (hraw' : raw' ≠ "")
    (houtput : loadsOutput L raw = loadsOutput L raw') (hfacts : p = .facts → loadsFacts L raw = loadsFacts L raw') :
    p.Same L s t := by
  cases p with
  | facts => simp only [Parser.Same, parseFacts, hs, ht, if_neg hraw, if_neg hraw', hfacts rfl]
  | intake => simp only [Parser.Same, parseIntake, hs, ht, if_neg hraw, if_neg hraw', houtput]
  | conflict n =>
    simp only [Parser.Same, parseConflictNote, parseConflict, conflictNote, hs, ht, if_neg hraw, if_neg hraw', houtput]

end

/-! ### Answers as they are read -/

section

variable {L : Library} {F : Floats} {v : Json} {r a payload b : String}

/-- What is read of an answer and of its payload: the payload's text, with prose around it. -/
structure Reduced (F : Floats) (v : Json) (r a payload b : String) (xs core ys : List Char) : Prop where
  text : IsText F v core
  answer_eq : stripThink (PyText.strip (answer r a payload b)) = String.ofList (xs ++ (core ++ ys))
  payload_eq : stripThink (PyText.strip payload) = String.ofList core
  before : ∀ c ∈ xs, c ∉ ['\x7b', '\x7d', '[', ']', '"']
  after : ∀ c ∈ ys, c ∉ ['\x7b', '\x7d', '[', ']', '"']
  first : ∀ c ∈ xs.head?, PyText.isSpace c = false
  last : ∀ c ∈ ys.getLast?, PyText.isSpace c = false
  blank : xs = [] ∧ ys = [] ↔ Blank a ∧ Blank b
  braces : between '\x7b' '\x7d' payload.toList = between '\x7b' '\x7d' core

theorem Bracketed.foreign {core : List Char} (h : Bracketed core) :
    (∀ c ∈ core.head?, ∀ p ∈ "<think>".toList, Markup.sameLetter p c = false) ∧
      ∀ c ∈ core.getLast?, ∀ p ∈ "<think>".toList, Markup.sameLetter p c = false := by
  obtain ⟨o, d, c, rfl, hoc⟩ := h
  refine ⟨fun x hx => ?_, fun x hx => ?_⟩
  · obtain rfl : o = x := by simpa using hx
    rcases hoc with ⟨rfl, rfl⟩ | ⟨rfl, rfl⟩ <;> decide
  · rw [← List.cons_append, List.getLast?_concat] at hx
    obtain rfl : c = x := by simpa using hx
    rcases hoc with ⟨rfl, rfl⟩ | ⟨rfl, rfl⟩ <;> decide

theorem foreign_of_isBlank {c : Char} (h : isBlank c = true) : ∀ p ∈ "<think>".toList, Markup.sameLetter p c = false := by
  simp only [isBlank, Bool.or_eq_true, decide_eq_true_eq] at h
  rcases h with ((rfl | rfl) | rfl) | rfl <;> decide

/-- No character of the payload's ends goes into a tag. -/
theorem foreign_ends {ws core ws' : List Char} (hcore : Bracketed core) (hws : ∀ c ∈ ws, isBlank c = true)
    (hws' : ∀ c ∈ ws', isBlank c = true) :
    (∀ c ∈ (ws ++ (core ++ ws')).head?, ∀ p ∈ "<think>".toList, Markup.sameLetter p c = false) ∧
      ∀ c ∈ (ws ++ (core ++ ws')).getLast?, ∀ p ∈ "<think>".toList, Markup.sameLetter p c = false := by
  constructor
  · intro c hc
    cases ws with
    | nil =>
      rw [List.nil_append, List.head?_append_of_ne_nil _ hcore.solid.ne_nil] at hc
      exact hcore.foreign.1 c hc
    | cons d ws =>
      obtain rfl : d = c := by simpa using hc
      exact foreign_of_isBlank (hws d List.mem_cons_self)
  · intro c hc
    rw [← List.append_assoc] at hc
    obtain rfl | ⟨zs, d, rfl⟩ := List.eq_nil_or_concat ws'
    · rw [List.append_nil, List.getLast?_append_of_ne_nil _ hcore.solid.ne_nil] at hc
      exact hcore.foreign.2 c hc
    · rw [List.concat_eq_append, ← List.append_assoc, List.getLast?_concat] at hc
      obtain rfl : d = c := by simpa using hc
      exact foreign_of_isBlank (hws' d (by simp))

theorem reduced (hr : ¬ HasTag "</think>" r) (ha : Prose a) (hb : Prose b) (hP : ¬ HasTag "<think>" payload)
    (h : loads F payload = some v) (hv : Container v) : ∃ xs core ys, Reduced F v r a payload b xs core ys := by
  obtain ⟨ws, core, ws', hparts, hws, hws', htext⟩ := parts_of_loads h
  have hcore := hv.bracketed htext
  rw [HasTag, not_not] at hr hP
  have htagA := not_not.mp ha.tag
  have htagB := not_not.mp hb.tag
  rw [hparts] at hP
  have hforeign := foreign_ends hcore hws hws'
  have htag : Markup.indexOf Markup.sameLetter "<think>".toList ((a.toList ++ ws) ++ (core ++ (ws' ++ b.toList))) = none := by
    have hright := Markup.indexOf_append_of_last hforeign.2 hP htagB
    have hhead : ∀ c ∈ (ws ++ (core ++ ws') ++ b.toList).head?, ∀ p ∈ "<think>".toList, Markup.sameLetter p c = false := by
      rw [List.head?_append_of_ne_nil _ (by simp [hcore.solid.ne_nil])]
      exact hforeign.1
    have hall := Markup.indexOf_append_of_head hhead htagA hright
    simpa only [List.append_assoc] using hall
  have hsplit : answer r a payload b = String.ofList ("<think>".toList ++ (r.toList ++ ("</think>".toList ++
      ((a.toList ++ ws) ++ (core ++ (ws' ++ b.toList)))))) := by
    rw [← String.ofList_toList (s := answer r a payload b)]
    simp only [answer, String.toList_append, hparts, List.append_assoc]
  have hpayload : payload = String.ofList (ws ++ (core ++ ws')) := by
    rw [← hparts, String.ofList_toList]
  have hspace : ∀ c ∈ ws, PyText.isSpace c = true := fun c hc => isSpace_of_isBlank (hws c hc)
  have hspace' : ∀ c ∈ ws', PyText.isSpace c = true := fun c hc => isSpace_of_isBlank (hws' c hc)
  have hblank : ∀ c : Char, isBlank c = true → c ∉ ['\x7b', '\x7d', '[', ']', '"'] := by
    intro c hc hmem
    simp only [List.mem_cons, List.not_mem_nil, or_false] at hmem
    rcases hmem with rfl | rfl | rfl | rfl | rfl <;> exact absurd hc (by decide)
  refine ⟨PyText.lstripL (a.toList ++ ws), core, PyText.rstripL (ws' ++ b.toList), htext, ?_, ?_, ?_, ?_, ?_, ?_, ?_, ?_⟩
  · rw [hsplit]
    exact stripThink_block htag hcore.solid hr
  · rw [hpayload, stripThink_plain hP hcore.solid, PyText.lstripL_eq_nil_iff.mpr hspace,
      PyText.rstripL_eq_nil_iff.mpr hspace',
      List.nil_append, List.append_nil]
  · intro c hc
    rcases List.mem_append.mp ((List.dropWhile_suffix _).subset hc) with hc | hc
    · exact ha.chars c hc
    · exact hblank c (hws c hc)
  · intro c hc
    rcases List.mem_append.mp ((PyText.rstripL_prefix _).subset hc) with hc | hc
    · exact hblank c (hws' c hc)
    · exact hb.chars c hc
  · exact PyText.head?_lstripL
  · exact PyText.getLast?_rstripL
  · rw [PyText.lstripL_eq_nil_iff, PyText.rstripL_eq_nil_iff, Blank, Blank, List.forall_mem_append, List.forall_mem_append]
    simp only [iff_true_intro hspace, iff_true_intro hspace', and_true, true_and]
  · have hnone : ∀ cs : List Char, (∀ c ∈ cs, isBlank c = true) → '\x7b' ∉ cs ∧ '\x7d' ∉ cs := fun cs hcs =>
      ⟨fun hmem => absurd (hcs _ hmem) (by decide), fun hmem => absurd (hcs _ hmem) (by decide)⟩
    rw [hparts]
    exact between_append (hnone ws hws).1 (hnone ws' hws').1 (hnone ws' hws').2

variable {xs core ys : List Char}

theorem ofList_ne_empty {cs : List Char} (h : cs ≠ []) : String.ofList cs ≠ "" := by
  intro hempty
  have hcs := congrArg String.toList hempty
  rw [String.toList_ofList] at hcs
  exact h hcs

theorem Reduced.ne_empty (hv : Container v) (h : Reduced F v r a payload b xs core ys) :
    String.ofList core ≠ "" ∧ String.ofList (xs ++ (core ++ ys)) ≠ "" :=
  have hne := (hv.bracketed h.text).solid.ne_nil
  ⟨ofList_ne_empty hne, ofList_ne_empty (by simp [hne])⟩

/-- Prose adds nothing between the brackets. -/
theorem Reduced.between_eq (h : Reduced F v r a payload b xs core ys) {o c : Char}
    (hoc : o = '\x7b' ∧ c = '\x7d' ∨ o = '[' ∧ c = ']') : between o c (xs ++ (core ++ ys)) = between o c core := by
  have hnone : ∀ cs : List Char, (∀ d ∈ cs, d ∉ ['\x7b', '\x7d', '[', ']', '"']) → o ∉ cs ∧ c ∉ cs := by
    intro cs hcs
    rcases hoc with ⟨rfl, rfl⟩ | ⟨rfl, rfl⟩ <;>
      exact ⟨fun hmem => hcs _ hmem (by simp), fun hmem => hcs _ hmem (by simp)⟩
  exact between_append (hnone xs h.before).1 (hnone ys h.after).1 (hnone ys h.after).2

/-- A payload that is found in its answer is read as it is alone. -/
theorem Reduced.same (h : Reduced F v r a payload b xs core ys) (hv : Container v) (p : Parser)
    (hjson : extractJson (String.ofList (xs ++ (core ++ ys))) = String.ofList core)
    (hobject : p = .facts → extractJsonObject (String.ofList (xs ++ (core ++ ys))) = String.ofList core) :
    p.Same (L.withJson F) (answer r a payload b) payload := by
  have hne := h.ne_empty hv
  have hcore : (L.withJson F).loads (String.ofList core) = some v := loads_of_isText h.text
  by_cases hprose : xs ≠ [] ∨ ys ≠ []
  · have hnone : (L.withJson F).loads (String.ofList (xs ++ (core ++ ys))) = none :=
      loads_prose hv h.text h.before h.first h.last hprose
    refine p.same_of_loads h.answer_eq h.payload_eq hne.2 hne.1 ?_ fun hp => ?_
    · rw [loadsOutput_of_extract hnone (by rw [hjson]; exact hne.1) (by rw [hjson]; exact hcore) hv,
        loadsOutput_of_loads hcore hv]
    · rw [loadsFacts_of_extract hnone (by rw [hobject hp]; exact hne.1) (by rw [hobject hp]; exact hcore) hv,
        loadsFacts_of_loads hcore hv]
  · simp only [not_or, not_not] at hprose
    have hanswer := h.answer_eq
    rw [hprose.1, hprose.2, List.nil_append, List.append_nil] at hanswer
    exact p.same_of_loads hanswer h.payload_eq hne.1 hne.1 rfl fun _ => rfl

theorem Reduced.same_obj {kvs : List (String × Json)} (h : Reduced F (.obj kvs) r a payload b xs core ys) (p : Parser) :
    p.Same (L.withJson F) (answer r a payload b) payload := by
  obtain ⟨d, hd⟩ := h.text.shape
  have hbetween : between '\x7b' '\x7d' (xs ++ (core ++ ys)) = some core := by
    rw [h.between_eq (.inl ⟨rfl, rfl⟩), hd]
    exact between_self
  have hv : Container (.obj kvs) := trivial
  refine h.same hv p ?_ fun _ => ?_
  · rw [extractJson, String.toList_ofList, hbetween]
  · rw [extractJsonObject, String.toList_ofList, hbetween]
    rfl

theorem Reduced.same_arr {zs : List Json} (h : Reduced F (.arr zs) r a payload b xs core ys)
    (hbraces : between '\x7b' '\x7d' payload.toList = none) :
    Parser.Same (L.withJson F) .intake (answer r a payload b) payload := by
  obtain ⟨d, hd⟩ := h.text.shape
  have hnone : between '\x7b' '\x7d' (xs ++ (core ++ ys)) = none := by
    rw [h.between_eq (.inl ⟨rfl, rfl⟩), ← h.braces, hbraces]
  have hbetween : between '[' ']' (xs ++ (core ++ ys)) = some core := by
    rw [h.between_eq (.inr ⟨rfl, rfl⟩), hd]
    exact between_self
  have hv : Container (.arr zs) := trivial
  refine h.same hv .intake ?_ fun hp => ?_
  · rw [extractJson, String.toList_ofList, hnone, hbetween]
  · cases hp

/-- What begins with a brace and ends in one is read as an object, and nothing is left. -/
theorem loads_braces {w : List Char} (hfirst : w.head? = some '\x7b') (hlast : w.getLast? = some '\x7d')
    (h : loads F (String.ofList w) = some v) : ∃ kvs n, v = .obj kvs ∧ value F n w = some (.obj kvs, []) := by
  have htext : IsText F v w := by
    refine isText_of_loads h ?_ ?_
    · rw [hfirst]
      rintro c ⟨⟩
      rfl
    · rw [hlast]
      rintro c ⟨⟩
      rfl
  have hread := htext.read (w.length + 1) [] (by omega) (separated_of_endsNumber endsNumber_nil)
  rw [List.append_nil] at hread
  have hshape := htext.shape
  cases v
  case obj kvs => exact ⟨kvs, _, rfl, hread⟩
  case arr =>
    obtain ⟨d, rfl⟩ := hshape
    cases hfirst
  case str =>
    obtain ⟨b, rfl, -⟩ := hshape
    cases hfirst
  all_goals
    have hbrace := hshape '\x7b' (List.mem_of_mem_head? hfirst)
    cases hbrace

/-- The items of an object, as `parse_intake` looks for them. -/
def itemsOf (kvs : List (String × Json)) : Json :=
  if (Json.get kvs "memories").isNull then (kvs.lookup "facts").getD (.arr []) else Json.get kvs "memories"

theorem parseIntake_arr {text raw : String} {zs : List Json} (htext : stripThink (PyText.strip text) = raw) (hne : raw ≠ "")
    (h : loadsOutput L raw = .ok (.arr zs)) : parseIntake L text = .ok (rawRecords zs) := by
  simp only [parseIntake, htext, if_neg hne, h]
  rfl

theorem parseIntake_obj {text raw : String} {kvs : List (String × Json)} (htext : stripThink (PyText.strip text) = raw)
    (hne : raw ≠ "") (h : loadsOutput L raw = .ok (.obj kvs)) {records : List Json}
    (hrecords : parseIntake L text = .ok records) : ∃ zs, itemsOf kvs = .arr zs ∧ records = rawRecords zs := by
  simp only [parseIntake, htext, if_neg hne, h] at hrecords
  change (match itemsOf kvs with
    | .arr zs => .ok (rawRecords zs)
    | _ => .error "memories_not_list") = Except.ok records at hrecords
  split at hrecords
  · rename_i zs hitems
    exact ⟨zs, hitems, (Except.ok.inj hrecords).symm⟩
  · cases hrecords

theorem parseIntake_error {text raw e : String} (htext : stripThink (PyText.strip text) = raw) (hne : raw ≠ "")
    (h : loadsOutput L raw = .error e) : parseIntake L text = .error e := by
  simp only [parseIntake, htext, if_neg hne, h]
  rfl

theorem lookup_eq_none_of_outside {kvs : List (String × Json)} (h : KeysOutside kvs) {k : String} {c : Char}
    (hc : c ∈ k.toList) (hout : outside c = false) : kvs.lookup k = none := by
  rw [List.lookup_eq_none_iff]
  intro kv hkv
  by_contra heq
  have hk : k = kv.1 := by simpa using heq
  rw [h kv hkv c (hk ▸ hc)] at hout
  cases hout

theorem itemsOf_of_outside {kvs : List (String × Json)} (h : KeysOutside kvs) : itemsOf kvs = .arr [] := by
  have hmemories : kvs.lookup "memories" = none := lookup_eq_none_of_outside (c := 'm') h (by decide) (by decide)
  have hfacts : kvs.lookup "facts" = none := lookup_eq_none_of_outside (c := 'c') h (by decide) (by decide)
  rw [itemsOf, Json.get, hmemories, hfacts]
  rfl

/-- The items of an object are smaller than it. -/
theorem sizeOf_itemsOf {kvs : List (String × Json)} {zs : List Json} (h : itemsOf kvs = .arr zs) {z : Json} (hz : z ∈ zs) :
    sizeOf z < sizeOf (Json.obj kvs) := by
  have hmem : ∃ k, (k, Json.arr zs) ∈ kvs := by
    rw [itemsOf] at h
    split_ifs at h
    · cases hfacts : kvs.lookup "facts" with
      | none =>
        rw [hfacts] at h
        obtain rfl : [] = zs := Json.arr.inj h
        cases hz
      | some x =>
        rw [hfacts] at h
        obtain rfl : x = .arr zs := h
        exact ⟨_, Assoc.mem_of_lookup hfacts⟩
    · cases hmemories : kvs.lookup "memories" with
      | none =>
        rw [Json.get, hmemories] at h
        cases h
      | some x =>
        rw [Json.get, hmemories] at h
        obtain rfl : x = .arr zs := h
        exact ⟨_, Assoc.mem_of_lookup hmemories⟩
  obtain ⟨k, hk⟩ := hmem
  have hitem := List.sizeOf_lt_of_mem hz
  have hpair := List.sizeOf_lt_of_mem hk
  simp only [Prod.mk.sizeOf_spec, Json.arr.sizeOf_spec] at hpair
  rw [Json.obj.sizeOf_spec]
  omega

/-- The items of an object in a list are not those of the list. -/
theorem rawRecords_ne {kvs : List (String × Json)} {xs zs : List Json} (hmem : .obj kvs ∈ zs) (h : itemsOf kvs = .arr xs) :
    rawRecords xs ≠ rawRecords zs := by
  intro hsame
  have hrecord : .obj kvs ∈ rawRecords zs := List.mem_filterMap.mpr ⟨_, hmem, rfl⟩
  rw [← hsame] at hrecord
  obtain ⟨x, hx, heq⟩ := List.mem_filterMap.mp hrecord
  cases x with
  | str s =>
    obtain rfl : [("statement", Json.str s)] = kvs := Json.obj.inj (Option.some.inj heq)
    have hnil : itemsOf [("statement", Json.str s)] = .arr [] := rfl
    rw [hnil] at h
    obtain rfl : [] = xs := Json.arr.inj h
    cases hx
  | obj kvs' =>
    obtain rfl : kvs' = kvs := Json.obj.inj (Option.some.inj heq)
    exact absurd (sizeOf_itemsOf h hx) (lt_irrefl _)
  | _ => cases heq

/-- A list with a pair of braces in it is lost in prose. -/
theorem Reduced.not_same {zs : List Json} (h : Reduced F (.arr zs) r a payload b xs core ys) (hzs : ∀ z ∈ zs, ObjectOrString z)
    (hprose : xs ≠ [] ∨ ys ≠ []) {w : List Char} (hbraces : between '\x7b' '\x7d' payload.toList = some w) :
    ¬ Parser.Same (L.withJson F) .intake (answer r a payload b) payload := by
  intro hsame
  have hv : Container (.arr zs) := trivial
  have hne := h.ne_empty hv
  have hcore : (L.withJson F).loads (String.ofList core) = some (.arr zs) := loads_of_isText h.text
  have halone := parseIntake_arr h.payload_eq hne.1 (loadsOutput_of_loads hcore hv)
  rw [Parser.Same, halone] at hsame
  rw [h.braces] at hbraces
  obtain ⟨⟨tail, htail⟩, hfirst, hlast⟩ := between_eq_some hbraces
  have hw : String.ofList w ≠ "" := ofList_ne_empty (by
    rintro rfl
    cases hfirst)
  have hextract : extractJson (String.ofList (xs ++ (core ++ ys))) = String.ofList w := by
    rw [extractJson, String.toList_ofList, h.between_eq (.inl ⟨rfl, rfl⟩), hbraces]
  have hnone : (L.withJson F).loads (String.ofList (xs ++ (core ++ ys))) = none :=
    loads_prose hv h.text h.before h.first h.last hprose
  cases hread : (L.withJson F).loads (String.ofList w) with
  | none =>
    have hfailed := loadsOutput_of_failed hnone (by rwa [hextract]) (by rw [hextract]; exact hread)
    rw [parseIntake_error h.answer_eq hne.2 hfailed] at hsame
    cases hsame
  | some u =>
    obtain ⟨kvs, m, rfl, hvalue⟩ := loads_braces hfirst hlast hread
    have hobj : Container (.obj kvs) := trivial
    have houtput := loadsOutput_of_extract hnone (by rwa [hextract]) (by rw [hextract]; exact hread) hobj
    obtain ⟨items, hitems, hrecords⟩ := parseIntake_obj h.answer_eq hne.2 houtput hsame
    have hlist := h.text.read (core.length + 1) [] (by omega) trivial
    rw [List.append_nil] at hlist
    obtain ⟨hsome, hmem | hkeys⟩ := object_within hlist hzs htail hvalue
    · exact rawRecords_ne hmem hitems hrecords.symm
    · -- an object that is read from within a literal has no items, and the list has some
      rw [itemsOf_of_outside hkeys] at hitems
      obtain rfl : [] = items := Json.arr.inj hitems
      obtain ⟨z, zs', rfl⟩ := List.exists_cons_of_ne_nil hsome
      have hz := hzs z List.mem_cons_self
      cases z with
      | obj kvs' => cases hrecords
      | str s => cases hrecords
      | _ => exact hz.elim

end

/-- **Chatter around a payload** changes nothing in what is read of it, exactly if the payload is
an object, or there is no prose, or no brace of the payload is closed by a later one. -/
theorem unchanged_iff (L : Library) (F : Floats) (p : Parser) {r a payload b : String} {v : Json} (hr : ¬ HasTag "</think>" r)
    (ha : Prose a) (hb : Prose b) (hpayload : ¬ HasTag "<think>" payload) (hload : loads F payload = some v)
    (hv : p.Takes v) : p.Same (L.withJson F) (answer r a payload b) payload ↔ Found a payload b v := by
  cases v with
  | obj kvs =>
    have hobj : Container (.obj kvs) := trivial
    obtain ⟨xs, core, ys, h⟩ := reduced hr ha hb hpayload hload hobj
    exact iff_of_true (h.same_obj p) (.inl ⟨kvs, rfl⟩)
  | arr zs =>
    have harr : Container (.arr zs) := trivial
    obtain ⟨xs, core, ys, h⟩ := reduced hr ha hb hpayload hload harr
    cases p with
    | intake =>
      constructor
      · intro hsame
        by_contra hfound
        simp only [Found, reduceCtorEq, exists_false, false_or, not_or, ← h.blank] at hfound
        obtain ⟨w, hbraces⟩ := Option.ne_none_iff_exists'.mp hfound.2
        have hprose : xs ≠ [] ∨ ys ≠ [] := by
          rw [ne_eq, ne_eq, ← not_and_or]
          exact hfound.1
        exact h.not_same hv hprose hbraces hsame
      · rintro (⟨kvs, hkvs⟩ | hblank | hbraces)
        · cases hkvs
        · obtain ⟨hxs, hys⟩ := h.blank.mpr hblank
          have hne := h.ne_empty harr
          have hanswer := h.answer_eq
          rw [hxs, hys, List.nil_append, List.append_nil] at hanswer
          exact Parser.same_of_loads .intake hanswer h.payload_eq hne.1 hne.1 rfl fun _ => rfl
        · exact h.same_arr hbraces
    | facts => exact hv.elim
    | conflict n => exact hv.elim
  | null => cases p <;> exact hv.elim
  | bool b => cases p <;> exact hv.elim
  | int n => cases p <;> exact hv.elim
  | float x => cases p <;> exact hv.elim
  | str s => cases p <;> exact hv.elim

/-- A library that knows ASCII. -/
def asciiLibrary : Library :=
  { toPython := Python.ofTable [], toUnicode := PyText.Unicode.ascii, floatText := fun _ => none, nonfinite := onlyNan }

/-- A list of one object. -/
def oneRecord : String := "[\x7b\"statement\": \"likes tea\"\x7d]"

/-- The value of that text. -/
def oneRecordValue : Json := .arr [.obj [("statement", .str "likes tea")]]

theorem loads_oneRecord : loads Floats.none oneRecord = some oneRecordValue := by
  have hdumps : dumps Floats.none oneRecordValue = oneRecord := by
    rw [← String.toList_inj]
    simp only [dumps, oneRecordValue, dump, dumpElements, dumpMembers, String.toList_ofList]
    decide
  have hencodable : Encodable Floats.none oneRecordValue := by
    refine .arr fun x hx => ?_
    obtain rfl := List.mem_singleton.mp hx
    refine .obj (by decide) fun kv hkv => ?_
    obtain rfl := List.mem_singleton.mp hkv
    exact .str _
  rw [← hdumps]
  exact loads_dumps hencodable

theorem prose_here : Prose "Here: " := by
  refine ⟨by decide, ?_⟩
  rw [HasTag, not_not]
  decide

theorem prose_nothing : Prose "" := ⟨by decide, not_not_intro rfl⟩

theorem takes_oneRecord : Parser.Takes .intake oneRecordValue := by
  intro x hx
  obtain rfl := List.mem_singleton.mp hx
  trivial

theorem noTag_oneRecord : ¬ HasTag "<think>" oneRecord := by
  rw [HasTag, not_not]
  decide

/-- A list of one object is lost in prose. -/
theorem unchanged_oneRecord :
    ¬ Parser.Same (asciiLibrary.withJson Floats.none) .intake (answer "" "Here: " oneRecord "") oneRecord ∧
      Parser.Same (asciiLibrary.withJson Floats.none) .intake (answer "" "" oneRecord "") oneRecord := by
  have hr : ¬ HasTag "</think>" "" := not_not_intro rfl
  have hblank : ¬ Blank "Here: " := fun h => absurd (h 'H' (by decide)) (by decide)
  have hbraces : between '\x7b' '\x7d' oneRecord.toList ≠ none := by decide
  constructor
  · rw [unchanged_iff asciiLibrary Floats.none .intake hr prose_here prose_nothing noTag_oneRecord loads_oneRecord
      takes_oneRecord]
    rintro (⟨kvs, hkvs⟩ | hprose | hnone)
    · cases hkvs
    · exact hblank hprose.1
    · exact hbraces hnone
  · rw [unchanged_iff asciiLibrary Floats.none .intake hr prose_nothing prose_nothing noTag_oneRecord loads_oneRecord
      takes_oneRecord]
    exact .inr (.inl ⟨by simp [Blank], by simp [Blank]⟩)

/-- Chatter changes what is read of a list that is read alone. -/
theorem not_unchanged : ¬ ∀ (p : Parser) (r a payload b : String) (v : Json), ¬ HasTag "</think>" r → Prose a → Prose b →
    ¬ HasTag "<think>" payload → ¬ HasTag "</think>" payload → loads Floats.none payload = some v → p.Takes v →
    p.Accepts (asciiLibrary.withJson Floats.none) payload →
    p.Same (asciiLibrary.withJson Floats.none) (answer r a payload b) payload := by
  intro h
  have hr : ¬ HasTag "</think>" "" := not_not_intro rfl
  have hclosing : ¬ HasTag "</think>" oneRecord := by
    rw [HasTag, not_not]
    decide
  have harr : Container oneRecordValue := trivial
  obtain ⟨xs, core, ys, hreduced⟩ := reduced hr prose_here prose_nothing noTag_oneRecord loads_oneRecord harr
  have hcore : (asciiLibrary.withJson Floats.none).loads (String.ofList core) = some oneRecordValue :=
    loads_of_isText hreduced.text
  have haccepts : Parser.Accepts (asciiLibrary.withJson Floats.none) .intake oneRecord :=
    ⟨_, parseIntake_arr hreduced.payload_eq (hreduced.ne_empty harr).1 (loadsOutput_of_loads hcore harr)⟩
  have hsame := h .intake "" "Here: " oneRecord "" oneRecordValue hr prose_here prose_nothing noTag_oneRecord hclosing
    loads_oneRecord takes_oneRecord haccepts
  have hprose : xs ≠ [] ∨ ys ≠ [] := by
    by_contra hnone
    simp only [not_or, not_not] at hnone
    exact absurd ((hreduced.blank.mp hnone).1 'H' (by decide)) (by decide)
  have hbraces : between '\x7b' '\x7d' oneRecord.toList ≠ none := by decide
  obtain ⟨w, hw⟩ := Option.ne_none_iff_exists'.mp hbraces
  exact hreduced.not_same takes_oneRecord hprose hw hsame

end Persona.Intake
