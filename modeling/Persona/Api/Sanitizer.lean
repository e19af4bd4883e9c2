import Persona.Intake.Blanks
import Persona.Lib.Firsts
import Persona.Lib.Lines
import Persona.Lib.Signs
import Persona.Lib.TextFile
import Persona.Rag.Memory

/-!
# The sanitizer of a reply

`sanitize_persona_reply` of `services/api/server.py` gives a reply one shape: a paragraph, the line
`Next actions:` and two to four bullets. The bullets are looked for in the whole text, wherever an
asterisk or a dash stands between blanks; the section is looked for with a pattern that wants a letter
right after the colon, so that its own heading is not found.
-/

namespace Persona.Api.Sanitizer

open Persona.Lib Persona.Lib.PyText

/-- `str.strip`. -/
def trim (cs : List Char) : List Char := rstripL (lstripL cs)

/-- `_canonicalize`. -/
def canonicalize : List Char → List Char
  | [] => []
  | '\r' :: '\n' :: cs => '\n' :: canonicalize cs
  | c :: cs => (if c = '\r' then '\n' else c) :: canonicalize cs

/-! ### Bullets -/

/-- `replace("•", "*")` of one character. -/
def asterisk (c : Char) : Char := if c = '•' then '*' else c

/-- What stands on a line after a bullet's sign and blanks. -/
def bulletOf (line : List Char) : Option (List Char) :=
  match trim line with
  | sign :: s :: rest => if sign ∈ ['*', '-'] ∧ isSpace s = true ∧ trim rest ≠ [] then some (trim rest) else none
  | _ => none

/-- The text with each sign on a line of its own. -/
def bulletLines (text : List Char) : List Char :=
  subSign '-' "\n* ".toList (some []) (subSign '*' "\n* ".toList (some []) (text.map asterisk))

/-- `_split_bullets_anywhere`. -/
def splitBulletsAnywhere (text : List Char) : List (List Char) := pickLines bulletOf [] (bulletLines text)

section

variable (U : PyText.Unicode)

/-- `key`: a bullet up to case and blanks. -/
def keyOf (b : List Char) : String := U.lower (String.ofList (trim (Intake.collapse false b)))

/-- `re.fullmatch(r"next actions\s*:?", s)`. -/
def isHeading (s : String) : Bool :=
  "next actions".toList.isPrefixOf s.toList &&
    match (s.toList.drop "next actions".length).dropWhile isSpace with
    | [] => true
    | [':'] => true
    | _ => false

/-- `_is_bad_bullet`. -/
def isBadBullet (b : List Char) : Bool :=
  let s := keyOf U b
  s = "" || isHeading s || "next actions".toList.isPrefixOf s.toList || s.toList.length < 3

/-- `bullets`, the first ones of each key. -/
def uniqueBullets (bs : List (List Char)) : List (List Char) :=
  firsts (keyOf U) [] (bs.filter fun b => !isBadBullet U b)

/-! ### Sections -/

/-- What follows a match of `next actions\s*:`. -/
def afterMarker (cs : List Char) : List Char := ((cs.drop "next actions".length).dropWhile isSpace).drop 1

/-- `re.search(r"(?i)\bnext actions\s*:\b", t)`: the text before the match and after it. -/
def searchMarker (before : Option Char) : List Char → Option (List Char × List Char)
  | [] => none
  | c :: cs =>
    if Rag.nextActionsAt U before (c :: cs) then some ([], afterMarker (c :: cs))
    else (searchMarker (some c) cs).map fun p => (c :: p.1, p.2)

/-- `re.sub(r"(?i)\bnext actions\s*:\b.*$", "", s)`: `.*` stops at a line break, and `$` wants no more than this one. -/
def dropSection (before : Option Char) : List Char → List Char
  | [] => []
  | c :: cs =>
    let rest := (afterMarker (c :: cs)).dropWhile (· ≠ '\n')
    if Rag.nextActionsAt U before (c :: cs) ∧ rest.length ≤ 1 then rest
    else c :: dropSection (some c) cs

/-- `re.split(r"\n\s*\n", s, maxsplit=1)[0]`. -/
def firstParagraph : List Char → List Char
  | [] => []
  | c :: cs => if c = '\n' ∧ '\n' ∈ cs.takeWhile isSpace then [] else c :: firstParagraph cs

/-- `head_raw` and `tail_raw` as they are first. -/
def sections (t : List Char) : List Char × List Char :=
  match searchMarker U none t with
  | some (before, after) => (trim before, trim after)
  | none => (t, t)

/-- `head_raw`. -/
def headRaw (t : List Char) : List Char := trim (dropSection U none (sections U t).1)

/-! ### The reply -/

def cannedHead : List Char := "I can help with local, offline assistance across research, coding, and planning.".toList

def askBullet : List Char := "Ask a specific question or describe the task you want help with.".toList

/-- `head`, the first paragraph. -/
def headOf (text : List Char) : List Char := trim (firstParagraph (headRaw U (canonicalize (trim text))))

/-- `bullets` as they are found. -/
def bulletsOf (text : List Char) : List (List Char) :=
  uniqueBullets U (splitBulletsAnywhere (sections U (canonicalize (trim text))).2)

/-- `bullets.pop(0)` for a head, or the canned one. -/
def promoted : List (List Char) → List Char × List (List Char)
  | b :: bullets => (b, bullets)
  | [] => (cannedHead, [])

/-- The head and the bullets of a reply. -/
def partsOf (text : List Char) : List Char × List (List Char) :=
  let raw := headRaw U (canonicalize (trim text))
  if headOf U text ≠ [] then (headOf U text, bulletsOf U text)
  else if raw ≠ [] then (raw, bulletsOf U text)
  else promoted (bulletsOf U text)

/-- Two to four bullets. -/
def finish (bullets : List (List Char)) : List (List Char) :=
  let four := bullets.take 4
  (four ++ List.replicate (2 - four.length) askBullet).take 4

/-- The shape of a reply. -/
def render (head : List Char) (bullets : List (List Char)) : List Char :=
  head ++ "\n\nNext actions:\n".toList ++ ['\n'].intercalate (bullets.map ("* ".toList ++ ·))

/-- `sanitize_persona_reply`. -/
def sanitizePersonaReply (text : List Char) : List Char :=
  trim (render (partsOf U text).1 (finish (partsOf U text).2))

end

/-! ### Stripping and line ends -/

variable {U : PyText.Unicode} {cs xs ys line b head text : List Char} {c : Char} {before : Option Char}

theorem trim_eq_self (hfirst : ∀ c ∈ cs.head?, isSpace c = false) (hlast : ∀ c ∈ cs.getLast?, isSpace c = false) : trim cs = cs :=
  strip_eq_self hfirst hlast

theorem head?_trim : ∀ c ∈ (trim cs).head?, isSpace c = false := head?_strip

theorem getLast?_trim : ∀ c ∈ (trim cs).getLast?, isSpace c = false := getLast?_rstripL

theorem trim_trim (cs : List Char) : trim (trim cs) = trim cs := trim_eq_self head?_trim getLast?_trim

theorem trim_infix_self (cs : List Char) : trim cs <:+: cs := by
  have hright : rstripL (lstripL cs) <+: lstripL cs := rstripL_prefix _
  exact hright.isInfix.trans (List.dropWhile_suffix isSpace).isInfix

/-- Blanks follow a stripped text that begins where the text does. -/
theorem append_trim (h : ∀ c ∈ cs.head?, isSpace c = false) : ∃ ws, cs = trim cs ++ ws ∧ ∀ c ∈ ws, isSpace c = true := by
  have hleft : lstripL cs = cs := by
    cases cs with
    | nil => rfl
    | cons c cs => exact List.dropWhile_cons_of_neg (by simp [h c rfl])
  refine ⟨(cs.reverse.takeWhile isSpace).reverse, ?_, fun c hc => List.mem_takeWhile_imp (List.mem_reverse.mp hc)⟩
  rw [trim, hleft, rstripL, ← List.reverse_append, List.takeWhile_append_dropWhile, List.reverse_reverse]

theorem trim_append_blank (hc : isSpace c = true) (cs : List Char) : trim (cs ++ [c]) = trim cs := by
  have hright : ∀ xs, rstripL (xs ++ [c]) = rstripL xs := by
    intro xs
    rw [rstripL, List.reverse_append, List.reverse_singleton, List.singleton_append, List.dropWhile_cons_of_pos hc, rstripL]
  rw [trim, lstripL, List.dropWhile_append]
  split_ifs with hblank
  · rw [List.dropWhile_cons_of_pos hc, trim, lstripL, List.isEmpty_iff.mp hblank]
    rfl
  · exact hright _

/-- The same is done to the line ends of a file that is read. -/
theorem canonicalize_eq_universal (cs : List Char) : canonicalize cs = TextFile.universal cs := by
  fun_induction canonicalize cs with
  | case1 => rfl
  | case2 cs ih =>
    rw [ih]
    rfl
  | case3 c cs hcrlf ih =>
    rw [ih, TextFile.universal]
    exact hcrlf

theorem canonicalize_eq_self (h : '\r' ∉ cs) : canonicalize cs = cs := by
  rw [canonicalize_eq_universal, TextFile.universal_eq_self h]

theorem notMem_canonicalize (cs : List Char) : '\r' ∉ canonicalize cs := by
  rw [canonicalize_eq_universal]
  exact TextFile.cr_notMem_universal cs

theorem canonicalize_cons (hc : isSpace c = false) (cs : List Char) : canonicalize (c :: cs) = c :: canonicalize cs := by
  have hr : c ≠ '\r' := by
    rintro rfl
    cases hc
  rw [canonicalize_eq_universal, canonicalize_eq_universal, TextFile.universal_cons hr]

theorem canonicalize_concat (hc : isSpace c = false) (cs : List Char) : canonicalize (cs ++ [c]) = canonicalize cs ++ [c] := by
  have hr : c ≠ '\r' := by
    rintro rfl
    cases hc
  have hn : c ≠ '\n' := by
    rintro rfl
    cases hc
  rw [canonicalize_eq_universal, canonicalize_eq_universal, TextFile.universal_concat hr hn]

/-- Changing the line ends of a stripped text leaves it stripped. -/
theorem trim_canonicalize (cs : List Char) : trim (canonicalize (trim cs)) = canonicalize (trim cs) := by
  refine trim_eq_self ?_ ?_
  · have hfirst : ∀ c ∈ (trim cs).head?, isSpace c = false := head?_trim
    cases htrim : trim cs with
    | nil => exact fun c hc => by cases hc
    | cons d ds =>
      rw [htrim] at hfirst
      rw [canonicalize_cons (hfirst d rfl)]
      exact hfirst
  · have hlast : ∀ c ∈ (trim cs).getLast?, isSpace c = false := getLast?_trim
    rcases List.eq_nil_or_concat (trim cs) with hnil | ⟨ds, d, htrim⟩
    · rw [hnil]
      exact fun c hc => by cases hc
    · rw [htrim, List.concat_eq_append] at hlast ⊢
      rw [canonicalize_concat (hlast d (by simp))]
      simpa using hlast d (by simp)

/-! ### Bullets of a text -/

/-- Neither an asterisk nor a dash stands alone in the text, its beginning counted as a blank. -/
def Unsigned (cs : List Char) : Prop := ∀ sign ∈ ['*', '-'], ¬ Signed sign (' ' :: cs)

theorem unsigned_of_notMem (h : ∀ sign ∈ ['*', '-'], sign ∉ ' ' :: cs) : Unsigned cs := by
  rintro sign hsign ⟨a, z, -, -, hin⟩
  exact h sign hsign (hin.subset (by simp))

theorem Unsigned.left {xs ys : List Char} (h : Unsigned (xs ++ ys)) : Unsigned xs :=
  fun sign hsign hin => h sign hsign (hin.mono ⟨[], ys, rfl⟩)

/-- No sign stands alone in the bullets. A line break follows each, so that its end counts as a blank, but for
the last. -/
structure Signless (K : List (List Char)) : Prop where
  before : ∀ b ∈ K.dropLast, Unsigned (b ++ [' '])
  last : ∀ b ∈ K.getLast?, Unsigned b

theorem signless_of_forall {K : List (List Char)} (h : ∀ b ∈ K, Unsigned (b ++ [' '])) : Signless K where
  before b hb := h b (List.mem_of_mem_dropLast hb)
  last b hb := (h b (List.mem_of_mem_getLast? hb)).left

/-- A line that is stripped. -/
structure Line (b : List Char) : Prop where
  ne : b ≠ []
  first : ∀ c ∈ b.head?, isSpace c = false
  last : ∀ c ∈ b.getLast?, isSpace c = false
  line : ∀ c ∈ b, isLineBreak c = false
  dot : '•' ∉ b

theorem bulletOf_eq_some (h : bulletOf line = some b) : b ≠ [] ∧ trim b = b ∧ b <:+: line := by
  rw [bulletOf] at h
  split at h
  · rename_i sign s rest htrim
    split_ifs at h with hb
    obtain rfl := Option.some.inj h
    have hrest : rest <:+: trim line := htrim ▸ (List.suffix_append [sign, s] rest).isInfix
    exact ⟨hb.2.2, trim_trim rest, (trim_infix_self rest).trans (hrest.trans (trim_infix_self line))⟩
  · cases h

theorem bulletOf_append_blank (line : List Char) (c : Char) (hc : isSpace c = true) : bulletOf (line ++ [c]) = bulletOf line := by
  rw [bulletOf, trim_append_blank hc, bulletOf]

theorem bulletOf_bullet (hne : b ≠ []) (hfirst : ∀ c ∈ b.head?, isSpace c = false) (hlast : ∀ c ∈ b.getLast?, isSpace c = false) :
    bulletOf ("* ".toList ++ b) = some b := by
  have htrim : trim ("* ".toList ++ b) = '*' :: ' ' :: b := by
    refine trim_eq_self (fun c hc => ?_) (by rwa [List.getLast?_append_of_ne_nil _ hne])
    obtain rfl : '*' = c := Option.some.inj hc
    rfl
  have hb : trim b = b := trim_eq_self hfirst hlast
  rw [bulletOf, htrim]
  exact (if_pos ⟨by decide, rfl, hb.symm ▸ hne⟩).trans (congrArg some hb)

theorem asterisk_eq (h : '•' ∉ cs) : cs.map asterisk = cs := by
  refine (List.map_congr_left fun c hc => ?_).trans (List.map_id _)
  rw [asterisk, if_neg]
  · rfl
  · rintro rfl
    exact h hc

theorem mem_bulletLines (h : c ∈ bulletLines text) : c ≠ '•' := by
  have hstep : ∀ sign xs, '•' ∉ xs → '•' ∉ subSign sign "\n* ".toList (some []) xs := by
    intro sign xs hxs hmem
    rcases mem_subSign hmem with hmem | hmem | hmem
    · exact absurd hmem (by decide)
    · exact hxs hmem
    · exact absurd hmem (by decide)
  have hdot : '•' ∉ text.map asterisk := by
    intro hmem
    obtain ⟨d, -, hd⟩ := List.mem_map.mp hmem
    rw [asterisk] at hd
    split_ifs at hd with heq
    · cases hd
    · exact heq hd
  rintro rfl
  exact hstep '-' _ (hstep '*' _ hdot) h

/-- What the splitter finds is a stripped line. -/
theorem line_of_mem_split (h : b ∈ splitBulletsAnywhere text) : Line b := by
  obtain ⟨line, hline, hb⟩ := List.mem_filterMap.mp h
  obtain ⟨hne, htrim, hin⟩ := bulletOf_eq_some hb
  refine ⟨hne, htrim ▸ head?_trim, htrim ▸ getLast?_trim, fun c hc => ?_, fun hc => ?_⟩
  · exact isLineBreak_of_mem_splitlinesL hline (by simp) c (hin.subset hc)
  · exact mem_bulletLines ((hin.trans (infix_of_mem_splitlinesL hline)).subset hc) rfl

/-- The text does not end in an asterisk or a dash that stands alone. -/
def EndsPlain (cs : List Char) : Prop := ∀ sign ∈ ['*', '-'], ¬ EndsSigned sign (cs.map asterisk)

theorem isSpace_asterisk (c : Char) : isSpace (asterisk c) = isSpace c := by
  rw [asterisk]
  split_ifs with hc
  · rw [hc]
    rfl
  · rfl

theorem endsPlain_of_getLast? (h : ∀ c ∈ cs.getLast?, asterisk c ∉ ['*', '-']) : EndsPlain cs := by
  rintro sign hsign ⟨pre, a, -, heq⟩
  have hlast : (cs.map asterisk).getLast? = some sign := by
    rw [heq]
    simp
  rw [List.getLast?_map, Option.map_eq_some_iff] at hlast
  obtain ⟨c, hc, rfl⟩ := hlast
  exact h c hc hsign

/-- A cut at the end of a word that is no sign. -/
theorem bulletLines_append (hne : xs ≠ []) (hlast : ∀ c ∈ xs.getLast?, isSpace c = false) (hend : EndsPlain xs) (ys : List Char) :
    bulletLines (xs ++ ys) = bulletLines xs ++ bulletLines ys := by
  obtain ⟨init, c, rfl⟩ := List.eq_nil_or_concat xs |>.resolve_left hne
  rw [List.concat_eq_append] at hne hlast hend ⊢
  have hc : isSpace (asterisk c) = false := by
    rw [isSpace_asterisk]
    exact hlast c (by simp)
  have hlast' : ∀ d ∈ ((init ++ [c]).map asterisk).getLast?, isSpace d = false := by
    intro d hd
    obtain rfl : asterisk c = d := by simpa using hd
    exact hc
  obtain ⟨out, hout⟩ : ∃ out, subSign '*' "\n* ".toList (some []) ((init ++ [c]).map asterisk) = out ++ [asterisk c] := by
    rw [List.map_append]
    exact subSign_append_word (by simp) (by simpa using hc) _
  have hdash : ¬ EndsSigned '-' (subSign '*' "\n* ".toList (some []) ((init ++ [c]).map asterisk)) :=
    not_endsSigned_subSign hlast' (hend '-' (by simp))
  rw [bulletLines, bulletLines, bulletLines, List.map_append, subSign_append (by simp) hlast' (hend '*' (by simp)) (by simp)]
  rw [hout] at hdash ⊢
  rw [subSign_append (by simp) (by simpa using hc) hdash (by simp)]

/-- A bullet on a line of its own stays as it is, if it has no bullet signs of its own. -/
theorem Line.bulletLines (h : Line b) (hb : Unsigned b) : bulletLines ("\n* ".toList ++ b) = "\n* ".toList ++ b := by
  have hasterisk : b.map asterisk = b := asterisk_eq h.dot
  have hstar : subSign '*' "\n* ".toList (some []) ("\n* ".toList ++ b) = "\n* ".toList ++ b := by
    obtain ⟨c, b, rfl⟩ := List.exists_cons_of_ne_nil h.ne
    have hrest : ¬ Signed '*' ([].reverse ++ b) := fun hin =>
      hb '*' (by simp) (hin.mono ⟨[' ', c], [], by simp⟩)
    have hdropped : subSign '*' "\n* ".toList none (c :: b) = c :: b := by
      rw [subSign_dropped (h.first c rfl), subSign_eq_self (by simp) hrest]
      rfl
    exact congrArg ("\n* ".toList ++ ·) hdropped
  have hdash : ¬ Signed '-' ([].reverse ++ ("\n* ".toList ++ b)) := by
    rintro ⟨a, z, ha, hz, hin⟩
    have hin : [a, '-', z] <:+: '\n' :: '*' :: ' ' :: b := hin
    -- neither the line break nor the asterisk is before a dash
    rcases List.infix_cons_iff.mp hin with hpre | hin
    · obtain ⟨rest, hrest⟩ := hpre
      cases hrest
    · rcases List.infix_cons_iff.mp hin with hpre | hin
      · obtain ⟨rest, hrest⟩ := hpre
        cases hrest
      · exact hb '-' (by simp) ⟨a, z, ha, hz, hin⟩
  rw [Sanitizer.bulletLines, List.map_append, hasterisk]
  exact (congrArg _ hstar).trans (subSign_eq_self (by simp) hdash)

/-- A line with a bullet does not end in a sign that stands alone, if no sign stands alone before a blank. -/
theorem Line.endsPlain (h : Line b) (hb : Unsigned (b ++ [' '])) : EndsPlain ("\n* ".toList ++ b) := by
  rintro sign hsign ⟨pre, a, ha, heq⟩
  rw [List.map_append, asterisk_eq h.dot] at heq
  have hsuffix : [a, sign] <:+ ' ' :: b := by
    refine List.suffix_of_suffix_length_le ⟨pre, heq.symm⟩ ⟨['\n', '*'], rfl⟩ ?_
    have hpos := List.length_pos_iff.mpr h.ne
    rw [List.length_cons]
    exact Nat.succ_le_succ hpos
  obtain ⟨init, hinit⟩ := hsuffix
  exact hb sign hsign ⟨a, ' ', ha, rfl, init, [], by rw [← List.cons_append, ← hinit]; simp⟩

theorem Line.getLast? (h : Line b) : ∀ c ∈ ("\n* ".toList ++ b).getLast?, isSpace c = false := by
  rw [List.getLast?_append_of_ne_nil _ h.ne]
  exact h.last

/-- The bullets of a reply, each on a line. -/
def bulletText (K : List (List Char)) : List Char := K.flatMap ("\n* ".toList ++ ·)

variable {K : List (List Char)}

theorem bulletText_cons (b : List Char) (K : List (List Char)) : bulletText (b :: K) = "\n* ".toList ++ b ++ bulletText K :=
  List.flatMap_cons

theorem append_bulletText_cons (xs b : List Char) (K : List (List Char)) :
    xs ++ bulletText (b :: K) = xs ++ '\n' :: ("* ".toList ++ b) ++ bulletText K := by
  rw [bulletText_cons]
  simp

theorem render_eq (hne : K ≠ []) (head : List Char) : render head K = head ++ ("\n\nNext actions:".toList ++ bulletText K) := by
  have htext : ∀ b : List Char, ∀ K, '\n' :: ['\n'].intercalate ((b :: K).map ("* ".toList ++ ·)) = bulletText (b :: K) := by
    intro b K
    induction K generalizing b with
    | nil => simp [bulletText]
    | cons d K ih =>
      rw [bulletText_cons, ← ih, List.map_cons, List.map_cons, List.intercalate_cons_cons]
      simp
  obtain ⟨b, K, rfl⟩ := List.exists_cons_of_ne_nil hne
  have hheading : "\n\nNext actions:\n".toList = "\n\nNext actions:".toList ++ ['\n'] := rfl
  rw [render, ← htext, hheading]
  simp

theorem bulletLines_bulletText (hK : ∀ b ∈ K, Line b) (hsigns : Signless K) : bulletLines (bulletText K) = bulletText K := by
  induction K with
  | nil => rfl
  | cons b K ih =>
    obtain ⟨hb, hK⟩ := List.forall_mem_cons.mp hK
    cases K with
    | nil =>
      rw [bulletText_cons, bulletText, List.flatMap_nil, List.append_nil]
      exact hb.bulletLines (hsigns.last b rfl)
    | cons d K =>
      obtain ⟨hbefore, hlast⟩ := hsigns
      rw [List.dropLast_cons_cons] at hbefore
      obtain ⟨hunsigned, hbefore⟩ := List.forall_mem_cons.mp hbefore
      rw [List.getLast?_cons_cons] at hlast
      rw [bulletText_cons, bulletLines_append (by simp) hb.getLast? (hb.endsPlain hunsigned), hb.bulletLines hunsigned.left,
        ih hK ⟨hbefore, hlast⟩]

theorem pickLines_bulletText (hK : ∀ b ∈ K, Line b) (xs : List Char) :
    pickLines bulletOf [] (xs ++ bulletText K) = pickLines bulletOf [] xs ++ K := by
  induction K generalizing xs with
  | nil => rw [bulletText, List.flatMap_nil, List.append_nil, List.append_nil]
  | cons b K ih =>
    obtain ⟨hb, hK⟩ := List.forall_mem_cons.mp hK
    have hline : ∀ c ∈ "* ".toList ++ b, isLineBreak c = false := by
      intro c hc
      rcases List.mem_append.mp hc with hc | hc
      · obtain rfl | rfl : c = '*' ∨ c = ' ' := by simpa using hc
        · rfl
        · rfl
      · exact hb.line c hc
    have hpick : pickLines bulletOf [] (xs ++ '\n' :: ("* ".toList ++ b)) = pickLines bulletOf [] xs ++ [b] := by
      rw [pickLines_append_break rfl rfl, pickLines_unbroken rfl hline, bulletOf_bullet hb.ne hb.first hb.last]
      rfl
    rw [append_bulletText_cons, ih hK, hpick, List.append_assoc]
    rfl

/-- **The bullets of a reply** are those of its head and its own. -/
theorem split_render (hne : head ≠ []) (hlast : ∀ c ∈ head.getLast?, isSpace c = false) (hend : EndsPlain head)
    (hK : ∀ b ∈ K, Line b) (hsigns : Signless K) (hKne : K ≠ []) :
    splitBulletsAnywhere (render head K) = splitBulletsAnywhere head ++ K := by
  have hheading : ∀ c ∈ "\n\nNext actions:".toList.getLast?, isSpace c = false := by
    intro c hc
    obtain rfl : ':' = c := Option.some.inj hc
    rfl
  have hplain : EndsPlain "\n\nNext actions:".toList := endsPlain_of_getLast? (by decide)
  have hfixed : bulletLines "\n\nNext actions:".toList = '\n' :: "\nNext actions:".toList := by decide
  rw [splitBulletsAnywhere, render_eq hKne, bulletLines_append hne hlast hend, bulletLines_append (by decide) hheading hplain,
    bulletLines_bulletText hK hsigns, hfixed, ← List.append_assoc, pickLines_bulletText hK, pickLines_append_break rfl rfl,
    splitBulletsAnywhere]
  have hnone : pickLines bulletOf [] "\nNext actions:".toList = [] := by decide
  rw [hnone, List.append_nil]

/-- What follows the head after a line break adds bullets. -/
theorem split_append_line (hne : head ≠ []) (hlast : ∀ c ∈ head.getLast?, isSpace c = false) (hend : EndsPlain head)
    {ws : List Char} (hws : ∀ c ∈ ws, isSpace c = true) (ys : List Char) :
    ∃ more, splitBulletsAnywhere (head ++ (ws ++ '\n' :: ys)) = splitBulletsAnywhere head ++ more := by
  have hmap : (ws ++ '\n' :: ys).map asterisk = ws.map asterisk ++ '\n' :: ys.map asterisk := by
    rw [List.map_append, List.map_cons]
    rfl
  have hblank : ∀ c ∈ ws.map asterisk, isSpace c = true := by
    intro c hc
    obtain ⟨d, hd, rfl⟩ := List.mem_map.mp hc
    rw [isSpace_asterisk]
    exact hws d hd
  obtain ⟨ws₁, ys₁, hstar, hws₁⟩ : ∃ ws₁ ys₁, subSign '*' "\n* ".toList (some []) (ws.map asterisk ++ '\n' :: ys.map asterisk) =
      ws₁ ++ '\n' :: ys₁ ∧ ∀ c ∈ ws₁, isSpace c = true := subSign_line hblank _
  obtain ⟨ws₂, ys₂, hdash, hws₂⟩ : ∃ ws₂ ys₂, subSign '-' "\n* ".toList (some []) (ws₁ ++ '\n' :: ys₁) =
      ws₂ ++ '\n' :: ys₂ ∧ ∀ c ∈ ws₂, isSpace c = true := subSign_line hws₁ _
  refine ⟨pickLines bulletOf [] ys₂, ?_⟩
  rw [splitBulletsAnywhere, bulletLines_append hne hlast hend]
  conv_lhs => rw [bulletLines, bulletLines, hmap, hstar, hdash]
  rw [← bulletLines, ← List.append_assoc, pickLines_append_break rfl rfl,
    pickLines_append_blanks rfl bulletOf_append_blank hws₂, splitBulletsAnywhere]

/-! ### The section marker -/

/-- What Python's tables say of blanks, of ASCII and of lower case. -/
structure Lawful (U : PyText.Unicode) : Prop where
  space : ∀ c, isSpace c = true → U.isWord c = false
  colon : U.isWord ':' = false
  lower : ∀ s : String, (∀ c ∈ s.toList, c.toNat < 128) → U.lower s = PyText.lower s
  length : ∀ s : String, s.toList.length ≤ (U.lower s).toList.length

/-- The marker is the phrase, blanks, a colon and a letter. -/
theorem nextActionsAt_iff (hU : Lawful U) : Rag.nextActionsAt U before cs = true ↔
    Rag.wordBoundary U before cs.head? = true ∧ Markup.litAt Markup.sameLetter "next actions".toList cs = true ∧
      ∃ w rest, (cs.drop "next actions".length).dropWhile isSpace = ':' :: w :: rest ∧ U.isWord w = true := by
  have hcolon : ∀ rest : List Char, Rag.wordBoundary U (some ':') rest.head? = true ↔
      ∃ w more, rest = w :: more ∧ U.isWord w = true := by
    intro rest
    cases rest <;> simp [Rag.wordBoundary, hU.colon]
  rw [Rag.nextActionsAt, Bool.and_eq_true, Bool.and_eq_true, and_assoc]
  refine and_congr_right fun _ => and_congr_right fun _ => ?_
  split
  · rename_i rest heq
    rw [hcolon, heq]
    simp
  · rename_i hnot
    refine iff_of_false (by simp) ?_
    rintro ⟨w, rest, heq, -⟩
    exact hnot _ heq

theorem nextActionsAt_of_litAt (h : Markup.litAt Markup.sameLetter "next actions".toList cs = false) :
    Rag.nextActionsAt U before cs = false := by
  rw [Rag.nextActionsAt, h, Bool.and_false, Bool.false_and]

/-- A marker is still one when the text goes on. -/
theorem nextActionsAt_append (hU : Lawful U) (h : Rag.nextActionsAt U before xs = true) (ys : List Char) :
    Rag.nextActionsAt U before (xs ++ ys) = true := by
  obtain ⟨hword, hlit, w, rest, heq, hw⟩ := (nextActionsAt_iff hU).mp h
  have hne : xs ≠ [] := by
    rintro rfl
    cases hlit
  have hdrop : (xs ++ ys).drop "next actions".length = xs.drop "next actions".length ++ ys :=
    List.drop_append_of_le_length (Markup.length_le_of_litAt hlit)
  refine (nextActionsAt_iff hU).mpr ⟨by rwa [List.head?_append_of_ne_nil _ hne], Markup.litAt_append hlit, w, rest ++ ys, ?_, hw⟩
  rw [hdrop, List.dropWhile_append, heq]
  rfl

/-- No marker goes over the end of a line, unless a colon follows. -/
theorem nextActionsAt_of_line (hU : Lawful U) (hys : (ys.dropWhile isSpace).head? ≠ some ':')
    (h : Rag.nextActionsAt U before (xs ++ '\n' :: ys) = true) : Rag.nextActionsAt U before xs = true := by
  obtain ⟨hword, hlit, w, rest, heq, hw⟩ := (nextActionsAt_iff hU).mp h
  have hlit : Markup.litAt Markup.sameLetter "next actions".toList xs = true := Markup.litAt_of_append (by decide) hlit
  have hne : xs ≠ [] := by
    rintro rfl
    cases hlit
  rw [List.head?_append_of_ne_nil _ hne] at hword
  have hdrop : (xs ++ '\n' :: ys).drop "next actions".length = xs.drop "next actions".length ++ '\n' :: ys :=
    List.drop_append_of_le_length (Markup.length_le_of_litAt hlit)
  rw [hdrop, List.dropWhile_append] at heq
  split_ifs at heq with hblank
  · rw [List.dropWhile_cons_of_pos (show isSpace '\n' = true from rfl)] at heq
    exact absurd (by rw [heq]; rfl) hys
  · cases hrest : (xs.drop "next actions".length).dropWhile isSpace with
    | nil => simp [hrest] at hblank
    | cons d more =>
      rw [hrest, List.cons_append, List.cons.injEq] at heq
      obtain ⟨rfl, heq⟩ := heq
      cases more with
      | nil =>
        obtain ⟨rfl, -⟩ := List.cons.inj heq
        rw [hU.space '\n' rfl] at hw
        cases hw
      | cons e more =>
        obtain ⟨rfl, -⟩ := List.cons.inj heq
        exact (nextActionsAt_iff hU).mpr ⟨hword, hlit, e, more, hrest, hw⟩

theorem searchMarker_cons_none : searchMarker U before (c :: cs) = none ↔
    Rag.nextActionsAt U before (c :: cs) = false ∧ searchMarker U (some c) cs = none := by
  rw [searchMarker]
  cases Rag.nextActionsAt U before (c :: cs) <;> simp

/-- Without the phrase there is no marker. -/
theorem searchMarker_of_noPhrase (h : Markup.indexOf Markup.sameLetter "next actions".toList cs = none) :
    searchMarker U before cs = none := by
  induction cs generalizing before with
  | nil => rfl
  | cons c cs ih =>
    obtain ⟨hlit, hrest⟩ := Markup.indexOf_cons_none.mp h
    exact searchMarker_cons_none.mpr ⟨nextActionsAt_of_litAt hlit, ih hrest⟩

theorem searchMarker_left (hU : Lawful U) (h : searchMarker U before (xs ++ ys) = none) : searchMarker U before xs = none := by
  induction xs generalizing before with
  | nil => rfl
  | cons x xs ih =>
    obtain ⟨hat, hrest⟩ := searchMarker_cons_none.mp h
    refine searchMarker_cons_none.mpr ⟨?_, ih hrest⟩
    by_contra hx
    have hlonger : Rag.nextActionsAt U before (x :: xs ++ ys) = true := nextActionsAt_append hU (by simpa using hx) ys
    exact Bool.false_ne_true (hat.symm.trans hlonger)

/-- Before the first marker there is none. -/
theorem searchMarker_before (hU : Lawful U) {p : List Char × List Char} (h : searchMarker U before cs = some p) :
    searchMarker U before p.1 = none ∧ p.1 <+: cs := by
  induction cs generalizing before p with
  | nil => cases h
  | cons c cs ih =>
    rw [searchMarker] at h
    split_ifs at h with hat
    · obtain rfl := Option.some.inj h
      exact ⟨rfl, List.nil_prefix⟩
    · obtain ⟨q, hq, rfl⟩ := Option.map_eq_some_iff.mp h
      obtain ⟨hnone, tail, rfl⟩ := ih hq
      refine ⟨searchMarker_cons_none.mpr ⟨?_, hnone⟩, tail, rfl⟩
      by_contra hc
      exact hat (nextActionsAt_append hU (by simpa using hc) tail)

theorem dropSection_eq_self (h : searchMarker U before cs = none) : dropSection U before cs = cs := by
  induction cs generalizing before with
  | nil => rfl
  | cons c cs ih =>
    obtain ⟨hat, hrest⟩ := searchMarker_cons_none.mp h
    rw [dropSection, ih hrest, if_neg]
    rintro ⟨hc, -⟩
    rw [hat] at hc
    cases hc

theorem searchMarker_line (hU : Lawful U) (hys : (ys.dropWhile isSpace).head? ≠ some ':')
    (hxs : searchMarker U before xs = none) (hline : searchMarker U (some '\n') ys = none) :
    searchMarker U before (xs ++ '\n' :: ys) = none := by
  induction xs generalizing before with
  | nil =>
    exact searchMarker_cons_none.mpr ⟨nextActionsAt_of_litAt rfl, hline⟩
  | cons x xs ih =>
    obtain ⟨hat, hrest⟩ := searchMarker_cons_none.mp hxs
    refine searchMarker_cons_none.mpr ⟨?_, ih hrest⟩
    by_contra hx
    rw [nextActionsAt_of_line hU hys (by simpa using hx)] at hat
    cases hat

/-- After a blank a marker is found where one is found at the start. -/
theorem searchMarker_blank (hU : Lawful U) (hc : isSpace c = true) (b : List Char) :
    searchMarker U (some c) b = searchMarker U none b := by
  have hword : U.isWord c = false := hU.space c hc
  cases b with
  | nil => rfl
  | cons d b =>
    rw [searchMarker, searchMarker, Rag.nextActionsAt, Rag.nextActionsAt, Rag.wordBoundary, Rag.wordBoundary, Option.any_some,
      hword, Option.any_none]

theorem searchMarker_bulletText (hU : Lawful U) (hxs : searchMarker U before xs = none)
    (hK : ∀ b ∈ K, searchMarker U none b = none) : searchMarker U before (xs ++ bulletText K) = none := by
  induction K generalizing xs with
  | nil => rwa [bulletText, List.flatMap_nil, List.append_nil]
  | cons b K ih =>
    obtain ⟨hb, hK⟩ := List.forall_mem_cons.mp hK
    have hblank : searchMarker U (some ' ') b = none := (searchMarker_blank hU rfl b).trans hb
    have hline : searchMarker U (some '\n') ("* ".toList ++ b) = none :=
      searchMarker_cons_none.mpr ⟨nextActionsAt_of_litAt rfl,
        searchMarker_cons_none.mpr ⟨nextActionsAt_of_litAt rfl, hblank⟩⟩
    have hcolon : (("* ".toList ++ b).dropWhile isSpace).head? ≠ some ':' := fun h =>
      absurd (show some '*' = some ':' from h) (by decide)
    rw [append_bulletText_cons]
    exact ih (searchMarker_line hU hcolon hxs hline) hK

/-- **No marker in a reply** that has none in its head and its bullets: a line break follows the heading. -/
theorem searchMarker_render (hU : Lawful U) (hhead : searchMarker U none head = none)
    (hK : ∀ b ∈ K, searchMarker U none b = none) (hne : K ≠ []) : searchMarker U none (render head K) = none := by
  have hcolon : Rag.nextActionsAt U (some '\n') "Next actions:".toList = false := by
    by_contra h
    obtain ⟨-, -, w, rest, heq, -⟩ := (nextActionsAt_iff hU).mp (by simpa using h)
    have heq : [':'] = ':' :: w :: rest := heq
    cases heq
  have hheading : searchMarker U (some '\n') "\nNext actions:".toList = none :=
    searchMarker_cons_none.mpr ⟨nextActionsAt_of_litAt (by decide),
      searchMarker_cons_none.mpr ⟨hcolon, searchMarker_of_noPhrase (by decide)⟩⟩
  rw [render_eq hne, ← List.append_assoc]
  exact searchMarker_bulletText hU (searchMarker_line hU (by decide) hhead hheading) hK

/-! ### Paragraphs -/

/-- No line of blanks stands inside the text. -/
def OneParagraph (cs : List Char) : Prop :=
  ∀ pre ws post, (∀ c ∈ ws, isSpace c = true) → cs ≠ pre ++ '\n' :: (ws ++ '\n' :: post)

theorem OneParagraph.left (h : OneParagraph ys) (hpre : xs <+: ys) : OneParagraph xs := by
  rintro pre ws post hws rfl
  obtain ⟨tail, rfl⟩ := hpre
  exact h pre ws (post ++ tail) hws (by simp)

theorem oneParagraph_of_noBreak (h : ∀ c ∈ cs, isLineBreak c = false) : OneParagraph cs := by
  rintro pre ws post - rfl
  have hbreak := h '\n' (by simp)
  cases hbreak

/-- A blank line begins where a line break is followed by blanks with another one. -/
theorem exists_of_mem_takeWhile (h : '\n' ∈ cs.takeWhile isSpace) :
    ∃ ws post, (∀ c ∈ ws, isSpace c = true) ∧ cs = ws ++ '\n' :: post := by
  obtain ⟨ws, ws', hsplit⟩ := List.append_of_mem h
  refine ⟨ws, ws' ++ cs.dropWhile isSpace, fun c hc => ?_, ?_⟩
  · have hmem : c ∈ cs.takeWhile isSpace := hsplit ▸ List.mem_append_left _ hc
    exact List.mem_takeWhile_imp hmem
  · conv_lhs => rw [← List.takeWhile_append_dropWhile (p := isSpace) (l := cs), hsplit]
    rw [List.append_assoc, List.cons_append]

theorem firstParagraph_cons (c : Char) (cs : List Char) : firstParagraph (c :: cs) =
    if c = '\n' ∧ '\n' ∈ cs.takeWhile isSpace then [] else c :: firstParagraph cs := rfl

theorem newline_mem_takeWhile (cs : List Char) : '\n' ∈ ('\n' :: cs).takeWhile isSpace := by
  rw [List.takeWhile_cons_of_pos rfl]
  exact List.mem_cons_self

theorem firstParagraph_append_rest (cs : List Char) : cs = firstParagraph cs ∨ ∃ more, cs = firstParagraph cs ++ '\n' :: more := by
  induction cs with
  | nil => exact .inl rfl
  | cons c cs ih =>
    rw [firstParagraph_cons]
    split_ifs with hc
    · exact .inr ⟨cs, by rw [hc.1]; rfl⟩
    · rcases ih with ih | ⟨more, ih⟩
      · exact .inl (congrArg (c :: ·) ih)
      · exact .inr ⟨more, congrArg (c :: ·) ih⟩

theorem prefix_firstParagraph (cs : List Char) : firstParagraph cs <+: cs := by
  rcases firstParagraph_append_rest cs with h | ⟨more, h⟩
  · exact h ▸ List.prefix_refl _
  · exact ⟨_, h.symm⟩

theorem oneParagraph_firstParagraph (cs : List Char) : OneParagraph (firstParagraph cs) := by
  induction cs with
  | nil =>
    intro pre ws post _ heq
    exact absurd heq.symm (List.append_ne_nil_of_right_ne_nil pre (List.cons_ne_nil _ _))
  | cons c cs ih =>
    intro pre ws post hws heq
    rw [firstParagraph_cons] at heq
    split_ifs at heq with hc
    · simp at heq
    · cases pre with
      | nil =>
        obtain ⟨rfl, hrest⟩ := List.cons.inj heq
        obtain ⟨tail, htail⟩ := prefix_firstParagraph cs
        refine hc ⟨rfl, ?_⟩
        rw [← htail, hrest, List.append_assoc, List.takeWhile_append_of_pos hws]
        exact List.mem_append_right _ (newline_mem_takeWhile _)
      | cons d pre => exact ih pre ws post hws (List.cons.inj heq).2

/-- The first paragraph ends at a blank line. -/
theorem firstParagraph_append (h : OneParagraph cs) (hlast : ∀ c ∈ cs.getLast?, isSpace c = false) (ys : List Char) :
    firstParagraph (cs ++ '\n' :: '\n' :: ys) = cs := by
  induction cs with
  | nil => exact if_pos ⟨rfl, newline_mem_takeWhile ys⟩
  | cons c cs ih =>
    have hrest : OneParagraph cs := by
      rintro pre ws post hws rfl
      exact h (c :: pre) ws post hws rfl
    have hlast' : ∀ d ∈ cs.getLast?, isSpace d = false := by
      intro d hd
      refine hlast d ?_
      rw [List.getLast?_cons, Option.mem_def.mp hd]
      rfl
    rw [List.cons_append, firstParagraph_cons, if_neg, ih hrest hlast']
    rintro ⟨rfl, hmem⟩
    rw [List.takeWhile_append] at hmem
    split_ifs at hmem with hall
    · -- the rest is not all blanks: its last character is none
      have hblank : ∀ d ∈ cs, isSpace d = true := by
        have hpre : cs.takeWhile isSpace <+: cs := List.takeWhile_prefix isSpace
        exact List.takeWhile_eq_self_iff.mp (hpre.eq_of_length hall)
      rcases List.eq_nil_or_concat cs with rfl | ⟨init, d, rfl⟩
      · cases hlast '\n' rfl
      · have hd := hlast' d (by simp)
        rw [hblank d (by simp)] at hd
        cases hd
    · obtain ⟨ws, post, hws, rfl⟩ := exists_of_mem_takeWhile hmem
      exact h [] ws post hws rfl

end Persona.Api.Sanitizer
