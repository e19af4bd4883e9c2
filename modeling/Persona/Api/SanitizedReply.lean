import Persona.Api.Sanitizer

/-!
# Replies that the sanitizer leaves alone

A reply in the sanitizer's shape is read again with the same head, and with the bullets of its head before its
own (`partsOf_render`): it stays as it is where the head adds none. For a canonical reply and for the output of
the sanitizer this comes down to what stands alone in them as a sign, and to the marker
(`sanitizePersonaReply_stable`).
-/

namespace Persona.Api.Sanitizer

open Persona.Lib Persona.Lib.PyText

variable {U : PyText.Unicode} {cs b head text : List Char} {K : List (List Char)}

/-! ### Replies that stay -/

/-- What the head of a reply can be. -/
structure Head (U : PyText.Unicode) (head : List Char) : Prop where
  ne : head ≠ []
  first : ∀ c ∈ head.head?, isSpace c = false
  last : ∀ c ∈ head.getLast?, isSpace c = false
  noReturn : '\r' ∉ head
  paragraph : OneParagraph head
  ends : EndsPlain head
  marker : searchMarker U none head = none

/-- What the bullets of a reply can be. -/
structure Bullets (U : PyText.Unicode) (K : List (List Char)) : Prop where
  ne : K ≠ []
  line : ∀ b ∈ K, Line b
  signs : Signless K
  marker : ∀ b ∈ K, searchMarker U none b = none
  good : ∀ b ∈ K, isBadBullet U b = false

theorem trim_render (hhead : Head U head) (hK : Bullets U K) : trim (render head K) = render head K := by
  refine trim_eq_self ?_ ?_
  · rw [render_eq hK.ne, List.head?_append_of_ne_nil _ hhead.ne]
    exact hhead.first
  · obtain ⟨init, b, rfl⟩ := List.eq_nil_or_concat K |>.resolve_left hK.ne
    have hb : Line b := hK.line b (by simp)
    have htext : bulletText (init.concat b) = bulletText init ++ ("\n* ".toList ++ b) := by
      simp [bulletText]
    rw [render_eq hK.ne, htext, ← List.append_assoc, ← List.append_assoc, List.getLast?_append_of_ne_nil _ (by simp)]
    exact hb.getLast?

theorem notMem_render (hhead : Head U head) (hK : Bullets U K) : '\r' ∉ render head K := by
  have htext : '\r' ∉ bulletText K := by
    intro hmem
    obtain ⟨b, hb, hmem⟩ := List.mem_flatMap.mp hmem
    rcases List.mem_append.mp hmem with hmem | hmem
    · exact absurd hmem (by decide)
    · have hbreak := (hK.line b hb).line '\r' hmem
      cases hbreak
  rw [render_eq hK.ne, List.mem_append, List.mem_append, not_or, not_or]
  exact ⟨hhead.noReturn, by decide, htext⟩

/-- **A reply read again**: its head, and the bullets of its head before its own. -/
theorem partsOf_render (hU : Lawful U) (hhead : Head U head) (hK : Bullets U K) :
    partsOf U (render head K) = (head, uniqueBullets U (splitBulletsAnywhere head ++ K)) := by
  have htext : canonicalize (trim (render head K)) = render head K := by
    rw [trim_render hhead hK, canonicalize_eq_self (notMem_render hhead hK)]
  have hnone : searchMarker U none (render head K) = none := searchMarker_render hU hhead.marker hK.marker hK.ne
  have hsections : sections U (render head K) = (render head K, render head K) := by rw [sections, hnone]
  have hraw : headRaw U (render head K) = render head K := by
    rw [headRaw, hsections, dropSection_eq_self hnone, trim_render hhead hK]
  have hpara : firstParagraph (render head K) = head := by
    rw [render_eq hK.ne]
    exact firstParagraph_append hhead.paragraph hhead.last _
  have hhead' : headOf U (render head K) = head := by
    rw [headOf, htext, hraw, hpara, trim_eq_self hhead.first hhead.last]
  have hbullets : bulletsOf U (render head K) = uniqueBullets U (splitBulletsAnywhere head ++ K) := by
    rw [bulletsOf, htext, hsections, split_render hhead.ne hhead.last hhead.ends hK.line hK.signs hK.ne]
  rw [partsOf, hhead', hbullets, if_pos hhead.ne]

/-- A reply stays as it is where the bullets of its head add nothing to its own. -/
theorem sanitize_render (hU : Lawful U) (hhead : Head U head) (hK : Bullets U K)
    (hfinish : finish (uniqueBullets U (splitBulletsAnywhere head ++ K)) = K) :
    sanitizePersonaReply U (render head K) = render head K := by
  rw [sanitizePersonaReply, partsOf_render hU hhead hK, hfinish, trim_render hhead hK]

/-! ### Two to four bullets -/

theorem line_askBullet : Line askBullet where
  ne := by decide
  first := by decide
  last := by decide
  line := by decide
  dot := by decide

theorem marker_askBullet : searchMarker U none askBullet = none := searchMarker_of_noPhrase (by decide)

theorem good_askBullet (hU : Lawful U) : isBadBullet U askBullet = false := by
  have hkey : keyOf U askBullet = PyText.lower (String.ofList askBullet) := by
    have htrim : trim (Intake.collapse false askBullet) = askBullet := by decide
    rw [keyOf, htrim]
    exact hU.lower _ (by rw [String.toList_ofList]; decide)
  rw [isBadBullet, hkey]
  decide

theorem mem_finish {bs : List (List Char)} (h : b ∈ finish bs) : b ∈ bs.take 4 ∨ b = askBullet :=
  (List.mem_append.mp (List.mem_of_mem_take h)).imp_right List.eq_of_mem_replicate

theorem finish_ne_nil (bs : List (List Char)) : finish bs ≠ [] := by
  intro hnil
  have hlen := congrArg List.length hnil
  simp only [finish, List.length_take, List.length_append, List.length_replicate, List.length_nil] at hlen
  omega

theorem finish_eq_take {bs : List (List Char)} (h : 2 ≤ bs.length) : finish bs = bs.take 4 := by
  have hlen : 2 - (bs.take 4).length = 0 := by
    rw [List.length_take]
    omega
  rw [finish, hlen, List.replicate_zero, List.append_nil, List.take_take, min_self]

theorem mem_uniqueBullets {bs : List (List Char)} (h : b ∈ uniqueBullets U bs) : b ∈ bs ∧ isBadBullet U b = false := by
  have hmem := List.mem_of_find?_eq_some (find?_firsts h)
  rw [List.mem_filter, Bool.not_eq_true'] at hmem
  exact hmem

theorem uniqueBullets_append (g o : List (List Char)) : uniqueBullets U (g ++ o) =
    firsts (keyOf U) [] (g.filter (fun b => !isBadBullet U b) ++ o.filter fun b => !isBadBullet U b) := by
  rw [uniqueBullets, List.filter_append]

/-- Two to four of the first items of each key are chosen again. -/
theorem finish_firsts (g o : List (List Char)) : finish (firsts (keyOf U) [] (g ++ finish (firsts (keyOf U) [] (g ++ o)))) =
    finish (firsts (keyOf U) [] (g ++ o)) := by
  by_cases htwo : 2 ≤ (firsts (keyOf U) [] (g ++ o)).length
  · have hagain : (firsts (keyOf U) [] (g ++ (firsts (keyOf U) [] (g ++ o)).take 4)).take 4 =
        (firsts (keyOf U) [] (g ++ o)).take 4 := take_firsts_again [] 4 g o
    have htwo' : 2 ≤ (firsts (keyOf U) [] (g ++ (firsts (keyOf U) [] (g ++ o)).take 4)).length := by
      have hlen := congrArg List.length hagain
      rw [List.length_take, List.length_take] at hlen
      omega
    rw [finish_eq_take htwo, finish_eq_take htwo', hagain]
  · -- what is added to fewer than two bullets is collected once or not at all
    have hpad : ∀ n, ∃ more, firsts (keyOf U) [] (g ++ (firsts (keyOf U) [] (g ++ o) ++ List.replicate n askBullet)) =
        firsts (keyOf U) [] (g ++ o) ++ more ∧ (more = [] ∨ more = [askBullet]) := by
      intro n
      rw [firsts_again]
      obtain ⟨seen, happend⟩ : ∃ seen, firsts (keyOf U) [] (g ++ o ++ List.replicate n askBullet) =
          firsts (keyOf U) [] (g ++ o) ++ firsts (keyOf U) seen (List.replicate n askBullet) := firsts_append [] _ _
      exact ⟨_, happend, firsts_replicate seen n askBullet⟩
    generalize firsts (keyOf U) [] (g ++ o) = found at htwo hpad ⊢
    cases found with
    | nil =>
      obtain ⟨more, hmore, rfl | rfl⟩ := hpad 2
      · exact congrArg finish hmore
      · exact (congrArg finish hmore).trans (show finish [askBullet] = finish [] from rfl)
    | cons b found =>
      obtain rfl : found = [] := by
        rw [List.length_cons] at htwo
        exact List.length_eq_zero_iff.mp (by omega)
      obtain ⟨more, hmore, rfl | rfl⟩ := hpad 1
      · exact congrArg finish hmore
      · exact (congrArg finish hmore).trans (show finish [b, askBullet] = finish [b] from rfl)

/-- **Bullets chosen again** after those of the head are the same. -/
theorem finish_again (hU : Lawful U) (g o : List (List Char)) :
    finish (uniqueBullets U (g ++ finish (uniqueBullets U (g ++ o)))) = finish (uniqueBullets U (g ++ o)) := by
  have hgood : (finish (uniqueBullets U (g ++ o))).filter (fun b => !isBadBullet U b) = finish (uniqueBullets U (g ++ o)) := by
    refine List.filter_eq_self.mpr fun b hb => ?_
    rcases mem_finish hb with hb | rfl
    · rw [(mem_uniqueBullets (List.mem_of_mem_take hb)).2]
      rfl
    · rw [good_askBullet hU]
      rfl
  rw [uniqueBullets_append, hgood, uniqueBullets_append]
  exact finish_firsts _ _

/-! ### Canonical replies -/

/-- A reply of the canonical shape: a paragraph without the phrase and without lines that start with a bullet,
and two to four bullets that are stripped lines of three characters or more, do not start with the phrase and
are distinct up to case and blanks. -/
structure Canonical (U : PyText.Unicode) (head : List Char) (K : List (List Char)) : Prop where
  ne : head ≠ []
  paragraph : OneParagraph head
  phrase : Markup.indexOf Markup.sameLetter "next actions".toList head = none
  lines : ∀ line ∈ splitlinesL [] head, bulletOf (line.map asterisk) = none
  count : 2 ≤ K.length ∧ K.length ≤ 4
  trimmed : ∀ b ∈ K, trim b = b
  line : ∀ b ∈ K, ∀ c ∈ b, isLineBreak c = false
  length : ∀ b ∈ K, 3 ≤ b.length
  start : ∀ b ∈ K, ¬ "next actions".toList <+: (keyOf U b).toList
  distinct : (K.map (keyOf U)).Nodup

/-- Folding the blanks of a stripped text of three characters or more leaves three. -/
theorem length_collapse (hfirst : ∀ c ∈ cs.head?, isSpace c = false) (hlast : ∀ c ∈ cs.getLast?, isSpace c = false)
    (h : 3 ≤ cs.length) : 3 ≤ (Intake.collapse false cs).length := by
  obtain ⟨c, d, e, rest, rfl⟩ : ∃ c d e rest, cs = c :: d :: e :: rest := by
    match cs, h with
    | c :: d :: e :: rest, _ => exact ⟨c, d, e, rest, rfl⟩
  have hc : isSpace c = false := hfirst c rfl
  -- something is left of the rest, whose last character is no blank
  have hrest : ∀ blank, 1 ≤ (Intake.collapse blank (e :: rest)).length := by
    intro blank
    rw [Nat.one_le_iff_ne_zero, Ne, List.length_eq_zero_iff]
    intro hnil
    obtain ⟨init, z, hz⟩ := List.eq_nil_or_concat (e :: rest) |>.resolve_left (List.cons_ne_nil _ _)
    have hblank := Intake.collapse_eq_nil hnil z (by rw [hz]; simp)
    rw [List.getLast?_cons_cons, List.getLast?_cons_cons, hz] at hlast
    rw [hlast z (by simp)] at hblank
    cases hblank
  rw [Intake.collapse, if_neg (by simp [hc]), Intake.collapse]
  by_cases hd : isSpace d = true
  · rw [if_pos hd, if_neg Bool.false_ne_true, List.length_cons, List.length_cons]
    exact Nat.succ_le_succ (Nat.succ_le_succ (hrest true))
  · rw [if_neg hd, List.length_cons, List.length_cons]
    exact Nat.succ_le_succ (Nat.succ_le_succ (hrest false))

theorem good_of_start (hU : Lawful U) (htrim : trim b = b) (hlen : 3 ≤ b.length)
    (hstart : ¬ "next actions".toList <+: (keyOf U b).toList) : isBadBullet U b = false := by
  have hfirst : ∀ c ∈ b.head?, isSpace c = false := htrim ▸ head?_trim
  have hlast : ∀ c ∈ b.getLast?, isSpace c = false := htrim ▸ getLast?_trim
  have hneat := Intake.neat_collapse hfirst hlast
  have hkey : 3 ≤ (keyOf U b).toList.length := by
    refine le_trans ?_ (hU.length _)
    rw [trim_eq_self hneat.first hneat.last, String.toList_ofList]
    exact length_collapse hfirst hlast hlen
  have hprefix : "next actions".toList.isPrefixOf (keyOf U b).toList = false := by
    rw [← Bool.not_eq_true, List.isPrefixOf_iff_prefix]
    exact hstart
  have hempty : keyOf U b ≠ "" := by
    intro hempty
    rw [hempty] at hkey
    cases hkey
  simp only [isBadBullet, isHeading, hprefix, Bool.false_and, Bool.or_false, Bool.or_eq_false_iff, decide_eq_false_iff_not,
    not_lt]
  exact ⟨hempty, hkey⟩

/-- Good bullets with keys of their own are all taken. -/
theorem uniqueBullets_eq_self (hgood : ∀ b ∈ K, isBadBullet U b = false) (hdistinct : (K.map (keyOf U)).Nodup) :
    uniqueBullets U K = K := by
  have hfilter : K.filter (fun b => !isBadBullet U b) = K := List.filter_eq_self.mpr fun b hb => by rw [hgood b hb]; rfl
  rw [uniqueBullets, hfilter, firsts_eq_self (by simp) hdistinct]

/-- What no good bullet is in adds nothing. -/
theorem uniqueBullets_bad {g : List (List Char)} (hg : ∀ b ∈ g, isBadBullet U b = true) (K : List (List Char)) :
    uniqueBullets U (g ++ K) = uniqueBullets U K := by
  have hnil : g.filter (fun b => !isBadBullet U b) = [] := List.filter_eq_nil_iff.mpr fun b hb => by rw [hg b hb]; decide
  rw [uniqueBullets_append, hnil, List.nil_append, uniqueBullets]

/-- What makes a canonical reply safe from the search for signs and for the marker. -/
structure Plain (U : PyText.Unicode) (head : List Char) (K : List (List Char)) : Prop where
  trimmed : trim head = head
  noReturn : '\r' ∉ head
  ends : EndsPlain head
  found : ∀ b ∈ splitBulletsAnywhere head, isBadBullet U b = true
  dot : ∀ b ∈ K, '•' ∉ b
  signs : Signless K
  marker : ∀ b ∈ K, searchMarker U none b = none

theorem Canonical.toHead (h : Canonical U head K) (hplain : Plain U head K) : Head U head where
  ne := h.ne
  first := hplain.trimmed ▸ head?_trim
  last := hplain.trimmed ▸ getLast?_trim
  noReturn := hplain.noReturn
  paragraph := h.paragraph
  ends := hplain.ends
  marker := searchMarker_of_noPhrase h.phrase

theorem Canonical.toBullets (hU : Lawful U) (h : Canonical U head K) (hplain : Plain U head K) : Bullets U K where
  ne := by
    rintro rfl
    exact absurd h.count.1 (by decide)
  line b hb := by
    have htrim := h.trimmed b hb
    refine ⟨?_, htrim ▸ head?_trim, htrim ▸ getLast?_trim, h.line b hb, hplain.dot b hb⟩
    rintro rfl
    exact absurd (h.length [] hb) (by decide)
  signs := hplain.signs
  marker := hplain.marker
  good b hb := good_of_start hU (h.trimmed b hb) (h.length b hb) (h.start b hb)

theorem sanitize_canonical (hU : Lawful U) (h : Canonical U head K) (hplain : Plain U head K) :
    sanitizePersonaReply U (render head K) = render head K := by
  have hbullets := h.toBullets hU hplain
  refine sanitize_render hU (h.toHead hplain) hbullets ?_
  rw [uniqueBullets_bad hplain.found, uniqueBullets_eq_self hbullets.good h.distinct, finish_eq_take h.count.1,
    List.take_of_length_le h.count.2]

/-! ### Any text -/

/-- What makes a text safe when its reply is read again: signs and markers are not found in the head and the
bullets that it has, and after a marker the head has no bullets. -/
structure Steady (U : PyText.Unicode) (text : List Char) : Prop where
  ends : EndsPlain (partsOf U text).1
  marker : searchMarker U none (partsOf U text).1 = none
  signs : Signless (finish (partsOf U text).2)
  markers : ∀ b ∈ (partsOf U text).2.take 4, searchMarker U none b = none
  found : searchMarker U none (canonicalize (trim text)) ≠ none →
    ∀ b ∈ splitBulletsAnywhere (partsOf U text).1, isBadBullet U b = true

theorem head?_firstParagraph (h : ∀ c ∈ cs.head?, isSpace c = false) : (firstParagraph cs).head? = cs.head? := by
  cases cs with
  | nil => rfl
  | cons c cs =>
    rw [firstParagraph, if_neg]
    · rfl
    · rintro ⟨rfl, -⟩
      cases h '\n' rfl

/-- A text that begins with no blank has a first paragraph that is not blank. -/
theorem trim_firstParagraph_ne_nil (hne : cs ≠ []) (hfirst : ∀ c ∈ cs.head?, isSpace c = false) :
    trim (firstParagraph cs) ≠ [] := by
  have hhead := head?_firstParagraph hfirst
  obtain ⟨ws, hws, hblank⟩ := append_trim (by rwa [hhead])
  intro hnil
  rw [hnil, List.nil_append] at hws
  obtain ⟨c, cs, rfl⟩ := List.exists_cons_of_ne_nil hne
  have hmem : c ∈ ws := List.mem_of_mem_head? (hws ▸ hhead)
  have hc := hblank c hmem
  rw [hfirst c rfl] at hc
  cases hc

/-- The first paragraph of a text, stripped, can be the head of a reply. -/
theorem head_firstParagraph (hU : Lawful U) (hne : cs ≠ []) (hfirst : ∀ c ∈ cs.head?, isSpace c = false) (hreturn : '\r' ∉ cs)
    (hmarker : searchMarker U none cs = none) (hends : EndsPlain (trim (firstParagraph cs))) :
    Head U (trim (firstParagraph cs)) := by
  obtain ⟨ws, hws, -⟩ := append_trim (by rwa [head?_firstParagraph hfirst])
  have hpre : trim (firstParagraph cs) <+: firstParagraph cs := ⟨ws, hws.symm⟩
  obtain ⟨tail, htail⟩ := hpre.trans <| prefix_firstParagraph cs
  refine ⟨trim_firstParagraph_ne_nil hne hfirst, head?_trim, getLast?_trim, fun hmem => hreturn ?_, ?_, hends, ?_⟩
  · rw [← htail]
    exact List.mem_append_left _ hmem
  · exact (oneParagraph_firstParagraph cs).left hpre
  · rw [← htail] at hmarker
    exact searchMarker_left hU hmarker

/-- The bullets of the first paragraph are the first ones of the text. -/
theorem split_firstParagraph (htrim : trim cs = cs) (hhead : Head U (trim (firstParagraph cs))) :
    ∃ more, splitBulletsAnywhere cs = splitBulletsAnywhere (trim (firstParagraph cs)) ++ more := by
  rcases firstParagraph_append_rest cs with hwhole | ⟨more, hmore⟩
  · exact ⟨[], by rw [← hwhole, htrim, List.append_nil]⟩
  · have hfirst : ∀ c ∈ cs.head?, isSpace c = false := htrim ▸ head?_trim
    obtain ⟨ws, hws, hblank⟩ := append_trim (by rwa [head?_firstParagraph hfirst])
    have hparts : cs = trim (firstParagraph cs) ++ (ws ++ '\n' :: more) := by
      rw [← List.append_assoc, ← hws, ← hmore]
    conv in splitBulletsAnywhere cs => rw [hparts]
    exact split_append_line hhead.ne hhead.last hhead.ends hblank more

theorem head_cannedHead : Head U cannedHead where
  ne := by decide
  first := by decide
  last := by decide
  noReturn := by decide
  paragraph := oneParagraph_of_noBreak (by decide)
  ends := endsPlain_of_getLast? (by decide)
  marker := searchMarker_of_noPhrase (by decide)

/-- A line can be the head of a reply. -/
theorem Line.toHead (h : Line b) (hends : EndsPlain b) (hmarker : searchMarker U none b = none) : Head U b where
  ne := h.ne
  first := h.first
  last := h.last
  noReturn hmem := by cases h.line '\r' hmem
  paragraph := oneParagraph_of_noBreak h.line
  ends := hends
  marker := hmarker

theorem bullets_finish (hU : Lawful U) (hK : ∀ b ∈ K.take 4, Line b) (hsigns : Signless (finish K)) (hmarker : ∀ b ∈ K.take 4, searchMarker U none b = none)
    (hgood : ∀ b ∈ K.take 4, isBadBullet U b = false) : Bullets U (finish K) where
  ne := finish_ne_nil K
  line b hb := (mem_finish hb).elim (hK b) fun h => h ▸ line_askBullet
  signs := hsigns
  marker b hb := (mem_finish hb).elim (hmarker b) fun h => h ▸ marker_askBullet
  good b hb := (mem_finish hb).elim (hgood b) fun h => h ▸ good_askBullet hU

/-- `head_raw` is a stripped beginning of the text, before the first marker. -/
theorem headRaw_spec (hU : Lawful U) (htrim : trim cs = cs) :
    trim (headRaw U cs) = headRaw U cs ∧ searchMarker U none (headRaw U cs) = none ∧ headRaw U cs <+: cs := by
  refine ⟨trim_trim _, ?_⟩
  cases hsearch : searchMarker U none cs with
  | none =>
    have hsections : sections U cs = (cs, cs) := by rw [sections, hsearch]
    rw [headRaw, hsections, dropSection_eq_self hsearch, htrim]
    exact ⟨hsearch, List.prefix_refl cs⟩
  | some p =>
    have hsections : sections U cs = (trim p.1, trim p.2) := by rw [sections, hsearch]
    obtain ⟨hbefore, tail, htail⟩ := searchMarker_before hU hsearch
    have hfirst : ∀ c ∈ p.1.head?, isSpace c = false := by
      intro c hc
      have hne : p.1 ≠ [] := List.ne_nil_of_mem (List.mem_of_mem_head? hc)
      have hhead : cs.head? = p.1.head? := by rw [← htail, List.head?_append_of_ne_nil _ hne]
      have hall : ∀ c ∈ cs.head?, isSpace c = false := htrim ▸ head?_trim
      exact hall c (hhead ▸ hc)
    obtain ⟨ws, hws, -⟩ := append_trim hfirst
    have hnone : searchMarker U none (trim p.1) = none := by
      rw [hws] at hbefore
      exact searchMarker_left hU hbefore
    rw [headRaw, hsections, dropSection_eq_self hnone, trim_trim]
    refine ⟨hnone, ws ++ tail, ?_⟩
    rw [← List.append_assoc, ← hws, htail]

/-- Without a marker the head and the bullets come from the same text. -/
theorem sections_of_none (h : searchMarker U none cs = none) (htrim : trim cs = cs) :
    headRaw U cs = cs ∧ (sections U cs).2 = cs := by
  have hsections : sections U cs = (cs, cs) := by rw [sections, h]
  rw [headRaw, hsections, dropSection_eq_self h]
  exact ⟨htrim, rfl⟩

/-- A head and bullets that are chosen again when the reply is read. -/
structure Again (U : PyText.Unicode) (head : List Char) (K : List (List Char)) : Prop where
  heading : Head U head
  bullets : Bullets U (finish K)
  chosen : finish (uniqueBullets U (splitBulletsAnywhere head ++ finish K)) = finish K

theorem Again.sanitize (hU : Lawful U) (h : Again U head K) :
    sanitizePersonaReply U (trim (render head (finish K))) = trim (render head (finish K)) := by
  rw [trim_render h.heading h.bullets]
  exact sanitize_render hU h.heading h.bullets h.chosen

theorem again_cannedHead (hU : Lawful U) : Again U cannedHead [] where
  heading := head_cannedHead
  bullets := bullets_finish hU (by simp) (signless_of_forall fun b hb => unsigned_of_notMem (by
    obtain rfl : b = askBullet := (mem_finish hb).resolve_left (by simp)
    decide)) (by simp) (by simp)
  chosen := by
    have hsplit : splitBulletsAnywhere cannedHead = [] := by decide
    rw [hsplit]
    exact finish_again hU [] []

/-- After a head without good bullets the bullets are chosen again. -/
theorem again_bad (hU : Lawful U) (hhead : Head U head) (hfound : ∀ b ∈ splitBulletsAnywhere head, isBadBullet U b = true)
    (hdistinct : (K.map (keyOf U)).Nodup) (hgood : ∀ b ∈ K, isBadBullet U b = false) (hbullets : Bullets U (finish K)) :
    Again U head K where
  heading := hhead
  bullets := hbullets
  chosen := by
    have hagain := finish_again hU [] K
    rw [List.nil_append, List.nil_append, uniqueBullets_eq_self hgood hdistinct] at hagain
    rw [uniqueBullets_bad hfound]
    exact hagain

/-- A text without a marker, whose first paragraph is the head. -/
theorem again_whole (hU : Lawful U) (hhead : Head U (trim (firstParagraph cs))) (htrim : trim cs = cs)
    (hbullets : Bullets U (finish (uniqueBullets U (splitBulletsAnywhere cs)))) :
    Again U (trim (firstParagraph cs)) (uniqueBullets U (splitBulletsAnywhere cs)) where
  heading := hhead
  bullets := hbullets
  chosen := by
    obtain ⟨more, hmore⟩ := split_firstParagraph htrim hhead
    rw [hmore]
    exact finish_again hU _ more

theorem partsOf_headless (h : headRaw U (canonicalize (trim text)) = []) : partsOf U text = promoted (bulletsOf U text) := by
  have hhead : headOf U text = [] := by
    rw [headOf, h]
    rfl
  rw [partsOf, if_neg (not_not.mpr hhead), if_neg (not_not.mpr h)]

theorem partsOf_headed (h : headOf U text ≠ []) :
    (partsOf U text).1 = headOf U text ∧ (partsOf U text).2 = bulletsOf U text := by
  simp only [partsOf, if_pos h, and_self]

theorem line_of_mem_bulletsOf (h : b ∈ bulletsOf U text) : Line b := line_of_mem_split (mem_uniqueBullets h).1

theorem good_of_mem_bulletsOf (h : b ∈ bulletsOf U text) : isBadBullet U b = false := (mem_uniqueBullets h).2

theorem nodup_bulletsOf (U : PyText.Unicode) (text : List Char) : ((bulletsOf U text).map (keyOf U)).Nodup := nodup_firsts

/-- Without a head the first bullet, or the canned head, takes its place. -/
theorem again_headless (hU : Lawful U) (h : Steady U text) (hempty : headRaw U (canonicalize (trim text)) = []) :
    Again U (partsOf U text).1 (partsOf U text).2 := by
  obtain ⟨hends, hmarker, hsigns, hmarkers, hfound⟩ := h
  have hdistinct := nodup_bulletsOf U text
  have hline : ∀ b ∈ bulletsOf U text, Line b := fun _ => line_of_mem_bulletsOf
  have hgood : ∀ b ∈ bulletsOf U text, isBadBullet U b = false := fun _ => good_of_mem_bulletsOf
  have hparts := partsOf_headless hempty
  cases hbullets : bulletsOf U text with
  | nil =>
    rw [hbullets, promoted] at hparts
    rw [hparts]
    exact again_cannedHead hU
  | cons b found =>
    -- a text that is empty has no bullets
    have hsearch : searchMarker U none (canonicalize (trim text)) ≠ none := by
      intro hsearch
      obtain ⟨hwhole, htail⟩ := sections_of_none hsearch (trim_canonicalize text)
      rw [bulletsOf, htail, ← hwhole, hempty] at hbullets
      cases hbullets
    rw [hbullets] at hparts hline hgood hdistinct
    rw [promoted] at hparts
    rw [hparts] at hends hmarker hsigns hmarkers hfound ⊢
    obtain ⟨hbline, hline⟩ := List.forall_mem_cons.mp hline
    have hgood := (List.forall_mem_cons.mp hgood).2
    rw [List.map_cons, List.nodup_cons] at hdistinct
    have hall : Bullets U (finish found) := bullets_finish hU
      (fun d hd => hline d (List.mem_of_mem_take hd)) hsigns hmarkers
      fun d hd => hgood d (List.mem_of_mem_take hd)
    exact again_bad hU (hbline.toHead hends hmarker) (hfound hsearch) hdistinct.2 hgood hall

theorem again_headed (hU : Lawful U) (h : Steady U text) (hne : headRaw U (canonicalize (trim text)) ≠ []) :
    Again U (partsOf U text).1 (partsOf U text).2 := by
  obtain ⟨hends, -, hsigns, hmarkers, hfound⟩ := h
  have htrim : trim (canonicalize (trim text)) = canonicalize (trim text) := trim_canonicalize text
  obtain ⟨hraw, hnone, hpre⟩ := headRaw_spec hU htrim
  have hfirst : ∀ c ∈ (headRaw U (canonicalize (trim text))).head?, isSpace c = false := hraw ▸ head?_trim
  have hreturn : '\r' ∉ headRaw U (canonicalize (trim text)) := fun hmem => notMem_canonicalize _ (hpre.subset hmem)
  obtain ⟨hone, htwo⟩ := partsOf_headed (trim_firstParagraph_ne_nil hne hfirst)
  rw [hone] at hends hfound ⊢
  rw [htwo] at hsigns hmarkers ⊢
  have hhead : Head U (headOf U text) := head_firstParagraph hU hne hfirst hreturn hnone hends
  have hall : Bullets U (finish (bulletsOf U text)) := bullets_finish hU
    (fun d hd => line_of_mem_bulletsOf (List.mem_of_mem_take hd)) hsigns hmarkers
    fun d hd => good_of_mem_bulletsOf (List.mem_of_mem_take hd)
  by_cases hsearch : searchMarker U none (canonicalize (trim text)) = none
  · obtain ⟨hwhole, htail⟩ := sections_of_none hsearch htrim
    rw [headOf, hwhole] at hhead ⊢
    rw [bulletsOf, htail] at hall ⊢
    exact again_whole hU hhead htrim hall
  · exact again_bad hU hhead (hfound hsearch) (nodup_bulletsOf U text) (fun _ => good_of_mem_bulletsOf) hall

/-- **The reply of a text** has a head and bullets that are chosen again. -/
theorem again_partsOf (hU : Lawful U) (h : Steady U text) : Again U (partsOf U text).1 (partsOf U text).2 := by
  by_cases hempty : headRaw U (canonicalize (trim text)) = []
  · exact again_headless hU h hempty
  · exact again_headed hU h hempty

/-- **What the sanitizer leaves alone**: canonical replies, and its own output, where the search for signs finds
nothing in them that is none, and the marker is not found. -/
theorem sanitizePersonaReply_stable (hU : Lawful U) :
    (∀ head K, Canonical U head K → Plain U head K → sanitizePersonaReply U (render head K) = render head K) ∧
      ∀ text, Steady U text → sanitizePersonaReply U (sanitizePersonaReply U text) = sanitizePersonaReply U text :=
  ⟨fun _ _ => sanitize_canonical hU, fun _ h => (again_partsOf hU h).sanitize hU⟩

/-! ### ASCII -/

theorem lawful_ascii : Lawful PyText.Unicode.ascii where
  space c hc := by
    simp only [isSpace, Bool.or_eq_true, Bool.and_eq_true, decide_eq_true_eq, beq_iff_eq] at hc
    have halpha : c.isAlpha = (decide (c.val ≥ 'A'.val ∧ c.val ≤ 'Z'.val) || (c.val ≥ 'a'.val && c.val ≤ 'z'.val)) := rfl
    simp only [PyText.Unicode.ascii, Char.isAlphanum, halpha, Char.isDigit, ge_iff_le, Bool.or_eq_false_iff, Bool.and_eq_false_imp,
      decide_eq_true_eq, decide_eq_false_iff_not, UInt32.le_iff_toNat_le]
    have hcaps : 'A'.val.toNat = 65 ∧ 'Z'.val.toNat = 90 := ⟨rfl, rfl⟩
    have hsmall : 'a'.val.toNat = 97 ∧ 'z'.val.toNat = 122 := ⟨rfl, rfl⟩
    have hdigits : '0'.val.toNat = 48 ∧ '9'.val.toNat = 57 := ⟨rfl, rfl⟩
    rw [Char.toNat] at hc
    refine ⟨⟨⟨by omega, by omega⟩, by omega⟩, ?_⟩
    rintro rfl
    have hline : '_'.val.toNat = 95 := rfl
    omega
  colon := by decide
  lower s _ := rfl
  length s := by
    simp [PyText.Unicode.ascii, PyText.lower]

/-- A reply of the canonical shape. -/
def twoSteps : List (List Char) := ["read the notes".toList, "write them down".toList]

theorem canonical_twoSteps : Canonical PyText.Unicode.ascii "Sure.".toList twoSteps where
  ne := by decide
  paragraph := oneParagraph_of_noBreak (by decide)
  phrase := by decide
  lines := by decide
  count := by decide
  trimmed := by decide
  line := by decide
  length := by decide
  start := by decide
  distinct := by decide

theorem plain_twoSteps : Plain PyText.Unicode.ascii "Sure.".toList twoSteps where
  trimmed := by decide
  noReturn := by decide
  ends := endsPlain_of_getLast? (by decide)
  found := by decide
  dot := by decide
  signs := signless_of_forall fun b hb =>
    unsigned_of_notMem ((show ∀ b ∈ twoSteps, ∀ sign ∈ ['*', '-'], sign ∉ ' ' :: (b ++ [' ']) by decide) b hb)
  marker := by decide

theorem steady_note : Steady PyText.Unicode.ascii "Sure - read the notes".toList where
  ends := endsPlain_of_getLast? (by decide)
  marker := by decide
  signs := by
    have hall : ∀ b ∈ finish (partsOf PyText.Unicode.ascii "Sure - read the notes".toList).2,
        ∀ sign ∈ ['*', '-'], sign ∉ ' ' :: (b ++ [' ']) := by decide
    exact signless_of_forall fun b hb => unsigned_of_notMem (hall b hb)
  markers := by decide
  found := by decide

theorem sanitizePersonaReply_stable_twoSteps :
    sanitizePersonaReply PyText.Unicode.ascii (render "Sure.".toList twoSteps) = render "Sure.".toList twoSteps ∧
      sanitizePersonaReply PyText.Unicode.ascii (sanitizePersonaReply PyText.Unicode.ascii "Sure - read the notes".toList) =
        sanitizePersonaReply PyText.Unicode.ascii "Sure - read the notes".toList :=
  ⟨(sanitizePersonaReply_stable lawful_ascii).1 _ _ canonical_twoSteps plain_twoSteps,
    (sanitizePersonaReply_stable lawful_ascii).2 _ steady_note⟩

/-- A reply of the canonical shape with a dash in a bullet. -/
def dashed : List (List Char) := ["read it - twice".toList, "sleep well".toList]

/-- **A dash in a bullet** makes two of it, and of two dashes in a row only the first counts. -/
theorem not_sanitizePersonaReply_stable :
    (¬ ∀ head K, Canonical PyText.Unicode.ascii head K →
        sanitizePersonaReply PyText.Unicode.ascii (render head K) = render head K) ∧
      ¬ ∀ text, sanitizePersonaReply PyText.Unicode.ascii (sanitizePersonaReply PyText.Unicode.ascii text) =
        sanitizePersonaReply PyText.Unicode.ascii text := by
  constructor
  · intro hall
    have hcanonical : Canonical PyText.Unicode.ascii "Sure.".toList dashed := by
      refine ⟨by decide, oneParagraph_of_noBreak (by decide), by decide, by decide, by decide, by decide, by decide,
        by decide, by decide, by decide⟩
    exact absurd (hall _ _ hcanonical) (by decide)
  · intro hall
    exact absurd (hall "Hello\n- - bcd".toList) (by decide +kernel)

end Persona.Api.Sanitizer
