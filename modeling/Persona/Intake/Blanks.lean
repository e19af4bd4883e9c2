import Persona.Intake.Record
import Mathlib.Data.List.Chain

/-!
# Texts with single blanks

What the cleaning of a statement and of a fact establishes, step by step: after `strip` and
`re.sub(r"\s+", " ", s)` a text has single blanks between its words and none around them (`Neat`); taking
away a bullet, and cutting the text at a length, leave it so. Such a text is left alone by the first two
steps.
-/

namespace Persona.Intake

open Persona.Lib

/-- Single blanks between words, and none around them. -/
structure Neat (cs : List Char) : Prop where
  blank : ∀ c ∈ cs, PyText.isSpace c = true → c = ' '
  single : cs.IsChain fun a b => PyText.isSpace a = true → PyText.isSpace b = false
  first : ∀ c ∈ cs.head?, PyText.isSpace c = false
  last : ∀ c ∈ cs.getLast?, PyText.isSpace c = false

/-- The text begins with a bullet and a blank. -/
def Bulleted (cs : List Char) : Prop := ∃ b s rest, cs = b :: s :: rest ∧ b ∈ ['-', '*', '•'] ∧ PyText.isSpace s = true

variable {cs rest : List Char} {c b s : Char} {blank : Bool}

/-! ### Folding blanks -/

theorem collapse_cons (blank : Bool) (c : Char) (cs : List Char) : collapse blank (c :: cs) =
    if PyText.isSpace c then (if blank then collapse true cs else ' ' :: collapse true cs) else c :: collapse false cs := rfl

theorem mem_collapse (h : c ∈ collapse blank cs) : c = ' ' ∨ PyText.isSpace c = false := by
  induction cs generalizing blank with
  | nil => cases h
  | cons d cs ih =>
    rw [collapse_cons] at h
    split_ifs at h with hd hblank
    · exact ih h
    · exact (List.mem_cons.mp h).imp id ih |>.elim .inl id
    · rcases List.mem_cons.mp h with rfl | h
      · exact .inr (Bool.eq_false_iff.mpr hd)
      · exact ih h

/-- After a blank no further one is kept. -/
theorem head?_collapse : ∀ c ∈ (collapse true cs).head?, PyText.isSpace c = false := by
  induction cs with
  | nil => exact fun c hc => by cases hc
  | cons d cs ih =>
    rw [collapse_cons]
    split_ifs with hd hfalse
    · exact ih
    · exact absurd rfl hfalse
    · simpa using hd

theorem isChain_collapse : (collapse blank cs).IsChain fun a b => PyText.isSpace a = true → PyText.isSpace b = false := by
  induction cs generalizing blank with
  | nil => exact .nil
  | cons d cs ih =>
    rw [collapse_cons]
    split_ifs with hd hblank
    · exact ih
    · exact List.isChain_cons.mpr ⟨fun b hb _ => head?_collapse b hb, ih⟩
    · exact List.isChain_cons.mpr ⟨fun b _ hspace => absurd hspace hd, ih⟩

theorem collapse_eq_nil (h : collapse blank cs = []) : ∀ c ∈ cs, PyText.isSpace c = true := by
  induction cs generalizing blank with
  | nil => simp
  | cons d cs ih =>
    rw [collapse_cons] at h
    split_ifs at h with hd hblank
    exact List.forall_mem_cons.mpr ⟨hd, ih h⟩

/-- A last character that is no blank stays the last one. -/
theorem getLast?_collapse (h : ∀ c ∈ cs.getLast?, PyText.isSpace c = false) : (collapse blank cs).getLast? = cs.getLast? := by
  induction cs generalizing blank with
  | nil => rfl
  | cons d cs ih =>
    cases cs with
    | nil =>
      have hd : PyText.isSpace d = false := h d rfl
      rw [collapse_cons, if_neg (by simp [hd])]
      rfl
    | cons e cs =>
      rw [List.getLast?_cons_cons] at h ⊢
      have hrest : ∀ blank, (collapse blank (e :: cs)).getLast? = (e :: cs).getLast? := fun _ => ih h
      have hcons : ∀ blank x, (x :: collapse blank (e :: cs)).getLast? = (e :: cs).getLast? := by
        intro blank x
        have hne : collapse blank (e :: cs) ≠ [] := by
          intro hnil
          have hlast := hrest blank
          rw [hnil] at hlast
          exact List.cons_ne_nil e cs (List.getLast?_eq_none_iff.mp hlast.symm)
        rw [← hrest blank, ← List.singleton_append, List.getLast?_append_of_ne_nil _ hne]
      rw [collapse_cons]
      split_ifs
      · exact hrest true
      · exact hcons true ' '
      · exact hcons false d

/-- **Folding the blanks** of a text that is stripped makes it neat. -/
theorem neat_collapse (hfirst : ∀ c ∈ cs.head?, PyText.isSpace c = false) (hlast : ∀ c ∈ cs.getLast?, PyText.isSpace c = false) :
    Neat (collapse false cs) where
  blank c hc hspace := (mem_collapse hc).resolve_right (by simp [hspace])
  single := isChain_collapse
  first := by
    cases cs with
    | nil => exact fun c hc => by cases hc
    | cons d cs =>
      have hd : PyText.isSpace d = false := hfirst d rfl
      rw [collapse_cons, if_neg (by simp [hd])]
      simpa using hd
  last := by
    rw [getLast?_collapse hlast]
    exact hlast

theorem collapse_eq_self (hblank : ∀ c ∈ cs, PyText.isSpace c = true → c = ' ')
    (hsingle : cs.IsChain fun a b => PyText.isSpace a = true → PyText.isSpace b = false)
    (hfirst : blank = true → ∀ c ∈ cs.head?, PyText.isSpace c = false) : collapse blank cs = cs := by
  induction cs generalizing blank with
  | nil => rfl
  | cons d cs ih =>
    obtain ⟨hnext, hrest⟩ := List.isChain_cons.mp hsingle
    have hblank' := fun c hc => hblank c (List.mem_cons_of_mem d hc)
    rw [collapse_cons]
    split_ifs with hd hb
    · rw [hfirst hb d rfl] at hd
      cases hd
    · rw [ih hblank' hrest fun _ c hc => hnext c hc hd, hblank d List.mem_cons_self hd]
    · rw [ih hblank' hrest fun h => by cases h]

theorem Neat.strip (h : Neat cs) : PyText.rstripL (PyText.lstripL cs) = cs := PyText.strip_eq_self h.first h.last

theorem Neat.collapse (h : Neat cs) : collapse false cs = cs :=
  collapse_eq_self h.blank h.single fun hfalse => by cases hfalse

/-! ### Bullets -/

/-- What follows a bullet and a blank is neat. -/
theorem Neat.of_bullet (h : Neat (b :: s :: cs)) (hs : PyText.isSpace s = true) : Neat cs where
  blank c hc := h.blank c (List.mem_cons_of_mem b (List.mem_cons_of_mem s hc))
  single := (List.isChain_cons.mp (List.isChain_cons.mp h.single).2).2
  first c hc := (List.isChain_cons.mp (List.isChain_cons.mp h.single).2).1 c hc hs
  last := by
    have hlast := h.last
    rw [List.getLast?_cons_cons] at hlast
    cases cs with
    | nil => simp
    | cons c cs => rwa [List.getLast?_cons_cons] at hlast

theorem Neat.dropBullets (h : Neat cs) : Neat (dropBullets cs) := by
  fun_induction Intake.dropBullets cs with
  | case1 b s cs hb ih => exact ih (h.of_bullet hb.2)
  | case2 b s cs hb => exact h
  | case3 cs hcs => exact h

theorem not_bulleted_dropBullets : ¬ Bulleted (dropBullets cs) := by
  fun_induction Intake.dropBullets cs with
  | case1 b s cs hb ih => exact ih
  | case2 b s cs hb =>
    rintro ⟨b', s', rest, heq, hb', hs'⟩
    simp only [List.cons.injEq] at heq
    exact hb ⟨heq.1 ▸ hb', heq.2.1 ▸ hs'⟩
  | case3 cs hcs =>
    rintro ⟨b', s', rest, rfl, -, -⟩
    exact hcs b' s' rest rfl

/-! ### Cutting -/

/-- Cutting a neat text and stripping its end leaves it neat. -/
theorem Neat.take (h : Neat cs) (n : ℕ) : Neat (PyText.rstripL (cs.take n)) := by
  have hpre : PyText.rstripL (cs.take n) <+: cs := (PyText.rstripL_prefix _).trans (List.take_prefix n cs)
  refine ⟨fun c hc => h.blank c (hpre.subset hc), h.single.prefix hpre, fun c hc => ?_, PyText.getLast?_rstripL⟩
  obtain ⟨tail, htail⟩ := hpre
  refine h.first c ?_
  rw [← htail, List.head?_append_of_ne_nil _ (List.ne_nil_of_mem (List.mem_of_mem_head? hc))]
  exact hc

/-- Something is left of a neat text. -/
theorem Neat.take_ne_nil (h : Neat cs) (hne : cs ≠ []) {n : ℕ} (hn : 0 < n) : PyText.rstripL (cs.take n) ≠ [] := by
  rw [Ne, PyText.rstripL_eq_nil_iff]
  intro hall
  obtain ⟨c, cs, rfl⟩ := List.exists_cons_of_ne_nil hne
  obtain ⟨n, rfl⟩ := Nat.exists_eq_succ_of_ne_zero hn.ne'
  have hc := hall c (by simp)
  rw [h.first c rfl] at hc
  cases hc

theorem length_take_le (cs : List Char) (n : ℕ) : (PyText.rstripL (cs.take n)).length ≤ n :=
  (PyText.rstripL_prefix _).length_le.trans (List.length_take_le n cs)

/-- A text that begins like one without a bullet has none. -/
theorem not_bulleted_of_prefix (h : ¬ Bulleted cs) (hpre : rest <+: cs) : ¬ Bulleted rest := by
  rintro ⟨b, s, tail, rfl, hb, hs⟩
  obtain ⟨more, rfl⟩ := hpre
  exact h ⟨b, s, tail ++ more, rfl, hb, hs⟩

end Persona.Intake
