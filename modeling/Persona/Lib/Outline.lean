import Mathlib.Data.List.Induction
import Mathlib.Order.Lattice
import Mathlib.Order.Defs.LinearOrder

/-!
# The outline of a document

Headings have levels, and a heading stands under the nearest one before it whose level is smaller. A reader
that goes through the document from its start keeps them on a stack: `foldl_push` says that what is on the
stack is the headings that enclose the place where it is.
-/

namespace Persona.Lib.Outline

variable {T : Type*} {level bound : ℕ} {headings : List (ℕ × T)}

/-- The nearest heading whose level is below the bound, then repeatedly the nearest one of a smaller level;
the headings are given from the nearest to the first. -/
def climb (bound : ℕ) : List (ℕ × T) → List (ℕ × T)
  | [] => []
  | heading :: earlier => if heading.1 < bound then heading :: climb heading.1 earlier else climb bound earlier

/-- The headings that enclose the place after some headings, outermost first. -/
def enclosing (headings : List (ℕ × T)) : List (ℕ × T) :=
  match headings.reverse with
  | [] => []
  | heading :: earlier => (heading :: climb heading.1 earlier).reverse

/-- A heading on the stack takes away those that it does not stand under. -/
def push (stack : List (ℕ × T)) (heading : ℕ × T) : List (ℕ × T) := stack.filter (fun h => h.1 < heading.1) ++ [heading]

theorem lt_of_mem_climb {x : ℕ × T} (h : x ∈ climb bound headings) : x.1 < bound := by
  induction headings generalizing bound with
  | nil => cases h
  | cons heading earlier ih =>
    rw [climb] at h
    split_ifs at h with hbelow
    · rcases List.mem_cons.mp h with rfl | h
      · exact hbelow
      · exact (ih h).trans hbelow
    · exact ih h

/-- Of the headings that enclose a place, those of small levels are what a climb to these levels finds. -/
theorem filter_climb (h : level ≤ bound) (headings : List (ℕ × T)) :
    (climb bound headings).filter (fun h => h.1 < level) = climb level headings := by
  induction headings generalizing bound with
  | nil => rfl
  | cons heading earlier ih =>
    rw [climb, climb]
    by_cases hlevel : heading.1 < level
    · rw [if_pos hlevel, if_pos (lt_of_lt_of_le hlevel h), List.filter_cons_of_pos (by simpa using hlevel),
        List.filter_eq_self.mpr]
      intro x hx
      rw [decide_eq_true_eq]
      exact (lt_of_mem_climb hx).trans hlevel
    · rw [if_neg hlevel]
      split_ifs
      · rw [List.filter_cons_of_neg (by simpa using hlevel)]
        exact ih (Nat.le_of_not_lt hlevel)
      · exact ih h

/-- **The stack of a reader** is the headings that enclose the place where it is. -/
theorem foldl_push (headings : List (ℕ × T)) : headings.foldl push [] = enclosing headings := by
  induction headings using List.reverseRecOn with
  | nil => rfl
  | append_singleton headings heading ih =>
    rw [List.foldl_append, List.foldl_cons, List.foldl_nil, ih, push, enclosing, enclosing, List.reverse_append]
    cases hreverse : headings.reverse with
    | nil => rfl
    | cons last earlier =>
      show ((last :: climb last.1 earlier).reverse).filter _ ++ [heading] =
        (heading :: climb heading.1 (last :: earlier)).reverse
      have hstep : (last :: climb last.1 earlier).filter (fun h => h.1 < heading.1) = climb heading.1 (last :: earlier) := by
        have hall : climb (max heading.1 (last.1 + 1)) (last :: earlier) = last :: climb last.1 earlier := by
          rw [climb, if_pos (by omega)]
        rw [← hall]
        exact filter_climb (le_max_left _ _) _
      rw [List.filter_reverse, hstep, List.reverse_cons]

end Persona.Lib.Outline
