import Mathlib.Data.List.Nodup
import Mathlib.Data.List.Sort

/-!
# What comes first in a list

Of two different items of a list without repetitions one stands before the other. A stable sort of two
such lists leaves two items in one order, if the lists have them in one order (`precedes_sorted`).
-/

namespace Persona.Lib

variable {α β : Type*} {x y z : α} {l m : List α}

/-- The one item stands before the other. -/
def Precedes (l : List α) (x y : α) : Prop := [x, y].Sublist l

theorem precedes_cons : Precedes (z :: l) x y ↔ x = z ∧ y ∈ l ∨ Precedes l x y := by
  constructor
  · intro h
    cases h with
    | cons _ h => exact .inr h
    | cons_cons _ h => exact .inl ⟨rfl, List.singleton_sublist.mp h⟩
  · rintro (⟨rfl, hy⟩ | h)
    · exact .cons_cons _ (List.singleton_sublist.mpr hy)
    · exact .cons _ h

theorem Precedes.mono (h : Precedes l x y) (hsub : l.Sublist m) : Precedes m x y := h.trans hsub

theorem Precedes.left_mem (h : Precedes l x y) : x ∈ l := h.subset List.mem_cons_self

theorem Precedes.right_mem (h : Precedes l x y) : y ∈ l := h.subset (List.mem_cons_of_mem _ List.mem_cons_self)

theorem precedes_or (hx : x ∈ l) (hy : y ∈ l) (hne : x ≠ y) : Precedes l x y ∨ Precedes l y x := by
  induction l with
  | nil => cases hx
  | cons z l ih =>
    rw [precedes_cons, precedes_cons]
    rcases List.mem_cons.mp hx with rfl | hx
    · exact .inl (.inl ⟨rfl, (List.mem_cons.mp hy).resolve_left (Ne.symm hne)⟩)
    · rcases List.mem_cons.mp hy with heq | hy
      · exact .inr (.inl ⟨heq, hx⟩)
      · exact (ih hx hy).imp .inr .inr

theorem Precedes.asymm (hnodup : l.Nodup) (h : Precedes l x y) : ¬ Precedes l y x := by
  induction l with
  | nil => cases h
  | cons z l ih =>
    obtain ⟨hz, hrest⟩ := List.nodup_cons.mp hnodup
    intro h'
    rcases precedes_cons.mp h with ⟨rfl, hy⟩ | h
    · rcases precedes_cons.mp h' with ⟨rfl, -⟩ | h'
      · exact hz hy
      · exact hz h'.right_mem
    · rcases precedes_cons.mp h' with ⟨heq, -⟩ | h'
      · exact hz (heq ▸ h.right_mem)
      · exact ih hrest h h'

theorem Precedes.map (f : α → β) (h : Precedes l x y) : Precedes (l.map f) (f x) (f y) := List.Sublist.map f h

theorem precedes_map {f : α → β} {a b : β} : Precedes (l.map f) a b ↔ ∃ x y, f x = a ∧ f y = b ∧ Precedes l x y := by
  constructor
  · intro h
    induction l with
    | nil => cases h
    | cons z l ih =>
      rcases precedes_cons.mp h with ⟨rfl, hb⟩ | h
      · obtain ⟨y, hy, rfl⟩ := List.mem_map.mp hb
        exact ⟨z, y, rfl, rfl, precedes_cons.mpr (.inl ⟨rfl, hy⟩)⟩
      · obtain ⟨x, y, hx, hy, hxy⟩ := ih h
        exact ⟨x, y, hx, hy, precedes_cons.mpr (.inr hxy)⟩
  · rintro ⟨x, y, rfl, rfl, h⟩
    exact h.map f

section Sorted

variable {r : α → α → Prop} [DecidableRel r] [Std.Total r] [IsTrans α r]

/-- Sorting leaves two items in the order they had in another list, if the two lists agree on it. -/
theorem precedes_sorted (hl : l.Nodup) (hm : m.Nodup) (hx : x ∈ m) (hy : y ∈ m)
    (hkeep : Precedes l x y → Precedes m x y) (h : Precedes (l.insertionSort r) x y) :
    Precedes (m.insertionSort r) x y := by
  have hls : (l.insertionSort r).Nodup := (List.perm_insertionSort r l).nodup_iff.mpr hl
  have hms : (m.insertionSort r).Nodup := (List.perm_insertionSort r m).nodup_iff.mpr hm
  have hrxy : r x y := List.pairwise_iff_forall_sublist.mp (List.pairwise_insertionSort r l) h
  have hne : x ≠ y := by
    rintro rfl
    exact h.asymm hls h
  by_cases hryx : r y x
  · -- what ties keeps the order it had
    have hlxy : Precedes l x y := by
      refine (precedes_or ((List.mem_insertionSort r).mp h.left_mem) ((List.mem_insertionSort r).mp h.right_mem) hne).resolve_right
        fun hlyx => h.asymm hls ?_
      exact List.pair_sublist_insertionSort hryx hlyx
    exact List.pair_sublist_insertionSort hrxy (hkeep hlxy)
  · refine (precedes_or ((List.mem_insertionSort r).mpr hx) ((List.mem_insertionSort r).mpr hy) hne).resolve_right
      fun hmyx => hryx ?_
    exact List.pairwise_iff_forall_sublist.mp (List.pairwise_insertionSort r m) hmyx

end Sorted

end Persona.Lib
