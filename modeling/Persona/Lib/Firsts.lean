import Mathlib.Data.Finset.Card
import Mathlib.Data.List.Nodup

/-!
# First occurrences

`firsts key seen l` is what a loop over `l` collects that takes each item whose key it has not met before:
the items whose keys are not in `seen`, one for each key. An item that is collected is the first of the list
with its key (`find?_firsts`), the order is that of the first occurrences (`pairwise_findIdx_firsts`), and
`mem_take_firsts` says what is among the first `n`. What was collected already changes nothing when it is met
again (`firsts_again`, `take_firsts_again`).
-/

namespace Persona.Lib

variable {α κ : Type*} [DecidableEq κ] {key : α → κ} {seen : List κ} {l : List α} {x : α}

/-- The items with a new key. -/
def firsts (key : α → κ) (seen : List κ) : List α → List α
  | [] => []
  | a :: l => if key a ∈ seen then firsts key seen l else a :: firsts key (key a :: seen) l

@[simp]
theorem firsts_nil : firsts key seen [] = [] := rfl

theorem firsts_cons (a : α) (l : List α) :
    firsts key seen (a :: l) = if key a ∈ seen then firsts key seen l else a :: firsts key (key a :: seen) l := rfl

theorem key_notMem_of_mem_firsts (h : x ∈ firsts key seen l) : key x ∉ seen := by
  induction l generalizing seen with
  | nil => cases h
  | cons a l ih =>
    rw [firsts_cons] at h
    split_ifs at h with ha
    · exact ih h
    · rcases List.mem_cons.mp h with rfl | h
      · exact ha
      · exact fun hx => ih h (List.mem_cons_of_mem _ hx)

/-- What is its own key is collected if it is new. -/
theorem mem_firsts_id {seen l : List κ} {x : κ} : x ∈ firsts id seen l ↔ x ∈ l ∧ x ∉ seen := by
  induction l generalizing seen with
  | nil => simp
  | cons a l ih =>
    rw [firsts_cons, id_eq]
    split_ifs with ha
    · rw [ih, List.mem_cons]
      refine ⟨fun h => ⟨Or.inr h.1, h.2⟩, fun h => ⟨h.1.resolve_left ?_, h.2⟩⟩
      rintro rfl
      exact h.2 ha
    · rw [List.mem_cons, ih, List.mem_cons, List.mem_cons]
      by_cases hx : x = a
      · simp [hx, ha]
      · simp [hx]

/-- One item again and again is collected once, or not at all. -/
theorem firsts_replicate (seen : List κ) (n : ℕ) (a : α) :
    firsts key seen (List.replicate n a) = [] ∨ firsts key seen (List.replicate n a) = [a] := by
  induction n generalizing seen with
  | zero => exact .inl rfl
  | succ n ih =>
    rw [List.replicate_succ, firsts_cons]
    split_ifs with ha
    · exact ih seen
    · right
      rcases ih (key a :: seen) with h | h
      · rw [h]
      · have hmem : a ∈ firsts key (key a :: seen) (List.replicate n a) := by rw [h]; exact List.mem_singleton_self a
        exact absurd List.mem_cons_self (key_notMem_of_mem_firsts hmem)

theorem nodup_firsts : ((firsts key seen l).map key).Nodup := by
  induction l generalizing seen with
  | nil => exact .nil
  | cons a l ih =>
    rw [firsts_cons]
    split_ifs with ha
    · exact ih
    · rw [List.map_cons, List.nodup_cons]
      refine ⟨fun hmem => ?_, ih⟩
      obtain ⟨x, hx, hkey⟩ := List.mem_map.mp hmem
      exact key_notMem_of_mem_firsts hx (hkey ▸ List.mem_cons_self)

/-- An item that is collected is the first with its key. -/
theorem find?_firsts (h : x ∈ firsts key seen l) : (l.find? fun a => key a = key x) = some x := by
  induction l generalizing seen with
  | nil => cases h
  | cons a l ih =>
    have hnot := key_notMem_of_mem_firsts h
    rw [firsts_cons] at h
    split_ifs at h with ha
    · have hne : key a ≠ key x := fun heq => hnot (heq ▸ ha)
      rw [List.find?_cons_of_neg (by simpa using hne)]
      exact ih h
    · rcases List.mem_cons.mp h with rfl | h
      · exact List.find?_cons_of_pos (by simp)
      · have hne : key a ≠ key x := fun heq => key_notMem_of_mem_firsts h (heq ▸ List.mem_cons_self)
        rw [List.find?_cons_of_neg (by simpa using hne)]
        exact ih h

/-- The items stand in the order in which their keys first occur. -/
theorem pairwise_findIdx_firsts : (firsts key seen l).Pairwise fun x y =>
    (l.findIdx fun a => key a = key x) < l.findIdx fun a => key a = key y := by
  induction l generalizing seen with
  | nil => exact .nil
  | cons a l ih =>
    -- an item with another key than the first one is found one place later
    have hshift : ∀ seen', key a ∈ seen' → (firsts key seen' l).Pairwise fun x y =>
        ((a :: l).findIdx fun b => key b = key x) < (a :: l).findIdx fun b => key b = key y := by
      intro seen' ha
      refine ih.imp_of_mem fun {x y} hx hy hlt => ?_
      have hne : ∀ z ∈ firsts key seen' l, decide (key a = key z) = false := fun z hz =>
        decide_eq_false fun heq => key_notMem_of_mem_firsts hz (heq ▸ ha)
      simpa only [List.findIdx_cons, hne x hx, hne y hy, cond_false, Nat.add_lt_add_iff_right] using hlt
    rw [firsts_cons]
    split_ifs with ha
    · exact hshift seen ha
    · refine List.pairwise_cons.mpr ⟨fun y hy => ?_, hshift _ List.mem_cons_self⟩
      have hne : key a ≠ key y := fun heq => key_notMem_of_mem_firsts hy (heq ▸ List.mem_cons_self)
      simp [List.findIdx_cons, hne]

/-- **The first `n`**: an item is among them exactly where its key is new, and fewer than `n` others were
met before. -/
theorem mem_take_firsts {n : ℕ} : x ∈ (firsts key seen l).take n ↔ ∃ pre post, l = pre ++ x :: post ∧
    key x ∉ seen ∧ key x ∉ pre.map key ∧ ((pre.map key).toFinset \ seen.toFinset).card < n := by
  induction l generalizing seen n with
  | nil => simp
  | cons a l ih =>
    rw [firsts_cons]
    split_ifs with ha
    · rw [ih]
      constructor
      · rintro ⟨pre, post, rfl, hseen, hpre, hcard⟩
        have hne : key x ≠ key a := fun heq => hseen (heq ▸ ha)
        refine ⟨a :: pre, post, rfl, hseen, by simpa [hne] using hpre, ?_⟩
        rwa [List.map_cons, List.toFinset_cons, Finset.insert_sdiff_of_mem _ (List.mem_toFinset.mpr ha)]
      · rintro ⟨pre, post, hl, hseen, hpre, hcard⟩
        cases pre with
        | nil =>
          obtain ⟨rfl, -⟩ := List.cons.inj hl
          exact absurd ha hseen
        | cons b pre =>
          obtain ⟨rfl, rfl⟩ := List.cons.inj hl
          rw [List.map_cons, List.toFinset_cons, Finset.insert_sdiff_of_mem _ (List.mem_toFinset.mpr ha)] at hcard
          exact ⟨pre, post, rfl, hseen, fun hx => hpre (List.mem_cons_of_mem _ hx), hcard⟩
    · -- one more was met once `a` is taken
      have hcount : ∀ pre : List α, (((a :: pre).map key).toFinset \ seen.toFinset).card =
          ((pre.map key).toFinset \ (key a :: seen).toFinset).card + 1 := by
        intro pre
        have hsplit : ((a :: pre).map key).toFinset \ seen.toFinset =
            insert (key a) ((pre.map key).toFinset \ (key a :: seen).toFinset) := by
          ext k
          by_cases hk : k = key a
          · simp [hk, ha]
          · simp [hk]
        rw [hsplit, Finset.card_insert_of_notMem (by simp)]
      cases n with
      | zero => simp
      | succ n =>
        rw [List.take_succ_cons, List.mem_cons, ih]
        constructor
        · rintro (rfl | ⟨pre, post, rfl, hseen, hpre, hcard⟩)
          · exact ⟨[], l, rfl, ha, by simp, by simp⟩
          · rw [List.mem_cons, not_or] at hseen
            refine ⟨a :: pre, post, rfl, hseen.2, by simpa [hseen.1] using hpre, ?_⟩
            rw [hcount]
            exact Nat.succ_lt_succ hcard
        · rintro ⟨pre, post, hl, hseen, hpre, hcard⟩
          cases pre with
          | nil => exact .inl (List.cons.inj hl).1.symm
          | cons b pre =>
            obtain ⟨rfl, rfl⟩ := List.cons.inj hl
            rw [List.map_cons, List.mem_cons, not_or] at hpre
            rw [hcount] at hcard
            exact .inr ⟨pre, post, rfl, by simp [hpre.1, hseen], hpre.2, Nat.lt_of_succ_lt_succ hcard⟩

/-! ### Meeting them again -/

/-- Items with new keys, no two the same, are all collected. -/
theorem firsts_eq_self (hnew : ∀ a ∈ l, key a ∉ seen) (hnodup : (l.map key).Nodup) : firsts key seen l = l := by
  induction l generalizing seen with
  | nil => rfl
  | cons a l ih =>
    obtain ⟨ha, hl⟩ := List.forall_mem_cons.mp hnew
    rw [List.map_cons, List.nodup_cons] at hnodup
    rw [firsts_cons, if_neg ha, ih (fun b hb => ?_) hnodup.2]
    rw [List.mem_cons, not_or]
    exact ⟨fun heq => hnodup.1 (heq ▸ List.mem_map_of_mem hb), hl b hb⟩

/-- An item with a known key can be left out. -/
theorem firsts_skip (hx : key x ∈ seen) (l m : List α) : firsts key seen (l ++ x :: m) = firsts key seen (l ++ m) := by
  induction l generalizing seen with
  | nil => rw [List.nil_append, List.nil_append, firsts_cons, if_pos hx]
  | cons a l ih =>
    rw [List.cons_append, List.cons_append, firsts_cons, firsts_cons, ih hx, ih (List.mem_cons_of_mem _ hx)]

variable (seen) in
/-- What is collected of the rest depends on what was met before it. -/
theorem firsts_append (l m : List α) : ∃ seen', firsts key seen (l ++ m) = firsts key seen l ++ firsts key seen' m := by
  induction l generalizing seen with
  | nil => exact ⟨seen, rfl⟩
  | cons a l ih =>
    rw [List.cons_append, firsts_cons, firsts_cons]
    split_ifs with ha
    · exact ih seen
    · obtain ⟨seen', h⟩ := ih (key a :: seen)
      exact ⟨seen', by rw [h, List.cons_append]⟩

variable (seen) in
/-- What was collected is collected again, and nothing else of it. -/
theorem firsts_again (g o p : List α) :
    firsts key seen (g ++ (firsts key seen (g ++ o) ++ p)) = firsts key seen (g ++ o ++ p) := by
  induction g generalizing seen with
  | nil =>
    rw [List.nil_append, List.nil_append]
    induction o generalizing seen with
    | nil => rfl
    | cons a o ih =>
      rw [List.cons_append, firsts_cons, firsts_cons]
      split_ifs with ha
      · exact ih seen
      · rw [List.cons_append, firsts_cons, if_neg ha, ih]
  | cons a g ih =>
    rw [List.cons_append, List.cons_append, List.cons_append, firsts_cons, firsts_cons, firsts_cons]
    split_ifs with ha
    · exact ih seen
    · rw [List.cons_append, firsts_skip List.mem_cons_self, ih]

variable (seen) in
/-- The first `n` that were collected are the first `n` again. -/
theorem take_firsts_again (n : ℕ) (g o : List α) :
    (firsts key seen (g ++ (firsts key seen (g ++ o)).take n)).take n = (firsts key seen (g ++ o)).take n := by
  induction g generalizing seen n with
  | nil =>
    have hsub : ((firsts key seen o).take n).Sublist (firsts key seen o) := List.take_sublist n _
    have hnew : ∀ a ∈ (firsts key seen o).take n, key a ∉ seen := fun a ha => key_notMem_of_mem_firsts (hsub.subset ha)
    rw [List.nil_append, List.nil_append, firsts_eq_self hnew (nodup_firsts.sublist (hsub.map key)), List.take_take, min_self]
  | cons a g ih =>
    rw [List.cons_append, List.cons_append, firsts_cons, firsts_cons]
    split_ifs with ha
    · exact ih seen n
    · cases n with
      | zero => rfl
      | succ n => rw [List.take_succ_cons, List.take_succ_cons, firsts_skip List.mem_cons_self, ih]

end Persona.Lib
