import Mathlib.Data.List.Sort

/-!
# The best of a list

Two ways to find an item with the greatest key: a loop that keeps the first such item (`scan`), and
the first item after sorting from the greatest key on (`ranked`). Where no two items share a key,
the order of the list does not matter.
-/

namespace Persona.Lib.Best

variable {α κ : Type*} [LinearOrder κ] (key : α → κ)

/-- The item with the greatest key, `best` being the one that is kept so far. -/
def scan (best : Option α) : List α → Option α
  | [] => best
  | x :: xs => scan (if best.all fun b => key b < key x then some x else best) xs

/-- The list from the greatest key on. -/
def ranked (xs : List α) : List α := xs.insertionSort fun x y => key y ≤ key x

/-- An item that no other one beats. -/
structure IsBest (xs : List α) (x : α) : Prop where
  mem : x ∈ xs
  le : ∀ y ∈ xs, key y ≤ key x

variable {key} {best : Option α} {xs ys : List α} {x y : α}

theorem scan_eq_none : scan key best xs = none ↔ best = none ∧ xs = [] := by
  induction xs generalizing best with
  | nil => simp [scan]
  | cons x xs ih =>
    rw [scan, ih]
    split_ifs with h
    · simp
    · have hsome : best ≠ none := by
        rintro rfl
        exact h rfl
      simp [hsome]

/-- What the loop keeps is the best of what it has seen. -/
theorem isBest_of_scan (h : scan key best xs = some x) : IsBest key (best.toList ++ xs) x := by
  induction xs generalizing best with
  | nil =>
    obtain rfl : best = some x := h
    exact ⟨by simp, by simp⟩
  | cons z xs ih =>
    rw [scan] at h
    split_ifs at h with hz
    · obtain ⟨hmem, hle⟩ := ih h
      have hzx : key z ≤ key x := hle z (by simp)
      refine ⟨List.mem_append_right _ (by simpa using hmem), fun y hy => ?_⟩
      rcases List.mem_append.mp hy with hy | hy
      · rw [Option.mem_toList.mp hy] at hz
        have hyz : key y < key z := by simpa using hz
        exact hyz.le.trans hzx
      · exact hle y (by simpa using hy)
    · obtain ⟨hmem, hle⟩ := ih h
      obtain ⟨b, rfl⟩ : ∃ b, best = some b := Option.ne_none_iff_exists'.mp fun hnone => hz (hnone ▸ rfl)
      have hzb : key z ≤ key b := by simpa using hz
      have hbx : key b ≤ key x := hle b (by simp)
      refine ⟨List.mem_append.mpr ((List.mem_append.mp hmem).imp_right (List.mem_cons_of_mem z)), fun y hy => ?_⟩
      rcases List.mem_append.mp hy with hy | hy
      · exact hle y (List.mem_append_left _ hy)
      · rcases List.mem_cons.mp hy with rfl | hy
        · exact hzb.trans hbx
        · exact hle y (List.mem_append_right _ hy)

theorem head?_ranked_eq_none : (ranked key xs).head? = none ↔ xs = [] := by
  rw [List.head?_eq_none_iff, ranked, ← List.length_eq_zero_iff, List.length_insertionSort, List.length_eq_zero_iff]

theorem isBest_of_head? (h : (ranked key xs).head? = some x) : IsBest key xs x := by
  have : Std.Total fun x y => key y ≤ key x := ⟨fun x y => le_total (key y) (key x)⟩
  have : IsTrans α fun x y => key y ≤ key x := ⟨fun _ _ _ hxy hyz => hyz.trans hxy⟩
  have hsorted : (ranked key xs).Pairwise fun x y => key y ≤ key x := List.pairwise_insertionSort _ xs
  obtain ⟨tail, htail⟩ : ∃ tail, ranked key xs = x :: tail := List.head?_eq_some_iff.mp h
  have hmem : ∀ y, y ∈ xs ↔ y = x ∨ y ∈ tail := by
    intro y
    rw [← List.mem_insertionSort (fun x y => key y ≤ key x), ← ranked, htail, List.mem_cons]
  rw [htail, List.pairwise_cons] at hsorted
  refine ⟨(hmem x).mpr (.inl rfl), fun y hy => ?_⟩
  rcases (hmem y).mp hy with rfl | hy
  · exact le_rfl
  · exact hsorted.1 y hy

/-- Items with different keys have one best at most. -/
theorem IsBest.unique (hx : IsBest key xs x) (hy : IsBest key xs y) (hinj : ∀ a ∈ xs, ∀ b ∈ xs, key a = key b → a = b) :
    x = y := hinj x hx.mem y hy.mem (le_antisymm (hy.le x hx.mem) (hx.le y hy.mem))

theorem IsBest.perm (h : IsBest key xs x) (hperm : xs.Perm ys) : IsBest key ys x :=
  ⟨hperm.mem_iff.mp h.mem, fun y hy => h.le y (hperm.mem_iff.mpr hy)⟩

/-- The first item does not depend on the order of the list. -/
theorem head?_ranked_perm (hperm : xs.Perm ys) (hinj : ∀ a ∈ xs, ∀ b ∈ xs, key a = key b → a = b) :
    (ranked key xs).head? = (ranked key ys).head? := by
  cases hx : (ranked key xs).head? with
  | none =>
    rw [head?_ranked_eq_none] at hx
    subst hx
    rw [List.nil_perm.mp hperm]
    rfl
  | some x =>
    cases hy : (ranked key ys).head? with
    | none =>
      rw [head?_ranked_eq_none] at hy
      subst hy
      rw [List.perm_nil.mp hperm] at hx
      cases hx
    | some y => rw [(isBest_of_head? hx).unique ((isBest_of_head? hy).perm hperm.symm) hinj]

end Persona.Lib.Best
