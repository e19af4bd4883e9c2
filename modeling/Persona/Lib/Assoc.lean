import Mathlib.Data.List.Nodup

/-!
# Lists of entries

Entries are pairs of a key and what it stands for. Entries of one list can take the place of
those of another with the same keys (`override`), and come after it under new keys (`missing`).
-/

namespace Persona.Lib.Assoc

variable {K R : Type*}

theorem mem_keys_of_mem {xs : List (K × R)} {k : K} {v : R} (h : (k, v) ∈ xs) : k ∈ xs.map Prod.fst := List.mem_map_of_mem h

theorem eq_of_mem {xs : List (K × R)} (hnodup : (xs.map Prod.fst).Nodup) {k : K} {v w : R} (h : (k, v) ∈ xs)
    (h' : (k, w) ∈ xs) : v = w :=
  (Prod.mk.inj (List.inj_on_of_nodup_map hnodup h h' rfl)).2

variable [BEq K]

/-- The entries, with what the new ones say of their keys. -/
def override (new old : List (K × R)) : List (K × R) := old.map fun x => (x.1, (new.lookup x.1).getD x.2)

/-- The entries without a key. -/
def without (k : K) (xs : List (K × R)) : List (K × R) := xs.filter fun x => x.1 != k

variable {xs new old : List (K × R)} {k k' : K} {v : R}

theorem map_fst_override : (override new old).map Prod.fst = old.map Prod.fst := by
  rw [override, List.map_map]
  rfl

theorem override_cons {x : K × R} : override new (x :: old) = (x.1, (new.lookup x.1).getD x.2) :: override new old := rfl

/-- What takes the place of an entry. -/
theorem override_cons_of_lookup {x : K × R} (h : new.lookup x.1 = some v) :
    override new (x :: old) = (x.1, v) :: override new old := by rw [override_cons, h, Option.getD_some]

theorem nodup_without (h : (xs.map Prod.fst).Nodup) : ((without k xs).map Prod.fst).Nodup :=
  h.sublist (List.filter_sublist.map _)

variable [LawfulBEq K]

/-- The new entries with no key of the old. -/
def missing (new old : List (K × R)) : List (K × R) := new.filter fun x => x.1 ∉ old.map Prod.fst

theorem mem_of_lookup (h : xs.lookup k = some v) : (k, v) ∈ xs := by
  obtain ⟨before, after, rfl, -⟩ := List.lookup_eq_some_iff.mp h
  simp

theorem lookup_eq_none_iff : xs.lookup k = none ↔ k ∉ xs.map Prod.fst := by
  rw [List.lookup_eq_none_iff]
  simp only [List.mem_map, not_exists, not_and, bne_iff_ne, ne_eq]
  exact ⟨fun h x hx heq => h x hx heq.symm, fun h x hx heq => h x hx heq.symm⟩

theorem lookup_eq_some_iff (hnodup : (xs.map Prod.fst).Nodup) : xs.lookup k = some v ↔ (k, v) ∈ xs := by
  refine ⟨mem_of_lookup, fun h => ?_⟩
  cases hlookup : xs.lookup k with
  | none => exact absurd (mem_keys_of_mem h) (lookup_eq_none_iff.mp hlookup)
  | some w => rw [eq_of_mem hnodup h (mem_of_lookup hlookup)]

/-! ### Entries without a key -/

theorem mem_without {x : K × R} : x ∈ without k xs ↔ x ∈ xs ∧ x.1 ≠ k := by simp [without]

theorem mem_keys_without : k' ∈ (without k xs).map Prod.fst ↔ k' ∈ xs.map Prod.fst ∧ k' ≠ k := by
  simp only [List.mem_map, mem_without]
  constructor
  · rintro ⟨x, ⟨hx, hne⟩, rfl⟩
    exact ⟨⟨x, hx, rfl⟩, hne⟩
  · rintro ⟨⟨x, hx, rfl⟩, hne⟩
    exact ⟨x, ⟨hx, hne⟩, rfl⟩

theorem lookup_without (hne : k' ≠ k) : (without k xs).lookup k' = xs.lookup k' := by
  induction xs with
  | nil => rfl
  | cons x xs ih =>
    rw [without] at ih ⊢
    by_cases hx : x.1 = k
    · have hkey : (k' == x.1) = false := by simpa [hx] using hne
      rw [List.filter_cons_of_neg (by simpa using hx), ih, List.lookup_cons, hkey]
    · rw [List.filter_cons_of_pos (by simpa using hx), List.lookup_cons, List.lookup_cons, ih]

/-! ### New entries -/

theorem missing_nil : missing new ([] : List (K × R)) = new := by simp [missing]

theorem override_cons_of_notMem {x : K × R} (h : x.1 ∉ new.map Prod.fst) :
    override new (x :: old) = x :: override new old := by
  rw [override_cons, lookup_eq_none_iff.mpr h, Option.getD_none]

/-- The key of an entry before is not used again. -/
theorem override_without (h : k ∉ old.map Prod.fst) : override (without k new) old = override new old := by
  apply List.map_congr_left
  intro x hx
  have hne : x.1 ≠ k := by
    rintro rfl
    exact h (List.mem_map_of_mem hx)
  rw [lookup_without hne]

theorem missing_without : missing (without k new) old = missing new ((k, v) :: old) := by
  rw [missing, missing, without, List.filter_filter]
  apply List.filter_congr
  intro x hx
  by_cases hne : x.1 = k
  · simp [hne]
  · have hkey : (x.1 != k) = true := by simpa using hne
    simp [hne, hkey]

theorem missing_cons_of_notMem {x : K × R} (h : x.1 ∉ new.map Prod.fst) : missing new (x :: old) = missing new old := by
  apply List.filter_congr
  intro y hy
  have hne : y.1 ≠ x.1 := by
    intro heq
    exact h (heq ▸ List.mem_map_of_mem hy)
  simp [hne]

/-- **The entries together** are the new ones, and the old ones of other keys. -/
theorem mem_override_append_missing (hnodup : (new.map Prod.fst).Nodup) :
    (k, v) ∈ override new old ++ missing new old ↔ if k ∈ new.map Prod.fst then (k, v) ∈ new else (k, v) ∈ old := by
  have hoverride : (k, v) ∈ override new old ↔ ∃ w, (k, w) ∈ old ∧ (new.lookup k).getD w = v := by
    rw [override, List.mem_map]
    constructor
    · rintro ⟨x, hx, heq⟩
      obtain ⟨rfl, hv⟩ := Prod.mk.inj heq
      exact ⟨x.2, hx, hv⟩
    · rintro ⟨w, hw, rfl⟩
      exact ⟨(k, w), hw, rfl⟩
  have hmissing : (k, v) ∈ missing new old ↔ (k, v) ∈ new ∧ k ∉ old.map Prod.fst := by
    rw [missing, List.mem_filter, decide_eq_true_eq]
  rw [List.mem_append, hoverride, hmissing]
  split_ifs with hk
  · obtain ⟨⟨k', v'⟩, hv', rfl⟩ := List.mem_map.mp hk
    simp only [(lookup_eq_some_iff hnodup).mpr hv', Option.getD_some]
    constructor
    · rintro (⟨w, -, rfl⟩ | ⟨hv, -⟩)
      · exact hv'
      · exact hv
    · intro hv
      by_cases hold : k' ∈ old.map Prod.fst
      · obtain ⟨⟨k'', w⟩, hw, rfl⟩ := List.mem_map.mp hold
        exact .inl ⟨w, hw, eq_of_mem hnodup hv' hv⟩
      · exact .inr ⟨hv, hold⟩
  · rw [lookup_eq_none_iff.mpr hk]
    constructor
    · rintro (⟨w, hw, rfl⟩ | ⟨hv, -⟩)
      · exact hw
      · exact absurd (mem_keys_of_mem hv) hk
    · exact fun hv => .inl ⟨v, hv, rfl⟩

theorem nodup_override_append_missing (hnew : (new.map Prod.fst).Nodup) (hold : (old.map Prod.fst).Nodup) :
    ((override new old ++ missing new old).map Prod.fst).Nodup := by
  rw [List.map_append, map_fst_override, List.nodup_append']
  refine ⟨hold, hnew.sublist (List.filter_sublist.map _), fun k hk hmem => ?_⟩
  obtain ⟨x, hx, rfl⟩ := List.mem_map.mp hmem
  rw [missing, List.mem_filter, decide_eq_true_eq] at hx
  exact hx.2 hk

end Persona.Lib.Assoc
