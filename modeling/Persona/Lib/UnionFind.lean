import Mathlib.Data.Finset.Card
import Mathlib.Data.List.Induction
import Mathlib.Logic.Function.Iterate
import Mathlib.Logic.Relation

/-!
# Union-find with path halving

A forest on the numbers below `n` is a function `p` that gives each its parent; a root
is its own parent. `find` climbs to the root and on the way lets each second node point
to its grandparent; `union` links one root below the other, whichever it is.

What a forest is about is the relation `Leads p x r`: `x` climbs to the root `r`.
`find` returns the root and changes nothing of it (`find_spec`), with `n` steps for its
loop, since the nodes on a way up are distinct; `union` moves those who led to the one
root to the other (`union_spec`).
-/

namespace Persona.Lib.UnionFind

/-- The climb to the root, `fuel` steps at most: the changed forest, and the node
reached. -/
def find : ℕ → (ℕ → ℕ) → ℕ → (ℕ → ℕ) × ℕ
  | 0, p, x => (p, x)
  | fuel + 1, p, x =>
    if p x = x then (p, x)
    else find fuel (Function.update p x (p (p x))) (p (p x))

/-- The root of `a` is linked below the root of `b`. -/
def union (n : ℕ) (p : ℕ → ℕ) (a b : ℕ) : ℕ → ℕ :=
  let (p, ra) := find n p a
  let (p, rb) := find n p b
  if ra = rb then p else Function.update p ra rb

/-- `x` climbs to the root `r`. -/
inductive Leads (p : ℕ → ℕ) : ℕ → ℕ → Prop
  | root {r : ℕ} (h : p r = r) : Leads p r r
  | up {x r : ℕ} (h : Leads p (p x) r) : Leads p x r

variable {n : ℕ} {p q : ℕ → ℕ} {x y r s : ℕ}

theorem Leads.is_root (h : Leads p x r) : p r = r := by
  induction h with
  | root h => exact h
  | up _ ih => exact ih

theorem Leads.parent (h : Leads p x r) : Leads p (p x) r := by
  cases h with
  | root h => rw [h]; exact .root h
  | up h => exact h

theorem Leads.eq_of_root (hx : p x = x) (h : Leads p x s) : s = x := by
  induction h with
  | root _ => rfl
  | up _ ih =>
    rw [hx] at ih
    exact ih hx

theorem Leads.unique (h : Leads p x r) (h' : Leads p x s) : r = s := by
  induction h with
  | root h => exact (h'.eq_of_root h).symm
  | up _ ih => exact ih h'.parent

/-- Every node leads to a root, and nodes below `n` have their parents below `n`. -/
structure Forest (n : ℕ) (p : ℕ → ℕ) : Prop where
  leads : ∀ x, ∃ r, Leads p x r
  lt : ∀ x < n, p x < n

theorem forest_id (n : ℕ) : Forest n id := ⟨fun x => ⟨x, .root rfl⟩, fun _ h => h⟩

/-! ### The length of a climb -/

/-- A node that leads to a root is on no cycle. -/
theorem Leads.not_cycle (h : Leads p x r) (hx : p x ≠ x) (k : ℕ) : p^[k] (p x) ≠ x := by
  induction h with
  | root h => exact absurd h hx
  | @up x r _ ih =>
    intro hk
    -- the parent would be on the cycle as well
    have hroot : p (p x) ≠ p x := by
      intro hroot
      rw [Function.iterate_fixed hroot] at hk
      exact hx hk
    refine ih hroot ?_
    rw [← Function.iterate_succ_apply, Function.iterate_succ_apply', hk]

open Classical in
/-- The nodes on the way up. -/
noncomputable def ancestors (n : ℕ) (p : ℕ → ℕ) (x : ℕ) : Finset ℕ :=
  (Finset.range n).filter fun y => ∃ k, p^[k] x = y

theorem mem_ancestors : y ∈ ancestors n p x ↔ y < n ∧ ∃ k, p^[k] x = y := by
  simp [ancestors]

theorem ancestors_parent_ssubset (h : Leads p x r) (hx : p x ≠ x) (hlt : x < n) :
    ancestors n p (p x) ⊂ ancestors n p x := by
  rw [Finset.ssubset_iff_of_subset]
  · refine ⟨x, mem_ancestors.mpr ⟨hlt, 0, rfl⟩, fun hmem => ?_⟩
    obtain ⟨-, k, hk⟩ := mem_ancestors.mp hmem
    exact h.not_cycle hx k hk
  · intro y hy
    obtain ⟨hlt, k, hk⟩ := mem_ancestors.mp hy
    exact mem_ancestors.mpr ⟨hlt, k + 1, hk⟩

theorem card_ancestors_le (n : ℕ) (p : ℕ → ℕ) (x : ℕ) : (ancestors n p x).card ≤ n := by
  have hsub : ancestors n p x ⊆ Finset.range n := fun y hy => Finset.mem_range.mpr (mem_ancestors.mp hy).1
  exact (Finset.card_le_card hsub).trans_eq (Finset.card_range n)

/-! ### Find -/

/-- The node `x` points to its grandparent. -/
def halve (p : ℕ → ℕ) (x : ℕ) : ℕ → ℕ := Function.update p x (p (p x))

theorem halve_self (p : ℕ → ℕ) (x : ℕ) : halve p x x = p (p x) := Function.update_self ..

theorem halve_of_ne (h : y ≠ x) : halve p x y = p y := Function.update_of_ne h ..

/-- That changes no root. -/
theorem leads_halve (hx : Leads p x s) : Leads (halve p x) y r ↔ Leads p y r := by
  constructor
  · intro h
    induction h with
    | @root r h =>
      by_cases hr : r = x
      · -- a node that is its own grandparent is a root
        subst hr
        rw [halve_self] at h
        by_contra hno
        exact hx.not_cycle (fun h' => hno (.root h')) 1 h
      · rw [halve_of_ne hr] at h
        exact .root h
    | @up y r _ ih =>
      by_cases hy : y = x
      · subst hy
        rw [halve_self] at ih
        exact .up (.up ih)
      · rw [halve_of_ne hy] at ih
        exact .up ih
  · intro h
    induction h with
    | @root r h =>
      refine .root ?_
      by_cases hr : r = x
      · subst hr
        rw [halve_self, h, h]
      · rw [halve_of_ne hr, h]
    | @up y r _ ih =>
      by_cases hy : y = x
      · subst hy
        by_cases hroot : p y = y
        · rw [hroot] at ih
          exact ih
        · have := ih.parent
          rw [halve_of_ne hroot] at this
          exact .up (by rwa [halve_self])
      · exact .up (by rwa [halve_of_ne hy])

theorem forest_halve (h : Forest n p) (hx : x < n) : Forest n (halve p x) := by
  obtain ⟨s, hs⟩ := h.leads x
  refine ⟨fun y => (h.leads y).imp fun r => (leads_halve hs).mpr, fun y hy => ?_⟩
  by_cases hyx : y = x
  · subst hyx
    rw [halve_self]
    exact h.lt _ (h.lt y hy)
  · rw [halve_of_ne hyx]
    exact h.lt y hy

/-- A climb with a shortcut passes no other nodes. -/
theorem ancestors_halve_subset : ancestors n (halve p x) y ⊆ ancestors n p y := by
  have hreach : ∀ k y, ∃ m, p^[m] y = (halve p x)^[k] y := by
    intro k
    induction k with
    | zero => exact fun y => ⟨0, rfl⟩
    | succ k ih =>
      intro y
      rw [Function.iterate_succ_apply]
      obtain ⟨m, hm⟩ := ih (halve p x y)
      rw [← hm]
      by_cases hy : y = x
      · subst hy
        rw [halve_self]
        exact ⟨m + 2, rfl⟩
      · rw [halve_of_ne hy]
        exact ⟨m + 1, rfl⟩
  intro z hz
  obtain ⟨hlt, k, hk⟩ := mem_ancestors.mp hz
  obtain ⟨m, hm⟩ := hreach k y
  exact mem_ancestors.mpr ⟨hlt, m, hm.trans hk⟩

/-- What `find` does: it returns the root, and changes no root. -/
structure Found (n : ℕ) (p : ℕ → ℕ) (x : ℕ) (res : (ℕ → ℕ) × ℕ) : Prop where
  forest : Forest n res.1
  lt : res.2 < n
  leads : Leads p x res.2
  same : ∀ y s, Leads res.1 y s ↔ Leads p y s

theorem found_of_card_le {fuel : ℕ} (h : Forest n p) (hx : x < n) (hfuel : (ancestors n p x).card ≤ fuel) :
    Found n p x (find fuel p x) := by
  induction fuel generalizing p x with
  | zero =>
    have hmem : x ∈ ancestors n p x := mem_ancestors.mpr ⟨hx, 0, rfl⟩
    rw [Nat.le_zero, Finset.card_eq_zero] at hfuel
    rw [hfuel] at hmem
    cases hmem
  | succ fuel ih =>
    rw [find]
    split_ifs with hroot
    · exact ⟨h, hx, .root hroot, fun y s => Iff.rfl⟩
    · obtain ⟨s, hs⟩ := h.leads x
      have hgrand : halve p x x ≠ x := by
        rw [halve_self]
        exact hs.not_cycle hroot 1
      -- the way from the grandparent is shorter
      have hshort : (ancestors n (halve p x) (p (p x))).card ≤ fuel := by
        have hlt := Finset.card_lt_card (ancestors_parent_ssubset ((leads_halve hs).mpr hs) hgrand hx)
        have hle := Finset.card_le_card (ancestors_halve_subset (n := n) (p := p) (x := x) (y := x))
        rw [halve_self] at hlt
        omega
      obtain ⟨hf, hlt, hleads, hsame⟩ := ih (forest_halve h hx) (h.lt _ (h.lt x hx)) hshort
      exact ⟨hf, hlt, .up (.up ((leads_halve hs).mp hleads)), fun y s => (hsame y s).trans (leads_halve hs)⟩

/-- **`find` returns the root**, and changes no root. -/
theorem find_spec (h : Forest n p) (hx : x < n) : Found n p x (find n p x) :=
  found_of_card_le h hx (card_ancestors_le n p x)

/-! ### Union -/

/-- Linking a root below another moves those who led to the one to the other. -/
theorem leads_link {ra rb : ℕ} (ha : p ra = ra) (hb : p rb = rb) (hne : ra ≠ rb) :
    Leads (Function.update p ra rb) y r ↔ Leads p y r ∧ r ≠ ra ∨ Leads p y ra ∧ r = rb := by
  have hself : Function.update p ra rb ra = rb := Function.update_self ..
  have hother : ∀ {z}, z ≠ ra → Function.update p ra rb z = p z := fun hz => Function.update_of_ne hz ..
  constructor
  · intro h
    induction h with
    | @root r h =>
      have hr : r ≠ ra := by
        rintro rfl
        exact hne (h.symm.trans hself)
      exact .inl ⟨.root (hother hr ▸ h), hr⟩
    | @up y r _ ih =>
      by_cases hy : y = ra
      · subst hy
        rw [hself] at ih
        rcases ih with ⟨h, -⟩ | ⟨h, -⟩
        · exact .inr ⟨.root ha, h.eq_of_root hb⟩
        · exact absurd (h.eq_of_root hb) hne
      · rw [hother hy] at ih
        exact ih.imp (And.imp_left .up) (And.imp_left .up)
  · have hlink : ∀ {y r}, Leads p y r → r = ra → Leads (Function.update p ra rb) y rb := by
      intro y r h hr
      have hrb : Leads (Function.update p ra rb) rb rb := .root ((hother (Ne.symm hne)).trans hb)
      induction h with
      | root _ => exact .up (by rwa [hr, hself])
      | @up y r _ ih =>
        by_cases hy : y = ra
        · exact .up (by rwa [hy, hself])
        · exact .up (by rw [hother hy]; exact ih hr)
    rintro (⟨h, hr⟩ | ⟨h, rfl⟩)
    · induction h with
      | root h => exact .root ((hother hr).trans h)
      | @up y r h ih =>
        have hy : y ≠ ra := by
          rintro rfl
          rw [ha] at h
          exact hr (h.eq_of_root ha)
        exact .up ((hother hy).symm ▸ ih hr)
    · exact hlink h rfl

/-- Two nodes lead to the same root. -/
def Same (p : ℕ → ℕ) (x y : ℕ) : Prop := ∃ r, Leads p x r ∧ Leads p y r

theorem Same.symm (h : Same p x y) : Same p y x := h.imp fun _ => And.symm

theorem Same.trans {z : ℕ} (h : Same p x y) (h' : Same p y z) : Same p x z := by
  obtain ⟨r, hx, hy⟩ := h
  obtain ⟨s, hy', hz⟩ := h'
  exact ⟨r, hx, hy.unique hy' ▸ hz⟩

theorem Forest.same_refl (h : Forest n p) (x : ℕ) : Same p x x := (h.leads x).imp fun _ h => ⟨h, h⟩

/-- Linking two roots joins their classes. -/
theorem same_link {a b ra rb : ℕ} (ha : Leads p a ra) (hb : Leads p b rb) (hne : ra ≠ rb) :
    Same (Function.update p ra rb) x y ↔
      Same p x y ∨ Same p x a ∧ Same p b y ∨ Same p x b ∧ Same p a y := by
  rw [Same]
  simp only [leads_link ha.is_root hb.is_root hne]
  constructor
  · rintro ⟨r, ⟨hx, -⟩ | ⟨hx, rfl⟩, ⟨hy, -⟩ | ⟨hy, hr⟩⟩
    · exact .inl ⟨r, hx, hy⟩
    · subst hr
      exact .inr (.inr ⟨⟨r, hx, hb⟩, ra, ha, hy⟩)
    · exact .inr (.inl ⟨⟨ra, hx, ha⟩, r, hb, hy⟩)
    · exact .inl ⟨ra, hx, hy⟩
  · rintro (⟨r, hx, hy⟩ | ⟨⟨r, hx, har⟩, s, hbs, hy⟩ | ⟨⟨s, hx, hbs⟩, r, har, hy⟩)
    · by_cases hr : r = ra
      · subst hr
        exact ⟨rb, .inr ⟨hx, rfl⟩, .inr ⟨hy, rfl⟩⟩
      · exact ⟨r, .inl ⟨hx, hr⟩, .inl ⟨hy, hr⟩⟩
    · obtain rfl := har.unique ha
      obtain rfl := hbs.unique hb
      exact ⟨s, .inr ⟨hx, rfl⟩, .inl ⟨hy, Ne.symm hne⟩⟩
    · obtain rfl := har.unique ha
      obtain rfl := hbs.unique hb
      exact ⟨s, .inl ⟨hx, Ne.symm hne⟩, .inr ⟨hy, rfl⟩⟩

theorem forest_link {a b ra rb : ℕ} (h : Forest n p) (ha : Leads p a ra) (hb : Leads p b rb) (hne : ra ≠ rb)
    (hlt : rb < n) : Forest n (Function.update p ra rb) := by
  refine ⟨fun y => ?_, fun y hy => ?_⟩
  · obtain ⟨r, hr⟩ := h.leads y
    by_cases hra : r = ra
    · exact ⟨rb, (leads_link ha.is_root hb.is_root hne).mpr (.inr ⟨hra ▸ hr, rfl⟩)⟩
    · exact ⟨r, (leads_link ha.is_root hb.is_root hne).mpr (.inl ⟨hr, hra⟩)⟩
  · by_cases hyra : y = ra
    · rwa [hyra, Function.update_self]
    · rw [Function.update_of_ne hyra]
      exact h.lt y hy

/-- **`union` joins the two classes** and leaves the others. -/
theorem union_spec {a b : ℕ} (h : Forest n p) (ha : a < n) (hb : b < n) : Forest n (union n p a b) ∧
    ∀ x y, Same (union n p a b) x y ↔
      Same p x y ∨ Same p x a ∧ Same p b y ∨ Same p x b ∧ Same p a y := by
  have fa := find_spec h ha
  have fb := find_spec fa.forest hb
  have hsame : ∀ x y, Same (find n (find n p a).1 b).1 x y ↔ Same p x y := fun x y =>
    exists_congr fun r => and_congr ((fb.same x r).trans (fa.same x r)) ((fb.same y r).trans (fa.same y r))
  -- the roots of `a` and `b`, seen in the forest after both climbs
  have hra := ((fb.same _ _).trans (fa.same _ _)).mpr fa.leads
  have hrb := (fb.same _ _).mpr fb.leads
  simp only [union]
  split_ifs with heq
  · refine ⟨fb.forest, fun x y => (hsame x y).trans ⟨.inl, ?_⟩⟩
    have hab : Same p a b := (hsame a b).mp ⟨_, hra, heq ▸ hrb⟩
    rintro (hxy | ⟨hxa, hby⟩ | ⟨hxb, hay⟩)
    · exact hxy
    · exact (hxa.trans hab).trans hby
    · exact (hxb.trans hab.symm).trans hay
  · refine ⟨forest_link fb.forest hra hrb heq fb.lt, fun x y => ?_⟩
    rw [same_link hra hrb heq]
    simp only [hsame]

/-- The unions of a list of pairs. -/
def unions (n : ℕ) (p : ℕ → ℕ) (pairs : List (ℕ × ℕ)) : ℕ → ℕ := pairs.foldl (fun p ab => union n p ab.1 ab.2) p

/-- **The classes of the forest** are those that the pairs generate. -/
theorem unions_spec {pairs : List (ℕ × ℕ)} (hlt : ∀ ab ∈ pairs, ab.1 < n ∧ ab.2 < n) :
    Forest n (unions n id pairs) ∧
      ∀ x y, Same (unions n id pairs) x y ↔ Relation.EqvGen (fun a b => (a, b) ∈ pairs) x y := by
  induction pairs using List.reverseRecOn with
  | nil =>
    refine ⟨forest_id n, fun x y => ⟨?_, fun h => ?_⟩⟩
    · rintro ⟨r, hx, hy⟩
      obtain rfl := hx.eq_of_root rfl
      obtain rfl := hy.eq_of_root rfl
      exact .refl _
    · have hsub := Relation.EqvGen.mono (p := Eq) (fun _ _ hab => absurd hab List.not_mem_nil) _ _ h
      rw [eq_equivalence.eqvGen_eq] at hsub
      subst hsub
      exact (forest_id n).same_refl x
  | append_singleton pairs ab ih =>
    obtain ⟨hf, hsame⟩ := ih fun ab hab => hlt ab (List.mem_append_left _ hab)
    obtain ⟨ha, hb⟩ := hlt ab (List.mem_append_right _ (List.mem_singleton_self _))
    obtain ⟨hf', hunion⟩ := union_spec hf ha hb
    have hsnoc : unions n id (pairs ++ [ab]) = union n (unions n id pairs) ab.1 ab.2 := by
      rw [unions]
      rw [List.foldl_append]
      rfl
    rw [hsnoc]
    refine ⟨hf', fun x y => ⟨fun h => ?_, fun h => ?_⟩⟩
    · have hmono : ∀ {x y}, Same (unions n id pairs) x y → Relation.EqvGen (fun a b => (a, b) ∈ pairs ++ [ab]) x y :=
        fun h => Relation.EqvGen.mono (fun _ _ => List.mem_append_left _) _ _ ((hsame _ _).mp h)
      have hab : Relation.EqvGen (fun a b => (a, b) ∈ pairs ++ [ab]) ab.1 ab.2 :=
        .rel _ _ (List.mem_append_right _ (List.mem_singleton_self _))
      rcases (hunion x y).mp h with h | ⟨hxa, hby⟩ | ⟨hxb, hay⟩
      · exact hmono h
      · exact ((hmono hxa).trans _ _ _ hab).trans _ _ _ (hmono hby)
      · exact ((hmono hxb).trans _ _ _ (hab.symm _ _)).trans _ _ _ (hmono hay)
    · induction h with
      | rel c d hcd =>
        rcases List.mem_append.mp hcd with hcd | hcd
        · exact (hunion c d).mpr (.inl ((hsame c d).mpr (.rel _ _ hcd)))
        · rw [List.mem_singleton] at hcd
          subst hcd
          exact (hunion c d).mpr (.inr (.inl ⟨hf.same_refl c, hf.same_refl d⟩))
      | refl x => exact hf'.same_refl x
      | symm x y _ ih => exact ih.symm
      | trans x y z _ _ ih₁ ih₂ => exact ih₁.trans ih₂

end Persona.Lib.UnionFind
