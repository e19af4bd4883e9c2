import Persona.Memory.Hygiene
import Mathlib.Combinatorics.SimpleGraph.Connectivity.Connected
import Mathlib.Data.List.FinRange

/-!
# Clusters are connected components

`cluster_duplicates` unites the items of each similar pair and groups the items by their roots. The
items are told apart by their places in the list, since a list may hold equal ones: the clusters are
lists of places (`clustersAt`), and these are the connected components of the similarity graph that
have two members at least (`clusterDuplicates_components`).
-/

namespace Persona.Memory

open Persona.Lib

variable {ι V : Type*}

/-! ### Groups -/

section Groups

variable {α β : Type*} {k : ℕ} {x : α} {l : List (ℕ × α)} {gs : List (ℕ × List α)}

/-- The dictionary holds the groups of the list. -/
structure Grouped (l : List (ℕ × α)) (gs : List (ℕ × List α)) : Prop where
  nodup : (gs.map Prod.fst).Nodup
  members : ∀ g ∈ gs, g.2 = (l.filter fun x => x.1 = g.1).map Prod.snd
  keys : ∀ k, k ∈ gs.map Prod.fst ↔ k ∈ l.map Prod.fst

theorem map_fst_addToGroup : (addToGroup k x gs).map Prod.fst =
    if k ∈ gs.map Prod.fst then gs.map Prod.fst else gs.map Prod.fst ++ [k] := by
  induction gs with
  | nil => rfl
  | cons g gs ih =>
    obtain ⟨k', xs⟩ := g
    rw [addToGroup]
    by_cases hk : k' = k
    · simp [hk]
    · have hk' : k ≠ k' := Ne.symm hk
      simp only [if_neg hk, List.map_cons, ih, List.mem_cons, hk', false_or]
      split_ifs <;> rfl

theorem mem_addToGroup {g : ℕ × List α} (hnodup : (gs.map Prod.fst).Nodup) (hg : g ∈ addToGroup k x gs) :
    (g ∈ gs ∧ g.1 ≠ k) ∨ (∃ xs, (k, xs) ∈ gs ∧ g = (k, xs ++ [x])) ∨ (k ∉ gs.map Prod.fst ∧ g = (k, [x])) := by
  induction gs with
  | nil => exact .inr (.inr ⟨List.not_mem_nil, List.mem_singleton.mp hg⟩)
  | cons g' gs ih =>
    obtain ⟨k', xs⟩ := g'
    rw [List.map_cons, List.nodup_cons] at hnodup
    rw [addToGroup] at hg
    split_ifs at hg with hk
    · subst hk
      rcases List.mem_cons.mp hg with rfl | hrest
      · exact .inr (.inl ⟨xs, List.mem_cons_self, rfl⟩)
      · refine .inl ⟨List.mem_cons_of_mem _ hrest, fun heq => hnodup.1 ?_⟩
        show k' ∈ gs.map Prod.fst
        rw [← heq]
        exact List.mem_map_of_mem hrest
    · rcases List.mem_cons.mp hg with rfl | hg
      · exact .inl ⟨List.mem_cons_self, hk⟩
      · rcases ih hnodup.2 hg with ⟨hmem, hne⟩ | ⟨ys, hmem, rfl⟩ | ⟨hnot, rfl⟩
        · exact .inl ⟨List.mem_cons_of_mem _ hmem, hne⟩
        · exact .inr (.inl ⟨ys, List.mem_cons_of_mem _ hmem, rfl⟩)
        · refine .inr (.inr ⟨?_, rfl⟩)
          rw [List.map_cons, List.mem_cons, not_or]
          exact ⟨Ne.symm hk, hnot⟩

/-- One item more. -/
theorem Grouped.snoc (h : Grouped l gs) (k : ℕ) (x : α) : Grouped (l ++ [(k, x)]) (addToGroup k x gs) := by
  have hkeys : ∀ k', k' ∈ (addToGroup k x gs).map Prod.fst ↔ k' ∈ gs.map Prod.fst ∨ k' = k := by
    intro k'
    rw [map_fst_addToGroup]
    split_ifs with hk
    · exact ⟨.inl, fun h => h.elim id fun heq => heq ▸ hk⟩
    · rw [List.mem_append, List.mem_singleton]
  refine ⟨?_, fun g hg => ?_, fun k' => ?_⟩
  · rw [map_fst_addToGroup]
    split_ifs with hk
    · exact h.nodup
    · refine h.nodup.append (List.nodup_singleton _) fun k' hk' heq => ?_
      rw [List.mem_singleton] at heq
      exact hk (heq ▸ hk')
  · rcases mem_addToGroup h.nodup hg with ⟨hmem, hne⟩ | ⟨xs, hmem, rfl⟩ | ⟨hnot, rfl⟩
    · rw [h.members g hmem, List.filter_append]
      simp [Ne.symm hne]
    · have hxs : xs = (l.filter fun y => y.1 = k).map Prod.snd := h.members _ hmem
      simp [hxs]
    · have hnone : (l.filter fun y => y.1 = k) = [] := by
        refine List.filter_eq_nil_iff.mpr fun y hy hyk => hnot ((h.keys k).mpr ?_)
        rw [decide_eq_true_eq] at hyk
        exact hyk ▸ List.mem_map_of_mem hy
      rw [List.filter_append, hnone]
      simp
  · rw [hkeys, h.keys, List.map_append, List.mem_append]
    simp

theorem grouped_foldl (l : List (ℕ × α)) : Grouped l (l.foldl (fun gs kx => addToGroup kx.1 kx.2 gs) []) := by
  induction l using List.reverseRecOn with
  | nil => exact ⟨List.nodup_nil, fun g hg => absurd hg List.not_mem_nil, fun k => Iff.rfl⟩
  | append_singleton l kx ih =>
    rw [List.foldl_append]
    exact ih.snoc kx.1 kx.2

/-- Grouping does not look at the items. -/
theorem addToGroup_map (f : α → β) (k : ℕ) (x : α) (gs : List (ℕ × List α)) :
    addToGroup k (f x) (gs.map (Prod.map id (List.map f))) = (addToGroup k x gs).map (Prod.map id (List.map f)) := by
  induction gs with
  | nil => rfl
  | cons g gs ih =>
    obtain ⟨k', xs⟩ := g
    simp only [List.map_cons, Prod.map_apply, id_eq, addToGroup]
    split_ifs
    · simp
    · rw [ih]
      rfl

theorem foldl_addToGroup_map (f : α → β) (l : List (ℕ × α)) :
    (l.map (Prod.map id f)).foldl (fun gs kx => addToGroup kx.1 kx.2 gs) [] =
      (l.foldl (fun gs kx => addToGroup kx.1 kx.2 gs) []).map (Prod.map id (List.map f)) := by
  induction l using List.reverseRecOn with
  | nil => rfl
  | append_singleton l kx ih =>
    rw [List.map_append, List.foldl_append, List.foldl_append, ih]
    exact addToGroup_map f kx.1 kx.2 _

end Groups

/-! ### The clusters, by places -/

section Places

variable (near : V → V → Bool) (items : List (Exported ι V))

/-- The similarity graph, on the places of the items: it links items that have vectors, when these are near. -/
def similarity : SimpleGraph (Fin items.length) := .fromRel fun i j => similar near items i j = true

/-- The groups of `cluster_duplicates`. -/
def groupsAt : List (ℕ × List (Fin items.length)) :=
  ((clusterKeys near items).zip (List.finRange items.length)).foldl (fun gs kx => addToGroup kx.1 kx.2 gs) []

/-- The clusters. -/
def clustersAt : List (List (Fin items.length)) :=
  ((((groupsAt near items).map Prod.snd).filter fun g => 1 < g.length).map
    (List.insertionSort fun i j => (items.get i).ts ≥ (items.get j).ts)).insertionSort
      fun c d => clusterBefore (c.map items.get) (d.map items.get)

variable {near} {items}

theorem groups_eq : groups near items = (groupsAt near items).map (Prod.map id (List.map items.get)) := by
  rw [groups, groupsAt, ← foldl_addToGroup_map, ← List.zip_map_right, List.map_get_finRange]

/-- The clusters are those of the places. -/
theorem clusterDuplicates_eq : clusterDuplicates near items = (clustersAt near items).map (List.map items.get) := by
  have hsort : ∀ g : List (Fin items.length), newestFirst (g.map items.get) =
      (g.insertionSort fun i j => (items.get i).ts ≥ (items.get j).ts).map items.get := fun g =>
    (List.map_insertionSort _ _ items.get g fun _ _ _ _ => Iff.rfl).symm
  have hgroups : (((groups near items).map Prod.snd).filter fun g => 1 < g.length).map newestFirst =
      ((((groupsAt near items).map Prod.snd).filter fun g => 1 < g.length).map
        (List.insertionSort fun i j => (items.get i).ts ≥ (items.get j).ts)).map (List.map items.get) := by
    have hsnd : (groups near items).map Prod.snd = ((groupsAt near items).map Prod.snd).map (List.map items.get) := by
      rw [groups_eq, List.map_map, List.map_map]
      rfl
    rw [hsnd, List.filter_map, List.map_map, List.map_map]
    have hlong : ((fun g : List (Exported ι V) => decide (1 < g.length)) ∘ List.map items.get) =
        fun g : List (Fin items.length) => decide (1 < g.length) := by
      funext g
      simp
    rw [hlong]
    exact List.map_congr_left fun g _ => hsort g
  rw [clusterDuplicates, clustersAt, hgroups]
  exact (List.map_insertionSort _ _ (List.map items.get) _ fun _ _ _ _ => Iff.rfl).symm

theorem grouped_groupsAt : Grouped ((clusterKeys near items).zip (List.finRange items.length)) (groupsAt near items) :=
  grouped_foldl _

/-- The key of a place. -/
theorem mem_zip_iff {k : ℕ} {i : Fin items.length} :
    (k, i) ∈ (clusterKeys near items).zip (List.finRange items.length) ↔ (clusterKeys near items)[(i : ℕ)]? = some k := by
  constructor
  · intro h
    obtain ⟨m, hm⟩ := List.mem_iff_getElem?.mp h
    obtain ⟨hk, hi⟩ := List.getElem?_zip_eq_some.mp hm
    obtain ⟨hlt, hi⟩ := List.getElem?_eq_some_iff.mp hi
    rw [List.getElem_finRange] at hi
    have hplace : m = (i : ℕ) := congrArg Fin.val hi
    rw [← hplace]
    exact hk
  · intro h
    refine List.mem_iff_getElem?.mpr ⟨i, List.getElem?_zip_eq_some.mpr ⟨h, ?_⟩⟩
    rw [List.getElem?_eq_getElem (by simp), List.getElem_finRange]
    rfl

/-- Each place has a key. -/
theorem exists_key (near : V → V → Bool) (i : Fin items.length) : ∃ k, (clusterKeys near items)[(i : ℕ)]? = some k := by
  have hlt : (i : ℕ) < (clusterKeys near items).length := by
    rw [length_clusterKeys]
    exact i.isLt
  exact ⟨_, List.getElem?_eq_getElem hlt⟩

/-- The places of a group are those with its key. -/
theorem mem_group {g : ℕ × List (Fin items.length)} (hg : g ∈ groupsAt near items) {i : Fin items.length} :
    i ∈ g.2 ↔ (clusterKeys near items)[(i : ℕ)]? = some g.1 := by
  rw [grouped_groupsAt.members g hg, ← mem_zip_iff]
  simp

theorem clustersAt_subperm : ((clustersAt near items).flatten).Subperm (List.finRange items.length) := by
  refine (flatten_sorted_subperm _ _ _ _).trans (List.Perm.subperm ?_)
  refine (foldl_addToGroup_perm _ []).trans ?_
  rw [List.map_snd_zip, List.flatMap_nil, List.append_nil]
  rw [List.length_finRange, length_clusterKeys]

theorem nodup_clustersAt : ((clustersAt near items).flatten).Nodup := by
  have hsubperm : ((clustersAt near items).flatten).Subperm (List.finRange items.length) := clustersAt_subperm
  obtain ⟨l, hl, hsub⟩ := hsubperm
  exact hl.nodup_iff.mp ((List.nodup_finRange _).sublist hsub)

theorem mem_clustersAt {c : List (Fin items.length)} : c ∈ clustersAt near items ↔
    ∃ g ∈ groupsAt near items, 1 < g.2.length ∧ c = g.2.insertionSort fun i j => (items.get i).ts ≥ (items.get j).ts := by
  rw [clustersAt, List.mem_insertionSort, List.mem_map]
  constructor
  · rintro ⟨xs, hxs, rfl⟩
    obtain ⟨hmem, hlong⟩ := List.mem_filter.mp hxs
    obtain ⟨g, hg, rfl⟩ := List.mem_map.mp hmem
    exact ⟨g, hg, of_decide_eq_true hlong, rfl⟩
  · rintro ⟨g, hg, hlong, rfl⟩
    exact ⟨g.2, List.mem_filter.mpr ⟨List.mem_map_of_mem hg, decide_eq_true hlong⟩, rfl⟩

theorem two_le_length_of_mem_clustersAt {c : List (Fin items.length)} (hc : c ∈ clustersAt near items) : 2 ≤ c.length := by
  obtain ⟨g, -, hlong, rfl⟩ := mem_clustersAt.mp hc
  rw [List.length_insertionSort]
  exact hlong

/-- Two places are in one cluster exactly when they have the same key. -/
theorem same_cluster_iff_key {i j : Fin items.length} (hne : i ≠ j) : (∃ c ∈ clustersAt near items, i ∈ c ∧ j ∈ c) ↔
    (clusterKeys near items)[(i : ℕ)]? = (clusterKeys near items)[(j : ℕ)]? := by
  constructor
  · rintro ⟨c, hc, hi, hj⟩
    obtain ⟨g, hg, -, rfl⟩ := mem_clustersAt.mp hc
    rw [List.mem_insertionSort, mem_group hg] at hi hj
    rw [hi, hj]
  · intro hkey
    obtain ⟨k, hk⟩ := exists_key near i
    have hzip := mem_zip_iff.mpr hk
    obtain ⟨g, hg, rfl⟩ := List.mem_map.mp ((grouped_groupsAt.keys k).mpr (List.mem_map_of_mem hzip))
    have hi : i ∈ g.2 := (mem_group hg).mpr hk
    have hj : j ∈ g.2 := (mem_group hg).mpr (hkey ▸ hk)
    have hlong : ∀ xs : List (Fin items.length), i ∈ xs → j ∈ xs → 1 < xs.length := by
      rintro (_ | ⟨a, _ | ⟨b, xs⟩⟩) hi hj
      · cases hi
      · exact absurd ((List.mem_singleton.mp hi).trans (List.mem_singleton.mp hj).symm) hne
      · simp
    exact ⟨_, mem_clustersAt.mpr ⟨g, hg, hlong g.2 hi hj, rfl⟩, (List.mem_insertionSort _).mpr hi, (List.mem_insertionSort _).mpr hj⟩

theorem similar_symm (hsymm : ∀ a b, near a b = near b a) (i j : ℕ) : similar near items i j = similar near items j i := by
  unfold similar
  cases items[i]?.bind Exported.vector <;> cases items[j]?.bind Exported.vector <;> simp [hsymm]

theorem mem_similarPairs {i j : ℕ} : (i, j) ∈ similarPairs near items ↔ (i < j ∧ j < items.length) ∧ similar near items i j = true := by
  rw [similarPairs, List.mem_filter, mem_indexPairs]

/-- A chain of links joins two places exactly when these have the same key. -/
theorem reachable_iff_key (hsymm : ∀ a b, near a b = near b a) {i j : Fin items.length} :
    (similarity near items).Reachable i j ↔
      (clusterKeys near items)[(i : ℕ)]? = (clusterKeys near items)[(j : ℕ)]? := by
  constructor
  · intro hreach
    induction (SimpleGraph.reachable_iff_reflTransGen i j).mp hreach with
    | refl => rfl
    | @tail b c hb hadj ih =>
      obtain ⟨hne, hsim⟩ := (SimpleGraph.fromRel_adj _ _ _).mp hadj
      have hsim : similar near items b c = true := hsim.elim id fun h => (similar_symm hsymm c b) ▸ h
      refine (ih ((SimpleGraph.reachable_iff_reflTransGen i b).mpr hb)).trans ?_
      rw [clusterKeys_eq_iff b.isLt c.isLt]
      rcases Nat.lt_or_gt_of_ne (Fin.val_ne_of_ne hne) with hlt | hlt
      · exact .rel _ _ (mem_similarPairs.mpr ⟨⟨hlt, c.isLt⟩, hsim⟩)
      · exact .symm _ _ (.rel _ _ (mem_similarPairs.mpr ⟨⟨hlt, b.isLt⟩, similar_symm hsymm b c ▸ hsim⟩))
  · intro hkey
    rw [clusterKeys_eq_iff i.isLt j.isLt] at hkey
    -- a place that is out of range is linked to nothing
    have hchain : ∀ x y : ℕ, Relation.EqvGen (fun a b => (a, b) ∈ similarPairs near items) x y →
        x = y ∨ ∃ (hx : x < items.length) (hy : y < items.length), (similarity near items).Reachable ⟨x, hx⟩ ⟨y, hy⟩ := by
      intro x y h
      induction h with
      | rel x y hxy =>
        obtain ⟨⟨hlt, hy⟩, hsim⟩ := mem_similarPairs.mp hxy
        refine .inr ⟨hlt.trans hy, hy, SimpleGraph.Adj.reachable ?_⟩
        exact (SimpleGraph.fromRel_adj _ _ _).mpr ⟨fun heq => hlt.ne (congrArg Fin.val heq), .inl hsim⟩
      | refl x => exact .inl rfl
      | symm x y _ ih =>
        rcases ih with rfl | ⟨hx, hy, hreach⟩
        · exact .inl rfl
        · exact .inr ⟨hy, hx, hreach.symm⟩
      | trans x y z _ _ ih₁ ih₂ =>
        rcases ih₁ with rfl | ⟨hx, hy, hxy⟩
        · exact ih₂
        · rcases ih₂ with rfl | ⟨_, hz, hyz⟩
          · exact .inr ⟨hx, hy, hxy⟩
          · exact .inr ⟨hx, hz, hxy.trans hyz⟩
    rcases hchain i j hkey with heq | ⟨_, _, hreach⟩
    · rw [Fin.ext heq]
    · exact hreach

end Places

/-! ### The climbs -/

section Climbs

open UnionFind

/-- The loop of `find`, with `n` steps at most, ends at a node that is its own parent. -/
def Ends (n : ℕ) (p : ℕ → ℕ) (x : ℕ) : Prop := (find n p x).1 (find n p x).2 = (find n p x).2

theorem ends_of_forest {n x : ℕ} {p : ℕ → ℕ} (h : Forest n p) (hx : x < n) : Ends n p x := by
  have hfound := find_spec h hx
  exact ((hfound.same x _).mpr hfound.leads).is_root

/-- All climbs of `cluster_duplicates` end: the two of each union, and those for the keys. -/
structure ClimbsEnd (near : V → V → Bool) (items : List (Exported ι V)) : Prop where
  uniting : ∀ pre i j, pre ++ [(i, j)] <+: similarPairs near items →
    Ends items.length (unions items.length id pre) i ∧
      Ends items.length (find items.length (unions items.length id pre) i).1 j
  grouping : ∀ m < items.length, Ends items.length
    ((List.range m).foldl (fun p i => (find items.length p i).1) (unions items.length id (similarPairs near items))) m

theorem climbsEnd (near : V → V → Bool) (items : List (Exported ι V)) : ClimbsEnd near items := by
  have hlt : ∀ ij ∈ similarPairs near items, ij.1 < items.length ∧ ij.2 < items.length := by
    rintro ⟨i, j⟩ hij
    obtain ⟨⟨hij, hj⟩, -⟩ := mem_similarPairs.mp hij
    exact ⟨hij.trans hj, hj⟩
  refine ⟨fun pre i j hpre => ?_, fun m hm => ?_⟩
  · have hforest := (unions_spec fun ij hij => hlt ij (hpre.subset (List.mem_append_left _ hij))).1
    obtain ⟨hi, hj⟩ := hlt (i, j) (hpre.subset (by simp))
    exact ⟨ends_of_forest hforest hi, ends_of_forest (find_spec hforest hi).forest hj⟩
  · refine ends_of_forest ?_ hm
    have hforest : ∀ is : List ℕ, (∀ i ∈ is, i < items.length) → Forest items.length
        (is.foldl (fun p i => (find items.length p i).1) (unions items.length id (similarPairs near items))) := by
      intro is
      induction is using List.reverseRecOn with
      | nil => exact fun _ => (unions_spec hlt).1
      | append_singleton is i ih =>
        intro his
        rw [List.foldl_append]
        exact (find_spec (ih fun k hk => his k (List.mem_append_left _ hk)) (his i (by simp))).forest
    exact hforest _ fun i hi => (List.mem_range.mp hi).trans hm

end Climbs

/-! ### Components -/

/-- Lists of nodes are the connected components of a graph that have two nodes at least. -/
structure AreComponents {n : ℕ} (G : SimpleGraph (Fin n)) (cs : List (List (Fin n))) : Prop where
  nodup : cs.flatten.Nodup
  two : ∀ c ∈ cs, 2 ≤ c.length
  joined : ∀ i j, i ≠ j → ((∃ c ∈ cs, i ∈ c ∧ j ∈ c) ↔ G.Reachable i j)

theorem areComponents_clustersAt {near : V → V → Bool} (hsymm : ∀ a b, near a b = near b a) (items : List (Exported ι V)) :
    AreComponents (similarity near items) (clustersAt near items) :=
  ⟨nodup_clustersAt, fun _ => two_le_length_of_mem_clustersAt, fun _ _ hne =>
    (same_cluster_iff_key hne).trans (reachable_iff_key hsymm).symm⟩

/-- The order of the clusters is that of their lengths, and for equal lengths that of their first facts. -/
instance : Std.Total (clusterBefore (ι := ι) (V := V)) where
  total c d := by
    unfold clusterBefore
    omega

instance : IsTrans (List (Exported ι V)) clusterBefore where
  trans c d e := by
    unfold clusterBefore
    omega

/-- **The clusters are the connected components** with two members or more; each is ordered by its time,
the newest first, and they are ordered by size and by their newest member. No climb is endless. -/
theorem clusterDuplicates_components (near : V → V → Bool) (hsymm : ∀ a b, near a b = near b a) (items : List (Exported ι V)) :
    (∃ cs : List (List (Fin items.length)), clusterDuplicates near items = cs.map (List.map items.get) ∧
      AreComponents (similarity near items) cs) ∧
    (∀ c ∈ clusterDuplicates near items, c.Pairwise fun x y => y.ts ≤ x.ts) ∧
    (clusterDuplicates near items).Pairwise clusterBefore ∧ ClimbsEnd near items := by
  refine ⟨⟨_, clusterDuplicates_eq, areComponents_clustersAt hsymm items⟩, fun c hc => ?_, ?_, climbsEnd near items⟩
  · rw [clusterDuplicates, List.mem_insertionSort] at hc
    obtain ⟨g, -, rfl⟩ := List.mem_map.mp hc
    have : Std.Total fun x y : Exported ι V => x.ts ≥ y.ts := ⟨fun x y => le_total y.ts x.ts⟩
    have : IsTrans (Exported ι V) fun x y => x.ts ≥ y.ts := ⟨fun _ _ _ hxy hyz => le_trans hyz hxy⟩
    exact List.pairwise_insertionSort _ g
  · exact List.pairwise_insertionSort _ _

/-- Three facts, of which the second is near to both others. -/
def chain : List (Exported ℕ ℤ) :=
  [⟨1, some 0, "likes tea", some "fact", 3, none⟩, ⟨2, some 1, "likes green tea", some "fact", 1, none⟩,
    ⟨3, some 2, "likes green leaves", some "fact", 2, none⟩]

/-- Numbers that differ by one at most. -/
def close (a b : ℤ) : Bool := (a - b).natAbs ≤ 1

theorem close_comm (a b : ℤ) : close a b = close b a := by
  rw [close, close, decide_eq_decide]
  omega

theorem clusterDuplicates_components_chain :
    (∃ cs : List (List (Fin chain.length)), clusterDuplicates close chain = cs.map (List.map chain.get) ∧
      AreComponents (similarity close chain) cs) ∧
    (∀ c ∈ clusterDuplicates close chain, c.Pairwise fun x y => y.ts ≤ x.ts) ∧
    (clusterDuplicates close chain).Pairwise clusterBefore ∧ ClimbsEnd close chain :=
  clusterDuplicates_components close close_comm chain

end Persona.Memory
