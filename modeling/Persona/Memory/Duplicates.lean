import Persona.Memory.Components
import Mathlib.Algebra.Ring.Rat

/-!
# What the sweep drops, and what it leaves

Of each cluster `memory_hygiene_pass` keeps the newest fact. The others are similar to some fact of the
cluster, which may be another one than the one that is kept: `duplicates_near_iff` says when the kept
fact is similar to all that are dropped. What is left after a sweep is neither similar to anything else
that is left nor an orphan, so that the next sweep finds nothing (`hygiene_again`).
-/

namespace Persona.Memory

open Persona.Lib

variable {ι V : Type*}

/-! ### The newest of a component -/

section Newest

variable (near : V → V → Bool) (items : List (Exported ι V))

/-- No fact that a chain joins to this one is newer, and of those that are as new it stands first. -/
def Newest (i : Fin items.length) : Prop :=
  ∀ k, (similarity near items).Reachable i k → (items.get k).ts ≤ (items.get i).ts ∧
    ((items.get k).ts = (items.get i).ts → i ≤ k)

variable {near} {items}

theorem ascending_group {g : ℕ × List (Fin items.length)} (hg : g ∈ groupsAt near items) : g.2.Pairwise (· < ·) := by
  have hplaces : ((clusterKeys near items).zip (List.finRange items.length)).map Prod.snd = List.finRange items.length := by
    rw [List.map_snd_zip]
    rw [List.length_finRange, length_clusterKeys]
  rw [grouped_groupsAt.members g hg]
  have hsub := (List.filter_sublist (p := fun x : ℕ × Fin items.length => decide (x.1 = g.1))
    (l := (clusterKeys near items).zip (List.finRange items.length))).map Prod.snd
  rw [hplaces] at hsub
  exact (List.pairwise_lt_finRange _).sublist hsub

/-- The first of a cluster is the newest. -/
theorem newest_of_head (hsymm : ∀ a b, near a b = near b a) {c : List (Fin items.length)} (hc : c ∈ clustersAt near items)
    {i : Fin items.length} (hi : c.head? = some i) : Newest near items i := by
  obtain ⟨g, hg, -, rfl⟩ := mem_clustersAt.mp hc
  have hnodup : (g.2.insertionSort fun i j => (items.get i).ts ≥ (items.get j).ts).Nodup :=
    (List.nodup_flatten.mp nodup_clustersAt).1 _ hc
  have htotal : Std.Total fun i j : Fin items.length => (items.get i).ts ≥ (items.get j).ts :=
    ⟨fun i j => le_total (items.get j).ts (items.get i).ts⟩
  have htrans : IsTrans (Fin items.length) fun i j => (items.get i).ts ≥ (items.get j).ts :=
    ⟨fun _ _ _ hij hjk => le_trans hjk hij⟩
  have hsorted := List.pairwise_insertionSort (fun i j : Fin items.length => (items.get i).ts ≥ (items.get j).ts) g.2
  obtain ⟨t, ht⟩ := List.head?_eq_some_iff.mp hi
  have higroup : i ∈ g.2 := (List.mem_insertionSort _).mp (ht ▸ List.mem_cons_self)
  intro k hreach
  by_cases hne : i = k
  · subst hne
    exact ⟨le_rfl, fun _ => le_rfl⟩
  have hkgroup : k ∈ g.2 := by
    rw [mem_group hg, ← (reachable_iff_key hsymm).mp hreach]
    exact (mem_group hg).mp higroup
  have hkmem : k ∈ t := by
    have hk := (List.mem_insertionSort fun i j : Fin items.length => (items.get i).ts ≥ (items.get j).ts).mpr hkgroup
    rw [ht] at hk
    exact (List.mem_cons.mp hk).resolve_left (Ne.symm hne)
  rw [ht, List.pairwise_cons] at hsorted
  refine ⟨hsorted.1 k hkmem, fun heq => ?_⟩
  by_contra hlt
  -- equal times keep the order of the places
  have hpair : [k, i].Sublist g.2 := by
    have hki : [k, i].Pairwise (· < ·) := List.pairwise_pair.mpr (not_le.mp hlt)
    refine List.sublist_of_subperm_of_pairwise (List.subperm_of_subset (hki.imp ne_of_lt) ?_) hki (ascending_group hg)
    intro x hx
    rcases List.mem_cons.mp hx with rfl | hx
    · exact hkgroup
    · obtain rfl := List.mem_singleton.mp hx
      exact higroup
  have hkept := List.pair_sublist_insertionSort (r := fun i j : Fin items.length => (items.get i).ts ≥ (items.get j).ts)
    heq.ge hpair
  rw [ht] at hkept hnodup
  have hrest : [k, i].Sublist t := (List.cons_sublist_cons'.mp hkept).resolve_right fun h => hne h.1.symm
  exact (List.nodup_cons.mp hnodup).1 (hrest.subset (by simp))

/-- A newest fact that a chain joins to another one is the first of a cluster with it. -/
theorem head_of_newest (hsymm : ∀ a b, near a b = near b a) {i j : Fin items.length} (hne : i ≠ j)
    (hreach : (similarity near items).Reachable i j) (hi : Newest near items i) :
    ∃ c ∈ clustersAt near items, ∃ t, c = i :: t ∧ j ∈ t := by
  obtain ⟨c, hc, hic, hjc⟩ := ((areComponents_clustersAt hsymm items).joined i j hne).mpr hreach
  cases c with
  | nil => cases hic
  | cons h t =>
    have hfirst : Newest near items h := newest_of_head hsymm hc rfl
    have heq : i = h := by
      by_contra hneq
      have hjoin : (similarity near items).Reachable i h :=
        ((areComponents_clustersAt hsymm items).joined i h hneq).mp ⟨_, hc, hic, List.mem_cons_self⟩
      obtain ⟨hle, htie⟩ := hi h hjoin
      obtain ⟨hle', htie'⟩ := hfirst i hjoin.symm
      have hts : (items.get h).ts = (items.get i).ts := le_antisymm hle hle'
      exact hneq (le_antisymm (htie hts) (htie' hts.symm))
    subst heq
    exact ⟨_, hc, t, rfl, (List.mem_cons.mp hjc).resolve_left (Ne.symm hne)⟩

end Newest

/-! ### What is dropped -/

section Dropped

/-- Both facts have a vector, and the vectors are near. -/
def Near (near : V → V → Bool) (f g : Exported ι V) : Prop := ∃ a b, f.vector = some a ∧ g.vector = some b ∧ near a b = true

variable {near : V → V → Bool} {items : List (Exported ι V)}

theorem similar_iff {i j : Fin items.length} : similar near items i j = true ↔ Near near (items.get i) (items.get j) := by
  have hget : ∀ k : Fin items.length, items[(k : ℕ)]?.bind Exported.vector = (items.get k).vector := fun k => by
    rw [List.getElem?_eq_getElem k.isLt]
    rfl
  unfold similar Near
  rw [hget i, hget j]
  cases (items.get i).vector <;> cases (items.get j).vector <;> simp

theorem similarity_adj (hsymm : ∀ a b, near a b = near b a) {i j : Fin items.length} :
    (similarity near items).Adj i j ↔ i ≠ j ∧ Near near (items.get i) (items.get j) := by
  rw [similarity, SimpleGraph.fromRel_adj, similar_symm hsymm j i, or_self, similar_iff]

/-- What a pass drops from a cluster is near to the fact that it keeps, and not newer. -/
def DropsNear (near : V → V → Bool) (coll : Collection ι V) : Prop :=
  ∀ c ∈ clusterDuplicates near (scanned coll), ∀ keep ∈ c.head?, ∀ d ∈ c.tail, Near near keep d ∧ d.ts ≤ keep.ts

/-- **When only near-duplicates of the kept fact are dropped**: exactly when each fact that is the newest of
those that a chain joins to it is linked to all of them. -/
theorem dropsNear_iff (near : V → V → Bool) (hsymm : ∀ a b, near a b = near b a) (coll : Collection ι V) :
    DropsNear near coll ↔ ∀ i j : Fin (scanned coll).length, i ≠ j → (similarity near (scanned coll)).Reachable i j →
      Newest near (scanned coll) i → (similarity near (scanned coll)).Adj i j := by
  constructor
  · intro hdrops i j hne hreach hi
    obtain ⟨c, hc, t, rfl, hj⟩ := head_of_newest hsymm hne hreach hi
    have hcluster : (i :: t).map (scanned coll).get ∈ clusterDuplicates near (scanned coll) := by
      rw [clusterDuplicates_eq]
      exact List.mem_map_of_mem hc
    exact (similarity_adj hsymm).mpr ⟨hne, (hdrops _ hcluster _ rfl _ (List.mem_map_of_mem hj)).1⟩
  · intro hlinked c hc keep hkeep d hd
    rw [clusterDuplicates_eq] at hc
    obtain ⟨places, hplaces, rfl⟩ := List.mem_map.mp hc
    cases places with
    | nil => cases hkeep
    | cons i t =>
      obtain rfl : (scanned coll).get i = keep := Option.some.inj hkeep
      obtain ⟨j, hj, rfl⟩ := List.mem_map.mp hd
      have hnodup : (i :: t).Nodup := (List.nodup_flatten.mp nodup_clustersAt).1 _ hplaces
      have hne : i ≠ j := fun heq => (List.nodup_cons.mp hnodup).1 (heq ▸ hj)
      have hreach : (similarity near (scanned coll)).Reachable i j :=
        ((areComponents_clustersAt hsymm _).joined i j hne).mp ⟨_, hplaces, List.mem_cons_self, List.mem_cons_of_mem _ hj⟩
      have hnewest : Newest near (scanned coll) i := newest_of_head hsymm hplaces rfl
      exact ⟨((similarity_adj hsymm).mp (hlinked i j hne hreach hnewest)).2, (hnewest j hreach).1⟩

/-! ### The threshold on exact vectors -/

/-- The sum of the products, over the entries that both vectors have. -/
def dot (a b : List ℚ) : ℚ := (List.zipWith (· * ·) a b).sum

/-- `cosine(a, b) >= threshold` without rounding: the root is squared away, with the sign of both sides minded. -/
def reaches (threshold : ℚ) (a b : List ℚ) : Bool :=
  if a = [] ∨ b = [] ∨ a.length ≠ b.length ∨ dot a a ≤ 0 ∨ dot b b ≤ 0 then threshold ≤ 0
  else if 0 ≤ threshold then 0 ≤ dot a b ∧ threshold ^ 2 * (dot a a * dot b b) ≤ dot a b ^ 2
  else 0 ≤ dot a b ∨ dot a b ^ 2 ≤ threshold ^ 2 * (dot a a * dot b b)

theorem dot_comm (a b : List ℚ) : dot a b = dot b a := by
  unfold dot
  rw [List.zipWith_comm_of_comm]
  exact mul_comm

theorem reaches_comm (threshold : ℚ) (a b : List ℚ) : reaches threshold a b = reaches threshold b a := by
  have hguard : (a = [] ∨ b = [] ∨ a.length ≠ b.length ∨ dot a a ≤ 0 ∨ dot b b ≤ 0) ↔
      (b = [] ∨ a = [] ∨ b.length ≠ a.length ∨ dot b b ≤ 0 ∨ dot a a ≤ 0) := by
    rw [ne_comm]
    tauto
  unfold reaches
  simp only [hguard, dot_comm a b, mul_comm (dot a a)]

/-- Three facts on a unit circle, one after the other; the newest is the last. -/
def arc : Collection ℕ (List ℚ) where
  points := [⟨1, some [1, 0], "likes tea", some "fact", 1, none⟩,
    ⟨2, some [98 / 100, 20 / 100], "likes green tea", some "fact", 2, none⟩,
    ⟨3, some [92 / 100, 39 / 100], "likes green leaves", some "fact", 3, none⟩]
  nodup := by decide

theorem dropsNear_iff_arc : DropsNear (reaches (97 / 100)) arc ↔ ∀ i j : Fin (scanned arc).length, i ≠ j →
    (similarity (reaches (97 / 100)) (scanned arc)).Reachable i j → Newest (reaches (97 / 100)) (scanned arc) i →
      (similarity (reaches (97 / 100)) (scanned arc)).Adj i j :=
  dropsNear_iff (reaches (97 / 100)) (reaches_comm _) arc

/-- The first fact goes with the third, to which it is not near. -/
theorem not_dropsNear_arc : ¬ DropsNear (reaches (97 / 100)) arc := by
  intro hdrops
  have hplaces : clustersAt (reaches (97 / 100)) (scanned arc) = [[⟨2, by decide⟩, ⟨1, by decide⟩, ⟨0, by decide⟩]] := by
    decide +kernel
  rw [DropsNear, clusterDuplicates_eq, hplaces] at hdrops
  obtain ⟨⟨a, b, ha, hb, hnear⟩, -⟩ := hdrops _ List.mem_cons_self _ rfl _ (List.mem_cons_of_mem _ List.mem_cons_self)
  cases ha
  cases hb
  exact absurd hnear (by decide +kernel)

end Dropped

/-! ### What is left -/

section Left

variable {near : V → V → Bool} {items : List (Exported ι V)}

/-- Items of which no two are near form no cluster. -/
theorem clusterDuplicates_eq_nil (hfar : items.Pairwise fun f g => ¬ Near near f g) : clusterDuplicates near items = [] := by
  have hpairs : ∀ i j, (i, j) ∉ similarPairs near items := by
    intro i j hij
    obtain ⟨⟨hlt, hj⟩, hsim⟩ := mem_similarPairs.mp hij
    exact List.pairwise_iff_get.mp hfar ⟨i, hlt.trans hj⟩ ⟨j, hj⟩ hlt (similar_iff.mp hsim)
  have hsame : ∀ i j, Relation.EqvGen (fun a b => (a, b) ∈ similarPairs near items) i j → i = j := by
    intro i j h
    induction h with
    | rel i j hij => exact absurd hij (hpairs i j)
    | refl i => rfl
    | symm i j _ ih => exact ih.symm
    | trans i j k _ _ hij hjk => exact hij.trans hjk
  rw [clusterDuplicates_eq, List.map_eq_nil_iff, List.eq_nil_iff_forall_not_mem]
  intro c hc
  have htwo := two_le_length_of_mem_clustersAt hc
  have hnodup : c.Nodup := (List.nodup_flatten.mp nodup_clustersAt).1 _ hc
  match c, htwo with
  | i :: j :: t, _ =>
    have hne : i ≠ j := fun heq => (List.nodup_cons.mp hnodup).1 (heq ▸ List.mem_cons_self)
    have hkey := (same_cluster_iff_key hne).mp ⟨_, hc, List.mem_cons_self, by simp⟩
    exact hne (Fin.ext (hsame i j ((clusterKeys_eq_iff i.isLt j.isLt).mp hkey)))

variable [DecidableEq ι] {valid : Option (List String)} {coll : Collection ι V}

theorem scanned_hygiene : scanned (memoryHygienePass near valid coll true).2 =
    (scanned coll).filter fun p => p.id ∉ deleteIds near valid coll := by
  have hdel : (memoryHygienePass near valid coll true).2 = coll.delete (deleteIds near valid coll) := rfl
  rw [hdel, Collection.delete, scanned, scanned, List.filter_filter, List.filter_filter]
  exact List.filter_congr fun p _ => Bool.and_comm _ _

theorem mem_hygiene_points {p : Exported ι V} : p ∈ (memoryHygienePass near valid coll true).2.points ↔
    p ∈ coll.points ∧ p.id ∉ deleteIds near valid coll := by
  have hdel : (memoryHygienePass near valid coll true).2 = coll.delete (deleteIds near valid coll) := rfl
  rw [hdel, Collection.delete, List.mem_filter, decide_eq_true_eq]

/-- No two facts that are left are near: the two would be in one cluster, of which one fact is left at most. -/
theorem far_hygiene (near : V → V → Bool) (valid : Option (List String)) (coll : Collection ι V) :
    (scanned (memoryHygienePass near valid coll true).2).Pairwise fun f g => ¬ Near near f g := by
  rw [scanned_hygiene, List.pairwise_filter, List.pairwise_iff_get]
  intro i j hlt hi hj hnear
  have hne : i ≠ j := hlt.ne
  have hpair : ((i : ℕ), (j : ℕ)) ∈ similarPairs near (scanned coll) :=
    mem_similarPairs.mpr ⟨⟨hlt, j.isLt⟩, similar_iff.mpr hnear⟩
  obtain ⟨c, hc, hic, hjc⟩ := (same_cluster_iff_key hne).mpr ((clusterKeys_eq_iff i.isLt j.isLt).mpr (.rel _ _ hpair))
  have hcluster : c.map (scanned coll).get ∈ clusterDuplicates near (scanned coll) := by
    rw [clusterDuplicates_eq]
    exact List.mem_map_of_mem hc
  have hhead : ∀ k ∈ c, ((scanned coll).get k).id ∉ deleteIds near valid coll →
      (c.map (scanned coll).get).head? = some ((scanned coll).get k) := by
    intro k hk hkept
    have hpoint := (mem_scanned.mp (List.get_mem (scanned coll) k)).1
    exact ((mem_hygiene_of_cluster hcluster (List.mem_map_of_mem hk)).mp (mem_hygiene_points.mpr ⟨hpoint, hkept⟩)).1
  have hsame := (hhead i hic (of_decide_eq_true hi)).symm.trans (hhead j hjc (of_decide_eq_true hj))
  exact hne ((nodup_scanned coll).injective_get (Option.some.inj hsame))

/-- No fact that is left is an orphan. -/
theorem orphansOf_hygiene (near : V → V → Bool) (valid : Option (List String)) (coll : Collection ι V) :
    orphansOf valid (memoryHygienePass near valid coll true).2 = [] := by
  cases valid with
  | none => rfl
  | some v =>
    refine List.filter_eq_nil_iff.mpr fun f hf horphan => ?_
    obtain ⟨hleft, hkind⟩ := mem_scanned.mp hf
    obtain ⟨hpoint, -⟩ := mem_hygiene_points.mp hleft
    refine (mem_hygiene hpoint).mp hleft (.inr ?_)
    exact List.mem_filter.mpr ⟨mem_scanned.mpr ⟨hpoint, hkind⟩, horphan⟩

theorem Collection.delete_nil (coll : Collection ι V) : coll.delete [] = coll := by
  cases coll
  simp [Collection.delete]

/-- **A second pass finds nothing**: no cluster, no duplicate and no orphan, and it deletes nothing. -/
theorem hygiene_again (near : V → V → Bool) (valid : Option (List String)) (coll : Collection ι V) :
    let left := (memoryHygienePass near valid coll true).2
    clusterDuplicates near (scanned left) = [] ∧ orphansOf valid left = [] ∧ deleteIds near valid left = [] ∧
      (memoryHygienePass near valid left true).2 = left := by
  intro left
  have hclusters : clusterDuplicates near (scanned left) = [] := clusterDuplicates_eq_nil (far_hygiene near valid coll)
  have horphans : orphansOf valid left = [] := orphansOf_hygiene near valid coll
  have hids : deleteIds near valid left = [] := by
    rw [deleteIds, duplicates, hclusters, horphans]
    rfl
  refine ⟨hclusters, horphans, hids, ?_⟩
  show left.delete (deleteIds near valid left) = left
  rw [hids]
  exact left.delete_nil

end Left

end Persona.Memory
