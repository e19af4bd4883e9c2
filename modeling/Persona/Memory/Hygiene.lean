import Persona.Lib.UnionFind
import Persona.Memory.Conversations
import Mathlib.Data.List.Flatten
import Mathlib.Data.List.Pairwise

/-!
# Memory hygiene

`services/api/memory_hygiene.py` and `memory_hygiene_pass`: the facts of a collection
are clustered by similarity, and of each cluster all but the newest are dropped; and the
facts of conversations that no longer exist are dropped. The two selections are made
independently and deleted together, so that when the newest fact of a cluster is such an
orphan, the whole cluster goes, with the facts in it that belong to a conversation that
still exists: `hygiene_safe_iff` says exactly when that does not happen.

Similarity is a parameter: `near a b` says that the cosine of two vectors, computed in
floating point, reaches the threshold.
-/

namespace Persona.Memory

open Persona.Lib

/-- A point as `export_points` yields it; its id is of type `ι`. -/
structure Exported (ι V : Type*) where
  id : ι
  /-- The vector, unless it is missing or empty. -/
  vector : Option V
  document : String
  /-- `meta["kind"]`. -/
  kind : Option String
  /-- `meta["ts"]`, or 0. -/
  ts : ℤ
  /-- `meta["conversation_id"]`. -/
  conversationId : Option String

/-- A collection: a store keeps one point for each id. -/
structure Collection (ι V : Type*) where
  points : List (Exported ι V)
  nodup : (points.map Exported.id).Nodup

variable {ι V : Type*}

/-! ### Clusters -/

section Clusters

variable (near : V → V → Bool) (items : List (Exported ι V))

/-- Both items have a vector, and the vectors are near. -/
def similar (i j : ℕ) : Bool :=
  match items[i]?.bind Exported.vector, items[j]?.bind Exported.vector with
  | some a, some b => near a b
  | _, _ => false

/-- `for i in range(n): for j in range(i + 1, n)`. -/
def indexPairs (n : ℕ) : List (ℕ × ℕ) :=
  (List.range n).flatMap fun i => ((List.range n).filter fun j => i < j).map fun j => (i, j)

/-- The pairs that are united. -/
def similarPairs : List (ℕ × ℕ) := (indexPairs items.length).filter fun ij => similar near items ij.1 ij.2

/-- `find(i)` for each index, one after the other. -/
def findAll (n : ℕ) : (ℕ → ℕ) → List ℕ → List ℕ
  | _, [] => []
  | p, i :: is => (UnionFind.find n p i).2 :: findAll n (UnionFind.find n p i).1 is

/-- The keys of the items: the roots of their indices. -/
def clusterKeys : List ℕ :=
  findAll items.length (UnionFind.unions items.length id (similarPairs near items)) (List.range items.length)

/-- `groups.setdefault(k, []).append(x)`. -/
def addToGroup {α : Type*} (k : ℕ) (x : α) : List (ℕ × List α) → List (ℕ × List α)
  | [] => [(k, [x])]
  | (k', xs) :: gs => if k' = k then (k', xs ++ [x]) :: gs else (k', xs) :: addToGroup k x gs

/-- The dictionary of the groups, in insertion order. -/
def groups : List (ℕ × List (Exported ι V)) :=
  ((clusterKeys near items).zip items).foldl (fun gs kx => addToGroup kx.1 kx.2 gs) []

/-- `sorted(g, key=ts, reverse=True)`. -/
def newestFirst (g : List (Exported ι V)) : List (Exported ι V) := g.insertionSort fun x y => x.ts ≥ y.ts

/-- The order of the clusters: `(len(c), c[0]["ts"])`, reversed. -/
def clusterBefore (c d : List (Exported ι V)) : Prop :=
  d.length < c.length ∨ c.length = d.length ∧ (d.head?.elim 0 Exported.ts) ≤ (c.head?.elim 0 Exported.ts)

instance : DecidableRel (clusterBefore (ι := ι) (V := V)) := fun _ _ => inferInstanceAs (Decidable (_ ∨ _))

/-- `cluster_duplicates`. -/
def clusterDuplicates : List (List (Exported ι V)) :=
  ((((groups near items).map Prod.snd).filter fun g => 1 < g.length).map newestFirst).insertionSort clusterBefore

end Clusters

/-! ### The pass -/

/-- A fact of a conversation that is not in the listing. -/
def IsOrphan (valid : List String) (f : Exported ι V) : Prop := ∃ cid, f.conversationId = some cid ∧ cid ≠ "" ∧ cid ∉ valid

instance (valid : List String) (f : Exported ι V) : Decidable (IsOrphan valid f) :=
  match h : f.conversationId with
  | none => isFalse fun ⟨_, hc, _⟩ => nomatch h.symm.trans hc
  | some cid => decidable_of_iff (cid ≠ "" ∧ cid ∉ valid)
      ⟨fun hc => ⟨cid, h, hc⟩, fun ⟨_, hc, hrest⟩ => Option.some.inj (h.symm.trans hc) ▸ hrest⟩

/-- `find_orphans`. -/
def findOrphans (facts : List (Exported ι V)) (valid : List String) : List (Exported ι V) :=
  facts.filter fun f => IsOrphan valid f

/-- The `limit` of the listing. -/
def listingLimit : ℕ := 100000

/-- `valid_cids`: the conversations that are listed; `none` when the listing raises. -/
def validCids (reads : Bool) (db : Db) : Option (List String) :=
  if reads then some ((db.listConversations listingLimit).map Conversation.conversationId) else none

/-- What a pass reports. -/
structure Report where
  factsScanned : ℕ
  duplicateClusters : ℕ
  duplicatesRemovable : ℕ
  orphans : ℕ
  /-- The first 140 characters of what is kept and removed, of ten clusters at most. -/
  duplicateExamples : List (String × List String)
  orphanExamples : List String

/-- `s[:140]`. -/
def excerpt (s : String) : String := String.ofList (s.toList.take 140)

section Pass

variable (near : V → V → Bool) (valid : Option (List String)) (coll : Collection ι V)

/-- The facts that are scanned. -/
def scanned : List (Exported ι V) := coll.points.filter fun p => p.kind = some "fact"

/-- The duplicates that are dropped: all but the first of each cluster. -/
def duplicates : List (Exported ι V) := (clusterDuplicates near (scanned coll)).flatMap List.tail

/-- The orphans that are dropped. -/
def orphansOf : List (Exported ι V) := valid.elim [] (findOrphans (scanned coll))

/-- The ids to delete. -/
def deleteIds : List ι := ((duplicates near coll) ++ orphansOf valid coll).map Exported.id

/-- `memory_hygiene_pass`, up to the deletion. -/
def report : Report where
  factsScanned := (scanned coll).length
  duplicateClusters := (clusterDuplicates near (scanned coll)).length
  duplicatesRemovable := (duplicates near coll).length
  orphans := (orphansOf valid coll).length
  duplicateExamples := ((clusterDuplicates near (scanned coll)).map fun c =>
    (c.head?.elim "" fun f => excerpt f.document, c.tail.map fun f => excerpt f.document)).take 10
  orphanExamples := ((orphansOf valid coll).take 10).map fun f => excerpt f.document

variable [DecidableEq ι]

/-- A store that deletes what it is asked to delete. -/
def Collection.delete (ids : List ι) (coll : Collection ι V) : Collection ι V where
  points := coll.points.filter fun p => p.id ∉ ids
  nodup := coll.nodup.sublist (List.filter_sublist.map _)

/-- `memory_hygiene_pass` on a collection. -/
def memoryHygienePass (apply : Bool) : Report × Collection ι V :=
  (report near valid coll, if apply then coll.delete (deleteIds near valid coll) else coll)

end Pass

/-! ### Clusters are disjoint -/

section Disjoint

variable {near : V → V → Bool} {items : List (Exported ι V)}

theorem findAll_length (n : ℕ) (p : ℕ → ℕ) (is : List ℕ) : (findAll n p is).length = is.length := by
  induction is generalizing p with
  | nil => rfl
  | cons i is ih => rw [findAll, List.length_cons, List.length_cons, ih]

theorem mem_indexPairs {n i j : ℕ} : (i, j) ∈ indexPairs n ↔ i < j ∧ j < n := by
  simp only [indexPairs, List.mem_flatMap, List.mem_map, List.mem_filter, List.mem_range, Prod.mk.injEq,
    decide_eq_true_eq]
  constructor
  · rintro ⟨a, -, b, ⟨hb, hab⟩, rfl, rfl⟩
    exact ⟨hab, hb⟩
  · rintro ⟨hij, hj⟩
    exact ⟨i, hij.trans hj, j, ⟨hj, hij⟩, rfl, rfl⟩

/-- The climbs find the roots of the forest as it was at first. -/
theorem findAll_spec {n : ℕ} {p : ℕ → ℕ} (h : UnionFind.Forest n p) {is : List ℕ} (his : ∀ i ∈ is, i < n) {k i : ℕ}
    (hk : is[k]? = some i) : ∃ r, (findAll n p is)[k]? = some r ∧ UnionFind.Leads p i r := by
  induction is generalizing p k with
  | nil => cases hk
  | cons a is ih =>
    have hfound := UnionFind.find_spec h (his a List.mem_cons_self)
    rw [findAll]
    cases k with
    | zero =>
      cases hk
      exact ⟨_, rfl, hfound.leads⟩
    | succ k =>
      obtain ⟨r, hr, hleads⟩ := ih hfound.forest (fun i hi => his i (List.mem_cons_of_mem _ hi)) hk
      exact ⟨r, hr, (hfound.same i r).mp hleads⟩

/-- **Two items have the same key** exactly when a chain of similar items links them. -/
theorem clusterKeys_eq_iff {i j : ℕ} (hi : i < items.length) (hj : j < items.length) :
    (clusterKeys near items)[i]? = (clusterKeys near items)[j]? ↔
      Relation.EqvGen (fun a b => (a, b) ∈ similarPairs near items) i j := by
  have hlt : ∀ ab ∈ similarPairs near items, ab.1 < items.length ∧ ab.2 < items.length := by
    intro ab hab
    obtain ⟨h₁, h₂⟩ := mem_indexPairs.mp (List.mem_of_mem_filter hab)
    exact ⟨h₁.trans h₂, h₂⟩
  obtain ⟨hforest, hsame⟩ := UnionFind.unions_spec hlt
  have hrange : ∀ k ∈ List.range items.length, k < items.length := fun k => List.mem_range.mp
  obtain ⟨r, hr, hir⟩ := findAll_spec hforest hrange (List.getElem?_range hi)
  obtain ⟨s, hs, hjs⟩ := findAll_spec hforest hrange (List.getElem?_range hj)
  rw [← hsame, clusterKeys, hr, hs, Option.some.injEq]
  constructor
  · rintro rfl
    exact ⟨r, hir, hjs⟩
  · rintro ⟨t, hit, hjt⟩
    exact (hir.unique hit).trans (hjt.unique hjs)

theorem addToGroup_perm {α : Type*} (k : ℕ) (x : α) (gs : List (ℕ × List α)) :
    ((addToGroup k x gs).flatMap Prod.snd).Perm (x :: gs.flatMap Prod.snd) := by
  induction gs with
  | nil => exact .refl _
  | cons g gs ih =>
    obtain ⟨k', xs⟩ := g
    rw [addToGroup]
    split_ifs
    · simp only [List.flatMap_cons, List.append_assoc, List.singleton_append]
      exact List.perm_middle
    · simp only [List.flatMap_cons]
      exact (ih.append_left xs).trans List.perm_middle

theorem foldl_addToGroup_perm {α : Type*} (l : List (ℕ × α)) (gs : List (ℕ × List α)) :
    ((l.foldl (fun gs kx => addToGroup kx.1 kx.2 gs) gs).flatMap Prod.snd).Perm (l.map Prod.snd ++ gs.flatMap Prod.snd) := by
  induction l generalizing gs with
  | nil => exact .refl _
  | cons kx l ih =>
    refine (ih _).trans ?_
    rw [List.map_cons, List.cons_append]
    exact ((addToGroup_perm kx.1 kx.2 gs).append_left _).trans List.perm_middle

theorem length_clusterKeys : (clusterKeys near items).length = items.length := by
  rw [clusterKeys, findAll_length, List.length_range]

/-- The groups hold each item once. -/
theorem groups_perm : ((groups near items).flatMap Prod.snd).Perm items := by
  refine (foldl_addToGroup_perm _ []).trans ?_
  rw [List.map_snd_zip (le_of_eq length_clusterKeys.symm), List.flatMap_nil, List.append_nil]

/-- Lists that are chosen, sorted each and put in order hold nothing new. -/
theorem flatten_sorted_subperm {α : Type*} (p : List α → Bool) (r : α → α → Prop) [DecidableRel r]
    (s : List α → List α → Prop) [DecidableRel s] (gs : List (List α)) :
    ((((gs.filter p).map (List.insertionSort r)).insertionSort s).flatten).Subperm gs.flatten := by
  have hsort : ∀ gs : List (List α), ((gs.map (List.insertionSort r)).flatten).Perm gs.flatten := by
    intro gs
    induction gs with
    | nil => exact .refl _
    | cons g gs ih => exact (List.perm_insertionSort ..).append ih
  have hperm : ((((gs.filter p).map (List.insertionSort r)).insertionSort s).flatten).Perm (gs.filter p).flatten :=
    (List.Perm.flatten (List.perm_insertionSort ..)).trans (hsort _)
  exact hperm.subperm.trans (List.Sublist.flatten List.filter_sublist).subperm

/-- No item is in two clusters, nor twice in one. -/
theorem clusters_subperm : ((clusterDuplicates near items).flatten).Subperm items :=
  (flatten_sorted_subperm _ _ _ _).trans groups_perm.subperm

theorem clusters_flatten_nodup (hnd : items.Nodup) : (clusterDuplicates near items).flatten.Nodup := by
  have hsubperm : ((clusterDuplicates near items).flatten).Subperm items := clusters_subperm
  obtain ⟨l, hl, hsub⟩ := hsubperm
  exact hl.nodup_iff.mp (hnd.sublist hsub)

theorem length_of_mem_clusters {c : List (Exported ι V)} (h : c ∈ clusterDuplicates near items) : 1 < c.length := by
  rw [clusterDuplicates, List.mem_insertionSort] at h
  obtain ⟨g, hg, rfl⟩ := List.mem_map.mp h
  rw [newestFirst, List.length_insertionSort]
  simpa using (List.mem_filter.mp hg).2

theorem mem_of_mem_cluster {c : List (Exported ι V)} {f : Exported ι V} (hc : c ∈ clusterDuplicates near items)
    (hf : f ∈ c) : f ∈ items :=
  clusters_subperm.subset (List.mem_flatten.mpr ⟨c, hc, hf⟩)

theorem cluster_unique (hnd : items.Nodup) {c d : List (Exported ι V)} {f : Exported ι V}
    (hc : c ∈ clusterDuplicates near items) (hd : d ∈ clusterDuplicates near items) (hfc : f ∈ c) (hfd : f ∈ d) :
    c = d := by
  have hflat : (clusterDuplicates near items).flatten.Nodup := clusters_flatten_nodup hnd
  have hdis := (List.nodup_flatten.mp hflat).2
  have : Std.Symm (List.Disjoint (α := Exported ι V)) := ⟨fun _ _ h => h.symm⟩
  by_contra hne
  exact hdis.forall hc hd hne hfc hfd

theorem cluster_nodup (hnd : items.Nodup) {c : List (Exported ι V)} (hc : c ∈ clusterDuplicates near items) :
    c.Nodup :=
  (List.nodup_flatten.mp (clusters_flatten_nodup hnd)).1 c hc

end Disjoint

/-! ### What is left -/

section Safe

variable {near : V → V → Bool} {valid : Option (List String)} {coll : Collection ι V} {p f : Exported ι V}

theorem nodup_scanned (coll : Collection ι V) : (scanned coll).Nodup :=
  (List.Nodup.of_map _ coll.nodup).sublist List.filter_sublist

theorem mem_scanned : p ∈ scanned coll ↔ p ∈ coll.points ∧ p.kind = some "fact" := by
  rw [scanned, List.mem_filter, decide_eq_true_eq]

theorem mem_duplicates : p ∈ duplicates near coll ↔ ∃ c ∈ clusterDuplicates near (scanned coll), p ∈ c.tail :=
  List.mem_flatMap

theorem scanned_of_dropped (h : p ∈ duplicates near coll ∨ p ∈ orphansOf valid coll) : p ∈ scanned coll := by
  rcases h with h | h
  · obtain ⟨c, hc, hp⟩ := mem_duplicates.mp h
    exact mem_of_mem_cluster hc (List.mem_of_mem_tail hp)
  · cases valid with
    | none => cases h
    | some v => exact List.mem_of_mem_filter h

variable [DecidableEq ι]

/-- A point is left unless it is a duplicate or an orphan. -/
theorem mem_hygiene (hp : p ∈ coll.points) : p ∈ (memoryHygienePass near valid coll true).2.points ↔
    ¬ (p ∈ duplicates near coll ∨ p ∈ orphansOf valid coll) := by
  have hdel : (memoryHygienePass near valid coll true).2 = coll.delete (deleteIds near valid coll) := rfl
  rw [hdel, Collection.delete, List.mem_filter, decide_eq_true_eq, and_iff_right hp, deleteIds, not_iff_not,
    ← List.mem_append]
  refine ⟨fun h => ?_, fun h => List.mem_map_of_mem h⟩
  obtain ⟨q, hq, hid⟩ := List.mem_map.mp h
  have hq' := (mem_scanned.mp (scanned_of_dropped (List.mem_append.mp hq))).1
  have : q = p := List.inj_on_of_nodup_map coll.nodup hq' hp hid
  exact this ▸ hq

/-- The conversation of the fact exists, or there is none. -/
def Live (db : Db) (f : Exported ι V) : Prop :=
  ∀ cid, f.conversationId = some cid → cid = "" ∨ cid ∈ db.conversations.map Conversation.conversationId

/-- A pass is safe: a live fact is removed only if another fact of its cluster is left,
and nothing but facts is removed. -/
def HygieneSafe (near : V → V → Bool) (valid : Option (List String)) (db : Db) (coll : Collection ι V) : Prop :=
  (∀ f ∈ scanned coll, Live db f → f ∉ (memoryHygienePass near valid coll true).2.points →
    ∃ c ∈ clusterDuplicates near (scanned coll), f ∈ c ∧
      ∃ g ∈ c, g ≠ f ∧ g ∈ (memoryHygienePass near valid coll true).2.points) ∧
  ∀ p ∈ coll.points, p.kind ≠ some "fact" → p ∈ (memoryHygienePass near valid coll true).2.points

/-- The head of a cluster is left unless it is an orphan; the others go. -/
theorem mem_hygiene_of_cluster {c : List (Exported ι V)} {g : Exported ι V}
    (hc : c ∈ clusterDuplicates near (scanned coll)) (hg : g ∈ c) :
    g ∈ (memoryHygienePass near valid coll true).2.points ↔ c.head? = some g ∧ g ∉ orphansOf valid coll := by
  have hscan := mem_of_mem_cluster hc hg
  have hnd := cluster_nodup (nodup_scanned coll) hc
  rw [mem_hygiene (mem_scanned.mp hscan).1, not_or]
  refine and_congr_left fun _ => ?_
  cases c with
  | nil => cases hg
  | cons h t =>
    rw [List.head?_cons, Option.some.injEq]
    constructor
    · intro hdup
      rcases List.mem_cons.mp hg with rfl | hgt
      · rfl
      · exact absurd (mem_duplicates.mpr ⟨_, hc, hgt⟩) hdup
    · rintro rfl hdup
      obtain ⟨d, hd, hgd⟩ := mem_duplicates.mp hdup
      have hcd := cluster_unique (nodup_scanned coll) hc hd hg (List.mem_of_mem_tail hgd)
      rw [← hcd] at hgd
      exact (List.nodup_cons.mp hnd).1 hgd

/-- **When hygiene is safe**: exactly when, for each live fact, the newest fact of its
cluster, or the fact itself if it is in none, is not taken for an orphan. -/
theorem hygiene_safe_iff (near : V → V → Bool) (reads : Bool) (db : Db) (coll : Collection ι V) :
    HygieneSafe near (validCids reads db) db coll ↔ ∀ f ∈ scanned coll, Live db f →
      (∀ c ∈ clusterDuplicates near (scanned coll), f ∈ c → ∀ g ∈ c.head?, g ∉ orphansOf (validCids reads db) coll) ∧
      ((∀ c ∈ clusterDuplicates near (scanned coll), f ∉ c) → f ∉ orphansOf (validCids reads db) coll) := by
  generalize validCids reads db = valid
  constructor
  · rintro ⟨hsafe, -⟩ f hf hlive
    refine ⟨fun c hc hfc g hg horph => ?_, fun hno horph => ?_⟩
    · -- with its newest fact, the whole cluster is removed
      have hgone : ∀ h ∈ c, h ∉ (memoryHygienePass near valid coll true).2.points := by
        intro h hh hleft
        obtain ⟨hhead, hnot⟩ := (mem_hygiene_of_cluster hc hh).mp hleft
        rw [Option.mem_def, hhead, Option.some.injEq] at hg
        exact hnot (hg ▸ horph)
      obtain ⟨d, hd, hfd, h, hh, -, hleft⟩ := hsafe f hf hlive (hgone f hfc)
      have hcd := cluster_unique (nodup_scanned coll) hc hd hfc hfd
      exact hgone h (hcd ▸ hh) hleft
    · have hgone : f ∉ (memoryHygienePass near valid coll true).2.points := fun hleft =>
        (mem_hygiene (mem_scanned.mp hf).1).mp hleft (.inr horph)
      obtain ⟨c, hc, hfc, -⟩ := hsafe f hf hlive hgone
      exact hno c hc hfc
  · intro hcond
    refine ⟨fun f hf hlive hgone => ?_, fun p hp hkind => ?_⟩
    · obtain ⟨hhead, halone⟩ := hcond f hf hlive
      by_cases hin : ∃ c ∈ clusterDuplicates near (scanned coll), f ∈ c
      · obtain ⟨c, hc, hfc⟩ := hin
        have hpos := length_of_mem_clusters hc
        obtain ⟨g, hg⟩ : ∃ g, c.head? = some g := by
          cases c with
          | nil => cases hfc
          | cons g t => exact ⟨g, rfl⟩
        have hgc : g ∈ c := List.mem_of_mem_head? hg
        have hleft := (mem_hygiene_of_cluster hc hgc).mpr ⟨hg, hhead c hc hfc g hg⟩
        refine ⟨c, hc, hfc, g, hgc, ?_, hleft⟩
        rintro rfl
        exact hgone hleft
      · -- a fact in no cluster is removed as an orphan only
        exfalso
        have hnone : ∀ c ∈ clusterDuplicates near (scanned coll), f ∉ c := fun c hc hfc => hin ⟨c, hc, hfc⟩
        refine hgone ((mem_hygiene (mem_scanned.mp hf).1).mpr ?_)
        rintro (hdup | horph)
        · obtain ⟨c, hc, hfc⟩ := mem_duplicates.mp hdup
          exact hnone c hc (List.mem_of_mem_tail hfc)
        · exact halone hnone horph
    · refine (mem_hygiene hp).mpr fun hdrop => hkind ?_
      exact (mem_scanned.mp (scanned_of_dropped hdrop)).2

/-- Two equal facts: the newer of a conversation that was deleted, the older of none. -/
def twice : Collection ℕ ℕ where
  points := [⟨1, some 0, "likes tea", some "fact", 1, none⟩, ⟨2, some 0, "likes tea", some "fact", 2, some "gone"⟩]
  nodup := by decide

/-- The cluster of the two goes altogether, and the older was live. -/
theorem hygiene_not_safe : ¬ HygieneSafe (fun a b => a = b) (validCids true .empty) .empty twice := by
  rintro ⟨hsafe, -⟩
  have hleft : (memoryHygienePass (fun a b => a = b) (validCids true .empty) twice true).2.points.length = 0 := by
    decide
  have hnil := List.length_eq_zero_iff.mp hleft
  have hlive : Live Db.empty (⟨1, some 0, "likes tea", some "fact", 1, none⟩ : Exported ℕ ℕ) := by
    rintro cid ⟨⟩
  obtain ⟨c, -, -, g, -, -, hg⟩ := hsafe ⟨1, some 0, "likes tea", some "fact", 1, none⟩ List.mem_cons_self hlive
    (by rw [hnil]; exact List.not_mem_nil)
  rw [hnil] at hg
  cases hg

end Safe

end Persona.Memory
