import Persona.Rag.Store
import Mathlib.Data.List.Forall2

/-!
# Promotion

`promote` of `services/api/sorting_line.py`: the selected documents of a bin's
provisional collection are added to its mature collection one by one, and then deleted
from the provisional one all together. The store reports no failed `add`, and a failed
`delete` only by what it returns, which is not looked at; and a `select` that raises ends
the call between the two.

`Moved` says what a promotion is for: some of the documents are now in the other
collection, each once, and everything else is where it was. `conserves_iff` says exactly
which calls keep to that, over any number of them.
-/

namespace Persona.SortingLine

open Persona.Rag Persona.TaskBoard

variable {V : Type*}

/-- `provisional_collection`. -/
def provisionalCollection (binName : String) : String := "sl_" ++ binName ++ "__provisional"

/-- `mature_collection`. -/
def matureCollection (binName : String) : String := "sl_" ++ binName

/-- `mature_alias`. -/
def matureAlias (binName : String) : String := "sl_" ++ binName ++ "_current"

theorem provisional_ne_mature (binName : String) : provisionalCollection binName ≠ matureCollection binName := by
  intro h
  have := congrArg String.length h
  simp [provisionalCollection, matureCollection] at this

/-- A call of `promote`: its arguments, and what it meets. -/
structure Promote where
  backend : Backend
  /-- Where `export_points` ends early. -/
  stop : Option ℕ
  /-- `select(meta)`, the argument or `age_trigger`'s; `none` when it raises. -/
  select : Dict → Option Bool
  /-- Whether the `n`-th `add` stores its point. -/
  stores : ℕ → Bool
  /-- `int(time.time())` at the `n`-th `add`. -/
  time : ℕ → ℤ
  /-- Whether the `delete` works. -/
  deletes : Bool
  /-- `set_alias`, the argument, and whether the store's call of that name returns true. -/
  setAlias : Bool
  aliases : Bool

/-- `new_meta`. -/
def newMeta (now : ℤ) (metadata : Dict) : Dict :=
  update metadata ((item "status" (.str "mature")).insert "promoted_at" (.int now))

/-- What `promote` returns. -/
structure Summary where
  binName : String
  promoted : ℕ
  deleted : ℕ
  origin : String
  target : String
  aliasName : Option String

/-- The loop of `promote`, from the `n`-th `add` on: `promoted_ids`, or `none` when
`select` raises, and the store. -/
def promotePoints (binName : String) (C : Promote) (n : ℕ) : List (Point V) → Store V → Option (List ℕ) × Store V
  | [], S => (some [], S)
  | p :: ps, S =>
    match C.select p.metadata, p.vector with
    | none, _ => (none, S)
    | some true, some v =>
      let r := promotePoints binName C (n + 1) ps
        (S.add (C.stores n) (matureCollection binName) p.document v (newMeta (C.time n) p.metadata))
      (r.1.map (p.id :: ·), r.2)
    | some _, _ => promotePoints binName C n ps S

/-- `promote`; `none` when it raises. -/
def promote (binName : String) (C : Promote) (S : Store V) : Option Summary × Store V :=
  let prov := provisionalCollection binName
  match promotePoints binName C 0 (S.exportPoints C.stop prov) S with
  | (none, S) => (none, S)
  | (some ids, S) =>
    let d := if ids = [] then (0, S) else S.delete C.backend C.deletes prov ids
    let aliasOk := C.setAlias && ids ≠ [] && C.aliases
    (some ⟨binName, ids.length, d.1, prov, matureCollection binName,
      if aliasOk then some (matureAlias binName) else none⟩, d.2)

/-- Calls of `promote`, one after the other. -/
def promotes (binName : String) (Cs : List Promote) (S : Store V) : Store V :=
  Cs.foldl (fun S C => (promote binName C S).2) S

/-! ### What promotion is for -/

/-- The document in the mature collection: the same but for `status` and `promoted_at`. -/
structure Copy (binName : String) (p q : Point V) : Prop where
  collection : q.collection = matureCollection binName
  document : q.document = p.document
  vector : q.vector = p.vector
  status : q.metadata.lookup "status" = some (.str "mature")
  metadata : ∀ k, k ≠ "status" → k ≠ "promoted_at" → q.metadata.lookup k = p.metadata.lookup k

/-- Some provisional documents, all of which `Sel` holds of, have moved to the mature
collection, each to one copy; every other document is as it was. -/
def Moved (binName : String) (Sel : Point V → Prop) (S S' : Store V) : Prop :=
  ∃ T T', (T.map Point.id).Nodup ∧ (∀ p ∈ T, p ∈ S.coll (provisionalCollection binName) ∧ Sel p) ∧
    List.Forall₂ (Copy binName) T T' ∧ S'.points.Perm ((S.points.filter fun p => p.id ∉ T.map Point.id) ++ T')

/-- One of the calls selects the document, which has a vector. -/
def Selected (Cs : List Promote) (p : Point V) : Prop :=
  p.vector.isSome ∧ ∃ C ∈ Cs, C.select p.metadata = some true

/-- After each of the calls, documents that were selected have moved and nothing else has
happened: no document is lost, and none has a second copy. -/
def Conserves (binName : String) (Cs : List Promote) (S : Store V) : Prop :=
  ∀ n ≤ Cs.length, Moved binName (Selected (Cs.take n)) S (promotes binName (Cs.take n) S)

/-! ### One call -/

section

variable {binName : String} {C : Promote} {Cs : List Promote} {n : ℕ} {ps : List (Point V)} {S S₀ S' : Store V}
  {p : Point V} {Sel Sel' : Point V → Prop}

/-- The documents a call adds: the selected ones with a vector, up to one of which
`select` raises. -/
def selected (C : Promote) : List (Point V) → List (Point V)
  | [] => []
  | p :: ps =>
    match C.select p.metadata with
    | none => []
    | some b => if b ∧ p.vector.isSome then p :: selected C ps else selected C ps

/-- `select` raises. -/
def selectRaises (C : Promote) (ps : List (Point V)) : Bool := ps.any fun p => (C.select p.metadata).isNone

/-- Of the selected documents, those whose `add` stores them. -/
def stored (C : Promote) (n : ℕ) : List (Point V) → List (Point V)
  | [] => []
  | p :: ps => if C.stores n then p :: stored C (n + 1) ps else stored C (n + 1) ps

/-- The call gets to its `delete`, and that works. -/
def completes (binName : String) (C : Promote) (S : Store V) : Bool :=
  !selectRaises C (S.exportPoints C.stop (provisionalCollection binName)) && C.deletes

/-- The documents that a call selects. -/
def chosen (binName : String) (C : Promote) (S : Store V) : List (Point V) :=
  selected C (S.exportPoints C.stop (provisionalCollection binName))

/-- Every `add` stores its document if the `delete` will work, and none does if it will not. -/
def Careful (binName : String) (C : Promote) (S : Store V) : Prop :=
  ∀ n < (chosen binName C S).length, C.stores n = completes binName C S

/-- Each of the calls is careful. -/
def CarefulRun (binName : String) : List Promote → Store V → Prop
  | [], _ => True
  | C :: Cs, S => Careful binName C S ∧ CarefulRun binName Cs (promote binName C S).2

theorem selected_cons (C : Promote) (p : Point V) (ps : List (Point V)) : selected C (p :: ps) =
    match C.select p.metadata with
    | none => []
    | some b => if b ∧ p.vector.isSome then p :: selected C ps else selected C ps := rfl

theorem stored_cons (C : Promote) (n : ℕ) (p : Point V) (ps : List (Point V)) :
    stored C n (p :: ps) = if C.stores n then p :: stored C (n + 1) ps else stored C (n + 1) ps := rfl

theorem selected_sublist : (selected C ps).Sublist ps := by
  induction ps with
  | nil => exact .slnil
  | cons p ps ih =>
    rw [selected_cons]
    split
    · exact List.nil_sublist _
    · split_ifs
      · exact ih.cons_cons p
      · exact ih.cons p

theorem of_mem_selected (h : p ∈ selected C ps) : p.vector.isSome ∧ C.select p.metadata = some true := by
  induction ps with
  | nil => cases h
  | cons q ps ih =>
    rw [selected_cons] at h
    split at h
    · cases h
    · next b hb =>
      split_ifs at h with hsel
      · rcases List.mem_cons.mp h with rfl | h
        · exact ⟨hsel.2, by rw [hb, hsel.1]⟩
        · exact ih h
      · exact ih h

theorem stored_sublist : (stored C n ps).Sublist ps := by
  induction ps generalizing n with
  | nil => exact .slnil
  | cons p ps ih =>
    rw [stored_cons]
    split_ifs
    · exact ih.cons_cons p
    · exact ih.cons p

/-- All is stored when every `add` stores. -/
theorem stored_eq_self_iff : stored C n ps = ps ↔ ∀ k < ps.length, C.stores (n + k) = true := by
  induction ps generalizing n with
  | nil => exact iff_of_true rfl fun k hk => absurd hk (Nat.not_lt_zero k)
  | cons p ps ih =>
    rw [stored_cons]
    cases hst : C.stores n with
    | true =>
      rw [if_pos rfl, List.cons.injEq, ih]
      constructor
      · rintro ⟨-, h⟩ k hk
        cases k with
        | zero => simpa using hst
        | succ k => simpa [Nat.add_assoc, Nat.add_comm 1 k] using h k (by simpa using hk)
      · intro h
        refine ⟨rfl, fun k hk => ?_⟩
        simpa [Nat.add_assoc, Nat.add_comm 1 k] using h (k + 1) (by simpa using hk)
    | false =>
      rw [if_neg (by simp)]
      constructor
      · intro h
        have hle : (stored C (n + 1) ps).length ≤ ps.length := stored_sublist.length_le
        rw [h, List.length_cons] at hle
        omega
      · intro h
        have := h 0 (by simp)
        simp [hst] at this

/-- Nothing is stored when no `add` stores. -/
theorem stored_eq_nil_iff : stored C n ps = [] ↔ ∀ k < ps.length, C.stores (n + k) = false := by
  induction ps generalizing n with
  | nil => exact iff_of_true rfl fun k hk => absurd hk (Nat.not_lt_zero k)
  | cons p ps ih =>
    rw [stored_cons]
    cases hst : C.stores n with
    | true =>
      rw [if_pos rfl]
      constructor
      · intro h
        cases h
      · intro h
        have := h 0 (by simp)
        simp [hst] at this
    | false =>
      rw [if_neg (by simp), ih]
      constructor
      · intro h k hk
        cases k with
        | zero => simpa using hst
        | succ k => simpa [Nat.add_assoc, Nat.add_comm 1 k] using h k (by simpa using hk)
      · intro h k hk
        simpa [Nat.add_assoc, Nat.add_comm 1 k] using h (k + 1) (by simpa using hk)

theorem copy_newMeta {v : V} (id : ℕ) (now : ℤ) (hv : p.vector = some v) :
    Copy binName p ⟨id, matureCollection binName, p.document, some v, newMeta now p.metadata⟩ where
  collection := rfl
  document := rfl
  vector := hv.symm
  status := by
    rw [newMeta, lookup_update, AList.lookup_insert_ne (by decide)]
    rfl
  metadata k hs hp := by
    rw [newMeta, lookup_update, AList.lookup_insert_ne hp, lookup_item_ne hs]
    rfl

/-- **What the loop does**: it adds the selected documents, as far as the store takes
them, and returns their ids if `select` does not raise. -/
theorem promotePoints_spec (binName : String) (C : Promote) (n : ℕ) (ps : List (Point V)) (S : Store V) :
    (promotePoints binName C n ps S).1 =
        (if selectRaises C ps then none else some ((selected C ps).map Point.id)) ∧
      ∃ T', List.Forall₂ (Copy binName) (stored C n (selected C ps)) T' ∧
        (promotePoints binName C n ps S).2.points = S.points ++ T' := by
  induction ps generalizing n S with
  | nil => exact ⟨rfl, [], .nil, (List.append_nil _).symm⟩
  | cons p ps ih =>
    have hraises : selectRaises C (p :: ps) = ((C.select p.metadata).isNone || selectRaises C ps) := List.any_cons
    rw [promotePoints, selected_cons, hraises]
    cases hsel : C.select p.metadata with
    | none => exact ⟨rfl, [], .nil, (List.append_nil _).symm⟩
    | some b =>
      cases hv : p.vector with
      | none =>
        obtain ⟨h₁, h₂⟩ := ih n S
        simpa using ⟨h₁, h₂⟩
      | some v =>
        cases b with
        | false =>
          obtain ⟨h₁, h₂⟩ := ih n S
          simpa using ⟨h₁, h₂⟩
        | true =>
          let S₁ := S.add (C.stores n) (matureCollection binName) p.document v (newMeta (C.time n) p.metadata)
          obtain ⟨h₁, T', hcopy, hpoints⟩ := ih (n + 1) S₁
          have hnew : (promotePoints binName C (n + 1) ps S₁).2.points = S.points ++ ((if C.stores n then
              [⟨S.lastId + 1, matureCollection binName, p.document, some v, newMeta (C.time n) p.metadata⟩] else []) ++
                T') := by
            rw [hpoints, Store.points_add, List.append_assoc]
          constructor
          · simp only [Option.isNone_some, Option.isSome_some, Bool.false_or, and_self, if_true, S₁] at h₁ ⊢
            rw [h₁]
            split_ifs <;> simp
          · simp only [Option.isSome_some, and_self, if_true]
            refine ⟨_, ?_, hnew⟩
            rw [stored_cons]
            cases C.stores n with
            | true => exact .cons (copy_newMeta (S.lastId + 1) (C.time n) hv) hcopy
            | false => exact hcopy

theorem collection_of_copies {T T' : List (Point V)} (h : List.Forall₂ (Copy binName) T T') :
    ∀ q ∈ T', q.collection = matureCollection binName := by
  induction h with
  | nil => simp
  | cons hcopy _ ih => simpa [hcopy.collection] using ih

theorem mem_chosen (h : p ∈ chosen binName C S) :
    p ∈ S.coll (provisionalCollection binName) ∧ Selected [C] p := by
  obtain ⟨hvec, hsel⟩ := of_mem_selected h
  exact ⟨(Store.exportPoints_sublist _).subset (selected_sublist.subset h), hvec, C, List.mem_singleton_self C, hsel⟩

theorem nodup_chosen : ((chosen binName C S).map Point.id).Nodup :=
  (S.nodup_coll _).sublist (((selected_sublist).trans (Store.exportPoints_sublist _)).map _)

/-- **What a call does**: it adds copies of what the store takes of the chosen documents,
and takes these away if it completes. -/
theorem promote_points (binName : String) (C : Promote) (S : Store V) :
    ∃ T', List.Forall₂ (Copy binName) (stored C 0 (chosen binName C S)) T' ∧
      (promote binName C S).2.points =
        (if completes binName C S then S.points.filter (fun p => p.id ∉ (chosen binName C S).map Point.id)
          else S.points) ++ T' := by
  obtain ⟨hids, T', hcopy, hpoints⟩ :=
    promotePoints_spec binName C 0 (S.exportPoints C.stop (provisionalCollection binName)) S
  refine ⟨T', hcopy, ?_⟩
  rw [promote, completes]
  rcases hr : promotePoints binName C 0 (S.exportPoints C.stop (provisionalCollection binName)) S with ⟨ids, S₁⟩
  simp only [hr] at hids hpoints
  subst hids
  cases hraises : selectRaises C (S.exportPoints C.stop (provisionalCollection binName)) with
  | true => simpa [hraises] using hpoints
  | false =>
    simp only [Bool.false_eq_true, if_false, Bool.not_false, Bool.true_and]
    -- the copies are in the mature collection, where nothing is deleted
    have hkept : T'.filter (fun p => ¬ (p.collection = provisionalCollection binName ∧
        p.id ∈ (chosen binName C S).map Point.id)) = T' := by
      rw [List.filter_eq_self]
      intro q hq
      simp [collection_of_copies hcopy q hq, (provisional_ne_mature binName).symm]
    have hgone : S.points.filter (fun p => ¬ (p.collection = provisionalCollection binName ∧
        p.id ∈ (chosen binName C S).map Point.id)) =
        S.points.filter fun p => p.id ∉ (chosen binName C S).map Point.id := by
      refine List.filter_congr fun p hp => ?_
      have hcoll : p.id ∈ (chosen binName C S).map Point.id → p.collection = provisionalCollection binName := by
        intro hid
        obtain ⟨q, hq, hqp⟩ := List.mem_map.mp hid
        obtain ⟨hq₁, hq₂⟩ := Store.mem_coll.mp (mem_chosen hq).1
        rw [← Store.point_ext hq₁ hp hqp, hq₂]
      simp only [decide_eq_decide, not_and]
      exact ⟨fun h hid => h (hcoll hid) hid, fun h _ hid => h hid⟩
    change (if (chosen binName C S).map Point.id = [] then (0, S₁) else
      S₁.delete C.backend C.deletes (provisionalCollection binName) ((chosen binName C S).map Point.id)).2.points = _
    by_cases hnil : chosen binName C S = []
    · simp [hnil, hpoints]
    · rw [if_neg (by simpa using hnil), Store.delete_snd]
      cases C.deletes with
      | false => simpa using hpoints
      | true => rw [if_pos rfl, if_pos rfl, Store.points_remove, hpoints, List.filter_append, hgone, hkept]

/-! ### What keeps to the move -/

theorem length_filter_notMem {T : List (Point V)} (hnd : (T.map Point.id).Nodup) (hT : ∀ p ∈ T, p ∈ S.points) :
    (S.points.filter fun p => p.id ∉ T.map Point.id).length + T.length = S.points.length := by
  have hsplit := (List.filter_append_perm (fun p => decide (p.id ∈ T.map Point.id)) S.points).length_eq
  rw [List.length_append, (Store.filter_mem_perm hnd hT).length_eq] at hsplit
  simp only [← decide_not] at hsplit
  omega

theorem Moved.refl (Sel : Point V → Prop) (S : Store V) : Moved binName Sel S S :=
  ⟨[], [], by simp, by simp, .nil, by simp⟩

theorem Moved.mono (h : Moved binName Sel S S') (hsub : ∀ p, Sel p → Sel' p) : Moved binName Sel' S S' := by
  obtain ⟨T, T', hnd, hT, hcopy, hperm⟩ := h
  exact ⟨T, T', hnd, fun p hp => ⟨(hT p hp).1, hsub p (hT p hp).2⟩, hcopy, hperm⟩

/-- A move keeps the number of points. -/
theorem Moved.length_eq (h : Moved binName Sel S S') : S'.points.length = S.points.length := by
  obtain ⟨T, T', hnd, hT, hcopy, hperm⟩ := h
  have hlen := length_filter_notMem hnd fun p hp => (Store.mem_coll.mp (hT p hp).1).1
  rw [hperm.length_eq, List.length_append, ← hcopy.length_eq]
  exact hlen

/-- A provisional document that is still there was there at the start and has not moved. -/
theorem provisional_of_moved {T T' : List (Point V)} (hcopy : List.Forall₂ (Copy binName) T T')
    (hperm : S.points.Perm ((S₀.points.filter fun p => p.id ∉ T.map Point.id) ++ T'))
    (hp : p ∈ S.coll (provisionalCollection binName)) :
    p ∈ S₀.coll (provisionalCollection binName) ∧ p.id ∉ T.map Point.id := by
  obtain ⟨hmem, hcoll⟩ := Store.mem_coll.mp hp
  rcases List.mem_append.mp (hperm.subset hmem) with h | h
  · obtain ⟨h₁, h₂⟩ := List.mem_filter.mp h
    exact ⟨Store.mem_coll.mpr ⟨h₁, hcoll⟩, of_decide_eq_true h₂⟩
  · rw [collection_of_copies hcopy p h] at hcoll
    exact absurd hcoll.symm (provisional_ne_mature binName)

/-- A move of further documents goes on from a move. -/
theorem Moved.append {T₂ T₂' : List (Point V)} (h : Moved binName Sel S₀ S) (hnd₂ : (T₂.map Point.id).Nodup)
    (hT₂ : ∀ p ∈ T₂, p ∈ S.coll (provisionalCollection binName) ∧ Sel p)
    (hcopy₂ : List.Forall₂ (Copy binName) T₂ T₂')
    (hpoints : S'.points = (S.points.filter fun p => p.id ∉ T₂.map Point.id) ++ T₂') : Moved binName Sel S₀ S' := by
  obtain ⟨T, T', hnd, hT, hcopy, hperm⟩ := h
  have hold : ∀ p ∈ T₂, p ∈ S₀.coll (provisionalCollection binName) ∧ p.id ∉ T.map Point.id := fun p hp =>
    provisional_of_moved hcopy hperm (hT₂ p hp).1
  refine ⟨T ++ T₂, T' ++ T₂', ?_, ?_, List.rel_append hcopy hcopy₂, ?_⟩
  · rw [List.map_append]
    refine hnd.append hnd₂ fun id hid hid₂ => ?_
    obtain ⟨p, hp, rfl⟩ := List.mem_map.mp hid₂
    exact (hold p hp).2 hid
  · intro p hp
    rcases List.mem_append.mp hp with hp | hp
    · exact hT p hp
    · exact ⟨(hold p hp).1, (hT₂ p hp).2⟩
  · -- the copies made so far stay
    have hkept : T'.filter (fun p => p.id ∉ T₂.map Point.id) = T' := by
      rw [List.filter_eq_self]
      intro q hq
      rw [decide_eq_true_eq]
      intro hid
      obtain ⟨p, hp, hpq⟩ := List.mem_map.mp hid
      obtain ⟨hpS, hpcoll⟩ := Store.mem_coll.mp (hT₂ p hp).1
      have hqS : q ∈ S.points := hperm.mem_iff.mpr (List.mem_append_right _ hq)
      rw [Store.point_ext hpS hqS hpq, collection_of_copies hcopy q hq] at hpcoll
      exact provisional_ne_mature binName hpcoll.symm
    have hfilter := hperm.filter fun p => decide (p.id ∉ T₂.map Point.id)
    rw [List.filter_append, List.filter_filter, hkept] at hfilter
    rw [hpoints, ← List.append_assoc]
    refine (hfilter.append_right T₂').trans (List.Perm.of_eq ?_)
    congr 2
    refine List.filter_congr fun p _ => ?_
    simp only [List.map_append, List.mem_append, not_or, Bool.decide_and]
    rw [Bool.and_comm]

/-- **A call keeps to the move** exactly when it is careful. -/
theorem moved_promote_iff (h : Moved binName Sel S₀ S) (hsub : ∀ p, Sel p → Sel' p)
    (hC : ∀ p, Selected [C] p → Sel' p) : Moved binName Sel' S₀ (promote binName C S).2 ↔ Careful binName C S := by
  obtain ⟨T', hcopy, hpoints⟩ := promote_points binName C S
  have hchosen : ∀ p ∈ chosen binName C S, p ∈ S.points := fun p hp => (Store.mem_coll.mp (mem_chosen hp).1).1
  have hcount := length_filter_notMem nodup_chosen hchosen
  have hlen := congrArg List.length hpoints
  rw [List.length_append, ← hcopy.length_eq] at hlen
  rw [Careful]
  constructor
  · intro h'
    rw [h'.length_eq, ← h.length_eq] at hlen
    cases hc : completes binName C S with
    | true =>
      rw [hc, if_pos rfl] at hlen
      have hall := stored_sublist.eq_of_length (show (stored C 0 (chosen binName C S)).length = _ by omega)
      simpa using stored_eq_self_iff.mp hall
    | false =>
      rw [hc, if_neg (by simp)] at hlen
      have hnone : stored C 0 (chosen binName C S) = [] := List.length_eq_zero_iff.mp (by omega)
      simpa using stored_eq_nil_iff.mp hnone
  · intro hcare
    cases hc : completes binName C S with
    | true =>
      rw [hc] at hcare hpoints
      rw [stored_eq_self_iff.mpr (by simpa using hcare)] at hcopy
      refine (h.mono hsub).append nodup_chosen (fun p hp => ?_) hcopy (by simpa using hpoints)
      exact ⟨(mem_chosen hp).1, hC p (mem_chosen hp).2⟩
    | false =>
      rw [hc] at hcare hpoints
      rw [stored_eq_nil_iff.mpr (by simpa using hcare), List.forall₂_nil_left_iff] at hcopy
      rw [hcopy] at hpoints
      obtain ⟨T, T', hnd, hT, hcopy, hperm⟩ := h.mono hsub
      exact ⟨T, T', hnd, hT, hcopy, by simpa [hpoints] using hperm⟩

/-- The calls after `Cs`, from a store that they have led to. -/
theorem conserves_from_iff {Ds : List Promote} (h : Moved binName (Selected Cs) S₀ S) :
    (∀ n ≤ Ds.length, Moved binName (Selected (Cs ++ Ds.take n)) S₀ (promotes binName (Ds.take n) S)) ↔
      CarefulRun binName Ds S := by
  induction Ds generalizing Cs S with
  | nil => simpa [CarefulRun, promotes] using h
  | cons C Ds ih =>
    have hsub : ∀ p : Point V, Selected Cs p → Selected (Cs ++ [C]) p := fun p ⟨hv, D, hD, hsel⟩ =>
      ⟨hv, D, List.mem_append_left _ hD, hsel⟩
    have hC : ∀ p : Point V, Selected [C] p → Selected (Cs ++ [C]) p := fun p ⟨hv, D, hD, hsel⟩ =>
      ⟨hv, D, List.mem_append_right _ hD, hsel⟩
    have hone := moved_promote_iff (C := C) h hsub hC
    rw [CarefulRun, ← hone]
    constructor
    · intro hall
      have hfirst : Moved binName (Selected (Cs ++ [C])) S₀ (promote binName C S).2 := by
        simpa [promotes] using hall 1 (by simp)
      refine ⟨hfirst, (ih hfirst).mp fun n hn => ?_⟩
      simpa [promotes] using hall (n + 1) (by simpa using hn)
    · intro ⟨hfirst, hrest⟩ n hn
      cases n with
      | zero => simpa [promotes] using h
      | succ n => simpa [promotes] using (ih hfirst).mpr hrest n (by simpa using hn)

end

/-- **Promotion conserves the documents**, after each of any number of calls, exactly when
in each call every `add` of a selected document stores it if the call goes on to a
`delete` that works, and none does if it does not. -/
theorem conserves_iff (binName : String) (Cs : List Promote) (S : Store V) :
    Conserves binName Cs S ↔ CarefulRun binName Cs S := by
  have h : _ ↔ CarefulRun binName Cs S := conserves_from_iff (Moved.refl (Selected []) S)
  simpa [Conserves] using h

/-- A provisional collection with one document. -/
def onePoint : Store ℕ := Store.empty.add true (provisionalCollection "misc") "text" 0 ∅

/-- A call whose `add` is dropped and whose `delete` works. -/
def dropped : Promote := ⟨.qdrant, none, fun _ => some true, fun _ => false, fun _ => 0, true, false, false⟩

/-- The document is lost. -/
theorem not_conserves : ¬ Conserves "misc" [dropped] onePoint := by
  intro h
  have hlen := (h 1 (by decide)).length_eq
  exact absurd hlen (by decide)

end Persona.SortingLine
