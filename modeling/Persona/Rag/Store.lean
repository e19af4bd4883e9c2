import Persona.Lib.PyText
import Persona.TaskBoard.Store
import Mathlib.Data.List.Perm.Subperm

/-!
# The vector store

`services/api/ragstore.py`: the operations that `ChromaStore` and `QdrantStore` offer.
Both wrap a client and swallow whatever it raises, so that a failed operation shows in
nothing but what it returns: `add` returns nothing in any case, `delete` a number, and
the reads return fewer points.

The points of all collections are kept in one list. Their ids are drawn at random
(`uuid4`), and for Qdrant hashed to an integer; that a new id is not one drawn before is
part of the type, which numbers the ids in the order of their drawing. The order of the
list stands for the order in which the client happens to keep its points.
-/

namespace Persona.Rag

open Persona.Lib Persona.TaskBoard

variable {V : Type*}

/-- A point. -/
structure Point (V : Type*) where
  id : ℕ
  collection : String
  document : String
  /-- The vector; Chroma may have none. -/
  vector : Option V
  /-- `meta`. -/
  metadata : Dict

/-- The store. -/
structure Store (V : Type*) where
  points : List (Point V)
  /-- The last id drawn. -/
  lastId : ℕ
  nodup : (points.map Point.id).Nodup
  id_le_lastId : ∀ p ∈ points, p.id ≤ lastId

/-- The two stores. -/
inductive Backend where
  | chroma | qdrant

/-- The client's search: the points it ranks, nearest first. -/
structure Search (V : Type*) where
  nearest : V → List (Point V) → List (Point V)
  /-- It ranks points it is given, each at most once. -/
  subperm : ∀ v ps, (nearest v ps).Subperm ps

namespace Store

/-- A store with no points. -/
def empty : Store V := ⟨[], 0, List.nodup_nil, fun _ h => nomatch h⟩

variable (S : Store V)

/-- The points of a collection. -/
def coll (c : String) : List (Point V) := S.points.filter fun p => p.collection = c

/-! ### Writes -/

/-- `add` under a new id; it stores the point if the collection can be opened and the
client's call returns. -/
def add (stores : Bool) (c text : String) (vector : V) (metadata : Dict) : Store V :=
  if stores then
    { points := S.points ++ [⟨S.lastId + 1, c, text, some vector, metadata⟩]
      lastId := S.lastId + 1
      nodup := by
        rw [List.map_append]
        refine S.nodup.append (List.nodup_singleton _) fun id hid hnew => ?_
        obtain ⟨p, hp, rfl⟩ := List.mem_map.mp hid
        have hle := S.id_le_lastId p hp
        have heq : p.id = S.lastId + 1 := by simpa using hnew
        omega
      id_le_lastId := by
        intro p hp
        rcases List.mem_append.mp hp with h | h
        · exact Nat.le_succ_of_le (S.id_le_lastId p h)
        · rw [List.mem_singleton.mp h] }
  else S

/-- The store without the points of a collection that have these ids. -/
def remove (c : String) (ids : List ℕ) : Store V :=
  { S with
    points := S.points.filter fun p => ¬ (p.collection = c ∧ p.id ∈ ids)
    nodup := S.nodup.sublist (List.filter_sublist.map _)
    id_le_lastId := fun p hp => S.id_le_lastId p (List.mem_of_mem_filter hp) }

/-- `delete`, and what it returns: nothing is deleted when a call on the client raises.
Qdrant counts the points it finds, Chroma the ids it is given. -/
def delete (B : Backend) (works : Bool) (c : String) (ids : List ℕ) : ℕ × Store V :=
  if works = false ∨ ids = [] then (0, S)
  else (match B with
    | .chroma => ids.length
    | .qdrant => (ids.filter fun id => id ∈ (S.coll c).map Point.id).length, S.remove c ids)

/-! ### Reads -/

/-- `export_points`; it ends early when a call on the client raises. -/
def exportPoints (stop : Option ℕ) (c : String) : List (Point V) :=
  match stop with
  | none => S.coll c
  | some n => (S.coll c).take n

/-- `_kinds`. -/
def kinds (filter : List String) : List String :=
  (filter.map fun k => PyText.lower (PyText.strip k)).filter (· ≠ "")

/-- The point has one of the kinds. -/
def hasKind (ks : List String) (p : Point V) : Bool :=
  match getKey p.metadata "kind" with
  | .str k => k ∈ ks
  | _ => false

/-- `query_detailed`, and with the documents alone `query`; nothing is found when a call
on the client raises. -/
def query (E : Search V) (answers : Bool) (c : String) (v : V) (k : ℤ) (filter : List String) : List (Point V) :=
  if k ≤ 0 ∨ answers = false then []
  else
    let ps := if (kinds filter).isEmpty then S.coll c else (S.coll c).filter (hasKind (kinds filter))
    (E.nearest v ps).take k.toNat

/-! ### What the operations do -/

variable {S} {p : Point V} {c c' text : String} {vector : V} {metadata : Dict} {ids : List ℕ} {B : Backend}
  {stores works : Bool}

theorem mem_coll : p ∈ S.coll c ↔ p ∈ S.points ∧ p.collection = c := by
  rw [coll, List.mem_filter, decide_eq_true_eq]

/-- A point is determined by its id. -/
theorem point_ext {p q : Point V} (hp : p ∈ S.points) (hq : q ∈ S.points) (h : p.id = q.id) : p = q :=
  List.inj_on_of_nodup_map S.nodup hp hq h

/-- Of the points, those with the ids of some of them are these. -/
theorem filter_mem_perm {T : List (Point V)} (hnd : (T.map Point.id).Nodup) (hT : ∀ p ∈ T, p ∈ S.points) :
    (S.points.filter fun p => p.id ∈ T.map Point.id).Perm T := by
  have hpoints : S.points.Nodup := List.Nodup.of_map _ S.nodup
  rw [List.perm_ext_iff_of_nodup (hpoints.filter _) (List.Nodup.of_map _ hnd)]
  intro p
  simp only [List.mem_filter, decide_eq_true_eq]
  constructor
  · intro ⟨hp, hid⟩
    obtain ⟨q, hq, hqp⟩ := List.mem_map.mp hid
    rwa [← point_ext (hT q hq) hp hqp]
  · intro hp
    exact ⟨hT p hp, List.mem_map_of_mem hp⟩

@[simp] theorem points_add_true : (S.add true c text vector metadata).points =
    S.points ++ [⟨S.lastId + 1, c, text, some vector, metadata⟩] := rfl

@[simp] theorem add_false : S.add false c text vector metadata = S := rfl

theorem points_add : (S.add stores c text vector metadata).points =
    S.points ++ if stores then [⟨S.lastId + 1, c, text, some vector, metadata⟩] else [] := by
  cases stores <;> simp

@[simp] theorem points_remove : (S.remove c ids).points = S.points.filter fun p => ¬ (p.collection = c ∧ p.id ∈ ids) :=
  rfl

theorem mem_remove : p ∈ (S.remove c ids).points ↔ p ∈ S.points ∧ ¬ (p.collection = c ∧ p.id ∈ ids) := by
  rw [points_remove, List.mem_filter, decide_eq_true_eq]

/-- Deleting no ids changes nothing. -/
theorem remove_nil : S.remove c [] = S := by
  simp [remove]

theorem delete_snd : (S.delete B works c ids).2 = if works then S.remove c ids else S := by
  unfold delete
  cases works with
  | false => simp
  | true =>
    by_cases hids : ids = []
    · simp [hids, remove_nil]
    · simp [hids]

/-- What `delete` leaves. -/
theorem mem_delete : p ∈ (S.delete B works c ids).2.points ↔
    p ∈ S.points ∧ ¬ (works = true ∧ p.collection = c ∧ p.id ∈ ids) := by
  rw [delete_snd]
  cases works with
  | false => simp
  | true => simp only [if_true, mem_remove, true_and]

theorem exportPoints_sublist (stop : Option ℕ) : (S.exportPoints stop c).Sublist (S.coll c) := by
  cases stop with
  | none => exact .refl _
  | some n => exact List.take_sublist _ _

theorem mem_exportPoints {stop : Option ℕ} (h : p ∈ S.exportPoints stop c) : p ∈ S.points ∧ p.collection = c :=
  mem_coll.mp ((exportPoints_sublist stop).subset h)

theorem nodup_coll (c : String) : ((S.coll c).map Point.id).Nodup := S.nodup.sublist (List.filter_sublist.map _)

/-- What a query finds is in the collection, and each point is found once. -/
theorem query_subperm {E : Search V} {answers : Bool} {v : V} {k : ℤ} {filter : List String} :
    (S.query E answers c v k filter).Subperm (S.coll c) := by
  rw [query]
  split_ifs
  · exact List.nil_subperm
  · exact (List.take_sublist _ _).subperm.trans (E.subperm v _)
  · exact (List.take_sublist _ _).subperm.trans ((E.subperm v _).trans List.filter_sublist.subperm)

/-- With a filter, what a query finds has one of the kinds. -/
theorem hasKind_of_mem_query {E : Search V} {answers : Bool} {v : V} {k : ℤ} {filter : List String}
    (hks : (kinds filter).isEmpty = false) (h : p ∈ S.query E answers c v k filter) : hasKind (kinds filter) p = true := by
  rw [query] at h
  split_ifs at h with hk hnil
  · cases h
  · rw [hks] at hnil
    cases hnil
  · exact List.of_mem_filter ((E.subperm v _).subset (List.mem_of_mem_take h))

end Store

end Persona.Rag
