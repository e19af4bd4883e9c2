import Persona.Lib.Run
import Persona.Lib.Table
import Persona.Json
import Mathlib.Data.Finmap

/-!
# The two backends side by side

`ChromaStore` and `QdrantStore` over clients that keep a collection as a table: Chroma's
`add` leaves an id alone that is there, Qdrant's `upsert` overwrites it, and no call raises.
`QdrantStore.add` stores a point under `_point_id` of the document's id and the document in
the payload; `delete` looks for the ids as it is given them.

The same calls are made on both. They hold the same after each call, and each `delete`
returns the same, exactly when every call is one that they treat alike (`agree_iff`).
-/

namespace Persona.Rag.Backends

open Persona.Lib

variable {V : Type*}

/-- A dictionary; the order of its items does not matter. -/
abbrev Dict := Finmap fun _ : String => Json

/-- What is known of a document: its text, its vector and its metadata. -/
structure Entry (V : Type*) where
  document : Json
  vector : V
  metadata : Dict

/-! ### Chroma -/

/-- The collections of a `ChromaStore`, by the documents' ids. -/
abbrev ChromaStore (V : Type*) := String → Table String (Entry V)

namespace ChromaStore

variable (S : ChromaStore V) (collection : String)

/-- `add`. -/
def add (docId text : String) (vector : V) (metadata : Option Dict) : ChromaStore V :=
  Function.update S collection <|
    if docId ∈ (S collection).keys then S collection
    else (S collection).put docId ⟨.str text, vector, metadata.getD ∅⟩

/-- `count`. -/
def count : ℕ := (S collection).rows.length

/-- `export_points`, without the ids. -/
def exportPoints : List (Entry V) := (S collection).records

/-- `delete`, and what it returns. -/
def delete (ids : List String) : ℕ × ChromaStore V :=
  if ids = [] then (0, S) else (ids.length, Function.update S collection ((S collection).remove ids))

end ChromaStore

/-! ### Qdrant -/

/-- The id of a point. -/
inductive PointId where
  | uuid (s : String)
  | num (n : ℕ)
  deriving DecidableEq

/-- A stored point, without its id. -/
structure PointStruct (V : Type*) where
  vector : V
  payload : Dict

/-- The collections of a `QdrantStore`. -/
abbrev QdrantStore (V : Type*) := String → Table PointId (PointStruct V)

/-- The id is passed through. -/
def dashed (s : String) : Bool := '-' ∈ s.toList && 32 ≤ s.length

/-- `_point_id`; `sha1` is the number that the first 15 digits of the hash stand for. -/
def pointId (sha1 : String → ℕ) (docId : String) : PointId := if dashed docId then .uuid docId else .num (sha1 docId)

/-- What `export_points` yields of a point. -/
def PointStruct.export (p : PointStruct V) : Entry V :=
  ⟨(p.payload.lookup "document").getD (.str ""), p.vector, p.payload.erase "document"⟩

namespace QdrantStore

variable (sha1 : String → ℕ) (S : QdrantStore V) (collection : String)

/-- `add`. -/
def add (docId text : String) (vector : V) (metadata : Option Dict) : QdrantStore V :=
  Function.update S collection <|
    (S collection).put (pointId sha1 docId) ⟨vector, (metadata.getD ∅).insert "document" (.str text)⟩

/-- `count`. -/
def count : ℕ := (S collection).rows.length

/-- `export_points`, without the ids. -/
def exportPoints : List (Entry V) := (S collection).records.map PointStruct.export

/-- `delete`, and what it returns: the ids that are found. -/
def delete (ids : List String) : ℕ × QdrantStore V :=
  if ids = [] then (0, S)
  else ((ids.filter fun id => .uuid id ∈ (S collection).keys).length,
    Function.update S collection ((S collection).remove (ids.map .uuid)))

end QdrantStore

/-! ### The same calls on both -/

/-- A call on a store. -/
inductive Call (V : Type*) where
  | add (collection docId text : String) (vector : V) (metadata : Option Dict)
  | delete (collection : String) (ids : List String)

/-- The two stores. -/
structure Stores (V : Type*) where
  chroma : ChromaStore V
  qdrant : QdrantStore V

/-- Both stores are empty. -/
def Stores.empty : Stores V := ⟨fun _ => .empty, fun _ => .empty⟩

variable (sha1 : String → ℕ)

/-- The stores after a call. -/
def next (s : Stores V) : Call V → Stores V
  | .add collection docId text vector metadata =>
    ⟨s.chroma.add collection docId text vector metadata, s.qdrant.add sha1 collection docId text vector metadata⟩
  | .delete collection ids => ⟨(s.chroma.delete collection ids).2, (s.qdrant.delete collection ids).2⟩

/-- A call is made. -/
def Step (s : Stores V) (call : Call V) (t : Stores V) : Prop := t = next sha1 s call

/-- A `delete` returns the same on both. -/
def SameCount (s : Stores V) : Call V → Prop
  | .add .. => True
  | .delete collection ids => (s.chroma.delete collection ids).1 = (s.qdrant.delete collection ids).1

/-- Both stores hold the same points, as many and with the same documents, vectors and metadata. -/
def Same (s : Stores V) : Prop :=
  ∀ collection, s.chroma.count collection = s.qdrant.count collection ∧
    (s.chroma.exportPoints collection).Perm (s.qdrant.exportPoints collection)

/-- The stores treat a call alike. -/
def Agree (s : Stores V) (call : Call V) : Prop := SameCount s call ∧ Same (next sha1 s call)

/-- The stores are interchangeable for a sequence of calls: every `delete` returns the same on
both, and they hold the same in the end. -/
def Interchangeable (calls : List (Call V)) : Prop :=
  AtEach (Step sha1) SameCount .empty calls ∧ ∀ t, Run (Step sha1) .empty calls t → Same t

/-- A new document has no `document` in its metadata, one that is there is what is added, and
what is deleted is there and has an id that is passed through. -/
def Fine (s : Stores V) : Call V → Prop
  | .add collection docId text vector metadata =>
    match (s.chroma collection).find? docId with
    | none => "document" ∉ metadata.getD ∅
    | some old => old = ⟨.str text, vector, (metadata.getD ∅).erase "document"⟩
  | .delete collection ids => ∀ id ∈ ids, id ∈ (s.chroma collection).keys ∧ dashed id = true

/-- The id under which a call adds a document. -/
def Call.docId? : Call V → Option String
  | .add _ docId _ _ _ => some docId
  | .delete .. => none

/-! ### What stays in step -/

/-- The stores hold the same, in one order, and the ids in use are among `A`. -/
structure Inv (A : Set String) (s : Stores V) : Prop where
  mirrors : ∀ collection, (s.chroma collection).Mirrors (pointId sha1) PointStruct.export (s.qdrant collection)
  known : ∀ collection, ∀ id ∈ (s.chroma collection).keys, id ∈ A

variable {sha1} {A : Set String} {s : Stores V}

theorem erase_insert (metadata : Dict) (k : String) (v : Json) : (metadata.insert k v).erase k = metadata.erase k := by
  refine Finmap.ext_lookup fun x => ?_
  by_cases hx : x = k
  · rw [hx, Finmap.lookup_erase, Finmap.lookup_erase]
  · rw [Finmap.lookup_erase_ne hx, Finmap.lookup_erase_ne hx, Finmap.lookup_insert_of_ne _ hx]

theorem erase_eq_self_iff {metadata : Dict} {k : String} : metadata.erase k = metadata ↔ k ∉ metadata := by
  constructor
  · intro h hk
    rw [← h] at hk
    exact Finmap.notMem_erase_self hk
  · intro hk
    refine Finmap.ext_lookup fun x => ?_
    by_cases hx : x = k
    · rw [hx, Finmap.lookup_erase, Finmap.lookup_eq_none.mpr hk]
    · rw [Finmap.lookup_erase_ne hx]

/-- What is exported of an added document. -/
theorem export_insert (vector : V) (metadata : Dict) (text : String) :
    PointStruct.export ⟨vector, metadata.insert "document" (.str text)⟩ =
      ⟨.str text, vector, metadata.erase "document"⟩ := by
  rw [PointStruct.export, Finmap.lookup_insert, erase_insert]
  rfl

theorem pointId_eq_uuid_iff {id id' : String} : pointId sha1 id = .uuid id' ↔ id = id' ∧ dashed id = true := by
  rw [pointId]
  split_ifs with h <;> simp [h]

theorem injOn_pointId (h : A.InjOn sha1) : A.InjOn (pointId sha1) := by
  intro id hid id' hid' heq
  by_cases hdash : dashed id' = true
  · rw [pointId.eq_def sha1 id', if_pos hdash] at heq
    exact (pointId_eq_uuid_iff.mp heq).1
  · rw [pointId.eq_def sha1 id', if_neg hdash, pointId] at heq
    split_ifs at heq
    exact h hid hid' (PointId.num.inj heq)

/-- What holds of all collections holds when one has changed. -/
theorem Inv.update (h : Inv sha1 A s) {collection : String} {t : Table String (Entry V)} {t' : Table PointId (PointStruct V)}
    (ht : t.Mirrors (pointId sha1) PointStruct.export t') (hA : ∀ id ∈ t.keys, id ∈ A) :
    Inv sha1 A ⟨Function.update s.chroma collection t, Function.update s.qdrant collection t'⟩ := by
  constructor <;> intro c <;> by_cases hc : c = collection
  · subst hc
    simpa using ht
  · simpa [Function.update_of_ne hc] using h.mirrors c
  · subst hc
    simpa using hA
  · simpa [Function.update_of_ne hc] using h.known c

theorem Inv.same (h : Inv sha1 A s) : Same s := by
  intro c
  have hrecords := (h.mirrors c).records_eq
  refine ⟨?_, List.Perm.of_eq hrecords.symm⟩
  have hlength := congrArg List.length (h.mirrors c)
  rw [List.length_map, List.length_map] at hlength
  exact hlength.symm

/-- The ids that Qdrant finds. -/
theorem Inv.uuid_mem_keys_iff (h : Inv sha1 A s) {c id : String} :
    .uuid id ∈ (s.qdrant c).keys ↔ id ∈ (s.chroma c).keys ∧ dashed id = true := by
  rw [(h.mirrors c).keys_eq, List.mem_map]
  constructor
  · rintro ⟨id', hid', heq⟩
    obtain ⟨rfl, hdash⟩ := pointId_eq_uuid_iff.mp heq
    exact ⟨hid', hdash⟩
  · rintro ⟨hid, hdash⟩
    exact ⟨id, hid, pointId_eq_uuid_iff.mpr ⟨rfl, hdash⟩⟩

/-- `delete` returns the same exactly when all ids are there and are passed through. -/
theorem Inv.sameCount_delete_iff (h : Inv sha1 A s) (c : String) (ids : List String) :
    SameCount s (.delete c ids) ↔ Fine s (.delete c ids) := by
  rw [SameCount, Fine, ChromaStore.delete, QdrantStore.delete]
  split_ifs with hids
  · simp [hids]
  · dsimp only
    rw [eq_comm, List.length_filter_eq_length_iff]
    simp only [decide_eq_true_eq, h.uuid_mem_keys_iff]

/-- What they do alike keeps the stores in step. -/
theorem inv_step (hsha : A.InjOn sha1) {call : Call V} (hA : ∀ id ∈ call.docId?, id ∈ A) (h : Inv sha1 A s)
    (hfine : Fine s call) : Inv sha1 A (next sha1 s call) := by
  have hinj := injOn_pointId hsha
  cases call with
  | add c docId text vector metadata =>
    have hdoc : docId ∈ A := hA docId rfl
    have hkeys := (h.mirrors c).mem_keys_iff hinj (h.known c) hdoc
    rw [Fine] at hfine
    cases hfind : (s.chroma c).find? docId with
    | none =>
      simp only [hfind] at hfine
      have hnew := Table.find?_eq_none.mp hfind
      rw [next, ChromaStore.add, QdrantStore.add, if_neg hnew]
      refine h.update ((h.mirrors c).put_new hnew (mt hkeys.mp hnew) ?_) ?_
      · rw [export_insert, erase_eq_self_iff.mpr hfine]
      · intro id hid
        rcases Table.mem_keys_put.mp hid with rfl | hid
        · exact hdoc
        · exact h.known c id hid
    | some old =>
      simp only [hfind] at hfine
      have hold : docId ∈ (s.chroma c).keys := List.mem_map_of_mem (Table.mem_of_find? hfind)
      rw [next, ChromaStore.add, QdrantStore.add, if_pos hold]
      refine h.update ?_ (h.known c)
      rw [Table.Mirrors, Table.rows_put_of_mem (hkeys.mpr hold), (h.mirrors c).map_setRow _ hinj (h.known c) hdoc,
        export_insert, ← hfine, Table.setRow_of_find? hfind]
  | delete c ids =>
    rw [next, ChromaStore.delete, QdrantStore.delete]
    split_ifs with hids
    · exact h
    · have huuid : ids.map .uuid = ids.map (pointId sha1) :=
        List.map_congr_left fun id hid => (pointId_eq_uuid_iff.mpr ⟨rfl, (hfine id hid).2⟩).symm
      dsimp only
      rw [huuid]
      refine h.update ((h.mirrors c).remove hinj (h.known c) fun id hid => h.known c id (hfine id hid).1) ?_
      exact fun id hid => h.known c id (Table.keys_remove_subset hid)

/-- Stores in step that agree on a call do so because they treat it alike. -/
theorem Inv.agree_iff (hsha : A.InjOn sha1) {call : Call V} (hA : ∀ id ∈ call.docId?, id ∈ A) (h : Inv sha1 A s) :
    Agree sha1 s call ↔ Fine s call := by
  constructor
  · rintro ⟨hcount, hsame⟩
    cases call with
    | add c docId text vector metadata =>
      have hinj := injOn_pointId hsha
      have hdoc : docId ∈ A := hA docId rfl
      have hkeys := (h.mirrors c).mem_keys_iff hinj (h.known c) hdoc
      have hperm := (hsame c).2
      rw [next, ChromaStore.add, QdrantStore.add, ChromaStore.exportPoints, QdrantStore.exportPoints] at hperm
      simp only [Function.update_self] at hperm
      rw [Fine]
      cases hfind : (s.chroma c).find? docId with
      | none =>
        have hnew := Table.find?_eq_none.mp hfind
        rw [if_neg hnew, Table.records, Table.records, Table.rows_put_of_notMem hnew,
          Table.rows_put_of_notMem (mt hkeys.mp hnew), List.map_append, List.map_append, List.map_append, ← Table.records,
          ← Table.records, (h.mirrors c).records_eq, List.perm_append_left_iff] at hperm
        have hentry := List.singleton_perm_singleton.mp hperm
        rw [export_insert, Entry.mk.injEq] at hentry
        exact erase_eq_self_iff.mp hentry.2.2.symm
      | some old =>
        have hold : docId ∈ (s.chroma c).keys := List.mem_map_of_mem (Table.mem_of_find? hfind)
        rw [if_pos hold, Table.records.eq_def ((s.qdrant c).put _ _), Table.rows_put_of_mem (hkeys.mpr hold),
          (h.mirrors c).records_setRow hinj (h.known c) hdoc, export_insert] at hperm
        exact (Table.eq_of_records_perm hfind hperm).symm
    | delete c ids => exact (h.sameCount_delete_iff c ids).mp hcount
  · intro hfine
    refine ⟨?_, (inv_step hsha hA h hfine).same⟩
    cases call with
    | add => trivial
    | delete c ids => exact (h.sameCount_delete_iff c ids).mpr hfine

theorem inv_empty : Inv sha1 A (Stores.empty : Stores V) where
  mirrors _ := .empty
  known _ _ hid := (List.not_mem_nil hid).elim

/-- Being interchangeable up to any call is agreeing on each. -/
theorem interchangeable_prefixes_iff (calls : List (Call V)) :
    (∀ before, before <+: calls → Interchangeable sha1 before) ↔ AtEach (Step sha1) (Agree sha1) .empty calls := by
  constructor
  · intro h before call after t hcalls hrun
    have hcount := (h calls List.prefix_rfl).1 before call after t hcalls hrun
    have hpre : before ++ [call] <+: calls := ⟨after, by rw [hcalls]; simp⟩
    exact ⟨hcount, (h _ hpre).2 _ (hrun.snoc rfl)⟩
  · rintro h before ⟨rest, rfl⟩
    constructor
    · intro before' call after t hcalls hrun
      exact (h before' call (after ++ rest) t (by rw [hcalls]; simp) hrun).1
    · intro t hrun
      rcases List.eq_nil_or_concat before with rfl | ⟨before', call, hbefore⟩
      · cases hrun
        exact (inv_empty : Inv sha1 ∅ Stores.empty).same
      · rw [List.concat_eq_append] at hbefore
        subst hbefore
        obtain ⟨u, hu, hlast⟩ := hrun.split
        cases hlast with
        | cons hstep hnil =>
          cases hnil
          obtain rfl := hstep
          exact (h before' call rest u (by simp) hu).2

/-- The stores are interchangeable up to any of the calls exactly when they treat each of them
alike. -/
theorem interchangeable_iff (calls : List (Call V)) (hsha : {id | ∃ call ∈ calls, call.docId? = some id}.InjOn sha1) :
    (∀ before, before <+: calls → Interchangeable sha1 before) ↔ AtEach (Step sha1) Fine .empty calls := by
  have hids : AtEach (Step sha1) (fun _ call => ∀ id ∈ call.docId?, id ∈ {id | ∃ call ∈ calls, call.docId? = some id})
      (Stores.empty : Stores V) calls := AtEach.of_forall fun call hcall _ id hid => ⟨call, hcall, hid⟩
  have hinv : Inv sha1 {id | ∃ call ∈ calls, call.docId? = some id} (Stores.empty : Stores V) := inv_empty
  rw [interchangeable_prefixes_iff]
  constructor
  · intro h
    refine AtEach.of_inv ?_ ?_ hinv (h.and hids)
    · rintro s call t hs ⟨hagree, hid⟩ rfl
      exact inv_step hsha hid hs ((hs.agree_iff hsha hid).mp hagree)
    · rintro s call hs ⟨hagree, hid⟩
      exact (hs.agree_iff hsha hid).mp hagree
  · intro h
    refine AtEach.of_inv ?_ ?_ hinv (h.and hids)
    · rintro s call t hs ⟨hfine, hid⟩ rfl
      exact inv_step hsha hid hs hfine
    · rintro s call hs ⟨hfine, hid⟩
      exact (hs.agree_iff hsha hid).mpr hfine

/-- A document is added under an id with dashes, and deleted. -/
theorem interchangeable_dashed : Interchangeable (fun _ => 799236821248678510)
    ([.add "memory" "0b5f0e4c-9d0e-4e0b-8a43-3ab8d1a0c2f1" "hello" [1] none,
      .delete "memory" ["0b5f0e4c-9d0e-4e0b-8a43-3ab8d1a0c2f1"]] : List (Call (List ℤ))) := by
  refine (interchangeable_iff _ ?_).mpr (atEach_cons.mpr ⟨?_, ?_⟩) _ (List.prefix_refl _)
  · rintro id ⟨call, hcall, hid⟩ id' ⟨call', hcall', hid'⟩ -
    simp only [List.mem_cons, List.not_mem_nil, or_false] at hcall hcall'
    rcases hcall with rfl | rfl <;> rcases hcall' with rfl | rfl <;> simp_all [Call.docId?]
  · exact Finmap.notMem_empty
  · rintro t rfl
    refine atEach_cons.mpr ⟨?_, fun t ht => atEach_nil⟩
    intro id hid
    obtain rfl := List.mem_singleton.mp hid
    exact ⟨by decide, by decide⟩

/-- A document is added under an id without dashes: Chroma deletes it, Qdrant does not find it. -/
theorem not_interchangeable : ¬ Interchangeable (fun _ => 799236821248678510)
    ([.add "memory" "0123456789abcdef0123456789abcdef" "hello" [1] none,
      .delete "memory" ["0123456789abcdef0123456789abcdef"]] : List (Call (List ℤ))) := by
  intro h
  have hcount := (atEach_cons.mp h.1).2 _ rfl
  have hdelete := (atEach_cons.mp hcount).1
  rw [SameCount] at hdelete
  revert hdelete
  decide

end Persona.Rag.Backends
