import Persona.Intake.Supersede
import Persona.Memory.Hygiene

/-!
# Profiles kept apart

The operations on memory that are run for a profile, in any order and with any arguments:
`memory_add`, the two queries, `/memory/facts`, and the deletions of `structured_intake`,
`memory_hygiene_pass`, `/memory/forget` and `_purge_kind`. With `RAG_PER_PROFILE` each
works on the collection that `_collection_name` makes of the profile's name, so that two
profiles are kept apart exactly when it makes two names of theirs, which
`isolated_iff` says of all runs at once.

A `World` remembers with which profile each point was added. `structured_intake` waits
for the model between its query and its deletion, which is therefore a step of its own,
with any candidates.
-/

namespace Persona.Rag

open Persona.Lib Persona.TaskBoard

variable {V : Type*}

/-! ### The operations -/

/-- A text under a key. -/
def strKey (d : Dict) (k : String) : Option String :=
  match getKey d k with
  | .str s => some s
  | _ => none

/-- A point as `memory_hygiene_pass` takes it from `export_points`. -/
def exported (p : Point V) : Memory.Exported ℕ V where
  id := p.id
  vector := p.vector
  document := p.document
  kind := strKey p.metadata "kind"
  ts := match getKey p.metadata "ts" with
    | .int n => n
    | _ => 0
  conversationId := strKey p.metadata "conversation_id"

/-- The ids that `memory_hygiene_pass` deletes from a collection. -/
def hygieneIds (near : V → V → Bool) (valid : Option (List String)) (stop : Option ℕ) (c : String) (S : Store V) : List ℕ :=
  (Memory.deleteIds near valid
    ⟨(S.exportPoints stop c).map exported, by
      rw [List.map_map]
      exact (Store.nodup_coll c).sublist ((Store.exportPoints_sublist stop).map _)⟩).dedup

/-- The ids that `_purge_kind` deletes from a collection. -/
def purgeIds (kind : String) (stop : Option ℕ) (c : String) (S : Store V) : List ℕ :=
  ((S.exportPoints stop c).filter fun p => strKey p.metadata "kind" = some kind).map Point.id

/-- What `/memory/facts` lists. -/
def listedFacts (source : Option String) (limit : ℤ) (stop : Option ℕ) (c : String) (S : Store V) : List (Point V) :=
  ((S.exportPoints stop c).filter fun p => strKey p.metadata "kind" = some "fact" ∧
    (source.getD "" = "" ∨ strKey p.metadata "source" = source)).take (max 1 limit).toNat

/-- A deletion as the store carries it out. -/
structure Deletion where
  backend : Backend
  works : Bool

/-- An operation, with the profile it is run for. -/
inductive Op (V : Type*) where
  | add (profile : Option String) (embedded : Option V) (stores : Bool) (text : String) (metadata : Dict)
  | query (profile : Option String) (A : Lookup V) (k : ℤ) (kindFilter : List String)
  | queryDetailed (profile : Option String) (A : Lookup V) (k : ℤ) (kindFilter : List String)
  | facts (profile : Option String) (source : Option String) (limit : ℤ) (stop : Option ℕ)
  | intake (C : Intake.Call V) (n : ℕ) (superseded : List (Point V))
  | hygiene (profile : Option String) (near : V → V → Bool) (valid : Option (List String)) (stop : Option ℕ)
      (apply : Bool) (D : Deletion)
  | forget (profile : Option String) (ids : List ℕ) (D : Deletion)
  | purge (profile : Option String) (kind : String) (stop : Option ℕ) (D : Deletion)

variable (K : Config) (defaultProfile : String)

/-- `profile or DEFAULT_PROFILE`. -/
def orDefault (profile : Option String) : Option String :=
  some (if profile.getD "" = "" then defaultProfile else profile.getD "")

/-- The profile an operation is run for. -/
def Op.profile : Op V → Option String
  | .add profile .. => profile
  | .query profile .. => profile
  | .queryDetailed profile .. => profile
  | .facts profile .. => orDefault defaultProfile profile
  | .intake C .. => some C.profile
  | .hygiene profile .. => orDefault defaultProfile profile
  | .forget profile .. => orDefault defaultProfile profile
  | .purge profile .. => orDefault defaultProfile profile

/-- The points whose documents an operation returns. -/
def Op.found (op : Op V) (S : Store V) : List (Point V) :=
  match op with
  | .query profile A k kindFilter => memoryQueryDetailed K A k kindFilter profile S
  | .queryDetailed profile A k kindFilter => memoryQueryDetailed K A k kindFilter profile S
  | .facts profile source limit stop =>
    if K.ragOk then listedFacts source limit stop (collectionName K (orDefault defaultProfile profile)) S else []
  | _ => []

/-- What an operation makes of the store. -/
def Op.after (P : Python) (op : Op V) (S : Store V) : Store V :=
  match op with
  | .add profile embedded stores text metadata => memoryAdd K P embedded stores text metadata profile S
  | .intake C n superseded => Intake.deleteSuperseded { C with config := K } n superseded S
  | .hygiene profile near valid stop apply D =>
    let c := collectionName K (orDefault defaultProfile profile)
    if K.ragOk ∧ apply then (S.delete D.backend D.works c (hygieneIds near valid stop c S)).2 else S
  | .forget profile ids D => (S.delete D.backend D.works (collectionName K (orDefault defaultProfile profile)) ids).2
  | .purge profile kind stop D =>
    let c := collectionName K (orDefault defaultProfile profile)
    if K.ragOk then (S.delete D.backend D.works c (purgeIds kind stop c S)).2 else S
  | _ => S

/-- The store, and of each id the profile its point was added with. -/
structure World (V : Type*) where
  store : Store V
  owner : ℕ → Option String

/-- A store whose points were added by others. -/
def World.start (S : Store V) : World V := ⟨S, fun _ => none⟩

/-- A step. -/
def World.step (P : Python) (w : World V) (op : Op V) : World V where
  store := op.after K defaultProfile P w.store
  owner :=
    match op with
    | .add profile embedded stores _ _ =>
      if Adds K embedded stores then Function.update w.owner (w.store.lastId + 1) profile else w.owner
    | _ => w.owner

/-- A run. -/
def World.run (P : Python) (ops : List (Op V)) (w : World V) : World V :=
  ops.foldl (World.step K defaultProfile P) w

/-- Nothing that is run for `q` returns or deletes a document added with `p`, after any run
from any store. -/
def Isolated (V : Type*) (P : Python) (p q : String) : Prop :=
  ∀ (S : Store V) (ops : List (Op V)) (op : Op V), op.profile defaultProfile = some q →
    ∀ x ∈ (World.run K defaultProfile P ops (World.start S)).store.points,
      (World.run K defaultProfile P ops (World.start S)).owner x.id = some p →
        x ∉ op.found K defaultProfile (World.run K defaultProfile P ops (World.start S)).store ∧
          x ∈ (op.after K defaultProfile P (World.run K defaultProfile P ops (World.start S)).store).points

/-! ### What an operation leaves alone -/

variable {K defaultProfile} {P : Python} {S : Store V} {w : World V} {op : Op V} {x : Point V} {p q : String}

/-- What an operation returns is in its profile's collection. -/
theorem collection_of_mem_found (h : x ∈ op.found K defaultProfile S) :
    x.collection = collectionName K (op.profile defaultProfile) := by
  have hquery : ∀ {A k kindFilter profile}, x ∈ memoryQueryDetailed K A k kindFilter profile S →
      x.collection = collectionName K profile := fun hx =>
    (Store.mem_coll.mp (memoryQueryDetailed_subperm.subset hx)).2
  cases op with
  | query profile A k kindFilter => exact hquery h
  | queryDetailed profile A k kindFilter => exact hquery h
  | facts profile source limit stop =>
    simp only [Op.found] at h
    split_ifs at h
    · exact (Store.mem_exportPoints (List.mem_of_mem_filter (List.mem_of_mem_take h))).2
    · cases h
  | add => cases h
  | intake => cases h
  | hygiene => cases h
  | forget => cases h
  | purge => cases h

/-- An operation deletes in its profile's collection only. -/
theorem mem_after_of_ne (hx : x ∈ S.points) (hne : x.collection ≠ collectionName K (op.profile defaultProfile)) :
    x ∈ (op.after K defaultProfile P S).points := by
  cases op with
  | query => exact hx
  | queryDetailed => exact hx
  | facts => exact hx
  | add => exact mem_memoryAdd_of_mem hx
  | intake C n superseded =>
    refine Intake.mem_deleteSuperseded.mpr ⟨hx, fun hdel => hne ?_⟩
    exact hdel.2.1
  | hygiene profile near valid stop apply D =>
    simp only [Op.after]
    split_ifs
    · exact Store.mem_delete.mpr ⟨hx, fun hdel => hne hdel.2.1⟩
    · exact hx
  | forget profile ids D => exact Store.mem_delete.mpr ⟨hx, fun hdel => hne hdel.2.1⟩
  | purge profile kind stop D =>
    simp only [Op.after]
    split_ifs
    · exact Store.mem_delete.mpr ⟨hx, fun hdel => hne hdel.2.1⟩
    · exact hx

/-! ### Runs -/

/-- A point is in the collection of the profile it was added with, and a profile is
remembered only of ids that have been drawn. -/
structure Inv (K : Config) (w : World V) : Prop where
  id_le : ∀ id r, w.owner id = some r → id ≤ w.store.lastId
  collection : ∀ x ∈ w.store.points, ∀ r, w.owner x.id = some r → x.collection = collectionName K (some r)

theorem inv_start (S : Store V) : Inv K (World.start S) where
  id_le := by simp [World.start]
  collection := by simp [World.start]

/-- Deletions keep the invariant. -/
theorem Inv.shrink {T : Store V} (h : Inv K w) (hsub : ∀ x ∈ T.points, x ∈ w.store.points)
    (hlast : T.lastId = w.store.lastId) : Inv K ⟨T, w.owner⟩ where
  id_le := by
    intro id r hr
    show id ≤ T.lastId
    rw [hlast]
    exact h.id_le id r hr
  collection := fun x hx r hr => h.collection x (hsub x hx) r hr

theorem Inv.delete {B : Backend} {works : Bool} {c : String} {ids : List ℕ} (h : Inv K w) :
    Inv K ⟨(w.store.delete B works c ids).2, w.owner⟩ := by
  apply h.shrink
  · intro x hx
    exact (Store.mem_delete.mp hx).1
  · rw [Store.delete_snd]
    cases works <;> rfl

/-- An addition puts the point in its profile's collection, under a new id. -/
theorem Inv.add {profile : Option String} {embedded : Option V} {stores : Bool} {text : String} {metadata : Dict}
    (h : Inv K w) : Inv K (w.step K defaultProfile P (.add profile embedded stores text metadata)) := by
  rcases points_memoryAdd K P embedded stores text metadata profile w.store with ⟨hadds, vec, hadd⟩ | ⟨hdrops, hsame⟩
  · let new : Point V := ⟨w.store.lastId + 1, collectionName K profile, text, some vec, safeMeta P metadata⟩
    have hlast : w.store.lastId + 1 ≤ (memoryAdd K P embedded stores text metadata profile w.store).lastId := by
      apply Store.id_le_lastId _ new
      simp [new, hadd]
    simp only [World.step, if_pos hadds]
    constructor
    · intro id r hr
      show id ≤ (memoryAdd K P embedded stores text metadata profile w.store).lastId
      by_cases hid : id = w.store.lastId + 1
      · omega
      · have hle := h.id_le id r (by simpa [Function.update, hid] using hr)
        omega
    · intro x hx r hr
      have hx : x ∈ w.store.points ∨ x = new := by simpa [new, Op.after, hadd] using hx
      rcases hx with hx | rfl
      · have hle := w.store.id_le_lastId x hx
        have hne : x.id ≠ w.store.lastId + 1 := by omega
        exact h.collection x hx r (by simpa [Function.update, hne] using hr)
      · have hr : profile = some r := by simpa [new] using hr
        exact congrArg (collectionName K) hr
  · simp only [World.step, if_neg hdrops, Op.after, hsame]
    exact h

theorem Inv.step (h : Inv K w) (op : Op V) : Inv K (w.step K defaultProfile P op) := by
  cases op with
  | add => exact h.add
  | query => exact h
  | queryDetailed => exact h
  | facts => exact h
  | intake C n superseded =>
    simp only [World.step, Op.after, Intake.deleteSuperseded]
    split_ifs
    · exact h
    · exact h.delete
  | hygiene profile near valid stop apply D =>
    simp only [World.step, Op.after]
    split_ifs
    · exact h.delete
    · exact h
  | forget => exact h.delete
  | purge profile kind stop D =>
    simp only [World.step, Op.after]
    split_ifs
    · exact h.delete
    · exact h

theorem Inv.run (h : Inv K w) (ops : List (Op V)) : Inv K (w.run K defaultProfile P ops) := by
  induction ops generalizing w with
  | nil => exact h
  | cons op ops ih => exact ih (h.step op)

/-- Two profiles with two collections are kept apart. -/
theorem isolated_of_ne (h : collectionName K (some p) ≠ collectionName K (some q)) :
    Isolated K defaultProfile V P p q := by
  intro S ops op hop x hx howner
  have hcoll := ((inv_start S).run ops).collection x hx p howner
  have hne : x.collection ≠ collectionName K (op.profile defaultProfile) := by
    rw [hop, hcoll]
    exact h
  exact ⟨fun hfound => hne (collection_of_mem_found hfound), mem_after_of_ne hx hne⟩

/-- Without the memory nothing is added. -/
theorem owner_run_of_unavailable (h : ¬ (K.ragOk = true ∧ K.hasEmbedder = true)) (ops : List (Op V)) (id : ℕ) :
    (w.run K defaultProfile P ops).owner id = w.owner id := by
  induction ops generalizing w with
  | nil => rfl
  | cons op ops ih =>
    refine Eq.trans ih ?_
    cases op with
    | add profile embedded stores text metadata =>
      have hdrops : ¬ Adds K embedded stores := fun hadds => h ⟨hadds.1, hadds.2.1⟩
      simp [World.step, hdrops]
    | _ => rfl

/-- Two profiles with one collection share a document. -/
theorem not_isolated_of_eq [Nonempty V] (hok : K.ragOk = true) (hemb : K.hasEmbedder = true) (hq : q ≠ "")
    (h : collectionName K (some p) = collectionName K (some q)) : ¬ Isolated K defaultProfile V P p q := by
  intro hiso
  obtain ⟨v⟩ := ‹Nonempty V›
  have hadds : Adds K (some v) true := ⟨hok, hemb, rfl, rfl⟩
  -- a document is added with `p`, and forgotten with `q`
  let ops : List (Op V) := [.add (some p) (some v) true "" ∅]
  let x : Point V := ⟨1, collectionName K (some p), "", some v, safeMeta P ∅⟩
  have hstore : (World.run K defaultProfile P ops (World.start .empty)).store =
      Store.empty.add true (collectionName K (some p)) "" v (safeMeta P ∅) := by
    simp [ops, World.run, World.step, World.start, Op.after, memoryAdd, hok, hemb]
  have hx : x ∈ (World.run K defaultProfile P ops (World.start .empty)).store.points := by
    rw [hstore]
    exact List.mem_singleton_self _
  have howner : (World.run K defaultProfile P ops (World.start .empty)).owner x.id = some p := by
    simp [ops, x, World.run, World.step, World.start, hadds, Store.empty]
  have hprofile : (Op.forget (some q) [1] ⟨.qdrant, true⟩ : Op V).profile defaultProfile = some q := by
    simp [Op.profile, orDefault, hq]
  have hleft := (hiso .empty ops (.forget (some q) [1] ⟨.qdrant, true⟩) hprofile x hx howner).2
  simp only [Op.after, hstore, Store.mem_delete] at hleft
  apply hleft.2
  simp [x, h, orDefault, hq]

/-! ### The names -/

/-- **Two profiles are kept apart** exactly when the sanitised forms of their names differ, if
there is a memory at all. -/
theorem isolated_iff [Nonempty V] (P : Python) (hper : K.perProfile = true) (hp : p ≠ "") (hq : q ≠ "") :
    Isolated K defaultProfile V P p q ↔ (K.ragOk = true ∧ K.hasEmbedder = true → safeName p ≠ safeName q) := by
  have hname : ∀ r, r ≠ "" → collectionName K (some r) = "mem_" ++ safeName r := by
    intro r hr
    simp [collectionName, hper, hr]
  constructor
  · intro hiso ⟨hok, hemb⟩ heq
    apply not_isolated_of_eq hok hemb hq ?_ hiso
    rw [hname p hp, hname q hq, heq]
  · intro h
    by_cases havailable : K.ragOk = true ∧ K.hasEmbedder = true
    · apply isolated_of_ne
      rw [hname p hp, hname q hq]
      simpa using h havailable
    · intro S ops op hop x hx howner
      rw [owner_run_of_unavailable havailable] at howner
      cases howner

/-- A name of at most 200 characters, all of them safe, is kept as it is. -/
theorem safeName_eq_strip (hne : PyText.strip p ≠ "") (hsafe : ∀ c ∈ (PyText.strip p).toList, isSafe c = true)
    (hlen : (PyText.strip p).toList.length ≤ 200) : safeName p = PyText.strip p := by
  have hmap : ((PyText.strip p).toList.map fun c => if isSafe c then c else '_') = (PyText.strip p).toList := by
    refine List.map_congr_left (fun c hc => ?_) |>.trans (List.map_id _)
    rw [hsafe c hc]
    rfl
  rw [safeName, hmap, List.take_of_length_le hlen]
  simp [hne]

/-- Settings with a collection for each profile. -/
def perProfile : Config := ⟨true, "global_memory", true, true, true⟩

theorem isolated_alice_bob : Isolated perProfile "default" ℕ (Python.ofTable []) "alice" "bob" := by
  have hnames : safeName "alice" ≠ safeName "bob" := by decide
  exact (isolated_iff (Python.ofTable []) rfl (by decide) (by decide)).mpr fun _ => hnames

/-- A blank and an underscore make one name. -/
theorem not_isolated : perProfile.perProfile = true ∧ PyText.strip "a b" ≠ "" ∧ PyText.strip "a_b" ≠ "" ∧
    PyText.strip "a b" ≠ PyText.strip "a_b" ∧ ¬ Isolated perProfile "default" ℕ (Python.ofTable []) "a b" "a_b" := by
  have hname : collectionName perProfile (some "a b") = collectionName perProfile (some "a_b") := by decide
  exact ⟨rfl, by decide, by decide, by decide, not_isolated_of_eq rfl rfl (by decide) hname⟩

end Persona.Rag
