import Persona.Rag.Backends

/-!
# The migration from Chroma to Qdrant

`migrate_chroma_to_qdrant.py` upserts the points of every Chroma collection that have a vector and then
compares counts: a collection is fine when Qdrant has as many points in it as Chroma has. An upsert
that fails does so silently, and the collection may hold other points, so that the count can be right
and points be missing. `main_honest_iff` says when exit code 0 means that all is there.
-/

namespace Persona.Rag.Migration

open Persona.Lib Backends

variable {F : Type*}

/-- A point, as `ChromaStore.export_points` yields it. -/
structure ChromaPoint (F : Type*) where
  document : Json
  vector : Option (List F)
  metadata : Option Dict

/-- The vector, if `p.get("vector")` counts as true. -/
def ChromaPoint.vector? (p : ChromaPoint F) : Option (List F) :=
  match p.vector with
  | some (x :: xs) => some (x :: xs)
  | _ => none

/-- The Chroma database. -/
structure Chroma (F : Type*) where
  /-- `list_collections()`. -/
  names : List String
  nodup : names.Nodup
  points : String → Table String (ChromaPoint F)

/-- What the Qdrant client does with an upsert. -/
structure Client (F : Type*) where
  /-- What it keeps of a vector: with the cosine distance, the normalised one. -/
  keep : List F → List F
  /-- It raises for the point of a Chroma id in a collection, where new collections have the dimension. -/
  raises : ℕ → String → String → Bool

/-- How the script is called, and whether the two databases open. -/
structure Args where
  dryRun : Bool
  defaultCollection : String
  chromaOk : Bool
  qdrantOk : Bool

variable (sha1 : String → ℕ) (client : Client F) (args : Args) (C : Chroma F)

/-- `colls`. -/
def colls : List String := if C.names = [] then [args.defaultCollection] else C.names

/-- `dim`, from the first vector that is stored. -/
def dimOf : Option ℕ :=
  (colls args C).findSome? fun c => (C.points c).rows.findSome? fun x => x.2.vector?.map List.length

/-- The payload of a point. -/
def payload (p : ChromaPoint F) : Dict := (p.metadata.getD ∅).insert "document" p.document

/-- `QdrantStore.add`. -/
def add (dim : ℕ) (c id : String) (p : ChromaPoint F) (v : List F) (S : QdrantStore (List F)) : QdrantStore (List F) :=
  if client.raises dim c id then S else Function.update S c ((S c).put (pointId sha1 id) ⟨client.keep v, payload p⟩)

/-- The loop over the points of a collection, and `moved`. -/
def movePoints (dim : ℕ) (c : String) : List (String × ChromaPoint F) → QdrantStore (List F) → ℕ × QdrantStore (List F)
  | [], S => (0, S)
  | (id, p) :: rows, S =>
    match p.vector? with
    | none => movePoints dim c rows S
    | some v =>
      let r := movePoints dim c rows (add sha1 client dim c id p v S)
      (r.1 + 1, r.2)

/-- The loop over the collections, and `mismatches`. -/
def moveColls (dim : ℕ) : List String → QdrantStore (List F) → ℕ × QdrantStore (List F)
  | [], S => (0, S)
  | c :: cs, S =>
    let r := movePoints sha1 client dim c (C.points c).rows S
    let src := (C.points c).rows.length
    let dst := r.2.count c
    let rest := moveColls dim cs r.2
    ((if r.1 ≤ dst ∧ src ≤ dst then 0 else 1) + rest.1, rest.2)

/-- `main`: the exit code and the Qdrant database. -/
def main (S : QdrantStore (List F)) : ℕ × QdrantStore (List F) :=
  if args.chromaOk = false then (1, S)
  else
    match dimOf args C with
    | none => (0, S)
    | some dim =>
      if args.dryRun then (0, S)
      else if args.qdrantOk = false then (1, S)
      else
        let r := moveColls sha1 client C dim (colls args C) S
        (if r.1 = 0 then 0 else 1, r.2)

/-! ### What is moved -/

/-- The points that are stored, under their new ids. -/
def sent (dim : ℕ) (c : String) (rows : List (String × ChromaPoint F)) : List (PointId × PointStruct (List F)) :=
  rows.filterMap fun x => x.2.vector?.bind fun v =>
    if client.raises dim c x.1 then none else some (pointId sha1 x.1, ⟨client.keep v, payload x.2⟩)

variable {sha1 client args C} {dim : ℕ} {c : String} {rows : List (String × ChromaPoint F)} {S : QdrantStore (List F)}

theorem movePoints_snd : (movePoints sha1 client dim c rows S).2 = Function.update S c ((S c).putAll (sent sha1 client dim c rows)) := by
  induction rows generalizing S with
  | nil => exact (Function.update_eq_self c S).symm
  | cons x rows ih =>
    obtain ⟨id, p⟩ := x
    cases hv : p.vector? with
    | none =>
      simp only [movePoints, hv, sent, List.filterMap_cons, Option.bind_none]
      exact ih
    | some v =>
      simp only [movePoints, hv, sent, List.filterMap_cons, Option.bind_some, ih]
      unfold add
      split_ifs with hraises
      · rfl
      · rw [Function.update_idem, Function.update_self]
        rfl

theorem movePoints_fst_le : (movePoints sha1 client dim c rows S).1 ≤ rows.length := by
  induction rows generalizing S with
  | nil => exact le_rfl
  | cons x rows ih =>
    obtain ⟨id, p⟩ := x
    cases hv : p.vector? with
    | none =>
      simp only [movePoints, hv]
      exact (ih).trans (Nat.le_succ _)
    | some v =>
      simp only [movePoints, hv]
      exact Nat.succ_le_succ ih

/-- A collection's table after the run. -/
def movedTable (sha1 : String → ℕ) (client : Client F) (C : Chroma F) (dim : ℕ) (S : QdrantStore (List F)) (c : String) :
    Table PointId (PointStruct (List F)) :=
  (S c).putAll (sent sha1 client dim c (C.points c).rows)

/-- Each collection gets its points, whatever the others get. -/
theorem moveColls_snd {cs : List String} (hnodup : cs.Nodup) :
    (moveColls sha1 client C dim cs S).2 = fun c => if c ∈ cs then movedTable sha1 client C dim S c else S c := by
  induction cs generalizing S with
  | nil =>
    funext c
    rfl
  | cons c cs ih =>
    rw [List.nodup_cons] at hnodup
    rw [moveColls]
    dsimp only
    rw [ih hnodup.2, movePoints_snd]
    funext c'
    by_cases hc : c' = c
    · subst hc
      simp [hnodup.1, movedTable]
    · simp [hc, movedTable]

/-- No collection mismatches exactly when each has as many points as Chroma has. -/
theorem moveColls_fst {cs : List String} (hnodup : cs.Nodup) :
    (moveColls sha1 client C dim cs S).1 = 0 ↔
      ∀ c ∈ cs, (C.points c).rows.length ≤ (movedTable sha1 client C dim S c).rows.length := by
  induction cs generalizing S with
  | nil => simp [moveColls]
  | cons c cs ih =>
    rw [List.nodup_cons] at hnodup
    have hcount : (movePoints sha1 client dim c (C.points c).rows S).2.count c = (movedTable sha1 client C dim S c).rows.length := by
      rw [movePoints_snd, QdrantStore.count, Function.update_self, movedTable]
    have hothers : ∀ c' ∈ cs, movedTable sha1 client C dim (movePoints sha1 client dim c (C.points c).rows S).2 c' =
        movedTable sha1 client C dim S c' := by
      intro c' hc'
      rw [movedTable, movedTable, movePoints_snd, Function.update_of_ne]
      rintro rfl
      exact hnodup.1 hc'
    rw [moveColls]
    dsimp only
    rw [Nat.add_eq_zero_iff, ih hnodup.2, hcount, List.forall_mem_cons]
    refine and_congr ?_ (forall₂_congr fun c' hc' => by rw [hothers c' hc'])
    split_ifs with hok
    · simp [hok.2]
    · simp only [false_iff, not_le]
      have hle : (movePoints sha1 client dim c (C.points c).rows S).1 ≤ (C.points c).rows.length := movePoints_fst_le
      omega

/-! ### What exit code 0 says -/

/-- A point is in a table of Qdrant, with its document, its vector and its metadata. -/
def Present (sha1 : String → ℕ) (t : Table PointId (PointStruct (List F))) (id : String) (p : ChromaPoint F) (v : List F) : Prop :=
  ∃ q, t.find? (pointId sha1 id) = some q ∧ q.vector = v ∧ q.payload.lookup "document" = some p.document ∧
    q.payload.erase "document" = p.metadata.getD ∅

/-- A property of all points that have a vector. -/
def EachPoint (args : Args) (C : Chroma F) (P : String → String → ChromaPoint F → List F → Prop) : Prop :=
  ∀ c ∈ colls args C, ∀ x ∈ (C.points c).rows, ∀ v, x.2.vector? = some v → P c x.1 x.2 v

/-- The migration is complete: all points are there, under different ids, and another run changes nothing,
whatever fails in it. -/
structure Complete (sha1 : String → ℕ) (client : Client F) (args : Args) (C : Chroma F) (T : QdrantStore (List F)) : Prop where
  present : EachPoint args C fun c id p v => Present sha1 (T c) id p v
  distinct : ∀ c ∈ colls args C, ((C.points c).keys.map (pointId sha1)).Nodup
  again : ∀ raises, (main sha1 ⟨client.keep, raises⟩ args C T).2 = T

/-- How many points of a collection come in under an id that Qdrant did not have. -/
def fresh (sha1 : String → ℕ) (client : Client F) (C : Chroma F) (dim : ℕ) (S : QdrantStore (List F)) (c : String) : ℕ :=
  ((sent sha1 client dim c (C.points c).rows).filter fun x => x.1 ∉ (S c).keys).length

/-- The points of some collection, with those that were there before, are fewer than those of Chroma. -/
def Short (sha1 : String → ℕ) (client : Client F) (args : Args) (C : Chroma F) (dim : ℕ) (S : QdrantStore (List F)) : Prop :=
  ∃ c ∈ colls args C, (S c).rows.length + fresh sha1 client C dim S c < (C.points c).rows.length

/-- The metadata have no document of their own, the client keeps the vector as it is, and stores the point,
or the point was there. -/
def Good (sha1 : String → ℕ) (client : Client F) (dim : ℕ) (S : QdrantStore (List F)) (c id : String) (p : ChromaPoint F)
    (v : List F) : Prop :=
  "document" ∉ p.metadata.getD ∅ ∧ client.keep v = v ∧ (client.raises dim c id = false ∨ Present sha1 (S c) id p v)

theorem insert_of_erase {d metadata : Dict} {k : String} {v : Json} (hlookup : d.lookup k = some v) (herase : d.erase k = metadata) :
    d = metadata.insert k v := by
  refine Finmap.ext_lookup fun x => ?_
  by_cases hx : x = k
  · rw [hx, hlookup, Finmap.lookup_insert]
  · rw [Finmap.lookup_insert_of_ne _ hx, ← herase, Finmap.lookup_erase_ne hx]

/-- What is there is what would be stored. -/
theorem Present.find?_eq {t : Table PointId (PointStruct (List F))} {id : String} {p : ChromaPoint F} {v : List F}
    (h : Present sha1 t id p v) : t.find? (pointId sha1 id) = some ⟨v, payload p⟩ := by
  obtain ⟨⟨v', d⟩, hfind, rfl, hdocument, hmetadata⟩ := h
  have hpayload : d = payload p := insert_of_erase hdocument hmetadata
  rw [hfind, hpayload]

theorem present_of_find? {t : Table PointId (PointStruct (List F))} {id : String} {p : ChromaPoint F} {v : List F}
    (hdocument : "document" ∉ p.metadata.getD ∅) (h : t.find? (pointId sha1 id) = some ⟨v, payload p⟩) : Present sha1 t id p v :=
  ⟨_, h, rfl, Finmap.lookup_insert _, (erase_insert _ _ _).trans (erase_eq_self_iff.mpr hdocument)⟩

theorem Present.notMem {t : Table PointId (PointStruct (List F))} {id : String} {p : ChromaPoint F} {v : List F}
    (h : Present sha1 t id p v) : "document" ∉ p.metadata.getD ∅ := by
  obtain ⟨q, -, -, -, hmetadata⟩ := h
  rw [← hmetadata]
  exact Finmap.notMem_erase_self

theorem mem_sent {y : PointId × PointStruct (List F)} : y ∈ sent sha1 client dim c rows ↔
    ∃ x ∈ rows, ∃ v, x.2.vector? = some v ∧ client.raises dim c x.1 = false ∧
      y = (pointId sha1 x.1, ⟨client.keep v, payload x.2⟩) := by
  simp only [sent, List.mem_filterMap, Option.bind_eq_some_iff]
  refine exists_congr fun x => and_congr_right fun _ => exists_congr fun v => and_congr_right fun _ => ?_
  split_ifs with hraises
  · simp [hraises]
  · simp [hraises, eq_comm]

theorem sent_sublist : ((sent sha1 client dim c rows).map Prod.fst).Sublist (rows.map fun x => pointId sha1 x.1) := by
  induction rows with
  | nil => exact List.nil_sublist _
  | cons x rows ih =>
    rw [sent, List.filterMap_cons, List.map_cons]
    split
    · exact ih.cons _
    · next y hy =>
      obtain ⟨v, -, hsent⟩ := Option.bind_eq_some_iff.mp hy
      split_ifs at hsent
      obtain rfl := Option.some.inj hsent
      exact ih.cons_cons _

theorem nodup_pointIds (hinj : Set.InjOn (pointId sha1) {id | id ∈ (C.points c).keys}) : ((C.points c).keys.map (pointId sha1)).Nodup :=
  (C.points c).nodup.map_on fun _ hid _ hid' heq => hinj hid hid' heq

theorem nodup_ids (hinj : Set.InjOn (pointId sha1) {id | id ∈ (C.points c).keys}) :
    ((C.points c).rows.map fun x => pointId sha1 x.1).Nodup := by
  have hmap : ((C.points c).rows.map fun x => pointId sha1 x.1) = (C.points c).keys.map (pointId sha1) := by
    rw [Table.keys, List.map_map]
    rfl
  rw [hmap]
  exact nodup_pointIds hinj

/-- A point that is sent is there in the end. -/
theorem find?_movedTable_of_sent (client : Client F) (dim : ℕ) (S : QdrantStore (List F))
    (hinj : Set.InjOn (pointId sha1) {id | id ∈ (C.points c).keys}) {x : String × ChromaPoint F}
    (hx : x ∈ (C.points c).rows) {v : List F} (hv : x.2.vector? = some v) (hraises : client.raises dim c x.1 = false) :
    (movedTable sha1 client C dim S c).find? (pointId sha1 x.1) = some ⟨client.keep v, payload x.2⟩ :=
  Table.find?_putAll_of_mem ((nodup_ids hinj).sublist sent_sublist) (mem_sent.mpr ⟨x, hx, v, hv, hraises, rfl⟩)

/-- For a point that is not sent there is what was there. -/
theorem find?_movedTable_of_raises (hinj : Set.InjOn (pointId sha1) {id | id ∈ (C.points c).keys}) {x : String × ChromaPoint F}
    (hx : x ∈ (C.points c).rows) (hraises : client.raises dim c x.1 = true) :
    (movedTable sha1 client C dim S c).find? (pointId sha1 x.1) = (S c).find? (pointId sha1 x.1) := by
  refine Table.find?_putAll_of_notMem fun hmem => ?_
  obtain ⟨y, hy, hid⟩ := List.mem_map.mp hmem
  obtain ⟨x', hx', v, -, hsent, rfl⟩ := mem_sent.mp hy
  have hsame : x'.1 = x.1 := hinj (List.mem_map_of_mem hx') (List.mem_map_of_mem hx) hid
  rw [hsame, hraises] at hsent
  cases hsent

theorem nodup_colls (C : Chroma F) (args : Args) : (colls args C).Nodup := by
  unfold colls
  split_ifs
  · exact List.nodup_singleton _
  · exact C.nodup

/-- A run over open databases. -/
theorem main_eq (hchroma : args.chromaOk = true) (hqdrant : args.qdrantOk = true) (hdry : args.dryRun = false)
    (hdim : dimOf args C = some dim) :
    main sha1 client args C S =
      (if (moveColls sha1 client C dim (colls args C) S).1 = 0 then 0 else 1,
        fun c => if c ∈ colls args C then movedTable sha1 client C dim S c else S c) := by
  simp only [main, hchroma, hqdrant, hdry, hdim, Bool.true_eq_false, if_false, Bool.false_eq_true,
    moveColls_snd (nodup_colls C args)]

theorem main_fst (hchroma : args.chromaOk = true) (hqdrant : args.qdrantOk = true) (hdry : args.dryRun = false)
    (hdim : dimOf args C = some dim) (hinj : ∀ c ∈ colls args C, Set.InjOn (pointId sha1) {id | id ∈ (C.points c).keys}) :
    (main sha1 client args C S).1 = 0 ↔ ¬ Short sha1 client args C dim S := by
  have hlength : ∀ c ∈ colls args C, (movedTable sha1 client C dim S c).rows.length =
      (S c).rows.length + fresh sha1 client C dim S c := fun c hc =>
    Table.length_putAll ((nodup_ids (hinj c hc)).sublist sent_sublist)
  have hcode : (main sha1 client args C S).1 = 0 ↔ (moveColls sha1 client C dim (colls args C) S).1 = 0 := by
    rw [main_eq hchroma hqdrant hdry hdim]
    dsimp only
    split_ifs with hzero <;> simp [hzero]
  rw [hcode, moveColls_fst (nodup_colls C args), Short]
  push Not
  exact forall₂_congr fun c hc => by rw [hlength c hc]

/-- Without a dimension no point has a vector. -/
theorem vector?_of_dimOf (hdim : dimOf args C = none) {x : String × ChromaPoint F} (hc : c ∈ colls args C)
    (hx : x ∈ (C.points c).rows) : x.2.vector? = none := by
  have hnone := List.findSome?_eq_none_iff.mp (List.findSome?_eq_none_iff.mp hdim c hc) x hx
  exact Option.map_eq_none_iff.mp hnone

/-- What the database has of a collection in the end. -/
theorem main_snd (hchroma : args.chromaOk = true) (hqdrant : args.qdrantOk = true) (hdry : args.dryRun = false)
    (hdim : dimOf args C = some dim) (hc : c ∈ colls args C) : (main sha1 client args C S).2 c = movedTable sha1 client C dim S c := by
  rw [main_eq hchroma hqdrant hdry hdim]
  exact if_pos hc

/-- When all points are there, another run stores them as they were, and so the client keeps vectors. -/
theorem good_of_complete (hchroma : args.chromaOk = true) (hqdrant : args.qdrantOk = true) (hdry : args.dryRun = false)
    (hdim : dimOf args C = some dim) (hinj : ∀ c ∈ colls args C, Set.InjOn (pointId sha1) {id | id ∈ (C.points c).keys})
    (h : Complete sha1 client args C (main sha1 client args C S).2) : EachPoint args C (Good sha1 client dim S) := by
  obtain ⟨hpresent, -, hagain⟩ := h
  intro c hc x hx v hv
  have hthere := hpresent c hc x hx v hv
  have hkeep : client.keep v = v := by
    have hsecond := congrFun (hagain fun _ _ _ => false) c
    rw [main_snd hchroma hqdrant hdry hdim hc] at hsecond
    have hstored := find?_movedTable_of_sent ⟨client.keep, fun _ _ _ => false⟩ dim (main sha1 client args C S).2 (hinj c hc)
      hx hv rfl
    rw [hsecond, hthere.find?_eq] at hstored
    exact (PointStruct.mk.inj (Option.some.inj hstored)).1.symm
  refine ⟨hthere.notMem, hkeep, ?_⟩
  cases hraises : client.raises dim c x.1 with
  | false => exact .inl rfl
  | true =>
    have hbefore := hthere.find?_eq
    rw [main_snd hchroma hqdrant hdry hdim hc, find?_movedTable_of_raises (hinj c hc) hx hraises] at hbefore
    exact .inr (present_of_find? hthere.notMem hbefore)

theorem complete_of_good (hchroma : args.chromaOk = true) (hqdrant : args.qdrantOk = true) (hdry : args.dryRun = false)
    (hdim : dimOf args C = some dim) (hinj : ∀ c ∈ colls args C, Set.InjOn (pointId sha1) {id | id ∈ (C.points c).keys})
    (h : EachPoint args C (Good sha1 client dim S)) : Complete sha1 client args C (main sha1 client args C S).2 := by
  have hpresent : EachPoint args C fun c id p v => Present sha1 ((main sha1 client args C S).2 c) id p v := by
    intro c hc x hx v hv
    obtain ⟨hdocument, hkeep, hstored⟩ := h c hc x hx v hv
    refine present_of_find? hdocument ?_
    rw [main_snd hchroma hqdrant hdry hdim hc]
    cases hraises : client.raises dim c x.1 with
    | false => rw [find?_movedTable_of_sent _ _ _ (hinj c hc) hx hv hraises, hkeep]
    | true =>
      rw [find?_movedTable_of_raises (hinj c hc) hx hraises]
      exact (hstored.resolve_left (by simp [hraises])).find?_eq
  refine ⟨hpresent, fun c hc => nodup_pointIds (hinj c hc), fun raises => ?_⟩
  rw [main_eq hchroma hqdrant hdry hdim]
  funext c
  dsimp only
  split_ifs with hc
  · refine Table.putAll_eq_self fun y hy => ?_
    obtain ⟨x, hx, v, hv, -, rfl⟩ := mem_sent.mp hy
    rw [(hpresent c hc x hx v hv).find?_eq]
    exact congrArg some (congrArg (PointStruct.mk · _) (h c hc x hx v hv).2.1.symm)
  · rfl

/-- Without a dimension there is nothing to move. -/
theorem complete_of_dimOf (hchroma : args.chromaOk = true) (hdim : dimOf args C = none)
    (hinj : ∀ c ∈ colls args C, Set.InjOn (pointId sha1) {id | id ∈ (C.points c).keys}) :
    Complete sha1 client args C (main sha1 client args C S).2 := by
  have hsame : ∀ client : Client F, main sha1 client args C S = (0, S) := by
    intro client
    simp [main, hchroma, hdim]
  rw [hsame]
  refine ⟨fun c hc x hx v hv => ?_, fun c hc => nodup_pointIds (hinj c hc), fun raises => by rw [hsame]⟩
  rw [vector?_of_dimOf hdim hc hx] at hv
  cases hv

/-- **Exit code 0 is honest**: after a real run that returns it all points are there, exactly when the
script sees that some collection is short, or each point is stored unchanged or was there before. -/
theorem main_honest_iff (sha1 : String → ℕ) (client : Client F) (args : Args) (C : Chroma F) (S : QdrantStore (List F))
    (hdry : args.dryRun = false) (hsha : ∀ c ∈ colls args C, Set.InjOn sha1 {id | id ∈ (C.points c).keys}) :
    ((main sha1 client args C S).1 = 0 → Complete sha1 client args C (main sha1 client args C S).2) ↔
      (args.chromaOk = true → args.qdrantOk = true → ∀ dim, dimOf args C = some dim →
        Short sha1 client args C dim S ∨ EachPoint args C (Good sha1 client dim S)) := by
  have hinj := fun c hc => injOn_pointId (hsha c hc)
  constructor
  · intro h hchroma hqdrant dim hdim
    by_cases hshort : Short sha1 client args C dim S
    · exact .inl hshort
    · have hcomplete := h ((main_fst hchroma hqdrant hdry hdim hinj).mpr hshort)
      exact .inr (good_of_complete hchroma hqdrant hdry hdim hinj hcomplete)
  · intro h hzero
    cases hchroma : args.chromaOk with
    | false => simp [main, hchroma] at hzero
    | true =>
      cases hdim : dimOf args C with
      | none => exact complete_of_dimOf hchroma hdim hinj
      | some dim =>
        cases hqdrant : args.qdrantOk with
        | false => simp [main, hchroma, hdim, hdry, hqdrant] at hzero
        | true =>
          have hshort := (main_fst hchroma hqdrant hdry hdim hinj).mp hzero
          exact complete_of_good hchroma hqdrant hdry hdim hinj ((h hchroma hqdrant dim hdim).resolve_left hshort)

/-- One collection with one document. -/
def oneFact : Chroma ℤ where
  names := ["global_memory"]
  nodup := List.nodup_singleton _
  points := Function.update (fun _ => .empty) "global_memory" ⟨[("fact", ⟨.str "hello", some [1, 0], none⟩)], List.nodup_singleton _⟩

/-- An existing collection with another point. -/
def otherPoint : QdrantStore (List ℤ) :=
  Function.update (fun _ => .empty) "global_memory" ⟨[(.num 7, ⟨[0, 1], ∅⟩)], List.nodup_singleton _⟩

/-- A client that keeps vectors as they are and stores all points, or none. -/
def clientOf (raises : Bool) : Client ℤ := ⟨id, fun _ _ _ => raises⟩

/-- The upsert succeeds: exit code 0, and all is there. -/
theorem main_honest_oneFact :
    (main (fun _ => 42) (clientOf false) ⟨false, "global_memory", true, true⟩ oneFact otherPoint).1 = 0 ∧
      Complete (fun _ => 42) (clientOf false) ⟨false, "global_memory", true, true⟩ oneFact
        (main (fun _ => 42) (clientOf false) ⟨false, "global_memory", true, true⟩ oneFact otherPoint).2 := by
  have hzero : (main (fun _ => 42) (clientOf false) ⟨false, "global_memory", true, true⟩ oneFact otherPoint).1 = 0 := by
    decide
  refine ⟨hzero, (main_honest_iff _ _ _ _ _ rfl ?_).mpr (fun _ _ dim _ => .inr fun c hc x hx v hv => ⟨?_, rfl, .inl rfl⟩) hzero⟩
  · intro c hc id hid id' hid' _
    obtain rfl := List.mem_singleton.mp hc
    exact (List.mem_singleton.mp hid).trans (List.mem_singleton.mp hid').symm
  · obtain rfl := List.mem_singleton.mp hc
    obtain rfl := List.mem_singleton.mp hx
    exact Finmap.notMem_empty

/-- The upsert fails, and there is another point in the collection: the count is right. -/
theorem not_main_honest_oneFact :
    ¬ ((main (fun _ => 42) (clientOf true) ⟨false, "global_memory", true, true⟩ oneFact otherPoint).1 = 0 →
      Complete (fun _ => 42) (clientOf true) ⟨false, "global_memory", true, true⟩ oneFact
        (main (fun _ => 42) (clientOf true) ⟨false, "global_memory", true, true⟩ oneFact otherPoint).2) := by
  intro h
  obtain ⟨q, hfind, -⟩ := (h (by decide)).present "global_memory" List.mem_cons_self
    ("fact", ⟨.str "hello", some [1, 0], none⟩) List.mem_cons_self [1, 0] rfl
  have hnone : (((main (fun _ => 42) (clientOf true) ⟨false, "global_memory", true, true⟩ oneFact otherPoint).2
      "global_memory").find? (pointId (fun _ => 42) "fact")).isNone = true := by decide
  rw [hfind] at hnone
  cases hnone

end Persona.Rag.Migration
