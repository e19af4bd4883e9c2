import Persona.Rag.Backends
import Persona.Lib.Decimal

/-!
# Listing facts and forgetting them

`/memory/facts` lists the facts of a collection with the ids of their points, and `/memory/forget` deletes the
points of the ids that it is sent. An id passes through JSON on its way, where it may be sent back as it was
listed or as its text; `_pid` makes a number of a text of digits.

On Qdrant what is listed can be forgotten at any later time: exactly the points that are still there of those
that were listed are deleted and counted. On Chroma that is so exactly when no listed id is a text of digits or
of blanks alone (`forget_listed`). Chroma's client is sent a number for a text of digits, and it takes no list
with a number in it.
-/

namespace Persona.Rag.Backends

open Persona.Lib

variable {V I : Type*}

/-! ### What is listed -/

/-- A collection as `export_points` yields it, with the ids. -/
def ChromaStore.points (S : ChromaStore V) (collection : String) : List (String × Entry V) := (S collection).rows

/-- A collection as `export_points` yields it, with the ids. -/
def QdrantStore.points (S : QdrantStore V) (collection : String) : List (PointId × Entry V) :=
  (S collection).rows.map (Prod.map id PointStruct.export)

/-- What `/memory/facts` says of a point. -/
structure Fact (I : Type*) where
  id : I
  text : Json
  source : Json
  type : Json
  ts : Json

/-- `meta.get(k)`. -/
def field (metadata : Dict) (k : String) : Json := (metadata.lookup k).getD .null

/-- `v == s`, for a text `s`. -/
def isText (s : String) : Json → Bool
  | .str t => t = s
  | _ => false

/-- What is said of a point. -/
def fact (p : I × Entry V) : Fact I :=
  ⟨p.1, p.2.document, field p.2.metadata "source", field p.2.metadata "type", field p.2.metadata "ts"⟩

/-- A point that is listed: a fact, from the source that is asked for. -/
def isFact (source : Option String) (p : I × Entry V) : Bool :=
  isText "fact" (field p.2.metadata "kind") && (source.getD "" = "" || isText (source.getD "") (field p.2.metadata "source"))

/-- The loop of `memory_facts`; `out` is what it has listed so far. -/
def factsFrom (source : Option String) (limit : ℤ) (out : List (Fact I)) : List (I × Entry V) → List (Fact I)
  | [] => out
  | p :: ps =>
    if isFact source p then
      let out := out ++ [fact p]
      if max 1 limit ≤ out.length then out else factsFrom source limit out ps
    else factsFrom source limit out ps

/-- `memory_facts`, of the points that `export_points` yields. -/
def memoryFacts (source : Option String) (limit : ℤ) (points : List (I × Entry V)) : List (Fact I) :=
  factsFrom source limit [] points

/-! ### What is forgotten -/

/-- What `for i in v or []` goes over; `none` if it raises. -/
def iterated : Json → Option (List Json)
  | .arr vs => some vs
  | .str s => some (s.toList.map fun c => .str (String.singleton c))
  | .obj kvs => some (kvs.map fun kv => .str kv.1)
  | v => if v.truthy then none else some []

/-- `_pid`, of a text; `none` if it raises. There is no sign among the digits. -/
def pid? (U : PyText.Unicode) (decimal : Char → Option ℕ) (s : String) : Option PointId :=
  if s ≠ "" ∧ s.toList.all U.isDigit then (PyText.int decimal s).map fun n => .num n.toNat else some (.uuid s)

/-- The ids that `memory_forget` makes of a request's; `none` if it raises. -/
def forgetIds (P : Python) (U : PyText.Unicode) (decimal : Char → Option ℕ) (ids : Json) : Option (List PointId) :=
  (iterated ids).bind fun vs => ((vs.map P.toStr).filter fun s => PyText.strip s ≠ "").mapM (pid? U decimal)

/-- What `memory_forget` answers. -/
inductive Forgot where
  | raised
  | noIds
  | deleted (n : ℕ)
  deriving DecidableEq

/-- `memory_forget`, with the store's `delete`. -/
def memoryForget {S : Type*} (P : Python) (U : PyText.Unicode) (decimal : Char → Option ℕ) (delete : List PointId → ℕ × S)
    (ids : Json) (store : S) : Forgot × S :=
  match forgetIds P U decimal ids with
  | none => (.raised, store)
  | some [] => (.noIds, store)
  | some ids => (.deleted (delete ids).1, (delete ids).2)

/-- `ChromaStore.delete` of ids that may be numbers; `accepts` says whether the client takes them. -/
def ChromaStore.deleteIds (accepts : List PointId → Bool) (S : ChromaStore V) (collection : String) (ids : List PointId) :
    ℕ × ChromaStore V :=
  let texts := ids.filterMap fun
    | .uuid s => some s
    | .num _ => none
  if ids = [] then (0, S)
  else if accepts ids then (ids.length, Function.update S collection ((S collection).remove texts))
  else (0, S)

/-- `QdrantStore.delete` of ids that may be numbers. -/
def QdrantStore.deleteIds (S : QdrantStore V) (collection : String) (ids : List PointId) : ℕ × QdrantStore V :=
  if ids = [] then (0, S)
  else ((ids.filter fun id => id ∈ (S collection).keys).length, Function.update S collection ((S collection).remove ids))

/-- Of texts it is `delete`. -/
theorem QdrantStore.deleteIds_map_uuid (S : QdrantStore V) (collection : String) (ids : List String) :
    S.deleteIds collection (ids.map .uuid) = S.delete collection ids := by
  simp only [deleteIds, delete, List.map_eq_nil_iff, List.filter_map, List.length_map]
  rfl

/-! ### Through JSON and back -/

/-- An id as JSON writes it. -/
def PointId.json : PointId → Json
  | .num n => .int n
  | .uuid s => .str s

/-- The text of an id. -/
def PointId.text : PointId → String
  | .num n => toString n
  | .uuid s => s

/-- A request sends an id, as it is listed or as its text. -/
def Sends (id : PointId) (v : Json) : Prop := v = id.json ∨ v = .str id.text

/-- What is known of Python and of Chroma's client. -/
structure Client (P : Python) (U : PyText.Unicode) (decimal : Char → Option ℕ) (accepts : List PointId → Bool) : Prop where
  str_int : ∀ n : ℕ, P.str (.int n) = toString n
  digits : PyText.Digits decimal
  isDigit : ∀ c : Char, c.isDigit = true → U.isDigit c = true
  dash : U.isDigit '-' = false
  /-- The client takes different texts. -/
  takes : ∀ ids : List String, ids.Nodup → accepts (ids.map .uuid) = true
  /-- It does not take a number. -/
  refuses : ∀ ids n, .num n ∈ ids → accepts ids = false

/-- An id that is sent as a text stays one: it is neither blank nor made of digits alone. -/
def Plain (U : PyText.Unicode) (s : String) : Prop := PyText.strip s ≠ "" ∧ s.toList.all U.isDigit = false

/-- An id that `_pid` gives back: it is a number, or a text that stays one. -/
def Kept (U : PyText.Unicode) : PointId → Prop
  | .num _ => True
  | .uuid s => Plain U s

variable {P : Python} {U : PyText.Unicode} {decimal : Char → Option ℕ} {accepts : List PointId → Bool}
  {source : Option String} {limit : ℤ} {id : PointId} {v : Json}

theorem toStr_of_sends (hC : Client P U decimal accepts) (h : Sends id v) : P.toStr v = id.text := by
  rcases h with rfl | rfl
  · cases id with
    | num n => exact hC.str_int n
    | uuid s => rfl
  · rfl

theorem strip_text_ne (h : Kept U id) : PyText.strip id.text ≠ "" := by
  cases id with
  | num n =>
    rw [PointId.text, PyText.strip_toString]
    exact PyText.toString_ne_empty n
  | uuid s => exact h.1

/-- `_pid` gives an id back. -/
theorem pid?_text (hC : Client P U decimal accepts) (h : Kept U id) : pid? U decimal id.text = some id := by
  cases id with
  | num n =>
    have hall : (toString n).toList.all U.isDigit = true :=
      List.all_eq_true.mpr fun c hc => hC.isDigit c (PyText.isDigit_of_mem_toString hc)
    rw [pid?, PointId.text, if_pos ⟨PyText.toString_ne_empty n, hall⟩, PyText.int_toString hC.digits]
    rfl
  | uuid s =>
    have hnot : ¬ (s ≠ "" ∧ s.toList.all U.isDigit = true) := fun hs => Bool.false_ne_true (h.2.symm.trans hs.2)
    rw [pid?, PointId.text, if_neg hnot]

theorem map_toStr_of_sends (hC : Client P U decimal accepts) {ids : List PointId} {vs : List Json}
    (h : List.Forall₂ Sends ids vs) : vs.map P.toStr = ids.map PointId.text := by
  induction h with
  | nil => rfl
  | cons hid _ ih => rw [List.map_cons, List.map_cons, ih, toStr_of_sends hC hid]

/-- The ids that were sent are the ones that are deleted. -/
theorem forgetIds_of_sends (hC : Client P U decimal accepts) {ids : List PointId} {vs : List Json}
    (h : List.Forall₂ Sends ids vs) (hkept : ∀ id ∈ ids, Kept U id) : forgetIds P U decimal (.arr vs) = some ids := by
  rw [forgetIds, iterated, Option.bind_some, map_toStr_of_sends hC h, List.filter_eq_self.mpr ?hblank]
  case hblank =>
    intro s hs
    obtain ⟨id, hid, rfl⟩ := List.mem_map.mp hs
    exact decide_eq_true (strip_text_ne (hkept id hid))
  clear h
  induction ids with
  | nil => rfl
  | cons id ids ih =>
    rw [List.map_cons, List.mapM_cons, pid?_text hC (hkept id List.mem_cons_self),
      ih fun id hid => hkept id (List.mem_cons_of_mem _ hid)]
    rfl

/-! ### What is listed can be sent back -/

/-- The loop lists the first facts. -/
theorem factsFrom_eq (points : List (I × Entry V)) {out : List (Fact I)} (hout : out.length < max 1 limit) :
    factsFrom source limit out points =
      out ++ ((points.filter (isFact source)).map fact).take ((max 1 limit).toNat - out.length) := by
  induction points generalizing out with
  | nil => simp [factsFrom]
  | cons p ps ih =>
    have hlength : (out ++ [fact p]).length = out.length + 1 := by rw [List.length_append, List.length_singleton]
    rw [factsFrom, List.filter_cons]
    split_ifs with hp
    · dsimp only
      rw [List.map_cons]
      split_ifs with hfull
      · have hone : (max 1 limit).toNat - out.length = 1 := by omega
        rw [hone, List.take_succ_cons, List.take_zero]
      · have hmore : (max 1 limit).toNat - out.length = (max 1 limit).toNat - (out ++ [fact p]).length + 1 := by omega
        rw [ih (by omega), hmore, List.take_succ_cons, List.append_assoc, List.singleton_append]
    · exact ih hout

/-- The ids that are listed. -/
theorem map_id_memoryFacts (source : Option String) (limit : ℤ) (points : List (I × Entry V)) :
    (memoryFacts source limit points).map Fact.id = ((points.filter (isFact source)).map Prod.fst).take (max 1 limit).toNat := by
  have hout : (([] : List (Fact I)).length : ℤ) < max 1 limit := by
    rw [List.length_nil]
    omega
  rw [memoryFacts, factsFrom_eq points hout, List.nil_append, List.length_nil, Nat.sub_zero, List.map_take, List.map_map]
  rfl

/-- The listed ids are ids of points, each listed once. -/
theorem sublist_memoryFacts (source : Option String) (limit : ℤ) (points : List (I × Entry V)) :
    ((memoryFacts source limit points).map Fact.id).Sublist (points.map Prod.fst) := by
  rw [map_id_memoryFacts]
  exact (List.take_sublist _ _).trans (List.filter_sublist.map _)

theorem ChromaStore.sublist_facts (S : ChromaStore V) (c : String) :
    ((memoryFacts source limit (S.points c)).map Fact.id).Sublist (S c).keys := sublist_memoryFacts source limit (S.points c)

theorem QdrantStore.sublist_facts (S : QdrantStore V) (c : String) :
    ((memoryFacts source limit (S.points c)).map Fact.id).Sublist (S c).keys := by
  have hkeys : (S.points c).map Prod.fst = (S c).keys := by
    rw [points, List.map_map, Table.keys]
    rfl
  exact hkeys ▸ sublist_memoryFacts source limit (S.points c)

variable {sha1 : String → ℕ} {s t : Stores V} {calls : List (Call V)}

/-- Qdrant's points have ids that `_point_id` makes. -/
def Points (sha1 : String → ℕ) (s : Stores V) : Prop := ∀ c, ∀ id ∈ (s.qdrant c).keys, ∃ docId, id = pointId sha1 docId

theorem points_next (h : Points sha1 s) (call : Call V) : Points sha1 (next sha1 s call) := by
  intro c id hid
  cases call with
  | add collection docId text vector metadata =>
    simp only [next, QdrantStore.add] at hid
    by_cases hc : c = collection
    · subst hc
      rw [Function.update_self] at hid
      rcases Table.mem_keys_put.mp hid with rfl | hid
      · exact ⟨docId, rfl⟩
      · exact h c id hid
    · rw [Function.update_of_ne hc] at hid
      exact h c id hid
  | delete collection ids =>
    simp only [next, QdrantStore.delete] at hid
    split_ifs at hid
    · exact h c id hid
    · dsimp only at hid
      by_cases hc : c = collection
      · subst hc
        rw [Function.update_self] at hid
        exact h c id (Table.keys_remove_subset hid)
      · rw [Function.update_of_ne hc] at hid
        exact h c id hid

theorem points_of_run (hrun : Run (Step sha1) .empty calls s) : Points sha1 s := by
  refine hrun.inv (I := Points sha1) (fun s call t hs hstep => ?_) fun c id hid => ?_
  · obtain rfl := hstep
    exact points_next hs call
  · exact absurd hid List.not_mem_nil

/-- An id that `_point_id` makes is given back by `_pid`. -/
theorem kept_pointId (hC : Client P U decimal accepts) (docId : String) : Kept U (pointId sha1 docId) := by
  rw [pointId]
  split_ifs with h
  · have hdash : '-' ∈ docId.toList := by
      rw [dashed, Bool.and_eq_true, decide_eq_true_eq] at h
      exact h.1
    constructor
    · intro hblank
      have hspace := PyText.strip_eq_empty_iff.mp hblank '-' hdash
      exact absurd hspace (by decide)
    · refine List.all_eq_false.mpr ⟨'-', hdash, ?_⟩
      rw [hC.dash]
      exact Bool.false_ne_true
  · trivial

/-- What a list is mapped to, element by element. -/
theorem forall₂_of_mapM {α β : Type*} {f : α → Option β} {l : List α} {bs : List β} (h : l.mapM f = some bs) :
    List.Forall₂ (fun a b => f a = some b) l bs := by
  induction l generalizing bs with
  | nil =>
    obtain rfl : [] = bs := by simpa using h
    exact .nil
  | cons a l ih =>
    rw [List.mapM_cons, Option.bind_eq_bind, Option.bind_eq_some_iff] at h
    obtain ⟨b, hb, h⟩ := h
    obtain ⟨bs', hbs', hcons⟩ := Option.bind_eq_some_iff.mp h
    obtain rfl := Option.some.inj hcons
    exact .cons hb (ih hbs')

/-- As many texts are deleted as are sent only if they are plain. -/
theorem plain_of_forgetIds (hC : Client P U decimal accepts) {texts : List String} {vs : List Json} {ids : List PointId}
    (hsent : List.Forall₂ Sends (texts.map .uuid) vs) (hids : forgetIds P U decimal (.arr vs) = some ids)
    (haccepts : accepts ids = true) (hlength : ids.length = texts.length) : ∀ s ∈ texts, Plain U s := by
  have htexts : (texts.map PointId.uuid).map PointId.text = texts := by
    rw [List.map_map]
    exact List.map_id _
  rw [forgetIds, iterated, Option.bind_some, map_toStr_of_sends hC hsent, htexts] at hids
  have hpids := forall₂_of_mapM hids
  have hall : ∀ s ∈ texts, decide (PyText.strip s ≠ "") = true := by
    rw [← List.length_filter_eq_length_iff, hpids.length_eq, hlength]
  rw [List.filter_eq_self.mpr hall] at hpids
  intro s hs
  have hblank := of_decide_eq_true (hall s hs)
  refine ⟨hblank, Bool.eq_false_iff.mpr fun hdigits => ?_⟩
  -- A text of digits is sent on as a number, which the client does not take.
  have hne : s ≠ "" := by
    rintro rfl
    exact hblank rfl
  obtain ⟨id, hid, hpid⟩ : ∃ id ∈ ids, pid? U decimal s = some id := by
    obtain ⟨i, hi, rfl⟩ := List.mem_iff_getElem.mp hs
    have hi' : i < ids.length := hpids.length_eq ▸ hi
    exact ⟨ids[i], List.getElem_mem hi', hpids.get hi hi'⟩
  rw [pid?, if_pos ⟨hne, hdigits⟩] at hpid
  obtain ⟨n, -, rfl⟩ := Option.map_eq_some_iff.mp hpid
  rw [hC.refuses ids n.toNat hid] at haccepts
  cases haccepts

/-- Chroma deletes and counts the texts that it is sent exactly when they are plain. -/
theorem forget_chroma_iff (hC : Client P U decimal accepts) {t : ChromaStore V} {c : String} {texts : List String} {vs : List Json}
    (hsent : List.Forall₂ Sends (texts.map .uuid) vs) (hne : texts ≠ []) (hnodup : texts.Nodup) :
    memoryForget P U decimal (t.deleteIds accepts c) (.arr vs) t =
        (.deleted texts.length, Function.update t c ((t c).remove texts)) ↔ ∀ s ∈ texts, Plain U s := by
  constructor
  · intro h
    rw [memoryForget] at h
    split at h
    · cases h
    · cases h
    · rename_i ids hids heq
      have hcount : (t.deleteIds accepts c ids).1 = texts.length := Forgot.deleted.inj (Prod.mk.inj h).1
      have hpos : 0 < texts.length := List.length_pos_iff.mpr hne
      rw [ChromaStore.deleteIds] at hcount
      split_ifs at hcount with _ haccepts
      · omega
      · exact plain_of_forgetIds hC hsent heq haccepts hcount
      · omega
  · intro hplain
    have hids : forgetIds P U decimal (.arr vs) = some (texts.map .uuid) := by
      refine forgetIds_of_sends hC hsent fun id hid => ?_
      obtain ⟨s, hs, rfl⟩ := List.mem_map.mp hid
      exact hplain s hs
    have hne' : texts.map PointId.uuid ≠ [] := by simpa using hne
    have htexts : ((texts.map PointId.uuid).filterMap fun
        | .uuid s => some s
        | .num _ => none) = texts := by
      rw [List.filterMap_map]
      exact List.filterMap_some
    rw [memoryForget, hids]
    split
    · rename_i heq
      cases heq
    · rename_i heq
      exact absurd (Option.some.inj heq) hne'
    · rename_i ids _ heq
      obtain rfl := Option.some.inj heq
      rw [ChromaStore.deleteIds, if_neg hne', if_pos (hC.takes texts hnodup), htexts, List.length_map]

/-! ### What is listed is forgotten -/

/-- **What is listed can be forgotten.** A client lists the facts of a collection, and later sends their ids
back, each as it was listed or as its text. On Qdrant the listed points that are still there are deleted and
counted, and no others; on Chroma all are deleted and counted exactly when their ids are plain. -/
theorem forget_listed (hC : Client P U decimal accepts) (hrun : Run (Step sha1) .empty calls s) (source : Option String) (limit : ℤ)
    (c : String) :
    (∀ (t : QdrantStore V) (vs : List Json), memoryFacts source limit (s.qdrant.points c) ≠ [] →
      List.Forall₂ Sends ((memoryFacts source limit (s.qdrant.points c)).map Fact.id) vs →
        memoryForget P U decimal (t.deleteIds c) (.arr vs) t =
          (.deleted ((memoryFacts source limit (s.qdrant.points c)).filter fun f => f.id ∈ (t c).keys).length,
            Function.update t c ((t c).remove ((memoryFacts source limit (s.qdrant.points c)).map Fact.id)))) ∧
      ∀ (t : ChromaStore V) (vs : List Json), memoryFacts source limit (s.chroma.points c) ≠ [] →
        List.Forall₂ Sends ((memoryFacts source limit (s.chroma.points c)).map fun f => .uuid f.id) vs →
          (memoryForget P U decimal (t.deleteIds accepts c) (.arr vs) t =
            (.deleted (memoryFacts source limit (s.chroma.points c)).length,
              Function.update t c ((t c).remove ((memoryFacts source limit (s.chroma.points c)).map Fact.id))) ↔
            ∀ f ∈ memoryFacts source limit (s.chroma.points c), Plain U f.id) := by
  constructor
  · intro t vs hne hsent
    have hkept : ∀ id ∈ (memoryFacts source limit (s.qdrant.points c)).map Fact.id, Kept U id := by
      intro id hid
      obtain ⟨docId, rfl⟩ := points_of_run hrun c id (s.qdrant.sublist_facts c |>.subset hid)
      exact kept_pointId hC docId
    have hne' : (memoryFacts source limit (s.qdrant.points c)).map Fact.id ≠ [] := by simpa using hne
    rw [memoryForget, forgetIds_of_sends hC hsent hkept]
    split
    · rename_i heq
      cases heq
    · rename_i heq
      exact absurd (Option.some.inj heq) hne'
    · rename_i ids _ heq
      obtain rfl := Option.some.inj heq
      rw [QdrantStore.deleteIds, if_neg hne', List.filter_map, List.length_map]
      rfl
  · intro t vs hne hsent
    have hids : (memoryFacts source limit (s.chroma.points c)).map (fun f => PointId.uuid f.id) =
        ((memoryFacts source limit (s.chroma.points c)).map Fact.id).map .uuid := by
      rw [List.map_map]
      rfl
    rw [hids] at hsent
    have hnodup : ((memoryFacts source limit (s.chroma.points c)).map Fact.id).Nodup := (s.chroma c).nodup.sublist (s.chroma.sublist_facts c)
    have hiff := forget_chroma_iff hC (t := t) (c := c) hsent (by simpa using hne) hnodup
    rw [List.length_map, List.forall_mem_map] at hiff
    exact hiff

/-! ### A fact is listed and forgotten -/

/-- A library with `str` of an integer. -/
def plainPython : Python where
  loads _ := none
  str
    | .int n => toString n
    | _ => ""
  int _ := none

/-- A client that takes different texts. -/
def takesTexts (ids : List PointId) : Bool := ids.Nodup ∧ ∀ id ∈ ids, id = .uuid id.text

theorem client_ascii : Client plainPython .ascii PyText.asciiDecimal takesTexts where
  str_int _ := rfl
  digits := PyText.digits_asciiDecimal
  isDigit _ h := h
  dash := rfl
  takes ids hids := by
    refine decide_eq_true ⟨hids.map fun _ _ h => PointId.uuid.inj h, fun id hid => ?_⟩
    obtain ⟨s, -, rfl⟩ := List.mem_map.mp hid
    rfl
  refuses ids n hn := decide_eq_false fun h => absurd (h.2 _ hn) nofun

/-- A fact is added under an id without dashes. -/
def remembering : List (Call ℕ) :=
  [.add "memory" "0123456789abcdef0123456789abcdef" "The ship is called Argo." 1 (some (Finmap.singleton "kind" (.str "fact")))]

/-- The stores with the fact in them. -/
def remembered : Stores ℕ := remembering.foldl (next fun _ => 799236821248678510) .empty

theorem run_remembering : Run (Step fun _ => 799236821248678510) .empty remembering remembered := .one rfl

/-- It is listed under the number of the hash, and forgotten as the text of that number. -/
theorem forget_listed_remembered : memoryForget plainPython .ascii PyText.asciiDecimal (remembered.qdrant.deleteIds "memory")
    (.arr [.str "799236821248678510"]) remembered.qdrant =
      (.deleted 1, Function.update remembered.qdrant "memory" ((remembered.qdrant "memory").remove [.num 799236821248678510])) :=
  (forget_listed client_ascii run_remembering none 1000 "memory").1 remembered.qdrant [.str "799236821248678510"] nofun
    (.cons (.inr rfl) .nil)

end Persona.Rag.Backends
