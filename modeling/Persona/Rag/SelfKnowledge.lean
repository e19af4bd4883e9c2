import Persona.Rag.Memory
import Mathlib.Data.Finset.Sort
import Mathlib.Data.String.Basic

/-!
# Self-knowledge

The project's own documents in the memory: `self_knowledge.py` cuts them into chunks, each under the
headings it stands under, and `ingest_self_knowledge` replaces the chunks that the collection holds.

It deletes the old points first and then adds the chunks one by one, and all of it through helpers
that hide what fails; what it returns counts the attempts. `ingestSelfKnowledge_replaces_iff` says when
an ingest that says `ok` has replaced the points.
-/

namespace Persona.Rag

open Persona.Lib Persona.TaskBoard

variable {V : Type*}

/-! ### The chunks -/

/-- `DEFAULT_SELF_DOCS`. -/
def defaultSelfDocs : List String :=
  ["knowledge.md", "README.md", "roadmap.md", "docs/host_onboarding.md", "AGENTS.md", "WORKFLOW.md",
    "README_models_hardware.md"]

structure Chunk where
  source : String
  heading : String
  text : String
  deriving DecidableEq

/-- `_HEADING.match`, with the level and the title. -/
def headingOf (line : String) : Option (ℕ × String) :=
  let level := (line.toList.takeWhile (· = '#')).length
  let rest := line.toList.dropWhile (· = '#')
  let title := PyText.strip (String.ofList rest)
  if 1 ≤ level ∧ level ≤ 6 ∧ rest.head?.any PyText.isSpace ∧ title ≠ "" then some (level, title) else none

/-- `_breadcrumb`. -/
def breadcrumb (source headingPath : String) : String :=
  "[Project_Persona :: " ++ source ++ (if headingPath ≠ "" then " :: " ++ headingPath else "") ++ "]"

/-- Where the last newline or blank is; `-1` when there is none. -/
def lastBreak (window : List Char) : ℤ :=
  window.length - 1 - (window.reverse.findIdx fun c => c = '\n' || c = ' ')

/-- How many characters the next piece takes. -/
def cutAt (budget : ℕ) (body : List Char) : ℕ :=
  if budget < body.length then
    if 3 * (budget : ℤ) < 5 * lastBreak (body.take budget) then (lastBreak (body.take budget)).toNat else budget
  else body.length

/-- The pieces of a body, `fuel` at most. -/
def cuts (budget : ℕ) : ℕ → List Char → List (List Char)
  | 0, _ => []
  | _, [] => []
  | fuel + 1, body => body.take (cutAt budget body) :: cuts budget fuel (body.drop (cutAt budget body))

/-- `_flush`: the chunks that are appended. -/
def flush (source headingPath : String) (buf : List String) (maxChars minChars : ℤ) : List Chunk :=
  let body := PyText.strip ("\n".intercalate buf)
  if body = "" then []
  else if body.length < minChars ∧ headingPath = "" then []
  else
    let crumb := breadcrumb source headingPath
    let budget := max 200 (maxChars - crumb.length - 1)
    let pieces := ((cuts budget.toNat body.length body.toList).map fun piece => PyText.strip (String.ofList piece))
    (pieces.filter (· ≠ "")).map fun piece => ⟨source, headingPath, crumb ++ "\n" ++ piece⟩

/-- `heading_path`. -/
def headingPath (stack : List (ℕ × String)) : String := " > ".intercalate (stack.map Prod.snd)

/-- The loop of `chunk_markdown`, with the headings the line is under and the lines of the section so far. -/
def chunkLines (source : String) (maxChars minChars : ℤ) (stack : List (ℕ × String)) (buf : List String) :
    List String → List Chunk
  | [] => flush source (headingPath stack) buf maxChars minChars
  | line :: lines =>
    match headingOf line with
    | some (level, title) =>
      flush source (headingPath stack) buf maxChars minChars ++
        chunkLines source maxChars minChars (stack.filter (fun h => h.1 < level) ++ [(level, title)]) [] lines
    | none => chunkLines source maxChars minChars stack (buf ++ [line]) lines

/-- `chunk_markdown`. -/
def chunkMarkdown (text source : String) (maxChars minChars : ℤ) : List Chunk :=
  chunkLines source maxChars minChars [] [] (PyText.splitlines text)

/-- What opening and reading a document gives. -/
inductive File where
  | text (s : String)
  /-- `OSError`. -/
  | missing
  /-- `UnicodeDecodeError`. -/
  | undecodable

/-- The loop of `iter_self_chunks`; `none` when it raises. -/
def docChunks (files : String → File) (maxChars : ℤ) : List String → Option (List Chunk)
  | [] => some []
  | rel :: docs =>
    match files rel with
    | .text s => (docChunks files maxChars docs).map (chunkMarkdown s rel maxChars 60 ++ ·)
    | .missing => docChunks files maxChars docs
    | .undecodable => none

/-- `iter_self_chunks`. -/
def iterSelfChunks (files : String → File) (docs : List String) (maxChars : ℤ) : Option (List Chunk) :=
  docChunks files maxChars (if docs = [] then defaultSelfDocs else docs)

/-- A piece takes a character at least. -/
theorem cutAt_pos {budget : ℕ} (hbudget : 0 < budget) {body : List Char} (hne : body ≠ []) : 0 < cutAt budget body := by
  unfold cutAt
  split_ifs
  · omega
  · exact hbudget
  · exact List.length_pos_iff.mpr hne

theorem cuts_of_ne_nil {body : List Char} (hne : body ≠ []) (budget fuel : ℕ) :
    cuts budget (fuel + 1) body = body.take (cutAt budget body) :: cuts budget fuel (body.drop (cutAt budget body)) := by
  rw [cuts]
  exact hne

/-- Cutting loses nothing: each piece takes a character at least, so there is fuel for all of them. -/
theorem cuts_flatten {budget fuel : ℕ} {body : List Char} (hbudget : 0 < budget) (hfuel : body.length ≤ fuel) :
    (cuts budget fuel body).flatten = body := by
  induction fuel generalizing body with
  | zero =>
    obtain rfl := List.length_eq_zero_iff.mp (Nat.le_zero.mp hfuel)
    rfl
  | succ fuel ih =>
    cases body with
    | nil => rfl
    | cons c cs =>
      have hpos := cutAt_pos hbudget (List.cons_ne_nil c cs)
      have hrest : ((c :: cs).drop (cutAt budget (c :: cs))).length ≤ fuel := by
        rw [List.length_drop]
        omega
      rw [cuts_of_ne_nil (List.cons_ne_nil c cs), List.flatten_cons, ih hrest, List.take_append_drop]

/-! ### The ingest -/

/-- The settings of an ingest. -/
structure Ingest.Settings where
  rag : Config
  python : Python
  backend : Backend
  /-- `SELF_KNOWLEDGE_KIND`. -/
  kind : String
  /-- `SELF_KNOWLEDGE_DOCS`. -/
  docs : List String
  /-- `SELF_KNOWLEDGE_MAX_CHARS`. -/
  maxChars : ℤ
  /-- `DEFAULT_PROFILE`. -/
  defaultProfile : String

/-- What an ingest meets. -/
structure Ingest (V : Type*) where
  files : String → File
  /-- How many points the store's export gives before it ends early. -/
  stop : Option ℕ
  /-- Whether the store's `delete` works. -/
  deletes : Bool
  /-- `_embed` of the `n`-th chunk; `none` when it raises. -/
  embedded : ℕ → Option V
  /-- Whether the store's `add` of the `n`-th chunk works. -/
  stores : ℕ → Bool
  /-- `int(time.time())` at the `n`-th chunk. -/
  now : ℕ → ℤ

/-- The point has the kind. -/
def ofKind (kind : String) (p : Point V) : Bool :=
  match getKey p.metadata "kind" with
  | .str k => k = kind
  | _ => false

variable (Q : Ingest.Settings) (I : Ingest V)

/-- `_purge_kind`. -/
def purgeKind (collection kind : String) (S : Store V) : ℕ × Store V :=
  if Q.rag.ragOk = false then (0, S)
  else S.delete Q.backend I.deletes collection (((S.exportPoints I.stop collection).filter (ofKind kind)).map Point.id)

/-- `prof`. -/
def profileOf (profile : Option String) : String :=
  match profile with
  | none => Q.defaultProfile
  | some profile => if profile = "" then Q.defaultProfile else profile

/-- The metadata of a chunk. -/
def chunkMeta (prof : String) (now : ℤ) (ch : Chunk) : Dict :=
  [⟨"kind", .str Q.kind⟩, ⟨"source", .str ch.source⟩, ⟨"heading", .str ch.heading⟩, ⟨"profile", .str prof⟩,
    ⟨"ts", .int now⟩].toAList

/-- The loop over the chunks, from the `n`-th on. -/
def addChunks (prof : String) : ℕ → List Chunk → Store V → Store V
  | _, [], S => S
  | n, ch :: chunks, S =>
    addChunks prof (n + 1) chunks
      (memoryAdd Q.rag Q.python (I.embedded n) (I.stores n) ch.text (chunkMeta Q prof (I.now n) ch) (some prof) S)

/-- What `ingest_self_knowledge` returns. -/
inductive Ingested where
  /-- `ok` is false: `rag_unavailable`. -/
  | unavailable
  | ok (collection : String) (purged stored : ℕ) (sources : List String)

/-- `iter_self_chunks`, as the ingest calls it. -/
def currentChunks : Option (List Chunk) := iterSelfChunks I.files Q.docs Q.maxChars

/-- `ingest_self_knowledge`, and the store after it; it returns nothing when it raises. -/
def ingestSelfKnowledge (profile : Option String) (S : Store V) : Option Ingested × Store V :=
  if ¬ (Q.rag.ragOk = true ∧ Q.rag.hasEmbedder = true) then (some .unavailable, S)
  else
    let prof := profileOf Q profile
    let collection := collectionName Q.rag (some prof)
    let purged := purgeKind Q I collection Q.kind S
    match currentChunks Q I with
    | none => (none, purged.2)
    | some chunks =>
      (some (.ok collection purged.1 chunks.length ((chunks.map Chunk.source).toFinset.sort (· ≤ ·))),
        addChunks Q I prof 0 chunks purged.2)

/-! ### When it is a replacement -/

/-- The collection that is ingested into. -/
def target (profile : Option String) : String := collectionName Q.rag (some (profileOf Q profile))

/-- The points that the ingest is to replace. -/
def docPoints (profile : Option String) (S : Store V) : List (Point V) := (S.coll (target Q profile)).filter (ofKind Q.kind)

/-- The points of other kinds and collections. -/
def others (profile : Option String) (S : Store V) : List (Point V) :=
  S.points.filter fun p => ¬ (p.collection = target Q profile ∧ ofKind Q.kind p = true)

/-- What a point says: the text, the source and the heading. -/
def Point.shown (p : Point V) : String × Json × Json := (p.document, getKey p.metadata "source", getKey p.metadata "heading")

def Chunk.shown (ch : Chunk) : String × Json × Json := (ch.text, .str ch.source, .str ch.heading)

/-- The points of the kind are the current chunks, once each, `stored` is their number, and the others
are untouched. -/
structure Replaced (profile : Option String) (chunks : List Chunk) (stored : ℕ) (S T : Store V) : Prop where
  exact : ((docPoints Q profile T).map Point.shown).Perm (chunks.map Chunk.shown)
  counted : stored = (docPoints Q profile T).length
  untouched : others Q profile T = others Q profile S

/-- The old points that are not deleted: all of them when `delete` fails, and those that the export
does not reach. -/
def stale (profile : Option String) (S : Store V) : List (Point V) :=
  if I.deletes then
    match I.stop with
    | none => []
    | some n => ((S.coll (target Q profile)).drop n).filter (ofKind Q.kind)
  else docPoints Q profile S

/-- The chunks, from the `n`-th on, that are lost: the embedder raises, or `add` fails. -/
def lost : ℕ → List Chunk → List Chunk
  | _, [] => []
  | n, ch :: chunks => if Adds Q.rag (I.embedded n) (I.stores n) then lost (n + 1) chunks else ch :: lost (n + 1) chunks

/-- An ingest that says `ok` has replaced the points. -/
def Replaces (profile : Option String) (S : Store V) : Prop :=
  ∀ collection purged stored sources, (ingestSelfKnowledge Q I profile S).1 = some (.ok collection purged stored sources) →
    ∃ chunks, currentChunks Q I = some chunks ∧ Replaced Q profile chunks stored S (ingestSelfKnowledge Q I profile S).2

/-- The stale points say just what the lost chunks say. So it is when nothing is stale and nothing is lost. -/
def StaleIsLost (profile : Option String) (S : Store V) : Prop :=
  Q.rag.ragOk = true → Q.rag.hasEmbedder = true → ∀ chunks, currentChunks Q I = some chunks →
    ((stale Q I profile S).map Point.shown).Perm ((lost Q I 0 chunks).map Chunk.shown)

section Replaces

variable {Q} {I} {profile : Option String} {S : Store V} {chunks : List Chunk} {n : ℕ} {ch : Chunk} {prof : String} {now : ℤ}

theorem getKey_chunkMeta (Q : Ingest.Settings) (prof : String) (now : ℤ) (ch : Chunk) :
    getKey (safeMeta Q.python (chunkMeta Q prof now ch)) "kind" = .str Q.kind ∧
    getKey (safeMeta Q.python (chunkMeta Q prof now ch)) "source" = .str ch.source ∧
    getKey (safeMeta Q.python (chunkMeta Q prof now ch)) "heading" = .str ch.heading := by
  refine ⟨?_, ?_, ?_⟩ <;> rfl

/-- What is left of a collection when the points of a kind among its first ones are removed. -/
theorem filter_remove_take {kind c : String} (k : ℕ) :
    ((S.remove c ((((S.coll c).take k).filter (ofKind kind)).map Point.id)).coll c).filter (ofKind kind) =
      ((S.coll c).drop k).filter (ofKind kind) := by
  obtain ⟨ids, hids⟩ : ∃ ids, ids = (((S.coll c).take k).filter (ofKind kind)).map Point.id := ⟨_, rfl⟩
  have hcoll : (S.remove c ids).coll c = (S.coll c).filter fun p => p.id ∉ ids := by
    simp only [Store.coll, Store.points_remove, List.filter_filter]
    refine List.filter_congr fun p _ => ?_
    by_cases hp : p.collection = c <;> simp [hp]
  have hnodup := S.nodup_coll c
  rw [← List.take_append_drop k (S.coll c), List.map_append] at hnodup
  have hdisjoint := List.disjoint_of_nodup_append hnodup
  have htake : (((S.coll c).take k).filter fun p => ofKind kind p && decide (p.id ∉ ids)) = [] := by
    refine List.filter_eq_nil_iff.mpr fun p hp hkept => ?_
    rw [Bool.and_eq_true, decide_eq_true_eq, hids] at hkept
    exact hkept.2 (List.mem_map_of_mem (List.mem_filter.mpr ⟨hp, hkept.1⟩))
  have hdrop : (((S.coll c).drop k).filter fun p => ofKind kind p && decide (p.id ∉ ids)) =
      ((S.coll c).drop k).filter (ofKind kind) := by
    refine List.filter_congr fun p hp => ?_
    have hid : p.id ∉ ids := fun hmem =>
      hdisjoint ((List.filter_sublist.map _).subset (hids ▸ hmem)) (List.mem_map_of_mem hp)
    rw [decide_eq_true hid, Bool.and_true]
  rw [← hids, hcoll, List.filter_filter]
  conv_lhs => rw [← List.take_append_drop k (S.coll c)]
  rw [List.filter_append, htake, hdrop, List.nil_append]

/-- The purge leaves the stale points. -/
theorem docPoints_purgeKind (hok : Q.rag.ragOk = true) :
    docPoints Q profile (purgeKind Q I (target Q profile) Q.kind S).2 = stale Q I profile S := by
  have hexport : S.exportPoints I.stop (target Q profile) =
      (S.coll (target Q profile)).take (I.stop.getD (S.coll (target Q profile)).length) := by
    cases hstop : I.stop with
    | none => exact (List.take_length).symm
    | some n => rfl
  rw [purgeKind, if_neg (by simp [hok]), Store.delete_snd, stale]
  split_ifs with hdeletes
  · rw [docPoints, hexport, filter_remove_take]
    cases I.stop with
    | none => rw [Option.getD_none, List.drop_length, List.filter_nil]
    | some n => rfl
  · rfl

/-- The purge takes only points of the kind. -/
theorem others_purgeKind : others Q profile (purgeKind Q I (target Q profile) Q.kind S).2 = others Q profile S := by
  rw [purgeKind]
  split_ifs
  · rfl
  · rw [Store.delete_snd]
    split_ifs
    · rw [others, others, Store.points_remove, List.filter_filter]
      refine List.filter_congr fun p hp => ?_
      by_cases hother : p.collection = target Q profile ∧ ofKind Q.kind p = true
      · rw [decide_eq_false (not_not.mpr hother), Bool.false_and]
      · rw [decide_eq_true hother, Bool.true_and, decide_eq_true_eq]
        rintro ⟨hc, hid⟩
        obtain ⟨q, hq, hqp⟩ := List.mem_map.mp hid
        obtain ⟨hmem, hkind⟩ := List.mem_filter.mp hq
        obtain rfl := Store.point_ext (Store.mem_exportPoints hmem).1 hp hqp
        exact hother ⟨hc, hkind⟩
    · rfl

/-- A chunk that is added becomes a point of the kind; one that is lost changes nothing. -/
theorem memoryAdd_chunk (Q : Ingest.Settings) (I : Ingest V) (profile : Option String) (n : ℕ) (ch : Chunk) (S : Store V) :
    (Adds Q.rag (I.embedded n) (I.stores n) ∧ ∃ p : Point V, p.collection = target Q profile ∧ ofKind Q.kind p = true ∧
      p.shown = ch.shown ∧
      (memoryAdd Q.rag Q.python (I.embedded n) (I.stores n) ch.text (chunkMeta Q (profileOf Q profile) (I.now n) ch)
        (some (profileOf Q profile)) S).points = S.points ++ [p]) ∨
    (¬ Adds Q.rag (I.embedded n) (I.stores n) ∧
      memoryAdd Q.rag Q.python (I.embedded n) (I.stores n) ch.text (chunkMeta Q (profileOf Q profile) (I.now n) ch)
        (some (profileOf Q profile)) S = S) := by
  rcases points_memoryAdd Q.rag Q.python (I.embedded n) (I.stores n) ch.text
    (chunkMeta Q (profileOf Q profile) (I.now n) ch) (some (profileOf Q profile)) S with ⟨hadds, vec, hpoints⟩ | hlost
  · obtain ⟨hkind, hsource, hheading⟩ := getKey_chunkMeta Q (profileOf Q profile) (I.now n) ch
    refine .inl ⟨hadds, _, rfl, ?_, ?_, hpoints⟩
    · simp only [ofKind, hkind, decide_true]
    · simp only [Point.shown, Chunk.shown, hsource, hheading]
  · exact .inr hlost

/-- The points of the kind after the chunks are added, with what is lost, are those before and the chunks. -/
theorem shown_addChunks (Q : Ingest.Settings) (I : Ingest V) (profile : Option String) (n : ℕ) (chunks : List Chunk)
    (S : Store V) : ((docPoints Q profile (addChunks Q I (profileOf Q profile) n chunks S)).map Point.shown ++
    (lost Q I n chunks).map Chunk.shown).Perm ((docPoints Q profile S).map Point.shown ++ chunks.map Chunk.shown) := by
  induction chunks generalizing n S with
  | nil => rfl
  | cons ch chunks ih =>
    rw [addChunks, lost]
    rcases memoryAdd_chunk Q I profile n ch S with
      ⟨hadds, p, hc, hkind, hshown, hpoints⟩ | ⟨hlost, hsame⟩
    · rw [if_pos hadds]
      refine (ih _ _).trans ?_
      rw [docPoints, Store.coll, hpoints, List.filter_append, List.filter_append, List.filter_singleton, decide_eq_true hc]
      simp [docPoints, Store.coll, hkind, hshown]
    · rw [if_neg hlost, hsame, List.map_cons, List.map_cons]
      exact List.perm_middle.trans (((ih _ _).cons _).trans List.perm_middle.symm)

theorem others_addChunks : others Q profile (addChunks Q I (profileOf Q profile) n chunks S) = others Q profile S := by
  induction chunks generalizing n S with
  | nil => rfl
  | cons ch chunks ih =>
    rw [addChunks, ih]
    rcases memoryAdd_chunk Q I profile n ch S with
      ⟨-, p, hc, hkind, -, hpoints⟩ | ⟨-, hsame⟩
    · rw [others, others, hpoints, List.filter_append]
      simp [hc, hkind]
    · rw [hsame]

/-- What an ingest of the chunks does. -/
theorem ingestSelfKnowledge_eq (hok : Q.rag.ragOk = true) (hembedder : Q.rag.hasEmbedder = true)
    (hchunks : currentChunks Q I = some chunks) :
    ingestSelfKnowledge Q I profile S =
      (some (.ok (target Q profile) (purgeKind Q I (target Q profile) Q.kind S).1 chunks.length
        ((chunks.map Chunk.source).toFinset.sort (· ≤ ·))),
      addChunks Q I (profileOf Q profile) 0 chunks (purgeKind Q I (target Q profile) Q.kind S).2) := by
  rw [ingestSelfKnowledge, if_neg (not_not.mpr ⟨hok, hembedder⟩)]
  simp only [hchunks]
  rfl

/-- The points of the kind are the chunks exactly when what is stale says what is lost. -/
theorem shown_ingest_perm_iff (hok : Q.rag.ragOk = true) (hembedder : Q.rag.hasEmbedder = true)
    (hchunks : currentChunks Q I = some chunks) :
    ((docPoints Q profile (ingestSelfKnowledge Q I profile S).2).map Point.shown).Perm (chunks.map Chunk.shown) ↔
      ((stale Q I profile S).map Point.shown).Perm ((lost Q I 0 chunks).map Chunk.shown) := by
  rw [ingestSelfKnowledge_eq hok hembedder hchunks]
  have hshown := shown_addChunks Q I profile 0 chunks (purgeKind Q I (target Q profile) Q.kind S).2
  rw [docPoints_purgeKind hok] at hshown
  constructor
  · intro h
    have hcancel := hshown.symm.trans ((h.append_right _).trans List.perm_append_comm)
    exact (List.perm_append_right_iff _).mp hcancel
  · intro h
    have hcancel := hshown.trans ((h.append_right _).trans List.perm_append_comm)
    exact (List.perm_append_right_iff _).mp hcancel

theorem replaces_iff : Replaces Q I profile S ↔ StaleIsLost Q I profile S := by
  constructor
  · intro h hok hembedder chunks hchunks
    obtain ⟨chunks', hchunks', hreplaced⟩ := h _ _ _ _ (congrArg Prod.fst (ingestSelfKnowledge_eq hok hembedder hchunks))
    obtain rfl := Option.some.inj (hchunks.symm.trans hchunks')
    exact (shown_ingest_perm_iff hok hembedder hchunks).mp hreplaced.exact
  · intro h collection purged stored sources hreturned
    obtain ⟨hok, hembedder⟩ : Q.rag.ragOk = true ∧ Q.rag.hasEmbedder = true := by
      by_contra hdown
      rw [ingestSelfKnowledge, if_pos hdown] at hreturned
      cases hreturned
    cases hchunks : currentChunks Q I with
    | none =>
      rw [ingestSelfKnowledge, if_neg (not_not.mpr ⟨hok, hembedder⟩)] at hreturned
      simp [hchunks] at hreturned
    | some chunks =>
      have hexact := (shown_ingest_perm_iff hok hembedder hchunks).mpr (h hok hembedder chunks hchunks)
      rw [ingestSelfKnowledge_eq hok hembedder hchunks] at hreturned
      obtain ⟨-, -, rfl, -⟩ := Ingested.ok.inj (Option.some.inj hreturned)
      refine ⟨chunks, rfl, hexact, ?_, ?_⟩
      · have hlength := hexact.length_eq
        rw [List.length_map, List.length_map] at hlength
        exact hlength.symm
      · rw [ingestSelfKnowledge_eq hok hembedder hchunks, others_addChunks, others_purgeKind]

end Replaces

/-- **An ingest that says `ok` is a replacement**, exactly when what is stale says what is lost; and when
that holds of two ingests of the same documents, the second one leaves what the first one left. -/
theorem ingestSelfKnowledge_replaces_iff (I : Ingest V) (profile : Option String) (S : Store V) :
    (Replaces Q I profile S ↔ StaleIsLost Q I profile S) ∧
      ∀ J : Ingest V, J.files = I.files → currentChunks Q I ≠ none → StaleIsLost Q I profile S →
        StaleIsLost Q J profile (ingestSelfKnowledge Q I profile S).2 →
        ((docPoints Q profile (ingestSelfKnowledge Q J profile (ingestSelfKnowledge Q I profile S).2).2).map Point.shown).Perm
          ((docPoints Q profile (ingestSelfKnowledge Q I profile S).2).map Point.shown) := by
  refine ⟨replaces_iff, fun J hfiles hreadable hfirst hsecond => ?_⟩
  obtain ⟨chunks, hchunks⟩ := Option.ne_none_iff_exists'.mp hreadable
  have hchunks' : currentChunks Q J = some chunks := by rw [currentChunks, hfiles, ← currentChunks, hchunks]
  by_cases hup : Q.rag.ragOk = true ∧ Q.rag.hasEmbedder = true
  · obtain ⟨hok, hembedder⟩ := hup
    have hthen := (shown_ingest_perm_iff hok hembedder hchunks).mpr (hfirst hok hembedder chunks hchunks)
    have hagain := (shown_ingest_perm_iff hok hembedder hchunks').mpr (hsecond hok hembedder chunks hchunks')
    exact hagain.trans hthen.symm
  · rw [ingestSelfKnowledge.eq_def Q J, if_pos hup]

/-- The defaults, with one document. -/
def readmeSettings : Ingest.Settings where
  rag := ⟨false, "global_memory", true, true, false⟩
  python := Python.ofTable []
  backend := .qdrant
  kind := "project_doc"
  docs := ["README.md"]
  maxChars := 1200
  defaultProfile := "default"

/-- An ingest of a `README.md`. -/
def readmeIngest (text : String) (deletes : Bool) (embedded : Option Unit) : Ingest Unit where
  files _ := .text text
  stop := none
  deletes := deletes
  embedded _ := embedded
  stores _ := true
  now _ := 1750000000

/-- The embedder fails: the ingest says that one chunk is stored, and there is none. `delete` fails: the
chunk of the old document stays beside the new one. -/
theorem not_replaces_readme :
    ¬ Replaces readmeSettings (readmeIngest "# Persona\n\nA local assistant.\n" true none) none Store.empty ∧
      ¬ Replaces readmeSettings (readmeIngest "# Persona\n\nA local assistant.\n" false (some ())) none
        (ingestSelfKnowledge readmeSettings (readmeIngest "# Persona\n\nAn assistant.\n" true (some ())) none Store.empty).2 := by
  have hchunks : ∀ deletes embedded,
      currentChunks readmeSettings (readmeIngest "# Persona\n\nA local assistant.\n" deletes embedded) =
        some [⟨"README.md", "Persona", "[Project_Persona :: README.md :: Persona]\nA local assistant."⟩] := by
    intro deletes embedded
    show iterSelfChunks (fun _ => .text "# Persona\n\nA local assistant.\n") ["README.md"] 1200 = _
    decide
  constructor
  · intro h
    have hperm := replaces_iff.mp h rfl rfl _ (hchunks true none)
    exact absurd hperm.length_eq (by decide)
  · intro h
    have hperm := replaces_iff.mp h rfl rfl _ (hchunks false (some ()))
    exact absurd hperm.length_eq (by decide)

end Persona.Rag
