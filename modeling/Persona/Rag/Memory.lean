import Persona.Lib.Markup
import Persona.Rag.Store

/-!
# Memory

The helpers of `services/api/server.py` between the requests and the store: the name of
a profile's collection, `memory_add` and the two queries. They swallow what the embedder
raises as the store swallows what its client raises, so that a failed `memory_add` shows
nowhere and a failed query finds nothing.
-/

namespace Persona.Rag

open Persona.Lib Persona.TaskBoard

variable {V : Type*}

/-- The settings. -/
structure Config where
  /-- `RAG_PER_PROFILE`. -/
  perProfile : Bool
  /-- `RAG_GLOBAL_COLLECTION`. -/
  globalCollection : String
  /-- `_rag_ok`. -/
  ragOk : Bool
  /-- There is an `_embedder`. -/
  hasEmbedder : Bool
  /-- `RAG_FILTER_BAD_MEMORIES`. -/
  filterBad : Bool

/-- A character of `[a-zA-Z0-9_-]`. -/
def isSafe (c : Char) : Bool := c.isAlphanum || c = '_' || c = '-'

/-- `safe`, the part of the name that is the profile's. -/
def safeName (profile : String) : String :=
  let safe := ((PyText.strip profile).toList.map fun c => if isSafe c then c else '_').take 200
  if safe = [] then "default" else String.ofList safe

variable (K : Config)

/-- `_collection_name`. -/
def collectionName : Option String → String
  | none => K.globalCollection
  | some profile => if K.perProfile = false ∨ profile = "" then K.globalCollection else "mem_" ++ safeName profile

/-- A value that the store takes. -/
def safeValue (P : Python) : Json → Json
  | .arr xs => .str (P.toStr (.arr xs))
  | .obj kvs => .str (P.toStr (.obj kvs))
  | v => v

/-- `safe_meta`. -/
def safeMeta (P : Python) (metadata : Dict) : Dict := (metadata.entries.map fun e => ⟨e.1, safeValue P e.2⟩).toAList

/-- `memory_add`; `embedded` is the vector of the text, `none` when the embedder raises. -/
def memoryAdd (P : Python) (embedded : Option V) (stores : Bool) (text : String) (metadata : Dict)
    (profile : Option String) (S : Store V) : Store V :=
  if K.ragOk = false ∨ K.hasEmbedder = false then S
  else
    match embedded with
    | none => S
    | some vec => S.add stores (collectionName K profile) text vec (safeMeta P metadata)

/-! ### Retrieval filters -/

section Filter

variable (U : PyText.Unicode)

/-- `\b`, between two characters. -/
def wordBoundary (before after : Option Char) : Bool := before.any U.isWord != after.any U.isWord

/-- The patterns `\b…\b` of `BAD_MEMORY_PATTERNS`. -/
def badPhrases : List String :=
  ["i cannot provide", "i can't provide", "i cannot help", "i can't help", "i won't help", "i am unable to",
    "internal context", "retrieved memory", "expert notes", "chroma", "fastembed"]

/-- `\b…\b` at a place in a text, after the character `before`. -/
def phraseAt (before : Option Char) (phrase cs : List Char) : Bool :=
  wordBoundary U before cs.head? && phrase.isPrefixOf cs &&
    wordBoundary U phrase.getLast? (cs.drop phrase.length).head?

/-- `(?i)\bnext actions\s*:\b` at a place in a text. -/
def nextActionsAt (before : Option Char) (cs : List Char) : Bool :=
  wordBoundary U before cs.head? && Markup.litAt Markup.sameLetter "next actions".toList cs &&
    match (cs.drop "next actions".length).dropWhile PyText.isSpace with
    | ':' :: rest => wordBoundary U (some ':') rest.head?
    | _ => false

/-- One of the patterns is in the text. -/
def hasBadPhrase (before : Option Char) : List Char → Bool
  | [] => false
  | c :: cs =>
    badPhrases.any (fun phrase => phraseAt U before phrase.toList (c :: cs)) || nextActionsAt U before (c :: cs) ||
      hasBadPhrase (some c) cs

/-- `is_bad_memory`. -/
def isBadMemory (doc : String) : Bool :=
  let t := U.lower (PyText.strip doc)
  t = "" || hasBadPhrase U none t.toList

/-- `filter_bad_memories`. -/
def filterBadMemories (docs : List String) : List String :=
  (docs.map PyText.strip).filter fun s => s ≠ "" ∧ ¬ (K.filterBad = true ∧ isBadMemory U s = true)

end Filter

/-! ### Queries -/

/-- What a query meets. -/
structure Lookup (V : Type*) where
  /-- `_embed(text)`; `none` when it raises. -/
  embedded : Option V
  search : Search V
  /-- Whether the client's call returns. -/
  answers : Bool

/-- `memory_query_detailed`. -/
def memoryQueryDetailed (A : Lookup V) (k : ℤ) (kindFilter : List String) (profile : Option String) (S : Store V) :
    List (Point V) :=
  if K.ragOk = false ∨ K.hasEmbedder = false ∨ k ≤ 0 then []
  else
    match A.embedded with
    | none => []
    | some vec => S.query A.search A.answers (collectionName K profile) vec k kindFilter

/-- `memory_query`: the texts of what the same query finds. -/
def memoryQuery (U : PyText.Unicode) (A : Lookup V) (k : ℤ) (kindFilter : List String) (profile : Option String)
    (S : Store V) : List String :=
  (filterBadMemories K U ((memoryQueryDetailed K A k kindFilter profile S).map Point.document)).take k.toNat

/-! ### What the helpers do -/

variable {K} {P : Python} {A : Lookup V} {S : Store V} {p : Point V} {k : ℤ} {kindFilter : List String}
  {profile : Option String} {text : String} {metadata : Dict} {embedded : Option V} {stores : Bool}

/-- `memory_add` stores the text: the memory is there, the embedder returns and the store takes the point. -/
def Adds (K : Config) (embedded : Option V) (stores : Bool) : Prop :=
  K.ragOk = true ∧ K.hasEmbedder = true ∧ embedded.isSome ∧ stores = true

instance : Decidable (Adds K embedded stores) := inferInstanceAs (Decidable (_ ∧ _ ∧ _ ∧ _))

/-- `memory_add` adds one point or none. -/
theorem points_memoryAdd (K : Config) (P : Python) (embedded : Option V) (stores : Bool) (text : String)
    (metadata : Dict) (profile : Option String) (S : Store V) :
    (Adds K embedded stores ∧ ∃ vec, (memoryAdd K P embedded stores text metadata profile S).points =
        S.points ++ [⟨S.lastId + 1, collectionName K profile, text, some vec, safeMeta P metadata⟩]) ∨
      (¬ Adds K embedded stores ∧ memoryAdd K P embedded stores text metadata profile S = S) := by
  unfold memoryAdd Adds
  cases hok : K.ragOk <;> cases hemb : K.hasEmbedder <;> cases embedded <;> cases stores <;> simp

/-- `memory_add` deletes nothing. -/
theorem mem_memoryAdd_of_mem (h : p ∈ S.points) : p ∈ (memoryAdd K P embedded stores text metadata profile S).points := by
  rcases points_memoryAdd K P embedded stores text metadata profile S with ⟨-, vec, hadd⟩ | ⟨-, hsame⟩
  · rw [hadd]
    exact List.mem_append_left _ h
  · rwa [hsame]

/-- A point that `memory_add` leaves was there, or is the one it adds. -/
theorem mem_memoryAdd (h : p ∈ (memoryAdd K P embedded stores text metadata profile S).points) :
    p ∈ S.points ∨ ∃ vec, p = ⟨S.lastId + 1, collectionName K profile, text, some vec, safeMeta P metadata⟩ := by
  rcases points_memoryAdd K P embedded stores text metadata profile S with ⟨-, vec, hadd⟩ | ⟨-, hsame⟩
  · rw [hadd, List.mem_append, List.mem_singleton] at h
    rcases h with h | rfl
    · exact .inl h
    · exact .inr ⟨vec, rfl⟩
  · rw [hsame] at h
    exact .inl h

/-- What a query finds is in the profile's collection, and each point is found once. -/
theorem memoryQueryDetailed_subperm :
    (memoryQueryDetailed K A k kindFilter profile S).Subperm (S.coll (collectionName K profile)) := by
  unfold memoryQueryDetailed
  split_ifs
  · exact List.nil_subperm
  · cases A.embedded with
    | none => exact List.nil_subperm
    | some vec => exact Store.query_subperm

/-- With a filter, what a query finds has one of the kinds. -/
theorem hasKind_of_mem_memoryQueryDetailed (hks : (Store.kinds kindFilter).isEmpty = false)
    (h : p ∈ memoryQueryDetailed K A k kindFilter profile S) : Store.hasKind (Store.kinds kindFilter) p = true := by
  unfold memoryQueryDetailed at h
  split_ifs at h
  · cases h
  · cases hv : A.embedded with
    | none =>
      rw [hv] at h
      cases h
    | some vec =>
      rw [hv] at h
      exact Store.hasKind_of_mem_query hks h

end Persona.Rag
