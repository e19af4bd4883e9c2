import Mathlib.Data.List.Sort
import Mathlib.Data.List.Nodup

/-!
# Conversations

`services/api/conversations.py`: the two tables of the conversations database, and the
functions on them. Each function is one transaction.

A `Db` carries what the schema promises: the primary keys are distinct, and every turn
id has been given out by `AUTOINCREMENT`, which never gives the same id twice, not even
after the turn is deleted. The rows of a table are in no particular order, so that where
SQL leaves the order of a result open, every order comes from some `Db`.
-/

namespace Persona.Memory

/-- A row of `conversations`. -/
structure Conversation where
  conversationId : String
  profile : Option String
  title : Option String
  createdAt : ℤ
  updatedAt : ℤ

/-- A row of `turns`. -/
structure Turn where
  id : ℕ
  conversationId : String
  profile : Option String
  role : String
  content : String
  topic : Option String
  tokens : Option ℤ
  distilled : Bool
  summary : Option String
  ts : ℤ

/-- The database. -/
structure Db where
  conversations : List Conversation
  turns : List Turn
  /-- The last turn id given out. -/
  lastId : ℕ
  nodup_conversations : (conversations.map Conversation.conversationId).Nodup
  nodup_turns : (turns.map Turn.id).Nodup
  id_le_lastId : ∀ t ∈ turns, t.id ≤ lastId

namespace Db

/-- A new database. -/
def empty : Db := ⟨[], [], 0, List.nodup_nil, List.nodup_nil, fun _ h => nomatch h⟩

/-! ### Writes -/

/-- `INSERT OR IGNORE INTO conversations`, and equally `_ensure_conversation`. -/
def insertConversation (c : Conversation) (db : Db) : Db :=
  if h : c.conversationId ∈ db.conversations.map Conversation.conversationId then db
  else { db with
    conversations := db.conversations ++ [c]
    nodup_conversations := by
      rw [List.map_append]
      exact db.nodup_conversations.append (List.nodup_singleton _) (by simpa using h) }

/-- `new_conversation`; `cid` is the id asked for, or a new one. -/
def newConversation (now : ℤ) (profile title : Option String) (cid : String) (db : Db) : Db :=
  db.insertConversation ⟨cid, profile, title, now, now⟩

/-- `UPDATE conversations SET updated_at`. -/
def touch (now : ℤ) (cid : String) (db : Db) : Db :=
  { db with
    conversations := db.conversations.map fun c => if c.conversationId = cid then { c with updatedAt := now } else c
    nodup_conversations := by
      have hmap : (Conversation.conversationId ∘ fun c : Conversation =>
          if c.conversationId = cid then { c with updatedAt := now } else c) = Conversation.conversationId := by
        funext c
        dsimp only [Function.comp]
        split_ifs <;> rfl
      rw [List.map_map, hmap]
      exact db.nodup_conversations }

/-- `INSERT INTO turns`, which gives the turn a new id. -/
def insertTurn (t : ℕ → Turn) (ht : ∀ id, (t id).id = id) (db : Db) : Db :=
  { db with
    turns := db.turns ++ [t (db.lastId + 1)]
    lastId := db.lastId + 1
    nodup_turns := by
      rw [List.map_append]
      refine db.nodup_turns.append (List.nodup_singleton _) fun id hid hnew => ?_
      obtain ⟨t', ht', rfl⟩ := List.mem_map.mp hid
      have hle := db.id_le_lastId t' ht'
      have heq : t'.id = db.lastId + 1 := by simpa [ht] using hnew
      omega
    id_le_lastId := by
      intro t' ht'
      rcases List.mem_append.mp ht' with h | h
      · exact Nat.le_succ_of_le (db.id_le_lastId t' h)
      · rw [List.mem_singleton.mp h, ht] }

/-- `add_turn`, without the id it returns. -/
def addTurn (now : ℤ) (cid role content : String) (profile topic : Option String) (tokens : Option ℤ) (db : Db) : Db :=
  ((db.insertConversation ⟨cid, profile, none, now, now⟩).insertTurn
    (fun id => ⟨id, cid, profile, role, content, topic, tokens, false, none, now⟩) fun _ => rfl).touch now cid

/-- A turn that `mark_distilled` may have marked. -/
def mark (ids : List ℕ) (summary : Option String) (t : Turn) : Turn :=
  if t.id ∈ ids then { t with distilled := true, summary } else t

theorem mark_id (ids : List ℕ) (summary : Option String) (t : Turn) : (mark ids summary t).id = t.id := by
  rw [mark]
  split_ifs <;> rfl

/-- `mark_distilled`. -/
def markDistilled (ids : List ℕ) (summary : Option String) (db : Db) : Db :=
  { db with
    turns := db.turns.map (mark ids summary)
    nodup_turns := by
      have hmap : Turn.id ∘ mark ids summary = Turn.id := funext (mark_id ids summary)
      rw [List.map_map, hmap]
      exact db.nodup_turns
    id_le_lastId := by
      intro t ht
      obtain ⟨t₀, ht₀, rfl⟩ := List.mem_map.mp ht
      rw [mark_id]
      exact db.id_le_lastId t₀ ht₀ }

/-- `delete_conversation`. -/
def deleteConversation (cid : String) (db : Db) : Db :=
  { db with
    conversations := db.conversations.filter (·.conversationId ≠ cid)
    turns := db.turns.filter (·.conversationId ≠ cid)
    nodup_conversations := db.nodup_conversations.sublist (List.filter_sublist.map _)
    nodup_turns := db.nodup_turns.sublist (List.filter_sublist.map _)
    id_le_lastId := fun t ht => db.id_le_lastId t (List.mem_of_mem_filter ht) }

/-! ### Reads -/

/-- `undistilled_turns`, oldest first. -/
def undistilledTurns (cid : String) (db : Db) : List Turn :=
  (db.turns.filter fun t => t.conversationId = cid ∧ t.distilled = false).insertionSort fun t u => t.id ≤ u.id

/-- `get_turns` without a limit, in chronological order. -/
def getTurns (cid : String) (db : Db) : List Turn :=
  (db.turns.filter fun t => t.conversationId = cid).insertionSort fun t u => t.id ≤ u.id

/-- `list_conversations` of all profiles, newest first. -/
def listConversations (limit : ℕ) (db : Db) : List Conversation :=
  (db.conversations.insertionSort fun c d => c.updatedAt ≥ d.updatedAt).take limit

/-- A row of `conversations_with_undistilled`. -/
structure Pending where
  conversationId : String
  profile : Option String
  /-- The number of un-distilled turns. -/
  pending : ℕ
  updatedAt : ℤ

/-- The groups of the query: the conversations with an un-distilled turn. -/
def pendingRows (db : Db) : List Pending :=
  (db.conversations.map fun c =>
    ⟨c.conversationId, c.profile, (db.undistilledTurns c.conversationId).length, c.updatedAt⟩).filter (0 < ·.pending)

/-- `conversations_with_undistilled` of all profiles, newest activity first. -/
def conversationsWithUndistilled (minTurns limit : ℕ) (db : Db) : List Pending :=
  ((db.pendingRows.filter (minTurns ≤ ·.pending)).insertionSort fun r r' => r.updatedAt ≥ r'.updatedAt).take limit

/-! ### What the functions do -/

variable {db : Db} {cid : String} {ids : List ℕ} {summary : Option String}

theorem mem_undistilledTurns {t : Turn} :
    t ∈ db.undistilledTurns cid ↔ t ∈ db.turns ∧ t.conversationId = cid ∧ t.distilled = false := by
  rw [undistilledTurns, List.mem_insertionSort, List.mem_filter, decide_eq_true_eq]

/-- A turn is determined by its id. -/
theorem turn_ext {t t' : Turn} (h : t ∈ db.turns) (h' : t' ∈ db.turns) (hid : t.id = t'.id) : t = t' :=
  List.inj_on_of_nodup_map db.nodup_turns h h' hid

theorem orderedInsert_concat {t u : Turn} {l : List Turn} (h : t.id ≤ u.id) :
    (l ++ [u]).orderedInsert (fun t u => t.id ≤ u.id) t = l.orderedInsert (fun t u => t.id ≤ u.id) t ++ [u] := by
  induction l with
  | nil => simp [h]
  | cons v l ih =>
    rw [List.cons_append, List.orderedInsert_cons, List.orderedInsert_cons, ih]
    split_ifs <;> rfl

/-- The newest turn comes last. -/
theorem insertionSort_concat {u : Turn} {l : List Turn} (h : ∀ t ∈ l, t.id ≤ u.id) :
    (l ++ [u]).insertionSort (fun t u => t.id ≤ u.id) = l.insertionSort (fun t u => t.id ≤ u.id) ++ [u] := by
  induction l with
  | nil => rfl
  | cons t l ih =>
    rw [List.cons_append, List.insertionSort_cons, List.insertionSort_cons, ih fun v hv => h v (List.mem_cons_of_mem _ hv),
      orderedInsert_concat (h t List.mem_cons_self)]

theorem turns_addTurn (now : ℤ) (cid role content : String) (profile topic : Option String) (tokens : Option ℤ) :
    (db.addTurn now cid role content profile topic tokens).turns =
      db.turns ++ [⟨db.lastId + 1, cid, profile, role, content, topic, tokens, false, none, now⟩] := by
  have hconv : ∀ c : Conversation, (db.insertConversation c).turns = db.turns ∧ (db.insertConversation c).lastId = db.lastId := by
    intro c
    unfold insertConversation
    split_ifs
    · exact ⟨rfl, rfl⟩
    · exact ⟨rfl, rfl⟩
  obtain ⟨hturns, hlast⟩ := hconv ⟨cid, profile, none, now, now⟩
  show (db.insertConversation _).turns ++ [_] = _
  rw [hturns, hlast]

/-- An added turn is the last of its conversation. -/
theorem getTurns_addTurn (now : ℤ) (cid role content : String) (profile topic : Option String) (tokens : Option ℤ) :
    (db.addTurn now cid role content profile topic tokens).getTurns cid =
      db.getTurns cid ++ [⟨db.lastId + 1, cid, profile, role, content, topic, tokens, false, none, now⟩] := by
  rw [getTurns, turns_addTurn, List.filter_append, List.filter_cons_of_pos (by simp), List.filter_nil, insertionSort_concat]
  · rfl
  · intro t ht
    have hle := db.id_le_lastId t (List.mem_of_mem_filter ht)
    show t.id ≤ db.lastId + 1
    omega

/-- Each selected row is a conversation with enough un-distilled turns. -/
theorem mem_conversationsWithUndistilled {minTurns limit : ℕ} {r : Pending}
    (h : r ∈ db.conversationsWithUndistilled minTurns limit) :
    r.conversationId ∈ db.conversations.map Conversation.conversationId ∧
      r.pending = (db.undistilledTurns r.conversationId).length ∧ 0 < r.pending ∧ minTurns ≤ r.pending := by
  have h := List.mem_of_mem_take h
  rw [List.mem_insertionSort, List.mem_filter, pendingRows, List.mem_filter, List.mem_map] at h
  obtain ⟨⟨⟨c, hc, rfl⟩, hpos⟩, hmin⟩ := h
  exact ⟨List.mem_map_of_mem hc, rfl, by simpa using hpos, by simpa using hmin⟩

theorem nodup_conversationsWithUndistilled (minTurns limit : ℕ) :
    ((db.conversationsWithUndistilled minTurns limit).map Pending.conversationId).Nodup := by
  have hrows : (db.pendingRows.map Pending.conversationId).Nodup := by
    refine List.Nodup.sublist (List.filter_sublist.map _) ?_
    rw [List.map_map]
    exact db.nodup_conversations
  have hsorted : (((db.pendingRows.filter (minTurns ≤ ·.pending)).insertionSort
      fun r r' => r.updatedAt ≥ r'.updatedAt).map Pending.conversationId).Nodup :=
    ((List.perm_insertionSort ..).map _).nodup_iff.mpr (hrows.sublist (List.filter_sublist.map _))
  exact hsorted.sublist ((List.take_sublist ..).map _)

end Db

end Persona.Memory
