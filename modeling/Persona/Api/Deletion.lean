import Persona.Api.Transcript
import Persona.Memory.Retirement
import Persona.Rag.Memory

/-!
# Deleting a conversation

`DELETE /conversations/{cid}` while requests and a pass of the sleep cycle are in flight.
A `/chat` or `/v1` request records the user's message before its first `await`, its reply
after the generation, and facts after the distiller; a pass stores facts after the
distiller. Nothing that is suspended is told of the delete, and `add_turn` makes a
conversation that is missing.

So a request that waits for its generation makes the conversation again, with its reply
in it (`not_final`). `settled_delete` says that this, and the facts of a call of the
distiller, are all that what began before the delete can make for the conversation.
-/

namespace Persona.Api.Deletion

open Persona.Lib Persona.TaskBoard
open Persona.Memory (Db Conversation Turn PassPc Settings Call Chat factsOf)

variable {V : Type*}

/-! ### The requests -/

/-- What the server runs on. -/
structure Server where
  persistence : Persistence
  rag : Rag.Config
  python : Python

/-- A `/chat` request, and what the server makes of its other fields. -/
structure ChatReq where
  conversationId : Option String
  text : String
  profile : String
  topic : String
  /-- `uuid.uuid4().hex`. -/
  uuid : String
  /-- `int(time.time())`, when it is read for the `n`-th time. -/
  time : ℕ → ℤ

/-- `conversation_id` of `chat`, a new one if none is given; empty for `None`. -/
def chatId (P : Persistence) (r : ChatReq) : String :=
  let given := r.conversationId.getD ""
  if P.convoOk = true ∧ P.persistEnabled = true ∧ given = "" then r.uuid else given

/-- `chat`, as far as its first `await`: the history, and the database. -/
def chatPrepare (P : Persistence) (r : ChatReq) (db : Db) : Option Window × Db :=
  let cid := chatId P r
  let db :=
    if P.convoOk = true ∧ P.persistEnabled = true ∧ r.conversationId.getD "" = "" then
      db.newConversation (r.time 0) (some r.profile) none cid
    else db
  let prior := db.getTurns cid
  let history :=
    if P.historyEnabled = true ∧ P.convoOk = true ∧ cid ≠ "" ∧ prior.isEmpty = false then
      some (windowTurns (historyOptions P) prior)
    else none
  (history, persistTurn P (r.time 1) cid "user" r.text r.profile (some r.topic) db)

/-- What a request waits for. -/
inductive Stage where
  /-- The generation, and for some topics the notes that come before it. -/
  | generating
  /-- The distiller, with the reply recorded. -/
  | distilling (reply : String)

/-- A request that is suspended. -/
structure Task where
  /-- Requests are numbered as they begin. -/
  number : ℕ
  cid : String
  text : String
  profile : String
  topic : Option String
  stage : Stage

/-- What happens while the facts of an exchange are stored. -/
structure Noting (V : Type*) where
  /-- The facts of `distill_and_store_facts`; none if the distiller is not asked or fails. -/
  facts : List String
  /-- A `/chat` request whose exchange goes to memory too. -/
  log : Bool
  /-- `embed` of the `n`-th text; `none` when it raises. -/
  embed : ℕ → Option V
  /-- Whether the `n`-th `store.add` stores it. -/
  stores : ℕ → Bool
  /-- `int(time.time())`, when it is read for the `n`-th time. -/
  time : ℕ → ℤ

variable (S : Server)

/-- The metadata of a request's facts and of the log of its exchange. -/
def noteMeta (kind source profile : String) (topic : Option String) (now : ℤ) : Dict :=
  ((((item "kind" (.str kind)).insert "source" (.str source)).insert "profile" (.str profile)).insert
    "topic" (topic.elim .null .str)).insert "ts" (.int now)

/-- The loop of `distill_and_store_facts`, from the `n`-th fact on. -/
def storeFacts (t : Task) (N : Noting V) (n : ℕ) : List String → Rag.Store V → Rag.Store V
  | [], store => store
  | f :: fs, store =>
    storeFacts t N (n + 1) fs (Rag.memoryAdd S.rag S.python (N.embed n) (N.stores n) f
      (noteMeta "fact" "distiller" t.profile t.topic (N.time n)) (some t.profile) store)

/-- The rest of a request, after the distiller. -/
def noted (t : Task) (reply : String) (N : Noting V) (store : Rag.Store V) : Rag.Store V :=
  let store := storeFacts S t N 0 N.facts store
  let n := N.facts.length
  if N.log = true then
    Rag.memoryAdd S.rag S.python (N.embed n) (N.stores n)
      ("[chat_log]\n[user]\n" ++ t.text ++ "\n\n[assistant]\n" ++ reply)
      (noteMeta "chat_log" "persona" t.profile t.topic (N.time n)) (some t.profile) store
  else store

/-! ### Requests, passes and deletes -/

/-- The databases, and what is in flight. -/
structure World (V : Type*) where
  /-- What a pass works on; its points are those that passes store. -/
  st : Memory.St V
  /-- The points that requests store. -/
  store : Rag.Store V
  /-- The requests that are suspended. -/
  tasks : List Task
  /-- How many requests have begun. -/
  requests : ℕ
  /-- Where the sleep cycle is. -/
  pc : PassPc
  /-- How many passes have begun. -/
  passes : ℕ

/-- What happens. -/
inductive Event (V : Type*) where
  /-- A `/chat` request begins. -/
  | chat (r : ChatReq)
  /-- A `/v1` request begins. -/
  | v1 (r : V1Req)
  /-- The generation of a request ends, or raises. -/
  | reply (n : ℕ) (reply : Option String) (now : ℤ)
  /-- The distiller of a request ends. -/
  | noted (n : ℕ) (N : Noting V)
  | delete (cid : String)
  /-- A pass begins. -/
  | start (S : Settings)
  /-- It turns to its next row; `go` is `should_continue()`. -/
  | row (go : Bool)
  /-- The distiller of a pass ends. -/
  | answer (R : Memory.Reply V)

/-- The world with another database. -/
def World.setDb (w : World V) (db : Db) : World V := { w with st := { w.st with db } }

/-- A request begins: it runs as far as its first `await`. -/
def World.begin (w : World V) (cid text profile : String) (topic : Option String) (db : Db) : World V :=
  { w.setDb db with
    tasks := w.tasks ++ [⟨w.requests, cid, text, profile, topic, .generating⟩]
    requests := w.requests + 1 }

/-- A request is over. -/
def World.drop (w : World V) (t : Task) : World V := { w with tasks := w.tasks.filter (·.number ≠ t.number) }

/-- A request has its reply, and goes on to the distiller. -/
def World.replied (w : World V) (t : Task) (reply : String) (now : ℤ) : World V :=
  { w.setDb (persistTurn S.persistence now t.cid "assistant" reply t.profile t.topic w.st.db) with
    tasks := w.tasks.filter (·.number ≠ t.number) ++ [{ t with stage := .distilling reply }] }

/-- What a pass sees of the world, and makes of it. -/
def World.pass (w : World V) : Memory.World V := ⟨w.st, w.pc, []⟩

/-- The steps. -/
inductive Step (w : World V) : Event V → World V → Prop
  | chat {r : ChatReq} : Step w (.chat r)
      (w.begin (chatId S.persistence r) r.text r.profile (some r.topic) (chatPrepare S.persistence r w.st.db).2)
  | v1 {r : V1Req} : Step w (.v1 r)
      (w.begin r.cid (latestUserText r.messages) r.profile r.topic (prepareConversation S.persistence r w.st.db).2)
  | failed {t : Task} {now : ℤ} (ht : t ∈ w.tasks) (hs : t.stage = .generating) :
      Step w (.reply t.number none now) (w.drop t)
  | replied {t : Task} {reply : String} {now : ℤ} (ht : t ∈ w.tasks) (hs : t.stage = .generating) :
      Step w (.reply t.number (some reply) now) (w.replied S t reply now)
  | noted {t : Task} {reply : String} {N : Noting V} (ht : t ∈ w.tasks) (hs : t.stage = .distilling reply) :
      Step w (.noted t.number N) { w.drop t with store := noted S t reply N w.store }
  | delete {cid : String} (hok : S.persistence.convoOk = true) :
      Step w (.delete cid) (w.setDb (w.st.db.deleteConversation cid))
  | start {T : Settings} {p : Memory.World V} (h : Memory.Step w.pass (.start T) p) :
      Step w (.start T) { w with st := p.st, pc := p.pc, passes := w.passes + 1 }
  | row {go : Bool} {p : Memory.World V} (h : Memory.Step w.pass (.row go) p) :
      Step w (.row go) { w with st := p.st, pc := p.pc }
  | answer {R : Memory.Reply V} {p : Memory.World V} (h : Memory.Step w.pass (.answer R) p) :
      Step w (.answer R) { w with st := p.st, pc := p.pc }

/-- A `/v1` request that nothing interrupts is its steps. -/
theorem v1_run (w : World V) (r : V1Req) (reply : Option String) :
    ∃ es w', Run (Step S) w es w' ∧ w'.st.db = v1ChatCompletions S.persistence r reply w.st.db := by
  let now := r.time (r.messages.length + 2)
  let w₁ := w.begin r.cid (latestUserText r.messages) r.profile r.topic (prepareConversation S.persistence r w.st.db).2
  let t : Task := ⟨w.requests, r.cid, latestUserText r.messages, r.profile, r.topic, .generating⟩
  have hbegin : Step S w (.v1 r) w₁ := .v1
  have hmem : t ∈ w₁.tasks := List.mem_append_right _ (List.mem_singleton_self _)
  cases reply with
  | none =>
    have hreply : Step S w₁ (.reply w.requests none now) (w₁.drop t) := .failed hmem rfl
    exact ⟨_, _, .cons hbegin (.one hreply), rfl⟩
  | some reply =>
    have hreply : Step S w₁ (.reply w.requests (some reply) now) (w₁.replied S t reply now) := .replied hmem rfl
    exact ⟨_, _, .cons hbegin (.one hreply), rfl⟩

/-! ### What is made for a conversation -/

/-- A point carries the conversation's id. -/
def Carries (cid : String) (p : Rag.Point V) : Prop := getKey p.metadata "conversation_id" = .str cid

/-- No turn and no row of the conversation is made. -/
structure NoTurn (cid : String) (db db' : Db) : Prop where
  turns : ∀ t ∈ db'.turns, t.conversationId = cid → ∃ u ∈ db.turns, u.id = t.id ∧ u.conversationId = cid
  row : cid ∈ db'.conversations.map Conversation.conversationId →
    cid ∈ db.conversations.map Conversation.conversationId

/-- No fact that carries the conversation's id is stored. -/
structure NoFact (cid : String) (w w' : World V) : Prop where
  facts : factsOf w'.st cid = factsOf w.st cid
  notes : ∀ p ∈ w'.store.points, Carries cid p → p ∈ w.store.points

/-- The conversation has no turn and no row, and no fact but those it had. -/
structure Absent (cid : String) (w w' : World V) : Prop where
  turns : ∀ t ∈ w'.st.db.turns, t.conversationId ≠ cid
  row : cid ∉ w'.st.db.conversations.map Conversation.conversationId
  facts : NoFact cid w w'

/-- A request begins that uses the conversation. -/
def Event.Uses (cid : String) : Event V → Prop
  | .chat r => chatId S.persistence r = cid
  | .v1 r => r.cid = cid
  | _ => False

/-- A step of a request that had begun in the world `w`. -/
def Event.OfRequest (w : World V) : Event V → Prop
  | .reply n _ _ | .noted n _ => n < w.requests
  | _ => False

/-- A step of a pass. -/
def Event.OfPass : Event V → Prop
  | .row _ | .answer _ => True
  | _ => False

/-- The delete of `cid` in `w`, which leaves `w₁`, is final: no step of what had begun
before makes a turn, a row or a fact for the conversation, and it stays absent until a
request uses it that begins later. -/
def Final (cid : String) (w w₁ : World V) : Prop :=
  ∀ es w₂, Run (Step S) w₁ es w₂ →
    (∀ e w₃, Step S w₂ e w₃ → e.OfRequest w ∨ e.OfPass ∧ w₂.passes = w.passes →
      NoTurn cid w₂.st.db w₃.st.db ∧ NoFact cid w₂ w₃) ∧
    ((∀ e ∈ es, ¬ e.Uses S cid) → Absent cid w₁ w₂)

/-- The step records the reply of a request on the conversation that waited for its
generation in `w`. -/
def Records (cid : String) (w w₂ : World V) (e : Event V) (w₃ : World V) : Prop :=
  ∃ t ∈ w.tasks, t.cid = cid ∧ t.stage = .generating ∧ ∃ reply now, e = .reply t.number (some reply) now ∧
    ∃ u, w₃.st.db.turns = w₂.st.db.turns ++ [u] ∧ u.conversationId = cid ∧ u.role = "assistant" ∧ u.content = reply

/-- The step ends a call of the distiller on the conversation that was under way in `w`,
or is shown no turn that is as old. -/
def Distils (cid : String) (w w₂ : World V) (e : Event V) : Prop :=
  ∃ T c rest R, e = .answer R ∧ w₂.pc = .distilling T c rest ∧ c.conversationId = cid ∧
    (w.pc = .distilling T c rest ∨ ∀ u ∈ c.turns, w.st.db.lastId < u.id)

/-- A pass does not work on the conversation, nor will it unless the conversation has
turns when its row comes. -/
def Clear (cid : String) : PassPc → Prop
  | .idle => True
  | .rows T rest => 0 < T.minTurns ∨ cid ∉ rest.map Db.Pending.conversationId
  | .distilling T c rest => c.conversationId ≠ cid ∧ (0 < T.minTurns ∨ cid ∉ rest.map Db.Pending.conversationId)

/-- What can be made for the conversation after its delete in `w`, which leaves `w₁`. -/
structure Settled (cid : String) (w w₁ : World V) : Prop where
  /-- A request that had begun records its reply, if it was waiting for it; nothing else. -/
  request : ∀ es w₂, Run (Step S) w₁ es w₂ → ∀ e w₃, Step S w₂ e w₃ → e.OfRequest w →
    NoFact cid w₂ w₃ ∧ (NoTurn cid w₂.st.db w₃.st.db ∨ Records cid w w₂ e w₃)
  /-- The pass that had begun stores the facts of a call, of an old one or on new turns. -/
  pass : ∀ es w₂, Run (Step S) w₁ es w₂ → ∀ e w₃, Step S w₂ e w₃ → e.OfPass → w₂.passes = w.passes →
    NoTurn cid w₂.st.db w₃.st.db ∧ (NoFact cid w₂ w₃ ∨ Distils cid w w₂ e)
  /-- When none of these was in flight, the conversation stays absent until a request uses
  it that begins later. -/
  absent : (∀ t ∈ w.tasks, t.stage = .generating → t.cid ≠ cid) → Clear cid w.pc →
    ∀ es w₂, Run (Step S) w₁ es w₂ → (∀ e ∈ es, ¬ e.Uses S cid) → Absent cid w₁ w₂

/-! ### The conversations database -/

section Db

variable {cid c : String} {db db' db'' : Db}

theorem NoTurn.refl (cid : String) (db : Db) : NoTurn cid db db := ⟨fun t ht hc => ⟨t, ht, rfl, hc⟩, id⟩

theorem NoTurn.trans (h : NoTurn cid db db') (h' : NoTurn cid db' db'') : NoTurn cid db db'' where
  turns t ht hc := by
    obtain ⟨u, hu, hid, hc'⟩ := h'.turns t ht hc
    obtain ⟨v, hv, hid', hc''⟩ := h.turns u hu hc'
    exact ⟨v, hv, hid'.trans hid, hc''⟩
  row hr := h.row (h'.row hr)

/-- Making another conversation makes nothing for this one. -/
theorem noTurn_insertConversation {conv : Conversation} (h : conv.conversationId ≠ cid) :
    NoTurn cid db (db.insertConversation conv) := by
  unfold Db.insertConversation
  split_ifs
  · exact .refl cid db
  · refine ⟨fun t ht hc => ⟨t, ht, rfl, hc⟩, fun hr => ?_⟩
    simp only [List.map_append, List.map_cons, List.map_nil, List.mem_append, List.mem_singleton] at hr
    exact hr.resolve_right (Ne.symm h)

theorem map_touch (now : ℤ) (c : String) (db : Db) :
    (db.touch now c).conversations.map Conversation.conversationId = db.conversations.map Conversation.conversationId := by
  unfold Db.touch
  rw [List.map_map]
  refine List.map_congr_left fun conv _ => ?_
  dsimp only [Function.comp]
  split_ifs <;> rfl

/-- Adding a turn to another conversation makes nothing for this one. -/
theorem noTurn_addTurn {now : ℤ} {role content : String} {profile topic : Option String} {tokens : Option ℤ}
    (h : c ≠ cid) : NoTurn cid db (db.addTurn now c role content profile topic tokens) where
  turns t ht hc := by
    rw [Db.turns_addTurn, List.mem_append, List.mem_singleton] at ht
    rcases ht with ht | rfl
    · exact ⟨t, ht, rfl, hc⟩
    · exact absurd hc h
  row hr := by
    unfold Db.addTurn at hr
    rw [map_touch] at hr
    have hinsert : NoTurn cid db (db.insertConversation ⟨c, profile, none, now, now⟩) := noTurn_insertConversation h
    exact hinsert.row hr

theorem mark_conversationId (ids : List ℕ) (summary : Option String) (t : Turn) :
    (Db.mark ids summary t).conversationId = t.conversationId := by
  rw [Db.mark]
  split_ifs <;> rfl

theorem noTurn_markDistilled (ids : List ℕ) (summary : Option String) :
    NoTurn cid db (db.markDistilled ids summary) where
  turns t ht hc := by
    obtain ⟨u, hu, rfl⟩ := List.mem_map.mp ht
    rw [mark_conversationId] at hc
    exact ⟨u, hu, (Db.mark_id ids summary u).symm, hc⟩
  row hr := hr

theorem noTurn_deleteConversation (c : String) : NoTurn cid db (db.deleteConversation c) where
  turns t ht hc := ⟨t, List.mem_of_mem_filter ht, rfl, hc⟩
  row hr := (List.filter_sublist.map _).subset hr

/-- A relation that holds of what requests on the conversation `c` do to the database,
since it does of each write. -/
structure Closed (c : String) (R : Db → Db → Prop) : Prop where
  refl : ∀ db, R db db
  trans : ∀ {db db' db''}, R db db' → R db' db'' → R db db''
  insert : ∀ {conv : Conversation} db, conv.conversationId = c → R db (db.insertConversation conv)
  add : ∀ {now : ℤ} {role content : String} {profile topic : Option String} {tokens : Option ℤ} db,
    R db (db.addTurn now c role content profile topic tokens)

section Closed

variable {R : Db → Db → Prop} {P : Persistence}

theorem Closed.persistTurn (h : Closed c R) {now : ℤ} {role content profile : String} {topic : Option String} (db : Db) :
    R db (persistTurn P now c role content profile topic db) := by
  unfold Api.persistTurn
  split_ifs
  · exact h.add db
  · exact h.refl db

theorem Closed.seedTurns (h : Closed c R) {profile : String} {ms : List (ℤ × OAMessage String)} (db : Db) :
    R db (seedTurns c profile ms db) := by
  induction ms generalizing db with
  | nil => exact h.refl db
  | cons m ms ih => exact h.trans (h.add db) (ih _)

/-- What a `/v1` request does before its first `await`. -/
theorem Closed.prepareConversation {r : V1Req} (h : Closed r.cid R) (db : Db) :
    R db (prepareConversation P r db).2 := by
  unfold Api.prepareConversation
  dsimp only
  refine h.trans ?_ (h.persistTurn _)
  split_ifs
  · exact h.trans (h.insert db rfl) (h.seedTurns _)
  · exact h.insert db rfl
  · exact h.refl db

/-- What a `/chat` request does before its first `await`. -/
theorem Closed.chatPrepare {r : ChatReq} (h : Closed (chatId P r) R) (db : Db) : R db (chatPrepare P r db).2 := by
  unfold Deletion.chatPrepare
  refine h.trans ?_ (h.persistTurn _)
  split_ifs
  · exact h.insert db rfl
  · exact h.refl db

end Closed

/-- Requests on another conversation make nothing for this one. -/
theorem closed_noTurn (h : c ≠ cid) : Closed c (NoTurn cid) where
  refl := .refl cid
  trans := .trans
  insert _ hconv := noTurn_insertConversation (hconv ▸ h)
  add _ := noTurn_addTurn h

/-- Requests give new ids to their turns. -/
theorem closed_chat (c : String) : Closed c Chat where
  refl _ := ⟨le_rfl, fun _ ht => .inl ht⟩
  trans h h' := by
    refine ⟨h.1.trans h'.1, fun t ht => ?_⟩
    rcases h'.2 t ht with ht | ⟨hlt, hd⟩
    · exact h.2 t ht
    · exact .inr ⟨h.1.trans_lt hlt, hd⟩
  insert _ _ := Memory.chat_insertConversation _ _
  add _ := Memory.chat_addTurn _

/-- The turns of the conversation are newer than the turn `last`. -/
def Newer (last : ℕ) (cid : String) (db : Db) : Prop :=
  last ≤ db.lastId ∧ ∀ t ∈ db.turns, t.conversationId = cid → last < t.id

theorem Newer.chat {last : ℕ} (h : Newer last cid db) (hc : Chat db db') : Newer last cid db' := by
  refine ⟨h.1.trans hc.1, fun t ht hcid => ?_⟩
  rcases hc.2 t ht with ht | ⟨hlt, -⟩
  · exact h.2 t ht hcid
  · exact h.1.trans_lt hlt

theorem Newer.markDistilled {last : ℕ} (h : Newer last cid db) (ids : List ℕ) (summary : Option String) :
    Newer last cid (db.markDistilled ids summary) := by
  refine ⟨h.1, fun t ht hcid => ?_⟩
  obtain ⟨u, hu, rfl⟩ := List.mem_map.mp ht
  rw [mark_conversationId] at hcid
  rw [Db.mark_id]
  exact h.2 u hu hcid

end Db

/-! ### The vector store -/

section Store

variable {S} {cid : String} {store : Rag.Store V} {p : Rag.Point V}

theorem notMem_safeMeta {P : Python} {metadata : Dict} {k : String} (h : k ∉ metadata) :
    k ∉ Rag.safeMeta P metadata := by
  have hkeys : (metadata.entries.map fun e => (⟨e.1, Rag.safeValue P e.2⟩ : (_ : String) × Json)).keys =
      metadata.keys := by
    unfold List.keys AList.keys
    rw [List.map_map]
    rfl
  rw [← AList.lookup_eq_none, Rag.safeMeta, AList.lookup_to_alist, List.dlookup_eq_none, hkeys]
  exact h

theorem notMem_noteMeta {kind source profile : String} {topic : Option String} {now : ℤ} :
    "conversation_id" ∉ noteMeta kind source profile topic now := by
  have hitem : "conversation_id" ∉ item "kind" (.str kind) := notMem_item (by decide)
  exact notMem_insert (by decide) (notMem_insert (by decide) (notMem_insert (by decide)
    (notMem_insert (by decide) hitem)))

/-- A point of a request carries no conversation's id. -/
theorem mem_of_mem_memoryAdd {embedded : Option V} {stores : Bool} {text kind source profile : String}
    {topic : Option String} {now : ℤ} {owner : Option String}
    (hp : p ∈ (Rag.memoryAdd S.rag S.python embedded stores text (noteMeta kind source profile topic now) owner store).points)
    (hc : Carries cid p) : p ∈ store.points := by
  rcases Rag.mem_memoryAdd hp with hp | ⟨vec, rfl⟩
  · exact hp
  · have hno : "conversation_id" ∉ Rag.safeMeta S.python (noteMeta kind source profile topic now) :=
      notMem_safeMeta notMem_noteMeta
    rw [Carries, getKey, AList.lookup_eq_none.mpr hno] at hc
    cases hc

theorem mem_of_mem_storeFacts {t : Task} {N : Noting V} {n : ℕ} {fs : List String}
    (hp : p ∈ (storeFacts S t N n fs store).points) (hc : Carries cid p) : p ∈ store.points := by
  induction fs generalizing n store with
  | nil => exact hp
  | cons f fs ih => exact mem_of_mem_memoryAdd (ih hp) hc

/-- What a request stores carries no conversation's id. -/
theorem mem_of_mem_noted {t : Task} {reply : String} {N : Noting V} (hp : p ∈ (noted S t reply N store).points)
    (hc : Carries cid p) : p ∈ store.points := by
  unfold noted at hp
  dsimp only at hp
  split_ifs at hp
  · exact mem_of_mem_storeFacts (mem_of_mem_memoryAdd hp hc) hc
  · exact mem_of_mem_storeFacts hp hc

end Store

/-! ### What a pass does -/

section Pass

variable {cid : String} {p p' : Memory.World V} {T : Settings} {R : Memory.Reply V} {c : Call} {s : Memory.St V}

theorem start_cases (h : Memory.Step p (.start T) p') :
    p'.st = p.st ∧ p'.pc = .rows T (p.st.db.conversationsWithUndistilled T.minTurns T.maxConvos) := by
  cases h with
  | start _ => exact ⟨rfl, rfl⟩

/-- Between two awaits a pass is over, goes on, or calls the distiller. -/
theorem row_cases {go : Bool} (h : Memory.Step p (.row go) p') : p'.st = p.st ∧ (p'.pc = .idle ∨
    ∃ T row rest, p.pc = .rows T (row :: rest) ∧ (p'.pc = .rows T rest ∨
      ∃ c, Memory.enterRow T go p.st.skip p.st.db row = .call c ∧ p'.pc = .distilling T c rest)) := by
  cases h with
  | done _ | stop _ _ => exact ⟨rfl, .inl rfl⟩
  | skip hpc _ => exact ⟨rfl, .inr ⟨_, _, _, hpc, .inl rfl⟩⟩
  | call hpc he => exact ⟨rfl, .inr ⟨_, _, _, hpc, .inr ⟨_, he, rfl⟩⟩⟩

theorem minTurns_le_of_enterRow {go : Bool} {skip : List String} {db : Db} {row : Db.Pending}
    (h : Memory.enterRow T go skip db row = .call c) : T.minTurns ≤ c.turns.length := by
  unfold Memory.enterRow at h
  dsimp only at h
  split_ifs at h with _ _ hlt
  cases h
  exact Nat.le_of_not_lt hlt

theorem answer_cases (h : Memory.Step p (.answer R) p') : ∃ T c rest, p.pc = .distilling T c rest ∧
    p'.st = (Memory.finishCall T R c p.st).2 ∧ (p'.pc = .idle ∨ p'.pc = .rows T rest) := by
  cases h with
  | answer hpc =>
    refine ⟨_, _, _, hpc, rfl, ?_⟩
    dsimp only
    split_ifs
    · exact .inl rfl
    · exact .inr rfl

theorem noTurn_finishCall : NoTurn cid s.db (Memory.finishCall T R c s).2.db := by
  rw [Memory.db_finishCall]
  split_ifs
  · exact noTurn_markDistilled _ _
  · exact .refl cid s.db

theorem Newer.finishCall {last : ℕ} (h : Newer last cid s.db) : Newer last cid (Memory.finishCall T R c s).2.db := by
  rw [Memory.db_finishCall]
  split_ifs
  · exact h.markDistilled _ _
  · exact h

/-- A call for another conversation stores no fact for this one. -/
theorem factsOf_finishCall_ne (h : c.conversationId ≠ cid) :
    factsOf (Memory.finishCall T R c s).2 cid = factsOf s cid := by
  rw [Memory.factsOf_finishCall, if_neg h, List.append_nil]

end Pass

/-! ### After the delete -/

section After

variable {S} {cid : String} {w w₁ w₂ w₃ : World V} {e : Event V}

/-- What is left in a later world of what was in flight when the conversation was deleted. -/
structure Later (cid : String) (w w₂ : World V) : Prop where
  requests : w.requests ≤ w₂.requests
  tasks : ∀ t ∈ w₂.tasks, t.stage = .generating → t.number < w.requests → t ∈ w.tasks
  newer : Newer w.st.db.lastId cid w₂.st.db
  call : ∀ T c rest, w₂.pc = .distilling T c rest → c.conversationId = cid →
    w.pc = .distilling T c rest ∨ ∀ u ∈ c.turns, w.st.db.lastId < u.id

theorem later_delete (h : Step S w (.delete cid) w₁) : Later cid w w₁ := by
  cases h with
  | delete _ =>
    refine ⟨le_rfl, fun t ht _ _ => ht, ⟨le_rfl, fun t ht hc => ?_⟩, fun T c rest hpc _ => .inl hpc⟩
    exact absurd hc (of_decide_eq_true (List.mem_filter.mp ht).2)

/-- A request that begins leaves what was in flight as it was. -/
theorem Later.begin (h : Later cid w w₂) {cid' text profile : String} {topic : Option String} {db : Db}
    (hdb : Chat w₂.st.db db) : Later cid w (w₂.begin cid' text profile topic db) where
  requests := h.requests.trans (Nat.le_succ _)
  tasks t ht hs hn := by
    rcases List.mem_append.mp ht with ht | ht
    · exact h.tasks t ht hs hn
    · rw [List.mem_singleton.mp ht] at hn
      exact absurd h.requests (Nat.not_le_of_lt hn)
  newer := h.newer.chat hdb
  call := h.call

theorem later_step (h : Later cid w w₂) (hs : Step S w₂ e w₃) : Later cid w w₃ := by
  cases hs with
  | chat => exact h.begin ((closed_chat _).chatPrepare _)
  | v1 => exact h.begin ((closed_chat _).prepareConversation _)
  | failed ht _ => exact ⟨h.requests, fun t ht => h.tasks t (List.mem_of_mem_filter ht), h.newer, h.call⟩
  | replied ht _ =>
    refine ⟨h.requests, fun t ht hs hn => ?_, h.newer.chat ((closed_chat _).persistTurn _), h.call⟩
    rcases List.mem_append.mp ht with ht | ht
    · exact h.tasks t (List.mem_of_mem_filter ht) hs hn
    · rw [List.mem_singleton.mp ht] at hs
      cases hs
  | noted ht _ => exact ⟨h.requests, fun t ht => h.tasks t (List.mem_of_mem_filter ht), h.newer, h.call⟩
  | delete _ => exact ⟨h.requests, h.tasks, h.newer.chat (Memory.chat_deleteConversation _ _), h.call⟩
  | start hp =>
    obtain ⟨hst, hpc⟩ := start_cases hp
    refine ⟨h.requests, h.tasks, by rw [hst]; exact h.newer, fun T c rest hd => ?_⟩
    rw [hpc] at hd
    cases hd
  | row hp =>
    obtain ⟨hst, hpc⟩ := row_cases hp
    refine ⟨h.requests, h.tasks, by rw [hst]; exact h.newer, fun T c rest hd hc => ?_⟩
    dsimp only at hd
    rcases hpc with hpc | ⟨T', row, rest', -, hpc | ⟨c', he, hpc⟩⟩
    · rw [hpc] at hd
      cases hd
    · rw [hpc] at hd
      cases hd
    · -- a call after the delete is shown the turns there are now
      rw [hpc] at hd
      cases hd
      obtain ⟨hcid, hturns, -⟩ := Memory.enterRow_eq_call he
      refine .inr fun u hu => ?_
      rw [hturns] at hu
      obtain ⟨hmem, hu, -⟩ := Db.mem_undistilledTurns.mp hu
      exact h.newer.2 u hmem ((hu.trans hcid.symm).trans hc)
  | answer hp =>
    obtain ⟨T, c, rest, hd, hst, hpc⟩ := answer_cases hp
    refine ⟨h.requests, h.tasks, by rw [hst]; exact Newer.finishCall h.newer, fun T' c' rest' hd' => ?_⟩
    dsimp only at hd'
    rcases hpc with hpc | hpc
    · rw [hpc] at hd'
      cases hd'
    · rw [hpc] at hd'
      cases hd'

/-- A request that had begun makes nothing but the reply it was waiting for. -/
theorem request_step (h : Later cid w w₂) (hs : Step S w₂ e w₃) (he : e.OfRequest w) :
    NoFact cid w₂ w₃ ∧ (NoTurn cid w₂.st.db w₃.st.db ∨ Records cid w w₂ e w₃) := by
  cases hs with
  | chat | v1 | delete _ | start _ | row _ | answer _ => exact absurd he id
  | failed ht _ => exact ⟨⟨rfl, fun _ hp _ => hp⟩, .inl (.refl cid _)⟩
  | noted ht _ => exact ⟨⟨rfl, fun _ => mem_of_mem_noted⟩, .inl (.refl cid _)⟩
  | @replied t reply now ht hstage =>
    refine ⟨⟨rfl, fun _ hp _ => hp⟩, ?_⟩
    by_cases hc : t.cid = cid
    · show NoTurn cid w₂.st.db (persistTurn S.persistence now t.cid "assistant" reply t.profile t.topic w₂.st.db) ∨ _
      by_cases hon : S.persistence.convoOk = true ∧ S.persistence.persistEnabled = true ∧ t.cid ≠ ""
      · right
        refine ⟨t, h.tasks t ht hstage he, hc, hstage, reply, now, rfl, ?_⟩
        show ∃ u, (persistTurn S.persistence now t.cid "assistant" reply t.profile t.topic w₂.st.db).turns = _ ∧ _
        rw [persistTurn, if_pos hon]
        exact ⟨_, Db.turns_addTurn .., hc, rfl, rfl⟩
      · rw [persistTurn, if_neg hon]
        exact .inl (.refl cid _)
    · exact .inl ((closed_noTurn hc).persistTurn _)

/-- The pass that had begun makes nothing but the facts of a call. -/
theorem pass_step (h : Later cid w w₂) (hs : Step S w₂ e w₃) (he : e.OfPass) :
    NoTurn cid w₂.st.db w₃.st.db ∧ (NoFact cid w₂ w₃ ∨ Distils cid w w₂ e) := by
  cases hs with
  | chat | v1 | failed _ _ | replied _ _ | noted _ _ | delete _ | start _ => exact absurd he id
  | row hp =>
    obtain ⟨hst, -⟩ := row_cases hp
    rw [hst]
    exact ⟨.refl cid _, .inl ⟨rfl, fun _ hp _ => hp⟩⟩
  | @answer R p hp =>
    obtain ⟨T, c, rest, hd, hst, -⟩ := answer_cases hp
    rw [hst]
    refine ⟨noTurn_finishCall, ?_⟩
    by_cases hc : c.conversationId = cid
    · exact .inr ⟨T, c, rest, R, rfl, hd, hc, h.call T c rest hd hc⟩
    · exact .inl ⟨factsOf_finishCall_ne hc, fun _ hp _ => hp⟩

/-! ### A conversation that stays absent -/

theorem Absent.step (h : Absent cid w₁ w₂) (ht : NoTurn cid w₂.st.db w₃.st.db) (hf : NoFact cid w₂ w₃) :
    Absent cid w₁ w₃ where
  turns t ht' hc := by
    obtain ⟨u, hu, -, hcu⟩ := ht.turns t ht' hc
    exact h.turns u hu hcu
  row hr := h.row (ht.row hr)
  facts := ⟨hf.facts.trans h.facts.facts, fun p hp hc => h.facts.notes p (hf.notes p hp hc) hc⟩

/-- The conversation is absent, and nothing is in flight that could bring it back. -/
structure Gone (cid : String) (w₁ w₂ : World V) : Prop where
  absent : Absent cid w₁ w₂
  tasks : ∀ t ∈ w₂.tasks, t.stage = .generating → t.cid ≠ cid
  clear : Clear cid w₂.pc

theorem gone_delete (h : Step S w (.delete cid) w₁) (ht : ∀ t ∈ w.tasks, t.stage = .generating → t.cid ≠ cid)
    (hc : Clear cid w.pc) : Gone cid w₁ w₁ := by
  cases h with
  | delete _ =>
    refine ⟨⟨fun t ht => of_decide_eq_true (List.mem_filter.mp ht).2, fun hr => ?_, ⟨rfl, fun _ hp _ => hp⟩⟩, ht, hc⟩
    obtain ⟨conv, hconv, heq⟩ := List.mem_map.mp hr
    exact of_decide_eq_true (List.mem_filter.mp hconv).2 heq

/-- A request on another conversation begins. -/
theorem Gone.begin (h : Gone cid w₁ w₂) {cid' text profile : String} {topic : Option String} {db : Db}
    (hne : cid' ≠ cid) (hdb : NoTurn cid w₂.st.db db) : Gone cid w₁ (w₂.begin cid' text profile topic db) where
  absent := h.absent.step hdb ⟨rfl, fun _ hp _ => hp⟩
  tasks t ht hs := by
    rcases List.mem_append.mp ht with ht | ht
    · exact h.tasks t ht hs
    · rw [List.mem_singleton.mp ht]
      exact hne
  clear := h.clear

/-- A pass that works on its next row does not come to work on an absent conversation. -/
theorem clear_row {p : Memory.World V} {go : Bool} (h : Gone cid w₁ w₂) (hp : Memory.Step w₂.pass (.row go) p) :
    Clear cid p.pc := by
  obtain ⟨-, hpc⟩ := row_cases hp
  rcases hpc with hpc | ⟨T, row, rest, hd, hpc⟩
  · rw [hpc]
    trivial
  · have hclear : 0 < T.minTurns ∨ cid ∉ (row :: rest).map Db.Pending.conversationId := by
      have hc := h.clear
      change w₂.pc = _ at hd
      rwa [hd] at hc
    have hrest : 0 < T.minTurns ∨ cid ∉ rest.map Db.Pending.conversationId :=
      hclear.imp_right fun hno hmem => hno (List.mem_cons_of_mem _ hmem)
    rcases hpc with hpc | ⟨c, he, hpc⟩
    · rw [hpc]
      exact hrest
    · rw [hpc]
      refine ⟨fun hc => ?_, hrest⟩
      obtain ⟨hcid, hturns, -⟩ := Memory.enterRow_eq_call he
      rcases hclear with hpos | hno
      · -- the conversation has no turns, so that its row is passed over
        have hnil : c.turns = [] := by
          rw [hturns, List.eq_nil_iff_forall_not_mem]
          intro u hu
          obtain ⟨hmem, hu, -⟩ := Db.mem_undistilledTurns.mp hu
          exact h.absent.turns u hmem ((hu.trans hcid.symm).trans hc)
        have hle := minTurns_le_of_enterRow he
        rw [hnil] at hle
        exact absurd hle (Nat.not_le_of_lt hpos)
      · exact hno (List.mem_cons.mpr (.inl (hc.symm.trans hcid)))

theorem gone_step (h : Gone cid w₁ w₂) (hs : Step S w₂ e w₃) (he : ¬ e.Uses S cid) : Gone cid w₁ w₃ := by
  cases hs with
  | chat => exact h.begin he ((closed_noTurn he).chatPrepare _)
  | v1 => exact h.begin he ((closed_noTurn he).prepareConversation _)
  | failed ht _ =>
    refine ⟨h.absent.step (.refl cid _) ⟨rfl, fun _ hp _ => hp⟩, fun t ht => ?_, h.clear⟩
    exact h.tasks t (List.mem_of_mem_filter ht)
  | replied ht hstage =>
    have hne := closed_noTurn (h.tasks _ ht hstage)
    refine ⟨h.absent.step (hne.persistTurn _) ⟨rfl, fun _ hp _ => hp⟩, fun t ht hs => ?_, h.clear⟩
    rcases List.mem_append.mp ht with ht | ht
    · exact h.tasks t (List.mem_of_mem_filter ht) hs
    · rw [List.mem_singleton.mp ht] at hs
      cases hs
  | noted ht _ =>
    refine ⟨h.absent.step (.refl cid _) ⟨rfl, fun _ => mem_of_mem_noted⟩, fun t ht => ?_, h.clear⟩
    exact h.tasks t (List.mem_of_mem_filter ht)
  | delete _ =>
    exact ⟨h.absent.step (noTurn_deleteConversation _) ⟨rfl, fun _ hp _ => hp⟩, h.tasks, h.clear⟩
  | @start T p hp =>
    obtain ⟨hst, hpc⟩ := start_cases hp
    refine ⟨h.absent.step (by rw [hst]; exact .refl cid _) ⟨by rw [hst]; rfl, fun _ hp _ => hp⟩, h.tasks, ?_⟩
    show Clear cid p.pc
    rw [hpc]
    -- only conversations that have a row are selected
    refine .inr fun hmem => ?_
    obtain ⟨r, hr, heq⟩ := List.mem_map.mp hmem
    exact h.absent.row (heq ▸ (Db.mem_conversationsWithUndistilled hr).1)
  | row hp =>
    obtain ⟨hst, -⟩ := row_cases hp
    exact ⟨h.absent.step (by rw [hst]; exact .refl cid _) ⟨by rw [hst]; rfl, fun _ hp _ => hp⟩, h.tasks, clear_row h hp⟩
  | @answer R p hp =>
    obtain ⟨T, c, rest, hd, hst, hpc⟩ := answer_cases hp
    have hc : c.conversationId ≠ cid ∧ (0 < T.minTurns ∨ cid ∉ rest.map Db.Pending.conversationId) := by
      have hclear := h.clear
      change w₂.pc = _ at hd
      rwa [hd] at hclear
    refine ⟨h.absent.step (by rw [hst]; exact noTurn_finishCall) ?_, h.tasks, ?_⟩
    · exact ⟨by rw [hst]; exact factsOf_finishCall_ne hc.1, fun _ hp _ => hp⟩
    · show Clear cid p.pc
      rcases hpc with hpc | hpc
      · rw [hpc]
        trivial
      · rw [hpc]
        exact hc.2

/-- **What is made for a conversation after its delete**: the reply of a request that was
waiting for it, and the facts of a call; and nothing when neither is in flight, until a
request uses the conversation that begins later. -/
theorem settled_delete (h : Step S w (.delete cid) w₁) : Settled S cid w w₁ := by
  have hlater : ∀ {es w₂}, Run (Step S) w₁ es w₂ → Later cid w w₂ := fun hrun =>
    hrun.inv (fun _ _ _ hl hs => later_step hl hs) (later_delete h)
  refine ⟨fun es w₂ hrun e w₃ hs he => request_step (hlater hrun) hs he,
    fun es w₂ hrun e w₃ hs he _ => pass_step (hlater hrun) hs he, fun ht hc es w₂ hrun huses => ?_⟩
  have hunused : AtEach (Step S) (fun _ e => ¬ e.Uses S cid) w₁ (es ++ []) := by
    intro before e after t hes _
    rw [List.append_nil] at hes
    exact huses e (hes ▸ List.mem_append_right _ List.mem_cons_self)
  have hguarded : Run (Guarded (fun _ e => ¬ e.Uses S cid) (Step S)) w₁ es w₂ := hunused.guarded hrun
  have hgone : Gone cid w₁ w₂ :=
    hguarded.inv (I := Gone cid w₁) (fun _ _ _ hg hs => gone_step hg hs.2 hs.1) (gone_delete h ht hc)
  exact hgone.absent

end After

/-! ### A delete that is not final -/

/-- Nothing is in flight. -/
structure World.Idle (w : World V) : Prop where
  tasks : w.tasks = []
  pc : w.pc = .idle

/-- A server with all its databases. -/
def plainServer : Server := ⟨persisting, ⟨true, "memory", true, true, false⟩, .ofTable []⟩

/-- A database, and nothing in flight. -/
def World.quiet (db : Db) : World ℤ := ⟨⟨db, [], [], [], []⟩, .empty, [], 0, .idle, 0⟩

theorem idle_quiet (db : Db) : (World.quiet db).Idle := ⟨rfl, rfl⟩

/-- A message for the conversation `c`. -/
def hi : ChatReq := ⟨some "c", "hi", "default", "chat", "u", fun _ => 0⟩

/-- The world in which it waits for its reply. -/
def waiting : World ℤ :=
  (World.quiet .empty).begin "c" "hi" "default" (some "chat") (chatPrepare persisting hi .empty).2

theorem run_waiting : Run (Step plainServer) (World.quiet .empty) [.chat hi] waiting := .one .chat

theorem settled_waiting : ∃ w₁, Step plainServer waiting (.delete "c") w₁ ∧ Settled plainServer "c" waiting w₁ :=
  ⟨_, .delete rfl, settled_delete (.delete rfl)⟩

/-- A reply is recorded in a conversation that was deleted while it was generated. -/
theorem not_final_reply : ∃ w₁, Step plainServer waiting (.delete "c") w₁ ∧ ¬ Final plainServer "c" waiting w₁ := by
  refine ⟨_, .delete rfl, fun h => ?_⟩
  have hstep := (h [] _ .nil).1 (.reply 0 (some "hello") 0) _
    (.replied (t := ⟨0, "c", "hi", "default", some "chat", .generating⟩) List.mem_cons_self rfl) (.inl Nat.zero_lt_one)
  obtain ⟨u, hu, -, hc⟩ := hstep.1.turns ⟨2, "c", some "default", "assistant", "hello", some "chat", some 1, false, none, 0⟩
    (List.mem_singleton_self _) rfl
  exact of_decide_eq_true (List.mem_filter.mp hu).2 hc

/-- A fact is stored for a conversation that was deleted while it was distilled. -/
theorem not_final_fact : ∃ es w w₁, Run (Step plainServer) (World.quiet Memory.talk) es w ∧ w.tasks = [] ∧
    Step plainServer w (.delete "a") w₁ ∧ ¬ Final plainServer "a" w w₁ := by
  refine ⟨[.start Memory.oneConvo, .row true], _, _, .cons (.start (.start rfl)) (.one (.row (.call rfl rfl))), rfl,
    .delete rfl, fun h => ?_⟩
  have hstep := (h [] _ .nil).1 (.answer (Memory.oneFact true)) _ (.answer (.answer rfl)) (.inr ⟨trivial, rfl⟩)
  have hlen := congrArg List.length hstep.2.facts
  exact absurd hlen (by decide)

/-- A delete is not final for what is in flight. -/
theorem not_final : ¬ ∀ (S : Server) (cid : String) (w₀ : World ℤ) (es : List (Event ℤ)) (w w₁ : World ℤ),
    w₀.Idle → Run (Step S) w₀ es w → Step S w (.delete cid) w₁ → Final S cid w w₁ := by
  intro h
  obtain ⟨w₁, hdelete, hnot⟩ := not_final_reply
  exact hnot (h plainServer "c" _ _ waiting w₁ (idle_quiet _) run_waiting hdelete)

end Persona.Api.Deletion
