import Persona.Api.Deletion

/-!
# What is said in a conversation

Requests on any conversations, passes of the sleep cycle and deletes, in any interleaving. A `Ledger` is what the
conversations database is for: of each conversation what was said in it, in order, and which request said it.

`refines_of_run` says that the database holds that after every run, and that of each request its conversation
holds the message and after it the reply, each once, unless the conversation was deleted. Two requests on one
conversation may still come between each other: then two messages stand before the two replies.

Two things are taken as given: the server keeps conversations (`Persists`), and its calls of the conversations
database succeed. A turn whose `add_turn` fails is left out in silence; what that does to a thread is in
`Persona.Api.Seeding`.
-/

namespace Persona.Api.Deletion

open Persona.Lib
open Persona.Memory (Db Turn)

variable {V : Type*}

/-! ### The ledger -/

/-- A request, with its reply if it has one. -/
structure Request where
  cid : String
  text : String
  reply : Option String

/-- What was said, and by which request; by none if it is older than the server. -/
structure Entry where
  request : Option ℕ
  role : String
  content : String
  deriving DecidableEq

/-- What a request said. -/
def Request.said (r : Request) (n : ℕ) : List Entry :=
  ⟨some n, "user", r.text⟩ :: (r.reply.map fun reply => ⟨some n, "assistant", reply⟩).toList

/-- The requests as they began, and of each conversation what was said in it. -/
structure Ledger where
  requests : List Request
  turns : String → List Entry
  /-- The conversations that were deleted. -/
  deleted : List String

namespace Ledger

variable (l : Ledger)

/-- A request begins on a conversation; a client's messages come before it if there is nothing else. -/
def begin (cid text : String) (prior : List (OAMessage String)) : Ledger :=
  let old := if l.turns cid = [] then prior.map fun m => ⟨none, m.role.name, m.content⟩ else l.turns cid
  { l with
    requests := l.requests ++ [⟨cid, text, none⟩]
    turns := Function.update l.turns cid (old ++ [⟨some l.requests.length, "user", text⟩]) }

/-- A request has its reply. -/
def answer (n : ℕ) (reply : String) : Ledger :=
  match l.requests[n]? with
  | none => l
  | some r =>
    { l with
      requests := l.requests.set n { r with reply := some reply }
      turns := Function.update l.turns r.cid (l.turns r.cid ++ [⟨some n, "assistant", reply⟩]) }

/-- A conversation is deleted. -/
def delete (cid : String) : Ledger :=
  { l with turns := Function.update l.turns cid [], deleted := cid :: l.deleted }

/-- What an event adds. -/
def step (P : Persistence) (l : Ledger) : Event V → Ledger
  | .chat r => l.begin (chatId P r) r.text []
  | .v1 r => l.begin r.cid (latestUserText r.messages) (priorTurns r.messages)
  | .reply n (some reply) _ => l.answer n reply
  | .delete cid => l.delete cid
  | _ => l

/-- What is said of a conversation that has these turns. -/
def ofDb (db : Db) : Ledger := ⟨[], fun cid => (stored cid db).map fun t => ⟨none, t.1, t.2⟩, []⟩

/-- What the database should hold. -/
def view (cid : String) : List (String × String) := (l.turns cid).map fun e => (e.role, e.content)

/-- Each request said what it should, in its own conversation. -/
structure Faithful : Prop where
  /-- A conversation holds what its requests said, and nothing of another's. -/
  own : ∀ cid, ∀ e ∈ l.turns cid, ∀ n, e.request = some n → ∃ r, l.requests[n]? = some r ∧ r.cid = cid
  /-- Of each request it holds nothing twice, and the message before the reply. -/
  once : ∀ n r, l.requests[n]? = some r → ((l.turns r.cid).filter fun e => e.request = some n).Sublist (r.said n)
  /-- It holds both unless it was deleted. -/
  whole : ∀ n r, l.requests[n]? = some r → r.cid ∉ l.deleted → ((l.turns r.cid).filter fun e => e.request = some n) = r.said n

end Ledger

variable (S : Server)

/-- The server keeps turns: the store is available, and `CONVO_PERSIST_ENABLED` is on. -/
structure Persists : Prop where
  convoOk : S.persistence.convoOk = true
  persistEnabled : S.persistence.persistEnabled = true

/-- A world is as a ledger says. -/
structure Sim (w : World V) (l : Ledger) : Prop where
  faithful : l.Faithful
  stored : ∀ cid, cid ≠ "" → stored cid w.st.db = l.view cid
  requests : w.requests = l.requests.length
  /-- A request that is suspended is one of the ledger's, which has no reply while it waits for its generation. -/
  tasks : ∀ t ∈ w.tasks, ∃ r, l.requests[t.number]? = some r ∧ r.cid = t.cid ∧ (t.stage = .generating → r.reply = none)
  nodup : (w.tasks.map Task.number).Nodup

/-! ### What the database holds after a write -/

section Db

variable {P : Persistence} {cid c : String} {db db' : Db}

theorem stored_of_turns (h : db'.turns = db.turns) : stored cid db' = stored cid db := by
  rw [stored, stored, Db.getTurns, Db.getTurns, h]

theorem turns_insertConversation (conv : Memory.Conversation) : (db.insertConversation conv).turns = db.turns := by
  unfold Db.insertConversation
  split_ifs <;> rfl

theorem stored_addTurn_ne (h : c ≠ cid) (now : ℤ) (role content : String) (profile topic : Option String) (tokens : Option ℤ) :
    stored cid (db.addTurn now c role content profile topic tokens) = stored cid db := by
  rw [stored, stored, Db.getTurns, Db.getTurns, Db.turns_addTurn, List.filter_append, List.filter_singleton]
  simp [h]

theorem stored_persistTurn_ne (h : c ≠ cid) (now : ℤ) (role content profile : String) (topic : Option String) :
    stored cid (persistTurn P now c role content profile topic db) = stored cid db := by
  rw [persistTurn]
  split_ifs
  · exact stored_addTurn_ne h ..
  · rfl

theorem stored_seedTurns_ne (h : c ≠ cid) (profile : String) (ms : List (ℤ × OAMessage String)) :
    stored cid (seedTurns c profile ms db) = stored cid db := by
  induction ms generalizing db with
  | nil => rfl
  | cons m ms ih => rw [seedTurns, ih, stored_addTurn_ne h]

theorem stored_deleteConversation (cid c : String) :
    stored c (db.deleteConversation cid) = if c = cid then [] else stored c db := by
  rw [stored, Db.getTurns, Db.deleteConversation, List.filter_filter]
  split_ifs with h
  · have hnil : (db.turns.filter fun t => decide (t.conversationId = c) && decide (t.conversationId ≠ cid)) = [] := by
      refine List.filter_eq_nil_iff.mpr fun t _ => ?_
      simp [h]
    rw [hnil]
    rfl
  · have hsame : (db.turns.filter fun t => decide (t.conversationId = c) && decide (t.conversationId ≠ cid)) =
        db.turns.filter fun t => t.conversationId = c := by
      refine List.filter_congr fun t _ => ?_
      by_cases hc : t.conversationId = c <;> simp [hc, h]
    rw [hsame]
    rfl

theorem stored_markDistilled (ids : List ℕ) (summary : Option String) : stored cid (db.markDistilled ids summary) = stored cid db := by
  have hsame : ∀ t, (Db.mark ids summary t).role = t.role ∧ (Db.mark ids summary t).content = t.content := by
    intro t
    rw [Db.mark]
    split_ifs <;> exact ⟨rfl, rfl⟩
  have hfilter : (db.markDistilled ids summary).turns.filter (fun t => t.conversationId = cid) =
      (db.turns.filter fun t => t.conversationId = cid).map (Db.mark ids summary) := by
    rw [Db.markDistilled, List.filter_map]
    congr 1
    refine List.filter_congr fun t _ => ?_
    rw [Function.comp_apply, mark_conversationId]
  rw [stored, stored, Db.getTurns, Db.getTurns, hfilter]
  rw [← List.map_insertionSort (fun t u : Turn => t.id ≤ u.id) (fun t u : Turn => t.id ≤ u.id) (Db.mark ids summary)
    (db.turns.filter fun t => t.conversationId = cid) (fun t _ u _ => by rw [Db.mark_id, Db.mark_id]), List.map_map]
  refine List.map_congr_left fun t _ => ?_
  rw [Function.comp_apply, (hsame t).1, (hsame t).2]

/-- What `chat` stores before its first `await`. -/
theorem stored_chatPrepare (hok : P.convoOk = true) (hon : P.persistEnabled = true) (hcid : cid ≠ "") (r : ChatReq) :
    stored cid (chatPrepare P r db).2 = stored cid db ++ if chatId P r = cid then [("user", r.text)] else [] := by
  have hnew : ∀ (p : Prop) [Decidable p] (now : ℤ) (c : String),
      stored cid (if p then db.newConversation now (some r.profile) none c else db) = stored cid db := by
    intro p _ now c
    split_ifs
    · exact stored_of_turns (turns_insertConversation _)
    · rfl
  rw [chatPrepare]
  by_cases hc : chatId P r = cid
  · subst hc
    rw [if_pos rfl, stored_persistTurn hok hon hcid, hnew]
  · rw [if_neg hc, stored_persistTurn_ne hc, hnew, List.append_nil]

/-- What a `/v1` request stores before its first `await`. -/
theorem stored_prepareConversation (hok : P.convoOk = true) (hon : P.persistEnabled = true) (hcid : cid ≠ "") (r : V1Req) :
    stored cid (prepareConversation P r db).2 =
      if r.cid = cid then
        (if stored cid db = [] then Api.view (priorTurns r.messages) else stored cid db) ++ [("user", latestUserText r.messages)]
      else stored cid db := by
  have hnew : stored cid (db.newConversation (r.time 0) (some r.profile) none r.cid) = stored cid db :=
    stored_of_turns (turns_insertConversation _)
  simp only [prepareConversation, hok, hon, and_self, if_true]
  by_cases hc : r.cid = cid
  · subst hc
    rw [if_pos rfl, stored_persistTurn hok hon hcid]
    congr 1
    split_ifs with hempty hcold hcold
    · rw [stored_seedTurns, hnew, hcold, List.nil_append, List.map_snd_zip (by simp)]
    · rw [List.isEmpty_iff, ← stored_eq_nil_iff, hnew] at hempty
      exact absurd hempty hcold
    · rw [List.isEmpty_iff, ← stored_eq_nil_iff, hnew] at hempty
      exact absurd hcold hempty
    · exact hnew
  · rw [if_neg hc, stored_persistTurn_ne hc]
    split_ifs
    · rw [stored_seedTurns_ne hc, hnew]
    · exact hnew

end Db

/-! ### What a step does to the ledger -/

namespace Ledger

variable {l : Ledger} {n : ℕ} {cid text reply : String} {prior : List (OAMessage String)} {r : Request}

/-- Nothing in a conversation is of a request that has not begun. -/
theorem Faithful.filter_eq_nil (h : l.Faithful) (hn : l.requests[n]? = none) (cid : String) :
    ((l.turns cid).filter fun e => e.request = some n) = [] := by
  refine List.filter_eq_nil_iff.mpr fun e he hreq => ?_
  obtain ⟨r, hr, -⟩ := h.own cid e he n (of_decide_eq_true hreq)
  rw [hn] at hr
  cases hr

/-- What is in a conversation that had turns, or a client's messages. -/
theorem filter_old (l : Ledger) (cid : String) (prior : List (OAMessage String)) (n : ℕ) :
    ((if l.turns cid = [] then prior.map (fun m => (⟨none, m.role.name, m.content⟩ : Entry)) else l.turns cid).filter
      fun e => e.request = some n) = (l.turns cid).filter fun e => e.request = some n := by
  split_ifs with hempty
  · rw [hempty, List.filter_nil]
    refine List.filter_eq_nil_iff.mpr fun e he => ?_
    obtain ⟨m, -, rfl⟩ := List.mem_map.mp he
    nofun
  · rfl

theorem turns_begin (l : Ledger) (cid text : String) (prior : List (OAMessage String)) :
    (l.begin cid text prior).turns = Function.update l.turns cid
      ((if l.turns cid = [] then prior.map (fun m => ⟨none, m.role.name, m.content⟩) else l.turns cid) ++
        [⟨some l.requests.length, "user", text⟩]) := rfl

theorem filter_begin (l : Ledger) (cid text : String) (prior : List (OAMessage String)) (c : String) (n : ℕ) :
    (((l.begin cid text prior).turns c).filter fun e => e.request = some n) =
      ((l.turns c).filter fun e => e.request = some n) ++
        if c = cid ∧ n = l.requests.length then [⟨some n, "user", text⟩] else [] := by
  by_cases hc : c = cid
  · subst hc
    have hlast : ([⟨some l.requests.length, "user", text⟩] : List Entry).filter (fun e => e.request = some n) =
        if c = c ∧ n = l.requests.length then [⟨some n, "user", text⟩] else [] := by
      by_cases hn : n = l.requests.length
      · subst hn
        simp
      · simp [hn, Ne.symm hn]
    rw [turns_begin, Function.update_self, List.filter_append, filter_old, hlast]
  · rw [turns_begin, Function.update_of_ne hc, if_neg fun h => hc h.1, List.append_nil]

theorem getElem?_begin (l : Ledger) (cid text : String) (prior : List (OAMessage String)) (n : ℕ) :
    (l.begin cid text prior).requests[n]? = if n = l.requests.length then some ⟨cid, text, none⟩ else l.requests[n]? := by
  rw [begin]
  dsimp only
  split_ifs with h
  · rw [h, List.getElem?_concat_length]
  · rw [List.getElem?_append]
    split_ifs with hlt
    · rfl
    · rw [List.getElem?_eq_none (by rw [List.length_singleton]; omega), List.getElem?_eq_none (by omega)]

theorem faithful_begin (h : l.Faithful) (cid text : String) (prior : List (OAMessage String)) : (l.begin cid text prior).Faithful := by
  have hnone : l.requests[l.requests.length]? = none := List.getElem?_eq_none (Nat.le_refl _)
  refine ⟨fun c e he n hn => ?own, fun n r hr => ?once, fun n r hr hdel => ?whole⟩
  case own =>
    have hmem : e ∈ ((l.begin cid text prior).turns c).filter fun e => e.request = some n :=
      List.mem_filter.mpr ⟨he, decide_eq_true hn⟩
    rw [filter_begin, List.mem_append] at hmem
    rw [getElem?_begin]
    rcases hmem with hold | hnew
    · obtain ⟨r, hr, hrc⟩ := h.own c e (List.mem_of_mem_filter hold) n hn
      have hlt : n ≠ l.requests.length := by
        rintro rfl
        rw [hnone] at hr
        cases hr
      exact ⟨r, by rw [if_neg hlt, hr], hrc⟩
    · split_ifs at hnew with hc
      · exact ⟨_, if_pos hc.2, hc.1.symm⟩
      · cases hnew
  case once =>
    rw [getElem?_begin] at hr
    rw [filter_begin]
    split_ifs at hr with hn
    · obtain rfl := Option.some.inj hr
      subst hn
      rw [h.filter_eq_nil hnone, if_pos ⟨rfl, rfl⟩]
      exact List.Sublist.refl _
    · rw [if_neg fun hc => hn hc.2, List.append_nil]
      exact h.once n r hr
  case whole =>
    rw [getElem?_begin] at hr
    rw [filter_begin]
    split_ifs at hr with hn
    · obtain rfl := Option.some.inj hr
      subst hn
      rw [h.filter_eq_nil hnone, if_pos ⟨rfl, rfl⟩]
      rfl
    · rw [if_neg fun hc => hn hc.2, List.append_nil]
      exact h.whole n r hr hdel

theorem answer_eq (hr : l.requests[n]? = some r) (reply : String) : l.answer n reply =
    { l with
      requests := l.requests.set n { r with reply := some reply }
      turns := Function.update l.turns r.cid (l.turns r.cid ++ [⟨some n, "assistant", reply⟩]) } := by
  simp only [answer, hr]

theorem filter_answer (hr : l.requests[n]? = some r) (reply c : String) (m : ℕ) :
    (((l.answer n reply).turns c).filter fun e => e.request = some m) =
      ((l.turns c).filter fun e => e.request = some m) ++ if c = r.cid ∧ m = n then [⟨some n, "assistant", reply⟩] else [] := by
  rw [answer_eq hr]
  by_cases hc : c = r.cid
  · subst hc
    dsimp only
    rw [Function.update_self, List.filter_append, List.filter_singleton]
    by_cases hm : m = n
    · simp [hm]
    · simp [hm, Ne.symm hm]
  · dsimp only
    rw [Function.update_of_ne hc, if_neg fun h => hc h.1, List.append_nil]

theorem getElem?_answer (hr : l.requests[n]? = some r) (reply : String) (m : ℕ) :
    (l.answer n reply).requests[m]? = if m = n then some { r with reply := some reply } else l.requests[m]? := by
  rw [answer_eq hr]
  dsimp only
  split_ifs with h
  · rw [h, List.getElem?_set_self (List.getElem?_eq_some_iff.mp hr).1]
  · exact List.getElem?_set_ne (Ne.symm h)

/-- A request that had no reply has one. -/
theorem faithful_answer (h : l.Faithful) (hr : l.requests[n]? = some r) (hnone : r.reply = none) (reply : String) :
    (l.answer n reply).Faithful := by
  have hsaid : { r with reply := some reply }.said n = r.said n ++ [⟨some n, "assistant", reply⟩] := by
    rw [Request.said, Request.said, hnone]
    rfl
  have hdel : (l.answer n reply).deleted = l.deleted := by rw [answer_eq hr]
  refine ⟨fun c e he m hm => ?own, fun m r' hr' => ?once, fun m r' hr' hnot => ?whole⟩
  case own =>
    have hmem : e ∈ ((l.answer n reply).turns c).filter fun e => e.request = some m :=
      List.mem_filter.mpr ⟨he, decide_eq_true hm⟩
    rw [filter_answer hr, List.mem_append] at hmem
    rw [getElem?_answer hr]
    by_cases hmn : m = n
    · subst hmn
      rw [if_pos rfl]
      refine ⟨_, rfl, ?_⟩
      rcases hmem with hold | hnew
      · obtain ⟨r', hr', hc⟩ := h.own c e (List.mem_of_mem_filter hold) m hm
        obtain rfl := Option.some.inj (hr.symm.trans hr')
        exact hc
      · split_ifs at hnew with hc
        · exact hc.1.symm
        · cases hnew
    · rw [if_neg hmn]
      rw [if_neg fun hc => hmn hc.2, or_iff_left List.not_mem_nil] at hmem
      exact h.own c e (List.mem_of_mem_filter hmem) m hm
  case once =>
    rw [getElem?_answer hr] at hr'
    rw [filter_answer hr]
    split_ifs at hr' with hmn
    · obtain rfl := Option.some.inj hr'
      subst hmn
      rw [if_pos ⟨rfl, rfl⟩, hsaid]
      exact (h.once m r hr).append (List.Sublist.refl _)
    · rw [if_neg fun hc => hmn hc.2, List.append_nil]
      exact h.once m r' hr'
  case whole =>
    rw [getElem?_answer hr] at hr'
    rw [hdel] at hnot
    rw [filter_answer hr]
    split_ifs at hr' with hmn
    · obtain rfl := Option.some.inj hr'
      subst hmn
      rw [if_pos ⟨rfl, rfl⟩, hsaid, h.whole m r hr hnot]
    · rw [if_neg fun hc => hmn hc.2, List.append_nil]
      exact h.whole m r' hr' hnot

theorem turns_delete (l : Ledger) (cid c : String) : (l.delete cid).turns c = if c = cid then [] else l.turns c :=
  Function.update_apply l.turns cid [] c

theorem faithful_delete (h : l.Faithful) (cid : String) : (l.delete cid).Faithful := by
  refine ⟨fun c e he n hn => ?own, fun n r hr => ?once, fun n r hr hnot => ?whole⟩
  case own =>
    rw [turns_delete] at he
    split_ifs at he
    · cases he
    · exact h.own c e he n hn
  case once =>
    rw [turns_delete]
    split_ifs
    · exact List.nil_sublist _
    · exact h.once n r hr
  case whole =>
    obtain ⟨hne, hnot⟩ := not_or.mp (mt List.mem_cons.mpr hnot)
    rw [turns_delete, if_neg hne]
    exact h.whole n r hr hnot

end Ledger

/-! ### A step of the server -/

section Step

variable {S} {w w' : World V} {l : Ledger} {e : Event V}

/-- What says nothing and suspends nothing new keeps a world as the ledger says. -/
theorem Sim.quiet (h : Sim w l) (hrequests : w'.requests = w.requests) (htasks : w'.tasks.Sublist w.tasks)
    (hstored : ∀ cid, Api.stored cid w'.st.db = Api.stored cid w.st.db) : Sim w' l where
  faithful := h.faithful
  stored cid hcid := (hstored cid).trans (h.stored cid hcid)
  requests := hrequests.trans h.requests
  tasks t ht := h.tasks t (htasks.subset ht)
  nodup := h.nodup.sublist (htasks.map _)

/-- A request begins. -/
theorem Sim.begin (h : Sim w l) {cid text profile : String} {topic : Option String} {db : Db} (prior : List (OAMessage String))
    (hstored : ∀ c, c ≠ "" → Api.stored c db = (l.begin cid text prior).view c) :
    Sim (w.begin cid text profile topic db) (l.begin cid text prior) where
  faithful := Ledger.faithful_begin h.faithful cid text prior
  stored := hstored
  requests := by
    show w.requests + 1 = (l.requests ++ [_]).length
    rw [h.requests, List.length_append, List.length_singleton]
  tasks t ht := by
    rw [Ledger.getElem?_begin]
    rcases List.mem_append.mp ht with hold | hnew
    · obtain ⟨r, hr, hc, hwait⟩ := h.tasks t hold
      have hlt : t.number < l.requests.length := (List.getElem?_eq_some_iff.mp hr).1
      rw [if_neg hlt.ne]
      exact ⟨r, hr, hc, hwait⟩
    · obtain rfl := List.mem_singleton.mp hnew
      exact ⟨_, if_pos h.requests, rfl, fun _ => rfl⟩
  nodup := by
    show ((w.tasks ++ [_]).map Task.number).Nodup
    rw [List.map_append]
    refine h.nodup.append (List.nodup_singleton _) fun n hn hnew => ?_
    obtain ⟨t, ht, rfl⟩ := List.mem_map.mp hn
    obtain ⟨r, hr, -⟩ := h.tasks t ht
    have hlt : t.number < l.requests.length := (List.getElem?_eq_some_iff.mp hr).1
    have heq : t.number = w.requests := by simpa using hnew
    have hrequests := h.requests
    omega

theorem view_begin (l : Ledger) (cid text : String) (prior : List (OAMessage String)) (c : String) :
    (l.begin cid text prior).view c =
      if c = cid then (if l.view cid = [] then Api.view prior else l.view cid) ++ [("user", text)] else l.view c := by
  rw [Ledger.view, Ledger.turns_begin, Function.update_apply]
  by_cases hc : c = cid
  · rw [if_pos hc, if_pos hc, List.map_append]
    congr 1
    have hnil : l.view cid = [] ↔ l.turns cid = [] := List.map_eq_nil_iff
    by_cases hempty : l.turns cid = []
    · rw [if_pos hempty, if_pos (hnil.mpr hempty), List.map_map]
      rfl
    · rw [if_neg hempty, if_neg (mt hnil.mp hempty)]
      rfl
  · rw [if_neg hc, if_neg hc]
    rfl

/-- A request has its reply. -/
theorem Sim.replied (hS : Persists S) (h : Sim w l) {t : Task} (ht : t ∈ w.tasks) (hs : t.stage = .generating) (reply : String)
    (now : ℤ) : Sim (w.replied S t reply now) (l.answer t.number reply) := by
  obtain ⟨r, hr, hc, hwait⟩ := h.tasks t ht
  have hrest : (w.tasks.filter fun u : Task => u.number ≠ t.number).Sublist w.tasks := List.filter_sublist
  refine ⟨Ledger.faithful_answer h.faithful hr (hwait hs) reply, fun cid hcid => ?stored, ?requests, fun u hu => ?tasks, ?nodup⟩
  case stored =>
    show Api.stored cid (persistTurn S.persistence now t.cid "assistant" reply t.profile t.topic w.st.db) = _
    rw [Ledger.view, Ledger.answer_eq hr, ← hc]
    by_cases hcid' : cid = r.cid
    · subst hcid'
      dsimp only
      rw [stored_persistTurn hS.convoOk hS.persistEnabled hcid, Function.update_self, List.map_append, h.stored _ hcid]
      rfl
    · dsimp only
      rw [stored_persistTurn_ne (Ne.symm hcid'), Function.update_of_ne hcid', h.stored _ hcid]
      rfl
  case requests =>
    show w.requests = _
    rw [h.requests, Ledger.answer_eq hr, List.length_set]
  case tasks =>
    rw [Ledger.getElem?_answer hr]
    rcases List.mem_append.mp hu with hold | hnew
    · obtain ⟨hmem, hne⟩ := List.mem_filter.mp hold
      rw [if_neg (of_decide_eq_true hne)]
      exact h.tasks u hmem
    · obtain rfl := List.mem_singleton.mp hnew
      exact ⟨_, if_pos rfl, hc, nofun⟩
  case nodup =>
    show ((w.tasks.filter (fun u : Task => u.number ≠ t.number) ++ [_]).map Task.number).Nodup
    rw [List.map_append]
    refine (h.nodup.sublist (hrest.map _)).append (List.nodup_singleton _) fun n hn hnew => ?_
    obtain ⟨u, hu, rfl⟩ := List.mem_map.mp hn
    have hne := of_decide_eq_true (List.mem_filter.mp hu).2
    exact hne (by simpa using hnew)

/-- **A step of the server is a step of the ledger.** -/
theorem sim_step (hS : Persists S) (h : Sim w l) (hstep : Step S w e w') : Sim w' (l.step S.persistence e) := by
  cases hstep with
  | @chat r =>
    refine h.begin [] fun c hc => ?_
    rw [stored_chatPrepare hS.convoOk hS.persistEnabled hc, view_begin, h.stored c hc]
    by_cases hcid : c = chatId S.persistence r
    · rw [if_pos hcid.symm, if_pos hcid, hcid]
      congr 1
      split_ifs with hnil
      · exact hnil
      · rfl
    · rw [if_neg (Ne.symm hcid), if_neg hcid, List.append_nil]
  | @v1 r =>
    refine h.begin (priorTurns r.messages) fun c hc => ?_
    rw [stored_prepareConversation hS.convoOk hS.persistEnabled hc, view_begin]
    by_cases hcid : c = r.cid
    · rw [if_pos hcid.symm, if_pos hcid, h.stored c hc, hcid]
    · rw [if_neg (Ne.symm hcid), if_neg hcid, h.stored c hc]
  | failed ht hs => exact h.quiet rfl List.filter_sublist fun _ => rfl
  | replied ht hs => exact h.replied hS ht hs _ _
  | noted ht hs => exact h.quiet rfl List.filter_sublist fun _ => rfl
  | @delete cid hok =>
    refine ⟨Ledger.faithful_delete h.faithful cid, fun c hc => ?_, h.requests, h.tasks, h.nodup⟩
    show Api.stored c (w.st.db.deleteConversation cid) = _
    rw [stored_deleteConversation, Ledger.view, Ledger.step, Ledger.turns_delete, h.stored c hc]
    split_ifs <;> rfl
  | start hp =>
    refine h.quiet rfl (List.Sublist.refl _) fun cid => ?_
    rw [(start_cases hp).1]
    rfl
  | row hp =>
    refine h.quiet rfl (List.Sublist.refl _) fun cid => ?_
    rw [(row_cases hp).1]
    rfl
  | answer hp =>
    refine h.quiet rfl (List.Sublist.refl _) fun cid => ?_
    obtain ⟨T, c, rest, -, hst, -⟩ := answer_cases hp
    dsimp only
    rw [hst, Memory.db_finishCall]
    split_ifs
    · exact stored_markDistilled _ _
    · rfl

end Step

/-! ### Every run -/

section Run

variable {S} {w w' : World V} {es : List (Event V)}

theorem sim_ofDb (htasks : w.tasks = []) (hrequests : w.requests = 0) : Sim w (.ofDb w.st.db) where
  faithful := by
    refine ⟨fun cid e he n hn => ?_, fun n r hr => ?_, fun n r hr => ?_⟩
    · obtain ⟨t, -, rfl⟩ := List.mem_map.mp he
      cases hn
    · rw [Ledger.ofDb, List.getElem?_nil] at hr
      cases hr
    · rw [Ledger.ofDb, List.getElem?_nil] at hr
      cases hr
  stored cid _ := by
    rw [Ledger.view, Ledger.ofDb, List.map_map]
    exact (List.map_id _).symm
  requests := hrequests
  tasks t ht := by
    rw [htasks] at ht
    cases ht
  nodup := by
    rw [htasks]
    exact List.nodup_nil

/-- **The database holds what was said.** From the start of a server that keeps conversations, and whose calls of
their database succeed, after every run, each conversation of the database is the ledger's; and there each request
said its message, and after it its reply, once and in its own conversation alone. -/
theorem refines_of_run (hS : Persists S) (htasks : w.tasks = []) (hrequests : w.requests = 0) (hrun : Run (Step S) w es w') :
    (∀ cid, cid ≠ "" → stored cid w'.st.db = (es.foldl (Ledger.step S.persistence) (.ofDb w.st.db)).view cid) ∧
      (es.foldl (Ledger.step S.persistence) (.ofDb w.st.db)).Faithful := by
  have hsim : ∀ {w w' : World V} {es} {l : Ledger}, Run (Step S) w es w' → Sim w l →
      Sim w' (es.foldl (Ledger.step S.persistence) l) := by
    intro w w' es l hrun h
    induction hrun generalizing l with
    | nil => exact h
    | cons hstep _ ih => exact ih (sim_step hS h hstep)
  have hend := hsim hrun (sim_ofDb htasks hrequests)
  exact ⟨hend.stored, hend.faithful⟩

/-- Two requests on one conversation, the second of which comes between the first and its reply. -/
def crossing : List (Event ℤ) := [.chat hi, .chat hi, .reply 0 (some "hello") 1, .reply 1 (some "hello again") 2]

theorem refines_of_run_crossing : ∃ w', Run (Step plainServer) (World.quiet .empty) crossing w' ∧
    stored "c" w'.st.db = [("user", "hi"), ("user", "hi"), ("assistant", "hello"), ("assistant", "hello again")] := by
  have hrun : Run (Step plainServer) (World.quiet .empty) crossing _ :=
    .cons .chat (.cons .chat (.cons
      (.replied (t := ⟨0, "c", "hi", "default", some "chat", .generating⟩) (.head _) rfl)
      (.one (.replied (t := ⟨1, "c", "hi", "default", some "chat", .generating⟩) (.head _) rfl))))
  exact ⟨_, hrun, (refines_of_run ⟨rfl, rfl⟩ rfl rfl hrun).1 "c" (by decide)⟩

end Run

end Persona.Api.Deletion
