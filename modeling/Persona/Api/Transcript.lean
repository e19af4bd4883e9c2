import Persona.Api.ThreadKey
import Persona.Api.Windowing

/-!
# The thread and the client's transcript

The `/v1` requests of one thread: `_v1_latest_user_text`, `_v1_prior_turns`,
`_v1_prepare_conversation` and the rest of `v1_chat_completions`, as far as they touch
the conversations database. The client keeps a transcript and sends it whole; the server
takes it over when it has no turns of the thread, and from then on appends the newest
user message and the reply. The user message is recorded before the generation can fail.

`converges_iff` says after which sequences of requests the stored turns are the client's
transcript. A thread that has once diverged never converges again, since the server only
appends.
-/

namespace Persona.Api

open Persona.Lib Persona.Memory

/-! ### The requests -/

/-- A role as it is written. -/
def Role.name : Role → String
  | .system => "system"
  | .user => "user"
  | .assistant => "assistant"

/-- `_messages_to_text`. -/
def messagesToText (messages : List (OAMessage String)) : String :=
  PyText.strip ("\n\n".intercalate (messages.map fun m => "[" ++ m.role.name ++ "]\n" ++ m.content))

/-- `_v1_latest_user_text`. -/
def latestUserText (messages : List (OAMessage String)) : String :=
  match messages.reverse.find? (fun m => m.role = .user) with
  | some m => m.content
  | none => messagesToText messages

/-- `_v1_prior_turns`. -/
def priorTurns (messages : List (OAMessage String)) : List (OAMessage String) :=
  let cut := match messages.reverse.dropWhile fun m => m.role ≠ .user with
    | [] => messages
    | _ :: before => before.reverse
  cut.filter fun m => m.role ≠ .system

/-- The settings of the conversations database and of the history. -/
structure Persistence where
  /-- `_convo_ok`. -/
  convoOk : Bool
  /-- `CONVO_PERSIST_ENABLED`. -/
  persistEnabled : Bool
  /-- `HISTORY_ENABLED`. -/
  historyEnabled : Bool
  /-- `HISTORY_TOKEN_BUDGET`, `HISTORY_MIN_RECENT`, `HISTORY_MAX_TURN_TOKENS`, `HISTORY_HARD_CAP_TOKENS`. -/
  tokenBudget : ℤ
  minRecent : ℤ
  maxTurnTokens : ℤ
  hardCapTokens : ℤ

variable (P : Persistence)

/-- `_persist_turn`, when its `add_turn` succeeds; `now` is `int(time.time())`. One whose `add_turn` fails leaves the
database alone: `persistTurnF` of `Persona.Api.Seeding` may. -/
def persistTurn (now : ℤ) (cid role content profile : String) (topic : Option String) (db : Db) : Db :=
  if P.convoOk = true ∧ P.persistEnabled = true ∧ cid ≠ "" then
    db.addTurn now cid role content (some profile) topic (some (estimateTokens content))
  else db

/-- The turns of a cold thread, taken from the client's array; the clock is read for each. -/
def seedTurns (cid profile : String) : List (ℤ × OAMessage String) → Db → Db
  | [], db => db
  | (now, m) :: ms, db =>
    seedTurns cid profile ms
      (db.addTurn now cid m.role.name m.content (some profile) none (some (estimateTokens m.content)))

/-- The options of the windowed history. -/
def historyOptions : Options where
  budgetTokens := P.tokenBudget
  minRecent := P.minRecent
  maxTurnTokens := if P.maxTurnTokens = 0 then none else some P.maxTurnTokens
  hardCapTokens := if P.hardCapTokens = 0 then none else some P.hardCapTokens
  summarize := none

/-- A request on a thread: its messages, and what the server makes of its other fields. -/
structure V1Req where
  cid : String
  messages : List (OAMessage String)
  profile : String
  topic : Option String
  /-- `int(time.time())`, when it is read for the `n`-th time. -/
  time : ℕ → ℤ

/-- `_v1_prepare_conversation`: the history, and the database. -/
def prepareConversation (r : V1Req) (db : Db) : Option Window × Db :=
  let seeded :=
    if P.convoOk = true ∧ P.persistEnabled = true then
      let db := db.newConversation (r.time 0) (some r.profile) none r.cid
      if (db.getTurns r.cid).isEmpty then
        let prior := priorTurns r.messages
        seedTurns r.cid r.profile (((List.range prior.length).map fun n => r.time (n + 1)).zip prior) db
      else db
    else db
  let prior := seeded.getTurns r.cid
  let history :=
    if P.convoOk = true ∧ P.persistEnabled = true ∧ P.historyEnabled = true ∧ prior.isEmpty = false then
      some (windowTurns (historyOptions P) prior)
    else none
  (history, persistTurn P (r.time (r.messages.length + 1)) r.cid "user" (latestUserText r.messages) r.profile r.topic seeded)

/-- `v1_chat_completions`; `reply` is the reply, `none` when the generation raises. -/
def v1ChatCompletions (r : V1Req) (reply : Option String) (db : Db) : Db :=
  let db := (prepareConversation P r db).2
  match reply with
  | none => db
  | some reply => persistTurn P (r.time (r.messages.length + 2)) r.cid "assistant" reply r.profile r.topic db

/-! ### The client -/

/-- What the client asks for: the reply to a new message, or another reply to the last one. -/
inductive Ask where
  | send (text : String)
  | regenerate

/-- A request of the client, with what comes of it. -/
structure Event where
  ask : Ask
  /-- Its system prompt. -/
  systems : List String
  profile : String
  topic : Option String
  time : ℕ → ℤ
  /-- The reply; `none` when the request fails. -/
  reply : Option String

/-- The server's database and the client's transcript. -/
structure Session where
  db : Db
  transcript : List (OAMessage String)

/-- The part of the transcript that is sent, and the user message after it; nothing is sent
if there is no reply to regenerate. -/
def Event.sends (e : Event) (transcript : List (OAMessage String)) : Option (List (OAMessage String) × String) :=
  match e.ask with
  | .send text => some (transcript, text)
  | .regenerate =>
    match transcript.reverse with
    | ⟨.assistant, _⟩ :: ⟨.user, text⟩ :: before => some (before.reverse, text)
    | _ => none

/-- The request, on the thread `cid`. -/
def Event.request (e : Event) (cid : String) (prior : List (OAMessage String)) (text : String) : V1Req where
  cid
  messages := e.systems.map (⟨.system, ·⟩) ++ (prior ++ [⟨.user, text⟩])
  profile := e.profile
  topic := e.topic
  time := e.time

variable (cid : String)

/-- A request: on success the client appends its message and the reply. -/
def Session.step (s : Session) (e : Event) : Session :=
  match e.sends s.transcript with
  | none => s
  | some (prior, text) =>
    { db := v1ChatCompletions P (e.request cid prior text) e.reply s.db
      transcript := match e.reply with
        | none => s.transcript
        | some reply => prior ++ [⟨.user, text⟩, ⟨.assistant, reply⟩] }

/-- A run. -/
def Session.run (es : List Event) (s : Session) : Session := es.foldl (Session.step P cid) s

/-- Roles and contents of the stored turns. -/
def stored (db : Db) : List (String × String) := (db.getTurns cid).map fun t => (t.role, t.content)

/-- Roles and contents of the transcript. -/
def view (ms : List (OAMessage String)) : List (String × String) := ms.map fun m => (m.role.name, m.content)

/-- The request is sent and answered. -/
def Event.Succeeds (e : Event) (s : Session) : Prop := (e.sends s.transcript).isSome ∧ e.reply.isSome

/-- The stored turns are the transcript. -/
def Session.Synced (s : Session) : Prop := stored cid s.db = view s.transcript

/-- After each successful request the stored turns are the client's transcript. -/
def Converges (es : List Event) (s : Session) : Prop :=
  ∀ before e after, es = before ++ e :: after → e.Succeeds (s.run P cid before) →
    (s.run P cid (before ++ [e])).Synced cid

/-- None of the requests succeeds. -/
def Barren (es : List Event) (s : Session) : Prop :=
  ∀ before e after, es = before ++ e :: after → ¬ e.Succeeds (s.run P cid before)

/-- No request that fails comes before one that succeeds, and a reply is regenerated only on a
thread of which the server has no turns. -/
def Orderly : List Event → Session → Prop
  | [], _ => True
  | e :: es, s =>
    match e.sends s.transcript, e.reply with
    | none, _ => Orderly es s
    | some _, none => Barren P cid es (s.step P cid e)
    | some _, some _ => (e.ask = .regenerate → stored cid s.db = []) ∧ Orderly es (s.step P cid e)

/-! ### A request -/

section

variable {P cid} {db : Db} {e : Event} {es : List Event} {s : Session} {prior T : List (OAMessage String)} {text : String}

/-- A transcript of user and assistant messages. -/
def Linear (T : List (OAMessage String)) : Prop := ∀ m ∈ T, m.role ≠ .system

theorem latestUserText_request : latestUserText (e.request cid prior text).messages = text := by
  simp [latestUserText, Event.request]

theorem priorTurns_request (hprior : Linear prior) : priorTurns (e.request cid prior text).messages = prior := by
  have hsystems : ((e.systems.map fun s => (⟨.system, s⟩ : OAMessage String)).filter fun m => m.role ≠ .system) = [] := by
    simp
  have hkept : (prior.filter fun m => m.role ≠ .system) = prior := by
    simpa [List.filter_eq_self, Linear] using hprior
  simp only [priorTurns, Event.request, List.reverse_append, List.reverse_singleton, List.cons_append]
  rw [List.dropWhile_cons_of_neg (by simp)]
  simp only [List.reverse_append, List.reverse_reverse, List.filter_append, hsystems, hkept, List.nil_append]

theorem stored_newConversation (now : ℤ) (profile title : Option String) :
    stored cid (db.newConversation now profile title cid) = stored cid db := by
  unfold stored Db.getTurns Db.newConversation Db.insertConversation
  split_ifs <;> rfl

theorem stored_addTurn (now : ℤ) (role content : String) (profile topic : Option String) (tokens : Option ℤ) :
    stored cid (db.addTurn now cid role content profile topic tokens) = stored cid db ++ [(role, content)] := by
  rw [stored, Db.getTurns_addTurn, List.map_append]
  rfl

theorem stored_seedTurns (profile : String) (ms : List (ℤ × OAMessage String)) :
    stored cid (seedTurns cid profile ms db) = stored cid db ++ view (ms.map Prod.snd) := by
  induction ms generalizing db with
  | nil => simp [seedTurns, view]
  | cons m ms ih =>
    rw [seedTurns, ih, stored_addTurn, List.append_assoc]
    rfl

theorem stored_persistTurn (hok : P.convoOk = true) (hon : P.persistEnabled = true) (hcid : cid ≠ "") (now : ℤ)
    (role content profile : String) (topic : Option String) :
    stored cid (persistTurn P now cid role content profile topic db) = stored cid db ++ [(role, content)] := by
  rw [persistTurn, if_pos ⟨hok, hon, hcid⟩, stored_addTurn]

theorem stored_eq_nil_iff : stored cid db = [] ↔ db.getTurns cid = [] := by
  simp [stored]

/-- **What a request stores**: the client's prior messages if there were no turns, the user
message, and the reply if there is one. -/
theorem stored_v1ChatCompletions (hok : P.convoOk = true) (hon : P.persistEnabled = true) (hcid : cid ≠ "")
    (hprior : Linear prior) (reply : Option String) :
    stored cid (v1ChatCompletions P (e.request cid prior text) reply db) =
      (if stored cid db = [] then view prior else stored cid db) ++
        ("user", text) :: (reply.map fun r => ("assistant", r)).toList := by
  have hseeded : stored cid (prepareConversation P (e.request cid prior text) db).2 =
      (if stored cid db = [] then view prior else stored cid db) ++ [("user", text)] := by
    have hnew : ∀ now profile, stored cid (db.newConversation now profile none cid) = stored cid db :=
      fun now profile => stored_newConversation now profile none
    simp only [prepareConversation, latestUserText_request, priorTurns_request hprior, hok, hon, and_self, if_true]
    rw [show (e.request cid prior text).cid = cid from rfl, stored_persistTurn hok hon hcid]
    congr 1
    split_ifs with hempty hcold hcold
    · rw [stored_seedTurns, hnew, hcold, List.nil_append, List.map_snd_zip (by simp)]
    · rw [List.isEmpty_iff, ← stored_eq_nil_iff] at hempty
      exact absurd ((hnew _ _).symm.trans hempty) hcold
    · rw [List.isEmpty_iff, ← stored_eq_nil_iff] at hempty
      exact absurd ((hnew _ _).trans hcold) hempty
    · exact hnew _ _
  unfold v1ChatCompletions
  cases reply with
  | none => exact hseeded
  | some reply =>
    rw [show (e.request cid prior text).cid = cid from rfl, stored_persistTurn hok hon hcid, hseeded, List.append_assoc]
    rfl

/-! ### What the client sends -/

/-- A regenerated reply is the last message, after its question. -/
theorem sends_eq_some (h : e.sends T = some (prior, text)) :
    e.ask = .send text ∧ prior = T ∨
      e.ask = .regenerate ∧ ∃ reply, T = prior ++ [⟨.user, text⟩, ⟨.assistant, reply⟩] := by
  unfold Event.sends at h
  cases hask : e.ask with
  | send text' =>
    simp only [hask, Option.some.injEq, Prod.mk.injEq] at h
    exact .inl ⟨by rw [h.2], h.1.symm⟩
  | regenerate =>
    simp only [hask] at h
    split at h
    · next reply text' before hrev =>
      simp only [Option.some.injEq, Prod.mk.injEq] at h
      obtain ⟨rfl, rfl⟩ := h
      refine .inr ⟨rfl, reply, ?_⟩
      rw [← List.reverse_reverse T, hrev]
      simp
    · cases h

theorem linear_prior (hT : Linear T) (h : e.sends T = some (prior, text)) : Linear prior := by
  rcases sends_eq_some h with ⟨-, rfl⟩ | ⟨-, reply, rfl⟩
  · exact hT
  · exact fun m hm => hT m (List.mem_append_left _ hm)

theorem step_of_sends (h : e.sends s.transcript = some (prior, text)) : s.step P cid e =
    { db := v1ChatCompletions P (e.request cid prior text) e.reply s.db
      transcript := match e.reply with
        | none => s.transcript
        | some reply => prior ++ [⟨.user, text⟩, ⟨.assistant, reply⟩] } := by
  rw [Session.step, h]

theorem linear_step (hT : Linear s.transcript) : Linear (s.step P cid e).transcript := by
  cases h : e.sends s.transcript with
  | none => simpa [Session.step, h] using hT
  | some sent =>
    obtain ⟨prior, text⟩ := sent
    rw [step_of_sends h]
    cases e.reply with
    | none => exact hT
    | some reply =>
      intro m hm
      rcases List.mem_append.mp hm with hm | hm
      · exact linear_prior hT h m hm
      · rcases List.mem_cons.mp hm with rfl | hm
        · simp
        · rw [List.mem_singleton.mp hm]
          simp

/-! ### Divergence -/

/-- The server has more turns than the client, or there is a reply of the client's for which
the server has a user message, now or with the next request. -/
def Diverged (cid : String) (s : Session) : Prop :=
  stored cid s.db ≠ [] ∧ ((view s.transcript).length < (stored cid s.db).length ∨
    ∃ k c, (view s.transcript)[k]? = some ("assistant", c) ∧
      (k = (stored cid s.db).length ∨ ∃ c', (stored cid s.db)[k]? = some ("user", c')))

theorem view_append (T T' : List (OAMessage String)) : view (T ++ T') = view T ++ view T' := List.map_append

/-- A reply of the transcript stays one when a request is answered. -/
theorem assistant_stays {k : ℕ} {c reply : String} (h : e.sends T = some (prior, text))
    (hk : (view T)[k]? = some ("assistant", c)) :
    ∃ c', (view (prior ++ [⟨.user, text⟩, ⟨.assistant, reply⟩]))[k]? = some ("assistant", c') := by
  rcases sends_eq_some h with ⟨-, rfl⟩ | ⟨-, old, rfl⟩
  · have hlt : k < (view prior).length := (List.getElem?_eq_some_iff.mp hk).1
    refine ⟨c, ?_⟩
    rw [view_append, List.getElem?_append_left hlt, hk]
  · rw [view_append] at hk ⊢
    by_cases hlt : k < (view prior).length
    · rw [List.getElem?_append_left hlt] at hk
      exact ⟨c, by rw [List.getElem?_append_left hlt, hk]⟩
    · rw [List.getElem?_append_right (by omega)] at hk ⊢
      generalize k - (view prior).length = j at hk ⊢
      match j with
      | 0 => simp [view, Role.name] at hk
      | 1 => exact ⟨reply, rfl⟩
      | j + 2 => simp [view] at hk

section

variable (hok : P.convoOk = true) (hon : P.persistEnabled = true) (hcid : cid ≠ "") (hT : Linear s.transcript)
include hok hon hcid hT

theorem stored_step (h : e.sends s.transcript = some (prior, text)) : stored cid (s.step P cid e).db =
    (if stored cid s.db = [] then view prior else stored cid s.db) ++
      ("user", text) :: (e.reply.map fun r => ("assistant", r)).toList := by
  rw [step_of_sends h]
  exact stored_v1ChatCompletions hok hon hcid (linear_prior hT h) e.reply

/-- **What has diverged stays so**, and is not the transcript after any successful request. -/
theorem diverged_step (hd : Diverged cid s) :
    Diverged cid (s.step P cid e) ∧ (e.Succeeds s → ¬ (s.step P cid e).Synced cid) := by
  cases h : e.sends s.transcript with
  | none =>
    have hsame : s.step P cid e = s := by rw [Session.step, h]
    rw [hsame]
    exact ⟨hd, fun hs => by simp [Event.Succeeds, h] at hs⟩
  | some sent =>
    obtain ⟨prior, text⟩ := sent
    obtain ⟨hne, hd⟩ := hd
    have hstored := stored_step hok hon hcid hT h
    rw [if_neg hne] at hstored
    have hnonempty : stored cid (s.step P cid e).db ≠ [] := by simp [hstored]
    -- the transcript grows by no more than the stored turns
    have hgrows : (view (s.step P cid e).transcript).length + (stored cid s.db).length + (if e.reply.isSome then 0 else 1) ≤
        (view s.transcript).length + (stored cid (s.step P cid e).db).length := by
      rw [hstored, step_of_sends h]
      cases hr : e.reply with
      | none => simp [Nat.add_assoc]
      | some reply =>
        rcases sends_eq_some h with ⟨-, rfl⟩ | ⟨-, old, hold⟩
        · simp [view]
          omega
        · simp [hold, view]
    rcases hd with hlen | ⟨k, c, hk, hpos⟩
    · have hlen' : (view (s.step P cid e).transcript).length < (stored cid (s.step P cid e).db).length := by omega
      refine ⟨⟨hnonempty, .inl hlen'⟩, fun _ hsync => ?_⟩
      rw [Session.Synced] at hsync
      rw [hsync] at hlen'
      omega
    · have huser : ∃ c', (stored cid (s.step P cid e).db)[k]? = some ("user", c') := by
        rw [hstored]
        rcases hpos with rfl | ⟨c', hc'⟩
        · exact ⟨text, by simp⟩
        · have hlt := (List.getElem?_eq_some_iff.mp hc').1
          exact ⟨c', by rw [List.getElem?_append_left hlt, hc']⟩
      have hreply : ∃ c', (view (s.step P cid e).transcript)[k]? = some ("assistant", c') := by
        rw [step_of_sends h]
        cases e.reply with
        | none => exact ⟨c, hk⟩
        | some reply => exact assistant_stays h hk
      obtain ⟨c₁, hc₁⟩ := hreply
      obtain ⟨c₂, hc₂⟩ := huser
      refine ⟨⟨hnonempty, .inr ⟨k, c₁, hc₁, .inr ⟨c₂, hc₂⟩⟩⟩, fun _ hsync => ?_⟩
      rw [Session.Synced] at hsync
      rw [hsync, hc₁] at hc₂
      simp at hc₂

/-- A failed request leaves a thread diverged. -/
theorem diverged_of_fails (hstart : stored cid s.db = [] ∨ s.Synced cid) (h : e.sends s.transcript = some (prior, text))
    (hfail : e.reply = none) : Diverged cid (s.step P cid e) := by
  have hstored := stored_step hok hon hcid hT h
  rw [hfail] at hstored
  have htranscript : (s.step P cid e).transcript = s.transcript := by rw [step_of_sends h, hfail]
  refine ⟨by simp [hstored], ?_⟩
  rw [hstored, htranscript]
  by_cases hcold : stored cid s.db = []
  · rw [if_pos hcold]
    rcases sends_eq_some h with ⟨-, rfl⟩ | ⟨-, old, hold⟩
    · left
      simp [view]
    · right
      refine ⟨prior.length + 1, old, ?_, .inl (by simp [view])⟩
      rw [hold, view_append, List.getElem?_append_right (by simp [view])]
      simp [view, Role.name]
  · rw [if_neg hcold]
    have hsync := hstart.resolve_left hcold
    rw [Session.Synced] at hsync
    left
    simp [hsync]

/-- **A successful request** leaves the transcript stored, unless a reply that the server has
is regenerated. -/
theorem synced_step_iff (hstart : stored cid s.db = [] ∨ s.Synced cid) (h : e.sends s.transcript = some (prior, text))
    {reply : String} (hreply : e.reply = some reply) :
    (s.step P cid e).Synced cid ↔ (e.ask = .regenerate → stored cid s.db = []) := by
  have hstored := stored_step hok hon hcid hT h
  rw [hreply] at hstored
  have htranscript : (s.step P cid e).transcript = prior ++ [⟨.user, text⟩, ⟨.assistant, reply⟩] := by
    rw [step_of_sends h, hreply]
  rw [Session.Synced, hstored, htranscript, view_append]
  by_cases hcold : stored cid s.db = []
  · simp [hcold, view, Role.name]
  · have hsync := hstart.resolve_left hcold
    rw [Session.Synced] at hsync
    rw [if_neg hcold]
    rcases sends_eq_some h with ⟨hask, rfl⟩ | ⟨hask, old, hold⟩
    · simp [hask, hsync, view, Role.name]
    · have hlen : (stored cid s.db ++ ("user", text) :: (some ("assistant", reply)).toList).length ≠
          (view prior ++ view [⟨.user, text⟩, ⟨.assistant, reply⟩]).length := by
        simp [hsync, hold, view]
      constructor
      · intro heq
        exact absurd (congrArg List.length heq) hlen
      · intro himp
        exact absurd (himp hask) hcold

end

/-! ### Runs -/

theorem converges_cons : Converges P cid (e :: es) s ↔
    (e.Succeeds s → (s.step P cid e).Synced cid) ∧ Converges P cid es (s.step P cid e) := by
  constructor
  · intro h
    exact ⟨h [] e es rfl, fun before e' after hes hs => h (e :: before) e' after (by rw [hes]; rfl) hs⟩
  · intro ⟨hfirst, hrest⟩ before e' after hes hs
    cases before with
    | nil =>
      obtain ⟨rfl, rfl⟩ := List.cons.inj hes
      exact hfirst hs
    | cons b before =>
      obtain ⟨rfl, rfl⟩ := List.cons.inj hes
      exact hrest before e' after rfl hs

theorem barren_cons : Barren P cid (e :: es) s ↔ ¬ e.Succeeds s ∧ Barren P cid es (s.step P cid e) := by
  constructor
  · intro h
    exact ⟨h [] e es rfl, fun before e' after hes => h (e :: before) e' after (by rw [hes]; rfl)⟩
  · intro ⟨hfirst, hrest⟩ before e' after hes
    cases before with
    | nil =>
      obtain ⟨rfl, rfl⟩ := List.cons.inj hes
      exact hfirst
    | cons b before =>
      obtain ⟨rfl, rfl⟩ := List.cons.inj hes
      exact hrest before e' after rfl

/-- After a divergence nothing but failures converges. -/
theorem converges_iff_barren (hok : P.convoOk = true) (hon : P.persistEnabled = true) (hcid : cid ≠ "")
    (hT : Linear s.transcript) (hd : Diverged cid s) : Converges P cid es s ↔ Barren P cid es s := by
  constructor
  · intro h
    induction es generalizing s with
    | nil =>
      intro before e after hes
      simp at hes
    | cons e es ih =>
      obtain ⟨hfirst, hrest⟩ := converges_cons.mp h
      obtain ⟨hd', hnot⟩ := diverged_step (e := e) hok hon hcid hT hd
      exact barren_cons.mpr ⟨fun hs => hnot hs (hfirst hs), ih (linear_step hT) hd' hrest⟩
  · intro h before e after hes hs
    exact absurd hs (h before e after hes)

/-- **The stored thread is the client's transcript** after each successful request exactly when
the run is orderly. -/
theorem converges_iff (hok : P.convoOk = true) (hon : P.persistEnabled = true) (hcid : cid ≠ "")
    (hT : Linear s.transcript) (hstart : stored cid s.db = [] ∨ s.Synced cid) :
    Converges P cid es s ↔ Orderly P cid es s := by
  induction es generalizing s with
  | nil => simp [Converges, Orderly]
  | cons e es ih =>
    rw [converges_cons, Orderly]
    cases h : e.sends s.transcript with
    | none =>
      have hsame : s.step P cid e = s := by rw [Session.step, h]
      have hfails : ¬ e.Succeeds s := by simp [Event.Succeeds, h]
      simp only [hsame, hfails, false_imp_iff, true_and]
      exact ih hT hstart
    | some sent =>
      obtain ⟨prior, text⟩ := sent
      cases hr : e.reply with
      | none =>
        have hfails : ¬ e.Succeeds s := by simp [Event.Succeeds, hr]
        simp only [hfails, false_imp_iff, true_and]
        exact converges_iff_barren hok hon hcid (linear_step hT) (diverged_of_fails hok hon hcid hT hstart h hr)
      | some reply =>
        have hsucceeds : e.Succeeds s := by simp [Event.Succeeds, h, hr]
        have hsync := synced_step_iff hok hon hcid hT hstart h hr
        simp only [hsucceeds, forall_const, ← hsync]
        constructor
        · intro ⟨hs, hrest⟩
          exact ⟨hs, (ih (linear_step hT) (.inr hs)).mp hrest⟩
        · intro ⟨hs, hrest⟩
          exact ⟨hs, (ih (linear_step hT) (.inr hs)).mpr hrest⟩

end

/-- The settings as they are by default. -/
def persisting : Persistence := ⟨true, true, true, 2048, 4, 1024, 8192⟩

/-- A client with no transcript, on a server that has no conversation. -/
def newSession : Session := ⟨.empty, []⟩

/-- A message that is answered, or not. -/
def sending (text : String) (reply : Option String) : Event := ⟨.send text, ["S"], "default", none, fun _ => 0, reply⟩

theorem converges_hello : Converges persisting "c" [sending "hi" (some "hello")] newSession := by
  have horderly : Orderly persisting "c" [sending "hi" (some "hello")] newSession := ⟨(fun h => nomatch h), trivial⟩
  have hlinear : Linear newSession.transcript := fun m hm => nomatch hm
  exact (converges_iff rfl rfl (by decide) hlinear (.inl rfl)).mpr horderly

/-- A message that is sent again after a failure is stored twice. -/
theorem not_converges : ¬ Converges persisting "c" [sending "hi" none, sending "hi" (some "hello")] newSession := by
  intro h
  have hsync := h [sending "hi" none] (sending "hi" (some "hello")) [] rfl ⟨rfl, rfl⟩
  have hlen := congrArg List.length hsync
  exact absurd hlen (by decide)

end Persona.Api
