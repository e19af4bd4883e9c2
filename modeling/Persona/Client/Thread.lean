import Persona.Client.ShipAi
import Persona.Api.AvatarState
import Persona.Api.Ledger

/-!
# The desktop client and the server

The desk and the server together: a request goes out, becomes one of the server's, which is answered when its facts are
stored or fails when its generation does; or the client loses it, which the server is not told. Beside it the server
serves other requests, passes and deletes, as in `Deletion.Step`.

`thread_of_run` says that the session stays in one conversation, from the first answer on, and that this conversation
holds what the window showed, in order, if the server keeps conversations (`Persists`), nobody else writes to this one or
deletes it, and the client loses no request that has reached the server; the calls of the conversations database succeed,
as in `Persona.Api.Ledger`. `mute_of_run` is about a server that keeps no conversations: its answers have `null` for a
conversation id, which stops the handler of the client, and the window shows no reply at all.
-/

namespace Persona.Api.Deletion

open Persona.Lib Persona.Memory

variable {V : Type*} {S : Server} {w w' : World V} {e : Event V} {c : String}

/-! ### What a step leaves of a conversation -/

/-- The conversation that a request or a delete is about. -/
def Event.conversation (P : Persistence) : Event V → Option String
  | .chat r => some (chatId P r)
  | .v1 r => some r.cid
  | .delete cid => some cid
  | _ => none

/-- A step on another conversation stores nothing in this one. -/
theorem stored_of_apart (hS : Persists S) (hstep : Step S w e w') (hc : c ≠ "") (hon : e.conversation S.persistence ≠ some c)
    (hreply : ∀ t ∈ w.tasks, ∀ reply now, e = .reply t.number (some reply) now → t.cid ≠ c) :
    stored c w'.st.db = stored c w.st.db := by
  cases hstep with
  | @chat r =>
    have hne : chatId S.persistence r ≠ c := fun heq => hon (congrArg some heq)
    show stored c (chatPrepare S.persistence r w.st.db).2 = _
    rw [stored_chatPrepare hS.convoOk hS.persistEnabled hc, if_neg hne, List.append_nil]
  | @v1 r =>
    have hne : r.cid ≠ c := fun heq => hon (congrArg some heq)
    show stored c (prepareConversation S.persistence r w.st.db).2 = _
    rw [stored_prepareConversation hS.convoOk hS.persistEnabled hc, if_neg hne]
  | failed => rfl
  | @replied t reply now ht =>
    have hne : t.cid ≠ c := hreply t ht reply now rfl
    exact stored_persistTurn_ne hne ..
  | noted => rfl
  | @delete cid =>
    have hne : c ≠ cid := fun heq => hon (congrArg some heq.symm)
    show stored c (w.st.db.deleteConversation cid) = _
    rw [stored_deleteConversation, if_neg hne]
  | start hp =>
    rw [(start_cases hp).1]
    rfl
  | row hp =>
    rw [(row_cases hp).1]
    rfl
  | answer hp =>
    obtain ⟨T, c, rest, -, hst, -⟩ := answer_cases hp
    dsimp only
    rw [hst, Memory.db_finishCall]
    split_ifs
    · exact stored_markDistilled _ _
    · rfl

/-- A request that is suspended after a step was suspended before it, or has just begun. -/
theorem mem_tasks_of_step (hstep : Step S w e w') {t : Task} (ht : t ∈ w'.tasks) :
    (∃ u ∈ w.tasks, u.number = t.number ∧ u.cid = t.cid) ∨
      (t.number = w.requests ∧ e.conversation S.persistence = some t.cid) := by
  cases hstep with
  | chat =>
    rcases List.mem_append.mp ht with hold | hnew
    · exact .inl ⟨t, hold, rfl, rfl⟩
    · obtain rfl := List.mem_singleton.mp hnew
      exact .inr ⟨rfl, rfl⟩
  | v1 =>
    rcases List.mem_append.mp ht with hold | hnew
    · exact .inl ⟨t, hold, rfl, rfl⟩
    · obtain rfl := List.mem_singleton.mp hnew
      exact .inr ⟨rfl, rfl⟩
  | failed => exact .inl ⟨t, List.mem_of_mem_filter ht, rfl, rfl⟩
  | @replied u reply now hu =>
    rcases List.mem_append.mp ht with hold | hnew
    · exact .inl ⟨t, List.mem_of_mem_filter hold, rfl, rfl⟩
    · obtain rfl := List.mem_singleton.mp hnew
      exact .inl ⟨u, hu, rfl, rfl⟩
  | noted => exact .inl ⟨t, List.mem_of_mem_filter ht, rfl, rfl⟩
  | delete => exact .inl ⟨t, ht, rfl, rfl⟩
  | start => exact .inl ⟨t, ht, rfl, rfl⟩
  | row => exact .inl ⟨t, ht, rfl, rfl⟩
  | answer => exact .inl ⟨t, ht, rfl, rfl⟩

/-- The request of this number, while it is suspended. -/
def World.task (w : World V) (n : ℕ) : List Task := w.tasks.filter fun t => t.number = n

theorem filter_ne_filter (ts : List Task) {m n : ℕ} (h : m ≠ n) :
    (ts.filter fun t => t.number ≠ m).filter (fun t => t.number = n) = ts.filter fun t => t.number = n := by
  rw [List.filter_filter]
  refine List.filter_congr fun t _ => ?_
  by_cases ht : t.number = n
  · simp [ht, Ne.symm h]
  · simp [ht]

/-- A step of another request leaves it where it is. -/
theorem task_of_apart (hstep : Step S w e w') {n : ℕ} (hn : n < w.requests) (hreply : ∀ reply now, e ≠ .reply n reply now)
    (hnoted : ∀ N, e ≠ .noted n N) : w'.task n = w.task n := by
  have hnew : ∀ t : Task, t.number ≠ n → (w.tasks ++ [t]).filter (fun t => t.number = n) = w.task n := by
    intro t ht
    rw [List.filter_append, List.filter_singleton]
    simp [ht, World.task]
  cases hstep with
  | chat => exact hnew _ hn.ne'
  | v1 => exact hnew _ hn.ne'
  | @failed t now =>
    have hne : t.number ≠ n := fun heq => hreply none now (by rw [heq])
    exact filter_ne_filter _ hne
  | @replied t reply now =>
    have hne : t.number ≠ n := fun heq => hreply (some reply) now (by rw [heq])
    show (w.tasks.filter (fun u : Task => u.number ≠ t.number) ++ [_]).filter (fun u : Task => u.number = n) = _
    rw [List.filter_append, filter_ne_filter _ hne, List.filter_singleton]
    simp [hne, World.task]
  | @noted t reply N =>
    have hne : t.number ≠ n := fun heq => hnoted N (by rw [heq])
    exact filter_ne_filter _ hne
  | delete => rfl
  | start => rfl
  | row => rfl
  | answer => rfl

end Persona.Api.Deletion

namespace Persona.Client

open Persona.Lib
open Persona.Api hiding ChatReq
open Persona.Api.Deletion (Server Persists ChatReq Noting chatId World)

variable {V : Type*}

/-! ### The desk and the server -/

/-- `conversation_id` of what `chat` returns. -/
def chatIdJson (P : Persistence) (r : ChatReq) : Json :=
  if P.convoOk = true ∧ P.persistEnabled = true ∧ r.conversationId.getD "" = "" then .str r.uuid
  else r.conversationId.elim .null .str

/-- The rest of what `chat` returns. -/
structure Rest where
  reasoning : String
  debug : List (String × Json)

/-- What `chat` returns. -/
def chatResponse (A : Avatar.Settings) (P : Persistence) (r : ChatReq) (reply : String) (x : Rest) : Json :=
  .obj ([("text", .str reply), ("persona", .bool true), ("conversation_id", chatIdJson P r),
    ("reasoning", .str x.reasoning), ("debug", .obj x.debug)] ++
      ((Avatar.stateOf A reply).map fun state => ("state", .obj state)).toList)

/-- Where the client's request is. -/
inductive Wire where
  /-- There is none. -/
  | idle
  /-- On its way. -/
  | sent
  /-- At the server, which has given it this number. -/
  | at (n : ℕ) (r : ChatReq)
  /-- Its generation has failed. -/
  | failed (r : ChatReq)
  /-- Its answer is on its way. -/
  | answer (r : ChatReq) (reply : String) (x : Rest)

/-- The desk and the server. -/
structure Joint (V : Type*) where
  desk : Desk
  world : World V
  wire : Wire

/-- What happens. -/
inductive JointEvent (V : Type*) where
  /-- At the desk. -/
  | desk (e : Event)
  /-- The client loses its request, or the answer. -/
  | lost (r : Completion) (ticked voice : Bool)
  /-- The request arrives at the server. -/
  | arrive (r : ChatReq)
  /-- Its generation fails. -/
  | raises (now : ℤ)
  /-- It is answered. -/
  | responds (N : Noting V) (x : Rest)
  /-- The failure arrives at the client. -/
  | refused (data : Json) (ticked voice : Bool)
  /-- The answer arrives at the client. -/
  | answered (ticked voice : Bool)
  /-- Anything else at the server. -/
  | server (e : Deletion.Event V)

/-- What the client is told of a generation that fails, or of an answer. -/
def serverError (data : Json) : Completion := ⟨0, 500, data⟩

def success (data : Json) : Completion := ⟨0, 200, data⟩

namespace Joint

/-- A step of the desk puts a request on its way, or not. -/
def put (s : Joint V) (d : Desk) : Joint V :=
  { s with
    desk := d
    wire := match s.desk.main.client.inFlight, d.main.client.inFlight with
      | none, some _ => .sent
      | _, _ => s.wire }

/-- The steps. -/
inductive Step (A : Avatar.Settings) (S : Server) (s : Joint V) : JointEvent V → Joint V → Prop
  | desk {e d} (h : s.desk.Step e d) (he : ∀ r ticked voice, e ≠ .completed r ticked voice) : Step A S s (.desk e) (s.put d)
  | lost {r ticked voice d} (h : s.desk.Step (.completed r ticked voice) d) (hr : r.result ≠ 0) :
      Step A S s (.lost r ticked voice) { s with desk := d, wire := .idle }
  | arrive {b r w} (hwire : s.wire = .sent) (hb : s.desk.main.client.inFlight = some b) (htext : r.text = b.text)
      (hid : r.conversationId = b.conversationId) (h : Deletion.Step S s.world (.chat r) w) :
      Step A S s (.arrive r) { s with world := w, wire := .at s.world.requests r }
  | raises {n r now w} (hwire : s.wire = .at n r) (h : Deletion.Step S s.world (.reply n none now) w) :
      Step A S s (.raises now) { s with world := w, wire := .failed r }
  | responds {n r t reply N x w} (hwire : s.wire = .at n r) (ht : t ∈ s.world.task n) (hs : t.stage = .distilling reply)
      (h : Deletion.Step S s.world (.noted n N) w) :
      Step A S s (.responds N x) { s with world := w, wire := .answer r reply x }
  | refused {r data ticked voice d} (hwire : s.wire = .failed r)
      (h : s.desk.Step (.completed (serverError data) ticked voice) d) :
      Step A S s (.refused data ticked voice) { s with desk := d, wire := .idle }
  | answered {r reply x ticked voice d} (hwire : s.wire = .answer r reply x)
      (h : s.desk.Step (.completed (success (chatResponse A S.persistence r reply x)) ticked voice) d) :
      Step A S s (.answered ticked voice) { s with desk := d, wire := .idle }
  | server {e w} (h : Deletion.Step S s.world e w)
      (he : ∀ n r, s.wire = .at n r → (∀ N, e ≠ .noted n N) ∧ ∀ now, e ≠ .reply n none now) :
      Step A S s (.server e) { s with world := w }

/-- The window opens. -/
def start (profile apiBase : String) (w : World V) : Joint V := ⟨.start profile apiBase, w, .idle⟩

end Joint

/-! ### What is on the wire -/

section Wire

variable {A : Avatar.Settings} {S : Server} {P : Persistence} {profile : String} {s s' : Joint V} {e : JointEvent V} {c : String}

theorem getOr_chatResponse (A : Avatar.Settings) (P : Persistence) (r : ChatReq) (reply : String) (x : Rest) :
    ∃ kvs, chatResponse A P r reply x = .obj kvs ∧ (∀ d, getOr kvs "conversation_id" d = chatIdJson P r) ∧
      (∀ d, getOr kvs "text" d = .str reply) ∧ getOr kvs "state" (.obj []) = .obj ((Avatar.stateOf A reply).getD []) := by
  refine ⟨_, rfl, fun d => rfl, fun d => rfl, ?_⟩
  cases Avatar.stateOf A reply with
  | none => rfl
  | some state => rfl

/-- What the client makes of an answer that names a conversation. -/
theorem onCompleted_chatResponse (client : PersonaClient) (r : ChatReq) (reply : String) (x : Rest)
    (hid : chatIdJson P r = .str c) :
    (client.onCompleted (success (chatResponse A P r reply x))).2 = some (.reply reply ((Avatar.stateOf A reply).getD []) c) ∧
      ∀ cid, (success (chatResponse A P r reply x)).conversationId cid = c := by
  obtain ⟨kvs, heq, hcid, htext, hstate⟩ := getOr_chatResponse A P r reply x
  constructor
  · unfold PersonaClient.onCompleted success
    rw [heq]
    dsimp only
    rw [if_neg (by decide), if_neg (by decide), hcid, hid]
    dsimp only [asText]
    rw [hstate, htext]
  · intro cid
    unfold Completion.conversationId success
    rw [if_pos ⟨rfl, rfl⟩, heq]
    dsimp only
    rw [hcid, hid]
    rfl

/-- What is no answer brings no conversation id. -/
theorem conversationId_of_failure {r : Completion} (h : r.result ≠ 0 ∨ r.code ≠ 200) (cid : String) : r.conversationId cid = cid := by
  refine if_neg fun hok => ?_
  rcases h with hresult | hcode
  · exact hresult hok.1
  · exact hcode hok.2

theorem serverError_code (data : Json) : (serverError data).code ≠ 200 := by
  show 500 ≠ 200
  omega

/-- An answer that names no conversation stops the client's handler. -/
theorem stops_chatResponse (A : Avatar.Settings) (r : ChatReq) (reply : String) (x : Rest) (hid : chatIdJson P r = .null) :
    (success (chatResponse A P r reply x)).Stops := by
  obtain ⟨kvs, heq, hcid, -⟩ := getOr_chatResponse A P r reply x
  refine ⟨rfl, rfl, kvs, heq, .inl ?_⟩
  rw [hcid, hid]
  rfl

/-- The client's request, as the server has it. -/
def Wire.request : Wire → Option ChatReq
  | .at _ r => some r
  | .failed r => some r
  | .answer r .. => some r
  | _ => none

/-- The wire carries the request that the client waits for. -/
structure Wired (profile : String) (s : Joint V) : Prop where
  linked : Linked profile s.desk.main.client s.desk.log
  idle : s.wire = .idle ↔ pending s.desk.log = none
  request : ∀ r, s.wire.request = some r → ∃ b mic, pending s.desk.log = some (b, mic) ∧ r.text = b.text ∧
    r.conversationId = b.conversationId

/-- A step of the desk that is no answer. -/
theorem Wired.put_cases (h : Wired profile s) {e : Event} {d : Desk} (hstep : s.desk.Step e d)
    (he : ∀ r ticked voice, e ≠ .completed r ticked voice) :
    (d.log = s.desk.log ∧ (s.put d).wire = s.wire) ∨
      ∃ b mic, d.log = .asked b mic :: s.desk.log ∧ s.wire = .idle ∧ (s.put d).wire = .sent := by
  have hlinked := h.linked.step hstep
  unfold Joint.put
  dsimp only
  rw [h.linked.inFlight, hlinked.inFlight]
  rcases Desk.log_of_step hstep he with hlog | ⟨b, mic, hlog⟩
  · left
    rw [hlog]
    refine ⟨rfl, ?_⟩
    cases (pending s.desk.log).map Prod.fst with
    | none => rfl
    | some b => rfl
  · right
    have hnone : pending s.desk.log = none := by
      have hex := hlinked.log
      rw [hlog] at hex
      cases hex with
      | asked _ hpending => exact hpending
    refine ⟨b, mic, hlog, h.idle.mpr hnone, ?_⟩
    rw [hlog, hnone]
    rfl

/-- The client is told what came of its request. -/
theorem Wired.done (h : Wired profile s) {r : Completion} {ticked voice : Bool} {d : Desk}
    (hstep : s.desk.Step (.completed r ticked voice) d) : Wired profile { s with desk := d, wire := .idle } := by
  refine ⟨h.linked.step hstep, ⟨fun _ => ?_, fun _ => rfl⟩, nofun⟩
  cases hstep with
  | completed => rfl

theorem Wired.step (h : Wired profile s) (hstep : s.Step A S e s') : Wired profile s' := by
  cases hstep with
  | @desk e d hd he =>
    have hlinked : Linked profile d.main.client d.log := h.linked.step hd
    rcases h.put_cases hd he with ⟨hlog, hwire⟩ | ⟨b, mic, hlog, -, hwire⟩
    · refine ⟨hlinked, ?_, ?_⟩
      · show (s.put d).wire = .idle ↔ pending d.log = none
        rw [hwire, hlog]
        exact h.idle
      · show ∀ r, (s.put d).wire.request = some r → ∃ b mic, pending d.log = some (b, mic) ∧ _
        rw [hwire, hlog]
        exact h.request
    · refine ⟨hlinked, ?_, ?_⟩
      · show (s.put d).wire = .idle ↔ pending d.log = none
        rw [hwire, hlog]
        exact ⟨nofun, nofun⟩
      · rw [hwire]
        nofun
  | lost hd => exact h.done hd
  | @arrive b r w hwire hb htext hid =>
    have hpending : pending s.desk.log ≠ none := by
      intro hnone
      rw [h.idle.mpr hnone] at hwire
      cases hwire
    obtain ⟨⟨b', mic⟩, hb'⟩ := Option.ne_none_iff_exists'.mp hpending
    rw [h.linked.inFlight, hb'] at hb
    obtain rfl := Option.some.inj hb
    refine ⟨h.linked, ⟨nofun, fun hnone => absurd hnone hpending⟩, fun r' hr' => ?_⟩
    obtain rfl := Option.some.inj hr'
    exact ⟨b', mic, hb', htext, hid⟩
  | @raises n r now w hwire =>
    obtain ⟨b, mic, hb, hr⟩ := h.request r (by rw [hwire]; rfl)
    refine ⟨h.linked, ⟨nofun, fun hnone => nomatch hb.symm.trans hnone⟩, fun r' hr' => ?_⟩
    obtain rfl := Option.some.inj hr'
    exact ⟨b, mic, hb, hr⟩
  | @responds n r t reply N x w hwire =>
    obtain ⟨b, mic, hb, hr⟩ := h.request r (by rw [hwire]; rfl)
    refine ⟨h.linked, ⟨nofun, fun hnone => nomatch hb.symm.trans hnone⟩, fun r' hr' => ?_⟩
    obtain rfl := Option.some.inj hr'
    exact ⟨b, mic, hb, hr⟩
  | refused _ hd => exact h.done hd
  | answered _ hd => exact h.done hd
  | server => exact ⟨h.linked, h.idle, h.request⟩

/-- What the server is asked for. -/
theorem Wired.conversationId (h : Wired profile s) {r : ChatReq} (hr : s.wire.request = some r) :
    r.conversationId = if lastId s.desk.log ≠ "" then some (lastId s.desk.log) else none := by
  obtain ⟨b, mic, hb, -, hid⟩ := h.request r hr
  rw [hid]
  exact h.linked.log.pending_id hb

theorem Wired.keeps (h : Wired profile s) (hstep : s.Step A S e s') (hc : lastId s.desk.log ≠ "") :
    lastId s'.desk.log = lastId s.desk.log := by
  cases hstep with
  | desk hd he =>
    rcases h.put_cases hd he with ⟨hlog, -⟩ | ⟨b, mic, hlog, -⟩
    · exact congrArg lastId hlog
    · rw [show (s.put _).desk.log = .asked b mic :: s.desk.log from hlog]
      rfl
  | @lost r ticked voice d hd hr =>
    cases hd with
    | completed => exact conversationId_of_failure (.inl hr) _
  | arrive => rfl
  | raises => rfl
  | responds => rfl
  | @refused r data ticked voice d _ hd =>
    cases hd with
    | completed => exact conversationId_of_failure (.inr (serverError_code data)) _
  | @answered r reply x ticked voice d hwire hd =>
    have hid : chatIdJson S.persistence r = .str (lastId s.desk.log) := by
      have hr := h.conversationId (r := r) (by rw [hwire]; rfl)
      rw [if_pos hc] at hr
      unfold chatIdJson
      rw [hr, if_neg fun hnew => hc hnew.2.2]
      rfl
    cases hd with
    | completed => exact (onCompleted_chatResponse s.desk.main.client r reply x hid).2 _
  | server => rfl

/-- The desk and the server as the window opens. -/
theorem wired_start (profile apiBase : String) (w : World V) : Wired profile (.start profile apiBase w) :=
  ⟨⟨rfl, rfl, rfl, .nil, rfl⟩, ⟨fun _ => rfl, fun _ => rfl⟩, nofun⟩

theorem Wired.of_run {apiBase : String} {w : World V} {es : List (JointEvent V)}
    (h : Run (Joint.Step A S) (.start profile apiBase w) es s) : Wired profile s :=
  h.inv (fun _ _ _ hI hstep => hI.step hstep) (wired_start profile apiBase w)

/-- **A session stays in its conversation**, once an answer has brought one, whatever fails or is lost after it and whoever
else the server serves. -/
theorem stays_of_run {apiBase : String} {w : World V} {es es' : List (JointEvent V)}
    (h : Run (Joint.Step A S) (.start profile apiBase w) es s) (hc : s.desk.main.client.conversationId ≠ "")
    (h' : Run (Joint.Step A S) s es' s') :
    s'.desk.main.client.conversationId = s.desk.main.client.conversationId ∧
      ∀ b mic, pending s'.desk.log = some (b, mic) → b.conversationId = some s.desk.main.client.conversationId := by
  have hw := Wired.of_run h
  rw [hw.linked.id] at hc ⊢
  have hend : Wired profile s' ∧ lastId s'.desk.log = lastId s.desk.log := by
    refine h'.inv (I := fun u => Wired profile u ∧ lastId u.desk.log = lastId s.desk.log) (fun u e v hI hstep => ?_) ⟨hw, rfl⟩
    have hu : lastId u.desk.log ≠ "" := fun hempty => hc (hI.2.symm.trans hempty)
    exact ⟨hI.1.step hstep, (hI.1.keeps hstep hu).trans hI.2⟩
  refine ⟨hend.1.linked.id.trans hend.2, fun b mic hb => ?_⟩
  have hid := hend.1.linked.log.pending_id hb
  rw [hend.2, if_pos hc] at hid
  exact hid

/-- The server sends the state of its replies. -/
def lively : Avatar.Settings := ⟨true, PyText.lower⟩

/-- The first message of a session, as the server has it. -/
def first : ChatReq := ⟨none, "hi", "default", "chat", "u", fun _ => 0⟩

/-- No facts. -/
def noNotes : Noting ℤ := ⟨[], false, fun _ => none, fun _ => true, fun _ => 0⟩

/-- A message is typed, put, and answered. -/
def greeting : List (JointEvent ℤ) :=
  [.desk (.typed "hi"), .desk (.submit 0), .arrive first, .server (.reply 0 (some "hello") 1), .responds noNotes ⟨"", []⟩,
    .answered false false]

/-- The server has the message. -/
def waiting (cid : String) : Deletion.Task := ⟨0, cid, "hi", "default", some "chat", .generating⟩

theorem stays_of_run_greeting :
    ∃ s s', Run (Joint.Step lively Deletion.plainServer) (.start "default" "http://localhost:8000" (World.quiet .empty)) greeting s ∧
      Run (Joint.Step lively Deletion.plainServer) s [.desk (.chip "Tell me a fun fact." 0)] s' ∧
      s'.desk.main.client.conversationId = "u" := by
  have hrun : ∃ s, Run (Joint.Step lively Deletion.plainServer) (.start "default" "http://localhost:8000" (World.quiet .empty)) greeting s ∧
      s.desk.main.client.conversationId = "u" :=
    ⟨_, .cons (.desk .typed nofun) (.cons (.desk .submit nofun) (.cons (.arrive rfl rfl rfl rfl .chat)
      (.cons (.server (.replied (t := waiting "u") (.head _) rfl) fun _ _ _ => ⟨nofun, nofun⟩)
      (.cons (.responds (t := { waiting "u" with stage := .distilling "hello" }) rfl (.head _) rfl
        (.noted (t := { waiting "u" with stage := .distilling "hello" }) (.head _) rfl))
      (.cons (.answered rfl (.completed rfl)) .nil))))), rfl⟩
  obtain ⟨s, h, hid⟩ := hrun
  have hchip : "Tell me a fun fact." ∈ chips := List.mem_cons_of_mem _ (List.mem_cons_of_mem _ List.mem_cons_self)
  have h' : Run (Joint.Step lively Deletion.plainServer) s [.desk (.chip "Tell me a fun fact." 0)] _ := .one (.desk (.chip hchip) nofun)
  have hne : s.desk.main.client.conversationId ≠ "" := by
    rw [hid]
    decide
  exact ⟨s, _, h, h', (stays_of_run h hne h').1.trans hid⟩

/-! ### A server that keeps no conversations -/

/-- No answer has been shown. -/
structure Mute (l : List Entry) : Prop where
  id : lastId l = ""
  silent : ∀ r text state cid ticked voice, .answered r (some (.reply text state cid)) ticked voice ∉ l

theorem Mute.step (hkeeps : ¬(S.persistence.convoOk = true ∧ S.persistence.persistEnabled = true)) (hw : Wired profile s)
    (h : Mute s.desk.log) (hstep : s.Step A S e s') : Mute s'.desk.log := by
  have hasked : ∀ b mic, Mute (.asked b mic :: s.desk.log) := by
    intro b mic
    refine ⟨h.id, fun r text state cid ticked voice hmem => ?_⟩
    rcases List.mem_cons.mp hmem with heq | hold
    · cases heq
    · exact h.silent _ _ _ _ _ _ hold
  have hanswered : ∀ (r : Completion) signal ticked voice, r.conversationId "" = "" →
      (∀ text state cid, signal ≠ some (.reply text state cid)) → Mute (.answered r signal ticked voice :: s.desk.log) := by
    intro r signal ticked voice hid hsignal
    refine ⟨?_, fun r' text state cid ticked' voice' hmem => ?_⟩
    · rw [lastId, h.id, hid]
    · rcases List.mem_cons.mp hmem with heq | hold
      · obtain ⟨-, heq, -⟩ := Entry.answered.inj heq
        exact hsignal _ _ _ heq.symm
      · exact h.silent _ _ _ _ _ _ hold
  cases hstep with
  | desk hd he =>
    rcases hw.put_cases hd he with ⟨hlog, -⟩ | ⟨b, mic, hlog, -⟩
    · rw [show (s.put _).desk.log = s.desk.log from hlog]
      exact h
    · rw [show (s.put _).desk.log = .asked b mic :: s.desk.log from hlog]
      exact hasked b mic
  | @lost r ticked voice d hd hr =>
    cases hd with
    | completed =>
      refine hanswered _ _ _ _ (conversationId_of_failure (.inl hr) _) fun text state cid => ?_
      unfold PersonaClient.onCompleted
      rw [if_pos hr]
      nofun
  | arrive => exact h
  | raises => exact h
  | responds => exact h
  | @refused r data ticked voice d _ hd =>
    cases hd with
    | completed =>
      refine hanswered _ _ _ _ (conversationId_of_failure (.inr (serverError_code data)) _) fun text state cid => ?_
      nofun
  | @answered r reply x ticked voice d hwire hd =>
    have hid : chatIdJson S.persistence r = .null := by
      have hr := hw.conversationId (r := r) (by rw [hwire]; rfl)
      rw [h.id, if_neg (not_not.mpr rfl)] at hr
      unfold chatIdJson
      rw [hr, if_neg fun hnew => hkeeps ⟨hnew.1, hnew.2.1⟩]
      rfl
    have hstops := stops_chatResponse A r reply x hid
    cases hd with
    | completed =>
      rw [(onCompleted_eq_none_iff s.desk.main.client _).mpr hstops]
      refine hanswered _ _ _ _ ?_ nofun
      obtain ⟨kvs, heq, hcid, -⟩ := getOr_chatResponse A S.persistence r reply x
      unfold Completion.conversationId success
      rw [if_pos ⟨rfl, rfl⟩, heq]
      dsimp only
      rw [hcid, hid]
      rfl
  | server => exact h

/-- **A server that keeps no conversations has a mute client**: whatever is said, and however the server answers, the
window shows no reply, and the client never has a conversation id. -/
theorem mute_of_run {apiBase : String} {w : World V} {es : List (JointEvent V)}
    (hkeeps : ¬(S.persistence.convoOk = true ∧ S.persistence.persistEnabled = true))
    (h : Run (Joint.Step A S) (.start profile apiBase w) es s) :
    s.desk.main.client.conversationId = "" ∧
      ∀ r text state cid ticked voice, .answered r (some (.reply text state cid)) ticked voice ∉ s.desk.log := by
  obtain ⟨hw, hm⟩ : Wired profile s ∧ Mute s.desk.log := by
    refine h.inv (I := fun s => Wired profile s ∧ Mute s.desk.log)
      (fun _ _ _ hI hstep => ⟨hI.1.step hstep, hI.2.step hkeeps hI.1 hstep⟩) ⟨wired_start profile apiBase w, rfl, nofun⟩
  exact ⟨hw.linked.id.trans hm.id, hm.silent⟩

/-- A server whose `CONVO_PERSIST_ENABLED` is off. -/
def forgetful : Server := { Deletion.plainServer with persistence := { persisting with persistEnabled := false } }

theorem mute_of_run_greeting :
    ∃ s, Run (Joint.Step lively forgetful) (.start "default" "http://localhost:8000" (World.quiet .empty)) greeting s ∧
      s.wire = .idle ∧ s.desk.main.client.conversationId = "" := by
  have hrun : ∃ s, Run (Joint.Step lively forgetful) (.start "default" "http://localhost:8000" (World.quiet .empty)) greeting s ∧
      s.wire = .idle :=
    ⟨_, .cons (.desk .typed nofun) (.cons (.desk .submit nofun) (.cons (.arrive rfl rfl rfl rfl .chat)
      (.cons (.server (.replied (t := waiting "") (.head _) rfl) fun _ _ _ => ⟨nofun, nofun⟩)
      (.cons (.responds (t := { waiting "" with stage := .distilling "hello" }) rfl (.head _) rfl
        (.noted (t := { waiting "" with stage := .distilling "hello" }) (.head _) rfl))
      (.cons (.answered rfl (.completed rfl)) .nil))))), rfl⟩
  obtain ⟨s, h, hidle⟩ := hrun
  have hkeeps : ¬(forgetful.persistence.convoOk = true ∧ forgetful.persistence.persistEnabled = true) := fun hk =>
    Bool.false_ne_true hk.2
  exact ⟨s, h, hidle, (mute_of_run hkeeps h).1⟩

end Wire

/-! ### One thread -/

section Thread

variable {A : Avatar.Settings} {S : Server} {profile : String} {s s' : Joint V} {e : JointEvent V} {c : String}

/-- What an exchange leaves in its conversation. A request that fails leaves its message in one that it has not made. -/
def said (b : Body) (r : Completion) : Option Signal → List (String × String)
  | some (.reply text ..) => [("user", b.text), ("assistant", text)]
  | _ => if r.result = 0 ∧ b.conversationId.isSome = true then [("user", b.text)] else []

/-- What a session leaves in its conversation. -/
def transcript : List Entry → List (String × String)
  | [] => []
  | .asked .. :: l => transcript l
  | .answered r signal .. :: l => transcript l ++ (pending l).elim [] fun b => said b.1 r signal

/-- The conversation of the session; empty before it has one. -/
def Joint.thread (S : Server) (s : Joint V) : String := s.wire.request.elim (lastId s.desk.log) (chatId S.persistence)

/-- What the request that has no answer yet has left in it. -/
def Joint.underWay (s : Joint V) : List (String × String) :=
  match s.wire with
  | .idle => []
  | .sent => []
  | .at n r => ("user", r.text) :: (s.world.task n).flatMap fun t => match t.stage with
    | .generating => []
    | .distilling reply => [("assistant", reply)]
  | .failed r => [("user", r.text)]
  | .answer r reply _ => [("user", r.text), ("assistant", reply)]

/-- The session has its conversation for itself: a new one is new, nobody else has a request on it or deletes it, and the
client loses no request that has reached the server. -/
def Alone (S : Server) (s : Joint V) : JointEvent V → Prop
  | .lost .. => s.wire = .sent
  | .arrive r => r.conversationId = none →
      r.uuid ≠ "" ∧ stored r.uuid s.world.st.db = [] ∧ ∀ t ∈ s.world.tasks, t.cid ≠ r.uuid
  | .server e => s.thread S ≠ "" → e.conversation S.persistence ≠ some (s.thread S)
  | _ => True

theorem chatId_of_some {r : ChatReq} (hr : r.conversationId = some c) (hc : c ≠ "") : chatId S.persistence r = c := by
  unfold chatId
  rw [hr]
  exact if_neg fun hnew => hc hnew.2.2

theorem chatId_of_none (hS : Persists S) {r : ChatReq} (hr : r.conversationId = none) : chatId S.persistence r = r.uuid := by
  unfold chatId
  rw [hr]
  exact if_pos ⟨hS.convoOk, hS.persistEnabled, rfl⟩

theorem chatIdJson_eq (hS : Persists S) (r : ChatReq) : chatIdJson S.persistence r = .str (chatId S.persistence r) := by
  unfold chatIdJson chatId
  dsimp only
  split_ifs with hnew
  · rfl
  · cases hr : r.conversationId with
    | some c => rfl
    | none =>
      rw [hr] at hnew
      exact absurd ⟨hS.convoOk, hS.persistEnabled, rfl⟩ hnew

/-- The conversation holds what the session has left in it. -/
structure Together (S : Server) (s : Joint V) : Prop where
  sim : ∃ l, Deletion.Sim s.world l
  id : ∀ r, s.wire.request = some r → chatId S.persistence r ≠ ""
  stored : s.thread S ≠ "" → stored (s.thread S) s.world.st.db = transcript s.desk.log ++ s.underWay
  unnamed : lastId s.desk.log = "" → transcript s.desk.log = []
  own : ∀ n r, s.wire = .at n r → n < s.world.requests ∧ ∃ t, s.world.task n = [t] ∧ t.cid = chatId S.persistence r
  others : ∀ t ∈ s.world.tasks, t.cid = s.thread S → s.thread S = "" ∨ ∃ r, s.wire = .at t.number r

/-- A request on a conversation the session has already is on that one. -/
theorem Wired.chatId_eq (h : Wired profile s) {r : ChatReq} (hr : s.wire.request = some r) (hlast : lastId s.desk.log ≠ "") :
    chatId S.persistence r = lastId s.desk.log := by
  have hid := h.conversationId hr
  rw [if_pos hlast] at hid
  exact chatId_of_some hid hlast

/-- The suspended requests have smaller numbers than the next one. -/
theorem Together.task_requests (h : Together S s) : s.world.task s.world.requests = [] := by
  obtain ⟨l, hsim⟩ := h.sim
  refine List.filter_eq_nil_iff.mpr fun t ht hn => ?_
  obtain ⟨r, hr, -⟩ := hsim.tasks t ht
  have hlt : t.number < l.requests.length := (List.getElem?_eq_some_iff.mp hr).1
  have heq := of_decide_eq_true hn
  rw [← hsim.requests] at hlt
  omega

/-- The request arrives at the server. -/
theorem Together.arrive (hS : Persists S) (hw : Wired profile s) (h : Together S s) {b : Body} {r : ChatReq} {w : World V}
    (hok : Alone S s (.arrive r)) (hwire : s.wire = .sent) (hb : s.desk.main.client.inFlight = some b)
    (hid : r.conversationId = b.conversationId) (hstep : Deletion.Step S s.world (.chat r) w) :
    Together S { s with world := w, wire := .at s.world.requests r } := by
  have hpending : ∃ mic, pending s.desk.log = some (b, mic) := by
    rw [hw.linked.inFlight] at hb
    obtain ⟨⟨b', mic⟩, hp, rfl⟩ := Option.map_eq_some_iff.mp hb
    exact ⟨mic, hp⟩
  obtain ⟨mic, hpending⟩ := hpending
  have hthread : s.thread S = lastId s.desk.log := by
    unfold Joint.thread
    rw [hwire]
    rfl
  have hreq := hw.linked.log.pending_id hpending
  rw [← hid] at hreq
  -- a conversation of the session's own, or a new one
  have hconv : chatId S.persistence r ≠ "" ∧
      Api.stored (chatId S.persistence r) s.world.st.db = transcript s.desk.log ∧
      ∀ t ∈ s.world.tasks, t.cid ≠ chatId S.persistence r := by
    by_cases hlast : lastId s.desk.log = ""
    · rw [if_neg (not_not.mpr hlast)] at hreq
      obtain ⟨hne, hempty, hfree⟩ := hok hreq
      rw [chatId_of_none hS hreq, h.unnamed hlast]
      exact ⟨hne, hempty, hfree⟩
    · rw [if_pos hlast] at hreq
      rw [chatId_of_some hreq hlast, ← hthread]
      rw [← hthread] at hlast
      refine ⟨hlast, ?_, fun t ht hcid => ?_⟩
      · rw [h.stored hlast, Joint.underWay, hwire, List.append_nil]
      · rcases h.others t ht hcid with hempty | ⟨r', hat⟩
        · exact hlast hempty
        · rw [hwire] at hat
          cases hat
  obtain ⟨hne, hstored, hfree⟩ := hconv
  obtain ⟨l, hsim⟩ := h.sim
  have hnone := h.task_requests
  cases hstep with
  | chat =>
    have htask : ∀ t : Deletion.Task, t.number = s.world.requests →
        (s.world.tasks ++ [t]).filter (fun t => t.number = s.world.requests) = [t] := by
      intro t ht
      have hold : s.world.tasks.filter (fun t => t.number = s.world.requests) = [] := hnone
      rw [List.filter_append, hold, List.filter_singleton]
      simp [ht]
    refine ⟨⟨_, Deletion.sim_step hS hsim .chat⟩, fun r' hr' => ?id, fun _ => ?stored, h.unnamed, fun n r' hat => ?own,
      fun t ht hcid => .inr ?others⟩
    case id =>
      obtain rfl := Option.some.inj hr'
      exact hne
    case stored =>
      show Api.stored (chatId S.persistence r) (Deletion.chatPrepare S.persistence r s.world.st.db).2 = transcript s.desk.log ++
        ("user", r.text) :: ((s.world.tasks ++ [_]).filter (fun t : Deletion.Task => t.number = s.world.requests)).flatMap _
      rw [Deletion.stored_chatPrepare hS.convoOk hS.persistEnabled hne, if_pos rfl, hstored, htask _ rfl]
      rfl
    case own =>
      obtain ⟨rfl, rfl⟩ := Wire.at.inj hat
      exact ⟨Nat.lt_succ_self _, _, htask _ rfl, rfl⟩
    case others =>
      rcases List.mem_append.mp ht with hold | hnew
      · exact absurd hcid (hfree t hold)
      · obtain rfl := List.mem_singleton.mp hnew
        exact ⟨r, rfl⟩

/-- The server is done with the request. -/
theorem Together.leaves (h : Together S s) {n : ℕ} {r : ChatReq} {e : Deletion.Event V} {w : World V} {wire : Wire}
    (hS : Persists S) (hwire : s.wire = .at n r) (hstep : Deletion.Step S s.world e w)
    (hdb : w.st.db = s.world.st.db) (htasks : w.tasks = s.world.tasks.filter fun u => u.number ≠ n)
    (hrequest : wire.request = some r) (hgone : ∀ m r', wire ≠ .at m r')
    (hway : s.underWay = { s with world := w, wire := wire }.underWay) :
    Together S { s with world := w, wire := wire } := by
  have hthread : { s with world := w, wire := wire }.thread S = s.thread S := by
    unfold Joint.thread
    rw [hrequest, hwire]
    rfl
  obtain ⟨l, hsim⟩ := h.sim
  have hid : ∀ r', s.wire.request = some r' ↔ r' = r := by
    intro r'
    rw [hwire]
    exact ⟨fun heq => (Option.some.inj heq).symm, fun heq => heq ▸ rfl⟩
  refine ⟨⟨_, Deletion.sim_step hS hsim hstep⟩, fun r' hr' => ?_, fun hne => ?_, h.unnamed, fun m r' hat => absurd hat (hgone m r'),
    fun u hu hcid => ?_⟩
  · exact h.id r' ((hid r').mpr (Option.some.inj (hr'.symm.trans hrequest)))
  · rw [hthread] at hne ⊢
    rw [hdb, ← hway]
    exact h.stored hne
  · rw [hthread] at hcid ⊢
    rw [htasks] at hu
    obtain ⟨hmem, hnum⟩ := List.mem_filter.mp hu
    rcases h.others u hmem hcid with hempty | ⟨r', hat⟩
    · exact .inl hempty
    · rw [hwire] at hat
      obtain ⟨heq, -⟩ := Wire.at.inj hat
      exact absurd heq.symm (of_decide_eq_true hnum)

/-- The client is told what came of its request. -/
theorem Together.told (h : Together S s) {d : Desk} (hat : ∀ n r', s.wire ≠ .at n r')
    (hthread : lastId d.log ≠ "" → s.thread S = lastId d.log ∧ transcript d.log = transcript s.desk.log ++ s.underWay)
    (hunnamed : lastId d.log = "" → transcript d.log = []) : Together S { s with desk := d, wire := .idle } := by
  refine ⟨h.sim, nofun, fun hne => ?_, hunnamed, nofun, fun t ht hcid => ?_⟩
  · obtain ⟨hsame, htranscript⟩ := hthread hne
    show Api.stored (lastId d.log) s.world.st.db = transcript d.log ++ []
    have hne' : s.thread S ≠ "" := fun hempty => hne (hsame.symm.trans hempty)
    rw [htranscript, List.append_nil, ← hsame]
    exact h.stored hne'
  · by_cases hne : lastId d.log = ""
    · exact .inl hne
    · have hsame := (hthread hne).1
      rcases h.others t ht (hcid.trans hsame.symm) with hempty | ⟨r', hat'⟩
      · exact absurd (hsame.symm.trans hempty) hne
      · exact absurd hat' (hat _ _)

/-- A step of the desk that is no answer. -/
theorem Together.desk (hw : Wired profile s) (h : Together S s) {e : Event} {d : Desk} (hd : s.desk.Step e d)
    (he : ∀ r ticked voice, e ≠ .completed r ticked voice) : Together S (s.put d) := by
  rcases hw.put_cases hd he with ⟨hlog, hwire⟩ | ⟨b, mic, hlog, hidle, hwire⟩
  · have hthread : (s.put d).thread S = s.thread S := by
      unfold Joint.thread
      rw [hwire]
      exact congrArg (fun l => s.wire.request.elim (lastId l) (chatId S.persistence)) hlog
    have hway : (s.put d).underWay = s.underWay := by
      unfold Joint.underWay
      rw [hwire]
      rfl
    refine ⟨h.sim, ?_, ?_, ?_, ?_, ?_⟩
    · rw [hwire]
      exact h.id
    · rw [hthread, hway]
      show _ → _ = transcript d.log ++ s.underWay
      rw [hlog]
      exact h.stored
    · show lastId d.log = "" → transcript d.log = []
      rw [hlog]
      exact h.unnamed
    · rw [hwire]
      exact h.own
    · rw [hthread, hwire]
      exact h.others
  · have hthread : (s.put d).thread S = s.thread S := by
      unfold Joint.thread
      rw [hwire, hidle]
      show lastId d.log = lastId s.desk.log
      rw [hlog]
      rfl
    have hway : (s.put d).underWay = s.underWay := by
      unfold Joint.underWay
      rw [hwire, hidle]
    refine ⟨h.sim, ?_, ?_, ?_, ?_, ?_⟩
    · rw [hwire]
      nofun
    · rw [hthread, hway]
      show _ → _ = transcript d.log ++ s.underWay
      rw [hlog]
      exact h.stored
    · show lastId d.log = "" → transcript d.log = []
      rw [hlog]
      exact h.unnamed
    · rw [hwire]
      nofun
    · rw [hthread]
      intro t ht hcid
      rcases h.others t ht hcid with hempty | ⟨r', hat⟩
      · exact .inl hempty
      · rw [hidle] at hat
        cases hat

/-- Another step of the server. -/
theorem Together.server (hS : Persists S) (h : Together S s) {e : Deletion.Event V} {w : World V} (hok : Alone S s (.server e))
    (hstep : Deletion.Step S s.world e w)
    (he : ∀ n r, s.wire = .at n r → (∀ N, e ≠ .noted n N) ∧ ∀ now, e ≠ .reply n none now) :
    Together S { s with world := w } := by
  obtain ⟨l, hsim⟩ := h.sim
  have hsim' := Deletion.sim_step hS hsim hstep
  have hrequests : s.world.requests ≤ w.requests := by
    cases hstep with
    | chat => exact Nat.le_succ _
    | v1 => exact Nat.le_succ _
    | _ => exact Nat.le_refl _
  have hothers : ∀ t ∈ w.tasks, t.cid = s.thread S → s.thread S = "" ∨ ∃ r, s.wire = .at t.number r := by
    intro t ht hcid
    by_cases hne : s.thread S = ""
    · exact .inl hne
    · rcases Deletion.mem_tasks_of_step hstep ht with ⟨u, hu, hnum, hucid⟩ | ⟨-, hon⟩
      · rw [← hnum]
        exact h.others u hu (hucid.trans hcid)
      · rw [hcid] at hon
        exact absurd hon (hok hne)
  by_cases hown : ∃ n r reply now, s.wire = .at n r ∧ e = .reply n (some reply) now
  · obtain ⟨n, r, reply, now, hwire, rfl⟩ := hown
    obtain ⟨hlt, t, htask, hcid⟩ := h.own n r hwire
    have hthread : s.thread S = chatId S.persistence r := by
      unfold Joint.thread
      rw [hwire]
      rfl
    have hne : s.thread S ≠ "" := by
      rw [hthread]
      exact h.id r (by rw [hwire]; rfl)
    cases hstep with
    | @replied t' _ _ ht' hs =>
      have heq : t' ∈ s.world.task t'.number := List.mem_filter.mpr ⟨ht', decide_eq_true rfl⟩
      rw [htask, List.mem_singleton] at heq
      subst heq
      have htask' : (s.world.replied S t' reply now).task t'.number = [{ t' with stage := .distilling reply }] := by
        show (s.world.tasks.filter (fun u : Deletion.Task => u.number ≠ t'.number) ++ [_]).filter _ = _
        rw [List.filter_append, List.filter_filter, List.filter_singleton]
        have hnil : s.world.tasks.filter (fun u => decide (u.number = t'.number) && decide (u.number ≠ t'.number)) = [] := by
          refine List.filter_eq_nil_iff.mpr fun u _ => ?_
          simp
        rw [hnil]
        simp
      have hbefore := h.stored hne
      unfold Joint.underWay at hbefore
      rw [hwire] at hbefore
      dsimp only at hbefore
      rw [htask, List.flatMap_singleton, hs] at hbefore
      refine ⟨⟨_, hsim'⟩, h.id, fun _ => ?_, h.unnamed, fun m r' hat => ?_, hothers⟩
      · show Api.stored (s.thread S) (persistTurn S.persistence now t'.cid "assistant" reply t'.profile t'.topic s.world.st.db) =
          transcript s.desk.log ++ Joint.underWay { s with world := s.world.replied S t' reply now }
        rw [hthread] at hbefore hne ⊢
        rw [hcid, stored_persistTurn hS.convoOk hS.persistEnabled hne, hbefore]
        unfold Joint.underWay
        rw [hwire]
        dsimp only
        rw [htask', List.flatMap_singleton, List.append_assoc]
        rfl
      · rw [hwire] at hat
        obtain ⟨rfl, rfl⟩ := Wire.at.inj hat
        exact ⟨hlt, _, htask', hcid⟩
  · have htask : ∀ n r, s.wire = .at n r → w.task n = s.world.task n := by
      intro n r hwire
      refine Deletion.task_of_apart hstep (h.own n r hwire).1 (fun reply now heq => ?_) (he n r hwire).1
      cases reply with
      | none => exact (he n r hwire).2 now heq
      | some reply => exact hown ⟨n, r, reply, now, hwire, heq⟩
    have hway : { s with world := w }.underWay = s.underWay := by
      unfold Joint.underWay
      cases hwire : s.wire with
      | «at» n r =>
        dsimp only
        rw [htask n r hwire]
      | _ => rfl
    refine ⟨⟨_, hsim'⟩, h.id, fun hne => ?_, h.unnamed, fun n r hwire => ?_, hothers⟩
    · rw [hway]
      refine Eq.trans ?_ (h.stored hne)
      refine Deletion.stored_of_apart hS hstep hne (hok hne) fun t ht reply now heq hcid => ?_
      rcases h.others t ht hcid with hempty | ⟨r, hwire⟩
      · exact hne hempty
      · exact hown ⟨t.number, r, reply, now, hwire, heq⟩
    · obtain ⟨hlt, t, ht, hcid⟩ := h.own n r hwire
      exact ⟨hlt.trans_le hrequests, t, (htask n r hwire).trans ht, hcid⟩

/-- What an exchange adds to the transcript. -/
theorem transcript_answered {l : List Entry} {b : Body} {mic : Bool} (hb : pending l = some (b, mic)) (r : Completion)
    (signal : Option Signal) (ticked voice : Bool) :
    transcript (.answered r signal ticked voice :: l) = transcript l ++ said b r signal := by
  rw [transcript, hb]
  rfl

/-- What a step does to the conversation, if the session has it for itself. -/
theorem Together.step (hS : Persists S) (hw : Wired profile s) (h : Together S s) (hok : Alone S s e) (hstep : s.Step A S e s') :
    Together S s' := by
  cases hstep with
  | desk hd he => exact h.desk hw hd he
  | @lost r ticked voice d hd hr =>
    have hwire : s.wire = .sent := hok
    have hlog : lastId d.log = lastId s.desk.log ∧ transcript d.log = transcript s.desk.log := by
      cases hd with
      | completed =>
        refine ⟨conversationId_of_failure (.inl hr) _, ?_⟩
        have hsignal : ∃ message, (s.desk.main.client.onCompleted r).2 = some (.failed message) := by
          unfold PersonaClient.onCompleted
          rw [if_pos hr]
          exact ⟨_, rfl⟩
        obtain ⟨message, hsignal⟩ := hsignal
        cases hp : pending s.desk.log with
        | none =>
          rw [transcript, hp]
          exact List.append_nil _
        | some b =>
          obtain ⟨b, mic⟩ := b
          have hsaid : said b r (some (.failed message)) = [] := if_neg fun hok => hr hok.1
          rw [transcript_answered hp, hsignal, hsaid, List.append_nil]
    have hthread : s.thread S = lastId s.desk.log := by
      unfold Joint.thread
      rw [hwire]
      rfl
    have hway : s.underWay = [] := by
      unfold Joint.underWay
      rw [hwire]
    rw [← hlog.1] at hthread
    refine h.told (fun n r' hat => ?_) (fun _ => ⟨hthread, ?_⟩) fun hempty => ?_
    · rw [hwire] at hat
      cases hat
    · rw [hlog.2, hway, List.append_nil]
    · rw [hlog.2]
      exact h.unnamed (hlog.1.symm.trans hempty)
  | arrive hwire hb _ hid hchat => exact h.arrive hS hw hok hwire hb hid hchat
  | @raises n r now w hwire hreply =>
    obtain ⟨-, t, htask, -⟩ := h.own n r hwire
    cases hreply with
    | @failed t' _ ht' hs =>
      have heq : t' ∈ s.world.task t'.number := List.mem_filter.mpr ⟨ht', decide_eq_true rfl⟩
      rw [htask, List.mem_singleton] at heq
      subst heq
      have hfailed : Deletion.Step S s.world (.reply t'.number none now) (s.world.drop t') := .failed ht' hs
      refine h.leaves hS hwire hfailed rfl rfl rfl nofun ?_
      unfold Joint.underWay
      rw [hwire]
      dsimp only
      rw [htask, List.flatMap_singleton, hs]
  | @responds n r t reply N x w hwire ht hs hnoted =>
    obtain ⟨-, t', htask, -⟩ := h.own n r hwire
    have hway : s.underWay = [("user", r.text), ("assistant", reply)] := by
      unfold Joint.underWay
      rw [hwire]
      dsimp only
      rw [htask, List.mem_singleton] at ht
      subst ht
      rw [htask, List.flatMap_singleton, hs]
    have hnoted' := hnoted
    cases hnoted with
    | noted ht' hs' => exact h.leaves hS hwire hnoted' rfl rfl rfl nofun hway
  | @refused r data ticked voice d hwire hd =>
    have hreq : s.wire.request = some r := by rw [hwire]; rfl
    obtain ⟨b, mic, hb, htext, hid⟩ := hw.request r hreq
    have hlast := hw.linked.log.pending_id hb
    cases hd with
    | completed =>
      have hlog := conversationId_of_failure (.inr (serverError_code data)) (lastId s.desk.log)
      have hsaid : said b (serverError data) (s.desk.main.client.onCompleted (serverError data)).2 =
          if b.conversationId.isSome = true then [("user", b.text)] else [] := by
        show (if (0 = 0 ∧ b.conversationId.isSome = true) then _ else _) = _
        simp
      refine h.told (fun n r' hat => ?_) (fun hne => ?_) fun hempty => ?_
      · rw [hwire] at hat
        cases hat
      · have hne' : lastId s.desk.log ≠ "" := fun hempty => hne (hlog.trans hempty)
        constructor
        · unfold Joint.thread
          rw [hreq]
          exact (hw.chatId_eq hreq hne').trans hlog.symm
        · rw [transcript_answered hb, hsaid, hlast, if_pos hne', Joint.underWay, hwire, ← htext]
          rfl
      · have hempty' : lastId s.desk.log = "" := hlog.symm.trans hempty
        rw [transcript_answered hb, hsaid, hlast, if_neg (not_not.mpr hempty'), h.unnamed hempty']
        rfl
  | @answered r reply x ticked voice d hwire hd =>
    have hreq : s.wire.request = some r := by rw [hwire]; rfl
    obtain ⟨b, mic, hb, htext, -⟩ := hw.request r hreq
    obtain ⟨hsignal, hcid⟩ := onCompleted_chatResponse s.desk.main.client r reply x (chatIdJson_eq hS r)
    have hne := h.id r hreq
    cases hd with
    | completed =>
      have hlog : lastId (.answered (success (chatResponse A S.persistence r reply x)) (s.desk.main.client.onCompleted
          (success (chatResponse A S.persistence r reply x))).2 ticked voice :: s.desk.log) = chatId S.persistence r := hcid _
      refine h.told (fun n r' hat => ?_) (fun _ => ⟨?_, ?_⟩) fun hempty => absurd (hlog.symm.trans hempty) hne
      · rw [hwire] at hat
        cases hat
      · rw [hlog]
        unfold Joint.thread
        rw [hreq]
        rfl
      · rw [transcript_answered hb, hsignal, said, Joint.underWay, hwire, ← htext]
  | server hserver he => exact h.server hS hok hserver he

/-- **One thread.** If the server keeps conversations, in a database whose calls succeed, and the session has its
conversation for itself, then in every run what the database holds there is what the window showed, message and reply in
turn, and after it what the request under way has left; and it is the conversation whose id the client has. -/
theorem thread_of_run (hS : Persists S) {apiBase : String} {w : World V} (htasks : w.tasks = []) (hrequests : w.requests = 0)
    {es : List (JointEvent V)} (h : Run (Guarded (Alone S) (Joint.Step A S)) (.start profile apiBase w) es s) :
    (s.thread S ≠ "" → stored (s.thread S) s.world.st.db = transcript s.desk.log ++ s.underWay) ∧
      (s.desk.main.client.conversationId ≠ "" → s.thread S = s.desk.main.client.conversationId) := by
  obtain ⟨hw, ht⟩ : Wired profile s ∧ Together S s := by
    refine h.inv (I := fun s => Wired profile s ∧ Together S s)
      (fun _ _ _ hI hstep => ⟨hI.1.step hstep.2, hI.2.step hS hI.1 hstep.1 hstep.2⟩) ⟨wired_start profile apiBase w, ?_⟩
    refine ⟨⟨_, Deletion.sim_ofDb htasks hrequests⟩, nofun, fun hne => absurd rfl hne, fun _ => rfl, nofun, fun t ht => ?_⟩
    rw [show (Joint.start profile apiBase w).world.tasks = [] from htasks] at ht
    cases ht
  refine ⟨ht.stored, fun hne => ?_⟩
  rw [hw.linked.id] at hne ⊢
  unfold Joint.thread
  cases hreq : s.wire.request with
  | none => rfl
  | some r => exact hw.chatId_eq hreq hne

theorem thread_of_run_greeting :
    ∃ s, Run (Guarded (Alone Deletion.plainServer) (Joint.Step lively Deletion.plainServer))
        (.start "default" "http://localhost:8000" (World.quiet .empty)) greeting s ∧
      s.desk.main.client.conversationId = "u" ∧ stored "u" s.world.st.db = [("user", "hi"), ("assistant", "hello")] := by
  have hrun : ∃ s, Run (Guarded (Alone Deletion.plainServer) (Joint.Step lively Deletion.plainServer))
      (.start "default" "http://localhost:8000" (World.quiet .empty)) greeting s ∧ s.desk.main.client.conversationId = "u" ∧
        s.thread Deletion.plainServer = "u" ∧
        transcript s.desk.log ++ s.underWay = [("user", "hi"), ("assistant", "hello")] :=
    ⟨_, .cons ⟨trivial, .desk .typed nofun⟩ (.cons ⟨trivial, .desk .submit nofun⟩
      (.cons ⟨fun _ => ⟨by decide, rfl, nofun⟩, .arrive rfl rfl rfl rfl .chat⟩
      (.cons ⟨fun _ => nofun, .server (.replied (t := waiting "u") (.head _) rfl) fun _ _ _ => ⟨nofun, nofun⟩⟩
      (.cons ⟨trivial, .responds (t := { waiting "u" with stage := .distilling "hello" }) rfl (.head _) rfl
        (.noted (t := { waiting "u" with stage := .distilling "hello" }) (.head _) rfl)⟩
      (.cons ⟨trivial, .answered rfl (.completed rfl)⟩ .nil))))), rfl, rfl, rfl⟩
  obtain ⟨s, h, hid, hthread, hturns⟩ := hrun
  obtain ⟨hstored, -⟩ := thread_of_run ⟨rfl, rfl⟩ rfl rfl h
  rw [hthread, hturns] at hstored
  exact ⟨s, h, hid, hstored (by decide)⟩

end Thread

end Persona.Client
