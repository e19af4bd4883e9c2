import Persona.Json
import Persona.Lib.Run
import Mathlib.Data.List.DropRight

/-!
# The desktop client

`persona_client.gd` and `main.gd` of `clients/godot`. The client has one request at a time. The window puts a message
to it from the line (Enter or `Send`), from a suggestion, or from the microphone, whose recording runs beside all of
these; `Send` and `Talk` are disabled at times, Enter and the suggestions never are.

`exchanges_of_run` says what a session is: each message is answered before the next one is put, and goes out with the
conversation id that the answers before it brought. `Send` stays disabled only while there is something to wait for, or
after an answer that stops its handler: a `conversation_id` or `text` that is no text, or a `state` that is no
dictionary. `spoken_of_run` is "voice in, voice out", if nobody presses Enter or a suggestion while the microphone
records: the transcript of such a recording is lost, and the reply to the other message is spoken in its place.

The layout of the window, the scripted demo and what the face draws are left out.
-/

namespace Persona.Client

open Persona.Lib

/-! ### `persona_client.gd` -/

/-- The body of a request. -/
structure Body where
  text : String
  profile : String
  conversationId : Option String

/-- `PersonaClient`. -/
structure PersonaClient where
  profile : String
  conversationId : String
  busy : Bool
  /-- The request that `_http` works on. -/
  inFlight : Option Body

/-- What it emits. -/
inductive Signal where
  | reply (text : String) (state : List (String × Json)) (cid : String)
  | failed (message : String)

/-- What `request_completed` tells. -/
structure Completion where
  result : ℕ
  code : ℕ
  /-- `JSON.parse_string` of the body, `null` if it is no JSON. -/
  data : Json

/-- `data.get(k, default)`. -/
def getOr (kvs : List (String × Json)) (k : String) (default : Json) : Json := (kvs.lookup k).getD default

/-- `String(v)`, which has a constructor for a text and for nothing else that JSON has. -/
def asText : Json → Option String
  | .str s => some s
  | _ => none

/-- Whether `float(v)` has a constructor. -/
def floats : Json → Bool
  | .bool _ | .int _ | .float _ | .str _ => true
  | _ => false

/-- `strip_edges`. -/
def stripEdges (s : String) : String :=
  let edge : Char → Bool := fun c => c.toNat ≤ 32
  String.ofList ((s.toList.dropWhile edge).rdropWhile edge)

namespace PersonaClient

/-- The body that `ask` makes of a text. -/
def body (c : PersonaClient) (text : String) : Body :=
  ⟨text, c.profile, if c.conversationId ≠ "" then some c.conversationId else none⟩

/-- `ask`; `err` is what `_http.request` returns. -/
def ask (c : PersonaClient) (text : String) (err : ℕ) : PersonaClient × Option Signal :=
  if c.busy then (c, some (.failed "busy"))
  else if err ≠ 0 then (c, some (.failed s!"request error {err}"))
  else ({ c with busy := true, inFlight := some (c.body text) }, none)

/-- `_on_completed`; it emits nothing where it stops with a script error. -/
def onCompleted (c : PersonaClient) (r : Completion) : PersonaClient × Option Signal :=
  let c := { c with busy := false, inFlight := none }
  if r.result ≠ 0 then (c, some (.failed s!"transport result {r.result} (is the EVO-X2 API reachable?)"))
  else if r.code ≠ 200 then (c, some (.failed s!"HTTP {r.code}"))
  else match r.data with
    | .obj kvs =>
      match asText (getOr kvs "conversation_id" (.str c.conversationId)) with
      | none => (c, none)
      | some cid =>
        let c := { c with conversationId := cid }
        match getOr kvs "state" (.obj []), asText (getOr kvs "text" (.str "")) with
        | .obj state, some text => (c, some (.reply text state cid))
        | _, _ => (c, none)
    | _ => (c, some (.failed "unexpected response (not JSON)"))

end PersonaClient

/-- The conversation id that an answer brings, or the one before it. -/
def Completion.conversationId (r : Completion) (cid : String) : String :=
  if r.result = 0 ∧ r.code = 200 then
    match r.data with
    | .obj kvs => (asText (getOr kvs "conversation_id" (.str cid))).getD cid
    | _ => cid
  else cid

/-! ### `main.gd` -/

/-- `_rec_thread`. -/
inductive RecThread where
  | none
  | alive
  /-- It has deferred `_on_transcript`. -/
  | ended (text : String)

/-- What `state_lbl` shows: a message, or the line that is made of a state. -/
inductive StateLine where
  | message (s : String)
  | state (state : List (String × Json))

/-- The window. -/
structure Main where
  client : PersonaClient
  /-- `input.text`. -/
  input : String
  /-- `reply_lbl.text`. -/
  replyLbl : String
  stateLbl : StateLine
  /-- `send_btn.disabled`. -/
  sendDisabled : Bool
  /-- `talk_btn.disabled`. -/
  talkDisabled : Bool
  recThread : RecThread
  voiceTurn : Bool
  /-- The state that was last given to `avatar.apply_state`. -/
  avatar : List (String × Json)
  /-- The texts that `persona_voice.py say` was started with, newest first. -/
  spoken : List String

namespace Main

variable (m : Main)

/-- `_set_status`. -/
def setStatus (msg : String) : Main := { m with stateLbl := .message msg }

/-- `_speak_aloud`; `voice` tells whether `_voice_py` finds the voice client. -/
def speakAloud (voice : Bool) (text : String) : Main :=
  if voice then { m with spoken := text :: m.spoken } else m.setStatus "voice client not found"

/-- `_on_reply`; `ticked` is `speak_chk.button_pressed`. It stops where `state_lbl` needs the `intensity` as a float. -/
def onReply (ticked voice : Bool) (text : String) (state : List (String × Json)) : Main :=
  let m := { m with sendDisabled := false, replyLbl := stripEdges text }
  if floats (getOr state "intensity" (.float (.fin 0))) then
    let m := { m with stateLbl := .state state, avatar := state }
    let m := if ticked || m.voiceTurn then m.speakAloud voice text else m
    { m with voiceTurn := false }
  else m

/-- `_on_failed`. -/
def onFailed (message : String) : Main :=
  { m with sendDisabled := false, voiceTurn := false }.setStatus ("error: " ++ message)

/-- What is connected to the client's signals. -/
def receive (ticked voice : Bool) : Option Signal → Main
  | some (.reply text state _) => m.onReply ticked voice text state
  | some (.failed message) => m.onFailed message
  | none => m

/-- `_send`. -/
def send (text : String) (err : ℕ) : Main :=
  let text := stripEdges text
  if text = "" ∨ m.client.busy = true then m
  else
    let m := { m with input := "", replyLbl := "...", stateLbl := .message "thinking...", sendDisabled := true }
    let (client, signal) := m.client.ask text err
    -- `ask` emits no reply, so neither box matters here
    { m with client := client }.receive false false signal

/-- `_on_completed` of the client, and what it is connected to. -/
def completed (r : Completion) (ticked voice : Bool) : Main :=
  let (client, signal) := m.client.onCompleted r
  { m with client := client }.receive ticked voice signal

/-- `_on_talk_pressed`. -/
def onTalkPressed (voice : Bool) : Main :=
  match m.client.busy, m.recThread with
  | true, _ => m
  | false, .alive => m
  | false, _ =>
    if voice then
      { m with talkDisabled := true, sendDisabled := true, recThread := .alive }.setStatus "listening... speak now, then pause"
    else m.setStatus "voice client not found -- run clients\\install.ps1"

/-- `_on_transcript`. -/
def onTranscript (text : String) (err : ℕ) : Main :=
  let m := { m with recThread := .none, talkDisabled := false, sendDisabled := false }
  if text = "" then m.setStatus "(no speech heard -- click Talk and try again)"
  else { m with voiceTurn := true }.send text err

/-- The window as it opens. -/
def start (profile apiBase : String) : Main where
  client := ⟨profile, "", false, none⟩
  input := ""
  replyLbl := "..."
  stateLbl := .message ("Connected to " ++ apiBase ++ " -- type a message and press Enter")
  sendDisabled := false
  talkDisabled := false
  recThread := .none
  voiceTurn := false
  avatar := []
  spoken := []

end Main

/-- `_talk_worker`: what it defers, of what `record-text` prints. -/
def talkWorker (voice : Bool) (out : Option String) : String :=
  if voice then out.elim "" stripEdges else ""

/-- The suggestions. -/
def chips : List String :=
  ["Greet me warmly!", "I got an error in my code.", "Tell me a fun fact.", "What is 17 times 23?"]

/-! ### A session -/

/-- What the client puts to the server, and what comes of it. -/
inductive Entry where
  /-- A request, and whether it came from the microphone. -/
  | asked (b : Body) (mic : Bool)
  /-- It is completed. -/
  | answered (r : Completion) (signal : Option Signal) (ticked voice : Bool)

/-- The window, and what the client put to the server, newest first. -/
structure Desk where
  main : Main
  log : List Entry

/-- What happens at the desk. -/
inductive Event where
  | typed (text : String)
  /-- Enter. -/
  | submit (err : ℕ)
  | sendPressed (err : ℕ)
  | chip (prompt : String) (err : ℕ)
  | talkPressed (voice : Bool)
  /-- `_talk_worker` ends. -/
  | heard (voice : Bool) (out : Option String)
  /-- `_on_transcript` is called. -/
  | transcript (err : ℕ)
  | completed (r : Completion) (ticked voice : Bool)

namespace Desk

/-- What the window does, with the request it puts if it puts one. -/
def put (d : Desk) (m : Main) (mic : Bool) : Desk where
  main := m
  log := match d.main.client.inFlight, m.client.inFlight with
    | none, some b => .asked b mic :: d.log
    | _, _ => d.log

@[simp] theorem main_put (d : Desk) (m : Main) (mic : Bool) : (d.put m mic).main = m := rfl

/-- The steps. -/
inductive Step (d : Desk) : Event → Desk → Prop
  | typed {text} : Step d (.typed text) { d with main := { d.main with input := text } }
  | submit {err} : Step d (.submit err) (d.put (d.main.send d.main.input err) false)
  | sendPressed {err} (h : d.main.sendDisabled = false) :
      Step d (.sendPressed err) (d.put (d.main.send d.main.input err) false)
  | chip {prompt err} (h : prompt ∈ chips) : Step d (.chip prompt err) (d.put (d.main.send prompt err) false)
  | talkPressed {voice} (h : d.main.talkDisabled = false) :
      Step d (.talkPressed voice) { d with main := d.main.onTalkPressed voice }
  | heard {voice out} (h : d.main.recThread = .alive) :
      Step d (.heard voice out) { d with main := { d.main with recThread := .ended (talkWorker voice out) } }
  | transcript {text err} (h : d.main.recThread = .ended text) :
      Step d (.transcript err) (d.put (d.main.onTranscript text err) true)
  | completed {b r ticked voice} (h : d.main.client.inFlight = some b) :
      Step d (.completed r ticked voice)
        ⟨d.main.completed r ticked voice, .answered r (d.main.client.onCompleted r).2 ticked voice :: d.log⟩

/-- The desk as the window opens. -/
def start (profile apiBase : String) : Desk := ⟨Main.start profile apiBase, []⟩

end Desk

/-- The conversation id that the answers of a session have brought. -/
def lastId : List Entry → String
  | [] => ""
  | .asked .. :: l => lastId l
  | .answered r .. :: l => r.conversationId (lastId l)

/-- The request that has no answer yet, and whether it came from the microphone. -/
def pending : List Entry → Option (Body × Bool)
  | .asked b mic :: _ => some (b, mic)
  | _ => none

/-- A session: every message is answered before the next is put, and goes out with the conversation id that the answers
before it brought. -/
inductive Exchanges (profile : String) : List Entry → Prop
  | nil : Exchanges profile []
  | asked {l : List Entry} {b : Body} {mic : Bool} (h : Exchanges profile l) (hpending : pending l = none)
      (htext : b.text ≠ "") (hprofile : b.profile = profile)
      (hid : b.conversationId = if lastId l ≠ "" then some (lastId l) else none) : Exchanges profile (.asked b mic :: l)
  | answered {l : List Entry} {r : Completion} {signal : Option Signal} {ticked voice : Bool} (h : Exchanges profile l)
      (hpending : pending l ≠ none) : Exchanges profile (.answered r signal ticked voice :: l)

/-- What has to be said aloud: the reply to a message that came from the microphone, and one that comes while `Speak` is
ticked, if the voice client is there when it comes. -/
def aloud : List Entry → List String
  | [] => []
  | .asked .. :: l => aloud l
  | .answered _ (some (.reply text ..)) ticked voice :: l =>
    if (ticked || ((pending l).elim false (·.2))) && voice then text :: aloud l else aloud l
  | .answered .. :: l => aloud l

/-! ### What each handler does -/

namespace PersonaClient

/-- However a request is completed, the client takes the next one. -/
theorem onCompleted_fst (c : PersonaClient) (r : Completion) :
    (c.onCompleted r).1 =
      { c with busy := false, inFlight := none, conversationId := r.conversationId c.conversationId } := by
  unfold onCompleted Completion.conversationId
  by_cases hresult : r.result = 0
  · by_cases hcode : r.code = 200
    · rw [if_neg (not_not.mpr hresult), if_neg (not_not.mpr hcode), if_pos ⟨hresult, hcode⟩]
      cases r.data with
      | obj kvs =>
        dsimp only
        cases asText (getOr kvs "conversation_id" (.str c.conversationId)) with
        | none => rfl
        | some cid =>
          dsimp only
          split <;> rfl
      | _ => rfl
    · rw [if_neg (not_not.mpr hresult), if_pos hcode, if_neg fun h => hcode h.2]
  · rw [if_pos hresult, if_neg fun h => hresult h.1]

end PersonaClient

namespace Main

variable {m : Main} {text : String} {err : ℕ}

/-- What a request leaves of the window. -/
def asked (m : Main) (text : String) : Main :=
  { m with
    client := { m.client with busy := true, inFlight := some (m.client.body (stripEdges text)) }
    input := ""
    replyLbl := "..."
    stateLbl := .message "thinking..."
    sendDisabled := true }

/-- What a request that `_http` refuses leaves of the window. -/
def refused (m : Main) (err : ℕ) : Main :=
  { m with
    input := ""
    replyLbl := "..."
    stateLbl := .message ("error: " ++ s!"request error {err}")
    sendDisabled := false
    voiceTurn := false }

/-- What `_send` does. -/
theorem send_cases (m : Main) (text : String) (err : ℕ) :
    ((stripEdges text = "" ∨ m.client.busy = true) ∧ m.send text err = m) ∨
      ((stripEdges text ≠ "" ∧ m.client.busy = false ∧ err ≠ 0) ∧ m.send text err = m.refused err) ∨
      ((stripEdges text ≠ "" ∧ m.client.busy = false ∧ err = 0) ∧ m.send text err = m.asked text) := by
  unfold send PersonaClient.ask
  by_cases hidle : stripEdges text = "" ∨ m.client.busy = true
  · exact .inl ⟨hidle, if_pos hidle⟩
  · obtain ⟨htext, hbusy⟩ := not_or.mp hidle
    have hfree : m.client.busy = false := eq_false_of_ne_true hbusy
    right
    by_cases herr : err = 0
    · right
      refine ⟨⟨htext, hfree, herr⟩, ?_⟩
      simp only [htext, hfree, or_self, Bool.false_eq_true, if_false, herr, ne_eq, not_true_eq_false]
      rfl
    · left
      refine ⟨⟨htext, hfree, herr⟩, ?_⟩
      simp only [htext, hfree, or_self, Bool.false_eq_true, if_false, herr, ne_eq, not_false_eq_true, if_true]
      rfl

/-- The window while the microphone records. -/
def listening (m : Main) : Main :=
  { m with
    talkDisabled := true
    sendDisabled := true
    recThread := .alive
    stateLbl := .message "listening... speak now, then pause" }

/-- What `_on_talk_pressed` does. -/
theorem onTalkPressed_cases (m : Main) (voice : Bool) :
    (∃ s, m.onTalkPressed voice = { m with stateLbl := s }) ∨ (m.client.busy = false ∧ m.onTalkPressed voice = m.listening) := by
  unfold onTalkPressed
  split
  · exact .inl ⟨m.stateLbl, rfl⟩
  · exact .inl ⟨m.stateLbl, rfl⟩
  · next hbusy _ =>
    split_ifs
    · exact .inr ⟨hbusy, rfl⟩
    · exact .inl ⟨_, rfl⟩

/-- What a recording in which nobody speaks leaves of the window. -/
def unheard (m : Main) : Main :=
  { m with
    recThread := .none
    talkDisabled := false
    sendDisabled := false
    stateLbl := .message "(no speech heard -- click Talk and try again)" }

/-- The window as it puts the words of a recording. -/
def spokenTo (m : Main) : Main :=
  { m with recThread := .none, talkDisabled := false, sendDisabled := false, voiceTurn := true }

/-- What `_on_transcript` does. -/
theorem onTranscript_cases (m : Main) (text : String) (err : ℕ) :
    (text = "" ∧ m.onTranscript text err = m.unheard) ∨
      (text ≠ "" ∧ m.onTranscript text err = m.spokenTo.send text err) := by
  by_cases htext : text = ""
  · left
    exact ⟨htext, if_pos htext⟩
  · right
    exact ⟨htext, if_neg htext⟩

/-- What `_speak_aloud` leaves alone. -/
theorem speakAloud_fields (m : Main) (voice : Bool) (text : String) :
    (m.speakAloud voice text).client = m.client ∧ (m.speakAloud voice text).recThread = m.recThread ∧
      (m.speakAloud voice text).talkDisabled = m.talkDisabled ∧ (m.speakAloud voice text).sendDisabled = m.sendDisabled := by
  unfold speakAloud
  split_ifs
  · exact ⟨rfl, rfl, rfl, rfl⟩
  · exact ⟨rfl, rfl, rfl, rfl⟩

/-- What the handlers of the signals leave alone, and what they do to `Send`. -/
theorem receive_fields (m : Main) (ticked voice : Bool) (signal : Option Signal) :
    (m.receive ticked voice signal).client = m.client ∧ (m.receive ticked voice signal).recThread = m.recThread ∧
      (m.receive ticked voice signal).talkDisabled = m.talkDisabled ∧
      (m.receive ticked voice signal).sendDisabled = (m.sendDisabled && signal.isNone) := by
  match signal with
  | none => exact ⟨rfl, rfl, rfl, (Bool.and_true _).symm⟩
  | some (.failed message) => exact ⟨rfl, rfl, rfl, (Bool.and_false _).symm⟩
  | some (.reply text state cid) =>
    rw [receive, onReply]
    dsimp only [Option.isNone_some]
    rw [Bool.and_false]
    split_ifs
    · obtain ⟨hclient, hrec, htalk, hsend⟩ := speakAloud_fields { m with
        sendDisabled := false
        replyLbl := stripEdges text
        stateLbl := .state state
        avatar := state } voice text
      exact ⟨hclient, hrec, htalk, hsend⟩
    · exact ⟨rfl, rfl, rfl, rfl⟩
    · exact ⟨rfl, rfl, rfl, rfl⟩

end Main

/-! ### One request at a time -/

section Exchanges

variable {profile : String} {d d' : Desk} {e : Event}

/-- The client is as the log says. -/
structure Linked (profile : String) (c : PersonaClient) (l : List Entry) : Prop where
  busy : c.busy = c.inFlight.isSome
  inFlight : c.inFlight = (pending l).map Prod.fst
  id : c.conversationId = lastId l
  log : Exchanges profile l
  owner : c.profile = profile

theorem Desk.log_put_of_client {m : Main} (h : m.client = d.main.client) (mic : Bool) : (d.put m mic).log = d.log := by
  rw [put, h]
  cases d.main.client.inFlight with
  | none => rfl
  | some b => rfl

theorem Desk.log_put_of_asked {m : Main} {b : Body} (h : d.main.client.inFlight = none) (hm : m.client.inFlight = some b)
    (mic : Bool) : (d.put m mic).log = .asked b mic :: d.log := by
  rw [put, h, hm]

/-- A step that is no answer puts a request, or none. -/
theorem Desk.log_of_step (hstep : d.Step e d') (he : ∀ r ticked voice, e ≠ .completed r ticked voice) :
    d'.log = d.log ∨ ∃ b mic, d'.log = .asked b mic :: d.log := by
  have hput : ∀ m mic, (d.put m mic).log = d.log ∨ ∃ b mic', (d.put m mic).log = .asked b mic' :: d.log := by
    intro m mic
    unfold put
    dsimp only
    split
    · next b _ _ => exact .inr ⟨b, mic, rfl⟩
    · exact .inl rfl
  cases hstep with
  | typed => exact .inl rfl
  | submit => exact hput _ _
  | sendPressed => exact hput _ _
  | chip => exact hput _ _
  | talkPressed => exact .inl rfl
  | heard => exact .inl rfl
  | transcript => exact hput _ _
  | completed => exact absurd rfl (he _ _ _)

/-- What the request that waits for its answer carries. -/
theorem Exchanges.pending_id {l : List Entry} (h : Exchanges profile l) {b : Body} {mic : Bool} (hb : pending l = some (b, mic)) :
    b.conversationId = if lastId l ≠ "" then some (lastId l) else none := by
  cases h with
  | nil => cases hb
  | asked _ _ _ _ hid =>
    obtain ⟨rfl, rfl⟩ := Prod.mk.inj (Option.some.inj hb)
    exact hid
  | answered => cases hb

/-- A message is put, or not. -/
theorem Linked.send (h : Linked profile d.main.client d.log) {m : Main} (hm : m.client = d.main.client) (text : String)
    (err : ℕ) (mic : Bool) : Linked profile (m.send text err).client (d.put (m.send text err) mic).log := by
  rcases m.send_cases text err with ⟨-, heq⟩ | ⟨-, heq⟩ | ⟨⟨htext, hbusy, -⟩, heq⟩
  · rw [heq, Desk.log_put_of_client hm, hm]
    exact h
  · have hclient : (m.refused err).client = d.main.client := hm
    rw [heq, Desk.log_put_of_client hclient, hclient]
    exact h
  · have hnone : d.main.client.inFlight = none := by
      rw [hm, h.busy] at hbusy
      exact Option.not_isSome_iff_eq_none.mp (Bool.eq_false_iff.mp hbusy)
    have hpending : pending d.log = none := Option.map_eq_none_iff.mp (h.inFlight.symm.trans hnone)
    have hlog : (d.put (m.asked text) mic).log = .asked (m.client.body (stripEdges text)) mic :: d.log :=
      Desk.log_put_of_asked hnone rfl mic
    rw [heq, hlog]
    have howner : m.client.profile = profile := by rw [hm, h.owner]
    refine ⟨rfl, rfl, ?_, h.log.asked hpending htext howner ?_, howner⟩
    · show m.client.conversationId = lastId d.log
      rw [hm, h.id]
    · show (if m.client.conversationId ≠ "" then some m.client.conversationId else none) = _
      rw [hm, h.id]

/-- What a step does to the client. -/
theorem Linked.step (h : Linked profile d.main.client d.log) (hstep : d.Step e d') :
    Linked profile d'.main.client d'.log := by
  cases hstep with
  | typed => exact h
  | submit =>
    rw [Desk.main_put]
    exact h.send rfl _ _ _
  | sendPressed =>
    rw [Desk.main_put]
    exact h.send rfl _ _ _
  | chip =>
    rw [Desk.main_put]
    exact h.send rfl _ _ _
  | @talkPressed voice =>
    have hclient : (d.main.onTalkPressed voice).client = d.main.client := by
      rcases d.main.onTalkPressed_cases voice with ⟨s, heq⟩ | ⟨-, heq⟩
      · rw [heq]
      · rw [heq]
        rfl
    show Linked profile (d.main.onTalkPressed voice).client d.log
    rw [hclient]
    exact h
  | heard => exact h
  | @transcript text err =>
    rw [Desk.main_put]
    rcases d.main.onTranscript_cases text err with ⟨-, heq⟩ | ⟨-, heq⟩
    · have hclient : d.main.unheard.client = d.main.client := rfl
      rw [heq, Desk.log_put_of_client hclient, hclient]
      exact h
    · have hclient : d.main.spokenTo.client = d.main.client := rfl
      rw [heq]
      exact h.send hclient text err true
  | @completed b r ticked voice hb =>
    have hpending : pending d.log ≠ none := by
      intro hnone
      rw [h.inFlight, hnone] at hb
      cases hb
    show Linked profile (d.main.completed r ticked voice).client _
    rw [Main.completed]
    rw [(Main.receive_fields _ ticked voice _).1]
    dsimp only
    rw [PersonaClient.onCompleted_fst]
    refine ⟨rfl, rfl, ?_, h.log.answered hpending, h.owner⟩
    show r.conversationId d.main.client.conversationId = r.conversationId (lastId d.log)
    rw [h.id]

/-- The buttons are as the rest of the window says. -/
structure Buttons (m : Main) (l : List Entry) : Prop where
  talk : m.talkDisabled = true ↔ m.recThread ≠ .none
  /-- `Send` waits for an answer or the microphone, or the last answer stopped its handler. -/
  send : m.sendDisabled = true →
    m.client.busy = true ∨ m.recThread ≠ .none ∨ ∃ r ticked voice l', l = .answered r none ticked voice :: l'

theorem Buttons.send_put {m : Main} (h : Buttons m d.log) (hm : m.client = d.main.client) (text : String) (err : ℕ)
    (mic : Bool) : Buttons (m.send text err) (d.put (m.send text err) mic).log := by
  rcases m.send_cases text err with ⟨-, heq⟩ | ⟨-, heq⟩ | ⟨-, heq⟩
  · rw [heq, Desk.log_put_of_client hm]
    exact h
  · rw [heq]
    exact ⟨h.talk, fun hsend => absurd hsend Bool.false_ne_true⟩
  · rw [heq]
    exact ⟨h.talk, fun _ => .inl rfl⟩

/-- What a step does to the buttons. -/
theorem Buttons.step (h : Buttons d.main d.log) (hstep : d.Step e d') : Buttons d'.main d'.log := by
  cases hstep with
  | typed => exact ⟨h.talk, h.send⟩
  | submit =>
    rw [Desk.main_put]
    exact h.send_put rfl _ _ _
  | sendPressed =>
    rw [Desk.main_put]
    exact h.send_put rfl _ _ _
  | chip =>
    rw [Desk.main_put]
    exact h.send_put rfl _ _ _
  | @talkPressed voice =>
    show Buttons (d.main.onTalkPressed voice) d.log
    have hrec : RecThread.alive ≠ .none := nofun
    rcases d.main.onTalkPressed_cases voice with ⟨s, heq⟩ | ⟨-, heq⟩
    · rw [heq]
      exact ⟨h.talk, h.send⟩
    · rw [heq]
      exact ⟨⟨fun _ => hrec, fun _ => rfl⟩, fun _ => .inr (.inl hrec)⟩
  | @heard voice out hrec =>
    have hended : RecThread.ended (talkWorker voice out) ≠ .none := nofun
    have htalk : d.main.talkDisabled = true := by
      apply h.talk.mpr
      rw [hrec]
      nofun
    exact ⟨⟨fun _ => hended, fun _ => htalk⟩, fun _ => .inr (.inl hended)⟩
  | @transcript text err =>
    rw [Desk.main_put]
    have htalk : (false = true) ↔ RecThread.none ≠ .none := ⟨nofun, fun hne => absurd rfl hne⟩
    rcases d.main.onTranscript_cases text err with ⟨-, heq⟩ | ⟨-, heq⟩
    · rw [heq]
      exact ⟨htalk, fun hsend => absurd hsend Bool.false_ne_true⟩
    · have hspoken : Buttons d.main.spokenTo d.log := ⟨htalk, fun hsend => absurd hsend Bool.false_ne_true⟩
      have hclient : d.main.spokenTo.client = d.main.client := rfl
      rw [heq]
      exact hspoken.send_put hclient text err true
  | @completed b r ticked voice hb =>
    show Buttons (d.main.completed r ticked voice) (.answered r (d.main.client.onCompleted r).2 ticked voice :: d.log)
    rw [Main.completed]
    obtain ⟨-, hrec, htalk, hsend⟩ := Main.receive_fields
      { d.main with client := (d.main.client.onCompleted r).1 } ticked voice (d.main.client.onCompleted r).2
    refine ⟨?_, fun hdisabled => .inr (.inr ⟨r, ticked, voice, d.log, ?_⟩)⟩
    · dsimp only
      rw [htalk, hrec]
      exact h.talk
    · have hnone : (d.main.client.onCompleted r).2 = none := by
        dsimp only at hdisabled
        rw [hsend, Bool.and_eq_true] at hdisabled
        exact Option.isNone_iff_eq_none.mp hdisabled.2
      rw [hnone]

/-- **A session.** In every run of the desk each message is answered before the next one is put, and goes out with the
conversation id that the answers before it brought; the window is busy while a message has no answer; `Talk` is disabled
while the microphone records, and `Send` only while there is something to wait for, or after an answer that stops its
handler. Enter puts a line that is not blank whenever no message waits for its answer and the request is accepted. -/
theorem exchanges_of_run {apiBase : String} {es : List Event} (h : Run Desk.Step (.start profile apiBase) es d) :
    Exchanges profile d.log ∧ d.main.client.inFlight = (pending d.log).map Prod.fst ∧
      d.main.client.busy = (pending d.log).isSome ∧ Buttons d.main d.log ∧
      ∀ d', pending d.log = none → stripEdges d.main.input ≠ "" → d.Step (.submit 0) d' →
        pending d'.log = some (d.main.client.body (stripEdges d.main.input), false) := by
  obtain ⟨hl, hb⟩ : Linked profile d.main.client d.log ∧ Buttons d.main d.log := by
    refine h.inv (I := fun d => Linked profile d.main.client d.log ∧ Buttons d.main d.log)
      (fun _ _ _ hI hstep => ⟨hI.1.step hstep, hI.2.step hstep⟩) ⟨⟨rfl, rfl, rfl, .nil, rfl⟩, ?_⟩
    exact ⟨⟨nofun, fun hne => absurd rfl hne⟩, nofun⟩
  have hbusy : d.main.client.busy = (pending d.log).isSome := by rw [hl.busy, hl.inFlight, Option.isSome_map]
  refine ⟨hl.log, hl.inFlight, hbusy, hb, fun d' hpending htext hstep => ?_⟩
  cases hstep with
  | submit =>
    have hfree : d.main.client.busy = false := by
      rw [hbusy, hpending]
      rfl
    have hnone : d.main.client.inFlight = none := by
      rw [hl.inFlight, hpending]
      rfl
    rcases d.main.send_cases d.main.input 0 with ⟨hidle, -⟩ | ⟨⟨-, -, herr⟩, -⟩ | ⟨-, heq⟩
    · rcases hidle with hempty | hbusy'
      · exact absurd hempty htext
      · exact absurd (hfree.symm.trans hbusy') Bool.false_ne_true
    · exact absurd rfl herr
    · rw [heq, Desk.log_put_of_asked hnone rfl]
      rfl

/-- An answer of the server. -/
def hello : Completion :=
  ⟨0, 200, .obj [("text", .str "Hello."), ("conversation_id", .str "c1"), ("state", .obj [("emotion", .str "happy")])]⟩

/-- A message is spoken, answered, and another one typed. -/
def evening : List Event :=
  [.talkPressed true, .heard true (some " Good evening.\n"), .transcript 0, .completed hello false true, .typed "And you?",
    .submit 0]

theorem exchanges_of_run_evening :
    ∃ d, Run Desk.Step (.start "default" "http://localhost:8000") evening d ∧ Exchanges "default" d.log ∧
      pending d.log = some (⟨"And you?", "default", some "c1"⟩, false) ∧ d.main.client.busy = true := by
  have hrun : ∃ d, Run Desk.Step (.start "default" "http://localhost:8000") evening d ∧
      pending d.log = some (⟨"And you?", "default", some "c1"⟩, false) :=
    ⟨_, .cons (.talkPressed rfl) (.cons (.heard rfl) (.cons (.transcript rfl) (.cons (.completed rfl)
      (.cons .typed (.cons .submit .nil))))), rfl⟩
  obtain ⟨d, h, hpending⟩ := hrun
  obtain ⟨hlog, -, hbusy, -⟩ := exchanges_of_run h
  rw [hpending] at hbusy
  exact ⟨d, h, hlog, hpending, hbusy⟩

end Exchanges

/-! ### Voice in, voice out -/

section Voice

variable {profile : String} {d d' : Desk} {e : Event}

/-- A handler that runs to its end. -/
def Handled : Option Signal → Prop
  | none => False
  | some (.failed _) => True
  | some (.reply _ state _) => floats (getOr state "intensity" (.float (.fin 0))) = true

/-- Neither Enter nor a suggestion is pressed while the microphone records, and no answer stops its handler. -/
def Attentive (d : Desk) : Event → Prop
  | .submit _ => d.main.recThread = .none
  | .chip .. => d.main.recThread = .none
  | .completed r .. => Handled (d.main.client.onCompleted r).2
  | _ => True

/-- What is left has no edge to strip in front. -/
theorem dropWhile_rdropWhile_dropWhile (p : Char → Bool) (cs : List Char) :
    ((cs.dropWhile p).rdropWhile p).dropWhile p = (cs.dropWhile p).rdropWhile p := by
  obtain ⟨rest, hrest⟩ := List.rdropWhile_prefix p (cs.dropWhile p)
  have hhead := List.head?_dropWhile_not p cs
  generalize (cs.dropWhile p).rdropWhile p = ds at hrest ⊢
  cases ds with
  | nil => rfl
  | cons c ds =>
    rw [← hrest] at hhead
    have hc : p c = false := hhead
    exact List.dropWhile_cons_of_neg (by rw [hc]; exact Bool.false_ne_true)

theorem stripEdges_stripEdges (s : String) : stripEdges (stripEdges s) = stripEdges s := by
  unfold stripEdges
  dsimp only
  rw [String.toList_ofList, dropWhile_rdropWhile_dropWhile, List.rdropWhile_idempotent]

theorem stripEdges_talkWorker (voice : Bool) (out : Option String) :
    stripEdges (talkWorker voice out) = talkWorker voice out := by
  unfold talkWorker
  split_ifs
  · cases out with
    | none => rfl
    | some s => exact stripEdges_stripEdges s
  · rfl

/-- What is said aloud is what has to be. -/
structure Voiced (m : Main) (l : List Entry) : Prop where
  spoken : m.spoken = aloud l
  turn : m.voiceTurn = (pending l).elim false (·.2)
  /-- The microphone records alone. -/
  alone : m.recThread ≠ .none → m.client.busy = false ∧ m.sendDisabled = true
  stripped : ∀ text, m.recThread = .ended text → stripEdges text = text

theorem Linked.pending_eq_none (h : Linked profile d.main.client d.log) (hbusy : d.main.client.busy = false) :
    pending d.log = none := by
  rw [h.busy, h.inFlight, Option.isSome_map] at hbusy
  exact Option.not_isSome_iff_eq_none.mp (Bool.eq_false_iff.mp hbusy)

/-- A message is put, or not. -/
theorem Voiced.send_put (hl : Linked profile d.main.client d.log) {m : Main} (hm : m.client = d.main.client) {text : String}
    {err : ℕ} {mic : Bool} (hspoken : m.spoken = aloud d.log) (hrec : m.recThread = .none)
    (hkept : stripEdges text = "" ∨ m.client.busy = true → m.voiceTurn = (pending d.log).elim false (·.2))
    (hput : m.client.busy = false → m.voiceTurn = mic) : Voiced (m.send text err) (d.put (m.send text err) mic).log := by
  have halone : ∀ {p : Prop}, m.recThread ≠ .none → p := fun hne => absurd hrec hne
  have hstripped : ∀ text, m.recThread = .ended text → stripEdges text = text := by
    intro text htext
    rw [hrec] at htext
    cases htext
  rcases m.send_cases text err with ⟨hidle, heq⟩ | ⟨⟨-, hbusy, -⟩, heq⟩ | ⟨⟨-, hbusy, -⟩, heq⟩
  · rw [heq, Desk.log_put_of_client hm]
    exact ⟨hspoken, hkept hidle, halone, hstripped⟩
  · have hclient : (m.refused err).client = d.main.client := hm
    rw [heq, Desk.log_put_of_client hclient]
    rw [hm] at hbusy
    refine ⟨hspoken, ?_, halone, hstripped⟩
    rw [hl.pending_eq_none hbusy]
    rfl
  · have hnone : d.main.client.inFlight = none := by
      rw [hl.inFlight, hl.pending_eq_none (hm ▸ hbusy)]
      rfl
    have hlog : (d.put (m.asked text) mic).log = .asked (m.client.body (stripEdges text)) mic :: d.log :=
      Desk.log_put_of_asked hnone rfl mic
    rw [heq, hlog]
    exact ⟨hspoken, hput hbusy, halone, hstripped⟩

/-- What the handlers of a completion say aloud, if they run to their end. -/
theorem Voiced.receive {m : Main} {l : List Entry} {signal : Option Signal} (h : Voiced m l) (hhandled : Handled signal)
    (hrec : m.recThread = .none) (r : Completion) (ticked voice : Bool) :
    Voiced (m.receive ticked voice signal) (.answered r signal ticked voice :: l) := by
  have hrec' : (m.receive ticked voice signal).recThread = .none := by
    rw [(Main.receive_fields m ticked voice signal).2.1, hrec]
  suffices hends : (m.receive ticked voice signal).spoken = aloud (.answered r signal ticked voice :: l) ∧
      (m.receive ticked voice signal).voiceTurn = false by
    refine ⟨hends.1, hends.2, fun hne => absurd hrec' hne, fun text htext => ?_⟩
    rw [hrec'] at htext
    cases htext
  match signal with
  | some (.failed message) => exact ⟨h.spoken, rfl⟩
  | some (.reply text state cid) =>
    rw [Main.receive, Main.onReply]
    dsimp only
    have hfloats : floats (getOr state "intensity" (.float (.fin 0))) = true := hhandled
    rw [if_pos hfloats, aloud, ← h.turn, ← h.spoken]
    cases ticked || m.voiceTurn with
    | false => exact ⟨rfl, rfl⟩
    | true =>
      cases voice with
      | false => exact ⟨rfl, rfl⟩
      | true => exact ⟨rfl, rfl⟩

/-- What an attentive step says aloud. -/
theorem Voiced.step (hl : Linked profile d.main.client d.log) (h : Voiced d.main d.log) (hok : Attentive d e)
    (hstep : d.Step e d') : Voiced d'.main d'.log := by
  have hquiet : d.main.client.busy = false → d.main.voiceTurn = false := by
    intro hbusy
    rw [h.turn, hl.pending_eq_none hbusy]
    rfl
  cases hstep with
  | typed => exact ⟨h.spoken, h.turn, h.alone, h.stripped⟩
  | @submit err =>
    have hrec : d.main.recThread = .none := hok
    rw [Desk.main_put]
    exact send_put hl rfl h.spoken hrec (fun _ => h.turn) hquiet
  | @sendPressed err hsend =>
    have hrec : d.main.recThread = .none := by
      by_contra hne
      rw [(h.alone hne).2] at hsend
      cases hsend
    rw [Desk.main_put]
    exact send_put hl rfl h.spoken hrec (fun _ => h.turn) hquiet
  | @chip prompt err =>
    have hrec : d.main.recThread = .none := hok
    rw [Desk.main_put]
    exact send_put hl rfl h.spoken hrec (fun _ => h.turn) hquiet
  | @talkPressed voice =>
    show Voiced (d.main.onTalkPressed voice) d.log
    rcases d.main.onTalkPressed_cases voice with ⟨s, heq⟩ | ⟨hbusy, heq⟩
    · rw [heq]
      exact ⟨h.spoken, h.turn, h.alone, h.stripped⟩
    · rw [heq]
      exact ⟨h.spoken, h.turn, fun _ => ⟨hbusy, rfl⟩, nofun⟩
  | @heard voice out hrec =>
    have hne : d.main.recThread ≠ .none := by
      rw [hrec]
      nofun
    refine ⟨h.spoken, h.turn, fun _ => h.alone hne, fun text htext => ?_⟩
    obtain rfl := RecThread.ended.inj htext
    exact stripEdges_talkWorker voice out
  | @transcript text err hrec =>
    rw [Desk.main_put]
    have hne : d.main.recThread ≠ .none := by
      rw [hrec]
      nofun
    rcases d.main.onTranscript_cases text err with ⟨-, heq⟩ | ⟨htext, heq⟩
    · have hclient : d.main.unheard.client = d.main.client := rfl
      rw [heq, Desk.log_put_of_client hclient]
      exact ⟨h.spoken, h.turn, fun hne => absurd rfl hne, nofun⟩
    · have hclient : d.main.spokenTo.client = d.main.client := rfl
      rw [heq]
      -- nothing else is under way, so the words are put
      refine send_put hl hclient h.spoken rfl (fun hidle => ?_) fun _ => rfl
      rw [h.stripped text hrec, hclient, (h.alone hne).1] at hidle
      rcases hidle with hempty | hbusy
      · exact absurd hempty htext
      · exact absurd hbusy Bool.false_ne_true
  | @completed b r ticked voice hb =>
    have hrec : d.main.recThread = .none := by
      by_contra hne
      have hbusy := (h.alone hne).1
      rw [hl.busy, hb] at hbusy
      cases hbusy
    show Voiced (d.main.completed r ticked voice) _
    rw [Main.completed]
    exact Voiced.receive (m := { d.main with client := (d.main.client.onCompleted r).1 })
      ⟨h.spoken, h.turn, fun hne => absurd hrec hne, h.stripped⟩ hok hrec r ticked voice

/-- **Voice in, voice out.** If neither Enter nor a suggestion is pressed while the microphone records, and no answer stops
its handler, then what is said aloud is the replies to what was spoken and the replies that came while `Speak` was ticked,
but for those that did not find the voice client, each once and in order; and the words of a recording are put to the
server, if the request is accepted. -/
theorem spoken_of_run {apiBase : String} {es : List Event} (h : Run (Guarded Attentive Desk.Step) (.start profile apiBase) es d) :
    d.main.spoken = aloud d.log ∧
      ∀ text d', d.main.recThread = .ended text → text ≠ "" → d.Step (.transcript 0) d' →
        ∃ b, b.text = text ∧ d'.log = .asked b true :: d.log := by
  obtain ⟨hl, hv⟩ : Linked profile d.main.client d.log ∧ Voiced d.main d.log := by
    refine h.inv (I := fun d => Linked profile d.main.client d.log ∧ Voiced d.main d.log)
      (fun _ _ _ hI hstep => ⟨hI.1.step hstep.2, hI.2.step hI.1 hstep.1 hstep.2⟩) ⟨⟨rfl, rfl, rfl, .nil, rfl⟩, ?_⟩
    exact ⟨rfl, rfl, fun hne => absurd rfl hne, nofun⟩
  refine ⟨hv.spoken, fun text d' hrec htext hstep => ?_⟩
  cases hstep with
  | @transcript text' _ hrec' =>
    obtain rfl := RecThread.ended.inj (hrec.symm.trans hrec')
    have hbusy : d.main.client.busy = false := by
      apply (hv.alone _).1
      rw [hrec]
      nofun
    have hnone : d.main.client.inFlight = none := by
      rw [hl.inFlight, hl.pending_eq_none hbusy]
      rfl
    refine ⟨d.main.client.body (stripEdges text), hv.stripped text hrec, ?_⟩
    rcases d.main.onTranscript_cases text 0 with ⟨hempty, -⟩ | ⟨-, heq⟩
    · exact absurd hempty htext
    · rcases d.main.spokenTo.send_cases text 0 with ⟨hidle, -⟩ | ⟨⟨-, -, herr⟩, -⟩ | ⟨-, hasked⟩
      · rw [hv.stripped text hrec] at hidle
        rcases hidle with hempty | hbusy'
        · exact absurd hempty htext
        · exact absurd (hbusy.symm.trans hbusy') Bool.false_ne_true
      · exact absurd rfl herr
      · rw [heq, hasked]
        exact Desk.log_put_of_asked hnone rfl true

theorem spoken_of_run_evening :
    ∃ d, Run (Guarded Attentive Desk.Step) (.start "default" "http://localhost:8000") evening d ∧ d.main.spoken = ["Hello."] := by
  have hrun : ∃ d, Run (Guarded Attentive Desk.Step) (.start "default" "http://localhost:8000") evening d ∧
      aloud d.log = ["Hello."] :=
    ⟨_, .cons ⟨trivial, .talkPressed rfl⟩ (.cons ⟨trivial, .heard rfl⟩ (.cons ⟨trivial, .transcript rfl⟩
      (.cons ⟨rfl, .completed rfl⟩ (.cons ⟨trivial, .typed⟩ (.cons ⟨rfl, .submit⟩ .nil))))), rfl⟩
  obtain ⟨d, h, haloud⟩ := hrun
  exact ⟨d, h, (spoken_of_run h).1.trans haloud⟩

end Voice

end Persona.Client
