import Persona.Client.Desktop
import Mathlib.Tactic.Linarith

/-!
# The ship's computer

`ship_ai.gd` of `clients/godot`: `T` records one message, which is put to the client; the reply is shown, spoken, and the
orb goes back to `idle` when it should be over. One flag, `_busy`, keeps a second turn from beginning.

`phase_of_run` says that the flag, the orb, the microphone and the client always agree, in one of four phases, and that
the fourth, in which nothing is under way and yet `T` does nothing, is entered exactly by an answer that stops the handler
of the client, for good. In `main.gd` such an answer costs a disabled button.

The head-up display is left out, and so is the focus of a panel, while which `T` is typed.
-/

namespace Persona.Client

open Persona.Lib

/-! ### `ship_ai.gd` -/

/-- `_state`. -/
inductive ShipState where
  | idle
  | listening
  | thinking
  | speaking
  | error

/-- The ship's computer. -/
structure ShipAi where
  client : PersonaClient
  state : ShipState
  /-- `_t`, in seconds. -/
  t : ℚ
  busy : Bool
  recThread : RecThread
  speakUntil : ℚ
  status : String
  subtitle : String
  /-- The texts that `persona_voice.py say` was started with, newest first. -/
  spoken : List String

/-- `_speak_seconds`. -/
def speakSeconds (text : String) : ℚ :=
  let words := ((text.toList.splitOn ' ').filter (· ≠ [])).length
  max (8 / 10) (min 16 (words * (34 / 100) + 6 / 10))

namespace ShipAi

variable (s : ShipAi)

/-- `_process`. -/
def process (delta : ℚ) : ShipAi :=
  let s := { s with t := s.t + delta }
  match s.state with
  | .speaking => if s.speakUntil ≤ s.t then { s with state := .idle, status := "online" } else s
  | _ => s

/-- `_start_talk`; `voice` tells whether `_voice_py` finds the voice client. -/
def startTalk (voice : Bool) : ShipAi :=
  match s.busy, s.recThread with
  | true, _ => s
  | false, .alive => s
  | false, _ =>
    if voice then
      { s with
        busy := true
        state := .listening
        status := "listening...  speak, then pause"
        subtitle := ""
        recThread := .alive }
    else { s with status := "no voice engines -- run clients\\install.ps1 (text mode only)" }

/-- `_on_reply`. -/
def onReply (voice : Bool) (text : String) : ShipAi :=
  let clean := stripEdges text
  { s with
    busy := false
    subtitle := clean
    state := .speaking
    speakUntil := s.t + speakSeconds clean
    status := "speaking..."
    spoken := if voice then clean :: s.spoken else s.spoken }

/-- `_on_failed`. -/
def onFailed (message : String) : ShipAi := { s with busy := false, state := .error, status := "error: " ++ message }

/-- What is connected to the client's signals. -/
def receive (voice : Bool) : Option Signal → ShipAi
  | some (.reply text _ _) => s.onReply voice text
  | some (.failed message) => s.onFailed message
  | none => s

/-- `_on_transcript`; `err` is what `_http.request` returns. -/
def onTranscript (text : String) (err : ℕ) : ShipAi :=
  let s := { s with recThread := .none }
  if text = "" then
    { s with busy := false, state := .idle, status := "online  -  (no speech heard; press T to retry)" }
  else
    let s := { s with
      subtitle := "[color=#8fd0ff]you:[/color] " ++ text
      state := .thinking
      status := "thinking..." }
    let (client, signal) := s.client.ask text err
    -- `ask` emits no reply
    { s with client := client }.receive false signal

/-- `_on_completed` of the client, and what it is connected to. -/
def completed (r : Completion) (voice : Bool) : ShipAi :=
  let (client, signal) := s.client.onCompleted r
  { s with client := client }.receive voice signal

/-- The ship's computer as it starts. -/
def start (profile apiBase : String) (voice : Bool) : ShipAi where
  client := ⟨profile, "", false, none⟩
  state := .idle
  t := 0
  busy := false
  recThread := .none
  speakUntil := 0
  status := "online  -  " ++ apiBase ++ "  -  " ++ if voice then "voice ready" else "text-only (no voice engines)"
  subtitle := "[i]Ship AI online. Press T to speak with me.[/i]"
  spoken := []

end ShipAi

/-- What happens to it. -/
inductive ShipEvent where
  /-- A frame. -/
  | process (delta : ℚ)
  /-- `T` is pressed. -/
  | talk (voice : Bool)
  /-- `_talk_worker` ends. -/
  | heard (voice : Bool) (out : Option String)
  /-- `_on_transcript` is called. -/
  | transcript (err : ℕ)
  | completed (r : Completion) (voice : Bool)

/-- The steps. -/
inductive ShipAi.Step (s : ShipAi) : ShipEvent → ShipAi → Prop
  | process {delta} (h : 0 ≤ delta) : Step s (.process delta) (s.process delta)
  | talk {voice} : Step s (.talk voice) (s.startTalk voice)
  | heard {voice out} (h : s.recThread = .alive) :
      Step s (.heard voice out) { s with recThread := .ended (talkWorker voice out) }
  | transcript {text err} (h : s.recThread = .ended text) : Step s (.transcript err) (s.onTranscript text err)
  | completed {b r voice} (h : s.client.inFlight = some b) : Step s (.completed r voice) (s.completed r voice)

/-! ### The phases -/

/-- Where a turn is. -/
inductive Phase (s : ShipAi) : Prop
  /-- `T` begins a turn. -/
  | rest (hbusy : s.busy = false) (hrec : s.recThread = .none) (hclient : s.client.busy = false)
      (hinFlight : s.client.inFlight = none) (hstate : s.state = .idle ∨ s.state = .speaking ∨ s.state = .error)
  /-- The microphone records. -/
  | listening (hbusy : s.busy = true) (hrec : s.recThread ≠ .none) (hclient : s.client.busy = false)
      (hinFlight : s.client.inFlight = none) (hstate : s.state = .listening)
  /-- The client waits for an answer. -/
  | thinking (hbusy : s.busy = true) (hrec : s.recThread = .none) (hclient : s.client.busy = true)
      (hinFlight : s.client.inFlight ≠ none) (hstate : s.state = .thinking)
  /-- Nothing is under way, and `T` does nothing. -/
  | stuck (hbusy : s.busy = true) (hrec : s.recThread = .none) (hclient : s.client.busy = false)
      (hinFlight : s.client.inFlight = none) (hstate : s.state = .thinking)

/-- It waits for nothing that could happen. -/
def Stuck (s : ShipAi) : Prop := s.busy = true ∧ s.recThread = .none ∧ s.client.inFlight = none

/-- An answer that stops `_on_completed` before it emits anything. -/
def Completion.Stops (r : Completion) : Prop :=
  r.result = 0 ∧ r.code = 200 ∧ ∃ kvs, r.data = .obj kvs ∧
    (asText (getOr kvs "conversation_id" (.str "")) = none ∨ (∀ state, getOr kvs "state" (.obj []) ≠ .obj state) ∨
      asText (getOr kvs "text" (.str "")) = none)

section Phase

variable {s t : ShipAi} {e : ShipEvent} {es : List ShipEvent}

theorem asText_getOr_eq_none_iff (kvs : List (String × Json)) (k s s' : String) :
    asText (getOr kvs k (.str s)) = none ↔ asText (getOr kvs k (.str s')) = none := by
  unfold getOr
  cases kvs.lookup k with
  | none => exact ⟨nofun, nofun⟩
  | some v => exact Iff.rfl

/-- Which answers stop the handler does not depend on the client. -/
theorem onCompleted_eq_none_iff (c : PersonaClient) (r : Completion) : (c.onCompleted r).2 = none ↔ r.Stops := by
  unfold PersonaClient.onCompleted Completion.Stops
  by_cases hresult : r.result = 0
  · by_cases hcode : r.code = 200
    · rw [if_neg (not_not.mpr hresult), if_neg (not_not.mpr hcode)]
      cases r.data with
      | obj kvs =>
        have hid := asText_getOr_eq_none_iff kvs "conversation_id" c.conversationId ""
        have hstops : (∃ kvs', Json.obj kvs = .obj kvs' ∧ (asText (getOr kvs' "conversation_id" (.str "")) = none ∨
            (∀ state, getOr kvs' "state" (.obj []) ≠ .obj state) ∨ asText (getOr kvs' "text" (.str "")) = none)) ↔
            asText (getOr kvs "conversation_id" (.str "")) = none ∨
              (∀ state, getOr kvs "state" (.obj []) ≠ .obj state) ∨ asText (getOr kvs "text" (.str "")) = none := by
          constructor
          · rintro ⟨kvs', heq, h⟩
            obtain rfl := Json.obj.inj heq
            exact h
          · exact fun h => ⟨kvs, rfl, h⟩
        rw [hstops, ← hid]
        simp only [hresult, hcode, true_and]
        cases asText (getOr kvs "conversation_id" (.str c.conversationId)) with
        | none => exact ⟨fun _ => .inl rfl, fun _ => rfl⟩
        | some cid =>
          dsimp only
          split
          · next state text hstate htext =>
            rw [hstate, htext]
            refine ⟨nofun, fun h => ?_⟩
            rcases h with hid' | hstate' | htext'
            · cases hid'
            · exact absurd rfl (hstate' state)
            · cases htext'
          · next hother =>
            refine ⟨fun _ => .inr ?_, fun _ => rfl⟩
            by_contra hboth
            obtain ⟨hstate, htext⟩ := not_or.mp hboth
            obtain ⟨state, hstate⟩ := not_forall_not.mp hstate
            obtain ⟨text, htext⟩ := Option.ne_none_iff_exists'.mp htext
            exact hother state text hstate htext
      | _ => exact ⟨nofun, fun ⟨_, _, _, h, _⟩ => nomatch h⟩
    · rw [if_neg (not_not.mpr hresult), if_pos hcode]
      exact ⟨nofun, fun h => absurd h.2.1 hcode⟩
  · rw [if_pos hresult]
    exact ⟨nofun, fun h => absurd h.1 hresult⟩

/-- What `_start_talk` does. -/
theorem ShipAi.startTalk_cases (s : ShipAi) (voice : Bool) :
    (∃ status, s.startTalk voice = { s with status := status }) ∨
      (s.busy = false ∧ s.startTalk voice = { s with
        busy := true
        state := .listening
        status := "listening...  speak, then pause"
        subtitle := ""
        recThread := .alive }) := by
  unfold startTalk
  split
  · exact .inl ⟨s.status, rfl⟩
  · exact .inl ⟨s.status, rfl⟩
  · next hbusy _ =>
    split_ifs
    · exact .inr ⟨hbusy, rfl⟩
    · exact .inl ⟨_, rfl⟩

/-- A frame leaves all but the orb and the clock. -/
theorem ShipAi.process_cases (s : ShipAi) (delta : ℚ) :
    (s.process delta = { s with t := s.t + delta } ∧ (s.state = .speaking → s.t + delta < s.speakUntil)) ∨
      (s.state = .speaking ∧ s.process delta = { s with t := s.t + delta, state := .idle, status := "online" }) := by
  unfold process
  cases hstate : s.state with
  | speaking =>
    dsimp only
    split_ifs with hover
    · exact .inr ⟨rfl, rfl⟩
    · exact .inl ⟨rfl, fun _ => not_le.mp hover⟩
  | _ => exact .inl ⟨rfl, nofun⟩

/-- What a transcript does to a client that is free. -/
theorem Phase.transcript (hclient : s.client.busy = false) (hinFlight : s.client.inFlight = none) (hbusy : s.busy = true)
    (text : String) (err : ℕ) : Phase (s.onTranscript text err) ∧ ¬Stuck (s.onTranscript text err) := by
  unfold ShipAi.onTranscript PersonaClient.ask
  by_cases htext : text = ""
  · rw [if_pos htext]
    exact ⟨.rest rfl rfl hclient hinFlight (.inl rfl), fun hs => Bool.false_ne_true hs.1⟩
  · rw [if_neg htext]
    dsimp only
    rw [hclient, if_neg Bool.false_ne_true]
    by_cases herr : err = 0
    · rw [if_neg (not_not.mpr herr)]
      refine ⟨.thinking hbusy rfl rfl ?_ rfl, fun hs => ?_⟩
      · exact Option.some_ne_none _
      · exact Option.some_ne_none _ hs.2.2
    · rw [if_pos herr]
      exact ⟨.rest rfl rfl hclient hinFlight (.inr (.inr rfl)), fun hs => Bool.false_ne_true hs.1⟩

/-- What an answer does to a computer that waits for one. -/
theorem Phase.completed (hbusy : s.busy = true) (hrec : s.recThread = .none) (hstate : s.state = .thinking) (r : Completion)
    (voice : Bool) : Phase (s.completed r voice) ∧ (Stuck (s.completed r voice) ↔ r.Stops) := by
  have hnone := onCompleted_eq_none_iff s.client r
  unfold ShipAi.completed
  dsimp only
  rw [PersonaClient.onCompleted_fst]
  cases hsignal : (s.client.onCompleted r).2 with
  | none => exact ⟨.stuck hbusy hrec rfl rfl hstate, fun _ => hnone.mp hsignal, fun _ => ⟨hbusy, hrec, rfl⟩⟩
  | some signal =>
    have hgoes : ¬r.Stops := by
      rw [← hnone, hsignal]
      exact Option.some_ne_none _
    cases signal with
    | reply text state cid =>
      exact ⟨.rest rfl hrec rfl rfl (.inr (.inl rfl)), fun hs => absurd hs.1 Bool.false_ne_true, fun h => absurd h hgoes⟩
    | failed message =>
      exact ⟨.rest rfl hrec rfl rfl (.inr (.inr rfl)), fun hs => absurd hs.1 Bool.false_ne_true, fun h => absurd h hgoes⟩

/-- An event is an answer that stops the handler. -/
def ShipEvent.Stops : ShipEvent → Prop
  | .completed r _ => r.Stops
  | _ => False

/-- What a step does to the phase. -/
theorem Phase.step (h : Phase s) (hstep : s.Step e t) : Phase t ∧ (Stuck t ↔ Stuck s ∨ e.Stops) := by
  cases hstep with
  | @process delta =>
    have hno : ¬(ShipEvent.process delta).Stops := id
    rw [or_iff_left hno]
    rcases s.process_cases delta with ⟨heq, -⟩ | ⟨hspeaking, heq⟩
    · rw [heq]
      refine ⟨?_, Iff.rfl⟩
      cases h with
      | rest hbusy hrec hclient hinFlight hstate => exact .rest hbusy hrec hclient hinFlight hstate
      | listening hbusy hrec hclient hinFlight hstate => exact .listening hbusy hrec hclient hinFlight hstate
      | thinking hbusy hrec hclient hinFlight hstate => exact .thinking hbusy hrec hclient hinFlight hstate
      | stuck hbusy hrec hclient hinFlight hstate => exact .stuck hbusy hrec hclient hinFlight hstate
    · rw [heq]
      refine ⟨?_, Iff.rfl⟩
      cases h with
      | rest hbusy hrec hclient hinFlight hstate => exact .rest hbusy hrec hclient hinFlight (.inl rfl)
      | listening _ _ _ _ hstate => exact ShipState.noConfusion (hspeaking.symm.trans hstate)
      | thinking _ _ _ _ hstate => exact ShipState.noConfusion (hspeaking.symm.trans hstate)
      | stuck _ _ _ _ hstate => exact ShipState.noConfusion (hspeaking.symm.trans hstate)
  | @talk voice =>
    have hno : ¬(ShipEvent.talk voice).Stops := id
    rw [or_iff_left hno]
    rcases s.startTalk_cases voice with ⟨status, heq⟩ | ⟨hfree, heq⟩
    · rw [heq]
      refine ⟨?_, Iff.rfl⟩
      cases h with
      | rest hbusy hrec hclient hinFlight hstate => exact .rest hbusy hrec hclient hinFlight hstate
      | listening hbusy hrec hclient hinFlight hstate => exact .listening hbusy hrec hclient hinFlight hstate
      | thinking hbusy hrec hclient hinFlight hstate => exact .thinking hbusy hrec hclient hinFlight hstate
      | stuck hbusy hrec hclient hinFlight hstate => exact .stuck hbusy hrec hclient hinFlight hstate
    · rw [heq]
      have hnot : ¬Stuck s := fun hs => Bool.false_ne_true (hfree.symm.trans hs.1)
      cases h with
      | rest _ _ hclient hinFlight => exact ⟨.listening rfl nofun hclient hinFlight rfl, nofun, fun hs => absurd hs hnot⟩
      | listening hbusy => exact absurd (hfree.symm.trans hbusy) Bool.false_ne_true
      | thinking hbusy => exact absurd (hfree.symm.trans hbusy) Bool.false_ne_true
      | stuck hbusy => exact absurd (hfree.symm.trans hbusy) Bool.false_ne_true
  | @heard voice out halive =>
    have hno : ¬(ShipEvent.heard voice out).Stops := id
    have hrecorded : s.recThread ≠ .none := by
      rw [halive]
      nofun
    rw [or_iff_left hno]
    cases h with
    | listening hbusy _ hclient hinFlight hstate =>
      exact ⟨.listening hbusy nofun hclient hinFlight hstate, nofun, fun hs => absurd hs.2.1 hrecorded⟩
    | rest _ hrec => exact absurd hrec hrecorded
    | thinking _ hrec => exact absurd hrec hrecorded
    | stuck _ hrec => exact absurd hrec hrecorded
  | @transcript text err hended =>
    have hno : ¬(ShipEvent.transcript err).Stops := id
    have hrecorded : s.recThread ≠ .none := by
      rw [hended]
      nofun
    rw [or_iff_left hno]
    cases h with
    | listening hbusy _ hclient hinFlight _ =>
      obtain ⟨hphase, hnot⟩ := Phase.transcript hclient hinFlight hbusy text err
      exact ⟨hphase, fun hs => absurd hs hnot, fun hs => absurd hs.2.1 hrecorded⟩
    | rest _ hrec => exact absurd hrec hrecorded
    | thinking _ hrec => exact absurd hrec hrecorded
    | stuck _ hrec => exact absurd hrec hrecorded
  | @completed b r voice hb =>
    have hflying : s.client.inFlight ≠ none := by
      rw [hb]
      exact Option.some_ne_none b
    have hnot : ¬Stuck s := fun hs => hflying hs.2.2
    rw [or_iff_right hnot]
    cases h with
    | thinking hbusy hrec _ _ hstate => exact Phase.completed hbusy hrec hstate r voice
    | rest _ _ _ hinFlight => exact absurd hinFlight hflying
    | listening _ _ _ hinFlight => exact absurd hinFlight hflying
    | stuck _ _ _ hinFlight => exact absurd hinFlight hflying

/-- What a run does to the phase. -/
theorem Phase.run (h : Phase s) (hrun : Run ShipAi.Step s es t) : Phase t ∧ (Stuck t ↔ Stuck s ∨ ∃ e ∈ es, e.Stops) := by
  induction hrun with
  | nil =>
    refine ⟨h, ?_⟩
    simp
  | cons hstep _ ih =>
    obtain ⟨hphase, hstuck⟩ := h.step hstep
    obtain ⟨hend, hiff⟩ := ih hphase
    refine ⟨hend, ?_⟩
    rw [hiff, hstuck, List.exists_mem_cons_iff, or_assoc]

/-! ### The orb -/

theorem speakSeconds_le (text : String) : speakSeconds text ≤ 16 := by
  unfold speakSeconds
  refine max_le ?_ (min_le_left _ _)
  norm_num

theorem speakSeconds_pos (text : String) : 0 < speakSeconds text := by
  unfold speakSeconds
  refine lt_of_lt_of_le ?_ (le_max_left _ _)
  norm_num

/-- The orb shows `speaking` until `_speak_until`, which is at most 16 s away. -/
structure Spoken (a : ℚ) (s : ShipAi) : Prop where
  before : s.state = .speaking → s.t < s.speakUntil
  soon : s.speakUntil ≤ a + 16
  clock : a ≤ s.t

theorem Spoken.now {a : ℚ} (h : Spoken a s) : Spoken s.t s :=
  ⟨h.before, h.soon.trans (by linarith only [h.clock]), le_rfl⟩

/-- A transcript is no reply. -/
theorem Spoken.transcript {a : ℚ} (h : Spoken a s) (text : String) (err : ℕ) : Spoken a (s.onTranscript text err) := by
  unfold ShipAi.onTranscript PersonaClient.ask
  by_cases htext : text = ""
  · rw [if_pos htext]
    exact ⟨nofun, h.soon, h.clock⟩
  · rw [if_neg htext]
    dsimp only
    by_cases hbusy : s.client.busy = true
    · rw [if_pos hbusy]
      exact ⟨nofun, h.soon, h.clock⟩
    · rw [if_neg hbusy]
      by_cases herr : err = 0
      · rw [if_neg (not_not.mpr herr)]
        exact ⟨nofun, h.soon, h.clock⟩
      · rw [if_pos herr]
        exact ⟨nofun, h.soon, h.clock⟩

/-- What a step that is no answer does to the orb. -/
theorem Spoken.step {a : ℚ} (h : Spoken a s) (hstep : s.Step e t) (he : ∀ r voice, e ≠ .completed r voice) : Spoken a t := by
  cases hstep with
  | @process delta hdelta =>
    have hclock : a ≤ s.t + delta := h.clock.trans (le_add_of_nonneg_right hdelta)
    rcases s.process_cases delta with ⟨heq, hbefore⟩ | ⟨-, heq⟩
    · rw [heq]
      exact ⟨hbefore, h.soon, hclock⟩
    · rw [heq]
      exact ⟨nofun, h.soon, hclock⟩
  | @talk voice =>
    rcases s.startTalk_cases voice with ⟨status, heq⟩ | ⟨-, heq⟩
    · rw [heq]
      exact ⟨h.before, h.soon, h.clock⟩
    · rw [heq]
      exact ⟨nofun, h.soon, h.clock⟩
  | heard => exact ⟨h.before, h.soon, h.clock⟩
  | transcript => exact h.transcript ..
  | completed => exact absurd rfl (he _ _)

/-- An answer is spoken for at most 16 s. -/
theorem Spoken.completed (h : Spoken s.t s) (r : Completion) (voice : Bool) :
    Spoken (s.completed r voice).t (s.completed r voice) := by
  unfold ShipAi.completed
  dsimp only
  cases (s.client.onCompleted r).2 with
  | none => exact ⟨h.before, h.soon, le_rfl⟩
  | some signal =>
    cases signal with
    | reply text state cid =>
      refine ⟨fun _ => ?_, ?_, le_rfl⟩
      · show s.t < s.t + speakSeconds (stripEdges text)
        linarith only [speakSeconds_pos (stripEdges text)]
      · show s.t + speakSeconds (stripEdges text) ≤ s.t + 16
        linarith only [speakSeconds_le (stripEdges text)]
    | failed message => exact ⟨nofun, h.soon, le_rfl⟩

theorem Spoken.run_now (h : Spoken s.t s) (hrun : Run ShipAi.Step s es t) : Spoken t.t t := by
  refine hrun.inv (I := fun u => Spoken u.t u) (fun u e v hu hstep => ?_) h
  by_cases he : ∃ r voice, e = .completed r voice
  · obtain ⟨r, voice, rfl⟩ := he
    cases hstep with
    | completed => exact hu.completed r voice
  · exact (hu.step hstep fun r voice heq => he ⟨r, voice, heq⟩).now

theorem Spoken.run {a : ℚ} (h : Spoken a s) (hrun : Run ShipAi.Step s es t) (hes : ∀ r voice, .completed r voice ∉ es) :
    Spoken a t := by
  induction hrun with
  | nil => exact h
  | cons hstep _ ih =>
    refine ih (h.step hstep fun r voice heq => hes r voice ?_) fun r voice hmem => hes r voice (List.mem_cons_of_mem _ hmem)
    rw [heq]
    exact List.mem_cons_self

/-- **The ship's computer.** In every run the flag, the orb, the microphone and the client agree on the phase; the computer
is stuck exactly if some answer stopped the handler of the client; and 16 s after the last answer the orb no longer shows
`speaking`. -/
theorem phase_of_run {profile apiBase : String} {voice : Bool} (h : Run ShipAi.Step (.start profile apiBase voice) es s) :
    Phase s ∧ (Stuck s ↔ ∃ e ∈ es, e.Stops) ∧
      ∀ es' u, Run ShipAi.Step s es' u → (∀ r voice, .completed r voice ∉ es') → s.t + 16 ≤ u.t → u.state ≠ .speaking := by
  have hphase : Phase (.start profile apiBase voice) := .rest rfl rfl rfl rfl (.inl rfl)
  have hspoken : Spoken 0 (.start profile apiBase voice) := by
    refine ⟨nofun, ?_, le_rfl⟩
    show (0 : ℚ) ≤ 0 + 16
    norm_num
  have hnot : ¬Stuck (.start profile apiBase voice) := fun hs => Bool.false_ne_true hs.1
  obtain ⟨hend, hstuck⟩ := hphase.run h
  rw [or_iff_right hnot] at hstuck
  refine ⟨hend, hstuck, fun es' u hrun hes hlate hspeaking => ?_⟩
  have hu : Spoken s.t u := (hspoken.run_now h).run hrun hes
  have hbefore := hu.before hspeaking
  have hsoon := hu.soon
  linarith only [hbefore, hsoon, hlate]

/-- A turn of the ship's computer whose answer has no conversation id. -/
theorem phase_of_run_silent :
    ∃ s, Run ShipAi.Step (.start "default" "http://localhost:8000" true)
        [.talk true, .heard true (some "Report."), .transcript 0,
          .completed ⟨0, 200, .obj [("text", .str "All is well."), ("conversation_id", .null)]⟩ true] s ∧
      Stuck s ∧ Phase s := by
  have hrun : ∃ s, Run ShipAi.Step (.start "default" "http://localhost:8000" true)
      [.talk true, .heard true (some "Report."), .transcript 0,
        .completed ⟨0, 200, .obj [("text", .str "All is well."), ("conversation_id", .null)]⟩ true] s :=
    ⟨_, .cons .talk (.cons (.heard rfl) (.cons (.transcript rfl) (.cons (.completed rfl) .nil)))⟩
  obtain ⟨s, h⟩ := hrun
  obtain ⟨hphase, hstuck, -⟩ := phase_of_run h
  refine ⟨s, h, hstuck.mpr ⟨_, List.mem_of_getLast? rfl, ?_⟩, hphase⟩
  exact ⟨rfl, rfl, _, rfl, .inl rfl⟩

end Phase

end Persona.Client
