import Persona.Client.Thread
import Mathlib.Tactic.Linarith
import Mathlib.Tactic.NormNum

/-!
# The two channels

An answer of `/chat` has two channels: the reply, and the `state` that `derive_state` of `avatar_state.py` makes of it,
which `avatar.gd` animates.

`embodied_of_run` says of the desk and the server together that the state beside every reply is the one of that reply, in
the vocabulary that the face knows and takes over, whatever is pressed and whatever else the server serves; and that "voice
in, voice out" holds of a server that keeps conversations, whose answers never stop a handler.

What the face draws, and for how long, is left out.
-/

namespace Persona.Client

open Persona.Lib
open Persona.Api hiding ChatReq
open Persona.Api.Deletion (Server Persists ChatReq Noting World)
open Persona.Api.Avatar

variable {V : Type*}

/-! ### `avatar.gd` -/

/-- The keys of `EMO_COLOR`. -/
def emoColor : List String := ["neutral", "happy", "excited", "thinking", "concerned", "confused", "amused"]

/-- The gestures that `_process` animates. -/
def animated : List String := ["nod", "shrug", "lean_in", "tilt_head", "wave", "point"]

/-- The face, as far as a state directs it. -/
structure AvatarFace where
  emotion : String
  gesture : String
  /-- `_gesture_kind`. -/
  gestureKind : String

/-- `apply_state`. It stops where a value has no constructor. -/
def AvatarFace.applyState (f : AvatarFace) (state : List (String × Json)) : AvatarFace :=
  match asText (getOr state "emotion" (.str "neutral")) with
  | none => f
  | some emotion =>
    let f := { f with emotion := emotion }
    if floats (getOr state "intensity" (.float (.fin (4 / 10)))) then
      match asText (getOr state "gesture" (.str "idle")) with
      | none => f
      | some gesture => { f with gesture := gesture, gestureKind := if gesture ≠ "idle" then gesture else f.gestureKind }
    else f

/-! ### The vocabulary -/

section Vocabulary

variable {lower : String → String} {text : String} {speaking : Bool}

/-- A state that the face knows: it has a colour for the emotion and an animation for the gesture, if there is one. -/
structure Known (d : Derived) : Prop where
  emotion : d.emotion ∈ emotions ∧ d.emotion ∈ emoColor
  gesture : d.gesture ∈ gestures ∧ (d.gesture = "idle" ∨ d.gesture ∈ animated)
  intensity : 4 / 10 ≤ d.intensity ∧ d.intensity ≤ 1
  viseme : d.viseme = if d.speaking then "aa" else "sil"

/-- What a row of the table may be. -/
def Sound (c : Cue) : Prop :=
  (c.emotion ∈ emotions ∧ c.emotion ∈ emoColor) ∧ (c.gesture ∈ gestures ∧ (c.gesture = "idle" ∨ c.gesture ∈ animated)) ∧
    4 / 10 ≤ c.intensity ∧ c.intensity ≤ 1

instance (c : Cue) : Decidable (Sound c) := by
  unfold Sound
  infer_instance

theorem sound_of_mem : ∀ c ∈ cues, Sound c := by decide +kernel

theorem sound_cueOf (lower : String → String) (t : String) : Sound (cueOf lower t) := by
  unfold cueOf
  cases hfind : cues.find? fun c => c.keywords.any (within · (lower t)) with
  | some c => exact sound_of_mem c (List.mem_of_find?_eq_some hfind)
  | none =>
    dsimp only
    split_ifs
    · decide +kernel
    · decide +kernel

/-- Whatever the text, the state that is made of it is one that the face knows. -/
theorem known_deriveState (lower : String → String) (text : String) (speaking : Bool) : Known (deriveState lower text speaking) := by
  obtain ⟨hemotion, hgesture, hlow, hhigh⟩ := sound_cueOf lower (PyText.strip text)
  have hexcited : "excited" ∈ emotions ∧ "excited" ∈ emoColor := by decide
  have hnod : "nod" ∈ gestures ∧ ("nod" = "idle" ∨ "nod" ∈ animated) := by decide
  have hraised : ∀ n : ℕ, 4 / 10 ≤ min 1 ((cueOf lower (PyText.strip text)).intensity + 15 / 100 * (n : ℚ)) := by
    intro n
    have hn : (0 : ℚ) ≤ n := Nat.cast_nonneg n
    apply le_min
    · norm_num
    · linarith only [hlow, hn]
  unfold deriveState
  dsimp only
  by_cases hexcl : (PyText.strip text).toList.count '!' = 0
  · rw [if_pos hexcl]
    exact ⟨hemotion, hgesture, ⟨hlow, hhigh⟩, rfl⟩
  · rw [if_neg hexcl]
    split
    · exact ⟨hexcited, hnod, ⟨hraised _, min_le_left _ _⟩, rfl⟩
    · exact ⟨hemotion, hgesture, ⟨hraised _, min_le_left _ _⟩, rfl⟩

/-- The face takes such a state over as it is. -/
theorem applyState_dict (f : AvatarFace) (d : Derived) : (f.applyState d.dict).emotion = d.emotion ∧
    (f.applyState d.dict).gesture = d.gesture ∧ (d.gesture ≠ "idle" → (f.applyState d.dict).gestureKind = d.gesture) := by
  refine ⟨rfl, rfl, fun h => ?_⟩
  show (if d.gesture ≠ "idle" then d.gesture else f.gestureKind) = d.gesture
  exact if_pos h

end Vocabulary

/-! ### The desk and the server -/

section Embodied

variable {A : Avatar.Settings} {S : Server} {profile : String} {s s' : Joint V} {e : JointEvent V}

/-- The state beside a reply is the one of that reply. -/
def Beside (A : Avatar.Settings) (l : List Entry) : Prop :=
  ∀ r text state cid ticked voice, .answered r (some (.reply text state cid)) ticked voice ∈ l →
    state = (stateOf A text).getD []

theorem Beside.asked {l : List Entry} (h : Beside A l) (b : Body) (mic : Bool) : Beside A (.asked b mic :: l) := by
  intro r text state cid ticked voice hmem
  rcases List.mem_cons.mp hmem with heq | hold
  · cases heq
  · exact h _ _ _ _ _ _ hold

theorem Beside.answered {l : List Entry} (h : Beside A l) {r : Completion} {signal : Option Signal}
    (hsignal : ∀ text state cid, signal = some (.reply text state cid) → state = (stateOf A text).getD [])
    (ticked voice : Bool) : Beside A (.answered r signal ticked voice :: l) := by
  intro r' text state cid ticked' voice' hmem
  rcases List.mem_cons.mp hmem with heq | hold
  · obtain ⟨-, heq, -⟩ := Entry.answered.inj heq
    exact hsignal _ _ _ heq.symm
  · exact h _ _ _ _ _ _ hold

theorem failed_of_failure (c : PersonaClient) {r : Completion} (h : r.result ≠ 0 ∨ r.code ≠ 200) :
    ∃ message, (c.onCompleted r).2 = some (.failed message) := by
  unfold PersonaClient.onCompleted
  by_cases hresult : r.result = 0
  · have hcode : r.code ≠ 200 := h.resolve_left (not_not.mpr hresult)
    rw [if_neg (not_not.mpr hresult), if_pos hcode]
    exact ⟨_, rfl⟩
  · rw [if_pos hresult]
    exact ⟨_, rfl⟩

/-- A request that fails, or is lost, brings no state. -/
theorem Beside.fails {d d' : Desk} (h : Beside A d.log) {r : Completion} {ticked voice : Bool}
    (hd : d.Step (.completed r ticked voice) d') (hr : r.result ≠ 0 ∨ r.code ≠ 200) : Beside A d'.log := by
  obtain ⟨message, hsignal⟩ := failed_of_failure d.main.client hr
  cases hd with
  | completed =>
    refine h.answered (fun text state cid heq => ?_) ticked voice
    rw [hsignal] at heq
    cases heq

theorem chatIdJson_cases (P : Persistence) (r : ChatReq) : chatIdJson P r = .null ∨ ∃ c, chatIdJson P r = .str c := by
  unfold chatIdJson
  split_ifs
  · exact .inr ⟨_, rfl⟩
  · cases r.conversationId with
    | none => exact .inl rfl
    | some c => exact .inr ⟨c, rfl⟩

/-- What the client makes of an answer: the reply with its state, or nothing if its handler stops. -/
theorem signal_chatResponse (client : PersonaClient) (P : Persistence) (r : ChatReq) (reply : String) (x : Rest) :
    (client.onCompleted (success (chatResponse A P r reply x))).2 = none ∨
      ∃ c, (client.onCompleted (success (chatResponse A P r reply x))).2 = some (.reply reply ((stateOf A reply).getD []) c) := by
  rcases chatIdJson_cases P r with hnull | ⟨c, hstr⟩
  · exact .inl (by rw [(onCompleted_eq_none_iff client _).mpr (stops_chatResponse A r reply x hnull)])
  · exact .inr ⟨c, (onCompleted_chatResponse client r reply x hstr).1⟩

/-- No step puts another state beside a reply. -/
theorem Beside.step (hw : Wired profile s) (h : Beside A s.desk.log) (hstep : s.Step A S e s') : Beside A s'.desk.log := by
  cases hstep with
  | @desk e d hd he =>
    show Beside A d.log
    rcases hw.put_cases hd he with ⟨hlog, -⟩ | ⟨b, mic, hlog, -⟩
    · rw [hlog]
      exact h
    · rw [hlog]
      exact h.asked b mic
  | lost hd hr => exact h.fails hd (.inl hr)
  | arrive => exact h
  | raises => exact h
  | responds => exact h
  | @refused r data ticked voice d hwire hd => exact h.fails hd (.inr (serverError_code data))
  | @answered r reply x ticked voice d hwire hd =>
    cases hd with
    | completed =>
      refine h.answered (fun text state cid heq => ?_) ticked voice
      rcases signal_chatResponse s.desk.main.client S.persistence r reply x with hnone | ⟨c, hreply⟩
      · rw [hnone] at heq
        cases heq
      · rw [hreply] at heq
        obtain ⟨rfl, rfl, -⟩ := Signal.reply.inj (Option.some.inj heq)
        rfl
  | server => exact h

/-- The desk is attentive. -/
def Careful (s : Joint V) : JointEvent V → Prop
  | .desk e => Attentive s.desk e
  | _ => True

theorem handled_stateOf (A : Avatar.Settings) (reply c : String) :
    Handled (some (.reply reply ((stateOf A reply).getD []) c)) := by
  unfold stateOf
  cases A.enabled with
  | true => rfl
  | false => rfl

/-- A request that fails, or is lost, is handled. -/
theorem attentive_of_failure (d : Desk) {r : Completion} {ticked voice : Bool} (hr : r.result ≠ 0 ∨ r.code ≠ 200) :
    Attentive d (.completed r ticked voice) := by
  obtain ⟨message, hsignal⟩ := failed_of_failure d.main.client hr
  show Handled (d.main.client.onCompleted r).2
  rw [hsignal]
  trivial

/-- What an attentive desk says aloud, with a server whose answers name their conversation. -/
theorem voiced_step (hS : Persists S) (hw : Wired profile s) (h : Voiced s.desk.main s.desk.log) (hok : Careful s e)
    (hstep : s.Step A S e s') : Voiced s'.desk.main s'.desk.log := by
  cases hstep with
  | desk hd he => exact h.step hw.linked hok hd
  | lost hd hr => exact h.step hw.linked (attentive_of_failure s.desk (.inl hr)) hd
  | arrive => exact h
  | raises => exact h
  | responds => exact h
  | refused _ hd => exact h.step hw.linked (attentive_of_failure s.desk (.inr (serverError_code _))) hd
  | @answered r reply x ticked voice d hwire hd =>
    have hhandled : Attentive s.desk (.completed (success (chatResponse A S.persistence r reply x)) ticked voice) := by
      show Handled (s.desk.main.client.onCompleted _).2
      rw [(onCompleted_chatResponse s.desk.main.client r reply x (chatIdJson_eq hS r)).1]
      exact handled_stateOf A reply _
    exact h.step hw.linked hhandled hd
  | server => exact h

/-- **Both channels.** With `AVATAR_STATE_ENABLED` on, in every run of the desk and the server, the state beside every reply
is the one that is made of that reply, and the face knows it and takes it over. If the server keeps conversations and
neither Enter nor a suggestion is pressed while the microphone records, what is said aloud is the replies to what was spoken
and those that came while `Speak` was ticked. -/
theorem embodied_of_run (henabled : A.enabled = true) {apiBase : String} {w : World V} {es : List (JointEvent V)}
    (h : Run (Joint.Step A S) (.start profile apiBase w) es s) :
    (∀ r text state cid ticked voice, .answered r (some (.reply text state cid)) ticked voice ∈ s.desk.log →
      ∃ d, d = deriveState A.lower text false ∧ state = d.dict ∧ Known d ∧
        ∀ f : AvatarFace, (f.applyState state).emotion = d.emotion ∧ (f.applyState state).gesture = d.gesture ∧
          (d.gesture ≠ "idle" → (f.applyState state).gestureKind = d.gesture)) ∧
      (Persists S → ∀ es', Run (Guarded Careful (Joint.Step A S)) (.start profile apiBase w) es' s →
        s.desk.main.spoken = aloud s.desk.log) := by
  constructor
  · obtain ⟨-, hend⟩ : Wired profile s ∧ Beside A s.desk.log := by
      refine h.inv (I := fun s => Wired profile s ∧ Beside A s.desk.log)
        (fun _ _ _ hI hstep => ⟨hI.1.step hstep, hI.2.step hI.1 hstep⟩) ⟨wired_start profile apiBase w, nofun⟩
    intro r text state cid ticked voice hmem
    obtain rfl : state = (deriveState A.lower text false).dict := by
      rw [hend r text state cid ticked voice hmem, stateOf, if_pos henabled]
      rfl
    exact ⟨_, rfl, rfl, known_deriveState A.lower text false, fun f => applyState_dict f _⟩
  · intro hS es' h'
    obtain ⟨-, hend⟩ : Wired profile s ∧ Voiced s.desk.main s.desk.log := by
      refine h'.inv (I := fun s => Wired profile s ∧ Voiced s.desk.main s.desk.log)
        (fun _ _ _ hI hstep => ⟨hI.1.step hstep.2, voiced_step hS hI.1 hI.2 hstep.1 hstep.2⟩)
        ⟨wired_start profile apiBase w, rfl, rfl, fun hne => absurd rfl hne, nofun⟩
    exact hend.spoken

/-- A message is typed, put, and answered while `Speak` is ticked. -/
def spokenGreeting : List (JointEvent ℤ) :=
  [.desk (.typed "hi"), .desk (.submit 0), .arrive first, .server (.reply 0 (some "hello") 1), .responds noNotes ⟨"", []⟩,
    .answered true true]

theorem embodied_of_run_greeting :
    ∃ s, Run (Joint.Step lively Deletion.plainServer) (.start "default" "http://localhost:8000" (World.quiet .empty))
        spokenGreeting s ∧ s.desk.main.spoken = ["hello"] := by
  have hrun : ∃ s, Run (Guarded Careful (Joint.Step lively Deletion.plainServer))
      (.start "default" "http://localhost:8000" (World.quiet .empty)) spokenGreeting s ∧ aloud s.desk.log = ["hello"] :=
    ⟨_, .cons ⟨trivial, .desk .typed nofun⟩ (.cons ⟨rfl, .desk .submit nofun⟩
      (.cons ⟨trivial, .arrive rfl rfl rfl rfl .chat⟩
      (.cons ⟨trivial, .server (.replied (t := waiting "u") (.head _) rfl) fun _ _ _ => ⟨nofun, nofun⟩⟩
      (.cons ⟨trivial, .responds (t := { waiting "u" with stage := .distilling "hello" }) rfl (.head _) rfl
        (.noted (t := { waiting "u" with stage := .distilling "hello" }) (.head _) rfl)⟩
      (.cons ⟨trivial, .answered rfl (.completed rfl)⟩ .nil))))), rfl⟩
  obtain ⟨s, h, haloud⟩ := hrun
  have hfree := h.of_guarded
  exact ⟨s, hfree, ((embodied_of_run rfl hfree).2 ⟨rfl, rfl⟩ _ h).trans haloud⟩

end Embodied

end Persona.Client
