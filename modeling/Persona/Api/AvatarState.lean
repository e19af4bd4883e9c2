import Persona.Json
import Persona.Lib.PyText
import Mathlib.Data.List.Infix

/-!
# The avatar's state

`derive_state` of `avatar_state.py`, and what `chat` sends of it. A float of the state is the rational number that it
prints as: a tenth, and fifteen hundredths for each exclamation mark, which `round` leaves as they are.
-/

namespace Persona.Api.Avatar

open Persona.Lib

/-- `EMOTIONS`. -/
def emotions : List String := ["neutral", "happy", "excited", "thinking", "concerned", "confused", "amused"]

/-- `GESTURES`. -/
def gestures : List String := ["idle", "nod", "shrug", "wave", "point", "tilt_head", "lean_in"]

/-- A row of `_CUES`. -/
structure Cue where
  emotion : String
  gesture : String
  intensity : ℚ
  keywords : List String

/-- `_CUES`. -/
def cues : List Cue :=
  [⟨"concerned", "lean_in", 6 / 10, ["sorry", "unfortunately", "error", "failed", "fail ", "cannot", "can't", "unable", "warning",
    "issue", "problem"]⟩,
   ⟨"confused", "tilt_head", 5 / 10, ["not sure", "unclear", "confus", "i don't know", "ambiguous", "unsure"]⟩,
   ⟨"excited", "nod", 8 / 10, ["awesome", "amazing", "fantastic", "let's go", "great news", "congratulations", "congrats",
    "love it"]⟩,
   ⟨"happy", "nod", 6 / 10, ["glad", "great", "happy", "thanks", "thank you", "welcome", "perfect", "nice", "good to"]⟩,
   ⟨"amused", "shrug", 5 / 10, ["haha", "lol", "funny", "joke", ":)", "fair enough"]⟩]

/-- What `derive_state` returns. -/
structure Derived where
  emotion : String
  intensity : ℚ
  gesture : String
  speaking : Bool
  viseme : String

/-- `kw in s`. -/
def within (kw s : String) : Bool := decide (kw.toList <:+: s.toList)

/-- `t.endswith("?")`, or `\?\s*$` is found in it, or `" ? "` is in it. -/
def asks (t : String) : Bool :=
  t.toList.getLast? = some '?' || (PyText.rstripL t.toList).getLast? = some '?' || within " ? " t

/-- What `derive_state` makes of a text before it looks at exclamation marks. -/
def cueOf (lower : String → String) (t : String) : Cue :=
  match cues.find? fun c => c.keywords.any (within · (lower t)) with
  | some c => c
  | none => if asks t then ⟨"thinking", "tilt_head", 5 / 10, []⟩ else ⟨"neutral", "idle", 4 / 10, []⟩

/-- `derive_state`; `lower` is `str.lower`. -/
def deriveState (lower : String → String) (text : String) (speaking : Bool) : Derived :=
  let t := PyText.strip text
  let c := cueOf lower t
  let excl := t.toList.count '!'
  let viseme := if speaking then "aa" else "sil"
  if excl = 0 then ⟨c.emotion, c.intensity, c.gesture, speaking, viseme⟩
  else
    let intensity := min 1 (c.intensity + 15 / 100 * excl)
    if c.emotion = "neutral" ∨ c.emotion = "happy" then ⟨"excited", intensity, "nod", speaking, viseme⟩
    else ⟨c.emotion, intensity, c.gesture, speaking, viseme⟩

/-- The state as it is sent. -/
def Derived.dict (d : Derived) : List (String × Json) :=
  [("emotion", .str d.emotion), ("intensity", .float (.fin d.intensity)), ("gesture", .str d.gesture),
    ("speaking", .bool d.speaking), ("viseme", .str d.viseme)]

/-- What the state is made with. -/
structure Settings where
  /-- `AVATAR_STATE_ENABLED`. -/
  enabled : Bool
  /-- `str.lower`. -/
  lower : String → String

/-- `resp["state"]`; there is none if the setting is off. -/
def stateOf (A : Settings) (reply : String) : Option (List (String × Json)) :=
  if A.enabled then some (deriveState A.lower reply false).dict else none

end Persona.Api.Avatar
